import Featherweight.Parser.Basic

/-!
# The grammar

```text
program    → statement* EOF
statement  → ";" | block
           | "if" "(" expression ")" statement ( "else" statement )?
           | "while" "(" expression ")" statement
           | "function" IDENT "(" parameters? ")" block
           | expression ";"
block      → "{" statement* "}"
parameters → IDENT ( "," IDENT )*
expression → "var" IDENT ( "=" expression )?
           | IDENT "=" expression
           | comparison
comparison → term ( ( ">" | ">=" | "<" | "<=" | "==" ) term )*
term       → factor ( ( "+" | "-" ) factor )*
factor     → unary ( ( "*" | "/" | "%" ) unary )*
unary      → "-" unary | call
call       → primary ( "(" arguments? ")" )*
arguments  → expression ( "," expression )*
primary    → INT | "true" | "false" | "null" | IDENT
           | "(" expression ")"
           | "print" "(" expression ")"
           | "function" "(" parameters? ")" block
```

Each rule is a parser that is given the parsers of the expressions and statements inside it, and the
number of times a repetition may go round. The rules are tied together by depth: `expression n` and
`statement n` read everything made of fewer than `n` tokens, as what is nested inside another rule
has at least one token less. `program` takes a depth that its tokens cannot exceed.

Functions that are read have site zero; they are numbered when the program is taken in.
-/

namespace Featherweight.Parser

/-- The most parameters a function may have, and the most arguments a call may have. -/
def maxArity : Nat := 255

/-! ### Expressions -/

/-- The first of the operators whose symbol comes next, which is read. -/
def operator : List BinaryOp → Parser (Option BinaryOp)
  | []        => pure none
  | op :: ops => do if ← accept (.symbol op.symbol) then pure (some op) else operator ops

/-- Go on from `left` with operators and operands, grouped to the left. -/
def chainFrom (ops : List BinaryOp) (operand : Parser Expr) : Nat → Expr → Parser Expr
  | 0, left => pure left
  | n + 1, left => do
    match ← operator ops with
    | none    => pure left
    | some op => chainFrom ops operand n (.binary op left (← operand))

/-- Operands joined by operators of one rank. -/
def chain (ops : List BinaryOp) (operand : Parser Expr) (n : Nat) : Parser Expr := do
  chainFrom ops operand n (← operand)

/-- An operand with minus signs before it. -/
def negated (operand : Parser Expr) : Nat → Parser Expr
  | 0 => operand
  | n + 1 => do
    if ← accept (.symbol .minus) then return .negate (← negated operand n) else operand

/-- A list that is empty if a closing parenthesis comes next. -/
def listUntilParen {α : Type} (items : Parser (List α)) : Parser (List α) := do
  if (← peek).kind = .symbol .rightParen then pure [] else items

/-- At least one argument and at most `room`, with commas between. -/
def arguments (expression : Parser Expr) : Nat → Parser (List Expr)
  | 0 => do throw ⟨(← peek).line, .tooManyArguments⟩
  | room + 1 => do
    let e ← expression
    if ← accept (.symbol .comma) then return e :: (← arguments expression room) else return [e]

/-- The arguments of a call and the parenthesis after them. -/
def argumentList (expression : Parser Expr) : Parser (List Expr) := do
  let args ← listUntilParen (arguments expression maxArity)
  let _ ← expect .parenAfterArguments
  return args

/-- Go on from `callee` with the argument lists that follow. -/
def callsFrom (expression : Parser Expr) : Nat → Expr → Parser Expr
  | 0, callee => pure callee
  | n + 1, callee => do
    if ← accept (.symbol .leftParen) then
      callsFrom expression n (.call callee (← argumentList expression))
    else pure callee

/-- At least one parameter and at most `room`, with commas between. `line` is to blame for more. -/
def parameters (line : Nat) : Nat → Parser (List String)
  | 0 => throw ⟨line, .tooManyParameters⟩
  | room + 1 => do
    let name ← expect .parameterName
    if ← accept (.symbol .comma) then return name.lexeme :: (← parameters line room)
    else return [name.lexeme]

/-- Statements up to the end of the input or the token that closes them. Empty ones are dropped. -/
def statements (close : TokenKind) (statement : Parser (Option Expr)) : Nat → Parser (List Expr)
  | 0 => pure []
  | n + 1 => do
    let t ← peek
    if t.kind = close ∨ t.kind = .eof then pure []
    else
      let e ← statement
      return e.toList ++ (← statements close statement n)

/-- A block after its opening brace. -/
def block (statement : Parser (Option Expr)) (n : Nat) : Parser Expr := do
  let es ← statements (.symbol .rightBrace) statement n
  let _ ← expect .braceAfterBlock
  return .sequence es

/-- The parameters and the body of a function. -/
def function (statement : Parser (Option Expr)) (n : Nat) : Parser Expr := do
  let paren ← expect .parenAfterFunction
  let params ← listUntilParen (parameters paren.line maxArity)
  let _ ← expect .parenAfterParameters
  let _ ← expect .braceBeforeBody
  return .function 0 params (← block statement n)

/-- A literal, a name, an expression in parentheses, a `print` or a function, which begins with the
token `t`. -/
def primaryFrom (expression : Parser Expr) (statement : Parser (Option Expr)) (n : Nat)
    (t : Token) : Parser Expr := do
  match t.kind with
  | .int value             => return .int value
  | .keyword .trueWord     => return .bool true
  | .keyword .falseWord    => return .bool false
  | .keyword .nullWord     => return .null
  | .identifier            => return .ident t.lexeme
  | .symbol .leftParen     =>
    let e ← expression
    let _ ← expect .parenAfterExpression
    return e
  | .keyword .printWord    =>
    let _ ← expect .parenAfterPrint
    let e ← expression
    let _ ← expect .parenAfterOperand
    return .print e
  | .keyword .functionWord => function statement n
  | _                      => noExpression t

/-- An expression with no operator and no call at its top. -/
def primary (expression : Parser Expr) (statement : Parser (Option Expr)) (n : Nat) :
    Parser Expr := do
  primaryFrom expression statement n (← take)

/-- A primary expression and the argument lists after it. -/
def call (expression : Parser Expr) (statement : Parser (Option Expr)) (n : Nat) :
    Parser Expr := do
  callsFrom expression n (← primary expression statement n)

/-- A call with minus signs before it. -/
def unary (expression : Parser Expr) (statement : Parser (Option Expr)) (n : Nat) : Parser Expr :=
  negated (call expression statement n) n

/-- A product. -/
def factor (expression : Parser Expr) (statement : Parser (Option Expr)) (n : Nat) : Parser Expr :=
  chain [.multiply, .divide, .modulo] (unary expression statement n) n

/-- A sum. -/
def term (expression : Parser Expr) (statement : Parser (Option Expr)) (n : Nat) : Parser Expr :=
  chain [.add, .subtract] (factor expression statement n) n

/-- A comparison. -/
def comparison (expression : Parser Expr) (statement : Parser (Option Expr)) (n : Nat) :
    Parser Expr :=
  chain [.greater, .greaterEqual, .less, .lessEqual, .equal] (term expression statement n) n

/-- The initial value of a declaration, which is `null` if none is given. -/
def initialValue (expression : Parser Expr) : Parser Expr := do
  if ← accept (.symbol .equal) then expression else pure .null

/-- A declaration after `var`. -/
def declaration (expression : Parser Expr) : Parser Expr := do
  let name ← expect .variableName
  return .declare name.lexeme (← initialValue expression)

/-- An assignment after its name. -/
def assignment (expression : Parser Expr) (name : Token) : Parser Expr := do
  let _ ← take
  return .assign name.lexeme (← expression)

/-- An expression, given parsers for the expressions and statements inside it. -/
def expressionOf (expression : Parser Expr) (statement : Parser (Option Expr)) (n : Nat) :
    Parser Expr := do
  if ← accept (.keyword .varWord) then declaration expression
  else if ← ahead .identifier (.symbol .equal) then assignment expression (← take)
  else comparison expression statement n

/-! ### Statements -/

/-- The statement after a condition or an `else`; an empty one is `null`. -/
def body (statement : Parser (Option Expr)) : Parser Expr := return (← statement).getD .null

/-- The part of a conditional after `else`, which is `null` if there is none. -/
def alternative (statement : Parser (Option Expr)) : Parser Expr := do
  if ← accept (.keyword .elseWord) then body statement else pure .null

/-- A conditional after `if`. An `else` belongs to the nearest `if` that has none. -/
def conditional (expression : Parser Expr) (statement : Parser (Option Expr)) : Parser Expr := do
  let _ ← expect .parenAfterIf
  let condition ← expression
  let _ ← expect .parenAfterCondition
  let yes ← body statement
  return .ifElse condition yes (← alternative statement)

/-- A loop after `while`. -/
def whileLoop (expression : Parser Expr) (statement : Parser (Option Expr)) : Parser Expr := do
  let _ ← expect .parenAfterWhile
  let condition ← expression
  let _ ← expect .parenAfterCondition
  return .loop condition (← body statement)

/-- A function with a name, after `function`. It declares the name. -/
def namedFunction (statement : Parser (Option Expr)) (n : Nat) : Parser Expr := do
  let name ← expect .functionName
  return .declare name.lexeme (← function statement n)

/-- An expression and the semicolon after it. -/
def expressionStatement (expression : Parser Expr) : Parser Expr := do
  let e ← expression
  let _ ← expect .semicolonAfterExpression
  return e

/-- A statement, given a parser for expressions and one for the statements inside it. An empty
statement is none. -/
def statementOf (expression : Parser Expr) (statement : Parser (Option Expr)) (n : Nat) :
    Parser (Option Expr) := do
  if ← accept (.symbol .semicolon) then return none
  else if ← accept (.symbol .leftBrace) then return some (← block statement n)
  else if ← accept (.keyword .ifWord) then return some (← conditional expression statement)
  else if ← accept (.keyword .whileWord) then return some (← whileLoop expression statement)
  else if ← ahead (.keyword .functionWord) .identifier then
    let _ ← take
    return some (← namedFunction statement n)
  else return some (← expressionStatement expression)

/-! ### Tying the rules together -/

mutual

/-- An expression of fewer than `n` tokens. -/
def expression : Nat → Parser Expr
  | 0     => do noExpression (← peek)
  | n + 1 => expressionOf (expression n) (statement n) (n + 1)

/-- A statement of fewer than `n` tokens. -/
def statement : Nat → Parser (Option Expr)
  | 0     => do noExpression (← peek)
  | n + 1 => statementOf (expressionOf (expression n) (statement n) (n + 1)) (statement n) (n + 1)

end

@[simp] theorem expression_succ (n : Nat) :
    expression (n + 1) = expressionOf (expression n) (statement n) (n + 1) := rfl

@[simp] theorem statement_succ (n : Nat) :
    statement (n + 1) = statementOf (expression (n + 1)) (statement n) (n + 1) := rfl

/-- A whole program: all statements up to the end of the input. -/
def program : Parser Expr := do
  let depth := (← get).length + 1
  return .sequence (← statements .eof (statement depth) depth)

end Featherweight.Parser
