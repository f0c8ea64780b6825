import Featherweight.Expr.Basic

/-!
# Reading tokens

A parser works on the tokens that are still to be read. When it fails it leaves them where it
stopped, so that reading may go on from there. The end of the input is never passed: it stays the
next token however often it is read, and where a list of tokens does not end with it, it is taken to
follow.
-/

namespace Featherweight

/-- What a rule of the grammar asks for at one place. -/
inductive Expected where
  | semicolonAfterExpression
  | braceAfterBlock
  | parenAfterIf
  | parenAfterWhile
  | parenAfterCondition
  | functionName
  | parenAfterFunction
  | parameterName
  | parenAfterParameters
  | braceBeforeBody
  | variableName
  | parenAfterArguments
  | parenAfterExpression
  | parenAfterPrint
  | parenAfterOperand
  deriving DecidableEq, Repr

namespace Expected

/-- The kind of token asked for. -/
def kind : Expected → TokenKind
  | semicolonAfterExpression => .symbol .semicolon
  | braceAfterBlock          => .symbol .rightBrace
  | parenAfterIf             => .symbol .leftParen
  | parenAfterWhile          => .symbol .leftParen
  | parenAfterCondition      => .symbol .rightParen
  | functionName             => .identifier
  | parenAfterFunction       => .symbol .leftParen
  | parameterName            => .identifier
  | parenAfterParameters     => .symbol .rightParen
  | braceBeforeBody          => .symbol .leftBrace
  | variableName             => .identifier
  | parenAfterArguments      => .symbol .rightParen
  | parenAfterExpression     => .symbol .rightParen
  | parenAfterPrint          => .symbol .leftParen
  | parenAfterOperand        => .symbol .rightParen

/-- The wording of what is asked for. -/
def text : Expected → String
  | semicolonAfterExpression => "Expected ';' after expression"
  | braceAfterBlock          => "Expected '\x7d' after block"
  | parenAfterIf             => "Expected '(' after 'if'"
  | parenAfterWhile          => "Expected '(' after 'while'"
  | parenAfterCondition      => "Expected ')' after condition"
  | functionName             => "Expected function name"
  | parenAfterFunction       => "Expected '(' after 'function'"
  | parameterName            => "Expected parameter name"
  | parenAfterParameters     => "Expected ')' after parameters"
  | braceBeforeBody          => "Expected '\x7b' before function body"
  | variableName             => "Expected variable name"
  | parenAfterArguments      => "Expected ')' after arguments"
  | parenAfterExpression     => "Expected ')' after expression"
  | parenAfterPrint          => "Expected '(' after 'print'"
  | parenAfterOperand        => "Expected ')' after print operand"

theorem kind_ne_eof (what : Expected) : what.kind ≠ .eof := by cases what <;> decide

end Expected

/-- What stands where something else was expected. -/
inductive Found where
  | endOfInput
  | lexeme (text : String)
  deriving DecidableEq, Repr

/-- A token as a message shows it. -/
def Token.found (t : Token) : Found := if t.kind = .eof then .endOfInput else .lexeme t.lexeme

/-- A way in which tokens are not a program. -/
inductive ParseFault where
  | expected (what : Expected) (found : Found)
  | noExpression (found : Found)
  | tooManyParameters
  | tooManyArguments
  deriving DecidableEq, Repr

/-- The wording of a fault. -/
def ParseFault.message : ParseFault → String
  | expected what .endOfInput  => what.text ++ ", found end of input"
  | expected what (.lexeme s)  => what.text ++ ", found '" ++ s ++ "'"
  | noExpression .endOfInput   => "Expected expression at end of input"
  | noExpression (.lexeme s)   => "Expected expression at '" ++ s ++ "'"
  | tooManyParameters          => "Cannot have more than 255 parameters"
  | tooManyArguments           => "Cannot have more than 255 arguments"

/-- A fault and the line it is on. -/
structure ParseError where
  line : Nat
  fault : ParseFault
  deriving DecidableEq, Repr

/-- A reader of tokens. The state is what is still to be read, after a failure as well. -/
abbrev Parser := EStateM ParseError (List Token)

namespace Parser

/-- The end of input that follows the last token. -/
def endOfInput : Token := ⟨.eof, "", 0⟩

/-- The next token. -/
def next (ts : List Token) : Token := ts.headD endOfInput

/-- The tokens after the next one. -/
def afterNext (ts : List Token) : List Token := if (next ts).kind = .eof then ts else ts.tail

/-- The next token, without reading it. -/
def peek : Parser Token := fun ts => .ok (next ts) ts

/-- Read the next token. -/
def take : Parser Token := fun ts => .ok (next ts) (afterNext ts)

/-- Read the next token if it is of that kind. -/
def accept (kind : TokenKind) : Parser Bool := fun ts =>
  if (next ts).kind = kind then .ok true (afterNext ts) else .ok false ts

/-- Read the next token, which must be as expected. -/
def expect (what : Expected) : Parser Token := fun ts =>
  if (next ts).kind = what.kind then .ok (next ts) (afterNext ts)
  else .error ⟨(next ts).line, .expected what (next ts).found⟩ ts

/-- Are the next two tokens of these kinds? Nothing is read. -/
def ahead (first second : TokenKind) : Parser Bool := fun ts =>
  .ok ((next ts).kind = first && (next (afterNext ts)).kind = second) ts

/-- Fail for want of an expression at the token `t`. -/
def noExpression {α : Type} (t : Token) : Parser α := throw ⟨t.line, .noExpression t.found⟩

end Parser

end Featherweight
