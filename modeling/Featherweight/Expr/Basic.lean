import Featherweight.Token.Basic

/-!
# Programs and values

A program of Featherweight JavaScript is one expression tree, and statements are expressions too. A
tree may hold any value as a literal, so trees, values and closures are defined together: a closure
is a function with the scope it was made in, and its body is a tree.

Every function in a tree carries a *site*, the number by which closures tell the functions of a
program apart. Two closures are the same when they come from one site and captured one scope.
-/

namespace Featherweight

/-- Operators with two operands. -/
inductive BinaryOp where
  | add | subtract | multiply | divide | modulo
  | greater | greaterEqual | less | lessEqual | equal
  deriving DecidableEq, Repr

namespace BinaryOp

/-- Every operator. -/
def all : List BinaryOp :=
  [add, subtract, multiply, divide, modulo, greater, greaterEqual, less, lessEqual, equal]

/-- The symbol of an operator. -/
def symbol : BinaryOp → Symbol
  | add          => .plus
  | subtract     => .minus
  | multiply     => .star
  | divide       => .slash
  | modulo       => .percent
  | greater      => .greater
  | greaterEqual => .greaterEqual
  | less         => .less
  | lessEqual    => .lessEqual
  | equal        => .equalEqual

/-- How an operator is written. -/
def text (op : BinaryOp) : String := op.symbol.text

/-- The operator written that way. -/
def ofText? (text : String) : Option BinaryOp := all.find? fun op => op.text = text

end BinaryOp

/-- Scopes are numbered in the order in which they are made. -/
abbrev ScopeId := Nat

/-- Functions are numbered in the order in which their program is taken in. -/
abbrev Site := Nat

mutual

/-- An expression tree. -/
inductive Expr where
  | literal (value : Value)
  | ident (name : String)
  | print (operand : Expr)
  | binary (op : BinaryOp) (left right : Expr)
  | ifElse (condition yes no : Expr)
  | loop (condition body : Expr)
  | seq (first second : Expr)
  | declare (name : String) (initial : Expr)
  | assign (name : String) (value : Expr)
  | function (site : Site) (params : List String) (body : Expr)
  | call (callee : Expr) (args : List Expr)

/-- What an expression evaluates to. -/
inductive Value where
  | int (n : Int64)
  | bool (b : Bool)
  | null
  | closure (c : Closure)

/-- A function together with the scope it was made in. -/
structure Closure where
  site : Site
  params : List String
  body : Expr
  scope : ScopeId

end

/-- The number of arguments a closure takes. -/
def Closure.arity (c : Closure) : Nat := c.params.length

namespace Expr

/-- The literal `null`. -/
def null : Expr := .literal .null

/-- An integer literal. -/
def int (n : Int64) : Expr := .literal (.int n)

/-- A truth value. -/
def bool (b : Bool) : Expr := .literal (.bool b)

/-- Minus an expression is zero less the expression. -/
def negate (e : Expr) : Expr := .binary .subtract (int 0) e

/-- Expressions one after the other; nothing at all is `null`. -/
def sequence : List Expr → Expr
  | []           => null
  | [e]          => e
  | e :: e' :: es => .seq e (sequence (e' :: es))

end Expr

end Featherweight
