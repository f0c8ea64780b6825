import Featherweight.Expr.Value

/-!
# Failures of a run

What can go wrong while a program runs. Every place that wants a value of one kind says which, so a
mismatch needs only the place and the kind that was found there.
-/

namespace Featherweight

/-- A place that wants a value of one kind. -/
inductive Place where
  | operand (op : BinaryOp)
  | ifCondition
  | whileCondition
  | callee
  deriving DecidableEq, Repr

namespace Place

/-- The kind of value wanted at a place. -/
def expected : Place → ValueKind
  | operand _      => .int
  | ifCondition    => .bool
  | whileCondition => .bool
  | callee         => .closure

/-- How a place is called in messages. -/
def text : Place → String
  | operand op     => "operator '" ++ op.text ++ "'"
  | ifCondition    => "if condition"
  | whileCondition => "while condition"
  | callee         => "function application"

end Place

/-- The reason why a run fails. -/
inductive RuntimeError where
  | typeMismatch (place : Place) (found : ValueKind)
  | duplicateDeclaration (name : String)
  | divisionByZero
  | moduloByZero
  | arityMismatch (expected found : Nat)
  | sinkFull
  | flushFailed
  deriving DecidableEq, Repr

end Featherweight
