import Featherweight.Eval.Error

/-!
# Operators

Every operator takes two integers. Arithmetic is on 64 bits with a sign and wraps; quotients are
rounded toward zero, and a remainder has the sign of the dividend. Of two operands that are no
integers the left one is to blame.
-/

namespace Featherweight

/-- The integer that `v` is, at a place that wants one. -/
def Value.asInt (place : Place) (v : Value) : Except RuntimeError Int64 :=
  match v with
  | .int n => .ok n
  | v      => .error (.typeMismatch place v.kind)

/-- The truth value that `v` is, at a place that wants one. -/
def Value.asBool (place : Place) (v : Value) : Except RuntimeError Bool :=
  match v with
  | .bool b => .ok b
  | v       => .error (.typeMismatch place v.kind)

/-- The closure that `v` is, at a place that wants one. -/
def Value.asClosure (place : Place) (v : Value) : Except RuntimeError Closure :=
  match v with
  | .closure c => .ok c
  | v          => .error (.typeMismatch place v.kind)

namespace BinaryOp

/-- The operator on two integers. -/
def compute (op : BinaryOp) (a b : Int64) : Except RuntimeError Value :=
  match op with
  | add          => .ok (.int (a + b))
  | subtract     => .ok (.int (a - b))
  | multiply     => .ok (.int (a * b))
  | divide       => if b = 0 then .error .divisionByZero else .ok (.int (a / b))
  | modulo       => if b = 0 then .error .moduloByZero else .ok (.int (a % b))
  | greater      => .ok (.bool (b < a))
  | greaterEqual => .ok (.bool (b ≤ a))
  | less         => .ok (.bool (a < b))
  | lessEqual    => .ok (.bool (a ≤ b))
  | equal        => .ok (.bool (a = b))

/-- The operator on two values. -/
def apply (op : BinaryOp) (v w : Value) : Except RuntimeError Value := do
  op.compute (← v.asInt (.operand op)) (← w.asInt (.operand op))

end BinaryOp

end Featherweight
