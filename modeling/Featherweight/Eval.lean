import Featherweight.Eval.Basic
import Featherweight.Eval.Operator

/-!
# Evaluation

`eval n t e` evaluates the tree `t` in the scope `e` within `n` nested steps. Operands and arguments
are evaluated from left to right, and a failure ends the run where it arises.

A function makes a closure of the scope it is evaluated in, which is recorded under its own text as
well. Applying a closure makes a scope inside the one it captured, binds the arguments there and
evaluates the body.

One step (`evalNode`) is given how to evaluate the trees below, so that what holds of a step holds
of a whole run by induction on `n`. A step is put together from runs on the store and the sink, and
is done in any monad that these can be done in: in `Run` itself, or in one that keeps account of
them.
-/

namespace Featherweight

namespace Run

/-- The answer, or a halt at the failure. -/
def ofExcept {α : Type} : Except RuntimeError α → Run α
  | .ok a    => pure a
  | .error e => fail e

/-- Halt for want of steps. -/
def exhausted {α : Type} : Run α := throw .exhausted

/-- Bind a closure under its own text. -/
def record (c : Closure) : Run Unit := update c.scope c.render (.closure c)

section

variable {M : Type → Type} [Monad M] [MonadLiftT Run M]

/-- The truth value that a run answers with, at a place that wants one. -/
@[inline] def condition (place : Place) (run : M Value) : M Bool := do
  ofExcept ((← run).asBool place)

/-- Run `body` as long as `guard` holds, at most `n` times. The answer is that of the last
`body`. -/
@[specialize] def iterate (guard : M Bool) (body : M Value) : Nat → Value → M Value
  | 0, _ => exhausted
  | n + 1, last => do if ← guard then iterate guard body n (← body) else pure last

/-- Declare each parameter with its argument, in order. -/
@[specialize] def bindAll (e : ScopeId) : List (String × Value) → M Unit
  | []          => pure ()
  | (x, v) :: r => do declare e x v; bindAll e r

end

end Run

open Run

section

variable {M : Type → Type} [Monad M] [MonadLiftT Run M]

/-- The value of a closure applied to arguments, given how to evaluate its body. -/
@[inline] def applyWith (self : Expr → ScopeId → M Value) (c : Closure) (args : List Value) :
    M Value := do
  if args.length = c.arity then
    let frame ← newScope c.scope
    bindAll frame (c.params.zip args)
    self c.body frame
  else fail (.arityMismatch c.arity args.length)

/-- The value of a tree in the scope `e`, given how to evaluate others. `made` is done with a
closure that is made, and a loop goes round at most `n` times. -/
@[inline] def evalNode (made : Closure → Run Unit) (self : Expr → ScopeId → M Value) (n : Nat)
    (e : ScopeId) : Expr → M Value
  | .literal v => pure v
  | .ident x => resolve e x
  | .print t => do
    let v ← self t e
    printLine v.render
    return v
  | .binary op l r => do
    let v ← self l e
    let w ← self r e
    ofExcept (op.apply v w)
  | .ifElse c yes no => do
    if ← condition .ifCondition (self c e) then self yes e else self no e
  | .loop c body => iterate (condition .whileCondition (self c e)) (self body e) n .null
  | .seq a b => do
    let _ ← self a e
    self b e
  | .declare x t => do
    let v ← self t e
    declare e x v
    return v
  | .assign x t => do
    let v ← self t e
    update e x v
    return v
  | .function site params body => do
    let c : Closure := ⟨site, params, body, e⟩
    made c
    return .closure c
  | .call f args => do
    let v ← self f e
    let c ← ofExcept (v.asClosure .callee)
    let vs ← args.mapM fun t => self t e
    applyWith self c vs

/-- The value of a tree in a scope within `n` nested steps, where `made` is done with every closure
that is made. -/
@[specialize] def evalWith (made : Closure → Run Unit) : Nat → Expr → ScopeId → M Value
  | 0, _, _     => exhausted
  | n + 1, t, e => evalNode made (evalWith made n) n e t

/-- The value of a program in the globals, after which the sink is flushed. `made` is done with
every closure that is made. -/
@[specialize] def interpretWith (made : Closure → Run Unit) (n : Nat) (program : Expr) :
    M Value := do
  let v ← evalWith made n program Store.globals
  flush
  return v

end

/-- The value of a tree in a scope within `n` nested steps. -/
def eval : Nat → Expr → ScopeId → Run Value := evalWith record

/-- The value of a closure applied to arguments. -/
def apply (n : Nat) : Closure → List Value → Run Value := applyWith (eval n)

/-- The value of a program in the globals, after which the sink is flushed. -/
def interpret (n : Nat) (program : Expr) : Run Value := interpretWith record n program

end Featherweight
