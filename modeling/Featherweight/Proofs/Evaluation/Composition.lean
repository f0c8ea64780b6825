import Featherweight.Eval

/-!
# What holds of every evaluation

A property of runs is compositional when it holds of everything that the evaluator does to a
machine, of answers, of the halts it raises by itself, and of one run after another if it holds of
each. Evaluation is put together from these, so a compositional property holds of every evaluation
(`Compositional.evalWith`), by induction on the steps granted.

By itself the evaluator halts for want of steps, or because a value does not fit where it stands
(`RuntimeError.Misfit`). All other failures come from the store or the sink.
-/

namespace Featherweight

variable {α β : Type}

/-! ### Values that do not fit -/

/-- Is the failure one of values that do not fit, and do they not? -/
inductive RuntimeError.Misfit : RuntimeError → Prop
  | typeMismatch {place : Place} {found : ValueKind} (h : found ≠ place.expected) :
      Misfit (.typeMismatch place found)
  | divisionByZero : Misfit .divisionByZero
  | moduloByZero : Misfit .moduloByZero
  | arityMismatch {expected found : Nat} (h : expected ≠ found) :
      Misfit (.arityMismatch expected found)

section

variable {place : Place} {v w : Value} {err : RuntimeError}

theorem Value.misfit_asInt (hplace : place.expected = .int) (h : v.asInt place = .error err) :
    err.Misfit := by
  cases v <;> cases h <;> exact .typeMismatch (hplace ▸ nofun)

theorem Value.misfit_asBool (hplace : place.expected = .bool) (h : v.asBool place = .error err) :
    err.Misfit := by
  cases v <;> cases h <;> exact .typeMismatch (hplace ▸ nofun)

theorem Value.misfit_asClosure (hplace : place.expected = .closure)
    (h : v.asClosure place = .error err) : err.Misfit := by
  cases v <;> cases h <;> exact .typeMismatch (hplace ▸ nofun)

variable {op : BinaryOp}

theorem BinaryOp.misfit_compute {a b : Int64} (h : op.compute a b = .error err) : err.Misfit := by
  cases op with
  | divide =>
    simp only [compute] at h
    split at h <;> cases h
    exact .divisionByZero
  | modulo =>
    simp only [compute] at h
    split at h <;> cases h
    exact .moduloByZero
  | _ => cases h

theorem BinaryOp.misfit_apply (h : op.apply v w = .error err) : err.Misfit := by
  unfold apply at h
  cases hv : v.asInt (.operand op) with
  | error e =>
    rw [hv] at h
    cases h
    exact Value.misfit_asInt rfl hv
  | ok a =>
    rw [hv] at h
    cases hw : w.asInt (.operand op) with
    | error e =>
      rw [hw] at h
      cases h
      exact Value.misfit_asInt rfl hw
    | ok b =>
      rw [hw] at h
      exact misfit_compute h

end

/-! ### Compositional properties -/

/-- Does the property hold of whatever an evaluation is made of? -/
structure Compositional (P : ∀ {α : Type}, Run α → Prop) : Prop where
  pure : ∀ {α : Type} (a : α), P (Pure.pure a : Run α)
  exhausted : ∀ {α : Type}, P (Run.exhausted : Run α)
  fail : ∀ {α : Type} {err : RuntimeError}, err.Misfit → P (Run.fail err : Run α)
  bind : ∀ {α β : Type} {r : Run α} {f : α → Run β}, P r → (∀ a, P (f a)) → P (r >>= f)
  resolve : ∀ (e : ScopeId) (x : String), P (Run.resolve e x)
  update : ∀ (e : ScopeId) (x : String) (v : Value), P (Run.update e x v)
  declare : ∀ (e : ScopeId) (x : String) (v : Value), P (Run.declare e x v)
  newScope : ∀ p : Option ScopeId, P (Run.newScope p)
  printLine : ∀ text : String, P (Run.printLine text)
  flush : P Run.flush

namespace Compositional

variable {P : ∀ {α : Type}, Run α → Prop} (hP : Compositional P)

include hP

theorem ofExcept {o : Except RuntimeError α} (ho : ∀ {err}, o = .error err → err.Misfit) :
    P (Run.ofExcept o) := by
  cases o with
  | ok a    => exact hP.pure a
  | error e => exact hP.fail (ho rfl)

theorem condition {place : Place} (hplace : place.expected = .bool) {r : Run Value} (hr : P r) :
    P (Run.condition place r) :=
  hP.bind hr fun _ => hP.ofExcept (Value.misfit_asBool hplace)

theorem iterate {guard : Run Bool} {body : Run Value} (hguard : P guard) (hbody : P body) (n : Nat)
    (last : Value) : P (Run.iterate guard body n last) := by
  induction n generalizing last with
  | zero => exact hP.exhausted
  | succ n ih =>
    refine hP.bind hguard fun go => ?_
    cases go with
    | true  => exact hP.bind hbody fun v => ih v
    | false => exact hP.pure last

theorem bindAll (e : ScopeId) (bs : List (String × Value)) : P (Run.bindAll e bs : Run Unit) := by
  induction bs with
  | nil         => exact hP.pure ()
  | cons b _ ih => exact hP.bind (hP.declare e b.1 b.2) fun _ => ih

theorem mapM {f : α → Run β} (hf : ∀ a, P (f a)) (as : List α) : P (as.mapM f) := by
  induction as with
  | nil => exact hP.pure []
  | cons a as ih =>
    rw [List.mapM_cons]
    exact hP.bind (hf a) fun b => hP.bind ih fun bs => hP.pure (b :: bs)

section

variable {self : Expr → ScopeId → Run Value} (hself : ∀ t e, P (self t e))

include hself

theorem applyWith (c : Closure) (args : List Value) : P (applyWith self c args) := by
  unfold Featherweight.applyWith
  split
  · refine hP.bind (hP.newScope _) fun frame => ?_
    exact hP.bind (hP.bindAll frame _) fun _ => hself c.body frame
  · next hlength => exact hP.fail (.arityMismatch (Ne.symm hlength))

theorem evalNode {made : Closure → Run Unit} (hmade : ∀ c, P (made c)) (n : Nat) (e : ScopeId)
    (t : Expr) : P (evalNode made self n e t) := by
  cases t with
  | literal v => exact hP.pure v
  | ident x => exact hP.resolve e x
  | print t => exact hP.bind (hself t e) fun v => hP.bind (hP.printLine _) fun _ => hP.pure v
  | binary op l r =>
    exact hP.bind (hself l e) fun _ => hP.bind (hself r e) fun _ => hP.ofExcept op.misfit_apply
  | ifElse c yes no =>
    refine hP.bind (hP.condition rfl (hself c e)) fun go => ?_
    cases go with
    | true  => exact hself yes e
    | false => exact hself no e
  | loop c body => exact hP.iterate (hP.condition rfl (hself c e)) (hself body e) n _
  | seq a b => exact hP.bind (hself a e) fun _ => hself b e
  | declare x t => exact hP.bind (hself t e) fun v => hP.bind (hP.declare e x v) fun _ => hP.pure v
  | assign x t => exact hP.bind (hself t e) fun v => hP.bind (hP.update e x v) fun _ => hP.pure v
  | function site params body => exact hP.bind (hmade _) fun _ => hP.pure _
  | call f args =>
    refine hP.bind (hself f e) fun v => ?_
    refine hP.bind (hP.ofExcept (Value.misfit_asClosure rfl)) fun c => ?_
    exact hP.bind (hP.mapM (fun t => hself t e) args) fun vs => hP.applyWith hself c vs

end

/-- A compositional property holds of every evaluation. -/
theorem evalWith {made : Closure → Run Unit} (hmade : ∀ c, P (made c)) (n : Nat) (t : Expr)
    (e : ScopeId) : P (evalWith made n t e : Run Value) := by
  induction n generalizing t e with
  | zero      => exact hP.exhausted
  | succ n ih => exact hP.evalNode ih hmade n e t

theorem record (c : Closure) : P (Run.record c) := hP.update c.scope c.render (.closure c)

theorem eval (n : Nat) (t : Expr) (e : ScopeId) : P (eval n t e) := hP.evalWith hP.record n t e

theorem apply (n : Nat) (c : Closure) (args : List Value) : P (apply n c args) :=
  hP.applyWith (hP.eval n) c args

theorem interpret (n : Nat) (t : Expr) : P (interpret n t) :=
  hP.bind (hP.eval n t Store.globals) fun v => hP.bind hP.flush fun _ => hP.pure v

end Compositional

end Featherweight
