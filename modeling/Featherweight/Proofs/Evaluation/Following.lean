import Featherweight.Proofs.Evaluation.Ending
import Featherweight.Proofs.Lockstep

/-!
# Ending wherever another run ends

Two runs may do the same with different numbers of steps, so that they are not in lockstep. Then one
follows the other: wherever a run with so many steps ends, it ends as well, for some number of steps
and with related results (`Gradual.Follows`). There is one rule for each way of putting runs
together. Two runs that follow each other end alike (`Gradual.endAlike_of_follows`): both go on for
ever, or both end and their results agree.
-/

namespace Featherweight

open Run

variable {α α' β β' : Type}

namespace Gradual

/-! ### More ways of putting runs together -/

/-- A run that takes no step. -/
def lift (r : Run α) : Gradual α := ⟨fun _ => r, fun _ => .refl r⟩

/-- One run for each item of a list, in order. -/
def mapM (f : α → Gradual β) (as : List α) : Gradual (List β) :=
  ⟨fun n => as.mapM fun a => (f a).run n, fun hn => Refines.mapM (fun a => (f a).refines hn) as⟩

/-- A run as long as another says so. -/
def iterate (guard : Gradual Bool) (body : Gradual Value) (last : Value) : Gradual Value :=
  ⟨fun n => Run.iterate (guard.run n) (body.run n) n last,
    fun hn => (guard.refines hn).iterate (body.refines hn) hn last⟩

theorem mapM_cons (f : α → Gradual β) (a : α) (as : List α) :
    mapM f (a :: as) = (f a).bind fun b => (mapM f as).bind fun bs => pure (b :: bs) := by
  ext1
  funext n
  show (a :: as).mapM (fun a => (f a).run n) = _
  rw [List.mapM_cons]
  rfl

theorem ends_of_refines {r : Run α} {g : Gradual α} {n : Nat} {m : Machine}
    {o : EStateM.Result Halt Machine α} (hr : Refines r (g.run n)) (h : r m = o)
    (ho : ∀ m', o ≠ .error .exhausted m') : Ends g.run m o := by
  rcases hr m with ⟨m', hx⟩ | heq
  · exact absurd (h.symm.trans hx) (ho m')
  · exact ⟨⟨n, heq.trans h⟩, ho⟩

/-- A loop begins with its condition, and then ends or goes on after its body. -/
theorem same_iterate (guard : Gradual Bool) (body : Gradual Value) (last : Value) :
    Same (iterate guard body last)
      (guard.bind fun go => if go then body.bind (iterate guard body) else pure last) := by
  intro m o
  constructor
  · rintro ⟨⟨n, hrun⟩, ho⟩
    cases n with
    | zero => exact absurd hrun.symm (ho m)
    | succ n =>
      refine ends_of_refines (Refines.bind (.refl (guard.run (n + 1))) fun go => ?_) hrun ho
      cases go with
      | true =>
        refine Refines.bind (.refl (body.run (n + 1))) fun v => ?_
        exact Refines.iterate (.refl _) (.refl _) (Nat.le_succ n) v
      | false => exact .refl _
  · rintro ⟨⟨n, hrun⟩, ho⟩
    -- One more round is granted than the rounds that are left after the first.
    have hrefines : Refines ((guard.bind fun go =>
        if go then body.bind (iterate guard body) else pure last).run n)
        ((iterate guard body last).run (n + 1)) := by
      refine (guard.refines (Nat.le_succ n)).bind fun go => ?_
      cases go with
      | true =>
        refine (body.refines (Nat.le_succ n)).bind fun v => ?_
        exact (guard.refines (Nat.le_succ n)).iterate (body.refines (Nat.le_succ n))
          (Nat.le_refl n) v
      | false => exact .refl _
    exact ends_of_refines hrefines hrun ho

/-! ### Trees -/

/-- A truth value at a place that wants one. -/
def condition (place : Place) (g : Gradual Value) : Gradual Bool :=
  g.bind fun v => lift (ofExcept (v.asBool place))

/-- Applying a closure to arguments. -/
def apply (c : Closure) (args : List Value) : Gradual Value :=
  if args.length = c.arity then
    (lift (newScope c.scope)).bind fun frame =>
      (lift (bindAll frame (c.params.zip args))).bind fun _ => eval c.body frame
  else lift (fail (.arityMismatch c.arity args.length))

/-- What is done at the top of a tree. -/
def node (e : ScopeId) : Expr → Gradual Value
  | .literal v => pure v
  | .ident x => lift (resolve e x)
  | .print t => (eval t e).bind fun v => (lift (printLine v.render)).bind fun _ => pure v
  | .binary op l r =>
    (eval l e).bind fun v => (eval r e).bind fun w => lift (ofExcept (op.apply v w))
  | .ifElse c yes no =>
    (condition .ifCondition (eval c e)).bind fun go => if go then eval yes e else eval no e
  | .loop c body => iterate (condition .whileCondition (eval c e)) (eval body e) .null
  | .seq a b => (eval a e).bind fun _ => eval b e
  | .declare x t => (eval t e).bind fun v => (lift (declare e x v)).bind fun _ => pure v
  | .assign x t => (eval t e).bind fun v => (lift (update e x v)).bind fun _ => pure v
  | .function site ps body =>
    (lift (record ⟨site, ps, body, e⟩)).bind fun _ => pure (.closure ⟨site, ps, body, e⟩)
  | .call f args =>
    (eval f e).bind fun v => (lift (ofExcept (v.asClosure .callee))).bind fun c =>
      (mapM (fun t => eval t e) args).bind fun vs => apply c vs

theorem run_apply (n : Nat) (c : Closure) (args : List Value) :
    (apply c args).run n = Featherweight.apply n c args := by
  unfold apply Featherweight.apply applyWith
  split <;> rfl

theorem run_node (n : Nat) (e : ScopeId) (t : Expr) :
    (node e t).run n = evalNode record (Featherweight.eval n) n e t := by
  cases t with
  | ifElse c yes no => exact bind_congr fun go => by cases go <;> rfl
  | call f args =>
    exact bind_congr fun v => bind_congr fun c => bind_congr fun vs => run_apply n c vs
  | _ => rfl

/-- Evaluating a tree is one step more than what is done at its top. -/
theorem same_node (e : ScopeId) (t : Expr) : Same (eval t e) (node e t) :=
  same_of_succ (eval_zero e t) fun n => (run_node n e t).symm

/-! ### Following -/

/-- Does `g` end, from related states and with related results, wherever `r` does? -/
def Follows (H : Machine → Machine → Prop) (Q : α → α' → Prop) (g : Gradual α') (r : Run α) :
    Prop :=
  ∀ m m', H m m' → (∃ m₁, r m = .error .exhausted m₁) ∨
    ∃ o, Ends g.run m' o ∧ ResultsAgree H Eq Q (r m) o

variable {H : Machine → Machine → Prop} {Q : α → α' → Prop} {Q' : β → β' → Prop} {r : Run α}
  {g g' : Gradual α'}

theorem follows_exhausted : Follows H Q g (exhausted : Run α) := fun m _ _ => .inl ⟨m, rfl⟩

theorem Follows.of_same (h : Follows H Q g r) (hg : Same g g') : Follows H Q g' r := by
  intro m m' hm
  rcases h m m' hm with hx | ⟨o, hends, hagree⟩
  · exact .inl hx
  · exact .inr ⟨o, (hg m' o).1 hends, hagree⟩

/-- Runs in lockstep follow each other, whatever the steps granted. -/
theorem follows_lift {r' : Run α'} (h : Lockstep H Eq Q r r') : Follows H Q (lift r') r := by
  intro m m' hm
  have hagree := h m m' hm
  by_cases hx : ∃ m₁, r m = .error .exhausted m₁
  · exact .inl hx
  · refine .inr ⟨r' m', ⟨⟨0, rfl⟩, fun m₁ heq => hx ?_⟩, hagree⟩
    rw [heq] at hagree
    generalize r m = o at hagree ⊢
    cases hagree with
    | error he _ =>
      subst he
      exact ⟨_, rfl⟩

theorem follows_pure {a : α} {a' : α'} (h : Q a a') : Follows H Q (pure a') (Pure.pure a) :=
  follows_lift (Lockstep.pure h)

theorem Follows.bind {f : α → Run β} {f' : α' → Gradual β'} (hr : Follows H Q g r)
    (hf : ∀ a a', Q a a' → Follows H Q' (f' a') (f a)) : Follows H Q' (g.bind f') (r >>= f) := by
  intro m m' hm
  rcases hr m m' hm with ⟨m₁, hx⟩ | ⟨o, hends, hagree⟩
  · exact .inl ⟨m₁, bind_of_error hx⟩
  · cases hrun : r m with
    | ok a m₁ =>
      rw [hrun] at hagree
      cases hagree with
      | ok ha hm₁ =>
        rw [bind_of_ok hrun]
        rcases hf _ _ ha _ _ hm₁ with hx | ⟨o, hends', hagree⟩
        · exact .inl hx
        · exact .inr ⟨o, ends_bind_iff.2 (.inl ⟨_, _, hends, hends'⟩), hagree⟩
    | error e m₁ =>
      rw [hrun] at hagree
      cases hagree with
      | error he hm₁ =>
        rw [bind_of_error hrun]
        exact .inr ⟨_, ends_bind_iff.2 (.inr ⟨_, _, hends, rfl⟩), .error he hm₁⟩

theorem follows_mapM {f : α → Run β} {f' : α' → Gradual β'} {as : List α} {as' : List α'}
    (has : List.Forall₂ Q as as') (hf : ∀ a a', Q a a' → Follows H Q' (f' a') (f a)) :
    Follows H (List.Forall₂ Q') (mapM f' as') (as.mapM f) := by
  induction has with
  | nil => exact follows_pure .nil
  | cons ha _ ih =>
    rw [List.mapM_cons, mapM_cons]
    refine (hf _ _ ha).bind fun b b' hb => ih.bind fun bs bs' hbs => ?_
    exact follows_pure (.cons hb hbs)

theorem follows_iterate {V : Value → Value → Prop} {guard : Run Bool} {guard' : Gradual Bool}
    {body : Run Value} {body' : Gradual Value} (hguard : Follows H Eq guard' guard)
    (hbody : Follows H V body' body) (n : Nat) {last last' : Value} (hlast : V last last') :
    Follows H V (iterate guard' body' last') (Run.iterate guard body n last) := by
  induction n generalizing last last' with
  | zero => exact follows_exhausted
  | succ n ih =>
    refine Follows.of_same ?_ (same_iterate guard' body' last').symm
    refine hguard.bind fun go go' hgo => ?_
    subst hgo
    cases go with
    | true => exact hbody.bind fun v v' hv => ih hv
    | false => exact follows_pure hlast

end Gradual

/-! ### Ending alike -/

/-- Do the runs both go on for ever, or both end with results that agree? -/
def EndAlike (H : Machine → Machine → Prop) (Q : α → α' → Prop) (r : Nat → Run α) (m : Machine)
    (r' : Nat → Run α') (m' : Machine) : Prop :=
  (∀ o, Ends r m o → ∃ o', Ends r' m' o' ∧ ResultsAgree H Eq Q o o') ∧
    ∀ o', Ends r' m' o' → ∃ o, Ends r m o ∧ ResultsAgree H Eq Q o o'

theorem ResultsAgree.symm {H : Machine → Machine → Prop} {Q : α → α → Prop}
    (hH : ∀ m m', H m m' → H m' m) (hQ : ∀ a a', Q a a' → Q a' a)
    {o o' : EStateM.Result Halt Machine α} (h : ResultsAgree H Eq Q o o') :
    ResultsAgree H Eq Q o' o := by
  cases h with
  | ok ha hm => exact .ok (hQ _ _ ha) (hH _ _ hm)
  | error he hm => exact .error he.symm (hH _ _ hm)

namespace Gradual

variable {H : Machine → Machine → Prop}

theorem Follows.exists_ends {Q : α → α' → Prop} {g : Gradual α} {g' : Gradual α'}
    (h : ∀ n, Follows H Q g' (g.run n)) {m m' : Machine} (hm : H m m')
    {o : EStateM.Result Halt Machine α} (ho : Ends g.run m o) :
    ∃ o', Ends g'.run m' o' ∧ ResultsAgree H Eq Q o o' := by
  obtain ⟨⟨n, rfl⟩, hne⟩ := ho
  rcases h n m m' hm with ⟨m₁, hx⟩ | hends
  · exact absurd hx (hne m₁)
  · exact hends

/-- Runs that follow each other end alike. -/
theorem endAlike_of_follows {Q : α → α → Prop} (g g' : Gradual α)
    (hH : ∀ m m', H m m' → H m' m) (hQ : ∀ a a', Q a a' → Q a' a)
    (h : ∀ n, Follows H Q g' (g.run n)) (h' : ∀ n, Follows H Q g (g'.run n)) {m m' : Machine}
    (hm : H m m') : EndAlike H Q g.run m g'.run m' := by
  refine ⟨fun o ho => Follows.exists_ends h hm ho, fun o' ho' => ?_⟩
  obtain ⟨o, ho, hagree⟩ := Follows.exists_ends h' (hH m m' hm) ho'
  exact ⟨o, ho, hagree.symm hH hQ⟩

end Gradual

end Featherweight
