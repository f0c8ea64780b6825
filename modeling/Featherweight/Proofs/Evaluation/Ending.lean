import Featherweight.Eval.Steps

/-!
# How a run ends

A run that is granted steps ends in some way if it does so for some number of steps (`Ends`): then
it does for every larger number. Runs by the steps granted are put together like runs (`Gradual`),
and two of them are the same if they end in the same ways, so that neither ends where the other goes
on for ever (`Gradual.Same`).
-/

namespace Featherweight

open Run

variable {α β γ : Type}

/-- Does the run end like that for some number of steps, and not for want of steps? -/
def Ends (r : Nat → Run α) (m : Machine) (o : EStateM.Result Halt Machine α) : Prop :=
  (∃ n, r n m = o) ∧ ∀ m', o ≠ .error .exhausted m'

theorem ends_congr {r r' : Nat → Run α} {m : Machine} (h : ∀ n, r n m = r' n m)
    (o : EStateM.Result Halt Machine α) : Ends r m o ↔ Ends r' m o := by
  unfold Ends
  simp only [h]

/-- A run for every number of steps granted, of which more change nothing but an exhausted run. -/
@[ext] structure Gradual (α : Type) where
  run : Nat → Run α
  refines : ∀ {n n'}, n ≤ n' → Refines (run n) (run n')

namespace Gradual

/-- An answer that takes no step. -/
def pure (a : α) : Gradual α := ⟨fun _ => Pure.pure a, fun _ => .refl _⟩

/-- One run after another, with the answer of the first. -/
def bind (g : Gradual α) (f : α → Gradual β) : Gradual β :=
  ⟨fun n => g.run n >>= fun a => (f a).run n,
    fun hn => (g.refines hn).bind fun a => (f a).refines hn⟩

/-- Evaluating a tree in a scope. -/
def eval (t : Expr) (e : ScopeId) : Gradual Value :=
  ⟨fun n => Featherweight.eval n t e, fun hn => eval_refines hn t e⟩

theorem pure_bind_eq (a : α) (f : α → Gradual β) : (pure a).bind f = f a := rfl

theorem bind_pure_eq (g : Gradual α) : g.bind pure = g := by
  ext1
  funext n
  show g.run n >>= Pure.pure = g.run n
  exact bind_pure (g.run n)

theorem bind_bind (g : Gradual α) (f : α → Gradual β) (f' : β → Gradual γ) :
    (g.bind f).bind f' = g.bind fun a => (f a).bind f' := by
  ext1
  funext n
  exact LawfulMonad.bind_assoc (g.run n) (fun a => (f a).run n) fun b => (f' b).run n

/-! ### Ends -/

variable {g g' : Gradual α} {m : Machine}

/-- A run that ends for some number of steps ends like that for every larger number. -/
theorem run_eq_of_le {o : EStateM.Result Halt Machine α} {n n' : Nat} (hn : n ≤ n')
    (h : g.run n m = o) (ho : ∀ m', o ≠ .error .exhausted m') : g.run n' m = o := by
  rcases g.refines hn m with ⟨m', hx⟩ | heq
  · rw [h] at hx
    exact absurd hx (ho m')
  · rw [heq, h]

/-- A run ends in one way only. -/
theorem ends_unique {o o' : EStateM.Result Halt Machine α} (h : Ends g.run m o)
    (h' : Ends g.run m o') : o = o' := by
  obtain ⟨⟨n, hrun⟩, ho⟩ := h
  obtain ⟨⟨n', hrun'⟩, ho'⟩ := h'
  rw [← run_eq_of_le (Nat.le_max_left n n') hrun ho]
  exact run_eq_of_le (Nat.le_max_right n n') hrun' ho'

/-- A run after another ends as it does after the answer of the first, or where the first halts. -/
theorem ends_bind_iff {f : α → Gradual β} {o : EStateM.Result Halt Machine β} :
    Ends (g.bind f).run m o ↔
      (∃ a m', Ends g.run m (.ok a m') ∧ Ends (f a).run m' o) ∨
        ∃ h m', Ends g.run m (.error h m') ∧ o = .error h m' := by
  constructor
  · rintro ⟨⟨n, hrun⟩, ho⟩
    replace hrun : EStateM.bind (g.run n) (fun a => (f a).run n) m = o := hrun
    unfold EStateM.bind at hrun
    cases hg : g.run n m with
    | ok a m' =>
      rw [hg] at hrun
      exact .inl ⟨a, m', ⟨⟨n, hg⟩, nofun⟩, ⟨n, hrun⟩, ho⟩
    | error h m' =>
      rw [hg] at hrun
      refine .inr ⟨h, m', ⟨⟨n, hg⟩, fun m'' heq => ?_⟩, hrun.symm⟩
      cases heq
      exact ho m' hrun.symm
  · rintro (⟨a, m', ⟨⟨n, hg⟩, hne⟩, ⟨n', hf⟩, ho⟩ | ⟨h, m', ⟨⟨n, hg⟩, hne⟩, rfl⟩)
    · -- The steps that the longer run takes are enough for both.
      refine ⟨⟨max n n', ?_⟩, ho⟩
      show EStateM.bind (g.run (max n n')) (fun a => (f a).run (max n n')) m = o
      unfold EStateM.bind
      rw [run_eq_of_le (Nat.le_max_left n n') hg hne]
      exact run_eq_of_le (Nat.le_max_right n n') hf ho
    · refine ⟨⟨n, ?_⟩, fun m'' heq => ?_⟩
      · show EStateM.bind (g.run n) (fun a => (f a).run n) m = _
        unfold EStateM.bind
        rw [hg]
      · cases heq
        exact hne m' rfl

/-- Do the runs end in the same ways? -/
def Same (g g' : Gradual α) : Prop := ∀ m o, Ends g.run m o ↔ Ends g'.run m o

theorem Same.refl (g : Gradual α) : Same g g := fun _ _ => Iff.rfl

theorem Same.symm (h : Same g g') : Same g' g := fun m o => (h m o).symm

theorem Same.trans {g'' : Gradual α} (h : Same g g') (h' : Same g' g'') : Same g g'' :=
  fun m o => (h m o).trans (h' m o)

theorem Same.bind {f f' : α → Gradual β} (h : Same g g') (hf : ∀ a, Same (f a) (f' a)) :
    Same (g.bind f) (g'.bind f') := by
  intro m o
  rw [ends_bind_iff, ends_bind_iff]
  simp only [h m, hf _ _ o]

/-- A run that takes a step first, and then does the same, ends in the same ways. -/
theorem same_of_succ (h0 : ∀ m, ∃ m', g.run 0 m = .error .exhausted m')
    (hsucc : ∀ n, g.run (n + 1) = g'.run n) : Same g g' := by
  intro m o
  constructor
  · rintro ⟨⟨n, hrun⟩, ho⟩
    cases n with
    | zero =>
      obtain ⟨m', hx⟩ := h0 m
      exact absurd (hrun.symm.trans hx) (ho m')
    | succ n => exact ⟨⟨n, hsucc n ▸ hrun⟩, ho⟩
  · rintro ⟨⟨n, hrun⟩, ho⟩
    exact ⟨⟨n + 1, hsucc n ▸ hrun⟩, ho⟩

/-! ### Trees -/

variable (e : ScopeId)

theorem eval_zero (t : Expr) (m : Machine) :
    ∃ m', (eval t e).run 0 m = .error .exhausted m' := ⟨m, rfl⟩

theorem eval_literal (v : Value) : Same (eval (.literal v) e) (pure v) :=
  same_of_succ (eval_zero e _) fun _ => rfl

theorem eval_seq (a b : Expr) : Same (eval (.seq a b) e) ((eval a e).bind fun _ => eval b e) :=
  same_of_succ (eval_zero e _) fun _ => rfl

end Gradual

/-- Does evaluating the tree come to the value, with the machine left as it was? -/
def Expr.Answers (t : Expr) (e : ScopeId) (m : Machine) (v : Value) : Prop :=
  Ends (Gradual.eval t e).run m (.ok v m)

theorem Expr.Answers.literal (v : Value) (e : ScopeId) (m : Machine) :
    (Expr.literal v).Answers e m v := ⟨⟨1, rfl⟩, nofun⟩

end Featherweight
