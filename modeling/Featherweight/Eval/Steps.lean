import Featherweight.Eval

/-!
# Steps granted

Granting more steps changes nothing but a run that was exhausted (`eval_refines`). So an answer or a
failure, once reached, is the outcome for every larger number of steps.
-/

namespace Featherweight

namespace Run

variable {α β : Type}

/-- Does `r'` do the same as `r` wherever `r` is not exhausted? -/
def Refines (r r' : Run α) : Prop := ∀ m, (∃ m', r m = .error .exhausted m') ∨ r' m = r m

theorem Refines.refl (r : Run α) : Refines r r := fun _ => .inr rfl

theorem refines_exhausted (r : Run α) : Refines (throw .exhausted) r := fun m => .inl ⟨m, rfl⟩

theorem Refines.trans {r r' r'' : Run α} (h : Refines r r') (h' : Refines r' r'') :
    Refines r r'' := by
  intro m
  rcases h m with hx | hr
  · exact .inl hx
  · rcases h' m with ⟨m', hx⟩ | hr'
    · exact .inl ⟨m', hr ▸ hx⟩
    · exact .inr (hr'.trans hr)

theorem Refines.bind {r r' : Run α} {f f' : α → Run β} (h : Refines r r')
    (hf : ∀ a, Refines (f a) (f' a)) : Refines (r >>= f) (r' >>= f') := by
  intro m
  show (∃ m', EStateM.bind r f m = _) ∨ EStateM.bind r' f' m = EStateM.bind r f m
  rcases h m with ⟨m', hx⟩ | hr
  · exact .inl ⟨m', by simp [EStateM.bind, hx]⟩
  · simp only [EStateM.bind, hr]
    cases r m with
    | ok a m'    => exact hf a m'
    | error e m' => exact .inr rfl

theorem Refines.map {r r' : Run α} (f : α → β) (h : Refines r r') :
    Refines (f <$> r) (f <$> r') := by
  simpa using h.bind fun a => Refines.refl (pure (f a) : Run β)

theorem Refines.mapM {f f' : α → Run β} (h : ∀ a, Refines (f a) (f' a)) (as : List α) :
    Refines (as.mapM f) (as.mapM f') := by
  induction as with
  | nil => exact Refines.refl _
  | cons a as ih =>
    simp only [List.mapM_cons]
    exact (h a).bind fun _ => ih.bind fun _ => Refines.refl _

theorem Refines.condition {r r' : Run Value} (p : Place) (h : Refines r r') :
    Refines (condition p r) (condition p r') := h.bind fun _ => Refines.refl _

theorem Refines.iterate {g g' : Run Bool} {b b' : Run Value} (hg : Refines g g')
    (hb : Refines b b') {n n' : Nat} (hn : n ≤ n') (last : Value) :
    Refines (iterate g b n last) (iterate g' b' n' last) := by
  induction n generalizing n' last with
  | zero => exact refines_exhausted _
  | succ n ih =>
    obtain ⟨n', rfl⟩ : ∃ k, n' = k + 1 := ⟨n' - 1, by omega⟩
    refine hg.bind fun go => ?_
    cases go with
    | true  => exact hb.bind fun v => ih (by omega) v
    | false => exact Refines.refl _

end Run

open Run

theorem applyWith_refines {self self' : Expr → ScopeId → Run Value}
    (h : ∀ t e, Refines (self t e) (self' t e)) (c : Closure) (args : List Value) :
    Refines (applyWith self c args) (applyWith self' c args) := by
  unfold applyWith
  split
  · exact (Refines.refl _).bind fun frame => (Refines.refl _).bind fun _ => h _ _
  · exact Refines.refl _

theorem evalNode_refines {made : Closure → Run Unit} {self self' : Expr → ScopeId → Run Value}
    (h : ∀ t e, Refines (self t e) (self' t e)) {n n' : Nat} (hn : n ≤ n') (e : ScopeId)
    (t : Expr) : Refines (evalNode made self n e t) (evalNode made self' n' e t) := by
  cases t with
  | literal v => exact Refines.refl _
  | ident x => exact Refines.refl _
  | print t => exact (h t e).bind fun _ => Refines.refl _
  | binary op l r => exact (h l e).bind fun _ => (h r e).bind fun _ => Refines.refl _
  | ifElse c yes no =>
    refine ((h c e).condition _).bind fun go => ?_
    cases go with
    | true  => exact h yes e
    | false => exact h no e
  | loop c body => exact ((h c e).condition _).iterate (h body e) hn _
  | seq a b => exact (h a e).bind fun _ => h b e
  | declare x t => exact (h t e).bind fun _ => Refines.refl _
  | assign x t => exact (h t e).bind fun _ => Refines.refl _
  | function site params body => exact Refines.refl _
  | call f args =>
    exact (h f e).bind fun _ => (Refines.refl _).bind fun c =>
      (Refines.mapM (fun t => h t e) args).bind fun vs => applyWith_refines h c vs

theorem evalWith_refines (made : Closure → Run Unit) {n n' : Nat} (hn : n ≤ n') (t : Expr)
    (e : ScopeId) : Refines (evalWith made n t e) (evalWith made n' t e) := by
  induction n generalizing n' t e with
  | zero => exact refines_exhausted _
  | succ n ih =>
    obtain ⟨n', rfl⟩ : ∃ k, n' = k + 1 := ⟨n' - 1, by omega⟩
    exact evalNode_refines (fun t e => ih (by omega) t e) (by omega) e t

theorem eval_refines {n n' : Nat} (hn : n ≤ n') (t : Expr) (e : ScopeId) :
    Refines (eval n t e) (eval n' t e) := evalWith_refines record hn t e

end Featherweight
