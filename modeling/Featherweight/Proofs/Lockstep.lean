import Mathlib.Data.List.Forall2

/-!
# Runs in lockstep

Two runs that change a state and may fail are in lockstep when from related states they both answer,
with related answers, or both fail, for related reasons, and leave related states. There is one rule
for each way of putting runs together, so what is put together from runs in lockstep is in lockstep.
-/

namespace Featherweight

variable {ε ε' σ σ' α α' β β' : Type}

theorem bind_of_ok {r : EStateM ε σ α} {f : α → EStateM ε σ β} {s s' : σ} {a : α}
    (h : r s = .ok a s') : (r >>= f) s = f a s' := by
  show EStateM.bind r f s = _
  unfold EStateM.bind
  rw [h]

theorem bind_of_error {r : EStateM ε σ α} {f : α → EStateM ε σ β} {s s' : σ} {e : ε}
    (h : r s = .error e s') : (r >>= f) s = .error e s' := by
  show EStateM.bind r f s = _
  unfold EStateM.bind
  rw [h]

theorem bind_eq_of_eq {r r' : EStateM ε σ α} {f : α → EStateM ε σ β} {s s' : σ}
    (h : r s = r' s') : (r >>= f) s = (r' >>= f) s' := by
  show EStateM.bind r f s = EStateM.bind r' f s'
  unfold EStateM.bind
  rw [h]

/-- Do the results agree on whether there is an answer, and are their parts related? -/
inductive ResultsAgree (H : σ → σ' → Prop) (F : ε → ε' → Prop) (Q : α → α' → Prop) :
    EStateM.Result ε σ α → EStateM.Result ε' σ' α' → Prop
  | ok {a : α} {a' : α'} {s : σ} {s' : σ'} (ha : Q a a') (hs : H s s') :
      ResultsAgree H F Q (.ok a s) (.ok a' s')
  | error {e : ε} {e' : ε'} {s : σ} {s' : σ'} (he : F e e') (hs : H s s') :
      ResultsAgree H F Q (.error e s) (.error e' s')

/-- Do the runs agree wherever they start from related states? -/
def Lockstep (H : σ → σ' → Prop) (F : ε → ε' → Prop) (Q : α → α' → Prop) (r : EStateM ε σ α)
    (r' : EStateM ε' σ' α') : Prop :=
  ∀ s s', H s s' → ResultsAgree H F Q (r s) (r' s')

/-- Any two answers. -/
def Anything (_ : α) (_ : α') : Prop := True

namespace Lockstep

variable {H : σ → σ' → Prop} {F : ε → ε' → Prop} {Q : α → α' → Prop} {Q' : β → β' → Prop}

theorem pure {a : α} {a' : α'} (h : Q a a') :
    Lockstep H F Q (Pure.pure a : EStateM ε σ α) (Pure.pure a' : EStateM ε' σ' α') :=
  fun _ _ hs => .ok h hs

theorem throw {e : ε} {e' : ε'} (h : F e e') :
    Lockstep H F Q (MonadExcept.throw e : EStateM ε σ α)
      (MonadExcept.throw e' : EStateM ε' σ' α') :=
  fun _ _ hs => .error h hs

theorem bind {r : EStateM ε σ α} {r' : EStateM ε' σ' α'} {f : α → EStateM ε σ β}
    {f' : α' → EStateM ε' σ' β'} (hr : Lockstep H F Q r r')
    (hf : ∀ a a', Q a a' → Lockstep H F Q' (f a) (f' a')) :
    Lockstep H F Q' (r >>= f) (r' >>= f') := by
  intro s s' hs
  show ResultsAgree H F Q' (EStateM.bind r f s) (EStateM.bind r' f' s')
  unfold EStateM.bind
  have h := hr s s' hs
  generalize r s = o at h
  generalize r' s' = o' at h
  cases h with
  | ok ha hs => exact hf _ _ ha _ _ hs
  | error he hs => exact .error he hs

theorem mono {P : α → α' → Prop} {r : EStateM ε σ α} {r' : EStateM ε' σ' α'}
    (hr : Lockstep H F P r r') (hPQ : ∀ a a', P a a' → Q a a') : Lockstep H F Q r r' := by
  intro s s' hs
  have h := hr s s' hs
  generalize r s = o at h
  generalize r' s' = o' at h
  cases h with
  | ok ha hs => exact .ok (hPQ _ _ ha) hs
  | error he hs => exact .error he hs

theorem mapM {f : α → EStateM ε σ β} {f' : α' → EStateM ε' σ' β'} {as : List α}
    {as' : List α'} (has : List.Forall₂ Q as as')
    (hf : ∀ a a', Q a a' → Lockstep H F Q' (f a) (f' a')) :
    Lockstep H F (List.Forall₂ Q') (as.mapM f) (as'.mapM f') := by
  induction has with
  | nil =>
    simp only [List.mapM_nil]
    exact pure .nil
  | cons ha _ ih =>
    simp only [List.mapM_cons]
    exact (hf _ _ ha).bind fun b b' hb => ih.bind fun bs bs' hbs => pure (.cons hb hbs)

end Lockstep

/-! ### Outcomes -/

/-- What a run ends with, and the state it leaves. -/
def settle : EStateM.Result ε σ α → Except ε α × σ
  | .ok a s    => (.ok a, s)
  | .error e s => (.error e, s)

/-- Are both answers, and related, or both failures, and related? -/
inductive OutcomesAgree (F : ε → ε' → Prop) (Q : α → α' → Prop) :
    Except ε α → Except ε' α' → Prop
  | ok {a : α} {a' : α'} (ha : Q a a') : OutcomesAgree F Q (.ok a) (.ok a')
  | error {e : ε} {e' : ε'} (he : F e e') : OutcomesAgree F Q (.error e) (.error e')

theorem ResultsAgree.settle {H : σ → σ' → Prop} {F : ε → ε' → Prop} {Q : α → α' → Prop}
    {o : EStateM.Result ε σ α} {o' : EStateM.Result ε' σ' α'} (h : ResultsAgree H F Q o o') :
    OutcomesAgree F Q (settle o).1 (settle o').1 ∧ H (settle o).2 (settle o').2 := by
  cases h with
  | ok ha hs => exact ⟨.ok ha, hs⟩
  | error he hs => exact ⟨.error he, hs⟩

/-- Of two runs in lockstep, the second ends with the same as the first if its states are what is
seen of those of the first and nothing else is told apart. -/
theorem Lockstep.settle_eq {view : σ → σ'} {F : ε → ε → Prop} (hF : ∀ {e e'}, F e e' → e = e')
    {r : EStateM ε σ α} {r' : EStateM ε σ' α}
    (h : Lockstep (fun s s' => view s = s') F Eq r r') (s : σ) :
    settle (r' (view s)) = ((settle (r s)).1, view (settle (r s)).2) := by
  have hresult := h s (view s) rfl
  generalize r s = o at hresult
  generalize r' (view s) = o' at hresult
  cases hresult with
  | ok ha hs =>
    rw [ha, ← hs]
    rfl
  | error he hs =>
    rw [hF he, ← hs]
    rfl

end Featherweight
