import Featherweight.Proofs.Evaluation.Simulation
import Featherweight.Store.Lemmas

/-!
# What a write shows

A name is looked up by walking outward. Of the scopes with some property the walk meets at most one
first (`Store.FirstOutward`), and this is all that looking up, updating and declaring are about: a
name has the value that the first scope binds it to that binds it at all (`FirstOutward.local?_eq`),
an update writes to that scope, or to the root if there is none (`Store.holder?_eq_some_iff`).

Writing one binding of one scope changes what is seen from the scopes whose walk meets that scope
before any other that binds the name, and nothing else (`Store.Sets.shows`). The proof follows the
walk of the scope that looks (`Store.outward_induction`).
-/

namespace Featherweight

namespace Store

variable {st st' : Store} {e T T' : ScopeId} {x y : String} {v : Value} {P Q : ScopeId → Prop}

/-! ### The walk outward -/

/-- Is `T` the first scope with property `P` on the walk outward from the scope? -/
inductive FirstOutward (st : Store) (P : ScopeId → Prop) : ScopeId → ScopeId → Prop
  | here {e : ScopeId} (he : P e) : st.FirstOutward P e e
  | outward {e p T : ScopeId} (he : ¬ P e) (hp : st.parent? e = some p)
      (h : st.FirstOutward P p T) : st.FirstOutward P e T

theorem FirstOutward.holds (h : st.FirstOutward P e T) (he : st.Holds e) : st.Holds T := by
  induction h with
  | here _ => exact he
  | outward _ hp _ ih => exact ih (st.holds_parent? hp).2

/-- The walk stops where the property holds. -/
theorem firstOutward_iff_of_here (he : P e) : st.FirstOutward P e T ↔ T = e := by
  constructor
  · intro h
    cases h with
    | here _ => rfl
    | outward hne _ _ => exact absurd he hne
  · rintro rfl
    exact .here he

/-- Where the property does not hold the walk goes on outward. -/
theorem firstOutward_iff_of_parent (he : ¬ P e) {p : ScopeId} (hp : st.parent? e = some p) :
    st.FirstOutward P e T ↔ st.FirstOutward P p T := by
  constructor
  · intro h
    cases h with
    | here hP => exact absurd hP he
    | outward _ hp' h =>
      cases hp.symm.trans hp'
      exact h
  · intro h
    exact .outward he hp h

/-- A root that does not have the property ends the walk. -/
theorem not_firstOutward_of_root (he : ¬ P e) (hp : st.parent? e = none) :
    ¬ st.FirstOutward P e T := by
  intro h
  cases h with
  | here hP => exact he hP
  | outward _ hp' _ => simp [hp] at hp'

theorem FirstOutward.unique (h : st.FirstOutward P e T) (h' : st.FirstOutward P e T') :
    T' = T := by
  induction h with
  | here he => exact (firstOutward_iff_of_here he).1 h'
  | outward he hp _ ih => exact ih ((firstOutward_iff_of_parent he hp).1 h')

/-- The walk comes to a root. -/
theorem firstOutward_root (st : Store) (e : ScopeId) :
    st.FirstOutward (fun s => st.parent? s = none) e (st.root e) := by
  induction e using st.outward_induction with
  | root e hp =>
    rw [root_of_root hp]
    exact .here hp
  | inside e p hp ih =>
    rw [root_of_parent hp]
    exact .outward (by simp [hp]) hp ih

/-- The scope that holds a name is the first on the walk that binds it. -/
theorem holder?_eq_some_iff :
    st.holder? e x = some T ↔ st.FirstOutward (fun s => st.binds s x = true) e T := by
  induction e using st.outward_induction with
  | root e hp =>
    by_cases he : st.binds e x = true
    · rw [holder?_of_binds he, firstOutward_iff_of_here he, Option.some_inj, eq_comm]
    · rw [holder?_of_root he hp]
      exact iff_of_false nofun (not_firstOutward_of_root he hp)
  | inside e p hp ih =>
    by_cases he : st.binds e x = true
    · rw [holder?_of_binds he, firstOutward_iff_of_here he, Option.some_inj, eq_comm]
    · rw [holder?_of_parent he hp, firstOutward_iff_of_parent he hp, ih]

/-! ### Looking up -/

/-- A name has the value that the first scope binds it to which binds it. -/
theorem FirstOutward.local?_eq (h : st.FirstOutward (fun s => st.binds s x = true) e T) :
    st.local? T x = some (st.resolve e x) := by
  induction h with
  | here he =>
    obtain ⟨v, hv⟩ := binds_eq_true_iff.1 he
    rw [hv, resolve_of_local hv]
  | @outward e _ _ he hp _ ih =>
    have hnone : st.local? e x = none := by simpa [binds] using he
    rw [ih, resolve_of_parent hnone hp]

/-- A name that is not bound on the walk is null. -/
theorem resolve_of_unbound (h : ∀ s, ¬ st.FirstOutward (fun s => st.binds s x = true) e s) :
    st.resolve e x = .null := by
  induction e using st.outward_induction with
  | root e hp =>
    have hnone : st.local? e x = none := by simpa [binds] using fun he => h e (.here he)
    exact resolve_of_root hnone hp
  | inside e p hp ih =>
    have he : ¬ st.binds e x = true := fun he => h e (.here he)
    have hnone : st.local? e x = none := by simpa [binds] using he
    rw [resolve_of_parent hnone hp]
    exact ih fun s hs => h s (.outward he hp hs)

/-! ### One binding changed -/

/-- Is `st'` the store `st` with `x` bound to `v` in the scope `T` and nothing else changed? -/
structure Sets (st : Store) (T : ScopeId) (x : String) (v : Value) (st' : Store) : Prop where
  fresh_eq : st'.fresh = st.fresh
  parent?_eq : ∀ e, st'.parent? e = st.parent? e
  local?_set : st'.local? T x = some v
  local?_other : ∀ e y, ¬ (e = T ∧ y = x) → st'.local? e y = st.local? e y

theorem sets_bind (hT : st.Holds T) : st.Sets T x v (st.bind T x v) where
  fresh_eq := st.fresh_bind T x v
  parent?_eq e := st.parent?_bind T e x v
  local?_set := by simp [st.local?_bind T T x x v hT]
  local?_other e y hne := by
    rw [st.local?_bind T e x y v hT, if_neg]
    rintro ⟨rfl, rfl⟩
    exact hne ⟨rfl, rfl⟩

/-- Does the walk from `e` meet `T` before any other scope that binds `x`? -/
def Sees (st : Store) (T : ScopeId) (x : String) (e : ScopeId) : Prop :=
  st.FirstOutward (fun s => s = T ∨ st.binds s x) e T

/-- Is `v` the value of `x` in `st'` for the scopes that see `T`, and is every other name, and every
name for other scopes, looked up as in `st`? -/
structure Shows (st : Store) (T : ScopeId) (x : String) (v : Value) (st' : Store) : Prop where
  seen : ∀ e, st.Sees T x e → st'.resolve e x = v
  unseen : ∀ e y, ¬ (y = x ∧ st.Sees T x e) → st'.resolve e y = st.resolve e y

namespace Sets

variable (h : st.Sets T x v st')

include h

theorem local?_eq_of_ne (he : e ≠ T) : st'.local? e x = st.local? e x :=
  h.local?_other e x fun hs => he hs.1

/-- By induction along the walk that meets `T`. -/
theorem resolve_of_sees (hsees : st.Sees T x e) : st'.resolve e x = v := by
  unfold Sees at hsees
  generalize hP : (fun s => s = T ∨ st.binds s x = true) = P at hsees
  induction hsees with
  | here _ => exact resolve_of_local h.local?_set
  | @outward e p T he hp _ ih =>
    subst hP
    obtain ⟨hne, hbinds⟩ := not_or.1 he
    have hnone : st.local? e x = none := by simpa [binds] using hbinds
    rw [resolve_of_parent ((h.local?_eq_of_ne hne).trans hnone) ((h.parent?_eq e).trans hp)]
    exact ih h rfl

/-- By induction along the walk, which does not meet `T` before another scope that binds `x`. -/
theorem resolve_of_not_sees (hsees : ¬ st.Sees T x e) : st'.resolve e x = st.resolve e x := by
  induction e using st.outward_induction with
  | root e hp =>
    have hlocal : st'.local? e x = st.local? e x := by
      apply h.local?_eq_of_ne
      rintro rfl
      exact hsees (.here (.inl rfl))
    have hp' : st'.parent? e = none := (h.parent?_eq e).trans hp
    cases hx : st.local? e x with
    | none => rw [resolve_of_root hx hp, resolve_of_root (hlocal.trans hx) hp']
    | some w => rw [resolve_of_local hx, resolve_of_local (hlocal.trans hx)]
  | inside e p hp ih =>
    have hne : e ≠ T := by
      rintro rfl
      exact hsees (.here (.inl rfl))
    have hlocal := h.local?_eq_of_ne hne
    have hp' : st'.parent? e = some p := (h.parent?_eq e).trans hp
    cases hx : st.local? e x with
    | some w => rw [resolve_of_local hx, resolve_of_local (hlocal.trans hx)]
    | none =>
      have he : ¬ (e = T ∨ st.binds e x = true) := by simp [hne, binds, hx]
      rw [resolve_of_parent hx hp, resolve_of_parent (hlocal.trans hx) hp']
      exact ih fun hseesp => hsees (.outward he hp hseesp)

theorem resolve_of_ne (hy : y ≠ x) : st'.resolve e y = st.resolve e y := by
  have hlocal : ∀ s, st'.local? s y = st.local? s y := fun s => h.local?_other s y fun hs => hy hs.2
  simp only [resolve, chain_congr h.parent?_eq, hlocal]

theorem shows : st.Shows T x v st' where
  seen _ := h.resolve_of_sees
  unseen e y hunseen := by
    by_cases hy : y = x
    · subst hy
      exact h.resolve_of_not_sees fun hsees => hunseen ⟨rfl, hsees⟩
    · exact h.resolve_of_ne hy

end Sets

/-! ### Updates and declarations -/

/-- Is `T` where an update in `e` writes the name: the first scope on the walk that binds it, or the
root if there is none? -/
def Targets (st : Store) (e : ScopeId) (x : String) (T : ScopeId) : Prop :=
  st.FirstOutward (fun s => st.binds s x) e T ∨
    (∀ s, ¬ st.FirstOutward (fun s => st.binds s x) e s) ∧
      st.FirstOutward (fun s => st.parent? s = none) e T

theorem targets_target (st : Store) (e : ScopeId) (x : String) :
    st.Targets e x ((st.holder? e x).getD (st.root e)) := by
  cases hT : st.holder? e x with
  | some T => exact .inl (holder?_eq_some_iff.1 hT)
  | none =>
    refine .inr ⟨fun s hs => ?_, st.firstOutward_root e⟩
    rw [holder?_eq_some_iff.2 hs] at hT
    cases hT

theorem Targets.holds (h : st.Targets e x T) (he : st.Holds e) : st.Holds T := by
  rcases h with hbinds | ⟨-, hroot⟩
  · exact hbinds.holds he
  · exact hroot.holds he

theorem Targets.unique (h : st.Targets e x T) (h' : st.Targets e x T') : T' = T := by
  rcases h with hT | ⟨hnone, hT⟩ <;> rcases h' with hT' | ⟨hnone', hT'⟩
  · exact hT.unique hT'
  · exact absurd hT (hnone' T)
  · exact absurd hT' (hnone T')
  · exact hT.unique hT'

end Store

/-- An update sets the name in one scope, the first on the walk outward that binds it, or the root
if there is none. A declaration fails and changes nothing if the scope binds the name, and else sets
it there. What is set is seen from the scopes whose walk meets the scope written to before any other
that binds the name. All other names and scopes look up what they did, which is what the first scope
on the walk binds that binds the name, or null. -/
theorem Run.writes_seen {m : Machine} {e : ScopeId} (he : m.store.Holds e) (x : String)
    (v : Value) :
    (∃ T st', Run.update e x v m = .ok () { m with store := st' } ∧ m.store.Targets e x T ∧
        (∀ T', m.store.Targets e x T' → T' = T) ∧ m.store.Sets T x v st' ∧
        m.store.Shows T x v st') ∧
      (m.store.binds e x →
        Run.declare e x v m = .error (.failure (.duplicateDeclaration x)) m) ∧
      (¬ m.store.binds e x → ∃ st', Run.declare e x v m = .ok () { m with store := st' } ∧
        m.store.Sets e x v st' ∧ m.store.Shows e x v st') ∧
      ∀ (st : Store) (s : ScopeId) (y : String),
        (∀ T, st.FirstOutward (fun s => st.binds s y) s T →
          st.local? T y = some (st.resolve s y)) ∧
        ((∀ T, ¬ st.FirstOutward (fun s => st.binds s y) s T) → st.resolve s y = .null) := by
  refine ⟨?_, fun hbinds => ?_, fun hbinds => ?_, fun st s y => ⟨fun T hT => hT.local?_eq, ?_⟩⟩
  · have htarget := m.store.targets_target e x
    have hsets := Store.sets_bind (x := x) (v := v) (htarget.holds he)
    exact ⟨_, _, rfl, htarget, fun _ => htarget.unique, hsets, hsets.shows⟩
  · rw [Run.declare_eq, if_pos hbinds]
  · have hsets := Store.sets_bind (x := x) (v := v) he
    exact ⟨_, by rw [Run.declare_eq, if_neg hbinds], hsets, hsets.shows⟩
  · exact Store.resolve_of_unbound

namespace Store

/-- A scope in a scope in the globals, of which only the innermost binds a name. -/
def shadowed : Store := ((initial.push (some globals)).push (some 1)).bind 2 "x" .null

theorem local?_shadowed (e : ScopeId) :
    shadowed.local? e "x" = if 2 = e then some .null else none := by
  have hholds : ((initial.push (some globals)).push (some 1)).Holds 2 := by
    simp [Holds, push, initial]
  simp [shadowed, local?_bind _ _ _ _ _ _ hholds, local?_push, local?_initial]

end Store

/-- An update in the middle makes a global, which the innermost scope does not see. -/
theorem Run.writes_seen_shadowed : Store.shadowed.Holds 1 ∧
    ∃ st', Run.update 1 "x" (.bool true) ⟨Store.shadowed, .unlimited⟩ = .ok () ⟨st', .unlimited⟩ ∧
      st'.resolve 0 "x" = .bool true ∧ st'.resolve 1 "x" = .bool true ∧
      st'.resolve 2 "x" = .null := by
  have hholds : Store.shadowed.Holds 1 := by
    simp [Store.Holds, Store.shadowed, Store.bind, Store.push, Store.initial]
  have hroot : Store.shadowed.parent? 0 = none := rfl
  have hinside : Store.shadowed.parent? 1 = some 0 := rfl
  have hfree (e : ScopeId) (he : 2 ≠ e) : ¬ Store.shadowed.binds e "x" := by
    simp [Store.binds, Store.local?_shadowed, he]
  have hbound : Store.shadowed.binds 2 "x" := by simp [Store.binds, Store.local?_shadowed]
  obtain ⟨⟨T, st', hupdate, -, hunique, -, hshows⟩, -⟩ :=
    Run.writes_seen (m := ⟨Store.shadowed, .unlimited⟩) hholds "x" (.bool true)
  have htarget := Store.shadowed.targets_target 1 "x"
  rw [Store.holder?_of_parent (hfree 1 (by decide)) hinside,
    Store.holder?_of_root (hfree 0 (by decide)) hroot, Store.root_of_parent hinside,
    Store.root_of_root hroot] at htarget
  obtain rfl := hunique 0 htarget
  have hsees : Store.shadowed.Sees 0 "x" 0 := .here (.inl rfl)
  refine ⟨hholds, st', hupdate, hshows.seen 0 hsees, hshows.seen 1 ?_, ?_⟩
  · exact .outward (not_or.2 ⟨by decide, hfree 1 (by decide)⟩) hinside hsees
  · rw [hshows.unseen 2 "x"]
    · exact Store.resolve_of_local (by simp [Store.local?_shadowed])
    · rintro ⟨-, hsees⟩
      have := (Store.firstOutward_iff_of_here (.inr hbound)).1 hsees
      simp at this

end Featherweight
