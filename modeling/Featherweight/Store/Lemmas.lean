import Featherweight.Store

/-!
# Looking after writing

What each change of a store does to the scopes around a scope and to the bindings a scope has of its
own. Binding a name changes one binding of one scope (`local?_bind`) and leaves every scope where it
lies (`parent?_bind`). A new scope binds nothing (`local?_push`) and lies inside its parent
(`parent?_push_fresh`); all others stay where they lie (`parent?_push`).

Walks outward come to an end, so what is said of them is proved by induction from the root inward
(`outward_induction`). A look-up takes one step of such a walk at a time (`resolve_of_parent`).
-/

namespace Featherweight.Store

variable (st : Store) (e e' : ScopeId) (x y : String) (v : Value)

/-- Is `e` a scope of the store? -/
def Holds (st : Store) (e : ScopeId) : Prop := e < st.scopes.size

theorem local?_of_not_holds (h : ¬ st.Holds e) : st.local? e x = none := by
  have hnone : st.scopes[e]? = none := Array.getElem?_eq_none (Nat.le_of_not_lt h)
  rw [local?, hnone]
  rfl

theorem local?_initial : initial.local? e x = none := by
  unfold local? initial
  cases e with
  | zero => simp
  | succ e => simp

theorem holds_congr {st st' : Store} (h : st.fresh = st'.fresh) {e : ScopeId} :
    st.Holds e ↔ st'.Holds e := by
  have hsize : st.scopes.size = st'.scopes.size := h
  unfold Holds
  rw [hsize]

/-! ### Chains -/

/-- What holds of roots, and of a scope if it holds of the one around it, holds of all scopes. -/
theorem outward_induction {motive : ScopeId → Prop}
    (root : ∀ e, st.parent? e = none → motive e)
    (inside : ∀ e p, st.parent? e = some p → motive p → motive e) (e : ScopeId) : motive e := by
  induction e using Nat.strongRecOn with
  | _ e ih =>
    cases hp : st.parent? e with
    | none => exact root e hp
    | some p => exact inside e p hp (ih p (lt_of_parent? hp))

/-- The scopes around a scope depend on what lies inside what, and on nothing else. -/
theorem chain_congr {st st' : Store} (h : ∀ e, st.parent? e = st'.parent? e) (e : ScopeId) :
    st.chain e = st'.chain e := by
  induction e using st.outward_induction with
  | root e hp =>
    have hp' : st'.parent? e = none := by rw [← h, hp]
    rw [chain_of_root hp, chain_of_root hp']
  | inside e p hp ih =>
    have hp' : st'.parent? e = some p := by rw [← h, hp]
    rw [chain_of_parent hp, chain_of_parent hp', ih]

theorem root_congr {st st' : Store} (h : ∀ e, st.parent? e = st'.parent? e) (e : ScopeId) :
    st.root e = st'.root e := by
  simp only [root, chain_congr h]

/-- What holds of a scope, and with any scope of the one around it, holds of its whole chain. -/
theorem forall_mem_chain {S : ScopeId → Prop}
    (hS : ∀ {e p : ScopeId}, S e → st.parent? e = some p → S p) {e : ScopeId} (he : S e) :
    ∀ s ∈ st.chain e, S s := by
  induction e using st.outward_induction with
  | root e hp =>
    rw [chain_of_root hp]
    exact fun s hs => List.mem_singleton.1 hs ▸ he
  | inside e p hp ih =>
    rw [chain_of_parent hp, List.forall_mem_cons]
    exact ⟨he, ih (hS he hp)⟩

theorem root_mem_chain : st.root e ∈ st.chain e := List.getLast_mem _

/-! ### One step of a look-up -/

section

variable {st : Store} {e p : ScopeId} {x : String} {v : Value}

theorem binds_eq_true_iff : st.binds e x = true ↔ ∃ v, st.local? e x = some v := by
  simp [binds, Option.isSome_iff_exists]

theorem resolve_of_local (h : st.local? e x = some v) : st.resolve e x = v := by
  unfold resolve
  cases hp : st.parent? e with
  | none => simp [chain_of_root hp, h]
  | some p => simp [chain_of_parent hp, h]

theorem resolve_of_parent (h : st.local? e x = none) (hp : st.parent? e = some p) :
    st.resolve e x = st.resolve p x := by
  simp [resolve, chain_of_parent hp, h]

theorem resolve_of_root (h : st.local? e x = none) (hp : st.parent? e = none) :
    st.resolve e x = .null := by
  simp [resolve, chain_of_root hp, h]

/-- A name is resolved to what a scope binds, or to null. -/
theorem resolve_cases : st.resolve e x = .null ∨ ∃ s, st.local? s x = some (st.resolve e x) := by
  unfold resolve
  cases hfound : (st.chain e).findSome? fun s => st.local? s x with
  | none => exact .inl rfl
  | some v =>
    obtain ⟨s, -, hv⟩ := List.exists_of_findSome?_eq_some hfound
    exact .inr ⟨s, hv⟩

theorem holder?_of_binds (he : st.binds e x = true) : st.holder? e x = some e := by
  unfold holder?
  cases hp : st.parent? e with
  | none => simp [chain_of_root hp, he]
  | some p => simp [chain_of_parent hp, he]

theorem holder?_of_parent (he : ¬ st.binds e x = true) (hp : st.parent? e = some p) :
    st.holder? e x = st.holder? p x := by
  simp [holder?, chain_of_parent hp, he]

theorem holder?_of_root (he : ¬ st.binds e x = true) (hp : st.parent? e = none) :
    st.holder? e x = none := by
  simp [holder?, chain_of_root hp, he]

end

/-! ### After a binding -/

/-- A scope that does not exist binds nothing. -/
theorem bind_of_not_holds (h : ¬ st.Holds e) : st.bind e x v = st := by
  have hscopes : (st.bind e x v).scopes = st.scopes := by
    apply Array.ext_getElem?
    intro i
    simp only [bind, Array.getElem?_modify]
    split
    · next hi =>
      subst hi
      rw [Array.getElem?_eq_none (Nat.le_of_not_lt h), Option.map_none]
    · rfl
  cases st
  simpa [bind] using hscopes

theorem scopes_bind_of_ne (h : e ≠ e') : (st.bind e x v).scopes[e']? = st.scopes[e']? := by
  simp [bind, Array.getElem?_modify, h]

theorem fresh_bind : (st.bind e x v).fresh = st.fresh := by simp [fresh, bind]

theorem holds_bind : (st.bind e x v).Holds e' ↔ st.Holds e' := by simp [Holds, bind]

theorem parent?_bind : (st.bind e x v).parent? e' = st.parent? e' := by
  simp only [parent?, bind, Array.getElem?_modify]
  split
  · cases st.scopes[e']? <;> rfl
  · rfl

theorem local?_bind (h : st.Holds e) :
    (st.bind e x v).local? e' y = if e = e' ∧ x = y then some v else st.local? e' y := by
  simp only [local?, bind, Array.getElem?_modify]
  by_cases he : e = e'
  · subst he
    simp only [if_true, true_and, Array.getElem?_eq_getElem h, Option.map_some, Option.bind_some,
      Std.ExtTreeMap.getElem?_insert, Std.compare_eq_iff_eq]
  · simp [he]

theorem local?_bind_of_ne (h : ¬ (e = e' ∧ x = y)) :
    (st.bind e x v).local? e' y = st.local? e' y := by
  by_cases he : st.Holds e
  · rw [st.local?_bind e e' x y v he, if_neg h]
  · rw [st.bind_of_not_holds e x v he]

variable {st e e' x y v}

/-- What a scope binds was bound just now or before. -/
theorem local?_bind_cases {w : Value} (h : (st.bind e x v).local? e' y = some w) :
    (e = e' ∧ x = y ∧ v = w) ∨ st.local? e' y = some w := by
  by_cases heq : e = e' ∧ x = y
  · by_cases he : st.Holds e
    · rw [st.local?_bind e e' x y v he, if_pos heq] at h
      exact .inl ⟨heq.1, heq.2, Option.some.inj h⟩
    · rw [st.bind_of_not_holds e x v he] at h
      exact .inr h
  · rw [st.local?_bind_of_ne e e' x y v heq] at h
    exact .inr h

theorem binds_bind_cases (h : (st.bind e x v).binds e' y = true) :
    (e = e' ∧ x = y) ∨ st.binds e' y = true := by
  obtain ⟨w, hw⟩ := binds_eq_true_iff.1 h
  exact (local?_bind_cases hw).imp (fun heq => ⟨heq.1, heq.2.1⟩) fun hw =>
    binds_eq_true_iff.2 ⟨w, hw⟩

variable (st e e' x y v)

/-! ### After a new scope -/

variable (parent : Option ScopeId)

theorem holds_push : (st.push parent).Holds e ↔ st.Holds e ∨ e = st.fresh := by
  simp only [Holds, push, fresh, Array.size_push]
  exact Nat.lt_succ_iff_lt_or_eq

theorem not_holds_fresh : ¬ st.Holds st.fresh := Nat.lt_irrefl _

theorem scopes_push_of_ne (h : e ≠ st.fresh) :
    (st.push parent).scopes[e]? = st.scopes[e]? := by
  simp only [push, Array.getElem?_push]
  exact if_neg h

theorem parent?_push (h : e ≠ st.fresh) : (st.push parent).parent? e = st.parent? e := by
  simp only [parent?, st.scopes_push_of_ne e parent h]

theorem parent?_push_fresh :
    (st.push parent).parent? st.fresh = parent.filter (· < st.fresh) := by
  simp only [parent?, push, fresh, Array.getElem?_push_size]
  rfl

theorem parent?_push_fresh_of_holds {p : ScopeId} (h : st.Holds p) :
    (st.push (some p)).parent? st.fresh = some p := by
  rw [parent?_push_fresh]
  exact Option.filter_eq_some_iff.2 ⟨rfl, decide_eq_true h⟩

theorem parent?_push_congr {st st' : Store} (hfresh : st.fresh = st'.fresh)
    (h : ∀ e, st.parent? e = st'.parent? e) (parent : Option ScopeId) (e : ScopeId) :
    (st.push parent).parent? e = (st'.push parent).parent? e := by
  by_cases he : e = st.fresh
  · have he' : e = st'.fresh := he.trans hfresh
    subst he
    rw [parent?_push_fresh, he', parent?_push_fresh]
  · have he' : e ≠ st'.fresh := hfresh ▸ he
    rw [parent?_push st e parent he, parent?_push st' e parent he', h]

theorem local?_push : (st.push parent).local? e x = st.local? e x := by
  simp only [local?, push, Array.getElem?_push]
  split
  · next h => simp [h]
  · rfl

theorem holds_parent? {e p : ScopeId} (h : st.parent? e = some p) : st.Holds e ∧ st.Holds p := by
  obtain ⟨s, hs, _⟩ := Option.bind_eq_some_iff.1 h
  have he : e < st.scopes.size := (Array.getElem?_eq_some_iff.1 hs).1
  exact ⟨he, Nat.lt_trans (lt_of_parent? h) he⟩

theorem fresh_push : (st.push parent).fresh = st.fresh + 1 := by simp [fresh, push]

/-! ### Roots -/

theorem root_of_root {st : Store} {e : ScopeId} (h : st.parent? e = none) : st.root e = e := by
  simp [root, chain_of_root h]

theorem root_of_parent {st : Store} {e p : ScopeId} (h : st.parent? e = some p) :
    st.root e = st.root p := by
  simp only [root, chain_of_parent h]
  exact List.getLast_cons (st.chain_ne_nil p)

/-- The walk outward ends at a scope with none around it. -/
theorem parent?_root : st.parent? (st.root e) = none := by
  induction e using st.outward_induction with
  | root e hp => rwa [root_of_root hp]
  | inside e p hp ih => rwa [root_of_parent hp]

end Featherweight.Store
