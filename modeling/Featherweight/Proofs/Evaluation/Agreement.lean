import Featherweight.Proofs.Evaluation.Matching
import Featherweight.Proofs.Evaluation.Simulation
import Mathlib.Logic.Relator

/-!
# Stores that agree

Two stores agree on the scopes that satisfy `S` when they have the same scopes inside each other
and bind, in those scopes, names related by `K` to corresponding values (`Store.Agree`). The scopes
that satisfy `S` are closed outward and include every scope not made yet, so that a run in one of
them never leaves them. Agreement also keeps count of what is written: scopes outside `S` are as
they are in the store `base`.

Whatever the evaluator does to both machines keeps them in agreement (`Machine.Agree.simulates`).
-/

namespace Featherweight

variable {N K : String → String → Prop} {S : ScopeId → Prop} {base st st' : Store}
  {e : ScopeId} {x x' : String} {v v' : Value}

/-- Do the stores agree on the scopes that satisfy `S`, for names related by `K`, and is the first
of them as `base` everywhere else? -/
structure Store.Agree (base : Store) (N K : String → String → Prop) (S : ScopeId → Prop)
    (st st' : Store) : Prop where
  fresh_eq : st.fresh = st'.fresh
  parent?_eq : ∀ e, st.parent? e = st'.parent? e
  outward : ∀ {e p : ScopeId}, S e → st.parent? e = some p → S p
  unmade : ∀ {e : ScopeId}, st.fresh ≤ e → S e
  bound : ∀ {e : ScopeId} {x x' : String}, S e → K x x' →
    Option.Rel (Value.Corresponds N S) (st.local? e x) (st'.local? e x')
  frame : ∀ {e : ScopeId}, ¬ S e → st.scopes[e]? = base.scopes[e]?

namespace Store.Agree

/-! ### Looking -/

theorem holds_iff (h : Agree base N K S st st') : st.Holds e ↔ st'.Holds e :=
  holds_congr h.fresh_eq

theorem chain_eq (h : Agree base N K S st st') (e : ScopeId) : st.chain e = st'.chain e :=
  chain_congr h.parent?_eq e

theorem root_eq (h : Agree base N K S st st') (e : ScopeId) : st.root e = st'.root e :=
  root_congr h.parent?_eq e

theorem mem_chain (h : Agree base N K S st st') (he : S e) : ∀ s ∈ st.chain e, S s :=
  st.forall_mem_chain h.outward he

theorem binds_eq (h : Agree base N K S st st') (he : S e) (hx : K x x') :
    st.binds e x = st'.binds e x' := by
  have hrel := h.bound he hx
  unfold binds
  generalize st.local? e x = o at hrel ⊢
  generalize st'.local? e x' = o' at hrel ⊢
  cases hrel <;> rfl

theorem holder?_eq (h : Agree base N K S st st') (he : S e) (hx : K x x') :
    st.holder? e x = st'.holder? e x' := by
  unfold holder?
  rw [← h.chain_eq e]
  exact List.find?_congr fun s hs => h.binds_eq (h.mem_chain he s hs) hx

theorem resolve (h : Agree base N K S st st') (he : S e) (hx : K x x') :
    (st.resolve e x).Corresponds N S (st'.resolve e x') := by
  unfold Store.resolve
  rw [← h.chain_eq e]
  have hS := h.mem_chain he
  generalize st.chain e = scopes at hS
  induction scopes with
  | nil => exact .null
  | cons s scopes ih =>
    obtain ⟨hs, hscopes⟩ := List.forall_mem_cons.1 hS
    have hrel := h.bound hs hx
    simp only [List.findSome?_cons]
    generalize st.local? s x = o at hrel ⊢
    generalize st'.local? s x' = o' at hrel ⊢
    cases hrel with
    | some hv => exact hv
    | none => exact ih hscopes

/-! ### Writing -/

/-- The scope that an update writes to satisfies `S` if the scope it is seen from does. -/
theorem target (h : Agree base N K S st st') (he : S e) :
    S ((st.holder? e x).getD (st.root e)) := by
  cases hh : st.holder? e x with
  | some s => exact h.mem_chain he s (List.mem_of_find?_eq_some hh)
  | none => exact h.mem_chain he _ (st.root_mem_chain e)

theorem frame_bind (h : Agree base N K S st st') (he : S e) {s : ScopeId} (hs : ¬ S s) :
    (st.bind e x v).scopes[s]? = base.scopes[s]? := by
  have hne : e ≠ s := fun heq => hs (heq ▸ he)
  rw [scopes_bind_of_ne st e s x v hne]
  exact h.frame hs

theorem bind (hK : Relator.BiUnique K) (h : Agree base N K S st st') (he : S e) (hx : K x x')
    (hv : v.Corresponds N S v') :
    Agree base N K S (st.bind e x v) (st'.bind e x' v') where
  fresh_eq := by rw [fresh_bind, fresh_bind, h.fresh_eq]
  parent?_eq s := by rw [parent?_bind, parent?_bind, h.parent?_eq]
  outward hs hp := h.outward hs (parent?_bind st _ _ x v ▸ hp)
  unmade hs := h.unmade (fresh_bind st e x v ▸ hs)
  bound := by
    intro s y y' hs hy
    by_cases hholds : st.Holds e
    · have hholds' : st'.Holds e := h.holds_iff.1 hholds
      -- As `K` pairs names one to one, both sides hit the name looked up or both miss it.
      have hiff : x = y ↔ x' = y' := Relator.rel_eq hK hx hy
      rw [local?_bind st e s x y v hholds, local?_bind st' e s x' y' v' hholds']
      by_cases heq : e = s ∧ x = y
      · have heq' : e = s ∧ x' = y' := ⟨heq.1, hiff.1 heq.2⟩
        rw [if_pos heq, if_pos heq']
        exact .some hv
      · have heq' : ¬ (e = s ∧ x' = y') := fun h' => heq ⟨h'.1, hiff.2 h'.2⟩
        rw [if_neg heq, if_neg heq']
        exact h.bound hs hy
    · have hholds' : ¬ st'.Holds e := fun hh => hholds (h.holds_iff.2 hh)
      rw [bind_of_not_holds st e x v hholds, bind_of_not_holds st' e x' v' hholds']
      exact h.bound hs hy
  frame hs := h.frame_bind he hs

/-- A name that stands for none on the other side may be bound on this side alone. -/
theorem bind_left (hx : ∀ x', ¬ K x x') (h : Agree base N K S st st') (he : S e) :
    Agree base N K S (st.bind e x v) st' where
  fresh_eq := by rw [fresh_bind, h.fresh_eq]
  parent?_eq s := by rw [parent?_bind, h.parent?_eq]
  outward hs hp := h.outward hs (parent?_bind st _ _ x v ▸ hp)
  unmade hs := h.unmade (fresh_bind st e x v ▸ hs)
  bound := by
    intro s y y' hs hy
    have hne : ¬ (e = s ∧ x = y) := fun heq => hx y' (heq.2 ▸ hy)
    rw [local?_bind_of_ne st e s x y v hne]
    exact h.bound hs hy
  frame hs := h.frame_bind he hs

theorem update (hK : Relator.BiUnique K) (h : Agree base N K S st st') (he : S e) (hx : K x x')
    (hv : v.Corresponds N S v') :
    Agree base N K S (st.update e x v) (st'.update e x' v') := by
  unfold Store.update
  rw [← h.holder?_eq he hx, ← h.root_eq e]
  exact h.bind hK (h.target he) hx hv

theorem update_left (hx : ∀ x', ¬ K x x') (h : Agree base N K S st st') (he : S e) :
    Agree base N K S (st.update e x v) st' := by
  unfold Store.update
  exact h.bind_left hx (h.target he)

theorem push (h : Agree base N K S st st') {p : ScopeId} (hp : S p) :
    Agree base N K S (st.push (some p)) (st'.push (some p)) where
  fresh_eq := by rw [fresh_push, fresh_push, h.fresh_eq]
  parent?_eq := parent?_push_congr h.fresh_eq h.parent?_eq (some p)
  outward := by
    intro s q hs hq
    by_cases hfresh : s = st.fresh
    · subst hfresh
      rw [parent?_push_fresh] at hq
      obtain ⟨hpq, _⟩ := Option.filter_eq_some_iff.1 hq
      cases hpq
      exact hp
    · rw [parent?_push st s (some p) hfresh] at hq
      exact h.outward hs hq
  unmade := by
    intro s hs
    rw [fresh_push] at hs
    exact h.unmade (Nat.le_of_succ_le hs)
  bound hs hx := by
    rw [local?_push, local?_push]
    exact h.bound hs hx
  frame := by
    intro s hs
    -- The new scope satisfies `S`, so `s` is another one.
    have hne : s ≠ st.fresh := fun heq => hs (h.unmade (Nat.le_of_eq heq.symm))
    rw [scopes_push_of_ne st s (some p) hne]
    exact h.frame hs

end Store.Agree

theorem biUnique_only (P : String → Prop) : Relator.BiUnique (Only P) :=
  ⟨fun _ _ _ h h' => h.1.trans h'.1.symm, fun _ _ _ h h' => h.1.symm.trans h'.1⟩

/-! ### Machines -/

/-- Do the stores of the machines agree, and are their sinks the same? -/
structure Machine.Agree (base : Store) (N K : String → String → Prop) (S : ScopeId → Prop)
    (m m' : Machine) : Prop where
  store : Store.Agree base N K S m.store m'.store
  sink : m.sink = m'.sink

namespace Machine.Agree

variable {F : Halt → Halt → Prop}

theorem resolve (hNK : ∀ {x x'}, N x x' → K x x') (he : S e) (hx : N x x') :
    Lockstep (Machine.Agree base N K S) F (Value.Corresponds N S) (Run.resolve e x)
      (Run.resolve e x') :=
  fun _ _ h => .ok (h.store.resolve he (hNK hx)) h

theorem update (hK : Relator.BiUnique K) (he : S e) (hx : K x x') (hv : v.Corresponds N S v') :
    Lockstep (Machine.Agree base N K S) F Anything (Run.update e x v) (Run.update e x' v') :=
  fun _ _ h => .ok trivial ⟨h.store.update hK he hx hv, h.sink⟩

theorem update_left (hx : ∀ x', ¬ K x x') (he : S e) :
    Lockstep (Machine.Agree base N K S) F Anything (Run.update e x v) (pure ()) :=
  fun _ _ h => .ok trivial ⟨h.store.update_left hx he, h.sink⟩

/-- Both sides declare the name, or both refuse to. -/
theorem declare (hK : Relator.BiUnique K) (hNK : ∀ {x x'}, N x x' → K x x') (he : S e)
    (hx : N x x') (hv : v.Corresponds N S v') :
    Lockstep (Machine.Agree base N K S) (Halt.Corresponds N) Anything (Run.declare e x v)
      (Run.declare e x' v') := by
  have hask : Lockstep (Machine.Agree base N K S) (Halt.Corresponds N) Eq
      (Run.ask fun st => st.binds e x) (Run.ask fun st => st.binds e x') :=
    fun _ _ h => .ok (h.store.binds_eq he (hNK hx)) h
  refine hask.bind fun taken taken' heq => ?_
  subst heq
  cases taken with
  | true => exact Lockstep.throw (.duplicate hx)
  | false => exact fun _ _ h => .ok trivial ⟨h.store.bind hK he (hNK hx) hv, h.sink⟩

theorem newScope {p : ScopeId} (hp : S p) :
    Lockstep (Machine.Agree base N K S) F (fun e e' => e = e' ∧ S e) (Run.newScope (some p))
      (Run.newScope (some p)) :=
  fun _ _ h => .ok ⟨h.store.fresh_eq, h.store.unmade (Nat.le_refl _)⟩ ⟨h.store.push hp, h.sink⟩

theorem printLine (text : String) :
    Lockstep (Machine.Agree base N K S) (Halt.Corresponds N) Anything (Run.printLine text)
      (Run.printLine text) :=
  lockstep_printLine (fun h => h.sink) (fun h _ => ⟨h.store, rfl⟩) (.same (by simp)) text

theorem flush :
    Lockstep (Machine.Agree base N K S) (Halt.Corresponds N) Anything Run.flush Run.flush :=
  lockstep_flush (fun h => h.sink) (.same (by simp))

/-- Everything that the evaluator does to machines keeps them in agreement, if corresponding values
print alike and recording a closure keeps the agreement too. -/
theorem simulates {made made' : Closure → Run Unit} (hK : Relator.BiUnique K)
    (hNK : ∀ {x x'}, N x x' → K x x')
    (hrender : ∀ {v v' : Value}, v.Corresponds N S v' → v.render = v'.render)
    (hmade : ∀ {c c' : Closure}, c.Corresponds N S c' →
      Lockstep (Machine.Agree base N K S) (Halt.Corresponds N) Anything (made c) (made' c')) :
    Simulates N S made made' (Machine.Agree base N K S) where
  resolve := Machine.Agree.resolve hNK
  update he hx hv := Machine.Agree.update hK he (hNK hx) hv
  declare := Machine.Agree.declare hK hNK
  newScope := Machine.Agree.newScope
  printLine hv := hrender hv ▸ Machine.Agree.printLine _
  flush := Machine.Agree.flush
  made := hmade

end Machine.Agree

end Featherweight
