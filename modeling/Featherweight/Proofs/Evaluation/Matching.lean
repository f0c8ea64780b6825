import Featherweight.Eval
import Featherweight.Proofs.Lockstep
import Featherweight.Store.Lemmas
import Mathlib.Data.List.Find

/-!
# Stores that match

Two stores match when they have the same scopes inside each other, and every scope binds the same
names on both sides, to values related by `V` (`Store.Matches`). Machines match when their stores do
and their sinks are the same. Whatever is done to both machines alike keeps them matching, and is
done in lockstep, for whatever `V` relates `null` with itself.
-/

namespace Featherweight

variable {V : Value → Value → Prop} {st st' : Store} {e : ScopeId} {x : String} {v v' : Value}

/-- Do the stores have the same scopes that bind the same names, to values related by `V`? -/
structure Store.Matches (V : Value → Value → Prop) (st st' : Store) : Prop where
  fresh_eq : st.fresh = st'.fresh
  parent?_eq : ∀ e, st.parent? e = st'.parent? e
  bound : ∀ e x, Option.Rel V (st.local? e x) (st'.local? e x)

/-- Do the stores of the machines match, and are their sinks the same? -/
structure Machine.Matches (V : Value → Value → Prop) (m m' : Machine) : Prop where
  store : Store.Matches V m.store m'.store
  sink : m.sink = m'.sink

namespace Store.Matches

theorem refl (hV : ∀ v, V v v) (st : Store) : st.Matches V st where
  fresh_eq := rfl
  parent?_eq _ := rfl
  bound e x := by
    cases st.local? e x with
    | none => exact .none
    | some v => exact .some (hV v)

theorem symm (hV : ∀ v v', V v v' → V v' v) (h : st.Matches V st') : st'.Matches V st where
  fresh_eq := h.fresh_eq.symm
  parent?_eq e := (h.parent?_eq e).symm
  bound e x := by
    have hrel := h.bound e x
    generalize st.local? e x = o at hrel ⊢
    generalize st'.local? e x = o' at hrel ⊢
    cases hrel with
    | none => exact .none
    | some hv => exact .some (hV _ _ hv)

/-! ### Looking -/

theorem holds_iff (h : st.Matches V st') : st.Holds e ↔ st'.Holds e := holds_congr h.fresh_eq

theorem chain_eq (h : st.Matches V st') (e : ScopeId) : st.chain e = st'.chain e :=
  chain_congr h.parent?_eq e

theorem binds_eq (h : st.Matches V st') (e : ScopeId) (x : String) :
    st.binds e x = st'.binds e x := by
  have hrel := h.bound e x
  unfold binds
  generalize st.local? e x = o at hrel ⊢
  generalize st'.local? e x = o' at hrel ⊢
  cases hrel <;> rfl

theorem holder?_eq (h : st.Matches V st') (e : ScopeId) (x : String) :
    st.holder? e x = st'.holder? e x := by
  unfold holder?
  rw [← h.chain_eq e]
  exact List.find?_congr fun s _ => h.binds_eq s x

theorem resolve (hnull : V .null .null) (h : st.Matches V st') (e : ScopeId) (x : String) :
    V (st.resolve e x) (st'.resolve e x) := by
  unfold Store.resolve
  rw [← h.chain_eq e]
  generalize st.chain e = scopes
  induction scopes with
  | nil => exact hnull
  | cons s scopes ih =>
    have hrel := h.bound s x
    simp only [List.findSome?_cons]
    generalize st.local? s x = o at hrel ⊢
    generalize st'.local? s x = o' at hrel ⊢
    cases hrel with
    | some hv => exact hv
    | none => exact ih

/-! ### Writing -/

theorem bind (h : st.Matches V st') (e : ScopeId) (x : String) (hv : V v v') :
    (st.bind e x v).Matches V (st'.bind e x v') where
  fresh_eq := by rw [fresh_bind, fresh_bind, h.fresh_eq]
  parent?_eq s := by rw [parent?_bind, parent?_bind, h.parent?_eq]
  bound := by
    intro s y
    by_cases hholds : st.Holds e
    · have hholds' : st'.Holds e := h.holds_iff.1 hholds
      rw [local?_bind st e s x y v hholds, local?_bind st' e s x y v' hholds']
      split
      · exact .some hv
      · exact h.bound s y
    · have hholds' : ¬ st'.Holds e := fun hh => hholds (h.holds_iff.2 hh)
      rw [bind_of_not_holds st e x v hholds, bind_of_not_holds st' e x v' hholds']
      exact h.bound s y

theorem update (h : st.Matches V st') (e : ScopeId) (x : String) (hv : V v v') :
    (st.update e x v).Matches V (st'.update e x v') := by
  unfold Store.update
  rw [← h.holder?_eq e x, ← root_congr h.parent?_eq e]
  exact h.bind _ x hv

theorem push (h : st.Matches V st') (parent : Option ScopeId) :
    (st.push parent).Matches V (st'.push parent) where
  fresh_eq := by rw [fresh_push, fresh_push, h.fresh_eq]
  parent?_eq := parent?_push_congr h.fresh_eq h.parent?_eq parent
  bound s y := by
    rw [local?_push, local?_push]
    exact h.bound s y

end Store.Matches

/-! ### Sinks -/

section

variable {H : Machine → Machine → Prop} {F : Halt → Halt → Prop}

/-- A line is written to both sinks in lockstep if they are the same and nothing else matters. -/
theorem lockstep_printLine (hsink : ∀ {m m'}, H m m' → m.sink = m'.sink)
    (hwith : ∀ {m m'}, H m m' → ∀ s, H { m with sink := s } { m' with sink := s })
    (hfull : F (.failure .sinkFull) (.failure .sinkFull)) (text : String) :
    Lockstep H F Anything (Run.printLine text) (Run.printLine text) := by
  intro m m' h
  unfold Run.printLine
  rw [← hsink h]
  generalize m.sink.write (text ++ "\n").toUTF8 = written
  obtain ⟨fits, sink⟩ := written
  cases fits with
  | true => exact .ok trivial (hwith h sink)
  | false => exact .error hfull (hwith h sink)

theorem lockstep_flush (hsink : ∀ {m m'}, H m m' → m.sink = m'.sink)
    (hfails : F (.failure .flushFailed) (.failure .flushFailed)) :
    Lockstep H F Anything Run.flush Run.flush := by
  intro m m' h
  unfold Run.flush
  rw [← hsink h]
  split
  · exact .ok trivial h
  · exact .error hfails h

end

/-! ### Machines -/

namespace Machine.Matches

theorem refl (hV : ∀ v, V v v) (m : Machine) : m.Matches V m := ⟨.refl hV m.store, rfl⟩

theorem symm (hV : ∀ v v', V v v' → V v' v) {m m' : Machine} (h : m.Matches V m') :
    m'.Matches V m := ⟨h.store.symm hV, h.sink.symm⟩

theorem resolve (hnull : V .null .null) (e : ScopeId) (x : String) :
    Lockstep (Machine.Matches V) Eq V (Run.resolve e x) (Run.resolve e x) :=
  fun _ _ h => .ok (h.store.resolve hnull e x) h

theorem update (e : ScopeId) (x : String) (hv : V v v') :
    Lockstep (Machine.Matches V) Eq Anything (Run.update e x v) (Run.update e x v') :=
  fun _ _ h => .ok trivial ⟨h.store.update e x hv, h.sink⟩

/-- Both sides declare the name, or both refuse to. -/
theorem declare (e : ScopeId) (x : String) (hv : V v v') :
    Lockstep (Machine.Matches V) Eq Anything (Run.declare e x v) (Run.declare e x v') := by
  have hask : Lockstep (Machine.Matches V) Eq Eq
      (Run.ask fun st => st.binds e x) (Run.ask fun st => st.binds e x) :=
    fun _ _ h => .ok (h.store.binds_eq e x) h
  refine hask.bind fun taken taken' heq => ?_
  subst heq
  cases taken with
  | true => exact Lockstep.throw rfl
  | false => exact fun _ _ h => .ok trivial ⟨h.store.bind e x hv, h.sink⟩

theorem newScope (parent : Option ScopeId) :
    Lockstep (Machine.Matches V) Eq Eq (Run.newScope parent) (Run.newScope parent) :=
  fun _ _ h => .ok h.store.fresh_eq ⟨h.store.push parent, h.sink⟩

theorem printLine (text : String) :
    Lockstep (Machine.Matches V) Eq Anything (Run.printLine text) (Run.printLine text) :=
  lockstep_printLine (fun h => h.sink) (fun h _ => ⟨h.store, rfl⟩) rfl text

theorem flush : Lockstep (Machine.Matches V) Eq Anything Run.flush Run.flush :=
  lockstep_flush (fun h => h.sink) rfl

theorem bindAll (e : ScopeId) (xs : List String) {vs vs' : List Value}
    (hvs : List.Forall₂ V vs vs') :
    Lockstep (Machine.Matches V) Eq Anything (Run.bindAll e (xs.zip vs) : Run Unit)
      (Run.bindAll e (xs.zip vs')) := by
  induction xs generalizing vs vs' with
  | nil => exact Lockstep.pure trivial
  | cons x xs ih =>
    cases hvs with
    | nil => exact Lockstep.pure trivial
    | cons hv hvs => exact (declare e x hv).bind fun _ _ _ => ih hvs

end Machine.Matches

end Featherweight
