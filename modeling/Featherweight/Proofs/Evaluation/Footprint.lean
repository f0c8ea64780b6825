import Featherweight.Proofs.Evaluation.Agreement
import Featherweight.Proofs.Evaluation.History

/-!
# The scopes that evaluation depends on

What a tree can reach from the scope it is evaluated in: the scopes around, those that closures in
the tree captured, and those that closures captured which are bound in a scope reached, with the
closures in their bodies (`Reaches`). Evaluation changes no other scope that exists, and comes out
the same whatever these other scopes bind (`eval_isolated`).

The proof runs both stores side by side. Every scope that the runs come upon was reached at the
start or is made by them: this is what the agreement of stores keeps.
-/

namespace Featherweight

/-- The scopes that the tree `t`, evaluated in `e`, can reach in the store. -/
inductive Reaches (st : Store) (t : Expr) (e : ScopeId) : ScopeId → Prop
  | here : Reaches st t e e
  | literal {c : Closure} (hc : c ∈ t.closures) : Reaches st t e c.scope
  | around {s p : ScopeId} (hs : Reaches st t e s) (hp : st.parent? s = some p) : Reaches st t e p
  | bound {s : ScopeId} {x : String} {c : Closure} (hs : Reaches st t e s)
      (hx : st.local? s x = some (.closure c)) : Reaches st t e c.scope
  | inside {s : ScopeId} {x : String} {c d : Closure} (hs : Reaches st t e s)
      (hx : st.local? s x = some (.closure c)) (hd : d ∈ c.body.closures) : Reaches st t e d.scope

/-- Do the stores have the same scopes inside each other, and do those that satisfy `S` bind the
same? -/
structure Store.AgreeOn (S : ScopeId → Prop) (st st' : Store) : Prop where
  scopes : st.fresh = st'.fresh
  parent : ∀ e, st.parent? e = st'.parent? e
  bindings : ∀ e, S e → ∀ x, st.local? e x = st'.local? e x

theorem Store.AgreeOn.refl (S : ScopeId → Prop) (st : Store) : Store.AgreeOn S st st :=
  ⟨rfl, fun _ => rfl, fun _ _ _ => rfl⟩

/-- A scope that was reached at the start, or did not exist then. -/
def ReachedOrNew (st : Store) (t : Expr) (e s : ScopeId) : Prop := Reaches st t e s ∨ st.fresh ≤ s

section

variable {st st' : Store} {t : Expr} {e : ScopeId}

/-- The closures that a scope reached binds have captured scopes reached only. -/
theorem Reaches.of_bound {s : ScopeId} {x : String} {v : Value} (hs : Reaches st t e s)
    (hx : st.local? s x = some v) : ∀ c ∈ v.closures, Reaches st t e c.scope := by
  cases v with
  | closure c =>
    obtain ⟨site, ps, body, scope⟩ := c
    simp only [Value.closures, Closure.closures, List.forall_mem_cons]
    exact ⟨hs.bound hx, fun d hd => hs.inside hx hd⟩
  | int _ =>
    intro c hc
    cases hc
  | bool _ =>
    intro c hc
    cases hc
  | null =>
    intro c hc
    cases hc

theorem ReachedOrNew.outward {s p : ScopeId} (hs : ReachedOrNew st t e s)
    (hp : st.parent? s = some p) : ReachedOrNew st t e p := by
  rcases hs with hs | hs
  · exact .inl (hs.around hp)
  · exact absurd (st.holds_parent? hp).1 (Nat.not_lt.2 hs)

/-- Stores that agree on what is reached are in agreement as runs keep it. -/
theorem Store.AgreeOn.agree (h : Store.AgreeOn (Reaches st t e) st st') :
    Store.Agree st (Only AnyName) (Only AnyName) (ReachedOrNew st t e) st st' where
  fresh_eq := h.scopes
  parent?_eq := h.parent
  outward := ReachedOrNew.outward
  unmade := .inr
  bound := by
    rintro s x x' hs ⟨rfl, -⟩
    rcases hs with hs | hs
    · rw [← h.bindings s hs x]
      cases hx : st.local? s x with
      | none => exact .none
      | some v =>
        have hclosures := hs.of_bound hx
        exact .some (v.corresponds_self (fun _ _ => trivial) fun c hc => .inl (hclosures c hc))
    · -- A scope that does not exist yet binds nothing on either side.
      have hs' : st'.fresh ≤ s := h.scopes ▸ hs
      rw [st.local?_of_not_holds s x (Nat.not_lt.2 hs),
        st'.local?_of_not_holds s x (Nat.not_lt.2 hs')]
      exact .none
  frame _ := rfl

theorem simulates_record (base : Store) (S : ScopeId → Prop) :
    Simulates (Only AnyName) S Run.record Run.record
      (Machine.Agree base (Only AnyName) (Only AnyName) S) := by
  refine Machine.Agree.simulates (biUnique_only AnyName) id (fun hv => by rw [hv.eq]) ?_
  rintro c c' hc
  have hscope : S c.scope := hc.scope
  have hv : Value.Corresponds (Only AnyName) S (.closure c) (.closure c') := .closure hc
  rw [← hc.eq] at hv ⊢
  exact Machine.Agree.update (biUnique_only AnyName) hscope ⟨rfl, trivial⟩ hv

/-- Stores that agree on what is reached lead to the same outcome, and agree again. -/
theorem Store.AgreeOn.eval (h : Store.AgreeOn (Reaches st t e) st st') (sink : Sink) (n : Nat) :
    (settle (eval n t e ⟨st, sink⟩)).1 = (settle (eval n t e ⟨st', sink⟩)).1 ∧
      Machine.Agree st (Only AnyName) (Only AnyName) (ReachedOrNew st t e)
        (settle (eval n t e ⟨st, sink⟩)).2 (settle (eval n t e ⟨st', sink⟩)).2 := by
  have ht : t.Corresponds (Only AnyName) (ReachedOrNew st t e) t :=
    t.corresponds_self (fun _ _ => trivial) fun _ hc => .inl (.literal hc)
  have hlift : Lifts (Halt.Corresponds (Only AnyName))
      (Machine.Agree st (Only AnyName) (Only AnyName) (ReachedOrNew st t e))
      (Machine.Agree st (Only AnyName) (Only AnyName) (ReachedOrNew st t e)) := fun hr => hr
  have hrun := (simulates_record st _).evalWith hlift n ht (.inl .here) ⟨st, sink⟩ ⟨st', sink⟩
    ⟨h.agree, rfl⟩
  obtain ⟨houtcome, hmachine⟩ := hrun.settle
  exact ⟨houtcome.eq, hmachine⟩

end

/-- Evaluating a tree, whatever comes of it, leaves every scope that it cannot reach as it was. In
two stores of the same scopes that agree on those it can reach it has the same outcome and prints
the same, and leaves stores that agree on these scopes and on all new ones. -/
theorem eval_isolated (st : Store) (t : Expr) (e : ScopeId) (sink : Sink) (n : Nat) :
    (∀ s, s < st.fresh → ¬ Reaches st t e s →
        (settle (eval n t e ⟨st, sink⟩)).2.store.scopes[s]? = st.scopes[s]?) ∧
      ∀ st', Store.AgreeOn (Reaches st t e) st st' →
        (settle (eval n t e ⟨st, sink⟩)).1 = (settle (eval n t e ⟨st', sink⟩)).1 ∧
        (settle (eval n t e ⟨st, sink⟩)).2.sink = (settle (eval n t e ⟨st', sink⟩)).2.sink ∧
        Store.AgreeOn (fun s => Reaches st t e s ∨ st.fresh ≤ s)
          (settle (eval n t e ⟨st, sink⟩)).2.store (settle (eval n t e ⟨st', sink⟩)).2.store := by
  constructor
  · intro s hs hreach
    -- A store agrees with itself; of the agreement only the frame matters here.
    have hagree := ((Store.AgreeOn.refl (Reaches st t e) st).eval sink n).2
    refine hagree.store.frame ?_
    rintro (hreached | hnew)
    · exact hreach hreached
    · exact absurd hs (Nat.not_lt.2 hnew)
  · intro st' hst'
    obtain ⟨houtcome, hagree⟩ := hst'.eval sink n
    refine ⟨houtcome, hagree.sink, hagree.store.fresh_eq, hagree.store.parent?_eq, ?_⟩
    intro s hs x
    exact eq_of_rel_corresponds (hagree.store.bound hs ⟨rfl, trivial⟩)

/-- The globals and a scope inside them. -/
def nested : Store := Store.initial.push (some Store.globals)

/-- The program `x = 1;`. -/
def setsX : Expr := .assign "x" (.int 1)

/-- From the globals the program cannot reach the scope inside them. -/
theorem Reaches.eq_globals {s : ScopeId} (h : Reaches nested setsX Store.globals s) :
    s = Store.globals := by
  have hlocal (x : String) : nested.local? Store.globals x = none := by
    rw [nested, Store.local?_push, Store.local?_initial]
  induction h with
  | here => rfl
  | literal hc => cases hc
  | around _ hp ih =>
    subst ih
    cases hp
  | bound _ hx ih =>
    subst ih
    rw [hlocal] at hx
    cases hx
  | inside _ hx _ ih =>
    subst ih
    rw [hlocal] at hx
    cases hx

/-- What the inner scope binds makes no difference to the program, which leaves it as it is. -/
theorem eval_isolated_nested :
    Store.AgreeOn (Reaches nested setsX Store.globals) nested (nested.bind 1 "y" .null) ∧
      (settle (eval 3 setsX Store.globals ⟨nested, .unlimited⟩)).1 =
        (settle (eval 3 setsX Store.globals ⟨nested.bind 1 "y" .null, .unlimited⟩)).1 ∧
      (settle (eval 3 setsX Store.globals ⟨nested, .unlimited⟩)).2.store.scopes[1]? =
        nested.scopes[1]? := by
  have hagree : Store.AgreeOn (Reaches nested setsX Store.globals) nested
      (nested.bind 1 "y" .null) := by
    refine ⟨(nested.fresh_bind 1 "y" .null).symm, fun s => (nested.parent?_bind 1 s "y" .null).symm,
      fun s hs x => ?_⟩
    have hne : ¬ (1 = s ∧ "y" = x) := fun h => absurd (h.1.trans hs.eq_globals) (by decide)
    have hholds : nested.Holds 1 := Nat.lt_succ_self 1
    rw [nested.local?_bind 1 s "y" x .null hholds, if_neg hne]
  have hunreached : ¬ Reaches nested setsX Store.globals 1 :=
    fun h => absurd h.eq_globals (by decide)
  obtain ⟨hframe, hsame⟩ := eval_isolated nested setsX Store.globals .unlimited 3
  exact ⟨hagree, (hsame _ hagree).1, hframe 1 (by decide) hunreached⟩

end Featherweight
