import Featherweight.Expr.Basic
import Std.Data.ExtTreeMap

/-!
# The store of scopes

Scopes hold the bindings of a run. Every scope but a root lies inside a scope made before it, so the
scopes form a forest and every walk outward ends at a root: `chain` lists the scopes passed. Names
are looked up along the chain, declared in its first scope, and updated in the first scope that
binds them, or in the root if none does.
-/

namespace Featherweight

/-- A scope: its own bindings and the scope around it. -/
structure Scope where
  bindings : Std.ExtTreeMap String Value
  parent : Option ScopeId

/-- All scopes, each made later than the scope around it. -/
structure Store where
  scopes : Array Scope
  parent_lt : ∀ (e : Nat) (h : e < scopes.size) (p : ScopeId), scopes[e].parent = some p → p < e

namespace Store

/-- The scope that every store starts with. -/
def globals : ScopeId := 0

/-- A store with one root that binds nothing. -/
def initial : Store where
  scopes := #[⟨∅, none⟩]
  parent_lt := by intro e h p hp; simp at h; subst h; simp at hp

/-! ### Looking -/

/-- The scope around `e`. -/
def parent? (st : Store) (e : ScopeId) : Option ScopeId := st.scopes[e]?.bind Scope.parent

/-- The value that `e` itself binds to `x`. -/
def local? (st : Store) (e : ScopeId) (x : String) : Option Value :=
  st.scopes[e]?.bind fun s => s.bindings[x]?

/-- Does `e` itself bind `x`? -/
def binds (st : Store) (e : ScopeId) (x : String) : Bool := (st.local? e x).isSome

/-- The bindings of `e` itself, by name. -/
def locals (st : Store) (e : ScopeId) : List (String × Value) :=
  match st.scopes[e]? with
  | some s => s.bindings.toList
  | none   => []

/-- Is there no scope around `e`? -/
def isRoot (st : Store) (e : ScopeId) : Bool := (st.parent? e).isNone

theorem lt_of_parent? {st : Store} {e p : ScopeId} (h : st.parent? e = some p) : p < e := by
  obtain ⟨s, hs, hp⟩ := Option.bind_eq_some_iff.1 h
  obtain ⟨he, rfl⟩ := Array.getElem?_eq_some_iff.1 hs
  exact st.parent_lt e he p hp

/-- The scopes from `e` outward, ending with its root. -/
def chain (st : Store) (e : ScopeId) : List ScopeId :=
  match h : st.parent? e with
  | none   => [e]
  | some p =>
    have := lt_of_parent? h
    e :: st.chain p
termination_by e

theorem chain_of_root {st : Store} {e : ScopeId} (h : st.parent? e = none) :
    st.chain e = [e] := by
  rw [chain]; split <;> simp_all

theorem chain_of_parent {st : Store} {e p : ScopeId} (h : st.parent? e = some p) :
    st.chain e = e :: st.chain p := by
  rw [chain]; split <;> simp_all

theorem chain_ne_nil (st : Store) (e : ScopeId) : st.chain e ≠ [] := by
  rw [chain]; split <;> simp

/-- The outermost scope around `e`. -/
def root (st : Store) (e : ScopeId) : ScopeId := (st.chain e).getLast (st.chain_ne_nil e)

/-- The first scope from `e` outward that binds `x`. -/
def holder? (st : Store) (e : ScopeId) (x : String) : Option ScopeId :=
  (st.chain e).find? fun s => st.binds s x

/-- The value of `x` seen from `e`; a name that nothing binds is `null`. -/
def resolve (st : Store) (e : ScopeId) (x : String) : Value :=
  ((st.chain e).findSome? fun s => st.local? s x).getD .null

/-! ### Writing -/

/-- The store with `x` bound to `v` in `e` itself. -/
def bind (st : Store) (e : ScopeId) (x : String) (v : Value) : Store where
  scopes := st.scopes.modify e fun s => { s with bindings := s.bindings.insert x v }
  parent_lt := by
    intro e' h' p hp
    rw [Array.getElem_modify] at hp
    refine st.parent_lt e' (by simpa using h') p ?_
    split at hp <;> simpa using hp

/-- The store with `v` for `x` where `e` sees `x` bound, or in the root around `e`. -/
def update (st : Store) (e : ScopeId) (x : String) (v : Value) : Store :=
  st.bind ((st.holder? e x).getD (st.root e)) x v

/-! ### New scopes -/

/-- The scope that is made next. -/
def fresh (st : Store) : ScopeId := st.scopes.size

/-- The store with a new scope inside `parent`; a scope that does not exist is not around any. -/
def push (st : Store) (parent : Option ScopeId) : Store where
  scopes := st.scopes.push ⟨∅, parent.filter (· < st.scopes.size)⟩
  parent_lt := by
    intro e h p hp
    rw [Array.getElem_push] at hp
    split at hp
    · exact st.parent_lt e ‹_› p hp
    · obtain ⟨_, hlt⟩ := Option.filter_eq_some_iff.1 hp
      exact Nat.lt_of_lt_of_le (by simpa using hlt) (Nat.le_of_not_lt ‹_›)

end Store

end Featherweight
