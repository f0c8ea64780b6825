import Featherweight.Proofs.Evaluation.Adequacy
import Featherweight.Store.Lemmas
import Mathlib.Data.List.Induction

/-!
# Applying a closure

An application comes to one of three ends (`apply_exactly`). If there are not as many arguments as
parameters it fails before anything is done; if a parameter is repeated it fails at the first one
that is, in a scope that nothing refers to; and else the body is evaluated in a new scope that binds
every parameter to its argument, and nothing else. No scope that exists is written to before the
body is.

Parameters are declared one after the other, so what a scope binds is followed along their list
(`Run.bindAll_append_of_nodup`): those to come are distinct, and not bound yet.
-/

namespace Featherweight

variable {st st' st'' : Store} {e : ScopeId} {x : String} {v : Value}
  {bs : List (String × Value)} {m : Machine}

/-! ### Scopes that are filled -/

/-- Is `st'` the store `st` with the bindings `bs` added in the scope `e`, and with nothing else
changed? -/
structure Store.Fills (st : Store) (e : ScopeId) (bs : List (String × Value)) (st' : Store) :
    Prop where
  fresh_eq : st'.fresh = st.fresh
  parent?_eq : ∀ s, st'.parent? s = st.parent? s
  scopes_eq : ∀ s, s ≠ e → st'.scopes[s]? = st.scopes[s]?
  local?_iff : ∀ x v, st'.local? e x = some v ↔ (x, v) ∈ bs ∨ st.local? e x = some v

theorem Store.Fills.nil (st : Store) (e : ScopeId) : st.Fills e [] st where
  fresh_eq := rfl
  parent?_eq _ := rfl
  scopes_eq _ _ := rfl
  local?_iff x v := by simp

/-- A binding more, of a name that neither the scope nor the other bindings bind. -/
theorem Store.Fills.cons (he : st.Holds e) (hx : ¬ st.binds e x) (hbs : x ∉ bs.map Prod.fst)
    (h : (st.bind e x v).Fills e bs st') : st.Fills e ((x, v) :: bs) st' where
  fresh_eq := h.fresh_eq.trans (st.fresh_bind e x v)
  parent?_eq s := (h.parent?_eq s).trans (st.parent?_bind e s x v)
  scopes_eq s hs := (h.scopes_eq s hs).trans (st.scopes_bind_of_ne e s x v hs.symm)
  local?_iff y w := by
    have hnone : st.local? e x = none := by simpa [Store.binds] using hx
    have hmem : (x, w) ∉ bs := fun hw => hbs (List.mem_map_of_mem hw)
    rw [h.local?_iff, st.local?_bind e e x y v he]
    by_cases hxy : x = y
    · subst hxy
      simp [hnone, hmem, eq_comm]
    · simp [hxy, Ne.symm hxy]

/-! ### Parameters declared one after the other -/

namespace Run

theorem bindAll_cons_of_binds (h : m.store.binds e x) :
    (bindAll e ((x, v) :: bs) : Run Unit) m =
      .error (.failure (.duplicateDeclaration x)) m := by
  have hdeclare : declare e x v m = .error (.failure (.duplicateDeclaration x)) m := by
    rw [declare_eq, if_pos h]
  exact bind_of_error hdeclare

theorem bindAll_cons_of_not_binds (h : ¬ m.store.binds e x) :
    (bindAll e ((x, v) :: bs) : Run Unit) m =
      (bindAll e bs : Run Unit) { m with store := m.store.bind e x v } := by
  have hdeclare : declare e x v m = .ok () { m with store := m.store.bind e x v } := by
    rw [declare_eq, if_neg h]
  exact bind_of_ok hdeclare

/-- Declaring distinct names that a scope does not bind, before other names. -/
theorem bindAll_append_of_nodup (he : m.store.Holds e) (hbs : (bs.map Prod.fst).Nodup)
    (hfree : ∀ x ∈ bs.map Prod.fst, ¬ m.store.binds e x) :
    ∃ st', m.store.Fills e bs st' ∧ ∀ bs', (bindAll e (bs ++ bs') : Run Unit) m =
      (bindAll e bs' : Run Unit) { m with store := st' } := by
  induction bs generalizing m with
  | nil => exact ⟨m.store, .nil _ _, fun _ => rfl⟩
  | cons b bs ih =>
    obtain ⟨x, v⟩ := b
    obtain ⟨hx, hbs⟩ := List.nodup_cons.1 hbs
    obtain ⟨hfreex, hfree⟩ := List.forall_mem_cons.1 hfree
    have he' : (m.store.bind e x v).Holds e := (m.store.holds_bind e e x v).2 he
    have hfree' : ∀ y ∈ bs.map Prod.fst, ¬ (m.store.bind e x v).binds e y := by
      intro y hy
      have hxy : x ≠ y := fun h => hx (h ▸ hy)
      simpa [Store.binds, m.store.local?_bind e e x y v he, hxy] using hfree y hy
    obtain ⟨st', hfills, hrun⟩ := ih (m := { m with store := m.store.bind e x v }) he' hbs hfree'
    refine ⟨st', hfills.cons he hfreex hx, fun bs' => ?_⟩
    rw [List.cons_append, bindAll_cons_of_not_binds hfreex]
    exact hrun bs'

/-- A name that is declared again, or that the scope binds already, is to blame. -/
theorem bindAll_append_of_mem (he : m.store.Holds e) (hbs : (bs.map Prod.fst).Nodup)
    (hfree : ∀ x ∈ bs.map Prod.fst, ¬ m.store.binds e x) (hx : x ∈ bs.map Prod.fst) (v : Value)
    (bs' : List (String × Value)) : ∃ st', m.store.Fills e bs st' ∧
      (bindAll e (bs ++ (x, v) :: bs') : Run Unit) m =
      .error (.failure (.duplicateDeclaration x)) { m with store := st' } := by
  obtain ⟨st', hfills, hrun⟩ := bindAll_append_of_nodup he hbs hfree
  have hbinds : st'.binds e x := by
    obtain ⟨⟨y, w⟩, hw, rfl⟩ := List.mem_map.1 hx
    simp [Store.binds, (hfills.local?_iff y w).2 (.inl hw)]
  refine ⟨st', hfills, ?_⟩
  rw [hrun]
  exact bindAll_cons_of_binds (m := { m with store := st' }) hbinds

end Run

/-! ### Lists with a repeated element -/

/-- The first element that is equal to an earlier one splits the list. -/
theorem exists_first_repeated {α : Type} {xs : List α} (h : ¬ xs.Nodup) :
    ∃ before x after, xs = before ++ x :: after ∧ before.Nodup ∧ x ∈ before := by
  induction xs using List.reverseRecOn with
  | nil => exact absurd List.nodup_nil h
  | append_singleton xs x ih =>
    by_cases hxs : xs.Nodup
    · refine ⟨xs, x, [], rfl, hxs, ?_⟩
      by_contra hx
      have hne : ∀ y ∈ xs, ∀ z ∈ [x], y ≠ z := by
        rintro y hy z hz rfl
        exact hx (List.mem_singleton.1 hz ▸ hy)
      exact h (List.nodup_append.2 ⟨hxs, by simp, hne⟩)
    · obtain ⟨before, y, after, rfl, hbefore, hy⟩ := ih hxs
      exact ⟨before, y, after ++ [x], by simp, hbefore, hy⟩

/-! ### Applications -/

section

variable {self : Expr → ScopeId → Run Value} {c : Closure} {args : List Value}

/-- With enough arguments, an application fills a new scope and goes on in it. -/
theorem applyWith_eq_bindAll (hlen : args.length = c.params.length) (m : Machine) :
    applyWith self c args m =
      (Run.bindAll m.store.fresh (c.params.zip args) >>= fun _ => self c.body m.store.fresh)
        { m with store := m.store.push (some c.scope) } := by
  have hscope : Run.newScope c.scope m =
      .ok m.store.fresh { m with store := m.store.push (some c.scope) } := rfl
  rw [applyWith_of_eq hlen, bind_of_ok hscope]

end

/-- The scope that is made for an application binds nothing yet. -/
theorem Store.not_binds_push_fresh (st : Store) (parent : Option ScopeId) (x : String) :
    ¬ (st.push parent).binds st.fresh x := by
  simp [binds, local?_push, st.local?_of_not_holds _ _ st.not_holds_fresh]

/-- A new scope that was filled: all others are as they were. -/
theorem Store.Fills.scopes_of_push {parent : Option ScopeId}
    (h : (st.push parent).Fills st.fresh bs st') (s : ScopeId) (hs : st.Holds s) :
    st'.scopes[s]? = st.scopes[s]? := by
  have hne : s ≠ st.fresh := Nat.ne_of_lt hs
  exact (h.scopes_eq s hne).trans (st.scopes_push_of_ne s parent hne)

section

variable {c : Closure} {args : List Value}

/-- A repeated parameter ends the application before the body is looked at. -/
theorem applyWith_of_repeated (m : Machine) (hlen : args.length = c.params.length)
    (hrepeated : ¬ c.params.Nodup) : ∃ before x after st', c.params = before ++ x :: after ∧
      before.Nodup ∧ x ∈ before ∧ (∀ s, m.store.Holds s → st'.scopes[s]? = m.store.scopes[s]?) ∧
      ∀ self : Expr → ScopeId → Run Value, applyWith self c args m =
        .error (.failure (.duplicateDeclaration x)) { m with store := st' } := by
  obtain ⟨before, x, after, hparams, hbefore, hx⟩ := exists_first_repeated hrepeated
  -- The arguments are split where the parameters are.
  obtain ⟨vs, v, ws, rfl, hvs⟩ : ∃ vs v ws, args = vs ++ v :: ws ∧ vs.length = before.length := by
    have hlt : before.length < args.length := by simp [hlen, hparams]
    refine ⟨args.take before.length, args[before.length], args.drop (before.length + 1), ?_, ?_⟩
    · rw [← List.drop_eq_getElem_cons hlt, List.take_append_drop]
    · exact List.length_take_of_le hlt.le
  have hzip : c.params.zip (vs ++ v :: ws) = before.zip vs ++ (x, v) :: after.zip ws := by
    rw [hparams, List.zip_append hvs.symm, List.zip_cons_cons]
  have hnames : (before.zip vs).map Prod.fst = before := List.map_fst_zip hvs.ge
  have hholds : (m.store.push (some c.scope)).Holds m.store.fresh :=
    (m.store.holds_push _ _).2 (.inr rfl)
  obtain ⟨st', hfills, hrun⟩ := Run.bindAll_append_of_mem
    (m := { m with store := m.store.push (some c.scope) }) hholds (hnames ▸ hbefore)
    (fun y _ => m.store.not_binds_push_fresh _ y) (hnames.symm ▸ hx) v (after.zip ws)
  rw [← hzip] at hrun
  exact ⟨before, x, after, st', hparams, hbefore, hx, hfills.scopes_of_push,
    fun self => (applyWith_eq_bindAll hlen m).trans (bind_of_error hrun)⟩

/-- Distinct parameters fill a new scope, where the body is evaluated. -/
theorem applyWith_of_nodup (self : Expr → ScopeId → Run Value) (m : Machine)
    (hlen : args.length = c.params.length) (hparams : c.params.Nodup) :
    ∃ st', (m.store.push (some c.scope)).Fills m.store.fresh (c.params.zip args) st' ∧
      applyWith self c args m = self c.body m.store.fresh { m with store := st' } := by
  have hnames : (c.params.zip args).map Prod.fst = c.params := List.map_fst_zip hlen.ge
  have hholds : (m.store.push (some c.scope)).Holds m.store.fresh :=
    (m.store.holds_push _ _).2 (.inr rfl)
  obtain ⟨st', hfills, hrun⟩ := Run.bindAll_append_of_nodup
    (m := { m with store := m.store.push (some c.scope) }) hholds (hnames.symm ▸ hparams)
    fun y _ => m.store.not_binds_push_fresh _ y
  have hall := hrun []
  rw [List.append_nil] at hall
  exact ⟨st', hfills, (applyWith_eq_bindAll hlen m).trans (bind_of_ok hall)⟩

end

/-- A closure cannot be applied if there are not as many arguments as parameters, or if a parameter
is repeated; the first that is equal to an earlier one is named. In both cases all scopes and the
sink are as they were, and what would be done with a body makes no difference. Else the outcome is
that of the body in a new scope, inside the one that the closure captured, which binds every
parameter to the argument in its place and nothing else. -/
theorem apply_exactly (n : Nat) {m : Machine} {c : Closure} (hc : m.store.Holds c.scope)
    (args : List Value) :
    (args.length ≠ c.arity →
      apply n c args m = .error (.failure (.arityMismatch c.arity args.length)) m ∧
        ∀ self : Expr → ScopeId → Run Value, applyWith self c args m = apply n c args m) ∧
    (args.length = c.arity → ¬ c.params.Nodup →
      ∃ before x after st', c.params = before ++ x :: after ∧ before.Nodup ∧ x ∈ before ∧
        apply n c args m =
          .error (.failure (.duplicateDeclaration x)) { m with store := st' } ∧
        (∀ s, m.store.Holds s → st'.scopes[s]? = m.store.scopes[s]?) ∧
        ∀ self : Expr → ScopeId → Run Value, applyWith self c args m = apply n c args m) ∧
    (args.length = c.arity → c.params.Nodup →
      ∃ st', apply n c args m = eval n c.body m.store.fresh { m with store := st' } ∧
        ¬ m.store.Holds m.store.fresh ∧ st'.fresh = m.store.fresh + 1 ∧
        (∀ s, m.store.Holds s → st'.scopes[s]? = m.store.scopes[s]?) ∧
        st'.parent? m.store.fresh = some c.scope ∧
        ∀ x v, st'.local? m.store.fresh x = some v ↔
          ∃ i : Nat, c.params[i]? = some x ∧ args[i]? = some v) := by
  refine ⟨fun hlen => ?_, fun hlen hrepeated => ?_, fun hlen hparams => ?_⟩
  · have hfail (self : Expr → ScopeId → Run Value) : applyWith self c args m =
        .error (.failure (.arityMismatch c.arity args.length)) m := by
      rw [applyWith_of_ne hlen]
      rfl
    exact ⟨hfail (eval n), fun self => (hfail self).trans (hfail (eval n)).symm⟩
  · obtain ⟨before, x, after, st', hparams, hbefore, hx, hscopes, hfail⟩ :=
      applyWith_of_repeated m hlen hrepeated
    exact ⟨before, x, after, st', hparams, hbefore, hx, hfail (eval n), hscopes,
      fun self => (hfail self).trans (hfail (eval n)).symm⟩
  · obtain ⟨st', hfills, hrun⟩ := applyWith_of_nodup (eval n) m hlen hparams
    refine ⟨st', hrun, m.store.not_holds_fresh, ?_, hfills.scopes_of_push, ?_, fun x v => ?_⟩
    · rw [hfills.fresh_eq, Store.fresh_push]
    · rw [hfills.parent?_eq, Store.parent?_push_fresh_of_holds _ hc]
    · have hnone : (m.store.push (some c.scope)).local? m.store.fresh x = none := by
        rw [Store.local?_push, Store.local?_of_not_holds _ _ _ m.store.not_holds_fresh]
      simp [hfills.local?_iff, hnone, List.mem_iff_getElem?, List.getElem?_zip_eq_some]

/-- Two values cannot be given to one parameter named twice. Given to two parameters, the second
value is what the second name stands for. -/
theorem apply_exactly_twoParameters : Store.initial.Holds Store.globals ∧
    (∃ st', apply 1 ⟨0, ["x", "x"], .ident "y", Store.globals⟩ [.null, .bool true]
      ⟨.initial, .unlimited⟩ =
        .error (.failure (.duplicateDeclaration "x")) ⟨st', .unlimited⟩) ∧
    ∃ st', apply 1 ⟨0, ["x", "y"], .ident "y", Store.globals⟩ [.null, .bool true]
      ⟨.initial, .unlimited⟩ = .ok (.bool true) ⟨st', .unlimited⟩ := by
  have hholds : Store.initial.Holds Store.globals := Nat.zero_lt_one
  have happly (params : List String) :=
    apply_exactly 1 (m := ⟨.initial, .unlimited⟩) (c := ⟨0, params, .ident "y", Store.globals⟩)
      hholds [.null, .bool true]
  refine ⟨hholds, ?_, ?_⟩
  · obtain ⟨before, x, after, st', hparams, -, hx, hfail, -⟩ :=
      (happly ["x", "x"]).2.1 rfl (by decide)
    change ["x", "x"] = before ++ x :: after at hparams
    have hmem : x ∈ ["x", "x"] := by simp [hparams]
    obtain rfl : x = "x" := by simpa using hmem
    exact ⟨st', hfail⟩
  · obtain ⟨st', hrun, -, -, -, -, hlocal⟩ := (happly ["x", "y"]).2.2 rfl (by decide)
    have hy := (hlocal "y" (.bool true)).2 ⟨1, rfl, rfl⟩
    refine ⟨st', hrun.trans ?_⟩
    show EStateM.Result.ok (st'.resolve _ "y") _ = _
    rw [Store.resolve_of_local hy]

end Featherweight
