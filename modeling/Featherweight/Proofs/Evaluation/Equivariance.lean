import Featherweight.Proofs.Evaluation.Adequacy
import Featherweight.Proofs.Evaluation.Renaming
import Featherweight.Proofs.Evaluation.Sequencing

/-!
# Renamed programs

A program does the same when its names are changed (`interpret_rename`): it comes to the renamed
value or stops at the renamed failure, prints the same lines but for the parameters of closures, and
leaves scopes that bind the renamed values under the renamed keys. Names meet each other in scopes
only, and there they are told apart as before, as no two keys become the same.
-/

namespace Featherweight

variable {r : Renaming} {s : Sink} {st st' : Store} {e : ScopeId} {x x' : String} {v v' : Value}

/-- What is printed for values, each on a line of its own. -/
def linesOf (vs : List Value) : ByteArray :=
  vs.foldl (fun w v => w ++ (v.render ++ "\n").toUTF8) .empty

/-- Are the sinks what becomes of `s` when values are printed to it, and the renamed values? -/
def Sink.Renamed (r : Renaming) (s t t' : Sink) : Prop :=
  ∃ vs : List Value, t = s.printed (linesOf vs) ∧ t' = s.printed (linesOf (vs.map (Value.rename r)))

/-- Are the machines those of a program and of the renamed one, which print to the sink `s`? -/
structure Machine.Renamed (r : Renaming) (s : Sink) (m m' : Machine) : Prop where
  printed : Sink.Renamed r s m.sink m'.sink
  fresh : m.store.fresh = m'.store.fresh
  parent : ∀ e, m.store.parent? e = m'.store.parent? e
  forth : ∀ e x v, m.store.local? e x = some v →
    ∃ x', r.Key x x' ∧ m'.store.local? e x' = some (v.rename r)
  back : ∀ e x' v', m'.store.local? e x' = some v' →
    ∃ x v, r.Key x x' ∧ m.store.local? e x = some v ∧ v' = v.rename r

/-! ### Bound names -/

/-- Does every name that is bound anywhere satisfy `P`? -/
def Store.BindsOnly (P : String → Prop) (st : Store) : Prop :=
  ∀ e x v, st.local? e x = some v → P x

namespace Store.BindsOnly

variable {P : String → Prop}

theorem initial : Store.initial.BindsOnly P := by
  intro e x v hv
  rw [local?_initial] at hv
  cases hv

theorem bind (h : st.BindsOnly P) (hx : P x) : (st.bind e x v).BindsOnly P := by
  intro e' y w hw
  rcases local?_bind_cases hw with ⟨-, rfl, -⟩ | hw
  · exact hx
  · exact h e' y w hw

theorem update (h : st.BindsOnly P) (hx : P x) : (st.update e x v).BindsOnly P := h.bind hx

theorem push (h : st.BindsOnly P) (parent : Option ScopeId) : (st.push parent).BindsOnly P := by
  intro e x v hv
  rw [local?_push] at hv
  exact h e x v hv

end Store.BindsOnly

/-! ### Two runs -/

/-- Do the stores agree on renamed keys, and bind nothing but keys? -/
structure Store.Renamed (r : Renaming) (st st' : Store) : Prop where
  agree : Store.Agree .initial r.Name r.Key AnyScope st st'
  left : st.BindsOnly fun x => ∃ x', r.Key x x'
  right : st'.BindsOnly fun x' => ∃ x, r.Key x x'

namespace Store.Renamed

theorem initial : Store.initial.Renamed r .initial := by
  refine ⟨⟨rfl, fun _ => rfl, fun _ _ => trivial, fun _ => trivial, ?_, fun _ => rfl⟩, .initial,
    .initial⟩
  intro e x x' _ _
  rw [local?_initial, local?_initial]
  exact .none

theorem bind (h : st.Renamed r st') (hx : r.Key x x') (hv : v.Corresponds r.Name AnyScope v') :
    (st.bind e x v).Renamed r (st'.bind e x' v') :=
  ⟨h.agree.bind r.biUnique_key trivial hx hv, h.left.bind ⟨x', hx⟩, h.right.bind ⟨x, hx⟩⟩

theorem update (h : st.Renamed r st') (hx : r.Key x x') (hv : v.Corresponds r.Name AnyScope v') :
    (st.update e x v).Renamed r (st'.update e x' v') :=
  ⟨h.agree.update r.biUnique_key trivial hx hv, h.left.update ⟨x', hx⟩, h.right.update ⟨x, hx⟩⟩

theorem push (h : st.Renamed r st') (p : ScopeId) :
    (st.push (some p)).Renamed r (st'.push (some p)) :=
  ⟨h.agree.push trivial, h.left.push _, h.right.push _⟩

end Store.Renamed

theorem Renaming.Name.key (h : r.Name x x') : r.Key x x' := by
  obtain ⟨hx, rfl⟩ := h
  exact .name hx

namespace Sink.Renamed

variable {t t' : Sink}

theorem start : Sink.Renamed r s s s :=
  ⟨[], s.printed_empty.symm, s.printed_empty.symm⟩

theorem linesOf_concat (vs : List Value) (v : Value) :
    linesOf (vs ++ [v]) = linesOf vs ++ (v.render ++ "\n").toUTF8 := by
  simp [linesOf]

/-- A value is written to one sink, and the renamed value to the other. -/
theorem write (hs : s.NeverFails) (h : Sink.Renamed r s t t') (v : Value) :
    ∃ u u', t.write (v.render ++ "\n").toUTF8 = (true, u) ∧
      t'.write ((v.rename r).render ++ "\n").toUTF8 = (true, u') ∧ Sink.Renamed r s u u' := by
  obtain ⟨vs, rfl, rfl⟩ := h
  have hwrite (w bytes : ByteArray) := (s.printed w).write_eq_printed hs.1 bytes
  refine ⟨_, _, hwrite _ _, hwrite _ _, vs ++ [v], ?_, ?_⟩
  · rw [Sink.printed_printed, linesOf_concat]
  · rw [Sink.printed_printed, List.map_append, List.map_singleton, linesOf_concat]

theorem flushes (hs : s.NeverFails) (h : Sink.Renamed r s t t') :
    t.flushes = true ∧ t'.flushes = true := by
  obtain ⟨vs, rfl, rfl⟩ := h
  exact ⟨hs.2, hs.2⟩

end Sink.Renamed

/-- What a run and the renamed run keep: their stores are renamed, and so is what they printed. -/
structure Together (r : Renaming) (s : Sink) (m m' : Machine) : Prop where
  store : m.store.Renamed r m'.store
  sink : Sink.Renamed r s m.sink m'.sink

namespace Together

variable {F : Halt → Halt → Prop}

theorem update (hx : r.Key x x') (hv : v.Corresponds r.Name AnyScope v') :
    Lockstep (Together r s) F Anything (Run.update e x v) (Run.update e x' v') :=
  fun _ _ h => .ok trivial ⟨h.store.update hx hv, h.sink⟩

/-- Both sides declare the name, or both refuse to. -/
theorem declare (hx : r.Name x x') (hv : v.Corresponds r.Name AnyScope v') :
    Lockstep (Together r s) (Halt.Corresponds r.Name) Anything (Run.declare e x v)
      (Run.declare e x' v') := by
  intro m m' h
  have hbinds : m.store.binds e x = m'.store.binds e x' := h.store.agree.binds_eq trivial hx.key
  rw [Run.declare_eq, Run.declare_eq, ← hbinds]
  cases m.store.binds e x with
  | true => exact .error (.duplicate hx) h
  | false => exact .ok trivial ⟨h.store.bind hx.key hv, h.sink⟩

theorem printLine (hs : s.NeverFails) (hv : v.Corresponds r.Name AnyScope v') :
    Lockstep (Together r s) F Anything (Run.printLine v.render) (Run.printLine v'.render) := by
  intro m m' h
  obtain ⟨u, u', hwrite, hwrite', hsink⟩ := h.sink.write hs v
  rw [← hv.eq_rename] at hwrite'
  unfold Run.printLine
  rw [hwrite, hwrite']
  exact .ok trivial ⟨h.store, hsink⟩

theorem flush (hs : s.NeverFails) : Lockstep (Together r s) F Anything Run.flush Run.flush := by
  intro m m' h
  obtain ⟨hflushes, hflushes'⟩ := h.sink.flushes hs
  unfold Run.flush
  rw [hflushes, hflushes']
  exact .ok trivial h

theorem record {c c' : Closure} (hc : c.Corresponds r.Name AnyScope c') :
    Lockstep (Together r s) F Anything (Run.record c) (Run.record c') := by
  have hkey : r.Key c.render c'.render := hc.eq_rename ▸ .closure hc.isIdentifier_params
  have hscope : c'.scope = c.scope := by
    obtain ⟨_, _, _⟩ := hc
    rfl
  unfold Run.record
  rw [hscope]
  exact update hkey (.closure hc)

/-- Whatever the evaluator does, it does to renamed machines alike. -/
theorem simulates (hs : s.NeverFails) :
    Simulates r.Name AnyScope Run.record Run.record (Together r s) where
  resolve _ hx := fun _ _ h => .ok (h.store.agree.resolve trivial hx.key) h
  update _ hx hv := update hx.key hv
  declare _ := declare
  newScope _ := fun _ _ h => .ok ⟨h.store.agree.fresh_eq, trivial⟩ ⟨h.store.push _, h.sink⟩
  printLine := printLine hs
  flush := flush hs
  made := record

theorem renamed {m m' : Machine} (h : Together r s m m') : m.Renamed r s m' where
  printed := h.sink
  fresh := h.store.agree.fresh_eq
  parent := h.store.agree.parent?_eq
  forth e x v hv := by
    obtain ⟨x', hx⟩ := h.store.left e x v hv
    refine ⟨x', hx, ?_⟩
    have hbound := h.store.agree.bound (e := e) trivial hx
    rw [hv] at hbound
    generalize m'.store.local? e x' = found at hbound ⊢
    cases hbound with
    | some hcorr => rw [hcorr.eq_rename]
  back e x' v' hv := by
    obtain ⟨x, hx⟩ := h.store.right e x' v' hv
    refine ⟨x, ?_⟩
    have hbound := h.store.agree.bound (e := e) trivial hx
    rw [hv] at hbound
    generalize m.store.local? e x = found at hbound ⊢
    cases hbound with
    | some hcorr => exact ⟨_, hx, rfl, hcorr.eq_rename⟩

end Together

/-! ### Programs -/

/-- The outcome of the renamed program. -/
def renameOutcome (r : Renaming) : Except Halt Value → Except Halt Value
  | .ok v    => .ok (v.rename r)
  | .error h => .error (h.rename r)

theorem eq_renameOutcome {o o' : Except Halt Value}
    (h : OutcomesAgree (Halt.Corresponds r.Name) (Value.Corresponds r.Name AnyScope) o o') :
    o' = renameOutcome r o := by
  cases h with
  | ok hv => rw [hv.eq_rename, renameOutcome]
  | error hh => rw [hh.eq_rename, renameOutcome]

theorem renameOutcome_eq_exhausted_iff {o : Except Halt Value} :
    renameOutcome r o = .error .exhausted ↔ o = .error .exhausted := by
  constructor
  · intro h
    cases o with
    | ok v => cases h
    | error halt =>
      cases halt with
      | exhausted => rfl
      | failure e => cases e <;> cases h
  · rintro rfl
    rfl

/-- A run ends if for some number of steps it does not halt for want of more. -/
theorem exists_ends_iff {α : Type} {run : Nat → Run α} {m : Machine} :
    (∃ o, Ends run m o) ↔ ∃ n, (settle (run n m)).1 ≠ .error .exhausted := by
  constructor
  · rintro ⟨_, ⟨n, rfl⟩, hne⟩
    refine ⟨n, fun h => ?_⟩
    cases hrun : run n m with
    | ok a m' => rw [hrun] at h; cases h
    | error e m' =>
      rw [hrun] at h
      cases h
      exact hne m' hrun
  · rintro ⟨n, hne⟩
    refine ⟨run n m, ⟨n, rfl⟩, fun m' h => hne ?_⟩
    rw [h]
    rfl

/-- A program of identifiers, run afresh, and the renamed program come to outcomes that are renamed
from each other and leave machines that are, after any number of steps. So one of them ends just in
case the other does. -/
theorem interpret_rename (r : Renaming) (hs : s.NeverFails) {t : Expr}
    (ht : ∀ x ∈ t.names, isIdentifier x = true) :
    (∀ n, (settle (interpret n (t.rename r) ⟨.initial, s⟩)).1 =
          renameOutcome r (settle (interpret n t ⟨.initial, s⟩)).1 ∧
        (settle (interpret n t ⟨.initial, s⟩)).2.Renamed r s
          (settle (interpret n (t.rename r) ⟨.initial, s⟩)).2) ∧
      ((∃ o, Ends (fun n => interpret n t) ⟨.initial, s⟩ o) ↔
        ∃ o, Ends (fun n => interpret n (t.rename r)) ⟨.initial, s⟩ o) := by
  have hlift : Lifts (Halt.Corresponds r.Name) (Together r s) (Together r s) := fun hr => hr
  have hrun (n : Nat) : (settle (interpret n (t.rename r) ⟨.initial, s⟩)).1 =
        renameOutcome r (settle (interpret n t ⟨.initial, s⟩)).1 ∧
      (settle (interpret n t ⟨.initial, s⟩)).2.Renamed r s
        (settle (interpret n (t.rename r) ⟨.initial, s⟩)).2 := by
    have hstart : Together r s ⟨.initial, s⟩ ⟨.initial, s⟩ := ⟨.initial, .start⟩
    have hagree := ((Together.simulates hs).interpretWith hlift n (Expr.corresponds_rename ht)
      trivial _ _ hstart).settle
    exact ⟨eq_renameOutcome hagree.1, hagree.2.renamed⟩
  refine ⟨hrun, ?_⟩
  rw [exists_ends_iff, exists_ends_iff]
  refine exists_congr fun n => ?_
  show ¬ _ ↔ ¬ _
  rw [(hrun n).1, renameOutcome_eq_exhausted_iff]

/-- The renaming that swaps `x` and `y`. -/
def swapXY : Renaming where
  name := Equiv.swap "x" "y"
  isIdentifier_name := by
    intro z hz
    rw [Equiv.swap_apply_def]
    split
    · decide
    · split
      · decide
      · exact hz
  injOn _ _ h := (Equiv.swap "x" "y").injective h

/-- The program `print(function (x) { x; });`, with any name for `x`. -/
def printsIdentity (x : String) : Expr := .print (.function 0 [x] (.ident x))

/-- After swapping `x` and `y` the program comes to the same function of `y`. -/
theorem interpret_rename_printsIdentity :
    (printsIdentity "x").rename swapXY = printsIdentity "y" ∧
      (settle (interpret 3 (printsIdentity "x") ⟨.initial, .unlimited⟩)).1 =
        .ok (.closure ⟨0, ["x"], .ident "x", 0⟩) ∧
      (settle (interpret 3 (printsIdentity "y") ⟨.initial, .unlimited⟩)).1 =
        .ok (.closure ⟨0, ["y"], .ident "y", 0⟩) := by
  have hy : swapXY.name "x" = "y" := Equiv.swap_apply_left "x" "y"
  have hrename : (printsIdentity "x").rename swapXY = printsIdentity "y" := by
    simp only [printsIdentity, Expr.rename, List.map_cons, List.map_nil, hy]
  have hvalue : (settle (interpret 3 (printsIdentity "x") ⟨.initial, .unlimited⟩)).1 =
      .ok (.closure ⟨0, ["x"], .ident "x", 0⟩) := by with_unfolding_all rfl
  have hnames : ∀ x ∈ (printsIdentity "x").names, isIdentifier x = true := by decide
  have hsink : Sink.unlimited.NeverFails := ⟨rfl, rfl⟩
  have hrun := ((interpret_rename swapXY hsink hnames).1 3).1
  rw [hrename, hvalue] at hrun
  refine ⟨hrename, hvalue, hrun.trans ?_⟩
  simp only [renameOutcome, Value.rename, Closure.rename, Expr.rename, List.map_cons, List.map_nil,
    hy]

end Featherweight
