import Featherweight.Proofs.Command.Tasks
import Featherweight.Proofs.Evaluation.Composition
import Featherweight.Proofs.Evaluation.Simulation
import Featherweight.Store.Lemmas

/-!
# Diagnostics are true

A text that is no program gets a static diagnostic, for its first fault if it has one and for its
tokens if not. A run gets all the others, and what they say holds of the machine it stopped at
(`Run.Truthful`): kinds and numbers that should be equal are not, a name that should be free is
taken in some scope, and the sink is full or cannot be flushed. So it is for each thing the
evaluator does to a machine, and a run fails where one of them does.
-/

namespace Featherweight

variable {α β : Type}

/-! ### Texts -/

/-- A text is refused for its first fault, if it has one, and for nothing else then. -/
theorem ofSource_eq_lexical_iff {source : String} {e : LexError} :
    Expr.ofSource source = .error (.lexical e) ↔ (faults source).head? = some e := by
  rcases Command.ofSource_cases source with ⟨first, rest, hfaults, hfirst⟩ | ⟨hfaults, hnone⟩
  · rw [hfaults, hfirst, List.head?_cons, Except.error.injEq, SyntaxError.lexical.injEq,
      Option.some.injEq]
  · have hne : Expr.ofSource source ≠ .error (.lexical e) := by
      rcases hnone with ⟨e', he'⟩ | ⟨program, hprogram⟩
      · rw [he']
        nofun
      · rw [hprogram]
        nofun
    rw [hfaults]
    exact iff_of_false hne nofun

theorem exists_ofSource_eq_lexical_iff {source : String} :
    (∃ e, Expr.ofSource source = .error (.lexical e)) ↔ ∃ e, .error e ∈ scan source := by
  simp only [ofSource_eq_lexical_iff, ← mem_faults]
  cases faults source with
  | nil => exact iff_of_false nofun nofun
  | cons e rest => exact ⟨fun _ => ⟨e, List.mem_cons_self⟩, fun _ => ⟨e, rfl⟩⟩

/-! ### Runs -/

/-- Is it a diagnostic of runs, and does what it says hold of the machine that the run left? -/
def Diagnostic.TrueOf (m : Machine) : Diagnostic → Prop
  | .typeMismatch expected found _  => expected ∈ ["int", "bool", "closure"] ∧ found ≠ expected
  | .duplicateDeclaration name      => ∃ e, m.store.Holds e ∧ m.store.binds e name = true
  | .arithmetic _                   => True
  | .arityMismatch expected found   => found ≠ expected
  | .output text                    =>
    text = "sink full" ∧ m.sink.room = some 0 ∨ text = "flush failed" ∧ m.sink.flushes = false
  | .lexical _ _ | .grammatical _ _ | .encoding _ => False

/-- Does the run halt for want of steps only, or at failures with a true diagnostic? -/
def Run.Truthful (r : Run α) : Prop :=
  ∀ m h m', r m = .error h m' → h = .exhausted ∨
    ∃ err, h = .failure err ∧ err.diagnostic.isStatic = false ∧ err.diagnostic.TrueOf m'

theorem ValueKind.name_inj {k k' : ValueKind} (h : k.name = k'.name) : k = k' := by
  revert h
  cases k <;> cases k' <;> decide

theorem Place.name_expected_mem (place : Place) :
    place.expected.name ∈ ["int", "bool", "closure"] := by
  cases place with
  | operand op => exact List.mem_cons_self
  | _ => decide

/-- What does not fit does not fit, whatever the machine. -/
theorem RuntimeError.Misfit.trueOf {err : RuntimeError} (h : err.Misfit) (m : Machine) :
    err.diagnostic.TrueOf m := by
  cases h with
  | @typeMismatch place found hne =>
    exact ⟨place.name_expected_mem, fun hname => hne (ValueKind.name_inj hname)⟩
  | divisionByZero => trivial
  | moduloByZero => trivial
  | arityMismatch hne => exact hne.symm

namespace Run.Truthful

theorem of_ok {r : Run α} (h : ∀ m, ∃ a m', r m = .ok a m') : r.Truthful := by
  intro m h' m' hr
  obtain ⟨a, m'', hok⟩ := h m
  rw [hok] at hr
  cases hr

/-- A run that fails at one failure only, if at all. -/
theorem of_fail {r : Run α} (err : RuntimeError) (h : ∀ m, (∃ a m', r m = .ok a m') ∨
    ∃ m', r m = .error (.failure err) m' ∧ err.diagnostic.TrueOf m') : r.Truthful := by
  intro m h' m' hr
  rcases h m with ⟨a, m'', hok⟩ | ⟨m'', herr, htrue⟩
  · rw [hok] at hr
    cases hr
  · rw [herr] at hr
    cases hr
    exact .inr ⟨err, rfl, err.isStatic_diagnostic, htrue⟩

theorem bind {r : Run α} {f : α → Run β} (hr : r.Truthful) (hf : ∀ a, (f a).Truthful) :
    (r >>= f).Truthful := by
  intro m h m' hrun
  cases hfirst : r m with
  | error h' m₁ =>
    rw [bind_of_error hfirst] at hrun
    cases hrun
    exact hr m h m' hfirst
  | ok a m₁ =>
    rw [bind_of_ok hfirst] at hrun
    exact hf a m₁ h m' hrun

/-- A name is declared twice in a scope that binds it already. -/
theorem declare (e : ScopeId) (x : String) (v : Value) : (Run.declare e x v).Truthful := by
  refine of_fail (.duplicateDeclaration x) fun m => ?_
  rw [Run.declare_eq]
  cases hbinds : m.store.binds e x with
  | false => exact .inl ⟨(), _, rfl⟩
  | true =>
    have hholds : m.store.Holds e := by
      by_contra hnot
      rw [Store.binds, Store.local?_of_not_holds _ _ _ hnot] at hbinds
      cases hbinds
    exact .inr ⟨m, rfl, e, hholds, hbinds⟩

/-- A sink that refuses a line has no room left afterward. -/
theorem printLine (text : String) : (Run.printLine text).Truthful := by
  refine of_fail .sinkFull fun m => ?_
  unfold Run.printLine Sink.write
  cases hroom : m.sink.room with
  | none => exact .inl ⟨(), _, rfl⟩
  | some room =>
    dsimp only
    by_cases hle : (text ++ "\n").toUTF8.size ≤ room
    · rw [if_pos hle]
      exact .inl ⟨(), _, rfl⟩
    · rw [if_neg hle]
      exact .inr ⟨_, rfl, .inl ⟨rfl, rfl⟩⟩

theorem flush : Run.flush.Truthful := by
  refine of_fail .flushFailed fun m => ?_
  unfold Run.flush
  cases hflushes : m.sink.flushes with
  | false => exact .inr ⟨m, rfl, .inr ⟨rfl, hflushes⟩⟩
  | true  => exact .inl ⟨(), m, rfl⟩

end Run.Truthful

theorem compositional_truthful : Compositional Run.Truthful where
  pure a := .of_ok fun m => ⟨a, m, rfl⟩
  exhausted := by
    intro _ m h m' hr
    cases hr
    exact .inl rfl
  fail herr := .of_fail _ fun m => .inr ⟨m, rfl, herr.trueOf m⟩
  bind := .bind
  resolve e x := .of_ok fun m => ⟨m.store.resolve e x, m, rfl⟩
  update e x v := .of_ok fun m => ⟨(), { m with store := m.store.update e x v }, rfl⟩
  declare := .declare
  newScope p := .of_ok fun m => ⟨m.store.fresh, { m with store := m.store.push p }, rfl⟩
  printLine := .printLine
  flush := .flush

/-- A text is refused with a static diagnostic, a lexical one just if it has a fault and then for
its first one. Evaluations, applications and whole programs fail with a diagnostic that is not
static and is true of the machine they stopped at. -/
theorem diagnostics_true :
    (∀ source err, Expr.ofSource source = .error err → err.diagnostic.isStatic = true) ∧
      (∀ source, (∃ e, Expr.ofSource source = .error (.lexical e)) ↔ ∃ e, .error e ∈ scan source) ∧
      (∀ source e, Expr.ofSource source = .error (.lexical e) ↔ (faults source).head? = some e) ∧
      (∀ n t e, (eval n t e).Truthful) ∧ (∀ n c args, (apply n c args).Truthful) ∧
      ∀ n t, (interpret n t).Truthful :=
  ⟨fun _ err _ => err.isStatic_diagnostic, fun _ => exists_ofSource_eq_lexical_iff,
    fun _ _ => ofSource_eq_lexical_iff, compositional_truthful.eval, compositional_truthful.apply,
    compositional_truthful.interpret⟩

/-- The closure of a function with one parameter listed twice. -/
def repeatsParameter : Closure := ⟨0, ["x", "x"], .ident "x", Store.globals⟩

/-- The second argument finds the parameter bound, in a frame that nothing reaches any more. -/
theorem diagnostics_true_repeatsParameter :
    (∃ err, Expr.ofSource "#@" = .error err ∧ err.diagnostic.isStatic = true ∧
      err = .lexical ⟨1, .unexpectedCharacter '#'⟩) ∧
    ∃ m, apply 1 repeatsParameter [.int 1, .int 2] ⟨.initial, .unlimited⟩ =
        .error (.failure (.duplicateDeclaration "x")) m ∧
      ∃ e, m.store.Holds e ∧ m.store.binds e "x" = true := by
  have hsource : Expr.ofSource "#@" = .error (.lexical ⟨1, .unexpectedCharacter '#'⟩) :=
    (diagnostics_true.2.2.1 _ _).2 (by decide +kernel)
  have hstatic := diagnostics_true.1 _ _ hsource
  let r := apply 1 repeatsParameter [.int 1, .int 2] ⟨.initial, .unlimited⟩
  have hfail : r = .error (.failure (.duplicateDeclaration "x")) (settle r).2 := by
    with_unfolding_all rfl
  refine ⟨⟨_, hsource, hstatic, rfl⟩, _, hfail, ?_⟩
  rcases diagnostics_true.2.2.2.2.1 _ _ _ _ _ _ hfail with hexhausted | ⟨err, herr, -, htrue⟩
  · cases hexhausted
  · cases herr
    exact htrue

end Featherweight
