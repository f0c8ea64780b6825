import Featherweight.Proofs.Evaluation.Agreement
import Featherweight.Proofs.Evaluation.History
import Featherweight.Proofs.Parsing.Alike

/-!
# The names closures are recorded under

Every closure that is made is bound under its own text too. No program can see these bindings: the
text of a closure is not an identifier (`not_isClosureKey`), so a run in which closures are recorded
and one in which they are not pass machines that differ in nothing else (`AlikeButKeys`).
-/

namespace Featherweight

/-- Is the name the text of a closure, that is, of the form `function(..) \x7b...\x7d;`? -/
def IsClosureKey (x : String) : Prop := ∃ c : Closure, x = c.render

/-- Are the machines the same but for what is bound under the texts of closures? -/
structure AlikeButKeys (m m' : Machine) : Prop where
  sink : m.sink = m'.sink
  scopes : m.store.fresh = m'.store.fresh
  parent : ∀ e, m.store.parent? e = m'.store.parent? e
  bindings : ∀ e x, ¬ IsClosureKey x → m.store.local? e x = m'.store.local? e x

/-! ### Names that are seen -/

theorem isWordChar_of_isWordStart {c : Char} (h : Lexer.isWordStart c = true) :
    Lexer.isWordChar c = true := by
  unfold Lexer.isWordStart at h
  unfold Lexer.isWordChar Char.isAlphanum
  rcases Bool.or_eq_true_iff.1 h with halpha | hunderscore
  · rw [halpha]
    rfl
  · rw [hunderscore, Bool.or_true]

theorem isWordChar_of_isIdentifier {x : String} (h : isIdentifier x = true) :
    ∀ c ∈ x.toList, Lexer.isWordChar c = true := by
  unfold isIdentifier at h
  cases hx : x.toList with
  | nil => exact nofun
  | cons c cs =>
    simp only [hx, Bool.and_eq_true] at h
    obtain ⟨⟨hstart, hall⟩, -⟩ := h
    exact List.forall_mem_cons.2 ⟨isWordChar_of_isWordStart hstart, List.all_eq_true.1 hall⟩

/-- An identifier has no parenthesis in it. -/
theorem not_isClosureKey {x : String} (h : isIdentifier x = true) : ¬ IsClosureKey x := by
  rintro ⟨c, rfl⟩
  have hmem : '(' ∈ c.render.toList := by simp [Closure.render, String.toList_append]
  have hword := isWordChar_of_isIdentifier h '(' hmem
  exact absurd hword (by decide)

/-- A name that programs use. -/
def Usable (x : String) : Prop := isIdentifier x = true

/-- A name that is not the text of a closure. -/
def Visible (x : String) : Prop := ¬ IsClosureKey x

/-! ### Two runs -/

/-- Agreement of machines on all names but the texts of closures. -/
def AgreeOnVisible : Machine → Machine → Prop :=
  Machine.Agree .initial (Only Usable) (Only Visible) AnyScope

theorem AgreeOnVisible.alikeButKeys {m m' : Machine} (h : AgreeOnVisible m m') :
    AlikeButKeys m m' where
  sink := h.sink
  scopes := h.store.fresh_eq
  parent := h.store.parent?_eq
  bindings e x hx :=
    eq_of_rel_corresponds (h.store.bound (e := e) trivial (⟨rfl, hx⟩ : Only Visible x x))

theorem agreeOnVisible_initial (sink : Sink) :
    AgreeOnVisible ⟨.initial, sink⟩ ⟨.initial, sink⟩ := by
  refine ⟨⟨rfl, fun _ => rfl, fun _ _ => trivial, fun _ => trivial, ?_, fun _ => rfl⟩, rfl⟩
  intro e x x' _ _
  rw [Store.local?_initial, Store.local?_initial]
  exact .none

/-- A closure that is recorded on one side and not on the other leaves the visible names as they
were. -/
theorem simulates_unrecorded :
    Simulates (Only Usable) AnyScope Run.record (fun _ => pure ()) AgreeOnVisible := by
  refine Machine.Agree.simulates (biUnique_only Visible) ?_ ?_ ?_
  · rintro x x' ⟨rfl, hx⟩
    exact ⟨rfl, not_isClosureKey hx⟩
  · intro v v' hv
    rw [hv.eq]
  · intro c c' _
    refine Machine.Agree.update_left ?_ trivial
    rintro x' ⟨-, hx⟩
    exact hx ⟨c, rfl⟩

/-- Programs whose names are identifiers run the same on a fresh machine whether closures are
recorded under their texts or not: with the same outcomes, and with machines at every step that
differ in nothing but such bindings. The programs that texts stand for are of that kind. -/
theorem closureKeys_unobservable (sink : Sink) (n : Nat) {programs : List Expr}
    (hnames : ∀ t ∈ programs, ∀ x ∈ t.names, isIdentifier x = true) :
    (interpretEach Run.record n programs (⟨.initial, sink⟩ : Machine)).1 =
        (interpretEach (fun _ => pure ()) n programs (⟨.initial, sink⟩ : Machine)).1 ∧
      AlikeButKeys (interpretEach Run.record n programs (⟨.initial, sink⟩ : Machine)).2
        (interpretEach (fun _ => pure ()) n programs (⟨.initial, sink⟩ : Machine)).2 ∧
      List.Forall₂ AlikeButKeys
        (interpretEach Run.record n programs (History.start ⟨.initial, sink⟩)).2.passed
        (interpretEach (fun _ => pure ()) n programs (History.start ⟨.initial, sink⟩)).2.passed ∧
      ∀ source t, Expr.ofSource source = .ok t →
        (∀ x ∈ t.names, isIdentifier x = true) ∧ t.closures = [] := by
  have hprograms : List.Forall₂ (Expr.Corresponds (Only Usable) AnyScope) programs programs :=
    List.forall₂_same.2 fun t ht => t.corresponds_self (hnames t ht) fun _ _ => trivial
  -- The runs that keep account are compared; leaving the account out changes nothing.
  have hstart := throughout_start (agreeOnVisible_initial sink)
  obtain ⟨houtcomes, hmachine, hpassed⟩ := simulates_unrecorded.interpretEach
    (lifts_throughout _ _) trivial n hprograms hstart
  have hrecord := interpretEach_recorded Run.record n programs (.start ⟨.initial, sink⟩)
  have hbare := interpretEach_recorded (fun _ => pure ()) n programs (.start ⟨.initial, sink⟩)
  refine ⟨?_, ?_, hpassed.imp fun _ _ h => h.alikeButKeys, ?_⟩
  · have heq := eq_of_forall₂_outcomesAgree houtcomes
    exact (congrArg Prod.fst hrecord).trans (heq.trans (congrArg Prod.fst hbare).symm)
  · show AlikeButKeys
      (interpretEach Run.record n programs (History.start ⟨.initial, sink⟩).machine).2
      (interpretEach (fun _ => pure ()) n programs (History.start ⟨.initial, sink⟩).machine).2
    rw [hrecord, hbare]
    exact hmachine.alikeButKeys
  · exact fun source t ht => (Expr.statementShaped_of_ofSource ht).names_closures

/-- The program `f = function (x) { print(x); }; f(1);`. -/
def callsPrinter : Expr :=
  .seq (.assign "f" (.function 0 ["x"] (.print (.ident "x")))) (.call (.ident "f") [.int 1])

/-- Whether its closure is recorded or not, the program ends with the same outcome. -/
theorem closureKeys_unobservable_callsPrinter :
    (∀ t ∈ [callsPrinter], ∀ x ∈ t.names, isIdentifier x = true) ∧
      (interpretEach Run.record 9 [callsPrinter] (⟨.initial, .unlimited⟩ : Machine)).1 =
        (interpretEach (fun _ => pure ()) 9 [callsPrinter]
          (⟨.initial, .unlimited⟩ : Machine)).1 := by
  have hnames : ∀ t ∈ [callsPrinter], ∀ x ∈ t.names, isIdentifier x = true := by decide
  exact ⟨hnames, (closureKeys_unobservable .unlimited 9 hnames).1⟩

end Featherweight
