import Featherweight.Command.Response
import Featherweight.Proofs.Evaluation.Truncation
import Featherweight.Proofs.Parsing.Alike
import Featherweight.Proofs.Scanning.Tiling
import Featherweight.Proofs.Text.Encoding

/-!
# The tasks of the command agree

On one text, the tasks answer alike (`Task.respond_consistent`). If the text has a fault, listing
its tokens fails and goes on after it; all other tasks fail with the first fault. The tasks that
need a program fail on the same texts with the same words. Where there is a program, evaluating and
running it come to the same, and what was printed before a failure is not lost.

The answers are looked at for any number of steps that a run may be granted
(`Task.respondWithin`), of which the command uses a fixed one.
-/

namespace Featherweight

/-! ### The first fault of a text -/

/-- Are the characters all on one line? -/
def SingleLine (text : String) : Prop := '\n' ∉ text.toList

instance : DecidablePred SingleLine := fun text =>
  inferInstanceAs (Decidable ('\n' ∉ text.toList))

theorem SingleLine.append {s t : String} (hs : SingleLine s) (ht : SingleLine t) :
    SingleLine (s ++ t) := by
  rw [SingleLine, String.toList_append, List.mem_append]
  exact fun h => h.elim hs ht

theorem singleLine_of_isDigit {ds : List Char} (h : ∀ d ∈ ds, d.isDigit = true) :
    SingleLine (String.ofList ds) := by
  rw [SingleLine, String.toList_ofList]
  exact fun hmem => absurd (h '\n' hmem) (by decide)

theorem singleLine_repr (n : Nat) : SingleLine n.repr :=
  singleLine_of_isDigit fun _ => Text.Decimal.isDigit_of_mem_digits

theorem LexError.message_diagnostic (e : LexError) :
    e.diagnostic.message = "[line " ++ e.line.repr ++ "] Error: " ++ e.fault.message := by
  unfold LexError.diagnostic Diagnostic.message
  rfl

/-- What is said of a fault takes one line, as no line feed is a fault. -/
theorem Lexer.Yields.singleLine {before us after : List Char} {e : LexError}
    (h : Lexer.Yields before us after (.error e)) : SingleLine e.diagnostic.message := by
  have hfault : SingleLine e.fault.message := by
    cases h with
    | outOfRange _ hds _ _ _ =>
      have htext : SingleLine "Integer literal out of range: " := by decide
      exact htext.append (singleLine_of_isDigit hds)
    | @unexpected c _ hc =>
      have htext : SingleLine "Unexpected character: " := by decide
      have hchar : SingleLine c.toString := by
        rw [SingleLine, Char.toString_eq_singleton, String.toList_singleton, List.mem_singleton]
        rintro rfl
        exact absurd hc.blank (by decide)
      exact htext.append hchar
  have hopen : SingleLine "[line " := by decide
  have hclose : SingleLine "] Error: " := by decide
  rw [LexError.message_diagnostic]
  exact ((hopen.append (singleLine_repr e.line)).append hclose).append hfault

/-- The faults of a text, in order. -/
def faults (source : String) : List LexError :=
  (scan source).filterMap fun | .ok _ => none | .error e => some e

theorem mem_faults {source : String} {e : LexError} :
    e ∈ faults source ↔ .error e ∈ scan source := by
  rw [faults, List.mem_filterMap]
  constructor
  · rintro ⟨item, hmem, hitem⟩
    cases item with
    | ok t => cases hitem
    | error e' =>
      cases hitem
      exact hmem
  · exact fun h => ⟨.error e, h, rfl⟩

/-- A text is cut into tokens if it has no fault, and the first one is reported if it has. -/
theorem tokenize_cases (source : String) :
    (∃ ts, tokenize source = .ok ts ∧ faults source = []) ∨
      ∃ e rest, tokenize source = .error e ∧ faults source = e :: rest := by
  unfold tokenize faults
  induction scan source with
  | nil => exact .inl ⟨[], rfl, rfl⟩
  | cons item items ih =>
    rw [List.mapM_cons]
    cases item with
    | error e => exact .inr ⟨e, _, rfl, rfl⟩
    | ok t =>
      rcases ih with ⟨ts, hts, hfaults⟩ | ⟨e, rest, he, hfaults⟩
      · exact .inl ⟨t :: ts, by rw [hts]; rfl, hfaults⟩
      · exact .inr ⟨e, rest, by rw [he]; rfl, hfaults⟩

/-- The text up to its first line feed. -/
def firstLine (text : String) : String := String.ofList (text.toList.takeWhile (· != '\n'))

theorem firstLine_append_newline {text : String} (h : SingleLine text) (rest : String) :
    firstLine (text ++ "\n" ++ rest) = text := by
  have hall : ∀ c ∈ text.toList, (c != '\n') = true := by
    intro c hc
    refine bne_iff_ne.2 ?_
    rintro rfl
    exact h hc
  rw [firstLine, String.toList_append, String.toList_append, List.append_assoc,
    List.takeWhile_append_of_pos hall]
  show String.ofList (text.toList ++ []) = text
  rw [List.append_nil, String.ofList_toList]

namespace Command

open Response

theorem lines_cons (text : String) (texts : List String) :
    lines (text :: texts) = text ++ "\n" ++ lines texts := by
  rw [lines, List.map_cons, String.join_cons]
  rfl

theorem lines_singleton (text : String) : lines [text] = text ++ "\n" := by
  rw [lines_cons]
  exact String.append_empty

/-! ### Runs and the steps they are granted -/

/-- What a program ends with when a new session runs it for at most `n` nested steps, printing to
`sink`, and the machine that is left. -/
def runWithin (n : Nat) (program : Expr) (sink : Sink) : Except Halt Value × Machine :=
  settle (interpret n (program.number.run 0).1 ⟨.initial, sink⟩)

/-- The answer to a run, with the value if it is wanted. -/
def shown (showValue : Bool) : Except Halt Value × Machine → Response
  | (.ok v, m)    =>
    success (if showValue then m.sink.written ++ (lines [v.render]).toUTF8 else m.sink.written)
  | (.error h, m) => ⟨runFailure, m.sink.written, lines [h.message]⟩

/-- The answer of a task on a text when a run is granted `n` nested steps. -/
def Task.respondWithin (n : Nat) : Task → String → Response
  | tokenize json => listTokens json
  | parse         => withProgram showTree
  | evaluate      => withProgram fun program => shown true (runWithin n program .unlimited)
  | run           => withProgram fun program => shown false (runWithin n program .unlimited)

theorem runProgram_eq (showValue : Bool) (program : Expr) :
    runProgram showValue program =
      shown showValue (runWithin Session.steps program .unlimited) := by
  have hsession : (do Session.interpret (← Session.load program) : Session (Except Halt Value)).run
      (.initial .unlimited) = Session.perform (interpret Session.steps (program.number.run 0).1)
        ⟨⟨.initial, .unlimited⟩, (program.number.run 0).2⟩ := rfl
  unfold runProgram runWithin
  dsimp only
  rw [hsession, Session.perform]
  cases interpret Session.steps (program.number.run 0).1 ⟨.initial, .unlimited⟩ <;> rfl

/-- The command grants every run the steps of a session. -/
theorem Task.respondWithin_steps (task : Task) (source : String) :
    task.respondWithin Session.steps source = task.respond source := by
  cases task with
  | tokenize json => rfl
  | parse => rfl
  | evaluate =>
    unfold respondWithin respond
    rw [funext (runProgram_eq true)]
  | run =>
    unfold respondWithin respond
    rw [funext (runProgram_eq false)]

/-- The answer on a file with a text in it is the answer on that text. -/
theorem Task.respondTo_toUTF8 (task : Task) (name source : String) :
    task.respondTo name (.ok source.toUTF8) = task.respondWithin Session.steps source := by
  rw [respondWithin_steps, respondTo, Text.Utf8.decode_eq_ok_iff.2 rfl]

/-- Does the run of the program that the text is, if any, come to an end within `n` nested
steps? -/
def EndsWithin (n : Nat) (source : String) : Prop :=
  ∀ program, Expr.ofSource source = .ok program →
    (runWithin n program .unlimited).1 ≠ .error .exhausted

/-! ### Answers by what the text is -/

section

variable {source : String} {n : Nat}

/-- A text has a first fault, or tokens that are no program, or a program. -/
theorem ofSource_cases (source : String) :
    (∃ e rest, faults source = e :: rest ∧ Expr.ofSource source = .error (.lexical e)) ∨
      faults source = [] ∧ ((∃ e, Expr.ofSource source = .error (.grammatical e)) ∨
        ∃ program, Expr.ofSource source = .ok program) := by
  unfold Expr.ofSource
  rcases tokenize_cases source with ⟨ts, hts, hfaults⟩ | ⟨e, rest, he, hfaults⟩
  · refine .inr ⟨hfaults, ?_⟩
    rw [hts]
    show (∃ e, (Expr.ofTokens ts).mapError SyntaxError.grammatical = _) ∨
      ∃ program, (Expr.ofTokens ts).mapError SyntaxError.grammatical = _
    cases Expr.ofTokens ts with
    | error e => exact .inl ⟨e, rfl⟩
    | ok program => exact .inr ⟨program, rfl⟩
  · refine .inl ⟨e, rest, hfaults, ?_⟩
    rw [he]
    rfl

/-- The tasks that need a program. -/
def programTasks : List Task := [.parse, .evaluate, .run]

theorem respondWithin_of_error {e : SyntaxError} (h : Expr.ofSource source = .error e) {task : Task}
    (htask : task ∈ programTasks) :
    task.respondWithin n source = ⟨staticFailure, .empty, e.diagnostic.message ++ "\n"⟩ := by
  have hanswer (act : Expr → Response) :
      withProgram act source = ⟨staticFailure, .empty, e.diagnostic.message ++ "\n"⟩ := by
    rw [withProgram, h, ← lines_singleton]
  simp only [programTasks, List.mem_cons, List.not_mem_nil, or_false] at htask
  rcases htask with rfl | rfl | rfl <;> exact hanswer _

variable {program : Expr}

theorem respondWithin_parse (h : Expr.ofSource source = .ok program) :
    Task.parse.respondWithin n source = showTree program := by
  rw [Task.respondWithin, withProgram, h]

theorem respondWithin_evaluate (h : Expr.ofSource source = .ok program) :
    Task.evaluate.respondWithin n source = shown true (runWithin n program .unlimited) := by
  rw [Task.respondWithin, withProgram, h]

theorem respondWithin_run (h : Expr.ofSource source = .ok program) :
    Task.run.respondWithin n source = shown false (runWithin n program .unlimited) := by
  rw [Task.respondWithin, withProgram, h]

/-- A run appends to what was printed before just what its answer has on the first output. -/
theorem written_runWithin (h : Expr.ofSource source = .ok program) (w : ByteArray) :
    (runWithin n program (.endless w)).2.sink.written =
      w ++ (Task.run.respondWithin n source).stdout := by
  rw [respondWithin_run h]
  obtain ⟨o, st, out, hprints⟩ :=
    compositional_truncates.interpret n (program.number.run 0).1 .initial
  have hrun (w : ByteArray) :
      runWithin n program (.endless w) = (o, ⟨st, .endless (w ++ out)⟩) := by
    rw [runWithin, hprints.endless w]
    cases o <;> rfl
  have hunlimited : runWithin n program .unlimited = (o, ⟨st, .endless (.empty ++ out)⟩) :=
    hrun .empty
  rw [hrun w, hunlimited, ByteArray.empty_append]
  cases o <;> rfl

end

/-! ### Agreement -/

section

variable {source : String} {n : Nat}

/-- Listing the tokens fails just if there is a fault, in either form. -/
theorem exit_tokenize (n : Nat) (json : Bool) (source : String) :
    (((Task.tokenize json).respondWithin n source).exit = staticFailure ↔
        ∃ e, .error e ∈ scan source) ∧
      (((Task.tokenize json).respondWithin n source).exit = 0 ↔ ∀ e, .error e ∉ scan source) := by
  have hexit : ((Task.tokenize json).respondWithin n source).exit =
      if faults source = [] then 0 else staticFailure := rfl
  simp only [hexit, ← mem_faults]
  cases faults source with
  | nil => exact ⟨⟨nofun, nofun⟩, fun _ => nofun, fun _ => rfl⟩
  | cons e rest =>
    refine ⟨⟨fun _ => ⟨e, List.mem_cons_self⟩, fun _ => rfl⟩, nofun, fun h => ?_⟩
    exact absurd List.mem_cons_self (h e)

/-- A text with a fault is no program, for the fault that is listed first. -/
theorem respondWithin_of_exit_tokenize {json : Bool} {task : Task} (htask : task ∈ programTasks)
    (h : ((Task.tokenize json).respondWithin n source).exit = staticFailure) :
    task.respondWithin n source = ⟨staticFailure, .empty,
      firstLine ((Task.tokenize json).respondWithin n source).stderr ++ "\n"⟩ := by
  obtain ⟨e', he'⟩ := (exit_tokenize n json source).1.1 h
  rcases ofSource_cases source with ⟨e, rest, hfaults, he⟩ | ⟨hfaults, -⟩
  · have hmem : .error e ∈ scan source := mem_faults.1 (hfaults ▸ List.mem_cons_self)
    have hline : SingleLine e.diagnostic.message := by
      rcases Lexer.yields_of_mem hmem with ⟨_, _, _, hyields⟩ | heof
      · exact hyields.singleLine
      · cases heof
    have hstderr : ((Task.tokenize json).respondWithin n source).stderr =
        lines ((faults source).map fun e => e.diagnostic.message) := rfl
    rw [hfaults, List.map_cons, lines_cons] at hstderr
    rw [hstderr, firstLine_append_newline hline, respondWithin_of_error he htask]
    rfl
  · rw [← mem_faults, hfaults] at he'
    cases he'

/-- The answers to a run that comes to an end. -/
theorem shown_cases {o : Except Halt Value} (h : o ≠ .error .exhausted) (m : Machine) :
    (∃ v, o = .ok v ∧ shown true (o, m) = success (m.sink.written ++ (v.render ++ "\n").toUTF8) ∧
        shown false (o, m) = success m.sink.written) ∨
      ∃ f, o = .error (.failure f) ∧
        ∀ b, shown b (o, m) = ⟨runFailure, m.sink.written, f.diagnostic.message ++ "\n"⟩ := by
  cases o with
  | ok v =>
    refine .inl ⟨v, rfl, ?_, rfl⟩
    rw [← lines_singleton]
    rfl
  | error e =>
    cases e with
    | exhausted => exact absurd rfl h
    | failure f =>
      refine .inr ⟨f, rfl, fun b => ?_⟩
      rw [← lines_singleton]
      rfl

/-- A run that comes to an end is the same when it is granted more steps. -/
theorem runWithin_eq_of_le {n' : Nat} (hn : n ≤ n') {program : Expr} {sink : Sink}
    (h : (runWithin n program sink).1 ≠ .error .exhausted) :
    runWithin n' program sink = runWithin n program sink := by
  have hrefines : (interpret n (program.number.run 0).1).Refines
      (interpret n' (program.number.run 0).1) :=
    (eval_refines hn _ _).bind fun _ => .refl _
  unfold runWithin at h ⊢
  rcases hrefines ⟨.initial, sink⟩ with ⟨m', hx⟩ | heq
  · rw [hx] at h
    exact absurd rfl h
  · rw [heq]

/-- Once the run comes to an end, no answer depends on the steps that are granted. -/
theorem respondWithin_eq_of_le {n' : Nat} (hn : n ≤ n') (hrun : EndsWithin n source)
    (task : Task) : task.respondWithin n' source = task.respondWithin n source := by
  have hact (showValue : Bool) :
      withProgram (fun program => shown showValue (runWithin n' program .unlimited)) source =
        withProgram (fun program => shown showValue (runWithin n program .unlimited)) source := by
    unfold withProgram
    cases hsource : Expr.ofSource source with
    | error e => rfl
    | ok program =>
      dsimp only
      rw [runWithin_eq_of_le hn (hrun program hsource)]
  cases task with
  | tokenize json => rfl
  | parse => rfl
  | evaluate => exact hact true
  | run => exact hact false

/-- A program is shown, and evaluating it and running it come to the same, except that evaluating
shows the value if there is one. -/
theorem respondWithin_of_program {program : Expr} (h : Expr.ofSource source = .ok program)
    (hrun : (runWithin n program .unlimited).1 ≠ .error .exhausted) :
    (Task.parse.respondWithin n source).exit = 0 ∧
      (Task.evaluate.respondWithin n source).exit = (Task.run.respondWithin n source).exit ∧
      (Task.evaluate.respondWithin n source).stderr = (Task.run.respondWithin n source).stderr ∧
      ((∃ v, (runWithin n program .unlimited).1 = .ok v ∧
          (Task.run.respondWithin n source).exit = 0 ∧
          (Task.evaluate.respondWithin n source).stdout =
            (Task.run.respondWithin n source).stdout ++ (v.render ++ "\n").toUTF8) ∨
        ∃ f, (runWithin n program .unlimited).1 = .error (.failure f) ∧
          (Task.run.respondWithin n source).exit = runFailure ∧
          (Task.evaluate.respondWithin n source).stdout =
            (Task.run.respondWithin n source).stdout) := by
  rw [respondWithin_parse h, respondWithin_evaluate h, respondWithin_run h]
  generalize runWithin n program .unlimited = outcome at hrun ⊢
  obtain ⟨o, m⟩ := outcome
  rcases shown_cases hrun m with ⟨v, rfl, hevaluate, hrun⟩ | ⟨f, rfl, hfailed⟩
  · rw [hevaluate, hrun]
    exact ⟨rfl, rfl, rfl, .inl ⟨v, rfl, rfl, rfl⟩⟩
  · rw [hfailed, hfailed]
    exact ⟨rfl, rfl, rfl, .inr ⟨f, rfl, rfl, rfl⟩⟩

/-- None of the statuses of a program is that of a text that is none. -/
theorem exit_ne_of_program {program : Expr} (h : Expr.ofSource source = .ok program)
    (hrun : (runWithin n program .unlimited).1 ≠ .error .exhausted) {task : Task}
    (htask : task ∈ programTasks) : (task.respondWithin n source).exit ≠ staticFailure := by
  obtain ⟨hparse, hexit, -, hcases⟩ := respondWithin_of_program h hrun
  have hran : (Task.run.respondWithin n source).exit ≠ staticFailure := by
    rcases hcases with ⟨_, _, hran, _⟩ | ⟨_, _, hran, _⟩ <;> rw [hran] <;> decide
  simp only [programTasks, List.mem_cons, List.not_mem_nil, or_false] at htask
  rcases htask with rfl | rfl | rfl
  · rw [hparse]
    decide
  · rwa [hexit]
  · exact hran

/-- A text that is no program is refused by every task that needs one, with the same words. -/
theorem respondWithin_eq_of_exit (hrun : EndsWithin n source) {task task' : Task}
    (htask : task ∈ programTasks) (htask' : task' ∈ programTasks)
    (h : (task.respondWithin n source).exit = staticFailure) :
    task'.respondWithin n source = task.respondWithin n source := by
  cases hsource : Expr.ofSource source with
  | error e => rw [respondWithin_of_error hsource htask, respondWithin_of_error hsource htask']
  | ok program => exact absurd h (exit_ne_of_program hsource (hrun program hsource) htask)

/-- Evaluating or running fails as a run just if the text is a program and its run fails. -/
theorem exit_eq_runFailure_iff (hrun : EndsWithin n source) {task : Task}
    (htask : task ∈ [Task.evaluate, Task.run]) :
    (task.respondWithin n source).exit = runFailure ↔
      ∃ program f, Expr.ofSource source = .ok program ∧
        (runWithin n program .unlimited).1 = .error (.failure f) := by
  cases hsource : Expr.ofSource source with
  | error e =>
    have hexit : (task.respondWithin n source).exit = staticFailure := by
      rw [respondWithin_of_error hsource (List.mem_cons_of_mem _ htask)]
    rw [hexit]
    exact ⟨fun h => absurd h (by decide), fun ⟨_, _, h, _⟩ => nomatch h⟩
  | ok program =>
    obtain ⟨-, hexit, -, hcases⟩ := respondWithin_of_program hsource (hrun program hsource)
    have htask' : (task.respondWithin n source).exit = (Task.run.respondWithin n source).exit := by
      simp only [List.mem_cons, List.not_mem_nil, or_false] at htask
      rcases htask with rfl | rfl
      · exact hexit
      · rfl
    rw [htask']
    rcases hcases with ⟨v, hv, hran, -⟩ | ⟨f, hf, hran, -⟩
    · rw [hran]
      refine ⟨fun h => absurd h (by decide), fun ⟨_, f, h, hf⟩ => ?_⟩
      cases h
      cases hv.symm.trans hf
    · exact ⟨fun _ => ⟨program, f, rfl, hf⟩, fun _ => hran⟩

end

/-- On one text, whatever file it stands in, the tasks agree. Listing the tokens fails just if the
text has a fault. If so, every task that needs a program fails with nothing on its first output and
the first line of the listing's faults on its second. The tasks that need a program refuse the same
texts in the same words. A program is shown, and to evaluate and to run it, if the run comes to an
end, has the same status and the same report, and what evaluating prints is what running prints,
with the value on a line after it just if there is one. The run has failed just if the status says
so, and all that it printed is there. Granting the run more steps changes no answer. -/
theorem Task.respond_consistent (source : String) {n : Nat} (hrun : EndsWithin n source) :
    let answer (task : Task) := task.respondWithin n source
    (∀ (task : Task) (name : String),
        task.respondTo name (.ok source.toUTF8) = task.respondWithin Session.steps source) ∧
      (∀ json,
        ((answer (.tokenize json)).exit = staticFailure ↔ ∃ e, .error e ∈ scan source) ∧
        ((answer (.tokenize json)).exit = 0 ↔ ∀ e, .error e ∉ scan source) ∧
        ((answer (.tokenize json)).exit = staticFailure → ∀ task ∈ programTasks,
          answer task = ⟨staticFailure, .empty,
            firstLine (answer (.tokenize json)).stderr ++ "\n"⟩)) ∧
      (∀ task ∈ programTasks, ∀ task' ∈ programTasks,
        (answer task).exit = staticFailure → answer task' = answer task) ∧
      ((answer .parse).exit ≠ staticFailure →
        (answer .parse).exit = 0 ∧
        (answer .evaluate).exit = (answer .run).exit ∧
        (answer .evaluate).stderr = (answer .run).stderr ∧
        ((∃ program v, Expr.ofSource source = .ok program ∧
            (runWithin n program .unlimited).1 = .ok v ∧ (answer .run).exit = 0 ∧
            (answer .evaluate).stdout = (answer .run).stdout ++ (v.render ++ "\n").toUTF8) ∨
          (answer .run).exit = runFailure ∧ (answer .evaluate).stdout = (answer .run).stdout)) ∧
      (∀ task ∈ [Task.evaluate, Task.run],
        (answer task).exit = runFailure ↔ ∃ program f, Expr.ofSource source = .ok program ∧
          (runWithin n program .unlimited).1 = .error (.failure f)) ∧
      (∀ program, Expr.ofSource source = .ok program → ∀ w,
        (runWithin n program (.endless w)).2.sink.written = w ++ (answer .run).stdout) ∧
      ∀ n', n ≤ n' → ∀ task : Task, task.respondWithin n' source = answer task := by
  intro answer
  refine ⟨fun task name => task.respondTo_toUTF8 name source, fun json => ?_, ?_, fun hparse => ?_,
    fun task htask => exit_eq_runFailure_iff hrun htask,
    fun program hsource w => written_runWithin hsource w,
    fun n' hn task => respondWithin_eq_of_le hn hrun task⟩
  · obtain ⟨hfails, hsucceeds⟩ := exit_tokenize n json source
    exact ⟨hfails, hsucceeds, fun h task htask => respondWithin_of_exit_tokenize htask h⟩
  · exact fun task htask task' htask' h => respondWithin_eq_of_exit hrun htask htask' h
  · cases hsource : Expr.ofSource source with
    | error e =>
      have hmem : .parse ∈ programTasks := List.mem_cons_self
      exact absurd (congrArg Response.exit (respondWithin_of_error hsource hmem)) hparse
    | ok program =>
      obtain ⟨hshown, hexit, hstderr, hcases⟩ :=
        respondWithin_of_program hsource (hrun program hsource)
      refine ⟨hshown, hexit, hstderr, ?_⟩
      rcases hcases with ⟨v, hv, hran, hstdout⟩ | ⟨f, -, hran, hstdout⟩
      · exact .inl ⟨program, v, rfl, hv, hran, hstdout⟩
      · exact .inr ⟨hran, hstdout⟩

/-- The program `print(1); 1 / 0;`. -/
def printsThenFails : Expr := .seq (.print (.int 1)) (.binary .divide (.int 1) (.int 0))

theorem ofSource_printsThenFails : Expr.ofSource "print(1); 1 / 0;" = .ok printsThenFails :=
  Expr.ofSource_eq_ok_iff.2 ⟨[⟨.keyword .printWord, "print", 1⟩, ⟨.symbol .leftParen, "(", 1⟩,
    ⟨.int 1, "1", 1⟩, ⟨.symbol .rightParen, ")", 1⟩, ⟨.symbol .semicolon, ";", 1⟩,
    ⟨.int 1, "1", 1⟩, ⟨.symbol .slash, "/", 1⟩, ⟨.int 0, "0", 1⟩, ⟨.symbol .semicolon, ";", 1⟩,
    ⟨.eof, "", 1⟩], by decide +kernel, rfl⟩

/-- What was printed before the division failed is not lost. -/
theorem Task.respond_printsThenFails :
    EndsWithin 9 "print(1); 1 / 0;" ∧
      (Task.run.respondTo "a.js" (.ok "print(1); 1 / 0;".toUTF8)).exit = runFailure ∧
      (Task.run.respondTo "a.js" (.ok "print(1); 1 / 0;".toUTF8)).stdout = "1\n".toUTF8 := by
  have hfails : (runWithin 9 printsThenFails .unlimited).1 =
      .error (.failure .divisionByZero) := by with_unfolding_all rfl
  have hprints : (runWithin 9 printsThenFails (.endless .empty)).2.sink.written =
      "1\n".toUTF8 := by with_unfolding_all rfl
  have hends : EndsWithin 9 "print(1); 1 / 0;" := by
    intro program h
    rw [ofSource_printsThenFails] at h
    cases h
    rw [hfails]
    nofun
  obtain ⟨hfile, -, -, -, hfailure, hwritten, hmore⟩ := Task.respond_consistent _ hends
  have hanswer := (hfile .run "a.js").trans (hmore Session.steps (by decide) .run)
  rw [hanswer]
  refine ⟨hends, ?_, ?_⟩
  · exact (hfailure .run (by decide)).2 ⟨_, _, ofSource_printsThenFails, hfails⟩
  · rw [← ByteArray.empty_append (b := (Task.run.respondWithin 9 _).stdout),
      ← hwritten _ ofSource_printsThenFails, hprints]

end Command

end Featherweight
