import Featherweight.Parser.Depth
import Featherweight.Parser.Source
import Featherweight.Proofs.Lockstep
import Featherweight.Proofs.Parsing.Success

/-!
# The cursor of the parser

Programs may be read from one list of tokens again and again, each from where the one before
stopped. The cursor says where that is. It moves towards the first end of the input that comes,
which it does not pass (`stop_le_endFrom`). A failure moves it by at least one token
(`lt_stop_of_error`), and a success moves it to that end, where it stays (`stop_of_next`). So there
are not more failures than tokens before the end (`failures_programs_le`).

That reading comes to an end is said of the equations of the grammar, which know no depth: they have
one solution, and all that it reads takes a token (`cursor_progress`).
-/

namespace Featherweight.Parser

variable {ts : List Token}

/-! ### One program -/

/-- How many tokens are taken in reading a program. -/
def programLength (ts : List Token) : Nat := ts.length - (left (program ts)).length

theorem exists_programLength (ts : List Token) : ∃ used, used ++ left (program ts) = ts ∧
    used.length = programLength ts ∧ ∀ t ∈ used, t.kind ≠ .eof := by
  obtain ⟨used, hused, hne⟩ := reads_program ts
  refine ⟨used, hused, ?_, hne⟩
  have hlength := congrArg List.length hused
  rw [List.length_append] at hlength
  unfold programLength
  omega

theorem left_program (ts : List Token) : left (program ts) = ts.drop (programLength ts) := by
  obtain ⟨used, hused, hlength, -⟩ := exists_programLength ts
  calc left (program ts) = (used ++ left (program ts)).drop used.length := List.drop_left.symm
    _ = ts.drop (programLength ts) := by rw [hused, hlength]

/-- Of the tokens before the end some are taken, and the others are still before it. -/
theorem length_beforeEnd (ts : List Token) :
    (beforeEnd ts).length = programLength ts + (beforeEnd (left (program ts))).length := by
  obtain ⟨used, hused, hlength, hne⟩ := exists_programLength ts
  calc (beforeEnd ts).length = (beforeEnd (used ++ left (program ts))).length := by rw [hused]
    _ = programLength ts + (beforeEnd (left (program ts))).length := by
      rw [beforeEnd_append hne, List.length_append, hlength]

theorem program_of_eof (h : (next ts).kind = .eof) : program ts = .ok .null ts := by
  have hnone : statements .eof (statement (ts.length + 1)) (ts.length + 1) ts = .ok [] ts := by
    show (if _ then _ else _ : Parser (List Expr)) ts = _
    rw [if_pos (.inl h)]
    rfl
  rw [program_eq_of_lt (Nat.lt_succ_self _)]
  exact bind_pure_eq_ok_iff.2 ⟨[], hnone, rfl⟩

/-- Where the end of the input is not next, reading a program begins with reading a statement. -/
theorem length_program_lt (h : (next ts).kind ≠ .eof) :
    (left (program ts)).length < ts.length := by
  obtain ⟨first, hfirst, heq⟩ : ∃ first : Parser (List Expr), Advances first ∧
      statements .eof (statement (ts.length + 1)) (ts.length + 1) ts = first ts := by
    refine ⟨_, (advances_statement ts.length).bind fun e =>
      (reads.statements (reads_statement (ts.length + 1)) .eof ts.length).bind fun es =>
        .pure (e.toList ++ es), ?_⟩
    show (if _ then _ else _ : Parser (List Expr)) ts = _
    rw [if_neg (by simpa using h)]
  rw [program_eq_of_lt (Nat.lt_succ_self _), bind_eq_of_eq heq]
  rcases hfirst.bind (fun es => .pure (Expr.sequence es)) ts with hlt | ⟨hn, -⟩
  · exact hlt
  · exact absurd hn h

theorem programLength_pos (h : (next ts).kind ≠ .eof) : 0 < programLength ts :=
  Nat.sub_pos_of_lt (length_program_lt h)

/-! ### One program after the other -/

theorem programs_succ (n : Nat) (ts : List Token) :
    programs (n + 1) ts = Expr.ofTokens ts :: programs n (left (program ts)) := by
  rw [programs]
  unfold Expr.ofTokens
  cases program ts with
  | ok e rest => rfl
  | error e rest => rfl

/-- At the end of the input there is nothing more to read, however often that is tried. -/
theorem programs_of_eof (h : (next ts).kind = .eof) (n : Nat) :
    programs n ts = List.replicate n (.ok .null) := by
  induction n with
  | zero => rfl
  | succ n ih =>
    rw [programs_succ, Expr.ofTokens, program_of_eof h, left_ok, ih]
    exact List.replicate_succ.symm

/-- How many of the answers are failures. -/
def failures (answers : List (Except ParseError Expr)) : Nat :=
  answers.countP fun answer => !answer.isOk

/-- Every failure costs a token that is before the end. -/
theorem failures_programs_le (n : Nat) (ts : List Token) :
    failures (programs n ts) ≤ (beforeEnd ts).length := by
  induction n generalizing ts with
  | zero => exact Nat.zero_le _
  | succ n ih =>
    by_cases h : (next ts).kind = .eof
    · rw [programs_of_eof h]
      simp [failures, List.countP_replicate, Except.isOk, Except.toBool]
    · have hrest := ih (left (program ts))
      have hlength := length_beforeEnd ts
      have hpos := programLength_pos h
      have hfirst :
          failures (programs (n + 1) ts) ≤ failures (programs n (left (program ts))) + 1 := by
        rw [programs_succ, failures, List.countP_cons]
        split
        · exact Nat.le_refl _
        · exact Nat.le_succ _
      omega

/-! ### The cursor -/

/-- Where the cursor is after reading a program from `c` on. -/
def stop (tokens : List Token) (c : Nat) : Nat := c + programLength (tokens.drop c)

/-- Where the first end of the input is from `c` on, or the end of the list if there is none. -/
def endFrom (tokens : List Token) (c : Nat) : Nat := c + (beforeEnd (tokens.drop c)).length

theorem left_program_drop (tokens : List Token) (c : Nat) :
    left (program (tokens.drop c)) = tokens.drop (stop tokens c) := by
  rw [left_program, List.drop_drop, stop]

theorem stop_le_endFrom (tokens : List Token) (c : Nat) : stop tokens c ≤ endFrom tokens c := by
  have hlength := length_beforeEnd (tokens.drop c)
  unfold stop endFrom
  omega

theorem lt_stop_of_error {tokens : List Token} {c : Nat} {e : ParseError}
    (h : Expr.ofTokens (tokens.drop c) = .error e) : c < stop tokens c := by
  apply Nat.lt_add_of_pos_right
  apply programLength_pos
  intro hn
  rw [Expr.ofTokens, program_of_eof hn] at h
  cases h

theorem stop_of_next {tokens : List Token} {c : Nat} (h : (next (tokens.drop c)).kind = .eof) :
    stop tokens c = c := by
  unfold stop programLength
  rw [program_of_eof h, left_ok, Nat.sub_self, Nat.add_zero]

theorem next_stop_of_ok {tokens : List Token} {c : Nat} {e : Expr}
    (h : Expr.ofTokens (tokens.drop c) = .ok e) :
    (next (tokens.drop (stop tokens c))).kind = .eof := by
  rw [← left_program_drop]
  unfold Expr.ofTokens at h
  cases hprogram : program (tokens.drop c) with
  | ok e' rest => exact next_of_program hprogram
  | error e' rest =>
    rw [hprogram] at h
    cases h

theorem stop_eq_endFrom {tokens : List Token} {c : Nat}
    (h : (next (tokens.drop (stop tokens c))).kind = .eof) :
    stop tokens c = endFrom tokens c := by
  have hlength := length_beforeEnd (tokens.drop c)
  rw [left_program_drop, beforeEnd_of_next h] at hlength
  rw [stop, endFrom, hlength, List.length_nil, Nat.add_zero]

/-- The equations of the grammar have one solution, whose readers take a token or fail at the end of
the input; a program is what the solution says, however often repetitions may go round. The cursor
does not go back and does not pass the first end of the input. It moves where there is no program.
Where there is one it goes to that end, and however often a program is read from there, it is the
empty one and the cursor stays. So there are not more failures than tokens before the end. -/
theorem cursor_progress (tokens : List Token) :
    (∃ p s, Solves p s ∧ Advances p ∧ Advances s ∧ (∀ p' s', Solves p' s' → p' = p ∧ s' = s) ∧
        ∀ (ts : List Token) (r : Nat), ts.length < r → program ts =
          (do return Expr.sequence (← statements .eof s r) : Parser Expr) ts) ∧
      ∀ c, left (program (tokens.drop c)) = tokens.drop (stop tokens c) ∧
        c ≤ stop tokens c ∧ stop tokens c ≤ endFrom tokens c ∧
        (∀ e, Expr.ofTokens (tokens.drop c) = .error e → c < stop tokens c) ∧
        (∀ e, Expr.ofTokens (tokens.drop c) = .ok e → stop tokens c = endFrom tokens c ∧
          stop tokens (stop tokens c) = stop tokens c ∧
          ∀ n, programs n (tokens.drop (stop tokens c)) = List.replicate n (.ok .null)) ∧
        ∀ n, failures (programs n (tokens.drop c)) ≤ endFrom tokens c - c := by
  refine ⟨⟨unboundedExpression, unboundedStatement, solves_unbounded,
    advances_unboundedExpression, advances_unboundedStatement, fun p s h => h.eq_unbounded,
    fun ts r hr => program_eq_of_agree (agree_unboundedStatement (Nat.le_refl _)) hr⟩, fun c => ?_⟩
  refine ⟨left_program_drop tokens c, Nat.le_add_right _ _, stop_le_endFrom tokens c,
    fun e he => lt_stop_of_error he, fun e he => ?_, fun n => ?_⟩
  · have hnext := next_stop_of_ok he
    exact ⟨stop_eq_endFrom hnext, stop_of_next hnext, programs_of_eof hnext⟩
  · rw [endFrom, Nat.add_sub_cancel_left]
    exact failures_programs_le n _

end Featherweight.Parser
