import Featherweight.Proofs.Parsing.Cursor
import Mathlib.Logic.Function.Iterate

/-!
# What the parser looks at

No reader looks behind the first end of the input, or can tell an end that follows the list of
tokens from one that is in it. So a list of tokens, and what there is of it up to that end
(`upToEnd`), are read in lockstep (`compositional_local`): both are the same program or have the
same fault, found after the same number of tokens (`ofTokens_upToEnd`, `programLength_upToEnd`). Of
what was read before, only the place where it stopped makes a difference (`getElem?_programs`).
-/

namespace Featherweight.Parser

variable {α : Type} {us : List Token} {t : Token}

/-! ### Up to the end of the input -/

/-- The tokens up to and with the first end of the input, which follows if there is none. -/
def upToEnd : List Token → List Token
  | []      => [endOfInput]
  | t :: ts => if t.kind = .eof then [t] else t :: upToEnd ts

theorem upToEnd_of_eof (ht : t.kind = .eof) (ts : List Token) : upToEnd (t :: ts) = [t] := if_pos ht

theorem upToEnd_of_ne (ht : t.kind ≠ .eof) (ts : List Token) :
    upToEnd (t :: ts) = t :: upToEnd ts := if_neg ht

theorem upToEnd_append_of_eof (us : List Token) (ht : t.kind = .eof) (ts : List Token) :
    upToEnd (us ++ t :: ts) = upToEnd (us ++ [t]) := by
  induction us with
  | nil => rw [List.nil_append, List.nil_append, upToEnd_of_eof ht, upToEnd_of_eof ht]
  | cons u us ih =>
    by_cases hu : u.kind = .eof
    · rw [List.cons_append, List.cons_append, upToEnd_of_eof hu, upToEnd_of_eof hu]
    · rw [List.cons_append, List.cons_append, upToEnd_of_ne hu, upToEnd_of_ne hu, ih]

theorem next_upToEnd (ts : List Token) : next (upToEnd ts) = next ts := by
  cases ts with
  | nil => rfl
  | cons t ts =>
    by_cases ht : t.kind = .eof
    · rw [upToEnd_of_eof ht, next_cons, next_cons]
    · rw [upToEnd_of_ne ht, next_cons, next_cons]

theorem afterNext_upToEnd (ts : List Token) : afterNext (upToEnd ts) = upToEnd (afterNext ts) := by
  unfold afterNext
  rw [next_upToEnd]
  split
  · rfl
  · next hn =>
    obtain ⟨t, us, rfl, ht⟩ := exists_cons_of_next hn
    rw [upToEnd_of_ne ht, List.tail_cons, List.tail_cons]

theorem beforeEnd_upToEnd (ts : List Token) : beforeEnd (upToEnd ts) = beforeEnd ts := by
  induction ts with
  | nil => rfl
  | cons t ts ih =>
    by_cases ht : t.kind = .eof
    · rw [upToEnd_of_eof ht]
      simp [beforeEnd, ht]
    · unfold beforeEnd at ih ⊢
      simpa [upToEnd_of_ne ht, ht] using ih

/-! ### Readers -/

/-- Does the reader do the same with what there is up to the end of the input? -/
def Local (p : Parser α) : Prop := Lockstep (fun ts ts' => upToEnd ts = ts') Eq Eq p p

/-- The two tokens that a reader looks at are the same, and so is what is left of those up to the
end when one is taken. -/
theorem compositional_local : Compositional Local where
  pure _ := Lockstep.pure rfl
  throw _ := Lockstep.throw rfl
  bind hp hf := Lockstep.bind hp fun _ _ ha => ha ▸ hf _
  peek := by
    rintro ts _ rfl
    exact .ok (next_upToEnd ts).symm rfl
  take := by
    rintro ts _ rfl
    exact .ok (next_upToEnd ts).symm (afterNext_upToEnd ts).symm
  accept kind := by
    rintro ts _ rfl
    unfold accept
    rw [next_upToEnd]
    split
    · exact .ok rfl (afterNext_upToEnd ts).symm
    · exact .ok rfl rfl
  expect what := by
    rintro ts _ rfl
    unfold expect
    rw [next_upToEnd]
    split
    · exact .ok rfl (afterNext_upToEnd ts).symm
    · exact .error rfl rfl
  ahead first second := by
    rintro ts _ rfl
    unfold ahead
    rw [next_upToEnd, afterNext_upToEnd, next_upToEnd]
    exact .ok rfl rfl

/-! ### Programs -/

/-- Both lists are read at one depth, which suffices for both. -/
theorem settle_program_upToEnd (ts : List Token) : settle (program (upToEnd ts)) =
    ((settle (program ts)).1, upToEnd (settle (program ts)).2) := by
  let n := ts.length + (upToEnd ts).length + 1
  have hstatements := compositional_local.statements (compositional_local.statement n) .eof n
  have hread := compositional_local.bind hstatements fun es =>
    compositional_local.pure (Expr.sequence es)
  have hlt : ts.length < n := by omega
  have hlt' : (upToEnd ts).length < n := by omega
  rw [program_eq_of_lt hlt, program_eq_of_lt hlt']
  exact hread.settle_eq id ts

theorem ofTokens_eq (ts : List Token) : Expr.ofTokens ts = (settle (program ts)).1 := by
  unfold Expr.ofTokens
  cases program ts with
  | ok e rest => rfl
  | error e rest => rfl

theorem left_eq {p : Parser α} (ts : List Token) : left (p ts) = (settle (p ts)).2 := by
  cases p ts with
  | ok a rest => rfl
  | error e rest => rfl

theorem ofTokens_upToEnd (ts : List Token) : Expr.ofTokens (upToEnd ts) = Expr.ofTokens ts := by
  rw [ofTokens_eq, settle_program_upToEnd, ofTokens_eq]

/-- The tokens before the end are the same, of those read before and of those left. -/
theorem programLength_upToEnd (ts : List Token) :
    programLength (upToEnd ts) = programLength ts := by
  have hleft : left (program (upToEnd ts)) = upToEnd (left (program ts)) := by
    rw [left_eq, settle_program_upToEnd, left_eq]
  have hlength := length_beforeEnd ts
  have hlength' := length_beforeEnd (upToEnd ts)
  rw [hleft, beforeEnd_upToEnd, beforeEnd_upToEnd] at hlength'
  omega

/-! ### One program after the other -/

/-- The cursor when `k` programs were read. -/
def cursor (tokens : List Token) (k : Nat) : Nat := (stop tokens)^[k] 0

theorem getElem?_programs (tokens : List Token) (k c : Nat) :
    (programs (k + 1) (tokens.drop c))[k]? =
      some (Expr.ofTokens (tokens.drop ((stop tokens)^[k] c))) := by
  induction k generalizing c with
  | zero =>
    rw [programs_succ]
    rfl
  | succ k ih =>
    rw [programs_succ, List.getElem?_cons_succ, left_program_drop, ih, Function.iterate_succ_apply]

/-- From wherever it starts, reading a program comes to the same and takes the same number of tokens
as reading only what there is up to the end of the input. This holds of every place where an
earlier program or failure stopped, and nothing but that place depends on what came before. What is
behind an end of the input makes no difference. -/
theorem programs_local (tokens : List Token) :
    (∀ c, Expr.ofTokens (tokens.drop c) = Expr.ofTokens (upToEnd (tokens.drop c)) ∧
        stop tokens c = c + programLength (upToEnd (tokens.drop c))) ∧
      (∀ k, (programs (k + 1) tokens)[k]? =
          some (Expr.ofTokens (upToEnd (tokens.drop (cursor tokens k)))) ∧
        cursor tokens (k + 1) =
          cursor tokens k + programLength (upToEnd (tokens.drop (cursor tokens k)))) ∧
      ∀ us t vs, t.kind = .eof → Expr.ofTokens (us ++ t :: vs) = Expr.ofTokens (us ++ [t]) ∧
        programLength (us ++ t :: vs) = programLength (us ++ [t]) := by
  have hstop (c : Nat) : stop tokens c = c + programLength (upToEnd (tokens.drop c)) := by
    rw [programLength_upToEnd, stop]
  refine ⟨fun c => ⟨(ofTokens_upToEnd _).symm, hstop c⟩, fun k => ⟨?_, ?_⟩, fun us t vs ht => ?_⟩
  · rw [ofTokens_upToEnd]
    exact getElem?_programs tokens k 0
  · unfold cursor
    rw [Function.iterate_succ_apply']
    exact hstop _
  · have hsame := upToEnd_append_of_eof us ht vs
    constructor
    · rw [← ofTokens_upToEnd, hsame, ofTokens_upToEnd]
    · rw [← programLength_upToEnd, hsame, programLength_upToEnd]

end Featherweight.Parser
