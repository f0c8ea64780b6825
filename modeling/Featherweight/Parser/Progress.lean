import Featherweight.Parser.Rules

/-!
# Progress of the parser

Every rule takes tokens off the front only and never the end of the input (`Reads`), whether it
succeeds or fails. An expression or a statement takes at least one, unless the end of the input is
next, which is the one place where reading it fails without taking any (`Advances`): every rule
begins with choices on the next token (`accept_of_next`, `accept_else`), or takes it. So a rule that
succeeds in reading one has fewer tokens left (`Consumes`).
-/

namespace Featherweight.Parser

variable {α β : Type}

/-! ### Before the end of the input -/

/-- The tokens before the first end of the input. -/
def beforeEnd (ts : List Token) : List Token := ts.takeWhile fun t => t.kind ≠ .eof

theorem beforeEnd_append {us : List Token} (hus : ∀ t ∈ us, t.kind ≠ .eof)
    (ts : List Token) : beforeEnd (us ++ ts) = us ++ beforeEnd ts := by
  apply List.takeWhile_append_of_pos
  simpa using hus

theorem beforeEnd_of_next {ts : List Token} (h : (next ts).kind = .eof) : beforeEnd ts = [] := by
  cases ts with
  | nil => rfl
  | cons t ts =>
    have ht : t.kind = .eof := h
    simp [beforeEnd, ht]

/-! ### Tokens are taken off the front -/

/-- The tokens that are left after reading. -/
def left : EStateM.Result ParseError (List Token) α → List Token
  | .ok _ ts    => ts
  | .error _ ts => ts

@[simp] theorem left_ok (a : α) (ts : List Token) :
    left (.ok a ts : EStateM.Result ParseError (List Token) α) = ts := rfl

@[simp] theorem left_error (e : ParseError) (ts : List Token) :
    left (.error e ts : EStateM.Result ParseError (List Token) α) = ts := rfl

/-- A reader takes tokens off the front only, and never the end of the input. -/
def Reads (p : Parser α) : Prop :=
  ∀ ts, ∃ used, used ++ left (p ts) = ts ∧ ∀ t ∈ used, t.kind ≠ .eof

theorem Reads.pure (a : α) : Reads (Pure.pure a : Parser α) := fun _ => ⟨[], rfl, by simp⟩

theorem Reads.throw (e : ParseError) : Reads (throw e : Parser α) := fun _ => ⟨[], rfl, by simp⟩

theorem Reads.bind {p : Parser α} {f : α → Parser β} (hp : Reads p) (hf : ∀ a, Reads (f a)) :
    Reads (p >>= f) := by
  intro ts
  show ∃ used, used ++ left (EStateM.bind p f ts) = ts ∧ _
  obtain ⟨used, hused, hne⟩ := hp ts
  unfold EStateM.bind
  split
  · next a rest hr =>
    obtain ⟨more, hmore, hne'⟩ := hf a rest
    rw [hr, left_ok] at hused
    refine ⟨used ++ more, by rw [List.append_assoc, hmore, hused], fun t ht => ?_⟩
    exact (List.mem_append.1 ht).elim (hne t) (hne' t)
  · next e rest hr =>
    rw [hr, left_error] at hused
    exact ⟨used, hused, hne⟩

theorem Reads.length_le {p : Parser α} (hp : Reads p) (ts : List Token) :
    (left (p ts)).length ≤ ts.length := by
  obtain ⟨used, hused, _⟩ := hp ts
  have h := congrArg List.length hused
  rw [List.length_append] at h
  omega

theorem afterNext_append (ts : List Token) :
    ∃ used, used ++ afterNext ts = ts ∧ ∀ t ∈ used, t.kind ≠ .eof := by
  unfold afterNext
  cases ts with
  | nil => exact ⟨[], by simp, by simp⟩
  | cons t ts =>
    by_cases h : t.kind = .eof
    · exact ⟨[], by simp [next, h], by simp⟩
    · exact ⟨[t], by simp [next, h], by simpa using h⟩

theorem reads_take : Reads take := fun ts => afterNext_append ts

theorem reads_expect (what : Expected) : Reads (expect what) := by
  intro ts
  unfold expect
  split
  · exact afterNext_append ts
  · exact ⟨[], rfl, by simp⟩

theorem reads : Compositional Reads where
  pure := .pure
  throw := .throw
  bind := .bind
  peek _ := ⟨[], rfl, by simp⟩
  take := reads_take
  accept kind ts := by
    unfold accept
    split
    · exact afterNext_append ts
    · exact ⟨[], rfl, by simp⟩
  expect := reads_expect
  ahead _ _ _ := ⟨[], rfl, by simp⟩

theorem reads_expression (n : Nat) : Reads (expression n) := reads.expression n

theorem reads_statement (n : Nat) : Reads (statement n) := reads.statement n

/-- Reading a program never passes the end of the input. -/
theorem reads_program : Reads program := by
  intro ts
  have hs := reads.statements (reads_statement (ts.length + 1)) .eof (ts.length + 1)
  exact (hs.bind fun es => .pure (Expr.sequence es)) ts

/-! ### Choices on the next token -/

section Choice

variable {k l : TokenKind} {p q : Parser α} {f : Token → Parser α} {ts : List Token}

theorem accept_of_next (h : (next ts).kind = k) :
    (do if ← accept k then p else q) ts = p (afterNext ts) := by
  show EStateM.bind (accept k) _ _ = _
  simp only [EStateM.bind, accept, h, if_true]

theorem accept_else (h : (next ts).kind ≠ k) : (do if ← accept k then p else q) ts = q ts := by
  show EStateM.bind (accept k) _ _ = _
  simp only [EStateM.bind, accept, h, if_false, Bool.false_eq_true]

/-- Are the next two tokens of the kinds `k` and `l`? -/
def Ahead (k l : TokenKind) (ts : List Token) : Prop :=
  (next ts).kind = k ∧ (next (afterNext ts)).kind = l

theorem ahead_of_next (h : Ahead k l ts) :
    (do if ← ahead k l then f (← take) else q) ts = f (next ts) (afterNext ts) := by
  show EStateM.bind (ahead k l) _ _ = _
  simp only [EStateM.bind, ahead, h.1, h.2, decide_true, Bool.and_self, if_true]
  rfl

theorem ahead_else (h : ¬ Ahead k l ts) :
    (do if ← ahead k l then f (← take) else q) ts = q ts := by
  have hb : ((next ts).kind = k && (next (afterNext ts)).kind = l) = false := by
    simpa [Ahead] using h
  show EStateM.bind (ahead k l) _ _ = _
  simp only [EStateM.bind, ahead, hb, Bool.false_eq_true, if_false]

end Choice

/-! ### An expression and a statement take at least one token -/

theorem length_afterNext_lt {ts : List Token} (h : (next ts).kind ≠ .eof) :
    (afterNext ts).length < ts.length := by
  cases ts with
  | nil => exact absurd rfl h
  | cons t ts => rw [afterNext, if_neg h]; exact Nat.lt_succ_self _

/-- What is read after the next token was taken leaves fewer tokens than there were. -/
theorem Reads.length_lt {p : Parser α} (hp : Reads p) {ts : List Token}
    (hn : (next ts).kind ≠ .eof) : (left (p (afterNext ts))).length < ts.length :=
  Nat.lt_of_le_of_lt (hp.length_le (afterNext ts)) (length_afterNext_lt hn)

/-- A reader that takes a token, or else finds the end of the input and fails there. -/
def Advances (p : Parser α) : Prop :=
  ∀ ts, (left (p ts)).length < ts.length ∨ (next ts).kind = .eof ∧ ∃ e, p ts = .error e ts

theorem Advances.bind {p : Parser α} {f : α → Parser β} (hp : Advances p)
    (hf : ∀ a, Reads (f a)) : Advances (p >>= f) := by
  intro ts
  show (left (EStateM.bind p f ts)).length < _ ∨ _ ∧ ∃ e, EStateM.bind p f ts = _
  unfold EStateM.bind
  rcases hp ts with hlt | ⟨hn, e, he⟩
  · left
    split
    · next a rest hr =>
      rw [hr, left_ok] at hlt
      exact Nat.lt_of_le_of_lt ((hf a).length_le rest) hlt
    · next e rest hr =>
      rw [hr, left_error] at hlt
      exact hlt
  · exact .inr ⟨hn, e, by rw [he]⟩

theorem Advances.accept {k : TokenKind} (hk : k ≠ .eof) {p q : Parser α} (hp : Reads p)
    (hq : Advances q) : Advances (do if ← accept k then p else q) := by
  intro ts
  by_cases hn : (next ts).kind = k
  · rw [accept_of_next hn]
    exact .inl (hp.length_lt (hn ▸ hk))
  · rw [accept_else hn]
    exact hq ts

theorem Advances.ahead {k l : TokenKind} (hk : k ≠ .eof) {f : Token → Parser α} {q : Parser α}
    (hf : ∀ t, Reads (f t)) (hq : Advances q) :
    Advances (do if ← ahead k l then f (← take) else q) := by
  intro ts
  by_cases hn : Ahead k l ts
  · rw [ahead_of_next hn]
    exact .inl ((hf (next ts)).length_lt (hn.1 ▸ hk))
  · rw [ahead_else hn]
    exact hq ts

theorem Advances.negated {p : Parser Expr} (ha : Advances p) (hp : Reads p) (n : Nat) :
    Advances (negated p n) := by
  induction n with
  | zero => exact ha
  | succ n ih =>
    have hrest := (reads.negated hp n).bind fun e => .pure e.negate
    exact .accept (by decide) hrest ha

theorem Advances.chain {p : Parser Expr} (ha : Advances p) (hp : Reads p) (ops : List BinaryOp)
    (n : Nat) : Advances (chain ops p n) :=
  ha.bind fun _ => reads.chainFrom hp ops n _

section Rules

variable {p : Parser Expr} {s : Parser (Option Expr)} (hp : Reads p) (hs : Reads s)

include hp hs

theorem advances_primary (n : Nat) : Advances (primary p s n) := by
  intro ts
  show (left (primaryFrom p s n (next ts) (afterNext ts))).length < _ ∨
    _ ∧ ∃ e, primaryFrom p s n (next ts) (afterNext ts) = _
  by_cases hn : (next ts).kind = .eof
  · refine .inr ⟨hn, ?_⟩
    rw [primaryFrom, hn, afterNext, if_pos hn]
    exact ⟨_, rfl⟩
  · exact .inl ((reads.primaryFrom hp hs n (next ts)).length_lt hn)

theorem advances_comparison (n : Nat) : Advances (comparison p s n) := by
  have hcall : Advances (call p s n) :=
    (advances_primary hp hs n).bind fun f => reads.callsFrom hp n f
  have hunary := hcall.negated (reads.call hp hs n) n
  have hfactor := hunary.chain (reads.unary hp hs n) [.multiply, .divide, .modulo] n
  have hterm := hfactor.chain (reads.factor hp hs n) [.add, .subtract] n
  exact hterm.chain (reads.term hp hs n) _ n

theorem advances_expressionOf (n : Nat) : Advances (expressionOf p s n) := by
  refine .accept (by decide) (reads.declaration hp) ?_
  refine .ahead (by decide) (fun name => ?_) (advances_comparison hp hs n)
  exact reads.assignment hp name

theorem advances_statementOf (ha : Advances p) (n : Nat) : Advances (statementOf p s n) := by
  have some {q : Parser Expr} (hq : Reads q) : Reads (do return Option.some (← q)) :=
    hq.bind fun _ => .pure _
  refine .accept (by decide) (.pure _) ?_
  refine .accept (by decide) (some (reads.block hs n)) ?_
  refine .accept (by decide) (some (reads.conditional hp hs)) ?_
  refine .accept (by decide) (some (reads.whileLoop hp hs)) ?_
  refine .ahead (by decide) (fun _ => some (reads.namedFunction hs n)) ?_
  exact (ha.bind fun _ => (reads_expect _).bind fun _ => .pure _).bind fun _ => .pure _

end Rules

theorem advances_expression (n : Nat) : Advances (expression (n + 1)) :=
  advances_expressionOf (reads_expression n) (reads_statement n) _

theorem advances_statement (n : Nat) : Advances (statement (n + 1)) :=
  advances_statementOf (reads_expression (n + 1)) (reads_statement n) (advances_expression n) _

/-! ### Success takes at least one token -/

/-- A reader that succeeds leaves fewer tokens. -/
def Consumes (p : Parser α) : Prop := ∀ ts a rest, p ts = .ok a rest → rest.length < ts.length

theorem Advances.consumes {p : Parser α} (hp : Advances p) : Consumes p := by
  intro ts a rest h
  rcases hp ts with hlt | ⟨-, e, he⟩
  · rwa [h] at hlt
  · rw [h] at he
    cases he

theorem consumes_statement (n : Nat) : Consumes (statement n) := by
  cases n with
  | zero => intro ts e rest h; cases h
  | succ n => exact (advances_statement n).consumes

end Featherweight.Parser
