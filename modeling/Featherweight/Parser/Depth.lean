import Featherweight.Parser.Progress

/-!
# Depth of the grammar

A rule hands only shorter lists of tokens to the rules inside it. So `expression n` and
`statement n` read lists of fewer than `k` tokens alike for every `n` from `k` on
(`expression_agrees`, `statement_agrees`), and the depth that `program` takes is as good as any
greater one (`program_eq_of_lt`).

The same is said without a depth: the equations of the grammar have one solution
(`solves_unbounded`, `Solves.eq_unbounded`), as every rule that is read inside another has fewer
tokens to read.
-/

namespace Featherweight.Parser

variable {α β : Type}

/-- The readers do the same on fewer than `k` tokens. -/
def Agree (k : Nat) (p q : Parser α) : Prop := ∀ ts, ts.length < k → p ts = q ts

theorem Agree.refl (k : Nat) (p : Parser α) : Agree k p p := fun _ _ => rfl

theorem Agree.zero (p q : Parser α) : Agree 0 p q := fun _ h => absurd h (Nat.not_lt_zero _)

theorem Agree.mono {k l : Nat} {p q : Parser α} (h : Agree k p q) (hl : l ≤ k) : Agree l p q :=
  fun ts ht => h ts (Nat.lt_of_lt_of_le ht hl)

theorem Agree.bind {k : Nat} {p q : Parser α} {f g : α → Parser β} (hp : Reads p)
    (h : Agree k p q) (hf : ∀ a, Agree k (f a) (g a)) : Agree k (p >>= f) (q >>= g) := by
  intro ts ht
  show EStateM.bind p f ts = EStateM.bind q g ts
  have hle := hp.length_le ts
  unfold EStateM.bind
  rw [← h ts ht]
  split
  · next a rest hr => rw [hr] at hle; exact hf a rest (Nat.lt_of_le_of_lt hle ht)
  · rfl

/-- After a reader that took a token, fewer tokens are left to agree on. -/
theorem Agree.bind_consumed {k : Nat} {p q : Parser α} {f g : α → Parser β} (hp : Consumes p)
    (h : Agree (k + 1) p q) (hf : ∀ a, Agree k (f a) (g a)) :
    Agree (k + 1) (p >>= f) (q >>= g) := by
  intro ts ht
  show EStateM.bind p f ts = EStateM.bind q g ts
  unfold EStateM.bind
  rw [← h ts ht]
  split
  · next a rest hr => exact hf a rest (by have := hp ts a rest hr; omega)
  · rfl

theorem Agree.ite {k : Nat} {c : Prop} [Decidable c] {p p' q q' : Parser α} (hp : Agree k p p')
    (hq : Agree k q q') : Agree k (if c then p else q) (if c then p' else q') := by
  split
  · exact hp
  · exact hq

theorem Agree.accept {k : Nat} {kind : TokenKind} (hk : kind ≠ .eof) {p p' q q' : Parser α}
    (hp : Agree k p p') (hq : Agree (k + 1) q q') :
    Agree (k + 1) (do if ← accept kind then p else q) (do if ← accept kind then p' else q') := by
  intro ts ht
  by_cases hn : (next ts).kind = kind
  · have hlt := length_afterNext_lt (hn ▸ hk)
    rw [accept_of_next hn, accept_of_next hn]
    exact hp _ (by omega)
  · rw [accept_else hn, accept_else hn]
    exact hq ts ht

theorem Agree.ahead {k : Nat} {kind kind' : TokenKind} (hk : kind ≠ .eof) {f f' : Token → Parser α}
    {q q' : Parser α} (hf : ∀ t, Agree k (f t) (f' t)) (hq : Agree (k + 1) q q') :
    Agree (k + 1) (do if ← ahead kind kind' then f (← take) else q)
      (do if ← ahead kind kind' then f' (← take) else q') := by
  intro ts ht
  by_cases hn : Ahead kind kind' ts
  · have hlt := length_afterNext_lt (hn.1 ▸ hk)
    rw [ahead_of_next hn, ahead_of_next hn]
    exact hf (next ts) _ (by omega)
  · rw [ahead_else hn, ahead_else hn]
    exact hq ts ht

/-! ### Repetitions -/

theorem consumes_operator {ops : List BinaryOp} {ts rest : List Token} {op : BinaryOp}
    (h : operator ops ts = .ok (some op) rest) : rest.length < ts.length := by
  induction ops with
  | nil => cases h
  | cons o ops ih =>
    rw [operator] at h
    by_cases hn : (next ts).kind = .symbol o.symbol
    · rw [accept_of_next hn] at h
      cases h
      exact length_afterNext_lt (by simp [hn])
    · rw [accept_else hn] at h
      exact ih h

theorem Agree.chainFrom {k : Nat} {p p' : Parser Expr} (hr : Reads p) (hp : Agree k p p')
    (ops : List BinaryOp) {n n' : Nat} (hn : k ≤ n) (hn' : k ≤ n') (e : Expr) :
    Agree k (chainFrom ops p n e) (chainFrom ops p' n' e) := by
  induction k generalizing n n' e with
  | zero => exact .zero _ _
  | succ k ih =>
    obtain ⟨n, rfl⟩ : ∃ m, n = m + 1 := ⟨n - 1, by omega⟩
    obtain ⟨n', rfl⟩ : ∃ m, n' = m + 1 := ⟨n' - 1, by omega⟩
    intro ts ht
    show EStateM.bind (operator ops) _ ts = EStateM.bind (operator ops) _ ts
    have hle := (reads.operator ops).length_le ts
    unfold EStateM.bind
    split
    · next op rest ho =>
      cases op with
      | none    => rfl
      | some op =>
        have := consumes_operator ho
        exact (Agree.bind hr (hp.mono (Nat.le_succ k)) fun e' =>
          ih (hp.mono (Nat.le_succ k)) (by omega) (by omega) _) rest (by omega)
    · rfl

theorem Agree.chain {k : Nat} {p p' : Parser Expr} (hr : Reads p) (hp : Agree k p p')
    (ops : List BinaryOp) {n n' : Nat} (hn : k ≤ n) (hn' : k ≤ n') :
    Agree k (chain ops p n) (chain ops p' n') :=
  hp.bind hr fun e => hp.chainFrom hr ops hn hn' e

theorem Agree.negated {k : Nat} {p p' : Parser Expr} (hr : Reads p) (hp : Agree k p p')
    {n n' : Nat} (hn : k ≤ n) (hn' : k ≤ n') : Agree k (negated p n) (negated p' n') := by
  induction k generalizing n n' with
  | zero => exact .zero _ _
  | succ k ih =>
    obtain ⟨n, rfl⟩ : ∃ m, n = m + 1 := ⟨n - 1, by omega⟩
    obtain ⟨n', rfl⟩ : ∃ m, n' = m + 1 := ⟨n' - 1, by omega⟩
    refine .accept (by decide) (.bind (reads.negated hr n) ?_ fun _ => .refl _ _) hp
    exact ih (hp.mono (Nat.le_succ k)) (by omega) (by omega)

theorem Agree.arguments {k : Nat} {p p' : Parser Expr} (hr : Reads p) (hp : Agree k p p')
    (room : Nat) : Agree k (arguments p room) (arguments p' room) := by
  induction room with
  | zero => exact .refl _ _
  | succ room ih =>
    exact hp.bind hr fun _ => (Agree.refl k _).bind (reads.accept _) fun _ =>
      .ite (ih.bind (reads.arguments hr room) fun _ => .refl _ _) (.refl _ _)

theorem Agree.argumentList {k : Nat} {p p' : Parser Expr} (hr : Reads p) (hp : Agree k p p') :
    Agree k (argumentList p) (argumentList p') := by
  refine .bind (reads.listUntilParen (reads.arguments hr _)) ?_ fun _ => .refl _ _
  exact (Agree.refl k _).bind reads.peek fun _ => .ite (.refl _ _) (hp.arguments hr _)

theorem Agree.callsFrom {k j : Nat} {p p' : Parser Expr} (hr : Reads p) (hp : Agree k p p')
    (hj : j ≤ k + 1) {n n' : Nat} (hn : j ≤ n) (hn' : j ≤ n') (f : Expr) :
    Agree j (callsFrom p n f) (callsFrom p' n' f) := by
  induction j generalizing n n' f with
  | zero => exact .zero _ _
  | succ j ih =>
    obtain ⟨n, rfl⟩ : ∃ m, n = m + 1 := ⟨n - 1, by omega⟩
    obtain ⟨n', rfl⟩ : ∃ m, n' = m + 1 := ⟨n' - 1, by omega⟩
    refine .accept (by decide) (.bind (reads.argumentList hr) ?_ fun args => ?_) (.refl _ _)
    · exact (hp.argumentList hr).mono (by omega)
    · exact ih (by omega) (by omega) (by omega) _

theorem Agree.statements {k j : Nat} {s s' : Parser (Option Expr)} (hr : Reads s)
    (hc : Consumes s) (hs : Agree k s s') (hj : j ≤ k) (close : TokenKind) {n n' : Nat}
    (hn : j ≤ n) (hn' : j ≤ n') : Agree j (statements close s n) (statements close s' n') := by
  induction j generalizing n n' with
  | zero => exact .zero _ _
  | succ j ih =>
    obtain ⟨n, rfl⟩ : ∃ m, n = m + 1 := ⟨n - 1, by omega⟩
    obtain ⟨n', rfl⟩ : ∃ m, n' = m + 1 := ⟨n' - 1, by omega⟩
    refine (Agree.refl _ _).bind reads.peek fun t => .ite (.refl _ _) ?_
    refine (hs.mono hj).bind_consumed hc fun e => ?_
    refine Agree.bind (reads.statements hr close n) ?_ fun _ => .refl _ _
    exact ih (by omega) (by omega) (by omega)

/-! ### Rules -/

section Rules

variable {k n n' : Nat} {p p' : Parser Expr} {s s' : Parser (Option Expr)}

theorem Agree.function (hr : Reads s) (hc : Consumes s) (hs : Agree k s s') (hn : k ≤ n)
    (hn' : k ≤ n') : Agree k (function s n) (function s' n') := by
  refine (Agree.refl _ _).bind (reads.expect _) fun paren => ?_
  refine (Agree.refl _ _).bind (reads.listUntilParen (reads.parameters _ _)) fun params => ?_
  refine (Agree.refl _ _).bind (reads.expect _) fun _ => ?_
  refine (Agree.refl _ _).bind (reads.expect _) fun _ => ?_
  refine .bind (reads.block hr n) ?_ fun _ => .refl _ _
  exact (hs.statements hr hc (Nat.le_refl k) _ hn hn').bind (reads.statements hr _ n) fun _ =>
    .refl _ _

variable (hrp : Reads p) (hrs : Reads s) (hcs : Consumes s)

theorem Agree.initialValue (hp : Agree k p p') : Agree k (initialValue p) (initialValue p') :=
  (Agree.refl _ _).bind (reads.accept _) fun _ => .ite hp (.refl _ _)

include hrp hrs hcs

theorem Agree.primaryFrom (hp : Agree k p p') (hs : Agree k s s') (hn : k ≤ n) (hn' : k ≤ n')
    (t : Token) : Agree k (primaryFrom p s n t) (primaryFrom p' s' n' t) := by
  unfold Parser.primaryFrom
  cases t.kind with
  | symbol c =>
    cases c with
    | leftParen => exact hp.bind hrp fun _ => .refl _ _
    | _         => exact .refl _ _
  | keyword w =>
    cases w with
    | printWord =>
      exact (Agree.refl _ _).bind (reads.expect _) fun _ => hp.bind hrp fun _ => .refl _ _
    | functionWord => exact hs.function hrs hcs hn hn'
    | _ => exact .refl _ _
  | _ => exact .refl _ _

theorem Agree.primary (hp : Agree k p p') (hs : Agree k s s') (hn : k ≤ n) (hn' : k ≤ n') :
    Agree (k + 1) (primary p s n) (primary p' s' n') := by
  intro ts ht
  show Parser.primaryFrom p s n (next ts) (afterNext ts) = Parser.primaryFrom p' s' n' _ _
  by_cases he : (next ts).kind = .eof
  · unfold Parser.primaryFrom
    rw [he]
  · have := length_afterNext_lt he
    exact hp.primaryFrom hrp hrs hcs hs hn hn' _ _ (by omega)

theorem Agree.comparison (hp : Agree k p p') (hs : Agree k s s') (hn : k + 1 ≤ n)
    (hn' : k + 1 ≤ n') : Agree (k + 1) (comparison p s n) (comparison p' s' n') := by
  have hcall : Agree (k + 1) (call p s n) (call p' s' n') :=
    (hp.primary hrp hrs hcs hs (by omega) (by omega)).bind (reads.primary hrp hrs n) fun f =>
      hp.callsFrom hrp (Nat.le_refl _) hn hn' f
  have hunary  := hcall.negated (reads.call hrp hrs n) hn hn'
  have hfactor := hunary.chain (reads.unary hrp hrs n) [.multiply, .divide, .modulo] hn hn'
  have hterm   := hfactor.chain (reads.factor hrp hrs n) [.add, .subtract] hn hn'
  exact hterm.chain (reads.term hrp hrs n) _ hn hn'

theorem Agree.expressionOf (hp : Agree k p p') (hs : Agree k s s') (hn : k + 1 ≤ n)
    (hn' : k + 1 ≤ n') : Agree (k + 1) (expressionOf p s n) (expressionOf p' s' n') := by
  refine .accept (by decide) ?_ <| .ahead (by decide) (fun name => ?_) ?_
  · exact (Agree.refl _ _).bind (reads.expect _) fun _ =>
      hp.initialValue.bind (reads.initialValue hrp) fun _ => .refl _ _
  · exact (Agree.refl _ _).bind reads.take fun _ => hp.bind hrp fun _ => .refl _ _
  · exact hp.comparison hrp hrs hcs hs hn hn'

omit hrp hcs in
theorem Agree.body (hs : Agree k s s') : Agree k (body s) (body s') :=
  hs.bind hrs fun _ => .refl _ _

omit hrp hcs in
theorem Agree.alternative (hs : Agree k s s') : Agree k (alternative s) (alternative s') :=
  (Agree.refl _ _).bind (reads.accept _) fun _ => .ite (hs.body hrs) (.refl _ _)

omit hcs in
theorem Agree.conditional (hp : Agree k p p') (hs : Agree k s s') :
    Agree k (conditional p s) (conditional p' s') :=
  (Agree.refl _ _).bind (reads.expect _) fun _ => hp.bind hrp fun _ =>
    (Agree.refl _ _).bind (reads.expect _) fun _ => (hs.body hrs).bind (reads.body hrs) fun _ =>
      (hs.alternative hrs).bind (reads.alternative hrs) fun _ => .refl _ _

omit hcs in
theorem Agree.whileLoop (hp : Agree k p p') (hs : Agree k s s') :
    Agree k (whileLoop p s) (whileLoop p' s') :=
  (Agree.refl _ _).bind (reads.expect _) fun _ => hp.bind hrp fun _ =>
    (Agree.refl _ _).bind (reads.expect _) fun _ =>
      (hs.body hrs).bind (reads.body hrs) fun _ => .refl _ _

theorem Agree.statementOf (hp : Agree (k + 1) p p') (hs : Agree k s s') (hn : k ≤ n)
    (hn' : k ≤ n') : Agree (k + 1) (statementOf p s n) (statementOf p' s' n') := by
  have hp' := hp.mono (Nat.le_succ k)
  refine .accept (by decide) (.refl _ _) ?_
  refine .accept (by decide) (.bind (reads.block hrs n) ?_ fun _ => .refl _ _) ?_
  · exact (hs.statements hrs hcs (Nat.le_refl k) _ hn hn').bind (reads.statements hrs _ n) fun _ =>
      .refl _ _
  refine .accept (by decide) ((hp'.conditional hrp hrs hs).bind (reads.conditional hrp hrs) fun _ =>
    .refl _ _) ?_
  refine .accept (by decide) ((hp'.whileLoop hrp hrs hs).bind (reads.whileLoop hrp hrs) fun _ =>
    .refl _ _) ?_
  refine .ahead (by decide) (fun _ => ?_) ?_
  · refine .bind (reads.namedFunction hrs n) ?_ fun _ => .refl _ _
    exact (Agree.refl _ _).bind (reads.expect _) fun _ =>
      (hs.function hrs hcs hn hn').bind (reads.function hrs n) fun _ => .refl _ _
  · exact .bind (reads.expressionStatement hrp) (hp.bind hrp fun _ => .refl _ _) fun _ => .refl _ _

end Rules

/-! ### Every depth that suffices gives the same -/

section

variable {k n r : Nat} {p : Parser Expr} {s : Parser (Option Expr)}

/-- An expression of the next depth, which holds what agrees with the readers of this one. -/
theorem Agree.expression_succ (hp : Agree k (expression n) p) (hs : Agree k (statement n) s)
    (hn : k ≤ n) (hr : k + 1 ≤ r) :
    Agree (k + 1) (expression (n + 1)) (Parser.expressionOf p s r) :=
  hp.expressionOf (reads_expression n) (reads_statement n) (consumes_statement n) hs
    (Nat.succ_le_succ hn) hr

/-- A statement of the next depth, which holds what agrees with the readers of this one. -/
theorem Agree.statement_succ (hp : Agree (k + 1) (expression (n + 1)) p)
    (hs : Agree k (statement n) s) (hn : k ≤ n) (hr : k ≤ r) :
    Agree (k + 1) (statement (n + 1)) (Parser.statementOf p s r) :=
  hp.statementOf (reads_expression (n + 1)) (reads_statement n) (consumes_statement n) hs
    (Nat.le_succ_of_le hn) hr

end

theorem agree_both {k n n' : Nat} (hn : k ≤ n) (hn' : k ≤ n') :
    Agree k (expression n) (expression n') ∧ Agree k (statement n) (statement n') := by
  induction k generalizing n n' with
  | zero => exact ⟨.zero _ _, .zero _ _⟩
  | succ k ih =>
    obtain ⟨n, rfl⟩ : ∃ m, n = m + 1 := ⟨n - 1, by omega⟩
    obtain ⟨n', rfl⟩ : ∃ m, n' = m + 1 := ⟨n' - 1, by omega⟩
    obtain ⟨hp, hs⟩ := @ih n n' (by omega) (by omega)
    have he : Agree (k + 1) (expression (n + 1)) (expression (n' + 1)) :=
      hp.expression_succ hs (by omega) hn'
    exact ⟨he, he.statement_succ hs (by omega) (by omega)⟩

theorem expression_agrees {k n n' : Nat} (hn : k ≤ n) (hn' : k ≤ n') :
    Agree k (expression n) (expression n') := (agree_both hn hn').1

theorem statement_agrees {k n n' : Nat} (hn : k ≤ n) (hn' : k ≤ n') :
    Agree k (statement n) (statement n') := (agree_both hn hn').2

/-! ### Reading without a depth -/

/-- Do readers of expressions and statements satisfy the equations of the grammar, which know no
depth? Repetitions may go round more often than there are tokens. -/
structure Solves (p : Parser Expr) (s : Parser (Option Expr)) : Prop where
  expression_eq : ∀ {ts : List Token} {r : Nat}, ts.length < r → p ts = expressionOf p s r ts
  statement_eq : ∀ {ts : List Token} {r : Nat}, ts.length < r → s ts = statementOf p s r ts

/-- An expression, at a depth that suffices. -/
def unboundedExpression : Parser Expr := fun ts => expression (ts.length + 1) ts

/-- A statement, at a depth that suffices. -/
def unboundedStatement : Parser (Option Expr) := fun ts => statement (ts.length + 1) ts

theorem agree_unboundedExpression {k n : Nat} (hn : k ≤ n) :
    Agree k (expression n) unboundedExpression :=
  fun ts ht => expression_agrees (Nat.le_trans ht hn) (Nat.le_refl _) ts (Nat.lt_succ_self _)

theorem agree_unboundedStatement {k n : Nat} (hn : k ≤ n) :
    Agree k (statement n) unboundedStatement :=
  fun ts ht => statement_agrees (Nat.le_trans ht hn) (Nat.le_refl _) ts (Nat.lt_succ_self _)

theorem advances_unboundedExpression : Advances unboundedExpression :=
  fun ts => advances_expression ts.length ts

theorem advances_unboundedStatement : Advances unboundedStatement :=
  fun ts => advances_statement ts.length ts

theorem solves_unbounded : Solves unboundedExpression unboundedStatement where
  expression_eq {ts r} hr := by
    have hp := agree_unboundedExpression (Nat.le_refl ts.length)
    have hs := agree_unboundedStatement (Nat.le_refl ts.length)
    exact hp.expression_succ hs (Nat.le_refl _) hr ts (Nat.lt_succ_self _)
  statement_eq {ts r} hr := by
    have hp := agree_unboundedExpression (Nat.le_refl (ts.length + 1))
    have hs := agree_unboundedStatement (Nat.le_refl ts.length)
    exact hp.statement_succ hs (Nat.le_refl _) (Nat.le_of_lt hr) ts (Nat.lt_succ_self _)

namespace Solves

variable {p : Parser Expr} {s : Parser (Option Expr)} (h : Solves p s)

include h

/-- By induction on the number of tokens: whatever a rule reads inside is shorter. -/
theorem agree {k n : Nat} (hn : k ≤ n) : Agree k (expression n) p ∧ Agree k (statement n) s := by
  induction k generalizing n with
  | zero => exact ⟨.zero _ _, .zero _ _⟩
  | succ k ih =>
    obtain ⟨n, rfl⟩ : ∃ m, n = m + 1 := ⟨n - 1, by omega⟩
    obtain ⟨hp, hs⟩ := @ih n (by omega)
    have he : Agree (k + 1) (expression (n + 1)) p := fun ts ht => by
      rw [h.expression_eq ht]
      exact hp.expression_succ hs (by omega) (Nat.le_refl _) ts ht
    refine ⟨he, fun ts ht => ?_⟩
    rw [h.statement_eq ht]
    exact he.statement_succ hs (by omega) (Nat.le_succ k) ts ht

theorem eq_unbounded : p = unboundedExpression ∧ s = unboundedStatement := by
  constructor
  · funext ts
    exact ((h.agree (Nat.le_refl _)).1 ts (Nat.lt_succ_self _)).symm
  · funext ts
    exact ((h.agree (Nat.le_refl _)).2 ts (Nat.lt_succ_self _)).symm

end Solves

/-! ### Programs -/

/-- Readers that agree with statements of some depth read the same program. -/
theorem program_eq_of_agree {ts : List Token} {s : Parser (Option Expr)} {n : Nat}
    (hs : Agree (ts.length + 1) (statement (ts.length + 1)) s) (hn : ts.length < n) :
    program ts = (do return Expr.sequence (← statements .eof s n) : Parser Expr) ts := by
  have h := hs.statements (reads_statement _) (consumes_statement _) (Nat.le_refl _) .eof
    (Nat.le_refl _) hn
  have hreads := reads.statements (reads_statement (ts.length + 1)) .eof (ts.length + 1)
  exact h.bind hreads (fun es => .refl _ (pure (Expr.sequence es))) ts (Nat.lt_succ_self _)

/-- Any depth greater than the number of tokens reads the same program. -/
theorem program_eq_of_lt {ts : List Token} {n : Nat} (hn : ts.length < n) :
    program ts =
      (do return Expr.sequence (← statements .eof (statement n) n) : Parser Expr) ts :=
  program_eq_of_agree (statement_agrees (Nat.le_refl _) hn) hn

end Featherweight.Parser
