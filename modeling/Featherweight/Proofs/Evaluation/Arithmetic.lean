import Featherweight.Proofs.Parsing.Acceptance
import Featherweight.Proofs.Parsing.Alike
import Mathlib.Data.Int.ModEq

/-!
# Arithmetic on 64 bits

A tree of integers, sums, differences and products has a value among all integers
(`Expr.Arithmetic`). Evaluating it does nothing but answer with the one integer of 64 bits that is
congruent to this value (`Expr.Arithmetic.comesTo`): reducing an integer to 64 bits commutes with
the three operators, so it makes no difference that every operator wraps on the way.

Program texts that are written with these operators, minus signs and parentheses stand for such
trees. Their value is read off the tokens (`Reckons`), by the usual precedence.
-/

namespace Featherweight

/-! ### Trees -/

/-- Is the tree built from integers with sums, differences and products, and is that its value among
all integers? -/
inductive Expr.Arithmetic : Expr → Int → Prop
  | int (n : Int64) : Expr.Arithmetic (.int n) n.toInt
  | add {l r : Expr} {a b : Int} (hl : Expr.Arithmetic l a) (hr : Expr.Arithmetic r b) :
      Expr.Arithmetic (.binary .add l r) (a + b)
  | subtract {l r : Expr} {a b : Int} (hl : Expr.Arithmetic l a) (hr : Expr.Arithmetic r b) :
      Expr.Arithmetic (.binary .subtract l r) (a - b)
  | multiply {l r : Expr} {a b : Int} (hl : Expr.Arithmetic l a) (hr : Expr.Arithmetic r b) :
      Expr.Arithmetic (.binary .multiply l r) (a * b)

theorem Expr.Arithmetic.negate {t : Expr} {a : Int} (h : t.Arithmetic a) :
    (Expr.binary .subtract (.int 0) t).Arithmetic (-a) := by
  have hminus : (Expr.binary .subtract (.int 0) t).Arithmetic (0 - a) := .subtract (.int 0) h
  rwa [zero_sub] at hminus

/-- Does the tree evaluate, in any scope of any machine, to the one integer of 64 bits that is
congruent to `a`, and leave the machine as it was? -/
def Expr.ComesTo (t : Expr) (a : Int) : Prop :=
  ∃ k : Int64, (∀ j : Int64, j.toInt ≡ a [ZMOD 2 ^ 64] ↔ j = k) ∧
    ∃ depth, ∀ n ≥ depth, ∀ e m, eval n t e m = .ok (.int k) m

/-! ### Integers kept to 64 bits -/

/-- An integer of 64 bits is congruent to just those integers that are kept to it. -/
theorem toInt_modEq_iff (j : Int64) (a : Int) :
    j.toInt ≡ a [ZMOD 2 ^ 64] ↔ j = Int64.ofInt a := by
  constructor
  · intro h
    have hmod : j.toInt % (2 ^ 64 : Nat) = a % (2 ^ 64 : Nat) := h
    refine ((Int64.ofInt_eq_iff_bmod_eq_toInt a j).2 ?_).symm
    rw [← Int.emod_bmod, ← hmod, Int.emod_bmod]
    exact Int64.toInt_bmod j
  · rintro rfl
    rw [Int64.toInt_ofInt]
    exact Int.bmod_emod

/-- An operator between two trees takes one step more than both of them. -/
theorem eval_binary_eq {op : BinaryOp} {l r : Expr} {a b c : Int64} {k k' n : Nat} {e : ScopeId}
    (hl : ∀ n ≥ k, ∀ e, eval n l e = pure (.int a)) (hr : ∀ n ≥ k', ∀ e, eval n r e = pure (.int b))
    (hop : op.compute a b = .ok (.int c)) (hn : n ≥ max k k' + 1) :
    eval n (.binary op l r) e = pure (.int c) := by
  obtain ⟨n, rfl⟩ := Nat.exists_eq_add_of_le' (Nat.le_of_add_left_le hn)
  have hstep : eval (n + 1) (.binary op l r) e =
      eval n l e >>= fun v => eval n r e >>= fun w => Run.ofExcept (op.apply v w) := rfl
  have hle : max k k' ≤ n := Nat.le_of_succ_le_succ hn
  rw [hstep, hl n (le_of_max_le_left hle), hr n (le_of_max_le_right hle), pure_bind, pure_bind]
  show Run.ofExcept (op.compute a b) = _
  rw [hop]
  rfl

/-- With enough steps, evaluating the tree is answering with its value, kept to 64 bits. By
induction on the tree, as keeping to 64 bits commutes with every operator. -/
theorem Expr.Arithmetic.eval_eq {t : Expr} {a : Int} (h : t.Arithmetic a) :
    ∃ depth, ∀ n ≥ depth, ∀ e, eval n t e = pure (.int (.ofInt a)) := by
  induction h with
  | int n =>
    refine ⟨1, fun k hk e => ?_⟩
    obtain ⟨k, rfl⟩ := Nat.exists_eq_add_of_le' hk
    rw [Int64.ofInt_toInt]
    rfl
  | add _ _ ihl ihr =>
    obtain ⟨k, hl⟩ := ihl
    obtain ⟨k', hr⟩ := ihr
    exact ⟨max k k' + 1, fun n hn e => eval_binary_eq hl hr (by rw [Int64.ofInt_add]; rfl) hn⟩
  | subtract _ _ ihl ihr =>
    obtain ⟨k, hl⟩ := ihl
    obtain ⟨k', hr⟩ := ihr
    exact ⟨max k k' + 1, fun n hn e => eval_binary_eq hl hr (by rw [Int64.ofInt_sub]; rfl) hn⟩
  | multiply _ _ ihl ihr =>
    obtain ⟨k, hl⟩ := ihl
    obtain ⟨k', hr⟩ := ihr
    exact ⟨max k k' + 1, fun n hn e => eval_binary_eq hl hr (by rw [Int64.ofInt_mul]; rfl) hn⟩

theorem Expr.Arithmetic.comesTo {t : Expr} {a : Int} (h : t.Arithmetic a) : t.ComesTo a := by
  obtain ⟨depth, heval⟩ := h.eval_eq
  refine ⟨.ofInt a, fun j => toInt_modEq_iff j a, depth, fun n hn e m => ?_⟩
  rw [heval n hn e]
  rfl

/-! ### Texts -/

/-- How tightly an integer expression binds. -/
inductive Rank where
  | primary | unary | product | sum

/-- Are the tokens an integer expression of that rank, and is that its value among all integers? -/
inductive Reckons : Rank → List Token → Int → Prop
  | literal {t : Token} {n : Int64} (ht : t.kind = .int n) : Reckons .primary [t] n.toInt
  | parens {l r : Token} {us : List Token} {a : Int} (hl : l.kind = .symbol .leftParen)
      (h : Reckons .sum us a) (hr : r.kind = .symbol .rightParen) :
      Reckons .primary (l :: (us ++ [r])) a
  | primary {us : List Token} {a : Int} (h : Reckons .primary us a) : Reckons .unary us a
  | minus {o : Token} {us : List Token} {a : Int} (ho : o.kind = .symbol .minus)
      (h : Reckons .unary us a) : Reckons .unary (o :: us) (-a)
  | unary {us : List Token} {a : Int} (h : Reckons .unary us a) : Reckons .product us a
  | times {o : Token} {us vs : List Token} {a b : Int} (hl : Reckons .product us a)
      (ho : o.kind = .symbol .star) (hr : Reckons .unary vs b) :
      Reckons .product (us ++ o :: vs) (a * b)
  | product {us : List Token} {a : Int} (h : Reckons .product us a) : Reckons .sum us a
  | plus {o : Token} {us vs : List Token} {a b : Int} (hl : Reckons .sum us a)
      (ho : o.kind = .symbol .plus) (hr : Reckons .product vs b) :
      Reckons .sum (us ++ o :: vs) (a + b)
  | less {o : Token} {us vs : List Token} {a b : Int} (hl : Reckons .sum us a)
      (ho : o.kind = .symbol .minus) (hr : Reckons .product vs b) :
      Reckons .sum (us ++ o :: vs) (a - b)

namespace Grammar

/-- The phrases of the grammar that integer expressions of that rank are. -/
def ofRank : Rank → Phrase Expr
  | .primary => Primary .nearest
  | .unary   => Unary .nearest
  | .product => Factor .nearest
  | .sum     => Term .nearest

/-- An integer expression is a phrase of the grammar, and stands for a tree with its value. -/
theorem exists_arithmetic {rank : Rank} {us : List Token} {a : Int} (h : Reckons rank us a) :
    ∃ t : Expr, t.Arithmetic a ∧ ofRank rank us t := by
  induction h with
  | @literal t n ht => exact ⟨.int n, .int n, .int ht⟩
  | parens hl _ hr ih =>
    obtain ⟨t, ht, hphrase⟩ := ih
    exact ⟨t, ht, .paren hl (.comparison (.chain (chain_one hphrase))) hr⟩
  | primary _ ih =>
    obtain ⟨t, ht, hphrase⟩ := ih
    exact ⟨t, ht, Primary.unary hphrase⟩
  | minus ho _ ih =>
    obtain ⟨t, ht, hphrase⟩ := ih
    exact ⟨_, ht.negate, .negate ho hphrase⟩
  | unary _ ih =>
    obtain ⟨t, ht, hphrase⟩ := ih
    exact ⟨t, ht, .chain (chain_one hphrase)⟩
  | times _ ho _ ihl ihr =>
    obtain ⟨l, hl, ⟨hproduct⟩⟩ := ihl
    obtain ⟨r, hr, hunary⟩ := ihr
    exact ⟨.binary .multiply l r, hl.multiply hr, .chain (hproduct.concat (by decide) ho hunary)⟩
  | product _ ih =>
    obtain ⟨t, ht, hphrase⟩ := ih
    exact ⟨t, ht, .chain (chain_one hphrase)⟩
  | plus _ ho _ ihl ihr =>
    obtain ⟨l, hl, ⟨hsum⟩⟩ := ihl
    obtain ⟨r, hr, hproduct⟩ := ihr
    exact ⟨.binary .add l r, hl.add hr, .chain (hsum.concat (by decide) ho hproduct)⟩
  | less _ ho _ ihl ihr =>
    obtain ⟨l, hl, ⟨hsum⟩⟩ := ihl
    obtain ⟨r, hr, hproduct⟩ := ihr
    exact ⟨.binary .subtract l r, hl.subtract hr, .chain (hsum.concat (by decide) ho hproduct)⟩

end Grammar

/-- A text that is an integer expression and a semicolon is a program, of a tree with the value of
the expression. -/
theorem exists_ofSource_of_reckons {source : String} {us : List Token} {s eof : Token} {a : Int}
    (hsource : tokenize source = .ok (us ++ [s, eof])) (hs : s.kind = .symbol .semicolon)
    (h : Reckons .sum us a) : ∃ t, Expr.ofSource source = .ok t ∧ t.Arithmetic a := by
  have hitems := tokenize_eq_ok_iff.1 hsource
  obtain ⟨before, last, hbefore, hne⟩ := exists_tokens_eq hitems
  have hsplit : us ++ [s] ++ [eof] = before ++ [⟨.eof, "", last⟩] := by simpa using hbefore
  obtain ⟨rfl, heof⟩ := List.append_inj' hsplit rfl
  obtain rfl := List.head_eq_of_cons_eq heof
  obtain ⟨t, ht, hphrase⟩ := Grammar.exists_arithmetic h
  have hstatement : Grammar.Statement .nearest (us ++ [s]) (some t) false :=
    .expression (.comparison (.chain (Grammar.chain_one hphrase))) hs
  have hprogram : Grammar.Program .nearest (us ++ [s]) t := by
    refine ⟨[t], ?_, rfl⟩
    have hstatements : Grammar.Statements .nearest (us ++ [s] ++ []) ((some t).toList ++ []) :=
      .cons hstatement .nil
    simpa using hstatements
  refine ⟨t, Expr.ofSource_eq_ok_iff.2 ⟨_, hitems, ?_⟩, ht⟩
  have hread : Expr.ofTokens (us ++ [s] ++ [⟨.eof, "", last⟩]) = .ok t :=
    (Grammar.ofTokens_eq_ok_iff hne rfl).2 hprogram
  simpa using hread

/-- Trees of integers, sums, differences and products come to their value among all integers,
reduced to 64 bits once, and so does every program text that is an integer expression. -/
theorem arithmetic_modulo :
    (∀ (t : Expr) (a : Int), t.Arithmetic a → t.ComesTo a) ∧
      ∀ (source : String) (us : List Token) (s eof : Token) (a : Int),
        tokenize source = .ok (us ++ [s, eof]) → s.kind = .symbol .semicolon → Reckons .sum us a →
          ∃ t, Expr.ofSource source = .ok t ∧ t.Arithmetic a ∧ t.ComesTo a := by
  refine ⟨fun t a h => h.comesTo, fun source us s eof a hsource hs h => ?_⟩
  obtain ⟨t, ht, harith⟩ := exists_ofSource_of_reckons hsource hs h
  exact ⟨t, ht, harith, harith.comesTo⟩

/-- The sum `9223372036854775807 + 1` is one too large for 64 bits, and so is the product it is
negated and tripled to. -/
theorem arithmetic_modulo_tripled :
    ∃ t, Expr.ofSource "-(9223372036854775807 + 1) * 3;" = .ok t ∧
      ∃ depth, ∀ n ≥ depth, ∀ e m, eval n t e m = .ok (.int Int64.minValue) m := by
  have htokens : tokenize "-(9223372036854775807 + 1) * 3;" =
      .ok ([⟨.symbol .minus, "-", 1⟩, ⟨.symbol .leftParen, "(", 1⟩,
        ⟨.int Int64.maxValue, "9223372036854775807", 1⟩, ⟨.symbol .plus, "+", 1⟩, ⟨.int 1, "1", 1⟩,
        ⟨.symbol .rightParen, ")", 1⟩, ⟨.symbol .star, "*", 1⟩, ⟨.int 3, "3", 1⟩] ++
        [⟨.symbol .semicolon, ";", 1⟩, ⟨.eof, "", 1⟩]) :=
    tokenize_eq_ok_iff.2 (by decide +kernel)
  have literal (n : Int64) (text : String) : Reckons .product [⟨.int n, text, 1⟩] n.toInt :=
    .unary (.primary (.literal rfl))
  have hsum := Reckons.plus (o := ⟨.symbol .plus, "+", 1⟩)
    (.product (literal Int64.maxValue "9223372036854775807")) rfl (literal 1 "1")
  have hparens := Reckons.parens (l := ⟨.symbol .leftParen, "(", 1⟩)
    (r := ⟨.symbol .rightParen, ")", 1⟩) rfl hsum rfl
  have hminus := Reckons.minus (o := ⟨.symbol .minus, "-", 1⟩) rfl (.primary hparens)
  have hproduct := Reckons.times (o := ⟨.symbol .star, "*", 1⟩) (.unary hminus) rfl
    (.primary (.literal (t := ⟨.int 3, "3", 1⟩) rfl))
  obtain ⟨t, ht, -, k, hk, heval⟩ :=
    arithmetic_modulo.2 _ _ _ _ _ htokens rfl (.product hproduct)
  have hmin : Int64.minValue = k := (hk _).1 (by decide)
  exact ⟨t, ht, hmin ▸ heval⟩

end Featherweight
