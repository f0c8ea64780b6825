import Featherweight.Diagnostic
import Featherweight.Proofs.Evaluation.Following
import Featherweight.Proofs.Parsing.Alike
import Featherweight.Store.Lemmas
import Mathlib.Data.Rat.Floor

/-!
# Division on 64 bits

The quotient of two integers is their quotient among the rational numbers without its fraction
(`truncate`), and the remainder is what this leaves of the dividend. One quotient takes more than
64 bits, that of the least integer and minus one. It wraps, and as the product with the divisor
wraps again, a quotient and a remainder give back the dividend in every case
(`div_mul_add_mod`).
-/

namespace Featherweight

/-! ### Quotients without a fraction -/

/-- The rational number without its fraction. -/
def truncate (x : ℚ) : ℤ := if 0 ≤ x then ⌊x⌋ else ⌈x⌉

theorem truncate_neg (x : ℚ) : truncate (-x) = -truncate x := by
  unfold truncate
  rcases lt_trichotomy x 0 with hx | rfl | hx
  · rw [if_pos (by linarith), if_neg (by linarith), Int.floor_neg]
  · simp
  · rw [if_neg (by linarith), if_pos hx.le, Int.ceil_neg]

theorem truncate_natCast_div (n k : ℕ) : truncate ((n : ℚ) / k) = (n / k : ℕ) := by
  rw [truncate, if_pos (by positivity), Rat.floor_natCast_div_natCast]
  rfl

/-- Dividing integers toward zero is dividing them and dropping the fraction. -/
theorem truncate_intCast_div (a b : ℤ) : truncate ((a : ℚ) / b) = a.tdiv b := by
  obtain ⟨n, rfl | rfl⟩ := a.eq_nat_or_neg
  all_goals obtain ⟨k, rfl | rfl⟩ := b.eq_nat_or_neg
  all_goals simp [neg_div, div_neg, truncate_neg, truncate_natCast_div]

/-! ### Quotients and remainders of 64 bits -/

variable {a b : Int64}

/-- Are `q` and `r` quotient and remainder of the integers? The quotient is exact but for its
fraction, except that the one that does not fit wraps. -/
structure Divided (a b q r : Int64) : Prop where
  remainder_lt : r.toInt.natAbs < b.toInt.natAbs
  sign : r = 0 ∨ r.toInt.sign = a.toInt.sign
  quotient : ¬ (a = Int64.minValue ∧ b = -1) → q.toInt = truncate (a.toInt / b.toInt)
  wraps : a = Int64.minValue → b = -1 → q = Int64.minValue ∧ r = 0

theorem toInt_div_eq (h : ¬ (a = Int64.minValue ∧ b = -1)) :
    (a / b).toInt = a.toInt.tdiv b.toInt := by
  by_cases ha : a = Int64.minValue
  · exact a.toInt_div_of_ne_right b fun hb => h ⟨ha, hb⟩
  · exact a.toInt_div_of_ne_left b ha

theorem divided_div_mod (hb : b ≠ 0) : Divided a b (a / b) (a % b) where
  remainder_lt := by
    have hpos : b.toInt ≠ 0 := by
      intro h
      exact hb (Int64.toInt_inj.1 h)
    rw [Int64.toInt_mod, Int.natAbs_tmod]
    exact Nat.mod_lt _ (Int.natAbs_pos.2 hpos)
  sign := by
    have hsign := Int.sign_tmod a.toInt b.toInt
    rw [← Int64.toInt_mod] at hsign
    split at hsign
    · exact .inl (Int64.toInt_inj.1 (Int.sign_eq_zero_iff_zero.1 hsign))
    · exact .inr hsign
  quotient h := by rw [toInt_div_eq h, truncate_intCast_div]
  wraps ha hb := by
    subst ha hb
    decide

/-- Quotient times divisor plus remainder is the dividend, also where the quotient and the product
wrap: all three are among all integers what they are, kept to 64 bits. -/
theorem div_mul_add_mod (a b : Int64) : a / b * b + a % b = a := by
  have hdiv : a / b = .ofInt (a.toInt.tdiv b.toInt) :=
    ((Int64.ofInt_eq_iff_bmod_eq_toInt _ _).2 (a.toInt_div b).symm).symm
  have hmod : a % b = .ofInt (a.toInt.tmod b.toInt) := by
    rw [← Int64.toInt_mod, Int64.ofInt_toInt]
  have hb : b = .ofInt b.toInt := b.ofInt_toInt.symm
  calc a / b * b + a % b
      = .ofInt (a.toInt.tdiv b.toInt) * .ofInt b.toInt + .ofInt (a.toInt.tmod b.toInt) := by
        rw [← hdiv, ← hmod, ← hb]
    _ = .ofInt (a.toInt.tdiv b.toInt * b.toInt + a.toInt.tmod b.toInt) := by
        rw [Int64.ofInt_add, Int64.ofInt_mul]
    _ = .ofInt a.toInt := by rw [Int.tdiv_mul_add_tmod]
    _ = a := a.ofInt_toInt

/-! ### Trees -/

namespace Expr

variable {l r : Expr} {op : BinaryOp} {e : ScopeId} {m : Machine}

/-- Does evaluating the tree fail for its numbers, with the machine left as it was? -/
def FailsArithmetically (t : Expr) (e : ScopeId) (m : Machine) : Prop :=
  ∃ f text, f.diagnostic = .arithmetic text ∧
    Ends (Gradual.eval t e).run m (.error (.failure f) m)

theorem Answers.ident (x : String) (e : ScopeId) (m : Machine) :
    (Expr.ident x).Answers e m (m.store.resolve e x) :=
  ⟨⟨1, rfl⟩, nofun⟩

/-- An operator between trees that answer ends as it does on the two values. -/
theorem Answers.ends_binary {v w : Value} (hl : l.Answers e m v) (hr : r.Answers e m w)
    {o : EStateM.Result Halt Machine Value} (hop : Run.ofExcept (op.apply v w) m = o)
    (ho : ∀ m', o ≠ .error .exhausted m') : Ends (Gradual.eval (.binary op l r) e).run m o := by
  apply (Gradual.same_node e (.binary op l r) m o).2
  apply Gradual.ends_bind_iff.2
  refine .inl ⟨v, m, hl, ?_⟩
  apply Gradual.ends_bind_iff.2
  exact .inl ⟨w, m, hr, ⟨0, hop⟩, ho⟩

variable {a b : Int64}

theorem Answers.binary (hl : l.Answers e m (.int a)) (hr : r.Answers e m (.int b)) {v : Value}
    (hop : op.compute a b = .ok v) : (Expr.binary op l r).Answers e m v := by
  refine hl.ends_binary hr ?_ nofun
  show Run.ofExcept (op.compute a b) m = _
  rw [hop]
  rfl

theorem Answers.binary_fails (hl : l.Answers e m (.int a)) (hr : r.Answers e m (.int b))
    {f : RuntimeError} {text : String} (hop : op.compute a b = .error f)
    (hf : f.diagnostic = .arithmetic text) : (Expr.binary op l r).FailsArithmetically e m := by
  refine ⟨f, text, hf, hl.ends_binary hr ?_ nofun⟩
  show Run.ofExcept (op.compute a b) m = _
  rw [hop]
  rfl

theorem Answers.not_fails {t : Expr} {v : Value} (h : t.Answers e m v) :
    ¬ t.FailsArithmetically e m := by
  rintro ⟨f, text, -, hfails⟩
  cases Gradual.ends_unique h hfails

/-- The quotient times the divisor and the remainder: `l / r * r + l % r`. -/
def recombined (l r : Expr) : Expr :=
  .binary .add (.binary .multiply (.binary .divide l r) r) (.binary .modulo l r)

end Expr

/-- Of two integers, however they are come by, neither quotient nor remainder can be taken just if
the divisor is zero. Else both can, the quotient is exact but for its fraction, the remainder is
less than the divisor and has the sign of the dividend, except that the least integer by minus one
is itself, without a remainder. And in every case the two give back the dividend. -/
theorem division_consistent {a b : Int64} {l r : Expr} {e : ScopeId} {m : Machine}
    (hl : l.Answers e m (.int a)) (hr : r.Answers e m (.int b)) :
    ((Expr.binary .divide l r).FailsArithmetically e m ↔ b = 0) ∧
      ((Expr.binary .modulo l r).FailsArithmetically e m ↔ b = 0) ∧
      (b ≠ 0 → ∃ quotient remainder, Divided a b quotient remainder ∧
        (Expr.binary .divide l r).Answers e m (.int quotient) ∧
        (Expr.binary .modulo l r).Answers e m (.int remainder) ∧
        (Expr.recombined l r).Answers e m (.int a)) := by
  have hquotient (hb : b ≠ 0) : (Expr.binary .divide l r).Answers e m (.int (a / b)) :=
    hl.binary hr (if_neg hb)
  have hremainder (hb : b ≠ 0) : (Expr.binary .modulo l r).Answers e m (.int (a % b)) :=
    hl.binary hr (if_neg hb)
  refine ⟨⟨fun hfails => ?_, fun hb => ?_⟩, ⟨fun hfails => ?_, fun hb => ?_⟩, fun hb => ?_⟩
  · by_contra hb
    exact (hquotient hb).not_fails hfails
  · exact hl.binary_fails hr (if_pos hb) rfl
  · by_contra hb
    exact (hremainder hb).not_fails hfails
  · exact hl.binary_fails hr (if_pos hb) rfl
  · refine ⟨a / b, a % b, divided_div_mod hb, hquotient hb, hremainder hb, ?_⟩
    have hproduct : (Expr.binary .multiply (.binary .divide l r) r).Answers e m
        (.int (a / b * b)) := (hquotient hb).binary hr rfl
    have hsum : (Expr.recombined l r).Answers e m (.int (a / b * b + a % b)) :=
      hproduct.binary (hremainder hb) rfl
    rwa [div_mul_add_mod] at hsum

/-- The least integer as `a` and minus one as `b`. -/
def leastByMinusOne : Machine :=
  ⟨(Store.initial.bind Store.globals "a" (.int Int64.minValue)).bind Store.globals "b" (.int (-1)),
    .unlimited⟩

/-- The quotient of the least integer and minus one wraps, and so does its product with the
divisor. -/
theorem division_consistent_least :
    Expr.ofSource "(a / b) * b + a % b;" = .ok (.recombined (.ident "a") (.ident "b")) ∧
      (Expr.recombined (.ident "a") (.ident "b")).Answers Store.globals leastByMinusOne
        (.int Int64.minValue) := by
  have hsource : Expr.ofSource "(a / b) * b + a % b;" =
      .ok (.recombined (.ident "a") (.ident "b")) :=
    Expr.ofSource_eq_ok_iff.2 ⟨[⟨.symbol .leftParen, "(", 1⟩, ⟨.identifier, "a", 1⟩,
      ⟨.symbol .slash, "/", 1⟩, ⟨.identifier, "b", 1⟩, ⟨.symbol .rightParen, ")", 1⟩,
      ⟨.symbol .star, "*", 1⟩, ⟨.identifier, "b", 1⟩, ⟨.symbol .plus, "+", 1⟩,
      ⟨.identifier, "a", 1⟩, ⟨.symbol .percent, "%", 1⟩, ⟨.identifier, "b", 1⟩,
      ⟨.symbol .semicolon, ";", 1⟩, ⟨.eof, "", 1⟩], by decide +kernel, rfl⟩
  have hglobals : Store.initial.Holds Store.globals := Nat.zero_lt_one
  let st := Store.initial.bind Store.globals "a" (.int Int64.minValue)
  have hst : st.Holds Store.globals := (Store.holds_bind _ _ _ _ _).2 hglobals
  have ha : leastByMinusOne.store.resolve Store.globals "a" = .int Int64.minValue := by
    apply Store.resolve_of_local
    show (st.bind Store.globals "b" (.int (-1))).local? Store.globals "a" = _
    rw [st.local?_bind_of_ne _ _ _ _ _ (by decide), Store.local?_bind _ _ _ _ _ _ hglobals]
    rfl
  have hb : leastByMinusOne.store.resolve Store.globals "b" = .int (-1) := by
    apply Store.resolve_of_local
    show (st.bind Store.globals "b" (.int (-1))).local? Store.globals "b" = _
    rw [st.local?_bind _ _ _ _ _ hst]
    rfl
  have hl := Expr.Answers.ident "a" Store.globals leastByMinusOne
  have hr := Expr.Answers.ident "b" Store.globals leastByMinusOne
  rw [ha] at hl
  rw [hb] at hr
  obtain ⟨_, _, -, -, -, hanswers⟩ := (division_consistent hl hr).2.2 (by decide)
  exact ⟨hsource, hanswers⟩

end Featherweight
