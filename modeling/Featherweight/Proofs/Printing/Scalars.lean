import Featherweight.Proofs.Evaluation.Arithmetic
import Featherweight.Proofs.Evaluation.Ending
import Featherweight.Proofs.Scanning.Layout

/-!
# Printed values read back

The text of an integer, a truth value or `null`, with a semicolon after it, is a program that
evaluates to this value (`ReadsBack`). The sign of a negative integer is a token of its own, and
stands for a subtraction from zero, so the digits must stand for an integer by themselves. Those of
the least integer do not: it is the one value with a text that is refused.

Zeros in front of the digits make no difference (`withZeros`).
-/

namespace Featherweight

open Text.Decimal

/-- The text of an integer with `k` zeros in front of its digits, after its sign. -/
def withZeros (k : Nat) (text : String) : String :=
  match text.toList with
  | '-' :: ds => String.ofList ('-' :: (List.replicate k '0' ++ ds))
  | ds        => String.ofList (List.replicate k '0' ++ ds)

/-- Is the text a program that evaluates to the value in every scope, without doing anything
else? -/
def ReadsBack (source : String) (v : Value) : Prop :=
  (∃ ts, tokenize source = .ok ts) ∧
    ∃ t, Expr.ofSource source = .ok t ∧ ∀ e m, t.Answers e m v

/-! ### Digits -/

/-- The digits of a number with zeros in front. -/
def zerosDigits (k n : Nat) : List Char := List.replicate k '0' ++ digits n

theorem toNat_zerosDigits (k n : Nat) : toNat (zerosDigits k n) = n := by
  rw [zerosDigits, toNat_replicate_zero, toNat_digits]

theorem zerosDigits_ne_nil (k n : Nat) : zerosDigits k n ≠ [] := by
  intro h
  exact Nat.toDigits_ne_nil (List.append_eq_nil_iff.1 h).2

theorem isDigit_of_mem_zerosDigits {k n : Nat} {c : Char} (h : c ∈ zerosDigits k n) :
    c.isDigit = true := by
  rcases List.mem_append.1 h with hzero | hdigit
  · rw [List.eq_of_mem_replicate hzero]
    decide
  · exact isDigit_of_mem_digits hdigit

/-- The text of an integer that is not negative has no sign in front of the digits. -/
theorem toList_withZeros_of_nonneg (k : Nat) {i : Int} (hi : 0 ≤ i) :
    (withZeros k (ofInt i)).toList = zerosDigits k i.natAbs := by
  have htext : (ofInt i).toList = digits i.natAbs := by
    rw [ofInt, if_neg (not_lt.2 hi), String.toList_ofList]
  unfold withZeros
  rw [htext]
  split
  · next ds hds =>
    have hminus : '-' ∈ digits i.natAbs := hds ▸ List.mem_cons_self
    exact absurd (isDigit_of_mem_digits hminus) (by decide)
  · exact String.toList_ofList

theorem toList_withZeros_of_neg (k : Nat) {i : Int} (hi : i < 0) :
    (withZeros k (ofInt i)).toList = '-' :: zerosDigits k i.natAbs := by
  have htext : (ofInt i).toList = '-' :: digits i.natAbs := by
    rw [ofInt, if_pos hi, String.toList_ofList]
  unfold withZeros
  rw [htext]
  exact String.toList_ofList

theorem withZeros_zero (i : Int) : withZeros 0 (ofInt i) = ofInt i := by
  unfold withZeros
  split
  · next ds hds => rw [List.replicate_zero, List.nil_append, ← hds, String.ofList_toList]
  · rw [List.replicate_zero, List.nil_append, String.ofList_toList]

/-! ### Tokens -/

namespace Lexer

theorem items_semicolon (line : Nat) :
    items line [';'] = [.ok ⟨.symbol .semicolon, ";", line⟩, .ok ⟨.eof, "", line⟩] := by
  have hends : EndsBefore (goesOn (.symbol .semicolon)) [] := nofun
  have hsemicolon := items_append_of_denotes (.symbol .semicolon) hends line
  rw [items_nil] at hsemicolon
  exact hsemicolon

theorem items_minus {cs : List Char} (line : Nat) :
    items line ('-' :: cs) = .ok ⟨.symbol .minus, "-", line⟩ :: items line cs :=
  items_append_of_denotes (.symbol .minus) (fun _ _ => rfl) line

/-- Digits for an integer of 64 bits are one token, whatever zeros stand in front. -/
theorem items_zerosDigits {n : Int64} (hn : 0 ≤ n.toInt) (k line : Nat) :
    items line (zerosDigits k n.toInt.natAbs ++ [';']) =
      [.ok ⟨.int n, String.ofList (zerosDigits k n.toInt.natAbs), line⟩,
        .ok ⟨.symbol .semicolon, ";", line⟩, .ok ⟨.eof, "", line⟩] := by
  have hdenotes : Denotes (zerosDigits k n.toInt.natAbs) (.int n) := by
    refine .int (zerosDigits_ne_nil _ _) (fun _ => isDigit_of_mem_zerosDigits) ?_
    show n.toInt = toNat (zerosDigits k n.toInt.natAbs)
    rw [toNat_zerosDigits, Int.natAbs_of_nonneg hn]
  have hends : EndsBefore (goesOn (.int n)) [';'] := by
    intro c hc
    obtain rfl := Option.some.inj hc
    rfl
  rw [items_append_of_denotes hdenotes hends, items_semicolon]

/-- Digits for more than 64 bits are a fault, whatever zeros stand in front. -/
theorem items_zerosDigits_of_lt {n : Nat} (hn : maxInt < n) (k line : Nat) :
    ∃ rest, items line (zerosDigits k n ++ [';']) =
      .error ⟨line, .integerOutOfRange (String.ofList (zerosDigits k n))⟩ :: rest := by
  have hends : EndsBefore Char.isDigit [';'] := by
    intro c hc
    obtain rfl := Option.some.inj hc
    rfl
  have hvalue : maxInt < toNat (zerosDigits k n) := by rwa [toNat_zerosDigits]
  have hcut := cutsOff_outOfRange (zerosDigits_ne_nil k n) (fun _ => isDigit_of_mem_zerosDigits)
    hends hvalue
  exact ⟨_, items_append_of_fault hcut⟩

end Lexer

/-! ### Values -/

/-- A text that is an integer expression reads back the integer that is its value. -/
theorem readsBack_of_reckons {source : String} {us : List Token} {s eof : Token} {n : Int64}
    (hsource : tokenize source = .ok (us ++ [s, eof])) (hs : s.kind = .symbol .semicolon)
    (h : Reckons .sum us n.toInt) : ReadsBack source (.int n) := by
  obtain ⟨t, ht, harith⟩ := exists_ofSource_of_reckons hsource hs h
  obtain ⟨depth, heval⟩ := harith.eval_eq
  refine ⟨⟨_, hsource⟩, t, ht, fun e m => ⟨⟨depth, ?_⟩, nofun⟩⟩
  show eval depth t e m = _
  rw [heval depth le_rfl e, Int64.ofInt_toInt]
  rfl

theorem toInt_neg_of_ne {n : Int64} (hn : n ≠ Int64.minValue) : (-n).toInt = -n.toInt := by
  have hne : n.toInt ≠ -2 ^ 63 := fun h => hn (Int64.toInt_inj.1 h)
  have hle := n.le_toInt
  have hlt := n.toInt_lt
  rw [Int64.toInt_neg]
  exact Int.bmod_eq_of_le (by omega) (by omega)

theorem readsBack_int {n : Int64} (hn : n ≠ Int64.minValue) (k : Nat) :
    ReadsBack (withZeros k (Value.int n).render ++ ";") (.int n) := by
  have htext : (withZeros k (Value.int n).render ++ ";").toList =
      (withZeros k (ofInt n.toInt)).toList ++ [';'] := String.toList_append
  rcases le_or_gt 0 n.toInt with hpos | hneg
  · have htokens : tokenize (withZeros k (Value.int n).render ++ ";") =
        .ok ([⟨.int n, String.ofList (zerosDigits k n.toInt.natAbs), 1⟩] ++
          [⟨.symbol .semicolon, ";", 1⟩, ⟨.eof, "", 1⟩]) := by
      rw [tokenize_eq_ok_iff, htext, toList_withZeros_of_nonneg k hpos,
        Lexer.items_zerosDigits hpos]
      rfl
    exact readsBack_of_reckons htokens rfl (.product (.unary (.primary (.literal rfl))))
  · -- The digits are those of the opposite integer, which is one of 64 bits.
    have hnegate := toInt_neg_of_ne hn
    have hopposite : 0 ≤ (-n).toInt := by omega
    have habs : n.toInt.natAbs = (-n).toInt.natAbs := by rw [hnegate, Int.natAbs_neg]
    have htokens : tokenize (withZeros k (Value.int n).render ++ ";") =
        .ok ([⟨.symbol .minus, "-", 1⟩,
          ⟨.int (-n), String.ofList (zerosDigits k (-n).toInt.natAbs), 1⟩] ++
          [⟨.symbol .semicolon, ";", 1⟩, ⟨.eof, "", 1⟩]) := by
      rw [tokenize_eq_ok_iff, htext, toList_withZeros_of_neg k hneg, habs, List.cons_append,
        Lexer.items_minus, Lexer.items_zerosDigits hopposite]
      rfl
    have hreckons := Reckons.minus (o := ⟨.symbol .minus, "-", 1⟩) rfl (.primary (.literal
      (t := ⟨.int (-n), String.ofList (zerosDigits k (-n).toInt.natAbs), 1⟩) rfl))
    have hvalue : -(-n).toInt = n.toInt := by rw [hnegate, neg_neg]
    rw [hvalue] at hreckons
    exact readsBack_of_reckons htokens rfl (.product (.unary hreckons))

/-- What is wrong with the digits of the least integer, with `k` zeros in front. -/
def leastDigitsFault (k : Nat) : LexError :=
  ⟨1, .integerOutOfRange (String.ofList (List.replicate k '0') ++ "9223372036854775808")⟩

theorem tokenize_minValue (k : Nat) :
    tokenize (withZeros k (Value.int Int64.minValue).render ++ ";") =
      .error (leastDigitsFault k) := by
  have hdigits : digits Int64.minValue.toInt.natAbs = "9223372036854775808".toList := by
    decide +kernel
  have htext : (withZeros k (Value.int Int64.minValue).render ++ ";").toList =
      (withZeros k (ofInt Int64.minValue.toInt)).toList ++ [';'] := String.toList_append
  obtain ⟨rest, hrest⟩ := Lexer.items_zerosDigits_of_lt (n := Int64.minValue.toInt.natAbs)
    (by decide) k 1
  unfold tokenize scan
  rw [htext, toList_withZeros_of_neg k (by decide), List.cons_append, Lexer.items_minus, hrest,
    zerosDigits, hdigits, String.ofList_append, String.ofList_toList]
  rfl

theorem ofSource_of_tokenize_eq_error {source : String} {e : LexError}
    (h : tokenize source = .error e) : Expr.ofSource source = .error (.lexical e) := by
  unfold Expr.ofSource
  rw [h]
  rfl

/-- A text whose tokens stand for a literal reads back its value. -/
theorem readsBack_of_literal {source : String} {v : Value} (ts : List Token)
    (hsource : Lexer.items 1 source.toList = ts.map .ok)
    (hts : Expr.ofTokens ts = .ok (.literal v)) : ReadsBack source v :=
  ⟨⟨ts, tokenize_eq_ok_iff.2 hsource⟩, _, Expr.ofSource_eq_ok_iff.2 ⟨ts, hsource, hts⟩,
    fun e m => .literal v e m⟩

/-- The text of a value with a semicolon after it is a program that evaluates to the value, unless
it is a closure or the least integer. The text of the least integer is refused for its digits. For
integers both stay so with zeros in front of the digits. -/
theorem scalars_read_back :
    (∀ v : Value, v.kind ≠ .closure → v ≠ .int Int64.minValue → ReadsBack (v.render ++ ";") v) ∧
      (∀ n : Int64, n ≠ Int64.minValue → ∀ k,
        ReadsBack (withZeros k (Value.int n).render ++ ";") (.int n)) ∧
      (∀ k, tokenize (withZeros k (Value.int Int64.minValue).render ++ ";") =
          .error (leastDigitsFault k) ∧
        Expr.ofSource (withZeros k (Value.int Int64.minValue).render ++ ";") =
          .error (.lexical (leastDigitsFault k))) ∧
      ∀ n : Int64, withZeros 0 (Value.int n).render = (Value.int n).render := by
  refine ⟨fun v hkind hv => ?_, fun n hn k => readsBack_int hn k, fun k => ?_,
    fun n => withZeros_zero n.toInt⟩
  · cases v with
    | int n =>
      have hn : n ≠ Int64.minValue := fun h => hv (congrArg Value.int h)
      have hread := readsBack_int hn 0
      rwa [Value.render, withZeros_zero] at hread
    | bool b =>
      cases b with
      | true =>
        exact readsBack_of_literal [⟨.keyword .trueWord, "true", 1⟩,
          ⟨.symbol .semicolon, ";", 1⟩, ⟨.eof, "", 1⟩] (by decide +kernel) rfl
      | false =>
        exact readsBack_of_literal [⟨.keyword .falseWord, "false", 1⟩,
          ⟨.symbol .semicolon, ";", 1⟩, ⟨.eof, "", 1⟩] (by decide +kernel) rfl
    | null =>
      exact readsBack_of_literal [⟨.keyword .nullWord, "null", 1⟩,
        ⟨.symbol .semicolon, ";", 1⟩, ⟨.eof, "", 1⟩] (by decide +kernel) rfl
    | closure c => exact absurd rfl hkind
  · have htokens := tokenize_minValue k
    exact ⟨htokens, ofSource_of_tokenize_eq_error htokens⟩

/-- The integer next to the least one can be read with zeros after its sign. -/
theorem scalars_read_back_nextToLeast :
    ReadsBack "-009223372036854775807;" (.int (-9223372036854775807)) ∧
      ReadsBack "null;" .null := by
  have htext : withZeros 2 (Value.int (-9223372036854775807)).render ++ ";" =
      "-009223372036854775807;" := by decide +kernel
  refine ⟨?_, scalars_read_back.1 .null (by decide) nofun⟩
  rw [← htext]
  exact scalars_read_back.2.1 _ (by decide) 2

end Featherweight
