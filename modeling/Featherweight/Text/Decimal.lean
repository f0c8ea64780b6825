/-!
# Decimal numbers

Numbers are written in base ten without leading zeros, negative ones after a minus sign. Reading a
run of digits gives back the number written (`toNat_digits`), and zeros in front do not change it
(`toNat_replicate_zero`).
-/

namespace Featherweight.Text.Decimal

/-- The digits of `n`, most significant first. -/
def digits (n : Nat) : List Char := Nat.toDigits 10 n

/-- The number that a run of digits stands for. -/
def toNat (ds : List Char) : Nat := Nat.ofDigitChars 10 ds 0

/-- The text of an integer. -/
def ofInt (i : Int) : String :=
  String.ofList (if i < 0 then '-' :: digits i.natAbs else digits i.natAbs)

@[simp] theorem toNat_digits (n : Nat) : toNat (digits n) = n := by
  simp [toNat, digits]

@[simp] theorem toNat_replicate_zero (k : Nat) (ds : List Char) :
    toNat (List.replicate k '0' ++ ds) = toNat ds := by
  simp [toNat, Nat.ofDigitChars_append]

theorem isDigit_of_mem_digits {n : Nat} {c : Char} (h : c ∈ digits n) : c.isDigit = true :=
  Nat.isDigit_of_mem_toDigits (by decide) (by decide) h

end Featherweight.Text.Decimal
