import Featherweight.Text.Utf8
import Mathlib.Data.List.Basic

/-!
# Decoding what was encoded

The bytes of a character stand at the front of any bytes that they begin
(`front_utf8EncodeChar`). So the bytes of a text have no fault, and decoding answers with a text
just for the bytes of that text (`decode_eq_ok_iff`).
-/

namespace Featherweight.Text.Utf8

/-! ### The bytes of a character -/

/-- May the byte stand after the second one of a character? -/
def IsLater (b : UInt8) : Prop := 0x80 ≤ b ∧ b ≤ 0xbf

/-- May a character of that many bytes begin with these two? -/
def Opens (length : Nat) (b b₁ : UInt8) : Prop :=
  ∃ low high, lead b = some (length, low, high) ∧ low ≤ b₁ ∧ b₁ ≤ high

/-- Later bytes are read up to the end of the character. -/
theorem continued_append {bs : List UInt8} (h : ∀ b ∈ bs, IsLater b) (seen : Nat)
    (rest : List UInt8) :
    continued seen 0x80 0xbf bs.length (bs ++ rest) = .whole (seen + bs.length) := by
  induction bs generalizing seen with
  | nil => rfl
  | cons b bs ih =>
    have hb : (0x80 : UInt8) ≤ b ∧ b ≤ 0xbf := h b List.mem_cons_self
    rw [List.cons_append, List.length_cons, continued, if_pos hb,
      ih (fun d hd => h d (List.mem_cons_of_mem b hd))]
    congr 1
    omega

/-- The first two bytes say how many there are. -/
theorem front_of_opens {b b₁ : UInt8} {bs : List UInt8} (hb : ¬ b < 0x80)
    (hopens : Opens (bs.length + 2) b b₁) (h : ∀ d ∈ bs, IsLater d) (rest : List UInt8) :
    front b (b₁ :: bs ++ rest) = .whole (bs.length + 2) := by
  obtain ⟨low, high, hlead, h₁⟩ := hopens
  rw [front, if_neg hb, hlead]
  show continued 1 low high (bs.length + 1) (b₁ :: (bs ++ rest)) = _
  rw [continued, if_pos h₁, continued_append h]
  congr 1
  omega

/-- The bytes of a character are compared by their values. -/
theorem lead_eq (b : UInt8) : lead b =
    if 0xc2 ≤ b.toNat ∧ b.toNat ≤ 0xdf then some (2, 0x80, 0xbf)
    else if b.toNat = 0xe0 then some (3, 0xa0, 0xbf)
    else if b.toNat = 0xed then some (3, 0x80, 0x9f)
    else if 0xe1 ≤ b.toNat ∧ b.toNat ≤ 0xef then some (3, 0x80, 0xbf)
    else if b.toNat = 0xf0 then some (4, 0x90, 0xbf)
    else if b.toNat = 0xf4 then some (4, 0x80, 0x8f)
    else if 0xf1 ≤ b.toNat ∧ b.toNat ≤ 0xf3 then some (4, 0x80, 0xbf)
    else none := by
  simp only [lead, UInt8.le_iff_toNat_le, ← UInt8.toNat_inj, UInt8.reduceToNat]

section

variable {b b₁ : UInt8}

theorem opens_two (hb : 0xc2 ≤ b.toNat ∧ b.toNat ≤ 0xdf) (h₁ : IsLater b₁) : Opens 2 b b₁ :=
  ⟨0x80, 0xbf, by rw [lead_eq, if_pos hb], h₁⟩

theorem opens_three (hb : 0xe0 ≤ b.toNat ∧ b.toNat ≤ 0xef) (h₁ : IsLater b₁)
    (hlow : b.toNat = 0xe0 → 0xa0 ≤ b₁.toNat) (hhigh : b.toNat = 0xed → b₁.toNat ≤ 0x9f) :
    Opens 3 b b₁ := by
  rw [Opens, lead_eq, if_neg (by omega)]
  split
  · exact ⟨_, _, rfl, UInt8.le_iff_toNat_le.2 (hlow ‹_›), h₁.2⟩
  split
  · exact ⟨_, _, rfl, h₁.1, UInt8.le_iff_toNat_le.2 (hhigh ‹_›)⟩
  rw [if_pos (by omega)]
  exact ⟨_, _, rfl, h₁⟩

theorem opens_four (hb : 0xf0 ≤ b.toNat ∧ b.toNat ≤ 0xf4) (h₁ : IsLater b₁)
    (hlow : b.toNat = 0xf0 → 0x90 ≤ b₁.toNat) (hhigh : b.toNat = 0xf4 → b₁.toNat ≤ 0x8f) :
    Opens 4 b b₁ := by
  rw [Opens, lead_eq, if_neg (by omega), if_neg (by omega), if_neg (by omega), if_neg (by omega)]
  split
  · exact ⟨_, _, rfl, UInt8.le_iff_toNat_le.2 (hlow ‹_›), h₁.2⟩
  split
  · exact ⟨_, _, rfl, h₁.1, UInt8.le_iff_toNat_le.2 (hhigh ‹_›)⟩
  rw [if_pos (by omega)]
  exact ⟨_, _, rfl, h₁⟩

end

theorem toNat_ofNat {k : Nat} (hk : k < 256) : (UInt8.ofNat k).toNat = k :=
  UInt8.toNat_ofNat_of_lt' hk

theorem isLater_ofNat (k : Nat) : IsLater (UInt8.ofNat (k % 64 + 128)) := by
  rw [IsLater, UInt8.le_iff_toNat_le, UInt8.le_iff_toNat_le, toNat_ofNat (by omega)]
  simp only [UInt8.reduceToNat]
  omega

theorem not_ofNat_lt {k : Nat} (hk : k < 256) (h : 0x80 ≤ k) : ¬ UInt8.ofNat k < 0x80 := by
  rw [UInt8.lt_iff_toNat_lt, toNat_ofNat hk]
  simp only [UInt8.reduceToNat]
  omega

/-- The bytes of a character stand at the front of whatever they begin. -/
theorem front_utf8EncodeChar (c : Char) :
    ∃ b bs, String.utf8EncodeChar c = b :: bs ∧
      ∀ rest, front b (bs ++ rest) = .whole (bs.length + 1) := by
  -- No character lies in the gap that `ED` leaves out, or above what `F4` reaches.
  have hvalid : c.val.toNat < 0xd800 ∨ 0xdfff < c.val.toNat ∧ c.val.toNat < 0x110000 := c.valid
  unfold String.utf8EncodeChar
  generalize c.val.toNat = v at hvalid
  dsimp only
  split
  · refine ⟨_, _, rfl, fun rest => ?_⟩
    rw [front, if_pos]
    · rfl
    · rw [UInt8.lt_iff_toNat_lt, toNat_ofNat (by omega)]
      simp only [UInt8.reduceToNat]
      omega
  split
  · have hb : (UInt8.ofNat (v / 64 % 32 + 192)).toNat = v / 64 % 32 + 192 := toNat_ofNat (by omega)
    refine ⟨_, _, rfl, front_of_opens (not_ofNat_lt (by omega) (by omega)) ?_ nofun⟩
    exact opens_two (by omega) (isLater_ofNat _)
  split
  · have hb : (UInt8.ofNat (v / 4096 % 16 + 224)).toNat = v / 4096 % 16 + 224 :=
      toNat_ofNat (by omega)
    have hb₁ : (UInt8.ofNat (v / 64 % 64 + 128)).toNat = v / 64 % 64 + 128 :=
      toNat_ofNat (by omega)
    refine ⟨_, _, rfl, front_of_opens (not_ofNat_lt (by omega) (by omega)) ?_ ?_⟩
    · exact opens_three (by omega) (isLater_ofNat _) (by omega) (by omega)
    · exact List.forall_mem_singleton.2 (isLater_ofNat _)
  · have hb : (UInt8.ofNat (v / 262144 % 8 + 240)).toNat = v / 262144 % 8 + 240 :=
      toNat_ofNat (by omega)
    have hb₁ : (UInt8.ofNat (v / 4096 % 64 + 128)).toNat = v / 4096 % 64 + 128 :=
      toNat_ofNat (by omega)
    refine ⟨_, _, rfl, front_of_opens (not_ofNat_lt (by omega) (by omega)) ?_ ?_⟩
    · exact opens_four (by omega) (isLater_ofNat _) (by omega) (by omega)
    · exact List.forall_mem_cons.2 ⟨isLater_ofNat _, List.forall_mem_singleton.2 (isLater_ofNat _)⟩

/-! ### Texts -/

theorem firstFault_flatMap (index : Nat) (cs : List Char) :
    firstFault index (cs.flatMap String.utf8EncodeChar) = none := by
  induction cs generalizing index with
  | nil => rw [List.flatMap_nil, firstFault]
  | cons c cs ih =>
    obtain ⟨b, bs, hc, hfront⟩ := front_utf8EncodeChar c
    rw [List.flatMap_cons, hc, List.cons_append, firstFault, hfront]
    show firstFault (index + (bs.length + 1)) ((bs ++ _).drop bs.length) = none
    rw [List.drop_left]
    exact ih _

theorem toList_loop (bytes : ByteArray) (i : Nat) (seen : List UInt8) :
    ByteArray.toList.loop bytes i seen = seen.reverse ++ bytes.data.toList.drop i := by
  fun_induction ByteArray.toList.loop bytes i seen with
  | case1 i seen hlt ih =>
    have hget : bytes.get! i = bytes.data[i]! := by cases bytes; rfl
    rw [ih, List.drop_eq_getElem_cons (i := i) (by simpa using hlt), hget,
      getElem!_pos bytes.data i hlt, List.reverse_cons, List.append_assoc]
    rfl
  | case2 i seen hge =>
    rw [List.drop_eq_nil_of_le (by simpa using Nat.le_of_not_lt hge), List.append_nil]

theorem toList_toByteArray (bs : List UInt8) : bs.toByteArray.toList = bs := by
  rw [ByteArray.toList, toList_loop, List.data_toByteArray, List.drop_zero]
  rfl

theorem toList_toUTF8 (source : String) :
    source.toUTF8.toList = source.toList.flatMap String.utf8EncodeChar := by
  rw [String.toUTF8, ← String.utf8Encode_toList, List.utf8Encode, toList_toByteArray]

/-- Decoding answers with a text just for the bytes of that text. -/
theorem decode_eq_ok_iff {bytes : ByteArray} {source : String} :
    decode bytes = .ok source ↔ bytes = source.toUTF8 := by
  constructor
  · intro h
    unfold decode at h
    split at h
    · cases h
    · next text _ htext =>
      cases h
      unfold String.fromUTF8? at htext
      split at htext
      · cases htext
        rfl
      · cases htext
    · cases h
  · rintro rfl
    have hutf8 : String.fromUTF8? source.toUTF8 = some source := dif_pos source.isValidUTF8
    rw [decode, toList_toUTF8, firstFault_flatMap, hutf8]

end Featherweight.Text.Utf8
