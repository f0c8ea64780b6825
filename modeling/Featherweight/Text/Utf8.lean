/-!
# UTF-8

Bytes are read character by character. Where the bytes at hand are no character, what is wrong is
either *broken*, when some byte cannot stand where it stands, or *cut*, when the input ends inside a
character. `decode` gives the text of valid bytes and otherwise says where the first fault is;
`decodeLossy` puts U+FFFD in the place of each fault.
-/

namespace Featherweight.Text.Utf8

/-- What stands at the front of the bytes. -/
inductive Front where
  /-- A character of `length` bytes. -/
  | whole (length : Nat)
  /-- `length` bytes that begin no character, whatever follows the first `length` of them. -/
  | broken (length : Nat)
  /-- The beginning of a character whose other bytes are missing. -/
  | cut
  deriving DecidableEq, Repr

/-- How many bytes a character takes that begins with `b`, and the range its second byte is in. -/
def lead (b : UInt8) : Option (Nat × UInt8 × UInt8) :=
  if 0xc2 ≤ b ∧ b ≤ 0xdf then some (2, 0x80, 0xbf)
  else if b = 0xe0 then some (3, 0xa0, 0xbf)
  else if b = 0xed then some (3, 0x80, 0x9f)
  else if 0xe1 ≤ b ∧ b ≤ 0xef then some (3, 0x80, 0xbf)
  else if b = 0xf0 then some (4, 0x90, 0xbf)
  else if b = 0xf4 then some (4, 0x80, 0x8f)
  else if 0xf1 ≤ b ∧ b ≤ 0xf3 then some (4, 0x80, 0xbf)
  else none

/-- The front of a character of which `seen` bytes are read and `owed` are still to come, the next
one between `low` and `high` and the later ones between `80` and `BF`. -/
def continued (seen : Nat) (low high : UInt8) : Nat → List UInt8 → Front
  | 0, _ => .whole seen
  | _ + 1, [] => .cut
  | owed + 1, b :: bs =>
    if low ≤ b ∧ b ≤ high then continued (seen + 1) 0x80 0xbf owed bs else .broken seen

/-- What stands at the front of `b :: bs`. -/
def front (b : UInt8) (bs : List UInt8) : Front :=
  if b < 0x80 then .whole 1
  else match lead b with
    | some (length, low, high) => continued 1 low high (length - 1) bs
    | none => .broken 1

/-- The place of the first fault: the number of bytes before it, and its length if it is a broken
character and not a cut one. -/
structure Fault where
  index : Nat
  length : Option Nat
  deriving DecidableEq, Repr

/-- The wording of a fault. -/
def Fault.message (f : Fault) : String :=
  match f.length with
  | some k => s!"invalid utf-8 sequence of {k} bytes from index {f.index}"
  | none => s!"incomplete utf-8 byte sequence from index {f.index}"

/-- The first fault of `bs`, which begin at byte `index` of the input. -/
def firstFault (index : Nat) : List UInt8 → Option Fault
  | [] => none
  | b :: bs =>
    match front b bs with
    | .whole n => firstFault (index + n) (bs.drop (n - 1))
    | .broken n => some ⟨index, some n⟩
    | .cut => some ⟨index, none⟩
termination_by bs => bs.length
decreasing_by simp only [List.length_drop, List.length_cons]; omega

/-- The text that the bytes are, or the first fault. -/
def decode (bytes : ByteArray) : Except Fault String :=
  match firstFault 0 bytes.toList, String.fromUTF8? bytes with
  | some fault, _ => .error fault
  | none, some text => .ok text
  | none, none => .error ⟨bytes.size, none⟩

/-- The bytes with `EF BF BD`, which is U+FFFD, in the place of every fault. -/
def mend : List UInt8 → List UInt8
  | [] => []
  | b :: bs =>
    match front b bs with
    | .whole n => b :: bs.take (n - 1) ++ mend (bs.drop (n - 1))
    | .broken n => 0xef :: 0xbf :: 0xbd :: mend (bs.drop (n - 1))
    | .cut => [0xef, 0xbf, 0xbd]
termination_by bs => bs.length
decreasing_by all_goals simp only [List.length_drop, List.length_cons]; omega

/-- The text of bytes that need not be valid. -/
def decodeLossy (bytes : ByteArray) : String :=
  (String.fromUTF8? bytes).getD
    ((String.fromUTF8? ⟨(mend bytes.toList).toArray⟩).getD "")

end Featherweight.Text.Utf8
