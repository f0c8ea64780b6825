import Featherweight.Text.Extender
import Featherweight.Text.Ignorable
import Featherweight.Text.Invisible

/-!
# Quoted text

Two ways to put a text between double quotes on one line: as a JSON string, and as a name in a
message. Both write most characters as they are and spell out the others. A JSON string spells out
quotes, backslashes and the controls below U+0020; a name spells out whatever could not be seen or
would change the look of the character before it.
-/

namespace Featherweight.Text.Quoted

/-- The hexadecimal digits of `n` in lower case, as few as possible. -/
def hex (n : Nat) : List Char := Nat.toDigits 16 n

/-- A character inside a JSON string. Control characters without a short form take four
hexadecimal digits. -/
def jsonChar (c : Char) : List Char :=
  match c with
  | '"'    => ['\\', '"']
  | '\\'   => ['\\', '\\']
  | '\x08' => ['\\', 'b']
  | '\x0c' => ['\\', 'f']
  | '\n'   => ['\\', 'n']
  | '\r'   => ['\\', 'r']
  | '\t'   => ['\\', 't']
  | c =>
    if c.toNat < 0x20 then ['\\', 'u'] ++ (hex c.toNat).leftpad 4 '0' else [c]

/-- A character inside a quoted name. Invisible characters other than the space, ignorable ones, and
those that extend the character before them, are given by their code between braces unless they have
a short form. -/
def nameChar (c : Char) : List Char :=
  match c with
  | '"'    => ['\\', '"']
  | '\\'   => ['\\', '\\']
  | '\n'   => ['\\', 'n']
  | '\r'   => ['\\', 'r']
  | '\t'   => ['\\', 't']
  | '\x00' => ['\\', '0']
  | c =>
    if (c ≠ ' ' ∧ isInvisible c) ∨ isIgnorable c ∨ isExtender c then
      ['\\', 'u', '\x7b'] ++ hex c.toNat ++ ['\x7d']
    else [c]

/-- `cs` between double quotes, each character written by `char`. -/
def quote (char : Char → List Char) (cs : List Char) : List Char :=
  '"' :: cs.flatMap char ++ ['"']

/-- A text as a JSON string. -/
def json (s : String) : String := String.ofList (quote jsonChar s.toList)

/-- A text as a quoted name. -/
def name (s : String) : String := String.ofList (quote nameChar s.toList)

end Featherweight.Text.Quoted
