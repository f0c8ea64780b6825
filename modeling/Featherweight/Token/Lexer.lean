import Featherweight.Token.Basic

/-!
# The lexer

A program text is cut into lexemes from left to right, each as long as its first character allows
(`munch`), and what a lexeme is depends on the lexeme alone (`classify`): a token, a blank between
tokens, or a fault. `scan` lists the tokens and the faults in order and goes on after a fault, so it
always ends with the end of the input. A reader takes the same items one at a time (`advance`), and
has none left once it gave the end of the input. Lines are counted by the line feeds passed.
-/

namespace Featherweight

/-- What is wrong with a lexeme. -/
inductive LexFault where
  | unexpectedCharacter (c : Char)
  | integerOutOfRange (digits : String)
  deriving DecidableEq, Repr

/-- The wording of a fault. -/
def LexFault.message : LexFault → String
  | unexpectedCharacter c    => "Unexpected character: " ++ c.toString
  | integerOutOfRange digits => "Integer literal out of range: " ++ digits

/-- A fault and the line it stands on. -/
structure LexError where
  line : Nat
  fault : LexFault
  deriving DecidableEq, Repr

namespace Lexer

/-! ### Character classes -/

/-- Letters and the underscore begin a word. -/
def isWordStart (c : Char) : Bool := c.isAlpha || c == '_'

/-- Words go on with letters, digits and the underscore. -/
def isWordChar (c : Char) : Bool := c.isAlphanum || c == '_'

/-- The blanks between tokens. -/
def isBlank (c : Char) : Bool := c == ' ' || c == '\t' || c == '\r' || c == '\n'

/-- The symbols that an equals sign makes longer. -/
def takesEqual (c : Char) : Bool := c == '=' || c == '<' || c == '>'

/-! ### Cutting off a lexeme -/

/-- How many of the characters `cs` after `c` belong to the lexeme that begins with `c`: digits
after a digit, the rest of a word, a comment up to the end of its line, an equals sign after a
symbol that takes one. -/
def extent (c : Char) (cs : List Char) : Nat :=
  if c.isDigit then (cs.takeWhile Char.isDigit).length
  else if isWordStart c then (cs.takeWhile isWordChar).length
  else if c == '/' && cs.head? == some '/' then (cs.takeWhile (· != '\n')).length
  else if takesEqual c && cs.head? == some '=' then 1
  else 0

/-- The first lexeme of `c :: cs`, and what follows it. -/
def munch (c : Char) (cs : List Char) : List Char × List Char :=
  (c :: cs.take (extent c cs), cs.drop (extent c cs))

/-- Nothing is lost in cutting off a lexeme. -/
theorem munch_append (c : Char) (cs : List Char) : (munch c cs).1 ++ (munch c cs).2 = c :: cs := by
  simp [munch]

theorem length_munch_lt (c : Char) (cs : List Char) :
    (munch c cs).2.length < (c :: cs).length := by
  simp only [munch, List.length_drop, List.length_cons]
  omega

/-! ### What a lexeme is -/

/-- The meaning of a lexeme. -/
inductive Reading where
  | blank
  | token (kind : TokenKind)
  | fault (fault : LexFault)
  deriving DecidableEq, Repr

/-- The greatest integer of 64 bits with a sign. -/
def maxInt : Nat := 9223372036854775807

/-- A run of digits stands for its value if that is an integer of 64 bits. -/
def classifyDigits (ds : List Char) : Reading :=
  let value := Text.Decimal.toNat ds
  if value ≤ maxInt then .token (.int (Int64.ofNat value))
  else .fault (.integerOutOfRange (String.ofList ds))

/-- A word is a keyword or an identifier. -/
def classifyWord (cs : List Char) : Reading :=
  match Keyword.ofText? cs with
  | some k => .token (.keyword k)
  | none   => .token .identifier

/-- What the lexeme `c :: cs` is. -/
def classify (c : Char) (cs : List Char) : Reading :=
  if c.isDigit then classifyDigits (c :: cs)
  else if isWordStart c then classifyWord (c :: cs)
  else if isBlank c || (c == '/' && cs.head? == some '/') then .blank
  else match Symbol.ofText? (c :: cs) with
    | some s => .token (.symbol s)
    | none   => .fault (.unexpectedCharacter c)

/-! ### The whole text -/

/-- The tokens and faults of a text whose first line is numbered `line`. -/
def items (line : Nat) : List Char → List (Except LexError Token)
  | [] => [.ok ⟨.eof, "", line⟩]
  | c :: cs =>
    let lexeme := (munch c cs).1
    let rest := items (line + lexeme.count '\n') (munch c cs).2
    match classify c lexeme.tail with
    | .blank      => rest
    | .token kind => .ok ⟨kind, String.ofList lexeme, line⟩ :: rest
    | .fault f    => .error ⟨line, f⟩ :: rest
termination_by cs => cs.length
decreasing_by exact length_munch_lt c cs

/-! ### One item after another -/

/-- Where a reader of items stands: on which line, before what rest of the text. A reader that gave
the end of the input stands nowhere. -/
abbrev Cursor := Option (Nat × List Char)

/-- The next item, if there is one, and where the reader stands then. -/
def advance : Cursor → Option (Except LexError Token) × Cursor
  | none => (none, none)
  | some (line, []) => (some (.ok ⟨.eof, "", line⟩), none)
  | some (line, c :: cs) =>
    let lexeme := (munch c cs).1
    let rest := some (line + lexeme.count '\n', (munch c cs).2)
    match classify c lexeme.tail with
    | .blank      => advance rest
    | .token kind => (some (.ok ⟨kind, String.ofList lexeme, line⟩), rest)
    | .fault f    => (some (.error ⟨line, f⟩), rest)
termination_by cursor => (cursor.elim [] Prod.snd).length
decreasing_by exact length_munch_lt c cs

/-- The answer to being asked once more after `k` times. -/
def answer (cursor : Cursor) : Nat → Option (Except LexError Token)
  | 0     => (advance cursor).1
  | k + 1 => answer (advance cursor).2 k

end Lexer

/-- The tokens and faults of a program text, the end of the input last. -/
def scan (source : String) : List (Except LexError Token) := Lexer.items 1 source.toList

/-- The tokens of a program text, or its first fault. -/
def tokenize (source : String) : Except LexError (List Token) := (scan source).mapM id

end Featherweight
