import Featherweight.Proofs.Scanning.Items
import Mathlib.Algebra.Group.Nat.Defs

/-!
# Tilings

A text is tiled by what is skipped and by what an item comes from: blanks and comments on one side
(`Skipped`), lexemes on the other, each of which a token or a fault comes from and cannot be made
longer (`Yields`). Every text has such a tiling (`exists_tiling`), and it fixes the items of the
text (`Tiling.items_eq`).

Where a tile begins and ends is counted in bytes (`Span`), from the characters before and in it.
Digits stand for what they write in base ten if that is an integer of 64 bits, which is how the
lexer takes them (`classifyDigits_eq`).
-/

namespace Featherweight.Lexer

/-! ### Pieces of a text -/

/-- A blank or a comment, with what follows it. A comment goes on up to the next line feed or the
end of the text. -/
inductive Skippable : List Char → List Char → Prop
  | blank {c : Char} {after : List Char} (hc : isBlank c = true) : Skippable [c] after
  | comment {text after : List Char} (htext : '\n' ∉ text) (hafter : ∀ c ∈ after.head?, c = '\n') :
      Skippable ('/' :: '/' :: text) after

/-- Blanks and comments, with what follows them. -/
inductive Skipped : List Char → List Char → Prop
  | nil {after : List Char} : Skipped [] after
  | cons {us vs after : List Char} (hus : Skippable us (vs ++ after)) (hvs : Skipped vs after) :
      Skipped (us ++ vs) after

/-- What a lexeme means. -/
inductive Denotes : List Char → TokenKind → Prop
  | symbol (s : Symbol) : Denotes s.text.toList (.symbol s)
  | keyword (k : Keyword) : Denotes k.text.toList (.keyword k)
  | identifier {c : Char} {cs : List Char} (hc : isWordStart c = true)
      (hcs : ∀ d ∈ cs, isWordChar d = true) (hword : ∀ k : Keyword, k.text.toList ≠ c :: cs) :
      Denotes (c :: cs) .identifier
  | int {ds : List Char} {n : Int64} (hne : ds ≠ []) (hds : ∀ d ∈ ds, d.isDigit = true)
      (hn : n.toInt = Nat.ofDigitChars 10 ds 0) : Denotes ds (.int n)

/-- Would the character make a lexeme of that kind longer? -/
def goesOn : TokenKind → Char → Bool
  | .symbol .equal, c | .symbol .less, c | .symbol .greater, c => c == '='
  | .symbol .slash, c                                          => c == '/'
  | .symbol _, _                                               => false
  | .keyword _, c | .identifier, c                             => isWordChar c
  | .int _, c                                                  => c.isDigit
  | .eof, _                                                    => false

/-- Is the next character none that satisfies `p`? -/
def EndsBefore (p : Char → Bool) (after : List Char) : Prop := ∀ c ∈ after.head?, p c = false

/-- No token, blank or comment begins with the character. -/
structure BeginsNothing (c : Char) : Prop where
  digit : c.isDigit = false
  word : isWordStart c = false
  blank : isBlank c = false
  symbol : ∀ s : Symbol, s.text.toList.head? ≠ some c

/-- The line that a text has come to. -/
def lineAfter (cs : List Char) : Nat := 1 + cs.count '\n'

/-- The item that a lexeme yields, with what stands before and after it. Digits that stand for no
integer of 64 bits are all digits there are at that place. -/
inductive Yields (before : List Char) :
    List Char → List Char → Except LexError Token → Prop
  | token {lexeme after : List Char} {kind : TokenKind} (hkind : Denotes lexeme kind)
      (hafter : EndsBefore (goesOn kind) after) :
      Yields before lexeme after (.ok ⟨kind, String.ofList lexeme, lineAfter before⟩)
  | outOfRange {ds after : List Char} (hne : ds ≠ []) (hds : ∀ d ∈ ds, d.isDigit = true)
      (hbefore : ∀ d ∈ before.getLast?, d.isDigit = false)
      (hafter : EndsBefore Char.isDigit after) (hvalue : 2 ^ 63 - 1 < Nat.ofDigitChars 10 ds 0) :
      Yields before ds after
        (.error ⟨lineAfter before, .integerOutOfRange (String.ofList ds)⟩)
  | unexpected {c : Char} {after : List Char} (hc : BeginsNothing c) :
      Yields before [c] after (.error ⟨lineAfter before, .unexpectedCharacter c⟩)

/-! ### Tilings -/

/-- A stretch of a text, from one byte up to another. -/
structure Span where
  start : String.Pos.Raw
  stop : String.Pos.Raw

/-- The byte at which a text ends that begins like that. -/
def endOf (cs : List Char) : String.Pos.Raw := (String.ofList cs).rawEndPos

/-- The tiles of the rest of a text after `before`: each item with the bytes it comes from. All
other characters are skipped. -/
inductive Tiling : List Char → List Char → List (Span × Except LexError Token) → Prop
  | done {before gap : List Char} (hgap : Skipped gap []) : Tiling before gap []
  | tile {before gap lexeme after : List Char} {item : Except LexError Token}
      {tiles : List (Span × Except LexError Token)} (hgap : Skipped gap (lexeme ++ after))
      (hitem : Yields (before ++ gap) lexeme after item)
      (htiles : Tiling (before ++ gap ++ lexeme) after tiles) :
      Tiling before (gap ++ (lexeme ++ after))
        ((⟨endOf (before ++ gap), endOf (before ++ gap ++ lexeme)⟩, item) :: tiles)

/-! ### Character classes -/

theorem isDigit_eq_false_of_isWordStart {c : Char} (h : isWordStart c = true) :
    c.isDigit = false := by
  have hletter : c.isUpper = true ∨ c.isLower = true ∨ c = '_' := by
    rcases Bool.or_eq_true_iff.1 h with h | h
    · exact (Bool.or_eq_true_iff.1 h).imp_right .inl
    · exact .inr (.inr (eq_of_beq h))
  have hnine : ¬ c.val ≤ '9'.val := by
    rcases hletter with h | h | rfl
    · have hle : 'A'.val ≤ c.val := (of_decide_eq_true h).1
      exact UInt32.not_le.2 (UInt32.lt_of_lt_of_le (by decide) hle)
    · have hle : 'a'.val ≤ c.val := of_decide_eq_true (Bool.and_eq_true_iff.1 h).1
      exact UInt32.not_le.2 (UInt32.lt_of_lt_of_le (by decide) hle)
    · decide
  unfold Char.isDigit
  rw [decide_eq_false hnine, Bool.and_false]

theorem isWordChar_of_isDigit {c : Char} (h : c.isDigit = true) : isWordChar c = true := by
  simp [isWordChar, Char.isAlphanum, h]

theorem isBlank_iff {c : Char} : isBlank c = true ↔ c = ' ' ∨ c = '\t' ∨ c = '\r' ∨ c = '\n' := by
  simp [isBlank, or_assoc]

theorem not_isDigit_isWordStart_of_isBlank {c : Char} (h : isBlank c = true) :
    c.isDigit = false ∧ isWordStart c = false := by
  rcases isBlank_iff.1 h with rfl | rfl | rfl | rfl <;> decide

theorem takeWhile_append_of_endsBefore {p : Char → Bool} {us after : List Char}
    (hus : ∀ c ∈ us, p c = true) (hafter : EndsBefore p after) :
    (us ++ after).takeWhile p = us := by
  rw [List.takeWhile_append_of_pos hus]
  cases after with
  | nil => simp
  | cons c after =>
    have hc : p c = false := hafter c rfl
    simp [hc]

theorem endsBefore_dropWhile (p : Char → Bool) (cs : List Char) :
    EndsBefore p (cs.dropWhile p) := by
  intro c hc
  have hnot := List.head?_dropWhile_not p cs
  rw [Option.mem_def.1 hc] at hnot
  exact hnot

theorem Denotes.ne_eof {lexeme : List Char} {kind : TokenKind} (h : Denotes lexeme kind) :
    kind ≠ .eof := by
  cases h <;> exact nofun

theorem isWordChar_newline : isWordChar '\n' = false := by decide

/-- A lexeme stands on one line. -/
theorem Denotes.newline_notMem {lexeme : List Char} {kind : TokenKind}
    (h : Denotes lexeme kind) : '\n' ∉ lexeme := by
  have hword {cs : List Char} (hcs : ∀ d ∈ cs, isWordChar d = true) : '\n' ∉ cs := by
    intro hmem
    have hnewline := hcs _ hmem
    rw [isWordChar_newline] at hnewline
    cases hnewline
  cases h with
  | symbol s => cases s <;> decide
  | keyword k => cases k <;> decide
  | identifier hc hcs _ =>
    rw [List.mem_cons, not_or]
    refine ⟨?_, hword hcs⟩
    rintro rfl
    cases hc
  | int _ hds _ => exact hword fun d hd => isWordChar_of_isDigit (hds d hd)

/-! ### What the lexer makes of a piece -/

/-- Is the first lexeme of the text `us` followed by `after` just `us`, and is that what it is? -/
def CutsOff (us after : List Char) (reading : Reading) : Prop :=
  ∃ c cs, us = c :: cs ∧ extent c (cs ++ after) = cs.length ∧ classify c cs = reading

section CutsOff

variable {us after : List Char} {line : Nat}

theorem CutsOff.munch_eq {c : Char} {cs : List Char} (h : extent c (cs ++ after) = cs.length) :
    munch c (cs ++ after) = (c :: cs, after) := by
  simp [munch, h]

theorem items_append_of_blank (h : CutsOff us after .blank) :
    items line (us ++ after) = items (line + us.count '\n') after := by
  obtain ⟨c, cs, rfl, hextent, hreading⟩ := h
  rw [List.cons_append, items_cons, CutsOff.munch_eq hextent, List.tail_cons, emit, hreading]
  rfl

theorem items_append_of_token {kind : TokenKind} (h : CutsOff us after (.token kind)) :
    items line (us ++ after) =
      .ok ⟨kind, String.ofList us, line⟩ :: items (line + us.count '\n') after := by
  obtain ⟨c, cs, rfl, hextent, hreading⟩ := h
  rw [List.cons_append, items_cons, CutsOff.munch_eq hextent, List.tail_cons, emit, hreading]
  rfl

theorem items_append_of_fault {fault : LexFault} (h : CutsOff us after (.fault fault)) :
    items line (us ++ after) = .error ⟨line, fault⟩ :: items (line + us.count '\n') after := by
  obtain ⟨c, cs, rfl, hextent, hreading⟩ := h
  rw [List.cons_append, items_cons, CutsOff.munch_eq hextent, List.tail_cons, emit, hreading]
  rfl

end CutsOff

theorem extent_of_isDigit {c : Char} (h : c.isDigit = true) (cs : List Char) :
    extent c cs = (cs.takeWhile Char.isDigit).length := if_pos h

theorem extent_of_isWordStart {c : Char} (h : isWordStart c = true) (cs : List Char) :
    extent c cs = (cs.takeWhile isWordChar).length := by
  simp [extent, isDigit_eq_false_of_isWordStart h, h]

/-- Digits with no digit after them are cut off. -/
theorem cutsOff_digits {ds after : List Char} (hne : ds ≠ []) (hds : ∀ d ∈ ds, d.isDigit = true)
    (hafter : EndsBefore Char.isDigit after) : CutsOff ds after (classifyDigits ds) := by
  obtain ⟨d, ds, rfl⟩ := List.exists_cons_of_ne_nil hne
  obtain ⟨hd, hds⟩ := List.forall_mem_cons.1 hds
  refine ⟨d, ds, rfl, ?_, if_pos hd⟩
  rw [extent_of_isDigit hd, takeWhile_append_of_endsBefore hds hafter]

/-- A word with no letter, digit or underscore after it is cut off. -/
theorem cutsOff_word {c : Char} {cs after : List Char} (hc : isWordStart c = true)
    (hcs : ∀ d ∈ cs, isWordChar d = true) (hafter : EndsBefore isWordChar after) :
    CutsOff (c :: cs) after (classifyWord (c :: cs)) := by
  refine ⟨c, cs, rfl, ?_, ?_⟩
  · rw [extent_of_isWordStart hc, takeWhile_append_of_endsBefore hcs hafter]
  · simp [classify, isDigit_eq_false_of_isWordStart hc, hc]

theorem Skippable.cutsOff {us after : List Char} (h : Skippable us after) :
    CutsOff us after .blank := by
  cases h with
  | @blank c _ hc =>
    obtain ⟨hdigit, hword⟩ := not_isDigit_isWordStart_of_isBlank hc
    refine ⟨c, [], rfl, ?_, by simp [classify, hdigit, hword, hc]⟩
    rcases isBlank_iff.1 hc with rfl | rfl | rfl | rfl <;> rfl
  | @comment text _ htext hafter =>
    refine ⟨'/', '/' :: text, rfl, ?_, rfl⟩
    have hall : ∀ c ∈ '/' :: text, (c != '\n') = true := by
      rw [List.forall_mem_cons]
      exact ⟨rfl, fun c hc => bne_iff_ne.2 (ne_of_mem_of_not_mem hc htext)⟩
    have hstop : EndsBefore (· != '\n') after := by
      intro c hc
      simp [hafter c hc]
    have htake := takeWhile_append_of_endsBefore hall hstop
    show ((('/' :: text) ++ after).takeWhile (· != '\n')).length = _
    rw [htake]

theorem head?_beq_of_endsBefore {d : Char} {after : List Char} (h : EndsBefore (· == d) after) :
    (after.head? == some d) = false := by
  cases after with
  | nil => rfl
  | cons c after => exact h c rfl

/-- A keyword is a word. -/
theorem exists_word_eq_text (k : Keyword) : ∃ c cs, k.text.toList = c :: cs ∧
    isWordStart c = true ∧ ∀ d ∈ cs, isWordChar d = true := by
  have hstart : k.text.toList.head?.any isWordStart = true := by cases k <;> rfl
  have hall : k.text.toList.all isWordChar = true := by cases k <;> rfl
  cases hk : k.text.toList with
  | nil =>
    rw [hk] at hstart
    cases hstart
  | cons c cs =>
    rw [hk] at hstart hall
    exact ⟨c, cs, rfl, hstart,
      fun d hd => List.all_eq_true.1 hall d (List.mem_cons_of_mem c hd)⟩

theorem ofText?_text_keyword (k : Keyword) : Keyword.ofText? k.text.toList = some k := by
  cases k <;> rfl

theorem text_of_ofText?_symbol {cs : List Char} {s : Symbol} (h : Symbol.ofText? cs = some s) :
    s.text.toList = cs := by
  simpa using List.find?_some h

theorem text_of_ofText?_keyword {cs : List Char} {k : Keyword} (h : Keyword.ofText? cs = some k) :
    k.text.toList = cs := by
  simpa using List.find?_some h

theorem cutsOff_symbol {s : Symbol} {after : List Char}
    (hafter : EndsBefore (goesOn (.symbol s)) after) :
    CutsOff s.text.toList after (.token (.symbol s)) := by
  cases s with
  | slash =>
    have hhead := head?_beq_of_endsBefore hafter
    exact ⟨'/', [], rfl, by simp [extent, hhead, isWordStart, takesEqual], rfl⟩
  | equal =>
    have hhead := head?_beq_of_endsBefore hafter
    exact ⟨'=', [], rfl, by simp [extent, hhead, isWordStart, takesEqual], rfl⟩
  | less =>
    have hhead := head?_beq_of_endsBefore hafter
    exact ⟨'<', [], rfl, by simp [extent, hhead, isWordStart, takesEqual], rfl⟩
  | greater =>
    have hhead := head?_beq_of_endsBefore hafter
    exact ⟨'>', [], rfl, by simp [extent, hhead, isWordStart, takesEqual], rfl⟩
  -- How far the other symbols go does not depend on what follows.
  | _ => exact ⟨_, _, rfl, rfl, rfl⟩

/-- The lexer takes digits for the number that they write in base ten. -/
theorem classifyDigits_eq (ds : List Char) :
    classifyDigits ds =
      if Nat.ofDigitChars 10 ds 0 ≤ 2 ^ 63 - 1 then
        .token (.int (Int64.ofNat (Nat.ofDigitChars 10 ds 0)))
      else .fault (.integerOutOfRange (String.ofList ds)) := rfl

theorem Denotes.cutsOff {us after : List Char} {kind : TokenKind} (h : Denotes us kind)
    (hafter : EndsBefore (goesOn kind) after) : CutsOff us after (.token kind) := by
  cases h with
  | symbol s => exact cutsOff_symbol hafter
  | keyword k =>
    obtain ⟨c, cs, hk, hc, hcs⟩ := exists_word_eq_text k
    have hcut := cutsOff_word hc hcs hafter
    rwa [← hk, classifyWord, ofText?_text_keyword] at hcut
  | @identifier c cs hc hcs hword =>
    have hcut := cutsOff_word hc hcs hafter
    have hnone : Keyword.ofText? (c :: cs) = none := by
      rw [Option.eq_none_iff_forall_ne_some]
      exact fun k hk => hword k (text_of_ofText?_keyword hk)
    rwa [classifyWord, hnone] at hcut
  | @int _ n hne hds hn =>
    have hcut := cutsOff_digits hne hds hafter
    have hle : Nat.ofDigitChars 10 us 0 ≤ 2 ^ 63 - 1 := by
      have hlt : n.toInt < 2 ^ 63 := n.toInt_lt
      omega
    have hvalue : Int64.ofNat (Nat.ofDigitChars 10 us 0) = n := by
      rw [← Int64.toInt_inj, Int64.toInt_ofNat_of_lt (Nat.lt_succ_of_le hle), hn]
    rwa [classifyDigits_eq, if_pos hle, hvalue] at hcut

theorem cutsOff_outOfRange {ds after : List Char} (hne : ds ≠ [])
    (hds : ∀ d ∈ ds, d.isDigit = true) (hafter : EndsBefore Char.isDigit after)
    (hvalue : 2 ^ 63 - 1 < Nat.ofDigitChars 10 ds 0) :
    CutsOff ds after (.fault (.integerOutOfRange (String.ofList ds))) := by
  have hcut := cutsOff_digits hne hds hafter
  rwa [classifyDigits_eq, if_neg (Nat.not_le.2 hvalue)] at hcut

theorem BeginsNothing.cutsOff {c : Char} (h : BeginsNothing c) (after : List Char) :
    CutsOff [c] after (.fault (.unexpectedCharacter c)) := by
  have hne (s : Symbol) : ∀ d ∈ s.text.toList.head?, (c == d) = false := by
    intro d hd
    refine beq_eq_false_iff_ne.2 fun heq => h.symbol s ?_
    rw [heq]
    exact hd
  have hslash : (c == '/') = false := hne .slash '/' rfl
  have hequal : takesEqual c = false := by
    simp only [takesEqual, hne .equal '=' rfl, hne .less '<' rfl, hne .greater '>' rfl,
      Bool.or_false]
  have hsymbol : Symbol.ofText? [c] = none := by
    rw [Option.eq_none_iff_forall_ne_some]
    intro s hs
    exact h.symbol s (by rw [text_of_ofText?_symbol hs]; rfl)
  refine ⟨c, [], rfl, ?_, ?_⟩
  · simp [extent, h.digit, h.word, hslash, hequal]
  · simp [classify, h.digit, h.word, h.blank, hslash, hsymbol]

/-! ### Every text begins with a piece -/

/-- A symbol of one character that an equals sign makes longer, and the longer one. -/
theorem exists_symbols_of_takesEqual {c : Char} (h : takesEqual c = true) :
    ∃ s s' : Symbol, s.text.toList = [c] ∧ (∀ d, goesOn (.symbol s) d = (d == '=')) ∧
      s'.text.toList = [c, '='] ∧ ∀ d, goesOn (.symbol s') d = false := by
  have hc : (c = '=' ∨ c = '<') ∨ c = '>' := by simpa [takesEqual] using h
  rcases hc with (rfl | rfl) | rfl
  · exact ⟨.equal, .equalEqual, rfl, fun _ => rfl, rfl, fun _ => rfl⟩
  · exact ⟨.less, .lessEqual, rfl, fun _ => rfl, rfl, fun _ => rfl⟩
  · exact ⟨.greater, .greaterEqual, rfl, fun _ => rfl, rfl, fun _ => rfl⟩

/-- A symbol that takes no other character after it is one character. -/
theorem symbol_cases {c : Char} {s : Symbol} (h : s.text.toList.head? = some c) :
    takesEqual c = true ∨ c = '/' ∨
      (s.text.toList = [c] ∧ ∀ d, goesOn (.symbol s) d = false) := by
  cases s with
  | equal | equalEqual | less | lessEqual | greater | greaterEqual =>
    obtain rfl := Option.some.inj h
    exact .inl rfl
  | slash => exact .inr (.inl (Option.some.inj h).symm)
  | leftParen | rightParen | leftBrace | rightBrace | comma | semicolon | minus | plus | star
  | percent =>
    obtain rfl := Option.some.inj h
    exact .inr (.inr ⟨rfl, fun _ => rfl⟩)

section Piece

variable {before : List Char} {c : Char}

/-- Is the text a piece that is skipped or that an item comes from, and the rest? -/
def HasPiece (before cs : List Char) : Prop :=
  ∃ us after, us ≠ [] ∧ cs = us ++ after ∧
    (Skippable us after ∨ ∃ item, Yields before us after item)

theorem hasPiece_token {us after : List Char} {kind : TokenKind} (hne : us ≠ [])
    (hkind : Denotes us kind) (hafter : EndsBefore (goesOn kind) after) :
    HasPiece before (us ++ after) :=
  ⟨us, after, hne, rfl, .inr ⟨_, .token hkind hafter⟩⟩

theorem hasPiece_of_isDigit (hc : c.isDigit = true)
    (hbefore : ∀ d ∈ before.getLast?, d.isDigit = false) (cs : List Char) :
    HasPiece before (c :: cs) := by
  let ds := (c :: cs).takeWhile Char.isDigit
  have hne : ds ≠ [] := by simp [ds, hc]
  have hds : ∀ d ∈ ds, d.isDigit = true := List.all_eq_true.1 List.all_takeWhile
  have hafter := endsBefore_dropWhile Char.isDigit (c :: cs)
  rw [← List.takeWhile_append_dropWhile (p := Char.isDigit) (l := c :: cs)]
  by_cases hvalue : Nat.ofDigitChars 10 ds 0 ≤ 2 ^ 63 - 1
  · have hn : (Int64.ofNat (Nat.ofDigitChars 10 ds 0)).toInt = Nat.ofDigitChars 10 ds 0 :=
      Int64.toInt_ofNat_of_lt (Nat.lt_succ_of_le hvalue)
    exact hasPiece_token hne (.int hne hds hn) hafter
  · have hlt := Nat.not_le.1 hvalue
    exact ⟨ds, _, hne, rfl, .inr ⟨_, .outOfRange hne hds hbefore hafter hlt⟩⟩

theorem hasPiece_of_isWordStart (hc : isWordStart c = true) (cs : List Char) :
    HasPiece before (c :: cs) := by
  have hcs : ∀ d ∈ cs.takeWhile isWordChar, isWordChar d = true :=
    List.all_eq_true.1 List.all_takeWhile
  have hafter := endsBefore_dropWhile isWordChar cs
  rw [← List.takeWhile_append_dropWhile (p := isWordChar) (l := cs), ← List.cons_append]
  by_cases hword : ∃ k : Keyword, k.text.toList = c :: cs.takeWhile isWordChar
  · -- The word as a whole is a keyword, so it is no identifier.
    obtain ⟨k, hk⟩ := hword
    rw [← hk]
    exact hasPiece_token (by rw [hk]; exact List.cons_ne_nil _ _) (.keyword k) hafter
  · have hnone : ∀ k : Keyword, k.text.toList ≠ c :: cs.takeWhile isWordChar :=
      fun k hk => hword ⟨k, hk⟩
    exact hasPiece_token (List.cons_ne_nil _ _) (.identifier hc hcs hnone) hafter

theorem hasPiece_of_takesEqual (hc : takesEqual c = true) (cs : List Char) :
    HasPiece before (c :: cs) := by
  obtain ⟨s, s', hs, hgoesOn, hs', hnever⟩ := exists_symbols_of_takesEqual hc
  by_cases hequal : ∃ vs, cs = '=' :: vs
  · obtain ⟨vs, rfl⟩ := hequal
    have hkind := Denotes.symbol s'
    rw [hs'] at hkind
    exact hasPiece_token (List.cons_ne_nil _ _) hkind fun d _ => hnever d
  · have hkind := Denotes.symbol s
    rw [hs] at hkind
    refine hasPiece_token (List.cons_ne_nil _ _) hkind fun d hd => ?_
    obtain ⟨vs, rfl⟩ := List.head?_eq_some_iff.1 hd
    rw [hgoesOn]
    exact beq_eq_false_iff_ne.2 fun hd => hequal ⟨vs, by rw [hd]⟩

/-- A slash is a symbol, unless another one makes it the beginning of a comment. -/
theorem hasPiece_slash (cs : List Char) : HasPiece before ('/' :: cs) := by
  by_cases hslash : ∃ vs, cs = '/' :: vs
  · obtain ⟨vs, rfl⟩ := hslash
    have htext : '\n' ∉ vs.takeWhile (· != '\n') := fun hmem => by
      simpa using List.all_eq_true.1 (List.all_takeWhile (p := (· != '\n'))) _ hmem
    have hafter : ∀ c ∈ (vs.dropWhile (· != '\n')).head?, c = '\n' := fun c hc => by
      simpa using endsBefore_dropWhile (· != '\n') vs c hc
    refine ⟨'/' :: '/' :: vs.takeWhile (· != '\n'), _, List.cons_ne_nil _ _, ?_,
      .inl (.comment htext hafter)⟩
    simp
  · have hkind : Denotes ['/'] (.symbol .slash) := .symbol .slash
    refine hasPiece_token (List.cons_ne_nil _ _) hkind fun d hd => ?_
    obtain ⟨vs, rfl⟩ := List.head?_eq_some_iff.1 hd
    exact beq_eq_false_iff_ne.2 fun hd => hslash ⟨vs, by rw [hd]⟩

/-- Does no digit stand on both sides? -/
def Apart (before after : List Char) : Prop :=
  ∀ d ∈ after.head?, d.isDigit = true → ∀ b ∈ before.getLast?, b.isDigit = false

/-- A text that is not empty begins with a piece that is skipped or that an item comes from. -/
theorem hasPiece_cons {cs : List Char} (hbefore : Apart before (c :: cs)) :
    HasPiece before (c :: cs) := by
  by_cases hdigit : c.isDigit = true
  · exact hasPiece_of_isDigit hdigit (hbefore c rfl hdigit) cs
  by_cases hword : isWordStart c = true
  · exact hasPiece_of_isWordStart hword cs
  by_cases hblank : isBlank c = true
  · exact ⟨[c], cs, List.cons_ne_nil _ _, rfl, .inl (.blank hblank)⟩
  by_cases hsymbol : ∃ s : Symbol, s.text.toList.head? = some c
  · obtain ⟨s, hs⟩ := hsymbol
    rcases symbol_cases hs with hequal | rfl | ⟨htext, hnever⟩
    · exact hasPiece_of_takesEqual hequal cs
    · exact hasPiece_slash cs
    · have hkind := Denotes.symbol s
      rw [htext] at hkind
      exact hasPiece_token (List.cons_ne_nil _ _) hkind fun d _ => hnever d
  · have hnothing : BeginsNothing c :=
      ⟨by simpa using hdigit, by simpa using hword, by simpa using hblank,
        fun s hs => hsymbol ⟨s, hs⟩⟩
    exact ⟨[c], cs, List.cons_ne_nil _ _, rfl, .inr ⟨_, .unexpected hnothing⟩⟩

end Piece

/-! ### Tiling a text -/

theorem lineAfter_append (us vs : List Char) :
    lineAfter (us ++ vs) = lineAfter us + vs.count '\n' := by
  simp [lineAfter, Nat.add_assoc]

theorem isDigit_eq_false_of_mem_getLast?_text (s : Symbol) :
    ∀ d ∈ s.text.toList.getLast?, d.isDigit = false := by
  have hnone : s.text.toList.getLast?.any Char.isDigit = false := by cases s <;> rfl
  intro d hd
  rwa [Option.mem_def.1 hd] at hnone

/-- A lexeme that ends with a digit takes the digits that follow. -/
theorem Denotes.apart {us after : List Char} {kind : TokenKind} (h : Denotes us kind)
    (hafter : EndsBefore (goesOn kind) after) : Apart us after := by
  intro d hd hdigit
  have hgoesOn := hafter d hd
  cases h with
  | symbol s => exact isDigit_eq_false_of_mem_getLast?_text s
  | keyword _ | identifier _ _ _ =>
    replace hgoesOn : isWordChar d = false := hgoesOn
    rw [isWordChar_of_isDigit hdigit] at hgoesOn
    cases hgoesOn
  | int _ _ _ =>
    replace hgoesOn : d.isDigit = false := hgoesOn
    rw [hdigit] at hgoesOn
    cases hgoesOn

theorem Skippable.apart {us after : List Char} (h : Skippable us after) : Apart us after := by
  intro d hd hdigit
  cases h with
  | blank hc =>
    intro b hb
    obtain rfl := Option.some.inj hb
    exact (not_isDigit_isWordStart_of_isBlank hc).1
  | comment _ hafter =>
    rw [hafter d hd] at hdigit
    cases hdigit

theorem Yields.apart {before us after : List Char} {item : Except LexError Token}
    (h : Yields before us after item) : Apart us after := by
  cases h with
  | token hkind hafter => exact hkind.apart hafter
  | outOfRange _ _ _ hafter _ =>
    intro d hd hdigit
    rw [hafter d hd] at hdigit
    cases hdigit
  | unexpected hc =>
    intro _ _ _ b hb
    obtain rfl := Option.some.inj hb
    exact hc.digit

theorem Apart.append {before us after : List Char} (h : Apart us after) (hne : us ≠ []) :
    Apart (before ++ us) after := by
  intro d hd hdigit b hb
  rw [List.getLast?_append_of_ne_nil _ hne] at hb
  exact h d hd hdigit b hb

/-- What is skipped may be longer at its front. -/
theorem Tiling.skip {before us rest : List Char} {tiles : List (Span × Except LexError Token)}
    (h : Tiling (before ++ us) rest tiles) (hus : Skippable us rest) :
    Tiling before (us ++ rest) tiles := by
  cases h with
  | done hgap => exact .done (.cons (by rwa [List.append_nil]) hgap)
  | @tile _ gap lexeme after item tiles hgap hitem htiles =>
    rw [List.append_assoc before] at hitem htiles
    rw [← List.append_assoc us, List.append_assoc before]
    exact .tile (.cons hus hgap) hitem htiles

theorem exists_tiling {before cs : List Char} (h : Apart before cs) :
    ∃ tiles, Tiling before cs tiles := by
  induction hn : cs.length using Nat.strongRecOn generalizing before cs with
  | _ n ih =>
    cases cs with
    | nil => exact ⟨[], .done .nil⟩
    | cons c cs =>
      -- What follows the first piece is shorter, and cut off where no digit stands on both sides.
      obtain ⟨us, after, hne, heq, hpiece⟩ := hasPiece_cons h
      have hlt : after.length < n := by
        have hlen : 0 < us.length := List.length_pos_of_ne_nil hne
        rw [← hn, heq, List.length_append]
        omega
      rw [heq]
      rcases hpiece with hus | ⟨item, hitem⟩
      · have hapart : Apart (before ++ us) after := hus.apart.append hne
        obtain ⟨tiles, htiles⟩ := ih _ hlt hapart rfl
        exact ⟨tiles, htiles.skip hus⟩
      · have hapart : Apart (before ++ us) after := hitem.apart.append hne
        obtain ⟨tiles, htiles⟩ := ih _ hlt hapart rfl
        refine ⟨(⟨endOf before, endOf (before ++ us)⟩, item) :: tiles, ?_⟩
        have hgap : before ++ [] = before := List.append_nil before
        have htile : Tiling before ([] ++ (us ++ after))
            ((⟨endOf (before ++ []), endOf (before ++ [] ++ us)⟩, item) :: tiles) :=
          .tile .nil (by rwa [hgap]) (by rwa [hgap])
        rwa [hgap] at htile

/-! ### The items of a tiled text -/

theorem items_append_of_skipped {gap after : List Char} (h : Skipped gap after) (line : Nat) :
    items line (gap ++ after) = items (line + gap.count '\n') after := by
  induction h generalizing line with
  | nil => rfl
  | cons hus _ ih =>
    rw [List.append_assoc, items_append_of_blank hus.cutsOff, ih, List.count_append, Nat.add_assoc]

theorem Yields.items_append {before us after : List Char} {item : Except LexError Token}
    (h : Yields before us after item) :
    items (lineAfter before) (us ++ after) = item :: items (lineAfter (before ++ us)) after := by
  rw [lineAfter_append]
  cases h with
  | token hkind hafter => exact items_append_of_token (hkind.cutsOff hafter)
  | outOfRange hne hds _ hafter hvalue =>
    exact items_append_of_fault (cutsOff_outOfRange hne hds hafter hvalue)
  | unexpected hc => exact items_append_of_fault (hc.cutsOff after)

/-- A tiling of a text holds its items, all but the end of the input. -/
theorem Tiling.items_eq {before cs : List Char} {tiles : List (Span × Except LexError Token)}
    (h : Tiling before cs tiles) :
    items (lineAfter before) cs =
      tiles.map Prod.snd ++ [.ok ⟨.eof, "", lineAfter (before ++ cs)⟩] := by
  induction h with
  | @done before gap hgap =>
    have hitems := items_append_of_skipped hgap (lineAfter before)
    rw [List.append_nil] at hitems
    rw [hitems, items_nil, lineAfter_append]
    rfl
  | @tile before gap lexeme after item tiles hgap hitem _ ih =>
    rw [items_append_of_skipped hgap, ← lineAfter_append, hitem.items_append, ih]
    simp only [List.append_assoc, List.map_cons, List.cons_append]

/-- The item of a tile is what some lexeme yields. -/
theorem Tiling.yields {before cs : List Char} {tiles : List (Span × Except LexError Token)}
    (h : Tiling before cs tiles) :
    ∀ tile ∈ tiles, ∃ before us after, Yields before us after tile.2 := by
  induction h with
  | done _ => exact nofun
  | tile _ hitem _ ih => exact List.forall_mem_cons.2 ⟨⟨_, _, _, hitem⟩, ih⟩

/-- An item is what some lexeme yields, or the end of the input. -/
theorem yields_of_mem {cs : List Char} {item : Except LexError Token} (h : item ∈ items 1 cs) :
    (∃ before us after, Yields before us after item) ∨
      item = .ok ⟨.eof, "", lineAfter cs⟩ := by
  obtain ⟨tiles, htiles⟩ : ∃ tiles, Tiling [] cs tiles := exists_tiling nofun
  have hitems : items 1 cs = tiles.map Prod.snd ++ [.ok ⟨.eof, "", lineAfter cs⟩] :=
    htiles.items_eq
  rw [hitems, List.mem_append, List.mem_singleton] at h
  refine h.imp_left fun hmem => ?_
  obtain ⟨tile, htile, rfl⟩ := List.mem_map.1 hmem
  exact htiles.yields tile htile

end Featherweight.Lexer
