import Featherweight.Proofs.Scanning.Tiling
import Featherweight.Proofs.Scanning.Tokens

/-!
# Layouts

The lexemes of a text may be laid out anew: with other blanks and comments between them, as long as
a blank comes first after each lexeme (`Layout`). Every lexeme is then cut off as before, whatever
stands around it, so the text in the new layout has the same tokens on the lines they are on now
(`Layout.tokenize_source`).
-/

namespace Featherweight

/-- What a token is, wherever it stands: its kind, with the value of an integer, and its lexeme. -/
def Token.word (t : Token) : TokenKind × String := (t.kind, t.lexeme)

/-- Blanks, and comments that end with a line feed, in any order. -/
inductive Trivia : List Char → Prop
  | nil : Trivia []
  | blank {c : Char} {cs : List Char} (hc : Lexer.isBlank c = true) (hcs : Trivia cs) :
      Trivia (c :: cs)
  | comment {text cs : List Char} (htext : '\n' ∉ text) (hcs : Trivia cs) :
      Trivia ('/' :: '/' :: (text ++ '\n' :: cs))

/-- Trivia with a blank first. -/
structure Spacing (gap : List Char) : Prop where
  trivia : Trivia gap
  blank : ∃ c ∈ gap.head?, Lexer.isBlank c = true

/-- Is there spacing between any two tokens, and after the last one if anything? -/
inductive Spaced : List (Token × List Char) → Prop
  | nil : Spaced []
  | last (t : Token) : Spaced [(t, [])]
  | cons (t : Token) {gap : List Char} {pieces : List (Token × List Char)} (hgap : Spacing gap)
      (hpieces : Spaced pieces) : Spaced ((t, gap) :: pieces)

/-- A way to lay out tokens: what stands before the first one, and each token with what stands
between it and the next one. -/
structure Layout where
  lead : List Char
  pieces : List (Token × List Char)
  lead_trivia : Trivia lead
  spaced : Spaced pieces

namespace Layout

/-- The lexemes and what stands after each. -/
def text (pieces : List (Token × List Char)) : List Char :=
  pieces.flatMap fun piece => piece.1.lexeme.toList ++ piece.2

/-- The text in that layout. -/
def source (l : Layout) : String := String.ofList (l.lead ++ text l.pieces)

/-- The tokens from that line on, each on the line that the line feeds before it lead to, and the
end of the input. -/
def relined (line : Nat) : List (Token × List Char) → List Token
  | []                  => [⟨.eof, "", line⟩]
  | (t, gap) :: pieces => { t with line } :: relined (line + gap.count '\n') pieces

/-- The tokens on the lines that they are on in that layout. -/
def tokens (l : Layout) : List Token := relined (1 + l.lead.count '\n') l.pieces

/-- Are the tokens those that are laid out, up to the end of the input? -/
def IsOf (l : Layout) (ts : List Token) : Prop := l.pieces.map Prod.fst = ts.dropLast

end Layout

/-! ### What is skipped -/

namespace Lexer

/-- Trivia are skipped whatever follows them. -/
theorem skipped_of_trivia {cs : List Char} (h : Trivia cs) (after : List Char) :
    Skipped cs after := by
  induction h with
  | nil => exact .nil
  | @blank c cs hc _ ih =>
    have hskipped : Skippable [c] (cs ++ after) := .blank hc
    exact .cons hskipped ih
  | @comment text cs htext _ ih =>
    have hfeed : Skippable ['\n'] (cs ++ after) := .blank rfl
    have htext : Skippable ('/' :: '/' :: text) (['\n'] ++ cs ++ after) := by
      refine .comment htext ?_
      intro c hc
      exact (Option.some.inj hc).symm
    exact .cons htext (.cons hfeed ih)

theorem goesOn_of_isBlank (kind : TokenKind) {c : Char} (h : isBlank c = true) :
    goesOn kind c = false := by
  rcases isBlank_iff.1 h with rfl | rfl | rfl | rfl <;> cases kind with
  | symbol s => cases s <;> rfl
  | _ => rfl

/-- No lexeme goes on into spacing. -/
theorem endsBefore_of_spacing (kind : TokenKind) {gap : List Char} (h : Spacing gap)
    (after : List Char) : EndsBefore (goesOn kind) (gap ++ after) := by
  obtain ⟨c, hc, hblank⟩ := h.blank
  intro d hd
  rw [List.head?_append, Option.mem_def.1 hc] at hd
  obtain rfl := Option.some.inj hd
  exact goesOn_of_isBlank kind hblank

/-- A lexeme that is not followed by more of its kind is one item. -/
theorem items_append_of_denotes {lexeme after : List Char} {kind : TokenKind}
    (h : Denotes lexeme kind) (hafter : EndsBefore (goesOn kind) after) (line : Nat) :
    items line (lexeme ++ after) = .ok ⟨kind, String.ofList lexeme, line⟩ :: items line after := by
  rw [items_append_of_token (h.cutsOff hafter), List.count_eq_zero_of_not_mem h.newline_notMem]
  rfl

/-- The lexeme of a token means it. -/
theorem denotes_of_mem {cs : List Char} {t : Token} (h : .ok t ∈ items 1 cs) (ht : t.kind ≠ .eof) :
    Denotes t.lexeme.toList t.kind := by
  rcases yields_of_mem h with ⟨before, us, after, hyields⟩ | heof
  · cases hyields with
    | token hkind _ => rwa [String.toList_ofList]
  · cases heof
    exact absurd rfl ht

end Lexer

/-! ### Tokens in another layout -/

namespace Layout

variable {ts : List Token}

/-- Spaced lexemes are cut apart again. -/
theorem items_text {pieces : List (Token × List Char)} (h : Spaced pieces)
    (hpieces : ∀ t ∈ pieces.map Prod.fst, Lexer.Denotes t.lexeme.toList t.kind) (line : Nat) :
    Lexer.items line (text pieces) = (relined line pieces).map .ok := by
  induction h generalizing line with
  | nil => exact Lexer.items_nil line
  | last t =>
    have ht := hpieces t List.mem_cons_self
    have hends : Lexer.EndsBefore (Lexer.goesOn t.kind) [] := nofun
    have hitems := Lexer.items_append_of_denotes ht hends line
    rw [Lexer.items_nil, String.ofList_toList] at hitems
    rw [text, List.flatMap_singleton]
    exact hitems
  | @cons t gap pieces hgap _ ih =>
    obtain ⟨ht, hpieces⟩ := List.forall_mem_cons.1 hpieces
    rw [text, List.flatMap_cons, List.append_assoc,
      Lexer.items_append_of_denotes ht (Lexer.endsBefore_of_spacing _ hgap _),
      Lexer.items_append_of_skipped (Lexer.skipped_of_trivia hgap.trivia _), String.ofList_toList]
    exact congrArg _ (ih hpieces _)

theorem map_word_relined (line : Nat) (pieces : List (Token × List Char)) :
    (relined line pieces).map Token.word =
      (pieces.map Prod.fst).map Token.word ++ [(.eof, "")] := by
  induction pieces generalizing line with
  | nil => rfl
  | cons piece pieces ih => exact congrArg _ (ih _)

/-- The tokens of a text are, in any layout, the tokens of the text in that layout. -/
theorem tokenize_source {source : String} (h : tokenize source = .ok ts) {l : Layout}
    (hl : l.IsOf ts) :
    tokenize l.source = .ok l.tokens ∧ l.tokens.map Token.word = ts.map Token.word := by
  have hitems := tokenize_eq_ok_iff.1 h
  obtain ⟨before, last, rfl, hbefore⟩ := exists_tokens_eq hitems
  replace hl : l.pieces.map Prod.fst = before := hl.trans List.dropLast_concat
  have hdenotes : ∀ t ∈ l.pieces.map Prod.fst, Lexer.Denotes t.lexeme.toList t.kind := by
    intro t ht
    rw [hl] at ht
    have hmem : .ok t ∈ Lexer.items 1 source.toList := by
      rw [hitems]
      exact List.mem_map_of_mem (List.mem_append_left _ ht)
    exact Lexer.denotes_of_mem hmem (hbefore t ht)
  constructor
  · rw [tokenize_eq_ok_iff, Layout.source, String.toList_ofList,
      Lexer.items_append_of_skipped (Lexer.skipped_of_trivia l.lead_trivia _),
      items_text l.spaced hdenotes]
    rfl
  · rw [tokens, map_word_relined, hl, List.map_append]
    rfl

end Layout

end Featherweight
