import Featherweight.Proofs.Scanning.Tiling

/-!
# Maximal munch

The lexer lists the items of the one tiling of a text into lexemes that cannot be made longer
(`scan_tiling`). The tiles follow one another without overlapping, begin and end between characters,
and leave out blanks and comments only. Asked for one item after another, a reader of the text gives
these items, then the end of the input, and then nothing for ever after (`answer_eq`).
-/

namespace Featherweight.Lexer

/-! ### One item after another -/

/-- The items that a reader has not given yet. -/
def remaining : Cursor → List (Except LexError Token)
  | none            => []
  | some (line, cs) => items line cs

/-- Asking for an item takes the first one that is left. -/
theorem advance_eq (cursor : Cursor) :
    (advance cursor).1 = (remaining cursor).head? ∧
      remaining (advance cursor).2 = (remaining cursor).tail := by
  cases cursor with
  | none => rw [advance]; exact ⟨rfl, rfl⟩
  | some place =>
    obtain ⟨line, cs⟩ := place
    induction line, cs using items_induction with
    | nil line =>
      simp only [advance, remaining, items_nil]
      exact ⟨rfl, rfl⟩
    | cons line c cs ih =>
      rw [advance, remaining, items]
      cases classify c (munch c cs).1.tail with
      | blank      => exact ih
      | token kind => exact ⟨rfl, rfl⟩
      | fault f    => exact ⟨rfl, rfl⟩

theorem answer_eq (cursor : Cursor) (k : Nat) : answer cursor k = (remaining cursor)[k]? := by
  induction k generalizing cursor with
  | zero => rw [answer, (advance_eq cursor).1, List.head?_eq_getElem?]
  | succ k ih => rw [answer, ih, (advance_eq cursor).2, List.getElem?_tail]

/-! ### Where tiles begin and end -/

theorem endOf_append (us vs : List Char) :
    (endOf (us ++ vs)).byteIdx = (endOf us).byteIdx + (endOf vs).byteIdx := by
  simp only [endOf, String.byteIdx_rawEndPos, String.ofList_append, String.utf8ByteSize_append]

theorem endOf_pos {us : List Char} (h : us ≠ []) : 0 < (endOf us).byteIdx := by
  refine Nat.pos_of_ne_zero fun hzero => h ?_
  rw [endOf, String.byteIdx_rawEndPos, String.utf8ByteSize_eq_zero_iff] at hzero
  exact String.ofList_eq_empty_iff.1 hzero

theorem isValid_endOf (us vs : List Char) : (endOf us).IsValid (String.ofList (us ++ vs)) :=
  String.Pos.Raw.isValid_iff_exists_append.2
    ⟨String.ofList us, String.ofList vs, String.ofList_append, rfl⟩

theorem Yields.ne_nil {before us after : List Char} {item : Except LexError Token}
    (h : Yields before us after item) : us ≠ [] := by
  cases h with
  | token hkind hafter =>
    obtain ⟨c, cs, rfl, -⟩ := hkind.cutsOff hafter
    exact List.cons_ne_nil c cs
  | outOfRange hne _ _ _ _ => exact hne
  | unexpected _ => exact List.cons_ne_nil _ _

/-- Is the span a stretch of the text that is not empty, from one character up to another? -/
structure Span.Within (sp : Span) (source : String) : Prop where
  nonempty : sp.start < sp.stop
  start : sp.start.IsValid source
  stop : sp.stop.IsValid source

/-- Tiles lie in the text after `before`, each behind the one before it. -/
theorem Tiling.spans {before cs : List Char} {tiles : List (Span × Except LexError Token)}
    (h : Tiling before cs tiles) :
    (∀ tile ∈ tiles, endOf before ≤ tile.1.start ∧
        tile.1.Within (String.ofList (before ++ cs))) ∧
      tiles.Pairwise fun tile tile' => tile.1.stop ≤ tile'.1.start := by
  induction h with
  | done _ => exact ⟨nofun, .nil⟩
  | @tile before gap lexeme after item tiles _ hitem _ ih =>
    obtain ⟨hwithin, hpairwise⟩ := ih
    -- All tiles are stretches of one text, however it is divided up to them.
    have htext : before ++ (gap ++ (lexeme ++ after)) = before ++ gap ++ lexeme ++ after := by
      simp only [List.append_assoc]
    rw [htext, List.forall_mem_cons, List.pairwise_cons]
    have hle : endOf before ≤ endOf (before ++ gap) := by
      rw [String.Pos.Raw.le_iff, endOf_append]
      exact Nat.le_add_right _ _
    have hlt : endOf (before ++ gap) < endOf (before ++ gap ++ lexeme) := by
      rw [String.Pos.Raw.lt_iff, endOf_append _ lexeme]
      exact Nat.lt_add_of_pos_right (endOf_pos hitem.ne_nil)
    refine ⟨⟨⟨hle, hlt, ?_, isValid_endOf _ after⟩, ?_⟩, fun tile ht => (hwithin tile ht).1,
      hpairwise⟩
    · rw [List.append_assoc (before ++ gap)]
      exact isValid_endOf _ _
    · intro tile ht
      obtain ⟨hafter, htile⟩ := hwithin tile ht
      refine ⟨?_, htile⟩
      rw [String.Pos.Raw.le_iff] at hle hafter ⊢
      rw [String.Pos.Raw.lt_iff] at hlt
      omega

/-! ### The tiling of a text -/

/-- What a lexeme is depends on nothing else. -/
theorem Denotes.unique {lexeme : List Char} {kind kind' : TokenKind} (h : Denotes lexeme kind)
    (h' : Denotes lexeme kind') : kind = kind' := by
  obtain ⟨c, cs, rfl, -, hkind⟩ : CutsOff lexeme [] (.token kind) := h.cutsOff nofun
  obtain ⟨d, ds, heq, -, hkind'⟩ : CutsOff (c :: cs) [] (.token kind') := h'.cutsOff nofun
  cases heq
  rw [hkind] at hkind'
  exact Reading.token.inj hkind'

/-- The end of the input is not among the tiles. -/
theorem Tiling.kind_ne_eof {before cs : List Char} {tiles : List (Span × Except LexError Token)}
    (h : Tiling before cs tiles) :
    ∀ tile ∈ tiles, ∀ t, tile.2 = .ok t → t.kind ≠ .eof := by
  intro tile htile t ht
  obtain ⟨before, us, after, hyields⟩ := h.yields tile htile
  rw [ht] at hyields
  cases hyields with
  | token hkind _ => exact hkind.ne_eof

/-- A text has a tiling, and whatever tiling it has, the lexer lists the items of the tiles and the
end of the input after them, of which there is only one. The tiles are stretches of the text between
characters, one behind the other, and a lexeme alone decides what its token is. A reader that is
asked again and again gives the same items, and then nothing any more. -/
theorem scan_tiling (source : String) :
    (∃ tiles, Tiling [] source.toList tiles) ∧
      (∀ tiles, Tiling [] source.toList tiles →
        scan source =
            tiles.map Prod.snd ++ [.ok ⟨.eof, "", lineAfter source.toList⟩] ∧
          (∀ tile ∈ tiles, ∀ t, tile.2 = .ok t → t.kind ≠ .eof) ∧
          (∀ tile ∈ tiles, tile.1.Within source) ∧
          tiles.Pairwise fun tile tile' => tile.1.stop ≤ tile'.1.start) ∧
      (∀ lexeme kind kind', Denotes lexeme kind → Denotes lexeme kind' → kind = kind') ∧
      ∀ k, answer (some (1, source.toList)) k = (scan source)[k]? := by
  refine ⟨exists_tiling nofun, fun tiles h => ?_, fun _ _ _ => Denotes.unique,
    answer_eq (some (1, source.toList))⟩
  have hsource : String.ofList ([] ++ source.toList) = source := String.ofList_toList
  obtain ⟨hspans, hpairwise⟩ := h.spans
  rw [hsource] at hspans
  exact ⟨h.items_eq, h.kind_ne_eof, fun tile ht => (hspans tile ht).2, hpairwise⟩

end Featherweight.Lexer
