import Featherweight.Diagnostic
import Featherweight.Proofs.Scanning.MaximalMunch

/-!
# One text below another

No lexeme goes past a line feed, so what stands above one and what stands below it are scanned apart
(`scan_append_newline`): the items of both are those of the text above, without the end of its
input, and those of the text below, with the lines counted on. It makes no difference whether the
text above ends within a comment, a number or a word, or with a symbol that an equals sign or a
slash would make longer.
-/

namespace Featherweight.Lexer

/-- What a reader of a text gives when it is asked once more after `k` times. -/
theorem answer_source (source : String) (k : Nat) :
    answer (some (1, source.toList)) k = (scan source)[k]? := answer_eq _ k

/-- A fault further down is reported in the same words, on the line where it is. -/
theorem diagnostic_below (k : Nat) (e : LexError) :
    (e.below k).diagnostic = .lexical (e.line + k) e.fault.message := rfl

/-- A text below another adds its items to those that the text above has before the end of its
input. Each is as in the text alone, but as many lines further down as the text above has line
feeds, and one more; the words of a fault are the same. A reader that is asked for one item after
another gives the items of the text above first, and when it would come to the end of that, those of
the text below. -/
theorem scan_append_newline (above under : String) :
    ∃ before last, scan above = before ++ [.ok ⟨.eof, "", last⟩] ∧
      (∀ t, .ok t ∈ before → t.kind ≠ .eof) ∧
      scan (above ++ "\n" ++ under) =
        before ++ (scan under).map (below (1 + above.toList.count '\n')) ∧
      (∀ k, answer (some (1, (above ++ "\n" ++ under).toList)) k =
        if k < before.length then answer (some (1, above.toList)) k
        else (answer (some (1, under.toList)) (k - before.length)).map
          (below (1 + above.toList.count '\n'))) ∧
      ∀ k e, (LexError.below k e).diagnostic = .lexical (e.line + k) e.fault.message := by
  obtain ⟨before, last, habove, hbefore⟩ := exists_items_eq 1 above.toList
  replace habove : scan above = before ++ [.ok ⟨.eof, "", last⟩] := habove
  have hlist : (above ++ "\n" ++ under).toList = above.toList ++ '\n' :: under.toList := by
    rw [String.toList_append, String.toList_append, List.append_assoc]
    rfl
  have hlines : 1 + above.toList.count '\n' + 1 = 1 + (1 + above.toList.count '\n') := by omega
  have hboth : scan (above ++ "\n" ++ under) =
      before ++ (scan under).map (below (1 + above.toList.count '\n')) := by
    calc scan (above ++ "\n" ++ under)
        = (scan above).dropLast ++ items (1 + above.toList.count '\n' + 1) under.toList := by
          rw [scan, hlist, items_append_newline]
          rfl
      _ = before ++ items (1 + (1 + above.toList.count '\n')) under.toList := by
          rw [habove, List.dropLast_concat, hlines]
      _ = before ++ (scan under).map (below (1 + above.toList.count '\n')) := by
          rw [items_add]
          rfl
  refine ⟨before, last, habove, hbefore, hboth, fun k => ?_, diagnostic_below⟩
  rw [answer_source, answer_source, answer_source, hboth]
  split
  · next hk => rw [habove, List.getElem?_append_left hk, List.getElem?_append_left hk]
  · next hk => rw [List.getElem?_append_right (Nat.le_of_not_lt hk), List.getElem?_map]

end Featherweight.Lexer
