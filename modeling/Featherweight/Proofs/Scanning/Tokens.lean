import Featherweight.Proofs.Scanning.Items

/-!
# Tokens of a text

A text has tokens when none of its items is a fault (`tokenize_eq_ok_iff`). They end with the end of
the input, which stands nowhere before (`exists_tokens_eq`), their identifiers are words that are
not reserved (`isIdentifier_of_mem`), and their integers are not negative (`int_nonneg_of_mem`).
-/

namespace Featherweight

/-- Is the text a word that is not reserved? -/
def isIdentifier (x : String) : Bool :=
  match x.toList with
  | []      => false
  | c :: cs => Lexer.isWordStart c && cs.all Lexer.isWordChar &&
      (Keyword.ofText? (c :: cs)).isNone

/-! ### Texts without a fault -/

theorem mapM_id_map_ok {ε α : Type} (as : List α) :
    (as.map (Except.ok (ε := ε))).mapM id = .ok as := by
  induction as with
  | nil => rfl
  | cons a as ih =>
    rw [List.map_cons, List.mapM_cons, ih]
    rfl

theorem eq_map_of_mapM_id {ε α : Type} {os : List (Except ε α)} {as : List α}
    (h : os.mapM id = .ok as) : os = as.map .ok := by
  induction os generalizing as with
  | nil =>
    cases h
    rfl
  | cons o os ih =>
    rw [List.mapM_cons] at h
    cases o with
    | error e => cases h
    | ok a =>
      cases hos : os.mapM id with
      | error e =>
        rw [hos] at h
        cases h
      | ok bs =>
        rw [hos] at h
        cases h
        rw [ih hos, List.map_cons]

theorem tokenize_eq_ok_iff {source : String} {ts : List Token} :
    tokenize source = .ok ts ↔ Lexer.items 1 source.toList = ts.map .ok :=
  ⟨eq_map_of_mapM_id, fun h => (congrArg (List.mapM id) h).trans (mapM_id_map_ok ts)⟩

/-- The tokens of a text end with the end of the input, which is none of the others. -/
theorem exists_tokens_eq {line : Nat} {cs : List Char} {ts : List Token}
    (h : Lexer.items line cs = ts.map .ok) :
    ∃ before last, ts = before ++ [⟨.eof, "", last⟩] ∧ ∀ t ∈ before, t.kind ≠ .eof := by
  obtain ⟨before, last, hitems, hbefore⟩ := Lexer.exists_items_eq line cs
  rw [h] at hitems
  obtain ⟨us, vs, rfl, hus, hvs⟩ := List.map_eq_append_iff.1 hitems
  obtain ⟨t, rfl, ht⟩ := List.map_eq_singleton_iff.1 hvs
  obtain rfl := Except.ok.inj ht
  refine ⟨us, last, rfl, fun t ht => hbefore t ?_⟩
  rw [← hus]
  exact List.mem_map_of_mem ht

/-! ### Identifiers and integers -/

section

variable {line : Nat} {cs : List Char} {t : Token}

theorem all_isWordChar_munch {d : Char} (ds : List Char) (hdigit : d.isDigit = false)
    (hword : Lexer.isWordStart d = true) :
    (Lexer.munch d ds).1.tail.all Lexer.isWordChar = true := by
  have htake : (Lexer.munch d ds).1.tail = ds.takeWhile Lexer.isWordChar := by
    have hextent : Lexer.extent d ds = (ds.takeWhile Lexer.isWordChar).length := by
      simp [Lexer.extent, hdigit, hword]
    show ds.take (Lexer.extent d ds) = _
    rw [hextent]
    exact (List.prefix_iff_eq_take.1 (List.takeWhile_prefix _)).symm
  rw [htake]
  exact List.all_takeWhile

/-- What a lexeme must be for its token to be an identifier. -/
theorem classify_eq_identifier {d : Char} {ds : List Char}
    (h : Lexer.classify d ds = .token .identifier) :
    d.isDigit = false ∧ Lexer.isWordStart d = true ∧ Keyword.ofText? (d :: ds) = none := by
  unfold Lexer.classify at h
  split at h
  · unfold Lexer.classifyDigits at h
    dsimp only at h
    split at h <;> cases h
  · next hdigit =>
    split at h
    · next hword =>
      unfold Lexer.classifyWord at h
      split at h
      · cases h
      · next hnone => exact ⟨by simpa using hdigit, hword, hnone⟩
    · split at h
      · cases h
      · split at h <;> cases h

/-- What a lexeme must be for its token to be an integer. -/
theorem classify_eq_int {d : Char} {ds : List Char} {n : Int64}
    (h : Lexer.classify d ds = .token (.int n)) :
    ∃ value, value ≤ Lexer.maxInt ∧ n = Int64.ofNat value := by
  unfold Lexer.classify at h
  split at h
  · unfold Lexer.classifyDigits at h
    dsimp only at h
    split at h
    · next hle =>
      cases h
      exact ⟨_, hle, rfl⟩
    · cases h
  · split at h
    · unfold Lexer.classifyWord at h
      split at h <;> cases h
    · split at h
      · cases h
      · split at h <;> cases h

/-- The lexeme of an identifier is a word that is not reserved. -/
theorem isIdentifier_of_mem (h : .ok t ∈ Lexer.items line cs) (ht : t.kind = .identifier) :
    isIdentifier t.lexeme = true := by
  rcases Lexer.mem_items h with heof | ⟨d, ds, hkind, hlexeme⟩
  · rw [ht] at heof
    cases heof
  · rw [ht] at hkind
    obtain ⟨hdigit, hword, hnone⟩ := classify_eq_identifier hkind
    have hall := all_isWordChar_munch ds hdigit hword
    have hlist : (Lexer.munch d ds).1 = d :: (Lexer.munch d ds).1.tail := rfl
    rw [hlexeme, hlist]
    simp only [isIdentifier, String.toList_ofList, hword, hall, hnone]
    rfl

/-- The value of an integer is not negative. -/
theorem int_nonneg_of_mem {n : Int64} (h : .ok t ∈ Lexer.items line cs) (ht : t.kind = .int n) :
    0 ≤ n.toInt := by
  rcases Lexer.mem_items h with heof | ⟨d, ds, hkind, _⟩
  · rw [ht] at heof
    cases heof
  · rw [ht] at hkind
    obtain ⟨value, hle, rfl⟩ := classify_eq_int hkind
    have hlt : value < 2 ^ 63 := Nat.lt_succ_of_le hle
    rw [Int64.toInt_ofNat_of_lt hlt]
    exact Int.natCast_nonneg value

end

end Featherweight
