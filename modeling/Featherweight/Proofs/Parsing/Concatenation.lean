import Featherweight.Proofs.Parsing.Acceptance
import Featherweight.Proofs.Parsing.Alike

/-!
# Programs one after the other

Two texts with a line feed between them are a program if each of them is, and their statements are
those of the first one followed by those of the second one (`exists_ofSource_append`). No statement
goes past the seam, as none can begin with `else`, and no comment does, as it ends with its line.
-/

namespace Featherweight

namespace Grammar

variable {rule : ElseRule} {us vs : List Token} {es es' : List Expr}

/-! ### Statements -/

/-- What holds of no statements, and of a statement and others if of the others, holds of all. -/
theorem Statements.induction {P : List Token → List Expr → Prop} (nil : P [] [])
    (cons : ∀ {us vs o dangling es}, Statement rule us o dangling → Statements rule vs es →
      P vs es → P (us ++ vs) (o.toList ++ es)) (h : Statements rule us es) : P us es := by
  induction hlen : us.length using Nat.strongRecOn generalizing us es with
  | _ n ih =>
    cases h with
    | nil => exact nil
    | @cons us vs o dangling es ho hes =>
      -- A statement has a first token, so that fewer are left after it.
      have hpos := ho.begins.length_pos
      rw [List.length_append] at hlen
      have hvs : P vs es := ih vs.length (by omega) hes rfl
      exact cons ho hes hvs

theorem Statements.append (h : Statements rule us es) (h' : Statements rule vs es') :
    Statements rule (us ++ vs) (es ++ es') := by
  apply h.induction (P := fun us es => Statements rule (us ++ vs) (es ++ es'))
  · exact h'
  · intro us _ o _ es ho _ ih
    rw [List.append_assoc, List.append_assoc]
    exact .cons ho ih

/-- A statement is empty if there is nothing to it but a semicolon. -/
theorem Statement.eq_none_iff {o : Option Expr} {dangling : Bool}
    (h : Statement rule us o dangling) :
    o = none ↔ ∀ t ∈ us, t.kind = .symbol .semicolon := by
  cases h with
  | empty hs =>
    refine iff_of_true rfl fun t ht => ?_
    rw [List.mem_singleton.1 ht]
    exact hs
  | block he =>
    refine iff_of_false nofun fun hall => ?_
    cases he with
    | braces hl _ _ => cases hl.symm.trans (hall _ List.mem_cons_self)
  | ifElse hi _ _ _ _ _ _ _ | ifOnly hi _ _ _ _ =>
    exact iff_of_false nofun fun hall => nomatch hi.symm.trans (hall _ List.mem_cons_self)
  | loop hw _ _ _ _ =>
    exact iff_of_false nofun fun hall => nomatch hw.symm.trans (hall _ List.mem_cons_self)
  | function hf _ _ =>
    exact iff_of_false nofun fun hall => nomatch hf.symm.trans (hall _ List.mem_cons_self)
  | expression he _ =>
    refine iff_of_false nofun fun hall => ?_
    have hnil : Avoids [.equal] [] := fun c _ => nofun
    have hne := he.next_ne hnil (k := .symbol .semicolon) rfl nofun nofun nofun
    obtain ⟨t, ts, rfl, -⟩ := he.begins
    exact hne (hall t (List.mem_append_left _ List.mem_cons_self))

/-- Statements are all empty if there is nothing to them but semicolons. -/
theorem Statements.eq_nil_iff (h : Statements rule us es) :
    es = [] ↔ ∀ t ∈ us, t.kind = .symbol .semicolon := by
  apply h.induction (P := fun us es => es = [] ↔ ∀ t ∈ us, t.kind = .symbol .semicolon)
  · exact iff_of_true rfl nofun
  · intro us vs o _ es ho _ ih
    rw [List.append_eq_nil_iff, List.forall_mem_append, ← ho.eq_none_iff, ih,
      Option.toList_eq_nil_iff]

end Grammar

/-! ### Texts -/

/-- Is the item anything but a semicolon and the end of the input? -/
def isSubstantial : Except LexError Token → Bool
  | .ok t    => t.kind ≠ .symbol .semicolon && t.kind ≠ .eof
  | .error _ => true

/-- Is there a statement in the text that is not empty? -/
def hasStatement (source : String) : Bool := (scan source).any isSubstantial

theorem hasStatement_eq (source : String) (k : Nat) :
    hasStatement source = (Lexer.items (1 + k) source.toList).any isSubstantial := by
  have hbelow : isSubstantial ∘ Lexer.below k = isSubstantial := by
    funext item
    cases item <;> rfl
  rw [Lexer.items_add, List.any_map, hbelow]
  rfl

/-- The tokens of a program are statements and the end of the input, whatever line it begins on. -/
theorem exists_statements_of_ofSource {source : String} {e : Expr}
    (h : Expr.ofSource source = .ok e) (k : Nat) :
    ∃ ts last es, Lexer.items (1 + k) source.toList = (ts ++ [Token.mk .eof "" last]).map .ok ∧
      (∀ t ∈ ts, t.kind ≠ .eof) ∧ Grammar.Statements .nearest ts es ∧ e = .sequence es := by
  obtain ⟨ts, hitems, he⟩ := Expr.ofSource_eq_ok_iff.1 h
  -- Further down the tokens are the same but for their lines, which the parser does not look at.
  have hbelow : Lexer.items (1 + k) source.toList = (ts.map (Token.below k)).map .ok := by
    rw [Lexer.items_add, hitems, List.map_map, List.map_map]
    rfl
  have halike : List.Forall₂ (Token.Alike fun _ _ => True) ts (ts.map (Token.below k)) := by
    rw [List.forall₂_map_right_iff, List.forall₂_same]
    intro t ht
    have hmem : .ok t ∈ Lexer.items 1 source.toList := hitems ▸ List.mem_map_of_mem ht
    exact Token.alike_of_mem hmem rfl rfl trivial
  have hread : Expr.ofTokens (ts.map (Token.below k)) = .ok e :=
    (Expr.ofTokens_eq_ok_of_alike halike he).1
  obtain ⟨us, last, hus, hne⟩ := exists_tokens_eq hbelow
  rw [hus] at hread hbelow
  have hprogram := (Grammar.ofTokens_eq_ok_iff hne rfl).1 hread
  obtain ⟨es, hes, rfl⟩ := Grammar.program_iff.1 hprogram
  exact ⟨us, last, es, hbelow, hne, hes, rfl⟩

/-- A program has a statement that is not empty if a tree was found for one. -/
theorem hasStatement_eq_not_isEmpty {source : String} {k last : Nat} {ts : List Token}
    {es : List Expr} {rule : Grammar.ElseRule}
    (hitems : Lexer.items (1 + k) source.toList = (ts ++ [Token.mk .eof "" last]).map .ok)
    (hne : ∀ t ∈ ts, t.kind ≠ .eof) (h : Grammar.Statements rule ts es) :
    hasStatement source = !es.isEmpty := by
  have hany : hasStatement source = ts.any (isSubstantial ∘ .ok) := by
    rw [hasStatement_eq source k, hitems, List.any_map, List.any_append]
    exact Bool.or_false _
  rw [hany, Bool.eq_iff_iff, Bool.not_eq_true', ← Bool.not_eq_true, List.isEmpty_iff,
    h.eq_nil_iff, List.any_eq_true]
  constructor
  · rintro ⟨t, ht, hsub⟩ hall
    simp [isSubstantial, hall t ht] at hsub
  · intro hall
    push Not at hall
    obtain ⟨t, ht, hkind⟩ := hall
    exact ⟨t, ht, by simp [isSubstantial, hkind, hne t ht]⟩

/-- The statements of two programs with a line feed between them are those of the first one and then
those of the second one. -/
theorem exists_ofSource_append {s₁ s₂ : String} {t₁ t₂ : Expr} (h₁ : Expr.ofSource s₁ = .ok t₁)
    (h₂ : Expr.ofSource s₂ = .ok t₂) :
    ∃ es₁ es₂, t₁ = .sequence es₁ ∧ t₂ = .sequence es₂ ∧
      Expr.ofSource (s₁ ++ "\n" ++ s₂) = .ok (.sequence (es₁ ++ es₂)) ∧
      hasStatement s₂ = !es₂.isEmpty := by
  obtain ⟨ts₁, last₁, es₁, hitems₁, hne₁, hes₁, rfl⟩ := exists_statements_of_ofSource h₁ 0
  obtain ⟨ts₂, last₂, es₂, hitems₂, hne₂, hes₂, rfl⟩ :=
    exists_statements_of_ofSource h₂ (s₁.toList.count '\n' + 1)
  refine ⟨es₁, es₂, rfl, rfl, ?_, hasStatement_eq_not_isEmpty hitems₂ hne₂ hes₂⟩
  have hchars : (s₁ ++ "\n" ++ s₂).toList = s₁.toList ++ '\n' :: s₂.toList := by
    simp
  have hitems : Lexer.items 1 (s₁ ++ "\n" ++ s₂).toList =
      (ts₁ ++ ts₂ ++ [Token.mk .eof "" last₂]).map .ok := by
    rw [hchars, Lexer.items_append_newline, Nat.add_assoc, hitems₂, ← Nat.add_zero 1, hitems₁]
    simp
  have hne : ∀ t ∈ ts₁ ++ ts₂, t.kind ≠ .eof := List.forall_mem_append.2 ⟨hne₁, hne₂⟩
  have hprogram : Grammar.Program .nearest (ts₁ ++ ts₂) (.sequence (es₁ ++ es₂)) :=
    Grammar.program_iff.2 ⟨es₁ ++ es₂, hes₁.append hes₂, rfl⟩
  exact Expr.ofSource_eq_ok_iff.2 ⟨_, hitems, (Grammar.ofTokens_eq_ok_iff hne rfl).2 hprogram⟩

end Featherweight
