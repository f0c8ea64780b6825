import Featherweight.Parser.Source
import Featherweight.Proofs.Parsing.Completeness
import Featherweight.Proofs.Parsing.Regrouping
import Featherweight.Proofs.Parsing.Soundness

/-!
# What the parser accepts

The parser answers with a tree exactly if the grammar derives the tokens, and the tree is what the
tokens stand for when every `else` belongs to the nearest `if` that has none.
-/

namespace Featherweight.Grammar

/-- Reading a program finds what its tokens stand for, with every `else` at the nearest `if`. -/
theorem ofTokens_eq_ok_iff {ts : List Token} {eof : Token} {e : Expr}
    (hts : ∀ t ∈ ts, t.kind ≠ .eof) (heof : eof.kind = .eof) :
    Expr.ofTokens (ts ++ [eof]) = .ok e ↔ Program .nearest ts e := by
  unfold Expr.ofTokens
  constructor
  · intro h
    split at h
    · next e' rest hread =>
      cases h
      exact Parser.program_sound hts heof hread
    · cases h
  · intro h
    rw [Parser.program_complete heof h]

/-- Two readings of the same tokens with every `else` at the nearest `if` stand for the same. -/
theorem Program.unique {ts : List Token} {e e' : Expr} (hts : ∀ t ∈ ts, t.kind ≠ .eof)
    (h : Program .nearest ts e) (h' : Program .nearest ts e') : e = e' := by
  have heof : Parser.endOfInput.kind = .eof := rfl
  have hread := (ofTokens_eq_ok_iff hts heof).2 h
  rw [(ofTokens_eq_ok_iff hts heof).2 h'] at hread
  cases hread
  rfl

/-- The parser accepts the tokens that the grammar derives in some way, of which it finds the one
tree with every `else` at the nearest `if` that has none. -/
theorem ofTokens_iff_derivable {ts : List Token} {eof : Token} (hts : ∀ t ∈ ts, t.kind ≠ .eof)
    (heof : eof.kind = .eof) :
    ((∃ e, Expr.ofTokens (ts ++ [eof]) = .ok e) ↔ ∃ e, Program .any ts e) ∧
      (∀ e, Expr.ofTokens (ts ++ [eof]) = .ok e ↔ Program .nearest ts e) ∧
      ∀ e e', Program .nearest ts e → Program .nearest ts e' → e = e' := by
  refine ⟨⟨?_, ?_⟩, fun e => ofTokens_eq_ok_iff hts heof, fun e e' => Program.unique hts⟩
  · rintro ⟨e, h⟩
    exact exists_program_of_rule ((ofTokens_eq_ok_iff hts heof).1 h) .any
  · rintro ⟨e, h⟩
    obtain ⟨e', h'⟩ := exists_program_of_rule h .nearest
    exact ⟨e', (ofTokens_eq_ok_iff hts heof).2 h'⟩

/-- The tokens of `if (a) if (b) x; else y;`. -/
def twoIfs : List Token :=
  [⟨.keyword .ifWord, "if", 1⟩, ⟨.symbol .leftParen, "(", 1⟩, ⟨.identifier, "a", 1⟩,
    ⟨.symbol .rightParen, ")", 1⟩, ⟨.keyword .ifWord, "if", 1⟩, ⟨.symbol .leftParen, "(", 1⟩,
    ⟨.identifier, "b", 1⟩, ⟨.symbol .rightParen, ")", 1⟩, ⟨.identifier, "x", 1⟩,
    ⟨.symbol .semicolon, ";", 1⟩, ⟨.keyword .elseWord, "else", 1⟩, ⟨.identifier, "y", 1⟩,
    ⟨.symbol .semicolon, ";", 1⟩]

/-- The `else` in `if (a) if (b) x; else y;` belongs to the second `if` and to no other. -/
theorem derives_twoIfs_iff : (∀ t ∈ twoIfs, t.kind ≠ .eof) ∧ Parser.endOfInput.kind = .eof ∧
    ∀ e, Program .nearest twoIfs e ↔
      e = .ifElse (.ident "a") (.ifElse (.ident "b") (.ident "x") (.ident "y")) .null := by
  have heof : Parser.endOfInput.kind = .eof := rfl
  refine ⟨by decide, heof, fun e => ?_⟩
  have hread : Expr.ofTokens (twoIfs ++ [Parser.endOfInput]) =
      .ok (.ifElse (.ident "a") (.ifElse (.ident "b") (.ident "x") (.ident "y")) .null) := rfl
  rw [← (ofTokens_iff_derivable (by decide) heof).2.1 e, hread]
  exact ⟨fun h => (Except.ok.inj h).symm, fun h => h ▸ rfl⟩

end Featherweight.Grammar
