import Featherweight.Proofs.Parsing.Derivation
import Featherweight.Proofs.Parsing.Success

/-!
# How phrases begin and what may follow them

The parser decides by the next one or two tokens which rule to go on with. Two facts make these
decisions right. A comparison begins with a token of its own, with `function (`, or with a name that
no `=` follows (`Front`), so it is taken neither for an assignment nor for a named function nor for
another statement. And an operator or a list of arguments begins with a symbol that no phrase inside
it could go on with (`Avoids`).
-/

namespace Featherweight.Grammar

open Featherweight.Parser (next afterNext next_cons afterNext_cons Ahead)

/-! ### What may follow -/

/-- None of the symbols comes next. -/
def Avoids (cs : List Symbol) (rest : List Token) : Prop :=
  ∀ c ∈ cs, (next rest).kind ≠ .symbol c

theorem Avoids.mono {cs ds : List Symbol} {rest : List Token} (h : Avoids cs rest)
    (hds : ds ⊆ cs) : Avoids ds rest := fun c hc => h c (hds hc)

theorem avoids_cons {cs : List Symbol} {c : Symbol} {t : Token} (ht : t.kind = .symbol c)
    (hc : c ∉ cs) (ts : List Token) : Avoids cs (t :: ts) := by
  intro d hd heq
  have hcd : TokenKind.symbol c = .symbol d := ht.symm.trans heq
  cases hcd
  exact hc hd

theorem symbol_injective {op op' : BinaryOp} (h : op.symbol = op'.symbol) : op = op' := by
  cases op <;> cases op' <;> first | rfl | cases h

section Tails

variable {phrase : Phrase Expr} {left e : Expr} {us rest : List Token} {cs : List Symbol}

/-- Operations begin with one of their operators. -/
theorem Operations.avoids {ops : List BinaryOp} (h : Operations ops phrase left us e)
    (hops : ∀ op ∈ ops, op.symbol ∉ cs) (hrest : Avoids cs rest) : Avoids cs (us ++ rest) := by
  cases h with
  | done => exact hrest
  | more hop ho _ _ => exact avoids_cons ho (hops _ hop) _

/-- Argument lists begin with a parenthesis. -/
theorem ArgumentLists.avoids (h : ArgumentLists phrase left us e) (hcs : .leftParen ∉ cs)
    (hrest : Avoids cs rest) : Avoids cs (us ++ rest) := by
  cases h with
  | done => exact hrest
  | more hl _ _ _ => exact avoids_cons hl hcs _

end Tails

/-! ### How operands begin -/

/-- The first token of an operand, unless that is a name or `function`. -/
def beginsOperand : TokenKind → Bool
  | .int _ | .symbol .leftParen | .symbol .minus => true
  | .keyword .trueWord | .keyword .falseWord | .keyword .nullWord | .keyword .printWord => true
  | _ => false

/-- The tokens begin like a comparison. -/
inductive Front : List Token → Prop
  | token {t : Token} {ts : List Token} (ht : beginsOperand t.kind = true) : Front (t :: ts)
  | name {x : Token} {ts : List Token} (hx : x.kind = .identifier) (hts : Avoids [.equal] ts) :
      Front (x :: ts)
  | function {f l : Token} {ts : List Token} (hf : f.kind = .keyword .functionWord)
      (hl : l.kind = .symbol .leftParen) : Front (f :: l :: ts)

namespace Front

variable {ts : List Token}

/-- No other token begins a comparison. -/
theorem next_kind (h : Front ts) :
    beginsOperand (next ts).kind = true ∨ (next ts).kind = .identifier ∨
      (next ts).kind = .keyword .functionWord := by
  cases h with
  | token ht      => exact .inl ht
  | name hx _     => exact .inr (.inl hx)
  | function hf _ => exact .inr (.inr hf)

theorem next_ne {k : TokenKind} (h : Front ts) (hk : beginsOperand k = false)
    (hx : k ≠ .identifier) (hf : k ≠ .keyword .functionWord) : (next ts).kind ≠ k := by
  rintro rfl
  rcases h.next_kind with h | h | h
  · rw [hk] at h
    cases h
  · exact hx h
  · exact hf h

theorem not_assignment (h : Front ts) : ¬ Ahead .identifier (.symbol .equal) ts := by
  rintro ⟨hk, hl⟩
  cases h with
  | token ht =>
    rw [next_cons] at hk
    rw [hk] at ht
    cases ht
  | name hx hts =>
    rw [afterNext_cons (by rw [hx]; decide)] at hl
    exact hts .equal (List.mem_singleton.2 rfl) hl
  | function hf _ =>
    rw [next_cons, hf] at hk
    cases hk

theorem not_namedFunction (h : Front ts) :
    ¬ Ahead (.keyword .functionWord) .identifier ts := by
  rintro ⟨hk, hl⟩
  cases h with
  | token ht =>
    rw [next_cons] at hk
    rw [hk] at ht
    cases ht
  | name hx _ =>
    rw [next_cons, hx] at hk
    cases hk
  | function hf h =>
    rw [afterNext_cons (by rw [hf]; decide), next_cons, h] at hl
    cases hl

end Front

/-- Whatever follows other than `=`, the tokens begin like a comparison. -/
def Fronted (phrase : Phrase Expr) : Prop :=
  ∀ ⦃us e rest⦄, phrase us e → Avoids [.equal] rest → Front (us ++ rest)

section Fronted

variable {rule : ElseRule}

theorem fronted_primary : Fronted (Primary rule) := by
  intro us e rest h hrest
  cases h with
  | int ht | true ht | false ht | null ht => exact .token (by rw [ht]; rfl)
  | ident hx => exact .name hx hrest
  | paren hl _ _ => exact .token (by rw [hl]; rfl)
  | print hp _ _ _ => exact .token (by rw [hp]; rfl)
  | function hf he =>
    cases he with
    | rest hl _ _ _ => exact .function hf hl

/-- A call does not begin with a minus sign. -/
theorem Call.next_ne_minus {us : List Token} {e : Expr} (h : Call rule us e) (rest : List Token) :
    (next (us ++ rest)).kind ≠ .symbol .minus := by
  intro hk
  cases h with
  | applied hf _ =>
    cases hf with
    | int ht | true ht | false ht | null ht | ident ht | paren ht _ _ | print ht _ _ _
    | function ht _ => cases hk.symm.trans ht

theorem fronted_call : Fronted (Call rule) := by
  intro us e rest h hrest
  cases h with
  | applied hf hs =>
    rw [List.append_assoc]
    exact fronted_primary hf (hs.avoids (by decide) hrest)

theorem fronted_unary : Fronted (Unary rule) := by
  intro us e rest h hrest
  cases h with
  | negate hm _ => exact .token (by rw [hm]; rfl)
  | call h => exact fronted_call h hrest

theorem Fronted.chain {phrase : Phrase Expr} {ops : List BinaryOp} (h : Fronted phrase)
    (hops : ∀ op ∈ ops, op.symbol ∉ [Symbol.equal]) : Fronted (Chain ops phrase) := by
  intro us e rest hc hrest
  cases hc with
  | operands hl hs =>
    rw [List.append_assoc]
    exact h hl (hs.avoids hops hrest)

theorem fronted_factor : Fronted (Factor rule) := by
  intro us e rest h hrest
  cases h with
  | chain h => exact fronted_unary.chain (by decide) h hrest

theorem fronted_term : Fronted (Term rule) := by
  intro us e rest h hrest
  cases h with
  | chain h => exact fronted_factor.chain (by decide) h hrest

theorem fronted_comparison : Fronted (Comparison rule) := by
  intro us e rest h hrest
  cases h with
  | chain h => exact fronted_term.chain (by decide) h hrest

end Fronted

/-! ### How expressions and statements begin -/

section Expression

variable {rule : ElseRule} {us rest : List Token} {e : Expr}

theorem Expression.next_ne (h : Expression rule us e) (hrest : Avoids [.equal] rest)
    {k : TokenKind} (hk : beginsOperand k = false) (hx : k ≠ .identifier)
    (hf : k ≠ .keyword .functionWord) (hv : k ≠ .keyword .varWord) :
    (next (us ++ rest)).kind ≠ k := by
  cases h with
  | declare hv' _ | declareAs hv' _ _ _ => exact fun h => hv (h.symm.trans hv')
  | assign hx' _ _ => exact fun h => hx (h.symm.trans hx')
  | comparison h => exact (fronted_comparison h hrest).next_ne hk hx hf

theorem Expression.not_namedFunction (h : Expression rule us e) (hrest : Avoids [.equal] rest) :
    ¬ Ahead (.keyword .functionWord) .identifier (us ++ rest) := by
  cases h with
  | declare hv' _ | declareAs hv' _ _ _ =>
    rintro ⟨hk, -⟩
    cases hk.symm.trans hv'
  | assign hx' _ _ =>
    rintro ⟨hk, -⟩
    cases hk.symm.trans hx'
  | comparison h => exact (fronted_comparison h hrest).not_namedFunction

/-- The tokens that close a list or a block, end the input or go on with a conditional. -/
def closes : TokenKind → Bool
  | .symbol .rightParen | .symbol .rightBrace | .keyword .elseWord | .eof => true
  | _ => false

/-- There is a first token, and it is none that closes something. -/
def Begins (us : List Token) : Prop := ∃ t vs, us = t :: vs ∧ closes t.kind = false

theorem Begins.append (h : Begins us) (vs : List Token) : Begins (us ++ vs) := by
  obtain ⟨t, ts, rfl, ht⟩ := h
  exact ⟨t, ts ++ vs, rfl, ht⟩

theorem Begins.next_ne (h : Begins us) {k : TokenKind} (hk : closes k = true) :
    (next us).kind ≠ k := by
  rintro rfl
  obtain ⟨t, ts, rfl, ht⟩ := h
  cases hk.symm.trans ht

theorem Begins.length_pos (h : Begins us) : 0 < us.length := by
  obtain ⟨t, ts, rfl, -⟩ := h
  exact Nat.succ_pos _

theorem CommaList.begins {α : Type} {item : Phrase α} {as : List α}
    (hitem : ∀ {us a}, item us a → Begins us) (h : CommaList item us as) : Begins us := by
  cases h with
  | one ha      => exact hitem ha
  | more ha _ _ => exact (hitem ha).append _

theorem closes_of_beginsOperand {k : TokenKind} (h : beginsOperand k = true) :
    closes k = false := by
  cases k with
  | symbol s => cases s <;> first | rfl | cases h
  | keyword w => cases w <;> first | rfl | cases h
  | identifier => cases h
  | int n => rfl
  | eof => cases h

theorem Front.begins (h : Front us) : Begins us := by
  cases h with
  | @token t ts ht =>
    exact ⟨t, ts, rfl, closes_of_beginsOperand ht⟩
  | name hx _     => exact ⟨_, _, rfl, by rw [hx]; rfl⟩
  | function hf _ => exact ⟨_, _, rfl, by rw [hf]; rfl⟩

theorem Expression.begins (h : Expression rule us e) : Begins us := by
  cases h with
  | declare hv _ | declareAs hv _ _ _ => exact ⟨_, _, rfl, by rw [hv]; rfl⟩
  | assign hx _ _ => exact ⟨_, _, rfl, by rw [hx]; rfl⟩
  | comparison h =>
    have hnil : Avoids [.equal] [] := fun c _ => nofun
    simpa using (fronted_comparison h hnil).begins

theorem Block.begins (h : Block rule us e) : Begins us := by
  cases h with
  | braces hl _ _ => exact ⟨_, _, rfl, by rw [hl]; rfl⟩

theorem Statement.begins {o : Option Expr} {dangling : Bool}
    (h : Statement rule us o dangling) : Begins us := by
  cases h with
  | empty hs => exact ⟨_, _, rfl, by rw [hs]; rfl⟩
  | block hb => exact hb.begins
  | ifElse hi _ _ _ _ _ _ _ | ifOnly hi _ _ _ _ => exact ⟨_, _, rfl, by rw [hi]; rfl⟩
  | loop hw _ _ _ _ => exact ⟨_, _, rfl, by rw [hw]; rfl⟩
  | function hf _ _ => exact ⟨_, _, rfl, by rw [hf]; rfl⟩
  | expression he _ => exact he.begins.append _

/-- No statement begins with `else`. -/
theorem Statements.next_ne_else {es : List Expr} (h : Statements rule us es)
    (hrest : (next rest).kind ≠ .keyword .elseWord) :
    (next (us ++ rest)).kind ≠ .keyword .elseWord := by
  cases h with
  | nil => exact hrest
  | cons ho _ => exact ((ho.begins.append _).append _).next_ne rfl

end Expression

end Featherweight.Grammar
