import Featherweight.Proofs.Parsing.Alike
import Featherweight.Proofs.Scanning.Layout

/-!
# Programs in another layout

A text in another layout is the same program, or is no program for the same fault, for which the
same token is to blame (`Layout.ofSource_relaid`). The token to blame is found by numbering the
tokens, which are then read in lockstep with the tokens on any other lines.
-/

namespace Featherweight

/-- Are the tokens such as a text can have, and the same but for their lines? -/
def Relined (ts us : List Token) : Prop := List.Forall₂ (Token.Alike fun _ _ => True) ts us

/-- The tokens, each with its place in the list as its line. -/
def numbered (ts : List Token) : List Token := ts.mapIdx fun k t => { t with line := k }

/-- Are these the tokens at one place of two lists, of which the first is numbered? -/
def AtOnePlace (ts us : List Token) (t u : Token) : Prop :=
  (numbered ts)[t.line]? = some t ∧ us[t.line]? = some u

theorem ParseFault.IsAbout.of_relined {fault : ParseFault} {t u : Token} (h : fault.IsAbout t)
    (hkind : t.kind = u.kind) (hlexeme : t.lexeme = u.lexeme) : fault.IsAbout u := by
  have hfound : t.found = u.found := by rw [Token.found, Token.found, hkind, hlexeme]
  cases fault with
  | expected what found => exact Eq.trans h hfound
  | noExpression found  => exact Eq.trans h hfound
  | tooManyParameters   => exact hkind.symm.trans h
  | tooManyArguments    => trivial

theorem Relined.alike_numbered {ts us : List Token} (h : Relined ts us)
    (heof : ∃ t ∈ ts, t.kind = .eof) : Parser.Alike (AtOnePlace ts us) (numbered ts) us where
  tokens := by
    obtain ⟨hlength, hget⟩ := List.forall₂_iff_get.1 h
    have hlength' : (numbered ts).length = ts.length := List.length_mapIdx
    refine List.forall₂_iff_get.2 ⟨hlength'.trans hlength, fun k hk hk' => ?_⟩
    have hts : k < ts.length := hlength' ▸ hk
    have halike := hget k hts hk'
    have hnumbered : (numbered ts).get ⟨k, hk⟩ = { ts.get ⟨k, hts⟩ with line := k } :=
      List.getElem_mapIdx
    have hplace : (numbered ts)[k]? = some { ts.get ⟨k, hts⟩ with line := k } := by
      rw [← hnumbered]
      exact List.getElem?_eq_getElem hk
    rw [hnumbered]
    exact ⟨halike.kind, halike.lexeme, ⟨hplace, List.getElem?_eq_getElem hk'⟩, halike.identifier,
      halike.int⟩
  closed := by
    obtain ⟨t, ht, hkind⟩ := heof
    obtain ⟨k, hk, rfl⟩ := List.getElem_of_mem ht
    refine .inr ⟨{ ts[k] with line := k }, ?_, hkind⟩
    exact List.mem_mapIdx.2 ⟨k, hk, rfl⟩

/-- Tokens are one program on whatever lines they are, or have one fault, for which the token at one
place is to blame. -/
theorem Expr.ofTokens_relined {ts : List Token} (hts : Relined ts ts)
    (heof : ∃ t ∈ ts, t.kind = .eof) :
    (∃ e, ∀ us, Relined ts us → Expr.ofTokens us = .ok e) ∨
      ∃ (k : Nat) (t : Token) (fault : ParseFault), ts[k]? = some t ∧ fault.IsAbout t ∧
        ∀ us, Relined ts us →
          ∃ u : Token, us[k]? = some u ∧ Expr.ofTokens us = .error ⟨u.line, fault⟩ := by
  cases hread : Expr.ofTokens (numbered ts) with
  | ok e =>
    refine .inl ⟨e, fun us hus => ?_⟩
    rcases Expr.ofTokens_alike (hus.alike_numbered heof) with ⟨e', he', hsame, -⟩ | ⟨f, _, hf, -⟩
    · rw [hsame, ← he', hread]
    · cases hread.symm.trans hf
  | error f =>
    -- The fault is on the line that the token to blame has in the numbered list.
    obtain ⟨k, fault⟩ := f
    have hblame : ∀ us, Relined ts us →
        ∃ t u : Token, (numbered ts)[k]? = some t ∧ fault.IsAbout t ∧
          us[k]? = some u ∧ Expr.ofTokens us = .error ⟨u.line, fault⟩ := by
      intro us hus
      rcases Expr.ofTokens_alike (hus.alike_numbered heof) with
        ⟨_, he, -⟩ | ⟨f, f', hf, hf', halike⟩
      · cases hread.symm.trans he
      · cases halike with
        | @about t u fault' hplace hfault =>
          cases hread.symm.trans hf
          exact ⟨t, u, hplace.1, hfault, hplace.2, hf'⟩
    obtain ⟨t, u, ht, hfault, hu, -⟩ := hblame ts hts
    refine .inr ⟨k, u, fault, hu, ?_, fun us hus => ?_⟩
    · rw [numbered, List.getElem?_mapIdx, hu] at ht
      obtain rfl := Option.some.inj ht
      exact hfault.of_relined rfl rfl
    · obtain ⟨_, u, _, _, hu, hf⟩ := hblame us hus
      exact ⟨u, hu, hf⟩

/-- The tokens of a text are such as a text can have, and tokens of the same words are the same but
for their lines. -/
theorem relined_of_map_word {source : String} {ts us : List Token} (h : tokenize source = .ok ts)
    (hwords : ts.map Token.word = us.map Token.word) : Relined ts us := by
  have hitems := tokenize_eq_ok_iff.1 h
  have hmem : ∀ t ∈ ts, .ok t ∈ Lexer.items 1 source.toList := by
    intro t ht
    rw [hitems]
    exact List.mem_map_of_mem ht
  clear h hitems
  induction ts generalizing us with
  | nil =>
    rw [List.map_eq_nil_iff.1 hwords.symm]
    exact .nil
  | cons t ts ih =>
    obtain ⟨ht, hts⟩ := List.forall_mem_cons.1 hmem
    cases us with
    | nil => cases hwords
    | cons u us =>
      obtain ⟨hword, hwords⟩ := List.cons.inj hwords
      obtain ⟨hkind, hlexeme⟩ := Prod.mk.inj hword
      exact .cons (Token.alike_of_mem ht hkind hlexeme trivial) (ih hwords hts)

theorem Expr.ofSource_of_tokenize {source : String} {ts : List Token}
    (h : tokenize source = .ok ts) :
    Expr.ofSource source = (Expr.ofTokens ts).mapError .grammatical := by
  rw [Expr.ofSource, h]
  rfl

/-- A text that is cut into tokens is cut into the same ones, on the lines they are on then, in
every layout of these. It is the same program in every layout, or has the same fault in every
layout, for which one of the tokens is to blame, on the line it is on: of the fault that a function
has too many parameters, the parenthesis before them. -/
theorem Layout.ofSource_relaid {source : String} {ts : List Token}
    (h : tokenize source = .ok ts) :
    (∀ l : Layout, l.IsOf ts →
        tokenize l.source = .ok l.tokens ∧ l.tokens.map Token.word = ts.map Token.word) ∧
      ((∃ e, Expr.ofSource source = .ok e ∧
          ∀ l : Layout, l.IsOf ts → Expr.ofSource l.source = .ok e) ∨
        ∃ (k : Nat) (t : Token) (fault : ParseFault), ts[k]? = some t ∧ fault.IsAbout t ∧
          Expr.ofSource source = .error (.grammatical ⟨t.line, fault⟩) ∧
          ∀ l : Layout, l.IsOf ts → ∃ t' : Token, l.tokens[k]? = some t' ∧
            Expr.ofSource l.source = .error (.grammatical ⟨t'.line, fault⟩)) := by
  refine ⟨fun l hl => l.tokenize_source h hl, ?_⟩
  have hts : Relined ts ts := relined_of_map_word h rfl
  have htokens : ∀ l : Layout, l.IsOf ts → Relined ts l.tokens :=
    fun l hl => relined_of_map_word h (l.tokenize_source h hl).2.symm
  have heof : ∃ t ∈ ts, t.kind = .eof := by
    obtain ⟨before, last, rfl, -⟩ := exists_tokens_eq (tokenize_eq_ok_iff.1 h)
    exact ⟨_, List.mem_append_right before List.mem_cons_self, rfl⟩
  rcases Expr.ofTokens_relined hts heof with ⟨e, he⟩ | ⟨k, t, fault, ht, hfault, hf⟩
  · refine .inl ⟨e, ?_, fun l hl => ?_⟩
    · rw [Expr.ofSource_of_tokenize h, he ts hts]
      rfl
    · rw [Expr.ofSource_of_tokenize (l.tokenize_source h hl).1, he _ (htokens l hl)]
      rfl
  · refine .inr ⟨k, t, fault, ht, hfault, ?_, fun l hl => ?_⟩
    · obtain ⟨u, hu, hf⟩ := hf ts hts
      cases ht.symm.trans hu
      rw [Expr.ofSource_of_tokenize h, hf]
      rfl
    · obtain ⟨u, hu, hf⟩ := hf _ (htokens l hl)
      refine ⟨u, hu, ?_⟩
      rw [Expr.ofSource_of_tokenize (l.tokenize_source h hl).1, hf]
      rfl

/-- The tokens of `f(1;`. -/
def unclosedCall : List Token :=
  [⟨.identifier, "f", 1⟩, ⟨.symbol .leftParen, "(", 1⟩, ⟨.int 1, "1", 1⟩,
    ⟨.symbol .semicolon, ";", 1⟩, ⟨.eof, "", 1⟩]

/-- The same tokens on four lines, with comments. -/
def unclosedLayout : Layout where
  lead := "// a call\n".toList
  pieces := (unclosedCall.dropLast).zip [" ".toList, " // one\n".toList, "\n".toList, []]
  lead_trivia := by
    have htext : '\n' ∉ " a call".toList := by decide
    exact .comment htext .nil
  spaced := by
    have htext : '\n' ∉ " one".toList := by decide
    have hone : Trivia " // one\n".toList := .blank rfl (.comment htext .nil)
    exact .cons _ ⟨.blank rfl .nil, ' ', rfl, rfl⟩ (.cons _ ⟨hone, ' ', rfl, rfl⟩
      (.cons _ ⟨.blank rfl .nil, '\n', rfl, rfl⟩ (.last _)))

/-- The semicolon that stands in the place of a parenthesis is blamed on the line it is on. -/
theorem Layout.ofSource_unclosedLayout :
    tokenize "f(1;" = .ok unclosedCall ∧
      unclosedLayout.source = "// a call\nf ( // one\n1\n;" ∧
      Expr.ofSource "f(1;" =
        .error (.grammatical ⟨1, .expected .parenAfterArguments (.lexeme ";")⟩) ∧
      Expr.ofSource unclosedLayout.source =
        .error (.grammatical ⟨4, .expected .parenAfterArguments (.lexeme ";")⟩) := by
  have htokens : tokenize "f(1;" = .ok unclosedCall :=
    tokenize_eq_ok_iff.2 (by decide +kernel)
  have hread : Expr.ofSource "f(1;" =
      .error (.grammatical ⟨1, .expected .parenAfterArguments (.lexeme ";")⟩) := by
    rw [Expr.ofSource_of_tokenize htokens]
    rfl
  refine ⟨htokens, by decide +kernel, hread, ?_⟩
  obtain ⟨-, ⟨e, he, -⟩ | ⟨k, t, fault, ht, hfault, hf, hlayout⟩⟩ := Layout.ofSource_relaid htokens
  · cases hread.symm.trans he
  · obtain ⟨t', ht', hf'⟩ := hlayout unclosedLayout rfl
    obtain ⟨-, rfl⟩ : 1 = t.line ∧ .expected .parenAfterArguments (.lexeme ";") = fault := by
      simpa using hread.symm.trans hf
    have hfound : .lexeme ";" = t.found := hfault
    have hplace : k = 3 := by
      -- Only the semicolon is found as the fault says.
      have hmem : k < unclosedCall.length := (List.getElem?_eq_some_iff.1 ht).1
      have hall : ∀ k < unclosedCall.length, ∀ t ∈ unclosedCall[k]?,
          .lexeme ";" = t.found → k = 3 := by decide
      exact hall k hmem t ht hfound
    subst hplace
    cases ht'
    exact hf'

end Featherweight
