import Featherweight.Parser.Progress

/-!
# When a reader succeeds

The primitive readers and their compositions, each by what a success says about the tokens and by
what makes it succeed. A choice on the next token goes one way if the token is there (`accept_then`)
and the other way if it is not (`accept_else`).
-/

namespace Featherweight.Parser

variable {α β : Type}

theorem pure_eq_ok_iff {a b : α} {ts rest : List Token} :
    (pure a : Parser α) ts = .ok b rest ↔ a = b ∧ ts = rest := by
  constructor
  · intro h
    cases h
    exact ⟨rfl, rfl⟩
  · rintro ⟨rfl, rfl⟩
    rfl

theorem bind_eq_ok_iff {p : Parser α} {f : α → Parser β} {ts rest : List Token} {b : β} :
    (p >>= f) ts = .ok b rest ↔ ∃ a mid, p ts = .ok a mid ∧ f a mid = .ok b rest := by
  show EStateM.bind p f ts = _ ↔ _
  unfold EStateM.bind
  constructor
  · intro h
    split at h
    · next a mid hp => exact ⟨a, mid, hp, h⟩
    · cases h
  · rintro ⟨a, mid, hp, hf⟩
    rw [hp]
    exact hf

/-- A success, with what was read turned into something else. -/
theorem bind_pure_eq_ok_iff {p : Parser α} {g : α → β} {ts rest : List Token} {b : β} :
    (do return g (← p)) ts = .ok b rest ↔ ∃ a, p ts = .ok a rest ∧ g a = b := by
  rw [bind_eq_ok_iff]
  constructor
  · rintro ⟨a, mid, hp, h⟩
    obtain ⟨rfl, rfl⟩ := pure_eq_ok_iff.1 h
    exact ⟨a, hp, rfl⟩
  · rintro ⟨a, hp, rfl⟩
    exact ⟨a, rest, hp, rfl⟩

@[simp] theorem next_cons (t : Token) (ts : List Token) : next (t :: ts) = t := rfl

theorem afterNext_cons {t : Token} (h : t.kind ≠ .eof) (ts : List Token) :
    afterNext (t :: ts) = ts := if_neg h

/-- A next token other than the end of the input is there to be read. -/
theorem exists_cons_of_next {ts : List Token} (h : (next ts).kind ≠ .eof) :
    ∃ t us, ts = t :: us ∧ t.kind ≠ .eof := by
  cases ts with
  | nil       => exact absurd rfl h
  | cons t us => exact ⟨t, us, rfl, h⟩

theorem expect_eq_ok_iff {what : Expected} {ts rest : List Token} {t : Token} :
    expect what ts = .ok t rest ↔ ts = t :: rest ∧ t.kind = what.kind := by
  unfold expect
  constructor
  · intro h
    split at h
    · next hk =>
      obtain ⟨t', us, rfl, hne⟩ := exists_cons_of_next (hk ▸ what.kind_ne_eof)
      rw [afterNext_cons hne] at h
      cases h
      exact ⟨rfl, hk⟩
    · cases h
  · rintro ⟨rfl, hk⟩
    rw [next_cons, if_pos hk, afterNext_cons (hk ▸ what.kind_ne_eof)]

theorem expect_bind_eq_ok_iff {what : Expected} {f : Token → Parser α} {ts rest : List Token}
    {a : α} : (expect what >>= f) ts = .ok a rest ↔
      ∃ t us, ts = t :: us ∧ t.kind = what.kind ∧ f t us = .ok a rest := by
  rw [bind_eq_ok_iff]
  constructor
  · rintro ⟨t, us, ht, hf⟩
    obtain ⟨hts, hk⟩ := expect_eq_ok_iff.1 ht
    exact ⟨t, us, hts, hk, hf⟩
  · rintro ⟨t, us, hts, hk, hf⟩
    exact ⟨t, us, expect_eq_ok_iff.2 ⟨hts, hk⟩, hf⟩

/-! ### Choices on the next token -/

theorem symbol_ne_eof (c : Symbol) : TokenKind.symbol c ≠ .eof := by
  intro h
  cases h

section Choice

variable {k l : TokenKind} {p q : Parser α} {f : Token → Parser α}

theorem accept_then {t : Token} (ht : t.kind = k) (hk : k ≠ .eof) (us : List Token) :
    (do if ← accept k then p else q) (t :: us) = p us := by
  have hnext : (next (t :: us)).kind = k := ht
  rw [accept_of_next hnext, afterNext_cons (ht ▸ hk)]

/-- Either the token was there and was read, or it was not and nothing was read. -/
theorem accept_cases (hk : k ≠ .eof) {ts rest : List Token} {a : α}
    (h : (do if ← accept k then p else q) ts = .ok a rest) :
    (∃ t us, ts = t :: us ∧ t.kind = k ∧ p us = .ok a rest) ∨
      ((next ts).kind ≠ k ∧ q ts = .ok a rest) := by
  by_cases hn : (next ts).kind = k
  · obtain ⟨t, us, rfl, -⟩ := exists_cons_of_next (hn ▸ hk)
    have ht : t.kind = k := hn
    rw [accept_then ht hk] at h
    exact .inl ⟨t, us, rfl, ht, h⟩
  · rw [accept_else hn] at h
    exact .inr ⟨hn, h⟩

theorem ahead_then {t u : Token} (ht : t.kind = k) (hu : u.kind = l) (hk : k ≠ .eof)
    (us : List Token) :
    (do if ← ahead k l then f (← take) else q) (t :: u :: us) = f t (u :: us) := by
  have hafter := afterNext_cons (ht ▸ hk) (u :: us)
  have hahead : Ahead k l (t :: u :: us) := ⟨ht, by rw [hafter, next_cons, hu]⟩
  rw [ahead_of_next hahead, next_cons, hafter]

theorem ahead_cases (hk : k ≠ .eof) (hl : l ≠ .eof) {ts rest : List Token} {a : α}
    (h : (do if ← ahead k l then f (← take) else q) ts = .ok a rest) :
    (∃ t u us, ts = t :: u :: us ∧ t.kind = k ∧ u.kind = l ∧ f t (u :: us) = .ok a rest) ∨
      q ts = .ok a rest := by
  by_cases hn : Ahead k l ts
  · obtain ⟨t, us, rfl, hne⟩ := exists_cons_of_next (hn.1 ▸ hk)
    have ht : t.kind = k := hn.1
    have hus : (next us).kind = l := afterNext_cons hne us ▸ hn.2
    obtain ⟨u, us, rfl, -⟩ := exists_cons_of_next (hus ▸ hl)
    have hu : u.kind = l := hus
    rw [ahead_then ht hu hk] at h
    exact .inl ⟨t, u, us, rfl, ht, hu, h⟩
  · rw [ahead_else hn] at h
    exact .inr h

end Choice

/-! ### Programs -/

/-- Statements are read up to the end of the input or the token that closes them. -/
theorem next_of_statements {s : Parser (Option Expr)} (hc : Consumes s) {close : TokenKind}
    {n : Nat} {ts rest : List Token} {es : List Expr} (hn : ts.length < n)
    (h : statements close s n ts = .ok es rest) :
    (next rest).kind = close ∨ (next rest).kind = .eof := by
  induction n generalizing ts es with
  | zero => exact absurd hn (Nat.not_lt_zero _)
  | succ n ih =>
    obtain ⟨t, mid, ht, h₁⟩ := bind_eq_ok_iff.1 h
    cases ht
    split at h₁
    · next hclose =>
      obtain ⟨rfl, rfl⟩ := pure_eq_ok_iff.1 h₁
      exact hclose
    · obtain ⟨o, mid, ho, h₂⟩ := bind_eq_ok_iff.1 h₁
      obtain ⟨es, hes, rfl⟩ := bind_pure_eq_ok_iff.1 h₂
      have hlt := hc ts o mid ho
      exact ih (by omega) hes

/-- A program is read up to the end of the input. -/
theorem next_of_program {ts rest : List Token} {e : Expr} (h : program ts = .ok e rest) :
    (next rest).kind = .eof := by
  obtain ⟨es, hes, -⟩ := bind_pure_eq_ok_iff.1 h
  rcases next_of_statements (consumes_statement _) (Nat.lt_succ_self _) hes with hnext | hnext
  · exact hnext
  · exact hnext

end Featherweight.Parser
