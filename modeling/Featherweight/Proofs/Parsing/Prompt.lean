import Featherweight.Proofs.Lockstep
import Featherweight.Proofs.Parsing.Success
import Mathlib.Computability.Language

/-!
# Readers that fail at the first wrong token

A reader is prompt for a language if it reads words of the language, looking no further than the
next token to know that they end, and if it fails at the first token that no word goes on with: what
it read before can be completed to a word, and nothing after that token matters (`Prompt`). Faults
about too many parameters or arguments are left out of this.

There is one rule for each way of putting readers together. A choice on the next token is prompt if
both ways to go on are (`Prompt.of_next`). One that looks at the token after the next one as well
has to be made when the first of them is read, so a reader that may be chosen so comes with what it
does after that (`Headed`).
-/

namespace Featherweight

/-- Is the fault about the number of parameters or arguments? -/
def ParseError.IsLimit (e : ParseError) : Prop :=
  e.fault = .tooManyParameters ∨ e.fault = .tooManyArguments

namespace Parser

variable {α β : Type}

/-- A set of lists of tokens. -/
abbrev Words := Language Token

/-! ### Blame -/

/-- Is the first of the tokens `ts` to blame for the error that leaves `rest`? A token that is not
as expected is left there, and one that begins no expression has been read. -/
inductive Blames : ParseError → List Token → List Token → Prop
  | expected (what : Expected) (ts : List Token) :
      Blames ⟨(next ts).line, .expected what (next ts).found⟩ ts ts
  | noExpression (ts : List Token) :
      Blames ⟨(next ts).line, .noExpression (next ts).found⟩ ts (afterNext ts)

/-- How many of the tokens to blame are read before the fault shows. -/
def taken : ParseFault → Nat
  | .noExpression (.lexeme _) => 1
  | _                         => 0

theorem Blames.length_eq {e : ParseError} {ts rest : List Token} (h : Blames e ts rest) :
    ts.length = rest.length + taken e.fault := by
  cases h with
  | expected what => rfl
  | noExpression =>
    unfold Token.found
    by_cases hn : (next ts).kind = .eof
    · simp [afterNext, hn, taken]
    · obtain ⟨t, us, rfl, ht⟩ := exists_cons_of_next hn
      simp [afterNext_cons ht, ht, taken]

theorem Blames.ne_nil {e : ParseError} {ts rest : List Token} (h : Blames e ts rest)
    (hrest : rest ≠ []) : ts ≠ [] := by
  have hpos := List.length_pos_of_ne_nil hrest
  exact List.ne_nil_of_length_pos (by rw [h.length_eq]; omega)

/-- The token to blame is determined by what the reader leaves. -/
theorem Blames.split_unique {e : ParseError} {us us' ts ts' rest rest' : List Token}
    (h : Blames e ts rest) (h' : Blames e ts' rest') (hrest : rest.length = rest'.length)
    (hsplit : us ++ ts = us' ++ ts') : us = us' ∧ ts = ts' := by
  have hlen : ts.length = ts'.length := by rw [h.length_eq, h'.length_eq, hrest]
  exact List.append_inj' hsplit hlen

/-! ### Words that can be completed -/

/-- Can the tokens be completed to a word, without an end of the input? -/
def Viable (L : Words) (us : List Token) : Prop :=
  ∃ more, (∀ t ∈ more, t.kind ≠ .eof) ∧ us ++ more ∈ L

/-- What follows the token in words. -/
def after (t : Token) (L : Words) : Words := {us | t :: us ∈ L}

/-- The words of one token of that kind. -/
def oneOf (kind : TokenKind) : Words := {us | ∃ t : Token, t.kind = kind ∧ us = [t]}

theorem Viable.mono {L L' : Words} {us : List Token} (h : Viable L us) (hL : ∀ us ∈ L, us ∈ L') :
    Viable L' us := by
  obtain ⟨more, hmore, hmem⟩ := h
  exact ⟨more, hmore, hL _ hmem⟩

theorem viable_nil {L : Words} (us : List Token) (hus : ∀ t ∈ us, t.kind ≠ .eof) (h : us ∈ L) :
    Viable L [] := ⟨us, hus, h⟩

theorem viable_of_nil_mem {L : Words} (h : [] ∈ L) : Viable L [] :=
  ⟨[], fun _ ht => absurd ht List.not_mem_nil, h⟩

theorem viable_one : Viable 1 [] := viable_of_nil_mem rfl

theorem viable_oneOf {kind : TokenKind} (h : kind ≠ .eof) : Viable (oneOf kind) [] :=
  viable_nil [⟨kind, "", 0⟩] (by simpa using h) ⟨⟨kind, "", 0⟩, rfl, rfl⟩

theorem viable_symbol (c : Symbol) : Viable (oneOf (.symbol c)) [] :=
  viable_oneOf (symbol_ne_eof c)

/-- A word before what can be completed. -/
theorem Viable.word_mul {A B : Words} {us vs : List Token} (hus : us ∈ A) (hvs : Viable B vs) :
    Viable (A * B) (us ++ vs) := by
  obtain ⟨more, hmore, hmem⟩ := hvs
  refine ⟨more, hmore, ?_⟩
  rw [List.append_assoc]
  exact Language.mem_mul.2 ⟨us, hus, vs ++ more, hmem, rfl⟩

theorem Viable.mul {A B : Words} {us : List Token} (hus : Viable A us) (hB : Viable B []) :
    Viable (A * B) us := by
  obtain ⟨more, hmore, hmem⟩ := hus
  obtain ⟨more', hmore', hmem'⟩ := hB
  refine ⟨more ++ more', List.forall_mem_append.2 ⟨hmore, hmore'⟩, ?_⟩
  rw [← List.append_assoc]
  exact Language.mem_mul.2 ⟨us ++ more, hmem, more', hmem', rfl⟩

theorem Viable.cons {L : Words} {t : Token} {us : List Token} (h : Viable (after t L) us) :
    Viable L (t :: us) := h

/-! ### Prompt readers -/

/-- Does the reader read words of `L`, and fail on fewer than `k` tokens where no word goes on? -/
structure Prompt (k : Nat) (p : Parser α) (L : Words) : Prop where
  reads : Reads p
  ok : ∀ {us rest a}, p (us ++ rest) = .ok a rest →
    us ∈ L ∧ ∀ rest', next rest' = next rest → p (us ++ rest') = .ok a rest'
  error : ∀ {ts e rest}, ts.length < k → p ts = .error e rest → e.IsLimit ∨
    ∃ us vs, ts = us ++ vs ∧ Blames e vs rest ∧ Viable L us ∧
      ∀ vs', next vs' = next vs → ∃ rest', p (us ++ vs') = .error e rest'

/-- Does the reader, having read the token, go on as one that is prompt for what follows it? -/
def Starts (k : Nat) (t : Token) (p : Parser α) (L : Words) : Prop :=
  ∃ q, (∀ us, p (t :: us) = q us) ∧ Prompt k q (after t L)

namespace Prompt

variable {j k : Nat} {p q : Parser α} {f : α → Parser β} {A B L L' : Words}

theorem mono (h : Prompt k p L) (hL : ∀ us ∈ L, us ∈ L') : Prompt k p L' where
  reads := h.reads
  ok hp := ⟨hL _ (h.ok hp).1, (h.ok hp).2⟩
  error hts hp := by
    rcases h.error hts hp with hlimit | ⟨us, vs, hsplit, hblames, hviable, hlocal⟩
    · exact .inl hlimit
    · exact .inr ⟨us, vs, hsplit, hblames, hviable.mono hL, hlocal⟩

theorem of_le (h : Prompt k p L) (hj : j ≤ k) : Prompt j p L :=
  ⟨h.reads, h.ok, fun hts hp => h.error (Nat.lt_of_lt_of_le hts hj) hp⟩

theorem pure (a : α) (h : [] ∈ L) : Prompt k (Pure.pure a : Parser α) L where
  reads := .pure a
  ok hp := by
    obtain ⟨rfl, hnil⟩ := pure_eq_ok_iff.1 hp
    obtain rfl := List.append_left_eq_self.1 hnil
    exact ⟨h, fun _ _ => rfl⟩
  error _ hp := by cases hp

/-- The rest of a reader after which there is nothing to read. -/
theorem limit {e : ParseError} (he : e.IsLimit) : Prompt k (throw e : Parser α) L where
  reads := .throw e
  ok hp := by cases hp
  error _ hp := by
    cases hp
    exact .inl he

/-- What is left by a success is a list of the last tokens. -/
theorem exists_split (h : Reads p) {ts rest : List Token} {a : α} (hp : p ts = .ok a rest) :
    ∃ us, ts = us ++ rest := by
  obtain ⟨us, hus, -⟩ := h ts
  rw [hp, left_ok] at hus
  exact ⟨us, hus.symm⟩

theorem next_append {us vs vs' : List Token} (h : next vs' = next vs) :
    next (us ++ vs') = next (us ++ vs) := by
  cases us with
  | nil => exact h
  | cons u us => rfl

theorem bind (hp : Prompt k p A) (hf : ∀ a, Prompt k (f a) B) (hB : Viable B []) :
    Prompt k (p >>= f) (A * B) where
  reads := hp.reads.bind fun a => (hf a).reads
  ok := by
    intro us rest b h
    obtain ⟨a, mid, hpa, hfa⟩ := bind_eq_ok_iff.1 h
    obtain ⟨us₁, hus₁⟩ := exists_split hp.reads hpa
    obtain ⟨us₂, rfl⟩ := exists_split (hf a).reads hfa
    rw [← List.append_assoc] at hus₁
    obtain rfl := List.append_cancel_right hus₁
    rw [List.append_assoc] at hpa
    obtain ⟨hmem₁, hlocal₁⟩ := hp.ok hpa
    obtain ⟨hmem₂, hlocal₂⟩ := (hf a).ok hfa
    refine ⟨Language.mem_mul.2 ⟨us₁, hmem₁, us₂, hmem₂, rfl⟩, fun rest' hrest' => ?_⟩
    rw [List.append_assoc]
    exact bind_eq_ok_iff.2 ⟨a, us₂ ++ rest', hlocal₁ _ (next_append hrest'), hlocal₂ _ hrest'⟩
  error := by
    intro ts e rest hts h
    cases hpa : p ts with
    | error e' mid =>
      -- What was read begins a word of `A`, which some word of `B` may follow.
      rw [bind_of_error hpa] at h
      cases h
      rcases hp.error hts hpa with hlimit | ⟨us, vs, hsplit, hblames, hviable, hlocal⟩
      · exact .inl hlimit
      · refine .inr ⟨us, vs, hsplit, hblames, hviable.mul hB, fun vs' hvs' => ?_⟩
        obtain ⟨rest', hfail⟩ := hlocal vs' hvs'
        exact ⟨rest', bind_of_error hfail⟩
    | ok a mid =>
      -- A word of `A` was read, and then what begins a word of `B`.
      rw [bind_of_ok hpa] at h
      obtain ⟨us₁, rfl⟩ := exists_split hp.reads hpa
      obtain ⟨hmem, hlocal₁⟩ := hp.ok hpa
      have hmid : mid.length < k := by
        rw [List.length_append] at hts
        omega
      rcases (hf a).error hmid h with hlimit | ⟨us, vs, rfl, hblames, hviable, hlocal⟩
      · exact .inl hlimit
      · refine .inr ⟨us₁ ++ us, vs, by rw [List.append_assoc], hblames, hviable.word_mul hmem, ?_⟩
        intro vs' hvs'
        obtain ⟨rest', hfail⟩ := hlocal vs' hvs'
        refine ⟨rest', ?_⟩
        rw [List.append_assoc, bind_of_ok (hlocal₁ _ (next_append hvs'))]
        exact hfail

/-- A success, with what was read turned into something else. -/
theorem map (hp : Prompt k p L) (g : α → β) : Prompt k (do return g (← p)) L := by
  have h := hp.bind (fun a => pure (g a) (L := 1) rfl) viable_one
  rwa [mul_one] at h

/-- A reader that looks at the next token, reads it or not, and goes on as a prompt reader. -/
theorem of_next (hj : j ≤ k + 1) (h : ∀ t : Token, (t.kind ≠ .eof ∧ Starts k t p L) ∨
    ∃ q, (∀ ts, next ts = t → p ts = q ts) ∧ Prompt j q L) : Prompt j p L where
  reads := by
    intro ts
    rcases h (next ts) with ⟨ht, q, hq, hprompt⟩ | ⟨q, hq, hprompt⟩
    · obtain ⟨t, us, rfl, -⟩ := exists_cons_of_next ht
      obtain ⟨used, hused, hne⟩ := hprompt.reads us
      refine ⟨t :: used, ?_, List.forall_mem_cons.2 ⟨ht, hne⟩⟩
      rw [next_cons] at hq
      rw [hq, List.cons_append, hused]
    · rw [hq ts rfl]
      exact hprompt.reads ts
  ok := by
    intro us rest a hp
    rcases h (next (us ++ rest)) with ⟨ht, q, hq, hprompt⟩ | ⟨q, hq, hprompt⟩
    · obtain ⟨t, vs, hvs, -⟩ := exists_cons_of_next ht
      rw [hvs, next_cons] at hq
      rw [hvs, hq] at hp
      obtain ⟨us', rfl⟩ := exists_split hprompt.reads hp
      obtain rfl := List.append_cancel_right (hvs.trans (List.cons_append ..).symm)
      obtain ⟨hmem, hlocal⟩ := hprompt.ok hp
      refine ⟨hmem, fun rest' hrest' => ?_⟩
      rw [List.cons_append, hq]
      exact hlocal rest' hrest'
    · rw [hq _ rfl] at hp
      obtain ⟨hmem, hlocal⟩ := hprompt.ok hp
      refine ⟨hmem, fun rest' hrest' => ?_⟩
      rw [hq _ (next_append hrest')]
      exact hlocal rest' hrest'
  error := by
    intro ts e rest hts hp
    rcases h (next ts) with ⟨ht, q, hq, hprompt⟩ | ⟨q, hq, hprompt⟩
    · obtain ⟨t, vs, rfl, -⟩ := exists_cons_of_next ht
      rw [next_cons] at hq
      rw [hq] at hp
      have hvs : vs.length < k := by
        rw [List.length_cons] at hts
        omega
      rcases hprompt.error hvs hp with hlimit | ⟨us, vs, rfl, hblames, hviable, hlocal⟩
      · exact .inl hlimit
      · refine .inr ⟨t :: us, vs, rfl, hblames, hviable.cons, fun vs' hvs' => ?_⟩
        obtain ⟨rest', hfail⟩ := hlocal vs' hvs'
        exact ⟨rest', (hq _).trans hfail⟩
    · rw [hq _ rfl] at hp
      rcases hprompt.error hts hp with hlimit | ⟨us, vs, rfl, hblames, hviable, hlocal⟩
      · exact .inl hlimit
      · refine .inr ⟨us, vs, rfl, hblames, hviable, fun vs' hvs' => ?_⟩
        obtain ⟨rest', hfail⟩ := hlocal vs' hvs'
        exact ⟨rest', (hq _ (next_append hvs')).trans hfail⟩

/-- A choice on whether a token of that kind comes next. -/
theorem accept {kind : TokenKind} (hkind : kind ≠ .eof) (hj : j ≤ k + 1)
    (hp : ∀ t : Token, t.kind = kind → Prompt k p (after t L)) (hq : Prompt j q L) :
    Prompt j (do if ← accept kind then p else q) L := by
  refine of_next hj fun t => ?_
  by_cases ht : t.kind = kind
  · exact .inl ⟨ht ▸ hkind, p, fun us => accept_then ht hkind us, hp t ht⟩
  · refine .inr ⟨q, fun ts hts => accept_else ?_, hq⟩
    rw [hts]
    exact ht

/-- A token that must be there. -/
theorem expect (what : Expected) : Prompt k (expect what) (oneOf what.kind) where
  reads := reads_expect what
  ok := by
    intro us rest t h
    obtain ⟨hus, ht⟩ := expect_eq_ok_iff.1 h
    obtain rfl : us = [t] := List.append_cancel_right (hus.trans List.singleton_append.symm)
    exact ⟨⟨t, ht, rfl⟩, fun rest' _ => expect_eq_ok_iff.2 ⟨rfl, ht⟩⟩
  error := by
    intro ts e rest _ h
    unfold Parser.expect at h
    split at h
    · cases h
    · next hne =>
      cases h
      refine .inr ⟨[], ts, rfl, .expected what ts, viable_oneOf what.kind_ne_eof, ?_⟩
      intro ts' hts'
      refine ⟨ts', ?_⟩
      rw [List.nil_append, Parser.expect, hts', if_neg hne]

/-- Failing for want of an expression at the next token. -/
theorem take_noExpression (hL : Viable L []) :
    Prompt k (do noExpression (← take) : Parser α) L where
  reads := reads_take.bind fun t => .throw _
  ok h := by cases h
  error := by
    intro ts e rest _ h
    cases h
    refine .inr ⟨[], ts, rfl, .noExpression ts, hL, fun ts' hts' => ⟨afterNext ts', ?_⟩⟩
    show EStateM.Result.error _ _ = _
    rw [List.nil_append, hts']

end Prompt

/-! ### Readers that may start with a name or with `function` -/

/-- Is the token one of those after which another is looked at? -/
def isHead : TokenKind → Bool
  | .identifier | .keyword .functionWord => true
  | _ => false

/-- Is the reader prompt, and also once it has read a name or `function`? -/
structure Headed (k : Nat) (p : Parser α) (L : Words) : Prop where
  prompt : Prompt (k + 1) p L
  starts : ∀ t : Token, isHead t.kind = true → Starts k t p L

namespace Headed

variable {k : Nat} {p q : Parser α} {f : α → Parser β} {A B L L' : Words}

theorem mono (h : Headed k p L) (hL : ∀ us ∈ L, us ∈ L') : Headed k p L' where
  prompt := h.prompt.mono hL
  starts t ht := by
    obtain ⟨q, hq, hprompt⟩ := h.starts t ht
    exact ⟨q, hq, hprompt.mono fun us hus => hL (t :: us) hus⟩

theorem bind (hp : Headed k p A) (hf : ∀ a, Prompt (k + 1) (f a) B) (hB : Viable B []) :
    Headed k (p >>= f) (A * B) where
  prompt := hp.prompt.bind hf hB
  starts t ht := by
    obtain ⟨q, hq, hprompt⟩ := hp.starts t ht
    refine ⟨q >>= f, fun us => bind_eq_of_eq (hq us), ?_⟩
    refine (hprompt.bind (fun a => (hf a).of_le (Nat.le_succ k)) hB).mono ?_
    rintro _ ⟨us, hus, vs, hvs, rfl⟩
    exact Language.mem_mul.2 ⟨t :: us, hus, vs, hvs, rfl⟩

/-- A choice on whether some other token comes next. -/
theorem accept {kind : TokenKind} (hkind : kind ≠ .eof) (hhead : isHead kind = false)
    (hp : ∀ t : Token, t.kind = kind → Prompt k p (after t L)) (hq : Headed k q L) :
    Headed k (do if ← accept kind then p else q) L where
  prompt := .accept hkind (Nat.le_refl _) hp hq.prompt
  starts t ht := by
    -- It is the other one that is chosen for a name or `function`.
    obtain ⟨q', hq', hprompt⟩ := hq.starts t ht
    refine ⟨q', fun us => ?_, hprompt⟩
    have hne : (next (t :: us)).kind ≠ kind := by
      rintro rfl
      rw [next_cons, ht] at hhead
      cases hhead
    exact (accept_else hne).trans (hq' us)

/-- A choice on whether the next two tokens are of these kinds. -/
theorem ahead {first second : TokenKind} (hfirst : isHead first = true) (hsecond : second ≠ .eof)
    {f : Token → Parser α} (hf : ∀ t u : Token, t.kind = first → u.kind = second →
      Starts k u (f t) (after t L)) (hq : Headed k q L) :
    Headed k (do if ← ahead first second then f (← take) else q) L := by
  have hne : first ≠ .eof := by
    rintro rfl
    cases hfirst
  have hstarts : ∀ t : Token, isHead t.kind = true →
      Starts k t (do if ← Parser.ahead first second then f (← take) else q) L := by
    intro t ht
    obtain ⟨q', hq', hprompt⟩ := hq.starts t ht
    by_cases hkind : t.kind = first
    · -- Whether to go on as `q` shows at the token after this one.
      refine ⟨fun us => if (next us).kind = second then f t us else q' us, fun us => ?_, ?_⟩
      · show _ = if (next us).kind = second then f t us else q' us
        split
        · next hus =>
          obtain ⟨u, us, rfl, -⟩ := exists_cons_of_next (hus ▸ hsecond)
          exact ahead_then hkind hus hne us
        · next hus =>
          refine (ahead_else fun h => hus ?_).trans (hq' us)
          rw [← afterNext_cons (hkind ▸ hne) us]
          exact h.2
      · refine .of_next (Nat.le_succ k) fun u => ?_
        by_cases hu : u.kind = second
        · obtain ⟨g, hg, hprompt'⟩ := hf t u hkind hu
          exact .inl ⟨hu ▸ hsecond, g, fun us => (if_pos hu).trans (hg us), hprompt'⟩
        · exact .inr ⟨q', fun ts hts => if_neg (hts ▸ hu), hprompt⟩
    · refine ⟨q', fun us => ?_, hprompt⟩
      have hnot : ¬ Ahead first second (t :: us) := fun h => hkind h.1
      exact (ahead_else hnot).trans (hq' us)
  refine ⟨.of_next (Nat.le_refl _) fun t => ?_, hstarts⟩
  by_cases ht : t.kind = first
  · exact .inl ⟨ht ▸ hne, hstarts t (ht ▸ hfirst)⟩
  · refine .inr ⟨q, fun ts hts => ahead_else fun h => ht ?_, hq.prompt⟩
    rw [← hts]
    exact h.1

end Headed

end Parser

end Featherweight
