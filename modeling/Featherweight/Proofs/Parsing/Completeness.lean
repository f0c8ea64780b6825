import Featherweight.Parser.Depth
import Featherweight.Proofs.Parsing.Front

/-!
# The parser reads every phrase of the grammar

A reader reads a phrase of its rule off the front of the tokens, unless a symbol follows that the
rule could go on with (`Accepts`), and a statement unless an `else` follows that it could take
(`AcceptsOpen`). As in the soundness of the parser, each lemma is about one rule, given the readers
inside it; here these need to read shorter lists only, so that the rules are tied together by
induction on the number of tokens (`accepts_both`).
-/

namespace Featherweight.Parser

open Grammar

variable {α : Type}

/-- On fewer than `k` tokens, every such phrase is read if none of the symbols `cs` follows. -/
def Accepts (k : Nat) (p : Parser α) (phrase : Phrase α) (cs : List Symbol) : Prop :=
  ∀ ⦃us a rest⦄, phrase us a → (us ++ rest).length < k → Avoids cs rest →
    p (us ++ rest) = .ok a rest

/-- On fewer than `k` tokens, every such statement is read if no `else` follows that it takes. -/
def AcceptsOpen (k : Nat) (s : Parser α) (phrase : List Token → α → Bool → Prop) : Prop :=
  ∀ ⦃us a dangling rest⦄, phrase us a dangling → (us ++ rest).length < k →
    (dangling = true → (next rest).kind ≠ .keyword .elseWord) → s (us ++ rest) = .ok a rest

theorem Accepts.mono {k l : Nat} {p : Parser α} {phrase : Phrase α} {cs : List Symbol}
    (h : Accepts k p phrase cs) (hl : l ≤ k) : Accepts l p phrase cs :=
  fun _ _ _ hp hlen hrest => h hp (Nat.lt_of_lt_of_le hlen hl) hrest

/-! ### What each rule could go on with -/

/-- After a call. -/
def callStops : List Symbol := [.leftParen]

/-- After a product. -/
def factorStops : List Symbol := callStops ++ factorOps.map BinaryOp.symbol

/-- After a sum. -/
def termStops : List Symbol := factorStops ++ termOps.map BinaryOp.symbol

/-- After a comparison. -/
def comparisonStops : List Symbol := termStops ++ comparisonOps.map BinaryOp.symbol

/-- After an expression. -/
def expressionStops : List Symbol := comparisonStops ++ [.equal]

/-! ### Repetitions and lists -/

theorem operator_of_mem {ops : List BinaryOp} {op : BinaryOp} {o : Token} (hop : op ∈ ops)
    (ho : o.kind = .symbol op.symbol) (ts : List Token) :
    operator ops (o :: ts) = .ok (some op) ts := by
  induction ops with
  | nil => cases hop
  | cons op' ops ih =>
    by_cases h : op.symbol = op'.symbol
    · rw [symbol_injective h] at ho ⊢
      exact accept_then ho (symbol_ne_eof _) ts
    · have hne : (next (o :: ts)).kind ≠ .symbol op'.symbol := by
        rw [next_cons, ho]
        exact fun heq => h (TokenKind.symbol.inj heq)
      refine (accept_else hne).trans (ih ?_)
      rcases List.mem_cons.1 hop with rfl | hop
      · exact absurd rfl h
      · exact hop

theorem operator_of_avoids {ops : List BinaryOp} {ts : List Token}
    (h : Avoids (ops.map BinaryOp.symbol) ts) : operator ops ts = .ok none ts := by
  induction ops with
  | nil => rfl
  | cons op ops ih =>
    refine (accept_else (h _ List.mem_cons_self)).trans (ih ?_)
    exact h.mono (List.subset_cons_self _ _)

section Lists

variable {k : Nat} {p : Parser Expr} {phrase : Phrase Expr} {cs : List Symbol}

theorem Accepts.chainFrom (hp : Accepts k p phrase cs) {ops : List BinaryOp}
    (hops : ∀ op ∈ ops, op.symbol ∉ cs) {left e : Expr} {us rest : List Token}
    (h : Operations ops phrase left us e) {n : Nat} (hn : us.length ≤ n)
    (hlen : (us ++ rest).length < k) (hrest : Avoids (cs ++ ops.map BinaryOp.symbol) rest) :
    chainFrom ops p n left (us ++ rest) = .ok e rest := by
  induction h generalizing n with
  | done =>
    cases n with
    | zero => rfl
    | succ n =>
      refine bind_eq_ok_iff.2 ⟨none, rest, operator_of_avoids ?_, rfl⟩
      exact hrest.mono (List.subset_append_right _ _)
  | @more left right e op o us vs hop ho hr hs ih =>
    obtain ⟨n, rfl⟩ : ∃ m, n = m + 1 := ⟨n - 1, by simp at hn; omega⟩
    simp only [List.cons_append, List.append_assoc, List.length_cons, List.length_append]
      at hn hlen ⊢
    have hright : p (us ++ (vs ++ rest)) = .ok right (vs ++ rest) := by
      refine hp hr (by simp only [List.length_append]; omega) ?_
      exact hs.avoids hops (hrest.mono (List.subset_append_left _ _))
    have htail : Parser.chainFrom ops p n (.binary op left right) (vs ++ rest) = .ok e rest :=
      ih (by omega) (by simp only [List.length_append]; omega)
    exact bind_eq_ok_iff.2 ⟨some op, _, operator_of_mem hop ho _,
      bind_eq_ok_iff.2 ⟨right, _, hright, htail⟩⟩

theorem Accepts.chain (hp : Accepts k p phrase cs) {ops : List BinaryOp}
    (hops : ∀ op ∈ ops, op.symbol ∉ cs) {n : Nat} (hn : k ≤ n + 1) :
    Accepts k (chain ops p n) (Chain ops phrase) (cs ++ ops.map BinaryOp.symbol) := by
  intro us e rest h hlen hrest
  cases h with
  | @operands us vs left e hl hs =>
    simp only [List.append_assoc, List.length_append] at hlen ⊢
    have hleft : p (us ++ (vs ++ rest)) = .ok left (vs ++ rest) := by
      refine hp hl (by simp only [List.length_append]; omega) ?_
      exact hs.avoids hops (hrest.mono (List.subset_append_left _ _))
    refine bind_eq_ok_iff.2 ⟨left, _, hleft, ?_⟩
    exact hp.chainFrom hops hs (by omega) (by simp only [List.length_append]; omega) hrest

theorem Accepts.negated {rule : ElseRule} (hp : Accepts k p (Call rule) cs) {n : Nat}
    (hn : k ≤ n + 1) : Accepts k (negated p n) (Unary rule) cs := by
  intro us e rest h hlen hrest
  have hus : us.length ≤ n := by
    simp only [List.length_append] at hlen
    omega
  clear hn
  induction n generalizing us e with
  | zero =>
    cases h with
    | negate hm _ => exact absurd hus (Nat.not_succ_le_zero _)
    | call h => exact hp h hlen hrest
  | succ n ih =>
    cases h with
    | @negate m us e hm he =>
      have hminus := ih he (Nat.lt_of_succ_lt hlen) (Nat.le_of_succ_le_succ hus)
      exact (accept_then hm (by decide) _).trans (bind_pure_eq_ok_iff.2 ⟨e, hminus, rfl⟩)
    | call h => exact (accept_else (h.next_ne_minus rest)).trans (hp h hlen hrest)

section CommaList

variable {item : Phrase α}

/-- At least one item and at most `n`, with commas between. -/
def Short (item : Phrase α) (n : Nat) : Phrase (List α) :=
  fun us as => CommaList item us as ∧ as.length ≤ n

theorem accepts_short_zero (q : Parser (List α)) : Accepts k q (Short item 0) cs := by
  rintro us as rest ⟨h, hlen⟩
  cases h with
  | one _      => exact absurd hlen (Nat.not_succ_le_zero _)
  | more _ _ _ => exact absurd hlen (Nat.not_succ_le_zero _)

theorem accepts_short_succ {q : Parser α} {more : Parser (List α)} (hq : Accepts k q item cs)
    (hcomma : .comma ∉ cs) {n : Nat} (hmore : Accepts k more (Short item n) (.comma :: cs)) :
    Accepts k (do
      let a ← q
      if ← accept (.symbol .comma) then return a :: (← more) else return [a])
      (Short item (n + 1)) (.comma :: cs) := by
  rintro us as rest ⟨h, hn⟩ hlen hrest
  cases h with
  | @one us a ha =>
    have hread := hq ha hlen (hrest.mono (List.subset_cons_self _ _))
    exact bind_eq_ok_iff.2 ⟨a, rest, hread, accept_else (hrest .comma List.mem_cons_self)⟩
  | @more us vs c a as ha hc has =>
    simp only [List.append_assoc, List.cons_append, List.length_append, List.length_cons]
      at hlen hn ⊢
    have hread : q (us ++ c :: (vs ++ rest)) = .ok a (c :: (vs ++ rest)) :=
      hq ha (by simpa using hlen) (avoids_cons hc hcomma _)
    have htail : more (vs ++ rest) = .ok as rest :=
      hmore ⟨has, by omega⟩ (by simp only [List.length_append]; omega) hrest
    refine bind_eq_ok_iff.2 ⟨a, _, hread, (accept_then hc (by decide) _).trans ?_⟩
    exact bind_pure_eq_ok_iff.2 ⟨as, htail, rfl⟩

theorem accepts_listUntilParen {q : Parser (List α)} (hq : Accepts k q (Short item maxArity) cs)
    (hitem : ∀ {us a}, item us a → Begins us) (hparen : .rightParen ∉ cs) {us rest : List Token}
    {as : List α} {r : Token} (h : ItemList item us as) (hr : r.kind = .symbol .rightParen)
    (hlen : (us ++ r :: rest).length < k) :
    listUntilParen q (us ++ r :: rest) = .ok as (r :: rest) := by
  cases h with
  | none => exact bind_eq_ok_iff.2 ⟨r, _, rfl, by rw [if_pos hr]; rfl⟩
  | some has hn =>
    have hne : (next (us ++ r :: rest)).kind ≠ .symbol .rightParen :=
      ((has.begins hitem).append (r :: rest)).next_ne rfl
    refine bind_eq_ok_iff.2 ⟨_, _, rfl, ?_⟩
    rw [if_neg hne]
    exact hq ⟨has, hn⟩ hlen (avoids_cons hr hparen _)

end CommaList

theorem accepts_parameters (line room : Nat) :
    Accepts k (parameters line room) (Short Name room) [.comma] := by
  have hname : Accepts k (do return (← expect .parameterName).lexeme) Name [] := by
    intro us a rest h _ _
    cases h with
    | @ident x hx => exact bind_pure_eq_ok_iff.2 ⟨x, expect_eq_ok_iff.2 ⟨rfl, hx⟩, rfl⟩
  induction room with
  | zero => exact accepts_short_zero _
  | succ room ih =>
    have h := accepts_short_succ hname (by decide) ih
    rwa [bind_assoc] at h

theorem Accepts.arguments (hp : Accepts k p phrase cs) (hcomma : .comma ∉ cs) (room : Nat) :
    Accepts k (arguments p room) (Short phrase room) (.comma :: cs) := by
  induction room with
  | zero => exact accepts_short_zero _
  | succ room ih => exact accepts_short_succ hp hcomma ih

variable {rule : ElseRule} (hp : Accepts k p (Expression rule) expressionStops)

include hp

theorem Accepts.argumentList {us rest : List Token} {args : List Expr} {r : Token}
    (h : ItemList (Expression rule) us args) (hr : r.kind = .symbol .rightParen)
    (hlen : (us ++ r :: rest).length < k) :
    argumentList p (us ++ r :: rest) = .ok args rest := by
  have hargs := accepts_listUntilParen (hp.arguments (by decide) maxArity) Expression.begins
    (by decide) h hr hlen
  exact bind_eq_ok_iff.2 ⟨args, _, hargs, expect_bind_eq_ok_iff.2 ⟨r, rest, rfl, hr, rfl⟩⟩

theorem Accepts.callsFrom {callee e : Expr} {us rest : List Token}
    (h : ArgumentLists (Expression rule) callee us e) {n : Nat} (hn : us.length ≤ n)
    (hlen : (us ++ rest).length < k + 1) (hrest : Avoids callStops rest) :
    callsFrom p n callee (us ++ rest) = .ok e rest := by
  induction h generalizing n with
  | done =>
    cases n with
    | zero   => rfl
    | succ n => exact accept_else (hrest .leftParen List.mem_cons_self)
  | @more callee e args l r us vs hl hargs hr hs ih =>
    obtain ⟨n, rfl⟩ : ∃ m, n = m + 1 := ⟨n - 1, by simp at hn; omega⟩
    simp only [List.cons_append, List.append_assoc, List.length_cons, List.length_append]
      at hn hlen ⊢
    have hlist : Parser.argumentList p (us ++ r :: (vs ++ rest)) = .ok args (vs ++ rest) :=
      hp.argumentList hargs hr (by simp only [List.length_append, List.length_cons]; omega)
    have htail : Parser.callsFrom p n (.call callee args) (vs ++ rest) = .ok e rest :=
      ih (by omega) (by simp only [List.length_append]; omega)
    exact (accept_then hl (by decide) _).trans (bind_eq_ok_iff.2 ⟨args, _, hlist, htail⟩)

end Lists

/-! ### Rules -/

section Rules

variable {k n : Nat} {p : Parser Expr} {s : Parser (Option Expr)}

section Statement

variable (hs : AcceptsOpen k s (Statement .nearest))

include hs

theorem AcceptsOpen.statements {close : TokenKind} (hclose : close ≠ .keyword .elseWord)
    (hcloses : closes close = true) {us rest : List Token} {es : List Expr}
    (h : Statements .nearest us es) (hn : us.length ≤ n) (hlen : (us ++ rest).length < k)
    (hrest : (next rest).kind = close ∨ (next rest).kind = .eof) :
    statements close s n (us ++ rest) = .ok es rest := by
  induction n generalizing us es with
  | zero =>
    cases h with
    | nil => rfl
    | cons ho _ =>
      have := ho.begins.length_pos
      simp only [List.length_append] at hn
      omega
  | succ n ih =>
    cases h with
    | nil => exact bind_eq_ok_iff.2 ⟨_, rest, rfl, by rw [List.nil_append, if_pos hrest]; rfl⟩
    | @cons us vs o dangling es ho hes =>
      have hpos := ho.begins.length_pos
      simp only [List.append_assoc, List.length_append] at hn hlen ⊢
      have hbegins := ho.begins.append (vs ++ rest)
      have hgo : ¬((next (us ++ (vs ++ rest))).kind = close ∨
          (next (us ++ (vs ++ rest))).kind = .eof) := by
        rintro (h | h)
        · exact hbegins.next_ne hcloses h
        · exact hbegins.next_ne rfl h
      have helse : (next (vs ++ rest)).kind ≠ .keyword .elseWord := by
        refine hes.next_ne_else ?_
        rcases hrest with h | h
        · rwa [h]
        · rw [h]
          decide
      have hfirst : s (us ++ (vs ++ rest)) = .ok o (vs ++ rest) :=
        hs ho (by simp only [List.length_append]; omega) fun _ => helse
      have htail : Parser.statements close s n (vs ++ rest) = .ok es rest :=
        ih hes (by omega) (by simp only [List.length_append]; omega)
      refine bind_eq_ok_iff.2 ⟨_, _, rfl, ?_⟩
      rw [if_neg hgo]
      exact bind_eq_ok_iff.2 ⟨o, _, hfirst, bind_pure_eq_ok_iff.2 ⟨es, htail, rfl⟩⟩

theorem AcceptsOpen.block {us rest : List Token} {es : List Expr} {r : Token}
    (h : Statements .nearest us es) (hr : r.kind = .symbol .rightBrace) (hn : us.length ≤ n)
    (hlen : (us ++ r :: rest).length < k) :
    block s n (us ++ r :: rest) = .ok (.sequence es) rest := by
  have hes : Parser.statements (.symbol .rightBrace) s n (us ++ r :: rest) = .ok es (r :: rest) :=
    hs.statements (by decide) rfl h hn hlen (.inl hr)
  exact bind_eq_ok_iff.2 ⟨es, _, hes, expect_bind_eq_ok_iff.2 ⟨r, rest, rfl, hr, rfl⟩⟩

theorem AcceptsOpen.function {us rest : List Token} {e : Expr} (h : Function .nearest us e)
    (hn : us.length ≤ n) (hlen : (us ++ rest).length < k) :
    function s n (us ++ rest) = .ok e rest := by
  cases h with
  | @rest l r us vs params body hl hps hr hb =>
    cases hb with
    | @braces b c ws es hbl hes hc =>
      rw [nestRight_eq]
      simp only [List.cons_append, List.append_assoc, List.nil_append, List.length_cons,
        List.length_append, List.length_nil] at hn hlen ⊢
      have hparams : listUntilParen (parameters l.line maxArity)
          (us ++ r :: b :: (ws ++ c :: rest)) = .ok params (r :: b :: (ws ++ c :: rest)) :=
        accepts_listUntilParen (k := k) (accepts_parameters l.line maxArity)
          (fun | .ident hx => ⟨_, _, rfl, by rw [hx]; rfl⟩) (by decide) hps hr
          (by simp only [List.length_append, List.length_cons]; omega)
      have hbody : Parser.block s n (ws ++ c :: rest) = .ok (.sequence es) rest :=
        hs.block hes hc (by omega) (by simp only [List.length_append, List.length_cons]; omega)
      refine expect_bind_eq_ok_iff.2 ⟨l, _, rfl, hl, ?_⟩
      refine bind_eq_ok_iff.2 ⟨params, _, hparams, ?_⟩
      refine expect_bind_eq_ok_iff.2 ⟨r, _, rfl, hr, ?_⟩
      refine expect_bind_eq_ok_iff.2 ⟨b, _, rfl, hbl, ?_⟩
      exact bind_pure_eq_ok_iff.2 ⟨_, hbody, rfl⟩

theorem AcceptsOpen.body {us rest : List Token} {e : Expr} {dangling : Bool}
    (h : Body .nearest us e dangling) (hlen : (us ++ rest).length < k)
    (hset : dangling = true → (next rest).kind ≠ .keyword .elseWord) :
    body s (us ++ rest) = .ok e rest := by
  cases h with
  | block hb => exact bind_pure_eq_ok_iff.2 ⟨_, hs (.block hb) hlen hset, rfl⟩
  | statement ho => exact bind_pure_eq_ok_iff.2 ⟨_, hs ho hlen hset, rfl⟩

end Statement

/-! #### Expressions -/

theorem primary_cons {t : Token} (ht : t.kind ≠ .eof) (ts : List Token) :
    primary p s n (t :: ts) = primaryFrom p s n t ts := by
  show primaryFrom p s n (next (t :: ts)) (afterNext (t :: ts)) = _
  rw [next_cons, afterNext_cons ht]

variable (hp : Accepts k p (Expression .nearest) expressionStops)
  (hs : AcceptsOpen k s (Statement .nearest)) (hn : k ≤ n)

include hp hs hn

theorem accepts_primary : Accepts (k + 1) (primary p s n) (Primary .nearest) [] := by
  intro us e rest h hlen _
  cases h with
  | int ht | true ht | false ht | null ht | ident ht =>
    refine (primary_cons (by simp [ht]) _).trans ?_
    simp only [primaryFrom, ht]
    rfl
  | @paren l r us e hl he hr =>
    simp only [List.cons_append, List.append_assoc, List.nil_append, List.length_cons,
      List.length_append] at hlen ⊢
    have hinner : p (us ++ r :: rest) = .ok e (r :: rest) :=
      hp he (by simp only [List.length_append, List.length_cons]; omega)
        (avoids_cons hr (by decide) _)
    refine (primary_cons (by rw [hl]; decide) _).trans ?_
    simp only [primaryFrom, hl]
    exact bind_eq_ok_iff.2 ⟨e, _, hinner, expect_bind_eq_ok_iff.2 ⟨r, rest, rfl, hr, rfl⟩⟩
  | @print w l r us e hw hl he hr =>
    simp only [List.cons_append, List.append_assoc, List.nil_append, List.length_cons,
      List.length_append] at hlen ⊢
    have hinner : p (us ++ r :: rest) = .ok e (r :: rest) :=
      hp he (by simp only [List.length_append, List.length_cons]; omega)
        (avoids_cons hr (by decide) _)
    refine (primary_cons (by rw [hw]; decide) _).trans ?_
    simp only [primaryFrom, hw]
    refine expect_bind_eq_ok_iff.2 ⟨l, _, rfl, hl, ?_⟩
    exact bind_eq_ok_iff.2 ⟨e, _, hinner, expect_bind_eq_ok_iff.2 ⟨r, rest, rfl, hr, rfl⟩⟩
  | @function f us e hf he =>
    simp only [List.cons_append, List.length_cons, List.length_append] at hlen ⊢
    refine (primary_cons (by rw [hf]; decide) _).trans ?_
    simp only [primaryFrom, hf]
    exact hs.function he (by omega) (by simp only [List.length_append]; omega)

theorem accepts_call : Accepts (k + 1) (call p s n) (Call .nearest) callStops := by
  intro us e rest h hlen hrest
  cases h with
  | @applied us vs callee e hf hts =>
    simp only [List.append_assoc, List.length_append] at hlen ⊢
    have hcallee : primary p s n (us ++ (vs ++ rest)) = .ok callee (vs ++ rest) :=
      accepts_primary hp hs hn hf (by simp only [List.length_append]; omega) fun _ => nofun
    have happly : callsFrom p n callee (vs ++ rest) = .ok e rest :=
      hp.callsFrom hts (by omega) (by simp only [List.length_append]; omega) hrest
    exact bind_eq_ok_iff.2 ⟨callee, _, hcallee, happly⟩

theorem accepts_unary : Accepts (k + 1) (unary p s n) (Unary .nearest) callStops :=
  (accepts_call hp hs hn).negated (Nat.succ_le_succ hn)

theorem accepts_factor : Accepts (k + 1) (factor p s n) (Factor .nearest) factorStops := by
  intro us e rest h hlen hrest
  cases h with
  | chain h =>
    exact (accepts_unary hp hs hn).chain (by decide) (Nat.succ_le_succ hn) h hlen hrest

theorem accepts_term : Accepts (k + 1) (term p s n) (Term .nearest) termStops := by
  intro us e rest h hlen hrest
  cases h with
  | chain h =>
    exact (accepts_factor hp hs hn).chain (by decide) (Nat.succ_le_succ hn) h hlen hrest

theorem accepts_comparison :
    Accepts (k + 1) (comparison p s n) (Comparison .nearest) comparisonStops := by
  intro us e rest h hlen hrest
  cases h with
  | chain h =>
    exact (accepts_term hp hs hn).chain (by decide) (Nat.succ_le_succ hn) h hlen hrest

theorem accepts_expressionOf :
    Accepts (k + 1) (expressionOf p s n) (Expression .nearest) expressionStops := by
  intro us e rest h hlen hrest
  cases h with
  | @declare v x hv hx =>
    refine (accept_then hv (by decide) _).trans ?_
    refine expect_bind_eq_ok_iff.2 ⟨x, _, rfl, hx, ?_⟩
    exact bind_pure_eq_ok_iff.2 ⟨.null, accept_else (hrest .equal (by decide)), rfl⟩
  | @declareAs v x q us e hv hx hq he =>
    simp only [List.cons_append, List.length_cons] at hlen ⊢
    have hvalue : p (us ++ rest) = .ok e rest := hp he (by omega) hrest
    refine (accept_then hv (by decide) _).trans ?_
    refine expect_bind_eq_ok_iff.2 ⟨x, _, rfl, hx, ?_⟩
    exact bind_pure_eq_ok_iff.2 ⟨e, (accept_then hq (by decide) _).trans hvalue, rfl⟩
  | @assign x q us e hx hq he =>
    simp only [List.cons_append, List.length_cons] at hlen ⊢
    have hvalue : p (us ++ rest) = .ok e rest := hp he (by omega) hrest
    have hvar : (next (x :: q :: (us ++ rest))).kind ≠ .keyword .varWord := by
      rw [next_cons, hx]
      decide
    refine (accept_else hvar).trans ((ahead_then hx hq (by decide) _).trans ?_)
    refine bind_eq_ok_iff.2 ⟨q, us ++ rest, ?_, bind_pure_eq_ok_iff.2 ⟨e, hvalue, rfl⟩⟩
    show EStateM.Result.ok q (afterNext (q :: (us ++ rest))) = _
    rw [afterNext_cons (by rw [hq]; decide)]
  | comparison he =>
    have hfront := fronted_comparison he (hrest.mono (List.subset_append_right _ _))
    have hvar : (next (us ++ rest)).kind ≠ .keyword .varWord :=
      hfront.next_ne rfl (by decide) (by decide)
    refine (accept_else hvar).trans ((ahead_else hfront.not_assignment).trans ?_)
    exact accepts_comparison hp hs hn he hlen (hrest.mono (List.subset_append_left _ _))

end Rules

/-! ### Statements -/

section StatementRule

variable {k n : Nat} {p : Parser Expr} {s : Parser (Option Expr)}
  (hp : Accepts (k + 1) p (Expression .nearest) expressionStops)
  (hs : AcceptsOpen k s (Statement .nearest)) (hn : k ≤ n)

include hp

/-- The condition of a conditional or a loop, with its parentheses. -/
theorem accepts_condition {what : Expected} {f : Expr → Parser α} {l r : Token}
    {cs ts rest : List Token} {c : Expr} {a : α} (hl : l.kind = what.kind)
    (hc : Expression .nearest cs c) (hr : r.kind = .symbol .rightParen)
    (hlen : (cs ++ r :: ts).length < k + 1) (hf : f c ts = .ok a rest) :
    (do
      let _ ← expect what
      let c ← p
      let _ ← expect .parenAfterCondition
      f c) (l :: (cs ++ r :: ts)) = .ok a rest := by
  have hcondition : p (cs ++ r :: ts) = .ok c (r :: ts) :=
    hp hc hlen (avoids_cons hr (by decide) _)
  refine expect_bind_eq_ok_iff.2 ⟨l, _, rfl, hl, ?_⟩
  refine bind_eq_ok_iff.2 ⟨c, _, hcondition, ?_⟩
  exact expect_bind_eq_ok_iff.2 ⟨r, ts, rfl, hr, hf⟩

omit hp in
/-- A statement that begins with none of the four tokens looked for first. -/
theorem statementOf_else {ts : List Token} (hsemicolon : (next ts).kind ≠ .symbol .semicolon)
    (hbrace : (next ts).kind ≠ .symbol .leftBrace) (hif : (next ts).kind ≠ .keyword .ifWord)
    (hwhile : (next ts).kind ≠ .keyword .whileWord) :
    statementOf p s n ts = (do
      if ← ahead (.keyword .functionWord) .identifier then
        let _ ← take
        return some (← namedFunction s n)
      else return some (← expressionStatement p)) ts :=
  (accept_else hsemicolon).trans <| (accept_else hbrace).trans <| (accept_else hif).trans <|
    accept_else hwhile

omit hp in
/-- A statement that begins with `function` and a name. -/
theorem accepts_namedFunction (hs : AcceptsOpen k s (Statement .nearest)) (hn : k ≤ n)
    {x : Token} {us rest : List Token} {e : Expr} (hx : x.kind = .identifier)
    (he : Function .nearest us e) (hlen : (us ++ rest).length < k) :
    namedFunction s n (x :: (us ++ rest)) = .ok (.declare x.lexeme e) rest := by
  have hlen' := hlen
  rw [List.length_append] at hlen'
  have hfunction : function s n (us ++ rest) = .ok e rest := hs.function he (by omega) hlen
  refine expect_bind_eq_ok_iff.2 ⟨x, _, rfl, hx, ?_⟩
  exact bind_pure_eq_ok_iff.2 ⟨e, hfunction, rfl⟩

/-- An expression that a semicolon follows. -/
theorem accepts_expressionStatement {us rest : List Token} {e : Expr} {t : Token}
    (he : Expression .nearest us e) (ht : t.kind = .symbol .semicolon)
    (hlen : (us ++ t :: rest).length < k + 1) :
    expressionStatement p (us ++ t :: rest) = .ok e rest := by
  have hread : p (us ++ t :: rest) = .ok e (t :: rest) :=
    hp he hlen (avoids_cons ht (by decide) _)
  exact bind_eq_ok_iff.2 ⟨e, _, hread, expect_bind_eq_ok_iff.2 ⟨t, rest, rfl, ht, rfl⟩⟩

include hs

/-- A conditional whose first branch leaves what comes after it alone. -/
theorem accepts_conditional {l r : Token} {cs us after rest : List Token} {c yes no : Expr}
    {inner : Bool} (hl : l.kind = .symbol .leftParen) (hc : Expression .nearest cs c)
    (hr : r.kind = .symbol .rightParen) (hyes : Body .nearest us yes inner)
    (hlen : (cs ++ r :: (us ++ after)).length < k)
    (hset : inner = true → (next after).kind ≠ .keyword .elseWord)
    (hno : alternative s after = .ok no rest) :
    conditional p s (l :: (cs ++ r :: (us ++ after))) = .ok (.ifElse c yes no) rest := by
  have hlen' : (us ++ after).length < k := by
    rw [List.length_append, List.length_cons] at hlen
    omega
  have hbranch : body s (us ++ after) = .ok yes after := hs.body hyes hlen' hset
  refine accepts_condition hp hl hc hr (Nat.lt_succ_of_lt hlen) ?_
  exact bind_eq_ok_iff.2 ⟨yes, _, hbranch, bind_pure_eq_ok_iff.2 ⟨no, hno, rfl⟩⟩

theorem accepts_whileLoop {l r : Token} {cs us rest : List Token} {c b : Expr} {dangling : Bool}
    (hl : l.kind = .symbol .leftParen) (hc : Expression .nearest cs c)
    (hr : r.kind = .symbol .rightParen) (hb : Body .nearest us b dangling)
    (hlen : (cs ++ r :: (us ++ rest)).length < k)
    (hset : dangling = true → (next rest).kind ≠ .keyword .elseWord) :
    whileLoop p s (l :: (cs ++ r :: (us ++ rest))) = .ok (.loop c b) rest := by
  have hlen' : (us ++ rest).length < k := by
    rw [List.length_append, List.length_cons] at hlen
    omega
  have hbody : body s (us ++ rest) = .ok b rest := hs.body hb hlen' hset
  refine accepts_condition hp hl hc hr (Nat.lt_succ_of_lt hlen) ?_
  exact bind_pure_eq_ok_iff.2 ⟨b, hbody, rfl⟩

include hn

theorem accepts_statementOf : AcceptsOpen (k + 1) (statementOf p s n) (Statement .nearest) := by
  intro us o dangling rest h hlen hset
  cases h with
  | empty hk => exact accept_then hk (by decide) _
  | block hb =>
    cases hb with
    | @braces l r us es hl hes hr =>
      rw [nestRight_eq]
      simp only [List.cons_append, List.append_assoc, List.nil_append, List.length_cons,
        List.length_append] at hlen ⊢
      have hblock : block s n (us ++ r :: rest) = .ok (.sequence es) rest :=
        hs.block hes hr (by omega) (by simp only [List.length_append, List.length_cons]; omega)
      refine (accept_else (by simp [hl])).trans ((accept_then hl (by decide) _).trans ?_)
      exact bind_pure_eq_ok_iff.2 ⟨_, hblock, rfl⟩
  | @ifElse i l r o cs us vs c yes no inner _ hi hl hc hr hyes hrule ho hno =>
    simp only [List.cons_append, List.append_assoc, List.length_cons] at hlen ⊢
    -- The branch before the `else` is not dangling, so that it leaves the `else` alone.
    have hopen : inner ≠ true := by simp [hrule rfl]
    have halternative : alternative s (o :: (vs ++ rest)) = .ok no rest := by
      refine (accept_then ho (by decide) _).trans (hs.body hno ?_ hset)
      simp only [List.length_append, List.length_cons] at hlen ⊢
      omega
    have hread := accepts_conditional hp hs hl hc hr hyes (by omega) (fun h => absurd h hopen)
      halternative
    refine (accept_else (by simp [hi])).trans ((accept_else (by simp [hi])).trans ?_)
    exact (accept_then hi (by decide) _).trans (bind_pure_eq_ok_iff.2 ⟨_, hread, rfl⟩)
  | @ifOnly i l r cs us c yes inner hi hl hc hr hyes =>
    simp only [List.cons_append, List.append_assoc, List.length_cons] at hlen ⊢
    have halternative : alternative s rest = .ok .null rest := accept_else (hset rfl)
    have hread := accepts_conditional hp hs hl hc hr hyes (by omega) (fun _ => hset rfl)
      halternative
    refine (accept_else (by simp [hi])).trans ((accept_else (by simp [hi])).trans ?_)
    exact (accept_then hi (by decide) _).trans (bind_pure_eq_ok_iff.2 ⟨_, hread, rfl⟩)
  | @loop w l r cs us c b _ hw hl hc hr hb =>
    simp only [List.cons_append, List.append_assoc, List.length_cons] at hlen ⊢
    have hread := accepts_whileLoop hp hs hl hc hr hb (by omega) hset
    refine (accept_else (by simp [hw])).trans ((accept_else (by simp [hw])).trans ?_)
    refine (accept_else (by simp [hw])).trans ((accept_then hw (by decide) _).trans ?_)
    exact bind_pure_eq_ok_iff.2 ⟨_, hread, rfl⟩
  | @function f x us e hf hx he =>
    simp only [List.cons_append, List.length_cons] at hlen ⊢
    have hread : namedFunction s n (x :: (us ++ rest)) = .ok (.declare x.lexeme e) rest :=
      accepts_namedFunction hs hn hx he (by omega)
    refine (statementOf_else (by simp [hf]) (by simp [hf]) (by simp [hf])
      (by simp [hf])).trans ((ahead_then hf hx (by decide) _).trans ?_)
    exact bind_pure_eq_ok_iff.2 ⟨_, hread, rfl⟩
  | @expression t us e he ht =>
    simp only [List.append_assoc, List.cons_append, List.nil_append] at hlen ⊢
    have hequal : Avoids [.equal] (t :: rest) := avoids_cons ht (by decide) _
    have hne : ∀ {k : TokenKind}, beginsOperand k = false → k ≠ .identifier →
        k ≠ .keyword .functionWord → k ≠ .keyword .varWord → (next (us ++ t :: rest)).kind ≠ k :=
      he.next_ne hequal
    refine (statementOf_else (hne rfl (by decide) (by decide) (by decide))
      (hne rfl (by decide) (by decide) (by decide)) (hne rfl (by decide) (by decide) (by decide))
      (hne rfl (by decide) (by decide) (by decide))).trans ?_
    refine (ahead_else (he.not_namedFunction hequal)).trans ?_
    exact bind_pure_eq_ok_iff.2 ⟨e, accepts_expressionStatement hp he ht hlen, rfl⟩

end StatementRule

/-! ### Every depth that suffices -/

theorem accepts_both {k n : Nat} (hn : k ≤ n) :
    Accepts k (expression n) (Expression .nearest) expressionStops ∧
      AcceptsOpen k (statement n) (Statement .nearest) := by
  induction k generalizing n with
  | zero =>
    constructor
    · intro us e rest _ hlen
      exact absurd hlen (Nat.not_lt_zero _)
    · intro us o dangling rest _ hlen
      exact absurd hlen (Nat.not_lt_zero _)
  | succ k ih =>
    obtain ⟨n, rfl⟩ : ∃ m, n = m + 1 := ⟨n - 1, by omega⟩
    obtain ⟨hp, hs⟩ := ih (Nat.le_of_succ_le_succ hn)
    have hle : k ≤ n + 1 := Nat.le_of_succ_le hn
    have he : Accepts (k + 1) (expression (n + 1)) (Expression .nearest) expressionStops :=
      accepts_expressionOf hp hs hle
    exact ⟨he, accepts_statementOf he hs hle⟩

/-- A program with every `else` at the nearest `if` is read, up to the end of the input. -/
theorem program_complete {ts : List Token} {eof : Token} {e : Expr} (heof : eof.kind = .eof)
    (h : Program .nearest ts e) : program (ts ++ [eof]) = .ok e [eof] := by
  obtain ⟨es, hes, rfl⟩ := program_iff.1 h
  have hs := (accepts_both (Nat.le_refl ((ts ++ [eof]).length + 1))).2
  have hread : statements .eof (statement ((ts ++ [eof]).length + 1)) ((ts ++ [eof]).length + 1)
      (ts ++ [eof]) = .ok es [eof] :=
    hs.statements (by decide) rfl hes (by simp only [List.length_append]; omega)
      (Nat.lt_succ_self _) (.inl heof)
  exact bind_pure_eq_ok_iff.2 ⟨es, hread, rfl⟩

end Featherweight.Parser
