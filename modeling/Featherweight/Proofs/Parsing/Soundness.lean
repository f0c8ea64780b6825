import Featherweight.Proofs.Parsing.Derivation
import Featherweight.Proofs.Parsing.Success

/-!
# The parser reads phrases of the grammar

Whatever a reader succeeds in reading is a phrase of its rule, and the answer is what the phrase
stands for (`Finds`). A reader of statements leaves no `else` that the statement could still take
(`FindsOpen`): this is what puts every `else` with the nearest `if` that has none.

Every reader is given the readers inside it, so each lemma here is about one rule, given the
lemmas about those; the rules are tied together by induction on the depth (`finds_both`).
-/

namespace Featherweight.Parser

open Grammar

variable {α : Type}

/-- What the reader succeeds in reading is such a phrase. -/
def Finds (p : Parser α) (phrase : Phrase α) : Prop :=
  ∀ ⦃ts rest a⦄, p ts = .ok a rest → ∃ us, ts = us ++ rest ∧ phrase us a

/-- No `else` follows that a statement could take which is dangling or not, as the flag says. -/
def Settled (dangling : Bool) (rest : List Token) : Prop :=
  dangling = true → (next rest).kind ≠ .keyword .elseWord

/-- What the reader succeeds in reading is such a phrase, which takes any `else` that it can. -/
def FindsOpen (p : Parser α) (phrase : List Token → α → Bool → Prop) : Prop :=
  ∀ ⦃ts rest a⦄, p ts = .ok a rest →
    ∃ us dangling, ts = us ++ rest ∧ phrase us a dangling ∧ Settled dangling rest

theorem settled_false (rest : List Token) : Settled false rest := by
  intro h
  cases h

/-! ### Repetitions and lists -/

theorem operator_eq_ok_some {ops : List BinaryOp} {op : BinaryOp} {ts rest : List Token}
    (h : operator ops ts = .ok (some op) rest) :
    ∃ o, ts = o :: rest ∧ op ∈ ops ∧ o.kind = .symbol op.symbol := by
  induction ops with
  | nil => cases h
  | cons op' ops ih =>
    rcases accept_cases (symbol_ne_eof _) h with ⟨o, us, rfl, ho, hok⟩ | ⟨-, hok⟩
    · obtain ⟨hop, rfl⟩ := pure_eq_ok_iff.1 hok
      cases hop
      exact ⟨o, rfl, List.mem_cons_self, ho⟩
    · obtain ⟨o, hts, hop, ho⟩ := ih hok
      exact ⟨o, hts, List.mem_cons_of_mem _ hop, ho⟩

theorem operator_eq_ok_none {ops : List BinaryOp} {ts rest : List Token}
    (h : operator ops ts = .ok none rest) : ts = rest := by
  induction ops with
  | nil => exact (pure_eq_ok_iff.1 h).2
  | cons op ops ih =>
    rcases accept_cases (symbol_ne_eof _) h with ⟨o, us, rfl, ho, hok⟩ | ⟨-, hok⟩
    · cases (pure_eq_ok_iff.1 hok).1
    · exact ih hok

section Lists

variable {p : Parser Expr} {phrase : Phrase Expr}

theorem Finds.chainFrom (hp : Finds p phrase) (ops : List BinaryOp) (n : Nat) (left : Expr) :
    Finds (chainFrom ops p n left) (Operations ops phrase left) := by
  induction n generalizing left with
  | zero =>
    intro ts rest e h
    obtain ⟨rfl, rfl⟩ := pure_eq_ok_iff.1 h
    exact ⟨[], rfl, .done⟩
  | succ n ih =>
    intro ts rest e h
    obtain ⟨found, mid, hop, h₁⟩ := bind_eq_ok_iff.1 h
    cases found with
    | none =>
      obtain ⟨rfl, rfl⟩ := pure_eq_ok_iff.1 h₁
      exact ⟨[], operator_eq_ok_none hop, .done⟩
    | some op =>
      obtain ⟨o, rfl, hmem, ho⟩ := operator_eq_ok_some hop
      obtain ⟨right, mid', hr, h₂⟩ := bind_eq_ok_iff.1 h₁
      obtain ⟨us, rfl, hus⟩ := hp hr
      obtain ⟨vs, rfl, hvs⟩ := ih _ h₂
      exact ⟨o :: (us ++ vs), by simp, .more hmem ho hus hvs⟩

theorem Finds.chain (hp : Finds p phrase) (ops : List BinaryOp) (n : Nat) :
    Finds (chain ops p n) (Chain ops phrase) := by
  intro ts rest e h
  obtain ⟨left, mid, hl, h₁⟩ := bind_eq_ok_iff.1 h
  obtain ⟨us, rfl, hus⟩ := hp hl
  obtain ⟨vs, rfl, hvs⟩ := hp.chainFrom ops n left h₁
  exact ⟨us ++ vs, by simp, .operands hus hvs⟩

theorem Finds.negated {unary : Phrase Expr} (hp : Finds p unary)
    (hminus : ∀ {m us e}, m.kind = .symbol .minus → unary us e → unary (m :: us) (.negate e))
    (n : Nat) : Finds (negated p n) unary := by
  induction n with
  | zero => exact hp
  | succ n ih =>
    intro ts rest e h
    rcases accept_cases (by decide) h with ⟨m, us, rfl, hm, hok⟩ | ⟨-, hok⟩
    · obtain ⟨e, hn, rfl⟩ := bind_pure_eq_ok_iff.1 hok
      obtain ⟨vs, rfl, hvs⟩ := ih hn
      exact ⟨m :: vs, rfl, hminus hm hvs⟩
    · exact hp hok

/-- Items with commas between: one is read, and either a comma and the others follow or not. -/
theorem finds_commaList {item : Phrase α} {q : Parser α} {more : Parser (List α)}
    (hq : Finds q item) {n : Nat}
    (hmore : Finds more fun us as => CommaList item us as ∧ as.length ≤ n) :
    Finds (do
      let a ← q
      if ← accept (.symbol .comma) then return a :: (← more) else return [a])
      fun us as => CommaList item us as ∧ as.length ≤ n + 1 := by
  intro ts rest as h
  obtain ⟨a, mid, ha, h₁⟩ := bind_eq_ok_iff.1 h
  obtain ⟨us, rfl, hus⟩ := hq ha
  rcases accept_cases (by decide) h₁ with ⟨c, vs, rfl, hc, hok⟩ | ⟨-, hok⟩
  · obtain ⟨as, has, rfl⟩ := bind_pure_eq_ok_iff.1 hok
    obtain ⟨vs, rfl, hvs, hlen⟩ := hmore has
    exact ⟨us ++ c :: vs, by simp, .more hus hc hvs, Nat.succ_le_succ hlen⟩
  · obtain ⟨rfl, rfl⟩ := pure_eq_ok_iff.1 hok
    exact ⟨us, rfl, .one hus, Nat.succ_le_succ (Nat.zero_le n)⟩

theorem Finds.arguments (hp : Finds p phrase) (room : Nat) :
    Finds (arguments p room) fun us as => CommaList phrase us as ∧ as.length ≤ room := by
  induction room with
  | zero =>
    intro ts rest as h
    cases h
  | succ room ih => exact finds_commaList hp ih

theorem finds_parameters (line room : Nat) :
    Finds (parameters line room) fun us as => CommaList Name us as ∧ as.length ≤ room := by
  have hname : Finds (do return (← expect .parameterName).lexeme) Name := by
    intro ts rest x h
    obtain ⟨t, ht, rfl⟩ := bind_pure_eq_ok_iff.1 h
    obtain ⟨rfl, hk⟩ := expect_eq_ok_iff.1 ht
    exact ⟨[t], rfl, .ident hk⟩
  induction room with
  | zero =>
    intro ts rest as h
    cases h
  | succ room ih =>
    have h := finds_commaList hname ih
    rwa [bind_assoc] at h

theorem Finds.listUntilParen {item : Phrase α} {q : Parser (List α)}
    (hq : Finds q fun us as => CommaList item us as ∧ as.length ≤ maxArity) :
    Finds (listUntilParen q) (ItemList item) := by
  intro ts rest as h
  obtain ⟨t, mid, ht, h₁⟩ := bind_eq_ok_iff.1 h
  cases ht
  split at h₁
  · obtain ⟨rfl, rfl⟩ := pure_eq_ok_iff.1 h₁
    exact ⟨[], rfl, .none⟩
  · obtain ⟨us, rfl, hus, hlen⟩ := hq h₁
    exact ⟨us, rfl, .some hus hlen⟩

theorem Finds.callsFrom (hp : Finds p phrase) (n : Nat) (callee : Expr) :
    Finds (callsFrom p n callee) (ArgumentLists phrase callee) := by
  induction n generalizing callee with
  | zero =>
    intro ts rest e h
    obtain ⟨rfl, rfl⟩ := pure_eq_ok_iff.1 h
    exact ⟨[], rfl, .done⟩
  | succ n ih =>
    intro ts rest e h
    rcases accept_cases (by decide) h with ⟨l, us, rfl, hl, hok⟩ | ⟨-, hok⟩
    · obtain ⟨args, mid, hargs, h₁⟩ := bind_eq_ok_iff.1 hok
      obtain ⟨as, mid', has, h₂⟩ := bind_eq_ok_iff.1 hargs
      obtain ⟨us, rfl, hus⟩ := (hp.arguments maxArity).listUntilParen has
      obtain ⟨r, vs, rfl, hr, h₃⟩ := expect_bind_eq_ok_iff.1 h₂
      obtain ⟨rfl, rfl⟩ := pure_eq_ok_iff.1 h₃
      obtain ⟨ws, rfl, hws⟩ := ih _ h₁
      exact ⟨l :: (us ++ r :: ws), by simp, .more hl hus hr hws⟩
    · obtain ⟨rfl, rfl⟩ := pure_eq_ok_iff.1 hok
      exact ⟨[], rfl, .done⟩

end Lists

/-! ### Rules -/

section Rules

variable {p : Parser Expr} {s : Parser (Option Expr)}

section Statement

variable (hs : FindsOpen s (Statement .nearest))

include hs

theorem FindsOpen.statements (close : TokenKind) (n : Nat) :
    Finds (statements close s n) (Statements .nearest) := by
  induction n with
  | zero =>
    intro ts rest es h
    obtain ⟨rfl, rfl⟩ := pure_eq_ok_iff.1 h
    exact ⟨[], rfl, .nil⟩
  | succ n ih =>
    intro ts rest es h
    obtain ⟨t, mid, ht, h₁⟩ := bind_eq_ok_iff.1 h
    cases ht
    split at h₁
    · obtain ⟨rfl, rfl⟩ := pure_eq_ok_iff.1 h₁
      exact ⟨[], rfl, .nil⟩
    · obtain ⟨o, mid, ho, h₂⟩ := bind_eq_ok_iff.1 h₁
      obtain ⟨us, dangling, rfl, hus, -⟩ := hs ho
      obtain ⟨es, hes, rfl⟩ := bind_pure_eq_ok_iff.1 h₂
      obtain ⟨vs, rfl, hvs⟩ := ih hes
      exact ⟨us ++ vs, by simp, .cons hus hvs⟩

theorem FindsOpen.block (n : Nat) :
    Finds (block s n) fun us e => ∀ l : Token, l.kind = .symbol .leftBrace →
      Block .nearest (l :: us) e := by
  intro ts rest e h
  obtain ⟨es, mid, hes, h₁⟩ := bind_eq_ok_iff.1 h
  obtain ⟨us, rfl, hus⟩ := hs.statements _ n hes
  obtain ⟨r, vs, rfl, hr, h₂⟩ := expect_bind_eq_ok_iff.1 h₁
  obtain ⟨rfl, rfl⟩ := pure_eq_ok_iff.1 h₂
  exact ⟨us ++ [r], by simp, fun l hl => .sequence hl hus hr⟩

theorem FindsOpen.function (n : Nat) : Finds (function s n) (Function .nearest) := by
  intro ts rest e h
  obtain ⟨l, mid, rfl, hl, h₁⟩ := expect_bind_eq_ok_iff.1 h
  obtain ⟨params, mid, hps, h₂⟩ := bind_eq_ok_iff.1 h₁
  obtain ⟨us, rfl, hus⟩ := (finds_parameters l.line maxArity).listUntilParen hps
  obtain ⟨r, mid, rfl, hr, h₃⟩ := expect_bind_eq_ok_iff.1 h₂
  obtain ⟨b, mid, rfl, hb, h₄⟩ := expect_bind_eq_ok_iff.1 h₃
  obtain ⟨body, hbody, rfl⟩ := bind_pure_eq_ok_iff.1 h₄
  obtain ⟨vs, rfl, hvs⟩ := hs.block n hbody
  exact ⟨l :: (us ++ r :: b :: vs), by simp, .rest hl hus hr (hvs b hb)⟩

theorem FindsOpen.body : FindsOpen (body s) (Body .nearest) := by
  intro ts rest e h
  obtain ⟨o, ho, rfl⟩ := bind_pure_eq_ok_iff.1 h
  obtain ⟨us, dangling, rfl, hus, hset⟩ := hs ho
  exact ⟨us, dangling, rfl, .statement hus, hset⟩

end Statement

variable (hp : Finds p (Expression .nearest)) (hs : FindsOpen s (Statement .nearest))

include hp

theorem Finds.declaration :
    Finds (declaration p) fun us e => ∀ v : Token, v.kind = .keyword .varWord →
      Expression .nearest (v :: us) e := by
  intro ts rest e h
  obtain ⟨x, mid, rfl, hx, h₁⟩ := expect_bind_eq_ok_iff.1 h
  obtain ⟨e, he, rfl⟩ := bind_pure_eq_ok_iff.1 h₁
  rcases accept_cases (by decide) he with ⟨q, us, rfl, hq, hok⟩ | ⟨-, hok⟩
  · obtain ⟨us, rfl, hus⟩ := hp hok
    exact ⟨x :: q :: us, rfl, fun v hv => .declareAs hv hx hq hus⟩
  · obtain ⟨rfl, rfl⟩ := pure_eq_ok_iff.1 hok
    exact ⟨[x], rfl, fun v hv => .declare hv hx⟩

theorem Finds.expressionStatement :
    Finds (expressionStatement p) fun us e => Statement .nearest us (some e) false := by
  intro ts rest e h
  obtain ⟨e, mid, he, h₁⟩ := bind_eq_ok_iff.1 h
  obtain ⟨us, rfl, hus⟩ := hp he
  obtain ⟨r, vs, rfl, hr, h₂⟩ := expect_bind_eq_ok_iff.1 h₁
  obtain ⟨rfl, rfl⟩ := pure_eq_ok_iff.1 h₂
  exact ⟨us ++ [r], by simp, .expression hus hr⟩

include hs

theorem Finds.primaryFrom (n : Nat) (t : Token) :
    Finds (primaryFrom p s n t) fun us e => Primary .nearest (t :: us) e := by
  have hnone : Finds (noExpression t) fun us e => Primary .nearest (t :: us) e := by
    intro ts rest e h
    cases h
  unfold Parser.primaryFrom
  cases ht : t.kind with
  | int v =>
    intro ts rest e h
    obtain ⟨rfl, rfl⟩ := pure_eq_ok_iff.1 h
    exact ⟨[], rfl, .int ht⟩
  | identifier =>
    intro ts rest e h
    obtain ⟨rfl, rfl⟩ := pure_eq_ok_iff.1 h
    exact ⟨[], rfl, .ident ht⟩
  | eof => exact hnone
  | symbol s' =>
    cases s' with
    | leftParen =>
      intro ts rest e h
      obtain ⟨e, mid, he, h₁⟩ := bind_eq_ok_iff.1 h
      obtain ⟨us, rfl, hus⟩ := hp he
      obtain ⟨r, vs, rfl, hr, h₂⟩ := expect_bind_eq_ok_iff.1 h₁
      obtain ⟨rfl, rfl⟩ := pure_eq_ok_iff.1 h₂
      exact ⟨us ++ [r], by simp, .paren ht hus hr⟩
    | _ => exact hnone
  | keyword k =>
    cases k with
    | trueWord =>
      intro ts rest e h
      obtain ⟨rfl, rfl⟩ := pure_eq_ok_iff.1 h
      exact ⟨[], rfl, .true ht⟩
    | falseWord =>
      intro ts rest e h
      obtain ⟨rfl, rfl⟩ := pure_eq_ok_iff.1 h
      exact ⟨[], rfl, .false ht⟩
    | nullWord =>
      intro ts rest e h
      obtain ⟨rfl, rfl⟩ := pure_eq_ok_iff.1 h
      exact ⟨[], rfl, .null ht⟩
    | printWord =>
      intro ts rest e h
      obtain ⟨l, mid, rfl, hl, h₁⟩ := expect_bind_eq_ok_iff.1 h
      obtain ⟨e, mid, he, h₂⟩ := bind_eq_ok_iff.1 h₁
      obtain ⟨us, rfl, hus⟩ := hp he
      obtain ⟨r, vs, rfl, hr, h₃⟩ := expect_bind_eq_ok_iff.1 h₂
      obtain ⟨rfl, rfl⟩ := pure_eq_ok_iff.1 h₃
      exact ⟨l :: (us ++ [r]), by simp, .print ht hl hus hr⟩
    | functionWord =>
      intro ts rest e h
      obtain ⟨us, rfl, hus⟩ := hs.function n h
      exact ⟨us, rfl, .function ht hus⟩
    | _ => exact hnone

theorem Finds.primary (n : Nat) : Finds (primary p s n) (Primary .nearest) := by
  intro ts rest e h
  change Parser.primaryFrom p s n (next ts) (afterNext ts) = _ at h
  by_cases hn : (next ts).kind = .eof
  · rw [Parser.primaryFrom, hn] at h
    cases h
  · obtain ⟨t, us, rfl, ht⟩ := exists_cons_of_next hn
    rw [afterNext_cons ht] at h
    obtain ⟨vs, rfl, hvs⟩ := hp.primaryFrom hs n t h
    exact ⟨t :: vs, rfl, hvs⟩

theorem Finds.call (n : Nat) : Finds (call p s n) (Call .nearest) := by
  intro ts rest e h
  obtain ⟨callee, mid, hf, h₁⟩ := bind_eq_ok_iff.1 h
  obtain ⟨us, rfl, hus⟩ := hp.primary hs n hf
  obtain ⟨vs, rfl, hvs⟩ := hp.callsFrom n callee h₁
  exact ⟨us ++ vs, by simp, .applied hus hvs⟩

theorem Finds.unary (n : Nat) : Finds (unary p s n) (Unary .nearest) := by
  have hcall : Finds (Parser.call p s n) (Unary .nearest) := by
    intro ts rest e h
    obtain ⟨us, rfl, hus⟩ := hp.call hs n h
    exact ⟨us, rfl, .call hus⟩
  exact hcall.negated .negate n

theorem Finds.factor (n : Nat) : Finds (factor p s n) (Factor .nearest) := by
  intro ts rest e h
  obtain ⟨us, rfl, hus⟩ := (hp.unary hs n).chain _ n h
  exact ⟨us, rfl, .chain hus⟩

theorem Finds.term (n : Nat) : Finds (term p s n) (Term .nearest) := by
  intro ts rest e h
  obtain ⟨us, rfl, hus⟩ := (hp.factor hs n).chain _ n h
  exact ⟨us, rfl, .chain hus⟩

theorem Finds.comparison (n : Nat) : Finds (comparison p s n) (Comparison .nearest) := by
  intro ts rest e h
  obtain ⟨us, rfl, hus⟩ := (hp.term hs n).chain _ n h
  exact ⟨us, rfl, .chain hus⟩

theorem Finds.expressionOf (n : Nat) : Finds (expressionOf p s n) (Expression .nearest) := by
  intro ts rest e h
  rcases accept_cases (by decide) h with ⟨v, us, rfl, hv, hok⟩ | ⟨-, hok⟩
  · obtain ⟨us, rfl, hus⟩ := hp.declaration hok
    exact ⟨v :: us, rfl, hus v hv⟩
  rcases ahead_cases (by decide) (by decide) hok with ⟨x, q, us, rfl, hx, hq, h₁⟩ | h₁
  · obtain ⟨t, mid, ht, h₂⟩ := bind_eq_ok_iff.1 h₁
    obtain ⟨e, he, rfl⟩ := bind_pure_eq_ok_iff.1 h₂
    have hmid : us = mid := by
      have := congrArg left ht
      rwa [show left (take (q :: us)) = afterNext (q :: us) from rfl,
        afterNext_cons (hq ▸ symbol_ne_eof _)] at this
    subst hmid
    obtain ⟨us, rfl, hus⟩ := hp he
    exact ⟨x :: q :: us, rfl, .assign hx hq hus⟩
  · obtain ⟨us, rfl, hus⟩ := hp.comparison hs n h₁
    exact ⟨us, rfl, .comparison hus⟩

theorem Finds.conditional :
    FindsOpen (conditional p s) fun us e dangling => ∀ i : Token, i.kind = .keyword .ifWord →
      Statement .nearest (i :: us) (some e) dangling := by
  intro ts rest e h
  obtain ⟨l, mid, rfl, hl, h₁⟩ := expect_bind_eq_ok_iff.1 h
  obtain ⟨c, mid, hc, h₂⟩ := bind_eq_ok_iff.1 h₁
  obtain ⟨cs, rfl, hcs⟩ := hp hc
  obtain ⟨r, mid, rfl, hr, h₃⟩ := expect_bind_eq_ok_iff.1 h₂
  obtain ⟨yes, mid, hyes, h₄⟩ := bind_eq_ok_iff.1 h₃
  obtain ⟨us, inner, rfl, hus, hset⟩ := hs.body hyes
  obtain ⟨no, hno, rfl⟩ := bind_pure_eq_ok_iff.1 h₄
  rcases accept_cases (by decide) hno with ⟨o, vs, rfl, ho, hok⟩ | ⟨hne, hok⟩
  · obtain ⟨vs, dangling, rfl, hvs, hset'⟩ := hs.body hok
    -- The branch before the `else` would have taken it.
    have hinner : inner = false := Bool.eq_false_iff.2 fun hd => hset hd ho
    exact ⟨l :: (cs ++ r :: (us ++ o :: vs)), dangling, by simp,
      fun i hi => .ifElse hi hl hcs hr hus (fun _ => hinner) ho hvs, hset'⟩
  · obtain ⟨rfl, rfl⟩ := pure_eq_ok_iff.1 hok
    exact ⟨l :: (cs ++ r :: us), true, by simp, fun i hi => .ifOnly hi hl hcs hr hus,
      fun _ => hne⟩

theorem Finds.whileLoop :
    FindsOpen (whileLoop p s) fun us e dangling => ∀ w : Token, w.kind = .keyword .whileWord →
      Statement .nearest (w :: us) (some e) dangling := by
  intro ts rest e h
  obtain ⟨l, mid, rfl, hl, h₁⟩ := expect_bind_eq_ok_iff.1 h
  obtain ⟨c, mid, hc, h₂⟩ := bind_eq_ok_iff.1 h₁
  obtain ⟨cs, rfl, hcs⟩ := hp hc
  obtain ⟨r, mid, rfl, hr, h₃⟩ := expect_bind_eq_ok_iff.1 h₂
  obtain ⟨b, hb, rfl⟩ := bind_pure_eq_ok_iff.1 h₃
  obtain ⟨us, dangling, rfl, hus, hset⟩ := hs.body hb
  exact ⟨l :: (cs ++ r :: us), dangling, by simp, fun w hw => .loop hw hl hcs hr hus, hset⟩

omit hp in
theorem FindsOpen.namedFunction (n : Nat) :
    Finds (namedFunction s n) fun us e => ∀ f : Token, f.kind = .keyword .functionWord →
      Statement .nearest (f :: us) (some e) false := by
  intro ts rest e h
  obtain ⟨x, mid, rfl, hx, h₁⟩ := expect_bind_eq_ok_iff.1 h
  obtain ⟨e, he, rfl⟩ := bind_pure_eq_ok_iff.1 h₁
  obtain ⟨us, rfl, hus⟩ := hs.function n he
  exact ⟨x :: us, rfl, fun f hf => .function hf hx hus⟩

theorem Finds.statementOf (n : Nat) : FindsOpen (statementOf p s n) (Statement .nearest) := by
  intro ts rest o h
  rcases accept_cases (by decide) h with ⟨t, us, rfl, ht, hok⟩ | ⟨-, h₁⟩
  · obtain ⟨rfl, rfl⟩ := pure_eq_ok_iff.1 hok
    exact ⟨[t], false, rfl, .empty ht, settled_false _⟩
  rcases accept_cases (by decide) h₁ with ⟨l, us, rfl, hl, hok⟩ | ⟨-, h₂⟩
  · obtain ⟨e, he, rfl⟩ := bind_pure_eq_ok_iff.1 hok
    obtain ⟨us, rfl, hus⟩ := hs.block n he
    exact ⟨l :: us, false, rfl, .block (hus l hl), settled_false _⟩
  rcases accept_cases (by decide) h₂ with ⟨i, us, rfl, hi, hok⟩ | ⟨-, h₃⟩
  · obtain ⟨e, he, rfl⟩ := bind_pure_eq_ok_iff.1 hok
    obtain ⟨us, dangling, rfl, hus, hset⟩ := hp.conditional hs he
    exact ⟨i :: us, dangling, rfl, hus i hi, hset⟩
  rcases accept_cases (by decide) h₃ with ⟨w, us, rfl, hw, hok⟩ | ⟨-, h₄⟩
  · obtain ⟨e, he, rfl⟩ := bind_pure_eq_ok_iff.1 hok
    obtain ⟨us, dangling, rfl, hus, hset⟩ := hp.whileLoop hs he
    exact ⟨w :: us, dangling, rfl, hus w hw, hset⟩
  rcases ahead_cases (by decide) (by decide) h₄ with ⟨f, x, us, rfl, hf, hx, hok⟩ | h₅
  · obtain ⟨e, he, rfl⟩ := bind_pure_eq_ok_iff.1 hok
    obtain ⟨us, hts, hus⟩ := hs.namedFunction n he
    exact ⟨f :: us, false, by rw [hts]; rfl, hus f hf, settled_false _⟩
  · obtain ⟨e, he, rfl⟩ := bind_pure_eq_ok_iff.1 h₅
    obtain ⟨us, rfl, hus⟩ := hp.expressionStatement he
    exact ⟨us, false, rfl, hus, settled_false _⟩

end Rules

/-! ### Every depth -/

theorem finds_both (n : Nat) :
    Finds (expression n) (Expression .nearest) ∧ FindsOpen (statement n) (Statement .nearest) := by
  induction n with
  | zero =>
    constructor
    · intro ts rest e h
      cases h
    · intro ts rest o h
      cases h
  | succ n ih =>
    obtain ⟨hp, hs⟩ := ih
    have he : Finds (expression (n + 1)) (Expression .nearest) := hp.expressionOf hs _
    exact ⟨he, he.statementOf hs _⟩

theorem finds_statement (n : Nat) : FindsOpen (statement n) (Statement .nearest) :=
  (finds_both n).2

/-- The tokens before the first end of the input are determined. -/
theorem eq_of_append_eof {ts us rest : List Token} {eof : Token}
    (hts : ∀ t ∈ ts, t.kind ≠ .eof) (hus : ∀ t ∈ us, t.kind ≠ .eof) (heof : eof.kind = .eof)
    (hrest : (next rest).kind = .eof) (h : ts ++ [eof] = us ++ rest) : ts = us := by
  have hnext : (next [eof]).kind = .eof := heof
  have hbefore : beforeEnd (ts ++ [eof]) = ts := by
    rw [beforeEnd_append hts, beforeEnd_of_next hnext, List.append_nil]
  have hbefore' : beforeEnd (us ++ rest) = us := by
    rw [beforeEnd_append hus, beforeEnd_of_next hrest, List.append_nil]
  rw [← hbefore, h, hbefore']

/-- What is read as a program is one, with every `else` at the nearest `if`. -/
theorem program_sound {ts : List Token} {eof : Token} {e : Expr} {rest : List Token}
    (hts : ∀ t ∈ ts, t.kind ≠ .eof) (heof : eof.kind = .eof)
    (h : program (ts ++ [eof]) = .ok e rest) : Program .nearest ts e := by
  obtain ⟨es, hes, rfl⟩ := bind_pure_eq_ok_iff.1 h
  obtain ⟨us, hsplit, hus⟩ := (finds_statement _).statements _ _ hes
  obtain ⟨used, hused, hne⟩ := reads.statements (reads_statement _) _ _ (ts ++ [eof])
  rw [hes, left_ok, hsplit] at hused
  obtain rfl := List.append_cancel_right hused
  obtain rfl := eq_of_append_eof hts hne heof (next_of_program h) hsplit
  exact program_iff.2 ⟨es, hus, rfl⟩

end Featherweight.Parser
