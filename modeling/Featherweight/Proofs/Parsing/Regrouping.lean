import Featherweight.Proofs.Parsing.Front

/-!
# Putting every `else` with the nearest `if`

Tokens that are a program in some way are also a program with every `else` at the nearest `if` that
has none (`exists_program_of_rule`). An `else` after a dangling branch moves into the branch, to the
`if` that leaves it dangling (`Statement.attach`); this changes what the tokens stand for, but not
that they are a phrase. The proof goes through the rules by the number of tokens.
-/

namespace Featherweight.Grammar

variable {α : Type}

/-! ### Moving an `else` into a dangling branch -/

theorem Body.exists_statement {rule : ElseRule} {us : List Token} {e : Expr} {dangling : Bool}
    (h : Body rule us e dangling) : ∃ o, Statement rule us o dangling := by
  cases h with
  | block hb     => exact ⟨_, .block hb⟩
  | statement ho => exact ⟨_, ho⟩

/-- A dangling statement takes an `else` that follows it. -/
theorem Statement.attach {rule : ElseRule} {us vs : List Token} {t : Token} {o : Option Expr}
    {no : Expr} {dangling : Bool} (h : Statement rule us o true) (ht : t.kind = .keyword .elseWord)
    (hno : Body rule vs no dangling) :
    ∃ o' dangling', Statement rule (us ++ t :: vs) o' dangling' := by
  induction hlen : us.length using Nat.strongRecOn generalizing us o with
  | _ n ih =>
    -- A branch has fewer tokens, so that the `else` may move into it.
    have hbranch : ∀ {ys e}, ys.length < n → Body rule ys e true →
        ∃ e' dangling', Body rule (ys ++ t :: vs) e' dangling' := by
      intro ys e hlt hbody
      obtain ⟨o, ho⟩ := hbody.exists_statement
      obtain ⟨o', dangling', ho'⟩ := ih _ hlt ho rfl
      exact ⟨_, dangling', .statement ho'⟩
    cases h with
    | @ifElse i l r w cs ys zs c yes no' inner _ hi hl hc hr hyes hrule hw hno' =>
      obtain ⟨e', dangling', hb⟩ := hbranch (by simp at hlen; omega) hno'
      refine ⟨some (.ifElse c yes e'), dangling', ?_⟩
      simpa using Statement.ifElse hi hl hc hr hyes hrule hw hb
    | @ifOnly i l r cs ys c yes inner hi hl hc hr hyes =>
      cases inner with
      | false =>
        refine ⟨some (.ifElse c yes no), dangling, ?_⟩
        simpa using Statement.ifElse hi hl hc hr hyes (fun _ => rfl) ht hno
      | true =>
        obtain ⟨e', dangling', hb⟩ := hbranch (by simp at hlen; omega) hyes
        refine ⟨some (.ifElse c e' .null), true, ?_⟩
        simpa using Statement.ifOnly hi hl hc hr hb
    | @loop w l r cs ys c body _ hw hl hc hr hbody =>
      obtain ⟨e', dangling', hb⟩ := hbranch (by simp at hlen; omega) hbody
      refine ⟨some (.loop c e'), dangling', ?_⟩
      simpa using Statement.loop hw hl hc hr hb

/-! ### Phrases made of regrouped phrases -/

/-- Fewer than `k` tokens that are one phrase are also the other, whatever they stand for. -/
def Regroups (k : Nat) (phrase phrase' : Phrase α) : Prop :=
  ∀ ⦃us a⦄, us.length < k → phrase us a → ∃ a', phrase' us a'

section Lists

variable {k : Nat} {phrase phrase' : Phrase Expr} (h : Regroups k phrase phrase')

include h

theorem Regroups.operations {ops : List BinaryOp} {left e : Expr} {us : List Token}
    (hs : Operations ops phrase left us e) (hlen : us.length ≤ k) (left' : Expr) :
    ∃ e', Operations ops phrase' left' us e' := by
  induction hs generalizing left' with
  | done => exact ⟨left', .done⟩
  | more hop ho hr _ ih =>
    simp only [List.length_cons, List.length_append] at hlen
    obtain ⟨right', hr'⟩ := h (by omega) hr
    obtain ⟨e', hs'⟩ := ih (by omega) (.binary _ left' right')
    exact ⟨e', .more hop ho hr' hs'⟩

theorem Regroups.chain {ops : List BinaryOp} :
    Regroups k (Chain ops phrase) (Chain ops phrase') := by
  intro us e hlen hc
  cases hc with
  | operands hl hs =>
    simp only [List.length_append] at hlen
    obtain ⟨left', hl'⟩ := h (by omega) hl
    obtain ⟨e', hs'⟩ := h.operations hs (by omega) left'
    exact ⟨e', .operands hl' hs'⟩

theorem Regroups.commaList {us : List Token} {as : List Expr} (hs : CommaList phrase us as)
    (hlen : us.length < k) : ∃ as', as'.length = as.length ∧ CommaList phrase' us as' := by
  induction hs with
  | one ha =>
    obtain ⟨a', ha'⟩ := h hlen ha
    exact ⟨[a'], rfl, .one ha'⟩
  | more ha hc _ ih =>
    simp only [List.length_cons, List.length_append] at hlen
    obtain ⟨a', ha'⟩ := h (by omega) ha
    obtain ⟨as', has, hs'⟩ := ih (by omega)
    exact ⟨a' :: as', by rw [List.length_cons, List.length_cons, has], .more ha' hc hs'⟩

theorem Regroups.itemList {us : List Token} {as : List Expr} (hs : ItemList phrase us as)
    (hlen : us.length < k) : ∃ as', ItemList phrase' us as' := by
  cases hs with
  | none => exact ⟨[], .none⟩
  | some hs hmax =>
    obtain ⟨as', has, hs'⟩ := h.commaList hs hlen
    exact ⟨as', .some hs' (has ▸ hmax)⟩

theorem Regroups.argumentLists {callee e : Expr} {us : List Token}
    (hs : ArgumentLists phrase callee us e) (hlen : us.length ≤ k) (callee' : Expr) :
    ∃ e', ArgumentLists phrase' callee' us e' := by
  induction hs generalizing callee' with
  | done => exact ⟨callee', .done⟩
  | more hl hargs hr _ ih =>
    simp only [List.length_cons, List.length_append] at hlen
    obtain ⟨args', hargs'⟩ := h.itemList hargs (by omega)
    obtain ⟨e', hs'⟩ := ih (by omega) (.call callee' args')
    exact ⟨e', .more hl hargs' hr hs'⟩

end Lists

/-! ### Rules -/

/-- Fewer than `k` tokens that are a statement under one rule are one under the other. -/
def RegroupsOpen (k : Nat) (rule rule' : ElseRule) : Prop :=
  ∀ ⦃us o dangling⦄, us.length < k → Statement rule us o dangling →
    ∃ o' dangling', Statement rule' us o' dangling'

section Rules

variable {k : Nat} {rule rule' : ElseRule}
  (hp : Regroups k (Expression rule) (Expression rule')) (hs : RegroupsOpen k rule rule')

section Statement

include hs

theorem RegroupsOpen.statements : Regroups k (Statements rule) (Statements rule') := by
  intro us es hlen h
  induction hn : us.length using Nat.strongRecOn generalizing us es with
  | _ n ih =>
    cases h with
    | nil => exact ⟨[], .nil⟩
    | @cons us vs o dangling es ho hes =>
      have hpos := ho.begins.length_pos
      simp only [List.length_append] at hlen hn
      obtain ⟨o', dangling', ho'⟩ := hs (by omega) ho
      obtain ⟨es', hes'⟩ := ih vs.length (by omega) (by omega) hes rfl
      exact ⟨_, .cons ho' hes'⟩

theorem RegroupsOpen.block : Regroups (k + 1) (Block rule) (Block rule') := by
  intro us e hlen h
  cases h with
  | braces hl hes hr =>
    simp only [List.length_cons, List.length_append] at hlen
    obtain ⟨es', hes'⟩ := hs.statements (by omega) hes
    exact ⟨_, .braces hl hes' hr⟩

theorem RegroupsOpen.function : Regroups k (Function rule) (Function rule') := by
  intro us e hlen h
  cases h with
  | rest hl hps hr hb =>
    simp only [List.length_cons, List.length_append] at hlen
    obtain ⟨body', hb'⟩ := hs.block (by omega) hb
    exact ⟨_, .rest hl hps hr hb'⟩

theorem RegroupsOpen.body {us : List Token} {e : Expr} {dangling : Bool}
    (h : Body rule us e dangling) (hlen : us.length < k) :
    ∃ e' dangling', Body rule' us e' dangling' := by
  obtain ⟨o, ho⟩ := h.exists_statement
  obtain ⟨o', dangling', ho'⟩ := hs hlen ho
  exact ⟨_, dangling', .statement ho'⟩

end Statement

include hp hs

theorem Regroups.primary : Regroups (k + 1) (Primary rule) (Primary rule') := by
  intro us e hlen h
  cases h with
  | int ht => exact ⟨_, .int ht⟩
  | true ht => exact ⟨_, .true ht⟩
  | false ht => exact ⟨_, .false ht⟩
  | null ht => exact ⟨_, .null ht⟩
  | ident ht => exact ⟨_, .ident ht⟩
  | paren hl he hr =>
    simp only [List.length_cons, List.length_append] at hlen
    obtain ⟨e', he'⟩ := hp (by omega) he
    exact ⟨_, .paren hl he' hr⟩
  | print hw hl he hr =>
    simp only [List.length_cons, List.length_append] at hlen
    obtain ⟨e', he'⟩ := hp (by omega) he
    exact ⟨_, .print hw hl he' hr⟩
  | function hf he =>
    obtain ⟨e', he'⟩ := hs.function (Nat.lt_of_succ_lt_succ hlen) he
    exact ⟨_, .function hf he'⟩

theorem Regroups.call : Regroups (k + 1) (Call rule) (Call rule') := by
  intro us e hlen h
  cases h with
  | applied hf hts =>
    simp only [List.length_append] at hlen
    obtain ⟨callee', hf'⟩ := hp.primary hs (by omega) hf
    obtain ⟨e', hts'⟩ := hp.argumentLists hts (by omega) callee'
    exact ⟨e', .applied hf' hts'⟩

theorem Regroups.unary : Regroups (k + 1) (Unary rule) (Unary rule') := by
  intro us e hlen h
  induction hn : us.length using Nat.strongRecOn generalizing us e with
  | _ n ih =>
    cases h with
    | negate hm he =>
      obtain ⟨e', he'⟩ := ih _ (by simp at hn; omega) (Nat.lt_of_succ_lt hlen) he rfl
      exact ⟨_, .negate hm he'⟩
    | call h =>
      obtain ⟨e', he'⟩ := hp.call hs hlen h
      exact ⟨e', .call he'⟩

theorem Regroups.comparison : Regroups (k + 1) (Comparison rule) (Comparison rule') := by
  have hfactor : Regroups (k + 1) (Factor rule) (Factor rule') := by
    rintro us e hlen ⟨h⟩
    obtain ⟨e', h'⟩ := (hp.unary hs).chain hlen h
    exact ⟨e', .chain h'⟩
  have hterm : Regroups (k + 1) (Term rule) (Term rule') := by
    rintro us e hlen ⟨h⟩
    obtain ⟨e', h'⟩ := hfactor.chain hlen h
    exact ⟨e', .chain h'⟩
  rintro us e hlen ⟨h⟩
  obtain ⟨e', h'⟩ := hterm.chain hlen h
  exact ⟨e', .chain h'⟩

theorem Regroups.expression : Regroups (k + 1) (Expression rule) (Expression rule') := by
  intro us e hlen h
  cases h with
  | declare hv hx => exact ⟨_, .declare hv hx⟩
  | declareAs hv hx hq he =>
    simp only [List.length_cons] at hlen
    obtain ⟨e', he'⟩ := hp (by omega) he
    exact ⟨_, .declareAs hv hx hq he'⟩
  | assign hx hq he =>
    simp only [List.length_cons] at hlen
    obtain ⟨e', he'⟩ := hp (by omega) he
    exact ⟨_, .assign hx hq he'⟩
  | comparison he =>
    obtain ⟨e', he'⟩ := hp.comparison hs hlen he
    exact ⟨e', .comparison he'⟩

theorem RegroupsOpen.statement : RegroupsOpen (k + 1) rule rule' := by
  intro us o dangling hlen h
  cases h with
  | empty hk => exact ⟨_, _, .empty hk⟩
  | block hb =>
    obtain ⟨e', hb'⟩ := hs.block hlen hb
    exact ⟨_, _, .block hb'⟩
  | ifElse hi hl hc hr hyes _ ho hno =>
    simp only [List.length_cons, List.length_append] at hlen
    obtain ⟨c', hc'⟩ := hp (by omega) hc
    obtain ⟨yes', inner', hyes'⟩ := hs.body hyes (by omega)
    obtain ⟨no', dangling', hno'⟩ := hs.body hno (by omega)
    cases inner' with
    | false => exact ⟨_, _, .ifElse hi hl hc' hr hyes' (fun _ => rfl) ho hno'⟩
    | true =>
      obtain ⟨o', hyes'⟩ := hyes'.exists_statement
      obtain ⟨o', dangling', hyes'⟩ := hyes'.attach ho hno'
      exact ⟨_, _, .ifOnly hi hl hc' hr (.statement hyes')⟩
  | ifOnly hi hl hc hr hyes =>
    simp only [List.length_cons, List.length_append] at hlen
    obtain ⟨c', hc'⟩ := hp (by omega) hc
    obtain ⟨yes', inner', hyes'⟩ := hs.body hyes (by omega)
    exact ⟨_, _, .ifOnly hi hl hc' hr hyes'⟩
  | loop hw hl hc hr hbody =>
    simp only [List.length_cons, List.length_append] at hlen
    obtain ⟨c', hc'⟩ := hp (by omega) hc
    obtain ⟨body', dangling', hbody'⟩ := hs.body hbody (by omega)
    exact ⟨_, _, .loop hw hl hc' hr hbody'⟩
  | function hf hx he =>
    simp only [List.length_cons] at hlen
    obtain ⟨e', he'⟩ := hs.function (by omega) he
    exact ⟨_, _, .function hf hx he'⟩
  | expression he hk =>
    simp only [List.length_append, List.length_cons] at hlen
    obtain ⟨e', he'⟩ := hp (by omega) he
    exact ⟨_, _, .expression he' hk⟩

end Rules

theorem regroups_both (k : Nat) (rule rule' : ElseRule) :
    Regroups k (Expression rule) (Expression rule') ∧ RegroupsOpen k rule rule' := by
  induction k with
  | zero =>
    exact ⟨fun _ _ h => absurd h (Nat.not_lt_zero _), fun _ _ _ h => absurd h (Nat.not_lt_zero _)⟩
  | succ k ih => exact ⟨ih.1.expression ih.2, ih.2.statement ih.1⟩

/-- Whether tokens are a program does not depend on which `if` an `else` may belong to. -/
theorem exists_program_of_rule {rule : ElseRule} {ts : List Token} {e : Expr}
    (h : Program rule ts e) (rule' : ElseRule) : ∃ e', Program rule' ts e' := by
  obtain ⟨es, hes, -⟩ := h
  have hs := (regroups_both (ts.length + 1) rule rule').2
  obtain ⟨es', hes'⟩ := hs.statements (Nat.lt_succ_self _) hes
  exact ⟨_, es', hes', rfl⟩

end Featherweight.Grammar
