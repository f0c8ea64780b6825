import Featherweight.Parser.Progress
import Featherweight.Parser.Source
import Featherweight.Proofs.Lockstep
import Featherweight.Proofs.Parsing.Shape

/-!
# Reading tokens that are alike

What tokens stand for does not depend on the lines they are on, and is shaped as a program must be
(`Expr.ofTokens_alike`). Both come from reading two lists of tokens that differ in their lines only,
and are related by `R` one by one: the parser reads them in lockstep, finds one tree in both, and
blames related tokens for the same fault if there is none. The tokens must be such as a text can
have.
-/

namespace Featherweight

variable {R : Token → Token → Prop}

/-- Are the tokens such as a text can have, the same but for their lines, and related by `R`? -/
structure Token.Alike (R : Token → Token → Prop) (t t' : Token) : Prop where
  kind : t.kind = t'.kind
  lexeme : t.lexeme = t'.lexeme
  related : R t t'
  identifier : t.kind = .identifier → isIdentifier t.lexeme = true
  int : ∀ n, t.kind = .int n → 0 ≤ n.toInt

theorem Token.Alike.found {t t' : Token} (h : t.Alike R t') : t.found = t'.found := by
  unfold Token.found
  rw [h.kind, h.lexeme]

/-- May the token be to blame for the fault? -/
def ParseFault.IsAbout (t : Token) : ParseFault → Prop
  | expected _ found   => found = t.found
  | noExpression found => found = t.found
  | tooManyParameters  => t.kind = .symbol .leftParen
  | tooManyArguments   => True

/-- Are the faults the same, and tokens to blame that are related by `R`? -/
inductive ParseError.Alike (R : Token → Token → Prop) : ParseError → ParseError → Prop
  | about {t t' : Token} {fault : ParseFault} (h : R t t') (hfault : fault.IsAbout t) :
      Alike R ⟨t.line, fault⟩ ⟨t'.line, fault⟩

namespace Parser

/-- Are the tokens alike, one by one, and do they end with the end of the input, unless the one that
is taken to follow is related to itself? -/
structure Alike (R : Token → Token → Prop) (ts ts' : List Token) : Prop where
  tokens : List.Forall₂ (Token.Alike R) ts ts'
  closed : R endOfInput endOfInput ∨ ∃ t ∈ ts, t.kind = .eof

/-- Do the parsers find what is related by `Q`, or the same fault, in tokens that are alike? -/
def Parallel {α : Type} (R : Token → Token → Prop) (Q : α → α → Prop) (p p' : Parser α) : Prop :=
  Lockstep (Alike R) (ParseError.Alike R) Q p p'

/-- Equality of what satisfies `P`. -/
def Same {α : Type} (P : α → Prop) (a a' : α) : Prop := a = a' ∧ P a

/-- Does the parser find one thing in tokens that are alike, which satisfies `P`? -/
def Steady {α : Type} (R : Token → Token → Prop) (P : α → Prop) (p : Parser α) : Prop :=
  Parallel R (Same P) p p

section

variable {α β : Type} {P : α → Prop} {P' : β → Prop} {p : Parser α} {f : α → Parser β}

theorem Steady.pure {a : α} (h : P a) : Steady R P (Pure.pure a) := Lockstep.pure ⟨rfl, h⟩

theorem Steady.bind (hp : Steady R P p) (hf : ∀ a, P a → Steady R P' (f a)) :
    Steady R P' (p >>= f) := by
  refine Lockstep.bind hp fun a a' ha => ?_
  obtain ⟨rfl, ha⟩ := ha
  exact hf a ha

theorem Steady.mono {Q : α → Prop} (hp : Steady R P p) (h : ∀ a, P a → Q a) : Steady R Q p :=
  Lockstep.mono hp fun _ _ ha => ⟨ha.1, h _ ha.2⟩

end

/-! ### Single tokens -/

/-- Any answer. -/
def Any {α : Type} (_ : α) : Prop := True

section

variable {ts ts' : List Token}

theorem Alike.next (h : Alike R ts ts') : (next ts).Alike R (next ts') := by
  obtain ⟨htokens, hclosed⟩ := h
  cases htokens with
  | nil => exact ⟨rfl, rfl, hclosed.resolve_right nofun, nofun, nofun⟩
  | cons ht _ => exact ht

/-- The end of the input is not passed. -/
theorem mem_afterNext {t : Token} (ht : t ∈ ts) (hkind : t.kind = .eof) : t ∈ afterNext ts := by
  unfold afterNext
  split
  · exact ht
  · next hne =>
    cases ht with
    | head _ => exact absurd hkind hne
    | tail _ ht => exact ht

theorem Alike.afterNext (h : Alike R ts ts') : Alike R (afterNext ts) (afterNext ts') where
  tokens := by
    have hkind := h.next.kind
    unfold Parser.afterNext
    rw [hkind]
    split
    · exact h.tokens
    · cases h.tokens with
      | nil => exact .nil
      | cons _ hts => exact hts
  closed := h.closed.imp_right fun ⟨t, ht, hkind⟩ => ⟨t, mem_afterNext ht hkind, hkind⟩

theorem Alike.ahead_iff (h : Alike R ts ts') {first second : TokenKind} :
    Ahead first second ts ↔ Ahead first second ts' := by
  unfold Ahead
  rw [h.next.kind, h.afterNext.next.kind]

theorem peek_parallel : Parallel R (Token.Alike R) peek peek :=
  fun _ _ h => .ok h.next h

theorem take_parallel : Parallel R (Token.Alike R) take take :=
  fun _ _ h => .ok h.next h.afterNext

theorem accept_steady (kind : TokenKind) : Steady R Any (accept kind) := by
  intro ts ts' h
  unfold accept
  rw [h.next.kind]
  split
  · exact .ok ⟨rfl, trivial⟩ h.afterNext
  · exact .ok ⟨rfl, trivial⟩ h

theorem expect_parallel (what : Expected) :
    Parallel R (fun t t' => t.Alike R t' ∧ t.kind = what.kind) (expect what) (expect what) := by
  intro ts ts' h
  have ht := h.next
  unfold expect
  rw [← ht.kind, ← ht.found]
  split
  · next hkind => exact .ok ⟨ht, hkind⟩ h.afterNext
  · exact .error (.about ht.related rfl) h

/-- A token that is expected and not looked at any more. -/
theorem expect_then {β : Type} {P : β → Prop} {p : Parser β} (what : Expected)
    (hp : Steady R P p) : Steady R P (do let _ ← expect what; p) :=
  Lockstep.bind (expect_parallel what) fun _ _ _ => hp

theorem ahead_steady (first second : TokenKind) : Steady R Any (ahead first second) := by
  intro ts ts' h
  unfold ahead
  rw [h.next.kind, h.afterNext.next.kind]
  exact .ok ⟨rfl, trivial⟩ h

/-- A token that is taken after looking ahead is of the kind that was looked for. -/
theorem ahead_then_take {α : Type} {Q : α → α → Prop} {first second : TokenKind}
    {p : Token → Parser α} {q : Parser α}
    (hp : ∀ {t t'}, t.Alike R t' → t.kind = first → Parallel R Q (p t) (p t'))
    (hq : Parallel R Q q q) :
    Parallel R Q (do if ← ahead first second then p (← take) else q)
      (do if ← ahead first second then p (← take) else q) := by
  intro ts ts' h
  by_cases hn : Ahead first second ts
  · rw [ahead_of_next hn, ahead_of_next (h.ahead_iff.1 hn)]
    exact hp h.next hn.1 _ _ h.afterNext
  · rw [ahead_else hn, ahead_else fun hn' => hn (h.ahead_iff.2 hn')]
    exact hq _ _ h

theorem noExpression_parallel {α : Type} {Q : α → α → Prop} {t t' : Token} (h : t.Alike R t') :
    Parallel R Q (noExpression t) (noExpression t') :=
  Lockstep.throw (by rw [← h.found]; exact .about h.related rfl)

end

/-! ### Expressions -/

theorem operator_steady (ops : List BinaryOp) : Steady R Any (operator ops) := by
  induction ops with
  | nil => exact .pure trivial
  | cons op ops ih =>
    refine (accept_steady _).bind fun found _ => ?_
    cases found with
    | true => exact .pure trivial
    | false => exact ih

theorem Steady.chainFrom {operand : Parser Expr} (ho : Steady R Expr.ExpressionShaped operand)
    (ops : List BinaryOp) (n : Nat) {left : Expr} (hleft : left.ExpressionShaped) :
    Steady R Expr.ExpressionShaped (chainFrom ops operand n left) := by
  induction n generalizing left with
  | zero => exact .pure hleft
  | succ n ih =>
    refine (operator_steady ops).bind fun o _ => ?_
    cases o with
    | none => exact .pure hleft
    | some op => exact ho.bind fun right hright => ih (.binary hleft hright)

theorem Steady.chain {operand : Parser Expr} (ho : Steady R Expr.ExpressionShaped operand)
    (ops : List BinaryOp) (n : Nat) : Steady R Expr.ExpressionShaped (chain ops operand n) :=
  ho.bind fun _ hleft => ho.chainFrom ops n hleft

theorem Steady.negated {operand : Parser Expr} (ho : Steady R Expr.ExpressionShaped operand)
    (n : Nat) : Steady R Expr.ExpressionShaped (negated operand n) := by
  induction n with
  | zero => exact ho
  | succ n ih =>
    refine (accept_steady _).bind fun found _ => ?_
    cases found with
    | true => exact ih.bind fun e he => .pure he.negate
    | false => exact ho

theorem listUntilParen_parallel {α : Type} {Q : List α → List α → Prop}
    {items items' : Parser (List α)} (hnil : Q [] []) (h : Parallel R Q items items') :
    Parallel R Q (listUntilParen items) (listUntilParen items') := by
  refine Lockstep.bind peek_parallel fun t t' ht => ?_
  rw [ht.kind]
  split
  · exact Lockstep.pure hnil
  · exact h

/-- Arguments that a call may have, of which there are at most `room`. -/
def Arguments (room : Nat) (args : List Expr) : Prop :=
  (∀ e ∈ args, e.ExpressionShaped) ∧ args.length ≤ room

theorem Steady.arguments {expression : Parser Expr}
    (he : Steady R Expr.ExpressionShaped expression) (room : Nat) :
    Steady R (Arguments room) (arguments expression room) := by
  induction room with
  | zero =>
    exact Lockstep.bind peek_parallel fun t t' ht => Lockstep.throw (.about ht.related trivial)
  | succ room ih =>
    refine he.bind fun e he => (accept_steady _).bind fun found _ => ?_
    cases found with
    | true =>
      refine ih.bind fun args hargs => .pure ⟨?_, Nat.succ_le_succ hargs.2⟩
      exact List.forall_mem_cons.2 ⟨he, hargs.1⟩
    | false => exact .pure ⟨List.forall_mem_singleton.2 he, Nat.le_add_left 1 room⟩

theorem Steady.argumentList {expression : Parser Expr}
    (he : Steady R Expr.ExpressionShaped expression) :
    Steady R (Arguments maxArity) (argumentList expression) := by
  have hnil : Same (Arguments maxArity) [] [] := ⟨rfl, nofun, Nat.zero_le _⟩
  have hargs :
      Steady R (Arguments maxArity) (listUntilParen (Parser.arguments expression maxArity)) :=
    listUntilParen_parallel hnil (he.arguments maxArity)
  exact hargs.bind fun args hargs => expect_then _ (.pure hargs)

theorem Steady.callsFrom {expression : Parser Expr}
    (he : Steady R Expr.ExpressionShaped expression) (n : Nat) {callee : Expr}
    (hcallee : callee.ExpressionShaped) :
    Steady R Expr.ExpressionShaped (callsFrom expression n callee) := by
  induction n generalizing callee with
  | zero => exact .pure hcallee
  | succ n ih =>
    refine (accept_steady _).bind fun found _ => ?_
    cases found with
    | true => exact he.argumentList.bind fun args hargs => ih (.call hcallee hargs.1 hargs.2)
    | false => exact .pure hcallee

/-- Parameters that a function may have, of which there are at most `room`. -/
def Parameters (room : Nat) (params : List String) : Prop :=
  (∀ p ∈ params, isIdentifier p = true) ∧ params.length ≤ room

theorem parameters_parallel {paren paren' : Token} (h : R paren paren')
    (hkind : paren.kind = .symbol .leftParen) (room : Nat) :
    Parallel R (Same (Parameters room)) (parameters paren.line room)
      (parameters paren'.line room) := by
  induction room with
  | zero => exact Lockstep.throw (.about h hkind)
  | succ room ih =>
    refine Lockstep.bind (expect_parallel _) fun name name' hname => ?_
    obtain ⟨hname, hkind⟩ := hname
    have hx : isIdentifier name.lexeme = true := hname.identifier hkind
    rw [← hname.lexeme]
    refine Lockstep.bind (accept_steady _) fun found found' hfound => ?_
    obtain ⟨rfl, -⟩ := hfound
    cases found with
    | true =>
      refine Lockstep.bind ih fun params params' hparams => ?_
      obtain ⟨rfl, hparams⟩ := hparams
      exact Steady.pure ⟨List.forall_mem_cons.2 ⟨hx, hparams.1⟩, Nat.succ_le_succ hparams.2⟩
    | false => exact Steady.pure ⟨List.forall_mem_singleton.2 hx, Nat.le_add_left 1 room⟩

/-- What a statement may stand for, if it is not empty. -/
def MaybeStatement (o : Option Expr) : Prop := ∀ e ∈ o, e.StatementShaped

/-- Statements that a block may hold. -/
def AllStatements (es : List Expr) : Prop := ∀ e ∈ es, e.StatementShaped

section

variable {statement : Parser (Option Expr)} (hs : Steady R MaybeStatement statement)

include hs

theorem Steady.statements (close : TokenKind) (n : Nat) :
    Steady R AllStatements (statements close statement n) := by
  induction n with
  | zero => exact .pure nofun
  | succ n ih =>
    refine Lockstep.bind peek_parallel fun t t' ht => ?_
    rw [ht.kind]
    split
    · exact Steady.pure nofun
    · refine hs.bind fun o ho => ih.bind fun es hes => .pure ?_
      refine List.forall_mem_append.2 ⟨fun e he => ho e (Option.mem_toList.1 he), hes⟩

theorem Steady.block (n : Nat) : Steady R Expr.StatementShaped (block statement n) :=
  (hs.statements _ n).bind fun _ hes => expect_then _ (.pure (.sequence hes))

theorem Steady.function (n : Nat) : Steady R Expr.ExpressionShaped (function statement n) := by
  refine Lockstep.bind (expect_parallel _) fun paren paren' hparen => ?_
  have hnil : Same (Parameters maxArity) [] [] := ⟨rfl, nofun, Nat.zero_le _⟩
  have hparams :=
    listUntilParen_parallel hnil (parameters_parallel hparen.1.related hparen.2 maxArity)
  refine Lockstep.bind hparams fun params params' hparams => ?_
  obtain ⟨rfl, hparams⟩ := hparams
  refine expect_then _ (expect_then _ ?_)
  exact (hs.block n).bind fun body hbody => .pure (.function hparams.1 hparams.2 hbody)

end

section

variable {expression : Parser Expr} {statement : Parser (Option Expr)}
  (he : Steady R Expr.ExpressionShaped expression) (hs : Steady R MaybeStatement statement)

include he hs

theorem primaryFrom_parallel (n : Nat) {t t' : Token} (ht : t.Alike R t') :
    Parallel R (Same Expr.ExpressionShaped) (primaryFrom expression statement n t)
      (primaryFrom expression statement n t') := by
  unfold primaryFrom
  rw [← ht.kind, ← ht.lexeme]
  cases hkind : t.kind with
  | int value => exact Steady.pure (.int (ht.int value hkind))
  | identifier => exact Steady.pure (.ident (ht.identifier hkind))
  | eof => exact noExpression_parallel ht
  | symbol s =>
    cases s with
    | leftParen => exact he.bind fun e he => expect_then _ (.pure he)
    | _ => exact noExpression_parallel ht
  | keyword k =>
    cases k with
    | trueWord => exact Steady.pure (.bool true)
    | falseWord => exact Steady.pure (.bool false)
    | nullWord => exact Steady.pure .null
    | printWord =>
      exact expect_then _ (he.bind fun e he => expect_then _ (.pure (.print he)))
    | functionWord => exact hs.function n
    | _ => exact noExpression_parallel ht

theorem Steady.primary (n : Nat) :
    Steady R Expr.ExpressionShaped (primary expression statement n) :=
  Lockstep.bind take_parallel fun _ _ ht => primaryFrom_parallel he hs n ht

theorem Steady.call (n : Nat) : Steady R Expr.ExpressionShaped (call expression statement n) :=
  (Steady.primary he hs n).bind fun _ hcallee => he.callsFrom n hcallee

theorem Steady.comparison (n : Nat) :
    Steady R Expr.ExpressionShaped (comparison expression statement n) := by
  have hunary : Steady R Expr.ExpressionShaped (unary expression statement n) :=
    (Steady.call he hs n).negated n
  have hfactor : Steady R Expr.ExpressionShaped (factor expression statement n) :=
    hunary.chain _ n
  have hterm : Steady R Expr.ExpressionShaped (term expression statement n) :=
    hfactor.chain _ n
  exact hterm.chain _ n

omit hs in
theorem Steady.declaration : Steady R Expr.ExpressionShaped (declaration expression) := by
  refine Lockstep.bind (expect_parallel _) fun name name' hname => ?_
  obtain ⟨hname, hkind⟩ := hname
  have hx : isIdentifier name.lexeme = true := hname.identifier hkind
  have hinitial : Steady R Expr.ExpressionShaped (initialValue expression) := by
    refine (accept_steady _).bind fun found _ => ?_
    cases found with
    | true => exact he
    | false => exact .pure .null
  rw [← hname.lexeme]
  exact hinitial.bind fun e he => .pure (.declare hx he)

omit hs in
theorem assignment_parallel {name name' : Token} (hname : name.Alike R name')
    (hkind : name.kind = .identifier) :
    Parallel R (Same Expr.ExpressionShaped) (assignment expression name)
      (assignment expression name') := by
  have hx : isIdentifier name.lexeme = true := hname.identifier hkind
  refine Lockstep.bind take_parallel fun _ _ _ => ?_
  rw [← hname.lexeme]
  exact he.bind fun e he => .pure (.assign hx he)

theorem Steady.expressionOf (n : Nat) :
    Steady R Expr.ExpressionShaped (expressionOf expression statement n) := by
  refine (accept_steady _).bind fun found _ => ?_
  cases found with
  | true => exact Steady.declaration he
  | false =>
    exact ahead_then_take (fun hname hkind => assignment_parallel he hname hkind)
      (Steady.comparison he hs n)

/-! ### Statements -/

omit he in
theorem Steady.body : Steady R Expr.StatementShaped (body statement) := by
  refine hs.bind fun o ho => .pure ?_
  cases o with
  | none => exact .expression .null
  | some e => exact ho e rfl

omit he in
theorem Steady.alternative : Steady R Expr.StatementShaped (alternative statement) := by
  refine (accept_steady _).bind fun found _ => ?_
  cases found with
  | true => exact hs.body
  | false => exact .pure (.expression .null)

theorem Steady.conditional : Steady R Expr.StatementShaped (conditional expression statement) := by
  refine expect_then _ (he.bind fun c hc => expect_then _ ?_)
  refine (hs.body).bind fun yes hyes => ?_
  exact hs.alternative.bind fun no hno => .pure (.ifElse hc hyes hno)

theorem Steady.whileLoop : Steady R Expr.StatementShaped (whileLoop expression statement) := by
  refine expect_then _ (he.bind fun c hc => expect_then _ ?_)
  exact (hs.body).bind fun body hbody => .pure (.loop hc hbody)

omit he in
theorem Steady.namedFunction (n : Nat) :
    Steady R Expr.StatementShaped (namedFunction statement n) := by
  refine Lockstep.bind (expect_parallel _) fun name name' hname => ?_
  obtain ⟨hname, hkind⟩ := hname
  have hx : isIdentifier name.lexeme = true := hname.identifier hkind
  rw [← hname.lexeme]
  exact (hs.function n).bind fun e he => .pure (.expression (.declare hx he))

omit hs in
theorem Steady.expressionStatement :
    Steady R Expr.StatementShaped (expressionStatement expression) :=
  he.bind fun _ he => expect_then _ (.pure (.expression he))

theorem Steady.statementOf (n : Nat) :
    Steady R MaybeStatement (statementOf expression statement n) := by
  have some {p : Parser Expr} (hp : Steady R Expr.StatementShaped p) :
      Steady R MaybeStatement (do return some (← p)) :=
    hp.bind fun e he => .pure fun e' he' => Option.some.inj he' ▸ he
  refine (accept_steady _).bind fun found _ => ?_
  cases found with
  | true => exact .pure nofun
  | false =>
  refine (accept_steady _).bind fun found _ => ?_
  cases found with
  | true => exact some (hs.block n)
  | false =>
  refine (accept_steady _).bind fun found _ => ?_
  cases found with
  | true => exact some (Steady.conditional he hs)
  | false =>
  refine (accept_steady _).bind fun found _ => ?_
  cases found with
  | true => exact some (Steady.whileLoop he hs)
  | false =>
  refine (ahead_steady _ _).bind fun found _ => ?_
  cases found with
  | true =>
    refine Lockstep.bind take_parallel fun _ _ _ => ?_
    exact some (hs.namedFunction n)
  | false => exact some (Steady.expressionStatement he)

end

/-! ### Programs -/

theorem steady_both (n : Nat) :
    Steady R Expr.ExpressionShaped (expression n) ∧ Steady R MaybeStatement (statement n) := by
  induction n with
  | zero =>
    exact ⟨Lockstep.bind peek_parallel fun _ _ ht => noExpression_parallel ht,
      Lockstep.bind peek_parallel fun _ _ ht => noExpression_parallel ht⟩
  | succ n ih =>
    have he : Steady R Expr.ExpressionShaped (expression (n + 1)) :=
      Steady.expressionOf ih.1 ih.2 (n + 1)
    exact ⟨he, Steady.statementOf he ih.2 (n + 1)⟩

theorem program_steady : Steady R Expr.StatementShaped program := by
  have hget : Parallel R (Alike R) (get : Parser (List Token)) get :=
    fun _ _ h => .ok h h
  refine Lockstep.bind hget fun ts ts' hts => ?_
  rw [hts.tokens.length_eq]
  exact ((steady_both _).2.statements _ _).bind fun es hes => .pure (.sequence hes)

end Parser

/-- Tokens that are alike stand for one program, which is shaped as it must be, or have the same
fault, for which related tokens are to blame. -/
theorem Expr.ofTokens_alike {ts ts' : List Token} (h : Parser.Alike R ts ts') :
    (∃ e, Expr.ofTokens ts = .ok e ∧ Expr.ofTokens ts' = .ok e ∧ e.StatementShaped) ∨
      ∃ f f' : ParseError, Expr.ofTokens ts = .error f ∧ Expr.ofTokens ts' = .error f' ∧
        f.Alike R f' := by
  have hread := Parser.program_steady ts ts' h
  unfold Expr.ofTokens
  generalize Parser.program ts = o at hread ⊢
  generalize Parser.program ts' = o' at hread ⊢
  cases hread with
  | ok he _ =>
    obtain ⟨rfl, he⟩ := he
    exact .inl ⟨_, rfl, rfl, he⟩
  | error hf _ => exact .inr ⟨_, _, rfl, rfl, hf⟩

/-- Tokens that are alike, whatever their lines, are one program if they are any. -/
theorem Expr.ofTokens_eq_ok_of_alike {ts ts' : List Token} {e : Expr}
    (h : List.Forall₂ (Token.Alike fun _ _ => True) ts ts') (he : Expr.ofTokens ts = .ok e) :
    Expr.ofTokens ts' = .ok e ∧ e.StatementShaped := by
  rcases Expr.ofTokens_alike ⟨h, .inl trivial⟩ with ⟨e', he', hread, hshape⟩ | ⟨f, _, hf, _, _⟩
  · rw [he] at he'
    cases he'
    exact ⟨hread, hshape⟩
  · rw [he] at hf
    cases hf

/-! ### Programs from text -/

/-- Whatever their lines, the tokens of a text are such as a text can have. -/
theorem Token.alike_of_mem {line : Nat} {cs : List Char} {t t' : Token}
    (h : .ok t ∈ Lexer.items line cs) (hkind : t.kind = t'.kind) (hlexeme : t.lexeme = t'.lexeme)
    (hrelated : R t t') : t.Alike R t' where
  kind := hkind
  lexeme := hlexeme
  related := hrelated
  identifier := isIdentifier_of_mem h
  int _ hint := int_nonneg_of_mem h hint

theorem Expr.ofSource_eq_ok_iff {source : String} {e : Expr} :
    Expr.ofSource source = .ok e ↔
      ∃ ts, Lexer.items 1 source.toList = ts.map .ok ∧ Expr.ofTokens ts = .ok e := by
  unfold Expr.ofSource
  constructor
  · intro h
    cases hts : tokenize source with
    | error f =>
      rw [hts] at h
      cases h
    | ok ts =>
      rw [hts] at h
      refine ⟨ts, tokenize_eq_ok_iff.1 hts, ?_⟩
      cases he : Expr.ofTokens ts with
      | error f =>
        replace h : (Expr.ofTokens ts).mapError SyntaxError.grammatical = .ok e := h
        rw [he] at h
        cases h
      | ok e' =>
        replace h : (Expr.ofTokens ts).mapError SyntaxError.grammatical = .ok e := h
        rw [he] at h
        cases h
        rfl
  · rintro ⟨ts, hts, he⟩
    rw [tokenize_eq_ok_iff.2 hts]
    show (Expr.ofTokens ts).mapError SyntaxError.grammatical = .ok e
    rw [he]
    rfl

/-- A text stands for a program of the right shape. -/
theorem Expr.statementShaped_of_ofSource {source : String} {e : Expr}
    (h : Expr.ofSource source = .ok e) : e.StatementShaped := by
  obtain ⟨ts, hitems, he⟩ := Expr.ofSource_eq_ok_iff.1 h
  have hts : List.Forall₂ (Token.Alike fun _ _ => True) ts ts :=
    List.forall₂_same.2 fun t ht =>
      Token.alike_of_mem (hitems ▸ List.mem_map_of_mem ht) rfl rfl trivial
  exact (Expr.ofTokens_eq_ok_of_alike hts he).2

end Featherweight
