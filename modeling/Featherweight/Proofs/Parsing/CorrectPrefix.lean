import Featherweight.Proofs.Parsing.Acceptance
import Featherweight.Proofs.Parsing.Prompt

/-!
# Errors at the earliest token

Every rule of the grammar is prompt for its phrases. So a parse error is about the first token at
which what was read is no longer the beginning of a program (`program_blames_first`): the tokens
before it are the beginning of some program, and with it they are that of none, whatever follows.

The phrases are those in which an `else` may belong to any `if`. They are put together without
regard to what follows, and the tokens that are a program in this sense are those that are read.
-/

namespace Featherweight.Parser

open Grammar (Phrase ElseRule)

variable {α : Type}

/-! ### Phrases as words -/

/-- The tokens that are such a phrase. -/
def phrases (phrase : Phrase α) : Words := {us | ∃ a, phrase us a}

/-- Operators and operands after any operand. -/
def operations (ops : List BinaryOp) (operand : Phrase Expr) : Words :=
  {us | ∀ left, ∃ e, Grammar.Operations ops operand left us e}

/-- Argument lists after any callee. -/
def argumentLists (expression : Phrase Expr) : Words :=
  {us | ∀ callee, ∃ e, Grammar.ArgumentLists expression callee us e}

/-- Items with commas between, of which there are at most `room`. -/
def commaLists (item : Phrase α) (room : Nat) : Words :=
  {us | ∃ as, Grammar.CommaList item us as ∧ as.length ≤ room}

/-- What may come after an item in a list that has room for so many more. -/
def commaTails (item : Phrase α) (room : Nat) : Words :=
  1 + oneOf (.symbol .comma) * commaLists item room

/-- Expressions. -/
def expressions : Words := phrases (Grammar.Expression .any)

/-- Single statements. -/
def singleStatements : Words := {us | ∃ o dangling, Grammar.Statement .any us o dangling}

/-- Statements one after the other. -/
def manyStatements : Words := phrases (Grammar.Statements .any)

/-- Lists of at most 255 items. -/
def itemLists (item : Phrase α) : Words := phrases (Grammar.ItemList item)

/-- Blocks after the opening brace. -/
def openBlocks : Words := manyStatements * oneOf (.symbol .rightBrace)

/-- What may come after a branch of a conditional. -/
def alternatives : Words := 1 + oneOf (.keyword .elseWord) * singleStatements

theorem viable_primaries : Viable (phrases (Grammar.Primary .any)) [] :=
  viable_nil [⟨.keyword .nullWord, "null", 0⟩] (by simp) ⟨.null, .null rfl⟩

theorem viable_expressions : Viable expressions [] :=
  viable_nil [⟨.keyword .varWord, "var", 0⟩, ⟨.identifier, "x", 0⟩] (by simp)
    ⟨_, .declare rfl rfl⟩

theorem viable_singleStatements : Viable singleStatements [] :=
  viable_nil [⟨.symbol .semicolon, ";", 0⟩] (by simp) ⟨none, false, .empty rfl⟩

theorem nil_mem_manyStatements : [] ∈ manyStatements := ⟨[], .nil⟩

theorem nil_mem_operations (ops : List BinaryOp) (operand : Phrase Expr) :
    [] ∈ operations ops operand := fun left => ⟨left, .done⟩

theorem nil_mem_argumentLists (expression : Phrase Expr) : [] ∈ argumentLists expression :=
  fun callee => ⟨callee, .done⟩

theorem nil_mem_itemLists (item : Phrase α) : [] ∈ itemLists item := ⟨[], .none⟩

theorem nil_mem_alternatives : [] ∈ alternatives := .inl rfl

theorem viable_openBlocks : Viable openBlocks [] :=
  (viable_of_nil_mem nil_mem_manyStatements).mul (viable_symbol _)

/-! ### Repetitions and lists -/

namespace Prompt

variable {k : Nat} {p : Parser Expr} {s : Parser (Option Expr)}

theorem chainFrom {operand : Phrase Expr} (hp : Prompt k p (phrases operand))
    (ops : List BinaryOp) (n : Nat) (left : Expr) :
    Prompt k (chainFrom ops p n left) (operations ops operand) := by
  have hnil := nil_mem_operations ops operand
  induction n generalizing left with
  | zero => exact .pure left hnil
  | succ n ih =>
    refine .of_next (Nat.le_succ k) fun t => ?_
    by_cases ht : ∃ op ∈ ops, t.kind = .symbol op.symbol
    · -- After the operator an operand must come, and then the loop goes on.
      obtain ⟨op, hop, hkind⟩ := ht
      refine .inl ⟨by rw [hkind]; exact symbol_ne_eof _,
        do Parser.chainFrom ops p n (.binary op left (← p)), fun us => ?_, ?_⟩
      · exact bind_of_ok (operator_of_mem hop hkind us)
      · refine (hp.bind (fun right => ih _) (viable_of_nil_mem hnil)).mono ?_
        rintro _ ⟨us, ⟨right, hus⟩, vs, hvs, rfl⟩ left
        obtain ⟨e, he⟩ := hvs (.binary op left right)
        exact ⟨e, .more hop hkind hus he⟩
    · refine .inr ⟨Pure.pure left, fun ts hts => ?_, .pure left hnil⟩
      have havoids : Grammar.Avoids (ops.map BinaryOp.symbol) ts := by
        intro c hc heq
        obtain ⟨op, hop, rfl⟩ := List.mem_map.1 hc
        exact ht ⟨op, hop, hts ▸ heq⟩
      exact bind_of_ok (operator_of_avoids havoids)

theorem listUntilParen {q : Parser (List α)} {L : Words} (hq : Prompt k q L) (hnil : [] ∈ L) :
    Prompt k (listUntilParen q) L := by
  refine .of_next (Nat.le_succ k) fun t => .inr ?_
  by_cases ht : t.kind = .symbol .rightParen
  · refine ⟨Pure.pure [], fun ts hts => ?_, .pure [] hnil⟩
    show (if (next ts).kind = _ then _ else q : Parser (List α)) ts = _
    rw [hts, if_pos ht]
  · refine ⟨q, fun ts hts => ?_, hq⟩
    show (if (next ts).kind = _ then _ else q : Parser (List α)) ts = _
    rw [hts, if_neg ht]

/-- Items with commas between: one is read, and either a comma and the others follow or not. -/
theorem commaList {item : Phrase α} {q : Parser α} {more : Parser (List α)} {room : Nat}
    (hq : Prompt k q (phrases item)) (hmore : Prompt k more (commaLists item room)) :
    Prompt k (do
      let a ← q
      if ← Parser.accept (.symbol .comma) then return a :: (← more) else return [a])
      (commaLists item (room + 1)) := by
  have htail (a : α) : Prompt k (do
      if ← Parser.accept (.symbol .comma) then return a :: (← more) else return [a])
      (commaTails item room) := by
    refine .accept nofun (Nat.le_succ k) (fun c hc => ?_) (.pure [a] (.inl rfl))
    refine (hmore.map (a :: ·)).mono fun us hus => ?_
    exact .inr (Language.mem_mul.2 ⟨[c], ⟨c, hc, rfl⟩, us, hus, rfl⟩)
  refine (hq.bind htail (viable_of_nil_mem (.inl rfl))).mono ?_
  rintro _ ⟨us, ⟨a, hus⟩, _, rfl | ⟨_, ⟨c, hc, rfl⟩, vs, ⟨as, has, hlen⟩, rfl⟩, rfl⟩
  · refine ⟨[a], ?_, Nat.succ_le_succ (Nat.zero_le room)⟩
    show Grammar.CommaList item (us ++ []) [a]
    rw [List.append_nil]
    exact .one hus
  · exact ⟨a :: as, .more hus hc has, Nat.succ_le_succ hlen⟩

theorem arguments {phrase : Phrase Expr} (hp : Prompt k p (phrases phrase)) (room : Nat) :
    Prompt k (arguments p room) (commaLists phrase room) := by
  induction room with
  | zero =>
    -- Only here the limit is met, which is left out.
    refine .of_next (Nat.le_succ k) fun t => .inr
      ⟨throw ⟨t.line, .tooManyArguments⟩, fun ts hts => ?_, .limit (.inr rfl)⟩
    show EStateM.Result.error _ _ = _
    rw [hts]
    rfl
  | succ room ih => exact commaList hp ih

theorem parameters (line room : Nat) :
    Prompt k (parameters line room) (commaLists Grammar.Name room) := by
  have hname : Prompt k (do return (← Parser.expect .parameterName).lexeme)
      (phrases Grammar.Name) := by
    refine ((Prompt.expect .parameterName).map Token.lexeme).mono ?_
    rintro _ ⟨t, ht, rfl⟩
    exact ⟨t.lexeme, .ident ht⟩
  induction room with
  | zero => exact .limit (.inl rfl)
  | succ room ih =>
    have h := commaList hname ih
    rwa [bind_assoc] at h

/-- A list in parentheses, after the opening one. -/
theorem itemList {item : Phrase α} {q : Parser (List α)}
    (hq : Prompt k q (commaLists item maxArity)) :
    Prompt k (Parser.listUntilParen q) (itemLists item) := by
  refine .listUntilParen (hq.mono ?_) (nil_mem_itemLists item)
  rintro us ⟨as, has, hlen⟩
  exact ⟨as, .some has hlen⟩

theorem argumentList {phrase : Phrase Expr} (hp : Prompt k p (phrases phrase)) :
    Prompt k (argumentList p) (itemLists phrase * oneOf (.symbol .rightParen)) :=
  (itemList (hp.arguments maxArity)).bind
    (fun args => (Prompt.expect .parenAfterArguments).map fun _ => args)
    (viable_symbol _)

theorem callsFrom {phrase : Phrase Expr} (hp : Prompt k p (phrases phrase)) (n : Nat)
    (callee : Expr) : Prompt (k + 1) (callsFrom p n callee) (argumentLists phrase) := by
  have hnil := nil_mem_argumentLists phrase
  induction n generalizing callee with
  | zero => exact .pure callee hnil
  | succ n ih =>
    refine .accept nofun (Nat.le_refl _) (fun l hl => ?_) (.pure callee hnil)
    refine (hp.argumentList.bind (fun args => (ih _).of_le (Nat.le_succ k))
      (viable_of_nil_mem hnil)).mono ?_
    rintro _ ⟨_, ⟨us, ⟨args, hus⟩, _, ⟨r, hr, rfl⟩, rfl⟩, vs, hvs, rfl⟩ callee
    obtain ⟨e, he⟩ := hvs (.call callee args)
    refine ⟨e, ?_⟩
    show Grammar.ArgumentLists phrase callee (l :: ((us ++ [r]) ++ vs)) e
    rw [List.append_assoc]
    exact .more hl hus hr he

theorem statements (hs : Prompt k s singleStatements) (close : TokenKind) (n : Nat) :
    Prompt k (statements close s n) manyStatements := by
  induction n with
  | zero => exact .pure [] nil_mem_manyStatements
  | succ n ih =>
    refine .of_next (Nat.le_succ k) fun t => .inr ?_
    by_cases ht : t.kind = close ∨ t.kind = .eof
    · refine ⟨Pure.pure [], fun ts hts => ?_, .pure [] nil_mem_manyStatements⟩
      show (if (next ts).kind = close ∨ (next ts).kind = .eof then _ else _ :
        Parser (List Expr)) ts = _
      rw [hts, if_pos ht]
    · refine ⟨do return (← s).toList ++ (← Parser.statements close s n), fun ts hts => ?_, ?_⟩
      · show (if (next ts).kind = close ∨ (next ts).kind = .eof then _ else _ :
          Parser (List Expr)) ts = _
        rw [hts, if_neg ht]
      · refine (hs.bind (fun o => ih.map (o.toList ++ ·))
          (viable_of_nil_mem nil_mem_manyStatements)).mono ?_
        rintro _ ⟨us, ⟨o, dangling, ho⟩, vs, ⟨es, hes⟩, rfl⟩
        exact ⟨o.toList ++ es, .cons ho hes⟩

theorem block (hs : Prompt k s singleStatements) (n : Nat) : Prompt k (block s n) openBlocks :=
  (hs.statements _ n).bind
    (fun es => (Prompt.expect .braceAfterBlock).map fun _ => Expr.sequence es)
    (viable_symbol _)

theorem mem_block {l : Token} {us : List Token} (hl : l.kind = .symbol .leftBrace)
    (hus : us ∈ openBlocks) : ∃ e, Grammar.Block .any (l :: us) e := by
  obtain ⟨us, ⟨es, hes⟩, _, ⟨r, hr, rfl⟩, rfl⟩ := hus
  exact ⟨_, .braces hl hes hr⟩

theorem function (hs : Prompt k s singleStatements) (n : Nat) :
    Prompt k (function s n) (phrases (Grammar.Function .any)) := by
  have hparen : Viable (oneOf (.symbol .rightParen)) [] := viable_symbol _
  have hbrace : Viable (oneOf (.symbol .leftBrace)) [] := viable_symbol _
  have hbody := hbrace.mul viable_openBlocks
  have hitems := viable_of_nil_mem (nil_mem_itemLists Grammar.Name)
  refine ((Prompt.expect .parenAfterFunction).bind (fun paren =>
    (itemList (parameters paren.line maxArity)).bind (fun params =>
      (Prompt.expect .parenAfterParameters).bind (fun _ =>
        (Prompt.expect .braceBeforeBody).bind (fun _ =>
          (hs.block n).map (Expr.function 0 params))
          viable_openBlocks)
        hbody)
      (hparen.mul hbody))
    (hitems.mul (hparen.mul hbody))).mono ?_
  rintro _ ⟨_, ⟨l, hl, rfl⟩, _, ⟨us, ⟨params, hus⟩, _, ⟨_, ⟨r, hr, rfl⟩, _,
    ⟨_, ⟨b, hb, rfl⟩, vs, hvs, rfl⟩, rfl⟩, rfl⟩, rfl⟩
  obtain ⟨body, hbody⟩ := mem_block hb hvs
  exact ⟨_, .rest hl hus hr hbody⟩

end Prompt

/-! ### Expressions -/

section Expressions

variable {k : Nat} {p : Parser Expr} {s : Parser (Option Expr)}

/-- A token begins a primary expression, which is read from there, or it begins none. -/
theorem Prompt.primaryFrom (hp : Prompt k p expressions) (hs : Prompt k s singleStatements)
    (n : Nat) (t : Token) :
    (t.kind ≠ .eof ∧ Prompt k (primaryFrom p s n t) (after t (phrases (Grammar.Primary .any)))) ∨
      isHead t.kind = false ∧ Parser.primaryFrom p s n t = noExpression t := by
  have hparen : Viable (oneOf (.symbol .rightParen)) [] := viable_symbol _
  unfold Parser.primaryFrom
  cases ht : t.kind with
  | int v => exact .inl ⟨nofun, .pure _ ⟨_, .int ht⟩⟩
  | identifier => exact .inl ⟨nofun, .pure _ ⟨_, .ident ht⟩⟩
  | eof => exact .inr ⟨rfl, rfl⟩
  | symbol c =>
    cases c with
    | leftParen =>
      refine .inl ⟨nofun, (hp.bind (fun e =>
        (Prompt.expect .parenAfterExpression).map fun _ => e) hparen).mono ?_⟩
      rintro _ ⟨us, ⟨e, hus⟩, _, ⟨r, hr, rfl⟩, rfl⟩
      exact ⟨e, .paren ht hus hr⟩
    | _ => exact .inr ⟨rfl, rfl⟩
  | keyword w =>
    cases w with
    | trueWord => exact .inl ⟨nofun, .pure _ ⟨_, .true ht⟩⟩
    | falseWord => exact .inl ⟨nofun, .pure _ ⟨_, .false ht⟩⟩
    | nullWord => exact .inl ⟨nofun, .pure _ ⟨_, .null ht⟩⟩
    | printWord =>
      refine .inl ⟨nofun, ((Prompt.expect .parenAfterPrint).bind (fun _ =>
        hp.bind (fun e => (Prompt.expect .parenAfterOperand).map fun _ => Expr.print e)
          hparen) (viable_expressions.mul hparen)).mono ?_⟩
      rintro _ ⟨_, ⟨l, hl, rfl⟩, _, ⟨us, ⟨e, hus⟩, _, ⟨r, hr, rfl⟩, rfl⟩, rfl⟩
      exact ⟨.print e, .print ht hl hus hr⟩
    | functionWord =>
      refine .inl ⟨nofun, (hs.function n).mono ?_⟩
      rintro us ⟨e, hus⟩
      exact ⟨e, .function ht hus⟩
    | _ => exact .inr ⟨rfl, rfl⟩

theorem Headed.primary (hp : Prompt k p expressions) (hs : Prompt k s singleStatements) (n : Nat) :
    Headed k (primary p s n) (phrases (Grammar.Primary .any)) := by
  have hread {t : Token} (ht : t.kind ≠ .eof) (us : List Token) :
      Parser.primary p s n (t :: us) = Parser.primaryFrom p s n t us := by
    show Parser.primaryFrom p s n (next (t :: us)) (afterNext (t :: us)) = _
    rw [next_cons, afterNext_cons ht]
  constructor
  · refine .of_next (Nat.le_refl _) fun t => ?_
    rcases hp.primaryFrom hs n t with ⟨ht, hprompt⟩ | ⟨-, hnone⟩
    · exact .inl ⟨ht, _, hread ht, hprompt⟩
    · refine .inr ⟨do noExpression (← take), fun ts hts => ?_, .take_noExpression viable_primaries⟩
      show Parser.primaryFrom p s n (next ts) (afterNext ts) = _
      rw [hts, hnone, ← hts]
      rfl
  · intro t hhead
    rcases hp.primaryFrom hs n t with ⟨ht, hprompt⟩ | ⟨hnot, -⟩
    · exact ⟨_, hread ht, hprompt⟩
    · rw [hnot] at hhead
      cases hhead

theorem Headed.chain {operand : Phrase Expr} (hp : Headed k p (phrases operand))
    (ops : List BinaryOp) (n : Nat) :
    Headed k (chain ops p n) (phrases (Grammar.Chain ops operand)) := by
  refine (hp.bind (fun left => hp.prompt.chainFrom ops n left)
    (viable_of_nil_mem (nil_mem_operations ops operand))).mono ?_
  rintro _ ⟨us, ⟨left, hus⟩, vs, hvs, rfl⟩
  obtain ⟨e, he⟩ := hvs left
  exact ⟨e, .operands hus he⟩

theorem Headed.negated (hp : Headed k p (phrases (Grammar.Unary .any))) (n : Nat) :
    Headed k (negated p n) (phrases (Grammar.Unary .any)) := by
  induction n with
  | zero => exact hp
  | succ n ih =>
    refine .accept nofun rfl (fun m hm => ?_) hp
    refine ((ih.prompt.of_le (Nat.le_succ k)).map Expr.negate).mono ?_
    rintro us ⟨e, hus⟩
    exact ⟨_, .negate hm hus⟩

theorem Headed.comparison (hp : Prompt k p expressions) (hs : Prompt k s singleStatements)
    (n : Nat) : Headed k (comparison p s n) (phrases (Grammar.Comparison .any)) := by
  have hcall : Headed k (call p s n) (phrases (Grammar.Unary .any)) := by
    refine ((Headed.primary hp hs n).bind (fun callee => hp.callsFrom n callee)
      (viable_of_nil_mem (nil_mem_argumentLists _))).mono ?_
    rintro _ ⟨us, ⟨callee, hus⟩, vs, hvs, rfl⟩
    obtain ⟨e, he⟩ := hvs callee
    exact ⟨e, .call (.applied hus he)⟩
  have hfactor : Headed k (factor p s n) (phrases (Grammar.Factor .any)) :=
    ((hcall.negated n).chain _ n).mono fun _ ⟨e, he⟩ => ⟨e, .chain he⟩
  have hterm : Headed k (term p s n) (phrases (Grammar.Term .any)) :=
    (hfactor.chain _ n).mono fun _ ⟨e, he⟩ => ⟨e, .chain he⟩
  exact (hterm.chain _ n).mono fun _ ⟨e, he⟩ => ⟨e, .chain he⟩

theorem Prompt.declaration (hp : Prompt k p expressions) {v : Token}
    (hv : v.kind = .keyword .varWord) : Prompt k (declaration p) (after v expressions) := by
  have hinitial : Prompt k (initialValue p) (1 + oneOf (.symbol .equal) * expressions) := by
    refine .accept nofun (Nat.le_succ k) (fun q hq => ?_) (.pure Expr.null (.inl rfl))
    exact hp.mono fun us hus => .inr (Language.mem_mul.2 ⟨[q], ⟨q, hq, rfl⟩, us, hus, rfl⟩)
  refine ((Prompt.expect .variableName).bind (fun name => hinitial.map (Expr.declare name.lexeme))
    (viable_of_nil_mem (.inl rfl))).mono ?_
  rintro _ ⟨_, ⟨x, hx, rfl⟩, _, rfl | ⟨_, ⟨q, hq, rfl⟩, us, ⟨e, hus⟩, rfl⟩, rfl⟩
  · exact ⟨_, .declare hv hx⟩
  · exact ⟨_, .declareAs hv hx hq hus⟩

theorem Headed.expressionOf (hp : Prompt k p expressions) (hs : Prompt k s singleStatements)
    (n : Nat) : Headed k (expressionOf p s n) expressions := by
  refine .accept nofun rfl (fun v hv => hp.declaration hv) ?_
  refine .ahead rfl (symbol_ne_eof _) (fun x q hx hq => ?_)
    ((Headed.comparison hp hs n).mono fun _ ⟨e, he⟩ => ⟨e, .comparison he⟩)
  refine ⟨do return Expr.assign x.lexeme (← p), fun us => ?_,
    (hp.map (Expr.assign x.lexeme)).mono ?_⟩
  · show (do return Expr.assign x.lexeme (← p) : Parser Expr) (afterNext (q :: us)) = _
    rw [afterNext_cons (by rw [hq]; decide)]
  · rintro us ⟨e, hus⟩
    exact ⟨_, .assign hx hq hus⟩

end Expressions

/-! ### Statements -/

section Statements

variable {k : Nat} {p : Parser Expr} {s : Parser (Option Expr)}

namespace Prompt

theorem expressionStatement (hp : Headed k p expressions) :
    Headed k (expressionStatement p) (expressions * oneOf (.symbol .semicolon)) :=
  hp.bind (fun e => (Prompt.expect .semicolonAfterExpression).map fun _ => e)
    (viable_symbol _)

theorem body (hs : Prompt k s singleStatements) : Prompt k (body s) singleStatements := hs.map _

theorem alternative (hs : Prompt k s singleStatements) :
    Prompt k (alternative s) alternatives := by
  refine .accept nofun (Nat.le_succ k) (fun o ho => ?_) (.pure Expr.null nil_mem_alternatives)
  exact hs.body.mono fun us hus => .inr (Language.mem_mul.2 ⟨[o], ⟨o, ho, rfl⟩, us, hus, rfl⟩)

theorem conditional (hp : Prompt k p expressions) (hs : Prompt k s singleStatements) {i : Token}
    (hi : i.kind = .keyword .ifWord) :
    Prompt k (conditional p s) (after i singleStatements) := by
  have hparen : Viable (oneOf (.symbol .rightParen)) [] := viable_symbol _
  have helse := viable_of_nil_mem nil_mem_alternatives
  have hbranches := viable_singleStatements.mul helse
  refine ((Prompt.expect .parenAfterIf).bind (fun _ =>
    hp.bind (fun c =>
      (Prompt.expect .parenAfterCondition).bind (fun _ =>
        hs.body.bind (fun yes => hs.alternative.map (Expr.ifElse c yes))
        helse)
      hbranches)
    (hparen.mul hbranches))
    (viable_expressions.mul (hparen.mul hbranches))).mono ?_
  rintro _ ⟨_, ⟨l, hl, rfl⟩, _, ⟨cs, ⟨c, hc⟩, _, ⟨_, ⟨r, hr, rfl⟩, _,
    ⟨us, ⟨yes, inner, hyes⟩, _, hno, rfl⟩, rfl⟩, rfl⟩, rfl⟩
  rcases hno with rfl | ⟨_, ⟨o, ho, rfl⟩, vs, ⟨no, dangling, hno⟩, rfl⟩
  · refine ⟨some (.ifElse c (yes.getD .null) .null), true, ?_⟩
    show Grammar.Statement .any (i :: l :: (cs ++ r :: (us ++ []))) _ _
    rw [List.append_nil]
    exact .ifOnly hi hl hc hr (.statement hyes)
  · exact ⟨_, dangling, .ifElse hi hl hc hr (.statement hyes) nofun ho (.statement hno)⟩

theorem whileLoop (hp : Prompt k p expressions) (hs : Prompt k s singleStatements) {w : Token}
    (hw : w.kind = .keyword .whileWord) :
    Prompt k (whileLoop p s) (after w singleStatements) := by
  have hparen : Viable (oneOf (.symbol .rightParen)) [] := viable_symbol _
  refine ((Prompt.expect .parenAfterWhile).bind (fun _ =>
    hp.bind (fun c =>
      (Prompt.expect .parenAfterCondition).bind (fun _ => hs.body.map (Expr.loop c))
      viable_singleStatements)
    (hparen.mul viable_singleStatements))
    (viable_expressions.mul (hparen.mul viable_singleStatements))).mono ?_
  rintro _ ⟨_, ⟨l, hl, rfl⟩, _, ⟨cs, ⟨c, hc⟩, _, ⟨_, ⟨r, hr, rfl⟩, us, ⟨o, dangling, ho⟩, rfl⟩,
    rfl⟩, rfl⟩
  exact ⟨_, dangling, .loop hw hl hc hr (.statement ho)⟩

theorem statementOf (hp : Headed k p expressions) (hs : Prompt k s singleStatements) (n : Nat) :
    Prompt (k + 1) (statementOf p s n) singleStatements := by
  have hp' := hp.prompt.of_le (Nat.le_succ k)
  refine .accept nofun (Nat.le_refl _) (fun t ht => .pure none ⟨none, false, .empty ht⟩) ?_
  refine .accept nofun (Nat.le_refl _) (fun l hl => ?_) ?_
  · refine ((hs.block n).map some).mono fun us hus => ?_
    obtain ⟨e, he⟩ := mem_block hl hus
    exact ⟨some e, false, .block he⟩
  refine .accept nofun (Nat.le_refl _) (fun i hi => (conditional hp' hs hi).map some) ?_
  refine .accept nofun (Nat.le_refl _) (fun w hw => (whileLoop hp' hs hw).map some) ?_
  refine Headed.prompt (.ahead rfl (by decide) (fun f x hf hx => ?_) ?_)
  · refine ⟨do return some (.declare x.lexeme (← Parser.function s n)), fun us => ?_,
      ((hs.function n).map fun e => some (Expr.declare x.lexeme e)).mono ?_⟩
    · rw [namedFunction, bind_assoc]
      refine (bind_of_ok (expect_eq_ok_iff.2 ⟨rfl, hx⟩)).trans ?_
      simp only [bind_assoc, pure_bind]
    · rintro us ⟨e, hus⟩
      exact ⟨_, false, .function hf hx hus⟩
  · refine ((expressionStatement hp).bind (fun e => .pure (some e) (L := 1) rfl)
      viable_one).mono ?_
    rw [mul_one]
    rintro _ ⟨us, ⟨e, hus⟩, _, ⟨r, hr, rfl⟩, rfl⟩
    exact ⟨some e, false, .expression hus hr⟩

end Prompt

end Statements

/-! ### Every depth -/

theorem prompt_both (n : Nat) :
    Prompt n (expression n) expressions ∧ Prompt n (statement n) singleStatements := by
  induction n with
  | zero =>
    -- At this depth nothing is read, and nothing is said about errors.
    refine ⟨⟨reads_expression 0, fun h => ?_, fun h => absurd h (Nat.not_lt_zero _)⟩,
      ⟨reads_statement 0, fun h => ?_, fun h => absurd h (Nat.not_lt_zero _)⟩⟩
    · cases h
    · cases h
  | succ n ih =>
    obtain ⟨hp, hs⟩ := ih
    have he : Headed n (expression (n + 1)) expressions := Headed.expressionOf hp hs (n + 1)
    exact ⟨he.prompt, Prompt.statementOf he hs (n + 1)⟩

theorem prompt_statement (n : Nat) : Prompt n (statement n) singleStatements := (prompt_both n).2

/-- The tokens that are read as a program. -/
theorem prompt_program (n : Nat) :
    Prompt n (do return Expr.sequence (← statements .eof (statement n) n)) manyStatements :=
  ((prompt_statement n).statements .eof n).map Expr.sequence

/-- The end of the input is never passed. -/
theorem Reads.left_ne_nil {p : Parser α} (h : Reads p) (ts : List Token) {eof : Token}
    (heof : eof.kind = .eof) : left (p (ts ++ [eof])) ≠ [] := by
  intro hnil
  obtain ⟨used, hused, hne⟩ := h (ts ++ [eof])
  rw [hnil, List.append_nil] at hused
  have hmem : eof ∈ used := hused ▸ List.mem_append_right ts List.mem_cons_self
  exact hne eof hmem heof

/-- What comes before some of the tokens holds no end of the input, if that is the last of them. -/
theorem forall_ne_eof_of_append {ts us vs : List Token} {eof t : Token}
    (hts : ∀ t ∈ ts, t.kind ≠ .eof) (h : ts ++ [eof] = us ++ t :: vs) :
    ∀ u ∈ us, u.kind ≠ .eof := by
  have hlen := congrArg List.length h
  simp only [List.length_append, List.length_cons, List.length_nil] at hlen
  have hinitial : us <+: ts :=
    List.prefix_of_prefix_length_le ⟨t :: vs, h.symm⟩ (List.prefix_append ts [eof]) (by omega)
  exact fun u hu => hts u (hinitial.mem hu)

/-- A program that cannot be read fails at the first token that no program could have there. Unless
it has too many parameters or arguments, the tokens are split at the token to blame, which the error
names and is about; any tokens that begin with those before it and with it fail with the same error;
and those before it are the beginning of a program. -/
theorem program_blames_first {ts rest : List Token} {eof : Token} {err : ParseError}
    (hts : ∀ t ∈ ts, t.kind ≠ .eof) (heof : eof.kind = .eof)
    (h : program (ts ++ [eof]) = .error err rest) (hlimit : ¬ err.IsLimit) :
    ∃ us t vs, ts ++ [eof] = us ++ t :: vs ∧ Blames err (t :: vs) rest ∧
      (∀ vs', Expr.ofTokens (us ++ t :: vs') = .error err) ∧
      ∃ more e, (∀ u ∈ more, u.kind ≠ .eof) ∧ Expr.ofTokens (us ++ more ++ [eof]) = .ok e := by
  have hprompt {n : Nat} (hn : (ts ++ [eof]).length < n) :=
    ((prompt_program n).error hn (program_eq_of_lt hn ▸ h)).resolve_left hlimit
  obtain ⟨us, ws, hws, hblames, ⟨more, hmore, es, hes⟩, -⟩ := hprompt (Nat.lt_succ_self _)
  have hleft := reads_program.left_ne_nil ts heof
  rw [h, left_error] at hleft
  obtain ⟨t, vs, rfl⟩ := List.exists_cons_of_ne_nil (hblames.ne_nil hleft)
  refine ⟨us, t, vs, hws, hblames, fun vs' => ?_, more, ?_⟩
  · obtain ⟨n, hn, hn'⟩ : ∃ n, (ts ++ [eof]).length < n ∧ (us ++ t :: vs').length < n :=
      ⟨max (ts ++ [eof]).length (us ++ t :: vs').length + 1, by omega, by omega⟩
    -- A greater depth finds the same token to blame.
    obtain ⟨us', ws', hws', hblames', -, hlocal⟩ := hprompt hn
    obtain ⟨rfl, rfl⟩ := hblames'.split_unique hblames rfl (hws'.symm.trans hws)
    obtain ⟨rest', hfail⟩ := hlocal (t :: vs') rfl
    rw [Expr.ofTokens, program_eq_of_lt hn', hfail]
  · have hprogram : Grammar.Program .any (us ++ more) (.sequence es) :=
      Grammar.program_iff.2 ⟨es, hes, rfl⟩
    have hne := List.forall_mem_append.2 ⟨forall_ne_eof_of_append hts hws, hmore⟩
    obtain ⟨e, he⟩ := Grammar.exists_program_of_rule hprogram .nearest
    exact ⟨e, hmore, (Grammar.ofTokens_eq_ok_iff hne heof).2 he⟩

/-- The tokens of `f(1`. -/
def openCall : List Token :=
  [⟨.identifier, "f", 1⟩, ⟨.symbol .leftParen, "(", 1⟩, ⟨.int 1, "1", 1⟩]

/-- The token of `;`. -/
def semicolon : Token := ⟨.symbol .semicolon, ";", 1⟩

/-- The error about `;` where a call has to be closed. -/
def unclosedCall : ParseError := ⟨1, .expected .parenAfterArguments (.lexeme ";")⟩

/-- Of `f(1;` the semicolon is to blame, since `f(1` can be completed. -/
theorem program_blames_semicolon :
    program (openCall ++ [semicolon] ++ [endOfInput]) =
        .error unclosedCall [semicolon, endOfInput] ∧
      (∀ vs, Expr.ofTokens (openCall ++ semicolon :: vs) = .error unclosedCall) ∧
      ∃ more e, (∀ u ∈ more, u.kind ≠ .eof) ∧
        Expr.ofTokens (openCall ++ more ++ [endOfInput]) = .ok e := by
  have hts : ∀ t ∈ openCall ++ [semicolon], t.kind ≠ .eof := by decide
  have hfail : program (openCall ++ [semicolon] ++ [endOfInput]) =
      .error unclosedCall [semicolon, endOfInput] := rfl
  have hlimit : ¬ unclosedCall.IsLimit := by simp [unclosedCall, ParseError.IsLimit]
  have hcall : Blames unclosedCall [semicolon, endOfInput] [semicolon, endOfInput] :=
    .expected .parenAfterArguments [semicolon, endOfInput]
  obtain ⟨us, t, vs, hsplit, hblames, hfails, hviable⟩ :=
    program_blames_first hts rfl hfail hlimit
  rw [List.append_assoc] at hsplit
  obtain ⟨rfl, htokens⟩ := hblames.split_unique hcall rfl hsplit.symm
  obtain ⟨rfl, -⟩ := List.cons.inj htokens
  exact ⟨hfail, hfails, hviable⟩

end Featherweight.Parser
