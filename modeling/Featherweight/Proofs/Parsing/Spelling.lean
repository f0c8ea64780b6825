import Featherweight.Expr.Same
import Featherweight.Proofs.Parsing.Acceptance
import Featherweight.Proofs.Parsing.Alike
import Featherweight.Proofs.Scanning.Layout

/-!
# Writing programs

A tree of the right shape is written as tokens that stand for it (`Expr.spell`): whatever is no
operand by itself is put in parentheses, and statements are put in braces. The tokens with a space
after each are a text that is cut into these tokens again (`Lexer.items_spaced`), so that the trees
that texts stand for are those of the right shape and no others (`exists_ofSource_same_iff`).

Texts say nothing about the sites of functions, which are all zero in the tree that is read.
-/

namespace Featherweight

/-! ### Tokens -/

/-- The symbol as a token. -/
def Symbol.token (s : Symbol) : Token := ⟨.symbol s, s.text, 1⟩

/-- The keyword as a token. -/
def Keyword.token (k : Keyword) : Token := ⟨.keyword k, k.text, 1⟩

/-- The name as a token. -/
def Token.name (x : String) : Token := ⟨.identifier, x, 1⟩

/-- The integer as a token. -/
def Token.number (n : Int64) : Token := ⟨.int n, Text.Decimal.ofInt n.toInt, 1⟩

/-- The tokens in parentheses. -/
def inParens (ts : List Token) : List Token :=
  Symbol.leftParen.token :: (ts ++ [Symbol.rightParen.token])

/-- The tokens in braces. -/
def inBraces (ts : List Token) : List Token :=
  Symbol.leftBrace.token :: (ts ++ [Symbol.rightBrace.token])

theorem inParens_append (us vs : List Token) :
    inParens us ++ vs = Symbol.leftParen.token :: (us ++ Symbol.rightParen.token :: vs) := by
  simp [inParens]

/-- The names with commas between them. -/
def spellNames : List String → List Token
  | []           => []
  | [x]          => [.name x]
  | x :: y :: xs => .name x :: Symbol.comma.token :: spellNames (y :: xs)

/-- What makes the spelling of a tree a statement. -/
def Expr.ending : Expr → List Token
  | .ifElse _ _ _ | .loop _ _ | .seq _ _ => []
  | _                                    => [Symbol.semicolon.token]

mutual

/-- How a tree is written: as an operand, or as a statement if it can be nothing else. -/
def Expr.spell : Expr → List Token
  | .literal (.int n)      => [.number n]
  | .literal (.bool true)  => [Keyword.trueWord.token]
  | .literal (.bool false) => [Keyword.falseWord.token]
  | .literal _             => [Keyword.nullWord.token]
  | .ident x               => [.name x]
  | .print e               => Keyword.printWord.token :: inParens e.spell
  | .binary op l r         => inParens (l.spell ++ op.symbol.token :: r.spell)
  | .declare x e           =>
    inParens (Keyword.varWord.token :: .name x :: Symbol.equal.token :: e.spell)
  | .assign x e            => inParens (.name x :: Symbol.equal.token :: e.spell)
  | .function _ ps body    =>
    Keyword.functionWord.token :: (inParens (spellNames ps) ++ inBraces (body.spell ++ body.ending))
  | .call f args           => inParens (f.spell ++ inParens (spellArgs args))
  | .ifElse c yes no       =>
    Keyword.ifWord.token :: (inParens c.spell ++ (inBraces (yes.spell ++ yes.ending) ++
      Keyword.elseWord.token :: inBraces (no.spell ++ no.ending)))
  | .loop c body           =>
    Keyword.whileWord.token :: (inParens c.spell ++ inBraces (body.spell ++ body.ending))
  | .seq a b               => inBraces ((a.spell ++ a.ending) ++ (b.spell ++ b.ending))

/-- How arguments are written, with commas between them. -/
def spellArgs : List Expr → List Token
  | []            => []
  | [e]           => e.spell
  | e :: e' :: es => e.spell ++ Symbol.comma.token :: spellArgs (e' :: es)

end

mutual

/-- The tree with site zero for every function. -/
def Expr.unnumbered : Expr → Expr
  | .literal v          => .literal v
  | .ident x            => .ident x
  | .print e            => .print e.unnumbered
  | .binary op l r      => .binary op l.unnumbered r.unnumbered
  | .ifElse c yes no    => .ifElse c.unnumbered yes.unnumbered no.unnumbered
  | .loop c body        => .loop c.unnumbered body.unnumbered
  | .seq a b            => .seq a.unnumbered b.unnumbered
  | .declare x e        => .declare x e.unnumbered
  | .assign x e         => .assign x e.unnumbered
  | .function _ ps body => .function 0 ps body.unnumbered
  | .call f args        => .call f.unnumbered (unnumberedArgs args)

/-- The arguments with site zero for every function. -/
def unnumberedArgs : List Expr → List Expr
  | []      => []
  | e :: es => e.unnumbered :: unnumberedArgs es

end

/-! ### What the tokens stand for -/

namespace Grammar

variable {rule : ElseRule} {us vs : List Token} {e l r : Expr}

theorem chain_two {ops : List BinaryOp} {operand : Phrase Expr} {op : BinaryOp} (hop : op ∈ ops)
    (hl : operand us l) (hr : operand vs r) :
    Chain ops operand (us ++ op.symbol.token :: vs) (.binary op l r) :=
  (chain_one hl).concat hop rfl hr

theorem Unary.comparison (h : Unary rule us e) : Comparison rule us e :=
  .chain (chain_one (.chain (chain_one (.chain (chain_one h)))))

theorem Primary.expression (h : Primary rule us e) : Expression rule us e :=
  .comparison h.unary.comparison

/-- Two operands with an operator of any rank between them. -/
theorem Primary.binary (op : BinaryOp) (hl : Primary rule us l) (hr : Primary rule vs r) :
    Expression rule (us ++ op.symbol.token :: vs) (.binary op l r) := by
  have hrank : op ∈ factorOps ∨ op ∈ termOps ∨ op ∈ comparisonOps := by cases op <;> decide
  refine .comparison ?_
  rcases hrank with hop | hop | hop
  · exact .chain (chain_one (.chain (chain_one (.chain (chain_two hop hl.unary hr.unary)))))
  · exact .chain (chain_one (.chain (chain_two hop (.chain (chain_one hl.unary))
      (.chain (chain_one hr.unary)))))
  · exact .chain (chain_two hop (.chain (chain_one (.chain (chain_one hl.unary))))
      (.chain (chain_one (.chain (chain_one hr.unary)))))

theorem itemList_spellNames {ps : List String} (hlen : ps.length ≤ Parser.maxArity) :
    ItemList Name (spellNames ps) ps := by
  have hlist : ∀ x xs, CommaList Name (spellNames (x :: xs)) (x :: xs) := by
    intro x xs
    induction xs generalizing x with
    | nil => exact .one (.ident (x := .name x) rfl)
    | cons y xs ih =>
      exact .more (.ident (x := .name x) rfl) (c := Symbol.comma.token) rfl (ih y)
  cases ps with
  | nil => exact .none
  | cons x xs => exact .some (hlist x xs) hlen

theorem length_unnumberedArgs (args : List Expr) :
    (unnumberedArgs args).length = args.length := by
  induction args with
  | nil => rfl
  | cons e es ih => simp only [unnumberedArgs, List.length_cons, ih]

theorem itemList_spellArgs {args : List Expr}
    (h : ∀ e ∈ args, Primary rule e.spell e.unnumbered) (hlen : args.length ≤ Parser.maxArity) :
    ItemList (Expression rule) (spellArgs args) (unnumberedArgs args) := by
  have hlist : ∀ e es, (∀ a ∈ e :: es, Primary rule a.spell a.unnumbered) →
      CommaList (Expression rule) (spellArgs (e :: es)) (unnumberedArgs (e :: es)) := by
    intro e es hes
    induction es generalizing e with
    | nil => exact .one (hes e List.mem_cons_self).expression
    | cons e' es ih =>
      obtain ⟨he, hes⟩ := List.forall_mem_cons.1 hes
      exact .more he.expression rfl (ih e' hes)
  cases args with
  | nil => exact .none
  | cons e es => exact .some (hlist e es h) (by rwa [length_unnumberedArgs])

/-- A statement in braces. -/
theorem block_inBraces {dangling : Bool} (h : Statement rule us (some e) dangling) :
    Block rule (inBraces us) e := by
  have hes := Statements.cons h .nil
  rw [List.append_nil] at hes
  exact .braces rfl hes rfl

end Grammar

namespace Expr

open Grammar

theorem ExpressionShaped.ending {e : Expr} (h : e.ExpressionShaped) :
    e.ending = [Symbol.semicolon.token] := by
  cases h <;> rfl

mutual

theorem ExpressionShaped.primary_spell (rule : ElseRule) : ∀ {e : Expr}, e.ExpressionShaped →
    Primary rule e.spell e.unnumbered
  | _, .int _ => .int rfl
  | _, .bool true => .true rfl
  | _, .bool false => .false rfl
  | _, .null => .null rfl
  | _, .ident _ => .ident rfl
  | _, .print he => .print rfl rfl (he.primary_spell rule).expression rfl
  | _, .binary hl hr =>
    .paren rfl ((hl.primary_spell rule).binary _ (hr.primary_spell rule)) rfl
  | _, .declare _ he => .paren rfl (.declareAs rfl rfl rfl (he.primary_spell rule).expression) rfl
  | _, .assign _ he => .paren rfl (.assign rfl rfl (he.primary_spell rule).expression) rfl
  | _, .function _ hlen hbody => by
    rw [spell, inParens_append]
    exact .function rfl (.rest rfl (itemList_spellNames hlen) rfl
      (block_inBraces (hbody.statement_spell rule)))
  | _, @ExpressionShaped.call f args hf hargs hlen => by
    have hlist := itemList_spellArgs (fun e he => (hargs e he).primary_spell rule) hlen
    have hcall : Call rule (f.spell ++ inParens (spellArgs args))
        (.call f.unnumbered (unnumberedArgs args)) :=
      .applied (hf.primary_spell rule) (.more rfl hlist rfl .done)
    exact .paren rfl (.comparison (Unary.call hcall).comparison) rfl

theorem StatementShaped.statement_spell (rule : ElseRule) : ∀ {e : Expr}, e.StatementShaped →
    Statement rule (e.spell ++ e.ending) (some e.unnumbered) false
  | _, .expression he => by
    rw [he.ending]
    exact .expression (he.primary_spell rule).expression rfl
  | _, .ifElse hc hyes hno => by
    rw [spell, inParens_append, Expr.ending, List.append_nil]
    exact .ifElse rfl rfl (hc.primary_spell rule).expression rfl
      -- A branch in braces is not dangling, so that the `else` stays with this `if`.
      (.block (block_inBraces (hyes.statement_spell rule))) (fun _ => rfl) rfl
      (.block (block_inBraces (hno.statement_spell rule)))
  | _, .loop hc hbody => by
    rw [spell, inParens_append, Expr.ending, List.append_nil]
    exact .loop rfl rfl (hc.primary_spell rule).expression rfl
      (.block (block_inBraces (hbody.statement_spell rule)))
  | _, .seq ha hb => by
    have hes := Statements.cons (ha.statement_spell rule)
      (.cons (hb.statement_spell rule) .nil)
    rw [List.append_nil] at hes
    rw [spell, Expr.ending, List.append_nil]
    exact .block (.braces rfl hes rfl)

end

end Expr

/-! ### The text of the tokens -/

/-- Does the lexeme mean the token, on the first line? -/
structure Token.Spelled (t : Token) : Prop where
  kind : Lexer.Denotes t.lexeme.toList t.kind
  line : t.line = 1

/-- The lexemes of the tokens, with a space after each. -/
def spaced (ts : List Token) : List Char := ts.flatMap fun t => t.lexeme.toList ++ [' ']

/-- Is every token spelled by its lexeme? -/
def AllSpelled (ts : List Token) : Prop := ∀ t ∈ ts, t.Spelled

/-- Lexemes with spaces between them are cut apart there. -/
theorem Lexer.items_spaced {ts : List Token} (h : AllSpelled ts) :
    Lexer.items 1 (spaced ts) = ts.map .ok ++ [.ok ⟨.eof, "", 1⟩] := by
  induction ts with
  | nil => exact Lexer.items_nil 1
  | cons t ts ih =>
    obtain ⟨⟨hkind, hline⟩, hts⟩ := List.forall_mem_cons.1 h
    have hspaced : spaced (t :: ts) = t.lexeme.toList ++ ([' '] ++ spaced ts) := by
      simp [spaced]
    have hspace : Spacing [' '] := ⟨.blank rfl .nil, ' ', rfl, rfl⟩
    have htoken : (⟨t.kind, String.ofList t.lexeme.toList, 1⟩ : Token) = t := by
      rw [String.ofList_toList, ← hline]
    -- The lexeme ends before the space, which is skipped before the next lexeme.
    rw [hspaced, Lexer.items_append_of_denotes hkind (Lexer.endsBefore_of_spacing _ hspace _),
      Lexer.items_append_of_skipped (Lexer.skipped_of_trivia hspace.trivia _), htoken]
    exact congrArg (.ok t :: ·) (ih hts)

/-! ### The tokens are spelled -/

theorem allSpelled_cons {t : Token} {ts : List Token} :
    AllSpelled (t :: ts) ↔ t.Spelled ∧ AllSpelled ts := List.forall_mem_cons

theorem allSpelled_append {us vs : List Token} :
    AllSpelled (us ++ vs) ↔ AllSpelled us ∧ AllSpelled vs := List.forall_mem_append

theorem allSpelled_nil : AllSpelled [] := nofun

theorem spelled_symbol (s : Symbol) : s.token.Spelled := ⟨.symbol s, rfl⟩

theorem spelled_keyword (k : Keyword) : k.token.Spelled := ⟨.keyword k, rfl⟩

theorem spelled_name {x : String} (h : isIdentifier x = true) : (Token.name x).Spelled := by
  refine ⟨?_, rfl⟩
  show Lexer.Denotes x.toList .identifier
  unfold isIdentifier at h
  cases hx : x.toList with
  | nil =>
    rw [hx] at h
    cases h
  | cons c cs =>
    rw [hx] at h
    simp only [Bool.and_eq_true, List.all_eq_true] at h
    obtain ⟨⟨hc, hcs⟩, hnone⟩ := h
    refine .identifier hc hcs fun k hk => ?_
    rw [← hk, Lexer.ofText?_text_keyword] at hnone
    cases hnone

theorem spelled_number {n : Int64} (h : 0 ≤ n.toInt) : (Token.number n).Spelled := by
  refine ⟨?_, rfl⟩
  have htext : (Text.Decimal.ofInt n.toInt).toList = Text.Decimal.digits n.toInt.natAbs := by
    rw [Text.Decimal.ofInt, if_neg (Int.not_lt.2 h), String.toList_ofList]
  show Lexer.Denotes (Text.Decimal.ofInt n.toInt).toList (.int n)
  rw [htext]
  refine .int Nat.toDigits_ne_nil (fun d hd => Text.Decimal.isDigit_of_mem_digits hd) ?_
  show n.toInt = Text.Decimal.toNat (Text.Decimal.digits n.toInt.natAbs)
  rw [Text.Decimal.toNat_digits, Int.natAbs_of_nonneg h]

theorem allSpelled_inParens {ts : List Token} (h : AllSpelled ts) : AllSpelled (inParens ts) := by
  simp only [inParens, allSpelled_cons, allSpelled_append, allSpelled_nil, spelled_symbol, h,
    and_true]

theorem allSpelled_inBraces {ts : List Token} (h : AllSpelled ts) : AllSpelled (inBraces ts) := by
  simp only [inBraces, allSpelled_cons, allSpelled_append, allSpelled_nil, spelled_symbol, h,
    and_true]

theorem allSpelled_spellNames {ps : List String} (h : ∀ p ∈ ps, isIdentifier p = true) :
    AllSpelled (spellNames ps) := by
  induction ps with
  | nil => exact allSpelled_nil
  | cons p ps ih =>
    obtain ⟨hp, hps⟩ := List.forall_mem_cons.1 h
    cases ps with
    | nil => exact allSpelled_cons.2 ⟨spelled_name hp, allSpelled_nil⟩
    | cons q ps =>
      simp only [spellNames, allSpelled_cons]
      exact ⟨spelled_name hp, spelled_symbol _, ih hps⟩

theorem allSpelled_spellArgs {args : List Expr} (h : ∀ e ∈ args, AllSpelled e.spell) :
    AllSpelled (spellArgs args) := by
  induction args with
  | nil => exact allSpelled_nil
  | cons e es ih =>
    obtain ⟨he, hes⟩ := List.forall_mem_cons.1 h
    cases es with
    | nil => exact he
    | cons e' es =>
      simp only [spellArgs, allSpelled_cons, allSpelled_append]
      exact ⟨he, spelled_symbol _, ih hes⟩

theorem Expr.allSpelled_ending (e : Expr) : AllSpelled e.ending := by
  cases e <;> first
    | exact allSpelled_nil
    | exact allSpelled_cons.2 ⟨spelled_symbol _, allSpelled_nil⟩

namespace Expr

mutual

theorem ExpressionShaped.allSpelled : ∀ {e : Expr}, e.ExpressionShaped → AllSpelled e.spell
  | _, .int hn => allSpelled_cons.2 ⟨spelled_number hn, allSpelled_nil⟩
  | _, .bool true => allSpelled_cons.2 ⟨spelled_keyword _, allSpelled_nil⟩
  | _, .bool false => allSpelled_cons.2 ⟨spelled_keyword _, allSpelled_nil⟩
  | _, .null => allSpelled_cons.2 ⟨spelled_keyword _, allSpelled_nil⟩
  | _, .ident hx => allSpelled_cons.2 ⟨spelled_name hx, allSpelled_nil⟩
  | _, .print he => allSpelled_cons.2 ⟨spelled_keyword _, allSpelled_inParens he.allSpelled⟩
  | _, .binary hl hr =>
    allSpelled_inParens (allSpelled_append.2
      ⟨hl.allSpelled, allSpelled_cons.2 ⟨spelled_symbol _, hr.allSpelled⟩⟩)
  | _, .declare hx he => by
    refine allSpelled_inParens ?_
    simp only [allSpelled_cons]
    exact ⟨spelled_keyword _, spelled_name hx, spelled_symbol _, he.allSpelled⟩
  | _, .assign hx he => by
    refine allSpelled_inParens ?_
    simp only [allSpelled_cons]
    exact ⟨spelled_name hx, spelled_symbol _, he.allSpelled⟩
  | _, .function hps _ hbody => by
    simp only [spell, allSpelled_cons, allSpelled_append]
    exact ⟨spelled_keyword _, allSpelled_inParens (allSpelled_spellNames hps),
      allSpelled_inBraces hbody.allSpelled⟩
  | _, .call hf hargs _ => by
    have hlist := allSpelled_spellArgs fun e he => (hargs e he).allSpelled
    exact allSpelled_inParens (allSpelled_append.2 ⟨hf.allSpelled, allSpelled_inParens hlist⟩)

theorem StatementShaped.allSpelled : ∀ {e : Expr}, e.StatementShaped →
    AllSpelled (e.spell ++ e.ending)
  | e, .expression he => allSpelled_append.2 ⟨he.allSpelled, e.allSpelled_ending⟩
  | _, .ifElse hc hyes hno => by
    refine allSpelled_append.2 ⟨?_, allSpelled_ending _⟩
    simp only [spell, allSpelled_cons, allSpelled_append]
    exact ⟨spelled_keyword _, allSpelled_inParens hc.allSpelled,
      allSpelled_inBraces hyes.allSpelled, spelled_keyword _, allSpelled_inBraces hno.allSpelled⟩
  | _, .loop hc hbody => by
    refine allSpelled_append.2 ⟨?_, allSpelled_ending _⟩
    simp only [spell, allSpelled_cons, allSpelled_append]
    exact ⟨spelled_keyword _, allSpelled_inParens hc.allSpelled,
      allSpelled_inBraces hbody.allSpelled⟩
  | _, .seq ha hb =>
    allSpelled_append.2 ⟨allSpelled_inBraces (allSpelled_append.2 ⟨ha.allSpelled, hb.allSpelled⟩),
      allSpelled_ending _⟩

end

end Expr

/-! ### Texts and trees -/

/-- The text that a tree is written as. -/
def Expr.source (e : Expr) : String := String.ofList (spaced (e.spell ++ e.ending))

/-- The text that a tree of the right shape is written as stands for that tree. -/
theorem Expr.StatementShaped.ofSource_source {e : Expr} (h : e.StatementShaped) :
    Expr.ofSource e.source = .ok e.unnumbered := by
  have hstatements := Grammar.Statements.cons (h.statement_spell .nearest) .nil
  rw [List.append_nil] at hstatements
  have hkinds : ∀ t ∈ e.spell ++ e.ending, t.kind ≠ .eof :=
    fun t ht => (h.allSpelled t ht).kind.ne_eof
  refine Expr.ofSource_eq_ok_iff.2 ⟨e.spell ++ e.ending ++ [⟨.eof, "", 1⟩], ?_, ?_⟩
  · rw [List.map_append, Expr.source, String.toList_ofList]
    exact Lexer.items_spaced h.allSpelled
  · exact (Grammar.ofTokens_eq_ok_iff hkinds rfl).2 ⟨_, hstatements, rfl⟩

theorem Value.same_self (v : Value) : v.same v = true := by
  cases v <;> simp [Value.same, Closure.same]

mutual

theorem Expr.unnumbered_same : ∀ e : Expr, e.unnumbered.same e = true
  | .literal v => v.same_self
  | .ident x => by simp [Expr.unnumbered, Expr.same]
  | .print e => e.unnumbered_same
  | .binary _ l r => by
    simp [Expr.unnumbered, Expr.same, l.unnumbered_same, r.unnumbered_same]
  | .ifElse c yes no => by
    simp [Expr.unnumbered, Expr.same, c.unnumbered_same, yes.unnumbered_same, no.unnumbered_same]
  | .loop c body => by simp [Expr.unnumbered, Expr.same, c.unnumbered_same, body.unnumbered_same]
  | .seq a b => by simp [Expr.unnumbered, Expr.same, a.unnumbered_same, b.unnumbered_same]
  | .declare x e => by simp [Expr.unnumbered, Expr.same, e.unnumbered_same]
  | .assign x e => by simp [Expr.unnumbered, Expr.same, e.unnumbered_same]
  | .function _ ps body => by simp [Expr.unnumbered, Expr.same, body.unnumbered_same]
  | .call f args => by
    simp [Expr.unnumbered, Expr.same, f.unnumbered_same, unnumberedArgs_same args]

theorem unnumberedArgs_same : ∀ args : List Expr, sameArgs (unnumberedArgs args) args = true
  | [] => by simp [unnumberedArgs, sameArgs]
  | e :: es => by simp [unnumberedArgs, sameArgs, e.unnumbered_same, unnumberedArgs_same es]

end

/-- Arguments that are the same as others are as many, and have what passes from each to the one
that is the same. -/
theorem sameArgs_forall {P : Expr → Prop} : ∀ {as bs : List Expr},
    (∀ a ∈ as, ∀ b, a.same b = true → P b) → sameArgs as bs = true →
      (∀ b ∈ bs, P b) ∧ as.length = bs.length
  | [], [], _, _ => ⟨nofun, rfl⟩
  | a :: as, b :: bs, h, hsame => by
    simp only [sameArgs, Bool.and_eq_true] at hsame
    obtain ⟨ha, has⟩ := List.forall_mem_cons.1 h
    obtain ⟨hbs, hlen⟩ := sameArgs_forall has hsame.2
    exact ⟨List.forall_mem_cons.2 ⟨ha b hsame.1, hbs⟩, congrArg (· + 1) hlen⟩

namespace Expr

mutual

/-- A tree that is the same as one of the right shape has that shape. -/
theorem ExpressionShaped.of_same : ∀ {u t : Expr}, u.ExpressionShaped → u.same t = true →
    t.ExpressionShaped
  | _, t, .int hn, h => by
    cases t with
    | literal w =>
      cases w with
      | int n =>
        obtain rfl := of_decide_eq_true h
        exact .int hn
      | _ => cases h
    | _ => cases h
  | _, t, .bool b, h => by
    cases t with
    | literal w =>
      cases w with
      | bool b' => exact .bool b'
      | _ => cases h
    | _ => cases h
  | _, t, .null, h => by
    cases t with
    | literal w =>
      cases w with
      | null => exact .null
      | _ => cases h
    | _ => cases h
  | _, t, .ident hx, h => by
    cases t with
    | ident y =>
      obtain rfl := of_decide_eq_true h
      exact .ident hx
    | _ => cases h
  | _, t, .print hd, h => by
    cases t with
    | print e => exact .print (hd.of_same h)
    | _ => cases h
  | _, t, .binary hl hr, h => by
    cases t with
    | binary op l r =>
      simp only [same, Bool.and_eq_true] at h
      exact .binary (hl.of_same h.1.2) (hr.of_same h.2)
    | _ => cases h
  | _, t, .declare hx hd, h => by
    cases t with
    | declare y e =>
      simp only [same, Bool.and_eq_true, decide_eq_true_eq] at h
      obtain ⟨rfl, he⟩ := h
      exact .declare hx (hd.of_same he)
    | _ => cases h
  | _, t, .assign hx hd, h => by
    cases t with
    | assign y e =>
      simp only [same, Bool.and_eq_true, decide_eq_true_eq] at h
      obtain ⟨rfl, he⟩ := h
      exact .assign hx (hd.of_same he)
    | _ => cases h
  | _, t, .function hps hlen hbody, h => by
    cases t with
    | function _ qs body =>
      simp only [same, Bool.and_eq_true, decide_eq_true_eq] at h
      obtain ⟨rfl, hb⟩ := h
      exact .function hps hlen (hbody.of_same hb)
    | _ => cases h
  | _, t, .call hf hargs hlen, h => by
    cases t with
    | call g bs =>
      simp only [same, Bool.and_eq_true] at h
      obtain ⟨hbs, hsize⟩ := sameArgs_forall (fun a ha b hb => (hargs a ha).of_same hb) h.2
      exact .call (hf.of_same h.1) hbs (hsize ▸ hlen)
    | _ => cases h

theorem StatementShaped.of_same : ∀ {u t : Expr}, u.StatementShaped → u.same t = true →
    t.StatementShaped
  | _, _, .expression he, h => .expression (he.of_same h)
  | _, t, .ifElse hc hyes hno, h => by
    cases t with
    | ifElse c yes no =>
      simp only [same, Bool.and_eq_true] at h
      exact .ifElse (hc.of_same h.1.1) (hyes.of_same h.1.2) (hno.of_same h.2)
    | _ => cases h
  | _, t, .loop hc hbody, h => by
    cases t with
    | loop c body =>
      simp only [same, Bool.and_eq_true] at h
      exact .loop (hc.of_same h.1) (hbody.of_same h.2)
    | _ => cases h
  | _, t, .seq ha hb, h => by
    cases t with
    | seq a b =>
      simp only [same, Bool.and_eq_true] at h
      exact .seq (ha.of_same h.1) (hb.of_same h.2)
    | _ => cases h

end

end Expr

/-- The trees that texts stand for are those of the right shape: every tree that is read has it, and
every tree that has it is the same as the one read from some text. -/
theorem Expr.exists_ofSource_same_iff (t : Expr) :
    ((∃ source, Expr.ofSource source = .ok t) → t.StatementShaped) ∧
      ((∃ source u, Expr.ofSource source = .ok u ∧ u.same t = true) ↔ t.StatementShaped) := by
  refine ⟨fun ⟨_, ht⟩ => Expr.statementShaped_of_ofSource ht, ?_, fun h => ?_⟩
  · rintro ⟨source, u, hu, hsame⟩
    exact (Expr.statementShaped_of_ofSource hu).of_same hsame
  · exact ⟨t.source, t.unnumbered, h.ofSource_source, t.unnumbered_same⟩

end Featherweight
