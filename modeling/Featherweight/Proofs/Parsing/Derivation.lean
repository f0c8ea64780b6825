import Featherweight.Expr.Basic

/-!
# Derivations

The grammar as a relation: which lists of tokens are phrases of each kind, and what a phrase stands
for. There is one rule for each alternative of the grammar, and a repetition or a list is a relation
of its own that is given the phrases it is made of (`Chain`, `ArgumentLists`, `ItemList`).
Lists of parameters and of arguments have at most 255 entries.

The grammar is ambiguous about `else`: in `if (a) if (b) x; else y;` it may belong to either `if`.
A statement therefore carries whether it is *dangling*, that is, whether it ends in an `if` that has
no `else` and would be the nearest one for an `else` after it. `ElseRule.any` lets an `else` follow
a dangling branch; `ElseRule.nearest` does not, so that it belongs to the nearest `if` that has
none.

The rules know trees and tokens, and nothing of the parser. What a phrase stands for is written out
with the constructors of trees; statements in a row nest to the right (`nestRight`), which comes to
what `Expr.sequence` builds (`nestRight_eq`).
-/

namespace Featherweight.Grammar

/-- A kind of phrase: the lists of tokens that are such a phrase, each with what it stands for. -/
abbrev Phrase (α : Type) := List Token → α → Prop

/-- Which `if` an `else` may belong to. -/
inductive ElseRule where
  | any
  | nearest
  deriving DecidableEq

/-! ### Repetitions and lists -/

/-- `( operator operand )*` after `left`, grouped to the left. -/
inductive Operations (ops : List BinaryOp) (operand : Phrase Expr) :
    Expr → List Token → Expr → Prop
  | done {left : Expr} : Operations ops operand left [] left
  | more {left right e : Expr} {op : BinaryOp} {o : Token} {us vs : List Token}
      (hop : op ∈ ops) (ho : o.kind = .symbol op.symbol) (hr : operand us right)
      (hs : Operations ops operand (.binary op left right) vs e) :
      Operations ops operand left (o :: (us ++ vs)) e

/-- `operand ( operator operand )*` -/
inductive Chain (ops : List BinaryOp) (operand : Phrase Expr) : List Token → Expr → Prop
  | operands {us vs : List Token} {left e : Expr} (hl : operand us left)
      (hs : Operations ops operand left vs e) : Chain ops operand (us ++ vs) e

/-- `item ( "," item )*` -/
inductive CommaList {α : Type} (item : Phrase α) : List Token → List α → Prop
  | one {us : List Token} {a : α} (ha : item us a) : CommaList item us [a]
  | more {us vs : List Token} {c : Token} {a : α} {as : List α} (ha : item us a)
      (hc : c.kind = .symbol .comma) (has : CommaList item vs as) :
      CommaList item (us ++ c :: vs) (a :: as)

/-- `( item ( "," item )* )?`, of at most 255 items. -/
inductive ItemList {α : Type} (item : Phrase α) : List Token → List α → Prop
  | none : ItemList item [] []
  | some {us : List Token} {as : List α} (has : CommaList item us as)
      (hlen : as.length ≤ 255) : ItemList item us as

/-- `( "(" arguments? ")" )*` after `callee`, nested to the left. -/
inductive ArgumentLists (expression : Phrase Expr) : Expr → List Token → Expr → Prop
  | done {callee : Expr} : ArgumentLists expression callee [] callee
  | more {callee e : Expr} {args : List Expr} {l r : Token} {us vs : List Token}
      (hl : l.kind = .symbol .leftParen) (hargs : ItemList expression us args)
      (hr : r.kind = .symbol .rightParen)
      (hs : ArgumentLists expression (.call callee args) vs e) :
      ArgumentLists expression callee (l :: (us ++ r :: vs)) e

/-- Trees one after the other, nested to the right. None at all are `null`. -/
def nestRight (es : List Expr) : Expr :=
  match es.getLast? with
  | none      => .null
  | some last => es.dropLast.foldr .seq last

theorem nestRight_eq (es : List Expr) : nestRight es = .sequence es := by
  induction es using Expr.sequence.induct with
  | case1 => rfl
  | case2 e => rfl
  | case3 e e' es ih =>
    -- The last tree stays the last one, and another is put in front of the fold.
    rw [Expr.sequence, ← ih, nestRight, nestRight, List.getLast?_cons_cons,
      List.dropLast_cons_cons]
    rfl

/-- The name of a parameter. -/
inductive Name : List Token → String → Prop
  | ident {x : Token} (hx : x.kind = .identifier) : Name [x] x.lexeme

/-! ### The rules -/

/-- The operators of a comparison. -/
def comparisonOps : List BinaryOp := [.greater, .greaterEqual, .less, .lessEqual, .equal]

/-- The operators of a sum. -/
def termOps : List BinaryOp := [.add, .subtract]

/-- The operators of a product. -/
def factorOps : List BinaryOp := [.multiply, .divide, .modulo]

mutual

/-- `"var" IDENT ( "=" expression )? | IDENT "=" expression | comparison` -/
inductive Expression (rule : ElseRule) : List Token → Expr → Prop
  | declare {v x : Token} (hv : v.kind = .keyword .varWord) (hx : x.kind = .identifier) :
      Expression rule [v, x] (.declare x.lexeme .null)
  | declareAs {v x q : Token} {us : List Token} {e : Expr} (hv : v.kind = .keyword .varWord)
      (hx : x.kind = .identifier) (hq : q.kind = .symbol .equal) (he : Expression rule us e) :
      Expression rule (v :: x :: q :: us) (.declare x.lexeme e)
  | assign {x q : Token} {us : List Token} {e : Expr} (hx : x.kind = .identifier)
      (hq : q.kind = .symbol .equal) (he : Expression rule us e) :
      Expression rule (x :: q :: us) (.assign x.lexeme e)
  | comparison {us : List Token} {e : Expr} (he : Comparison rule us e) : Expression rule us e

/-- `term ( ( ">" | ">=" | "<" | "<=" | "==" ) term )*` -/
inductive Comparison (rule : ElseRule) : List Token → Expr → Prop
  | chain {us : List Token} {e : Expr} (h : Chain comparisonOps (Term rule) us e) :
      Comparison rule us e

/-- `factor ( ( "+" | "-" ) factor )*` -/
inductive Term (rule : ElseRule) : List Token → Expr → Prop
  | chain {us : List Token} {e : Expr} (h : Chain termOps (Factor rule) us e) : Term rule us e

/-- `unary ( ( "*" | "/" | "%" ) unary )*` -/
inductive Factor (rule : ElseRule) : List Token → Expr → Prop
  | chain {us : List Token} {e : Expr} (h : Chain factorOps (Unary rule) us e) : Factor rule us e

/-- `"-" unary | call` -/
inductive Unary (rule : ElseRule) : List Token → Expr → Prop
  | negate {m : Token} {us : List Token} {e : Expr} (hm : m.kind = .symbol .minus)
      (he : Unary rule us e) : Unary rule (m :: us) (.binary .subtract (.int 0) e)
  | call {us : List Token} {e : Expr} (he : Call rule us e) : Unary rule us e

/-- `primary ( "(" arguments? ")" )*` -/
inductive Call (rule : ElseRule) : List Token → Expr → Prop
  | applied {us vs : List Token} {callee e : Expr} (hf : Primary rule us callee)
      (hs : ArgumentLists (Expression rule) callee vs e) : Call rule (us ++ vs) e

/-- `INT | "true" | "false" | "null" | IDENT | "(" expression ")" | "print" "(" expression ")"
| "function" "(" parameters? ")" block` -/
inductive Primary (rule : ElseRule) : List Token → Expr → Prop
  | int {t : Token} {n : Int64} (ht : t.kind = .int n) : Primary rule [t] (.int n)
  | true {t : Token} (ht : t.kind = .keyword .trueWord) : Primary rule [t] (.bool true)
  | false {t : Token} (ht : t.kind = .keyword .falseWord) : Primary rule [t] (.bool false)
  | null {t : Token} (ht : t.kind = .keyword .nullWord) : Primary rule [t] .null
  | ident {t : Token} (ht : t.kind = .identifier) : Primary rule [t] (.ident t.lexeme)
  | paren {l r : Token} {us : List Token} {e : Expr} (hl : l.kind = .symbol .leftParen)
      (he : Expression rule us e) (hr : r.kind = .symbol .rightParen) :
      Primary rule (l :: (us ++ [r])) e
  | print {p l r : Token} {us : List Token} {e : Expr} (hp : p.kind = .keyword .printWord)
      (hl : l.kind = .symbol .leftParen) (he : Expression rule us e)
      (hr : r.kind = .symbol .rightParen) : Primary rule (p :: l :: (us ++ [r])) (.print e)
  | function {f : Token} {us : List Token} {e : Expr} (hf : f.kind = .keyword .functionWord)
      (he : Function rule us e) : Primary rule (f :: us) e

/-- `"(" parameters? ")" block` -/
inductive Function (rule : ElseRule) : List Token → Expr → Prop
  | rest {l r : Token} {us vs : List Token} {params : List String} {body : Expr}
      (hl : l.kind = .symbol .leftParen) (hps : ItemList Name us params)
      (hr : r.kind = .symbol .rightParen) (hb : Block rule vs body) :
      Function rule (l :: (us ++ r :: vs)) (.function 0 params body)

/-- `"{" statement* "}"` -/
inductive Block (rule : ElseRule) : List Token → Expr → Prop
  | braces {l r : Token} {us : List Token} {es : List Expr} (hl : l.kind = .symbol .leftBrace)
      (hes : Statements rule us es) (hr : r.kind = .symbol .rightBrace) :
      Block rule (l :: (us ++ [r])) (nestRight es)

/-- `statement*`, without the empty ones. -/
inductive Statements (rule : ElseRule) : List Token → List Expr → Prop
  | nil : Statements rule [] []
  | cons {us vs : List Token} {o : Option Expr} {dangling : Bool} {es : List Expr}
      (ho : Statement rule us o dangling) (hes : Statements rule vs es) :
      Statements rule (us ++ vs) (o.toList ++ es)

/-- `";" | block | "if" "(" expression ")" body ( "else" body )? | "while" "(" expression ")" body
| "function" IDENT "(" parameters? ")" block | expression ";"` -/
inductive Statement (rule : ElseRule) : List Token → Option Expr → Bool → Prop
  | empty {s : Token} (hs : s.kind = .symbol .semicolon) : Statement rule [s] none false
  | block {us : List Token} {e : Expr} (he : Block rule us e) : Statement rule us (some e) false
  | ifElse {i l r o : Token} {cs us vs : List Token} {c yes no : Expr} {inner dangling : Bool}
      (hi : i.kind = .keyword .ifWord) (hl : l.kind = .symbol .leftParen)
      (hc : Expression rule cs c) (hr : r.kind = .symbol .rightParen)
      (hyes : Body rule us yes inner) (hrule : rule = .nearest → inner = false)
      (ho : o.kind = .keyword .elseWord) (hno : Body rule vs no dangling) :
      Statement rule (i :: l :: (cs ++ r :: (us ++ o :: vs))) (some (.ifElse c yes no)) dangling
  | ifOnly {i l r : Token} {cs us : List Token} {c yes : Expr} {inner : Bool}
      (hi : i.kind = .keyword .ifWord) (hl : l.kind = .symbol .leftParen)
      (hc : Expression rule cs c) (hr : r.kind = .symbol .rightParen)
      (hyes : Body rule us yes inner) :
      Statement rule (i :: l :: (cs ++ r :: us)) (some (.ifElse c yes .null)) true
  | loop {w l r : Token} {cs us : List Token} {c body : Expr} {dangling : Bool}
      (hw : w.kind = .keyword .whileWord) (hl : l.kind = .symbol .leftParen)
      (hc : Expression rule cs c) (hr : r.kind = .symbol .rightParen)
      (hbody : Body rule us body dangling) :
      Statement rule (w :: l :: (cs ++ r :: us)) (some (.loop c body)) dangling
  | function {f x : Token} {us : List Token} {e : Expr} (hf : f.kind = .keyword .functionWord)
      (hx : x.kind = .identifier) (he : Function rule us e) :
      Statement rule (f :: x :: us) (some (.declare x.lexeme e)) false
  | expression {s : Token} {us : List Token} {e : Expr} (he : Expression rule us e)
      (hs : s.kind = .symbol .semicolon) : Statement rule (us ++ [s]) (some e) false

/-- `block | statement`; an empty statement is `null`. -/
inductive Body (rule : ElseRule) : List Token → Expr → Bool → Prop
  | block {us : List Token} {e : Expr} (he : Block rule us e) : Body rule us e false
  | statement {us : List Token} {o : Option Expr} {dangling : Bool}
      (ho : Statement rule us o dangling) : Body rule us (o.getD .null) dangling

end

/-- `statement*` as a whole program. -/
def Program (rule : ElseRule) (ts : List Token) (e : Expr) : Prop :=
  ∃ es, Statements rule ts es ∧ e = nestRight es

/-! ### Statements in a row -/

theorem Block.sequence {rule : ElseRule} {l r : Token} {us : List Token} {es : List Expr}
    (hl : l.kind = .symbol .leftBrace) (hes : Statements rule us es)
    (hr : r.kind = .symbol .rightBrace) : Block rule (l :: (us ++ [r])) (.sequence es) :=
  nestRight_eq es ▸ .braces hl hes hr

theorem program_iff {rule : ElseRule} {ts : List Token} {e : Expr} :
    Program rule ts e ↔ ∃ es, Statements rule ts es ∧ e = .sequence es := by
  simp only [Program, nestRight_eq]

/-! ### Operands -/

section

variable {ops : List BinaryOp} {operand : Phrase Expr} {op : BinaryOp} {o : Token}
  {us vs : List Token} {left e l r : Expr}

theorem chain_one (h : operand us e) : Chain ops operand us e := by
  have hchain : Chain ops operand (us ++ []) e := .operands h .done
  rwa [List.append_nil] at hchain

theorem Operations.concat (h : Operations ops operand left us l) (hop : op ∈ ops)
    (ho : o.kind = .symbol op.symbol) (hr : operand vs r) :
    Operations ops operand left (us ++ o :: vs) (.binary op l r) := by
  induction h with
  | @done l =>
    have hlast : Operations ops operand l (o :: (vs ++ [])) (.binary op l r) :=
      .more hop ho hr .done
    rwa [List.append_nil] at hlast
  | more hop' ho' hr' _ ih =>
    rw [List.cons_append, List.append_assoc]
    exact .more hop' ho' hr' ih

/-- One operand more, to which all before it is the left one. -/
theorem Chain.concat (h : Chain ops operand us l) (hop : op ∈ ops)
    (ho : o.kind = .symbol op.symbol) (hr : operand vs r) :
    Chain ops operand (us ++ o :: vs) (.binary op l r) := by
  obtain ⟨hl, hs⟩ := h
  rw [List.append_assoc]
  exact .operands hl (hs.concat hop ho hr)

theorem Primary.unary {rule : ElseRule} (h : Primary rule us e) : Unary rule us e := by
  have hcall := Call.applied h .done
  rw [List.append_nil] at hcall
  exact .call hcall

end

end Featherweight.Grammar
