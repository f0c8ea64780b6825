import Featherweight.Parser.Grammar

/-!
# What every rule of the grammar keeps

The rules are put together from a few readers of one or two tokens, by reading one after the other.
A property that those have, and that goes over to what is put together (`Compositional`), is a
property of every rule whose parts have it, and so of what is read at every depth
(`Compositional.expression`, `Compositional.statement`).
-/

namespace Featherweight.Parser

/-- A property of readers that the smallest have, and that is kept when readers are put together. -/
structure Compositional (P : ∀ {α : Type}, Parser α → Prop) : Prop where
  pure : ∀ {α : Type} (a : α), P (Pure.pure a : Parser α)
  throw : ∀ {α : Type} (e : ParseError), P (MonadExcept.throw e : Parser α)
  bind : ∀ {α β : Type} {p : Parser α} {f : α → Parser β}, P p → (∀ a, P (f a)) → P (p >>= f)
  peek : P Parser.peek
  take : P Parser.take
  accept : ∀ kind : TokenKind, P (Parser.accept kind)
  expect : ∀ what : Expected, P (Parser.expect what)
  ahead : ∀ first second : TokenKind, P (Parser.ahead first second)

namespace Compositional

variable {P : ∀ {α : Type}, Parser α → Prop} (h : Compositional P) {α : Type}

theorem ite {c : Prop} [Decidable c] {p q : Parser α} (hp : P p) (hq : P q) :
    P (if c then p else q) := by
  split
  · exact hp
  · exact hq

include h

theorem noExpression (t : Token) : P (Parser.noExpression t : Parser α) := h.throw _

theorem operator (ops : List BinaryOp) : P (Parser.operator ops) := by
  induction ops with
  | nil => exact h.pure _
  | cons op ops ih => exact h.bind (h.accept _) fun _ => ite (h.pure _) ih

theorem listUntilParen {items : Parser (List α)} (hitems : P items) :
    P (Parser.listUntilParen items) :=
  h.bind h.peek fun _ => ite (h.pure _) hitems

theorem parameters (line room : Nat) : P (Parser.parameters line room) := by
  induction room with
  | zero => exact h.throw _
  | succ room ih =>
    refine h.bind (h.expect _) fun name => h.bind (h.accept _) fun _ => ite ?_ (h.pure _)
    exact h.bind ih fun _ => h.pure _

section

variable {p : Parser Expr} {s : Parser (Option Expr)} (hp : P p) (hs : P s)

/-! ### Expressions -/

include hp

theorem chainFrom (ops : List BinaryOp) (n : Nat) (e : Expr) : P (Parser.chainFrom ops p n e) := by
  induction n generalizing e with
  | zero => exact h.pure _
  | succ n ih =>
    refine h.bind (h.operator ops) fun op => ?_
    cases op with
    | none => exact h.pure _
    | some op => exact h.bind hp fun _ => ih _

theorem chain (ops : List BinaryOp) (n : Nat) : P (Parser.chain ops p n) :=
  h.bind hp fun _ => h.chainFrom hp ops n _

theorem negated (n : Nat) : P (Parser.negated p n) := by
  induction n with
  | zero => exact hp
  | succ n ih => exact h.bind (h.accept _) fun _ => ite (h.bind ih fun _ => h.pure _) hp

theorem arguments (room : Nat) : P (Parser.arguments p room) := by
  induction room with
  | zero => exact h.bind h.peek fun _ => h.throw _
  | succ room ih =>
    refine h.bind hp fun e => h.bind (h.accept _) fun _ => ite ?_ (h.pure _)
    exact h.bind ih fun _ => h.pure _

theorem argumentList : P (Parser.argumentList p) :=
  h.bind (h.listUntilParen (h.arguments hp _)) fun _ => h.bind (h.expect _) fun _ => h.pure _

theorem callsFrom (n : Nat) (f : Expr) : P (Parser.callsFrom p n f) := by
  induction n generalizing f with
  | zero => exact h.pure _
  | succ n ih =>
    refine h.bind (h.accept _) fun _ => ite ?_ (h.pure _)
    exact h.bind (h.argumentList hp) fun _ => ih _

theorem initialValue : P (Parser.initialValue p) :=
  h.bind (h.accept _) fun _ => ite hp (h.pure _)

theorem declaration : P (Parser.declaration p) :=
  h.bind (h.expect _) fun _ => h.bind (h.initialValue hp) fun _ => h.pure _

theorem assignment (name : Token) : P (Parser.assignment p name) :=
  h.bind h.take fun _ => h.bind hp fun _ => h.pure _

omit hp
include hs

theorem statements (close : TokenKind) (n : Nat) : P (Parser.statements close s n) := by
  induction n with
  | zero => exact h.pure _
  | succ n ih =>
    refine h.bind h.peek fun _ => ite (h.pure _) ?_
    exact h.bind hs fun _ => h.bind ih fun _ => h.pure _

theorem block (n : Nat) : P (Parser.block s n) :=
  h.bind (h.statements hs _ n) fun _ => h.bind (h.expect _) fun _ => h.pure _

theorem function (n : Nat) : P (Parser.function s n) := by
  refine h.bind (h.expect _) fun paren => ?_
  refine h.bind (h.listUntilParen (h.parameters _ _)) fun params => ?_
  refine h.bind (h.expect _) fun _ => h.bind (h.expect _) fun _ => ?_
  exact h.bind (h.block hs n) fun _ => h.pure _

include hp

theorem primaryFrom (n : Nat) (t : Token) : P (Parser.primaryFrom p s n t) := by
  unfold Parser.primaryFrom
  cases t.kind with
  | int value => exact h.pure _
  | identifier => exact h.pure _
  | eof => exact h.noExpression t
  | symbol c =>
    cases c with
    | leftParen => exact h.bind hp fun _ => h.bind (h.expect _) fun _ => h.pure _
    | _ => exact h.noExpression t
  | keyword w =>
    cases w with
    | trueWord | falseWord | nullWord => exact h.pure _
    | printWord =>
      refine h.bind (h.expect _) fun _ => h.bind hp fun e => ?_
      exact h.bind (h.expect _) fun _ => h.pure _
    | functionWord => exact h.function hs n
    | _ => exact h.noExpression t

theorem primary (n : Nat) : P (Parser.primary p s n) :=
  h.bind h.take fun t => h.primaryFrom hp hs n t

theorem call (n : Nat) : P (Parser.call p s n) :=
  h.bind (h.primary hp hs n) fun _ => h.callsFrom hp n _

theorem unary (n : Nat) : P (Parser.unary p s n) := h.negated (h.call hp hs n) n

theorem factor (n : Nat) : P (Parser.factor p s n) := h.chain (h.unary hp hs n) _ n

theorem term (n : Nat) : P (Parser.term p s n) := h.chain (h.factor hp hs n) _ n

theorem comparison (n : Nat) : P (Parser.comparison p s n) := h.chain (h.term hp hs n) _ n

theorem expressionOf (n : Nat) : P (Parser.expressionOf p s n) := by
  refine h.bind (h.accept _) fun _ => ite (h.declaration hp) ?_
  refine h.bind (h.ahead _ _) fun _ => ite ?_ (h.comparison hp hs n)
  exact h.bind h.take fun name => h.assignment hp name

/-! ### Statements -/

omit hs in
theorem expressionStatement : P (Parser.expressionStatement p) :=
  h.bind hp fun _ => h.bind (h.expect _) fun _ => h.pure _

omit hp in
theorem body : P (Parser.body s) := h.bind hs fun _ => h.pure _

omit hp in
theorem alternative : P (Parser.alternative s) :=
  h.bind (h.accept _) fun _ => ite (h.body hs) (h.pure _)

theorem conditional : P (Parser.conditional p s) := by
  refine h.bind (h.expect _) fun _ => h.bind hp fun _ => h.bind (h.expect _) fun _ => ?_
  exact h.bind (h.body hs) fun _ => h.bind (h.alternative hs) fun _ => h.pure _

theorem whileLoop : P (Parser.whileLoop p s) := by
  refine h.bind (h.expect _) fun _ => h.bind hp fun _ => h.bind (h.expect _) fun _ => ?_
  exact h.bind (h.body hs) fun _ => h.pure _

omit hp in
theorem namedFunction (n : Nat) : P (Parser.namedFunction s n) :=
  h.bind (h.expect _) fun _ => h.bind (h.function hs n) fun _ => h.pure _

theorem statementOf (n : Nat) : P (Parser.statementOf p s n) := by
  have some {q : Parser Expr} (hq : P q) : P (do return Option.some (← q)) :=
    h.bind hq fun _ => h.pure _
  refine h.bind (h.accept _) fun _ => ite (h.pure _) ?_
  refine h.bind (h.accept _) fun _ => ite (some (h.block hs n)) ?_
  refine h.bind (h.accept _) fun _ => ite (some (h.conditional hp hs)) ?_
  refine h.bind (h.accept _) fun _ => ite (some (h.whileLoop hp hs)) ?_
  refine h.bind (h.ahead _ _) fun _ => ite ?_ (some (h.expressionStatement hp))
  exact h.bind h.take fun _ => some (h.namedFunction hs n)

end

/-! ### Every depth -/

theorem expression_statement (n : Nat) : P (Parser.expression n) ∧ P (Parser.statement n) := by
  induction n with
  | zero =>
    exact ⟨h.bind h.peek fun _ => h.noExpression _, h.bind h.peek fun _ => h.noExpression _⟩
  | succ n ih =>
    have hexpression : P (Parser.expression (n + 1)) := h.expressionOf ih.1 ih.2 _
    exact ⟨hexpression, h.statementOf hexpression ih.2 _⟩

theorem expression (n : Nat) : P (Parser.expression n) := (h.expression_statement n).1

theorem statement (n : Nat) : P (Parser.statement n) := (h.expression_statement n).2

end Compositional

end Featherweight.Parser
