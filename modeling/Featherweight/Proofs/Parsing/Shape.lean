import Featherweight.Parser.Grammar
import Featherweight.Proofs.Evaluation.Correspondence
import Featherweight.Proofs.Scanning.Tokens

/-!
# Shapes of programs

Trees that a program text can stand for: what may be an expression, and what only a statement. Names
are identifiers, integers are not negative, and functions and calls keep to the greatest arity.
-/

namespace Featherweight

mutual

/-- A tree that an expression can stand for. -/
inductive Expr.ExpressionShaped : Expr → Prop
  | int {n : Int64} (hn : 0 ≤ n.toInt) : Expr.ExpressionShaped (.literal (.int n))
  | bool (b : Bool) : Expr.ExpressionShaped (.literal (.bool b))
  | null : Expr.ExpressionShaped (.literal .null)
  | ident {x : String} (hx : isIdentifier x = true) : Expr.ExpressionShaped (.ident x)
  | print {e : Expr} (he : Expr.ExpressionShaped e) : Expr.ExpressionShaped (.print e)
  | binary {op : BinaryOp} {l r : Expr} (hl : Expr.ExpressionShaped l)
      (hr : Expr.ExpressionShaped r) : Expr.ExpressionShaped (.binary op l r)
  | declare {x : String} {e : Expr} (hx : isIdentifier x = true) (he : Expr.ExpressionShaped e) :
      Expr.ExpressionShaped (.declare x e)
  | assign {x : String} {e : Expr} (hx : isIdentifier x = true) (he : Expr.ExpressionShaped e) :
      Expr.ExpressionShaped (.assign x e)
  | function {site : Site} {ps : List String} {body : Expr}
      (hps : ∀ p ∈ ps, isIdentifier p = true) (hlen : ps.length ≤ Parser.maxArity)
      (hbody : Expr.StatementShaped body) : Expr.ExpressionShaped (.function site ps body)
  | call {f : Expr} {args : List Expr} (hf : Expr.ExpressionShaped f)
      (hargs : ∀ e ∈ args, Expr.ExpressionShaped e) (hlen : args.length ≤ Parser.maxArity) :
      Expr.ExpressionShaped (.call f args)

/-- A tree that a statement, or statements one after the other, can stand for. -/
inductive Expr.StatementShaped : Expr → Prop
  | expression {e : Expr} (he : Expr.ExpressionShaped e) : Expr.StatementShaped e
  | ifElse {c yes no : Expr} (hc : Expr.ExpressionShaped c) (hyes : Expr.StatementShaped yes)
      (hno : Expr.StatementShaped no) : Expr.StatementShaped (.ifElse c yes no)
  | loop {c body : Expr} (hc : Expr.ExpressionShaped c) (hbody : Expr.StatementShaped body) :
      Expr.StatementShaped (.loop c body)
  | seq {a b : Expr} (ha : Expr.StatementShaped a) (hb : Expr.StatementShaped b) :
      Expr.StatementShaped (.seq a b)

end

namespace Expr

theorem ExpressionShaped.negate {e : Expr} (h : e.ExpressionShaped) :
    e.negate.ExpressionShaped := .binary (.int (by decide)) h

theorem StatementShaped.sequence {es : List Expr} (h : ∀ e ∈ es, e.StatementShaped) :
    (sequence es).StatementShaped := by
  induction es with
  | nil => exact .expression .null
  | cons e es ih =>
    obtain ⟨he, hes⟩ := List.forall_mem_cons.1 h
    cases es with
    | nil => exact he
    | cons e' es => exact .seq he (ih hes)

/-- What holds of the names in every argument holds of all names in the arguments, and arguments
without closures hold none. -/
theorem names_closures_args {P : String → Prop} {args : List Expr}
    (h : ∀ e ∈ args, (∀ x ∈ e.names, P x) ∧ e.closures = []) :
    (∀ x ∈ namesOfArgs args, P x) ∧ closuresOfArgs args = [] := by
  induction args with
  | nil => exact ⟨by simp [namesOfArgs], rfl⟩
  | cons e args ih =>
    obtain ⟨he, hargs⟩ := List.forall_mem_cons.1 h
    obtain ⟨hnames, hclosures⟩ := ih hargs
    simp only [namesOfArgs, closuresOfArgs, List.forall_mem_append, List.append_eq_nil_iff]
    exact ⟨⟨he.1, hnames⟩, he.2, hclosures⟩

mutual

/-- A program from a text holds identifiers only, and no closure. -/
theorem ExpressionShaped.names_closures : ∀ {e : Expr}, e.ExpressionShaped →
    (∀ x ∈ e.names, isIdentifier x = true) ∧ e.closures = []
  | _, .int _ => by simp [Expr.names, Value.names, Expr.closures, Value.closures]
  | _, .bool _ => by simp [Expr.names, Value.names, Expr.closures, Value.closures]
  | _, .null => by simp [Expr.names, Value.names, Expr.closures, Value.closures]
  | _, .ident hx => by simp [Expr.names, Expr.closures, hx]
  | _, .print he => by simpa only [Expr.names, Expr.closures] using he.names_closures
  | _, .binary hl hr => by
    simp only [Expr.names, Expr.closures, List.forall_mem_append, List.append_eq_nil_iff]
    exact ⟨⟨hl.names_closures.1, hr.names_closures.1⟩, hl.names_closures.2, hr.names_closures.2⟩
  | _, .declare hx he => by
    simp only [Expr.names, Expr.closures, List.forall_mem_cons]
    exact ⟨⟨hx, he.names_closures.1⟩, he.names_closures.2⟩
  | _, .assign hx he => by
    simp only [Expr.names, Expr.closures, List.forall_mem_cons]
    exact ⟨⟨hx, he.names_closures.1⟩, he.names_closures.2⟩
  | _, .function hps _ hbody => by
    simp only [Expr.names, Expr.closures, List.forall_mem_append]
    exact ⟨⟨hps, hbody.names_closures.1⟩, hbody.names_closures.2⟩
  | _, .call hf hargs _ => by
    have hrest := names_closures_args fun e he => (hargs e he).names_closures
    simp only [Expr.names, Expr.closures, List.forall_mem_append, List.append_eq_nil_iff]
    exact ⟨⟨hf.names_closures.1, hrest.1⟩, hf.names_closures.2, hrest.2⟩

theorem StatementShaped.names_closures : ∀ {e : Expr}, e.StatementShaped →
    (∀ x ∈ e.names, isIdentifier x = true) ∧ e.closures = []
  | _, .expression he => he.names_closures
  | _, .ifElse hc hyes hno => by
    simp only [Expr.names, Expr.closures, List.forall_mem_append, List.append_eq_nil_iff]
    exact ⟨⟨⟨hc.names_closures.1, hyes.names_closures.1⟩, hno.names_closures.1⟩,
      ⟨hc.names_closures.2, hyes.names_closures.2⟩, hno.names_closures.2⟩
  | _, .loop hc hbody => by
    simp only [Expr.names, Expr.closures, List.forall_mem_append, List.append_eq_nil_iff]
    exact ⟨⟨hc.names_closures.1, hbody.names_closures.1⟩, hc.names_closures.2,
      hbody.names_closures.2⟩
  | _, .seq ha hb => by
    simp only [Expr.names, Expr.closures, List.forall_mem_append, List.append_eq_nil_iff]
    exact ⟨⟨ha.names_closures.1, hb.names_closures.1⟩, ha.names_closures.2, hb.names_closures.2⟩

end

end Expr

end Featherweight
