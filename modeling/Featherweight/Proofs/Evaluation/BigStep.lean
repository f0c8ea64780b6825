import Featherweight.Eval.Error
import Featherweight.Store

/-!
# The semantics by rules

What evaluating a tree in a scope ends with, in which store, and what is printed on the way
(`Evaluates`). There are rules for every kind of tree, one for each way in which it comes to an end:
with a value, or with a failure that ends it where it arises. No rule lets a tree go on for ever.

The rules say what happens in which order. They know the store by what it resolves, binds and
updates, and operators by what they are on all integers, with the results kept to 64 bits.
-/

namespace Featherweight

/-! ### Operators -/

/-- What an operator makes of two integers. -/
inductive Computes (a b : Int64) : BinaryOp → Except RuntimeError Value → Prop
  | add : Computes a b .add (.ok (.int (.ofInt (a.toInt + b.toInt))))
  | subtract : Computes a b .subtract (.ok (.int (.ofInt (a.toInt - b.toInt))))
  | multiply : Computes a b .multiply (.ok (.int (.ofInt (a.toInt * b.toInt))))
  | divide (hb : b.toInt ≠ 0) :
      Computes a b .divide (.ok (.int (.ofInt (a.toInt.tdiv b.toInt))))
  | divideByZero (hb : b.toInt = 0) : Computes a b .divide (.error .divisionByZero)
  | modulo (hb : b.toInt ≠ 0) :
      Computes a b .modulo (.ok (.int (.ofInt (a.toInt.tmod b.toInt))))
  | moduloByZero (hb : b.toInt = 0) : Computes a b .modulo (.error .moduloByZero)
  | greater : Computes a b .greater (.ok (.bool (a.toInt > b.toInt)))
  | greaterEqual : Computes a b .greaterEqual (.ok (.bool (a.toInt ≥ b.toInt)))
  | less : Computes a b .less (.ok (.bool (a.toInt < b.toInt)))
  | lessEqual : Computes a b .lessEqual (.ok (.bool (a.toInt ≤ b.toInt)))
  | equal : Computes a b .equal (.ok (.bool (a.toInt = b.toInt)))

/-- What an operator makes of two values. The left one is to blame if it is no integer, or else the
right one. -/
inductive Operates (op : BinaryOp) : Value → Value → Except RuntimeError Value → Prop
  | integers {a b o} (h : Computes a b op o) : Operates op (.int a) (.int b) o
  | left {v w} (hv : v.kind ≠ .int) :
      Operates op v w (.error (.typeMismatch (.operand op) v.kind))
  | right {a w} (hw : w.kind ≠ .int) :
      Operates op (.int a) w (.error (.typeMismatch (.operand op) w.kind))

/-! ### Parameters -/

/-- Declaring names with values, one after the other, in a scope. A name that the scope binds
already ends it there. -/
inductive Declares (e : ScopeId) :
    List String → List Value → Store → Except RuntimeError Unit → Store → Prop
  | nil {st} : Declares e [] [] st (.ok ()) st
  | cons {x xs v vs st o st'} (hx : st.binds e x = false)
      (hxs : Declares e xs vs (st.bind e x v) o st') : Declares e (x :: xs) (v :: vs) st o st'
  | taken {x xs v vs st} (hx : st.binds e x = true) :
      Declares e (x :: xs) (v :: vs) st (.error (.duplicateDeclaration x)) st

/-! ### Trees -/

mutual

/-- Evaluating a tree in a scope: from which store, with which value or failure, to which store, and
what is printed meanwhile. -/
inductive Evaluates :
    Expr → ScopeId → Store → Except RuntimeError Value → Store → ByteArray → Prop
  | literal {v e st} : Evaluates (.literal v) e st (.ok v) st .empty
  | ident {x e st} : Evaluates (.ident x) e st (.ok (st.resolve e x)) st .empty
  | print {t e st v st' w} (ht : Evaluates t e st (.ok v) st' w) :
      Evaluates (.print t) e st (.ok v) st' (w ++ (v.render ++ "\n").toUTF8)
  | printFails {t e st f st' w} (ht : Evaluates t e st (.error f) st' w) :
      Evaluates (.print t) e st (.error f) st' w
  | binary {op l r e st v₁ st₁ w₁ v₂ st₂ w₂ o} (hl : Evaluates l e st (.ok v₁) st₁ w₁)
      (hr : Evaluates r e st₁ (.ok v₂) st₂ w₂) (ho : Operates op v₁ v₂ o) :
      Evaluates (.binary op l r) e st o st₂ (w₁ ++ w₂)
  | leftFails {op l r e st f st' w} (hl : Evaluates l e st (.error f) st' w) :
      Evaluates (.binary op l r) e st (.error f) st' w
  | rightFails {op l r e st v st₁ w₁ f st' w} (hl : Evaluates l e st (.ok v) st₁ w₁)
      (hr : Evaluates r e st₁ (.error f) st' w) :
      Evaluates (.binary op l r) e st (.error f) st' (w₁ ++ w)
  | ifTrue {c yes no e st st₁ w₁ o st' w} (hc : Decides .ifCondition c e st (.ok true) st₁ w₁)
      (hyes : Evaluates yes e st₁ o st' w) :
      Evaluates (.ifElse c yes no) e st o st' (w₁ ++ w)
  | ifFalse {c yes no e st st₁ w₁ o st' w} (hc : Decides .ifCondition c e st (.ok false) st₁ w₁)
      (hno : Evaluates no e st₁ o st' w) :
      Evaluates (.ifElse c yes no) e st o st' (w₁ ++ w)
  | ifFails {c yes no e st f st' w} (hc : Decides .ifCondition c e st (.error f) st' w) :
      Evaluates (.ifElse c yes no) e st (.error f) st' w
  | loop {c body e st o st' w} (h : Repeats c body e .null st o st' w) :
      Evaluates (.loop c body) e st o st' w
  | seq {a b e st v st₁ w₁ o st' w} (ha : Evaluates a e st (.ok v) st₁ w₁)
      (hb : Evaluates b e st₁ o st' w) : Evaluates (.seq a b) e st o st' (w₁ ++ w)
  | seqFails {a b e st f st' w} (ha : Evaluates a e st (.error f) st' w) :
      Evaluates (.seq a b) e st (.error f) st' w
  | declare {x t e st v st' w} (ht : Evaluates t e st (.ok v) st' w)
      (hx : st'.binds e x = false) :
      Evaluates (.declare x t) e st (.ok v) (st'.bind e x v) w
  | declareTaken {x t e st v st' w} (ht : Evaluates t e st (.ok v) st' w)
      (hx : st'.binds e x = true) :
      Evaluates (.declare x t) e st (.error (.duplicateDeclaration x)) st' w
  | declareFails {x t e st f st' w} (ht : Evaluates t e st (.error f) st' w) :
      Evaluates (.declare x t) e st (.error f) st' w
  | assign {x t e st v st' w} (ht : Evaluates t e st (.ok v) st' w) :
      Evaluates (.assign x t) e st (.ok v) (st'.update e x v) w
  | assignFails {x t e st f st' w} (ht : Evaluates t e st (.error f) st' w) :
      Evaluates (.assign x t) e st (.error f) st' w
  | function {site ps body e st} {c : Closure} (hc : c = ⟨site, ps, body, e⟩) :
      Evaluates (.function site ps body) e st (.ok (.closure c))
        (st.update e c.render (.closure c)) .empty
  | call {f args e st c st₁ w₁ vs st₂ w₂ o st' w}
      (hf : Evaluates f e st (.ok (.closure c)) st₁ w₁)
      (hargs : EvaluatesAll args e st₁ (.ok vs) st₂ w₂) (happ : Applies c vs st₂ o st' w) :
      Evaluates (.call f args) e st o st' (w₁ ++ (w₂ ++ w))
  | calleeFails {f args e st h st' w} (hf : Evaluates f e st (.error h) st' w) :
      Evaluates (.call f args) e st (.error h) st' w
  | calleeKind {f args e st v st' w} (hf : Evaluates f e st (.ok v) st' w)
      (hv : v.kind ≠ .closure) :
      Evaluates (.call f args) e st (.error (.typeMismatch .callee v.kind)) st' w
  | argsFail {f args e st c st₁ w₁ h st' w} (hf : Evaluates f e st (.ok (.closure c)) st₁ w₁)
      (hargs : EvaluatesAll args e st₁ (.error h) st' w) :
      Evaluates (.call f args) e st (.error h) st' (w₁ ++ w)

/-- Evaluating a condition, which must be a truth value. -/
inductive Decides :
    Place → Expr → ScopeId → Store → Except RuntimeError Bool → Store → ByteArray → Prop
  | truth {place c e st b st' w} (hc : Evaluates c e st (.ok (.bool b)) st' w) :
      Decides place c e st (.ok b) st' w
  | kind {place c e st v st' w} (hc : Evaluates c e st (.ok v) st' w) (hv : v.kind ≠ .bool) :
      Decides place c e st (.error (.typeMismatch place v.kind)) st' w
  | fails {place c e st f st' w} (hc : Evaluates c e st (.error f) st' w) :
      Decides place c e st (.error f) st' w

/-- Evaluating trees from left to right. -/
inductive EvaluatesAll :
    List Expr → ScopeId → Store → Except RuntimeError (List Value) → Store → ByteArray → Prop
  | nil {e st} : EvaluatesAll [] e st (.ok []) st .empty
  | cons {t ts e st v st₁ w₁ vs st' w} (ht : Evaluates t e st (.ok v) st₁ w₁)
      (hts : EvaluatesAll ts e st₁ (.ok vs) st' w) :
      EvaluatesAll (t :: ts) e st (.ok (v :: vs)) st' (w₁ ++ w)
  | headFails {t ts e st f st' w} (ht : Evaluates t e st (.error f) st' w) :
      EvaluatesAll (t :: ts) e st (.error f) st' w
  | tailFails {t ts e st v st₁ w₁ f st' w} (ht : Evaluates t e st (.ok v) st₁ w₁)
      (hts : EvaluatesAll ts e st₁ (.error f) st' w) :
      EvaluatesAll (t :: ts) e st (.error f) st' (w₁ ++ w)

/-- Going round a loop as long as its condition holds. The value is that of the last body, or the
one given if there is none. -/
inductive Repeats :
    Expr → Expr → ScopeId → Value → Store → Except RuntimeError Value → Store → ByteArray → Prop
  | stop {c body e last st st' w} (hc : Decides .whileCondition c e st (.ok false) st' w) :
      Repeats c body e last st (.ok last) st' w
  | again {c body e last st st₁ w₁ v st₂ w₂ o st' w}
      (hc : Decides .whileCondition c e st (.ok true) st₁ w₁)
      (hbody : Evaluates body e st₁ (.ok v) st₂ w₂) (hrest : Repeats c body e v st₂ o st' w) :
      Repeats c body e last st o st' (w₁ ++ (w₂ ++ w))
  | conditionFails {c body e last st f st' w}
      (hc : Decides .whileCondition c e st (.error f) st' w) :
      Repeats c body e last st (.error f) st' w
  | bodyFails {c body e last st st₁ w₁ f st' w}
      (hc : Decides .whileCondition c e st (.ok true) st₁ w₁)
      (hbody : Evaluates body e st₁ (.error f) st' w) :
      Repeats c body e last st (.error f) st' (w₁ ++ w)

/-- Applying a closure to as many values as it has parameters. They are declared in a new scope
inside the one it captured, where the body is evaluated. -/
inductive Applies :
    Closure → List Value → Store → Except RuntimeError Value → Store → ByteArray → Prop
  | arity {c vs st} (hlen : vs.length ≠ c.params.length) :
      Applies c vs st (.error (.arityMismatch c.params.length vs.length)) st .empty
  | taken {c vs st f st'} (hlen : vs.length = c.params.length)
      (hps : Declares st.fresh c.params vs (st.push (some c.scope)) (.error f) st') :
      Applies c vs st (.error f) st' .empty
  | body {c vs st st₁ o st' w} (hlen : vs.length = c.params.length)
      (hps : Declares st.fresh c.params vs (st.push (some c.scope)) (.ok ()) st₁)
      (hbody : Evaluates c.body st.fresh st₁ o st' w) : Applies c vs st o st' w

end

end Featherweight
