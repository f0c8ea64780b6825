import Featherweight.Proofs.Evaluation.Correspondence
import Featherweight.Proofs.Lockstep

/-!
# Evaluation in lockstep

If what the evaluator does to a machine keeps a relation of machines (`Simulates`), then it
evaluates corresponding trees in lockstep (`Simulates.evalWith`). The evaluator works in any monad
that a run can be done in, and so does this: `Lifts` says that a relation of machines carries over
to the states of two such monads.
-/

namespace Featherweight

variable {σ σ' α α' : Type}

/-! ### What the evaluator is made of -/

/-- Does everything that the evaluator does to machines keep the relation `R` of machines, for names
related by `N` and scopes that satisfy `S`? Closures are recorded by `made` on one side and by
`made'` on the other. -/
structure Simulates (N : String → String → Prop) (S : ScopeId → Prop)
    (made made' : Closure → Run Unit) (R : Machine → Machine → Prop) : Prop where
  resolve : ∀ {e : ScopeId} {x x' : String}, S e → N x x' →
    Lockstep R (Halt.Corresponds N) (Value.Corresponds N S) (Run.resolve e x) (Run.resolve e x')
  update : ∀ {e : ScopeId} {x x' : String} {v v' : Value}, S e → N x x' →
    v.Corresponds N S v' →
    Lockstep R (Halt.Corresponds N) Anything (Run.update e x v) (Run.update e x' v')
  declare : ∀ {e : ScopeId} {x x' : String} {v v' : Value}, S e → N x x' →
    v.Corresponds N S v' →
    Lockstep R (Halt.Corresponds N) Anything (Run.declare e x v) (Run.declare e x' v')
  newScope : ∀ {p : ScopeId}, S p →
    Lockstep R (Halt.Corresponds N) (fun e e' => e = e' ∧ S e) (Run.newScope (some p))
      (Run.newScope (some p))
  printLine : ∀ {v v' : Value}, v.Corresponds N S v' →
    Lockstep R (Halt.Corresponds N) Anything (Run.printLine v.render) (Run.printLine v'.render)
  flush : Lockstep R (Halt.Corresponds N) Anything Run.flush Run.flush
  made : ∀ {c c' : Closure}, c.Corresponds N S c' →
    Lockstep R (Halt.Corresponds N) Anything (made c) (made' c')

/-- Does the relation `R` of machines carry over to `H` when runs are done in other monads? -/
def Lifts [MonadLiftT Run (EStateM Halt σ)] [MonadLiftT Run (EStateM Halt σ')]
    (F : Halt → Halt → Prop) (R : Machine → Machine → Prop) (H : σ → σ' → Prop) : Prop :=
  ∀ {α α' : Type} {Q : α → α' → Prop} {r : Run α} {r' : Run α'}, Lockstep R F Q r r' →
    Lockstep H F Q (liftM r : EStateM Halt σ α) (liftM r' : EStateM Halt σ' α')

/-! ### Answers and failures of operators -/

/-- Are the answers related, or the failures equal and not about a name? -/
inductive ExceptAgree (Q : α → α' → Prop) :
    Except RuntimeError α → Except RuntimeError α' → Prop
  | ok {a : α} {a' : α'} (ha : Q a a') : ExceptAgree Q (.ok a) (.ok a')
  | error {e : RuntimeError} (he : ∀ x, e ≠ .duplicateDeclaration x) :
      ExceptAgree Q (.error e) (.error e)

section

variable {N : String → String → Prop} {S : ScopeId → Prop} {R : Machine → Machine → Prop}

theorem ExceptAgree.ofExcept {Q : α → α' → Prop} {o : Except RuntimeError α}
    {o' : Except RuntimeError α'} (h : ExceptAgree Q o o') :
    Lockstep R (Halt.Corresponds N) Q (Run.ofExcept o) (Run.ofExcept o') := by
  cases h with
  | ok ha => exact Lockstep.pure ha
  | error he => exact Lockstep.throw (.same fun x hx => he x (Halt.failure.inj hx))

theorem Value.Corresponds.asBool {v v' : Value} (h : v.Corresponds N S v') (place : Place) :
    ExceptAgree Eq (v.asBool place) (v'.asBool place) := by
  cases h with
  | bool b => exact .ok rfl
  | int _ => exact .error (by simp)
  | null => exact .error (by simp)
  | closure _ => exact .error (by simp)

theorem Value.Corresponds.asClosure {v v' : Value} (h : v.Corresponds N S v') (place : Place) :
    ExceptAgree (Closure.Corresponds N S) (v.asClosure place) (v'.asClosure place) := by
  cases h with
  | closure hc => exact .ok hc
  | int _ => exact .error (by simp)
  | bool _ => exact .error (by simp)
  | null => exact .error (by simp)

/-- On integers an operator does the same on both sides, whatever the relation of names. -/
theorem exceptAgree_compute (op : BinaryOp) (a b : Int64) :
    ExceptAgree (Value.Corresponds N S) (op.compute a b) (op.compute a b) := by
  have int (n : Int64) : ExceptAgree (Value.Corresponds N S) (.ok (.int n)) (.ok (.int n)) :=
    .ok (.int n)
  have bool (b : Bool) : ExceptAgree (Value.Corresponds N S) (.ok (.bool b)) (.ok (.bool b)) :=
    .ok (.bool b)
  cases op with
  | add => exact int _
  | subtract => exact int _
  | multiply => exact int _
  | divide =>
    by_cases hb : b = 0
    · simp only [BinaryOp.compute, if_pos hb]
      exact .error (by simp)
    · simp only [BinaryOp.compute, if_neg hb]
      exact int _
  | modulo =>
    by_cases hb : b = 0
    · simp only [BinaryOp.compute, if_pos hb]
      exact .error (by simp)
    · simp only [BinaryOp.compute, if_neg hb]
      exact int _
  | greater => exact bool _
  | greaterEqual => exact bool _
  | less => exact bool _
  | lessEqual => exact bool _
  | equal => exact bool _

/-- Of two operands the left one is to blame on both sides, or on neither. -/
theorem Value.Corresponds.apply (op : BinaryOp) {v v' w w' : Value} (hv : v.Corresponds N S v')
    (hw : w.Corresponds N S w') :
    ExceptAgree (Value.Corresponds N S) (op.apply v w) (op.apply v' w') := by
  cases hv with
  | int a =>
    cases hw with
    | int b => exact exceptAgree_compute op a b
    | bool _ => exact .error (by simp)
    | null => exact .error (by simp)
    | closure _ => exact .error (by simp)
  | bool _ => exact .error (by simp)
  | null => exact .error (by simp)
  | closure _ => exact .error (by simp)

end

/-! ### The evaluator in lockstep -/

section

variable {N : String → String → Prop} {S : ScopeId → Prop} {made made' : Closure → Run Unit}
  {R : Machine → Machine → Prop} {H : σ → σ' → Prop}
  [MonadLiftT Run (EStateM Halt σ)] [MonadLiftT Run (EStateM Halt σ')]

theorem Lockstep.condition (hl : Lifts (Halt.Corresponds N) R H) (place : Place)
    {r : EStateM Halt σ Value} {r' : EStateM Halt σ' Value}
    (hr : Lockstep H (Halt.Corresponds N) (Value.Corresponds N S) r r') :
    Lockstep H (Halt.Corresponds N) Eq (Run.condition place r) (Run.condition place r') :=
  hr.bind fun _ _ hv => hl (hv.asBool place).ofExcept

theorem Lockstep.exhausted {Q : α → α' → Prop} :
    Lockstep R (Halt.Corresponds N) Q Run.exhausted Run.exhausted :=
  Lockstep.throw (.same (by simp))

theorem Lockstep.iterate (hl : Lifts (Halt.Corresponds N) R H) {g : EStateM Halt σ Bool}
    {g' : EStateM Halt σ' Bool} {b : EStateM Halt σ Value} {b' : EStateM Halt σ' Value}
    (hg : Lockstep H (Halt.Corresponds N) Eq g g')
    (hb : Lockstep H (Halt.Corresponds N) (Value.Corresponds N S) b b') (n : Nat)
    {last last' : Value} (hlast : last.Corresponds N S last') :
    Lockstep H (Halt.Corresponds N) (Value.Corresponds N S) (Run.iterate g b n last)
      (Run.iterate g' b' n last') := by
  induction n generalizing last last' with
  | zero => exact hl .exhausted
  | succ n ih =>
    refine hg.bind fun go go' hgo => ?_
    subst hgo
    cases go with
    | true => exact hb.bind fun v v' hv => ih hv
    | false => exact Lockstep.pure hlast

theorem Lockstep.bindAll (hs : Simulates N S made made' R) (hl : Lifts (Halt.Corresponds N) R H)
    {e : ScopeId} (he : S e) {bs bs' : List (String × Value)}
    (hbs : List.Forall₂ (fun b b' => N b.1 b'.1 ∧ b.2.Corresponds N S b'.2) bs bs') :
    Lockstep H (Halt.Corresponds N) Anything (Run.bindAll e bs : EStateM Halt σ Unit)
      (Run.bindAll e bs' : EStateM Halt σ' Unit) := by
  induction hbs with
  | nil => exact Lockstep.pure trivial
  | cons hb _ ih => exact (hl (hs.declare he hb.1 hb.2)).bind fun _ _ _ => ih

/-- Are the two ways of evaluating corresponding trees in lockstep? -/
def EvaluatesAlike (N : String → String → Prop) (S : ScopeId → Prop) (H : σ → σ' → Prop)
    (self : Expr → ScopeId → EStateM Halt σ Value)
    (self' : Expr → ScopeId → EStateM Halt σ' Value) : Prop :=
  ∀ {t t' : Expr} {e : ScopeId}, t.Corresponds N S t' → S e →
    Lockstep H (Halt.Corresponds N) (Value.Corresponds N S) (self t e) (self' t' e)

variable {self : Expr → ScopeId → EStateM Halt σ Value}
  {self' : Expr → ScopeId → EStateM Halt σ' Value}

theorem forall₂_zip {ps ps' : List String} {vs vs' : List Value} (hps : List.Forall₂ N ps ps')
    (hvs : List.Forall₂ (Value.Corresponds N S) vs vs') :
    List.Forall₂ (fun b b' => N b.1 b'.1 ∧ b.2.Corresponds N S b'.2) (ps.zip vs)
      (ps'.zip vs') := by
  induction hps generalizing vs vs' with
  | nil => exact .nil
  | cons hp _ ih =>
    cases hvs with
    | nil => exact .nil
    | cons hv hvs => exact .cons ⟨hp, hv⟩ (ih hvs)

theorem Simulates.applyWith (hs : Simulates N S made made' R) (hl : Lifts (Halt.Corresponds N) R H)
    (hself : EvaluatesAlike N S H self self') {c c' : Closure} (hc : c.Corresponds N S c')
    {args args' : List Value} (hargs : List.Forall₂ (Value.Corresponds N S) args args') :
    Lockstep H (Halt.Corresponds N) (Value.Corresponds N S) (applyWith self c args)
      (applyWith self' c' args') := by
  have hlen : args.length = args'.length := hargs.length_eq
  have harity : c.arity = c'.arity := hc.arity
  unfold Featherweight.applyWith
  rw [hlen, harity]
  split
  · obtain ⟨hps, hbody, hscope⟩ := hc
    refine (hl (hs.newScope hscope)).bind fun e e' he => ?_
    obtain ⟨rfl, he⟩ := he
    exact (Lockstep.bindAll hs hl he (forall₂_zip hps hargs)).bind fun _ _ _ => hself hbody he
  · exact hl (Lockstep.throw (.same (by simp)))

theorem Simulates.evalNode (hs : Simulates N S made made' R) (hl : Lifts (Halt.Corresponds N) R H)
    (hself : EvaluatesAlike N S H self self') (n : Nat) {t t' : Expr} {e : ScopeId}
    (ht : t.Corresponds N S t') (he : S e) :
    Lockstep H (Halt.Corresponds N) (Value.Corresponds N S) (evalNode made self n e t)
      (evalNode made' self' n e t') := by
  cases ht with
  | literal hv => exact Lockstep.pure hv
  | ident hx => exact hl (hs.resolve he hx)
  | print ht =>
    refine (hself ht he).bind fun v v' hv => ?_
    exact (hl (hs.printLine hv)).bind fun _ _ _ => Lockstep.pure hv
  | binary hleft hright =>
    refine (hself hleft he).bind fun v v' hv => ?_
    exact (hself hright he).bind fun w w' hw => hl (hv.apply _ hw).ofExcept
  | ifElse hc hyes hno =>
    refine (Lockstep.condition hl _ (hself hc he)).bind fun go go' hgo => ?_
    subst hgo
    cases go with
    | true => exact hself hyes he
    | false => exact hself hno he
  | loop hc hbody =>
    exact Lockstep.iterate hl (Lockstep.condition hl _ (hself hc he)) (hself hbody he) n .null
  | seq ha hb => exact (hself ha he).bind fun _ _ _ => hself hb he
  | declare hx ht =>
    refine (hself ht he).bind fun v v' hv => ?_
    exact (hl (hs.declare he hx hv)).bind fun _ _ _ => Lockstep.pure hv
  | assign hx ht =>
    refine (hself ht he).bind fun v v' hv => ?_
    exact (hl (hs.update he hx hv)).bind fun _ _ _ => Lockstep.pure hv
  | @function site ps ps' body body' hps hbody =>
    -- Both closures capture the scope `e`, which may be looked into.
    have hc : Closure.Corresponds N S ⟨site, ps, body, e⟩ ⟨site, ps', body', e⟩ :=
      .mk hps hbody he
    exact (hl (hs.made hc)).bind fun _ _ _ => Lockstep.pure (.closure hc)
  | call hf hargs =>
    refine (hself hf he).bind fun v v' hv => ?_
    refine (hl (hv.asClosure _).ofExcept).bind fun c c' hc => ?_
    refine (Lockstep.mapM hargs fun t t' ht => hself ht he).bind fun vs vs' hvs => ?_
    exact hs.applyWith hl hself hc hvs

/-- Corresponding trees are evaluated in lockstep, by induction on the steps granted. -/
theorem Simulates.evalWith (hs : Simulates N S made made' R) (hl : Lifts (Halt.Corresponds N) R H)
    (n : Nat) : EvaluatesAlike N S H (evalWith made n : Expr → ScopeId → EStateM Halt σ Value)
      (evalWith made' n) := by
  induction n with
  | zero => exact fun _ _ => hl .exhausted
  | succ n ih => exact fun ht he => hs.evalNode hl ih n ht he

theorem Simulates.interpretWith (hs : Simulates N S made made' R)
    (hl : Lifts (Halt.Corresponds N) R H) (n : Nat) {t t' : Expr} (ht : t.Corresponds N S t')
    (hglobals : S Store.globals) :
    Lockstep H (Halt.Corresponds N) (Value.Corresponds N S)
      (interpretWith made n t : EStateM Halt σ Value) (interpretWith made' n t') := by
  refine (hs.evalWith hl n ht hglobals).bind fun v v' hv => ?_
  exact (hl hs.flush).bind fun _ _ _ => Lockstep.pure hv

end

/-! ### The evaluator and itself -/

/-- One machine on both sides, with a sink of which `P` holds. -/
def Both (P : Sink → Prop) (m m' : Machine) : Prop := m = m' ∧ P m.sink

/-- Any sink. -/
def AnySink (_ : Sink) : Prop := True

variable {P : Sink → Prop}

theorem lockstep_self {Q : α → α → Prop} (hQ : ∀ a, Q a a) {r : Run α}
    (hr : ∀ m, P m.sink → P (settle (r m)).2.sink) :
    Lockstep (Both P) (Halt.Corresponds (Only AnyName)) Q r r := by
  rintro m m' ⟨rfl, hm⟩
  replace hr := hr m hm
  generalize r m = o at hr ⊢
  cases o with
  | ok a m => exact .ok (hQ a) ⟨rfl, hr⟩
  | error h m => exact .error h.corresponds_any ⟨rfl, hr⟩

theorem Run.declare_eq (e : ScopeId) (x : String) (v : Value) (m : Machine) :
    Run.declare e x v m = if m.store.binds e x then .error (.failure (.duplicateDeclaration x)) m
      else .ok () { m with store := m.store.bind e x v } := by
  show (if m.store.binds e x then Run.fail _ else Run.change _ : Run Unit) m = _
  split <;> rfl

theorem Run.sink_printLine {text : String} {m : Machine}
    (hwrite : ∀ s bytes, P s → P (s.write bytes).2) (hm : P m.sink) :
    P (settle (Run.printLine text m)).2.sink := by
  have hwritten := hwrite m.sink (text ++ "\n").toUTF8 hm
  unfold Run.printLine
  generalize m.sink.write (text ++ "\n").toUTF8 = written at hwritten ⊢
  obtain ⟨fits, sink⟩ := written
  cases fits <;> exact hwritten

/-- The evaluator is in lockstep with itself, and keeps what holds of the sink if writing does. -/
theorem simulates_self {made : Closure → Run Unit}
    (hwrite : ∀ s bytes, P s → P (s.write bytes).2)
    (hmade : ∀ c m, P m.sink → P (settle (made c m)).2.sink) :
    Simulates (Only AnyName) AnyScope made made (Both P) where
  resolve _ hx := by
    rw [hx.1]
    exact lockstep_self Value.corresponds_any fun _ hm => hm
  update _ hx hv := by
    rw [hx.1, hv.eq]
    exact lockstep_self (fun _ => trivial) fun _ hm => hm
  declare _ hx hv := by
    rw [hx.1, hv.eq]
    refine lockstep_self (fun _ => trivial) fun m hm => ?_
    rw [Run.declare_eq]
    split <;> exact hm
  newScope _ := lockstep_self (fun _ => ⟨rfl, trivial⟩) fun _ hm => hm
  printLine hv := by
    rw [hv.eq]
    exact lockstep_self (fun _ => trivial) fun _ hm => Run.sink_printLine hwrite hm
  flush := by
    refine lockstep_self (fun _ => trivial) fun m hm => ?_
    unfold Run.flush
    split <;> exact hm
  made hc := by
    rw [hc.eq]
    exact lockstep_self (fun _ => trivial) (hmade _)

/-- The same value on both sides. -/
abbrev SameValue : Value → Value → Prop := Value.Corresponds (Only AnyName) AnyScope

/-- The evaluator is in lockstep with itself, whatever the sink. -/
theorem simulates_any (made : Closure → Run Unit) :
    Simulates (Only AnyName) AnyScope made made (Both AnySink) :=
  simulates_self (fun _ _ _ => trivial) fun _ _ _ => trivial

end Featherweight
