import Featherweight.Proofs.Evaluation.Extension

/-!
# What evaluation maintains

An invariant of states, and what the states that come after one another have to do with each other,
make a course (`Course`). A run keeps to it if it leads from any good state to a good one, however
it ends (`Course.Keeps`). What is known of an answer then has to stay true in all later states.

The evaluator keeps to a course if all that it does to a state does (`Course.Maintains`), where `K`
is what is known of values, and `T` of trees that are evaluated in a scope. The case of a call is
stated apart, for any way to apply a closure (`callWith`).
-/

namespace Featherweight

variable {α β σ : Type}

/-- The good states, and when one of them leads to another. -/
structure Course (σ : Type) where
  Good : σ → Prop
  Leads : σ → σ → Prop
  refl : ∀ {s : σ}, Good s → Leads s s
  trans : ∀ {s s' s'' : σ}, Leads s s' → Leads s' s'' → Leads s s''
  good : ∀ {s s' : σ}, Leads s s' → Good s'

namespace Course

variable {C : Course σ} {s s' : σ}

/-- Does the state lead to that of the result, and does `P` hold of the answer there? -/
inductive Kept (C : Course σ) (s : σ) (P : σ → α → Prop) : EStateM.Result Halt σ α → Prop
  | ok {a : α} {s' : σ} (hs : C.Leads s s') (ha : P s' a) : Kept C s P (.ok a s')
  | error {f : Halt} {s' : σ} (hs : C.Leads s s') : Kept C s P (.error f s')

theorem Kept.leads {P : σ → α → Prop} {o : EStateM.Result Halt σ α} (h : C.Kept s P o) :
    C.Leads s (settle o).2 := by
  cases h with
  | ok hs _ => exact hs
  | error hs => exact hs

/-- Does the run keep to the course from every state that `s` leads to, with answers of which `P`
holds? -/
def Keeps (C : Course σ) (s : σ) (P : σ → α → Prop) (r : EStateM Halt σ α) : Prop :=
  ∀ s', C.Leads s s' → C.Kept s' P (r s')

/-- An answer that says nothing. -/
def Whatever (_ : σ) (_ : α) : Prop := True

namespace Keeps

variable {P : σ → α → Prop} {Q : σ → β → Prop} {r : EStateM Halt σ α} {f : α → EStateM Halt σ β}

theorem later (hr : C.Keeps s P r) (hs : C.Leads s s') : C.Keeps s' P r :=
  fun s'' hs' => hr s'' (C.trans hs hs')

theorem pure {a : α} (ha : ∀ s', C.Leads s s' → P s' a) :
    C.Keeps s P (Pure.pure a : EStateM Halt σ α) :=
  fun s' hs => .ok (C.refl (C.good hs)) (ha s' hs)

theorem bind (hr : C.Keeps s P r)
    (hf : ∀ s' a, C.Leads s s' → P s' a → C.Keeps s' Q (f a)) : C.Keeps s Q (r >>= f) := by
  intro s₁ hs₁
  show C.Kept s₁ Q (EStateM.bind r f s₁)
  unfold EStateM.bind
  have hkept := hr s₁ hs₁
  generalize r s₁ = o at hkept
  cases hkept with
  | error hs₂ => exact .error hs₂
  | @ok a s₂ hs₂ ha =>
    -- The second run starts where the first one has led, and knows of `a` what holds there.
    have hkept' := hf s₂ a (C.trans hs₁ hs₂) ha s₂ (C.refl (C.good hs₂))
    show C.Kept s₁ Q (f a s₂)
    generalize f a s₂ = o at hkept'
    cases hkept' with
    | ok hs₃ hb => exact .ok (C.trans hs₂ hs₃) hb
    | error hs₃ => exact .error (C.trans hs₂ hs₃)

end Keeps

/-! ### The evaluator -/

variable [MonadLiftT Run (EStateM Halt σ)] {K : σ → Value → Prop}
  {T : σ → ScopeId → Expr → Prop} {made : Closure → Run Unit}
  {self : Expr → ScopeId → EStateM Halt σ Value}

/-- Declaring names one after the other keeps to the course, if declaring each of them does. -/
theorem Keeps.bindAll {e : ScopeId} {bindings : List (String × Value)}
    (hb : ∀ b ∈ bindings,
      C.Keeps s Whatever (liftM (Run.declare e b.1 b.2) : EStateM Halt σ Unit)) :
    C.Keeps s Whatever (Run.bindAll e bindings : EStateM Halt σ Unit) := by
  induction bindings generalizing s with
  | nil => exact .pure fun _ _ => trivial
  | cons b bindings ih =>
    obtain ⟨hfirst, hrest⟩ := List.forall_mem_cons.1 hb
    exact hfirst.bind fun _ _ hs _ => ih fun d hd => (hrest d hd).later hs

/-- Does all that the evaluator does to a state keep to the course? What `K` says of a value, and
`T` of a tree in a scope, stays true and is handed on to the trees below. -/
structure Maintains (C : Course σ) (K : σ → Value → Prop) (T : σ → ScopeId → Expr → Prop)
    (made : Closure → Run Unit) : Prop where
  value : ∀ {s s' : σ} {v : Value}, C.Leads s s' → K s v → K s' v
  plain : ∀ {s : σ} {v : Value}, v.closures = [] → K s v
  tree : ∀ {s s' : σ} {e : ScopeId} {t : Expr}, C.Leads s s' → T s e t → T s' e t
  ofExcept : ∀ {α : Type} {P : σ → α → Prop} {s : σ} {o : Except RuntimeError α},
    (∀ s' a, C.Leads s s' → o = .ok a → P s' a) → C.Keeps s P (liftM (Run.ofExcept o))
  exhausted : ∀ {s : σ}, C.Keeps s K (liftM (Run.exhausted : Run Value))
  literal : ∀ {s : σ} {e : ScopeId} {v : Value}, T s e (.literal v) → K s v
  ident : ∀ {s : σ} {e : ScopeId} {x : String}, T s e (.ident x) →
    C.Keeps s K (liftM (Run.resolve e x))
  print : ∀ {s : σ} {e : ScopeId} {t : Expr}, T s e (.print t) → T s e t
  printLine : ∀ {s : σ} (text : String), C.Keeps s Whatever (liftM (Run.printLine text))
  binary : ∀ {s : σ} {e : ScopeId} {op : BinaryOp} {l r : Expr}, T s e (.binary op l r) →
    T s e l ∧ T s e r
  ifElse : ∀ {s : σ} {e : ScopeId} {c yes no : Expr}, T s e (.ifElse c yes no) →
    T s e c ∧ T s e yes ∧ T s e no
  loop : ∀ {s : σ} {e : ScopeId} {c body : Expr}, T s e (.loop c body) → T s e c ∧ T s e body
  seq : ∀ {s : σ} {e : ScopeId} {a b : Expr}, T s e (.seq a b) → T s e a ∧ T s e b
  declare : ∀ {s : σ} {e : ScopeId} {x : String} {t : Expr}, T s e (.declare x t) → T s e t ∧
    ∀ s' v, C.Leads s s' → K s' v → C.Keeps s' Whatever (liftM (Run.declare e x v))
  assign : ∀ {s : σ} {e : ScopeId} {x : String} {t : Expr}, T s e (.assign x t) → T s e t ∧
    ∀ s' v, C.Leads s s' → K s' v → C.Keeps s' Whatever (liftM (Run.update e x v))
  function : ∀ {s : σ} {e : ScopeId} {site : Site} {ps : List String} {body : Expr},
    T s e (.function site ps body) →
      C.Keeps s (fun s' _ => K s' (.closure ⟨site, ps, body, e⟩))
        (liftM (made ⟨site, ps, body, e⟩))
  call : ∀ {s : σ} {e : ScopeId} {f : Expr} {args : List Expr}, T s e (.call f args) →
    T s e f ∧ ∀ t ∈ args, T s e t

/-- Does evaluating a tree keep to the course wherever `T` holds of it? -/
def KeepsAll (C : Course σ) (K : σ → Value → Prop) (T : σ → ScopeId → Expr → Prop)
    (self : Expr → ScopeId → EStateM Halt σ Value) : Prop :=
  ∀ {s : σ} {t : Expr} {e : ScopeId}, T s e t → C.Keeps s K (self t e)

/-- The value of a call, given how to evaluate trees and how to apply a closure. -/
@[inline] def callWith {M : Type → Type} [Monad M] [MonadLiftT Run M]
    (self : Expr → ScopeId → M Value) (applyTo : Closure → List Value → M Value) (e : ScopeId)
    (f : Expr) (args : List Expr) : M Value := do
  let v ← self f e
  let c ← liftM (Run.ofExcept (v.asClosure .callee))
  let vs ← args.mapM fun t => self t e
  applyTo c vs

/-- Does applying a closure keep to the course, if it and the arguments are known? -/
def AppliesAll (C : Course σ) (K : σ → Value → Prop)
    (applyTo : Closure → List Value → EStateM Halt σ Value) : Prop :=
  ∀ {s : σ} {c : Closure} {vs : List Value}, K s (.closure c) → (∀ v ∈ vs, K s v) →
    C.Keeps s K (applyTo c vs)

namespace Maintains

variable (hm : C.Maintains K T made)

include hm

theorem answering {r : EStateM Halt σ Unit} {v : Value} (hr : C.Keeps s Whatever r)
    (hv : K s v) : C.Keeps s K (r >>= fun _ => Pure.pure v) :=
  hr.bind fun _ _ hs _ => .pure fun _ hs' => hm.value (C.trans hs hs') hv

theorem condition (place : Place) {r : EStateM Halt σ Value} (hr : C.Keeps s K r) :
    C.Keeps s Whatever (Run.condition place r) :=
  hr.bind fun _ _ _ _ => hm.ofExcept fun _ _ _ _ => trivial

theorem iterate {guard : EStateM Halt σ Bool} {body : EStateM Halt σ Value}
    (hguard : C.Keeps s Whatever guard) (hbody : C.Keeps s K body) (n : Nat) {last : Value}
    (hlast : K s last) : C.Keeps s K (Run.iterate guard body n last) := by
  induction n generalizing s last with
  | zero => exact hm.exhausted
  | succ n ih =>
    refine hguard.bind fun s₁ go hs₁ _ => ?_
    cases go with
    | false => exact .pure fun _ hs => hm.value (C.trans hs₁ hs) hlast
    | true =>
      -- The rest of the loop goes on from a later state, in which the same is known.
      refine (hbody.later hs₁).bind fun s₂ v hs₂ hv => ?_
      have hs := C.trans hs₁ hs₂
      exact ih (hguard.later hs) (hbody.later hs) hv

theorem mapM (hself : C.KeepsAll K T self) {e : ScopeId} {args : List Expr}
    (hargs : ∀ t ∈ args, T s e t) :
    C.Keeps s (fun s' vs => ∀ v ∈ vs, K s' v) (args.mapM fun t => self t e) := by
  induction args generalizing s with
  | nil => exact .pure fun _ _ => nofun
  | cons t args ih =>
    obtain ⟨ht, hargs⟩ := List.forall_mem_cons.1 hargs
    rw [List.mapM_cons]
    refine (hself ht).bind fun s₁ v hs₁ hv => ?_
    refine (ih fun u hu => hm.tree hs₁ (hargs u hu)).bind fun s₂ vs hs₂ hvs => ?_
    exact .pure fun s' hs' => List.forall_mem_cons.2
      ⟨hm.value (C.trans hs₂ hs') hv, fun v hv => hm.value hs' (hvs v hv)⟩

/-- A call keeps to the course, if evaluating the trees below and applying a closure do. -/
theorem callWith (hself : C.KeepsAll K T self)
    {applyTo : Closure → List Value → EStateM Halt σ Value} (happly : C.AppliesAll K applyTo)
    {e : ScopeId} {f : Expr} {args : List Expr} (ht : T s e (.call f args)) :
    C.Keeps s K (callWith self applyTo e f args) := by
  obtain ⟨hf, hargs⟩ := hm.call ht
  refine (hself hf).bind fun s₁ v hs₁ hv => ?_
  have hclosure : C.Keeps s₁ (fun _ c => v = .closure c)
      (liftM (Run.ofExcept (v.asClosure .callee))) := by
    refine hm.ofExcept fun _ c _ hc => ?_
    cases v <;> cases hc
    rfl
  refine hclosure.bind fun s₂ c hs₂ hc => ?_
  subst hc
  have hs := C.trans hs₁ hs₂
  refine (hm.mapM hself fun t ht => hm.tree hs (hargs t ht)).bind fun s₃ vs hs₃ hvs => ?_
  exact happly (hm.value (C.trans hs₂ hs₃) hv) hvs

/-- One step keeps to the course, if evaluating the trees below does, and applying a closure if the
step is a call. -/
theorem evalNode (hself : C.KeepsAll K T self) (n : Nat) {e : ScopeId} {t : Expr} (ht : T s e t)
    (happly : ∀ f args, t = .call f args → C.AppliesAll K (applyWith self)) :
    C.Keeps s K (evalNode made self n e t) := by
  cases t with
  | literal v => exact .pure fun _ hs => hm.value hs (hm.literal ht)
  | ident x => exact hm.ident ht
  | print t =>
    refine (hself (hm.print ht)).bind fun s₁ v hs₁ hv => ?_
    exact hm.answering (hm.printLine _) hv
  | binary op l r =>
    obtain ⟨hl, hr⟩ := hm.binary ht
    refine (hself hl).bind fun s₁ v hs₁ _ => (hself (hm.tree hs₁ hr)).bind fun s₂ w _ _ => ?_
    exact hm.ofExcept fun _ u _ hu => hm.plain (BinaryOp.closures_of_apply hu)
  | ifElse c yes no =>
    obtain ⟨hc, hyes, hno⟩ := hm.ifElse ht
    refine (hm.condition _ (hself hc)).bind fun s₁ go hs₁ _ => ?_
    cases go with
    | true => exact hself (hm.tree hs₁ hyes)
    | false => exact hself (hm.tree hs₁ hno)
  | loop c body =>
    obtain ⟨hc, hbody⟩ := hm.loop ht
    exact hm.iterate (hm.condition _ (hself hc)) (hself hbody) n (hm.plain rfl)
  | seq a b =>
    obtain ⟨ha, hb⟩ := hm.seq ht
    exact (hself ha).bind fun s₁ _ hs₁ _ => hself (hm.tree hs₁ hb)
  | declare x t =>
    obtain ⟨ht, hdeclare⟩ := hm.declare ht
    exact (hself ht).bind fun s₁ v hs₁ hv => hm.answering (hdeclare s₁ v hs₁ hv) hv
  | assign x t =>
    obtain ⟨ht, hupdate⟩ := hm.assign ht
    exact (hself ht).bind fun s₁ v hs₁ hv => hm.answering (hupdate s₁ v hs₁ hv) hv
  | function site ps body =>
    exact (hm.function ht).bind fun _ _ _ hc => .pure fun _ hs => hm.value hs hc
  | call f args => exact hm.callWith hself (happly f args rfl) ht

end Maintains

end Course

end Featherweight
