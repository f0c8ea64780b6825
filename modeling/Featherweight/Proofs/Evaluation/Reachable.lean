import Featherweight.Proofs.Evaluation.Extension
import Mathlib.Logic.Relation

/-!
# Hosts

A host runs programs, evaluates trees and applies closures, makes scopes and writes to them, one
request after the other, whether a request fails or not. Of scopes it has those that it was given:
the globals, new ones, and what the closures captured that it was answered with.

Whatever a host does, every scope that anything refers to exists, and lies in a forest; and no
machine passed, be it in the middle of a request, has lost a scope or a name that one before it had.
So a name can be declared in a scope but once (`Host.invariant_of_later`).
-/

namespace Featherweight

/-! ### Requests -/

/-- What a host asks for. Runs are granted so many nested steps. -/
inductive Request where
  | interpret (n : Nat) (program : Expr)
  | evaluate (n : Nat) (t : Expr) (e : ScopeId)
  | apply (n : Nat) (c : Closure) (args : List Value)
  | newRoot
  | newChild (e : ScopeId)
  | declare (e : ScopeId) (x : String) (v : Value)
  | update (e : ScopeId) (x : String) (v : Value)
  | resolve (e : ScopeId) (x : String)

/-- What a request is answered with. -/
inductive Answer where
  | value (v : Value)
  | scope (e : ScopeId)
  | done

/-- The scopes that the closures captured. -/
def captured (cs : List Closure) : List ScopeId := cs.map Closure.scope

/-- The scopes that a request is about. Programs run in the globals. -/
def Request.scopes : Request → List ScopeId
  | interpret _ t    => Store.globals :: captured t.closures
  | evaluate _ t e   => e :: captured t.closures
  | apply _ c args   => captured (c.closures ++ args.flatMap Value.closures)
  | newRoot          => []
  | newChild e       => [e]
  | declare e _ v    => e :: captured v.closures
  | update e _ v     => e :: captured v.closures
  | resolve e _      => [e]

/-- The scopes in an answer. -/
def Answer.scopes : Answer → List ScopeId
  | value v => captured v.closures
  | scope e => [e]
  | done    => []

/-- Do what is asked for. -/
def Request.perform {M : Type → Type} [Monad M] [MonadLiftT Run M] : Request → M Answer
  | interpret n t    => Answer.value <$> interpretWith Run.record n t
  | evaluate n t e   => Answer.value <$> evalWith Run.record n t e
  | apply n c args   => Answer.value <$> applyWith (evalWith Run.record n) c args
  | newRoot          => Answer.scope <$> liftM (Run.newScope none)
  | newChild e       => Answer.scope <$> liftM (Run.newScope (some e))
  | declare e x v    => (fun _ => Answer.done) <$> liftM (Run.declare e x v)
  | update e x v     => (fun _ => Answer.done) <$> liftM (Run.update e x v)
  | resolve e x      => Answer.value <$> liftM (Run.resolve e x)

/-- What a request does to a machine. -/
def Request.run (c : Request) : Run Answer := c.perform

/-- What a request does, with every machine that it passes. -/
def Request.recorded (c : Request) : Recorded Answer := c.perform

theorem Lockstep.map {σ σ' α α' : Type} {H : σ → σ' → Prop} {F : Halt → Halt → Prop}
    {Q : α → α' → Prop} {r : EStateM Halt σ α} {r' : EStateM Halt σ' α'} (hr : Lockstep H F Q r r')
    {f : α → Answer} {f' : α' → Answer} (hf : ∀ a a', Q a a' → f a = f' a') :
    Lockstep H F Eq (f <$> r) (f' <$> r') := by
  rw [← bind_pure_comp, ← bind_pure_comp]
  exact hr.bind fun a a' ha => Lockstep.pure (hf a a' ha)

/-- Keeping the machines that are passed changes neither the answer nor the machine that is left. -/
theorem Request.run_eq_recorded (c : Request) (h : History) :
    settle (c.run h.machine) =
      ((settle (c.recorded h)).1, (settle (c.recorded h)).2.machine) := by
  -- A request is simulated by itself, with every name and scope related to itself alone.
  have hself := simulates_any Run.record
  have hl : Lifts (Halt.Corresponds (Only AnyName)) (Both AnySink) At := lifts_at _
  have heval (n : Nat) : EvaluatesAlike (Only AnyName) AnyScope At
      (evalWith Run.record n : Expr → ScopeId → Recorded Value) (evalWith Run.record n) :=
    hself.evalWith hl n
  have hvalue (v v' : Value) (hv : v.Corresponds (Only AnyName) AnyScope v') :
      Answer.value v = .value v' := by rw [hv.eq]
  have hplain {α : Type} (r : Run α) : Lockstep At (Halt.Corresponds (Only AnyName)) Eq
      (liftM r : Recorded α) (liftM r : Run α) :=
    hl (lockstep_self (fun _ => rfl) fun _ _ => trivial)
  have hsame : Lockstep At (Halt.Corresponds (Only AnyName)) Eq c.recorded c.run := by
    cases c with
    | interpret n t => exact (hself.interpretWith hl n t.corresponds_any trivial).map hvalue
    | evaluate n t e => exact (heval n t.corresponds_any trivial).map hvalue
    | apply n c args =>
      have hargs : List.Forall₂ (Value.Corresponds (Only AnyName) AnyScope) args args :=
        List.forall₂_same.2 fun v _ => v.corresponds_any
      exact (hself.applyWith hl (heval n) c.corresponds_any hargs).map hvalue
    | newRoot => exact (hplain (Run.newScope none)).map fun _ _ => congrArg _
    | newChild e => exact (hplain (Run.newScope (some e))).map fun _ _ => congrArg _
    | declare e x v => exact (hplain (Run.declare e x v)).map fun _ _ _ => rfl
    | update e x v => exact (hplain (Run.update e x v)).map fun _ _ _ => rfl
    | resolve e x => exact (hplain (Run.resolve e x)).map fun _ _ => congrArg _
  exact hsame.settle_eq (fun hf => hf.eq) h

/-! ### Hosts -/

/-- A host: all machines that its requests passed, and the scopes it has. -/
structure Host where
  history : History
  held : List ScopeId

namespace Host

/-- The store of a host. -/
def store (s : Host) : Store := s.history.machine.store

/-- A host that has asked for nothing yet, which prints to `sink`. -/
def start (sink : Sink) : Host := ⟨.start ⟨.initial, sink⟩, [Store.globals]⟩

/-- A request that is answered or fails. A host makes requests about scopes that it has. -/
inductive Step : Host → Host → Prop
  | answered {s : Host} {c : Request} {a : Answer} {h : History} (hc : ∀ e ∈ c.scopes, e ∈ s.held)
      (hperform : c.recorded s.history = .ok a h) : Step s ⟨h, a.scopes ++ s.held⟩
  | failed {s : Host} {c : Request} {f : Halt} {h : History} (hc : ∀ e ∈ c.scopes, e ∈ s.held)
      (hperform : c.recorded s.history = .error f h) : Step s ⟨h, s.held⟩

/-- Any number of requests, one after the other. -/
def Later : Host → Host → Prop := Relation.ReflTransGen Step

/-- The host after a request that it makes. One that fails gives it no scopes. -/
def after (s : Host) (c : Request) : Host :=
  match c.recorded s.history with
  | .ok a h    => ⟨h, a.scopes ++ s.held⟩
  | .error _ h => ⟨h, s.held⟩

theorem step_after {s : Host} {c : Request} (hc : ∀ e ∈ c.scopes, e ∈ s.held) :
    Step s (s.after c) := by
  unfold after
  split
  · next hperform => exact .answered hc hperform
  · next hperform => exact .failed hc hperform

end Host

/-! ### Requests keep histories sound -/

variable {st : Store} {e : ScopeId}

theorem forall_mem_captured {cs : List Closure} :
    (∀ e ∈ captured cs, st.Holds e) ↔ st.HoldsAll cs := List.forall_mem_map

/-- Are the scopes in the answer scopes of the store? -/
def AnswerHeld (st : Store) (a : Answer) : Prop := ∀ e ∈ a.scopes, st.Holds e

theorem Keeps.answer {α : Type} {P : Store → α → Prop} {r : Recorded α} {f : α → Answer}
    (hr : Keeps st P r) (hf : ∀ st' a, P st' a → AnswerHeld st' (f a)) :
    Keeps st AnswerHeld (f <$> r) := by
  rw [← bind_pure_comp]
  refine hr.bind fun st₁ a _ ha => .pure fun st' hext e he => hext.holds (hf st₁ a ha e he)

theorem keeps_interpretWith (n : Nat) {t : Expr} (hglobals : st.Holds Store.globals)
    (ht : st.HoldsAll t.closures) :
    Keeps st Known (interpretWith Run.record n t : Recorded Value) := by
  exact (keeps_evalWith n hglobals ht).bind fun st₁ v _ hv => keeps_flush.answering hv

/-- Requests about scopes of the store keep histories sound, and are answered with scopes of it. -/
theorem keeps_recorded (c : Request) (hc : ∀ e ∈ c.scopes, st.Holds e) :
    Keeps st AnswerHeld c.recorded := by
  have hvalue (st' : Store) (v : Value) (hv : Known st' v) : AnswerHeld st' (.value v) :=
    forall_mem_captured.2 hv
  have hscope (st' : Store) (e : ScopeId) (he : st'.Holds e) : AnswerHeld st' (.scope e) :=
    List.forall_mem_singleton.2 he
  have hdone (st' : Store) (_ : Unit) (_ : Whatever st' ()) : AnswerHeld st' .done := nofun
  cases c with
  | interpret n t =>
    obtain ⟨hglobals, ht⟩ := List.forall_mem_cons.1 hc
    exact (keeps_interpretWith n hglobals (forall_mem_captured.1 ht)).answer hvalue
  | evaluate n t e =>
    obtain ⟨he, ht⟩ := List.forall_mem_cons.1 hc
    exact (keeps_evalWith n he (forall_mem_captured.1 ht)).answer hvalue
  | apply n c args =>
    obtain ⟨hc, hargs⟩ := Store.holdsAll_append.1 (forall_mem_captured.1 hc)
    have hargs : ∀ v ∈ args, Known st v :=
      fun v hv d hd => hargs d (List.mem_flatMap.2 ⟨v, hv, hd⟩)
    exact (keeps_applyWith (keeps_evalWith n) hc hargs).answer hvalue
  | newRoot => exact (keeps_newScope none).answer hscope
  | newChild e => exact (keeps_newScope (some e)).answer hscope
  | declare e x v =>
    obtain ⟨-, hv⟩ := List.forall_mem_cons.1 hc
    exact (keeps_declare (forall_mem_captured.1 hv)).answer hdone
  | update e x v =>
    obtain ⟨-, hv⟩ := List.forall_mem_cons.1 hc
    exact (keeps_update (forall_mem_captured.1 hv)).answer hdone
  | resolve e x => exact keeps_resolve.answer hvalue

/-! ### Hosts stay sound -/

namespace Host

/-- Is the history of the host sound, and are the scopes that it has in the store? -/
structure Sound (s : Host) : Prop where
  history : s.history.Sound
  held : ∀ e ∈ s.held, s.store.Holds e

theorem sound_start (sink : Sink) : (start sink).Sound where
  history := .start Store.closed_initial
  held := List.forall_mem_singleton.2 Nat.zero_lt_one

/-- What one request keeps. -/
theorem Step.sound {s s' : Host} (h : Step s s') (hs : s.Sound) :
    s'.Sound ∧ s.history.Leads s'.history := by
  cases h with
  | @answered c a h hc hperform =>
    have hkept := keeps_recorded c (fun e he => hs.held e (hc e he)) s.history hs.history (.refl _)
    rw [hperform] at hkept
    cases hkept with
    | ok hleads ha =>
      have hheld : ∀ e ∈ s.held, h.machine.store.Holds e :=
        fun e he => hleads.grows.holds (hs.held e he)
      exact ⟨⟨hleads.sound, List.forall_mem_append.2 ⟨ha, hheld⟩⟩, hleads⟩
  | @failed c f h hc hperform =>
    have hkept := keeps_recorded c (fun e he => hs.held e (hc e he)) s.history hs.history (.refl _)
    rw [hperform] at hkept
    cases hkept with
    | error hleads =>
      exact ⟨⟨hleads.sound, fun e he => hleads.grows.holds (hs.held e he)⟩, hleads⟩

/-- What any number of requests keep, by induction on the requests. -/
theorem Later.sound {s s' : Host} (h : s.Later s') (hs : s.Sound) :
    s'.Sound ∧ s.history.Leads s'.history := by
  induction h with
  | refl => exact ⟨hs, .refl hs.history⟩
  | tail _ hstep ih =>
    obtain ⟨hs₁, hleads⟩ := ih
    obtain ⟨hs', hleads'⟩ := hstep.sound hs₁
    exact ⟨hs', hleads.trans hleads'⟩

/-- The machine that more requests end at was passed after the one that they began with. -/
theorem Later.sublist_passed {s s' : Host} (h : s.Later s') (hs : s.Sound)
    (hlen : s.history.passed.length < s'.history.passed.length) :
    [s'.history.machine, s.history.machine].Sublist s'.history.passed := by
  obtain ⟨hs', hleads⟩ := h.sound hs
  have hcurrent := hs'.history.current
  obtain ⟨new, hnew⟩ := hleads.passed
  cases new with
  | nil => exact absurd (congrArg List.length hnew) (Nat.ne_of_lt hlen)
  | cons m new =>
    rw [← hnew] at hcurrent ⊢
    obtain rfl := Option.some.inj hcurrent
    have hbegan : s.history.machine ∈ new ++ s.history.passed :=
      List.mem_append_right new (List.mem_of_head? hs.history.current)
    exact (List.singleton_sublist.2 hbegan).cons_cons _

end Host

/-! ### Forests -/

/-- The scopes that a store refers to: those around its scopes, and those captured by a closure that
is bound, or by one that stands in the body of such a closure. -/
inductive Store.Refers (st : Store) : ScopeId → Prop
  | around {e p : ScopeId} (hp : st.parent? e = some p) : st.Refers p
  | captured {e : ScopeId} {x : String} {v : Value} {c : Closure} (hx : st.local? e x = some v)
      (hc : c ∈ v.closures) : st.Refers c.scope

/-- The links outward from the scope pass scopes of the store, and end at one with none around
it. -/
inductive Store.Rooted (st : Store) : ScopeId → Prop
  | root {e : ScopeId} (he : st.Holds e) (hp : st.parent? e = none) : st.Rooted e
  | inside {e p : ScopeId} (he : st.Holds e) (hp : st.parent? e = some p) (h : st.Rooted p) :
      st.Rooted e

theorem Store.rooted_of_holds (he : st.Holds e) : st.Rooted e := by
  induction e using st.outward_induction with
  | root e hp => exact .root he hp
  | inside e p hp ih => exact .inside he hp (ih (st.holds_parent? hp).2)

theorem Store.Closed.rooted_of_refers (h : st.Closed) (he : st.Refers e) : st.Rooted e := by
  apply rooted_of_holds
  cases he with
  | around hp => exact (st.holds_parent? hp).2
  | captured hx hc => exact h _ _ _ hx _ hc

/-! ### Declarations -/

/-- A name that the scope binds is refused, and nothing changes. -/
theorem Run.declare_of_binds {m : Machine} {x : String} (h : m.store.binds e x = true)
    (v : Value) : Run.declare e x v m = .error (.failure (.duplicateDeclaration x)) m := by
  rw [Run.declare_eq, if_pos h]

/-- After a name was declared the scope binds it. -/
theorem Run.binds_of_declare {m m' : Machine} {x : String} {v : Value} (he : m.store.Holds e)
    (h : Run.declare e x v m = .ok () m') : m'.store.binds e x = true := by
  rw [Run.declare_eq] at h
  split at h
  · cases h
  · cases h
    exact m.store.binds_bind e x v he

/-- Whatever a host asks for, the scopes that it has, and those that any store refers to which it
passes, are there and lie in a forest. Stores come one from the other by growing only, in the middle
of a request as well, so that a name that was declared in a scope is refused there ever after. -/
theorem Host.invariant_of_later {sink : Sink} {s : Host} (hs : (Host.start sink).Later s) :
    (∀ e ∈ s.held, s.store.Rooted e) ∧
      s.history.passed.head? = some s.history.machine ∧
      (∀ m ∈ s.history.passed, ∀ e, m.store.Refers e → m.store.Rooted e) ∧
      (∀ s', s.Later s' → s.store.Extends s'.store ∧ s.history.passed <:+ s'.history.passed) ∧
      (∀ m m', [m', m].Sublist s.history.passed → m.store.Extends m'.store) ∧
      ∀ e x v v' m m₁ m', m.store.Holds e → Run.declare e x v m = .ok () m₁ →
        (m' = m₁ ∨ [m', m₁].Sublist s.history.passed) →
          Run.declare e x v' m' = .error (.failure (.duplicateDeclaration x)) m' := by
  obtain ⟨hsound, -⟩ := hs.sound (sound_start sink)
  have hgrows : ∀ m m', [m', m].Sublist s.history.passed → m.store.Extends m'.store :=
    fun m m' => List.pairwise_iff_forall_sublist.1 hsound.history.grows
  refine ⟨fun e he => Store.rooted_of_holds (hsound.held e he), hsound.history.current,
    fun m hm e he => (hsound.history.closed m hm).rooted_of_refers he, fun s' hs' => ?_, hgrows,
    fun e x v v' m m₁ m' he hdeclare hm' => ?_⟩
  · obtain ⟨-, hleads⟩ := hs'.sound hsound
    exact ⟨hleads.grows, hleads.passed⟩
  · -- The machine that the declaration leaves binds the name, and so does every later one.
    have hbinds := Run.binds_of_declare he hdeclare
    rcases hm' with rfl | hm'
    · exact Run.declare_of_binds hbinds v'
    · exact Run.declare_of_binds ((hgrows m₁ m' hm').binds hbinds) v'

namespace Host

/-- The closure that `function() { y = function() { x; }; x / 0; }` makes in the scope `1`. -/
def leavesClosure : Closure :=
  ⟨0, [], .seq (.assign "y" (.function 1 [] (.ident "x")))
    (.binary .divide (.ident "x") (.int 0)), 1⟩

/-- A host that made a scope inside the globals. -/
def withChild : Host := (start .unlimited).after (.newChild Store.globals)

/-- The host once it declared `x` in the scope. -/
def withName : Host := withChild.after (.declare 1 "x" (.int 7))

/-- The host once it was answered with the closure. -/
def withClosure : Host := withName.after (.evaluate 1 (.function 0 [] leavesClosure.body) 1)

/-- The host once it applied the closure. -/
def withFailure : Host := withClosure.after (.apply 9 leavesClosure [])

/-- The call fails, but leaves a closure behind that captured its frame. The frame, the scope around
it and the globals lie in a forest, and `x` stays declared. -/
theorem rooted_withFailure : (start .unlimited).Later withFailure ∧
    (Request.apply 9 leavesClosure []).recorded withClosure.history =
      .error (.failure .divisionByZero) withFailure.history ∧
    (∀ e ∈ [1, Store.globals], withFailure.store.Rooted e) ∧
    withFailure.store.Refers 2 ∧ withFailure.store.Rooted 2 ∧
    ∀ v, Run.declare 1 "x" v withFailure.history.machine =
      .error (.failure (.duplicateDeclaration "x")) withFailure.history.machine := by
  have hname : (start .unlimited).Later withName :=
    .tail (.single (step_after (by decide))) (step_after (by decide +kernel))
  have hfailure : withName.Later withFailure :=
    .tail (.single (step_after (by decide +kernel))) (step_after (by decide +kernel))
  have hfails : (Request.apply 9 leavesClosure []).recorded withClosure.history =
      .error (.failure .divisionByZero) withFailure.history := by
    have hends : (settle ((Request.apply 9 leavesClosure []).recorded withClosure.history)).1.map
        (fun _ => ()) = .error (.failure .divisionByZero) := by decide +kernel
    unfold withFailure after
    cases hr : (Request.apply 9 leavesClosure []).recorded withClosure.history with
    | ok a h => rw [hr] at hends; cases hends
    | error f h => rw [hr] at hends; cases hends; rfl
  have hcaptured : ((withFailure.store.local? Store.globals "y").map fun v =>
      captured v.closures) = some [2] := by decide +kernel
  have hrefers : withFailure.store.Refers 2 := by
    obtain ⟨v, hv, hscopes⟩ := Option.map_eq_some_iff.1 hcaptured
    obtain ⟨c, hc, hscope⟩ := List.mem_map.1 (hscopes ▸ List.mem_singleton_self 2)
    exact hscope ▸ .captured hv hc
  have hchild : withChild.history.machine.store.Holds 1 := by
    show 1 < withChild.store.scopes.size
    decide +kernel
  have hdeclare : Run.declare 1 "x" (.int 7) withChild.history.machine =
      .ok () withName.history.machine := by with_unfolding_all rfl
  have hsince : [withFailure.history.machine, withName.history.machine].Sublist
      withFailure.history.passed :=
    hfailure.sublist_passed (hname.sound (sound_start _)).1 (by decide +kernel)
  have hall : ∀ e ∈ [1, Store.globals], e ∈ withFailure.held := by decide +kernel
  obtain ⟨hheld, hcurrent, hrooted, -, -, hrefused⟩ :=
    Host.invariant_of_later (hname.trans hfailure)
  exact ⟨hname.trans hfailure, hfails, fun e he => hheld e (hall e he), hrefers,
    hrooted _ (List.mem_of_head? hcurrent) 2 hrefers,
    fun v => hrefused _ _ _ v _ _ _ hchild hdeclare (.inr hsince)⟩

end Host

end Featherweight
