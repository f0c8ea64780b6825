import Featherweight.Proofs.Evaluation.Course
import Featherweight.Proofs.Evaluation.Reachable

/-!
# The scopes that calls make

Applying a closure makes a scope, its frame. A ledger keeps, beside the machines that were passed,
every frame with the closure that it was made for (`Ledger`); keeping it changes nothing else
(`Request.recorded_eq_tracked`).

In a frame are the parameters of its closure and what the body of the closure declares, and no other
name ever (`Ledger.locals_of_later`): only the body is evaluated in the frame, and whatever else
writes to it, as an assignment or to record a closure, finds the name there already or goes to the
root.
-/

namespace Featherweight

/-! ### Declared names -/

mutual

/-- The names that the tree declares where it is evaluated, which those in the bodies of functions
are not. -/
def Expr.declared : Expr → List String
  | .literal _       => []
  | .ident _         => []
  | .print t         => t.declared
  | .binary _ l r    => l.declared ++ r.declared
  | .ifElse c yes no => c.declared ++ yes.declared ++ no.declared
  | .loop c body     => c.declared ++ body.declared
  | .seq a b         => a.declared ++ b.declared
  | .declare x t     => x :: t.declared
  | .assign _ t      => t.declared
  | .function _ _ _  => []
  | .call f args     => f.declared ++ declaredByArgs args

/-- The names that arguments declare where they are evaluated. -/
def declaredByArgs : List Expr → List String
  | []        => []
  | t :: args => t.declared ++ declaredByArgs args

end

/-- The names that the frame of a call of the closure may bind. -/
def Closure.frameNames (c : Closure) : List String := c.params ++ c.body.declared

/-! ### Ledgers -/

/-- What a run passed, and the frames that were made for calls, each with the closure called. -/
structure Ledger where
  history : History
  frames : List (ScopeId × Closure)

/-- A run that keeps a ledger. -/
abbrev Tracked := EStateM Halt Ledger

instance : MonadLift Recorded Tracked where
  monadLift r l :=
    match r l.history with
    | .ok a h    => .ok a { l with history := h }
    | .error e h => .error e { l with history := h }

namespace Ledger

/-- The store that the run is at. -/
def store (l : Ledger) : Store := l.history.machine.store

/-- The ledger of a run that has not begun. -/
def start (m : Machine) : Ledger := ⟨.start m, []⟩

/-- Make the frame for a call of the closure. -/
def newFrame (c : Closure) : Tracked ScopeId := do
  let frame ← liftM (Run.newScope (some c.scope))
  modifyGet fun l => (frame, { l with frames := (frame, c) :: l.frames })

end Ledger

/-- The value of a closure applied to arguments, given how to evaluate its body. The frame is
kept. -/
def applyTracked (self : Expr → ScopeId → Tracked Value) (c : Closure) (args : List Value) :
    Tracked Value := do
  if args.length = c.arity then
    let frame ← Ledger.newFrame c
    Run.bindAll frame (c.params.zip args)
    self c.body frame
  else liftM (Run.fail (.arityMismatch c.arity args.length) : Run Value)

/-- One step, given how to evaluate other trees. The frame of a call is kept. -/
def nodeTracked (self : Expr → ScopeId → Tracked Value) (n : Nat) (e : ScopeId) :
    Expr → Tracked Value
  | .call f args => Course.callWith self (applyTracked self) e f args
  | t            => evalNode Run.record self n e t

theorem nodeTracked_of_not_call {t : Expr} (h : ¬ ∃ f args, t = .call f args)
    (self : Expr → ScopeId → Tracked Value) (n : Nat) (e : ScopeId) :
    nodeTracked self n e t = evalNode Run.record self n e t := by
  cases t with
  | call f args => exact absurd ⟨f, args, rfl⟩ h
  | _ => rfl

/-- The value of a tree in a scope within `n` nested steps, with the frames of all calls kept. -/
def evalTracked : Nat → Expr → ScopeId → Tracked Value
  | 0, _, _     => Run.exhausted
  | n + 1, t, e => nodeTracked (evalTracked n) n e t

/-- The value of a program in the globals, with the frames of all calls kept. -/
def interpretTracked (n : Nat) (program : Expr) : Tracked Value := do
  let v ← evalTracked n program Store.globals
  liftM Run.flush
  return v

/-- What a request does, with the frames of all calls kept. -/
def Request.tracked : Request → Tracked Answer
  | interpret n t  => Answer.value <$> interpretTracked n t
  | evaluate n t e => Answer.value <$> evalTracked n t e
  | apply n c args => Answer.value <$> applyTracked (evalTracked n) c args
  | c              => c.perform

/-! ### Keeping a ledger changes nothing -/

/-- Is the ledger at that history? -/
def Ledger.At (l : Ledger) (h : History) : Prop := l.history = h

theorem lifts_ledger (F : Halt → Halt → Prop) : Lifts F (Both AnySink) Ledger.At := by
  rintro α α' Q r r' hr l h rfl
  show ResultsAgree _ _ _ (MonadLift.monadLift (n := Tracked)
    (MonadLift.monadLift (n := Recorded) r) l) (MonadLift.monadLift (n := Recorded) r' l.history)
  have hresult := hr l.history.machine l.history.machine ⟨rfl, trivial⟩
  simp only [MonadLift.monadLift]
  generalize r l.history.machine = o at hresult ⊢
  generalize r' l.history.machine = o' at hresult ⊢
  cases hresult with
  | ok ha hm => exact .ok ha (by rw [Ledger.At, hm.1])
  | error he hm => exact .error he (by rw [Ledger.At, hm.1])

/-- Corresponding answers and failures of runs that keep a ledger, and of those that do not. -/
abbrev Forgets {α : Type} (Q : α → α → Prop) (r : Tracked α) (r' : Recorded α) : Prop :=
  Lockstep Ledger.At (Halt.Corresponds (Only AnyName)) Q r r'

theorem forgets_applyTracked {self : Expr → ScopeId → Tracked Value}
    {self' : Expr → ScopeId → Recorded Value}
    (hself : EvaluatesAlike (Only AnyName) AnyScope Ledger.At self self') (c : Closure)
    {args args' : List Value} (hargs : List.Forall₂ SameValue args args') :
    Forgets SameValue (applyTracked self c args) (applyWith self' c args') := by
  have hframe : Forgets Eq (Ledger.newFrame c)
      (liftM (Run.newScope (some c.scope)) : Recorded ScopeId) := by
    rintro l h rfl
    exact .ok rfl rfl
  have hps : List.Forall₂ (Only AnyName) c.params c.params :=
    List.forall₂_same.2 fun _ _ => ⟨rfl, trivial⟩
  unfold applyTracked applyWith
  rw [hargs.length_eq]
  split
  · refine Lockstep.bind hframe fun e e' he => ?_
    subst he
    have hbind := Lockstep.bindAll (simulates_any Run.record) (lifts_ledger _) (e := e) trivial
      (forall₂_zip hps hargs)
    exact hbind.bind fun _ _ _ => hself c.body.corresponds_any trivial
  · exact lifts_ledger _ (Lockstep.throw (.same (by simp)))

theorem forgets_evalTracked (n : Nat) :
    EvaluatesAlike (Only AnyName) AnyScope Ledger.At (evalTracked n)
      (evalWith Run.record n : Expr → ScopeId → Recorded Value) := by
  induction n with
  | zero => exact fun _ _ => lifts_ledger _ .exhausted
  | succ n ih =>
    intro t t' e ht he
    obtain rfl := ht.eq
    by_cases hcall : ∃ f args, t = .call f args
    · obtain ⟨f, args, rfl⟩ := hcall
      refine (ih f.corresponds_any he).bind fun v v' hv => ?_
      refine (lifts_ledger _ (hv.asClosure _).ofExcept).bind fun c c' hc => ?_
      have hargs : List.Forall₂ (Expr.Corresponds (Only AnyName) AnyScope) args args :=
        List.forall₂_same.2 fun t _ => t.corresponds_any
      refine (Lockstep.mapM hargs fun t t' ht => ih ht he).bind fun vs vs' hvs => ?_
      rw [← hc.eq]
      exact forgets_applyTracked ih c hvs
    · rw [evalTracked, nodeTracked_of_not_call hcall]
      exact (simulates_any Run.record).evalNode (lifts_ledger _) ih n t.corresponds_any he

theorem forgets_interpretTracked (n : Nat) (t : Expr) :
    Forgets SameValue (interpretTracked n t) (interpretWith Run.record n t) := by
  refine (forgets_evalTracked n t.corresponds_any trivial).bind fun v v' hv => ?_
  exact (lifts_ledger _ (simulates_any Run.record).flush).bind fun _ _ _ => Lockstep.pure hv

/-- Keeping the frames changes neither the answer nor what was passed. -/
theorem Request.recorded_eq_tracked (c : Request) (l : Ledger) :
    settle (c.recorded l.history) =
      ((settle (c.tracked l)).1, (settle (c.tracked l)).2.history) := by
  have hvalue (v v' : Value) (hv : SameValue v v') : Answer.value v = .value v' := by rw [hv.eq]
  have hplain {α : Type} (r : Run α) : Forgets Eq (liftM r : Tracked α) (liftM r : Recorded α) :=
    lifts_ledger _ (lockstep_self (fun _ => rfl) fun _ _ => trivial)
  have hsame : Forgets Eq c.tracked c.recorded := by
    cases c with
    | interpret n t => exact (forgets_interpretTracked n t).map hvalue
    | evaluate n t e => exact (forgets_evalTracked n t.corresponds_any trivial).map hvalue
    | apply n c args =>
      have hargs : List.Forall₂ SameValue args args :=
        List.forall₂_same.2 fun v _ => v.corresponds_any
      exact (forgets_applyTracked (forgets_evalTracked n) c hargs).map hvalue
    | newRoot => exact (hplain (Run.newScope none)).map fun _ _ => congrArg _
    | newChild e => exact (hplain (Run.newScope (some e))).map fun _ _ => congrArg _
    | declare e x v => exact (hplain (Run.declare e x v)).map fun _ _ _ => rfl
    | update e x v => exact (hplain (Run.update e x v)).map fun _ _ _ => rfl
    | resolve e x => exact (hplain (Run.resolve e x)).map fun _ _ => congrArg _
  exact hsame.settle_eq (fun hf => hf.eq) l

/-! ### What frames bind -/

/-- Is the scope inside another one, and does it bind names that the frame of a call of the closure
may bind, and no others? -/
structure Store.Confines (st : Store) (f : ScopeId) (c : Closure) : Prop where
  inside : ∃ p, st.parent? f = some p
  names : ∀ x, st.binds f x = true → x ∈ c.frameNames

theorem Store.Confines.holds {st : Store} {f : ScopeId} {c : Closure} (h : st.Confines f c) :
    st.Holds f := by
  obtain ⟨p, hp⟩ := h.inside
  exact (st.holds_parent? hp).1

namespace Ledger

/-- Are all frames confined, and the histories sound? -/
structure Sound (l : Ledger) : Prop where
  history : l.history.Sound
  confined : ∀ f c, (f, c) ∈ l.frames → l.store.Confines f c

/-- May `x` be declared in the scope `e`? It may in any scope but a frame that must not bind it. -/
def Allows (l : Ledger) (e : ScopeId) (x : String) : Prop :=
  ∀ c, (e, c) ∈ l.frames → x ∈ c.frameNames

/-- Does a ledger go on with another one, in which every new scope is a new frame? -/
structure Leads (l l' : Ledger) : Prop where
  sound : l'.Sound
  history : l.history.Leads l'.history
  frames : ∃ new, l'.frames = new ++ l.frames ∧ ∀ f c, (f, c) ∈ new → ¬ l.store.Holds f
  complete : ∀ e, l'.store.Holds e → l.store.Holds e ∨ ∃ c, (e, c) ∈ l'.frames

variable {l l' l'' : Ledger} {e : ScopeId}

theorem Leads.refl (h : l.Sound) : l.Leads l :=
  ⟨h, .refl h.history, ⟨[], rfl, nofun⟩, fun _ => .inl⟩

theorem Leads.grows (h : l.Leads l') : l.store.Extends l'.store := h.history.grows

theorem Leads.subset (h : l.Leads l') : l.frames ⊆ l'.frames := by
  obtain ⟨new, hnew, -⟩ := h.frames
  rw [hnew]
  exact List.subset_append_right _ _

theorem Leads.trans (h : l.Leads l') (h' : l'.Leads l'') : l.Leads l'' where
  sound := h'.sound
  history := h.history.trans h'.history
  frames := by
    obtain ⟨new, hnew, hfresh⟩ := h.frames
    obtain ⟨new', hnew', hfresh'⟩ := h'.frames
    refine ⟨new' ++ new, by rw [hnew', hnew, List.append_assoc], fun f c hmem => ?_⟩
    rcases List.mem_append.1 hmem with hmem | hmem
    · exact fun hf => hfresh' f c hmem (h.grows.holds hf)
    · exact hfresh f c hmem
  complete e he := by
    rcases h'.complete e he with he' | he'
    · exact (h.complete e he').imp_right fun ⟨c, hc⟩ => ⟨c, h'.subset hc⟩
    · exact .inr he'

/-- What may be declared in a scope may be declared there ever after. -/
theorem Leads.allows (h : l.Leads l') (he : l.store.Holds e) {x : String} (hx : l.Allows e x) :
    l'.Allows e x := by
  obtain ⟨new, hnew, hfresh⟩ := h.frames
  intro c hc
  rw [hnew] at hc
  rcases List.mem_append.1 hc with hc | hc
  · exact absurd he (hfresh e c hc)
  · exact hx c hc

/-- Ledgers whose frames are confined. -/
def course : Course Ledger where
  Good := Sound
  Leads := Leads
  refl := .refl
  trans := .trans
  good := Leads.sound

/-- Is all that the value captured in the store? -/
def Knows (l : Ledger) (v : Value) : Prop := Known l.store v

/-- Is `e` a scope in which the names may be declared, and are the scopes captured by the closures
in the store? -/
structure Admits (l : Ledger) (e : ScopeId) (cs : List Closure) (xs : List String) : Prop where
  holds : l.store.Holds e
  closures : l.store.HoldsAll cs
  allows : ∀ x ∈ xs, l.Allows e x

/-- May the tree be evaluated in the scope `e`, for what stands in it and for what it declares? -/
def AdmitsTree (l : Ledger) (e : ScopeId) (t : Expr) : Prop := l.Admits e t.closures t.declared

theorem Admits.later {cs : List Closure} {xs : List String} (h : l.Admits e cs xs)
    (hl : l.Leads l') : l'.Admits e cs xs where
  holds := hl.grows.holds h.holds
  closures := h.closures.mono hl.grows
  allows x hx := hl.allows h.holds (h.allows x hx)

/-- What is asked for a tree is asked for each of its parts. -/
theorem Admits.split {cs ds : List Closure} {xs ys : List String}
    (h : l.Admits e (cs ++ ds) (xs ++ ys)) : l.Admits e cs xs ∧ l.Admits e ds ys := by
  obtain ⟨hcs, hds⟩ := Store.holdsAll_append.1 h.closures
  obtain ⟨hxs, hys⟩ := List.forall_mem_append.1 h.allows
  exact ⟨⟨h.holds, hcs, hxs⟩, h.holds, hds, hys⟩

theorem Admits.args {args : List Expr}
    (h : l.Admits e (closuresOfArgs args) (declaredByArgs args)) :
    ∀ t ∈ args, l.AdmitsTree e t := by
  induction args with
  | nil => exact nofun
  | cons t args ih =>
    obtain ⟨ht, hargs⟩ := h.split
    exact List.forall_mem_cons.2 ⟨ht, ih hargs⟩

/-! ### What a run does to a store -/

/-- Does the store grow without new scopes, and are the names that its frames bind those they bound
before, or such as they may bind? -/
structure Widens (l : Ledger) (st : Store) : Prop where
  grows : l.store.Extends st
  closed : st.Closed
  holds : ∀ e, st.Holds e → l.store.Holds e
  names : ∀ f c x, (f, c) ∈ l.frames → st.binds f x = true →
    l.store.binds f x = true ∨ x ∈ c.frameNames

theorem Sound.widens_self (h : l.Sound) : l.Widens l.store where
  grows := .refl _
  closed := h.history.closed _ h.history.machine_mem
  holds _ := id
  names _ _ _ _ := .inl

theorem Sound.leads_add {m : Machine} (h : l.Sound) (hm : l.Widens m.store) :
    l.Leads ⟨l.history.add m, l.frames⟩ where
  sound := by
    refine ⟨(h.history.add hm.grows hm.closed).sound, fun f c hc => ?_⟩
    have hconfined := h.confined f c hc
    obtain ⟨p, hp⟩ := hconfined.inside
    refine ⟨⟨p, (hm.grows.parent?_eq hconfined.holds).trans hp⟩, fun x hx => ?_⟩
    exact (hm.names f c x hc hx).elim (hconfined.names x) id
  history := h.history.add hm.grows hm.closed
  frames := ⟨[], rfl, nofun⟩
  complete e he := .inl (hm.holds e he)

variable {α : Type} {P : Ledger → α → Prop}

/-- A run that widens the store adds one machine to the ledger. -/
theorem keeps_lift {r : Run α} (hr : ∀ l', l.Leads l' →
      l'.Widens (settle (r l'.history.machine)).2.store ∧
      ∀ l'' a, l.Leads l'' → l''.store = (settle (r l'.history.machine)).2.store →
        (settle (r l'.history.machine)).1 = .ok a → P l'' a) :
    course.Keeps l P (liftM r : Tracked α) := by
  intro l' hl
  obtain ⟨hwidens, ha⟩ := hr l' hl
  show course.Kept l' P (MonadLift.monadLift (n := Tracked)
    (MonadLift.monadLift (n := Recorded) r) l')
  simp only [MonadLift.monadLift]
  generalize r l'.history.machine = o at hwidens ha
  cases o with
  | ok a m =>
    have hleads := hl.sound.leads_add hwidens
    exact .ok hleads (ha _ a (hl.trans hleads) rfl rfl)
  | error f m => exact .error (hl.sound.leads_add hwidens)

/-- A run that leaves the store alone. -/
theorem keeps_lift_still {r : Run α} (hstore : ∀ m, (settle (r m)).2.store = m.store)
    (hr : ∀ l' l'' a, l.Leads l' → l.Leads l'' → l''.store = l'.store →
      (settle (r l'.history.machine)).1 = .ok a → P l'' a) :
    course.Keeps l P (liftM r : Tracked α) := by
  refine keeps_lift fun l' hl => ⟨?_, fun l'' a hl'' hsame => hr l' l'' a hl hl'' ?_⟩
  · rw [hstore]
    exact hl.sound.widens_self
  · rw [hsame, hstore]
    rfl

end Ledger

/-! ### Writing to frames -/

/-- An update adds no name to a scope inside another one. -/
theorem Store.binds_update_of_inside {st : Store} {f p : ScopeId} (hp : st.parent? f = some p)
    (e : ScopeId) (x : String) (v : Value) (y : String) :
    (st.update e x v).binds f y = st.binds f y := by
  have hf : st.Holds f := (st.holds_parent? hp).1
  unfold update
  by_cases hs : (st.holder? e x).getD (st.root e) = f
  · -- It is no root, so it is the scope that binds the name already.
    have hbinds : st.binds f x = true := by
      cases hholder : st.holder? e x with
      | none =>
        rw [hholder] at hs
        replace hs : st.root e = f := hs
        rw [← hs, st.parent?_root] at hp
        cases hp
      | some s =>
        rw [hholder] at hs
        replace hs : s = f := hs
        rw [← hs]
        exact List.find?_some (p := fun s => st.binds s x) hholder
    rw [hs]
    unfold binds at hbinds ⊢
    rw [st.local?_bind f f x y v hf]
    split
    · next hx => rw [← hx.2, hbinds, Option.isSome_some]
    · rfl
  · unfold binds
    rw [st.local?_bind_of_ne _ f x y v fun h => hs h.1]

namespace Ledger

variable {l : Ledger} {e : ScopeId} {x : String} {v : Value}

theorem Sound.widens_update (h : l.Sound) (hv : l.Knows v) :
    l.Widens (l.store.update e x v) where
  grows := l.store.extends_update e x v
  closed := (h.history.closed _ h.history.machine_mem).update hv
  holds e' := (l.store.holds_bind _ e' x v).1
  names f c y hf hy := by
    obtain ⟨p, hp⟩ := (h.confined f c hf).inside
    rw [Store.binds_update_of_inside hp] at hy
    exact .inl hy

theorem Sound.widens_bind (h : l.Sound) (hv : l.Knows v) (hx : l.Allows e x) :
    l.Widens (l.store.bind e x v) where
  grows := l.store.extends_bind e x v
  closed := (h.history.closed _ h.history.machine_mem).bind hv
  holds e' := (l.store.holds_bind _ e' x v).1
  names f c y hf hy := by
    rcases Store.binds_bind_cases hy with ⟨rfl, rfl⟩ | hy
    · exact .inr (hx c hf)
    · exact .inl hy

theorem keeps_update (hv : l.Knows v) :
    course.Keeps l Course.Whatever (liftM (Run.update e x v) : Tracked Unit) :=
  keeps_lift fun _ hl =>
    ⟨hl.sound.widens_update (hv.mono hl.grows), fun _ _ _ _ _ => trivial⟩

theorem keeps_declare (hv : l.Knows v) (he : l.store.Holds e) (hx : l.Allows e x) :
    course.Keeps l Course.Whatever (liftM (Run.declare e x v) : Tracked Unit) := by
  refine keeps_lift fun l' hl => ⟨?_, fun _ _ _ _ _ => trivial⟩
  rw [Run.declare_eq]
  split
  · exact hl.sound.widens_self
  · exact hl.sound.widens_bind (hv.mono hl.grows) (hl.allows he hx)

theorem keeps_ofExcept {α : Type} {P : Ledger → α → Prop} {o : Except RuntimeError α}
    (ho : ∀ l' a, l.Leads l' → o = .ok a → P l' a) :
    course.Keeps l P (liftM (Run.ofExcept o) : Tracked α) := by
  cases o with
  | ok a =>
    refine keeps_lift_still (fun _ => rfl) fun _ l'' a' _ hl'' _ ha => ?_
    cases ha
    exact ho l'' a hl'' rfl
  | error f => exact keeps_lift_still (r := Run.fail f) (fun _ => rfl) nofun

theorem keeps_resolve : course.Keeps l Knows (liftM (Run.resolve e x) : Tracked Value) := by
  refine keeps_lift_still (fun _ => rfl) fun l' l'' v hl _ hsame hv => ?_
  cases hv
  rw [Knows, hsame]
  exact (hl.sound.history.closed _ hl.sound.history.machine_mem).resolve

theorem keeps_printLine (text : String) :
    course.Keeps l Course.Whatever (liftM (Run.printLine text) : Tracked Unit) :=
  keeps_lift_still (Run.store_printLine text) fun _ _ _ _ _ _ _ => trivial

theorem keeps_flush : course.Keeps l Course.Whatever (liftM Run.flush : Tracked Unit) :=
  keeps_lift_still Run.store_flush fun _ _ _ _ _ _ _ => trivial

/-! ### Calls -/

/-- Frames bind the same after a new scope was made. -/
theorem Sound.push (h : l.Sound) (parent : Option ScopeId) :
    (⟨l.history.add { l.history.machine with store := l.store.push parent }, l.frames⟩ :
      Ledger).Sound := by
  have hgrows := l.store.extends_push parent
  have hclosed := (h.history.closed _ h.history.machine_mem).push parent
  refine ⟨(h.history.add (m := { l.history.machine with store := l.store.push parent })
    hgrows hclosed).sound, fun f c hc => ?_⟩
  have hconfined := h.confined f c hc
  obtain ⟨p, hp⟩ := hconfined.inside
  refine ⟨⟨p, (hgrows.parent?_eq hconfined.holds).trans hp⟩, fun x hx => hconfined.names x ?_⟩
  unfold Store.binds at hx ⊢
  rwa [← l.store.local?_push f x parent]

/-- A new frame binds nothing. -/
theorem Sound.leads_newFrame {c : Closure} (h : l.Sound) (hc : l.store.Holds c.scope) :
    l.Leads ⟨l.history.add { l.history.machine with store := l.store.push (some c.scope) },
      (l.store.fresh, c) :: l.frames⟩ where
  sound := by
    refine ⟨(h.push (some c.scope)).history, fun f d hd => ?_⟩
    rcases List.mem_cons.1 hd with heq | hd
    · cases heq
      refine ⟨⟨c.scope, l.store.parent?_push_fresh_of_holds hc⟩, fun x hx => ?_⟩
      have hnone := l.store.local?_of_not_holds _ x l.store.not_holds_fresh
      rw [← l.store.local?_push _ x (some c.scope)] at hnone
      replace hx : ((l.store.push (some c.scope)).local? l.store.fresh x).isSome = true := hx
      rw [hnone] at hx
      cases hx
    · exact (h.push (some c.scope)).confined f d hd
  history := h.history.add (l.store.extends_push _)
    ((h.history.closed _ h.history.machine_mem).push _)
  frames := by
    refine ⟨[(l.store.fresh, c)], rfl, fun f d hd => ?_⟩
    cases List.mem_singleton.1 hd
    exact l.store.not_holds_fresh
  complete e he := by
    rcases (l.store.holds_push e (some c.scope)).1 he with he | rfl
    · exact .inl he
    · exact .inr ⟨c, List.mem_cons_self⟩

theorem keeps_newFrame {c : Closure} (hc : l.store.Holds c.scope) :
    course.Keeps l (fun l' frame => l'.store.Holds frame ∧ ∀ x ∈ c.frameNames, l'.Allows frame x)
      (newFrame c) := by
  intro l' hl
  have hleads := hl.sound.leads_newFrame (hl.grows.holds hc)
  refine .ok hleads ⟨(l'.store.holds_push _ _).2 (.inr rfl), fun x hx d hd => ?_⟩
  rcases List.mem_cons.1 hd with heq | hd
  · cases heq
    exact hx
  · -- No frame is new that was there before.
    exact absurd (hl.sound.confined _ _ hd).holds l'.store.not_holds_fresh

theorem keeps_applyTracked {self : Expr → ScopeId → Tracked Value}
    (hself : course.KeepsAll Knows AdmitsTree self) :
    course.AppliesAll Knows (applyTracked self) := by
  intro l c vs hc hvs
  obtain ⟨hscope, hbody⟩ := Store.holdsAll_closure.1 hc
  unfold applyTracked
  split
  · refine (keeps_newFrame hscope).bind fun l₁ frame hl₁ hframe => ?_
    obtain ⟨hholds, hallows⟩ := hframe
    have hbindings : course.Keeps l₁ Course.Whatever
        (Run.bindAll frame (c.params.zip vs) : Tracked Unit) := by
      refine .bindAll fun b hb => ?_
      obtain ⟨hx, hv⟩ := List.of_mem_zip hb
      exact keeps_declare ((hvs _ hv).mono hl₁.grows) hholds (hallows _ (List.mem_append_left _ hx))
    refine hbindings.bind fun l₂ _ hl₂ _ => hself ⟨hl₂.grows.holds hholds, ?_, fun x hx => ?_⟩
    · exact hbody.mono (hl₁.grows.trans hl₂.grows)
    · exact hl₂.allows hholds (hallows x (List.mem_append_right _ hx))
  · exact keeps_lift_still (r := Run.fail _) (fun _ => rfl) nofun

/-! ### Evaluation -/

theorem maintains : course.Maintains Knows AdmitsTree Run.record where
  value hl hv := Store.HoldsAll.mono hv hl.grows
  plain hv c hc := by
    rw [hv] at hc
    cases hc
  tree hl ht := ht.later hl
  ofExcept := keeps_ofExcept
  exhausted := keeps_lift_still (fun _ => rfl) nofun
  literal ht := ht.closures
  ident _ := keeps_resolve
  print ht := ht
  printLine := keeps_printLine
  binary ht := ht.split
  ifElse ht := ⟨ht.split.1.split.1, ht.split.1.split.2, ht.split.2⟩
  loop ht := ht.split
  seq ht := ht.split
  declare ht := by
    refine ⟨⟨ht.holds, ht.closures, (List.forall_mem_cons.1 ht.allows).2⟩, fun l' v hl hv => ?_⟩
    have ht' := ht.later hl
    exact keeps_declare hv ht'.holds (ht'.allows _ List.mem_cons_self)
  assign ht := ⟨ht, fun _ _ _ hv => keeps_update hv⟩
  function {l e site ps body} ht := by
    -- The closure captures the scope that it is made in, which the store holds.
    have hc : l.Knows (.closure ⟨site, ps, body, e⟩) :=
      Store.holdsAll_closure.2 ⟨ht.holds, ht.closures⟩
    exact keeps_lift fun l' hl => ⟨hl.sound.widens_update (hc.mono hl.grows),
      fun _ _ hl' _ _ => hc.mono hl'.grows⟩
  call ht := ⟨ht.split.1, ht.split.2.args⟩

theorem keeps_evalTracked (n : Nat) : course.KeepsAll Knows AdmitsTree (evalTracked n) := by
  induction n with
  | zero => exact fun _ => maintains.exhausted
  | succ n ih =>
    intro l t e ht
    by_cases hcall : ∃ f args, t = .call f args
    · obtain ⟨f, args, rfl⟩ := hcall
      exact maintains.callWith ih (keeps_applyTracked ih) ht
    · rw [evalTracked, nodeTracked_of_not_call hcall]
      exact maintains.evalNode ih n ht fun f args heq => absurd ⟨f, args, heq⟩ hcall

theorem keeps_interpretTracked (n : Nat) {t : Expr} (ht : l.AdmitsTree Store.globals t) :
    course.Keeps l Knows (interpretTracked n t) :=
  (keeps_evalTracked n ht).bind fun _ _ _ hv => maintains.answering keeps_flush hv

/-! ### Requests -/

/-- Does a ledger go on with another one? -/
structure Grows (l l' : Ledger) : Prop where
  sound : l'.Sound
  history : l.history.Leads l'.history
  frames : l.frames ⊆ l'.frames

theorem Leads.toGrows (h : l.Leads l') : l.Grows l' := ⟨h.sound, h.history, h.subset⟩

/-- May the request declare what it does in a scope that it names? -/
def Permits (l : Ledger) : Request → Prop
  | .evaluate _ t e => ∀ x ∈ t.declared, l.Allows e x
  | .declare e x _  => l.Allows e x
  | _               => True

/-- The globals are no frame. -/
theorem Sound.allows_globals (h : l.Sound) (x : String) : l.Allows Store.globals x := by
  intro c hc
  obtain ⟨p, hp⟩ := (h.confined _ c hc).inside
  exact absurd (Store.lt_of_parent? hp) (Nat.not_lt_zero p)

/-- A run that a request asks for keeps frames confined, and makes no scopes but frames. -/
theorem Sound.leads_tracked (h : l.Sound) {c : Request} (hc : ∀ e ∈ c.scopes, l.store.Holds e)
    (hpermits : l.Permits c) (hscope : c ≠ .newRoot ∧ ∀ e, c ≠ .newChild e) :
    l.Leads (settle (c.tracked l)).2 := by
  have answered {α : Type} {P : Ledger → α → Prop} {r : Tracked α} (hr : course.Keeps l P r)
      (f : α → Answer) : l.Leads (settle ((f <$> r) l)).2 := by
    have hboth : course.Keeps l Course.Whatever (r >>= fun a => pure (f a)) :=
      hr.bind fun _ _ _ _ => .pure fun _ _ => trivial
    rw [← bind_pure_comp]
    exact (hboth l (.refl h)).leads
  cases c with
  | interpret n t =>
    obtain ⟨hglobals, ht⟩ := List.forall_mem_cons.1 hc
    have hadmits : l.AdmitsTree Store.globals t :=
      ⟨hglobals, forall_mem_captured.1 ht, fun x _ => h.allows_globals x⟩
    exact answered (keeps_interpretTracked n hadmits) _
  | evaluate n t e =>
    obtain ⟨he, ht⟩ := List.forall_mem_cons.1 hc
    exact answered (keeps_evalTracked n ⟨he, forall_mem_captured.1 ht, hpermits⟩) _
  | apply n c args =>
    obtain ⟨hc, hargs⟩ := Store.holdsAll_append.1 (forall_mem_captured.1 hc)
    have hargs : ∀ v ∈ args, l.Knows v :=
      fun v hv d hd => hargs d (List.mem_flatMap.2 ⟨v, hv, hd⟩)
    exact answered (keeps_applyTracked (keeps_evalTracked n) hc hargs) _
  | newRoot => exact absurd rfl hscope.1
  | newChild e => exact absurd rfl (hscope.2 e)
  | declare e x v =>
    obtain ⟨he, hv⟩ := List.forall_mem_cons.1 hc
    exact answered (keeps_declare (forall_mem_captured.1 hv) he hpermits) _
  | update e x v =>
    obtain ⟨-, hv⟩ := List.forall_mem_cons.1 hc
    exact answered (keeps_update (forall_mem_captured.1 hv)) _
  | resolve e x => exact answered keeps_resolve _

/-- What one request keeps. -/
theorem Sound.grows_tracked (h : l.Sound) {c : Request} (hc : ∀ e ∈ c.scopes, l.store.Holds e)
    (hpermits : l.Permits c) : l.Grows (settle (c.tracked l)).2 := by
  have pushed (parent : Option ScopeId) : l.Grows
      ⟨l.history.add { l.history.machine with store := l.store.push parent }, l.frames⟩ :=
    ⟨h.push parent, h.history.add (l.store.extends_push parent)
      ((h.history.closed _ h.history.machine_mem).push parent), List.Subset.refl _⟩
  cases c with
  | newRoot => exact pushed none
  | newChild e => exact pushed (some e)
  | _ => exact (h.leads_tracked hc hpermits ⟨by simp, by simp⟩).toGrows

end Ledger

/-! ### Hosts that do not write -/

/-- Does the host run programs and apply closures, and make scopes, but neither evaluate in a scope
of its choice nor write to one? -/
def Request.HandsOff : Request → Prop
  | evaluate _ _ _ | declare _ _ _ | update _ _ _ => False
  | _ => True

/-- Is the request none to evaluate or to declare in the scope `f` itself? -/
def Request.Avoids (f : ScopeId) : Request → Prop
  | evaluate _ _ e | declare e _ _ => e ≠ f
  | _ => True

namespace Ledger

/-- A request that is answered or fails, about scopes that exist. -/
inductive Step (l : Ledger) : Ledger → Prop
  | request {c : Request} (hands : c.HandsOff) (hc : ∀ e ∈ c.scopes, l.store.Holds e) :
      Step l (settle (c.tracked l)).2

/-- Any number of requests, one after the other. -/
def Later : Ledger → Ledger → Prop := Relation.ReflTransGen Step

theorem sound_start {m : Machine} (hm : m.store.Closed) : (start m).Sound :=
  ⟨.start hm, nofun⟩

theorem Step.sound {l l' : Ledger} (h : l.Step l') (hl : l.Sound) : l'.Sound := by
  obtain @⟨c, hands, hc⟩ := h
  have hpermits : l.Permits c := by cases c <;> trivial
  exact (hl.grows_tracked hc hpermits).sound

/-- What any number of requests keep, by induction on the requests. -/
theorem Later.sound {l l' : Ledger} (h : l.Later l') (hl : l.Sound) : l'.Sound := by
  induction h with
  | refl => exact hl
  | tail _ hstep ih => exact hstep.sound ih

end Ledger

/-! ### What else is done to a frame -/

theorem Store.mem_map_fst_locals {st : Store} {e : ScopeId} {x : String} :
    x ∈ (st.locals e).map Prod.fst ↔ st.binds e x = true := by
  unfold locals binds local?
  cases st.scopes[e]? with
  | none => exact ⟨nofun, nofun⟩
  | some s =>
    show x ∈ s.bindings.toList.map Prod.fst ↔ s.bindings[x]?.isSome = true
    rw [Std.ExtTreeMap.map_fst_toList_eq_keys, Std.ExtTreeMap.mem_keys,
      Std.ExtTreeMap.isSome_getElem?_iff_mem]

/-- A request adds no name to a scope that it does not evaluate or declare in and that lies inside
another one, at no machine that it passes. -/
theorem Request.binds_of_avoids {h : History} (hh : h.Sound) {c : Request}
    (hc : ∀ e ∈ c.scopes, h.machine.store.Holds e) {f p : ScopeId}
    (hp : h.machine.store.parent? f = some p) (havoids : c.Avoids f) :
    ∃ new, (settle (c.recorded h)).2.passed = new ++ h.passed ∧
      ∀ m ∈ new, ∀ x, m.store.binds f x = h.machine.store.binds f x := by
  -- The scope is watched as if it were the frame of a closure with its names as parameters.
  let watched : Closure := ⟨0, (h.machine.store.locals f).map Prod.fst, .null, p⟩
  let l : Ledger := ⟨h, [(f, watched)]⟩
  have hnames (x : String) : x ∈ watched.frameNames ↔ h.machine.store.binds f x = true := by
    have hframe : watched.frameNames = (h.machine.store.locals f).map Prod.fst :=
      List.append_nil _
    rw [hframe, Store.mem_map_fst_locals]
  have hsound : l.Sound := by
    refine ⟨hh, fun g d hd => ?_⟩
    cases List.mem_singleton.1 hd
    exact ⟨⟨p, hp⟩, fun x hx => (hnames x).2 hx⟩
  have hallows {e : ScopeId} (he : e ≠ f) (x : String) : l.Allows e x := by
    intro d hd
    cases List.mem_singleton.1 hd
    exact absurd rfl he
  have hpermits : l.Permits c := by
    cases c with
    | evaluate n t e => exact fun x _ => hallows havoids x
    | declare e x v => exact hallows havoids x
    | _ => trivial
  obtain ⟨hsound', hleads, hframes⟩ := hsound.grows_tracked hc hpermits
  have hhistory : (settle (c.recorded h)).2 = (settle (c.tracked l)).2.history :=
    congrArg Prod.snd (c.recorded_eq_tracked l)
  obtain ⟨new, hnew⟩ := hleads.passed
  refine ⟨new, by rw [hhistory, hnew], fun m hm x => ?_⟩
  have hmem : m ∈ (settle (c.tracked l)).2.history.passed := by
    rw [← hnew]
    exact List.mem_append_left _ hm
  have hafter := hsound'.history.extends m hmem
  have hbefore : h.machine.store.Extends m.store := by
    have hgrows := hsound'.history.grows
    rw [← hnew] at hgrows
    exact (List.pairwise_append.1 hgrows).2.2 m hm _ hh.machine_mem
  -- The names that the scope binds at the end are those it began with.
  refine Bool.eq_iff_iff.2 ⟨fun hx => (hnames x).1 ?_, hbefore.binds⟩
  exact (hsound'.confined f watched (hframes List.mem_cons_self)).names x (hafter.binds hx)

/-! ### Frames keep to their names -/

/-- Whatever programs a host runs and whatever closures it applies, from any store that is closed,
the frame of a call binds, at every machine passed, parameters of its closure and names that the
body of the closure declares, and nothing else. The frames are all the scopes that programs and
calls make, and keeping account of them changes nothing. No update adds a name to a frame, from
wherever it is made, and nor does any request that does not evaluate or declare in the frame itself,
at no machine that it passes. -/
theorem Ledger.locals_of_later {m₀ : Machine} (hm₀ : m₀.store.Closed) {l : Ledger}
    (hl : (Ledger.start m₀).Later l) :
    (∀ f c, (f, c) ∈ l.frames → ∀ m ∈ l.history.passed, ∀ x, m.store.binds f x = true →
        x ∈ c.params ∨ x ∈ c.body.declared) ∧
      (∀ c : Request, (∃ n t, c = .interpret n t) ∨ (∃ n d args, c = .apply n d args) →
        (∀ e ∈ c.scopes, l.store.Holds e) → ∀ e, (settle (c.tracked l)).2.store.Holds e →
          l.store.Holds e ∨ ∃ d, (e, d) ∈ (settle (c.tracked l)).2.frames) ∧
      (∀ c : Request, settle (c.run l.history.machine) =
        ((settle (c.tracked l)).1, (settle (c.tracked l)).2.history.machine)) ∧
      (∀ f c, (f, c) ∈ l.frames → ∀ m ∈ l.history.passed, m.store.Holds f → ∀ e x v y,
        (m.store.update e x v).binds f y = m.store.binds f y) ∧
      ∀ f c, (f, c) ∈ l.frames → ∀ d : Request, (∀ e ∈ d.scopes, l.store.Holds e) → d.Avoids f →
        ∃ new, (settle (d.recorded l.history)).2.passed = new ++ l.history.passed ∧
          ∀ m ∈ new, ∀ x, m.store.binds f x = l.store.binds f x := by
  have hsound := hl.sound (sound_start hm₀)
  refine ⟨fun f c hc m hm x hx => ?_, fun c hruns hc e he => ?_, fun c => ?_,
    fun f c hc m hm hf e x v y => ?_, fun f c hc d hd havoids => ?_⟩
  · -- What a scope binds at some machine it binds at the last one.
    have hx' := (hsound.history.extends m hm).binds hx
    exact List.mem_append.1 ((hsound.confined f c hc).names x hx')
  · have hpermits : l.Permits c := by
      rcases hruns with ⟨n, t, rfl⟩ | ⟨n, d, args, rfl⟩ <;> trivial
    have hscope : c ≠ .newRoot ∧ ∀ e, c ≠ .newChild e := by
      rcases hruns with ⟨n, t, rfl⟩ | ⟨n, d, args, rfl⟩ <;> exact ⟨by simp, by simp⟩
    exact (hsound.leads_tracked hc hpermits hscope).complete e he
  · rw [c.run_eq_recorded l.history, c.recorded_eq_tracked l]
  · obtain ⟨p, hp⟩ := (hsound.confined f c hc).inside
    rw [Store.binds_update_of_inside (((hsound.history.extends m hm).parent?_eq hf).symm.trans hp)]
  · obtain ⟨p, hp⟩ := (hsound.confined f c hc).inside
    exact d.binds_of_avoids hsound.history hd hp havoids

/-- The closure that `function(a) { var b = a; c = 3; }` makes in the globals. -/
def declaresLocal : Closure :=
  ⟨0, ["a"], .seq (.declare "b" (.ident "a")) (.assign "c" (.int 3)), Store.globals⟩

/-- The program that makes the closure and applies it to `1`. -/
def callsLocal : Expr :=
  .call (.function declaresLocal.site declaresLocal.params declaresLocal.body) [.int 1]

/-- The frame binds the parameter and what is declared, and never what is assigned. -/
theorem Ledger.locals_of_callsLocal : ∃ l, (Ledger.start ⟨.initial, .unlimited⟩).Later l ∧
    (1, declaresLocal) ∈ l.frames ∧ l.store.binds 1 "b" = true ∧
    l.store.binds Store.globals "c" = true ∧
    ∀ m ∈ l.history.passed, m.store.binds 1 "c" = false := by
  let l := (settle ((Request.interpret 9 callsLocal).tracked (.start ⟨.initial, .unlimited⟩))).2
  have hl : (Ledger.start ⟨.initial, .unlimited⟩).Later l :=
    .single (.request trivial (List.forall_mem_singleton.2 Nat.zero_lt_one))
  have hframe : (1, declaresLocal) ∈ l.frames := by
    have hframes : l.frames = [(1, declaresLocal)] := by with_unfolding_all rfl
    rw [hframes]
    exact List.mem_singleton_self _
  obtain ⟨hlocals, -⟩ := Ledger.locals_of_later Store.closed_initial hl
  refine ⟨l, hl, hframe, by decide +kernel, by decide +kernel, fun m hm => ?_⟩
  refine Bool.eq_false_iff.2 fun hx => ?_
  rcases hlocals 1 declaresLocal hframe m hm "c" hx with h | h
  · exact absurd h (by decide)
  · exact absurd h (by decide)

end Featherweight
