import Featherweight.Proofs.Evaluation.History
import Featherweight.Store.Lemmas

/-!
# Stores that grow

A store only ever grows (`Store.Extends`): scopes stay where they are, and the names that they bind
stay bound, whatever to. All that a store refers to exists (`Store.Closed`), as closures are made in
scopes that do.

Both hold of every machine that a run passes, whether it is answered, fails or is exhausted
(`keeps_evalWith`). What is known of a value is kept while the store grows, so `Keeps` is about any
machine whose store came from the one at hand.
-/

namespace Featherweight

variable {α β : Type} {st st' st'' : Store} {e : ScopeId} {x : String} {v : Value}

namespace Store

/-- Did `st'` come from `st` by new scopes and new or changed bindings? -/
structure Extends (st st' : Store) : Prop where
  holds : ∀ {e : ScopeId}, st.Holds e → st'.Holds e
  parent?_eq : ∀ {e : ScopeId}, st.Holds e → st'.parent? e = st.parent? e
  binds : ∀ {e : ScopeId} {x : String}, st.binds e x = true → st'.binds e x = true

/-- Do the closures capture scopes of the store only? -/
def HoldsAll (st : Store) (cs : List Closure) : Prop := ∀ c ∈ cs, st.Holds c.scope

/-- Does the store hold every scope that a closure captured which it binds, or one in its body? -/
def Closed (st : Store) : Prop :=
  ∀ (e : ScopeId) (x : String) (v : Value), st.local? e x = some v → st.HoldsAll v.closures

theorem Extends.refl (st : Store) : st.Extends st := ⟨id, fun _ => rfl, id⟩

theorem Extends.trans (h : st.Extends st') (h' : st'.Extends st'') : st.Extends st'' where
  holds he := h'.holds (h.holds he)
  parent?_eq he := (h'.parent?_eq (h.holds he)).trans (h.parent?_eq he)
  binds hx := h'.binds (h.binds hx)

theorem HoldsAll.mono {cs : List Closure} (hcs : st.HoldsAll cs) (h : st.Extends st') :
    st'.HoldsAll cs := fun c hc => h.holds (hcs c hc)

theorem holdsAll_append {cs ds : List Closure} :
    st.HoldsAll (cs ++ ds) ↔ st.HoldsAll cs ∧ st.HoldsAll ds := List.forall_mem_append

theorem holdsAll_closure {c : Closure} :
    st.HoldsAll c.closures ↔ st.Holds c.scope ∧ st.HoldsAll c.body.closures := by
  obtain ⟨site, ps, body, scope⟩ := c
  rw [Closure.closures]
  exact List.forall_mem_cons

/-! ### What changes a store -/

variable (st e x v)

theorem extends_bind : st.Extends (st.bind e x v) where
  holds := (st.holds_bind e _ x v).2
  parent?_eq _ := st.parent?_bind e _ x v
  binds := by
    intro e' y hy
    by_cases he : st.Holds e
    · unfold binds at hy ⊢
      rw [st.local?_bind e e' x y v he]
      split
      · rfl
      · exact hy
    · rwa [st.bind_of_not_holds e x v he]

theorem extends_update : st.Extends (st.update e x v) := st.extends_bind _ x v

theorem extends_push (parent : Option ScopeId) : st.Extends (st.push parent) where
  holds he := (st.holds_push _ parent).2 (.inl he)
  parent?_eq he := st.parent?_push _ parent (Nat.ne_of_lt he)
  binds := by
    intro e x hx
    unfold binds at hx ⊢
    rwa [st.local?_push]

theorem binds_bind (he : st.Holds e) : (st.bind e x v).binds e x = true := by
  unfold binds
  rw [st.local?_bind e e x x v he, if_pos ⟨rfl, rfl⟩]
  rfl

variable {st e x v}

theorem closed_initial : initial.Closed := by
  intro e x v hv
  rw [local?_initial] at hv
  cases hv

theorem Closed.bind (h : st.Closed) (hv : st.HoldsAll v.closures) : (st.bind e x v).Closed := by
  intro e' y w hw
  have hextends := st.extends_bind e x v
  rcases local?_bind_cases hw with ⟨-, -, rfl⟩ | hw
  · exact hv.mono hextends
  · exact (h e' y w hw).mono hextends

theorem Closed.update (h : st.Closed) (hv : st.HoldsAll v.closures) : (st.update e x v).Closed :=
  h.bind hv

theorem Closed.push (h : st.Closed) (parent : Option ScopeId) : (st.push parent).Closed := by
  intro e x v hv
  rw [st.local?_push] at hv
  exact (h e x v hv).mono (st.extends_push parent)

theorem Closed.resolve (h : st.Closed) : st.HoldsAll (st.resolve e x).closures := by
  rcases st.resolve_cases (e := e) (x := x) with hnull | ⟨s, hv⟩
  · rw [hnull]
    exact nofun
  · exact h s x _ hv

end Store

/-! ### Histories -/

/-- Is the run at the machine passed last, is every store passed closed, and did it come from the
ones before? -/
structure History.Sound (h : History) : Prop where
  current : h.passed.head? = some h.machine
  closed : ∀ m ∈ h.passed, m.store.Closed
  grows : h.passed.Pairwise fun later earlier => earlier.store.Extends later.store

/-- Does a sound history go on with others, whose stores came from the one it was at? -/
structure History.Leads (h h' : History) : Prop where
  sound : h'.Sound
  grows : h.machine.store.Extends h'.machine.store
  passed : h.passed <:+ h'.passed

namespace History

variable {h h' h'' : History} {m : Machine}

theorem Sound.start (hm : m.store.Closed) : (start m).Sound where
  current := rfl
  closed := List.forall_mem_singleton.2 hm
  grows := List.pairwise_singleton _ m

theorem Sound.machine_mem (hh : h.Sound) : h.machine ∈ h.passed :=
  List.mem_of_mem_head? hh.current

/-- The store at hand came from all that were passed. -/
theorem Sound.extends (hh : h.Sound) : ∀ m ∈ h.passed, m.store.Extends h.machine.store := by
  obtain ⟨rest, hrest⟩ := List.head?_eq_some_iff.1 hh.current
  have hgrows := hh.grows
  rw [hrest] at hgrows ⊢
  exact List.forall_mem_cons.2 ⟨.refl _, (List.pairwise_cons.1 hgrows).1⟩

theorem Leads.refl (hh : h.Sound) : h.Leads h := ⟨hh, .refl _, List.suffix_refl _⟩

theorem Leads.trans (hh : h.Leads h') (hh' : h'.Leads h'') : h.Leads h'' :=
  ⟨hh'.sound, hh.grows.trans hh'.grows, hh.passed.trans hh'.passed⟩

theorem Sound.add (hh : h.Sound) (hgrows : h.machine.store.Extends m.store)
    (hclosed : m.store.Closed) : h.Leads (h.add m) where
  sound := by
    refine ⟨rfl, List.forall_mem_cons.2 ⟨hclosed, hh.closed⟩, List.pairwise_cons.2 ⟨?_, hh.grows⟩⟩
    exact fun m' hm' => (hh.extends m' hm').trans hgrows
  grows := hgrows
  passed := List.suffix_cons m h.passed

end History

/-! ### Runs that keep this -/

/-- Does the history lead to the one of the result, and does `P` hold of the answer there? -/
inductive Kept (h : History) (P : Store → α → Prop) : EStateM.Result Halt History α → Prop
  | ok {a : α} {h' : History} (hh : h.Leads h') (ha : P h'.machine.store a) : Kept h P (.ok a h')
  | error {f : Halt} {h' : History} (hh : h.Leads h') : Kept h P (.error f h')

/-- Does the run keep histories sound whose stores came from `st`, with answers of which `P`
holds? -/
def Keeps (st : Store) (P : Store → α → Prop) (r : Recorded α) : Prop :=
  ∀ h : History, h.Sound → st.Extends h.machine.store → Kept h P (r h)

/-- Are the scopes captured by the value in the store? -/
def Known (st : Store) (v : Value) : Prop := st.HoldsAll v.closures

namespace Keeps

variable {P : Store → α → Prop} {Q : Store → β → Prop} {r : Recorded α} {f : α → Recorded β}

theorem later (hr : Keeps st P r) (hst : st.Extends st') : Keeps st' P r :=
  fun h hh hext => hr h hh (hst.trans hext)

theorem pure {a : α} (ha : ∀ st', st.Extends st' → P st' a) :
    Keeps st P (Pure.pure a : Recorded α) := fun _ hh hext => .ok (.refl hh) (ha _ hext)

theorem throw {e : Halt} : Keeps st P (MonadExcept.throw e : Recorded α) :=
  fun _ hh _ => .error (.refl hh)

theorem bind (hr : Keeps st P r) (hf : ∀ st' a, st.Extends st' → P st' a → Keeps st' Q (f a)) :
    Keeps st Q (r >>= f) := by
  intro h hh hext
  show Kept h Q (EStateM.bind r f h)
  unfold EStateM.bind
  have hkept := hr h hh hext
  generalize r h = o at hkept
  cases hkept with
  | error hleads => exact .error hleads
  | @ok a h' hleads ha =>
    -- The second run starts where the first one has led, and knows of `a` what holds there.
    have hkept' := hf _ a (hext.trans hleads.grows) ha h' hleads.sound (.refl _)
    show Kept h Q (f a h')
    generalize f a h' = o at hkept'
    cases hkept' with
    | ok hleads' hb => exact .ok (hleads.trans hleads') hb
    | error hleads' => exact .error (hleads.trans hleads')

/-- A run that grows a closed store keeps a history sound, to which it adds one machine. -/
theorem lift {r : Run α} (hr : ∀ m, st.Extends m.store → m.store.Closed →
      m.store.Extends (settle (r m)).2.store ∧ (settle (r m)).2.store.Closed ∧
        ∀ a, (settle (r m)).1 = .ok a → P (settle (r m)).2.store a) :
    Keeps st P (liftM r : Recorded α) := by
  intro h hh hext
  have hr := hr h.machine hext (hh.closed _ hh.machine_mem)
  show Kept h P (MonadLift.monadLift (n := Recorded) r h)
  simp only [MonadLift.monadLift]
  generalize r h.machine = o at hr
  obtain ⟨hgrows, hclosed, ha⟩ := hr
  cases o with
  | ok a m => exact .ok (hh.add hgrows hclosed) (ha a rfl)
  | error f m => exact .error (hh.add hgrows hclosed)

/-- A run that leaves the store alone. -/
theorem lift_still {r : Run α} (hstore : ∀ m, (settle (r m)).2.store = m.store)
    (hr : ∀ m, st.Extends m.store → m.store.Closed → ∀ a, (settle (r m)).1 = .ok a →
      P m.store a) : Keeps st P (liftM r : Recorded α) := by
  refine lift fun m hext hclosed => ?_
  rw [hstore m]
  exact ⟨.refl _, hclosed, hr m hext hclosed⟩

end Keeps

/-- Nothing is known of an answer that says nothing. -/
def Whatever (_ : Store) (_ : α) : Prop := True

section

variable {P : Store → α → Prop}

theorem keeps_fail {f : RuntimeError} : Keeps st P (liftM (Run.fail f : Run α) : Recorded α) :=
  .lift_still (fun _ => rfl) nofun

theorem keeps_exhausted : Keeps st P (Run.exhausted : Recorded α) :=
  .lift_still (r := Run.exhausted) (fun _ => rfl) nofun

/-- The answer of an operator does not depend on the store. -/
theorem keeps_ofExcept {o : Except RuntimeError α}
    (ho : ∀ st', st.Extends st' → ∀ a, o = .ok a → P st' a) :
    Keeps st P (liftM (Run.ofExcept o) : Recorded α) := by
  cases o with
  | ok a =>
    refine .lift_still (fun _ => rfl) fun m hext _ a' ha => ?_
    cases ha
    exact ho _ hext _ rfl
  | error f => exact keeps_fail

/-- A run after which the answer is a value known before. -/
theorem Keeps.answering {r : Recorded Unit} (hr : Keeps st Whatever r) (hv : Known st v) :
    Keeps st Known (r >>= fun _ => Pure.pure v) :=
  hr.bind fun _ _ hst _ => .pure fun _ hext => hv.mono (hst.trans hext)

theorem keeps_resolve : Keeps st Known (liftM (Run.resolve e x) : Recorded Value) := by
  refine .lift_still (fun _ => rfl) fun m _ hclosed v hv => ?_
  cases hv
  exact hclosed.resolve

theorem keeps_update (hv : Known st v) :
    Keeps st Whatever (liftM (Run.update e x v) : Recorded Unit) :=
  .lift fun m hext hclosed =>
    ⟨m.store.extends_update e x v, hclosed.update (hv.mono hext), fun _ _ => trivial⟩

theorem keeps_declare (hv : Known st v) :
    Keeps st Whatever (liftM (Run.declare e x v) : Recorded Unit) := by
  refine .lift fun m hext hclosed => ?_
  rw [Run.declare_eq]
  split
  · exact ⟨.refl _, hclosed, fun _ _ => trivial⟩
  · exact ⟨m.store.extends_bind e x v, hclosed.bind (hv.mono hext), fun _ _ => trivial⟩

theorem keeps_newScope (parent : Option ScopeId) :
    Keeps st (fun st' e => st'.Holds e) (liftM (Run.newScope parent) : Recorded ScopeId) := by
  refine .lift fun m _ hclosed =>
    ⟨m.store.extends_push parent, hclosed.push parent, fun e he => ?_⟩
  cases he
  exact (m.store.holds_push _ parent).2 (.inr rfl)

theorem Run.store_printLine (text : String) (m : Machine) :
    (settle (Run.printLine text m)).2.store = m.store := by
  unfold Run.printLine
  generalize m.sink.write (text ++ "\n").toUTF8 = written
  obtain ⟨fits, sink⟩ := written
  cases fits <;> rfl

theorem Run.store_flush (m : Machine) : (settle (Run.flush m)).2.store = m.store := by
  unfold Run.flush
  split <;> rfl

theorem keeps_printLine (text : String) :
    Keeps st Whatever (liftM (Run.printLine text) : Recorded Unit) :=
  .lift_still (Run.store_printLine text) fun _ _ _ _ _ => trivial

theorem keeps_flush : Keeps st Whatever (liftM Run.flush : Recorded Unit) :=
  .lift_still Run.store_flush fun _ _ _ _ _ => trivial

end

/-! ### The evaluator -/

/-- Does evaluating a tree keep histories sound, in any scope of a store that holds what the tree
captured? -/
def KeepsAll (self : Expr → ScopeId → Recorded Value) : Prop :=
  ∀ {st : Store} {t : Expr} {e : ScopeId}, st.Holds e → st.HoldsAll t.closures →
    Keeps st Known (self t e)

section

variable {self : Expr → ScopeId → Recorded Value}

theorem keeps_condition (place : Place) {r : Recorded Value} (hr : Keeps st Known r) :
    Keeps st Whatever (Run.condition place r) :=
  hr.bind fun _ _ _ _ => keeps_ofExcept fun _ _ _ _ => trivial

theorem keeps_iterate {guard : Recorded Bool} {body : Recorded Value}
    (hguard : Keeps st Whatever guard) (hbody : Keeps st Known body) (n : Nat) {last : Value}
    (hlast : Known st last) : Keeps st Known (Run.iterate guard body n last) := by
  induction n generalizing st last with
  | zero => exact keeps_exhausted
  | succ n ih =>
    refine hguard.bind fun st₁ go hst₁ _ => ?_
    cases go with
    | false => exact .pure fun _ hext => hlast.mono (hst₁.trans hext)
    | true =>
      -- The rest of the loop goes on from a store that has grown, in which the same is known.
      refine (hbody.later hst₁).bind fun st₂ v hst₂ hv => ?_
      have hst := hst₁.trans hst₂
      exact ih (hguard.later hst) (hbody.later hst) hv

theorem keeps_bindAll {bindings : List (String × Value)}
    (hvs : ∀ b ∈ bindings, Known st b.2) :
    Keeps st Whatever (Run.bindAll e bindings : Recorded Unit) := by
  induction bindings generalizing st with
  | nil => exact .pure fun _ _ => trivial
  | cons b bindings ih =>
    obtain ⟨hv, hvs⟩ := List.forall_mem_cons.1 hvs
    exact (keeps_declare hv).bind fun _ _ hst _ => ih fun b hb => (hvs b hb).mono hst

theorem keeps_mapM (hself : KeepsAll self) (he : st.Holds e) {args : List Expr}
    (hargs : st.HoldsAll (closuresOfArgs args)) :
    Keeps st (fun st' vs => ∀ v ∈ vs, Known st' v) (args.mapM fun t => self t e) := by
  induction args generalizing st with
  | nil => exact .pure fun _ _ => nofun
  | cons t args ih =>
    obtain ⟨ht, hargs⟩ := Store.holdsAll_append.1 hargs
    rw [List.mapM_cons]
    refine (hself he ht).bind fun st₁ v hst₁ hv => ?_
    refine (ih (hst₁.holds he) (hargs.mono hst₁)).bind fun st₂ vs hst₂ hvs => ?_
    exact .pure fun st' hst' => List.forall_mem_cons.2
      ⟨hv.mono (hst₂.trans hst'), fun v hv => (hvs v hv).mono hst'⟩

theorem keeps_applyWith (hself : KeepsAll self) {c : Closure} (hc : st.HoldsAll c.closures)
    {vs : List Value} (hvs : ∀ v ∈ vs, Known st v) :
    Keeps st Known (applyWith self c vs) := by
  unfold applyWith
  split
  · refine (keeps_newScope _).bind fun st₁ frame hst₁ hframe => ?_
    have hbindings : ∀ b ∈ c.params.zip vs, Known st₁ b.2 :=
      fun b hb => (hvs _ (List.of_mem_zip hb).2).mono hst₁
    refine (keeps_bindAll hbindings).bind fun st₂ _ hst₂ _ => ?_
    have hbody := (Store.holdsAll_closure.1 hc).2
    exact hself (hst₂.holds hframe) (hbody.mono (hst₁.trans hst₂))
  · exact keeps_fail

/-- Operators make no closures. -/
theorem BinaryOp.closures_of_compute {op : BinaryOp} {a b : Int64} {u : Value}
    (h : op.compute a b = .ok u) : u.closures = [] := by
  cases op with
  | divide | modulo =>
    simp only [BinaryOp.compute] at h
    split at h
    · cases h
    · cases h
      rfl
  | _ =>
    cases h
    rfl

theorem BinaryOp.closures_of_apply {op : BinaryOp} {v w u : Value} (h : op.apply v w = .ok u) :
    u.closures = [] := by
  cases v with
  | int a =>
    cases w with
    | int b => exact closures_of_compute h
    | bool _ | null | closure _ => cases h
  | bool _ | null | closure _ => cases h

/-- One step keeps histories sound, if evaluating the trees below does. -/
theorem keeps_evalNode (hself : KeepsAll self) (n : Nat) {t : Expr} (he : st.Holds e)
    (ht : st.HoldsAll t.closures) : Keeps st Known (evalNode Run.record self n e t) := by
  cases t with
  | literal v => exact .pure fun _ hext => ht.mono hext
  | ident x => exact keeps_resolve
  | print t =>
    refine (hself (t := t) he ht).bind fun st₁ v hst₁ hv => ?_
    exact (keeps_printLine _).answering hv
  | binary op l r =>
    obtain ⟨hl, hr⟩ := Store.holdsAll_append.1 ht
    refine (hself he hl).bind fun st₁ v hst₁ _ => ?_
    refine (hself (hst₁.holds he) (hr.mono hst₁)).bind fun st₂ w hst₂ _ => ?_
    refine keeps_ofExcept fun st₃ _ u hu => ?_
    rw [Known, BinaryOp.closures_of_apply hu]
    exact nofun
  | ifElse c yes no =>
    obtain ⟨hrest, hno⟩ := Store.holdsAll_append.1 ht
    obtain ⟨hc, hyes⟩ := Store.holdsAll_append.1 hrest
    refine (keeps_condition _ (hself he hc)).bind fun st₁ go hst₁ _ => ?_
    cases go with
    | true => exact hself (hst₁.holds he) (hyes.mono hst₁)
    | false => exact hself (hst₁.holds he) (hno.mono hst₁)
  | loop c body =>
    obtain ⟨hc, hbody⟩ := Store.holdsAll_append.1 ht
    exact keeps_iterate (keeps_condition _ (hself he hc)) (hself he hbody) n nofun
  | seq a b =>
    obtain ⟨ha, hb⟩ := Store.holdsAll_append.1 ht
    exact (hself he ha).bind fun st₁ _ hst₁ _ => hself (hst₁.holds he) (hb.mono hst₁)
  | declare x t =>
    refine (hself (t := t) he ht).bind fun st₁ v hst₁ hv => ?_
    exact (keeps_declare hv).answering hv
  | assign x t =>
    refine (hself (t := t) he ht).bind fun st₁ v hst₁ hv => ?_
    exact (keeps_update hv).answering hv
  | function site ps body =>
    -- The closure captures the scope that it is made in, which the store holds.
    have hc : Known st (.closure ⟨site, ps, body, e⟩) := Store.holdsAll_closure.2 ⟨he, ht⟩
    exact (keeps_update hc).answering hc
  | call f args =>
    obtain ⟨hf, hargs⟩ := Store.holdsAll_append.1 ht
    refine (hself he hf).bind fun st₁ v hst₁ hv => ?_
    cases v with
    | closure c =>
      refine (keeps_ofExcept (P := fun _ d => d = c) ?_).bind fun st₂ d hst₂ hd => ?_
      · rintro _ _ d hd
        cases hd
        rfl
      subst hd
      have hst := hst₁.trans hst₂
      refine (keeps_mapM hself (hst.holds he) (hargs.mono hst)).bind fun st₃ vs hst₃ hvs => ?_
      exact keeps_applyWith hself (hv.mono (hst₂.trans hst₃)) hvs
    | int _ | bool _ | null => exact keeps_fail.bind fun _ _ _ h => False.elim h

/-- A whole run keeps histories sound, by induction on the steps granted. -/
theorem keeps_evalWith (n : Nat) :
    KeepsAll (evalWith Run.record n : Expr → ScopeId → Recorded Value) := by
  induction n with
  | zero => exact fun _ _ => keeps_exhausted
  | succ n ih => exact fun he ht => keeps_evalNode ih n he ht

end

end Featherweight
