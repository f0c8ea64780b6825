import Featherweight.Proofs.Evaluation.Course
import Featherweight.Proofs.Evaluation.FunctionNodes
import Featherweight.Proofs.Evaluation.Reachable

/-!
# Closures that are the same

Closures are compared by the sites of their functions and the scopes they captured, and by nothing
else. That their parameters are the same then, and all that they do, is no matter of the comparison,
but of everything done before: whatever a client asks for, each closure that it meets was made from
a function in one of its programs (`Client.Later.sound`). If no two of these functions share their
site, closures that are the same cannot be told apart (`Client.same_interchangeable`).
-/

namespace Featherweight

variable {α β : Type} {fs gs : List FunctionNode} {cs ds : List Closure} {h h' : History}
  {st : Store} {e : ScopeId} {x : String} {v : Value}

/-! ### Where closures come from -/

/-- Were the closures made from the functions `fs`? -/
def MadeFrom (fs : List FunctionNode) (cs : List Closure) : Prop := ∀ c ∈ cs, c.node ∈ fs

theorem madeFrom_nil : MadeFrom fs [] := nofun

theorem madeFrom_append : MadeFrom fs (cs ++ ds) ↔ MadeFrom fs cs ∧ MadeFrom fs ds :=
  List.forall_mem_append

theorem madeFrom_closure {c : Closure} :
    MadeFrom fs c.closures ↔ c.node ∈ fs ∧ MadeFrom fs c.body.closures := by
  obtain ⟨site, ps, body, scope⟩ := c
  rw [Closure.closures]
  exact List.forall_mem_cons

/-- May a tree with the functions `gs` and the closures `cs` stand in programs with the functions
`fs`? -/
structure StandsIn (fs gs : List FunctionNode) (cs : List Closure) : Prop where
  functions : gs ⊆ fs
  closures : MadeFrom fs cs

/-- May the tree stand in programs with the functions `fs`? -/
def Expr.StandsIn (fs : List FunctionNode) (t : Expr) : Prop :=
  Featherweight.StandsIn fs t.functions t.closures

theorem StandsIn.split {gs' : List FunctionNode} (h : StandsIn fs (gs ++ gs') (cs ++ ds)) :
    StandsIn fs gs cs ∧ StandsIn fs gs' ds := by
  obtain ⟨hgs, hgs'⟩ := List.append_subset.1 h.functions
  obtain ⟨hcs, hds⟩ := madeFrom_append.1 h.closures
  exact ⟨⟨hgs, hcs⟩, hgs', hds⟩

theorem StandsIn.args {args : List Expr}
    (h : StandsIn fs (functionsOfArgs args) (closuresOfArgs args)) : ∀ t ∈ args, t.StandsIn fs := by
  induction args with
  | nil => exact nofun
  | cons t args ih =>
    obtain ⟨ht, hargs⟩ := h.split
    exact List.forall_mem_cons.2 ⟨ht, ih hargs⟩

theorem Nested.standsIn_body (hfs : Nested fs) {c : Closure} (hc : MadeFrom fs c.closures) :
    c.body.StandsIn fs := by
  obtain ⟨hnode, hbody⟩ := madeFrom_closure.1 hc
  exact ⟨hfs c.node hnode, hbody⟩

namespace Store

/-- Were the closures that the store binds made from the functions `fs`? -/
def MadeFrom (fs : List FunctionNode) (st : Store) : Prop :=
  ∀ e x v, st.local? e x = some v → Featherweight.MadeFrom fs v.closures

theorem madeFrom_initial : initial.MadeFrom fs := by
  intro e x v hv
  rw [local?_initial] at hv
  cases hv

theorem MadeFrom.bind (h : st.MadeFrom fs) (hv : Featherweight.MadeFrom fs v.closures) :
    (st.bind e x v).MadeFrom fs := by
  intro e' y w hw
  rcases local?_bind_cases hw with ⟨-, -, rfl⟩ | hw
  · exact hv
  · exact h e' y w hw

theorem MadeFrom.push (h : st.MadeFrom fs) (parent : Option ScopeId) :
    (st.push parent).MadeFrom fs := by
  intro e x v hv
  rw [st.local?_push] at hv
  exact h e x v hv

theorem MadeFrom.resolve (h : st.MadeFrom fs) :
    Featherweight.MadeFrom fs (st.resolve e x).closures := by
  rcases st.resolve_cases (e := e) (x := x) with hnull | ⟨s, hv⟩
  · rw [hnull]
    exact madeFrom_nil
  · exact h s x _ hv

end Store

/-! ### Runs -/

namespace History

/-- Were the closures that any machine passed binds made from the functions `fs`? -/
structure MadeFrom (fs : List FunctionNode) (h : History) : Prop where
  current : h.machine ∈ h.passed
  stores : ∀ m ∈ h.passed, m.store.MadeFrom fs

theorem MadeFrom.now (hh : h.MadeFrom fs) : h.machine.store.MadeFrom fs := hh.stores _ hh.current

theorem MadeFrom.add (hh : h.MadeFrom fs) {m : Machine} (hm : m.store.MadeFrom fs) :
    (h.add m).MadeFrom fs :=
  ⟨List.mem_cons_self, List.forall_mem_cons.2 ⟨hm, hh.stores⟩⟩

end History

/-- Histories whose closures were made from the functions `fs`. -/
def originCourse (fs : List FunctionNode) : Course History where
  Good := History.MadeFrom fs
  Leads _ := History.MadeFrom fs
  refl hh := hh
  trans _ hh := hh
  good hh := hh

/-- Was the value made from the functions, at whatever state? -/
def KnownOrigin (fs : List FunctionNode) (_ : History) (v : Value) : Prop := MadeFrom fs v.closures

/-- May the tree be evaluated, in whatever scope? -/
def KnownTree (fs : List FunctionNode) (_ : History) (_ : ScopeId) (t : Expr) : Prop :=
  t.StandsIn fs

namespace originCourse

variable {P : History → α → Prop} {r : Run α}

theorem keeps_lift (hr : ∀ m, m.store.MadeFrom fs → (settle (r m)).2.store.MadeFrom fs ∧
      ∀ h' a, h'.MadeFrom fs → (settle (r m)).1 = .ok a → P h' a) :
    (originCourse fs).Keeps h P (liftM r : Recorded α) := by
  intro h₁ hh₁
  obtain ⟨hstore, ha⟩ := hr h₁.machine hh₁.now
  show (originCourse fs).Kept h₁ P (MonadLift.monadLift (n := Recorded) r h₁)
  simp only [MonadLift.monadLift]
  generalize r h₁.machine = o at hstore ha
  cases o with
  | ok a m => exact .ok (hh₁.add hstore) (ha _ a (hh₁.add hstore) rfl)
  | error f m => exact .error (hh₁.add hstore)

/-- A run that leaves the store alone. -/
theorem keeps_still (hstore : ∀ m, (settle (r m)).2.store = m.store)
    (hr : ∀ m h' a, m.store.MadeFrom fs → h'.MadeFrom fs → (settle (r m)).1 = .ok a → P h' a) :
    (originCourse fs).Keeps h P (liftM r : Recorded α) := by
  refine keeps_lift fun m hm => ?_
  rw [hstore]
  exact ⟨hm, fun h' a => hr m h' a hm⟩

theorem keeps_update (hv : MadeFrom fs v.closures) :
    (originCourse fs).Keeps h Course.Whatever (liftM (Run.update e x v) : Recorded Unit) :=
  keeps_lift fun _ hm => ⟨hm.bind hv, fun _ _ _ _ => trivial⟩

theorem keeps_declare (hv : MadeFrom fs v.closures) :
    (originCourse fs).Keeps h Course.Whatever (liftM (Run.declare e x v) : Recorded Unit) := by
  refine keeps_lift fun m hm => ⟨?_, fun _ _ _ _ => trivial⟩
  rw [Run.declare_eq]
  split
  · exact hm
  · exact hm.bind hv

theorem keeps_newScope (parent : Option ScopeId) :
    (originCourse fs).Keeps h Course.Whatever
      (liftM (Run.newScope parent) : Recorded ScopeId) :=
  keeps_lift fun _ hm => ⟨hm.push parent, fun _ _ _ _ => trivial⟩

theorem keeps_resolve :
    (originCourse fs).Keeps h (KnownOrigin fs) (liftM (Run.resolve e x) : Recorded Value) := by
  refine keeps_still (fun _ => rfl) fun m _ v hm _ hv => ?_
  cases hv
  exact hm.resolve

theorem keeps_ofExcept {o : Except RuntimeError α}
    (ho : ∀ h' a, h'.MadeFrom fs → o = .ok a → P h' a) :
    (originCourse fs).Keeps h P (liftM (Run.ofExcept o) : Recorded α) := by
  cases o with
  | ok a =>
    refine keeps_still (fun _ => rfl) fun _ h' a' _ hh' ha => ?_
    cases ha
    exact ho h' a hh' rfl
  | error f => exact keeps_still (r := Run.fail f) (fun _ => rfl) nofun

theorem maintains :
    (originCourse fs).Maintains (KnownOrigin fs) (KnownTree fs) Run.record where
  value _ hv := hv
  plain hv := by
    rw [KnownOrigin, hv]
    exact madeFrom_nil
  tree _ ht := ht
  ofExcept := keeps_ofExcept
  exhausted := keeps_still (fun _ => rfl) nofun
  literal ht := ht.closures
  ident _ := keeps_resolve
  print ht := ht
  printLine text := keeps_still (Run.store_printLine text) fun _ _ _ _ _ _ => trivial
  binary ht := ht.split
  ifElse ht := ⟨ht.split.1.split.1, ht.split.1.split.2, ht.split.2⟩
  loop ht := ht.split
  seq ht := ht.split
  declare ht := ⟨ht, fun _ _ _ hv => keeps_declare hv⟩
  assign ht := ⟨ht, fun _ _ _ hv => keeps_update hv⟩
  function {_ _ site ps body} ht := by
    -- This is the only place where a closure comes from.
    have hnode : ⟨site, ps, body⟩ ∈ fs := ht.functions List.mem_cons_self
    have hc (e : ScopeId) : MadeFrom fs (Value.closure ⟨site, ps, body, e⟩).closures :=
      madeFrom_closure.2 ⟨hnode, ht.closures⟩
    exact keeps_lift fun _ hm => ⟨hm.bind (hc _), fun _ _ _ _ => hc _⟩
  call ht := ⟨ht.split.1, ht.split.2.args⟩

/-- Applying a closure evaluates its body, the functions in which are known with the closure. -/
theorem keeps_applyWith (hfs : Nested fs) {self : Expr → ScopeId → Recorded Value}
    (hself : (originCourse fs).KeepsAll (KnownOrigin fs) (KnownTree fs) self) :
    (originCourse fs).AppliesAll (KnownOrigin fs) (applyWith self) := by
  intro h c vs hc hvs
  unfold applyWith
  split
  · refine (keeps_newScope _).bind fun h₁ frame _ _ => ?_
    have hbindings : (originCourse fs).Keeps h₁ Course.Whatever
        (Run.bindAll frame (c.params.zip vs) : Recorded Unit) :=
      .bindAll fun _ hb => keeps_declare (hvs _ (List.of_mem_zip hb).2)
    exact hbindings.bind fun _ _ _ _ => hself (hfs.standsIn_body hc)
  · exact keeps_still (r := Run.fail _) (fun _ => rfl) nofun

/-- A whole run meets closures made from the functions only, by induction on the steps granted. -/
theorem keeps_evalWith (hfs : Nested fs) (n : Nat) :
    (originCourse fs).KeepsAll (KnownOrigin fs) (KnownTree fs)
      (evalWith Run.record n : Expr → ScopeId → Recorded Value) := by
  induction n with
  | zero => exact fun _ => maintains.exhausted
  | succ n ih => exact fun ht => maintains.evalNode ih n ht fun _ _ _ => keeps_applyWith hfs ih

theorem keeps_interpretWith (hfs : Nested fs) (n : Nat) {t : Expr} (ht : t.StandsIn fs) :
    (originCourse fs).Keeps h (KnownOrigin fs)
      (interpretWith Run.record n t : Recorded Value) := by
  have hflush {h : History} : (originCourse fs).Keeps h Course.Whatever
      (liftM Run.flush : Recorded Unit) :=
    keeps_still Run.store_flush fun _ _ _ _ _ _ => trivial
  exact (keeps_evalWith hfs n ht).bind fun _ _ _ hv => maintains.answering hflush hv

end originCourse

/-! ### Requests -/

/-- The programs that a request runs. -/
def Request.programs : Request → List Expr
  | interpret _ t  => [t]
  | evaluate _ t _ => [t]
  | _              => []

/-- The closures that a request brings with it, in its program or by themselves. -/
def Request.closures : Request → List Closure
  | interpret _ t  => t.closures
  | evaluate _ t _ => t.closures
  | apply _ c args => c.closures ++ args.flatMap Value.closures
  | newRoot        => []
  | newChild _     => []
  | declare _ _ v  => v.closures
  | update _ _ v   => v.closures
  | resolve _ _    => []

/-- The closures in an answer. -/
def Answer.closures : Answer → List Closure
  | value v => v.closures
  | scope _ => []
  | done    => []

namespace originCourse

theorem keeps_map {P : History → α → Prop} {Q : History → β → Prop} {r : Recorded α} {f : α → β}
    (hr : (originCourse fs).Keeps h P r) (hf : ∀ h' a, P h' a → ∀ h'', Q h'' (f a)) :
    (originCourse fs).Keeps h Q (f <$> r) := by
  rw [← bind_pure_comp]
  exact hr.bind fun h' a _ ha => .pure fun h'' _ => hf h' a ha h''

/-- A request whose program has functions of `fs` only, and which brings with it closures made from
them, is answered with closures made from them, whichever request it is. -/
theorem keeps_recorded (hfs : Nested fs) (r : Request)
    (hprograms : ∀ t ∈ r.programs, t.functions ⊆ fs) (hclosures : MadeFrom fs r.closures) :
    (originCourse fs).Keeps h (fun _ a => MadeFrom fs a.closures) r.recorded := by
  cases r with
  | interpret n t =>
    have ht : t.StandsIn fs := ⟨hprograms t List.mem_cons_self, hclosures⟩
    exact keeps_map (keeps_interpretWith hfs n ht) fun _ _ hv _ => hv
  | evaluate n t e =>
    have ht : t.StandsIn fs := ⟨hprograms t List.mem_cons_self, hclosures⟩
    exact keeps_map (keeps_evalWith hfs n ht) fun _ _ hv _ => hv
  | apply n c args =>
    obtain ⟨hc, hargs⟩ := madeFrom_append.1 hclosures
    have hargs : ∀ v ∈ args, MadeFrom fs v.closures :=
      fun v hv d hd => hargs d (List.mem_flatMap.2 ⟨v, hv, hd⟩)
    exact keeps_map (keeps_applyWith hfs (keeps_evalWith hfs n) hc hargs) fun _ _ hv _ => hv
  | newRoot => exact keeps_map (keeps_newScope none) fun _ _ _ _ => madeFrom_nil
  | newChild e => exact keeps_map (keeps_newScope (some e)) fun _ _ _ _ => madeFrom_nil
  | declare e x v => exact keeps_map (keeps_declare hclosures) fun _ _ _ _ => madeFrom_nil
  | update e x v => exact keeps_map (keeps_update hclosures) fun _ _ _ _ => madeFrom_nil
  | resolve e x => exact keeps_map keeps_resolve fun _ _ hv _ => hv

end originCourse

/-! ### Clients -/

/-- A client: all machines that its requests passed, and the closures that it was answered with. -/
structure Client where
  history : History
  held : List Closure

namespace Client

/-- A client that has asked for nothing yet, which prints to `sink`. -/
def start (sink : Sink) : Client := ⟨.start ⟨.initial, sink⟩, []⟩

/-- Was the client answered with the closure, or did a scope bind it at some time, by itself or in
the body of another one? -/
def Occurs (s : Client) (c : Closure) : Prop :=
  c ∈ s.held ∨
    ∃ m ∈ s.history.passed, ∃ e x v, m.store.local? e x = some v ∧ c ∈ v.closures

/-- Is the request to run one of the programs, if any, and does it bring with it no closures but
those that occurred? -/
structure Allows (programs : List Expr) (s : Client) (r : Request) : Prop where
  programs : ∀ t ∈ r.programs, t ∈ programs
  closures : ∀ c ∈ r.closures, s.Occurs c

/-- A request that is answered or fails. -/
inductive Step (programs : List Expr) : Client → Client → Prop
  | answered {s : Client} {r : Request} {a : Answer} {h : History} (hr : s.Allows programs r)
      (hperform : r.recorded s.history = .ok a h) : Step programs s ⟨h, a.closures ++ s.held⟩
  | failed {s : Client} {r : Request} {f : Halt} {h : History} (hr : s.Allows programs r)
      (hperform : r.recorded s.history = .error f h) : Step programs s ⟨h, s.held⟩

/-- Any number of requests, one after the other. -/
def Later (programs : List Expr) : Client → Client → Prop := Relation.ReflTransGen (Step programs)

variable {programs : List Expr} {s s' : Client}

/-- Were all closures that occurred made from the functions `fs`? -/
structure Sound (fs : List FunctionNode) (s : Client) : Prop where
  history : s.history.MadeFrom fs
  held : MadeFrom fs s.held

theorem sound_start (sink : Sink) : (start sink).Sound fs where
  history := ⟨List.mem_singleton_self _, List.forall_mem_singleton.2 Store.madeFrom_initial⟩
  held := madeFrom_nil

theorem Sound.node_mem (hs : s.Sound fs) {c : Closure} (hc : s.Occurs c) : c.node ∈ fs := by
  rcases hc with hheld | ⟨m, hm, e, x, v, hx, hc⟩
  · exact hs.held c hheld
  · exact hs.history.stores m hm e x v hx c hc

theorem Sound.keeps (hs : s.Sound (functionsOfArgs programs)) {r : Request}
    (hr : s.Allows programs r) :
    (originCourse (functionsOfArgs programs)).Kept s.history
      (fun _ a => MadeFrom (functionsOfArgs programs) a.closures) (r.recorded s.history) :=
  originCourse.keeps_recorded (h := s.history) (nested_functionsOfArgs programs) r
    (fun t ht => functions_subset_functionsOfArgs (hr.programs t ht))
    (fun c hc => hs.node_mem (hr.closures c hc)) s.history hs.history

/-- What one request keeps. -/
theorem Step.sound (h : Step programs s s') (hs : s.Sound (functionsOfArgs programs)) :
    s'.Sound (functionsOfArgs programs) := by
  cases h with
  | answered hr hperform =>
    have hkept := hs.keeps hr
    rw [hperform] at hkept
    cases hkept with
    | ok hh ha => exact ⟨hh, madeFrom_append.2 ⟨ha, hs.held⟩⟩
  | failed hr hperform =>
    have hkept := hs.keeps hr
    rw [hperform] at hkept
    cases hkept with
    | error hh => exact ⟨hh, hs.held⟩

/-- What any number of requests keep, by induction on the requests. -/
theorem Later.sound (h : s.Later programs s') (hs : s.Sound (functionsOfArgs programs)) :
    s'.Sound (functionsOfArgs programs) := by
  induction h with
  | refl => exact hs
  | tail _ hstep ih => exact hstep.sound ih

/-- Closures that come from one site and captured one scope cannot be told apart, at whatever times
and places a client meets them, if no two functions in its programs share their site. -/
theorem same_interchangeable (hsites : DistinctSites programs) {sink : Sink}
    (hs : (start sink).Later programs s) {c d : Closure} (hc : s.Occurs c) (hd : s.Occurs d)
    (hsame : c.same d = true) :
    c.params = d.params ∧ c.render = d.render ∧ c.arity = d.arity ∧
      ∀ n args m, apply n c args m = apply n d args m := by
  have hsound := hs.sound (sound_start sink)
  obtain ⟨hsite, hscope⟩ : c.site = d.site ∧ c.scope = d.scope := by
    simpa [Closure.same] using hsame
  have hnode : c.node = d.node := hsites _ (hsound.node_mem hc) _ (hsound.node_mem hd) hsite
  obtain rfl := Closure.eq_of_node hnode hscope
  exact ⟨rfl, rfl, rfl, fun _ _ _ => rfl⟩

/-- The program `function (x) { x; };`. -/
def makesIdentity : Expr := .function 0 ["x"] (.ident "x")

/-- The closure that the program evaluates to in the globals. -/
def identity : Closure := ⟨0, ["x"], .ident "x", Store.globals⟩

/-- The client once it has run the program. -/
def afterIdentity (s : Client) : Client where
  history := s.history.add { s.history.machine with
    store := s.history.machine.store.update Store.globals identity.render (.closure identity) }
  held := [identity] ++ s.held

theorem step_afterIdentity (s : Client) : Step [makesIdentity] s (afterIdentity s) :=
  .answered (r := .evaluate 1 makesIdentity Store.globals) (a := .value (.closure identity))
    ⟨List.forall_mem_singleton.2 List.mem_cons_self, nofun⟩ rfl

/-- A program that is run twice makes two closures that are the same. The client was answered with
one, and the globals bind one under its text. -/
theorem same_interchangeable_identity :
    DistinctSites [makesIdentity] ∧
      ∃ s c d, (start .unlimited).Later [makesIdentity] s ∧ c ∈ s.held ∧
        s.history.machine.store.local? Store.globals d.render = some (.closure d) ∧
        c.same d = true ∧ c.params = d.params ∧
        ∀ n args m, apply n c args m = apply n d args m := by
  have hsites : DistinctSites [makesIdentity] :=
    distinctSites_mapM_load [makesIdentity] (.initial .unlimited)
  let s := afterIdentity (afterIdentity (start .unlimited))
  have hlater : (start .unlimited).Later [makesIdentity] s :=
    .tail (.single (step_afterIdentity _)) (step_afterIdentity _)
  have hheld : identity ∈ s.held := List.mem_cons_self
  have hbound : s.history.machine.store.local? Store.globals identity.render =
      some (.closure identity) := by with_unfolding_all rfl
  have hoccurs : s.Occurs identity :=
    .inr ⟨_, List.mem_cons_self, _, _, _, hbound, List.mem_cons_self⟩
  have hsame : identity.same identity = true := by decide
  obtain ⟨hparams, -, -, happly⟩ :=
    same_interchangeable hsites hlater (.inl hheld) hoccurs hsame
  exact ⟨hsites, s, _, _, hlater, hheld, hbound, hsame, hparams, happly⟩

end Client

end Featherweight
