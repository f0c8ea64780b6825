import Featherweight.Proofs.Evaluation.Chronicle
import Featherweight.Proofs.Evaluation.Course
import Featherweight.Proofs.Evaluation.Renaming

/-!
# The latest closures

The globals serve as an index of the closures made: under the text of a list of parameters they bind
the latest closure with these parameters, and no other scope binds such a text (`Store.Indexes`).

A closure is recorded from whatever scope it is made in, so this rests on two facts. There is one
root only, as every frame lies inside a scope that exists. And no scope on the way to it binds the
text, as programs declare and assign identifiers only. Texts of different parameters differ
(`closureKey_inj`).
-/

namespace Featherweight

/-! ### Texts of closures -/

/-- The text of the closures with the parameters `ps`. -/
def closureKey (ps : List String) : String := "function(" ++ ",".intercalate ps ++ ") \x7b...\x7d;"

theorem Closure.render_eq_closureKey (c : Closure) : c.render = closureKey c.params := rfl

/-- Are the names identifiers? -/
def Identifiers (xs : List String) : Prop := ∀ x ∈ xs, isIdentifier x = true

theorem closureKey_inj {ps qs : List String} (hps : Identifiers ps) (hqs : Identifiers qs)
    (h : closureKey ps = closureKey qs) : ps = qs :=
  Closure.params_eq_of_render (c := ⟨0, ps, .null, Store.globals⟩)
    (d := ⟨0, qs, .null, Store.globals⟩) hps hqs h

theorem ne_closureKey {x : String} (hx : isIdentifier x = true) (ps : List String) :
    x ≠ closureKey ps :=
  fun h => not_isClosureKey hx ⟨⟨0, ps, .null, Store.globals⟩, h⟩

theorem Closure.names_eq (c : Closure) : c.names = c.params ++ c.body.names := by
  cases c
  rfl

theorem Value.names_of_plain {v : Value} (hv : v.closures = []) : v.names = [] := by
  cases v with
  | closure c =>
    cases c
    cases hv
  | _ => rfl

/-- The latest closure with the parameters `ps` of those that were made. -/
def latest (made : List Closure) (ps : List String) : Option Closure :=
  made.find? fun c => c.params = ps

theorem latest_cons (c : Closure) (made : List Closure) (ps : List String) :
    latest (c :: made) ps = if c.params = ps then some c else latest made ps := by
  unfold latest
  rw [List.find?_cons]
  split <;> simp_all

theorem latest_eq_some_iff {made : List Closure} {ps : List String} {c : Closure} :
    latest made ps = some c ↔ ∃ later earlier, made = later ++ c :: earlier ∧ c.params = ps ∧
      ∀ d ∈ later, d.params ≠ ps := by
  unfold latest
  rw [List.find?_eq_some_iff_append]
  simp only [decide_eq_true_eq, Bool.not_eq_true', decide_eq_false_iff_not]
  constructor
  · rintro ⟨hparams, later, earlier, hmade, hlater⟩
    exact ⟨later, earlier, hmade, hparams, hlater⟩
  · rintro ⟨later, earlier, hmade, hparams, hlater⟩
    exact ⟨hparams, later, earlier, hmade, hlater⟩

theorem isSome_latest_iff {made : List Closure} {ps : List String} :
    (latest made ps).isSome = true ↔ ∃ c ∈ made, c.params = ps := by
  unfold latest
  simp only [List.find?_isSome, decide_eq_true_eq]

namespace Store

variable {st : Store} {e p : ScopeId} {x : String} {v : Value} {ps : List String}

/-! ### Stores with one root -/

/-- Does every scope but the globals lie inside another one, does the store hold all that it refers
to, and are the names in the values that it binds identifiers? -/
structure Regular (st : Store) : Prop where
  globals : st.Holds Store.globals
  inside : ∀ e, st.Holds e → e ≠ Store.globals → ∃ p, st.parent? e = some p
  closed : st.Closed
  names : ∀ e x v, st.local? e x = some v → Identifiers v.names

theorem regular_initial : initial.Regular where
  globals := Nat.zero_lt_one
  inside e he hne := absurd (Nat.lt_one_iff.1 he) hne
  closed := closed_initial
  names e x v hv := by
    rw [local?_initial] at hv
    cases hv

/-- Every walk outward ends at the globals. -/
theorem Regular.root_eq (h : st.Regular) (he : st.Holds e) : st.root e = Store.globals := by
  have hheld := st.forall_mem_chain (fun _ hp => (st.holds_parent? hp).2) he
  by_contra hne
  obtain ⟨p, hp⟩ := h.inside _ (hheld _ (st.root_mem_chain e)) hne
  rw [st.parent?_root] at hp
  cases hp

theorem Regular.names_resolve (h : st.Regular) : Identifiers (st.resolve e x).names := by
  rcases st.resolve_cases (e := e) (x := x) with hnull | ⟨s, hv⟩
  · rw [hnull]
    exact nofun
  · exact h.names s x _ hv

theorem Regular.bind (h : st.Regular) (hv : st.HoldsAll v.closures) (hnames : Identifiers v.names) :
    (st.bind e x v).Regular where
  globals := (st.holds_bind e _ x v).2 h.globals
  inside e' he hne := by
    rw [st.parent?_bind]
    exact h.inside e' ((st.holds_bind e e' x v).1 he) hne
  closed := h.closed.bind hv
  names e' y w hw := by
    rcases local?_bind_cases hw with ⟨-, -, rfl⟩ | hw
    · exact hnames
    · exact h.names e' y w hw

theorem Regular.push (h : st.Regular) (hp : st.Holds p) : (st.push (some p)).Regular where
  globals := (st.holds_push _ _).2 (.inl h.globals)
  inside e he hne := by
    rcases (st.holds_push e (some p)).1 he with he | rfl
    · rw [st.parent?_push e (some p) (Nat.ne_of_lt he)]
      exact h.inside e he hne
    · exact ⟨p, st.parent?_push_fresh_of_holds hp⟩
  closed := h.closed.push _
  names e x v hv := by
    rw [st.local?_push] at hv
    exact h.names e x v hv

/-! ### Stores that index closures -/

/-- Do the globals bind, of all texts of closures, just those of the closures `made`, each to the
latest closure, and do all other bindings have identifiers for names? -/
structure Indexes (st : Store) (made : List Closure) : Prop where
  regular : st.Regular
  keys : ∀ e x, st.binds e x = true →
    isIdentifier x = true ∨ e = Store.globals ∧ ∃ ps, Identifiers ps ∧ x = closureKey ps
  latest : ∀ ps, Identifiers ps →
    st.local? Store.globals (closureKey ps) = (latest made ps).map .closure

theorem indexes_initial : initial.Indexes [] where
  regular := regular_initial
  keys e x hx := by
    rw [binds, local?_initial] at hx
    cases hx
  latest ps _ := local?_initial _ _

variable {made : List Closure}

/-- Nothing but the globals binds the text of a closure. -/
theorem Indexes.eq_globals (h : st.Indexes made) (he : st.binds e (closureKey ps) = true) :
    e = Store.globals := by
  rcases h.keys e _ he with hx | ⟨hglobals, -⟩
  · exact absurd rfl (ne_closureKey hx ps)
  · exact hglobals

/-- From everywhere the text of a closure is written to the globals. -/
theorem Indexes.update_closureKey (h : st.Indexes made) (he : st.Holds e) (ps : List String)
    (v : Value) : st.update e (closureKey ps) v = st.bind Store.globals (closureKey ps) v := by
  unfold update
  cases hholder : st.holder? e (closureKey ps) with
  | none =>
    rw [← h.regular.root_eq he]
    rfl
  | some s =>
    have hs : s = Store.globals :=
      h.eq_globals (List.find?_some (p := fun s => st.binds s (closureKey ps)) hholder)
    rw [hs]
    rfl

/-- Binding an identifier leaves the index as it is. -/
theorem Indexes.bind (h : st.Indexes made) (hv : st.HoldsAll v.closures)
    (hnames : Identifiers v.names) (hx : isIdentifier x = true) : (st.bind e x v).Indexes made where
  regular := h.regular.bind hv hnames
  keys e' y hy := by
    rcases binds_bind_cases hy with ⟨-, rfl⟩ | hy
    · exact .inl hx
    · exact h.keys e' y hy
  latest ps hps := by
    rw [st.local?_bind_of_ne e _ x _ v fun heq => ne_closureKey hx ps heq.2]
    exact h.latest ps hps

/-- Recording a closure that is made puts it in the index. -/
theorem Indexes.record {c : Closure} (h : st.Indexes made) (hc : st.HoldsAll c.closures)
    (hnames : Identifiers c.names) :
    (st.update c.scope c.render (.closure c)).Indexes (c :: made) := by
  have hparams : Identifiers c.params := by
    rw [c.names_eq] at hnames
    exact (List.forall_mem_append.1 hnames).1
  rw [c.render_eq_closureKey, h.update_closureKey (holdsAll_closure.1 hc).1]
  refine ⟨h.regular.bind hc hnames, fun e x hx => ?_, fun ps hps => ?_⟩
  · rcases binds_bind_cases hx with ⟨rfl, rfl⟩ | hx
    · exact .inr ⟨rfl, c.params, hparams, rfl⟩
    · exact h.keys e x hx
  · have hiff : closureKey c.params = closureKey ps ↔ c.params = ps :=
      ⟨closureKey_inj hparams hps, congrArg closureKey⟩
    rw [st.local?_bind _ _ _ _ _ h.regular.globals, latest_cons]
    simp only [true_and, hiff]
    split
    · rfl
    · exact h.latest ps hps

theorem Indexes.push (h : st.Indexes made) (hp : st.Holds p) :
    (st.push (some p)).Indexes made where
  regular := h.regular.push hp
  keys e x hx := by
    unfold binds at hx
    rw [st.local?_push] at hx
    exact h.keys e x hx
  latest ps hps := by
    rw [st.local?_push]
    exact h.latest ps hps

end Store

/-! ### Chronicles of stores that index closures -/

namespace Chronicle

variable {α : Type} {s s' : Chronicle} {e : ScopeId} {x : String} {v : Value}

/-- Is the run at a moment passed, and does the store index the closures made at each of them? -/
structure Sound (s : Chronicle) : Prop where
  current : s.now ∈ s.passed
  indexes : ∀ m ∈ s.passed, m.machine.store.Indexes m.made

theorem Sound.now_indexes (h : s.Sound) : s.store.Indexes s.now.made := h.indexes _ h.current

/-- Does a chronicle go on with another one, whose store came from the one it was at? -/
structure Leads (s s' : Chronicle) : Prop where
  sound : s'.Sound
  grows : s.store.Extends s'.store

theorem Sound.leads_add (h : s.Sound) {m : Moment} (hgrows : s.store.Extends m.machine.store)
    (hm : m.machine.store.Indexes m.made) : s.Leads (s.add m) :=
  ⟨⟨List.mem_cons_self, List.forall_mem_cons.2 ⟨hm, h.indexes⟩⟩, hgrows⟩

/-- Chronicles whose stores index the closures made. -/
def course : Course Chronicle where
  Good := Sound
  Leads := Leads
  refl h := ⟨h, .refl _⟩
  trans h h' := ⟨h'.sound, h.grows.trans h'.grows⟩
  good := Leads.sound

/-- Is all that the value captured in the store, and are the names in it identifiers? -/
def Knows (s : Chronicle) (v : Value) : Prop := Known s.store v ∧ Identifiers v.names

/-- Is `e` a scope of the store, and are the scopes captured by the closures, and the names
identifiers? -/
structure Admits (s : Chronicle) (e : ScopeId) (cs : List Closure) (xs : List String) : Prop where
  holds : s.store.Holds e
  closures : s.store.HoldsAll cs
  names : Identifiers xs

/-- May the tree be evaluated in the scope `e`, for what stands in it? -/
def AdmitsTree (s : Chronicle) (e : ScopeId) (t : Expr) : Prop := s.Admits e t.closures t.names

theorem Knows.later (hv : s.Knows v) (h : s.Leads s') : s'.Knows v := ⟨hv.1.mono h.grows, hv.2⟩

theorem knows_of_plain (hv : v.closures = []) : s.Knows v := by
  unfold Knows Known Store.HoldsAll Identifiers
  rw [hv, Value.names_of_plain hv]
  exact ⟨List.forall_mem_nil _, List.forall_mem_nil _⟩

theorem Admits.later {cs : List Closure} {xs : List String} (ha : s.Admits e cs xs)
    (h : s.Leads s') : s'.Admits e cs xs :=
  ⟨h.grows.holds ha.holds, ha.closures.mono h.grows, ha.names⟩

/-- What is asked for a tree is asked for each of its parts. -/
theorem Admits.split {cs ds : List Closure} {xs ys : List String}
    (h : s.Admits e (cs ++ ds) (xs ++ ys)) : s.Admits e cs xs ∧ s.Admits e ds ys := by
  obtain ⟨hcs, hds⟩ := Store.holdsAll_append.1 h.closures
  obtain ⟨hxs, hys⟩ := List.forall_mem_append.1 h.names
  exact ⟨⟨h.holds, hcs, hxs⟩, h.holds, hds, hys⟩

theorem Admits.args {args : List Expr} (h : s.Admits e (closuresOfArgs args) (namesOfArgs args)) :
    ∀ t ∈ args, s.AdmitsTree e t := by
  induction args with
  | nil => exact nofun
  | cons t args ih =>
    obtain ⟨ht, hargs⟩ := h.split
    exact List.forall_mem_cons.2 ⟨ht, ih hargs⟩

/-! ### Runs -/

variable {P : Chronicle → α → Prop} {r : Run α}

/-- A run after which the store indexes the closures made in it as well. -/
theorem keeps_pass (new : List Closure) (hr : ∀ s', s.Leads s' →
      s'.store.Extends (settle (r s'.now.machine)).2.store ∧
      (settle (r s'.now.machine)).2.store.Indexes (new ++ s'.now.made) ∧
      ∀ s'' a, s.Leads s'' → s''.store = (settle (r s'.now.machine)).2.store →
        (settle (r s'.now.machine)).1 = .ok a → P s'' a) :
    course.Keeps s P (pass new r) := by
  intro s' hs
  obtain ⟨hgrows, hindexes, ha⟩ := hr s' hs
  show course.Kept s' P (pass new r s')
  unfold pass
  generalize r s'.now.machine = o at hgrows hindexes ha
  cases o with
  | ok a m =>
    have hleads := hs.sound.leads_add (m := ⟨m, new ++ s'.now.made⟩) hgrows hindexes
    exact .ok hleads (ha _ a (course.trans hs hleads) rfl rfl)
  | error f m => exact .error (hs.sound.leads_add hgrows hindexes)

/-- A run that leaves the store alone. -/
theorem keeps_still (hstore : ∀ m, (settle (r m)).2.store = m.store)
    (hr : ∀ s' s'' a, s.Leads s' → s.Leads s'' → s''.store = s'.store →
      (settle (r s'.now.machine)).1 = .ok a → P s'' a) :
    course.Keeps s P (liftM r : Chronicled α) := by
  refine keeps_pass (r := r) [] fun s' hs => ?_
  rw [hstore]
  exact ⟨.refl _, hs.sound.now_indexes, fun s'' a => hr s' s'' a hs⟩

/-- A run that binds an identifier somewhere, if it binds anything. -/
theorem keeps_bind {r : Run Unit} (hv : s.Knows v) (hx : isIdentifier x = true)
    (hr : ∀ m, (settle (r m)).2.store = m.store ∨
      ∃ e, (settle (r m)).2.store = m.store.bind e x v) :
    course.Keeps s Course.Whatever (liftM r : Chronicled Unit) := by
  refine keeps_pass (r := r) [] fun s' hs => ?_
  rcases hr s'.now.machine with hstore | ⟨e, hstore⟩
  · rw [hstore]
    exact ⟨.refl _, hs.sound.now_indexes, fun _ _ _ _ _ => trivial⟩
  · have hv' := hv.later hs
    rw [hstore]
    exact ⟨s'.store.extends_bind e x v, hs.sound.now_indexes.bind hv'.1 hv'.2 hx,
      fun _ _ _ _ _ => trivial⟩

theorem keeps_update (hv : s.Knows v) (hx : isIdentifier x = true) :
    course.Keeps s Course.Whatever (liftM (Run.update e x v) : Chronicled Unit) :=
  keeps_bind hv hx fun _ => .inr ⟨_, rfl⟩

theorem keeps_declare (hv : s.Knows v) (hx : isIdentifier x = true) :
    course.Keeps s Course.Whatever (liftM (Run.declare e x v) : Chronicled Unit) := by
  refine keeps_bind hv hx fun m => ?_
  rw [Run.declare_eq]
  split
  · exact .inl rfl
  · exact .inr ⟨e, rfl⟩

theorem keeps_ofExcept {o : Except RuntimeError α}
    (ho : ∀ s' a, s.Leads s' → o = .ok a → P s' a) :
    course.Keeps s P (liftM (Run.ofExcept o) : Chronicled α) := by
  cases o with
  | ok a =>
    refine keeps_still (fun _ => rfl) fun _ s'' a' _ hs'' _ ha => ?_
    cases ha
    exact ho s'' a hs'' rfl
  | error f => exact keeps_still (r := Run.fail f) (fun _ => rfl) nofun

theorem keeps_resolve : course.Keeps s Knows (liftM (Run.resolve e x) : Chronicled Value) := by
  refine keeps_still (fun _ => rfl) fun s' s'' v hs _ hsame hv => ?_
  cases hv
  have hregular := hs.sound.now_indexes.regular
  rw [Knows, hsame]
  exact ⟨hregular.closed.resolve, hregular.names_resolve⟩

theorem keeps_printLine (text : String) :
    course.Keeps s Course.Whatever (liftM (Run.printLine text) : Chronicled Unit) :=
  keeps_still (Run.store_printLine text) fun _ _ _ _ _ _ _ => trivial

theorem keeps_flush : course.Keeps s Course.Whatever (liftM Run.flush : Chronicled Unit) :=
  keeps_still Run.store_flush fun _ _ _ _ _ _ _ => trivial

theorem keeps_newScope {p : ScopeId} (hp : s.store.Holds p) :
    course.Keeps s (fun s' e => s'.store.Holds e)
      (liftM (Run.newScope (some p)) : Chronicled ScopeId) := by
  refine keeps_pass (r := Run.newScope (some p)) [] fun s' hs => ⟨s'.store.extends_push _,
    hs.sound.now_indexes.push (hs.grows.holds hp), fun s'' e _ hstore he => ?_⟩
  cases he
  rw [hstore]
  exact (s'.store.holds_push _ _).2 (.inr rfl)

theorem keeps_makeChronicled {c : Closure} (hc : s.Knows (.closure c)) :
    course.Keeps s Knows (makeChronicled c) := by
  have hmade : course.Keeps s Course.Whatever (pass [c] (Run.record c)) := by
    refine keeps_pass [c] fun s' hs => ?_
    have hc' := hc.later hs
    exact ⟨s'.store.extends_update _ _ _, hs.sound.now_indexes.record hc'.1 hc'.2,
      fun _ _ _ _ _ => trivial⟩
  exact hmade.bind fun s₁ _ hs₁ _ => .pure fun s₂ hs₂ => (hc.later hs₁).later hs₂

theorem keeps_applyWith {self : Expr → ScopeId → Chronicled Value}
    (hself : course.KeepsAll Knows AdmitsTree self) : course.AppliesAll Knows (applyWith self) := by
  intro s c vs hc hvs
  obtain ⟨hscope, hbody⟩ := Store.holdsAll_closure.1 hc.1
  have hnames : Identifiers (c.params ++ c.body.names) := c.names_eq ▸ hc.2
  obtain ⟨hparams, hbodyNames⟩ := List.forall_mem_append.1 hnames
  unfold applyWith
  split
  · refine (keeps_newScope hscope).bind fun s₁ frame hs₁ hframe => ?_
    have hbindings : course.Keeps s₁ Course.Whatever
        (Run.bindAll frame (c.params.zip vs) : Chronicled Unit) := by
      refine .bindAll fun b hb => ?_
      obtain ⟨hx, hv⟩ := List.of_mem_zip hb
      exact keeps_declare ((hvs _ hv).later hs₁) (hparams _ hx)
    refine hbindings.bind fun s₂ _ hs₂ _ => hself ⟨hs₂.grows.holds hframe, ?_, hbodyNames⟩
    exact hbody.mono (hs₁.grows.trans hs₂.grows)
  · exact keeps_still (r := Run.fail _) (fun _ => rfl) nofun

/-! ### Evaluation -/

/-- Functions are left out, as what they do is more than a run on the machine. -/
theorem maintains : course.Maintains Knows AdmitsTree fun _ => pure () where
  value hs hv := hv.later hs
  plain := knows_of_plain
  tree hs ht := ht.later hs
  ofExcept := keeps_ofExcept
  exhausted := keeps_still (fun _ => rfl) nofun
  literal ht := ⟨ht.closures, ht.names⟩
  ident _ := keeps_resolve
  print ht := ht
  printLine := keeps_printLine
  binary ht := ht.split
  ifElse ht := ⟨ht.split.1.split.1, ht.split.1.split.2, ht.split.2⟩
  loop ht := ht.split
  seq ht := ht.split
  declare ht := by
    obtain ⟨hx, hnames⟩ := List.forall_mem_cons.1 ht.names
    exact ⟨⟨ht.holds, ht.closures, hnames⟩, fun _ _ _ hv => keeps_declare hv hx⟩
  assign ht := by
    obtain ⟨hx, hnames⟩ := List.forall_mem_cons.1 ht.names
    exact ⟨⟨ht.holds, ht.closures, hnames⟩, fun _ _ _ hv => keeps_update hv hx⟩
  function {s e site ps body} ht := by
    have hc : s.Knows (.closure ⟨site, ps, body, e⟩) :=
      ⟨Store.holdsAll_closure.2 ⟨ht.holds, ht.closures⟩, ht.names⟩
    exact keeps_still (fun _ => rfl) fun _ _ _ _ hs _ _ => hc.later hs
  call ht := ⟨ht.split.1, ht.split.2.args⟩

theorem keeps_evalChronicled (n : Nat) : course.KeepsAll Knows AdmitsTree (evalChronicled n) := by
  induction n with
  | zero => exact fun _ => maintains.exhausted
  | succ n ih =>
    intro s t e ht
    by_cases hfunction : t.IsFunction
    · obtain ⟨site, ps, body, rfl⟩ := hfunction
      -- The closure captures the scope that it is made in, which the store holds.
      exact keeps_makeChronicled ⟨Store.holdsAll_closure.2 ⟨ht.holds, ht.closures⟩, ht.names⟩
    · rw [evalChronicled, nodeChronicled_of_not_isFunction hfunction,
        evalNode_of_not_isFunction hfunction _ fun _ => pure ()]
      exact maintains.evalNode ih n ht fun _ _ _ => keeps_applyWith ih

theorem keeps_interpretChronicled (n : Nat) {t : Expr} (ht : s.AdmitsTree Store.globals t) :
    course.Keeps s Knows (interpretChronicled n t) :=
  (keeps_evalChronicled n ht).bind fun _ _ _ hv => maintains.answering keeps_flush hv

/-! ### Programs -/

theorem sound_start (sink : Sink) : (start ⟨.initial, sink⟩).Sound where
  current := List.mem_singleton_self _
  indexes := List.forall_mem_singleton.2 Store.indexes_initial

/-- The store indexes the closures made at every moment of programs without closures, by induction
on the programs. -/
theorem Sound.chronicleEach (hs : s.Sound) (n : Nat) {ts : List Expr}
    (hts : ∀ t ∈ ts, Identifiers t.names ∧ t.closures = []) : (chronicleEach n ts s).2.Sound := by
  induction ts generalizing s with
  | nil => exact hs
  | cons t ts ih =>
    obtain ⟨⟨hnames, hclosures⟩, hts⟩ := List.forall_mem_cons.1 hts
    have ht : s.AdmitsTree Store.globals t :=
      ⟨hs.now_indexes.regular.globals, hclosures ▸ nofun, hnames⟩
    exact ih (keeps_interpretChronicled n ht s (course.refl hs)).leads.sound hts

end Chronicle

/-- Are the texts of closures bound by the globals only, each to the latest closure with its
parameters, and just if there is one? -/
structure Moment.SelfDescribing (m : Moment) : Prop where
  keys : ∀ x, m.machine.store.binds Store.globals x = true →
    isIdentifier x = true ∨ ∃ ps, Identifiers ps ∧ x = closureKey ps
  latest : ∀ ps, Identifiers ps → ∀ v,
    m.machine.store.local? Store.globals (closureKey ps) = some v ↔
      ∃ c later earlier, v = .closure c ∧ c.params = ps ∧ m.made = later ++ c :: earlier ∧
        ∀ d ∈ later, d.params ≠ ps
  bound : ∀ ps, Identifiers ps →
    (m.machine.store.binds Store.globals (closureKey ps) = true ↔ ∃ c ∈ m.made, c.params = ps)
  others : ∀ e ps, e ≠ Store.globals → m.machine.store.binds e (closureKey ps) = false

theorem Store.Indexes.selfDescribing {m : Moment} (h : m.machine.store.Indexes m.made) :
    m.SelfDescribing where
  keys x hx := (h.keys _ x hx).imp_right And.right
  latest ps hps v := by
    rw [h.latest ps hps, Option.map_eq_some_iff]
    constructor
    · rintro ⟨c, hc, rfl⟩
      obtain ⟨later, earlier, hmade, hparams, hlater⟩ := latest_eq_some_iff.1 hc
      exact ⟨c, later, earlier, rfl, hparams, hmade, hlater⟩
    · rintro ⟨c, later, earlier, rfl, hparams, hmade, hlater⟩
      exact ⟨c, latest_eq_some_iff.2 ⟨later, earlier, hmade, hparams, hlater⟩, rfl⟩
  bound ps hps := by
    rw [Store.binds, h.latest ps hps, Option.isSome_map]
    exact isSome_latest_iff
  others e ps he := Bool.eq_false_iff.2 fun hbinds => he (h.eq_globals hbinds)

/-- Whatever programs run one after the other on a fresh machine, if their names are identifiers and
no closures stand in them: at every moment passed, also after failures, the globals bind identifiers
and texts of closures only, a text of closures just if one was made, and to the latest one. No other
scope binds such a text. Keeping account of the closures made changes nothing. -/
theorem closureKeys_latest (sink : Sink) (n : Nat) {programs : List Expr}
    (hprograms : ∀ t ∈ programs, Identifiers t.names ∧ t.closures = []) :
    (∀ m ∈ (chronicleEach n programs (.start ⟨.initial, sink⟩)).2.passed, m.SelfDescribing) ∧
      interpretEach Run.record n programs (⟨.initial, sink⟩ : Machine) =
        ((chronicleEach n programs (.start ⟨.initial, sink⟩)).1,
          (chronicleEach n programs (.start ⟨.initial, sink⟩)).2.now.machine) ∧
      (interpretEach Run.record n programs (History.start ⟨.initial, sink⟩)).2.passed =
        (chronicleEach n programs (.start ⟨.initial, sink⟩)).2.passed.map Moment.machine := by
  have hsound := (Chronicle.sound_start sink).chronicleEach n hprograms
  have hchronicled := interpretEach_chronicled n programs (.start ⟨.initial, sink⟩)
  have hrecorded := interpretEach_recorded Run.record n programs (History.start ⟨.initial, sink⟩)
  refine ⟨fun m hm => (hsound.indexes m hm).selfDescribing, ?_, ?_⟩
  · show interpretEach Run.record n programs (History.start ⟨.initial, sink⟩).machine = _
    rw [hrecorded]
    exact congrArg (fun r => (r.1, r.2.machine)) hchronicled
  · exact congrArg (fun r => r.2.passed) hchronicled

/-- The program `f = function (x) { function (x) { 2; }; }; f(1);`. -/
def makesInner : Expr :=
  .seq (.assign "f" (.function 0 ["x"] (.function 1 ["x"] (.int 2)))) (.call (.ident "f") [.int 1])

/-- The inner function is evaluated in a call, and replaces the outer one under the text of both. -/
theorem closureKeys_latest_makesInner :
    (∀ t ∈ [makesInner], Identifiers t.names ∧ t.closures = []) ∧
      ∃ m ∈ (chronicleEach 9 [makesInner] (.start ⟨.initial, .unlimited⟩)).2.passed,
        m.machine.store.local? Store.globals "function(x) \x7b...\x7d;" =
          some (.closure ⟨1, ["x"], .int 2, 1⟩) := by
  have hprograms : ∀ t ∈ [makesInner], Identifiers t.names ∧ t.closures = [] := by
    unfold Identifiers
    decide
  let s := (chronicleEach 9 [makesInner] (.start ⟨.initial, .unlimited⟩)).2
  have hnow : s.now ∈ s.passed := by
    have hpassed : s.passed = s.now :: s.passed.tail := by with_unfolding_all rfl
    rw [hpassed]
    exact List.mem_cons_self
  have hmade : s.now.made = [⟨1, ["x"], .int 2, 1⟩,
      ⟨0, ["x"], .function 1 ["x"] (.int 2), Store.globals⟩] := by with_unfolding_all rfl
  have hdescribes := (closureKeys_latest .unlimited 9 hprograms).1 s.now hnow
  refine ⟨hprograms, s.now, hnow, (hdescribes.latest ["x"] ?_ _).2 ?_⟩
  · exact List.forall_mem_singleton.2 (by decide)
  · exact ⟨_, [], _, rfl, rfl, hmade, nofun⟩

end Featherweight
