import Featherweight.Proofs.Evaluation.BigStep
import Featherweight.Proofs.Evaluation.Simulation
import Mathlib.Order.Filter.AtTopBot.Basic

/-!
# Evaluation keeps to the rules

With a sink that takes everything, evaluation ends just as the rules say (`eval_iff_evaluates`).

What the rules derive comes of enough steps (`Evaluates.eventually`), by induction on the
derivation: a run that does something does so for all sinks without limit (`Run.Does`), and runs put
together do one thing after the other. Whatever comes of some number of steps can be derived
(`endsAt_eval`), by induction on that number (`Run.EndsAt`).
-/

namespace Featherweight

open Filter

variable {α β : Type} {s : Sink} {st st₁ st' : Store} {w w₁ : ByteArray}

/-! ### Operators -/

/-- The results on all integers, kept to 64 bits, are those on 64 bits. -/
theorem computes_compute (op : BinaryOp) (a b : Int64) : Computes a b op (op.compute a b) := by
  have hzero : b = 0 ↔ b.toInt = 0 := by rw [← Int64.toInt_zero, Int64.toInt_inj]
  -- Division of the least integer by minus one wraps on both sides.
  have hdiv : Int64.ofInt (a.toInt.tdiv b.toInt) = a / b := by
    rw [Int64.ofInt_tdiv a.minValue_le_toInt a.toInt_le b.minValue_le_toInt b.toInt_le,
      Int64.ofInt_toInt, Int64.ofInt_toInt]
  have hmod : Int64.ofInt (a.toInt.tmod b.toInt) = a % b := by
    rw [Int64.ofInt_tmod a.minValue_le_toInt a.toInt_le b.minValue_le_toInt b.toInt_le,
      Int64.ofInt_toInt, Int64.ofInt_toInt]
  cases op with
  | add => simpa [BinaryOp.compute] using Computes.add (a := a) (b := b)
  | subtract => simpa [BinaryOp.compute] using Computes.subtract (a := a) (b := b)
  | multiply => simpa [BinaryOp.compute] using Computes.multiply (a := a) (b := b)
  | divide =>
    rw [BinaryOp.compute]
    split
    · next hb => exact .divideByZero (hzero.1 hb)
    · next hb => exact hdiv ▸ .divide (hzero.not.1 hb)
  | modulo =>
    rw [BinaryOp.compute]
    split
    · next hb => exact .moduloByZero (hzero.1 hb)
    · next hb => exact hmod ▸ .modulo (hzero.not.1 hb)
  | greater =>
    rw [BinaryOp.compute, decide_eq_decide.2 Int64.lt_iff_toInt_lt]
    exact .greater
  | greaterEqual =>
    rw [BinaryOp.compute, decide_eq_decide.2 Int64.le_iff_toInt_le]
    exact .greaterEqual
  | less =>
    rw [BinaryOp.compute, decide_eq_decide.2 Int64.lt_iff_toInt_lt]
    exact .less
  | lessEqual =>
    rw [BinaryOp.compute, decide_eq_decide.2 Int64.le_iff_toInt_le]
    exact .lessEqual
  | equal =>
    rw [BinaryOp.compute, decide_eq_decide.2 Int64.toInt_inj.symm]
    exact .equal

/-- Of what an operator makes of two integers there is one. -/
theorem Computes.unique {op : BinaryOp} {a b : Int64} {o o' : Except RuntimeError Value}
    (h : Computes a b op o) (h' : Computes a b op o') : o = o' := by
  cases h <;> cases h' <;> first | rfl | contradiction

theorem operates_apply (op : BinaryOp) (v v' : Value) : Operates op v v' (op.apply v v') := by
  cases v with
  | int a =>
    cases v' with
    | int b => exact .integers (computes_compute op a b)
    | bool _ | null | closure _ => exact .right nofun
  | bool _ | null | closure _ => exact .left nofun

theorem Operates.apply_eq {op : BinaryOp} {v v' : Value} {o : Except RuntimeError Value}
    (h : Operates op v v' o) : op.apply v v' = o := by
  cases h with
  | @integers a b _ h => exact (computes_compute op a b).unique h
  | left hv => cases v <;> first | rfl | exact absurd rfl hv
  | right hw => cases v' <;> first | rfl | exact absurd rfl hw

/-! ### What a run does -/

/-- The sink with more written to it. -/
def Sink.printed (s : Sink) (w : ByteArray) : Sink := { s with written := s.written ++ w }

theorem Sink.printed_empty : s.printed .empty = s := by
  simp only [printed, ByteArray.append_empty]

theorem Sink.printed_printed : (s.printed w₁).printed w = s.printed (w₁ ++ w) := by
  simp only [printed, ByteArray.append_assoc]

theorem Sink.write_eq_printed (s : Sink) (hs : s.room = none) (bytes : ByteArray) :
    s.write bytes = (true, s.printed bytes) := by
  obtain ⟨written, room, flushes⟩ := s
  cases hs
  rfl

/-- How a run ends that comes to `o` and leaves that store, when `w` was printed to the sink. -/
def ended (s : Sink) (o : Except RuntimeError α) (st : Store) (w : ByteArray) :
    EStateM.Result Halt Machine α :=
  match o with
  | .ok a    => .ok a ⟨st, s.printed w⟩
  | .error f => .error (.failure f) ⟨st, s.printed w⟩

theorem ended_ne_exhausted {o : Except RuntimeError α} (m : Machine) :
    ended s o st w ≠ .error .exhausted m := by
  cases o <;> exact nofun

theorem printed_inj {w' : ByteArray}
    (h : (⟨st, s.printed w⟩ : Machine) = ⟨st', s.printed w'⟩) : st = st' ∧ w = w' := by
  obtain ⟨hst, hs⟩ := Machine.mk.inj h
  obtain ⟨hw, -⟩ := Sink.mk.inj hs
  exact ⟨hst, (ByteArray.append_right_inj _).1 hw⟩

theorem ended_inj {o o' : Except RuntimeError α} {w' : ByteArray}
    (h : ended s o st w = ended s o' st' w') : o = o' ∧ st = st' ∧ w = w' := by
  cases o with
  | ok a =>
    cases o' with
    | ok a' =>
      obtain ⟨ha, hm⟩ := EStateM.Result.ok.inj h
      exact ⟨congrArg _ ha, printed_inj hm⟩
    | error f' => cases h
  | error f =>
    cases o' with
    | ok a' => cases h
    | error f' =>
      obtain ⟨hf, hm⟩ := EStateM.Result.error.inj h
      exact ⟨congrArg _ (Halt.failure.inj hf), printed_inj hm⟩

namespace Run

variable {r : Run α} {f : α → Run β}

/-- Does the run end so with every sink that takes everything? -/
def Does (r : Run α) (st : Store) (o : Except RuntimeError α) (st' : Store) (w : ByteArray) :
    Prop :=
  ∀ s : Sink, s.room = none → r ⟨st, s⟩ = ended s o st' w

theorem Does.bind {a : α} {o : Except RuntimeError β} (hr : r.Does st (.ok a) st₁ w₁)
    (hf : (f a).Does st₁ o st' w) : (r >>= f).Does st o st' (w₁ ++ w) := by
  intro s hs
  rw [bind_of_ok (hr s hs), hf (s.printed w₁) hs]
  simp only [ended, Sink.printed_printed]

/-- Nothing is done after a failure. -/
theorem Does.bind_error {e : RuntimeError} (hr : r.Does st (.error e) st' w) :
    (r >>= f).Does st (.error e) st' w := fun s hs => bind_of_error (hr s hs)

/-- One run after another that prints nothing. -/
theorem Does.followed {a : α} {o : Except RuntimeError β} (hr : r.Does st (.ok a) st₁ w)
    (hf : (f a).Does st₁ o st' .empty) : (r >>= f).Does st o st' w := by
  have hbind := hr.bind hf
  rwa [ByteArray.append_empty] at hbind

/-- One run that prints nothing before another. -/
theorem Does.before {a : α} {o : Except RuntimeError β} (hr : r.Does st (.ok a) st₁ .empty)
    (hf : (f a).Does st₁ o st' w) : (r >>= f).Does st o st' w := by
  have hbind := hr.bind hf
  rwa [ByteArray.empty_append] at hbind

theorem does_silently {o : Except RuntimeError α}
    (h : ∀ s, r ⟨st, s⟩ = match o with
      | .ok a    => .ok a ⟨st', s⟩
      | .error f => .error (.failure f) ⟨st', s⟩) : r.Does st o st' .empty := by
  intro s _
  rw [h s]
  cases o <;> simp only [ended, Sink.printed_empty]

theorem does_pure (a : α) : (pure a : Run α).Does st (.ok a) st .empty :=
  does_silently fun _ => rfl

theorem does_fail (e : RuntimeError) : (fail e : Run α).Does st (.error e) st .empty :=
  does_silently fun _ => rfl

theorem does_ofExcept (o : Except RuntimeError α) : (ofExcept o).Does st o st .empty := by
  cases o with
  | ok a => exact does_pure a
  | error e => exact does_fail e

variable {e : ScopeId} {x : String} {v : Value}

theorem does_resolve : (resolve e x).Does st (.ok (st.resolve e x)) st .empty :=
  does_silently fun _ => rfl

theorem does_update : (update e x v).Does st (.ok ()) (st.update e x v) .empty :=
  does_silently fun _ => rfl

theorem does_declare (h : st.binds e x = false) :
    (declare e x v).Does st (.ok ()) (st.bind e x v) .empty :=
  does_silently fun s => by
    rw [declare_eq, if_neg (ne_true_of_eq_false h)]

theorem does_declare_taken (h : st.binds e x = true) :
    (declare e x v).Does st (.error (.duplicateDeclaration x)) st .empty :=
  does_silently fun s => by
    rw [declare_eq, if_pos h]

theorem does_newScope {parent : Option ScopeId} :
    (newScope parent).Does st (.ok st.fresh) (st.push parent) .empty :=
  does_silently fun _ => rfl

theorem does_printLine {text : String} :
    (printLine text).Does st (.ok ()) st (text ++ "\n").toUTF8 := by
  intro s hs
  unfold printLine
  rw [s.write_eq_printed hs]
  rfl

end Run

/-! ### The rules are kept -/

theorem asBool_eq_error {place : Place} {v : Value} (h : v.kind ≠ .bool) :
    v.asBool place = .error (.typeMismatch place v.kind) := by
  cases v <;> first | rfl | exact absurd rfl h

theorem asClosure_eq_error {place : Place} {v : Value} (h : v.kind ≠ .closure) :
    v.asClosure place = .error (.typeMismatch place v.kind) := by
  cases v <;> first | rfl | exact absurd rfl h

theorem Declares.does {e : ScopeId} {ps : List String} {vs : List Value}
    {o : Except RuntimeError Unit} (h : Declares e ps vs st o st') :
    (Run.bindAll e (ps.zip vs) : Run Unit).Does st o st' .empty := by
  induction h with
  | nil => exact Run.does_pure ()
  | cons hx _ ih => exact (Run.does_declare hx).before ih
  | taken hx => exact (Run.does_declare_taken hx).bind_error

/-- What a step does with enough steps granted below, evaluation does with enough of them. -/
theorem eval_eventually {t : Expr} {e : ScopeId} {o : Except RuntimeError Value}
    (h : ∀ᶠ n in atTop, (evalNode Run.record (eval n) n e t).Does st o st' w) :
    ∀ᶠ n in atTop, (eval n t e).Does st o st' w := by
  obtain ⟨k, hk⟩ := eventually_atTop.1 h
  refine eventually_atTop.2 ⟨k + 1, fun n hn => ?_⟩
  obtain ⟨n, rfl⟩ := Nat.exists_eq_add_of_le' (Nat.le_of_add_left_le hn)
  exact hk n (Nat.le_of_succ_le_succ hn)

theorem applyWith_of_ne {self : Expr → ScopeId → Run Value} {c : Closure} {vs : List Value}
    (hlen : vs.length ≠ c.params.length) :
    applyWith self c vs = Run.fail (.arityMismatch c.params.length vs.length) := if_neg hlen

theorem applyWith_of_eq {self : Expr → ScopeId → Run Value} {c : Closure} {vs : List Value}
    (hlen : vs.length = c.params.length) :
    applyWith self c vs = Run.newScope c.scope >>= fun frame =>
      Run.bindAll frame (c.params.zip vs) >>= fun _ => self c.body frame := if_pos hlen

theorem forall_ge_one {P : Nat → Prop} (h : ∀ j, P (j + 1)) : ∀ j ≥ 1, P j := by
  intro j hj
  obtain ⟨j, rfl⟩ := Nat.exists_eq_add_of_le' hj
  exact h j

mutual

/-- What the rules derive is what evaluation does with enough steps. -/
theorem Evaluates.eventually : ∀ {t : Expr} {e : ScopeId} {st st' : Store}
    {o : Except RuntimeError Value} {w : ByteArray}, Evaluates t e st o st' w →
      ∀ᶠ n in atTop, (eval n t e).Does st o st' w
  | _, _, _, _, _, _, .literal =>
    eval_eventually (.of_forall fun _ => Run.does_pure _)
  | _, _, _, _, _, _, .ident =>
    eval_eventually (.of_forall fun _ => Run.does_resolve)
  | _, _, _, _, _, _, .print ht =>
    eval_eventually (ht.eventually.mono fun _ h =>
      h.bind (Run.does_printLine.followed (Run.does_pure _)))
  | _, _, _, _, _, _, .printFails ht =>
    eval_eventually (ht.eventually.mono fun _ h => h.bind_error)
  | _, _, _, _, _, _, .binary hl hr ho =>
    eval_eventually ((hl.eventually.and hr.eventually).mono fun _ h =>
      h.1.bind (h.2.followed (ho.apply_eq ▸ Run.does_ofExcept _)))
  | _, _, _, _, _, _, .leftFails hl =>
    eval_eventually (hl.eventually.mono fun _ h => h.bind_error)
  | _, _, _, _, _, _, .rightFails hl hr =>
    eval_eventually ((hl.eventually.and hr.eventually).mono fun _ h => h.1.bind h.2.bind_error)
  | _, _, _, _, _, _, .ifTrue hc hyes =>
    eval_eventually ((hc.eventually.and hyes.eventually).mono fun _ h => h.1.bind h.2)
  | _, _, _, _, _, _, .ifFalse hc hno =>
    eval_eventually ((hc.eventually.and hno.eventually).mono fun _ h => h.1.bind h.2)
  | _, _, _, _, _, _, .ifFails hc =>
    eval_eventually (hc.eventually.mono fun _ h => h.bind_error)
  | _, _, _, _, _, _, .loop h => by
    -- As many rounds are allowed as steps are granted: both must be enough.
    obtain ⟨k, hk⟩ := h.eventually
    exact eval_eventually ((hk.and (eventually_ge_atTop k)).mono fun n h => h.1 n h.2)
  | _, _, _, _, _, _, .seq ha hb =>
    eval_eventually ((ha.eventually.and hb.eventually).mono fun _ h => h.1.bind h.2)
  | _, _, _, _, _, _, .seqFails ha =>
    eval_eventually (ha.eventually.mono fun _ h => h.bind_error)
  | _, _, _, _, _, _, .declare ht hx =>
    eval_eventually (ht.eventually.mono fun _ h =>
      h.followed ((Run.does_declare hx).before (Run.does_pure _)))
  | _, _, _, _, _, _, .declareTaken ht hx =>
    eval_eventually (ht.eventually.mono fun _ h =>
      h.followed (Run.does_declare_taken hx).bind_error)
  | _, _, _, _, _, _, .declareFails ht =>
    eval_eventually (ht.eventually.mono fun _ h => h.bind_error)
  | _, _, _, _, _, _, .assign ht =>
    eval_eventually (ht.eventually.mono fun _ h =>
      h.followed (Run.does_update.before (Run.does_pure _)))
  | _, _, _, _, _, _, .assignFails ht =>
    eval_eventually (ht.eventually.mono fun _ h => h.bind_error)
  | _, _, _, _, _, _, .function hc =>
    eval_eventually (.of_forall fun _ => hc ▸ Run.does_update.before (Run.does_pure _))
  | _, _, _, _, _, _, .call hf hargs happ =>
    eval_eventually ((hf.eventually.and (hargs.eventually.and happ.eventually)).mono fun _ h =>
      h.1.bind ((Run.does_pure _).before (h.2.1.bind h.2.2)))
  | _, _, _, _, _, _, .calleeFails hf =>
    eval_eventually (hf.eventually.mono fun _ h => h.bind_error)
  | _, _, _, _, _, _, .calleeKind hf hv =>
    eval_eventually (hf.eventually.mono fun _ h =>
      h.followed (asClosure_eq_error hv ▸ (Run.does_ofExcept _).bind_error))
  | _, _, _, _, _, _, .argsFail hf hargs =>
    eval_eventually ((hf.eventually.and hargs.eventually).mono fun _ h =>
      h.1.bind ((Run.does_pure _).before h.2.bind_error))

theorem Decides.eventually : ∀ {place : Place} {c : Expr} {e : ScopeId} {st st' : Store}
    {o : Except RuntimeError Bool} {w : ByteArray}, Decides place c e st o st' w →
      ∀ᶠ n in atTop, (Run.condition place (eval n c e)).Does st o st' w
  | _, _, _, _, _, _, _, .truth hc => hc.eventually.mono fun _ h => h.followed (Run.does_pure _)
  | _, _, _, _, _, _, _, .kind hc hv =>
    hc.eventually.mono fun _ h => h.followed (asBool_eq_error hv ▸ Run.does_ofExcept _)
  | _, _, _, _, _, _, _, .fails hc => hc.eventually.mono fun _ h => h.bind_error

theorem EvaluatesAll.eventually : ∀ {ts : List Expr} {e : ScopeId} {st st' : Store}
    {o : Except RuntimeError (List Value)} {w : ByteArray}, EvaluatesAll ts e st o st' w →
      ∀ᶠ n in atTop, (ts.mapM fun t => eval n t e).Does st o st' w
  | _, _, _, _, _, _, .nil => .of_forall fun _ => Run.does_pure _
  | _, _, _, _, _, _, .cons ht hts => by
    simp only [List.mapM_cons]
    exact (ht.eventually.and hts.eventually).mono fun _ h =>
      h.1.bind (h.2.followed (Run.does_pure _))
  | _, _, _, _, _, _, .headFails ht => by
    simp only [List.mapM_cons]
    exact ht.eventually.mono fun _ h => h.bind_error
  | _, _, _, _, _, _, .tailFails ht hts => by
    simp only [List.mapM_cons]
    exact (ht.eventually.and hts.eventually).mono fun _ h => h.1.bind h.2.bind_error

/-- A loop that goes round as often as that may be allowed to more often. -/
theorem Repeats.eventually : ∀ {c body : Expr} {e : ScopeId} {last : Value} {st st' : Store}
    {o : Except RuntimeError Value} {w : ByteArray}, Repeats c body e last st o st' w →
      ∃ k, ∀ᶠ n in atTop, ∀ j ≥ k,
        (Run.iterate (Run.condition .whileCondition (eval n c e)) (eval n body e) j last).Does
          st o st' w
  | _, _, _, _, _, _, _, _, .stop hc => by
    refine ⟨1, hc.eventually.mono fun n h => ?_⟩
    exact forall_ge_one fun j => h.followed (Run.does_pure _)
  | _, _, _, _, _, _, _, _, .again hc hbody hrest => by
    -- One turn more than the rest of the loop takes.
    obtain ⟨k, hk⟩ := hrest.eventually
    refine ⟨k + 1, (hc.eventually.and (hbody.eventually.and hk)).mono fun n h j hj => ?_⟩
    obtain ⟨j, rfl⟩ := Nat.exists_eq_add_of_le' (Nat.le_of_add_left_le hj)
    exact h.1.bind (h.2.1.bind (h.2.2 j (Nat.le_of_succ_le_succ hj)))
  | _, _, _, _, _, _, _, _, .conditionFails hc => by
    refine ⟨1, hc.eventually.mono fun n h => ?_⟩
    exact forall_ge_one fun j => h.bind_error
  | _, _, _, _, _, _, _, _, .bodyFails hc hbody => by
    refine ⟨1, (hc.eventually.and hbody.eventually).mono fun n h => ?_⟩
    exact forall_ge_one fun j => h.1.bind h.2.bind_error

theorem Applies.eventually : ∀ {c : Closure} {vs : List Value} {st st' : Store}
    {o : Except RuntimeError Value} {w : ByteArray}, Applies c vs st o st' w →
      ∀ᶠ n in atTop, (applyWith (eval n) c vs).Does st o st' w
  | _, _, _, _, _, _, .arity hlen => .of_forall fun _ => by
    rw [applyWith_of_ne hlen]
    exact Run.does_fail _
  | _, _, _, _, _, _, .taken hlen hps => .of_forall fun _ => by
    rw [applyWith_of_eq hlen]
    exact Run.does_newScope.before hps.does.bind_error
  | _, _, _, _, _, _, .body hlen hps hbody => hbody.eventually.mono fun _ h => by
    rw [applyWith_of_eq hlen]
    exact Run.does_newScope.before (hps.does.before h)

end

/-! ### Only the rules are followed -/

namespace Run

variable {r : Run α} {f : α → Run β}

/-- Is the run exhausted with every sink that takes everything, or does it end so that `P` holds? -/
def EndsAt (r : Run α) (st : Store) (P : Except RuntimeError α → Store → ByteArray → Prop) : Prop :=
  (∀ s : Sink, s.room = none → ∃ m, r ⟨st, s⟩ = .error .exhausted m) ∨
    ∃ o st' w, r.Does st o st' w ∧ P o st' w

theorem Does.endsAt {P : Except RuntimeError α → Store → ByteArray → Prop}
    {o : Except RuntimeError α} (h : r.Does st o st' w) (hP : P o st' w) : r.EndsAt st P :=
  .inr ⟨o, st', w, h, hP⟩

/-- One way of ending before which something was printed. -/
theorem Does.endsAt_silently {P : Except RuntimeError α → Store → ByteArray → Prop}
    {o : Except RuntimeError α} (h : r.Does st o st' .empty) (hP : P o st' w) :
    r.EndsAt st fun o st' w' => P o st' (w ++ w') :=
  h.endsAt (by rwa [ByteArray.append_empty])

theorem endsAt_exhausted {P : Except RuntimeError α → Store → ByteArray → Prop} :
    (exhausted : Run α).EndsAt st P := .inl fun s _ => ⟨⟨st, s⟩, rfl⟩

theorem EndsAt.mono {P Q : Except RuntimeError α → Store → ByteArray → Prop}
    (hr : r.EndsAt st P) (h : ∀ o st' w, P o st' w → Q o st' w) : r.EndsAt st Q := by
  rcases hr with hx | ⟨o, st', w, hdoes, hP⟩
  · exact .inl hx
  · exact .inr ⟨o, st', w, hdoes, h _ _ _ hP⟩

theorem Does.bind_endsAt {a : α} {Q : Except RuntimeError β → Store → ByteArray → Prop}
    (hr : r.Does st (.ok a) st₁ w₁)
    (hf : (f a).EndsAt st₁ fun o st' w => Q o st' (w₁ ++ w)) : (r >>= f).EndsAt st Q := by
  rcases hf with hx | ⟨o, st', w, hdoes, hQ⟩
  · refine .inl fun s hs => ?_
    obtain ⟨m, hm⟩ := hx (s.printed w₁) hs
    exact ⟨m, (bind_of_ok (hr s hs)).trans hm⟩
  · exact (hr.bind hdoes).endsAt hQ

theorem Does.before_endsAt {a : α} {Q : Except RuntimeError β → Store → ByteArray → Prop}
    (hr : r.Does st (.ok a) st₁ .empty) (hf : (f a).EndsAt st₁ Q) : (r >>= f).EndsAt st Q :=
  hr.bind_endsAt (hf.mono fun _ _ _ hQ => by rwa [ByteArray.empty_append])

/-- A run after another ends as the first one if that fails, and else as it does from there. -/
theorem EndsAt.bind {P : Except RuntimeError α → Store → ByteArray → Prop}
    {Q : Except RuntimeError β → Store → ByteArray → Prop} (hr : r.EndsAt st P)
    (hok : ∀ a st₁ w₁, P (.ok a) st₁ w₁ → (f a).EndsAt st₁ fun o st' w => Q o st' (w₁ ++ w))
    (herror : ∀ e st' w, P (.error e) st' w → Q (.error e) st' w) : (r >>= f).EndsAt st Q := by
  rcases hr with hx | ⟨o, st₁, w₁, hdoes, hP⟩
  · refine .inl fun s hs => ?_
    obtain ⟨m, hm⟩ := hx s hs
    exact ⟨m, bind_of_error hm⟩
  · cases o with
    | error e => exact hdoes.bind_error.endsAt (herror e st₁ w₁ hP)
    | ok a => exact hdoes.bind_endsAt (hok a st₁ w₁ hP)

end Run

/-- As many values as names are declared in one way or the other. -/
theorem exists_declares {e : ScopeId} : ∀ {ps : List String} {vs : List Value} (st : Store),
    vs.length = ps.length → ∃ o st', Declares e ps vs st o st'
  | [], [], st, _ => ⟨_, _, .nil⟩
  | p :: _, v :: _, st, hlen => by
    cases hp : st.binds e p with
    | true => exact ⟨_, _, .taken hp⟩
    | false =>
      obtain ⟨o, st', hps⟩ := exists_declares (e := e) (st.bind e p v) (Nat.succ.inj hlen)
      exact ⟨o, st', .cons hp hps⟩

section

variable {self : Expr → ScopeId → Run Value}
  (hself : ∀ t e st, (self t e).EndsAt st (Evaluates t e st))
include hself

theorem endsAt_condition (place : Place) (c : Expr) (e : ScopeId) (st : Store) :
    (Run.condition place (self c e)).EndsAt st (Decides place c e st) := by
  refine (hself c e st).bind (fun v st₁ w₁ hc => ?_) fun _ _ _ hc => .fails hc
  cases v with
  | bool b => exact (Run.does_pure b).endsAt_silently (.truth hc)
  | int _ | null | closure _ =>
    exact (Run.does_fail _).endsAt_silently (.kind hc nofun)

theorem endsAt_mapM (ts : List Expr) (e : ScopeId) (st : Store) :
    (ts.mapM fun t => self t e).EndsAt st (EvaluatesAll ts e st) := by
  induction ts generalizing st with
  | nil => exact (Run.does_pure []).endsAt .nil
  | cons t ts ih =>
    rw [List.mapM_cons]
    refine (hself t e st).bind (fun v st₁ w₁ ht => ?_) fun _ _ _ ht => .headFails ht
    refine (ih st₁).bind (fun vs st₂ w₂ hts => ?_) fun _ _ _ hts => .tailFails ht hts
    have hall := EvaluatesAll.cons ht hts
    exact (Run.does_pure _).endsAt (by rwa [ByteArray.append_empty])

/-- However often a loop may go round, it does so by the rules. -/
theorem endsAt_iterate (c body : Expr) (e : ScopeId) (n : Nat) (last : Value) (st : Store) :
    (Run.iterate (Run.condition .whileCondition (self c e)) (self body e) n last).EndsAt st
      (Repeats c body e last st) := by
  induction n generalizing last st with
  | zero => exact Run.endsAt_exhausted
  | succ n ih =>
    refine (endsAt_condition hself _ c e st).bind (fun go st₁ w₁ hc => ?_)
      fun _ _ _ hc => .conditionFails hc
    cases go with
    | false => exact (Run.does_pure last).endsAt_silently (.stop hc)
    | true =>
      refine (hself body e st₁).bind (fun v st₂ w₂ hbody => ?_)
        fun _ _ _ hbody => .bodyFails hc hbody
      exact (ih v st₂).mono fun _ _ _ hrest => .again hc hbody hrest

theorem endsAt_applyWith (c : Closure) (vs : List Value) (st : Store) :
    (applyWith self c vs).EndsAt st (Applies c vs st) := by
  by_cases hlen : vs.length = c.params.length
  · rw [applyWith_of_eq hlen]
    obtain ⟨o, st₁, hps⟩ := exists_declares (e := st.fresh) (st.push (some c.scope)) hlen
    cases o with
    | error f =>
      exact (Run.does_newScope.before hps.does.bind_error).endsAt (.taken hlen hps)
    | ok _ =>
      refine Run.does_newScope.before_endsAt (hps.does.before_endsAt ?_)
      exact (hself c.body st.fresh st₁).mono fun _ _ _ hbody => .body hlen hps hbody
  · rw [applyWith_of_ne hlen]
    exact (Run.does_fail _).endsAt (.arity hlen)

/-- A step that is given how to evaluate trees by the rules keeps to them. -/
theorem endsAt_evalNode (n : Nat) (t : Expr) (e : ScopeId) (st : Store) :
    (evalNode Run.record self n e t).EndsAt st (Evaluates t e st) := by
  cases t with
  | literal v => exact (Run.does_pure v).endsAt .literal
  | ident x => exact Run.does_resolve.endsAt .ident
  | print t =>
    refine (hself t e st).bind (fun v st₁ w₁ ht => ?_) fun _ _ _ ht => .printFails ht
    exact (Run.does_printLine.followed (Run.does_pure v)).endsAt (.print ht)
  | binary op l r =>
    refine (hself l e st).bind (fun v₁ st₁ w₁ hl => ?_) fun _ _ _ hl => .leftFails hl
    refine (hself r e st₁).bind (fun v₂ st₂ w₂ hr => ?_) fun _ _ _ hr => .rightFails hl hr
    have hboth := Evaluates.binary hl hr (operates_apply op v₁ v₂)
    exact (Run.does_ofExcept _).endsAt (by rwa [ByteArray.append_empty])
  | ifElse c yes no =>
    refine (endsAt_condition hself _ c e st).bind (fun go st₁ w₁ hc => ?_)
      fun _ _ _ hc => .ifFails hc
    cases go with
    | true => exact (hself yes e st₁).mono fun _ _ _ hyes => .ifTrue hc hyes
    | false => exact (hself no e st₁).mono fun _ _ _ hno => .ifFalse hc hno
  | loop c body =>
    exact (endsAt_iterate hself c body e n .null st).mono fun _ _ _ h => .loop h
  | seq a b =>
    refine (hself a e st).bind (fun v st₁ w₁ ha => ?_) fun _ _ _ ha => .seqFails ha
    exact (hself b e st₁).mono fun _ _ _ hb => .seq ha hb
  | declare x t =>
    refine (hself t e st).bind (fun v st₁ w₁ ht => ?_) fun _ _ _ ht => .declareFails ht
    cases hx : st₁.binds e x with
    | true => exact (Run.does_declare_taken hx).bind_error.endsAt_silently (.declareTaken ht hx)
    | false =>
      exact ((Run.does_declare hx).before (Run.does_pure v)).endsAt_silently (.declare ht hx)
  | assign x t =>
    refine (hself t e st).bind (fun v st₁ w₁ ht => ?_) fun _ _ _ ht => .assignFails ht
    exact (Run.does_update.before (Run.does_pure v)).endsAt_silently (.assign ht)
  | function site ps body =>
    exact .inr ⟨_, _, _, Run.does_update.before (Run.does_pure _), .function rfl⟩
  | call f args =>
    refine (hself f e st).bind (fun v st₁ w₁ hf => ?_) fun _ _ _ hf => .calleeFails hf
    cases v with
    | closure c =>
      refine (endsAt_mapM hself args e st₁).bind (fun vs st₂ w₂ hargs => ?_)
        fun _ _ _ hargs => .argsFail hf hargs
      exact (endsAt_applyWith hself c vs st₂).mono fun _ _ _ happ => .call hf hargs happ
    | int _ | bool _ | null =>
      exact (Run.does_fail _).bind_error.endsAt_silently (.calleeKind hf nofun)

end

/-- Evaluation keeps to the rules, by induction on the steps granted. -/
theorem endsAt_eval (n : Nat) (t : Expr) (e : ScopeId) (st : Store) :
    (eval n t e).EndsAt st (Evaluates t e st) := by
  induction n generalizing t e st with
  | zero => exact Run.endsAt_exhausted
  | succ n ih => exact endsAt_evalNode ih n t e st

/-! ### Both ways -/

/-- Evaluation with a sink that takes everything ends just as the rules derive. They derive one end
at most, and none just if evaluation goes on for ever. -/
theorem eval_iff_evaluates {s : Sink} (hs : s.room = none) (t : Expr) (e : ScopeId) (st : Store) :
    (∀ o st' w, (∃ n, eval n t e ⟨st, s⟩ = ended s o st' w) ↔ Evaluates t e st o st' w) ∧
      (∀ o o' st' st'' w w', Evaluates t e st o st' w → Evaluates t e st o' st'' w' →
        o = o' ∧ st' = st'' ∧ w = w') ∧
      ((∀ n, ∃ m, eval n t e ⟨st, s⟩ = .error .exhausted m) ↔
        ¬ ∃ o st' w, Evaluates t e st o st' w) := by
  refine ⟨fun o st' w => ⟨?_, fun h => ?_⟩, fun o o' st' st'' w w' h h' => ?_, ?_, ?_⟩
  · -- The run that came to an end was not exhausted, so that it ends as the rules derive.
    rintro ⟨n, hn⟩
    rcases endsAt_eval n t e st with hx | ⟨o', st'', w', hdoes, h⟩
    · obtain ⟨m, hm⟩ := hx s hs
      exact absurd (hn.symm.trans hm) (ended_ne_exhausted m)
    · obtain ⟨rfl, rfl, rfl⟩ := ended_inj (hn.symm.trans (hdoes s hs))
      exact h
  · obtain ⟨n, hn⟩ := h.eventually.exists
    exact ⟨n, hn s hs⟩
  · -- With enough steps for both, evaluation ends in both ways.
    obtain ⟨n, hn, hn'⟩ := (h.eventually.and h'.eventually).exists
    exact ended_inj ((hn s hs).symm.trans (hn' s hs))
  · rintro hx ⟨o, st', w, h⟩
    obtain ⟨n, hn⟩ := h.eventually.exists
    obtain ⟨m, hm⟩ := hx n
    exact ended_ne_exhausted m ((hn s hs).symm.trans hm)
  · intro hnone n
    rcases endsAt_eval n t e st with hx | ⟨o, st', w, -, h⟩
    · exact hx s hs
    · exact absurd ⟨o, st', w, h⟩ hnone

/-- The program `var i = 0; while (i < 2) { print(i); i = i + 1; }` and then
`function(n) { 1 / (n - 2); }(i);`. -/
def countsThenDivides : Expr :=
  .seq (.declare "i" (.int 0))
    (.seq
      (.loop (.binary .less (.ident "i") (.int 2))
        (.seq (.print (.ident "i")) (.assign "i" (.binary .add (.ident "i") (.int 1)))))
      (.call
        (.function 0 ["n"] (.binary .divide (.int 1) (.binary .subtract (.ident "n") (.int 2))))
        [.ident "i"]))

/-- The loop goes round twice, and the call after it fails. The rules derive this end alone, with
what was printed, and with the frame of the call in the store. -/
theorem evaluates_countsThenDivides_iff : Sink.unlimited.room = none ∧
    ∃ st : Store, st.local? Store.globals "i" = some (.int 2) ∧ st.parent? 1 = some Store.globals ∧
      st.local? 1 "n" = some (.int 2) ∧
      ∀ o st' w, Evaluates countsThenDivides Store.globals .initial o st' w ↔
        o = .error .divisionByZero ∧ st' = st ∧ w = "0\n1\n".toUTF8 := by
  let r := eval 9 countsThenDivides Store.globals ⟨.initial, .unlimited⟩
  let st := (settle r).2.store
  have hi : st.local? Store.globals "i" = some (.int 2) := by with_unfolding_all rfl
  have hframe : st.parent? 1 = some Store.globals := by with_unfolding_all rfl
  have hn : st.local? 1 "n" = some (.int 2) := by with_unfolding_all rfl
  have hr : r = ended .unlimited (.error .divisionByZero) st "0\n1\n".toUTF8 := by
    with_unfolding_all rfl
  obtain ⟨hiff, hunique, -⟩ :=
    eval_iff_evaluates (s := .unlimited) rfl countsThenDivides Store.globals .initial
  have hfails := (hiff _ _ _).1 ⟨9, hr⟩
  refine ⟨rfl, st, hi, hframe, hn, fun o st' w => ⟨fun h => hunique _ _ _ _ _ _ h hfails, ?_⟩⟩
  rintro ⟨rfl, rfl, rfl⟩
  exact hfails

end Featherweight
