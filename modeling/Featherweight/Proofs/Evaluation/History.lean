import Featherweight.Proofs.Evaluation.Simulation

/-!
# Machines that a run passes

A recorded run keeps every machine that it passes (`History`): one for each thing that the evaluator
does to the machine, whether that is answered or fails. A relation of machines that the evaluator
keeps in lockstep therefore holds at every step of two recorded runs (`lifts_throughout`), and
keeping account changes nothing else (`interpretEach_recorded`).
-/

namespace Featherweight

/-- A machine, and those that a run passed to get there, the latest first. -/
structure History where
  machine : Machine
  passed : List Machine

/-- A run that keeps every machine it passes. -/
abbrev Recorded := EStateM Halt History

/-- The history with one more machine, at which the run is now. -/
def History.add (h : History) (m : Machine) : History := ⟨m, m :: h.passed⟩

/-- The history of a run that has not begun. -/
def History.start (m : Machine) : History := ⟨m, [m]⟩

instance : MonadLift Run Recorded where
  monadLift r h :=
    match r h.machine with
    | .ok a m    => .ok a (h.add m)
    | .error e m => .error e (h.add m)

/-! ### Programs one after the other -/

section

variable {σ σ' : Type}

/-- What programs end with that are run one after the other, whether the ones before fail or not,
and the state they leave. -/
def interpretEach [MonadLiftT Run (EStateM Halt σ)] (made : Closure → Run Unit) (n : Nat) :
    List Expr → σ → List (Except Halt Value) × σ
  | [], s => ([], s)
  | t :: ts, s =>
    let first := settle ((interpretWith made n t : EStateM Halt σ Value) s)
    let others := interpretEach made n ts first.2
    (first.1 :: others.1, others.2)

variable {F : Halt → Halt → Prop} {H : σ → σ' → Prop}

variable {N : String → String → Prop} {S : ScopeId → Prop} {made made' : Closure → Run Unit}
  {R : Machine → Machine → Prop} [MonadLiftT Run (EStateM Halt σ)]
  [MonadLiftT Run (EStateM Halt σ')]

/-- Corresponding programs, run one after the other, stay in lockstep. -/
theorem Simulates.interpretEach (hs : Simulates N S made made' R)
    (hl : Lifts (Halt.Corresponds N) R H) (hglobals : S Store.globals) (n : Nat)
    {ts ts' : List Expr} (hts : List.Forall₂ (Expr.Corresponds N S) ts ts') {s : σ} {s' : σ'}
    (h : H s s') :
    List.Forall₂ (OutcomesAgree (Halt.Corresponds N) (Value.Corresponds N S))
        (interpretEach made n ts s).1 (interpretEach made' n ts' s').1 ∧
      H (interpretEach made n ts s).2 (interpretEach made' n ts' s').2 := by
  induction hts generalizing s s' with
  | nil => exact ⟨.nil, h⟩
  | cons ht _ ih =>
    have hfirst := (hs.interpretWith hl n ht hglobals s s' h).settle
    have hothers := ih hfirst.2
    exact ⟨.cons hfirst.1 hothers.1, hothers.2⟩

theorem OutcomesAgree.eq {P : String → Prop} {o o' : Except Halt Value}
    (h : OutcomesAgree (Halt.Corresponds (Only P)) (Value.Corresponds (Only P) S) o o') :
    o = o' := by
  cases h with
  | ok hv => rw [hv.eq]
  | error he => rw [he.eq]

theorem eq_of_forall₂_outcomesAgree {P : String → Prop} {os os' : List (Except Halt Value)}
    (h : List.Forall₂ (OutcomesAgree (Halt.Corresponds (Only P)) (Value.Corresponds (Only P) S))
      os os') : os = os' := by
  induction h with
  | nil => rfl
  | cons ho _ ih => rw [ho.eq, ih]

end

/-! ### Every step -/

/-- Does the relation hold of the machines, and of all that were passed, one by one? -/
def Throughout (R : Machine → Machine → Prop) (h h' : History) : Prop :=
  R h.machine h'.machine ∧ List.Forall₂ R h.passed h'.passed

theorem throughout_start {R : Machine → Machine → Prop} {m m' : Machine} (h : R m m') :
    Throughout R (.start m) (.start m') := ⟨h, .cons h .nil⟩

theorem Throughout.add {R : Machine → Machine → Prop} {h h' : History} {m m' : Machine}
    (hh : Throughout R h h') (hm : R m m') : Throughout R (h.add m) (h'.add m') :=
  ⟨hm, .cons hm hh.2⟩

/-- A relation of machines kept by runs holds at every step of the recorded runs. -/
theorem lifts_throughout (F : Halt → Halt → Prop) (R : Machine → Machine → Prop) :
    Lifts F R (Throughout R) := by
  intro α α' Q r r' hr h h' hh
  show ResultsAgree _ _ _ (MonadLift.monadLift (n := Recorded) r h)
    (MonadLift.monadLift (n := Recorded) r' h')
  have hresult := hr h.machine h'.machine hh.1
  simp only [MonadLift.monadLift]
  generalize r h.machine = o at hresult
  generalize r' h'.machine = o' at hresult
  cases hresult with
  | ok ha hm => exact .ok ha (hh.add hm)
  | error he hm => exact .error he (hh.add hm)

/-! ### Keeping account -/

/-- Is the history at that machine? -/
def At (h : History) (m : Machine) : Prop := h.machine = m

theorem lifts_at (F : Halt → Halt → Prop) : Lifts F (Both AnySink) At := by
  intro α α' Q r r' hr h m hh
  subst hh
  show ResultsAgree _ _ _ (MonadLift.monadLift (n := Recorded) r h) (r' h.machine)
  have hresult := hr h.machine h.machine ⟨rfl, trivial⟩
  simp only [MonadLift.monadLift]
  generalize r h.machine = o at hresult ⊢
  generalize r' h.machine = o' at hresult ⊢
  cases hresult with
  | ok ha hm => exact .ok ha hm.1
  | error he hm => exact .error he hm.1

/-- Keeping every machine that is passed changes neither what programs end with nor the machine
they leave. -/
theorem interpretEach_recorded (made : Closure → Run Unit) (n : Nat) (ts : List Expr)
    (h : History) :
    interpretEach made n ts h.machine =
      ((interpretEach made n ts h).1, (interpretEach made n ts h).2.machine) := by
  have hts : List.Forall₂ (Expr.Corresponds (Only AnyName) AnyScope) ts ts :=
    List.forall₂_same.2 fun t _ => t.corresponds_any
  obtain ⟨houtcomes, hmachine⟩ := (simulates_any made).interpretEach (lifts_at _) trivial n hts
    (show At h h.machine from rfl)
  exact Prod.ext (eq_of_forall₂_outcomesAgree houtcomes).symm hmachine.symm

end Featherweight
