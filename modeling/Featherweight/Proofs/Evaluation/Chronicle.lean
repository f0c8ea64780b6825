import Featherweight.Proofs.Evaluation.History

/-!
# Chronicles

A chronicle keeps, with every machine that a run passes, the closures that were made by then
(`Moment`). A closure is made by a function only, and is recorded at the same moment. Keeping a
chronicle changes nothing else (`interpretEach_chronicled`).
-/

namespace Featherweight

variable {α α' : Type}

/-- A machine that a run passes, and the closures made so far, the latest first. -/
structure Moment where
  machine : Machine
  made : List Closure

/-- The moment a run is at, and those that it passed to get there, the latest first. -/
structure Chronicle where
  now : Moment
  passed : List Moment

/-- A run that keeps a chronicle. -/
abbrev Chronicled := EStateM Halt Chronicle

namespace Chronicle

/-- The store that the run is at. -/
def store (s : Chronicle) : Store := s.now.machine.store

/-- The machines that a chronicle tells of. -/
def history (s : Chronicle) : History := ⟨s.now.machine, s.passed.map Moment.machine⟩

/-- The chronicle of a run that has not begun. -/
def start (m : Machine) : Chronicle := ⟨⟨m, []⟩, [⟨m, []⟩]⟩

/-- The chronicle with one more moment, which the run is at now. -/
def add (s : Chronicle) (m : Moment) : Chronicle := ⟨m, m :: s.passed⟩

/-- Do a run in one moment, in which the closures `new` are made. -/
def pass (new : List Closure) (r : Run α) : Chronicled α := fun s =>
  match r s.now.machine with
  | .ok a m    => .ok a (s.add ⟨m, new ++ s.now.made⟩)
  | .error h m => .error h (s.add ⟨m, new ++ s.now.made⟩)

end Chronicle

instance : MonadLift Run Chronicled where
  monadLift := Chronicle.pass []

/-- Make a closure, and record it. -/
def makeChronicled (c : Closure) : Chronicled Value := do
  Chronicle.pass [c] (Run.record c)
  return .closure c

/-- One step, given how to evaluate other trees. The closure of a function is kept. -/
def nodeChronicled (self : Expr → ScopeId → Chronicled Value) (n : Nat) (e : ScopeId) :
    Expr → Chronicled Value
  | .function site ps body => makeChronicled ⟨site, ps, body, e⟩
  | t                      => evalNode Run.record self n e t

/-- The value of a tree in a scope within `n` nested steps, with all closures kept that are made. -/
def evalChronicled : Nat → Expr → ScopeId → Chronicled Value
  | 0, _, _     => Run.exhausted
  | n + 1, t, e => nodeChronicled (evalChronicled n) n e t

/-- The value of a program in the globals, with all closures kept that are made. -/
def interpretChronicled (n : Nat) (program : Expr) : Chronicled Value := do
  let v ← evalChronicled n program Store.globals
  liftM Run.flush
  return v

/-- What programs end with that are run one after the other, whether the ones before fail or not,
and the chronicle of all of them. -/
def chronicleEach (n : Nat) : List Expr → Chronicle → List (Except Halt Value) × Chronicle
  | [], s => ([], s)
  | t :: ts, s =>
    let first := settle (interpretChronicled n t s)
    let others := chronicleEach n ts first.2
    (first.1 :: others.1, others.2)

/-! ### Trees other than functions -/

/-- Is the tree a function? -/
def Expr.IsFunction (t : Expr) : Prop := ∃ site ps body, t = .function site ps body

variable {t : Expr}

theorem nodeChronicled_of_not_isFunction (h : ¬ t.IsFunction)
    (self : Expr → ScopeId → Chronicled Value) (n : Nat) (e : ScopeId) :
    nodeChronicled self n e t = evalNode Run.record self n e t := by
  cases t with
  | function site ps body => exact absurd ⟨site, ps, body, rfl⟩ h
  | _ => rfl

/-- Only a function makes a closure. -/
theorem evalNode_of_not_isFunction {M : Type → Type} [Monad M] [MonadLiftT Run M]
    (h : ¬ t.IsFunction) (made made' : Closure → Run Unit) (self : Expr → ScopeId → M Value)
    (n : Nat) (e : ScopeId) : evalNode made self n e t = evalNode made' self n e t := by
  cases t with
  | function site ps body => exact absurd ⟨site, ps, body, rfl⟩ h
  | _ => rfl

/-! ### Keeping a chronicle changes nothing -/

/-- Does the chronicle tell of that history? -/
def Chronicle.At (s : Chronicle) (h : History) : Prop := s.history = h

theorem lockstep_pass {F : Halt → Halt → Prop} {Q : α → α' → Prop} {r : Run α} {r' : Run α'}
    (hr : Lockstep (Both AnySink) F Q r r') (new : List Closure) :
    Lockstep Chronicle.At F Q (Chronicle.pass new r) (liftM r' : Recorded α') := by
  rintro s h rfl
  show ResultsAgree _ _ _ (Chronicle.pass new r s)
    (MonadLift.monadLift (n := Recorded) r' s.history)
  have hresult := hr s.now.machine s.now.machine ⟨rfl, trivial⟩
  have hmachine : s.history.machine = s.now.machine := rfl
  simp only [Chronicle.pass, MonadLift.monadLift, hmachine]
  generalize r s.now.machine = o at hresult ⊢
  generalize r' s.now.machine = o' at hresult ⊢
  cases hresult with
  | ok ha hm => exact .ok ha (by rw [Chronicle.At, ← hm.1]; rfl)
  | error he hm => exact .error he (by rw [Chronicle.At, ← hm.1]; rfl)

theorem lifts_chronicle (F : Halt → Halt → Prop) : Lifts F (Both AnySink) Chronicle.At :=
  fun hr => lockstep_pass hr []

theorem alike_evalChronicled (n : Nat) :
    EvaluatesAlike (Only AnyName) AnyScope Chronicle.At (evalChronicled n)
      (evalWith Run.record n : Expr → ScopeId → Recorded Value) := by
  have hsame := simulates_any Run.record
  induction n with
  | zero => exact fun _ _ => lifts_chronicle _ .exhausted
  | succ n ih =>
    intro t t' e ht he
    obtain rfl := ht.eq
    by_cases hfunction : t.IsFunction
    · obtain ⟨site, ps, body, rfl⟩ := hfunction
      have hc := Closure.corresponds_any ⟨site, ps, body, e⟩
      have hmade := lockstep_pass (hsame.made hc) [⟨site, ps, body, e⟩]
      exact hmade.bind fun _ _ _ => Lockstep.pure (.closure hc)
    · rw [evalChronicled, nodeChronicled_of_not_isFunction hfunction]
      exact hsame.evalNode (lifts_chronicle _) ih n t.corresponds_any he

theorem alike_interpretChronicled (n : Nat) (t : Expr) :
    Lockstep Chronicle.At (Halt.Corresponds (Only AnyName)) Eq (interpretChronicled n t)
      (interpretWith Run.record n t) := by
  have hvalue : Lockstep Chronicle.At (Halt.Corresponds (Only AnyName)) SameValue
      (interpretChronicled n t) (interpretWith Run.record n t) := by
    refine (alike_evalChronicled n t.corresponds_any trivial).bind fun v v' hv => ?_
    have hflush := lifts_chronicle _ (simulates_any Run.record).flush
    exact hflush.bind fun _ _ _ => Lockstep.pure hv
  exact hvalue.mono fun _ _ hv => hv.eq

/-- Programs end with the same, and pass the same machines, whether a chronicle is kept or not. -/
theorem interpretEach_chronicled (n : Nat) (ts : List Expr) (s : Chronicle) :
    interpretEach Run.record n ts s.history =
      ((chronicleEach n ts s).1, (chronicleEach n ts s).2.history) := by
  induction ts generalizing s with
  | nil => rfl
  | cons t ts ih =>
    have hfirst := (alike_interpretChronicled n t).settle_eq (fun hf => hf.eq) s
    unfold interpretEach chronicleEach
    simp only [hfirst, ih]

end Featherweight
