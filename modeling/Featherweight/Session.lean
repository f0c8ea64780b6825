import Featherweight.Diagnostic
import Featherweight.Eval
import Featherweight.Expr.Site

/-!
# Sessions

A session runs programs one after the other on one machine. Every program it takes in gets sites
that no other program has, so that closures of different programs are never the same. A run that
fails leaves the session as the failure found it.
-/

namespace Featherweight

/-- The state of a session: its machine, and the first site not in use. -/
structure Session.State where
  machine : Machine
  nextSite : Site

/-- A session with nothing bound, which prints to `sink`. -/
def Session.State.initial (sink : Sink) : Session.State := ⟨⟨.initial, sink⟩, 0⟩

/-- Why a run has no answer, in words. -/
def Halt.message : Halt → String
  | failure e => e.diagnostic.message
  | exhausted => "Evaluation took too many steps"

/-- Work in a session. -/
abbrev Session := StateM Session.State

namespace Session

/-- The nested steps granted to each run. -/
def steps : Nat := 1000000000000000000

/-- The outcome of a run on the machine of the session. -/
def perform {α : Type} (run : Run α) : Session (Except Halt α) := fun s =>
  match run s.machine with
  | .ok a machine    => (.ok a, { s with machine })
  | .error h machine => (.error h, { s with machine })

/-- What the store says. -/
def ask {α : Type} (question : Store → α) : Session α := fun s => (question s.machine.store, s)

/-- Change the store. -/
def change (f : Store → Store) : Session Unit := fun s =>
  ((), { s with machine.store := f s.machine.store })

/-- The bytes printed so far. -/
def printed : Session ByteArray := fun s => (s.machine.sink.written, s)

/-! ### Programs -/

/-- Take in a program: its functions get sites of their own. -/
def load (program : Expr) : Session Expr := fun s =>
  let (program, nextSite) := program.number.run s.nextSite
  (program, { s with nextSite })

/-- Run a program that was taken in, in the globals. -/
def interpret (program : Expr) : Session (Except Halt Value) :=
  perform (Featherweight.interpret steps program)

/-- Evaluate a program that was taken in, in the scope `e`. -/
def evaluate (program : Expr) (e : ScopeId) : Session (Except Halt Value) :=
  perform (eval steps program e)

/-- Apply a closure to arguments. -/
def apply (c : Closure) (args : List Value) : Session (Except Halt Value) :=
  perform (Featherweight.apply steps c args)

/-- A closure of its own site, which no scope binds. -/
def closure (params : List String) (body : Expr) (e : ScopeId) : Session Closure := fun s =>
  let (body, nextSite) := body.number.run (s.nextSite + 1)
  (⟨s.nextSite, params, body, e⟩, { s with nextSite })

/-! ### Scopes -/

/-- Make a root. -/
def newRoot : Session ScopeId := fun s =>
  (s.machine.store.fresh, { s with machine.store := s.machine.store.push none })

/-- Make a scope inside `e`. -/
def newChild (e : ScopeId) : Session ScopeId := fun s =>
  (s.machine.store.fresh, { s with machine.store := s.machine.store.push (some e) })

/-- Declare `x` in `e`. -/
def declare (e : ScopeId) (x : String) (v : Value) : Session (Except Halt Unit) :=
  perform (Run.declare e x v)

/-- Put `v` for `x` where `e` sees it. -/
def update (e : ScopeId) (x : String) (v : Value) : Session Unit := change fun st => st.update e x v

/-- The value of `x` seen from `e`. -/
def resolve (e : ScopeId) (x : String) : Session Value := ask fun st => st.resolve e x

end Session

/-- A scope as a message shows it: the names it binds, and whether it is a root. -/
def Store.render (st : Store) (e : ScopeId) : String :=
  "Environment \x7b names: [" ++
    ", ".intercalate ((st.locals e).map fun b => Text.Quoted.name b.1) ++
    "], global: " ++ (Value.bool (st.isRoot e)).render ++ " \x7d"

end Featherweight
