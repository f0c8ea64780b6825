import Featherweight.Eval.Error
import Featherweight.Sink
import Featherweight.Store

/-!
# Runs

A run works on a machine, the store of scopes and the sink that `print` writes to. It ends with an
answer or halts: at a failure of the program, or because the steps it was granted are used up. The
machine keeps what was done before a halt.
-/

namespace Featherweight

/-- What a run works on. -/
structure Machine where
  store : Store
  sink : Sink

/-- Why a run ends without an answer. -/
inductive Halt where
  | failure (error : RuntimeError)
  | exhausted
  deriving DecidableEq, Repr

/-- A run that changes the machine and may halt. -/
abbrev Run := EStateM Halt Machine

namespace Run

/-- Halt at a failure. -/
def fail {α : Type} (error : RuntimeError) : Run α := throw (.failure error)

/-- What the store says. -/
def ask {α : Type} (question : Store → α) : Run α := fun m => .ok (question m.store) m

/-- Change the store. -/
def change (f : Store → Store) : Run Unit := fun m => .ok () { m with store := f m.store }

/-- The value of `x` seen from `e`. -/
def resolve (e : ScopeId) (x : String) : Run Value := ask fun st => st.resolve e x

/-- Put `v` for `x` where `e` sees it. -/
def update (e : ScopeId) (x : String) (v : Value) : Run Unit := change fun st => st.update e x v

/-- Declare `x` in `e`, which must not bind it yet. -/
def declare (e : ScopeId) (x : String) (v : Value) : Run Unit := do
  if ← ask fun st => st.binds e x then fail (.duplicateDeclaration x)
  else change fun st => st.bind e x v

/-- Make a scope inside `parent`, or a root. -/
def newScope (parent : Option ScopeId) : Run ScopeId := fun m =>
  .ok m.store.fresh { m with store := m.store.push parent }

/-- Write a line to the sink. -/
def printLine (text : String) : Run Unit := fun m =>
  match m.sink.write (text ++ "\n").toUTF8 with
  | (true, sink)  => .ok () { m with sink }
  | (false, sink) => .error (.failure .sinkFull) { m with sink }

/-- Flush the sink. -/
def flush : Run Unit := fun m =>
  if m.sink.flushes then .ok () m else .error (.failure .flushFailed) m

end Run

end Featherweight
