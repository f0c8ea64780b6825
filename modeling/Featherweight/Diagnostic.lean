import Featherweight.Eval.Error
import Featherweight.Parser.Source
import Featherweight.Text.Utf8

/-!
# Diagnostics

The report of a failure as its user sees it. A diagnostic is of one of eight sorts and has a
message; it is static if it says that a text is no program, so that nothing of it was run.
-/

namespace Featherweight

/-- The report of a failure. -/
inductive Diagnostic where
  | lexical (line : Nat) (text : String)
  | grammatical (line : Nat) (text : String)
  | typeMismatch (expected found context : String)
  | duplicateDeclaration (name : String)
  | arithmetic (text : String)
  | arityMismatch (expected found : Nat)
  | output (text : String)
  | encoding (fault : Text.Utf8.Fault)
  deriving DecidableEq, Repr

namespace Diagnostic

/-- The message of a diagnostic. -/
def message : Diagnostic → String
  | lexical line text                     => s!"[line {line}] Error: {text}"
  | grammatical line text                 => s!"[line {line}] Error: {text}"
  | typeMismatch expected found context =>
    s!"Type mismatch: {context} expected {expected}, found {found}"
  | duplicateDeclaration name             => s!"Variable '{name}' already defined in this scope"
  | arithmetic text                       => s!"Arithmetic error: {text}"
  | arityMismatch expected found          => s!"Expected {expected} arguments but got {found}"
  | output text                           => text
  | encoding fault                        => fault.message

/-- Does the diagnostic say that a text is no program? -/
def isStatic : Diagnostic → Bool
  | lexical _ _ | grammatical _ _ => true
  | _                             => false

end Diagnostic

/-- The report of a fault in a text. -/
def LexError.diagnostic (e : LexError) : Diagnostic := .lexical e.line e.fault.message

/-- The report of tokens that are no program. -/
def ParseError.diagnostic (e : ParseError) : Diagnostic := .grammatical e.line e.fault.message

/-- The report of a text that is no program. -/
def SyntaxError.diagnostic : SyntaxError → Diagnostic
  | lexical e     => e.diagnostic
  | grammatical e => e.diagnostic

/-- The report of a failed run. -/
def RuntimeError.diagnostic : RuntimeError → Diagnostic
  | typeMismatch place found    => .typeMismatch place.expected.name found.name place.text
  | duplicateDeclaration name   => .duplicateDeclaration name
  | divisionByZero              => .arithmetic "division by zero"
  | moduloByZero                => .arithmetic "modulo by zero"
  | arityMismatch expected found => .arityMismatch expected found
  | sinkFull                    => .output "sink full"
  | flushFailed                 => .output "flush failed"

theorem SyntaxError.isStatic_diagnostic (e : SyntaxError) : e.diagnostic.isStatic = true := by
  cases e <;> rfl

theorem RuntimeError.isStatic_diagnostic (e : RuntimeError) : e.diagnostic.isStatic = false := by
  cases e <;> rfl

end Featherweight
