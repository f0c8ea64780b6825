import Featherweight.Parser.Grammar
import Featherweight.Token.Lexer

/-!
# Programs from text

A program text is cut into tokens first, and parsed only if that meets no fault.
-/

namespace Featherweight

/-- Why a text is no program. -/
inductive SyntaxError where
  | lexical (error : LexError)
  | grammatical (error : ParseError)
  deriving DecidableEq, Repr

/-- The program that the tokens are, up to the end of the input. -/
def Expr.ofTokens (ts : List Token) : Except ParseError Expr :=
  match Parser.program ts with
  | .ok e _    => .ok e
  | .error e _ => .error e

/-- The program written as `source`. -/
def Expr.ofSource (source : String) : Except SyntaxError Expr := do
  let ts ← (tokenize source).mapError .lexical
  (Expr.ofTokens ts).mapError .grammatical

/-- The answers of reading a program `n` times over, each time from where the last one stopped. -/
def Parser.programs : Nat → List Token → List (Except ParseError Expr)
  | 0, _ => []
  | n + 1, ts =>
    match Parser.program ts with
    | .ok e rest    => .ok e :: programs n rest
    | .error e rest => .error e :: programs n rest

end Featherweight
