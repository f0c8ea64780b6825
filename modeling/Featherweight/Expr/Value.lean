import Featherweight.Expr.Basic

/-!
# Values: kinds, text, sameness

A value is of one of four kinds. Its text is what `print` writes; the text of a closure shows its
parameters only, and is also the name under which a closure binds itself.
-/

namespace Featherweight

/-- The four kinds of value. -/
inductive ValueKind where
  | int | bool | null | closure
  deriving DecidableEq, Repr

/-- How a kind is called in messages. -/
def ValueKind.name : ValueKind → String
  | int     => "int"
  | bool    => "bool"
  | null    => "null"
  | closure => "closure"

/-- The text of a closure. -/
def Closure.render (c : Closure) : String :=
  "function(" ++ ",".intercalate c.params ++ ") \x7b...\x7d;"

theorem Closure.render_congr {c d : Closure} (h : c.params = d.params) : c.render = d.render := by
  unfold Closure.render
  rw [h]

/-- Do the closures come from one function and share the scope they captured? -/
def Closure.same (c d : Closure) : Bool := c.site = d.site && c.scope = d.scope

namespace Value

/-- The kind of a value. -/
def kind : Value → ValueKind
  | int _     => .int
  | bool _    => .bool
  | null      => .null
  | closure _ => .closure

/-- The text of a value. -/
def render : Value → String
  | int n      => Text.Decimal.ofInt n.toInt
  | bool true  => Keyword.trueWord.text
  | bool false => Keyword.falseWord.text
  | null       => Keyword.nullWord.text
  | closure c  => c.render

/-- Are the values the same? Closures are by where they come from, all others by what they are. -/
def same : Value → Value → Bool
  | int m, int n           => m = n
  | bool a, bool b         => a = b
  | null, null             => true
  | closure c, closure d   => c.same d
  | _, _                   => false

end Value

end Featherweight
