import Featherweight.Expr.Value

/-!
# Trees as text

A tree is written with every operation in parentheses and its name in front, for instance
`(seq (var x 1) (print (+ x 2)))`.
-/

namespace Featherweight

/-- The text of a literal inside a tree. -/
def Value.renderLiteral : Value → String
  | .closure _ => "<closure>"
  | v          => v.render

mutual

/-- The text of a tree. -/
def Expr.render : Expr → String
  | .literal v         => v.renderLiteral
  | .ident x           => x
  | .print e           => "(print " ++ e.render ++ ")"
  | .binary op l r     => "(" ++ op.text ++ " " ++ l.render ++ " " ++ r.render ++ ")"
  | .ifElse c t e      => "(if " ++ c.render ++ " " ++ t.render ++ " " ++ e.render ++ ")"
  | .loop c b          => "(while " ++ c.render ++ " " ++ b.render ++ ")"
  | .seq a b           => "(seq " ++ a.render ++ " " ++ b.render ++ ")"
  | .declare x e       => "(var " ++ x ++ " " ++ e.render ++ ")"
  | .assign x e        => "(= " ++ x ++ " " ++ e.render ++ ")"
  | .function _ ps b   => "(function (" ++ " ".intercalate ps ++ ") " ++ b.render ++ ")"
  | .call f as         => "(call " ++ f.render ++ renderArgs as ++ ")"

/-- The texts of arguments, a space before each. -/
def renderArgs : List Expr → String
  | []      => ""
  | e :: es => " " ++ e.render ++ renderArgs es

end

end Featherweight
