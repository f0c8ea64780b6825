import Featherweight.Expr.Basic

/-!
# Numbering the functions of a program

Before a program runs, every function in it is given a site of its own. Closures that stand in the
program as literals keep the sites they have: they come from programs taken in earlier.
-/

namespace Featherweight

/-- The next site that is free, which is then taken. -/
def freshSite : StateM Site Site := modifyGet fun n => (n, n + 1)

mutual

/-- The tree with a fresh site for every function. -/
def Expr.number : Expr → StateM Site Expr
  | .literal v       => pure (.literal v)
  | .ident x         => pure (.ident x)
  | .print e         => return .print (← e.number)
  | .binary op l r   => return .binary op (← l.number) (← r.number)
  | .ifElse c t e    => return .ifElse (← c.number) (← t.number) (← e.number)
  | .loop c b        => return .loop (← c.number) (← b.number)
  | .seq a b         => return .seq (← a.number) (← b.number)
  | .declare x e     => return .declare x (← e.number)
  | .assign x e      => return .assign x (← e.number)
  | .function _ ps b => return .function (← freshSite) ps (← b.number)
  | .call f as       => return .call (← f.number) (← numberArgs as)

/-- The arguments with a fresh site for every function. -/
def numberArgs : List Expr → StateM Site (List Expr)
  | []      => pure []
  | e :: es => return (← e.number) :: (← numberArgs es)

end

end Featherweight
