import Featherweight.Expr.Value

/-!
# Sameness of trees

Two trees are the same when they have the same shape with the same names, operators and literals.
Functions are compared by their parameters and bodies, whatever their sites.
-/

namespace Featherweight

mutual

/-- Are the trees the same but for the sites of their functions? -/
def Expr.same : Expr → Expr → Bool
  | .literal v, .literal w               => v.same w
  | .ident x, .ident y                   => x = y
  | .print d, .print e                   => d.same e
  | .binary o l r, .binary o' l' r'      => o = o' && l.same l' && r.same r'
  | .ifElse c t e, .ifElse c' t' e'      => c.same c' && t.same t' && e.same e'
  | .loop c b, .loop c' b'               => c.same c' && b.same b'
  | .seq a b, .seq a' b'                 => a.same a' && b.same b'
  | .declare x d, .declare y e           => x = y && d.same e
  | .assign x d, .assign y e             => x = y && d.same e
  | .function _ ps b, .function _ qs b'  => ps = qs && b.same b'
  | .call f as, .call g bs               => f.same g && sameArgs as bs
  | _, _                                 => false

/-- Are the arguments the same, one by one? -/
def sameArgs : List Expr → List Expr → Bool
  | [], []           => true
  | d :: ds, e :: es => d.same e && sameArgs ds es
  | _, _             => false

end

end Featherweight
