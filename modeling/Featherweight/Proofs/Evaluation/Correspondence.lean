import Featherweight.Eval
import Mathlib.Data.List.Forall2

/-!
# Corresponding trees and values

What a tree holds: the names that occur in it (`names`), and the closures that stand in it as
literals (`closures`), both also inside the bodies of functions and of such closures.

Two trees correspond when they differ in their names only, which are related by `N`, and when every
scope that a closure in them captured satisfies `S`. With `N := Only P` the trees are equal and all
of their names satisfy `P` (`Expr.Corresponds.eq`, `Expr.corresponds_self`).
-/

namespace Featherweight

/-! ### What a tree holds -/

mutual

/-- The names in a tree: variables, declarations, assignments and parameters. -/
def Expr.names : Expr → List String
  | .literal v           => v.names
  | .ident x             => [x]
  | .print t             => t.names
  | .binary _ l r        => l.names ++ r.names
  | .ifElse c yes no     => c.names ++ yes.names ++ no.names
  | .loop c body         => c.names ++ body.names
  | .seq a b             => a.names ++ b.names
  | .declare x t         => x :: t.names
  | .assign x t          => x :: t.names
  | .function _ ps body  => ps ++ body.names
  | .call f args         => f.names ++ namesOfArgs args

/-- The names in arguments. -/
def namesOfArgs : List Expr → List String
  | []        => []
  | t :: args => t.names ++ namesOfArgs args

/-- The names in a value: those of a closure. -/
def Value.names : Value → List String
  | .closure c => c.names
  | _          => []

/-- The names in a closure. -/
def Closure.names : Closure → List String
  | ⟨_, ps, body, _⟩ => ps ++ body.names

end

mutual

/-- The closures that stand in a tree as literals. -/
def Expr.closures : Expr → List Closure
  | .literal v          => v.closures
  | .ident _            => []
  | .print t            => t.closures
  | .binary _ l r       => l.closures ++ r.closures
  | .ifElse c yes no    => c.closures ++ yes.closures ++ no.closures
  | .loop c body        => c.closures ++ body.closures
  | .seq a b            => a.closures ++ b.closures
  | .declare _ t        => t.closures
  | .assign _ t         => t.closures
  | .function _ _ body  => body.closures
  | .call f args        => f.closures ++ closuresOfArgs args

/-- The closures that stand in arguments as literals. -/
def closuresOfArgs : List Expr → List Closure
  | []        => []
  | t :: args => t.closures ++ closuresOfArgs args

/-- The closures that a value is made of: itself, and those in its body. -/
def Value.closures : Value → List Closure
  | .closure c => c.closures
  | _          => []

/-- A closure and those that stand in its body as literals. -/
def Closure.closures : Closure → List Closure
  | ⟨site, ps, body, scope⟩ => ⟨site, ps, body, scope⟩ :: body.closures

end

/-! ### Correspondence -/

mutual

/-- Do the trees differ in their names only, by `N`, and do the captured scopes satisfy `S`? -/
inductive Expr.Corresponds (N : String → String → Prop) (S : ScopeId → Prop) : Expr → Expr → Prop
  | literal {v v' : Value} (hv : Value.Corresponds N S v v') :
      Expr.Corresponds N S (.literal v) (.literal v')
  | ident {x x' : String} (hx : N x x') : Expr.Corresponds N S (.ident x) (.ident x')
  | print {t t' : Expr} (ht : Expr.Corresponds N S t t') :
      Expr.Corresponds N S (.print t) (.print t')
  | binary {op : BinaryOp} {l l' r r' : Expr} (hl : Expr.Corresponds N S l l')
      (hr : Expr.Corresponds N S r r') :
      Expr.Corresponds N S (.binary op l r) (.binary op l' r')
  | ifElse {c c' yes yes' no no' : Expr} (hc : Expr.Corresponds N S c c')
      (hyes : Expr.Corresponds N S yes yes') (hno : Expr.Corresponds N S no no') :
      Expr.Corresponds N S (.ifElse c yes no) (.ifElse c' yes' no')
  | loop {c c' body body' : Expr} (hc : Expr.Corresponds N S c c')
      (hbody : Expr.Corresponds N S body body') :
      Expr.Corresponds N S (.loop c body) (.loop c' body')
  | seq {a a' b b' : Expr} (ha : Expr.Corresponds N S a a') (hb : Expr.Corresponds N S b b') :
      Expr.Corresponds N S (.seq a b) (.seq a' b')
  | declare {x x' : String} {t t' : Expr} (hx : N x x') (ht : Expr.Corresponds N S t t') :
      Expr.Corresponds N S (.declare x t) (.declare x' t')
  | assign {x x' : String} {t t' : Expr} (hx : N x x') (ht : Expr.Corresponds N S t t') :
      Expr.Corresponds N S (.assign x t) (.assign x' t')
  | function {site : Site} {ps ps' : List String} {body body' : Expr}
      (hps : List.Forall₂ N ps ps') (hbody : Expr.Corresponds N S body body') :
      Expr.Corresponds N S (.function site ps body) (.function site ps' body')
  | call {f f' : Expr} {args args' : List Expr} (hf : Expr.Corresponds N S f f')
      (hargs : List.Forall₂ (Expr.Corresponds N S) args args') :
      Expr.Corresponds N S (.call f args) (.call f' args')

/-- Are the values the same but for closures, which correspond? -/
inductive Value.Corresponds (N : String → String → Prop) (S : ScopeId → Prop) :
    Value → Value → Prop
  | int (n : Int64) : Value.Corresponds N S (.int n) (.int n)
  | bool (b : Bool) : Value.Corresponds N S (.bool b) (.bool b)
  | null : Value.Corresponds N S .null .null
  | closure {c c' : Closure} (hc : Closure.Corresponds N S c c') :
      Value.Corresponds N S (.closure c) (.closure c')

/-- Do the closures come from one site and captured one scope, and do their parameters and bodies
correspond? -/
inductive Closure.Corresponds (N : String → String → Prop) (S : ScopeId → Prop) :
    Closure → Closure → Prop
  | mk {site : Site} {scope : ScopeId} {ps ps' : List String} {body body' : Expr}
      (hps : List.Forall₂ N ps ps') (hbody : Expr.Corresponds N S body body') (hs : S scope) :
      Closure.Corresponds N S ⟨site, ps, body, scope⟩ ⟨site, ps', body', scope⟩

end

/-- Halts that are equal but for the name of a double declaration. -/
inductive Halt.Corresponds (N : String → String → Prop) : Halt → Halt → Prop
  | duplicate {x x' : String} (hx : N x x') :
      Halt.Corresponds N (.failure (.duplicateDeclaration x)) (.failure (.duplicateDeclaration x'))
  | same {h : Halt} (hh : ∀ x, h ≠ .failure (.duplicateDeclaration x)) : Halt.Corresponds N h h

/-- Equality of names that satisfy `P`. -/
def Only (P : String → Prop) (x x' : String) : Prop := x = x' ∧ P x

/-! ### Equal names -/

section

variable {P : String → Prop} {S : ScopeId → Prop}

theorem eq_of_forall₂_only {xs ys : List String} (h : List.Forall₂ (Only P) xs ys) : xs = ys := by
  induction h with
  | nil => rfl
  | cons hx _ ih => rw [hx.1, ih]

theorem forall₂_only_self {xs : List String} (h : ∀ x ∈ xs, P x) :
    List.Forall₂ (Only P) xs xs := List.forall₂_same.2 fun x hx => ⟨rfl, h x hx⟩

mutual

theorem Expr.Corresponds.eq : ∀ {t t' : Expr}, t.Corresponds (Only P) S t' → t = t'
  | .literal _, _, .literal hv         => by rw [hv.eq]
  | .ident _, _, .ident hx             => by rw [hx.1]
  | .print _, _, .print ht             => by rw [ht.eq]
  | .binary _ _ _, _, .binary hl hr    => by rw [hl.eq, hr.eq]
  | .ifElse _ _ _, _, .ifElse hc hy hn => by rw [hc.eq, hy.eq, hn.eq]
  | .loop _ _, _, .loop hc hb          => by rw [hc.eq, hb.eq]
  | .seq _ _, _, .seq ha hb            => by rw [ha.eq, hb.eq]
  | .declare _ _, _, .declare hx ht    => by rw [hx.1, ht.eq]
  | .assign _ _, _, .assign hx ht      => by rw [hx.1, ht.eq]
  | .function _ _ _, _, .function hps hb => by rw [eq_of_forall₂_only hps, hb.eq]
  | .call _ _, _, .call hf hargs       => by rw [hf.eq, eq_of_argsCorrespond hargs]

theorem eq_of_argsCorrespond : ∀ {args args' : List Expr},
    List.Forall₂ (Expr.Corresponds (Only P) S) args args' → args = args'
  | [], _, .nil         => rfl
  | _ :: _, _, .cons h hs => by rw [h.eq, eq_of_argsCorrespond hs]

theorem Value.Corresponds.eq : ∀ {v v' : Value}, v.Corresponds (Only P) S v' → v = v'
  | .int _, _, .int _          => rfl
  | .bool _, _, .bool _        => rfl
  | .null, _, .null            => rfl
  | .closure _, _, .closure hc => by rw [hc.eq]

theorem Closure.Corresponds.eq : ∀ {c c' : Closure}, c.Corresponds (Only P) S c' → c = c'
  | ⟨_, _, _, _⟩, _, .mk hps hb _ => by rw [eq_of_forall₂_only hps, hb.eq]

end

mutual

theorem Expr.corresponds_self : ∀ (t : Expr), (∀ x ∈ t.names, P x) →
    (∀ c ∈ t.closures, S c.scope) → t.Corresponds (Only P) S t
  | .literal v, hn, hc => .literal (v.corresponds_self hn hc)
  | .ident x, hn, _ => .ident ⟨rfl, hn x (by simp [Expr.names])⟩
  | .print t, hn, hc => .print (t.corresponds_self hn hc)
  | .binary _ l r, hn, hc => by
    simp only [Expr.names, Expr.closures, List.forall_mem_append] at hn hc
    exact .binary (l.corresponds_self hn.1 hc.1) (r.corresponds_self hn.2 hc.2)
  | .ifElse c yes no, hn, hc => by
    simp only [Expr.names, Expr.closures, List.forall_mem_append] at hn hc
    exact .ifElse (c.corresponds_self hn.1.1 hc.1.1) (yes.corresponds_self hn.1.2 hc.1.2)
      (no.corresponds_self hn.2 hc.2)
  | .loop c body, hn, hc => by
    simp only [Expr.names, Expr.closures, List.forall_mem_append] at hn hc
    exact .loop (c.corresponds_self hn.1 hc.1) (body.corresponds_self hn.2 hc.2)
  | .seq a b, hn, hc => by
    simp only [Expr.names, Expr.closures, List.forall_mem_append] at hn hc
    exact .seq (a.corresponds_self hn.1 hc.1) (b.corresponds_self hn.2 hc.2)
  | .declare x t, hn, hc => by
    simp only [Expr.names, List.forall_mem_cons] at hn
    exact .declare ⟨rfl, hn.1⟩ (t.corresponds_self hn.2 hc)
  | .assign x t, hn, hc => by
    simp only [Expr.names, List.forall_mem_cons] at hn
    exact .assign ⟨rfl, hn.1⟩ (t.corresponds_self hn.2 hc)
  | .function _ ps body, hn, hc => by
    simp only [Expr.names, List.forall_mem_append] at hn
    exact .function (forall₂_only_self hn.1) (body.corresponds_self hn.2 hc)
  | .call f args, hn, hc => by
    simp only [Expr.names, Expr.closures, List.forall_mem_append] at hn hc
    exact .call (f.corresponds_self hn.1 hc.1) (argsCorrespond_self args hn.2 hc.2)

theorem argsCorrespond_self : ∀ (args : List Expr), (∀ x ∈ namesOfArgs args, P x) →
    (∀ c ∈ closuresOfArgs args, S c.scope) →
    List.Forall₂ (Expr.Corresponds (Only P) S) args args
  | [], _, _ => .nil
  | t :: args, hn, hc => by
    simp only [namesOfArgs, closuresOfArgs, List.forall_mem_append] at hn hc
    exact .cons (t.corresponds_self hn.1 hc.1) (argsCorrespond_self args hn.2 hc.2)

theorem Value.corresponds_self : ∀ (v : Value), (∀ x ∈ v.names, P x) →
    (∀ c ∈ v.closures, S c.scope) → v.Corresponds (Only P) S v
  | .int n, _, _ => .int n
  | .bool b, _, _ => .bool b
  | .null, _, _ => .null
  | .closure c, hn, hc => .closure (c.corresponds_self hn hc)

theorem Closure.corresponds_self : ∀ (c : Closure), (∀ x ∈ c.names, P x) →
    (∀ d ∈ c.closures, S d.scope) → c.Corresponds (Only P) S c
  | ⟨_, ps, body, _⟩, hn, hc => by
    simp only [Closure.names, List.forall_mem_append] at hn
    simp only [Closure.closures, List.forall_mem_cons] at hc
    exact .mk (forall₂_only_self hn.1) (body.corresponds_self hn.2 hc.2) hc.1

end

theorem eq_of_rel_corresponds {o o' : Option Value}
    (h : Option.Rel (Value.Corresponds (Only P) S) o o') : o = o' := by
  cases h with
  | some hv => rw [hv.eq]
  | none => rfl

theorem Halt.Corresponds.eq {h h' : Halt} (hh : h.Corresponds (Only P) h') : h = h' := by
  cases hh with
  | duplicate hx => rw [hx.1]
  | same _ => rfl

end

/-! ### Everything corresponds to itself -/

/-- Any name. -/
def AnyName (_ : String) : Prop := True

/-- Any scope. -/
def AnyScope (_ : ScopeId) : Prop := True

theorem Expr.corresponds_any (t : Expr) : t.Corresponds (Only AnyName) AnyScope t :=
  t.corresponds_self (fun _ _ => trivial) fun _ _ => trivial

theorem Value.corresponds_any (v : Value) : v.Corresponds (Only AnyName) AnyScope v :=
  v.corresponds_self (fun _ _ => trivial) fun _ _ => trivial

theorem Closure.corresponds_any (c : Closure) : c.Corresponds (Only AnyName) AnyScope c :=
  c.corresponds_self (fun _ _ => trivial) fun _ _ => trivial

theorem Halt.corresponds_any (h : Halt) : h.Corresponds (Only AnyName) h := by
  by_cases hx : ∃ x, h = .failure (.duplicateDeclaration x)
  · obtain ⟨x, rfl⟩ := hx
    exact .duplicate ⟨rfl, trivial⟩
  · exact .same fun x hh => hx ⟨x, hh⟩

/-! ### What corresponding values have in common -/

section

variable {N : String → String → Prop} {S : ScopeId → Prop}

theorem Closure.Corresponds.arity {c c' : Closure} (h : c.Corresponds N S c') :
    c.arity = c'.arity := by
  obtain ⟨hps, _, _⟩ := h
  exact hps.length_eq

theorem Closure.Corresponds.scope {c c' : Closure} (h : c.Corresponds N S c') : S c.scope := by
  obtain ⟨_, _, hs⟩ := h
  exact hs

end

end Featherweight
