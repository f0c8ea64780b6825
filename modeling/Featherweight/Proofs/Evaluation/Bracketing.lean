import Featherweight.Eval.Operator
import Featherweight.Proofs.Evaluation.Numbering
import Mathlib.Data.List.Forall2

/-!
# Bracketing

Trees one after the other are put in sequence two by two, which can be done in many ways. Two trees
are rebracketed when they differ in that only (`Expr.Rebracketed`), at any number of places and at
any depth, inside the bodies of functions as well. What the trees do one after the other, their
parts, then pair off, and paired parts do the same at the top (`Expr.Rebracketed.parts`).

A block among other trees is one way of bracketing, and putting its trees in its place is another
(`Expr.Rebracketed.splice`). The functions of rebracketed trees are numbered alike
(`Expr.Rebracketed.number`).

Closures are rebracketed when their bodies are. No operator, condition or text can tell such
closures apart.
-/

namespace Featherweight

/-! ### Trees and values -/

/-- Do the trees differ at most in how trees are put in sequence, at any number of places? -/
inductive Expr.Rebracketed : Expr → Expr → Prop
  | assoc (a b c : Expr) : Expr.Rebracketed (.seq (.seq a b) c) (.seq a (.seq b c))
  | refl (t : Expr) : Expr.Rebracketed t t
  | symm {t t' : Expr} (h : Expr.Rebracketed t t') : Expr.Rebracketed t' t
  | trans {t t' t'' : Expr} (h : Expr.Rebracketed t t') (h' : Expr.Rebracketed t' t'') :
      Expr.Rebracketed t t''
  | closure {site : Site} {ps : List String} {body body' : Expr} {scope : ScopeId}
      (hbody : Expr.Rebracketed body body') :
      Expr.Rebracketed (.literal (.closure ⟨site, ps, body, scope⟩))
        (.literal (.closure ⟨site, ps, body', scope⟩))
  | print {t t' : Expr} (ht : Expr.Rebracketed t t') : Expr.Rebracketed (.print t) (.print t')
  | binary {op : BinaryOp} {l l' r r' : Expr} (hl : Expr.Rebracketed l l')
      (hr : Expr.Rebracketed r r') : Expr.Rebracketed (.binary op l r) (.binary op l' r')
  | ifElse {c c' yes yes' no no' : Expr} (hc : Expr.Rebracketed c c')
      (hyes : Expr.Rebracketed yes yes') (hno : Expr.Rebracketed no no') :
      Expr.Rebracketed (.ifElse c yes no) (.ifElse c' yes' no')
  | loop {c c' body body' : Expr} (hc : Expr.Rebracketed c c')
      (hbody : Expr.Rebracketed body body') : Expr.Rebracketed (.loop c body) (.loop c' body')
  | seq {a a' b b' : Expr} (ha : Expr.Rebracketed a a') (hb : Expr.Rebracketed b b') :
      Expr.Rebracketed (.seq a b) (.seq a' b')
  | declare {x : String} {t t' : Expr} (ht : Expr.Rebracketed t t') :
      Expr.Rebracketed (.declare x t) (.declare x t')
  | assign {x : String} {t t' : Expr} (ht : Expr.Rebracketed t t') :
      Expr.Rebracketed (.assign x t) (.assign x t')
  | function {site : Site} {ps : List String} {body body' : Expr}
      (hbody : Expr.Rebracketed body body') :
      Expr.Rebracketed (.function site ps body) (.function site ps body')
  | callee {f f' : Expr} {args : List Expr} (hf : Expr.Rebracketed f f') :
      Expr.Rebracketed (.call f args) (.call f' args)
  | arg {f t t' : Expr} {before after : List Expr} (ht : Expr.Rebracketed t t') :
      Expr.Rebracketed (.call f (before ++ t :: after)) (.call f (before ++ t' :: after))

/-- Are the closures one function in one scope, but for how its body is bracketed? -/
structure Closure.Rebracketed (c c' : Closure) : Prop where
  site_eq : c.site = c'.site
  params_eq : c.params = c'.params
  scope_eq : c.scope = c'.scope
  body : c.body.Rebracketed c'.body

/-- Are the values the same, or closures that are but for how their bodies are bracketed? -/
inductive Value.Rebracketed : Value → Value → Prop
  | int (n : Int64) : Value.Rebracketed (.int n) (.int n)
  | bool (b : Bool) : Value.Rebracketed (.bool b) (.bool b)
  | null : Value.Rebracketed .null .null
  | closure {c c' : Closure} (hc : c.Rebracketed c') :
      Value.Rebracketed (.closure c) (.closure c')

namespace Value.Rebracketed

variable {v v' w w' : Value}

theorem refl (v : Value) : v.Rebracketed v := by
  cases v with
  | int n => exact .int n
  | bool b => exact .bool b
  | null => exact .null
  | closure c => exact .closure ⟨rfl, rfl, rfl, .refl _⟩

theorem symm (h : v.Rebracketed v') : v'.Rebracketed v := by
  cases h with
  | int n => exact .int n
  | bool b => exact .bool b
  | null => exact .null
  | closure hc =>
    exact .closure ⟨hc.site_eq.symm, hc.params_eq.symm, hc.scope_eq.symm, hc.body.symm⟩

theorem trans (h : v.Rebracketed v') (h' : v'.Rebracketed w) : v.Rebracketed w := by
  cases h with
  | int n => exact h'
  | bool b => exact h'
  | null => exact h'
  | closure hc =>
    cases h' with
    | closure hc' =>
      exact .closure ⟨hc.site_eq.trans hc'.site_eq, hc.params_eq.trans hc'.params_eq,
        hc.scope_eq.trans hc'.scope_eq, hc.body.trans hc'.body⟩

/-! ### What such values have in common -/

theorem kind_eq (h : v.Rebracketed v') : v.kind = v'.kind := by
  cases h <;> rfl

theorem render_eq (h : v.Rebracketed v') : v.render = v'.render := by
  cases h with
  | closure hc => exact Closure.render_congr hc.params_eq
  | _ => rfl

theorem asBool_eq (h : v.Rebracketed v') (place : Place) : v.asBool place = v'.asBool place := by
  cases h <;> rfl

theorem asInt_eq (h : v.Rebracketed v') (place : Place) : v.asInt place = v'.asInt place := by
  cases h <;> rfl

theorem apply_eq (op : BinaryOp) (hv : v.Rebracketed v') (hw : w.Rebracketed w') :
    op.apply v w = op.apply v' w' := by
  simp only [BinaryOp.apply, hv.asInt_eq, hw.asInt_eq]

end Value.Rebracketed

/-! ### Parts -/

/-- The trees that a tree does one after the other. -/
def Expr.parts : Expr → List Expr
  | .seq a b => a.parts ++ b.parts
  | t        => [t]

theorem Expr.parts_ne_nil (t : Expr) : t.parts ≠ [] := by
  induction t using Expr.parts.induct with
  | case1 a b iha _ =>
    intro h
    exact iha (List.append_eq_nil_iff.1 h).1
  | case2 t ht =>
    rw [Expr.parts.eq_2 t ht]
    exact List.cons_ne_nil t []

theorem Expr.sequence_cons (a : Expr) {es : List Expr} (hes : es ≠ []) :
    Expr.sequence (a :: es) = .seq a (.sequence es) := by
  cases es with
  | nil => exact absurd rfl hes
  | cons b es => rfl

/-- Are the trees the same at the top, and what lies below rebracketed? -/
inductive Expr.Aligned : Expr → Expr → Prop
  | literal {v v' : Value} (hv : v.Rebracketed v') : Expr.Aligned (.literal v) (.literal v')
  | ident (x : String) : Expr.Aligned (.ident x) (.ident x)
  | print {t t' : Expr} (ht : t.Rebracketed t') : Expr.Aligned (.print t) (.print t')
  | binary {op : BinaryOp} {l l' r r' : Expr} (hl : l.Rebracketed l') (hr : r.Rebracketed r') :
      Expr.Aligned (.binary op l r) (.binary op l' r')
  | ifElse {c c' yes yes' no no' : Expr} (hc : c.Rebracketed c') (hyes : yes.Rebracketed yes')
      (hno : no.Rebracketed no') : Expr.Aligned (.ifElse c yes no) (.ifElse c' yes' no')
  | loop {c c' body body' : Expr} (hc : c.Rebracketed c') (hbody : body.Rebracketed body') :
      Expr.Aligned (.loop c body) (.loop c' body')
  | seq {a a' b b' : Expr} (ha : a.Rebracketed a') (hb : b.Rebracketed b') :
      Expr.Aligned (.seq a b) (.seq a' b')
  | declare {x : String} {t t' : Expr} (ht : t.Rebracketed t') :
      Expr.Aligned (.declare x t) (.declare x t')
  | assign {x : String} {t t' : Expr} (ht : t.Rebracketed t') :
      Expr.Aligned (.assign x t) (.assign x t')
  | function {site : Site} {ps : List String} {body body' : Expr} (hbody : body.Rebracketed body') :
      Expr.Aligned (.function site ps body) (.function site ps body')
  | call {f f' : Expr} {args args' : List Expr} (hf : f.Rebracketed f')
      (hargs : List.Forall₂ Expr.Rebracketed args args') :
      Expr.Aligned (.call f args) (.call f' args')

theorem forall₂_refl (ts : List Expr) : List.Forall₂ Expr.Rebracketed ts ts :=
  List.forall₂_same.2 fun t _ => .refl t

theorem forall₂_symm {α : Type} {R : α → α → Prop} (hR : ∀ a b, R a b → R b a) {as bs : List α}
    (h : List.Forall₂ R as bs) : List.Forall₂ R bs as :=
  (h.imp hR).flip

theorem forall₂_trans {α : Type} {R : α → α → Prop} (hR : ∀ a b c, R a b → R b c → R a c)
    {as bs cs : List α} (h : List.Forall₂ R as bs) (h' : List.Forall₂ R bs cs) :
    List.Forall₂ R as cs := by
  induction h generalizing cs with
  | nil => exact h'
  | cons hab _ ih =>
    cases h' with
    | cons hbc h' => exact .cons (hR _ _ _ hab hbc) (ih h')

/-- Items that are paired with an append fall into two parts. -/
theorem exists_append_of_forall₂ {α : Type} {R : α → α → Prop} {as bs cs : List α}
    (h : List.Forall₂ R (as ++ bs) cs) :
    ∃ us vs, cs = us ++ vs ∧ List.Forall₂ R as us ∧ List.Forall₂ R bs vs := by
  induction as generalizing cs with
  | nil => exact ⟨[], cs, rfl, .nil, h⟩
  | cons a as ih =>
    cases h with
    | cons hac h =>
      obtain ⟨us, vs, rfl, hus, hvs⟩ := ih h
      exact ⟨_ :: us, vs, rfl, .cons hac hus, hvs⟩

namespace Expr.Aligned

variable {t t' t'' : Expr}

theorem refl (t : Expr) : t.Aligned t := by
  cases t with
  | literal v => exact .literal (.refl v)
  | ident x => exact .ident x
  | print t => exact .print (.refl t)
  | binary op l r => exact .binary (.refl l) (.refl r)
  | ifElse c yes no => exact .ifElse (.refl c) (.refl yes) (.refl no)
  | loop c body => exact .loop (.refl c) (.refl body)
  | seq a b => exact .seq (.refl a) (.refl b)
  | declare x t => exact .declare (.refl t)
  | assign x t => exact .assign (.refl t)
  | function site ps body => exact .function (.refl body)
  | call f args => exact .call (.refl f) (forall₂_refl args)

theorem symm (h : t.Aligned t') : t'.Aligned t := by
  cases h with
  | literal hv => exact .literal hv.symm
  | ident x => exact .ident x
  | print ht => exact .print ht.symm
  | binary hl hr => exact .binary hl.symm hr.symm
  | ifElse hc hyes hno => exact .ifElse hc.symm hyes.symm hno.symm
  | loop hc hbody => exact .loop hc.symm hbody.symm
  | seq ha hb => exact .seq ha.symm hb.symm
  | declare ht => exact .declare ht.symm
  | assign ht => exact .assign ht.symm
  | function hbody => exact .function hbody.symm
  | call hf hargs => exact .call hf.symm (forall₂_symm (fun _ _ h => .symm h) hargs)

theorem trans (h : t.Aligned t') (h' : t'.Aligned t'') : t.Aligned t'' := by
  cases h with
  | literal hv => cases h' with | literal hv' => exact .literal (hv.trans hv')
  | ident x => exact h'
  | print ht => cases h' with | print ht' => exact .print (ht.trans ht')
  | binary hl hr => cases h' with | binary hl' hr' => exact .binary (hl.trans hl') (hr.trans hr')
  | ifElse hc hyes hno =>
    cases h' with
    | ifElse hc' hyes' hno' => exact .ifElse (hc.trans hc') (hyes.trans hyes') (hno.trans hno')
  | loop hc hbody =>
    cases h' with | loop hc' hbody' => exact .loop (hc.trans hc') (hbody.trans hbody')
  | seq ha hb => cases h' with | seq ha' hb' => exact .seq (ha.trans ha') (hb.trans hb')
  | declare ht => cases h' with | declare ht' => exact .declare (ht.trans ht')
  | assign ht => cases h' with | assign ht' => exact .assign (ht.trans ht')
  | function hbody => cases h' with | function hbody' => exact .function (hbody.trans hbody')
  | call hf hargs =>
    cases h' with
    | call hf' hargs' =>
      exact .call (hf.trans hf') (forall₂_trans (fun _ _ _ h h' => .trans h h') hargs hargs')

end Expr.Aligned

namespace Expr.Rebracketed

variable {t t' : Expr}

/-- The parts of rebracketed trees pair off. -/
theorem parts (h : t.Rebracketed t') : List.Forall₂ Expr.Aligned t.parts t'.parts := by
  induction h with
  | assoc a b c =>
    show List.Forall₂ _ ((a.parts ++ b.parts) ++ c.parts) (a.parts ++ (b.parts ++ c.parts))
    rw [List.append_assoc]
    exact List.forall₂_same.2 fun p _ => .refl p
  | refl t => exact List.forall₂_same.2 fun p _ => .refl p
  | symm _ ih => exact forall₂_symm (fun _ _ h => h.symm) ih
  | trans _ _ ih ih' => exact forall₂_trans (fun _ _ _ h h' => h.trans h') ih ih'
  | closure hbody => exact .cons (.literal (.closure ⟨rfl, rfl, rfl, hbody⟩)) .nil
  | print ht => exact .cons (.print ht) .nil
  | binary hl hr => exact .cons (.binary hl hr) .nil
  | ifElse hc hyes hno => exact .cons (.ifElse hc hyes hno) .nil
  | loop hc hbody => exact .cons (.loop hc hbody) .nil
  | seq _ _ iha ihb => exact List.rel_append iha ihb
  | declare ht => exact .cons (.declare ht) .nil
  | assign ht => exact .cons (.assign ht) .nil
  | function hbody => exact .cons (.function hbody) .nil
  | callee hf => exact .cons (.call hf (forall₂_refl _)) .nil
  | @arg f u u' before after hu _ =>
    have hargs := List.rel_append (forall₂_refl before) (List.Forall₂.cons hu (forall₂_refl after))
    exact .cons (.call (.refl f) hargs) .nil

/-! ### Blocks among trees -/

/-- One sequence after another is the sequence of all their trees. -/
theorem append {es es' : List Expr} (hes : es ≠ []) (hes' : es' ≠ []) :
    Expr.Rebracketed (.seq (.sequence es) (.sequence es')) (.sequence (es ++ es')) := by
  induction es with
  | nil => exact absurd rfl hes
  | cons a es ih =>
    cases es with
    | nil =>
      rw [List.singleton_append, Expr.sequence_cons a hes']
      exact .refl _
    | cons b es =>
      have hrest := ih (List.cons_ne_nil b es)
      exact (Expr.Rebracketed.assoc _ _ _).trans (.seq (.refl a) hrest)

/-- The trees of a block may stand in its place. -/
theorem splice (es : List Expr) {bs : List Expr} (hbs : bs ≠ []) (es' : List Expr) :
    Expr.Rebracketed (.sequence (es ++ .sequence bs :: es')) (.sequence (es ++ (bs ++ es'))) := by
  induction es with
  | nil =>
    cases es' with
    | nil =>
      rw [List.append_nil]
      exact .refl _
    | cons c es' => exact append hbs (List.cons_ne_nil c es')
  | cons a es ih =>
    have hblock : es ++ .sequence bs :: es' ≠ [] := by simp
    have hspliced : es ++ (bs ++ es') ≠ [] := by simp [hbs]
    rw [List.cons_append, List.cons_append, Expr.sequence_cons a hblock,
      Expr.sequence_cons a hspliced]
    exact .seq (.refl a) ih

end Expr.Rebracketed

/-! ### Numbers of functions -/

/-- Do the two ways of numbering use up the same numbers, with related results? -/
def NumberedAlike {α α' : Type} (Q : α → α' → Prop) (r : StateM Site α) (r' : StateM Site α') :
    Prop :=
  ∀ k, Q (r k).1 (r' k).1 ∧ (r k).2 = (r' k).2

namespace NumberedAlike

variable {α α' β β' : Type} {Q : α → α' → Prop} {Q' : β → β' → Prop}

theorem refl (r : StateM Site α) : NumberedAlike Eq r r := fun _ => ⟨rfl, rfl⟩

theorem pure {a : α} {a' : α'} (h : Q a a') : NumberedAlike Q (Pure.pure a) (Pure.pure a') :=
  fun _ => ⟨h, rfl⟩

theorem bind {r : StateM Site α} {r' : StateM Site α'} {f : α → StateM Site β}
    {f' : α' → StateM Site β'} (hr : NumberedAlike Q r r')
    (hf : ∀ a a', Q a a' → NumberedAlike Q' (f a) (f' a')) :
    NumberedAlike Q' (r >>= f) (r' >>= f') := by
  intro k
  obtain ⟨hvalue, hnext⟩ := hr k
  show Q' (f (r k).1 (r k).2).1 (f' (r' k).1 (r' k).2).1 ∧
    (f (r k).1 (r k).2).2 = (f' (r' k).1 (r' k).2).2
  rw [← hnext]
  exact hf _ _ hvalue (r k).2

end NumberedAlike

theorem number_call_arg (f : Expr) (before : List Expr) (t : Expr) (after : List Expr) :
    (Expr.call f (before ++ t :: after)).number = (do
      let f' ← f.number
      let us ← numberArgs before
      let u ← t.number
      return .call f' (us ++ u :: (← numberArgs after))) := by
  rw [Expr.number, numberArgs_append]
  rfl

/-- The functions of rebracketed trees are numbered alike. -/
theorem Expr.Rebracketed.number {t t' : Expr} (h : t.Rebracketed t') :
    NumberedAlike Expr.Rebracketed t.number t'.number := by
  induction h with
  | assoc a b c => exact fun _ => ⟨.assoc _ _ _, rfl⟩
  | refl t => exact fun _ => ⟨.refl _, rfl⟩
  | symm _ ih => exact fun k => ⟨(ih k).1.symm, (ih k).2.symm⟩
  | trans _ _ ih ih' => exact fun k => ⟨(ih k).1.trans (ih' k).1, (ih k).2.trans (ih' k).2⟩
  | closure hbody => exact .pure (.closure hbody)
  | print _ ih => exact ih.bind fun _ _ ht => .pure (.print ht)
  | binary _ _ ihl ihr => exact ihl.bind fun _ _ hl => ihr.bind fun _ _ hr => .pure (.binary hl hr)
  | ifElse _ _ _ ihc ihyes ihno =>
    refine ihc.bind fun _ _ hc => ihyes.bind fun _ _ hyes => ihno.bind fun _ _ hno => ?_
    exact .pure (.ifElse hc hyes hno)
  | loop _ _ ihc ihb => exact ihc.bind fun _ _ hc => ihb.bind fun _ _ hb => .pure (.loop hc hb)
  | seq _ _ iha ihb => exact iha.bind fun _ _ ha => ihb.bind fun _ _ hb => .pure (.seq ha hb)
  | declare _ ih => exact ih.bind fun _ _ ht => .pure (.declare ht)
  | assign _ ih => exact ih.bind fun _ _ ht => .pure (.assign ht)
  | function _ ih =>
    refine (NumberedAlike.refl freshSite).bind fun site _ hsite => ?_
    subst hsite
    exact ih.bind fun _ _ hbody => .pure (.function hbody)
  | @callee f f' args _ ih =>
    refine ih.bind fun _ _ hf => (NumberedAlike.refl (numberArgs args)).bind fun us _ hus => ?_
    subst hus
    exact .pure (.callee hf)
  | @arg f u u' before after _ ih =>
    rw [number_call_arg, number_call_arg]
    refine (NumberedAlike.refl _).bind fun f' _ hf => ?_
    refine (NumberedAlike.refl _).bind fun us _ hus => ih.bind fun w w' hw => ?_
    refine (NumberedAlike.refl _).bind fun vs _ hvs => ?_
    subst hf hus hvs
    exact .pure (.arg hw)

end Featherweight
