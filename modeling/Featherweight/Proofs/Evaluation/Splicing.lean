import Featherweight.Proofs.Evaluation.Bracketing
import Featherweight.Proofs.Evaluation.Following
import Featherweight.Proofs.Evaluation.Matching
import Featherweight.Proofs.Evaluation.Sequencing
import Featherweight.Proofs.Parsing.Concatenation
import Featherweight.Proofs.Parsing.Spelling

/-!
# Blocks only group

Rebracketed trees end alike (`bracketing_unobservable`). They do the same parts one after the other,
but a part may lie deeper in one tree than in the other and take more steps to reach, so each tree
is shown to follow the other: a tree that is granted so many steps is followed by the parts of the
other one (`Gradual.follows_parts`), by induction on these steps. Closures in the two stores then
differ in how their bodies are bracketed, until they are called.

In particular the statements of a block may stand in its place, unless there are none.
-/

namespace Featherweight

open Run

/-- Do the machines differ at most in how the bodies of closures are bracketed? -/
abbrev Machine.Rebracketed (m m' : Machine) : Prop := m.Matches Value.Rebracketed m'

theorem Machine.Rebracketed.symm {m m' : Machine} (h : m.Rebracketed m') : m'.Rebracketed m :=
  Machine.Matches.symm (fun _ _ hv => hv.symm) h

namespace Gradual

/-! ### Operators and conditions -/

theorem follows_ofExcept {α : Type} {Q : α → α → Prop} (hQ : ∀ a, Q a a)
    (o : Except RuntimeError α) :
    Follows Machine.Rebracketed Q (lift (ofExcept o)) (ofExcept o) := by
  apply follows_lift
  cases o with
  | ok a => exact Lockstep.pure (hQ a)
  | error e => exact Lockstep.throw rfl

theorem follows_condition (place : Place) {g : Gradual Value} {r : Run Value}
    (hr : Follows Machine.Rebracketed Value.Rebracketed g r) :
    Follows Machine.Rebracketed Eq (condition place g) (Run.condition place r) := by
  refine hr.bind fun v v' hv => ?_
  rw [hv.asBool_eq]
  exact follows_ofExcept (fun _ => rfl) _

theorem follows_asClosure (place : Place) {v v' : Value} (hv : v.Rebracketed v') :
    Follows Machine.Rebracketed Closure.Rebracketed (lift (ofExcept (v'.asClosure place)))
      (ofExcept (v.asClosure place)) := by
  apply follows_lift
  cases hv with
  | closure hc => exact Lockstep.pure hc
  | int n => exact Lockstep.throw rfl
  | bool b => exact Lockstep.throw rfl
  | null => exact Lockstep.throw rfl

/-! ### One step -/

section

variable {n : Nat} (hself : ∀ {t t' : Expr} (e : ScopeId), t.Rebracketed t' →
  Follows Machine.Rebracketed Value.Rebracketed (eval t' e) (Featherweight.eval n t e))

include hself

theorem follows_apply {c c' : Closure} (hc : c.Rebracketed c') {args args' : List Value}
    (hargs : List.Forall₂ Value.Rebracketed args args') :
    Follows Machine.Rebracketed Value.Rebracketed (apply c' args')
      (applyWith (Featherweight.eval n) c args) := by
  obtain ⟨site, ps, body, scope⟩ := c
  obtain ⟨site', ps', body', scope'⟩ := c'
  obtain ⟨rfl, rfl, rfl, hbody⟩ :
      site = site' ∧ ps = ps' ∧ scope = scope' ∧ body.Rebracketed body' :=
    ⟨hc.site_eq, hc.params_eq, hc.scope_eq, hc.body⟩
  have hlen : args.length = args'.length := hargs.length_eq
  unfold apply applyWith
  rw [hlen]
  show Follows _ _ (if args'.length = ps.length then _ else _)
    (if args'.length = ps.length then _ else _)
  split
  · refine (follows_lift (Machine.Matches.newScope _)).bind fun frame _ hframe => ?_
    subst hframe
    refine (follows_lift (Machine.Matches.bindAll frame ps hargs)).bind fun _ _ _ => ?_
    exact hself frame hbody
  · exact follows_lift (Lockstep.throw rfl)

/-- What is done at the top of one tree is done at the top of the other. -/
theorem follows_node {t t' : Expr} (ht : t.Aligned t') (e : ScopeId) :
    Follows Machine.Rebracketed Value.Rebracketed (node e t')
      (evalNode record (Featherweight.eval n) n e t) := by
  cases ht with
  | literal hv => exact follows_pure hv
  | ident x => exact follows_lift (Machine.Matches.resolve .null e x)
  | print ht =>
    refine (hself e ht).bind fun v v' hv => ?_
    rw [hv.render_eq]
    exact (follows_lift (Machine.Matches.printLine _)).bind fun _ _ _ => follows_pure hv
  | binary hl hr =>
    refine (hself e hl).bind fun v v' hv => (hself e hr).bind fun w w' hw => ?_
    rw [hv.apply_eq _ hw]
    exact follows_ofExcept Value.Rebracketed.refl _
  | ifElse hc hyes hno =>
    refine (follows_condition _ (hself e hc)).bind fun go go' hgo => ?_
    subst hgo
    cases go with
    | true => exact hself e hyes
    | false => exact hself e hno
  | loop hc hbody =>
    exact follows_iterate (follows_condition _ (hself e hc)) (hself e hbody) n .null
  | seq ha hb => exact (hself e ha).bind fun _ _ _ => hself e hb
  | declare ht =>
    refine (hself e ht).bind fun v v' hv => ?_
    exact (follows_lift (Machine.Matches.declare e _ hv)).bind fun _ _ _ => follows_pure hv
  | assign ht =>
    refine (hself e ht).bind fun v v' hv => ?_
    exact (follows_lift (Machine.Matches.update e _ hv)).bind fun _ _ _ => follows_pure hv
  | @function site ps body body' hbody =>
    -- Both closures are bound under one text, which does not show their bodies.
    have hc : (Value.closure ⟨site, ps, body, e⟩).Rebracketed (.closure ⟨site, ps, body', e⟩) :=
      .closure ⟨rfl, rfl, rfl, hbody⟩
    exact (follows_lift (Machine.Matches.update e _ hc)).bind fun _ _ _ => follows_pure hc
  | call hf hargs =>
    refine (hself e hf).bind fun v v' hv => (follows_asClosure _ hv).bind fun c c' hc => ?_
    refine (follows_mapM hargs fun t t' ht => hself e ht).bind fun vs vs' hvs => ?_
    exact follows_apply hself hc hvs

end

/-! ### Trees -/

theorem same_append (e : ScopeId) (es : List Expr) {es' : List Expr} (hes' : es' ≠ []) :
    Same (eval (.sequence (es ++ es')) e)
      ((eval (.sequence es) e).bind fun _ => eval (.sequence es') e) := by
  have happend := eval_sequence_append e es es'
  rw [List.isEmpty_eq_false_iff.2 hes', Bool.not_false, followedBy_second] at happend
  exact happend

/-- A tree does its parts one after the other. -/
theorem same_parts (e : ScopeId) (t : Expr) : Same (eval t e) (eval (.sequence t.parts) e) := by
  induction t using Expr.parts.induct with
  | case1 a b iha ihb =>
    refine ((eval_seq e a b).trans (iha.bind fun _ => ihb)).trans ?_
    exact (same_append e a.parts b.parts_ne_nil).symm
  | case2 t ht =>
    rw [Expr.parts.eq_2 t ht]
    exact Same.refl _

/-- A tree is followed by trees that pair off with its parts, by induction on the steps granted. -/
theorem follows_parts (n : Nat) {t : Expr} {ts' : List Expr}
    (h : List.Forall₂ Expr.Aligned t.parts ts') (e : ScopeId) :
    Follows Machine.Rebracketed Value.Rebracketed (eval (.sequence ts') e)
      (Featherweight.eval n t e) := by
  induction n generalizing t ts' e with
  | zero => exact follows_exhausted
  | succ n ih =>
    by_cases hseq : ∃ a b, t = .seq a b
    · obtain ⟨a, b, rfl⟩ := hseq
      -- The trees that pair off with the parts of `a` come first.
      obtain ⟨us, vs, rfl, hus, hvs⟩ := exists_append_of_forall₂ h
      have hne : vs ≠ [] := by
        rintro rfl
        exact b.parts_ne_nil (List.forall₂_nil_right_iff.1 hvs)
      exact ((ih hus e).bind fun _ _ _ => ih hvs e).of_same (same_append e us hne).symm
    · have hparts : t.parts = [t] := Expr.parts.eq_2 t fun a b heq => hseq ⟨a, b, heq⟩
      rw [hparts] at h
      cases h with
      | cons ht hnil =>
        cases hnil
        refine (follows_node (fun e ht => ?_) ht e).of_same (same_node e _).symm
        exact (ih ht.parts e).of_same (same_parts e _).symm

theorem follows_eval {t t' : Expr} (h : t.Rebracketed t') (e : ScopeId) (n : Nat) :
    Follows Machine.Rebracketed Value.Rebracketed (eval t' e) (Featherweight.eval n t e) :=
  (follows_parts n h.parts e).of_same (same_parts e t').symm

/-- Evaluating a program in the globals and flushing the sink. -/
def interpret (t : Expr) : Gradual Value :=
  (eval t Store.globals).bind fun v => (lift flush).bind fun _ => pure v

theorem follows_interpret {t t' : Expr} (h : t.Rebracketed t') (n : Nat) :
    Follows Machine.Rebracketed Value.Rebracketed (interpret t') (Featherweight.interpret n t) := by
  refine (follows_eval h Store.globals n).bind fun v v' hv => ?_
  exact (follows_lift Machine.Matches.flush).bind fun _ _ _ => follows_pure hv

end Gradual

section

variable {t t' : Expr} {m m' : Machine}

theorem Expr.Rebracketed.endAlike_eval (h : t.Rebracketed t') (hm : m.Rebracketed m')
    (e : ScopeId) :
    EndAlike Machine.Rebracketed Value.Rebracketed (fun n => eval n t e) m
      (fun n => eval n t' e) m' := by
  refine Gradual.endAlike_of_follows (.eval t e) (.eval t' e) ?_ ?_ (Gradual.follows_eval h e)
    (Gradual.follows_eval h.symm e) hm
  · exact fun _ _ hm => hm.symm
  · exact fun _ _ hv => hv.symm

theorem Expr.Rebracketed.endAlike_interpret (h : t.Rebracketed t') (hm : m.Rebracketed m') :
    EndAlike Machine.Rebracketed Value.Rebracketed (fun n => interpret n t) m
      (fun n => interpret n t') m' := by
  refine Gradual.endAlike_of_follows (.interpret t) (.interpret t') ?_ ?_
    (Gradual.follows_interpret h) (Gradual.follows_interpret h.symm) hm
  · exact fun _ _ hm => hm.symm
  · exact fun _ _ hv => hv.symm

end

/-! ### Statements -/

namespace Grammar

variable {rule : ElseRule} {us vs ws : List Token} {es bs es' : List Expr} {l r : Token}

theorem Statements.around_block (hus : Statements rule us es) (hl : l.kind = .symbol .leftBrace)
    (hvs : Statements rule vs bs) (hr : r.kind = .symbol .rightBrace)
    (hws : Statements rule ws es') :
    Statements rule (us ++ l :: (vs ++ r :: ws)) (es ++ .sequence bs :: es') := by
  have hblock : Statements rule (l :: (vs ++ [r]) ++ ws) (.sequence bs :: es') :=
    .cons (.block (.sequence hl hvs hr)) hws
  rw [List.cons_append, List.append_assoc, List.singleton_append] at hblock
  exact hus.append hblock

end Grammar

/-! ### Both -/

/-- How trees are put in sequence makes no difference to a run: rebracketed trees, whose functions
are numbered alike, either both go on for ever or both end, with the same output and the same
failure or values of one kind and text, and leave scopes that bind the same names to such values.

So it makes no difference if the statements of a block, unless there are none, stand in its place
among the statements around it. -/
theorem bracketing_unobservable :
    (∀ {t t' : Expr}, t.Rebracketed t' →
      (∀ k, (t.number.run k).1.Rebracketed (t'.number.run k).1 ∧
        (t.number.run k).2 = (t'.number.run k).2) ∧
      ∀ {m m' : Machine}, m.Rebracketed m' →
        (∀ e, EndAlike Machine.Rebracketed Value.Rebracketed (fun n => eval n t e) m
          (fun n => eval n t' e) m') ∧
        EndAlike Machine.Rebracketed Value.Rebracketed (fun n => interpret n t) m
          (fun n => interpret n t') m') ∧
      (∀ m : Machine, m.Rebracketed m) ∧
      (∀ {v v' : Value}, v.Rebracketed v' → v.kind = v'.kind ∧ v.render = v'.render) ∧
      ∀ {rule : Grammar.ElseRule} {us vs ws : List Token} {es bs es' : List Expr} {l r : Token},
        Grammar.Statements rule us es → l.kind = .symbol .leftBrace →
        Grammar.Statements rule vs bs → bs ≠ [] → r.kind = .symbol .rightBrace →
        Grammar.Statements rule ws es' →
        Grammar.Statements rule (us ++ l :: (vs ++ r :: ws)) (es ++ .sequence bs :: es') ∧
          Grammar.Statements rule (us ++ (vs ++ ws)) (es ++ (bs ++ es')) ∧
          (Expr.sequence (es ++ .sequence bs :: es')).Rebracketed
            (.sequence (es ++ (bs ++ es'))) := by
  refine ⟨fun h => ⟨h.number, fun hm => ⟨h.endAlike_eval hm, h.endAlike_interpret hm⟩⟩,
    Machine.Matches.refl Value.Rebracketed.refl, fun hv => ⟨hv.kind_eq, hv.render_eq⟩, ?_⟩
  intro rule us vs ws es bs es' l r hus hl hvs hbs hr hws
  refine ⟨hus.around_block hl hvs hr hws, hus.append (hvs.append hws), ?_⟩
  exact Expr.Rebracketed.splice es hbs es'

/-- The program `function f() { … } f();` with the body given. -/
def callsBody (body : Expr) : Expr :=
  .seq (.declare "f" (.function 0 [] body)) (.call (.ident "f") [])

theorem interpret_callsBlock :
    ∃ m, interpret 9 (callsBody (.sequence [.sequence [.print (.int 1), .int 2], .int 3]))
        ⟨.initial, .unlimited⟩ = .ok (.int 3) m ∧ m.sink.written = "1\n".toUTF8 := by
  let r := interpret 9 (callsBody (.sequence [.sequence [.print (.int 1), .int 2], .int 3]))
    ⟨.initial, .unlimited⟩
  have hcomputed : (match r with
      | .ok (.int n) m => decide (n = 3 ∧ m.sink.written = "1\n".toUTF8)
      | .ok (.bool _) _ | .ok .null _ | .ok (.closure _) _ | .error _ _ => false) = true := by
    decide +kernel
  show ∃ m, r = .ok (.int 3) m ∧ _
  generalize r = o at hcomputed
  cases o with
  | ok v m =>
    cases v with
    | int n =>
      obtain ⟨rfl, hwritten⟩ := of_decide_eq_true hcomputed
      exact ⟨m, rfl, hwritten⟩
    | _ => cases hcomputed
  | error _ _ => cases hcomputed

/-- The block in `{ print(1); 2; } 3;` may be spliced where it is the body of a function. -/
theorem bracketing_unobservable_callsBody :
    ∃ m, Ends (fun n => interpret n (callsBody (.sequence [.print (.int 1), .int 2, .int 3])))
        ⟨.initial, .unlimited⟩ (.ok (.int 3) m) ∧ m.sink.written = "1\n".toUTF8 := by
  obtain ⟨hends, hself, -, hsplice⟩ := bracketing_unobservable
  have hinner : Grammar.Statements .nearest
      [⟨.keyword .printWord, "print", 1⟩, ⟨.symbol .leftParen, "(", 1⟩, ⟨.int 1, "1", 1⟩,
        ⟨.symbol .rightParen, ")", 1⟩, ⟨.symbol .semicolon, ";", 1⟩, ⟨.int 2, "2", 1⟩,
        ⟨.symbol .semicolon, ";", 1⟩] [.print (.int 1), .int 2] := by
    have hone : Grammar.Primary .nearest [⟨.int 1, "1", 1⟩] (.int 1) := .int rfl
    have htwo : Grammar.Primary .nearest [⟨.int 2, "2", 1⟩] (.int 2) := .int rfl
    have hprint : Grammar.Primary .nearest [⟨.keyword .printWord, "print", 1⟩,
        ⟨.symbol .leftParen, "(", 1⟩, ⟨.int 1, "1", 1⟩, ⟨.symbol .rightParen, ")", 1⟩]
        (.print (.int 1)) := .print rfl rfl hone.expression rfl
    exact .cons (.expression hprint.expression rfl)
      (.cons (.expression htwo.expression rfl) .nil)
  have hlast : Grammar.Statements .nearest
      [⟨.int 3, "3", 1⟩, ⟨.symbol .semicolon, ";", 1⟩] [.int 3] := by
    have hthree : Grammar.Primary .nearest [⟨.int 3, "3", 1⟩] (.int 3) := .int rfl
    exact .cons (.expression hthree.expression rfl) .nil
  -- The braces on the left are the only difference between the bodies.
  obtain ⟨-, -, hbody⟩ := hsplice (l := ⟨.symbol .leftBrace, "\x7b", 1⟩)
    (r := ⟨.symbol .rightBrace, "\x7d", 1⟩) .nil rfl hinner (List.cons_ne_nil _ _) rfl hlast
  let nested := callsBody (.sequence [.sequence [.print (.int 1), .int 2], .int 3])
  let spliced := callsBody (.sequence [.print (.int 1), .int 2, .int 3])
  have hprogram : nested.Rebracketed spliced := .seq (.declare (.function hbody)) (.refl _)
  obtain ⟨-, hrun⟩ := hends hprogram
  obtain ⟨-, hforth, -⟩ := hrun (hself ⟨.initial, .unlimited⟩)
  obtain ⟨m, hr, hwritten⟩ := interpret_callsBlock
  obtain ⟨o, ho, hagree⟩ := hforth _ ⟨⟨9, hr⟩, nofun⟩
  cases hagree with
  | ok hv hm =>
    cases hv
    exact ⟨_, ho, hm.sink ▸ hwritten⟩

end Featherweight
