import Featherweight.Proofs.Evaluation.Ending
import Featherweight.Proofs.Evaluation.History

/-!
# Trees one after the other

A sequence of trees is evaluated like its two parts, one after the other
(`Gradual.eval_sequence_append`). Between the parts nothing else happens, as flushing a sink that
never fails does nothing (`interpret_eq_eval`).
-/

namespace Featherweight

/-! ### Sinks that never fail -/

/-- Does the sink take everything and let itself be flushed? -/
def Sink.NeverFails (s : Sink) : Prop := s.room = none ∧ s.flushes = true

theorem Sink.NeverFails.write {s : Sink} (h : s.NeverFails) (bytes : ByteArray) :
    (s.write bytes).2.NeverFails := by
  obtain ⟨hroom, hflushes⟩ := h
  unfold Sink.write
  rw [hroom]
  exact ⟨rfl, hflushes⟩

theorem eval_neverFails {m : Machine} (h : m.sink.NeverFails) (n : Nat) (t : Expr) (e : ScopeId) :
    (settle (eval n t e m)).2.sink.NeverFails := by
  have hself : Simulates (Only AnyName) AnyScope Run.record Run.record (Both Sink.NeverFails) :=
    simulates_self (fun _ bytes hs => hs.write bytes) fun _ _ hm => hm
  have hlift : Lifts (Halt.Corresponds (Only AnyName)) (Both Sink.NeverFails)
      (Both Sink.NeverFails) := fun hr => hr
  exact (hself.evalWith hlift n t.corresponds_any trivial m m ⟨rfl, h⟩).settle.2.2

/-- Flushing a sink that never fails does nothing. -/
theorem interpret_eq_eval {m : Machine} (h : m.sink.NeverFails) (n : Nat) (t : Expr) :
    interpret n t m = eval n t Store.globals m := by
  have hkept := eval_neverFails h n t Store.globals
  show EStateM.bind (eval n t Store.globals) (fun v => Run.flush >>= fun _ => pure v) m = _
  unfold EStateM.bind
  cases heval : eval n t Store.globals m with
  | error e m' => rfl
  | ok v m' =>
    rw [heval] at hkept
    obtain ⟨-, hflushes⟩ := hkept
    replace hflushes : m'.sink.flushes = true := hflushes
    show EStateM.bind Run.flush (fun _ => pure v) m' = _
    unfold EStateM.bind Run.flush
    rw [hflushes]
    rfl

/-! ### Evaluating a sequence -/

namespace Gradual

/-- One run after another, with the answer of the second one or of the first. -/
def followedBy (g g' : Gradual Value) (second : Bool) : Gradual Value :=
  g.bind fun v => g'.bind fun w => pure (if second then w else v)

theorem Same.followedBy {g₁ g₂ g₁' g₂' : Gradual Value} (h : Same g₁ g₂) (h' : Same g₁' g₂')
    (second : Bool) : Same (g₁.followedBy g₁' second) (g₂.followedBy g₂' second) :=
  h.bind fun _ => h'.bind fun _ => Same.refl _

theorem followedBy_second (g g' : Gradual Value) : g.followedBy g' true = g.bind fun _ => g' := by
  have hsecond (v : Value) : (g'.bind fun w => pure (if true then w else v)) = g' :=
    bind_pure_eq g'
  exact congrArg g.bind (funext hsecond)

/-- The answer of three runs is that of the last one whose answer counts. -/
theorem followedBy_followedBy (g₁ g₂ g₃ : Gradual Value) (second third : Bool) :
    (g₁.followedBy g₂ second).followedBy g₃ third =
      g₁.followedBy (g₂.followedBy g₃ third) (second || third) := by
  have hvalue (u v w : Value) : (if third then w else if second then v else u) =
      if second || third then (if third then w else v) else u := by
    cases second <;> cases third <;> rfl
  unfold followedBy
  simp only [bind_bind, pure_bind_eq, hvalue]

variable (e : ScopeId)

/-- A tree that does nothing, before another. -/
theorem null_followedBy (g : Gradual Value) (second : Bool)
    (h : second = false → g = eval .null e) :
    Same ((eval .null e).followedBy g second) g := by
  have hnull : Same (eval .null e) (pure .null) := eval_literal e .null
  cases second with
  | false =>
    rw [h rfl]
    refine (hnull.bind fun v => hnull.bind fun w => Same.refl (pure v)).trans ?_
    simp only [pure_bind_eq]
    exact hnull.symm
  | true =>
    rw [followedBy_second]
    exact hnull.bind fun _ => Same.refl g

/-- A sequence of a tree and others is evaluated like the tree and then the others, whose value
does not count if there are none. -/
theorem eval_sequence_cons (a : Expr) (es : List Expr) :
    Same (eval (.sequence (a :: es)) e)
      ((eval a e).followedBy (eval (.sequence es) e) !es.isEmpty) := by
  cases es with
  | nil =>
    have hnull (v : Value) : Same (pure v) ((eval .null e).bind fun w => pure v) :=
      ((eval_literal e .null).bind fun _ => Same.refl (pure v)).symm
    have hbind := (Same.refl (eval a e)).bind hnull
    rw [bind_pure_eq] at hbind
    exact hbind
  | cons b es =>
    have hseq := eval_seq e a (.sequence (b :: es))
    rw [← followedBy_second] at hseq
    exact hseq

/-- A sequence is evaluated like its two parts, one after the other. The value is that of the second
part unless that is empty. -/
theorem eval_sequence_append (es es' : List Expr) :
    Same (eval (.sequence (es ++ es')) e)
      ((eval (.sequence es) e).followedBy (eval (.sequence es') e) !es'.isEmpty) := by
  induction es with
  | nil =>
    refine (null_followedBy e _ _ fun hempty => ?_).symm
    cases es' with
    | nil => rfl
    | cons _ _ => cases hempty
  | cons a es ih =>
    -- On both sides `a` comes first, and the rest is put together by associativity.
    have hcons := (eval_sequence_cons e a es).followedBy (Same.refl (eval (.sequence es') e))
      !es'.isEmpty
    have hempty : (!(es ++ es').isEmpty) = (!es.isEmpty || !es'.isEmpty) := by
      cases es <;> rfl
    rw [followedBy_followedBy, ← hempty] at hcons
    have hfirst := (eval_sequence_cons e a (es ++ es')).trans
      ((Same.refl (eval a e)).followedBy ih _)
    exact hfirst.trans hcons.symm

end Gradual

end Featherweight
