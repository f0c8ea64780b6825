import Featherweight.Proofs.Evaluation.Composition
import Featherweight.Proofs.Evaluation.Ending
import Featherweight.Proofs.Evaluation.Simulation

/-!
# Printing to a sink with a limit

A sink with room for so many bytes cuts the output off there and changes nothing else
(`ends_interpret_limited`). If what a run prints to a sink that takes everything fits, the run is
the same with the limit; if not, it fails as soon as the sink is full, and the sink keeps what there
was room for. That is so for each thing the evaluator does to a machine (`Run.Truncates`) and
carries over to one run after another, so it is so for every evaluation.
-/

namespace Featherweight

variable {α β : Type} {st : Store} {w : ByteArray}

/-! ### Sinks -/

/-- A sink that holds `w` and takes everything. -/
def Sink.endless (w : ByteArray) : Sink := ⟨w, none, true⟩

/-- A sink that holds `w` and takes so many bytes more. -/
def Sink.limited (w : ByteArray) (room : Nat) : Sink := ⟨w, some room, true⟩

theorem Sink.write_limited_of_le {room : Nat} {bytes : ByteArray} (h : bytes.size ≤ room) :
    (limited w room).write bytes = (true, limited (w ++ bytes) (room - bytes.size)) := if_pos h

theorem Sink.write_limited_of_lt {room : Nat} {bytes : ByteArray} (h : room < bytes.size) :
    (limited w room).write bytes = (false, limited (w ++ bytes.extract 0 room) 0) :=
  if_neg (Nat.not_le.2 h)

/-- What there is room for of two outputs, if there is not even room for the first. -/
theorem extract_append_of_le {out out' : ByteArray} {room : Nat} (h : room ≤ out.size) :
    (out ++ out').extract 0 room = out.extract 0 room := by
  rw [ByteArray.extract_append, Nat.zero_sub, Nat.sub_eq_zero_of_le h, ByteArray.extract_same,
    ByteArray.append_empty]

/-- What there is room for of two outputs, if there is room for the first. -/
theorem extract_append_of_ge {out out' : ByteArray} {room : Nat} (h : out.size ≤ room) :
    (out ++ out').extract 0 room = out ++ out'.extract 0 (room - out.size) := by
  have hall : out.extract 0 room = out := by
    apply ByteArray.ext
    rw [ByteArray.data_extract]
    exact Array.extract_eq_self_of_le h
  rw [ByteArray.extract_append, Nat.zero_sub, hall]

/-! ### Runs -/

/-- The result of a run that comes to `o` and leaves that machine. -/
def resultOf (o : Except Halt α) (m : Machine) : EStateM.Result Halt Machine α :=
  match o with
  | .ok a    => .ok a m
  | .error h => .error h m

theorem resultOf_inj {o o' : Except Halt α} {m m' : Machine} (h : resultOf o m = resultOf o' m') :
    o = o' ∧ m = m' := by
  cases o <;> cases o' <;> cases h <;> exact ⟨rfl, rfl⟩

/-- The result of a run that finds the sink full, which holds `w` by then. -/
def fullOf (st : Store) (w : ByteArray) : EStateM.Result Halt Machine α :=
  .error (.failure .sinkFull) ⟨st, .limited w 0⟩

/-- Does the run print `out` and come to `o`, to a sink with a limit the same up to the limit, where
it fails unless all of `out` fits? -/
structure Run.Prints (r : Run α) (st : Store) (o : Except Halt α) (st' : Store)
    (out : ByteArray) : Prop where
  endless : ∀ w, r ⟨st, .endless w⟩ = resultOf o ⟨st', .endless (w ++ out)⟩
  fits : ∀ w room, out.size ≤ room →
    r ⟨st, .limited w room⟩ = resultOf o ⟨st', .limited (w ++ out) (room - out.size)⟩
  cut : ∀ w room, room < out.size →
    ∃ st'', r ⟨st, .limited w room⟩ = fullOf st'' (w ++ out.extract 0 room)

/-- Does a limit of the sink do nothing but cut off what the run prints? -/
def Run.Truncates (r : Run α) : Prop := ∀ st, ∃ o st' out, r.Prints st o st' out

namespace Run.Truncates

/-- A run that does the same with all these sinks, and prints nothing. -/
theorem of_silent {r : Run α} (h : ∀ st, ∃ o st', ∀ s : Sink, s.flushes = true →
    r ⟨st, s⟩ = resultOf o ⟨st', s⟩) : r.Truncates := by
  intro st
  obtain ⟨o, st', hr⟩ := h st
  refine ⟨o, st', .empty, fun w => ?_, fun w room _ => ?_, fun w room hlt => ?_⟩
  · rw [hr _ rfl, ByteArray.append_empty]
  · rw [hr _ rfl, ByteArray.append_empty]
    rfl
  · exact absurd hlt (Nat.not_lt_zero room)

theorem declare (e : ScopeId) (x : String) (v : Value) : (Run.declare e x v).Truncates := by
  refine of_silent fun st => ?_
  simp only [Run.declare_eq]
  cases st.binds e x with
  | false => exact ⟨.ok (), st.bind e x v, fun _ _ => rfl⟩
  | true  => exact ⟨.error (.failure (.duplicateDeclaration x)), st, fun _ _ => rfl⟩

theorem printLine (text : String) : (Run.printLine text).Truncates := by
  intro st
  refine ⟨.ok (), st, (text ++ "\n").toUTF8, fun w => rfl, fun w room hle => ?_,
    fun w room hlt => ⟨st, ?_⟩⟩
  · unfold Run.printLine
    rw [Sink.write_limited_of_le hle]
    rfl
  · unfold Run.printLine
    rw [Sink.write_limited_of_lt hlt]
    rfl

theorem flush : Run.flush.Truncates := by
  refine of_silent fun st => ⟨.ok (), st, fun s hs => ?_⟩
  show (if s.flushes then _ else _) = _
  rw [if_pos hs]
  rfl

/-- Two runs print one after the other, so the limit is met in the first one or in the second. -/
theorem bind {r : Run α} {f : α → Run β} (hr : r.Truncates) (hf : ∀ a, (f a).Truncates) :
    (r >>= f).Truncates := by
  intro st
  obtain ⟨o, st₁, out₁, first⟩ := hr st
  cases o with
  | error h =>
    -- Nothing comes after a halt, with a limit or without.
    refine ⟨.error h, st₁, out₁, fun w => bind_of_error (first.endless w),
      fun w room hle => bind_of_error (first.fits w room hle), fun w room hlt => ?_⟩
    obtain ⟨st'', hfull⟩ := first.cut w room hlt
    exact ⟨st'', bind_of_error hfull⟩
  | ok a =>
    obtain ⟨o, st₂, out₂, second⟩ := hf a st₁
    refine ⟨o, st₂, out₁ ++ out₂, fun w => ?_, fun w room hle => ?_, fun w room hlt => ?_⟩
    · rw [bind_of_ok (first.endless w), second.endless, ByteArray.append_assoc]
    · rw [ByteArray.size_append] at hle
      have hfirst := first.fits w room (by omega)
      have hsecond := second.fits (w ++ out₁) (room - out₁.size) (by omega)
      rw [bind_of_ok hfirst, hsecond, ByteArray.append_assoc, ByteArray.size_append, Nat.sub_sub]
    · rw [ByteArray.size_append] at hlt
      by_cases hroom : room < out₁.size
      · obtain ⟨st'', hfull⟩ := first.cut w room hroom
        refine ⟨st'', ?_⟩
        rw [extract_append_of_le (Nat.le_of_lt hroom)]
        exact bind_of_error hfull
      · rw [Nat.not_lt] at hroom
        have hfirst := first.fits w room hroom
        obtain ⟨st'', hfull⟩ := second.cut (w ++ out₁) (room - out₁.size) (by omega)
        refine ⟨st'', ?_⟩
        rw [bind_of_ok hfirst, extract_append_of_ge hroom, ← ByteArray.append_assoc]
        exact hfull

end Run.Truncates

theorem compositional_truncates : Compositional Run.Truncates where
  pure a := .of_silent fun st => ⟨.ok a, st, fun _ _ => rfl⟩
  exhausted := .of_silent fun st => ⟨.error .exhausted, st, fun _ _ => rfl⟩
  fail _ := .of_silent fun st => ⟨.error (.failure _), st, fun _ _ => rfl⟩
  bind := .bind
  resolve e x := .of_silent fun st => ⟨.ok (st.resolve e x), st, fun _ _ => rfl⟩
  update e x v := .of_silent fun st => ⟨.ok (), st.update e x v, fun _ _ => rfl⟩
  declare := .declare
  newScope p := .of_silent fun st => ⟨.ok st.fresh, st.push p, fun _ _ => rfl⟩
  printLine := .printLine
  flush := .flush

/-! ### Programs -/

/-- A program that ends, with a value or at a failure, when what it prints is all taken, ends the
same over a sink that has room for it. Over a sink that has not, it fails because the sink is full,
and the sink keeps as much from the start of the output as there was room for. -/
theorem ends_interpret_limited {t : Expr} {o : Except Halt Value} {m : Machine}
    (h : Ends (fun n => interpret n t) ⟨st, .endless w⟩ (resultOf o m)) :
    ∃ out, m.sink = .endless (w ++ out) ∧ ∀ w' room,
      (out.size ≤ room → Ends (fun n => interpret n t) ⟨st, .limited w' room⟩
        (resultOf o ⟨m.store, .limited (w' ++ out) (room - out.size)⟩)) ∧
      (room < out.size → ∃ st', Ends (fun n => interpret n t) ⟨st, .limited w' room⟩
        (fullOf st' (w' ++ out.extract 0 room))) := by
  obtain ⟨⟨n, hrun⟩, hne⟩ := h
  obtain ⟨o', st', out, hprints⟩ := compositional_truncates.interpret n t st
  obtain ⟨rfl, rfl⟩ := resultOf_inj ((hprints.endless w).symm.trans hrun)
  refine ⟨out, rfl, fun w' room => ⟨fun hle => ⟨⟨n, hprints.fits w' room hle⟩, ?_⟩, fun hlt => ?_⟩⟩
  · -- Not for want of steps either, as the results differ in the machine only.
    intro m' heq
    replace heq : resultOf _ _ = resultOf (.error .exhausted) m' := heq
    obtain ⟨rfl, -⟩ := resultOf_inj heq
    exact hne _ rfl
  · obtain ⟨st'', hfull⟩ := hprints.cut w' room hlt
    exact ⟨st'', ⟨n, hfull⟩, nofun⟩

/-- The program `print(1); print(23);`. -/
def printsTwoLines : Expr := .seq (.print (.int 1)) (.print (.int 23))

/-- Room for three bytes cuts the second line in the middle. -/
theorem ends_interpret_limited_printsTwoLines :
    Ends (fun n => interpret n printsTwoLines) ⟨.initial, .endless .empty⟩
        (resultOf (.ok (.int 23)) ⟨.initial, .endless "1\n23\n".toUTF8⟩) ∧
      ∃ st', Ends (fun n => interpret n printsTwoLines) ⟨.initial, .limited .empty 3⟩
        (fullOf st' "1\n2".toUTF8) := by
  have hend : Ends (fun n => interpret n printsTwoLines) ⟨.initial, .endless .empty⟩
      (resultOf (.ok (.int 23)) ⟨.initial, .endless "1\n23\n".toUTF8⟩) := ⟨⟨3, rfl⟩, nofun⟩
  obtain ⟨out, hsink, hlimited⟩ := ends_interpret_limited hend
  have hout : "1\n23\n".toUTF8 = out :=
    (congrArg Sink.written hsink).trans ByteArray.empty_append
  subst hout
  exact ⟨hend, (hlimited .empty 3).2 (by decide)⟩

end Featherweight
