import Featherweight.Expr.Site

/-!
# Numbers of functions

The functions of a program are numbered from left to right, so those of trees one after the other
are numbered like those of each tree in turn, from where the one before stopped
(`exists_number_append`).
-/

namespace Featherweight

/-- A sequence is numbered tree by tree. -/
theorem number_sequence (es : List Expr) :
    (Expr.sequence es).number = (do return Expr.sequence (← numberArgs es)) := by
  induction es with
  | nil => rfl
  | cons a es ih =>
    cases es with
    | nil => simp [Expr.sequence, numberArgs]
    | cons b es =>
      rw [Expr.sequence, Expr.number, ih]
      simp [numberArgs, Expr.sequence]

theorem run_number_sequence (es : List Expr) (k : Site) :
    (Expr.sequence es).number.run k =
      (Expr.sequence ((numberArgs es).run k).1, ((numberArgs es).run k).2) := by
  rw [number_sequence]
  rfl

theorem numberArgs_append (es es' : List Expr) :
    numberArgs (es ++ es') = (do return (← numberArgs es) ++ (← numberArgs es')) := by
  induction es with
  | nil => simp [numberArgs]
  | cons a es ih => simp [numberArgs, ih]

theorem isEmpty_numberArgs (es : List Expr) (k : Site) :
    ((numberArgs es).run k).1.isEmpty = es.isEmpty := by
  cases es with
  | nil => rfl
  | cons a es => rfl

/-- The functions of two sequences, one after the other, are numbered in turn. -/
theorem exists_number_append (es es' : List Expr) (k : Site) :
    ∃ us us' k' k'', (Expr.sequence es).number.run k = (Expr.sequence us, k') ∧
      (Expr.sequence es').number.run k' = (Expr.sequence us', k'') ∧
      (Expr.sequence (es ++ es')).number.run k = (Expr.sequence (us ++ us'), k'') ∧
      us'.isEmpty = es'.isEmpty := by
  obtain ⟨us, k', hus⟩ : ∃ us k', (numberArgs es).run k = (us, k') := ⟨_, _, rfl⟩
  obtain ⟨us', k'', hus'⟩ : ∃ us' k'', (numberArgs es').run k' = (us', k'') := ⟨_, _, rfl⟩
  have hargs : (numberArgs (es ++ es')).run k = (us ++ us', k'') := by
    rw [numberArgs_append]
    show (let p := (numberArgs es).run k; let p' := (numberArgs es').run p.2
      (p.1 ++ p'.1, p'.2)) = _
    simp only [hus, hus']
  refine ⟨us, us', k', k'', ?_, ?_, ?_, ?_⟩
  · rw [run_number_sequence, hus]
  · rw [run_number_sequence, hus']
  · rw [run_number_sequence, hargs]
  · rw [← isEmpty_numberArgs es' k', hus']

end Featherweight
