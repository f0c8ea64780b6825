import Featherweight.Proofs.Evaluation.Numbering
import Featherweight.Proofs.Evaluation.Sequencing
import Featherweight.Proofs.Parsing.Concatenation

/-!
# Running a text in two parts

Two texts with a line feed between them run like the first one and then the second one
(`ends_interpret_append`): they end with the same scopes and the same output, or with the same
failure, or neither ends. The value is that of the second text unless that has no statement.
-/

namespace Featherweight

/-- The value of one program after another, which is that of the second one if `second`. A program
that fails is the last one. -/
def interpretTwo (n : Nat) (t u : Expr) (second : Bool) : Run Value := do
  let v ← interpret n t
  let w ← interpret n u
  return if second then w else v

theorem interpretTwo_eq {m : Machine} (h : m.sink.NeverFails) (n : Nat) (t u : Expr)
    (second : Bool) :
    interpretTwo n t u second m =
      ((Gradual.eval t Store.globals).followedBy (Gradual.eval u Store.globals) second).run
        n m := by
  have hkept := eval_neverFails h n t Store.globals
  show EStateM.bind (interpret n t) (fun v => interpret n u >>= fun w =>
      pure (if second then w else v)) m =
    EStateM.bind (eval n t Store.globals) (fun v => eval n u Store.globals >>= fun w =>
      pure (if second then w else v)) m
  unfold EStateM.bind
  rw [interpret_eq_eval h]
  cases heval : eval n t Store.globals m with
  | error e m' => rfl
  | ok v m' =>
    rw [heval] at hkept
    replace hkept : m'.sink.NeverFails := hkept
    exact bind_eq_of_eq (interpret_eq_eval hkept n u)

/-- Two texts with a line feed between them are a program if each of them is, and running it ends
like running the first one and then, unless that fails, the second one. -/
theorem ends_interpret_append {s₁ s₂ : String} {t₁ t₂ : Expr} (h₁ : Expr.ofSource s₁ = .ok t₁)
    (h₂ : Expr.ofSource s₂ = .ok t₂) :
    ∃ t, Expr.ofSource (s₁ ++ "\n" ++ s₂) = .ok t ∧
      ∀ {k k₁ k₂ : Site} {u₁ u₂ : Expr}, t₁.number.run k = (u₁, k₁) →
        t₂.number.run k₁ = (u₂, k₂) →
        ∃ u, t.number.run k = (u, k₂) ∧
          ∀ {m : Machine}, m.sink.NeverFails → ∀ o,
            Ends (fun n => interpret n u) m o ↔
              Ends (fun n => interpretTwo n u₁ u₂ (hasStatement s₂)) m o := by
  obtain ⟨es₁, es₂, rfl, rfl, hsource, hstatement⟩ := exists_ofSource_append h₁ h₂
  refine ⟨_, hsource, ?_⟩
  intro k k₁ k₂ u₁ u₂ hu₁ hu₂
  -- The functions of the second part are numbered from where those of the first part end.
  obtain ⟨us₁, us₂, k', k'', hus₁, hus₂, hus, hempty⟩ := exists_number_append es₁ es₂ k
  rw [hu₁] at hus₁
  cases hus₁
  rw [hu₂] at hus₂
  cases hus₂
  refine ⟨_, hus, fun {m} hm o => ?_⟩
  rw [hstatement, ← hempty, ends_congr (interpret_eq_eval hm · _),
    ends_congr (interpretTwo_eq hm · _ _ _)]
  exact Gradual.eval_sequence_append Store.globals us₁ us₂ m o

/-- The program `function one() { 1; }`. -/
def declaresOne : Expr := .declare "one" (.function 0 [] (.int 1))

/-- The program `print(one());`. -/
def printsOne : Expr := .print (.call (.ident "one") [])

theorem ofSource_declaresOne : Expr.ofSource "function one() \x7b 1; \x7d" = .ok declaresOne :=
  Expr.ofSource_eq_ok_iff.2 ⟨[⟨.keyword .functionWord, "function", 1⟩, ⟨.identifier, "one", 1⟩,
    ⟨.symbol .leftParen, "(", 1⟩, ⟨.symbol .rightParen, ")", 1⟩, ⟨.symbol .leftBrace, "\x7b", 1⟩,
    ⟨.int 1, "1", 1⟩, ⟨.symbol .semicolon, ";", 1⟩, ⟨.symbol .rightBrace, "\x7d", 1⟩,
    ⟨.eof, "", 1⟩], by decide +kernel, rfl⟩

theorem ofSource_printsOne : Expr.ofSource "print(one());" = .ok printsOne :=
  Expr.ofSource_eq_ok_iff.2 ⟨[⟨.keyword .printWord, "print", 1⟩, ⟨.symbol .leftParen, "(", 1⟩,
    ⟨.identifier, "one", 1⟩, ⟨.symbol .leftParen, "(", 1⟩, ⟨.symbol .rightParen, ")", 1⟩,
    ⟨.symbol .rightParen, ")", 1⟩, ⟨.symbol .semicolon, ";", 1⟩, ⟨.eof, "", 1⟩],
    by decide +kernel, rfl⟩

/-- The text of both prints what the function of the first one returns to the second one. -/
theorem ends_interpret_append_one :
    ∃ t u m, Expr.ofSource ("function one() \x7b 1; \x7d" ++ "\n" ++ "print(one());") = .ok t ∧
      t.number.run 0 = (u, 1) ∧
      Ends (fun n => interpret n u) ⟨.initial, .unlimited⟩ (.ok (.int 1) m) ∧
      m.sink.written = "1\n".toUTF8 := by
  obtain ⟨t, hsource, hrun⟩ := ends_interpret_append ofSource_declaresOne ofSource_printsOne
  have hnumber : declaresOne.number.run 0 = (declaresOne, 1) := rfl
  have hnumber' : printsOne.number.run 1 = (printsOne, 1) := rfl
  obtain ⟨u, hu, hends⟩ := hrun hnumber hnumber'
  have hstatement : hasStatement "print(one());" = true := by decide +kernel
  obtain ⟨m, hboth, hwritten⟩ : ∃ m : Machine,
      Ends (fun n => interpretTwo n declaresOne printsOne true) ⟨.initial, .unlimited⟩
        (.ok (.int 1) m) ∧ m.sink.written = "1\n".toUTF8 := by
    let r := interpretTwo 9 declaresOne printsOne true ⟨.initial, .unlimited⟩
    have hvalue : r = .ok (.int 1) (settle r).2 := by with_unfolding_all rfl
    refine ⟨(settle r).2, ⟨⟨9, hvalue⟩, ?_⟩, by decide +kernel⟩
    intro _ h
    cases h
  rw [← hstatement] at hboth
  exact ⟨t, u, m, hsource, hu, (hends ⟨rfl, rfl⟩ _).2 hboth, hwritten⟩

end Featherweight
