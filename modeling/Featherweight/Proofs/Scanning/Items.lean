import Featherweight.Token.Lexer
import Mathlib.Data.List.Basic

/-!
# Items of a text

What `scan` lists, lexeme by lexeme: a text is its first lexeme and the rest (`items_cons`), every
token comes from a lexeme that means it (`mem_items`), and the end of the input comes last and
nowhere else (`exists_items_eq`). The line a text begins on changes nothing but the lines of its
items (`items_add`). No lexeme goes past a line feed, so a text may be cut at one
(`items_append_newline`).
-/

namespace Featherweight

/-- The token, `k` lines further down. -/
def Token.below (k : Nat) (t : Token) : Token := { t with line := t.line + k }

/-- The fault, `k` lines further down. -/
def LexError.below (k : Nat) (e : LexError) : LexError := { e with line := e.line + k }

namespace Lexer

/-! ### The first lexeme -/

/-- What the lexeme `c :: cs` on a line adds to the items. -/
def emit (line : Nat) (c : Char) (cs : List Char) : List (Except LexError Token) :=
  match classify c cs with
  | .blank      => []
  | .token kind => [.ok ⟨kind, String.ofList (c :: cs), line⟩]
  | .fault f    => [.error ⟨line, f⟩]

theorem items_nil (line : Nat) : items line [] = [.ok ⟨.eof, "", line⟩] := by rw [items]

theorem items_cons (line : Nat) (c : Char) (cs : List Char) :
    items line (c :: cs) = emit line c (munch c cs).1.tail ++
      items (line + (munch c cs).1.count '\n') (munch c cs).2 := by
  rw [items]
  have hlexeme : c :: (munch c cs).1.tail = (munch c cs).1 := rfl
  unfold emit
  cases classify c (munch c cs).1.tail with
  | blank => rfl
  | token kind =>
    rw [hlexeme]
    rfl
  | fault f => rfl

/-- What holds of the items of an empty text, and of a text if of what follows its first lexeme,
holds of the items of every text. -/
theorem items_induction {P : Nat → List Char → Prop} (nil : ∀ line, P line [])
    (cons : ∀ line c cs, P (line + (munch c cs).1.count '\n') (munch c cs).2 → P line (c :: cs))
    (line : Nat) (cs : List Char) : P line cs := by
  induction h : cs.length using Nat.strongRecOn generalizing line cs with
  | _ n ih =>
    cases cs with
    | nil => exact nil line
    | cons c cs =>
      subst h
      exact cons line c cs (ih _ (length_munch_lt c cs) _ _ rfl)

/-! ### Tokens and lexemes -/

theorem classify_ne_eof (c : Char) (cs : List Char) : classify c cs ≠ .token .eof := by
  unfold classify
  split
  · unfold classifyDigits
    dsimp only
    split <;> simp
  · split
    · unfold classifyWord
      split <;> simp
    · split
      · simp
      · split <;> simp

theorem mem_emit {line : Nat} {c : Char} {cs : List Char} {t : Token}
    (h : .ok t ∈ emit line c cs) :
    classify c cs = .token t.kind ∧ t.lexeme = String.ofList (c :: cs) := by
  unfold emit at h
  split at h
  · cases h
  · next kind hkind =>
    obtain rfl := Except.ok.inj (List.mem_singleton.1 h)
    exact ⟨hkind, rfl⟩
  · cases List.mem_singleton.1 h

/-- A token is the end of the input, or is what a lexeme cut off the text means. -/
theorem mem_items {line : Nat} {cs : List Char} {t : Token} (h : .ok t ∈ items line cs) :
    t.kind = .eof ∨ ∃ d ds, classify d (munch d ds).1.tail = .token t.kind ∧
      t.lexeme = String.ofList (munch d ds).1 := by
  induction line, cs using items_induction with
  | nil line =>
    rw [items_nil] at h
    obtain rfl := Except.ok.inj (List.mem_singleton.1 h)
    exact .inl rfl
  | cons line c cs ih =>
    rw [items_cons, List.mem_append] at h
    rcases h with h | h
    · exact .inr ⟨c, cs, mem_emit h⟩
    · exact ih h

/-- The end of the input is the last item and no other. -/
theorem exists_items_eq (line : Nat) (cs : List Char) :
    ∃ before last, items line cs = before ++ [.ok ⟨.eof, "", last⟩] ∧
      ∀ t, .ok t ∈ before → t.kind ≠ .eof := by
  induction line, cs using items_induction with
  | nil line => exact ⟨[], line, items_nil line, by simp⟩
  | cons line c cs ih =>
    obtain ⟨before, last, hitems, hbefore⟩ := ih
    refine ⟨emit line c (munch c cs).1.tail ++ before, last, ?_, ?_⟩
    · rw [items_cons, hitems, List.append_assoc]
    · intro t ht heof
      rcases List.mem_append.1 ht with ht | ht
      · have hkind := (mem_emit ht).1
        rw [heof] at hkind
        exact classify_ne_eof c _ hkind
      · exact hbefore t ht heof

theorem items_ne_nil (line : Nat) (cs : List Char) : items line cs ≠ [] := by
  obtain ⟨before, last, h, _⟩ := exists_items_eq line cs
  rw [h]
  simp

/-! ### Counting lines from elsewhere -/

/-- The item, `k` lines further down. -/
def below (k : Nat) : Except LexError Token → Except LexError Token
  | .ok t    => .ok (t.below k)
  | .error e => .error (e.below k)

theorem emit_add (k line : Nat) (c : Char) (cs : List Char) :
    emit (line + k) c cs = (emit line c cs).map (below k) := by
  unfold emit
  cases classify c cs with
  | blank      => rfl
  | token kind => rfl
  | fault f    => rfl

/-- A text that begins `k` lines further down has the same items there. -/
theorem items_add (k line : Nat) (cs : List Char) :
    items (line + k) cs = (items line cs).map (below k) := by
  induction line, cs using items_induction with
  | nil line =>
    rw [items_nil, items_nil]
    rfl
  | cons line c cs ih =>
    rw [items_cons, items_cons, List.map_append, ← emit_add, ← ih, Nat.add_right_comm]

/-! ### Cutting a text at a line feed -/

theorem length_takeWhile_append_newline {p : Char → Bool} (hp : p '\n' = false)
    (us vs : List Char) :
    ((us ++ '\n' :: vs).takeWhile p).length = (us.takeWhile p).length := by
  induction us with
  | nil => simp [hp]
  | cons u us ih =>
    rw [List.cons_append, List.takeWhile_cons, List.takeWhile_cons]
    split
    · rw [List.length_cons, List.length_cons, ih]
    · rfl

theorem head?_append_newline {d : Char} (hd : d ≠ '\n') (us vs : List Char) :
    ((us ++ '\n' :: vs).head? == some d) = (us.head? == some d) := by
  cases us with
  | nil => simpa using hd.symm
  | cons u us => rfl

/-- A lexeme that begins before a line feed is the same without what follows the line feed. -/
theorem extent_append_newline (c : Char) (us vs : List Char) :
    extent c (us ++ '\n' :: vs) = extent c us := by
  have hdigits := length_takeWhile_append_newline (p := Char.isDigit) rfl us vs
  have hword := length_takeWhile_append_newline (p := isWordChar) rfl us vs
  have hcomment := length_takeWhile_append_newline (p := (· != '\n')) rfl us vs
  have hslash := head?_append_newline (d := '/') (by decide) us vs
  have hequal := head?_append_newline (d := '=') (by decide) us vs
  unfold extent
  rw [hdigits, hword, hcomment, hslash, hequal]

theorem extent_le (c : Char) (cs : List Char) : extent c cs ≤ cs.length := by
  have htake (p : Char → Bool) : (cs.takeWhile p).length ≤ cs.length :=
    (List.takeWhile_prefix p).length_le
  unfold extent
  split
  · exact htake _
  · split
    · exact htake _
    · split
      · exact htake _
      · split
        · next h =>
          cases cs with
          | nil => simp at h
          | cons _ _ => simp
        · exact Nat.zero_le _

theorem munch_append_newline (c : Char) (us vs : List Char) :
    munch c (us ++ '\n' :: vs) = ((munch c us).1, (munch c us).2 ++ '\n' :: vs) := by
  have hle := extent_le c us
  unfold munch
  rw [extent_append_newline, List.take_append_of_le_length hle, List.drop_append_of_le_length hle]

theorem items_newline (line : Nat) (cs : List Char) :
    items line ('\n' :: cs) = items (line + 1) cs := by
  have hmunch : munch '\n' cs = (['\n'], cs) := rfl
  rw [items_cons, hmunch]
  rfl

/-- The items of two texts with a line feed between them are those of the first one, without the end
of its input, and those of the second one, whose lines count on. -/
theorem items_append_newline (line : Nat) (us vs : List Char) :
    items line (us ++ '\n' :: vs) =
      (items line us).dropLast ++ items (line + us.count '\n' + 1) vs := by
  induction line, us using items_induction with
  | nil line =>
    rw [List.nil_append, items_newline, items_nil]
    rfl
  | cons line c cs ih =>
    have hlexeme : (munch c cs).1 ++ (munch c cs).2 = c :: cs := munch_append c cs
    have hcount : (munch c cs).1.count '\n' + (munch c cs).2.count '\n' = (c :: cs).count '\n' := by
      rw [← hlexeme, List.count_append]
    -- The first lexeme is the same with and without what follows the line feed.
    rw [List.cons_append, items_cons, munch_append_newline, ih, items_cons line c cs,
      List.dropLast_append_of_ne_nil (items_ne_nil _ _), List.append_assoc, Nat.add_assoc line,
      hcount]

end Lexer

end Featherweight
