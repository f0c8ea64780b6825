import Featherweight.Expr.Printer
import Featherweight.Proofs.Evaluation.ClosureKeys
import Featherweight.Proofs.Parsing.Spelling

/-!
# The text of a tree can be read back

The text of a tree consists of words and of lists of such texts in parentheses (`Sexp`), and can be
taken apart in one way only (`Sexp.chars_append_inj`). The words in front tell the operations apart,
and no identifier is written like a literal. So trees that are read from programs have the same text
just in case they are the same (`Expr.render_eq_iff_same`).
-/

namespace Featherweight

/-! ### Words and lists -/

/-- A word, or a list of such things. -/
inductive Sexp where
  | word (text : String)
  | list (items : List Sexp)

namespace Sexp

mutual

/-- How it is written: words as they are, and lists in parentheses. -/
@[simp] def chars : Sexp → List Char
  | word x     => x.toList
  | list items => '(' :: opened items

/-- The items of a list that was opened, and its end. -/
@[simp] def opened : List Sexp → List Char
  | []      => [')']
  | s :: ss => s.chars ++ remaining ss

/-- The items that remain of a list after others, and its end. -/
@[simp] def remaining : List Sexp → List Char
  | []      => [')']
  | s :: ss => ' ' :: (s.chars ++ remaining ss)

end

/-- Can the character stand in a word? -/
def isWordPart (c : Char) : Bool := c != ' ' && c != '(' && c != ')'

/-- Is every word in it written in characters of words only, and at least one? -/
inductive Proper : Sexp → Prop
  | word {x : String} (hne : x.toList ≠ []) (hx : ∀ c ∈ x.toList, isWordPart c = true) :
      Proper (.word x)
  | list {items : List Sexp} (h : ∀ s ∈ items, Proper s) : Proper (.list items)

/-- A character stands in words if it is of a kind that spaces and parentheses are not of. -/
theorem isWordPart_of_class {f : Char → Bool} (hf : f ' ' = false ∧ f '(' = false ∧ f ')' = false)
    {c : Char} (hc : f c = true) : isWordPart c = true := by
  have hne {d : Char} (hd : f d = false) : c ≠ d := by
    rintro rfl
    rw [hd] at hc
    cases hc
  simp [isWordPart, hne hf.1, hne hf.2.1, hne hf.2.2]

theorem proper_word {x : String} (h : x.toList ≠ [] ∧ x.toList.all isWordPart = true) :
    (word x).Proper := .word h.1 (List.all_eq_true.1 h.2)

/-- No text goes on with a character of words. -/
abbrev Stops (rest : List Char) : Prop := Lexer.EndsBefore isWordPart rest

theorem stops_nil : Stops [] := fun _ h => by cases h

theorem stops_remaining (ss : List Sexp) (rest : List Char) : Stops (remaining ss ++ rest) := by
  intro c hc
  cases ss with
  | nil =>
    obtain rfl : ')' = c := Option.some.inj hc
    rfl
  | cons s ss =>
    obtain rfl : ' ' = c := Option.some.inj hc
    rfl

/-- What begins a text: the parenthesis of a list, or a character of a word. -/
theorem Proper.exists_cons {s : Sexp} (h : s.Proper) (rest : List Char) :
    ∃ c cs, s.chars ++ rest = c :: cs ∧ c ≠ ')' := by
  cases h with
  | @word x hne hx =>
    simp only [chars]
    cases hcs : x.toList with
    | nil => exact absurd hcs hne
    | cons c cs =>
      rw [hcs, List.forall_mem_cons] at hx
      refine ⟨c, cs ++ rest, rfl, ?_⟩
      rintro rfl
      exact absurd hx.1 (by decide)
  | list _ => exact ⟨'(', _, by rw [chars, List.cons_append], by decide⟩

theorem word_append_inj {x y : String} (hx : ∀ c ∈ x.toList, isWordPart c = true)
    (hy : ∀ c ∈ y.toList, isWordPart c = true) {rest rest' : List Char} (hstop : Stops rest)
    (hstop' : Stops rest') (h : x.toList ++ rest = y.toList ++ rest') : x = y ∧ rest = rest' := by
  have htake := congrArg (List.takeWhile isWordPart) h
  rw [Lexer.takeWhile_append_of_endsBefore hx hstop,
    Lexer.takeWhile_append_of_endsBefore hy hstop'] at htake
  rw [htake] at h
  exact ⟨String.toList_injective htake, List.append_cancel_left h⟩

theorem word_ne_list {x : String} (hne : x.toList ≠ [])
    (hx : ∀ c ∈ x.toList, isWordPart c = true) {items : List Sexp} {rest rest' : List Char} :
    (word x).chars ++ rest ≠ (list items).chars ++ rest' := by
  intro h
  simp only [chars] at h
  cases hcs : x.toList with
  | nil => exact hne hcs
  | cons c cs =>
    rw [hcs] at h hx
    obtain rfl : c = '(' := (List.cons.inj h).1
    exact absurd (hx '(' List.mem_cons_self) (by decide)

/-- An item is not the end of a list. -/
theorem Proper.ne_end {s : Sexp} (h : s.Proper) (ss : List Sexp) (rest rest' : List Char) :
    opened (s :: ss) ++ rest ≠ ')' :: rest' := by
  obtain ⟨c, cs, hcs, hc⟩ := h.exists_cons (remaining ss ++ rest)
  rw [opened, List.append_assoc, hcs]
  exact fun heq => hc (List.cons.inj heq).1

mutual

/-- What a text begins with, and where that ends, can be told from the text, if it does not go on
with another character of a word. -/
theorem chars_append_inj : ∀ {s s' : Sexp} {rest rest' : List Char}, s.Proper → s'.Proper →
    Stops rest → Stops rest' → s.chars ++ rest = s'.chars ++ rest' → s = s' ∧ rest = rest'
  | .word _, .word _, _, _, .word _ hx, .word _ hy, hstop, hstop', h => by
    obtain ⟨rfl, hrest⟩ := word_append_inj hx hy hstop hstop' h
    exact ⟨rfl, hrest⟩
  | .word _, .list _, _, _, .word hne hx, _, _, _, h => (word_ne_list hne hx h).elim
  | .list _, .word _, _, _, _, .word hne hy, _, _, h => (word_ne_list hne hy h.symm).elim
  | .list items, .list _, _, _, .list hs, .list hs', _, _, h => by
    simp only [chars, List.cons_append, List.cons.injEq, true_and] at h
    obtain ⟨rfl, hrest⟩ := opened_append_inj hs hs' h
    exact ⟨rfl, hrest⟩
termination_by s => (sizeOf s, 0)

theorem opened_append_inj : ∀ {ss ss' : List Sexp} {rest rest' : List Char}, (∀ s ∈ ss, s.Proper) →
    (∀ s ∈ ss', s.Proper) → opened ss ++ rest = opened ss' ++ rest' → ss = ss' ∧ rest = rest'
  | [], [], _, _, _, _, h => ⟨rfl, List.append_cancel_left h⟩
  | [], s' :: ss', _, _, _, hs', h => ((hs' s' List.mem_cons_self).ne_end _ _ _ h.symm).elim
  | s :: ss, [], _, _, hs, _, h => ((hs s List.mem_cons_self).ne_end _ _ _ h).elim
  | s :: ss, s' :: ss', rest, rest', hs, hs', h => by
    obtain ⟨hs, hss⟩ := List.forall_mem_cons.1 hs
    obtain ⟨hs', hss'⟩ := List.forall_mem_cons.1 hs'
    simp only [opened, List.append_assoc] at h
    obtain ⟨rfl, htail⟩ := chars_append_inj hs hs' (stops_remaining ss rest)
      (stops_remaining ss' rest') h
    obtain ⟨rfl, hrest⟩ := remaining_append_inj hss hss' htail
    exact ⟨rfl, hrest⟩
termination_by ss => (sizeOf ss, 0)

theorem remaining_append_inj : ∀ {ss ss' : List Sexp} {rest rest' : List Char},
    (∀ s ∈ ss, s.Proper) → (∀ s ∈ ss', s.Proper) →
    remaining ss ++ rest = remaining ss' ++ rest' → ss = ss' ∧ rest = rest'
  | [], [], _, _, _, _, h => ⟨rfl, List.append_cancel_left h⟩
  | [], _ :: _, _, _, _, _, h => absurd (List.cons.inj h).1 (by decide)
  | _ :: _, [], _, _, _, _, h => absurd (List.cons.inj h).1 (by decide)
  | s :: ss, s' :: ss', _, _, hs, hs', h => by
    -- After the space it is a list with these items first.
    have hopened : opened (s :: ss) ++ _ = opened (s' :: ss') ++ _ := (List.cons.inj h).2
    exact opened_append_inj hs hs' hopened
termination_by ss => (sizeOf ss, 1)

end

end Sexp

/-! ### Trees -/

mutual

/-- What the text of a tree says, in words and lists. -/
def Expr.sexp : Expr → Sexp
  | .literal v         => .word v.renderLiteral
  | .ident x           => .word x
  | .print e           => .list [.word "print", e.sexp]
  | .binary op l r     => .list [.word op.text, l.sexp, r.sexp]
  | .ifElse c yes no   => .list [.word "if", c.sexp, yes.sexp, no.sexp]
  | .loop c b          => .list [.word "while", c.sexp, b.sexp]
  | .seq a b           => .list [.word "seq", a.sexp, b.sexp]
  | .declare x e       => .list [.word "var", .word x, e.sexp]
  | .assign x e        => .list [.word "=", .word x, e.sexp]
  | .function _ ps b   => .list [.word "function", .list (ps.map .word), b.sexp]
  | .call f args       => .list (.word "call" :: f.sexp :: sexpsOfArgs args)

/-- What the texts of arguments say. -/
def sexpsOfArgs : List Expr → List Sexp
  | []      => []
  | e :: es => e.sexp :: sexpsOfArgs es

end

/-- Parameters with a space between any two are written like a list of words. -/
theorem intercalate_append (ps : List String) (rest : List Char) :
    [' '].intercalate (ps.map String.toList) ++ ')' :: rest =
      Sexp.opened (ps.map .word) ++ rest := by
  have hremaining (p : String) (qs : List String) :
      [' '].intercalate ((p :: qs).map String.toList) ++ ')' :: rest =
        p.toList ++ (Sexp.remaining (qs.map .word) ++ rest) := by
    induction qs generalizing p with
    | nil => simp
    | cons q qs ih => simpa using ih q
  cases ps with
  | nil => rfl
  | cons p qs => simpa using hremaining p qs

mutual

theorem Expr.toList_render : ∀ t : Expr, t.render.toList = t.sexp.chars
  | .literal v => rfl
  | .ident x => rfl
  | .print e => by
    simp [Expr.render, Expr.sexp, e.toList_render]
  | .binary op l r => by
    simp [Expr.render, Expr.sexp, l.toList_render, r.toList_render]
  | .ifElse c yes no => by
    simp [Expr.render, Expr.sexp, c.toList_render, yes.toList_render, no.toList_render]
  | .loop c b => by
    simp [Expr.render, Expr.sexp, c.toList_render, b.toList_render]
  | .seq a b => by
    simp [Expr.render, Expr.sexp, a.toList_render, b.toList_render]
  | .declare x e => by
    simp [Expr.render, Expr.sexp, e.toList_render]
  | .assign x e => by
    simp [Expr.render, Expr.sexp, e.toList_render]
  | .function _ ps b => by
    simp [Expr.render, Expr.sexp, b.toList_render, intercalate_append]
  | .call f args => by
    simp [Expr.render, Expr.sexp, f.toList_render, toList_renderArgs args]

theorem toList_renderArgs : ∀ args : List Expr,
    (renderArgs args).toList ++ [')'] = Sexp.remaining (sexpsOfArgs args)
  | [] => rfl
  | e :: es => by
    simp [renderArgs, sexpsOfArgs, Sexp.remaining, e.toList_render, ← toList_renderArgs es]

end

/-! ### Words of a tree -/

open Text.Decimal in
/-- Integers are written with digits, after a minus sign if they are negative. -/
theorem mem_toList_ofInt {i : Int} {c : Char} (h : c ∈ (ofInt i).toList) :
    c = '-' ∨ c.isDigit = true := by
  rw [ofInt, String.toList_ofList] at h
  split at h
  · rcases List.mem_cons.1 h with rfl | hc
    · exact .inl rfl
    · exact .inr (isDigit_of_mem_digits hc)
  · exact .inr (isDigit_of_mem_digits h)

open Text.Decimal in
theorem toList_ofInt_ne_nil (i : Int) : (ofInt i).toList ≠ [] := by
  rw [ofInt, String.toList_ofList]
  split
  · exact List.cons_ne_nil _ _
  · exact Nat.toDigits_ne_nil

open Text.Decimal in
theorem ofInt_injective : Function.Injective ofInt := by
  intro i j h
  replace h := congrArg String.toList h
  rw [ofInt, ofInt, String.toList_ofList, String.toList_ofList] at h
  have hminus (n : Nat) : '-' ∉ digits n := fun hmem =>
    absurd (isDigit_of_mem_digits hmem) (by decide)
  have hdigits {m n : Nat} (heq : digits m = digits n) : m = n := by
    rw [← toNat_digits m, heq, toNat_digits]
  split at h <;> split at h
  · have := hdigits (List.cons.inj h).2
    omega
  · exact absurd (h ▸ List.mem_cons_self) (hminus _)
  · exact absurd (h ▸ List.mem_cons_self) (hminus _)
  · have := hdigits h
    omega

theorem Sexp.proper_name {x : String} (hx : isIdentifier x = true) : (word x).Proper := by
  refine .word ?_ fun c hc => ?_
  · intro hnil
    rw [isIdentifier, hnil] at hx
    cases hx
  · exact isWordPart_of_class (by decide) (isWordChar_of_isIdentifier hx c hc)

theorem Sexp.proper_literal (v : Value) : (word v.renderLiteral).Proper := by
  cases v with
  | int n =>
    refine .word (toList_ofInt_ne_nil _) fun c hc => ?_
    rcases mem_toList_ofInt hc with rfl | hdigit
    · decide
    · exact isWordPart_of_class (by decide) hdigit
  | bool b => cases b <;> exact proper_word (by decide)
  | null => exact proper_word (by decide)
  | closure c =>
    show (word "<closure>").Proper
    exact proper_word (by decide)

theorem Sexp.proper_operator (op : BinaryOp) : (word op.text).Proper := by
  cases op <;> exact proper_word (by decide)

/-- No literal is written like an identifier. -/
theorem Value.isIdentifier_renderLiteral (v : Value) : isIdentifier v.renderLiteral = false := by
  cases v with
  | int n =>
    show isIdentifier (Text.Decimal.ofInt n.toInt) = false
    unfold isIdentifier
    cases hcs : (Text.Decimal.ofInt n.toInt).toList with
    | nil => rfl
    | cons c cs =>
      have hstart : Lexer.isWordStart c = false := by
        rcases mem_toList_ofInt (hcs ▸ List.mem_cons_self) with rfl | hdigit
        · decide
        · rw [Bool.eq_false_iff]
          intro hstart
          rw [Lexer.isDigit_eq_false_of_isWordStart hstart] at hdigit
          cases hdigit
      simp [hstart]
  | bool b => cases b <;> decide
  | null => decide
  | closure c =>
    show isIdentifier "<closure>" = false
    decide

theorem Value.renderLiteral_ne (v : Value) {x : String} (hx : isIdentifier x = true) :
    v.renderLiteral ≠ x := by
  rintro rfl
  rw [v.isIdentifier_renderLiteral] at hx
  cases hx

/-- Integers are written without letters. -/
theorem ofInt_ne {i : Int} {x : String} {c : Char} (hmem : c ∈ x.toList) (hminus : c ≠ '-')
    (hdigit : c.isDigit = false) : Text.Decimal.ofInt i ≠ x := by
  rintro rfl
  rcases mem_toList_ofInt hmem with h | h
  · exact hminus h
  · rw [hdigit] at h
    cases h

theorem Value.renderLiteral_eq_iff_same {v w : Value} (hv : v.closures = [])
    (hw : w.closures = []) : v.renderLiteral = w.renderLiteral ↔ v.same w = true := by
  have hbool (i : Int) (b : Bool) : Text.Decimal.ofInt i ≠ (Value.bool b).renderLiteral := by
    cases b
    · exact ofInt_ne (x := "false") (c := 'f') (by decide) (by decide) (by decide)
    · exact ofInt_ne (x := "true") (c := 't') (by decide) (by decide) (by decide)
  have hnull (i : Int) : Text.Decimal.ofInt i ≠ "null" :=
    ofInt_ne (c := 'n') (by decide) (by decide) (by decide)
  have hclosure (c : Closure) : (Value.closure c).closures ≠ [] := by
    cases c
    exact List.cons_ne_nil _ _
  cases v with
  | int n =>
    cases w with
    | int n' =>
      show Text.Decimal.ofInt n.toInt = Text.Decimal.ofInt n'.toInt ↔ _
      rw [ofInt_injective.eq_iff, Int64.toInt_inj]
      simp [same]
    | bool b => exact iff_of_false (hbool _ b) Bool.false_ne_true
    | null => exact iff_of_false (hnull _) Bool.false_ne_true
    | closure d => exact absurd hw (hclosure d)
  | bool b =>
    cases w with
    | int n => exact iff_of_false (hbool _ b).symm Bool.false_ne_true
    | bool b' => cases b <;> cases b' <;> decide
    | null => cases b <;> exact iff_of_false (by decide) Bool.false_ne_true
    | closure d => exact absurd hw (hclosure d)
  | null =>
    cases w with
    | int n => exact iff_of_false (hnull _).symm Bool.false_ne_true
    | bool b => cases b <;> exact iff_of_false (by decide) Bool.false_ne_true
    | null => exact iff_of_true rfl rfl
    | closure d => exact absurd hw (hclosure d)
  | closure c => exact absurd hv (hclosure c)

theorem BinaryOp.text_injective : Function.Injective BinaryOp.text := by
  intro op op' h
  cases op <;> cases op' <;> first | rfl | exact absurd h (by decide)

/-- No operator is written like another operation. -/
theorem BinaryOp.text_ne (op : BinaryOp) : op.text ≠ "while" ∧ op.text ≠ "seq" ∧ op.text ≠ "var" ∧
    op.text ≠ "=" ∧ op.text ≠ "function" ∧ op.text ≠ "call" := by
  cases op <;> decide

theorem BinaryOp.ne_text (op : BinaryOp) : "while" ≠ op.text ∧ "seq" ≠ op.text ∧ "var" ≠ op.text ∧
    "=" ≠ op.text ∧ "function" ≠ op.text ∧ "call" ≠ op.text := by
  cases op <;> decide

/-! ### Trees of identifiers -/

namespace Sexp

theorem proper_words {xs : List String} (h : ∀ x ∈ xs, isIdentifier x = true) :
    (list (xs.map word)).Proper := by
  refine .list fun s hs => ?_
  obtain ⟨x, hx, rfl⟩ := List.mem_map.1 hs
  exact proper_name (h x hx)

/-- An operation is written properly if what it is called and its operands are. -/
theorem Proper.operation {x : String} {ss : List Sexp} (hx : (Sexp.word x).Proper)
    (hss : ∀ s ∈ ss, s.Proper) : (Sexp.list (.word x :: ss)).Proper :=
  .list (List.forall_mem_cons.2 ⟨hx, hss⟩)

end Sexp

mutual

theorem Expr.proper_sexp : ∀ {t : Expr}, (∀ x ∈ t.names, isIdentifier x = true) → t.sexp.Proper
  | .literal v, _ => Sexp.proper_literal v
  | .ident x, h => Sexp.proper_name (h x List.mem_cons_self)
  | .print e, h => by
    have he : e.sexp.Proper := e.proper_sexp h
    exact .operation (Sexp.proper_word (by decide)) (by simp [he])
  | .binary op l r, h => by
    simp only [Expr.names, List.forall_mem_append] at h
    exact .operation (Sexp.proper_operator op) (by simp [l.proper_sexp h.1, r.proper_sexp h.2])
  | .ifElse c yes no, h => by
    simp only [Expr.names, List.forall_mem_append] at h
    exact .operation (Sexp.proper_word (by decide))
      (by simp [c.proper_sexp h.1.1, yes.proper_sexp h.1.2, no.proper_sexp h.2])
  | .loop c b, h => by
    simp only [Expr.names, List.forall_mem_append] at h
    exact .operation (Sexp.proper_word (by decide))
      (by simp [c.proper_sexp h.1, b.proper_sexp h.2])
  | .seq a b, h => by
    simp only [Expr.names, List.forall_mem_append] at h
    exact .operation (Sexp.proper_word (by decide))
      (by simp [a.proper_sexp h.1, b.proper_sexp h.2])
  | .declare x e, h => by
    simp only [Expr.names, List.forall_mem_cons] at h
    exact .operation (Sexp.proper_word (by decide))
      (by simp [Sexp.proper_name h.1, e.proper_sexp h.2])
  | .assign x e, h => by
    simp only [Expr.names, List.forall_mem_cons] at h
    exact .operation (Sexp.proper_word (by decide))
      (by simp [Sexp.proper_name h.1, e.proper_sexp h.2])
  | .function _ ps b, h => by
    simp only [Expr.names, List.forall_mem_append] at h
    exact .operation (Sexp.proper_word (by decide))
      (by simp [Sexp.proper_words h.1, b.proper_sexp h.2])
  | .call f args, h => by
    simp only [Expr.names, List.forall_mem_append] at h
    exact .operation (Sexp.proper_word (by decide))
      (List.forall_mem_cons.2 ⟨f.proper_sexp h.1, proper_sexpsOfArgs h.2⟩)

theorem proper_sexpsOfArgs : ∀ {args : List Expr}, (∀ x ∈ namesOfArgs args, isIdentifier x = true) →
    ∀ s ∈ sexpsOfArgs args, s.Proper
  | [], _ => nofun
  | e :: es, h => by
    simp only [namesOfArgs, List.forall_mem_append] at h
    exact List.forall_mem_cons.2 ⟨e.proper_sexp h.1, proper_sexpsOfArgs h.2⟩

end

namespace Expr

/-- A tree of identifiers, with no closure in it. -/
abbrev Lexical (t : Expr) : Prop :=
  (∀ x ∈ t.names, isIdentifier x = true) ∧ t.closures = []

mutual

theorem sexp_eq_iff_same : ∀ {t u : Expr}, t.Lexical → u.Lexical →
    (t.sexp = u.sexp ↔ t.same u = true)
  | .literal v, u, ht, hu => by
    cases u with
    | literal w => simpa [sexp, same] using Value.renderLiteral_eq_iff_same ht.2 hu.2
    | ident x =>
      have hne : v.renderLiteral ≠ x := v.renderLiteral_ne (hu.1 x List.mem_cons_self)
      simp [sexp, same, hne]
    | _ => simp [sexp, same]
  | .ident x, u, ht, hu => by
    cases u with
    | literal w =>
      have hne : x ≠ w.renderLiteral := (w.renderLiteral_ne (ht.1 x List.mem_cons_self)).symm
      simp [sexp, same, hne]
    | _ => simp [sexp, same]
  | .print e, u, ht, hu => by
    cases u with
    | print e' =>
      have he : e.sexp = e'.sexp ↔ e.same e' = true := sexp_eq_iff_same ht hu
      simp [sexp, same, he]
    | _ => simp [sexp, same]
  | .binary op l r, u, ht, hu => by
    cases u with
    | binary op' l' r' =>
      simp only [Lexical, names, closures, List.forall_mem_append, List.append_eq_nil_iff] at ht hu
      have hl := sexp_eq_iff_same ⟨ht.1.1, ht.2.1⟩ ⟨hu.1.1, hu.2.1⟩
      have hr := sexp_eq_iff_same ⟨ht.1.2, ht.2.2⟩ ⟨hu.1.2, hu.2.2⟩
      simp [sexp, same, hl, hr, BinaryOp.text_injective.eq_iff, and_assoc]
    | _ => simp [sexp, same, BinaryOp.text_ne]
  | .ifElse c yes no, u, ht, hu => by
    cases u with
    | ifElse c' yes' no' =>
      simp only [Lexical, names, closures, List.forall_mem_append, List.append_eq_nil_iff] at ht hu
      have hc := sexp_eq_iff_same ⟨ht.1.1.1, ht.2.1.1⟩ ⟨hu.1.1.1, hu.2.1.1⟩
      have hyes := sexp_eq_iff_same ⟨ht.1.1.2, ht.2.1.2⟩ ⟨hu.1.1.2, hu.2.1.2⟩
      have hno := sexp_eq_iff_same ⟨ht.1.2, ht.2.2⟩ ⟨hu.1.2, hu.2.2⟩
      simp [sexp, same, hc, hyes, hno, and_assoc]
    | _ => simp [sexp, same]
  | .loop c b, u, ht, hu => by
    cases u with
    | loop c' b' =>
      simp only [Lexical, names, closures, List.forall_mem_append, List.append_eq_nil_iff] at ht hu
      have hc := sexp_eq_iff_same ⟨ht.1.1, ht.2.1⟩ ⟨hu.1.1, hu.2.1⟩
      have hb := sexp_eq_iff_same ⟨ht.1.2, ht.2.2⟩ ⟨hu.1.2, hu.2.2⟩
      simp [sexp, same, hc, hb]
    | _ => simp [sexp, same, BinaryOp.ne_text]
  | .seq a b, u, ht, hu => by
    cases u with
    | seq a' b' =>
      simp only [Lexical, names, closures, List.forall_mem_append, List.append_eq_nil_iff] at ht hu
      have ha := sexp_eq_iff_same ⟨ht.1.1, ht.2.1⟩ ⟨hu.1.1, hu.2.1⟩
      have hb := sexp_eq_iff_same ⟨ht.1.2, ht.2.2⟩ ⟨hu.1.2, hu.2.2⟩
      simp [sexp, same, ha, hb]
    | _ => simp [sexp, same, BinaryOp.ne_text]
  | .declare x e, u, ht, hu => by
    cases u with
    | declare x' e' =>
      simp only [Lexical, names, closures, List.forall_mem_cons] at ht hu
      have he := sexp_eq_iff_same ⟨ht.1.2, ht.2⟩ ⟨hu.1.2, hu.2⟩
      simp [sexp, same, he]
    | _ => simp [sexp, same, BinaryOp.ne_text]
  | .assign x e, u, ht, hu => by
    cases u with
    | assign x' e' =>
      simp only [Lexical, names, closures, List.forall_mem_cons] at ht hu
      have he := sexp_eq_iff_same ⟨ht.1.2, ht.2⟩ ⟨hu.1.2, hu.2⟩
      simp [sexp, same, he]
    | _ => simp [sexp, same, BinaryOp.ne_text]
  | .function _ ps b, u, ht, hu => by
    cases u with
    | function _ qs b' =>
      simp only [Lexical, names, closures, List.forall_mem_append] at ht hu
      have hb := sexp_eq_iff_same ⟨ht.1.2, ht.2⟩ ⟨hu.1.2, hu.2⟩
      have hps : ps.map Sexp.word = qs.map Sexp.word ↔ ps = qs :=
        List.map_inj_right fun _ _ => Sexp.word.inj
      simp [sexp, same, hb, hps]
    | _ => simp [sexp, same, BinaryOp.ne_text]
  | .call f args, u, ht, hu => by
    cases u with
    | call g args' =>
      simp only [Lexical, names, closures, List.forall_mem_append, List.append_eq_nil_iff] at ht hu
      have hf := sexp_eq_iff_same ⟨ht.1.1, ht.2.1⟩ ⟨hu.1.1, hu.2.1⟩
      have hargs := sexpsOfArgs_eq_iff_same ⟨ht.1.2, ht.2.2⟩ ⟨hu.1.2, hu.2.2⟩
      simp [sexp, same, hf, hargs]
    | _ => simp [sexp, same, BinaryOp.ne_text]

theorem sexpsOfArgs_eq_iff_same : ∀ {as bs : List Expr},
    ((∀ x ∈ namesOfArgs as, isIdentifier x = true) ∧ closuresOfArgs as = []) →
    ((∀ x ∈ namesOfArgs bs, isIdentifier x = true) ∧ closuresOfArgs bs = []) →
    (sexpsOfArgs as = sexpsOfArgs bs ↔ sameArgs as bs = true)
  | [], [], _, _ => by simp [sexpsOfArgs, sameArgs]
  | [], _ :: _, _, _ => by simp [sexpsOfArgs, sameArgs]
  | _ :: _, [], _, _ => by simp [sexpsOfArgs, sameArgs]
  | e :: es, e' :: es', h, h' => by
    simp only [namesOfArgs, closuresOfArgs, List.forall_mem_append, List.append_eq_nil_iff] at h h'
    have he := sexp_eq_iff_same ⟨h.1.1, h.2.1⟩ ⟨h'.1.1, h'.2.1⟩
    have hes := sexpsOfArgs_eq_iff_same ⟨h.1.2, h.2.2⟩ ⟨h'.1.2, h'.2.2⟩
    simp [sexpsOfArgs, sameArgs, he, hes]

end

/-- Programs that are read from texts have the same text just in case they are the same tree. -/
theorem render_eq_iff_same {source source' : String} {t u : Expr} (ht : ofSource source = .ok t)
    (hu : ofSource source' = .ok u) : t.render = u.render ↔ t.same u = true := by
  have htree : t.Lexical := (statementShaped_of_ofSource ht).names_closures
  have htree' : u.Lexical := (statementShaped_of_ofSource hu).names_closures
  rw [← sexp_eq_iff_same htree htree', ← String.toList_inj, toList_render, toList_render]
  refine ⟨fun h => ?_, fun h => by rw [h]⟩
  have hread := Sexp.chars_append_inj (proper_sexp htree.1) (proper_sexp htree'.1) Sexp.stops_nil
    Sexp.stops_nil (congrArg (· ++ []) h)
  exact hread.1

/-- The tree of `call(seq);`. -/
def callsCall : Expr := .call (.ident "call") [.ident "seq"]

/-- The tree of `seq(call);`. -/
def callsSeq : Expr := .call (.ident "seq") [.ident "call"]

/-- Names may be what operations are called too. -/
theorem render_callsCall_ne : ofSource "call(seq);" = .ok callsCall ∧
    ofSource "seq(call);" = .ok callsSeq ∧ callsCall.render ≠ callsSeq.render := by
  have hcall : ofSource "call(seq);" = .ok callsCall :=
    ofSource_eq_ok_iff.2 ⟨[⟨.identifier, "call", 1⟩, ⟨.symbol .leftParen, "(", 1⟩,
      ⟨.identifier, "seq", 1⟩, ⟨.symbol .rightParen, ")", 1⟩, ⟨.symbol .semicolon, ";", 1⟩,
      ⟨.eof, "", 1⟩], by decide +kernel, rfl⟩
  have hseq : ofSource "seq(call);" = .ok callsSeq :=
    ofSource_eq_ok_iff.2 ⟨[⟨.identifier, "seq", 1⟩, ⟨.symbol .leftParen, "(", 1⟩,
      ⟨.identifier, "call", 1⟩, ⟨.symbol .rightParen, ")", 1⟩, ⟨.symbol .semicolon, ";", 1⟩,
      ⟨.eof, "", 1⟩], by decide +kernel, rfl⟩
  refine ⟨hcall, hseq, fun h => ?_⟩
  have hsame : callsCall.same callsSeq = true := (render_eq_iff_same hcall hseq).1 h
  exact absurd hsame (by decide)

end Expr

end Featherweight
