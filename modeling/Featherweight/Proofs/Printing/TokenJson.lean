import Featherweight.Proofs.Command.Tasks

/-!
# Tokens as JSON

A token is a JSON object on one line, and can be read back from it. The reader here knows the
escapes of JSON strings, not the writer: that the one undoes the other is shown character by
character (`body_jsonChar`), so that quotes, backslashes and braces in a lexeme are never taken for
the end of it. Every other part of the object is read by one reader each, and every reader leaves
what follows its part as it is (`Reads`).

No control character stands in the object as it is, least of all a line feed, so a listing has one
line for each token (`tokenJson_lossless`).
-/

namespace Featherweight

namespace Json

/-! ### Readers -/

/-- Reads the beginning of a text, and leaves the rest. -/
abbrev Reader := StateT (List Char) Option

/-- The value of a hexadecimal digit. -/
def hexDigit? (c : Char) : Option Nat := "0123456789abcdef".toList.idxOf? c.toLower

/-- The character whose code is written in hexadecimal digits. The halves of surrogate pairs are no
characters. -/
def code? (ds : List Char) : Option Char := do
  let n ← ds.foldlM (fun n d => return 16 * n + (← hexDigit? d)) 0
  if n.isValidChar then some (.ofNat n) else none

/-- The character that one character after a backslash stands for. -/
def short? : Char → Option Char
  | '"'  => some '"'
  | '\\' => some '\\'
  | '/'  => some '/'
  | 'b'  => some '\x08'
  | 'f'  => some '\x0c'
  | 'n'  => some '\n'
  | 'r'  => some '\r'
  | 't'  => some '\t'
  | _    => none

/-- The characters of a string up to the quote that ends it, with the escapes undone. -/
def body : List Char → Option (List Char × List Char)
  | [] => none
  | '"' :: rest => some ([], rest)
  | '\\' :: 'u' :: d₁ :: d₂ :: d₃ :: d₄ :: rest => do
    let c ← code? [d₁, d₂, d₃, d₄]
    return (← body rest).map (c :: ·) id
  | '\\' :: c :: rest => do
    let c ← short? c
    return (← body rest).map (c :: ·) id
  | c :: rest =>
    if c.toNat < 0x20 ∨ c = '\\' then none
    else return (← body rest).map (c :: ·) id

/-- What stands between the quotes of a string, with the escapes undone. -/
def unescape (text : String) : Option String :=
  match body (text.toList ++ ['"']) with
  | some (cs, []) => some (String.ofList cs)
  | _             => none

/-- That very text. -/
def expect (text : String) : Reader Unit := fun cs => do
  return ((), ← cs.dropPrefix? text.toList)

/-- A string. -/
def string : Reader String := do
  expect "\""
  let cs ← body
  return String.ofList cs

/-- A number that is not negative. -/
def natural : Reader Nat := fun cs =>
  let ds := cs.takeWhile Char.isDigit
  if ds = [] then none else some (Text.Decimal.toNat ds, cs.drop ds.length)

/-- A number less than zero. -/
def negative : Reader Int := do
  expect "-"
  let n ← natural
  return -n

/-- A number. -/
def integer : Reader Int :=
  negative <|> do
    let n ← natural
    return n

/-- The kind of that name, unless it should carry a value. -/
def namedKind? (name : String) : Option TokenKind :=
  (TokenKind.ofName? name 0).filter fun kind => kind ≠ .int 0

/-- The integer of 64 bits, if it is one. -/
def int64? (i : Int) : Option Int64 :=
  if (Int64.ofInt i).toInt = i then some (.ofInt i) else none

/-- A kind that carries its value. -/
def valuedKind : Reader TokenKind := do
  expect "\x7b\"INT\":"
  let i ← integer
  let n ← int64? i
  expect "\x7d"
  return .int n

/-- The kind of a token. -/
def kind : Reader TokenKind :=
  valuedKind <|> do
    let name ← string
    namedKind? name

/-- A token. -/
def token : Reader Token := do
  expect "\x7b\"token_type\":"
  let kind ← kind
  expect ",\"lexeme\":"
  let lexeme ← string
  expect ",\"line\":"
  let line ← natural
  expect "\x7d"
  return ⟨kind, lexeme, line⟩

/-! ### Strings -/

/-- A control character has two digits after two zeros. -/
theorem leftpad_hex {n : Nat} (hn : n < 0x20) :
    (Text.Quoted.hex n).leftpad 4 '0' = ['0', '0', (n / 16).digitChar, (n % 16).digitChar] ∧
      code? ['0', '0', (n / 16).digitChar, (n % 16).digitChar] = some (.ofNat n) := by
  revert n
  decide

theorem body_short {c d : Char} (h : short? d = some c) (rest : List Char) :
    body ('\\' :: d :: rest) = (body rest).map (Prod.map (c :: ·) id) := by
  have hu : d ≠ 'u' := by
    rintro rfl
    cases h
  rw [body]
  · rw [h]
    cases body rest <;> rfl
  · exact fun _ _ _ _ _ hd _ => hu hd

theorem body_plain {c : Char} (hquote : c ≠ '"') (hslash : c ≠ '\\') (hcontrol : ¬ c.toNat < 0x20)
    (rest : List Char) : body (c :: rest) = (body rest).map (Prod.map (c :: ·) id) := by
  rw [body]
  · rw [if_neg (not_or.2 ⟨hcontrol, hslash⟩)]
    cases body rest <;> rfl
  · exact hquote
  · exact fun _ _ _ _ _ hc _ => hslash hc
  · exact fun _ _ hc _ => hslash hc

/-- Undoing the escape of a character gives the character. This holds whatever comes after it, as no
escape is the beginning of another. -/
theorem body_jsonChar (c : Char) (rest : List Char) :
    body (Text.Quoted.jsonChar c ++ rest) = (body rest).map (Prod.map (c :: ·) id) := by
  unfold Text.Quoted.jsonChar
  split
  case h_8 hquote hslash _ _ _ _ _ =>
    split
    case isTrue hcontrol =>
      obtain ⟨hdigits, hcode⟩ := leftpad_hex hcontrol
      rw [Char.ofNat_toNat] at hcode
      rw [hdigits]
      show body ('\\' :: 'u' :: _ :: _ :: _ :: _ :: rest) = _
      rw [body, hcode]
      cases body rest <;> rfl
    case isFalse hcontrol => exact body_plain hquote hslash hcontrol rest
  all_goals exact body_short rfl rest

/-- Undoing the escapes of a text that is followed by a quote gives the text. -/
theorem body_flatMap_jsonChar (cs rest : List Char) :
    body (cs.flatMap Text.Quoted.jsonChar ++ '"' :: rest) = some (cs, rest) := by
  induction cs with
  | nil => rfl
  | cons c cs ih =>
    rw [List.flatMap_cons, List.append_assoc, body_jsonChar, ih]
    rfl

/-! ### The parts of an object -/

section

variable {α β : Type} {r : Reader α} {us vs rest : List Char} {a : α} {b : β}

/-- Does the reader take `us` and nothing of what follows? -/
def Reads (r : Reader α) (us : List Char) (a : α) (rest : List Char) : Prop :=
  r (us ++ rest) = some (a, rest)

theorem Reads.bind {f : α → Reader β} (hr : Reads r us a (vs ++ rest))
    (hf : Reads (f a) vs b rest) : Reads (r >>= f) (us ++ vs) b rest := by
  unfold Reads at hr hf ⊢
  rw [List.append_assoc]
  show (r _).bind (fun p => f p.1 p.2) = _
  rw [hr, Option.bind_some]
  exact hf

theorem Reads.map {f : α → β} (hr : Reads r us a rest) :
    Reads (r >>= fun a => Pure.pure (f a)) us (f a) rest := by
  have hpure : Reads (Pure.pure (f a) : Reader β) [] (f a) rest := rfl
  have h : Reads (r >>= fun a => Pure.pure (f a)) (us ++ []) (f a) rest := hr.bind hpure
  rwa [List.append_nil] at h

theorem reads_lift {o : Option α} (ho : o = some a) (rest : List Char) :
    Reads (liftM o : Reader α) [] a rest := by
  rw [ho]
  rfl

theorem reads_expect (text : String) (rest : List Char) :
    Reads (expect text) text.toList () rest := by
  have hdrop : (text.toList ++ rest).dropPrefix? text.toList = some rest :=
    List.dropPrefix?_eq_some_iff.2 ⟨text.toList, rfl, beq_self_eq_true _⟩
  show (do return ((), ← (text.toList ++ rest).dropPrefix? text.toList)) = _
  rw [hdrop]
  rfl

/-- A text that begins otherwise is not read. -/
theorem fails_expect {text : String} {c d : Char} {cs : List Char} (htext : text.toList = c :: cs)
    (hd : d ≠ c) (f : Unit → Reader α) (rest : List Char) :
    (expect text >>= f) (d :: rest) = none := by
  have hdrop : (d :: rest).dropPrefix? text.toList = none := by
    rw [htext, List.dropPrefix?, if_neg (by simpa using hd)]
  show Option.bind (do return ((), ← (d :: rest).dropPrefix? text.toList)) _ = none
  rw [hdrop]
  rfl

theorem Reads.orElse {r' : Reader α} (hr : Reads r us a rest) : Reads (r <|> r') us a rest := by
  show (r (us ++ rest)).orElse _ = _
  rw [hr]
  rfl

theorem Reads.orElse_of_fails {r' : Reader α} (hfails : r (us ++ rest) = none)
    (hr' : Reads r' us a rest) : Reads (r <|> r') us a rest := by
  show (r (us ++ rest)).orElse _ = _
  rw [hfails]
  exact hr'

theorem reads_string (s : String) (rest : List Char) :
    Reads string (Text.Quoted.json s).toList s rest := by
  have hbody : Reads body (s.toList.flatMap Text.Quoted.jsonChar ++ ['"']) s.toList rest := by
    rw [Reads, List.append_assoc]
    exact body_flatMap_jsonChar s.toList rest
  have hstring : Reads string (['"'] ++ (s.toList.flatMap Text.Quoted.jsonChar ++ ['"']))
      (String.ofList s.toList) rest := (reads_expect "\"" _).bind hbody.map
  rw [String.ofList_toList] at hstring
  rw [Text.Quoted.json, String.toList_ofList]
  exact hstring

theorem reads_natural (n : Nat) (hrest : Lexer.EndsBefore Char.isDigit rest) :
    Reads natural (Text.Decimal.digits n) n rest := by
  have htake := Lexer.takeWhile_append_of_endsBefore
    (fun _ => Text.Decimal.isDigit_of_mem_digits (n := n)) hrest
  have hne : Text.Decimal.digits n ≠ [] := Nat.toDigits_ne_nil
  unfold Reads natural
  dsimp only
  rw [htake, if_neg hne, Text.Decimal.toNat_digits, List.drop_left]

theorem reads_integer (i : Int) (hrest : Lexer.EndsBefore Char.isDigit rest) :
    Reads integer (Text.Decimal.ofInt i).toList i rest := by
  have hnatural := reads_natural i.natAbs hrest
  rw [Text.Decimal.ofInt, String.toList_ofList]
  split
  case isTrue hneg =>
    have hread : Reads negative (['-'] ++ Text.Decimal.digits i.natAbs) (-(i.natAbs : Int)) rest :=
      (reads_expect "-" _).bind (hnatural.map (f := fun n : Nat => -(n : Int)))
    have hvalue : -(i.natAbs : Int) = i := by omega
    rw [hvalue] at hread
    exact hread.orElse
  case isFalse hneg =>
    have hread := hnatural.map (f := fun n : Nat => (n : Int))
    have hvalue : (i.natAbs : Int) = i := by omega
    rw [hvalue] at hread
    refine Reads.orElse_of_fails ?_ hread
    -- The first digit is no minus sign.
    cases hds : Text.Decimal.digits i.natAbs with
    | nil => exact absurd hds Nat.toDigits_ne_nil
    | cons d ds =>
      have hd : d ≠ '-' := by
        rintro rfl
        have hmem : '-' ∈ Text.Decimal.digits i.natAbs := hds ▸ List.mem_cons_self
        exact absurd (Text.Decimal.isDigit_of_mem_digits hmem) (by decide)
      exact fails_expect rfl hd _ _

theorem endsBefore_brace (rest : List Char) :
    Lexer.EndsBefore Char.isDigit ("\x7d".toList ++ rest) := by
  intro c hc
  cases hc
  rfl

theorem reads_valuedKind (n : Int64) (rest : List Char) :
    Reads valuedKind (TokenKind.int n).renderJson.toList (.int n) rest := by
  have hvalue : int64? n.toInt = some n := by
    rw [int64?, Int64.ofInt_toInt, if_pos rfl]
  rw [TokenKind.renderJson, String.toList_append, String.toList_append, List.append_assoc]
  refine (reads_expect _ _).bind ((reads_integer _ (endsBefore_brace rest)).bind ?_)
  exact (reads_lift hvalue _).bind (reads_expect _ rest).map

theorem namedKind?_symbol (s : Symbol) : namedKind? s.name = some (.symbol s) := by
  cases s <;> rfl

theorem namedKind?_keyword (k : Keyword) : namedKind? k.name = some (.keyword k) := by
  cases k <;> rfl

theorem reads_namedKind {name : String} {k : TokenKind} (hk : namedKind? name = some k)
    (rest : List Char) : Reads kind (Text.Quoted.json name).toList k rest := by
  have hread : Reads (string >>= fun name => liftM (namedKind? name))
      ((Text.Quoted.json name).toList ++ []) k rest :=
    (reads_string name _).bind (reads_lift hk rest)
  rw [List.append_nil] at hread
  refine Reads.orElse_of_fails ?_ hread
  have hfails (us : List Char) : valuedKind ('"' :: us) = none :=
    fails_expect (c := '\x7b') rfl (by decide) _ us
  rw [Text.Quoted.json, String.toList_ofList]
  exact hfails _

theorem reads_kind (k : TokenKind) (rest : List Char) : Reads kind k.renderJson.toList k rest := by
  cases k with
  | int n => exact (reads_valuedKind n rest).orElse
  | symbol s => exact reads_namedKind (namedKind?_symbol s) rest
  | keyword k => exact reads_namedKind (namedKind?_keyword k) rest
  | identifier => exact reads_namedKind rfl rest
  | eof => exact reads_namedKind rfl rest

theorem reads_token (t : Token) (rest : List Char) : Reads token t.renderJson.toList t rest := by
  have hline : (Text.Decimal.ofInt t.line).toList = Text.Decimal.digits t.line := by
    rw [Text.Decimal.ofInt, if_neg (by omega), String.toList_ofList, Int.natAbs_natCast]
  unfold Token.renderJson
  simp only [String.toList_append, List.append_assoc, hline]
  refine (reads_expect _ _).bind ((reads_kind _ _).bind ?_)
  refine (reads_expect _ _).bind ((reads_string _ _).bind ?_)
  refine (reads_expect _ _).bind ((reads_natural _ (endsBefore_brace rest)).bind ?_)
  exact (reads_expect _ rest).map

end

end Json

/-- The token that a text describes. -/
def Token.ofJson? (text : String) : Option Token :=
  match Json.token text.toList with
  | some (t, []) => some t
  | _            => none

theorem Token.ofJson?_renderJson (t : Token) : Token.ofJson? t.renderJson = some t := by
  have hread := Json.reads_token t []
  rw [Json.Reads, List.append_nil] at hread
  rw [Token.ofJson?, hread]

theorem Token.renderJson_injective : Function.Injective Token.renderJson := by
  intro t u h
  have hread := congrArg Token.ofJson? h
  rw [Token.ofJson?_renderJson, Token.ofJson?_renderJson] at hread
  exact Option.some.inj hread

/-! ### The lexeme -/

/-- A JSON string is what its escapes stand for, between quotes. -/
theorem exists_json_eq (s : String) :
    ∃ escaped, Text.Quoted.json s = "\"" ++ escaped ++ "\"" ∧ Json.unescape escaped = some s := by
  refine ⟨String.ofList (s.toList.flatMap Text.Quoted.jsonChar), ?_, ?_⟩
  · apply String.toList_injective
    simp only [Text.Quoted.json, Text.Quoted.quote, String.toList_append, String.toList_ofList]
    rfl
  · rw [Json.unescape, String.toList_ofList, Json.body_flatMap_jsonChar]
    exact congrArg some String.ofList_toList

theorem Token.exists_renderJson_eq (t : Token) :
    ∃ escaped, Json.unescape escaped = some t.lexeme ∧
      t.renderJson = "\x7b\"token_type\":" ++ t.kind.renderJson ++ ",\"lexeme\":" ++
        ("\"" ++ escaped ++ "\"") ++ ",\"line\":" ++ Text.Decimal.ofInt t.line ++ "\x7d" := by
  obtain ⟨escaped, hjson, hescaped⟩ := exists_json_eq t.lexeme
  refine ⟨escaped, hescaped, ?_⟩
  unfold Token.renderJson
  rw [hjson]

/-! ### Lines -/

/-- Is no control character among the characters? -/
def NoControls (cs : List Char) : Prop := ∀ c ∈ cs, 0x20 ≤ c.toNat

instance : DecidablePred NoControls := List.decidableBAll fun c : Char => 0x20 ≤ c.toNat

theorem NoControls.append {s t : String} (hs : NoControls s.toList) (ht : NoControls t.toList) :
    NoControls (s ++ t).toList := by
  rw [String.toList_append]
  exact List.forall_mem_append.2 ⟨hs, ht⟩

theorem NoControls.singleLine {text : String} (h : NoControls text.toList) : SingleLine text :=
  fun hmem => absurd (h '\n' hmem) (by decide)

theorem noControls_ofInt (i : Int) : NoControls (Text.Decimal.ofInt i).toList := by
  have hdigits : NoControls (Text.Decimal.digits i.natAbs) := by
    intro c hc
    have hdigit := Text.Decimal.isDigit_of_mem_digits hc
    have hzero : '0'.val ≤ c.val := of_decide_eq_true (Bool.and_eq_true_iff.1 hdigit).1
    exact Nat.le_trans (by decide) (UInt32.le_iff_toNat_le.1 hzero)
  rw [Text.Decimal.ofInt, String.toList_ofList]
  split
  · exact List.forall_mem_cons.2 ⟨by decide, hdigits⟩
  · exact hdigits

/-- Controls are spelled out. -/
theorem noControls_jsonChar (c : Char) : NoControls (Text.Quoted.jsonChar c) := by
  unfold Text.Quoted.jsonChar
  split
  case h_8 =>
    split
    case isTrue hcontrol =>
      have hspelled : ∀ n < 0x20,
          NoControls (['\\', 'u'] ++ (Text.Quoted.hex n).leftpad 4 '0') := by decide
      exact hspelled c.toNat hcontrol
    case isFalse hcontrol => exact List.forall_mem_singleton.2 (Nat.le_of_not_lt hcontrol)
  all_goals decide

theorem noControls_json (s : String) : NoControls (Text.Quoted.json s).toList := by
  have hbody : NoControls (s.toList.flatMap Text.Quoted.jsonChar) := by
    intro d hd
    obtain ⟨c, -, hd⟩ := List.mem_flatMap.1 hd
    exact noControls_jsonChar c d hd
  rw [Text.Quoted.json, String.toList_ofList, Text.Quoted.quote]
  refine List.forall_mem_append.2 ⟨List.forall_mem_cons.2 ⟨by decide, hbody⟩, ?_⟩
  exact List.forall_mem_singleton.2 (by decide)

theorem TokenKind.noControls_renderJson (k : TokenKind) : NoControls k.renderJson.toList := by
  cases k with
  | int n =>
    have hopen : NoControls "\x7b\"INT\":".toList := by decide
    have hclose : NoControls "\x7d".toList := by decide
    exact (hopen.append (noControls_ofInt _)).append hclose
  | symbol s => exact noControls_json _
  | keyword k => exact noControls_json _
  | identifier => exact noControls_json _
  | eof => exact noControls_json _

theorem Token.noControls_renderJson (t : Token) : NoControls t.renderJson.toList := by
  have hkind : NoControls "\x7b\"token_type\":".toList := by decide
  have hlexeme : NoControls ",\"lexeme\":".toList := by decide
  have hline : NoControls ",\"line\":".toList := by decide
  have hclose : NoControls "\x7d".toList := by decide
  exact (((((hkind.append t.kind.noControls_renderJson).append hlexeme).append
    (noControls_json _)).append hline).append (noControls_ofInt _)).append hclose

/-- Texts of one line each, on a line of their own each, are the lines of the whole. -/
theorem splitOn_lines {texts : List String} (h : ∀ text ∈ texts, SingleLine text) :
    (Command.Response.lines texts).toList.splitOn '\n' = texts.map String.toList ++ [[]] := by
  induction texts with
  | nil => rfl
  | cons text texts ih =>
    obtain ⟨htext, htexts⟩ := List.forall_mem_cons.1 h
    rw [Command.lines_cons, String.toList_append, String.toList_append, List.append_assoc]
    show (text.toList ++ '\n' :: (Command.Response.lines texts).toList).splitOn '\n' = _
    rw [List.splitOn_append_cons_self_of_not_mem htext, ih htexts]
    rfl

/-- The tokens of a text, in order, whatever faults stand between them. -/
def tokensOf (source : String) : List Token :=
  (scan source).filterMap fun | .ok t => some t | .error _ => none

theorem stdout_listTokens (source : String) : (Command.listTokens true source).stdout =
    (Command.Response.lines ((tokensOf source).map Token.renderJson)).toUTF8 := by
  unfold Command.listTokens tokensOf
  rfl

/-- Tokens as JSON are lossless and stand on one line each. In the object of a token there are no
control characters, the token can be read back from it, and what stands between the quotes of the
lexeme is the lexeme with escapes. So tokens with the same object have the same kind, with the same
value if it has one, the same lexeme and the same line. A listing has one line for each token, with
its object, and ends with a line feed. -/
theorem tokenJson_lossless :
    (∀ t : Token,
      (∀ c ∈ t.renderJson.toList, 0x20 ≤ c.toNat) ∧
      Token.ofJson? t.renderJson = some t ∧
      ∃ escaped, Json.unescape escaped = some t.lexeme ∧
        t.renderJson = "\x7b\"token_type\":" ++ t.kind.renderJson ++ ",\"lexeme\":" ++
          ("\"" ++ escaped ++ "\"") ++ ",\"line\":" ++ Text.Decimal.ofInt t.line ++ "\x7d") ∧
      (∀ t u : Token, t.renderJson = u.renderJson ↔
        t.kind = u.kind ∧ t.lexeme = u.lexeme ∧ t.line = u.line) ∧
      ∀ source, ∃ listing : String, (Command.listTokens true source).stdout = listing.toUTF8 ∧
        listing.toList.splitOn '\n' = (tokensOf source).map (·.renderJson.toList) ++ [[]] := by
  refine ⟨fun t => ⟨t.noControls_renderJson, t.ofJson?_renderJson, t.exists_renderJson_eq⟩,
    fun t u => ⟨fun h => ?_, fun ⟨hkind, hlexeme, hline⟩ => ?_⟩,
    fun source => ⟨_, stdout_listTokens source, ?_⟩⟩
  · rw [Token.renderJson_injective h]
    exact ⟨rfl, rfl, rfl⟩
  · obtain ⟨k, l, n⟩ := t
    obtain ⟨k', l', n'⟩ := u
    subst hkind hlexeme hline
    rfl
  · rw [splitOn_lines (List.forall_mem_map.2 fun t _ => t.noControls_renderJson.singleLine),
      List.map_map, Function.comp_def]

/-- A lexeme may look like the end of its object. -/
example : Token.renderJson ⟨.int (-5), "\"\x7d\\\n", 2⟩ =
    "\x7b\"token_type\":\x7b\"INT\":-5\x7d,\"lexeme\":\"\\\"\x7d\\\\\\n\",\"line\":2\x7d" := by rfl

end Featherweight
