import ZkPoR.JsonText
import ZkPoR.HexText
import ZkPoR.DecimalText
import Mathlib.Data.List.Basic

/-! # The characters of a JSON text

The lexer, the tree of a text (`parse`), and a printer.  A lemma about the lexer
takes any fuel from the length of the text on (`Lexes`), and each one adds the
characters of one token, or a blank, at the front.  The tokens of a text are then
read off it piece by piece, and a new layout needs no induction.
-/
namespace JsonText
open HexText DecimalText

/-! ## Numbers -/

/-- The digit of a character. -/
def digitOf (c : Char) : Fin 10 := Fin.ofNat 10 (c.toNat - '0'.toNat)

def lexMinus : List Char → Bool × List Char
  | '-' :: cs => (true, cs)
  | cs => (false, cs)

/-- At least one digit, and no leading zero. -/
def lexInteger (cs : List Char) : Option (Nat × List Char) :=
  let digits := cs.takeWhile Char.isDigit
  if IsDecimal digits then some (Nat.ofDigitChars 10 digits 0, cs.dropWhile Char.isDigit)
  else none

def lexFraction : List Char → Option (List (Fin 10) × List Char)
  | '.' :: cs =>
    let digits := cs.takeWhile Char.isDigit
    if digits = [] then none else some (digits.map digitOf, cs.dropWhile Char.isDigit)
  | cs => some ([], cs)

/-- The sign of an exponent. -/
def lexSign : List Char → Bool × List Char
  | '-' :: cs => (true, cs)
  | '+' :: cs => (false, cs)
  | cs => (false, cs)

/-- The integer of a sign and a magnitude. -/
def signed (negative : Bool) (n : Nat) : Int := if negative then -n else n

def lexExponent : List Char → Option (Option Int × List Char)
  | [] => some (none, [])
  | c :: cs =>
    if c = 'e' ∨ c = 'E' then
      let (negative, cs) := lexSign cs
      let digits := cs.takeWhile Char.isDigit
      if digits = [] then none
      else
        some (some (signed negative (Nat.ofDigitChars 10 digits 0)), cs.dropWhile Char.isDigit)
    else
      some (none, c :: cs)

def lexNumber (cs : List Char) : Option (NumberLiteral × List Char) := do
  let (negative, cs) := lexMinus cs
  let (integer, cs) ← lexInteger cs
  let (fraction, cs) ← lexFraction cs
  let (exponent, cs) ← lexExponent cs
  return ({ negative, integer, fraction, exponent }, cs)

/-! ## Strings -/

/-- The code unit of four hexadecimal digits. -/
def codeUnit (a b c d : Char) : Option Nat := do
  let a ← hexDigit? a
  let b ← hexDigit? b
  let c ← hexDigit? c
  let d ← hexDigit? d
  return ((a * 16 + b) * 16 + c) * 16 + d

/-- A code unit in front of a text: a high surrogate takes the low one behind
it. -/
def pushUnit (unit : Nat) (text : Text) : Text :=
  if 0xD800 ≤ unit ∧ unit < 0xE000 then
    match text with
    | .surrogate low :: rest =>
      if unit < 0xDC00 ∧ 0xDC00 ≤ low then
        .scalar (Char.ofNat (0x10000 + (unit - 0xD800) * 0x400 + (low - 0xDC00))) :: rest
      else
        .surrogate unit :: text
    | _ => .surrogate unit :: text
  else
    .scalar (Char.ofNat unit) :: text

/-- The character of a short escape. -/
def escaped : Char → Option Char
  | '"' => some '"'
  | '\\' => some '\\'
  | '/' => some '/'
  | 'b' => some '\x08'
  | 'f' => some '\x0c'
  | 'n' => some '\n'
  | 'r' => some '\r'
  | 't' => some '\t'
  | _ => none

/-- The string after its opening quote. -/
def lexString : List Char → Option (Text × List Char)
  | [] => none
  | c :: cs =>
    if c = '"' then some ([], cs)
    else if c = '\\' then
      match cs with
      | [] => none
      | e :: cs =>
        if e = 'u' then
          match cs with
          | c1 :: c2 :: c3 :: c4 :: cs =>
            (codeUnit c1 c2 c3 c4).bind fun unit =>
              (lexString cs).map fun (text, rest) => (pushUnit unit text, rest)
          | _ => none
        else
          (escaped e).bind fun c =>
            (lexString cs).map fun (text, rest) => (.scalar c :: text, rest)
    else if c.toNat < 0x20 then none
    else (lexString cs).map fun (text, rest) => (.scalar c :: text, rest)

/-! ## Tokens -/

def isBlank (c : Char) : Bool := c == ' ' || c == '\t' || c == '\n' || c == '\r'

def punctuation : Char → Option Token
  | '{' => some .openBrace
  | '}' => some .closeBrace
  | '[' => some .openBracket
  | ']' => some .closeBracket
  | ':' => some .colon
  | ',' => some .comma
  | _ => none

def lexWord : List Char → Option (Token × List Char)
  | 'n' :: 'u' :: 'l' :: 'l' :: cs => some (.null, cs)
  | 't' :: 'r' :: 'u' :: 'e' :: cs => some (.bool true, cs)
  | 'f' :: 'a' :: 'l' :: 's' :: 'e' :: cs => some (.bool false, cs)
  | _ => none

/-- The token that starts with `c`. -/
def lexToken (c : Char) (cs : List Char) : Option (Token × List Char) :=
  match punctuation c with
  | some token => some (token, cs)
  | none =>
    if c = '"' then (lexString cs).map fun (text, rest) => (.string text, rest)
    else if c = '-' ∨ c.isDigit then
      (lexNumber (c :: cs)).map fun (literal, rest) => (.number literal, rest)
    else lexWord (c :: cs)

def lexFrom : Nat → List Char → Option (List Token)
  | _, [] => some []
  | 0, _ :: _ => none
  | fuel + 1, c :: cs =>
    if isBlank c then lexFrom fuel cs
    else do
      let (token, rest) ← lexToken c cs
      let ts ← lexFrom fuel rest
      return token :: ts

/-- The tokens of a text.  Every step takes a character, so the length is fuel
enough. -/
def lex (cs : List Char) : Option (List Token) := lexFrom cs.length cs

/-- The tree that a text denotes. -/
def parse (text : String) : Option Json := do
  let ts ← lex text.toList
  readTokens ts

/-- A text denotes a tree exactly when it lexes to the tokens of the tree. -/
theorem parse_eq_some {text : String} {x : Json} :
    parse text = some x ↔ lex text.toList = some (tokens x) := by
  unfold parse
  rw [Option.bind_eq_bind, Option.bind_eq_some_iff]
  constructor
  · rintro ⟨ts, hlex, hread⟩
    rw [hlex, readTokens_eq_some.mp hread]
  · exact fun h => ⟨_, h, readTokens_eq_some.mpr rfl⟩

/-! ## Lexing piece by piece -/

/-- Any fuel from the length on gives the tokens. -/
def Lexes (cs : List Char) (ts : List Token) : Prop :=
  ∀ fuel, cs.length ≤ fuel → lexFrom fuel cs = some ts

theorem lexFrom_mono {fuel fuel' : Nat} {cs : List Char} {ts : List Token} (hle : fuel ≤ fuel')
    (h : lexFrom fuel cs = some ts) : lexFrom fuel' cs = some ts := by
  induction fuel generalizing fuel' cs ts with
  | zero =>
    cases cs with
    | nil => cases fuel' <;> exact h
    | cons c cs => cases h
  | succ fuel ih =>
    obtain ⟨fuel', rfl⟩ : ∃ n, fuel' = n + 1 := ⟨fuel' - 1, by omega⟩
    cases cs with
    | nil => exact h
    | cons c cs =>
      unfold lexFrom at h ⊢
      by_cases hblank : isBlank c
      · rw [if_pos hblank] at h ⊢
        exact ih (by omega) h
      · rw [if_neg hblank] at h ⊢
        simp only [Option.bind_eq_bind, Option.bind_eq_some_iff] at h ⊢
        obtain ⟨p, hp, rest, hrest, hout⟩ := h
        exact ⟨p, hp, rest, ih (by omega) hrest, hout⟩

theorem lexes_iff {cs : List Char} {ts : List Token} : Lexes cs ts ↔ lex cs = some ts :=
  ⟨fun h => h _ le_rfl, fun h _ hle => lexFrom_mono hle h⟩

theorem lexes_nil : Lexes [] [] := fun fuel _ => by cases fuel <;> rfl

theorem Lexes.blank {c : Char} {cs : List Char} {ts : List Token} (h : Lexes cs ts)
    (hc : isBlank c = true) : Lexes (c :: cs) ts := by
  intro fuel hle
  cases fuel with
  | zero => simp at hle
  | succ fuel =>
    rw [lexFrom, if_pos hc]
    exact h fuel (by simpa using hle)

theorem Lexes.blanks {pre cs : List Char} {ts : List Token} (h : Lexes cs ts)
    (hpre : ∀ c ∈ pre, isBlank c = true) : Lexes (pre ++ cs) ts := by
  induction pre with
  | nil => exact h
  | cons c pre ih =>
    rw [List.forall_mem_cons] at hpre
    exact (ih hpre.2).blank hpre.1

/-- One token in front. -/
theorem Lexes.token {c : Char} {pre cs : List Char} {token : Token} {ts : List Token}
    (h : Lexes cs ts) (hblank : isBlank c = false)
    (htoken : lexToken c (pre ++ cs) = some (token, cs)) :
    Lexes (c :: pre ++ cs) (token :: ts) := by
  intro fuel hle
  cases fuel with
  | zero => simp at hle
  | succ fuel =>
    rw [List.cons_append, lexFrom, if_neg (by simp [hblank]), htoken]
    rw [List.length_append, List.length_cons] at hle
    simp only [Option.bind_eq_bind, Option.bind_some, h fuel (by omega), pure]

theorem Lexes.punctuation {c : Char} {cs : List Char} {token : Token} {ts : List Token}
    (h : Lexes cs ts) (hc : punctuation c = some token) : Lexes (c :: cs) (token :: ts) := by
  have hblank : isBlank c = Bool.false := by
    unfold JsonText.punctuation at hc
    split at hc
    all_goals first | rfl | cases hc
  have htoken : lexToken c ([] ++ cs) = some (token, cs) := by
    rw [lexToken, hc]
    rfl
  exact h.token hblank htoken

/-! ### Strings -/

theorem lexString_quote (cs : List Char) : lexString ('"' :: cs) = some ([], cs) := by
  rw [lexString.eq_def]
  rfl

theorem lexString_unit (c1 c2 c3 c4 : Char) (cs : List Char) :
    lexString ('\\' :: 'u' :: c1 :: c2 :: c3 :: c4 :: cs) =
      (codeUnit c1 c2 c3 c4).bind fun unit =>
        (lexString cs).map fun p => (pushUnit unit p.1, p.2) := by
  rw [lexString.eq_def]
  rfl

theorem lexString_escaped {e : Char} (he : e ≠ 'u') (cs : List Char) :
    lexString ('\\' :: e :: cs) =
      (escaped e).bind fun c => (lexString cs).map fun p => (.scalar c :: p.1, p.2) := by
  rw [lexString.eq_def]
  dsimp only
  rw [if_neg (by decide), if_pos rfl, if_neg he]

theorem lexString_scalar {c : Char} (hquote : c ≠ '"') (hescape : c ≠ '\\')
    (hcontrol : ¬ c.toNat < 0x20) (cs : List Char) :
    lexString (c :: cs) = (lexString cs).map fun p => (.scalar c :: p.1, p.2) := by
  rw [lexString.eq_def]
  dsimp only
  rw [if_neg hquote, if_neg hescape, if_neg hcontrol]

/-- What follows a string does not change how it lexes. -/
theorem lexString_append {cs rest : List Char} {text : Text} (more : List Char)
    (h : lexString cs = some (text, rest)) :
    lexString (cs ++ more) = some (text, rest ++ more) := by
  fun_induction lexString cs generalizing text rest with
  | case1 => cases h
  | case2 cs =>
    cases h
    exact lexString_quote _
  | case3 => cases h
  | case4 c1 c2 c3 c4 cs hquote ih =>
    simp only [Option.bind_eq_some_iff, Option.map_eq_some_iff, Prod.exists] at h
    obtain ⟨unit, hunit, text, rest, hcs, hout⟩ := h
    cases hout
    simp only [List.cons_append, lexString_unit, hunit, ih hcs, Option.bind_some, Option.map_some]
  | case5 cs hshort hquote => cases h
  | case6 e cs he hquote ih =>
    simp only [Option.bind_eq_some_iff, Option.map_eq_some_iff, Prod.exists] at h
    obtain ⟨c, hc, text, rest, hcs, hout⟩ := h
    cases hout
    simp only [List.cons_append, lexString_escaped he, hc, ih hcs, Option.bind_some,
      Option.map_some]
  | case7 c cs hquote hescape hcontrol => cases h
  | case8 c cs hquote hescape hcontrol ih =>
    simp only [Option.map_eq_some_iff, Prod.exists] at h
    obtain ⟨text, rest, hcs, hout⟩ := h
    cases hout
    simp only [List.cons_append, lexString_scalar hquote hescape hcontrol, ih hcs, Option.map_some]

/-- The characters are one string token, with nothing around it. -/
def IsStringToken (cs : List Char) (text : Text) : Prop :=
  ∃ body, cs = '"' :: body ∧ lexString body = some (text, [])

theorem Lexes.string {pre cs : List Char} {text : Text} {ts : List Token} (h : Lexes cs ts)
    (hpre : IsStringToken pre text) : Lexes (pre ++ cs) (.string text :: ts) := by
  obtain ⟨body, rfl, hbody⟩ := hpre
  refine h.token (by decide) ?_
  change ((lexString (body ++ cs)).map fun (text, rest) => (Token.string text, rest)) = _
  rw [lexString_append cs hbody]
  rfl

/-- The letter of a short escape. -/
def shortEscape : Char → Option Char
  | '"' => some '"'
  | '\\' => some '\\'
  | '\x08' => some 'b'
  | '\x0c' => some 'f'
  | '\n' => some 'n'
  | '\r' => some 'r'
  | '\t' => some 't'
  | _ => none

/-- The characters of one scalar value: a short escape, the code unit of another
control character, or the character itself. -/
def escape (c : Char) : List Char :=
  match shortEscape c with
  | some e => ['\\', e]
  | none =>
    if c.toNat < 0x20 then
      ['\\', 'u', '0', '0', Nat.digitChar (c.toNat / 16), Nat.digitChar (c.toNat % 16)]
    else
      [c]

/-- The string token of a Unicode string. -/
def quote (s : String) : List Char := '"' :: (s.toList.flatMap escape ++ ['"'])

theorem codeUnit_control : ∀ n < 0x20,
    codeUnit '0' '0' (Nat.digitChar (n / 16)) (Nat.digitChar (n % 16)) = some n := by
  decide

theorem escaped_of_shortEscape {c e : Char} (h : shortEscape c = some e) :
    e ≠ 'u' ∧ escaped e = some c := by
  unfold shortEscape at h
  split at h <;> cases h <;> exact ⟨by decide, rfl⟩

theorem lexString_escape (c : Char) (cs : List Char) :
    lexString (escape c ++ cs) = (lexString cs).map fun p => (.scalar c :: p.1, p.2) := by
  unfold escape
  split
  · rename_i e he
    obtain ⟨hu, hescaped⟩ := escaped_of_shortEscape he
    rw [List.cons_append, List.cons_append, lexString_escaped hu, hescaped]
    rfl
  · rename_i hnone
    split
    · rename_i hcontrol
      have hunit : ∀ text, pushUnit c.toNat text = .scalar c :: text := fun text => by
        unfold pushUnit
        rw [if_neg (by omega), Char.ofNat_toNat]
      simp only [List.cons_append, List.nil_append, lexString_unit, codeUnit_control _ hcontrol,
        Option.bind_some, hunit]
    · rename_i hcontrol
      refine lexString_scalar ?_ ?_ hcontrol cs
      · rintro rfl
        cases hnone
      · rintro rfl
        cases hnone

theorem isStringToken_quote (s : String) : IsStringToken (quote s) (Text.ofString s) := by
  refine ⟨_, rfl, ?_⟩
  unfold Text.ofString
  induction s.toList with
  | nil => exact lexString_quote []
  | cons c cs ih =>
    rw [List.flatMap_cons, List.append_assoc, lexString_escape, ih]
    rfl

/-! ### Words -/

theorem Lexes.null {cs : List Char} {ts : List Token} (h : Lexes cs ts) :
    Lexes (['n', 'u', 'l', 'l'] ++ cs) (.null :: ts) :=
  h.token rfl (show lexToken 'n' (['u', 'l', 'l'] ++ cs) = _ from rfl)

theorem Lexes.true {cs : List Char} {ts : List Token} (h : Lexes cs ts) :
    Lexes (['t', 'r', 'u', 'e'] ++ cs) (.bool true :: ts) :=
  h.token rfl (show lexToken 't' (['r', 'u', 'e'] ++ cs) = _ from rfl)

theorem Lexes.false {cs : List Char} {ts : List Token} (h : Lexes cs ts) :
    Lexes (['f', 'a', 'l', 's', 'e'] ++ cs) (.bool false :: ts) :=
  h.token rfl (show lexToken 'f' (['a', 'l', 's', 'e'] ++ cs) = _ from rfl)

/-! ### Numbers -/

theorem lexInteger_toDigits (n : Nat) {cs : List Char} (hcs : EndsDigits cs) :
    lexInteger (Nat.toDigits 10 n ++ cs) = some (n, cs) := by
  obtain ⟨htake, hdrop⟩ := takeWhile_digits (fun _ => isDigit_toDigits (n := n)) hcs
  unfold lexInteger
  simp only [htake, hdrop]
  rw [if_pos (isDecimal_toDigits n), Nat.ofDigitChars_ten_toDigits]

/-- The characters of a sign. -/
def minus (negative : Bool) : List Char := if negative then ['-'] else []

theorem digit_ne {c : Char} (h : c.isDigit = true) :
    c ≠ '-' ∧ c ≠ '+' ∧ c ≠ '.' ∧ c ≠ 'e' ∧ c ≠ 'E' ∧ c ≠ '"' := by
  refine ⟨?_, ?_, ?_, ?_, ?_, ?_⟩ <;> rintro rfl <;> cases h

theorem lexMinus_toDigits (negative : Bool) (n : Nat) (cs : List Char) :
    lexMinus (minus negative ++ (Nat.toDigits 10 n ++ cs)) =
      (negative, Nat.toDigits 10 n ++ cs) := by
  cases negative with
  | true => rfl
  | false =>
    obtain ⟨c, rest, hcons⟩ := List.exists_cons_of_ne_nil (Nat.toDigits_ne_nil (n := n) (b := 10))
    have hc := digit_ne (isDigit_toDigits (n := n) (c := c) (by simp [hcons]))
    rw [minus, hcons]
    exact lexMinus.eq_2 _ fun _ h => hc.1 (List.cons.inj h).1

theorem lexSign_toDigits (negative : Bool) (n : Nat) (cs : List Char) :
    lexSign (minus negative ++ (Nat.toDigits 10 n ++ cs)) =
      (negative, Nat.toDigits 10 n ++ cs) := by
  cases negative with
  | true => rfl
  | false =>
    obtain ⟨c, rest, hcons⟩ := List.exists_cons_of_ne_nil (Nat.toDigits_ne_nil (n := n) (b := 10))
    have hc := digit_ne (isDigit_toDigits (n := n) (c := c) (by simp [hcons]))
    rw [minus, hcons]
    exact lexSign.eq_3 _ (fun _ h => hc.1 (List.cons.inj h).1) fun _ h =>
      hc.2.1 (List.cons.inj h).1

/-- The characters of the digits after the point. -/
def fractionText : List (Fin 10) → List Char
  | [] => []
  | digits => '.' :: digits.map fun digit => Nat.digitChar digit.val

def exponentText : Option Int → List Char
  | none => []
  | some e => 'e' :: (minus (e < 0) ++ Nat.toDigits 10 e.natAbs)

/-- The characters of a number. -/
def NumberLiteral.chars (literal : NumberLiteral) : List Char :=
  minus literal.negative ++ Nat.toDigits 10 literal.integer ++
    (fractionText literal.fraction ++ exponentText literal.exponent)

/-- No character that continues a number stands in front. -/
def EndsNumber (cs : List Char) : Prop :=
  ∀ c, cs.head? = some c → c.isDigit = false ∧ c ≠ '.' ∧ c ≠ 'e' ∧ c ≠ 'E'

theorem EndsNumber.endsDigits {cs : List Char} (h : EndsNumber cs) : EndsDigits cs :=
  fun c hc => (h c hc).1

theorem lexExponent_exponentText (e : Option Int) {cs : List Char} (hcs : EndsNumber cs) :
    lexExponent (exponentText e ++ cs) = some (e, cs) := by
  cases e with
  | none =>
    cases cs with
    | nil => rfl
    | cons c cs =>
      obtain ⟨-, -, he, hE⟩ := hcs c rfl
      exact if_neg (not_or.mpr ⟨he, hE⟩)
  | some e =>
    obtain ⟨htake, hdrop⟩ := takeWhile_digits (fun _ => isDigit_toDigits (n := e.natAbs))
      hcs.endsDigits
    have hsigned : signed (decide (e < 0)) e.natAbs = e := by
      unfold signed
      by_cases hneg : e < 0
      · rw [if_pos (decide_eq_true hneg)]
        omega
      · rw [if_neg (by rwa [decide_eq_true_eq])]
        omega
    rw [exponentText, List.cons_append, List.append_assoc, lexExponent, if_pos (.inl rfl),
      lexSign_toDigits]
    dsimp only
    rw [htake, hdrop, if_neg Nat.toDigits_ne_nil, Nat.ofDigitChars_ten_toDigits, hsigned]

theorem endsDigits_exponentText (e : Option Int) {cs : List Char} (hcs : EndsNumber cs) :
    EndsDigits (exponentText e ++ cs) := by
  cases e with
  | none => exact hcs.endsDigits
  | some e =>
    rintro c hc
    cases hc
    rfl

theorem digitOf_digitChar (d : Fin 10) : digitOf (Nat.digitChar d.val) = d := by
  revert d
  decide

theorem lexFraction_fractionText (digits : List (Fin 10)) (e : Option Int) {cs : List Char}
    (hcs : EndsNumber cs) :
    lexFraction (fractionText digits ++ (exponentText e ++ cs)) =
      some (digits, exponentText e ++ cs) := by
  cases digits with
  | nil =>
    refine lexFraction.eq_2 _ fun rest h => ?_
    cases e with
    | none =>
      have hdot : cs = '.' :: rest := h
      exact (hcs '.' (by rw [hdot]; rfl)).2.1 rfl
    | some e => cases h
  | cons digit digits =>
    have hdigits : ∀ c ∈ (digit :: digits).map fun digit => Nat.digitChar digit.val,
        c.isDigit = Bool.true := by simp
    obtain ⟨htake, hdrop⟩ := takeWhile_digits hdigits (endsDigits_exponentText e hcs)
    rw [fractionText, List.cons_append, lexFraction]
    simp only [htake, hdrop]
    rw [if_neg (by simp), List.map_map]
    simp [Function.comp_def, digitOf_digitChar]
    simp

theorem lexNumber_chars (literal : NumberLiteral) {cs : List Char} (hcs : EndsNumber cs) :
    lexNumber (literal.chars ++ cs) = some (literal, cs) := by
  have hfraction : EndsDigits (fractionText literal.fraction ++
      (exponentText literal.exponent ++ cs)) := by
    cases literal.fraction with
    | nil => exact endsDigits_exponentText _ hcs
    | cons digit digits =>
      rintro c hc
      cases hc
      rfl
  unfold lexNumber NumberLiteral.chars
  rw [List.append_assoc, List.append_assoc, List.append_assoc, lexMinus_toDigits]
  simp only [lexInteger_toDigits _ hfraction, lexFraction_fractionText _ _ hcs,
    lexExponent_exponentText _ hcs, Option.bind_eq_bind, Option.bind_some, pure]

theorem punctuation_eq_none {c : Char} (h : c = '-' ∨ c.isDigit = true) :
    punctuation c = none := by
  unfold punctuation
  split
  case h_7 => rfl
  all_goals exact absurd h (by decide)

theorem isBlank_eq_false {c : Char} (h : c = '-' ∨ c.isDigit = true) : isBlank c = false := by
  rw [Bool.eq_false_iff]
  intro hblank
  simp only [isBlank, Bool.or_eq_true, beq_iff_eq] at hblank
  rcases hblank with ((rfl | rfl) | rfl) | rfl <;> exact absurd h (by decide)

/-- A number starts with a sign or a digit. -/
theorem NumberLiteral.exists_chars_eq (literal : NumberLiteral) :
    ∃ c cs, literal.chars = c :: cs ∧ (c = '-' ∨ c.isDigit = true) := by
  unfold NumberLiteral.chars
  cases literal.negative with
  | true => exact ⟨'-', _, rfl, .inl rfl⟩
  | false =>
    obtain ⟨c, rest, hcons⟩ := List.exists_cons_of_ne_nil
      (Nat.toDigits_ne_nil (n := literal.integer) (b := 10))
    refine ⟨c, _, by rw [hcons]; rfl, .inr (isDigit_toDigits (n := literal.integer) ?_)⟩
    rw [hcons]
    exact List.mem_cons_self

theorem Lexes.number {cs : List Char} {ts : List Token} (h : Lexes cs ts)
    (literal : NumberLiteral) (hcs : EndsNumber cs) :
    Lexes (literal.chars ++ cs) (.number literal :: ts) := by
  obtain ⟨c, pre, hchars, hc⟩ := literal.exists_chars_eq
  have hquote : c ≠ '"' := by
    rintro rfl
    exact absurd hc (by decide)
  have hnumber := lexNumber_chars literal hcs
  rw [hchars, List.cons_append] at hnumber
  rw [hchars]
  refine h.token (isBlank_eq_false hc) ?_
  rw [lexToken, punctuation_eq_none hc]
  dsimp only
  rw [if_neg hquote, if_pos hc, hnumber]
  rfl

/-- The literal of a natural number. -/
def natural (n : Nat) : NumberLiteral :=
  { negative := false, integer := n, fraction := [], exponent := none }

theorem natural_chars (n : Nat) : (natural n).chars = Nat.toDigits 10 n := by
  simp [NumberLiteral.chars, natural, minus, fractionText, exponentText]

/-- What may follow a number: a comma, a closing bracket, or a line end. -/
theorem endsNumber_cons {c : Char} (cs : List Char)
    (hc : c = ',' ∨ c = '}' ∨ c = ']' ∨ c = '\n') : EndsNumber (c :: cs) := by
  intro c' h
  cases h
  rcases hc with rfl | rfl | rfl | rfl <;> decide

/-! ## Lexing lists -/

/-- The characters give the tokens in front of whatever ends a number. -/
def Denotes (cs : List Char) (ts : List Token) : Prop :=
  ∀ rest more, EndsNumber rest → Lexes rest more → Lexes (cs ++ rest) (ts ++ more)

/-- An indentation consists of blanks. -/
theorem isBlank_indentation (n : Nat) : ∀ c ∈ List.replicate n ' ', isBlank c = Bool.true := by
  intro c hc
  rw [List.eq_of_mem_replicate hc]
  rfl

theorem isBlank_newline : ∀ c ∈ ['\n'], isBlank c = Bool.true := by
  intro c hc
  rw [List.eq_of_mem_singleton hc]
  rfl

theorem denotes_nil : Denotes [] [] := fun _ _ _ h => h

theorem denotes_string {cs : List Char} {text : Text} (h : IsStringToken cs text) :
    Denotes cs (tokens (.string text)) := fun _ _ _ hrest => Lexes.string hrest h

theorem denotes_natural (n : Nat) : Denotes (Nat.toDigits 10 n) (tokens (.number (natural n))) := by
  intro rest more hends h
  rw [← natural_chars]
  exact Lexes.number h _ hends

theorem Denotes.blanks {pre cs : List Char} {ts : List Token} (h : Denotes cs ts)
    (hpre : ∀ c ∈ pre, isBlank c = Bool.true) : Denotes (pre ++ cs) ts := by
  intro rest more hends hrest
  rw [List.append_assoc]
  exact Lexes.blanks (h rest more hends hrest) hpre

/-- Items that a comma and blanks separate. -/
theorem denotes_intercalate {items : List (List Char × List Token)} {blanks : List Char}
    (hblanks : ∀ c ∈ blanks, isBlank c = Bool.true)
    (h : ∀ item ∈ items, Denotes item.1 item.2) :
    Denotes ((',' :: blanks).intercalate (items.map Prod.fst))
      ([Token.comma].intercalate (items.map Prod.snd)) := by
  induction items with
  | nil => exact denotes_nil
  | cons item items ih =>
    rw [List.forall_mem_cons] at h
    cases items with
    | nil => simpa using h.1
    | cons next items =>
      intro rest more hends hrest
      have htail := ih h.2 rest more hends hrest
      have hcomma := Lexes.punctuation (c := ',') (Lexes.blanks htail hblanks) rfl
      have hhead := h.1 _ _ (endsNumber_cons _ (.inl rfl)) hcomma
      simpa [List.intercalate_cons_cons] using hhead

theorem tokens_elementsTail (x : Json) (xs : List Json) :
    tokens x ++ elementsTail xs =
      [Token.comma].intercalate ((x :: xs).map tokens) ++ [.closeBracket] := by
  induction xs generalizing x with
  | nil => simp [elementsTail]
  | cons y ys ih =>
    rw [elementsTail, ih, List.map_cons, List.map_cons, List.map_cons, List.intercalate_cons_cons]
    simp

theorem tokens_array (xs : List Json) :
    tokens (.array xs) =
      .openBracket :: ([Token.comma].intercalate (xs.map tokens) ++ [.closeBracket]) := by
  cases xs with
  | nil => rfl
  | cons x xs => rw [tokens, tokens_elementsTail]

/-- The tokens of one member. -/
def memberTokens (member : Text × Json) : List Token :=
  .string member.1 :: .colon :: tokens member.2

theorem tokens_membersTail (member : Text × Json) (members : List (Text × Json)) :
    memberTokens member ++ membersTail members =
      [Token.comma].intercalate ((member :: members).map memberTokens) ++ [.closeBrace] := by
  induction members generalizing member with
  | nil => simp [membersTail]
  | cons next members ih =>
    obtain ⟨key, x⟩ := next
    have hnext := ih (key, x)
    simp only [memberTokens, List.cons_append] at hnext
    rw [membersTail, List.map_cons, List.map_cons, List.intercalate_cons_cons, ← List.map_cons,
      hnext]
    simp [memberTokens]

theorem tokens_object (members : List (Text × Json)) :
    tokens (.object members) =
      .openBrace :: ([Token.comma].intercalate (members.map memberTokens) ++ [.closeBrace]) := by
  cases members with
  | nil => rfl
  | cons member members =>
    rw [← tokens_membersTail]
    rfl

/-- A list over several lines. -/
theorem denotes_array {items : List (List Char × Json)} {blanks : List Char}
    (h : ∀ item ∈ items, Denotes item.1 (tokens item.2))
    (hblanks : ∀ c ∈ blanks, isBlank c = Bool.true) :
    Denotes ('[' :: '\n' :: ([',', '\n'].intercalate (items.map Prod.fst) ++
      '\n' :: (blanks ++ [']']))) (tokens (.array (items.map Prod.snd))) := by
  intro rest more hends hrest
  have hclose : Lexes (']' :: rest) (.closeBracket :: more) := Lexes.punctuation hrest rfl
  have htail : Lexes ('\n' :: (blanks ++ ']' :: rest)) (.closeBracket :: more) :=
    (Lexes.blanks hclose hblanks).blank rfl
  have hitems := @denotes_intercalate (items.map fun item => (item.1, tokens item.2))
    _ isBlank_newline (List.forall_mem_map.mpr h)
  simp only [List.map_map] at hitems
  have hbody := hitems _ _ (endsNumber_cons _ (.inr (.inr (.inr rfl)))) htail
  have hopen := Lexes.punctuation (c := '[') (hbody.blank (c := '\n') rfl) rfl
  rw [tokens_array]
  simpa [Function.comp_def] using hopen

/-- A key whose characters all stand for themselves. -/
def plainKey (key : String) : Bool := key.toList.all fun c => escape c = [c]

theorem quote_plainKey {key : String} (h : plainKey key = Bool.true) :
    quote key = '"' :: (key.toList ++ ['"']) := by
  have hflat : key.toList.flatMap escape = key.toList := by
    simp only [plainKey, List.all_eq_true, decide_eq_true_eq] at h
    generalize key.toList = cs at h
    induction cs with
    | nil => rfl
    | cons c cs ih =>
      rw [List.forall_mem_cons] at h
      rw [List.flatMap_cons, h.1, ih h.2]
      rfl
  rw [quote, hflat]

/-- One member on its own line. -/
theorem denotes_member {key : String} {value : List Char} {x : Json} {blanks : List Char}
    (hkey : plainKey key = Bool.true) (hvalue : Denotes value (tokens x))
    (hblanks : ∀ c ∈ blanks, isBlank c = Bool.true) :
    Denotes (blanks ++ '"' :: (key.toList ++ '"' :: ':' :: ' ' :: value))
      (memberTokens (Text.ofString key, x)) := by
  refine Denotes.blanks ?_ hblanks
  intro rest more hends hrest
  have hvalue := hvalue rest more hends hrest
  have hcolon : Lexes (':' :: ' ' :: (value ++ rest)) (.colon :: (tokens x ++ more)) :=
    Lexes.punctuation (hvalue.blank rfl) rfl
  have hquoted := Lexes.string hcolon (isStringToken_quote key)
  rw [quote_plainKey hkey] at hquoted
  simpa [memberTokens] using hquoted

/-- An object over several lines is a text of its own. -/
theorem parse_object {members : List (List Char × Text × Json)}
    (h : ∀ member ∈ members, Denotes member.1 (memberTokens member.2)) :
    parse (String.ofList ('{' :: '\n' :: ([',', '\n'].intercalate (members.map Prod.fst) ++
      ['\n', '}', '\n']))) = some (.object (members.map Prod.snd)) := by
  have hclose : Lexes ['\n', '}', '\n'] [.closeBrace] :=
    (Lexes.punctuation (lexes_nil.blank (c := '\n') rfl) rfl).blank rfl
  have hitems := @denotes_intercalate (members.map fun member => (member.1, memberTokens member.2))
    _ isBlank_newline (List.forall_mem_map.mpr h)
  simp only [List.map_map] at hitems
  have hbody := hitems _ _ (endsNumber_cons _ (.inr (.inr (.inr rfl)))) hclose
  have hopen := Lexes.punctuation (c := '{') (hbody.blank (c := '\n') rfl) rfl
  rw [parse_eq_some, ← lexes_iff, String.toList_ofList, tokens_object]
  simpa [Function.comp_def] using hopen

/-! ## Two texts in a row -/

theorem digits_append (cs : List Char) {more : List Char}
    (hends : cs.dropWhile Char.isDigit = [] → EndsDigits more) :
    (cs ++ more).takeWhile Char.isDigit = cs.takeWhile Char.isDigit ∧
      (cs ++ more).dropWhile Char.isDigit = cs.dropWhile Char.isDigit ++ more := by
  induction cs with
  | nil => exact takeWhile_digits (fun c hc => absurd hc List.not_mem_nil) (hends rfl)
  | cons c cs ih =>
    by_cases hc : c.isDigit = Bool.true
    · rw [List.dropWhile_cons_of_pos hc] at hends
      simp [hc, ih hends]
    · simp [hc]

theorem lexInteger_append {cs rest more : List Char} {n : Nat} (hends : rest = [] → EndsNumber more)
    (h : lexInteger cs = some (n, rest)) : lexInteger (cs ++ more) = some (n, rest ++ more) := by
  unfold lexInteger at h ⊢
  dsimp only at h ⊢
  split at h
  · rename_i hdigits
    cases h
    obtain ⟨htake, hdrop⟩ := digits_append cs fun hnil => (hends hnil).endsDigits
    rw [htake, hdrop, if_pos hdigits]
  · cases h

theorem lexFraction_append {cs rest more : List Char} {digits : List (Fin 10)}
    (hends : rest = [] → EndsNumber more) (h : lexFraction cs = some (digits, rest)) :
    lexFraction (cs ++ more) = some (digits, rest ++ more) := by
  rcases cs with _ | ⟨c, cs⟩
  · cases h
    refine lexFraction.eq_2 _ fun rest h => ?_
    have hdot : more = '.' :: rest := h
    exact (hends rfl '.' (by rw [hdot]; rfl)).2.1 rfl
  · by_cases hc : c = '.'
    · subst hc
      rw [lexFraction] at h
      rw [List.cons_append, lexFraction]
      split at h
      · cases h
      · rename_i hdigits
        cases h
        obtain ⟨htake, hdrop⟩ := digits_append cs fun hnil => (hends hnil).endsDigits
        rw [htake, hdrop]
        exact if_neg hdigits
    · have hne : ∀ rest, c :: cs = '.' :: rest → False := fun rest h => hc (List.cons.inj h).1
      rw [lexFraction.eq_2 _ hne] at h
      cases h
      exact lexFraction.eq_2 _ fun rest h => hc (List.cons.inj h).1

theorem lexSign_append (c : Char) (cs more : List Char) :
    lexSign (c :: cs ++ more) = ((lexSign (c :: cs)).1, (lexSign (c :: cs)).2 ++ more) := by
  by_cases hminus : c = '-'
  · subst hminus
    rfl
  by_cases hplus : c = '+'
  · subst hplus
    rfl
  rw [lexSign.eq_3 (c :: cs) (fun _ h => hminus (List.cons.inj h).1) fun _ h => hplus (List.cons.inj h).1]
  exact lexSign.eq_3 _ (fun _ h => hminus (List.cons.inj h).1) fun _ h => hplus (List.cons.inj h).1

theorem lexExponent_append {cs rest more : List Char} {e : Option Int}
    (hends : rest = [] → EndsNumber more) (h : lexExponent cs = some (e, rest)) :
    lexExponent (cs ++ more) = some (e, rest ++ more) := by
  rcases cs with _ | ⟨c, cs⟩
  · cases h
    exact lexExponent_exponentText none (hends rfl)
  · rw [lexExponent] at h
    rw [List.cons_append, lexExponent]
    by_cases hc : c = 'e' ∨ c = 'E'
    · rw [if_pos hc] at h ⊢
      rcases cs with _ | ⟨d, cs⟩
      · cases h
      · dsimp only at h ⊢
        rw [lexSign_append]
        dsimp only
        split at h
        · cases h
        · rename_i hdigits
          cases h
          obtain ⟨htake, hdrop⟩ :=
            digits_append (lexSign (d :: cs)).2 fun hnil => (hends hnil).endsDigits
          rw [htake, hdrop]
          exact if_neg hdigits
    · rw [if_neg hc] at h ⊢
      cases h
      rfl

theorem lexMinus_append (c : Char) (cs more : List Char) :
    lexMinus (c :: cs ++ more) = ((lexMinus (c :: cs)).1, (lexMinus (c :: cs)).2 ++ more) := by
  by_cases hminus : c = '-'
  · subst hminus
    rfl
  rw [lexMinus.eq_2 (c :: cs) fun _ h => hminus (List.cons.inj h).1]
  exact lexMinus.eq_2 _ fun _ h => hminus (List.cons.inj h).1

theorem lexNumber_append {c : Char} {cs rest more : List Char} {literal : NumberLiteral}
    (hends : rest = [] → EndsNumber more) (h : lexNumber (c :: cs) = some (literal, rest)) :
    lexNumber (c :: cs ++ more) = some (literal, rest ++ more) := by
  unfold lexNumber at h ⊢
  rw [lexMinus_append]
  simp only [Option.bind_eq_bind, Option.bind_eq_some_iff, Prod.exists] at h ⊢
  obtain ⟨integer, cs1, hinteger, fraction, cs2, hfraction, exponent, cs3, hexponent, hout⟩ := h
  cases hout
  -- a part that reaches the end leaves nothing for the parts behind it
  have hends2 : cs2 = [] → EndsNumber more := by
    rintro rfl
    cases hexponent
    exact hends rfl
  have hends1 : cs1 = [] → EndsNumber more := by
    rintro rfl
    cases hfraction
    exact hends2 rfl
  exact ⟨integer, _, lexInteger_append hends1 hinteger, fraction, _,
    lexFraction_append hends2 hfraction, exponent, _, lexExponent_append hends hexponent, rfl⟩

theorem lexWord_append {cs rest more : List Char} {token : Token}
    (h : lexWord cs = some (token, rest)) : lexWord (cs ++ more) = some (token, rest ++ more) := by
  unfold lexWord at h
  split at h
  all_goals cases h
  all_goals rfl

/-- What follows a token does not change it, unless it continues a number. -/
theorem lexToken_append {c : Char} {cs rest more : List Char} {token : Token}
    (hends : ∀ literal, token = .number literal → rest = [] → EndsNumber more) (h : lexToken c cs = some (token, rest)) :
    lexToken c (cs ++ more) = some (token, rest ++ more) := by
  unfold lexToken at h ⊢
  cases hc : punctuation c with
  | some found =>
    rw [hc] at h
    cases h
    rfl
  | none =>
    rw [hc] at h
    dsimp only at h ⊢
    by_cases hquote : c = '"'
    · rw [if_pos hquote] at h ⊢
      obtain ⟨⟨text, rest'⟩, hstring, hout⟩ := Option.map_eq_some_iff.mp h
      cases hout
      rw [lexString_append more hstring]
      rfl
    rw [if_neg hquote] at h ⊢
    by_cases hnumber : c = '-' ∨ c.isDigit = Bool.true
    · rw [if_pos hnumber] at h ⊢
      obtain ⟨⟨literal, rest'⟩, hliteral, hout⟩ := Option.map_eq_some_iff.mp h
      cases hout
      rw [← List.cons_append, lexNumber_append (hends literal rfl) hliteral]
      rfl
    · rw [if_neg hnumber] at h ⊢
      exact lexWord_append h

/-- **Two texts in a row** have the tokens of both, by induction on the fuel. -/
theorem Lexes.append {cs more : List Char} {ts us : List Token} (h : Lexes cs ts)
    (hends : EndsNumber more) (hmore : Lexes more us) : Lexes (cs ++ more) (ts ++ us) := by
  have hfrom : ∀ (fuel : Nat) (cs : List Char) (ts : List Token), lexFrom fuel cs = some ts →
      lexFrom (fuel + more.length) (cs ++ more) = some (ts ++ us) := by
    intro fuel
    induction fuel with
    | zero =>
      intro cs ts h
      cases cs with
      | nil =>
        cases h
        exact hmore _ (Nat.le_add_left _ _)
      | cons c cs => cases h
    | succ fuel ih =>
      intro cs ts h
      cases cs with
      | nil =>
        cases h
        exact hmore _ (Nat.le_add_left _ _)
      | cons c cs =>
        rw [lexFrom] at h
        rw [List.cons_append, Nat.add_right_comm, lexFrom]
        by_cases hblank : isBlank c = Bool.true
        · rw [if_pos hblank] at h ⊢
          exact ih cs ts h
        · rw [if_neg hblank] at h ⊢
          simp only [Option.bind_eq_bind, Option.bind_eq_some_iff, Prod.exists] at h ⊢
          obtain ⟨token, rest, htoken, ts', hrest, hout⟩ := h
          cases hout
          exact ⟨token, _, lexToken_append (fun _ _ _ => hends) htoken, _, ih rest ts' hrest, rfl⟩
  rw [lexes_iff, lex, List.length_append]
  exact hfrom _ cs ts (lexes_iff.mp h)

/-- A text and a line end. -/
theorem parse_append_newline {text : String} {x : Json} (h : parse text = some x) :
    parse (text ++ "\n") = some x := by
  have hends : EndsNumber ['\n'] := endsNumber_cons [] (.inr (.inr (.inr rfl)))
  have hlexes := Lexes.append (lexes_iff.mpr (parse_eq_some.mp h)) hends
    (lexes_nil.blank (c := '\n') rfl)
  rw [List.append_nil] at hlexes
  rw [parse_eq_some, ← lexes_iff, String.toList_append]
  exact hlexes

end JsonText
