import ZkPoR.JsonLexer

/-! # JSON texts on one line

What a reader makes of a string has no high surrogate in front of a low one
(`Text.Normal`), because the two are one character.  The writer of a text
(`Text.quote`) escapes a surrogate that stands alone, and on normal texts the lexer
takes the text back.  An object without blanks is then read as its members.
-/
namespace JsonText
open HexText

/-! ## Normal texts -/

/-- No surrogate starts with the second half of a pair. -/
def Text.NoLow (text : Text) : Prop := ∀ low rest, text = .surrogate low :: rest → low < 0xDC00

/-- Every surrogate is a code unit of its range, and stands alone. -/
inductive Text.Normal : Text → Prop
  | nil : Text.Normal []
  | scalar (c : Char) {text : Text} (h : Text.Normal text) : Text.Normal (.scalar c :: text)
  | surrogate {unit : Nat} {text : Text} (hlow : 0xD800 ≤ unit) (hhigh : unit < 0xE000)
      (halone : unit < 0xDC00 → Text.NoLow text) (h : Text.Normal text) :
      Text.Normal (.surrogate unit :: text)

theorem Text.normal_ofString (s : String) : (Text.ofString s).Normal := by
  unfold Text.ofString
  induction s.toList with
  | nil => exact .nil
  | cons c cs ih => exact .scalar c ih

theorem normal_pushUnit {unit : Nat} {text : Text} (h : text.Normal) :
    (pushUnit unit text).Normal := by
  unfold pushUnit
  split
  · rename_i hrange
    split
    · rename_i low rest
      -- a high surrogate in front of a low one becomes one character
      split
      · cases h with
        | surrogate _ _ _ hrest => exact .scalar _ hrest
      · rename_i hpair
        refine .surrogate hrange.1 hrange.2 ?_ h
        intro hhigh low' rest' heq
        cases heq
        omega
    · rename_i hnone
      refine .surrogate hrange.1 hrange.2 ?_ h
      intro _ low rest heq
      exact absurd heq (hnone low rest)
  · exact .scalar _ h

/-- The lexer gives normal texts, by induction on the characters. -/
theorem normal_lexString {cs rest : List Char} {text : Text}
    (h : lexString cs = some (text, rest)) : text.Normal := by
  fun_induction lexString cs generalizing text rest with
  | case1 => cases h
  | case2 cs =>
    cases h
    exact .nil
  | case3 => cases h
  | case4 c1 c2 c3 c4 cs hquote ih =>
    simp only [Option.bind_eq_some_iff, Option.map_eq_some_iff, Prod.exists] at h
    obtain ⟨unit, -, text, rest, hcs, hout⟩ := h
    cases hout
    exact normal_pushUnit (ih hcs)
  | case5 => cases h
  | case6 e cs he hquote ih =>
    simp only [Option.bind_eq_some_iff, Option.map_eq_some_iff, Prod.exists] at h
    obtain ⟨c, -, text, rest, hcs, hout⟩ := h
    cases hout
    exact .scalar _ (ih hcs)
  | case7 => cases h
  | case8 c cs hquote hescape hcontrol ih =>
    simp only [Option.map_eq_some_iff, Prod.exists] at h
    obtain ⟨text, rest, hcs, hout⟩ := h
    cases hout
    exact .scalar _ (ih hcs)

theorem normal_lexToken {c : Char} {cs rest : List Char} {text : Text}
    (h : lexToken c cs = some (.string text, rest)) : text.Normal := by
  unfold lexToken at h
  split at h
  · rename_i token htoken
    cases h
    unfold punctuation at htoken
    split at htoken <;> cases htoken
  split at h
  · obtain ⟨⟨text', rest'⟩, hcs, hout⟩ := Option.map_eq_some_iff.mp h
    cases hout
    exact normal_lexString hcs
  split at h
  · obtain ⟨_, -, hout⟩ := Option.map_eq_some_iff.mp h
    cases hout
  · unfold lexWord at h
    split at h <;> cases h

theorem normal_lexFrom {fuel : Nat} {cs : List Char} {ts : List Token}
    (h : lexFrom fuel cs = some ts) : ∀ text, .string text ∈ ts → text.Normal := by
  induction fuel generalizing cs ts with
  | zero =>
    cases cs with
    | nil =>
      cases h
      exact fun _ hmem => absurd hmem List.not_mem_nil
    | cons c cs => cases h
  | succ fuel ih =>
    cases cs with
    | nil =>
      cases h
      exact fun _ hmem => absurd hmem List.not_mem_nil
    | cons c cs =>
      rw [lexFrom] at h
      split at h
      · exact ih h
      simp only [Option.bind_eq_bind, Option.bind_eq_some_iff] at h
      obtain ⟨⟨token, rest⟩, htoken, ts', hts, hout⟩ := h
      cases hout
      intro text hmem
      rcases List.mem_cons.mp hmem with rfl | hmem
      · exact normal_lexToken htoken
      · exact ih hts text hmem

theorem mem_intercalate {α : Type} {x : α} {sep l : List α} {ls : List (List α)} (hl : l ∈ ls)
    (hx : x ∈ l) : x ∈ sep.intercalate ls := by
  induction ls with
  | nil => exact absurd hl List.not_mem_nil
  | cons head ls ih =>
    cases ls with
    | nil =>
      obtain rfl := List.mem_singleton.mp hl
      simpa using hx
    | cons next ls =>
      rw [List.intercalate_cons_cons, List.mem_append, List.mem_append]
      rcases List.mem_cons.mp hl with rfl | hl
      · exact .inl (.inl hx)
      · exact .inr (ih hl)

/-- A string of an object that a text denotes is normal. -/
theorem normal_of_parse {text : String} {members : List (Text × Json)} {key value : Text}
    (h : parse text = some (.object members)) (hmem : (key, .string value) ∈ members) :
    value.Normal := by
  refine normal_lexFrom (parse_eq_some.mp h) value ?_
  rw [tokens_object]
  refine List.mem_cons_of_mem _ (List.mem_append_left _ ?_)
  exact mem_intercalate (List.mem_map_of_mem hmem) (by simp [memberTokens, tokens])

/-! ## Strings -/

/-- The four digits of a code unit. -/
def unitDigits (unit : Nat) : List Char :=
  [Nat.digitChar (unit / 4096 % 16), Nat.digitChar (unit / 256 % 16),
    Nat.digitChar (unit / 16 % 16), Nat.digitChar (unit % 16)]

/-- A surrogate is written as its code unit. -/
def CodePoint.escape : CodePoint → List Char
  | .scalar c => JsonText.escape c
  | .surrogate unit => '\\' :: 'u' :: unitDigits unit

/-- The string token of a text. -/
def Text.quote (text : Text) : List Char := '"' :: (text.flatMap CodePoint.escape ++ ['"'])

/-- A Unicode string is written as such. -/
theorem Text.quote_ofString (s : String) : (Text.ofString s).quote = JsonText.quote s := by
  rw [Text.quote, Text.ofString, List.flatMap_map]
  rfl

theorem codeUnit_unitDigits {unit : Nat} (h : unit < 65536) :
    codeUnit (Nat.digitChar (unit / 4096 % 16)) (Nat.digitChar (unit / 256 % 16))
      (Nat.digitChar (unit / 16 % 16)) (Nat.digitChar (unit % 16)) = some unit := by
  have hdigit : ∀ n, hexDigit? (Nat.digitChar (n % 16)) = some (n % 16) := fun n =>
    hexDigit?_digitChar _ (Nat.mod_lt n (by decide))
  simp only [codeUnit, hdigit, Option.bind_eq_bind, Option.bind_some, pure, Option.some.injEq]
  omega

/-- A surrogate that stands alone stays alone. -/
theorem pushUnit_of_normal {unit : Nat} {text : Text}
    (h : Text.Normal (.surrogate unit :: text)) : pushUnit unit text = .surrogate unit :: text := by
  cases h with
  | surrogate hlow hhigh halone _ =>
    unfold pushUnit
    rw [if_pos ⟨hlow, hhigh⟩]
    rcases text with _ | ⟨_ | low, rest⟩
    · rfl
    · rfl
    · dsimp only
      rw [if_neg]
      rintro ⟨hunit, hpair⟩
      have hlt := halone hunit low rest rfl
      omega

/-- The lexer takes a normal text back. -/
theorem lexString_quote_of_normal {text : Text} (h : text.Normal) :
    lexString (text.flatMap CodePoint.escape ++ ['"']) = some (text, []) := by
  induction h with
  | nil => exact lexString_quote []
  | scalar c _ ih =>
    rw [List.flatMap_cons, List.append_assoc, CodePoint.escape, lexString_escape, ih]
    rfl
  | @surrogate unit text hlow hhigh halone h ih =>
    have hbound : unit < 65536 := by omega
    have hunit := codeUnit_unitDigits hbound
    have halone := pushUnit_of_normal (.surrogate hlow hhigh halone h)
    rw [List.flatMap_cons, List.append_assoc]
    simp only [CodePoint.escape, unitDigits, List.cons_append, List.nil_append, lexString_unit,
      hunit, Option.bind_some, ih, Option.map_some, halone]

theorem isStringToken_quote_of_normal {text : Text} (h : text.Normal) :
    IsStringToken text.quote text := ⟨_, rfl, lexString_quote_of_normal h⟩

/-! ## Objects on one line -/

/-- One member without blanks. -/
theorem denotes_plain_member {key : String} {value : List Char} {x : Json}
    (hvalue : Denotes value (tokens x)) :
    Denotes (quote key ++ ':' :: value) (memberTokens (Text.ofString key, x)) := by
  intro rest more hends hrest
  have hvalue := hvalue rest more hends hrest
  have hcolon : Lexes (':' :: (value ++ rest)) (.colon :: (tokens x ++ more)) :=
    Lexes.punctuation hvalue rfl
  have hquoted := Lexes.string hcolon (isStringToken_quote key)
  simpa [memberTokens] using hquoted

/-- An object on one line is a text of its own. -/
theorem parse_plain_object {members : List (List Char × Text × Json)}
    (h : ∀ member ∈ members, Denotes member.1 (memberTokens member.2)) :
    parse (String.ofList ('{' :: ([','].intercalate (members.map Prod.fst) ++ ['}']))) =
      some (.object (members.map Prod.snd)) := by
  have hclose : Lexes ['}'] [.closeBrace] := Lexes.punctuation lexes_nil rfl
  have hitems := @denotes_intercalate (members.map fun member => (member.1, memberTokens member.2))
    [] (List.forall_mem_nil _) (List.forall_mem_map.mpr h)
  simp only [List.map_map] at hitems
  have hbody := hitems _ _ (endsNumber_cons _ (.inr (.inl rfl))) hclose
  have hopen := Lexes.punctuation (c := '{') hbody rfl
  rw [parse_eq_some, ← lexes_iff, String.toList_ofList, tokens_object]
  simpa [Function.comp_def] using hopen

end JsonText
