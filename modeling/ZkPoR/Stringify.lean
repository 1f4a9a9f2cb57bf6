import ZkPoR.FieldText
import ZkPoR.JavaScript
import ZkPoR.JsonWriter

/-! # `JSON.stringify`

The writer of JavaScript for an object of strings and numbers.  A number that is not
a small natural number has a text that the model leaves open (`otherNumber`), and
nothing is said of it.  `parse_stringify` reads an object back.
-/
namespace ZkPoR.JavaScript
open JsonText Binary64

/-- The string of a value. -/
def asString : Option Value → Option Text
  | some (.string text) => some text
  | _ => none

/-- The number of a value. -/
def asNumber : Option Value → Option Double
  | some (.number value) => some value
  | _ => none

inductive Scalar
  | string (text : Text)
  | number (value : Double)

/-- The number of a small natural number. -/
def ofNat (n : Nat) : Double := toDouble (natural n)

/-- The value is a natural number that a double holds exactly. -/
def IsSafe (value : Double) : Prop := ∃ n : Nat, n < 2 ^ 53 ∧ value.toInt? = some (n : Int)

section Writer
variable (otherNumber : Double → String)

def numberText (value : Double) : String :=
  match value.toInt? with
  | some n => if 0 ≤ n ∧ n < 2 ^ 53 then decimalText n.toNat else otherNumber value
  | none => otherNumber value

def Scalar.chars : Scalar → List Char
  | .string text => text.quote
  | .number value => (numberText otherNumber value).toList

/-- `JSON.stringify`, for an object whose keys are known strings. -/
def stringify (properties : List (String × Scalar)) : String :=
  String.ofList ('{' :: ([','].intercalate (properties.map fun p =>
    quote p.1 ++ ':' :: p.2.chars otherNumber) ++ ['}']))

end Writer

/-! ## Reading the object back -/

/-- The scalar has one text only, and the reader takes it back. -/
def Scalar.Exact : Scalar → Prop
  | .string text => text.Normal
  | .number value => IsSafe value

/-- The tree of a scalar. -/
def Scalar.json : Scalar → Json
  | .string text => .string text
  | .number value => .number (natural (value.toInt?.getD 0).toNat)

variable {otherNumber : Double → String}

theorem denotes_chars {scalar : Scalar} (h : scalar.Exact) :
    Denotes (scalar.chars otherNumber) (tokens scalar.json) := by
  cases scalar with
  | string text => exact denotes_string (isStringToken_quote_of_normal h)
  | number value =>
    obtain ⟨n, hlt, hvalue⟩ := h
    have hnumber : numberText otherNumber value = decimalText n := by
      rw [numberText, hvalue]
      dsimp only
      rw [if_pos (by omega), Int.toNat_natCast]
    rw [Scalar.chars, hnumber, Scalar.json, hvalue, Option.getD_some, Int.toNat_natCast,
      decimalText, String.toList_ofList]
    exact denotes_natural n

/-- **The text of an object denotes it.** -/
theorem parse_stringify {properties : List (String × Scalar)}
    (h : ∀ p ∈ properties, p.2.Exact) :
    JsonText.parse (stringify otherNumber properties) =
      some (objectOf (properties.map fun p => (p.1, p.2.json))) := by
  have hmembers := @parse_plain_object
    (properties.map fun p => (quote p.1 ++ ':' :: p.2.chars otherNumber, Text.ofString p.1, p.2.json))
    (List.forall_mem_map.mpr fun p hp => denotes_plain_member (denotes_chars (h p hp)))
  simp only [List.map_map] at hmembers
  rw [objectOf, List.map_map]
  refine Eq.trans (congrArg JsonText.parse (String.toList_injective ?_)) hmembers
  simp [stringify, String.toList_append, Function.comp_def]

/-- **What a reader finds in the object**, with a line end behind it or without one. -/
theorem exists_parse_stringify (otherNumber : Double → String)
    {properties : List (String × Scalar)} (h : ∀ p ∈ properties, p.2.Exact)
    (hnodup : (properties.map Prod.fst).Nodup) :
    ∃ source, parse (stringify otherNumber properties) = some (.object source) ∧
      parse (stringify otherNumber properties ++ "\n") = some (.object source) ∧
      (∀ p ∈ properties, property source p.1 = some (ofJson p.2.json)) ∧
      ∀ key, key ∉ properties.map Prod.fst → property source key = none := by
  have hkeys : (properties.map fun p => (p.1, p.2.json)).map Prod.fst = properties.map Prod.fst := by
    rw [List.map_map]
    rfl
  obtain ⟨hmem, hother, -⟩ := property_ofMembers [] (hkeys.symm ▸ hnodup)
  have hparse : JsonText.parse (stringify otherNumber properties) =
      some (objectOf (properties.map fun p => (p.1, p.2.json))) := parse_stringify h
  refine ⟨_, by rw [parse, hparse, Option.map_some, objectOf, ofJson],
    by rw [parse, parse_append_newline hparse, Option.map_some, objectOf, ofJson], ?_, ?_⟩
  · intro p hp
    exact hmem _ (List.mem_map_of_mem (f := fun p => (p.1, p.2.json)) hp)
  · intro key hkey
    exact hother key (hkeys.symm ▸ hkey)

/-- The value of a safe number is that number. -/
theorem exists_ofJson_number {value : Double} {n : Nat} (hlt : n < 2 ^ 53)
    (h : value.toInt? = some (n : Int)) :
    ∃ found : Double, ofJson (Scalar.number value).json = .number found ∧
      found.toInt? = some (n : Int) := by
  refine ⟨ofNat n, ?_, toDouble_natural hlt⟩
  rw [Scalar.json, h, Option.getD_some, Int.toNat_natCast, ofJson, ofNat]

/-- A string in a text that a reader takes is normal. -/
theorem normal_of_property {text : String} {source : List (Text × Value)} {key : String}
    {value : Text} (h : parse text = some (.object source))
    (hvalue : property source key = some (.string value)) : value.Normal := by
  obtain ⟨x, hx, hobject⟩ := Option.map_eq_some_iff.mp h
  obtain ⟨members, rfl⟩ : ∃ members, x = .object members := by
    cases x with
    | object members => exact ⟨members, rfl⟩
    | null => simp [ofJson] at hobject
    | bool => simp [ofJson] at hobject
    | number => simp [ofJson] at hobject
    | string => simp [ofJson] at hobject
    | array => simp [ofJson] at hobject
  rw [ofJson, Value.object.injEq] at hobject
  obtain ⟨⟨k, v⟩, hfind, hv⟩ := Option.map_eq_some_iff.mp hvalue
  have hmem := List.mem_of_find?_eq_some hfind
  rw [← hobject] at hmem
  obtain ⟨⟨k', x⟩, hmember, heq⟩ :=
    (exists_mem_of_mem_ofMembers hmem).resolve_left List.not_mem_nil
  -- only a string is read as a string
  have hstring : x = .string value := by
    simp only [Prod.mk.injEq] at heq hv
    cases x with
    | string text =>
      rw [heq.2, ofJson, Value.string.injEq] at hv
      rw [hv]
    | null => simp [heq.2, ofJson] at hv
    | bool => simp [heq.2, ofJson] at hv
    | number => simp [heq.2, ofJson] at hv
    | array => simp [heq.2, ofJson] at hv
    | object => simp [heq.2, ofJson] at hv
  rw [hstring] at hmember
  exact normal_of_parse hx hmember

/-! ## Over several lines -/

/-- The blanks in front of a line. -/
def indentation (gap depth : Nat) : List Char := List.replicate (gap * depth) ' '

section Indented
variable (otherNumber : Double → String) (gap : Nat)

/-- The lines of an array or an object between its brackets, one for each entry. -/
def bracketed (left right : Char) (depth : Nat) (lines : List (List Char)) : List Char :=
  if lines = [] then [left, right]
  else left :: '\n' :: ([',', '\n'].intercalate lines ++ '\n' :: (indentation gap depth ++ [right]))

mutual

/-- `JSON.stringify` with an indentation, at one level. -/
def stringifyAt (depth : Nat) : Value → List Char
  | .null => ['n', 'u', 'l', 'l']
  | .boolean true => ['t', 'r', 'u', 'e']
  | .boolean false => ['f', 'a', 'l', 's', 'e']
  | .number value => (numberText otherNumber value).toList
  | .string text => text.quote
  | .array elements => bracketed gap '[' ']' depth (elementLines (depth + 1) elements)
  | .object properties => bracketed gap '{' '}' depth (memberLines (depth + 1) properties)

def elementLines (depth : Nat) : List Value → List (List Char)
  | [] => []
  | v :: vs => (indentation gap depth ++ stringifyAt depth v) :: elementLines depth vs

def memberLines (depth : Nat) : List (Text × Value) → List (List Char)
  | [] => []
  | (key, v) :: members =>
    (indentation gap depth ++ key.quote ++ ':' :: ' ' :: stringifyAt depth v) ::
      memberLines depth members

end

variable {otherNumber gap}

theorem elementLines_eq_map (depth : Nat) (vs : List Value) :
    elementLines otherNumber gap depth vs =
      vs.map fun v => indentation gap depth ++ stringifyAt otherNumber gap depth v := by
  induction vs with
  | nil => rfl
  | cons v vs ih => rw [elementLines, ih, List.map_cons]

theorem memberLines_eq_map (depth : Nat) (members : List (Text × Value)) :
    memberLines otherNumber gap depth members = members.map fun member =>
      indentation gap depth ++ member.1.quote ++ ':' :: ' ' ::
        stringifyAt otherNumber gap depth member.2 := by
  induction members with
  | nil => rfl
  | cons member members ih => rw [memberLines, ih, List.map_cons]

end Indented

/-- A small natural number is written in decimal. -/
theorem numberText_ofNat {n : Nat} (h : n < 2 ^ 53) :
    numberText otherNumber (ofNat n) = decimalText n := by
  rw [numberText, ofNat, toDouble_natural h]
  dsimp only
  rw [if_pos (by omega), Int.toNat_natCast]

end ZkPoR.JavaScript
