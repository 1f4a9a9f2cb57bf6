import ZkPoR.Binary64
import ZkPoR.JsonLexer

/-! # JSON in JavaScript

The values of `JSON.parse`: a number is a double, a string can hold a surrogate
that stands alone, and an object has one property for each key, in the order of
`Object.keys`.
-/
namespace ZkPoR.JavaScript
open JsonText Binary64

inductive Value
  | null
  | boolean (b : Bool)
  | number (value : Double)
  | string (text : Text)
  | array (elements : List Value)
  | object (properties : List (Text × Value))

/-- The ratio that a literal writes. -/
def ratio (literal : NumberLiteral) : Nat × Nat :=
  let digits := literal.fraction.foldl (fun acc digit => acc * 10 + digit.val) literal.integer
  let exponent := literal.exponent.getD 0
  (digits * 10 ^ exponent.toNat, 10 ^ literal.fraction.length * 10 ^ (-exponent).toNat)

/-- The double nearest to a literal. -/
def toDouble (literal : NumberLiteral) : Double :=
  ofRatio literal.negative (ratio literal).1 (ratio literal).2

/-- The array index that a key writes. -/
def arrayIndex (key : Text) : Option Nat := do
  let s ← key.toString?
  let index := Nat.ofDigitChars 10 s.toList 0
  if Nat.toDigits 10 index = s.toList ∧ index < 2 ^ 32 - 1 then some index else none

/-- Array indices come first, in ascending order; the other keys keep the order
of their creation. -/
def comesBefore (key other : Text) : Bool :=
  match arrayIndex key, arrayIndex other with
  | some i, some j => i < j
  | some _, none => true
  | none, _ => false

def setProperty (key : Text) (value : Value) : List (Text × Value) → List (Text × Value)
  | [] => [(key, value)]
  | (k, v) :: properties =>
    if k = key then (key, value) :: properties
    else if comesBefore key k then (key, value) :: (k, v) :: properties
    else (k, v) :: setProperty key value properties

mutual

def ofJson : Json → Value
  | .null => .null
  | .bool b => .boolean b
  | .number literal => .number (toDouble literal)
  | .string text => .string text
  | .array elements => .array (ofElements elements)
  | .object members => .object (ofMembers [] members)

def ofElements : List Json → List Value
  | [] => []
  | x :: xs => ofJson x :: ofElements xs

/-- The members in text order, on top of the properties so far. -/
def ofMembers (properties : List (Text × Value)) : List (Text × Json) → List (Text × Value)
  | [] => properties
  | (key, x) :: members => ofMembers (setProperty key (ofJson x) properties) members

end

/-- `JSON.parse`.  Nothing means that it throws. -/
def parse (text : String) : Option Value := (JsonText.parse text).map ofJson

/-- The elements of a value for which `Array.isArray` holds. -/
def Value.elements? : Value → Option (List Value)
  | .array elements => some elements
  | _ => none

/-- The property of an object under a key, or `undefined`. -/
def property (properties : List (Text × Value)) (key : String) : Option Value :=
  (properties.find? fun p => p.1 = Text.ofString key).map Prod.snd

/-- The double of a natural number below `2 ^ 53` is that number. -/
theorem toDouble_natural {n : Nat} (h : n < 2 ^ 53) :
    (toDouble (natural n)).toInt? = some (n : Int) := by
  have hratio : ratio (natural n) = (n, 1) := by simp [ratio, natural]
  rw [toDouble, hratio]
  exact toInt?_ofRatio false h

/-! ## Properties -/

theorem property_setProperty {key : String} {key' : Text} {value : Value}
    {properties : List (Text × Value)} :
    property (setProperty key' value properties) key =
      if Text.ofString key = key' then some value else property properties key := by
  unfold property
  induction properties with
  | nil =>
    by_cases h : Text.ofString key = key'
    · simp [setProperty, h]
    · simp [setProperty, h, Ne.symm h]
  | cons head properties ih =>
    obtain ⟨k, v⟩ := head
    rw [setProperty]
    by_cases heq : k = key'
    · subst heq
      by_cases h : Text.ofString key = k
      · simp [h]
      · simp [h, Ne.symm h]
    rw [if_neg heq]
    by_cases hbefore : comesBefore key' k = true
    · rw [if_pos hbefore]
      by_cases h : Text.ofString key = key'
      · simp [h]
      · simp [h, Ne.symm h]
    · rw [if_neg hbefore]
      by_cases hk : Text.ofString key = k
      · simp [hk, heq]
      · simpa [Ne.symm hk] using ih

theorem mem_setProperty {key : Text} {value : Value} {properties : List (Text × Value)}
    {p : Text × Value} (h : p ∈ setProperty key value properties) :
    p = (key, value) ∨ p ∈ properties := by
  induction properties with
  | nil =>
    rw [setProperty, List.mem_singleton] at h
    exact .inl h
  | cons head properties ih =>
    obtain ⟨k, v⟩ := head
    rw [setProperty] at h
    split at h
    · rcases List.mem_cons.mp h with rfl | h
      · exact .inl rfl
      · exact .inr (List.mem_cons_of_mem _ h)
    split at h
    · rcases List.mem_cons.mp h with rfl | h
      · exact .inl rfl
      · exact .inr h
    · rcases List.mem_cons.mp h with rfl | h
      · exact .inr List.mem_cons_self
      · exact (ih h).imp_right (List.mem_cons_of_mem _)

theorem property_ofMembers {members : List (String × Json)} (sofar : List (Text × Value))
    (hnodup : (members.map Prod.fst).Nodup) :
    let out := ofMembers sofar (members.map fun member => (Text.ofString member.1, member.2))
    (∀ member ∈ members, property out member.1 = some (ofJson member.2)) ∧
      (∀ key, key ∉ members.map Prod.fst → property out key = property sofar key) ∧
      ∀ p ∈ out, p.1 ∈ (members.map Prod.fst).map Text.ofString ∨ p ∈ sofar := by
  induction members generalizing sofar with
  | nil => exact ⟨by simp, by simp [ofMembers], by simp [ofMembers]⟩
  | cons head members ih =>
    obtain ⟨key, x⟩ := head
    rw [List.map_cons, List.nodup_cons] at hnodup
    obtain ⟨hmem, hother, hknown⟩ :=
      ih (setProperty (Text.ofString key) (ofJson x) sofar) hnodup.2
    refine ⟨?_, ?_, ?_⟩
    · rw [List.forall_mem_cons]
      refine ⟨?_, hmem⟩
      exact (hother _ hnodup.1).trans (by rw [property_setProperty, if_pos rfl])
    · intro k hk
      rw [List.map_cons, List.mem_cons, not_or] at hk
      have hne : Text.ofString k ≠ Text.ofString key := fun h => hk.1 (Text.ofString_injective h)
      exact (hother k hk.2).trans (by rw [property_setProperty, if_neg hne])
    · intro p hp
      rw [List.map_cons, List.map_cons, List.mem_cons]
      rcases hknown p hp with h | h
      · exact .inl (.inr h)
      · exact (mem_setProperty h).imp_left fun heq => .inl (congrArg Prod.fst heq)

/-- A property of an object has the value of one of its members. -/
theorem exists_mem_of_mem_ofMembers {members : List (Text × Json)} {sofar : List (Text × Value)}
    {p : Text × Value} (h : p ∈ ofMembers sofar members) :
    p ∈ sofar ∨ ∃ member ∈ members, p = (member.1, ofJson member.2) := by
  induction members generalizing sofar with
  | nil => exact .inl h
  | cons member members ih =>
    rw [ofMembers] at h
    rcases ih h with h | ⟨other, hmem, heq⟩
    · rcases mem_setProperty h with rfl | h
      · exact .inr ⟨member, List.mem_cons_self, rfl⟩
      · exact .inl h
    · exact .inr ⟨other, List.mem_cons_of_mem _ hmem, heq⟩

/-- **The value of an object.**  Its properties have the keys of the object, and
under each key it has what the object writes there. -/
theorem exists_ofJson_objectOf {members : List (String × Json)}
    (hnodup : (members.map Prod.fst).Nodup) :
    ∃ properties, ofJson (objectOf members) = .object properties ∧
      (∀ member ∈ members, property properties member.1 = some (ofJson member.2)) ∧
      ∀ p ∈ properties, p.1 ∈ (members.map Prod.fst).map Text.ofString := by
  obtain ⟨hmem, -, hknown⟩ := property_ofMembers [] hnodup
  refine ⟨_, by rw [objectOf, ofJson], hmem, ?_⟩
  intro p hp
  exact (hknown p hp).resolve_right List.not_mem_nil

end ZkPoR.JavaScript
