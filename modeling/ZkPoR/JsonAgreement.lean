import ZkPoR.JavaScript
import ZkPoR.SerdeJson

/-! # One text in two JSON libraries

Both libraries keep the last member of a repeated key, so both read an object
through the same function of its members (`lastMember`).  A string and a natural
number that `serde_json` answers fix the tree, and with it what `JSON.parse` answers.
-/
namespace ZkPoR
open JsonText

/-- What an object says under a key: its last member with that key. -/
def lastMember (members : List (Text × Json)) (key : String) : Option Json :=
  (members.reverse.find? fun member => member.1 = Text.ofString key).map Prod.snd

theorem lastMember_cons (member : Text × Json) (members : List (Text × Json)) (key : String) :
    lastMember (member :: members) key =
      (lastMember members key).or (if member.1 = Text.ofString key then some member.2 else none) := by
  unfold lastMember
  rw [List.reverse_cons, List.find?_append, Option.map_or, List.find?_singleton]
  by_cases h : member.1 = Text.ofString key <;> simp [h]

theorem mem_of_lastMember {members : List (Text × Json)} {key : String} {x : Json}
    (h : lastMember members key = some x) : (Text.ofString key, x) ∈ members := by
  unfold lastMember at h
  obtain ⟨member, hmember, rfl⟩ := Option.map_eq_some_iff.mp h
  have hkey : member.1 = Text.ofString key := by simpa using List.find?_some hmember
  rw [← hkey]
  exact List.mem_reverse.mp (List.mem_of_find?_eq_some hmember)

theorem exists_lastMember {members : List (Text × Json)} {member : Text × Json} {key : String}
    (hmember : member ∈ members) (hkey : member.1 = Text.ofString key) :
    ∃ x, lastMember members key = some x := by
  refine Option.ne_none_iff_exists'.mp fun hnone => ?_
  rw [lastMember, Option.map_eq_none_iff, List.find?_eq_none] at hnone
  exact hnone member (List.mem_reverse.mpr hmember) (decide_eq_true hkey)

namespace SerdeJson

/-- The members of a value are the last ones of their keys, on top of those so far. -/
theorem get_ofMembers {members : List (Text × Json)} {sofar out : List (String × Value)}
    (h : ofMembers sofar members = some out) (key : String) :
    (Value.object out).get key =
      match lastMember members key with
      | some x => ofJson x
      | none => (Value.object sofar).get key := by
  induction members generalizing sofar with
  | nil =>
    cases h
    rfl
  | cons member members ih =>
    obtain ⟨text, x⟩ := member
    simp only [ofMembers, Option.bind_eq_bind, Option.bind_eq_some_iff] at h
    obtain ⟨k, hk, v, hv, hout⟩ := h
    rw [Text.toString?_eq_some] at hk
    subst hk
    rw [ih hout, lastMember_cons, get_insert]
    cases hlast : lastMember members key with
    | some y => rfl
    | none =>
      by_cases hkey : key = k
      · subst hkey
        simp [hv]
      · have hne : Text.ofString k ≠ Text.ofString key :=
          fun heq => hkey (Text.ofString_injective heq).symm
        simp [hkey, hne]

theorem mem_of_get {members : List (String × Value)} {key : String} {v : Value}
    (h : (Value.object members).get key = some v) : (key, v) ∈ members := by
  simp only [Value.get, Value.asObject, Option.bind_eq_bind, Option.bind_some,
    Option.map_eq_some_iff] at h
  obtain ⟨member, hmember, rfl⟩ := h
  have hkey : member.1 = key := by simpa using List.find?_some hmember
  rw [← hkey]
  exact List.mem_of_find?_eq_some hmember

/-- Every member of the text has a key and a value. -/
theorem exists_of_ofMembers {members : List (Text × Json)} {sofar out : List (String × Value)}
    (h : ofMembers sofar members = some out) :
    ∀ member ∈ members, ∃ key v, member.1 = Text.ofString key ∧ ofJson member.2 = some v := by
  induction members generalizing sofar with
  | nil => exact fun member hmember => absurd hmember List.not_mem_nil
  | cons member members ih =>
    obtain ⟨text, x⟩ := member
    simp only [ofMembers, Option.bind_eq_bind, Option.bind_eq_some_iff] at h
    obtain ⟨key, hkey, v, hv, hout⟩ := h
    rw [List.forall_mem_cons]
    exact ⟨⟨key, v, Text.toString?_eq_some.mp hkey, hv⟩, ih hout⟩

/-- **The value has every key of the text.** -/
theorem exists_mem_ofMembers {members : List (Text × Json)} {out : List (String × Value)}
    (h : ofMembers [] members = some out) {member : Text × Json} (hmember : member ∈ members) :
    ∃ entry ∈ out, member.1 = Text.ofString entry.1 := by
  obtain ⟨key, -, hkey, -⟩ := exists_of_ofMembers h member hmember
  obtain ⟨x, hlast⟩ := exists_lastMember hmember hkey
  obtain ⟨-, v, -, hv⟩ := exists_of_ofMembers h _ (mem_of_lastMember hlast)
  have hget := get_ofMembers h key
  rw [hlast] at hget
  exact ⟨_, mem_of_get (hget.trans hv), hkey⟩

/-! ## The tree of a value -/

theorem ofJson_eq_string {x : Json} {s : String} :
    ofJson x = some (.string s) ↔ x = .string (Text.ofString s) := by
  cases x <;> simp [ofJson, Text.toString?_eq_some]

/-- Only the digits of a natural number have its value. -/
theorem ofLiteral_eq_posInt {literal : NumberLiteral} {n : CheckedInt.U64} :
    Number.ofLiteral literal = .posInt n ↔ literal = natural n.toNat := by
  constructor
  · intro h
    unfold Number.ofLiteral at h
    split at h
    · rename_i hplain
      split at h
      · split at h <;> cases h
      rename_i hpositive
      split at h
      · rename_i hlt
        cases h
        obtain ⟨negative, integer, fraction, exponent⟩ := literal
        obtain ⟨rfl, rfl⟩ := hplain
        simp only [Bool.not_eq_true] at hpositive
        have hmod : integer % 2 ^ 64 = integer := Nat.mod_eq_of_lt hlt
        rw [BitVec.toNat_ofNat, hmod, hpositive]
        rfl
      · cases h
    · cases h
  · rintro rfl
    rw [Number.ofLiteral, if_pos ⟨rfl, rfl⟩]
    refine (if_neg Bool.false_ne_true).trans ((if_pos n.isLt).trans ?_)
    exact congrArg Number.posInt (BitVec.ofNat_toNat 64 n)

theorem ofJson_eq_posInt {x : Json} {n : CheckedInt.U64} :
    ofJson x = some (.number (.posInt n)) ↔ x = .number (natural n.toNat) := by
  cases x <;> simp [ofJson, ofLiteral_eq_posInt]

theorem ofJson_eq_object {x : Json} {out : List (String × Value)} :
    ofJson x = some (.object out) ↔ ∃ members, x = .object members ∧ ofMembers [] members = some out := by
  cases x <;> simp [ofJson]

theorem ofElements_eq_some {xs : List Json} {vs : List Value} :
    ofElements xs = some vs ↔ List.Forall₂ (fun x v => ofJson x = some v) xs vs := by
  induction xs generalizing vs with
  | nil => cases vs <;> simp [ofElements]
  | cons x xs ih =>
    simp only [ofElements, Option.bind_eq_bind, Option.bind_eq_some_iff, List.forall₂_cons_left_iff]
    constructor
    · rintro ⟨v, hv, rest, hrest, hout⟩
      cases hout
      exact ⟨v, rest, hv, ih.mp hrest, rfl⟩
    · rintro ⟨v, rest, hv, hrest, rfl⟩
      exact ⟨v, hv, rest, ih.mpr hrest, rfl⟩

theorem ofJson_eq_array {x : Json} {vs : List Value} :
    ofJson x = some (.array vs) ↔
      ∃ xs, x = .array xs ∧ List.Forall₂ (fun x v => ofJson x = some v) xs vs := by
  cases x <;> simp [ofJson, ofElements_eq_some]

/-- What a member that is there says of the tree. -/
theorem exists_lastMember_of_index {members : List (Text × Json)} {out : List (String × Value)}
    (h : ofMembers [] members = some out) {key : String} {v : Value}
    (hindex : (Value.object out).index key = v) (hv : v ≠ .null) :
    ∃ x, lastMember members key = some x ∧ ofJson x = some v := by
  have hget := get_ofMembers h key
  rw [Value.index, hget] at hindex
  cases hlast : lastMember members key with
  | none =>
    rw [hlast] at hindex
    exact absurd hindex.symm hv
  | some x =>
    obtain ⟨-, w, -, hw⟩ := exists_of_ofMembers h _ (mem_of_lastMember hlast)
    simp only [hlast, hw, Option.getD_some] at hindex
    exact ⟨x, rfl, hindex ▸ hw⟩

end SerdeJson

namespace JavaScript

/-- A property is the last member of its key, on top of those so far. -/
theorem property_ofMembers_eq (members : List (Text × Json)) (sofar : List (Text × Value))
    (key : String) :
    property (ofMembers sofar members) key =
      match lastMember members key with
      | some x => some (ofJson x)
      | none => property sofar key := by
  induction members generalizing sofar with
  | nil => rfl
  | cons member members ih =>
    obtain ⟨text, x⟩ := member
    rw [ofMembers, ih, lastMember_cons, property_setProperty]
    cases lastMember members key with
    | some y => rfl
    | none =>
      by_cases h : text = Text.ofString key
      · simp [h]
      · simp [h, Ne.symm h]

theorem ofElements_eq_map (xs : List Json) : ofElements xs = xs.map ofJson := by
  induction xs with
  | nil => rfl
  | cons x xs ih => rw [ofElements, ih, List.map_cons]

/-! ## A member in both libraries -/

/-- **A string of one library is the string of the other.** -/
theorem property_of_index_string {members : List (Text × Json)}
    {out : List (String × SerdeJson.Value)} (h : SerdeJson.ofMembers [] members = some out)
    {key s : String} (hindex : (SerdeJson.Value.object out).index key = .string s) :
    property (ofMembers [] members) key = some (.string (Text.ofString s)) := by
  obtain ⟨x, hlast, hx⟩ := SerdeJson.exists_lastMember_of_index h hindex fun hnull => by cases hnull
  rw [property_ofMembers_eq, hlast, SerdeJson.ofJson_eq_string.mp hx]
  rfl

/-- **A natural number of one library is rounded in the other.** -/
theorem property_of_index_posInt {members : List (Text × Json)}
    {out : List (String × SerdeJson.Value)} (h : SerdeJson.ofMembers [] members = some out)
    {key : String} {n : CheckedInt.U64}
    (hindex : (SerdeJson.Value.object out).index key = .number (.posInt n)) :
    property (ofMembers [] members) key = some (.number (toDouble (natural n.toNat))) := by
  obtain ⟨x, hlast, hx⟩ := SerdeJson.exists_lastMember_of_index h hindex fun hnull => by cases hnull
  rw [property_ofMembers_eq, hlast, SerdeJson.ofJson_eq_posInt.mp hx]
  rfl

end JavaScript
end ZkPoR
