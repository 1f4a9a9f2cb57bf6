import ZkPoR.CheckedInt
import ZkPoR.JsonLexer

/-! # JSON in the Rust tools

The values of `serde_json`, and what the tools rely on when they call it.  The
crate itself is the parameter `SerdeJson`: `from_str` into a `Value`, and the two
writers.  `Documented` states their behaviour against the grammar of JSON texts.
-/
namespace ZkPoR
open JsonText CheckedInt

namespace SerdeJson

/-- A number of a `Value`.  Nothing reads the value of a float. -/
inductive Number
  | posInt (n : U64)
  | negInt (n : Int)
  | float
deriving DecidableEq

/-- A JSON value; the members of an object are sorted by key. -/
inductive Value
  | null
  | bool (b : Bool)
  | number (n : Number)
  | string (s : String)
  | array (elements : List Value)
  | object (members : List (String × Value))

namespace Value

def asStr : Value → Option String
  | string s => some s
  | _ => none

def asU64 : Value → Option U64
  | number (.posInt n) => some n
  | _ => none

def asArray : Value → Option (List Value)
  | array elements => some elements
  | _ => none

def asObject : Value → Option (List (String × Value))
  | object members => some members
  | _ => none

/-- The member of an object under a key. -/
def get (value : Value) (key : String) : Option Value := do
  let members ← value.asObject
  (members.find? fun p => p.1 = key).map Prod.snd

/-- `value[key]`: an absent member reads as `null`. -/
def index (value : Value) (key : String) : Value := (value.get key).getD null

/-- Puts a member in its place, over one with the same key. -/
def insert (key : String) (value : Value) : List (String × Value) → List (String × Value)
  | [] => [(key, value)]
  | (k, v) :: members =>
    if key < k then (key, value) :: (k, v) :: members
    else if key = k then (key, value) :: members
    else (k, v) :: insert key value members

end Value

/-- An integer that 64 bits hold stays one; everything else is a float. -/
def Number.ofLiteral (literal : NumberLiteral) : Number :=
  if literal.fraction = [] ∧ literal.exponent = none then
    if literal.negative then
      if 0 < literal.integer ∧ literal.integer ≤ 2 ^ 63 then .negInt (-literal.integer)
      else .float
    else if literal.integer < 2 ^ 64 then .posInt (BitVec.ofNat 64 literal.integer)
    else .float
  else .float

mutual

/-- The value of a tree.  A string with a surrogate that stands alone has none. -/
def ofJson : Json → Option Value
  | .null => some .null
  | .bool b => some (.bool b)
  | .number literal => some (.number (.ofLiteral literal))
  | .string text => text.toString?.map .string
  | .array elements => (ofElements elements).map .array
  | .object members => (ofMembers [] members).map .object

def ofElements : List Json → Option (List Value)
  | [] => some []
  | x :: xs => do
    let v ← ofJson x
    let vs ← ofElements xs
    return v :: vs

/-- The members in text order, on top of those so far: the last one of a key
stays. -/
def ofMembers (sofar : List (String × Value)) :
    List (Text × Json) → Option (List (String × Value))
  | [] => some sofar
  | (key, x) :: members => do
    let key ← key.toString?
    let v ← ofJson x
    ofMembers (Value.insert key v sofar) members

end

mutual

/-- At most `depth` levels, and no float. -/
def plain (depth : Nat) : Json → Bool
  | .null => true
  | .bool _ => true
  | .number literal => Number.ofLiteral literal ≠ .float
  | .string _ => true
  | .array elements => 0 < depth && plainElements (depth - 1) elements
  | .object members => 0 < depth && plainMembers (depth - 1) members

def plainElements (depth : Nat) : List Json → Bool
  | [] => true
  | x :: xs => plain depth x && plainElements depth xs

def plainMembers (depth : Nat) : List (Text × Json) → Bool
  | [] => true
  | (_, x) :: members => plain depth x && plainMembers depth members

end

mutual

/-- The tree that a writer writes.  A float has no tree here. -/
def toJson : Value → Option Json
  | .null => some .null
  | .bool b => some (.bool b)
  | .number (.posInt n) => some (.number (natural n.toNat))
  | .number (.negInt n) => some (.number { natural n.natAbs with negative := true })
  | .number .float => none
  | .string s => some (.string (Text.ofString s))
  | .array elements => (toElements elements).map .array
  | .object members => (toMembers members).map .object

def toElements : List Value → Option (List Json)
  | [] => some []
  | v :: vs => do
    let x ← toJson v
    let xs ← toElements vs
    return x :: xs

def toMembers : List (String × Value) → Option (List (Text × Json))
  | [] => some []
  | (key, v) :: members => do
    let x ← toJson v
    let xs ← toMembers members
    return (Text.ofString key, x) :: xs

end

/-- Levels of arrays and objects that the reader enters. -/
def RECURSION_LIMIT : Nat := 127

end SerdeJson

/-- The functions of the crate that the tools call. -/
structure SerdeJson where
  fromStr : String → Except String SerdeJson.Value
  toString : SerdeJson.Value → String
  toStringPretty : SerdeJson.Value → String

namespace SerdeJson

/-- What the tools rely on: the reader takes every text without a float and within
its recursion limit, and what it answers is what the text says; a string is
written as one token, and the writer over several lines writes the value. -/
structure Documented (serde : SerdeJson) : Prop where
  reads : ∀ {text x v}, JsonText.parse text = some x → plain RECURSION_LIMIT x = true →
    ofJson x = some v → serde.fromStr text = .ok v
  sound : ∀ {text v}, serde.fromStr text = .ok v →
    ∃ x, JsonText.parse text = some x ∧ ofJson x = some v
  string : ∀ s, IsStringToken (serde.toString (.string s)).toList (Text.ofString s)
  pretty : ∀ {v x}, toJson v = some x → JsonText.parse (serde.toStringPretty v) = some x

/-! ## Members -/

theorem get_insert {key key' : String} {v : Value} {members : List (String × Value)} :
    (Value.object (Value.insert key v members)).get key' =
      if key' = key then some v else (Value.object members).get key' := by
  simp only [Value.get, Value.asObject, Option.bind_eq_bind, Option.bind_some]
  induction members with
  | nil =>
    by_cases h : key' = key
    · simp [Value.insert, h]
    · simp [Value.insert, h, Ne.symm h]
  | cons member members ih =>
    obtain ⟨k, w⟩ := member
    rw [Value.insert]
    by_cases hlt : key < k
    · rw [if_pos hlt]
      by_cases h : key' = key
      · simp [h]
      · simp [h, Ne.symm h]
    rw [if_neg hlt]
    by_cases heq : key = k
    · subst heq
      by_cases h : key' = key
      · simp [h]
      · simp [h, Ne.symm h]
    · rw [if_neg heq]
      by_cases hk : key' = k
      · simp [hk, Ne.symm heq]
      · simpa [Ne.symm hk] using ih

theorem mem_insert {key : String} {v : Value} {members : List (String × Value)}
    {member : String × Value} (h : member ∈ Value.insert key v members) :
    member.1 = key ∨ member ∈ members := by
  induction members with
  | nil =>
    rw [Value.insert, List.mem_singleton] at h
    exact .inl (by rw [h])
  | cons head members ih =>
    obtain ⟨k, w⟩ := head
    rw [Value.insert] at h
    split at h
    · rcases List.mem_cons.mp h with rfl | h
      · exact .inl rfl
      · exact .inr h
    split at h
    · rcases List.mem_cons.mp h with rfl | h
      · exact .inl rfl
      · exact .inr (List.mem_cons_of_mem _ h)
    · rcases List.mem_cons.mp h with rfl | h
      · exact .inr List.mem_cons_self
      · exact (ih h).imp_right (List.mem_cons_of_mem _)

/-- Members with distinct keys, on top of those so far. -/
theorem exists_ofMembers {members : List (String × Json)} (sofar : List (String × Value))
    (hnodup : (members.map Prod.fst).Nodup) (hvalues : ∀ member ∈ members, ofJson member.2 ≠ none) :
    ∃ out, ofMembers sofar (members.map fun member => (Text.ofString member.1, member.2)) =
        some out ∧
      (∀ member ∈ members, (Value.object out).get member.1 = ofJson member.2) ∧
      (∀ key, key ∉ members.map Prod.fst →
        (Value.object out).get key = (Value.object sofar).get key) ∧
      ∀ member ∈ out, member.1 ∈ members.map Prod.fst ∨ member ∈ sofar := by
  induction members generalizing sofar with
  | nil => exact ⟨sofar, rfl, by simp, by simp, by simp⟩
  | cons head members ih =>
    obtain ⟨key, x⟩ := head
    rw [List.forall_mem_cons] at hvalues
    rw [List.map_cons, List.nodup_cons] at hnodup
    obtain ⟨v, hv⟩ := Option.ne_none_iff_exists'.mp hvalues.1
    obtain ⟨out, hout, hmem, hother, hknown⟩ := ih (Value.insert key v sofar) hnodup.2 hvalues.2
    refine ⟨out, ?_, ?_, ?_, ?_⟩
    · simp only [List.map_cons, ofMembers, Text.toString?_ofString, hv, Option.bind_eq_bind,
        Option.bind_some, hout]
    · rw [List.forall_mem_cons]
      refine ⟨?_, hmem⟩
      rw [hother _ hnodup.1, get_insert, if_pos rfl, hv]
    · intro k hk
      rw [List.map_cons, List.mem_cons, not_or] at hk
      rw [hother k hk.2, get_insert, if_neg hk.1]
    · intro member hmember
      rw [List.map_cons, List.mem_cons]
      rcases hknown member hmember with h | h
      · exact .inl (.inr h)
      · exact (mem_insert h).imp_left .inl

/-- **The value of an object.**  Its members have the keys of the object, and under
each key it has what the object writes there. -/
theorem exists_ofJson_objectOf {members : List (String × Json)}
    (hnodup : (members.map Prod.fst).Nodup) (hvalues : ∀ member ∈ members, ofJson member.2 ≠ none) :
    ∃ out, ofJson (objectOf members) = some (.object out) ∧
      (∀ member ∈ members, (Value.object out).get member.1 = ofJson member.2) ∧
      (∀ key, key ∉ members.map Prod.fst → (Value.object out).get key = none) ∧
      ∀ member ∈ out, member.1 ∈ members.map Prod.fst := by
  obtain ⟨out, hout, hmem, hother, hknown⟩ := exists_ofMembers [] hnodup hvalues
  refine ⟨out, by rw [objectOf, ofJson, hout]; rfl, hmem, hother, ?_⟩
  intro member hmember
  exact (hknown member hmember).resolve_right List.not_mem_nil

/-! ## A reference writer -/

/-- A line end, and two spaces for each level. -/
def newline (depth : Nat) : List Char := '\n' :: List.replicate (2 * depth) ' '

mutual

/-- The value over several lines, at one level. -/
def prettyAt (depth : Nat) : Value → List Char
  | .null => ['n', 'u', 'l', 'l']
  | .bool true => ['t', 'r', 'u', 'e']
  | .bool false => ['f', 'a', 'l', 's', 'e']
  | .number (.posInt n) => Nat.toDigits 10 n.toNat
  | .number (.negInt n) => '-' :: Nat.toDigits 10 n.natAbs
  | .number .float => []
  | .string s => quote s
  | .array [] => ['[', ']']
  | .array (v :: vs) =>
    '[' :: (newline (depth + 1) ++ prettyAt (depth + 1) v ++ prettyElements depth vs)
  | .object [] => ['{', '}']
  | .object ((key, v) :: members) =>
    '{' :: (newline (depth + 1) ++ quote key ++ ':' :: ' ' :: prettyAt (depth + 1) v ++
      prettyMembers depth members)

/-- What follows an element of an array. -/
def prettyElements (depth : Nat) : List Value → List Char
  | [] => newline depth ++ [']']
  | v :: vs => ',' :: (newline (depth + 1) ++ prettyAt (depth + 1) v ++ prettyElements depth vs)

/-- What follows a member of an object. -/
def prettyMembers (depth : Nat) : List (String × Value) → List Char
  | [] => newline depth ++ ['}']
  | (key, v) :: members =>
    ',' :: (newline (depth + 1) ++ quote key ++ ':' :: ' ' :: prettyAt (depth + 1) v ++
      prettyMembers depth members)

end

theorem endsNumber_newline (depth : Nat) (cs : List Char) : EndsNumber (newline depth ++ cs) :=
  endsNumber_cons _ (.inr (.inr (.inr rfl)))

theorem endsNumber_prettyElements (depth : Nat) (vs : List Value) (cs : List Char) :
    EndsNumber (prettyElements depth vs ++ cs) := by
  cases vs with
  | nil =>
    rw [prettyElements, List.append_assoc]
    exact endsNumber_newline _ _
  | cons v vs => exact endsNumber_cons _ (.inl rfl)

theorem endsNumber_prettyMembers (depth : Nat) (members : List (String × Value))
    (cs : List Char) : EndsNumber (prettyMembers depth members ++ cs) := by
  rcases members with _ | ⟨⟨key, v⟩, members⟩
  · rw [prettyMembers, List.append_assoc]
    exact endsNumber_newline _ _
  · exact endsNumber_cons _ (.inl rfl)

theorem lexes_newline {cs : List Char} {ts : List Token} (h : Lexes cs ts) (depth : Nat) :
    Lexes (SerdeJson.newline depth ++ cs) ts := by
  refine h.blanks ?_
  unfold SerdeJson.newline
  rw [List.forall_mem_cons]
  exact ⟨rfl, fun c hc => by rw [List.eq_of_mem_replicate hc]; rfl⟩

/-- The key of a member, and what follows it. -/
theorem lexes_key {cs : List Char} {ts : List Token} (h : Lexes cs ts) (key : String) :
    Lexes (quote key ++ ':' :: ' ' :: cs) (.string (Text.ofString key) :: .colon :: ts) := by
  have hblank : Lexes (' ' :: cs) ts := Lexes.blank h rfl
  have hcolon : Lexes (':' :: ' ' :: cs) (.colon :: ts) := Lexes.punctuation hblank rfl
  exact Lexes.string hcolon (isStringToken_quote key)

mutual

theorem lexes_prettyAt (depth : Nat) : ∀ (v : Value) (x : Json) (cs : List Char) (ts : List Token),
    toJson v = some x → EndsNumber cs → Lexes cs ts →
      Lexes (prettyAt depth v ++ cs) (tokens x ++ ts)
  | .null, x, cs, ts, hx, _, h => by
    cases hx
    exact Lexes.null h
  | .bool true, x, cs, ts, hx, _, h => by
    cases hx
    exact Lexes.true h
  | .bool false, x, cs, ts, hx, _, h => by
    cases hx
    exact Lexes.false h
  | .number (.posInt n), x, cs, ts, hx, hcs, h => by
    cases hx
    rw [prettyAt, ← natural_chars]
    exact Lexes.number h _ hcs
  | .number (.negInt n), x, cs, ts, hx, hcs, h => by
    cases hx
    have hchars : NumberLiteral.chars { natural n.natAbs with negative := true } =
        '-' :: Nat.toDigits 10 n.natAbs := by
      simp [NumberLiteral.chars, natural, minus, fractionText, exponentText]
    rw [prettyAt, ← hchars]
    exact Lexes.number h _ hcs
  | .number .float, x, cs, ts, hx, _, _ => by cases hx
  | .string s, x, cs, ts, hx, _, h => by
    cases hx
    exact Lexes.string h (isStringToken_quote s)
  | .array [], x, cs, ts, hx, _, h => by
    cases hx
    exact Lexes.punctuation (Lexes.punctuation h rfl) rfl
  | .array (v :: vs), x, cs, ts, hx, hcs, h => by
    simp only [toJson, toElements, Option.bind_eq_bind, Option.map_eq_some_iff,
      Option.bind_eq_some_iff] at hx
    obtain ⟨_, ⟨y, hy, ys, hys, hout⟩, rfl⟩ := hx
    cases hout
    have htail := lexes_prettyElements depth vs ys cs ts hys h
    have hhead := lexes_prettyAt (depth + 1) v y _ _ hy (endsNumber_prettyElements _ _ _) htail
    have hopen := Lexes.punctuation (c := '[') (lexes_newline hhead (depth + 1)) rfl
    simpa [prettyAt, tokens] using hopen
  | .object [], x, cs, ts, hx, _, h => by
    cases hx
    exact Lexes.punctuation (Lexes.punctuation h rfl) rfl
  | .object ((key, v) :: members), x, cs, ts, hx, hcs, h => by
    simp only [toJson, toMembers, Option.bind_eq_bind, Option.map_eq_some_iff,
      Option.bind_eq_some_iff] at hx
    obtain ⟨_, ⟨y, hy, ys, hys, hout⟩, rfl⟩ := hx
    cases hout
    have htail := lexes_prettyMembers depth members ys cs ts hys h
    have hhead := lexes_prettyAt (depth + 1) v y _ _ hy (endsNumber_prettyMembers _ _ _) htail
    have hopen := Lexes.punctuation (c := '{') (lexes_newline (lexes_key hhead key) (depth + 1)) rfl
    simpa [prettyAt, tokens] using hopen

theorem lexes_prettyElements (depth : Nat) : ∀ (vs : List Value) (xs : List Json) (cs : List Char)
    (ts : List Token), toElements vs = some xs → Lexes cs ts →
      Lexes (prettyElements depth vs ++ cs) (elementsTail xs ++ ts)
  | [], xs, cs, ts, hxs, h => by
    cases hxs
    have hclose := Lexes.punctuation (c := ']') h rfl
    simpa [prettyElements, elementsTail] using lexes_newline hclose depth
  | v :: vs, xs, cs, ts, hxs, h => by
    simp only [toElements, Option.bind_eq_bind, Option.bind_eq_some_iff] at hxs
    obtain ⟨y, hy, ys, hys, hout⟩ := hxs
    cases hout
    have htail := lexes_prettyElements depth vs ys cs ts hys h
    have hhead := lexes_prettyAt (depth + 1) v y _ _ hy (endsNumber_prettyElements _ _ _) htail
    have hcomma := Lexes.punctuation (c := ',') (lexes_newline hhead (depth + 1)) rfl
    simpa [prettyElements, elementsTail] using hcomma

theorem lexes_prettyMembers (depth : Nat) : ∀ (members : List (String × Value))
    (xs : List (Text × Json)) (cs : List Char) (ts : List Token), toMembers members = some xs →
      Lexes cs ts → Lexes (prettyMembers depth members ++ cs) (membersTail xs ++ ts)
  | [], xs, cs, ts, hxs, h => by
    cases hxs
    have hclose := Lexes.punctuation (c := '}') h rfl
    simpa [prettyMembers, membersTail] using lexes_newline hclose depth
  | (key, v) :: members, xs, cs, ts, hxs, h => by
    simp only [toMembers, Option.bind_eq_bind, Option.bind_eq_some_iff] at hxs
    obtain ⟨y, hy, ys, hys, hout⟩ := hxs
    cases hout
    have htail := lexes_prettyMembers depth members ys cs ts hys h
    have hhead := lexes_prettyAt (depth + 1) v y _ _ hy (endsNumber_prettyMembers _ _ _) htail
    have hcomma := Lexes.punctuation (c := ',') (lexes_newline (lexes_key hhead key) (depth + 1)) rfl
    simpa [prettyMembers, membersTail] using hcomma

end

/-- The crate on texts without a float. -/
def reference : SerdeJson where
  fromStr text :=
    match JsonText.parse text with
    | none => .error "expected value"
    | some x =>
      if plain RECURSION_LIMIT x then
        match ofJson x with
        | none => .error "lone leading surrogate in hex escape"
        | some v => .ok v
      else .error "recursion limit exceeded"
  toString v :=
    match v with
    | .string s => String.ofList (quote s)
    | v => String.ofList (prettyAt 0 v)
  toStringPretty v := String.ofList (prettyAt 0 v)

theorem reference_documented : Documented reference where
  reads := by
    intro text x v hparse hplain hv
    simp only [reference, hparse, hplain, hv, if_true]
  sound := by
    intro text v h
    simp only [reference] at h
    split at h
    · cases h
    · rename_i x hparse
      split at h
      · split at h
        · cases h
        · rename_i hv
          cases h
          exact ⟨x, hparse, hv⟩
      · cases h
  string := by
    intro s
    simp only [reference, String.toList_ofList]
    exact isStringToken_quote s
  pretty := by
    intro v x h
    have hlexes := lexes_prettyAt 0 v x [] [] h (fun c hc => by cases hc) lexes_nil
    rw [List.append_nil, List.append_nil] at hlexes
    rw [parse_eq_some, ← lexes_iff]
    simp only [reference, String.toList_ofList]
    exact hlexes

end SerdeJson
end ZkPoR
