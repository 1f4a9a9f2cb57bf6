import ZkPoR.JsonAgreement
import Mathlib.Data.String.Basic

/-! # Values that the Rust tools build, write, and read back

`json!` puts every member in its place, so the keys of an object ascend.  A value of
this kind, with no float, no negative number, and a bounded nesting, comes back from its
text (`fromStr_toStringPretty`), also with a line end behind the text.
-/
namespace ZkPoR.SerdeJson
open JsonText

/-- The value of `json!` on the members of an object. -/
def jsonObject (members : List (String × Value)) : Value :=
  .object (members.foldl (fun sofar member => Value.insert member.1 member.2 sofar) [])

/-- The keys of an object, in order. -/
def Ascending (members : List (String × Value)) : Prop :=
  (members.map Prod.fst).Pairwise (· < ·)

mutual

/-- A value that its text gives back: natural numbers, ascending keys, and at most
`depth` levels. -/
def Written (depth : Nat) : Value → Prop
  | .null => True
  | .bool _ => True
  | .number (.posInt _) => True
  | .number (.negInt _) => False
  | .number .float => False
  | .string _ => True
  | .array elements => 0 < depth ∧ WrittenElements (depth - 1) elements
  | .object members => 0 < depth ∧ Ascending members ∧ WrittenMembers (depth - 1) members

def WrittenElements (depth : Nat) : List Value → Prop
  | [] => True
  | v :: vs => Written depth v ∧ WrittenElements depth vs

def WrittenMembers (depth : Nat) : List (String × Value) → Prop
  | [] => True
  | (_, v) :: members => Written depth v ∧ WrittenMembers depth members

end

theorem writtenElements_iff {depth : Nat} {vs : List Value} :
    WrittenElements depth vs ↔ ∀ v ∈ vs, Written depth v := by
  induction vs with
  | nil => simp [WrittenElements]
  | cons v vs ih => rw [WrittenElements, ih, List.forall_mem_cons]

theorem writtenMembers_iff {depth : Nat} {members : List (String × Value)} :
    WrittenMembers depth members ↔ ∀ member ∈ members, Written depth member.2 := by
  induction members with
  | nil => simp [WrittenMembers]
  | cons member members ih => rw [WrittenMembers, ih, List.forall_mem_cons]

/-! ## The object that `json!` builds -/

theorem mem_of_mem_insert {key : String} {v : Value} {members : List (String × Value)}
    {member : String × Value} (h : member ∈ Value.insert key v members) :
    member = (key, v) ∨ member ∈ members := by
  induction members with
  | nil =>
    rw [Value.insert, List.mem_singleton] at h
    exact .inl h
  | cons head members ih =>
    obtain ⟨k, w⟩ := head
    rw [Value.insert] at h
    split at h
    · exact (List.mem_cons.mp h)
    split at h
    · exact (List.mem_cons.mp h).imp_right (List.mem_cons_of_mem _)
    · rcases List.mem_cons.mp h with rfl | h
      · exact .inr List.mem_cons_self
      · exact (ih h).imp_right (List.mem_cons_of_mem _)

theorem ascending_insert {key : String} {v : Value} {members : List (String × Value)}
    (h : Ascending members) : Ascending (Value.insert key v members) := by
  induction members with
  | nil => exact List.pairwise_singleton _ _
  | cons head members ih =>
    obtain ⟨k, w⟩ := head
    obtain ⟨hhead, htail⟩ := List.pairwise_cons.mp h
    rw [Value.insert]
    by_cases hlt : key < k
    · rw [if_pos hlt]
      refine List.pairwise_cons.mpr ⟨?_, h⟩
      rw [List.map_cons, List.forall_mem_cons]
      exact ⟨hlt, fun k' hk' => hlt.trans (hhead k' hk')⟩
    rw [if_neg hlt]
    by_cases heq : key = k
    · rw [if_pos heq]
      subst heq
      exact h
    · rw [if_neg heq]
      have hgt : k < key := lt_of_le_of_ne (not_lt.mp hlt) (Ne.symm heq)
      refine List.pairwise_cons.mpr ⟨?_, ih htail⟩
      intro k' hk'
      obtain ⟨member, hmember, rfl⟩ := List.mem_map.mp hk'
      rcases mem_of_mem_insert hmember with rfl | hmember
      · exact hgt
      · exact hhead _ (List.mem_map_of_mem hmember)

/-- A key that is not there yet adds one member. -/
theorem length_insert {key : String} {v : Value} {members : List (String × Value)}
    (h : key ∉ members.map Prod.fst) :
    (Value.insert key v members).length = members.length + 1 := by
  induction members with
  | nil => rfl
  | cons head members ih =>
    obtain ⟨k, w⟩ := head
    rw [List.map_cons, List.mem_cons, not_or] at h
    rw [Value.insert]
    split
    · rfl
    · rw [if_neg h.1, List.length_cons, ih h.2, List.length_cons]

/-- A key behind all others goes to the end. -/
theorem insert_of_forall_lt {key : String} {v : Value} {members : List (String × Value)}
    (h : ∀ k ∈ members.map Prod.fst, k < key) :
    Value.insert key v members = members ++ [(key, v)] := by
  induction members with
  | nil => rfl
  | cons head members ih =>
    obtain ⟨k, w⟩ := head
    rw [List.map_cons, List.forall_mem_cons] at h
    rw [Value.insert, if_neg (lt_asymm h.1), if_neg h.1.ne', ih h.2]
    rfl

/-- What the steps of `json!` have built so far, on top of other members. -/
theorem foldl_insert {members : List (String × Value)} (sofar : List (String × Value))
    (hsofar : Ascending sofar) (hnodup : (members.map Prod.fst).Nodup)
    (hnew : ∀ key ∈ members.map Prod.fst, key ∉ sofar.map Prod.fst) :
    let out := members.foldl (fun sofar member => Value.insert member.1 member.2 sofar) sofar
    Ascending out ∧ out.length = sofar.length + members.length ∧
      (∀ member ∈ out, member ∈ sofar ∨ member ∈ members) ∧
      (∀ member ∈ members, (Value.object out).get member.1 = some member.2) ∧
      ∀ key, key ∉ members.map Prod.fst →
        (Value.object out).get key = (Value.object sofar).get key := by
  induction members generalizing sofar with
  | nil => exact ⟨hsofar, rfl, fun _ => .inl, by simp, fun _ _ => rfl⟩
  | cons head members ih =>
    obtain ⟨k, v⟩ := head
    rw [List.map_cons, List.nodup_cons] at hnodup
    rw [List.map_cons, List.forall_mem_cons] at hnew
    have hnext : ∀ key ∈ members.map Prod.fst, key ∉ (Value.insert k v sofar).map Prod.fst := by
      intro key hkey hmem
      obtain ⟨member, hmember, rfl⟩ := List.mem_map.mp hmem
      rcases mem_of_mem_insert hmember with rfl | hmember
      · exact hnodup.1 hkey
      · exact hnew.2 _ hkey (List.mem_map_of_mem hmember)
    obtain ⟨hascending, hlength, hmem, hget, hother⟩ :=
      ih (Value.insert k v sofar) (ascending_insert hsofar) hnodup.2 hnext
    refine ⟨hascending, ?_, ?_, ?_, ?_⟩
    · rw [List.foldl_cons, hlength, length_insert hnew.1, List.length_cons]
      omega
    · intro member hmember
      rcases hmem member hmember with h | h
      · rcases mem_of_mem_insert h with rfl | h
        · exact .inr List.mem_cons_self
        · exact .inl h
      · exact .inr (List.mem_cons_of_mem _ h)
    · rw [List.forall_mem_cons]
      refine ⟨?_, hget⟩
      exact (hother k hnodup.1).trans (by rw [get_insert, if_pos rfl])
    · intro key hkey
      rw [List.map_cons, List.mem_cons, not_or] at hkey
      exact (hother key hkey.2).trans (by rw [get_insert, if_neg hkey.1])

section Object
variable {members : List (String × Value)}

/-- **The members of `json!`.**  Each key has its value, and there is no other key. -/
theorem jsonObject_spec (hnodup : (members.map Prod.fst).Nodup) :
    ∃ out, jsonObject members = .object out ∧ Ascending out ∧ out.length = members.length ∧
      (∀ member ∈ out, member ∈ members) ∧
      ∀ member ∈ members, (jsonObject members).get member.1 = some member.2 := by
  obtain ⟨hascending, hlength, hmem, hget, -⟩ :=
    foldl_insert [] List.Pairwise.nil hnodup fun _ _ => List.not_mem_nil
  refine ⟨_, rfl, hascending, hlength.trans (Nat.zero_add _), fun member hmember => ?_, hget⟩
  exact (hmem member hmember).resolve_left List.not_mem_nil

theorem index_jsonObject (hnodup : (members.map Prod.fst).Nodup) {key : String} {v : Value}
    (h : (key, v) ∈ members) : (jsonObject members).index key = v := by
  obtain ⟨_, -, -, -, -, hget⟩ := jsonObject_spec hnodup
  rw [Value.index, hget _ h, Option.getD_some]

theorem written_jsonObject {depth : Nat} (hnodup : (members.map Prod.fst).Nodup)
    (h : ∀ member ∈ members, Written depth member.2) : Written (depth + 1) (jsonObject members) := by
  obtain ⟨out, hout, hascending, -, hmem, -⟩ := jsonObject_spec hnodup
  rw [hout, Written]
  exact ⟨Nat.succ_pos depth, hascending,
    writtenMembers_iff.mpr fun member hmember => h member (hmem member hmember)⟩

end Object

/-! ## The way through the text -/

/-- Members behind all others are read one by one to the end. -/
theorem ofMembers_cons {sofar : List (String × Value)} {key : String} {v : Value} {x : Json}
    {xs : List (Text × Json)} (hlt : ∀ k ∈ sofar.map Prod.fst, k < key) (hx : ofJson x = some v) :
    ofMembers sofar ((Text.ofString key, x) :: xs) = ofMembers (sofar ++ [(key, v)]) xs := by
  simp only [ofMembers, Text.toString?_ofString, hx, Option.bind_eq_bind, Option.bind_some,
    insert_of_forall_lt hlt]

mutual

/-- A written value has a tree, which reads as that value. -/
theorem exists_toJson (depth : Nat) : ∀ v : Value, Written depth v →
    ∃ x, toJson v = some x ∧ plain depth x = true ∧ ofJson x = some v
  | .null, _ => ⟨.null, rfl, rfl, rfl⟩
  | .bool b, _ => ⟨.bool b, rfl, rfl, rfl⟩
  | .number (.posInt n), _ => by
    have hn : Number.ofLiteral (natural n.toNat) = .posInt n := ofLiteral_eq_posInt.mpr rfl
    refine ⟨.number (natural n.toNat), rfl, ?_, ?_⟩
    · rw [plain, hn]
      rfl
    · rw [ofJson, hn]
  | .number (.negInt _), h => h.elim
  | .number .float, h => h.elim
  | .string s, _ => ⟨.string (Text.ofString s), rfl, rfl, by
      rw [ofJson, Text.toString?_ofString, Option.map_some]⟩
  | .array vs, h => by
    obtain ⟨xs, hxs, hplain, hread⟩ := exists_toElements (depth - 1) vs h.2
    refine ⟨.array xs, by rw [toJson, hxs, Option.map_some], ?_, by rw [ofJson, hread, Option.map_some]⟩
    rw [plain, hplain, Bool.and_true]
    exact decide_eq_true h.1
  | .object members, h => by
    obtain ⟨xs, hxs, hplain, hread⟩ := exists_toMembers (depth - 1) members h.2.2
    have hall := hread [] (by rw [List.nil_append]; exact h.2.1)
    rw [List.nil_append] at hall
    refine ⟨.object xs, by rw [toJson, hxs, Option.map_some], ?_, by rw [ofJson, hall, Option.map_some]⟩
    rw [plain, hplain, Bool.and_true]
    exact decide_eq_true h.1

theorem exists_toElements (depth : Nat) : ∀ vs : List Value, WrittenElements depth vs →
    ∃ xs, toElements vs = some xs ∧ plainElements depth xs = true ∧ ofElements xs = some vs
  | [], _ => ⟨[], rfl, rfl, rfl⟩
  | v :: vs, h => by
    obtain ⟨x, hx, hplain, hread⟩ := exists_toJson depth v h.1
    obtain ⟨xs, hxs, hplains, hreads⟩ := exists_toElements depth vs h.2
    refine ⟨x :: xs, ?_, ?_, ?_⟩
    · simp only [toElements, hx, hxs, Option.bind_eq_bind, Option.bind_some, pure]
    · rw [plainElements, hplain, hplains, Bool.and_true]
    · simp only [ofElements, hread, hreads, Option.bind_eq_bind, Option.bind_some, pure]

theorem exists_toMembers (depth : Nat) : ∀ members : List (String × Value),
    WrittenMembers depth members →
    ∃ xs, toMembers members = some xs ∧ plainMembers depth xs = true ∧
      ∀ sofar, Ascending (sofar ++ members) → ofMembers sofar xs = some (sofar ++ members)
  | [], _ => ⟨[], rfl, rfl, fun sofar _ => by rw [ofMembers, List.append_nil]⟩
  | (key, v) :: members, h => by
    obtain ⟨x, hx, hplain, hread⟩ := exists_toJson depth v h.1
    obtain ⟨xs, hxs, hplains, hreads⟩ := exists_toMembers depth members h.2
    refine ⟨(Text.ofString key, x) :: xs, ?_, ?_, fun sofar hascending => ?_⟩
    · simp only [toMembers, hx, hxs, Option.bind_eq_bind, Option.bind_some, pure]
    · rw [plainMembers, hplain, hplains, Bool.and_true]
    · have hlt : ∀ k ∈ sofar.map Prod.fst, k < key := by
        intro k hk
        rw [Ascending, List.map_append, List.pairwise_append] at hascending
        exact hascending.2.2 k hk key List.mem_cons_self
      have hshift : sofar ++ (key, v) :: members = sofar ++ [(key, v)] ++ members := by simp
      rw [hshift] at hascending ⊢
      rw [ofMembers_cons hlt hread]
      exact hreads _ hascending

end

section
variable {serde : SerdeJson} {v : Value}

/-- The tree of the text of a written value, with its line end. -/
theorem exists_parse_toStringPretty (hserde : Documented serde) {depth : Nat}
    (h : Written depth v) :
    ∃ x, JsonText.parse (serde.toStringPretty v ++ "\n") = some x ∧ plain depth x = true ∧
      ofJson x = some v := by
  obtain ⟨x, hx, hplain, hread⟩ := exists_toJson depth v h
  exact ⟨x, parse_append_newline (hserde.pretty hx), hplain, hread⟩

/-- **A written value comes back from its text.** -/
theorem fromStr_toStringPretty (hserde : Documented serde) (h : Written RECURSION_LIMIT v) :
    serde.fromStr (serde.toStringPretty v ++ "\n") = .ok v := by
  obtain ⟨x, hparse, hplain, hread⟩ := exists_parse_toStringPretty hserde h
  exact hserde.reads hparse hplain hread

end

end ZkPoR.SerdeJson
