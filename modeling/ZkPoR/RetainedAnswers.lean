import ZkPoR.RetainedReader
import ZkPoR.SdkDisputes

/-! # The answers from a redacted tree

In a well-formed tree the customers are the first `count` leaves, so the search of
`answer` finds the place of an identifier exactly when the tree names it
(`answer_eq_ok`).  The text of the answer is read by the SDK as that place
(`parseInclusionEvidence_answerText`), whose path walks to the root of the tree.
-/
namespace ZkPoR.Retained
open CheckedInt BoundedLoop SerdeJson Package

/-! ## The customers of a tree -/

/-- The customers are in front. -/
theorem take_customersOf {rows : List (Nat × Nat)} (h : Redacted rows) :
    (rows.take (customersOf rows).length).map Prod.fst = customersOf rows := by
  obtain ⟨-, hfront⟩ := h
  induction rows with
  | nil => rfl
  | cons row rows ih =>
    obtain ⟨hhead, htail⟩ := List.pairwise_cons.mp hfront
    have hsplit : customersOf (row :: rows) = customersOf [row] ++ customersOf rows :=
      customersOf_append [row] rows
    by_cases hrow : row.1 = PADDING_LEAF_ID
    · have hempty : customersOf rows = [] := by
        simp only [customersOf, List.filter_eq_nil_iff, List.mem_map, decide_eq_true_eq]
        rintro _ ⟨other, hother, rfl⟩
        exact fun hne => hne (hhead other hother hrow)
      rw [hsplit, customersOf_padding hrow, hempty]
      rfl
    · rw [hsplit, customersOf_customer hrow, List.length_append, List.length_singleton,
        Nat.add_comm, List.take_succ_cons, List.map_cons, ih htail]
      rfl

/-- Behind the customers there is padding only. -/
theorem Redacted.padding_of_le {rows : List (Nat × Nat)} (h : Redacted rows) {i : Nat}
    {row : Nat × Nat} (hle : (customersOf rows).length ≤ i) (hrow : rows[i]? = some row) :
    row.1 = PADDING_LEAF_ID := by
  obtain ⟨-, hfront⟩ := h
  induction rows generalizing i with
  | nil => cases hrow
  | cons head rows ih =>
    obtain ⟨hhead, htail⟩ := List.pairwise_cons.mp hfront
    have hsplit : customersOf (head :: rows) = customersOf [head] ++ customersOf rows :=
      customersOf_append [head] rows
    by_cases hpadding : head.1 = PADDING_LEAF_ID
    · rcases List.mem_cons.mp (List.mem_of_getElem? hrow) with rfl | hmem
      · exact hpadding
      · exact hhead row hmem hpadding
    · rw [hsplit, customersOf_customer hpadding, List.length_append, List.length_singleton] at hle
      cases i with
      | zero => omega
      | succ i => exact ih (by omega) hrow htail

section Trees
variable {serde : SerdeJson} {poseidon2 : List Fr → Fr} {tree : Tree}

theorem WellFormed.identifiers (h : WellFormed poseidon2 tree) :
    tree.identifiers = customersOf tree.entries := by
  rw [RetainedTree.identifiers, h.count]
  exact take_customersOf h.redacted

theorem WellFormed.count_le (h : WellFormed poseidon2 tree) :
    tree.count ≤ 2 ^ tree.binding.treeDepth.toNat := by
  rw [h.count, ← h.length, customersOf]
  calc ((tree.entries.map Prod.fst).filter _).length ≤ (tree.entries.map Prod.fst).length :=
        List.length_filter_le _ _
    _ = tree.entries.length := List.length_map _

/-- The leaf at a position of the tree. -/
def Tree.leaf (poseidon2 : List Fr → Fr) (tree : Tree) (i : Nat) : U256 :=
  leafAt (tree.entries.map (hashOf poseidon2)) i

theorem frInRange_zero : frInRange 0 := by decide

theorem frInRange_leaf (i : Nat) : frInRange (tree.leaf poseidon2 i) := by
  rw [Tree.leaf, leafAt, List.getD_eq_getElem?_getD, List.getElem?_map]
  cases tree.entries[i]? with
  | none => exact frInRange_zero
  | some row => exact frInRange_leafHash _ _

/-- **The evidence of a customer of the tree**: the row of its position, and the path
from there. -/
structure IsPlace (poseidon2 : List Fr → Fr) (tree : Tree) (e : Sdk.InclusionEvidence) : Prop where
  position : e.position < tree.count
  row : tree.entries[e.position]? = some (e.id, e.commitment)
  path : e.path = (MerkleTree.path (nodeHash poseidon2) (tree.leaf poseidon2)
    tree.binding.treeDepth.toNat e.position).map BitVec.toNat

theorem WellFormed.position_lt (h : WellFormed poseidon2 tree) {e : Sdk.InclusionEvidence}
    (he : IsPlace poseidon2 tree e) : e.position < 2 ^ tree.binding.treeDepth.toNat :=
  lt_of_lt_of_le he.position h.count_le

theorem mem_identifiers {id : Nat} :
    id ∈ tree.identifiers ↔ ∃ e, IsPlace poseidon2 tree e ∧ e.id = id := by
  rw [RetainedTree.identifiers, List.mem_map]
  constructor
  · rintro ⟨⟨id, commitment⟩, hrow, rfl⟩
    obtain ⟨i, hi⟩ := List.mem_iff_getElem?.mp hrow
    rw [List.getElem?_take] at hi
    split at hi
    · rename_i hlt
      let path := (MerkleTree.path (nodeHash poseidon2) (tree.leaf poseidon2)
        tree.binding.treeDepth.toNat i).map BitVec.toNat
      exact ⟨⟨id, commitment, path, i⟩, ⟨hlt, hi, rfl⟩, rfl⟩
    · cases hi
  · rintro ⟨e, he, rfl⟩
    refine ⟨(e.id, e.commitment), ?_, rfl⟩
    exact List.mem_iff_getElem?.mpr ⟨e.position, by rw [List.getElem?_take, if_pos he.position, he.row]⟩

/-- An identifier of a customer is not the padding one. -/
theorem WellFormed.id_ne_zero (h : WellFormed poseidon2 tree) {e : Sdk.InclusionEvidence}
    (he : IsPlace poseidon2 tree e) : e.id ≠ PADDING_LEAF_ID := by
  have hmem : e.id ∈ tree.identifiers := (@mem_identifiers poseidon2 tree _).mpr ⟨e, he, rfl⟩
  rw [h.identifiers, customersOf, List.mem_filter] at hmem
  exact of_decide_eq_true hmem.2

/-- **One identifier has one place.** -/
theorem WellFormed.place_unique (h : WellFormed poseidon2 tree) {e e' : Sdk.InclusionEvidence}
    (he : IsPlace poseidon2 tree e) (he' : IsPlace poseidon2 tree e') (hid : e.id = e'.id) :
    e = e' := by
  have hnodup : tree.identifiers.Nodup := h.identifiers ▸ h.redacted.nodup
  have hget : ∀ {e : Sdk.InclusionEvidence}, IsPlace poseidon2 tree e →
      tree.identifiers[e.position]? = some e.id := fun {e} he => by
    rw [RetainedTree.identifiers, List.getElem?_map, List.getElem?_take, if_pos he.position, he.row]
    rfl
  have hlt : e.position < tree.identifiers.length :=
    (List.getElem?_eq_some_iff.mp (hget he)).1
  have hposition : e.position = e'.position :=
    (List.getElem?_inj hlt hnodup).mp ((hget he).trans ((congrArg some hid).trans (hget he').symm))
  have hrow := he.row
  rw [hposition, he'.row, Option.some.injEq, Prod.mk.injEq] at hrow
  obtain ⟨id, commitment, path, position⟩ := e
  obtain ⟨id', commitment', path', position'⟩ := e'
  obtain rfl : position = position' := hposition
  obtain ⟨rfl, rfl⟩ : id' = id ∧ commitment' = commitment := hrow
  obtain rfl : path = path' := he.path.trans he'.path.symm
  rfl

theorem WellFormed.place_valid (h : WellFormed poseidon2 tree) {e : Sdk.InclusionEvidence}
    (he : IsPlace poseidon2 tree e) : e.Valid := by
  have hcanonical := h.canonical _ (List.mem_of_getElem? he.row)
  refine ⟨h.id_ne_zero he, hcanonical.1, hcanonical.2, ?_, ?_⟩
  · rw [he.path]
    intro sibling hsibling
    obtain ⟨s, hs, rfl⟩ := List.mem_map.mp hsibling
    exact frInRange_pathFrom (fun i => frInRange_leaf i) _ _ _ s hs
  · exact (h.position_lt he).trans_le (Nat.pow_le_pow_right (by norm_num) h.depthLe)

/-! ## The search -/

/-- The value of an answer. -/
def answerValue (e : Sdk.InclusionEvidence) : Value :=
  jsonObject
    [("id", .string (hexText (BitVec.ofNat 256 e.id))),
      ("commitment", .string (hexText (BitVec.ofNat 256 e.commitment))),
      ("position", .number (.posInt (BitVec.ofNat 64 e.position))),
      ("path", .array (e.path.map fun s => .string (hexText (BitVec.ofNat 256 s))))]

def answerText (serde : SerdeJson) (e : Sdk.InclusionEvidence) : String :=
  serde.toStringPretty (answerValue e) ++ "\n"

/-- What is written of the place that the search found. -/
theorem answer_of_isPlace (h : WellFormed poseidon2 tree) {e : Sdk.InclusionEvidence}
    (he : IsPlace poseidon2 tree e) :
    answer serde tree ⟨tree.binding, e.id⟩ = .ok (answerText serde e) := by
  have hfind : ((tree.entries.take tree.count).findIdx? fun entry => entry.1 = e.id) =
      some e.position := by
    rw [List.findIdx?_eq_some_iff_getElem]
    have hlt := (List.getElem?_eq_some_iff.mp he.row).1
    refine ⟨by rw [List.length_take]; exact lt_min he.position hlt, ?_, ?_⟩
    · rw [List.getElem_take, (List.getElem?_eq_some_iff.mp he.row).2]
      exact decide_eq_true rfl
    · intro j hj hid
      -- another place of the same identifier would be this one
      rw [List.getElem_take, decide_eq_true_eq] at hid
      have hlt' : j < tree.entries.length := hj.trans hlt
      let path := (MerkleTree.path (nodeHash poseidon2) (tree.leaf poseidon2)
        tree.binding.treeDepth.toNat j).map BitVec.toNat
      have hplace : IsPlace poseidon2 tree ⟨e.id, tree.entries[j].2, path, j⟩ :=
        ⟨hj.trans he.position, by rw [List.getElem?_eq_getElem hlt', ← hid], rfl⟩
      have heq := congrArg Sdk.InclusionEvidence.position (h.place_unique hplace he rfl)
      exact absurd heq (Nat.ne_of_lt hj)
  have hvalid := h.place_valid he
  have hlevels : pathInLevels tree.levels e.position = .ok
      (MerkleTree.path (nodeHash poseidon2) (tree.leaf poseidon2)
        tree.binding.treeDepth.toNat e.position) := by
    rw [h.levels]
    exact pathInLevels_eq (by rw [List.length_map, h.length]) (h.position_lt he)
  have hpath : (MerkleTree.path (nodeHash poseidon2) (tree.leaf poseidon2)
      tree.binding.treeDepth.toNat e.position).mapM (fun element => frHex (Generator.toBig element)) =
      .ok (e.path.map fun s => hexText (BitVec.ofNat 256 s)) := by
    rw [he.path, List.map_map]
    exact mapM_eq_ok fun s hs =>
      Schema.frHex_of_lt (frInRange_pathFrom (fun i => frInRange_leaf i) _ _ _ s hs)
  unfold answer
  refine bind_eq_ok.mpr ⟨(), require_eq_ok.mpr rfl, bind_eq_ok.mpr ⟨_, orRefuse_eq_ok.mpr hfind, ?_⟩⟩
  refine bind_eq_ok.mpr ⟨(e.id, e.commitment), Halt.ofPanic_eq_ok.mpr ?_, ?_⟩
  · rw [Generator.index, he.row]
  refine bind_eq_ok.mpr ⟨_, Halt.ofPanic_eq_ok.mpr hlevels,
    bind_eq_ok.mpr ⟨_, Halt.ofPanic_eq_ok.mpr hpath,
    bind_eq_ok.mpr ⟨_, Halt.ofPanic_eq_ok.mpr (Schema.frHex_of_lt hvalid.id),
    bind_eq_ok.mpr ⟨_, Halt.ofPanic_eq_ok.mpr (Schema.frHex_of_lt hvalid.commitment), ?_⟩⟩⟩⟩
  refine bind_eq_ok.mpr ⟨BitVec.ofNat 64 e.position,
    orRefuse_eq_ok.mpr (if_pos hvalid.position), ?_⟩
  rw [answerText, answerValue, List.map_map]
  rfl

/-- **The search finds exactly the customers of the tree.** -/
theorem answer_eq_ok (h : WellFormed poseidon2 tree) {request : AnswerRequest} {out : String} :
    answer serde tree request = .ok out ↔
      tree.binding = request.binding ∧
        ∃ e, IsPlace poseidon2 tree e ∧ e.id = request.identifier ∧ out = answerText serde e := by
  constructor
  · intro hanswer
    have hall := hanswer
    unfold answer at hall
    obtain ⟨_, hbinding, hall⟩ := bind_eq_ok.mp hall
    obtain ⟨i, hi, -⟩ := bind_eq_ok.mp hall
    have hbinding := require_eq_ok.mp hbinding
    have hi := orRefuse_eq_ok.mp hi
    rw [List.findIdx?_eq_some_iff_getElem] at hi
    obtain ⟨hlt, hid, -⟩ := hi
    have hmem : request.identifier ∈ tree.identifiers := by
      rw [← of_decide_eq_true hid, RetainedTree.identifiers]
      exact List.mem_map_of_mem (List.getElem_mem hlt)
    obtain ⟨e, he, hid⟩ := (@mem_identifiers poseidon2 tree _).mp hmem
    have hwritten := @answer_of_isPlace serde poseidon2 tree h e he
    rw [hid, hbinding] at hwritten
    exact ⟨hbinding, e, he, hid, (Except.ok.inj (hwritten.symm.trans hanswer)).symm⟩
  · rintro ⟨hbinding, e, he, hid, rfl⟩
    have hrequest : request = ⟨tree.binding, e.id⟩ := by
      rw [hbinding, hid]
    rw [hrequest]
    exact answer_of_isPlace h he

/-! ## The text of an answer -/

/-- The members of an answer, in the order of its text. -/
def answerMembers (e : Sdk.InclusionEvidence) : List (String × JsonText.Json) :=
  [("commitment", .string (JsonText.Text.ofString (hexText (BitVec.ofNat 256 e.commitment)))),
    ("id", .string (JsonText.Text.ofString (hexText (BitVec.ofNat 256 e.id)))),
    ("path", .array (e.path.map fun s =>
      .string (JsonText.Text.ofString (hexText (BitVec.ofNat 256 s))))),
    ("position", .number (JsonText.natural e.position))]

theorem toElements_strings (l : List String) :
    toElements (l.map .string) = some (l.map fun s => .string (JsonText.Text.ofString s)) := by
  induction l with
  | nil => rfl
  | cons s l ih => simp only [List.map_cons, toElements, toJson, ih, Option.bind_eq_bind,
      Option.bind_some, pure]

theorem answerValue_eq (e : Sdk.InclusionEvidence) :
    answerValue e = .object
      [("commitment", .string (hexText (BitVec.ofNat 256 e.commitment))),
        ("id", .string (hexText (BitVec.ofNat 256 e.id))),
        ("path", .array (e.path.map fun s => .string (hexText (BitVec.ofNat 256 s)))),
        ("position", .number (.posInt (BitVec.ofNat 64 e.position)))] := by
  simp [answerValue, jsonObject, Value.insert, show "commitment" < "id" by decide,
    show ¬ "position" < "commitment" by decide,
    show ¬ "position" < "id" by decide, show ¬ "path" < "commitment" by decide,
    show ¬ "path" < "id" by decide, show "path" < "position" by decide]

theorem toJson_answerValue {e : Sdk.InclusionEvidence} (h : e.position < 2 ^ 32) :
    toJson (answerValue e) = some (JsonText.objectOf (answerMembers e)) := by
  have hposition : (BitVec.ofNat 64 e.position).toNat = e.position := by
    rw [BitVec.toNat_ofNat, Nat.mod_eq_of_lt (by omega)]
  have hpath : toElements (e.path.map fun s => Value.string (hexText (BitVec.ofNat 256 s))) = _ :=
    List.map_map ▸ toElements_strings (e.path.map fun s => hexText (BitVec.ofNat 256 s))
  rw [answerValue_eq]
  simp only [toJson, toMembers, hpath, hposition, Option.map_some, Option.bind_eq_bind,
    Option.bind_some, pure, List.map_map]
  rfl

theorem answerKeys_nodup (e : Sdk.InclusionEvidence) : ((answerMembers e).map Prod.fst).Nodup := by
  change ["commitment", "id", "path", "position"].Nodup
  decide

/-- The keys of an answer, in any order, are those that the SDK asks for. -/
theorem answerKeys_sorted :
    Sdk.sortedKeys (["commitment", "id", "path", "position"].map JsonText.Text.ofString) =
      Sdk.codeUnits (JsonText.Text.ofString Sdk.EVIDENCE_KEYS) := by
  decide +kernel

theorem forall₂_isHex {path : List Nat} (h : ∀ sibling ∈ path, sibling < frModulus) :
    List.Forall₂ Sdk.IsHex (path.map fun s =>
      .string (JsonText.Text.ofString (hexText (BitVec.ofNat 256 s)))) path := by
  induction path with
  | nil => exact .nil
  | cons sibling path ih =>
    rw [List.forall_mem_cons] at h
    exact .cons ⟨rfl, h.1⟩ (ih h.2)

/-- **The SDK reads the evidence of an answer.** -/
theorem parseInclusionEvidence_answerText (hserde : Documented serde) {e : Sdk.InclusionEvidence}
    (h : e.Valid) : Sdk.parseInclusionEvidence (answerText serde e) = .ok e := by
  have hparse : JavaScript.parse (answerText serde e) =
      some (JavaScript.ofJson (JsonText.objectOf (answerMembers e))) := by
    rw [JavaScript.parse, answerText,
      JsonText.parse_append_newline (hserde.pretty (toJson_answerValue h.position)),
      Option.map_some]
  have hlist : ((answerMembers e).map fun member =>
      (JsonText.Text.ofString member.1, member.2)).map Prod.fst =
        ["commitment", "id", "path", "position"].map JsonText.Text.ofString := by
    simp only [answerMembers, List.map_cons, List.map_nil]
  have hnodup : (((answerMembers e).map fun member =>
      (JsonText.Text.ofString member.1, member.2)).map Prod.fst).Nodup := by
    rw [hlist]
    exact (answerKeys_nodup e).map JsonText.Text.ofString_injective
  have hkeys := Sdk.perm_ofMembers [] hnodup fun _ _ => List.not_mem_nil
  rw [hlist, List.map_nil, List.append_nil] at hkeys
  obtain ⟨hmember, -, -⟩ := JavaScript.property_ofMembers [] (answerKeys_nodup e)
  refine Sdk.parseInclusionEvidence_eq_ok.mpr ⟨_, by rw [hparse, JsonText.objectOf,
    JavaScript.ofJson], ?_⟩
  simp only [answerMembers, List.forall_mem_cons] at hmember
  obtain ⟨hcommitment, hid, hpath, hposition, -⟩ := hmember
  rw [JavaScript.ofJson, JavaScript.ofElements_eq_map, List.map_map] at hpath
  exact {
    keys := (Sdk.sortedKeys_perm hkeys).trans answerKeys_sorted
    id := ⟨_, hid, rfl, h.id⟩
    idNonzero := h.idNonzero
    commitment := ⟨_, hcommitment, rfl, h.commitment⟩
    path := ⟨_, hpath, forall₂_isHex h.path⟩
    position := ⟨⟨_, hposition, JavaScript.toDouble_natural (by have := h.position; omega)⟩,
      h.position⟩ }

/-! ## The place of an answer -/

/-- **The path of a place walks to the root of the tree**, in the tools and in the SDK. -/
theorem WellFormed.walks (h : WellFormed poseidon2 tree) {e : Sdk.InclusionEvidence}
    (he : IsPlace poseidon2 tree e) :
    let path := MerkleTree.path (nodeHash poseidon2) (tree.leaf poseidon2)
      tree.binding.treeDepth.toNat e.position
    let leaf := leafHash poseidon2 (BitVec.ofNat 256 e.id) (BitVec.ofNat 256 e.commitment)
    Package.rootFromPath poseidon2 leaf (BitVec.ofNat 64 e.position) path
        tree.binding.treeDepth.toNat = .ok (BitVec.ofNat 256 tree.binding.root) ∧
      Sdk.rootFromPath poseidon2 leaf.toNat e.position e.path tree.binding.treeDepth.toNat =
        .ok tree.binding.root := by
  intro path leaf
  have hlt := h.position_lt he
  have hleaf : leaf = tree.leaf poseidon2 e.position := by
    rw [Tree.leaf, leafAt, List.getD_eq_getElem?_getD, List.getElem?_map, he.row]
    rfl
  have hwalk : MerkleTree.walk (nodeHash poseidon2) leaf e.position path =
      MerkleTree.root (nodeHash poseidon2) (tree.leaf poseidon2) tree.binding.treeDepth.toNat := by
    rw [hleaf]
    exact MerkleTree.walk_path _ hlt
  have hposition : (BitVec.ofNat 64 e.position).toNat = e.position := by
    have := (h.place_valid he).position
    rw [BitVec.toNat_ofNat, Nat.mod_eq_of_lt (by omega)]
  have hroot : tree.binding.root = (MerkleTree.root (nodeHash poseidon2) (tree.leaf poseidon2)
      tree.binding.treeDepth.toNat).toNat := h.root
  constructor
  · refine Package.rootFromPath_eq_ok.mpr ⟨MerkleTree.length_path _ _ _, by have := h.depthLe; omega,
      by rwa [hposition], ?_⟩
    rw [hposition, hwalk, hroot, BitVec.ofNat_toNat, BitVec.setWidth_eq]
  · rw [he.path]
    refine (Sdk.rootFromPath_eq_ok (frInRange_leafHash _ _)
      (frInRange_pathFrom (fun i => frInRange_leaf i) _ _ _)).mpr
      ⟨h.depthPos, MerkleTree.length_path _ _ _, hlt, ?_⟩
    rw [hroot]
    exact congrArg BitVec.toNat hwalk

end Trees

end ZkPoR.Retained
