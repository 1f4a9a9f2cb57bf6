import ZkPoR.GenerationFiles

/-! # The record of one generation

The record that a run writes is the redacted tree that the reader of `retained.rs` takes
(`parseTree_record`): the customers stand in front in row order, the levels are those of the
leaves, and the root is the attested one.
-/
namespace ZkPoR.Generation
open CheckedInt BoundedLoop SerdeJson Package Generator EffectLog Circuit

/-! ## Objects of `json!` -/

theorem hasExactKeys_jsonObject {members : List (String × Value)}
    (hnodup : (members.map Prod.fst).Nodup) :
    Retained.HasExactKeys (jsonObject members) (members.map Prod.fst) := by
  obtain ⟨out, hout, -, hlength, -, hget⟩ := jsonObject_spec hnodup
  refine ⟨out, hout, by rw [hlength, List.length_map], fun key hkey => ?_⟩
  obtain ⟨member, hmember, rfl⟩ := List.mem_map.mp hkey
  rw [hget member hmember]
  rfl

/-- The members of one leaf. -/
def leafMembers (leaf : Nat × Nat) : List (String × Value) :=
  [("id", .string (hexText (BitVec.ofNat 256 leaf.1))),
    ("commitment", .string (hexText (BitVec.ofNat 256 leaf.2)))]

def leafOfPair (leaf : Nat × Nat) : Value := jsonObject (leafMembers leaf)

theorem leafKeys_nodup (leaf : Nat × Nat) : ((leafMembers leaf).map Prod.fst).Nodup := by
  change Retained.LEAF_FIELDS.Nodup
  decide

theorem leafValue_eq {leaf : Nat × Nat} (hid : leaf.1 < frModulus) (hcommitment : leaf.2 < frModulus) :
    leafValue leaf = .ok (leafOfPair leaf) := by
  simp only [leafValue, Schema.frHex_of_lt hid, Schema.frHex_of_lt hcommitment, bind, Except.bind,
    pure, Except.pure]
  rfl

theorem isLeaf_leafOfPair {leaf : Nat × Nat} (hid : leaf.1 < frModulus)
    (hcommitment : leaf.2 < frModulus) : Retained.IsLeaf (leafOfPair leaf) leaf where
  keys := hasExactKeys_jsonObject (leafKeys_nodup leaf)
  id := ⟨index_jsonObject (leafKeys_nodup leaf) List.mem_cons_self, hid⟩
  commitment := ⟨index_jsonObject (leafKeys_nodup leaf)
    (List.mem_cons_of_mem _ List.mem_cons_self), hcommitment⟩

theorem written_leafOfPair (leaf : Nat × Nat) (depth : Nat) : Written (depth + 1) (leafOfPair leaf) := by
  refine written_jsonObject (leafKeys_nodup leaf) ?_
  simp only [leafMembers, List.forall_mem_cons]
  exact ⟨trivial, trivial, fun _ h => absurd h List.not_mem_nil⟩

/-! ## The value of a tree -/

/-- The members of a record. -/
def recordMembers (tree : RetainedTree) (transactionHash : String) : List (String × Value) :=
  [("format", .string Retained.RETAINED_TREE_FORMAT), ("network", .string tree.binding.network),
    ("registry", .string tree.binding.registry), ("asset", .string tree.binding.asset),
    ("attestation_id", .string (decimalText tree.binding.attestationId.toNat)),
    ("snapshot_ledger", .number (.posInt (tree.binding.snapshotLedger.setWidth 64))),
    ("context_hash", .string (hexText (BitVec.ofNat 256 tree.binding.contextHash))),
    ("root", .string (hexText (BitVec.ofNat 256 tree.binding.root))),
    ("tree_depth", .number (.posInt (tree.binding.treeDepth.setWidth 64))),
    ("count", .number (.posInt (BitVec.ofNat 64 tree.count))),
    ("transaction_hash", .string transactionHash), ("leaves", .array (tree.entries.map leafOfPair))]

/-- The text of a record. -/
def recordText (serde : SerdeJson) (tree : RetainedTree) (transactionHash : String) : String :=
  serde.toStringPretty (jsonObject (recordMembers tree transactionHash)) ++ "\n"

theorem recordKeys (tree : RetainedTree) (transactionHash : String) :
    (recordMembers tree transactionHash).map Prod.fst = Retained.TREE_FIELDS := rfl

theorem recordKeys_nodup (tree : RetainedTree) (transactionHash : String) :
    ((recordMembers tree transactionHash).map Prod.fst).Nodup := by
  rw [recordKeys]
  decide

theorem written_record (tree : RetainedTree) (transactionHash : String) :
    Written RECURSION_LIMIT (jsonObject (recordMembers tree transactionHash)) := by
  refine written_jsonObject (recordKeys_nodup _ _) ?_
  have hleaves : Written 126 (.array (tree.entries.map leafOfPair)) := by
    refine ⟨by norm_num, writtenElements_iff.mpr fun v hv => ?_⟩
    obtain ⟨leaf, -, rfl⟩ := List.mem_map.mp hv
    exact written_leafOfPair leaf 124
  simp only [recordMembers, List.forall_mem_cons]
  exact ⟨trivial, trivial, trivial, trivial, trivial, trivial, trivial, trivial, trivial, trivial,
    trivial, hleaves, fun _ h => absurd h List.not_mem_nil⟩

/-- The fields of a binding that a record can carry. -/
structure Bound (b : TreeBinding) : Prop where
  network : b.network ≠ ""
  registry : b.registry ≠ ""
  asset : b.asset ≠ ""
  attestationId : b.attestationId ≠ 0
  contextHash : b.contextHash < frModulus
  root : b.root < frModulus

theorem isTree_record {tree : Retained.Tree} {transactionHash : String} (hbound : Bound tree.binding)
    (hcanonical : ∀ leaf ∈ tree.entries, leaf.1 < frModulus ∧ leaf.2 < frModulus)
    (hhash : transactionHash ≠ "") :
    Retained.IsTree (jsonObject (recordMembers tree.toRetainedTree transactionHash)) tree := by
  have hindex : ∀ {key : String} {v : Value},
      (key, v) ∈ recordMembers tree.toRetainedTree transactionHash →
      (jsonObject (recordMembers tree.toRetainedTree transactionHash)).index key = v :=
    fun h => index_jsonObject (recordKeys_nodup _ _) h
  have hleaves : List.Forall₂ Retained.IsLeaf (tree.entries.map leafOfPair) tree.entries := by
    rw [List.forall₂_map_left_iff, List.forall₂_same]
    exact fun leaf hleaf => isLeaf_leafOfPair (hcanonical leaf hleaf).1 (hcanonical leaf hleaf).2
  exact {
    keys := recordKeys tree.toRetainedTree transactionHash ▸
      hasExactKeys_jsonObject (recordKeys_nodup _ _)
    format := hindex (by simp [recordMembers])
    binding := {
      network := ⟨hindex (by simp [recordMembers]), hbound.network⟩
      registry := ⟨hindex (by simp [recordMembers]), hbound.registry⟩
      asset := ⟨hindex (by simp [recordMembers]), hbound.asset⟩
      attestationId := hindex (by simp [recordMembers])
      attestationPos := hbound.attestationId
      snapshotLedger := hindex (by simp [recordMembers])
      contextHash := ⟨hindex (by simp [recordMembers]), hbound.contextHash⟩
      root := ⟨hindex (by simp [recordMembers]), hbound.root⟩
      treeDepth := hindex (by simp [recordMembers]) }
    leaves := ⟨_, hindex (by simp [recordMembers]), hleaves⟩
    transactionHash := ⟨transactionHash, hindex (by simp [recordMembers]), hhash⟩
    count := hindex (by simp [recordMembers]) }

/-- **A tree comes back from its record.** -/
theorem parseTree_recordText {serde : SerdeJson} (hserde : Documented serde)
    {poseidon2 : List Fr → Fr} {tree : Retained.Tree} (hwf : Retained.WellFormed poseidon2 tree)
    (hbound : Bound tree.binding) {transactionHash : String} (hhash : transactionHash ≠ "") :
    Retained.parseTree serde poseidon2 (recordText serde tree.toRetainedTree transactionHash) =
      .ok tree :=
  Retained.parseTree_eq_ok.mpr ⟨_, fromStr_toStringPretty hserde (written_record _ _),
    isTree_record hbound hwf.canonical hhash, hwf⟩

/-! ## Customers in front -/

section Front
variable {leaves : List (Nat × Nat)} {ids : List Nat} {k : Nat}
  (hids : leaves.map Prod.fst = ids ++ List.replicate k ZkPoR.PADDING_LEAF_ID)
  (hne : ∀ id ∈ ids, id ≠ ZkPoR.PADDING_LEAF_ID)
include hids hne

theorem customersOf_front : Retained.customersOf leaves = ids := by
  rw [Retained.customersOf, hids, List.filter_append, List.filter_replicate_of_neg (by simp),
    List.append_nil, List.filter_eq_self]
  exact fun id hid => decide_eq_true (hne id hid)

theorem redacted_front (hnodup : ids.Nodup) : Retained.Redacted leaves where
  nodup := by rwa [customersOf_front hids hne]
  front := by
    have hpairs : (ids ++ List.replicate k ZkPoR.PADDING_LEAF_ID).Pairwise fun a b =>
        a = ZkPoR.PADDING_LEAF_ID → b = ZkPoR.PADDING_LEAF_ID := by
      rw [List.pairwise_append]
      refine ⟨?_, ?_, fun _ _ b hb _ => List.eq_of_mem_replicate hb⟩
      · refine List.Pairwise.imp_of_mem ?_ (List.pairwise_of_forall fun _ _ => trivial)
        exact fun ha _ _ hzero => absurd hzero (hne _ ha)
      · rw [List.pairwise_replicate]
        exact .inr fun h => h
    rw [← hids, List.pairwise_map] at hpairs
    exact hpairs

end Front

theorem ids_nodup (customers : CustomerEntries) :
    (customers.entries.map CustomerEntry.id).Nodup := by
  have hids : customers.list.rows.map Prod.fst = customers.entries.map CustomerEntry.id :=
    List.map_map
  rw [← hids]
  exact (assertIdentifierRules_eq_ok.mp customers.accepted).2

section Shape
variable {primitives : Identity.Primitives} {parseBigUint : BigUintParser} {serde : SerdeJson}
  {poseidon2 : List Fr → Fr} {shape : Shape} {context : AttestationContext}
  {masterSecret : U256} {request : GenerationRequest} {p : Plan}

/-- The leaves of a plan, as identifiers and commitments. -/
def Plan.leafPairs (p : Plan) : List (Nat × Nat) := (p.rows.map Prod.fst).zip p.tree.commitments

/-- The tree that the record of a run writes. -/
def recordTree (poseidon2 : List Fr → Fr) (context : AttestationContext)
    (request : GenerationRequest) (p : Plan) : Retained.Tree where
  binding := {
    network := request.network
    registry := p.generation.registry
    asset := context.asset
    attestationId := request.attested.id
    snapshotLedger := request.attested.snapshotLedger
    contextHash := request.attested.context
    root := request.attested.root
    treeDepth := BitVec.ofNat 32 p.generation.treeDepth }
  entries := p.leafPairs
  count := p.customers.entries.length
  levels := treeLevels poseidon2 p.tree.leaves

variable (h : Gates primitives parseBigUint serde poseidon2 (configOf shape) context masterSecret
  request p)
include h

theorem Gates.leafPairs_eq : p.leafPairs = (List.range shape.capacity).map fun i =>
    ((rowAt p.customers.list i).1,
      toBig (commitmentAt poseidon2 masterSecret context.hash p.customers.list i)) := by
  rw [Plan.leafPairs, h.rows_eq, h.tree_eq, List.map_map, List.zip_map']
  rfl

theorem Gates.canonical : ∀ leaf ∈ p.leafPairs, leaf.1 < frModulus ∧ leaf.2 < frModulus := by
  rw [h.leafPairs_eq]
  intro leaf hleaf
  obtain ⟨i, -, rfl⟩ := List.mem_map.mp hleaf
  exact ⟨rowAt_lt _ i, frInRange_commitmentAt i⟩

/-- **The text of the record.** -/
theorem generationJson_eq (hdepth : shape.depth ≤ 32) :
    generationJson serde request p.generation.registry context.asset p.customers.list.rows.length
        (toBig context.hash) p.rows p.tree.commitments =
      .ok (recordText serde (recordTree poseidon2 context request p).toRetainedTree
        request.attested.transactionHash) := by
  have hlength : p.rows.length = p.tree.commitments.length := by
    rw [h.rows_eq, h.tree_eq]
    simp
  have hzeros : trailingZeros p.rows.length = shape.depth := by
    rw [h.rows_eq, List.length_map, List.length_range, trailingZeros_capacity]
  have hwide : BitVec.ofNat 64 shape.depth = (BitVec.ofNat 32 p.generation.treeDepth).setWidth 64 := by
    rw [h.depth_eq]
    refine BitVec.eq_of_toNat_eq ?_
    rw [BitVec.toNat_setWidth, BitVec.toNat_ofNat, BitVec.toNat_ofNat]
    omega
  have hleaves : ((p.rows.map Prod.fst).zip p.tree.commitments).mapM leafValue =
      .ok (p.leafPairs.map leafOfPair) :=
    mapM_eq_ok fun leaf hleaf => leafValue_eq (h.canonical leaf hleaf).1 (h.canonical leaf hleaf).2
  unfold generationJson
  refine bind_eq_ok.mpr ⟨(), assertThat_eq_ok.mpr hlength, bind_eq_ok.mpr ⟨_, hleaves,
    bind_eq_ok.mpr ⟨_, Schema.frHex_of_lt (h.contextHash ▸ request.attested.context_lt),
    bind_eq_ok.mpr ⟨_, Schema.frHex_of_lt request.attested.root_lt, ?_⟩⟩⟩⟩
  rw [hzeros, hwide, h.contextHash, length_list]
  rfl

/-- The identifiers of the leaves: the customers in row order, and padding. -/
theorem Gates.fst_leafPairs : p.leafPairs.map Prod.fst = p.customers.entries.map CustomerEntry.id ++
    List.replicate (shape.capacity - p.customers.list.rows.length) ZkPoR.PADDING_LEAF_ID := by
  have hids : p.customers.list.rows.map Prod.fst = p.customers.entries.map CustomerEntry.id :=
    List.map_map
  obtain ⟨padded, hpadded, hrows, -⟩ := padToCapacity_of_le h.length_le
  obtain rfl : p.rows = padded := Except.ok.inj (h.rows.symm.trans hpadded)
  rw [Plan.leafPairs, List.map_fst_zip (by rw [List.length_map, h.rows_eq, h.tree_eq]; simp), hrows,
    List.map_append, List.map_replicate, hids]
  rfl

theorem Gates.ids_ne : ∀ id ∈ p.customers.entries.map CustomerEntry.id,
    id ≠ ZkPoR.PADDING_LEAF_ID := by
  intro id hid
  obtain ⟨entry, hentry, rfl⟩ := List.mem_map.mp hid
  obtain ⟨i, hi⟩ := List.mem_iff_getElem?.mp hentry
  exact (h.entry_lt hi).2.1

/-- **The record of a run is a well-formed tree.** -/
theorem wellFormed_recordTree (hpos : 0 < shape.depth) (hdepth : shape.depth ≤ 32) :
    Retained.WellFormed poseidon2 (recordTree poseidon2 context request p) := by
  have htreeDepth : (recordTree poseidon2 context request p).binding.treeDepth.toNat = shape.depth := by
    change (BitVec.ofNat 32 p.generation.treeDepth).toNat = _
    rw [h.depth_eq, BitVec.toNat_ofNat, Nat.mod_eq_of_lt (by omega)]
  have hlength : p.leafPairs.length = 2 ^ shape.depth := by
    rw [h.leafPairs_eq, List.length_map, List.length_range, Shape.capacity_eq]
  have hhashes : p.leafPairs.map (Retained.hashOf poseidon2) = p.tree.leaves := by
    rw [h.leafPairs_eq, h.tree_eq, List.map_map]
    refine List.map_congr_left fun i _ => ?_
    rw [hashOf_eq_leafHash, Function.comp_apply, Retained.hashOf, toBig, BitVec.ofNat_toNat,
      BitVec.setWidth_eq]
  exact {
    depthPos := htreeDepth ▸ hpos
    depthLe := htreeDepth ▸ hdepth
    length := htreeDepth ▸ hlength
    canonical := h.canonical
    redacted := redacted_front h.fst_leafPairs h.ids_ne (ids_nodup p.customers)
    count := by
      change _ = (Retained.customersOf p.leafPairs).length
      rw [customersOf_front h.fst_leafPairs h.ids_ne, List.length_map]
      rfl
    levels := by
      change treeLevels poseidon2 p.tree.leaves = treeLevels poseidon2 (p.leafPairs.map _)
      rw [hhashes]
    root := by
      rw [htreeDepth]
      change request.attested.root = (MerkleTree.root (nodeHash poseidon2)
        (leafAt (p.leafPairs.map (Retained.hashOf poseidon2))) shape.depth).toNat
      rw [hhashes, h.root_eq, h.tree_eq] }

end Shape

end ZkPoR.Generation
