import ZkPoR.GenerationRun
import ZkPoR.PackageText
import ZkPoR.RetainedAnswers

/-! # The files of one generation

Every operation of a run lies behind the gates (`Gates`).  Behind them the tree is the one
of the padded rows, so each customer row has a package (`packageFor`) whose path walks to
the attested root, and a run that ends leaves exactly these packages and the record.
-/
namespace ZkPoR.Generation
open CheckedInt BoundedLoop SerdeJson Package Generator EffectLog Circuit
open Schema (IdentifierRule)

theorem orPanic_eq_ok {α : Type} {x : Option α} {message : String} {a : α} :
    Generator.orPanic x message = .ok a ↔ x = some a := by
  cases x <;> simp [Generator.orPanic]

theorem assertThat_eq_ok {p : Prop} [Decidable p] {message : String} {u : Unit} :
    Generator.assertThat p message = .ok u ↔ p := by
  unfold Generator.assertThat
  split <;> simp_all

section Gates
variable {primitives : Identity.Primitives} {parseBigUint : BigUintParser} {serde : SerdeJson}
  {poseidon2 : List Fr → Fr}

/-- **What the gates compare.** -/
structure Gates (primitives : Identity.Primitives) (parseBigUint : BigUintParser)
    (serde : SerdeJson) (poseidon2 : List Fr → Fr) (config : Config)
    (attested : AttestationContext) (masterSecret : U256) (request : GenerationRequest)
    (p : Plan) : Prop where
  generation : ∃ text, request.deploymentsFile = some text ∧
    Deployments.find serde text request.network request.registry = .ok (some p.generation)
  depth : p.generation.treeDepth = trailingZeros config.capacity
  snapshot : attested.snapshotLedger = request.attested.snapshotLedger
  contextHash : toBig attested.hash = request.attested.context
  customers : ∃ text, request.customersFile = some text ∧
    readCustomerEntries primitives parseBigUint text.toList = .ok p.customers.entries
  prior : checkPriorFile serde poseidon2 request p.generation.registry attested.asset
    p.customers.list.rows config.capacity = .ok ()
  rows : padToCapacity p.customers.list.rows config.capacity = .ok p.rows
  tree : packageTree poseidon2 config attested.hash masterSecret p.customers.list = .ok p.tree
  root : p.tree.root = request.attested.root
  network : request.network ≠ "" ∧
    request.network.toList.all (fun c => c.isAlphanum || c == '-') = true

theorem readEntries_eq_ok {text : List Char} {customers : CustomerEntries} :
    readEntries primitives parseBigUint text = .ok customers ↔
      readCustomerEntries primitives parseBigUint text = .ok customers.entries := by
  unfold readEntries
  constructor
  · intro h
    split at h
    · cases h
    rename_i entries hentries
    split at h
    · cases h
      exact hentries
    · cases h
  · intro h
    rw [h]
    simp only [customers.accepted, dif_pos]

theorem findGeneration_eq_ok {request : GenerationRequest} {generation : Deployments.Generation} :
    findGeneration serde request = .ok generation ↔
      ∃ text, request.deploymentsFile = some text ∧
        Deployments.find serde text request.network request.registry = .ok (some generation) := by
  simp only [findGeneration, bind_eq_ok, orPanic_eq_ok, Schema.mapError_eq_ok, exists_eq_right]

/-- **The gates.** -/
theorem plan_eq_ok {config : Config} {context : AttestationContext} {masterSecret : U256}
    {request : GenerationRequest} {p : Plan} :
    plan primitives parseBigUint serde poseidon2 config context masterSecret request = .ok p ↔
      Gates primitives parseBigUint serde poseidon2 config context masterSecret request p := by
  simp only [plan, bind_eq_ok, findGeneration_eq_ok, assertThat_eq_ok, orPanic_eq_ok,
    readEntries_eq_ok]
  constructor
  · rintro ⟨generation, hgeneration, _, hdepth, _, hsnapshot, _, hcontext, text, htext, customers,
      hcustomers, _, hprior, rows, hrows, tree, htree, _, hroot, _, hnetwork, hout⟩
    cases hout
    exact ⟨hgeneration, hdepth, hsnapshot, hcontext, ⟨text, htext, hcustomers⟩, hprior, hrows,
      htree, hroot, hnetwork⟩
  · intro h
    obtain ⟨text, htext, hcustomers⟩ := h.customers
    exact ⟨p.generation, h.generation, (), h.depth, (), h.snapshot, (), h.contextHash, text, htext,
      p.customers, hcustomers, (), h.prior, p.rows, h.rows, p.tree, h.tree, (), h.root, (),
      h.network, rfl⟩

end Gates

/-! ## The tree of the rows -/

section Tree
variable {poseidon2 : List Fr → Fr} {masterSecret context : U256} {customers : CustomerList}

/-- The commitment of one position. -/
def commitmentAt (poseidon2 : List Fr → Fr) (masterSecret context : U256)
    (customers : CustomerList) (i : Nat) : U256 :=
  commitmentOfRow poseidon2 (rowAt customers i) (saltOf poseidon2 masterSecret context i)

theorem frInRange_commitmentAt (i : Nat) :
    frInRange (commitmentAt poseidon2 masterSecret context customers i) := frInRange_hash _ _

theorem frInRange_saltOf (i : Nat) : frInRange (saltOf poseidon2 masterSecret context i) :=
  frInRange_hash _ _

/-- A leaf of the tools is that of its identifier and its commitment. -/
theorem hashOf_eq_leafHash (i : Nat) :
    Generator.hashOf poseidon2 masterSecret context customers i =
      ZkPoR.leafHash poseidon2 (BitVec.ofNat 256 (rowAt customers i).1)
        (commitmentAt poseidon2 masterSecret context customers i) := by
  have h := @leafOfRow_rowAt poseidon2 masterSecret context customers i
  unfold leafOfRow at h
  rw [Schema.toFr_eq_ok (rowAt_lt customers i)] at h
  exact (congrArg Prod.snd (Except.ok.inj h)).symm

/-- **What the packages command builds.** -/
theorem packageTree_of_length {shape : Shape} (h : customers.rows.length ≤ shape.capacity) :
    packageTree poseidon2 (configOf shape) context masterSecret customers = .ok
      { salts := (List.range customers.rows.length).map fun i =>
          toBig (saltOf poseidon2 masterSecret context i)
        commitments := (List.range shape.capacity).map fun i =>
          toBig (commitmentAt poseidon2 masterSecret context customers i)
        leaves := treeLeaves poseidon2 masterSecret context customers shape
        root := (treeRoot poseidon2 masterSecret context customers shape).val } := by
  have hleaves : ((List.range shape.capacity).map fun i => (saltOf poseidon2 masterSecret context i,
      Generator.hashOf poseidon2 masterSecret context customers i)).map Prod.snd =
        treeLeaves poseidon2 masterSecret context customers shape := by
    rw [List.map_map]
    rfl
  unfold packageTree
  simp only [configOf, padToCapacity_eq_ok.mpr ⟨h, rfl⟩, bind, Except.bind, pure, Except.pure,
    leavesOfRows_eq, hleaves, foldedRoot_treeLeaves, toBig_ofFr, Except.ok.injEq,
    BuiltTree.mk.injEq, and_true, List.zip_map', List.map_map]
  refine ⟨?_, rfl⟩
  rw [← List.map_take, List.take_range, min_eq_left h, List.map_map]
  rfl

/-- A capacity that wrapped to zero has no tree. -/
theorem packageTree_capacity_zero {config : Config} (hzero : config.capacity = 0) {tree : BuiltTree} :
    packageTree poseidon2 config context masterSecret customers ≠ .ok tree := by
  intro h
  unfold packageTree at h
  obtain ⟨rows, hrows, h⟩ := bind_eq_ok.mp h
  obtain ⟨-, rfl⟩ := padToCapacity_eq_ok.mp hrows
  rw [hzero] at h
  obtain ⟨salted, hsalted, h⟩ := bind_eq_ok.mp h
  cases hsalted
  obtain ⟨root, hroot, -⟩ := bind_eq_ok.mp h
  have hchunks : chunks config.b ([] : List U256) = [] := by
    rw [chunks, if_neg (by simp)]
  have hfold : foldDown poseidon2 [] = [] := by
    rw [foldDown, if_neg (by simp)]
  rw [List.reverse_nil, List.map_nil, foldedRoot, hchunks] at hroot
  obtain ⟨subroots, hsubroots, hroot⟩ := bind_eq_ok.mp hroot
  cases hsubroots
  rw [Package.subtreeRoot, List.reverse_nil, hfold] at hroot
  cases hroot

end Tree

section Plans
variable {primitives : Identity.Primitives} {parseBigUint : BigUintParser} {serde : SerdeJson}
  {poseidon2 : List Fr → Fr} {config : Config} {context : AttestationContext}
  {masterSecret : U256} {request : GenerationRequest} {p : Plan}

/-- Behind the gates the configuration is that of a shape, and the customers fit. -/
theorem Gates.exists_shape
    (h : Gates primitives parseBigUint serde poseidon2 config context masterSecret request p)
    {batchB numBatchesK nodeHashArity : U64}
    (hconfig : readShape batchB numBatchesK nodeHashArity = .ok config) :
    ∃ shape : Shape, config = configOf shape ∧ p.customers.list.rows.length ≤ shape.capacity := by
  obtain ⟨shape, rfl⟩ | ⟨-, hzero⟩ := config_of_readShape hconfig
  · exact ⟨shape, rfl, (padToCapacity_eq_ok.mp h.rows).1⟩
  · exact absurd h.tree (packageTree_capacity_zero hzero)

end Plans

/-! ## The package of one row -/

section Packages
variable (poseidon2 : List Fr → Fr) (context : AttestationContext) (masterSecret : U256)
  (request : GenerationRequest) (registry : String) (leaves : List U256) (depth : Nat)

/-- The package of one customer. -/
def packageFor (entry : CustomerEntry) (i : Nat) : Schema.Package where
  identifierRule := entry.identifierRule
  network := request.network
  registry := registry
  asset := context.asset
  snapshotLedger := context.snapshotLedger
  contextHash := toBig context.hash
  attestationId := request.attested.id
  leafIndex := BitVec.ofNat 32 i
  id := entry.id
  commitment := toBig (commitmentOfRow poseidon2 (entry.id, entry.balance)
    (saltOf poseidon2 masterSecret context.hash i))
  balance := entry.balance
  salt := toBig (saltOf poseidon2 masterSecret context.hash i)
  siblings := (MerkleTree.path (nodeHash poseidon2) (leafAt leaves) depth i).map toBig

/-- The text of one package, as the writer answers it. -/
def packageTextFor (serde : SerdeJson) (entry : CustomerEntry) (i : Nat) : String :=
  (Schema.toJson serde (packageFor poseidon2 context masterSecret request registry leaves depth entry
    i)).toOption.getD ""

end Packages

section Shape
variable {primitives : Identity.Primitives} {parseBigUint : BigUintParser} {serde : SerdeJson}
  {poseidon2 : List Fr → Fr} {shape : Shape} {context : AttestationContext}
  {masterSecret : U256} {request : GenerationRequest} {p : Plan}
  (h : Gates primitives parseBigUint serde poseidon2 (configOf shape) context masterSecret request p)

section
include h

theorem Gates.length_le : p.customers.list.rows.length ≤ shape.capacity :=
  (padToCapacity_eq_ok.mp h.rows).1

theorem Gates.rows_eq : p.rows = (List.range shape.capacity).map (rowAt p.customers.list) :=
  (padToCapacity_eq_ok.mp h.rows).2

theorem Gates.tree_eq : p.tree =
    { salts := (List.range p.customers.list.rows.length).map fun i =>
        toBig (saltOf poseidon2 masterSecret context.hash i)
      commitments := (List.range shape.capacity).map fun i =>
        toBig (commitmentAt poseidon2 masterSecret context.hash p.customers.list i)
      leaves := treeLeaves poseidon2 masterSecret context.hash p.customers.list shape
      root := (treeRoot poseidon2 masterSecret context.hash p.customers.list shape).val } :=
  Except.ok.inj (h.tree.symm.trans (packageTree_of_length h.length_le))

theorem Gates.depth_eq : p.generation.treeDepth = shape.depth :=
  h.depth.trans (trailingZeros_capacity shape)

/-- The attested root is that of the leaves. -/
theorem Gates.root_eq : request.attested.root =
    (MerkleTree.root (nodeHash poseidon2)
      (leafAt (treeLeaves poseidon2 masterSecret context.hash p.customers.list shape))
      shape.depth).toNat := by
  rw [← h.root, h.tree_eq]
  change _ = (MerkleTree.root (nodeHash poseidon2)
    (fun i => (treeLeaves poseidon2 masterSecret context.hash p.customers.list shape).getD i 0)
    shape.depth).toNat
  rw [root_treeLeaves, toNat_ofFr]

end

/-- The row of a customer entry. -/
theorem rowAt_of_entry {customers : CustomerEntries} {i : Nat} {entry : CustomerEntry}
    (hentry : customers.entries[i]? = some entry) :
    rowAt customers.list i = (entry.id, entry.balance) := by
  change (List.map _ customers.entries).getD i _ = _
  rw [List.getD_eq_getElem?_getD, List.getElem?_map, hentry]
  rfl

theorem length_list (customers : CustomerEntries) :
    customers.list.rows.length = customers.entries.length := List.length_map _

theorem leafAt_treeLeaves {customers : CustomerList} {contextHash : U256} {i : Nat}
    (hi : i < shape.capacity) :
    leafAt (treeLeaves poseidon2 masterSecret contextHash customers shape) i =
      Generator.hashOf poseidon2 masterSecret contextHash customers i := by
  simp [leafAt, treeLeaves, hi]

include h

theorem packageAt_eq {i : Nat} {entry : CustomerEntry}
    (hentry : p.customers.entries[i]? = some entry) :
    packageAt context request p (treeLevels poseidon2 p.tree.leaves) i
        (toBig (saltOf poseidon2 masterSecret context.hash i)) =
      .ok (packageFor poseidon2 context masterSecret request p.generation.registry p.tree.leaves
        shape.depth entry i) := by
  have hi : i < shape.capacity := by
    have hlt := (List.getElem?_eq_some_iff.mp hentry).1
    rw [← length_list] at hlt
    exact hlt.trans_le h.length_le
  have hpath : pathInLevels (treeLevels poseidon2 p.tree.leaves) i =
      .ok (MerkleTree.path (nodeHash poseidon2) (leafAt p.tree.leaves) shape.depth i) := by
    rw [h.tree_eq]
    exact pathInLevels_eq (length_treeLeaves _ _ _ _ shape) (by rwa [← Shape.capacity_eq])
  have hrow : p.rows[i]? = some (entry.id, entry.balance) := by
    rw [h.rows_eq, List.getElem?_map, List.getElem?_range hi, Option.map_some,
      rowAt_of_entry hentry]
  have hcommitment : p.tree.commitments[i]? = some (toBig (commitmentOfRow poseidon2
      (entry.id, entry.balance) (saltOf poseidon2 masterSecret context.hash i))) := by
    rw [h.tree_eq, List.getElem?_map, List.getElem?_range hi, Option.map_some, commitmentAt,
      rowAt_of_entry hentry]
  simp only [packageAt, hpath, Generator.index, hentry, hrow, hcommitment, bind, Except.bind,
    pure, Except.pure]
  rfl

theorem Gates.entry_lt {i : Nat} {entry : CustomerEntry}
    (hentry : p.customers.entries[i]? = some entry) :
    i < 2 ^ shape.depth ∧ entry.id ≠ ZkPoR.PADDING_LEAF_ID ∧ entry.id < frModulus := by
  have hlt := (List.getElem?_eq_some_iff.mp hentry).1
  rw [← length_list] at hlt
  have hrules := (assertIdentifierRules_eq_ok.mp p.customers.accepted).1 (entry.id, entry.balance)
    (List.mem_map_of_mem (List.mem_of_getElem? hentry))
  exact ⟨Shape.capacity_eq shape ▸ hlt.trans_le h.length_le, hrules⟩

theorem frInRange_treeLeaf (i : Nat) : frInRange (leafAt p.tree.leaves i) := by
  rw [h.tree_eq, leafAt, List.getD_eq_getElem?_getD, treeLeaves, List.getElem?_map]
  cases (List.range shape.capacity)[i]? with
  | none => exact Retained.frInRange_zero
  | some i => exact frInRange_ofFr _

/-- Every field element of the package of a customer is canonical. -/
theorem canonical_packageFor {i : Nat} {entry : CustomerEntry}
    (hentry : p.customers.entries[i]? = some entry) :
    Schema.Canonical (packageFor poseidon2 context masterSecret request p.generation.registry
      p.tree.leaves shape.depth entry i) where
  contextHash := by
    change toBig context.hash < frModulus
    rw [h.contextHash]
    exact request.attested.context_lt
  id := (h.entry_lt hentry).2.2
  commitment := frInRange_hash _ _
  salt := frInRange_saltOf i
  siblings := by
    intro sibling hsibling
    obtain ⟨s, hs, rfl⟩ := List.mem_map.mp hsibling
    exact frInRange_pathFrom (frInRange_treeLeaf h) _ _ _ s hs

/-- **The package of a customer keeps the rules of the format.** -/
theorem valid_packageFor (hregistry : Schema.isContract p.generation.registry = true)
    (hasset : Schema.isContract context.asset = true) {i : Nat} {entry : CustomerEntry}
    (hentry : p.customers.entries[i]? = some entry) :
    Schema.Valid poseidon2 (packageFor poseidon2 context masterSecret request
      p.generation.registry p.tree.leaves shape.depth entry i) := by
  have hcanonical := canonical_packageFor h hentry
  have hsalt : BitVec.ofNat 256 (toBig (saltOf poseidon2 masterSecret context.hash i)) =
      saltOf poseidon2 masterSecret context.hash i := by
    rw [toBig, BitVec.ofNat_toNat, BitVec.setWidth_eq]
  have hopens : toBig (balanceCommitment poseidon2 entry.balance (BitVec.ofNat 256
      (toBig (saltOf poseidon2 masterSecret context.hash i)))) =
        toBig (commitmentOfRow poseidon2 (entry.id, entry.balance)
          (saltOf poseidon2 masterSecret context.hash i)) := by
    rw [hsalt, commitmentOfRow]
  exact {
    registry := hregistry
    asset := hasset
    contextHash := hcanonical.contextHash
    attestationId := request.attested.id_ne
    id := hcanonical.id
    idNonzero := (h.entry_lt hentry).2.1
    commitment := hcanonical.commitment
    salt := hcanonical.salt
    opens := hopens
    siblings := hcanonical.siblings }

/-- The leaf of a customer, and its path to the attested root. -/
theorem walk_packageFor {i : Nat} {entry : CustomerEntry}
    (hentry : p.customers.entries[i]? = some entry) :
    MerkleTree.walk (nodeHash poseidon2)
        (ZkPoR.leafHash poseidon2 (BitVec.ofNat 256 entry.id) (commitmentOfRow poseidon2
          (entry.id, entry.balance) (saltOf poseidon2 masterSecret context.hash i))) i
        (MerkleTree.path (nodeHash poseidon2) (leafAt p.tree.leaves) shape.depth i) =
      BitVec.ofNat 256 request.attested.root := by
  obtain ⟨hi, -⟩ := h.entry_lt hentry
  have hleaf : ZkPoR.leafHash poseidon2 (BitVec.ofNat 256 entry.id) (commitmentOfRow poseidon2
      (entry.id, entry.balance) (saltOf poseidon2 masterSecret context.hash i)) =
        leafAt p.tree.leaves i := by
    rw [h.tree_eq, leafAt_treeLeaves (by rwa [Shape.capacity_eq]), hashOf_eq_leafHash, commitmentAt,
      rowAt_of_entry hentry]
  rw [hleaf, MerkleTree.walk_path _ hi, h.root_eq, BitVec.ofNat_toNat, BitVec.setWidth_eq, h.tree_eq]

/-! ## The customer command on a package -/

/-- A chain that holds the attestation of the request in a registry. -/
structure Holds (chain : InclusionVerify.Chain) (context : AttestationContext)
    (request : GenerationRequest) (registry : String) (attestation : InclusionVerify.Attestation)
    (latestLedger : U32) : Prop where
  attests : chain.attestation registry context.asset request.attested.id =
    .ok (.attested attestation)
  contextHash : attestation.contextHash = request.attested.context
  finalRoot : attestation.finalRoot = request.attested.root
  snapshot : attestation.snapshotLedger = request.attested.snapshotLedger
  latest : chain.latestLedger = .ok latestLedger

/-- **A package that the generator wrote is included.** -/
theorem verify_packageFor (hserde : Documented serde)
    (hregistry : Schema.isContract p.generation.registry = true)
    (hasset : Schema.isContract context.asset = true) (hdepth : shape.depth ≤ 32) {i : Nat}
    {entry : CustomerEntry} (hentry : p.customers.entries[i]? = some entry) {text : String}
    (htext : Schema.toJson serde (packageFor poseidon2 context masterSecret request
      p.generation.registry p.tree.leaves shape.depth entry i) = .ok text)
    {deployments : String} (hdeployments : request.deploymentsFile = some deployments)
    {chain : InclusionVerify.Chain} {attestation : InclusionVerify.Attestation}
    {latestLedger : U32}
    (hchain : Holds chain context request p.generation.registry attestation latestLedger) :
    InclusionVerify.verify primitives serde poseidon2 text deployments chain =
      .ok (.included (InclusionVerify.reportOf (packageFor poseidon2 context masterSecret request
        p.generation.registry p.tree.leaves shape.depth entry i) p.generation attestation
        latestLedger none)) := by
  obtain ⟨hi, -, hid⟩ := h.entry_lt hentry
  have hlt : i < 2 ^ 32 := hi.trans_le (Nat.pow_le_pow_right (by norm_num) hdepth)
  have hindex : (BitVec.ofNat 32 i).toNat = i := by
    rw [BitVec.toNat_ofNat, Nat.mod_eq_of_lt hlt]
  have hvalid := valid_packageFor h hregistry hasset hentry
  obtain ⟨found, hfound, hfind⟩ := h.generation
  rw [hdeployments] at hfound
  cases hfound
  have hregistryName : p.generation.registry = request.registry := by
    obtain ⟨_, -, -, -, hregistry⟩ := Deployments.find_eq_some hfind
    exact hregistry
  refine InclusionVerify.verifyWithIdentity_eq_included.mpr
    (InclusionVerify.check_eq_ok.mpr ⟨_, p.generation, attestation, latestLedger, ?_, rfl⟩)
  exact {
    reads := Schema.parse_of_toJson hserde hvalid htext
    owns := fun _ hnone => by cases hnone
    finds := by
      change Deployments.find serde _ request.network p.generation.registry = _
      rw [hregistryName]
      exact hfind
    length := by
      change ((MerkleTree.path _ _ shape.depth i).map toBig).length = _
      rw [List.length_map, MerkleTree.length_path, h.depth_eq]
    index := by
      change (BitVec.ofNat 32 i).toNat < _
      rwa [hindex, h.depth_eq]
    depth := by
      rw [h.depth_eq]
      omega
    attests := hchain.attests
    snapshot := hchain.snapshot.trans h.snapshot.symm
    context := hchain.contextHash.trans h.contextHash.symm
    root := by
      have hsiblings : ∀ l : List U256, (l.map toBig).map (BitVec.ofNat 256) = l := fun l => by
        rw [List.map_map]
        refine (List.map_congr_left fun x _ => ?_).trans (List.map_id l)
        change BitVec.ofNat 256 x.toNat = x
        rw [BitVec.ofNat_toNat, BitVec.setWidth_eq]
      have hcommitment : BitVec.ofNat 256 (toBig (commitmentOfRow poseidon2
          (entry.id, entry.balance) (saltOf poseidon2 masterSecret context.hash i))) =
          commitmentOfRow poseidon2 (entry.id, entry.balance)
            (saltOf poseidon2 masterSecret context.hash i) := by
        rw [toBig, BitVec.ofNat_toNat, BitVec.setWidth_eq]
      simp only [InclusionVerify.claimOf, packageFor, hsiblings, hcommitment, hindex]
      rw [walk_packageFor h hentry, hchain.finalRoot, toNat_ofNat_of_lt request.attested.root_lt]
    latest := hchain.latest }

/-! ## The log of a run -/

/-- What the loop over the customers leaves. -/
def packageOps (directory : Path) (texts : List String) : List FileOp :=
  texts.zipIdx.map fun entry =>
    .writePrivate (directory ++ [packageFilename (BitVec.ofNat 32 entry.2)]) entry.1

/-- What the report leaves. -/
def reportOps (directory : Path) : Option Path → List FileOp
  | some report => [.write report (String.intercalate "/" directory ++ "\n")]
  | none => []

theorem salts_zipIdx : p.tree.salts.zipIdx = (List.range p.customers.entries.length).map fun i =>
    (toBig (saltOf poseidon2 masterSecret context.hash i), i) := by
  rw [h.tree_eq, length_list]
  refine List.ext_getElem (by simp) fun i hi hi' => ?_
  simp

/-- One turn of the loop over the customers writes the text of the package. -/
theorem writePackage_eq_ok {refuses : List FileOp → FileOp → Option String}
    {mid mid' : List FileOp} {i : Nat} {entry : CustomerEntry}
    (hrow : p.customers.entries[i]? = some entry)
    (hwrite : writePackage serde refuses context request p (treeLevels poseidon2 p.tree.leaves)
      (toBig (saltOf poseidon2 masterSecret context.hash i), i) mid = (.ok (), mid')) :
    Schema.toJson serde (packageFor poseidon2 context masterSecret request p.generation.registry
        p.tree.leaves shape.depth entry i) =
      .ok (packageTextFor poseidon2 context masterSecret request p.generation.registry
        p.tree.leaves shape.depth serde entry i) ∧
    mid' = mid ++ [.writePrivate (directoryOf request p.generation.registry context.asset ++
      [packageFilename (BitVec.ofNat 32 i)]) (packageTextFor poseidon2 context masterSecret request
        p.generation.registry p.tree.leaves shape.depth serde entry i)] := by
  rw [writePackage, packageAt_eq h hrow] at hwrite
  obtain ⟨package, mid₁, hread, hrest⟩ := Run.bind_eq_ok.mp hwrite
  obtain ⟨hpackage, rfl⟩ := Run.ofExcept_eq_ok.mp hread
  cases hpackage
  obtain ⟨text, mid₂, hjson, hlast⟩ := Run.bind_eq_ok.mp hrest
  obtain ⟨htext, rfl⟩ := Run.ofExcept_eq_ok.mp hjson
  obtain ⟨-, hlog⟩ := Run.perform_eq_ok.mp hlast
  have hwritten : packageTextFor poseidon2 context masterSecret request p.generation.registry
      p.tree.leaves shape.depth serde entry i = text := by
    rw [packageTextFor, htext]
    rfl
  rw [hwritten]
  exact ⟨htext, hlog⟩

/-- The loop over the customers writes the text of each package, in row order. -/
theorem forEach_writePackage {refuses : List FileOp → FileOp → Option String}
    {log log' : List FileOp}
    (hrun : Run.forEach p.tree.salts.zipIdx
      (writePackage serde refuses context request p (treeLevels poseidon2 p.tree.leaves)) log =
        (.ok (), log')) :
    ∃ texts : List String, texts.length = p.customers.entries.length ∧
      (∀ i entry text, p.customers.entries[i]? = some entry → texts[i]? = some text →
        Schema.toJson serde (packageFor poseidon2 context masterSecret request
          p.generation.registry p.tree.leaves shape.depth entry i) = .ok text) ∧
      log' = log ++ packageOps (directoryOf request p.generation.registry context.asset) texts := by
  rw [salts_zipIdx h] at hrun
  refine ⟨p.customers.entries.zipIdx.map fun row => packageTextFor poseidon2 context masterSecret
    request p.generation.registry p.tree.leaves shape.depth serde row.1 row.2, by simp, ?_, ?_⟩
  · intro i entry text hrow htext
    have hi := (List.getElem?_eq_some_iff.mp hrow).1
    rw [List.getElem?_map, List.getElem?_zipIdx, hrow] at htext
    simp only [Option.map_some, Nat.zero_add, Option.some.injEq] at htext
    obtain ⟨mid, mid', hwrite⟩ := Run.exists_of_forEach hrun
      (List.mem_map_of_mem (List.mem_range.mpr hi))
    rw [← htext]
    exact (writePackage_eq_ok h hrow hwrite).1
  · rw [Run.forEach_log (fun entry : Nat × Nat =>
      [.writePrivate (directoryOf request p.generation.registry context.asset ++
        [packageFilename (BitVec.ofNat 32 entry.2)]) (packageTextFor poseidon2 context masterSecret
          request p.generation.registry p.tree.leaves shape.depth serde
          (p.customers.entries.getD entry.2 ⟨0, 0, .legacy⟩) entry.2)]) ?_ hrun]
    · rw [packageOps, ← List.map_eq_flatMap, List.map_map]
      congr 1
      refine List.ext_getElem (by simp) fun i hi hi' => ?_
      simp only [List.length_map, List.length_range] at hi
      simp [List.getD_eq_getElem?_getD, List.getElem?_eq_getElem hi]
    · rintro entry hmem mid mid' hwrite
      obtain ⟨i, hi, rfl⟩ := List.mem_map.mp hmem
      have hrow := List.getElem?_eq_getElem (List.mem_range.mp hi)
      rw [List.getD_eq_getElem?_getD, hrow, Option.getD_some]
      exact (writePackage_eq_ok h hrow hwrite).2

/-- **The log of a run that ends.** -/
theorem writePlan_log {refuses : List FileOp → FileOp → Option String} {log log' : List FileOp}
    (hrun : writePlan serde poseidon2 refuses context request p log = (.ok (), log')) :
    let directory := directoryOf request p.generation.registry context.asset
    ∃ (texts : List String) (record : String), texts.length = p.customers.entries.length ∧
      (∀ i entry text, p.customers.entries[i]? = some entry → texts[i]? = some text →
        Schema.toJson serde (packageFor poseidon2 context masterSecret request
          p.generation.registry p.tree.leaves shape.depth entry i) = .ok text) ∧
      generationJson serde request p.generation.registry context.asset
        p.customers.list.rows.length (toBig context.hash) p.rows p.tree.commitments =
          .ok record ∧
      log' = log ++ [.createDirAll request.out] ++
        (directoriesOf request p.generation.registry context.asset).map .createDirPrivate ++
        packageOps directory texts ++ [.writePrivate (directory ++ [GENERATION_FILE]) record] ++
        reportOps directory request.reportFile := by
  intro directory
  obtain ⟨_, mid₁, hall, hrun₁⟩ := Run.bind_eq_ok.mp hrun
  obtain ⟨_, mid₂, hdirs, hrun₂⟩ := Run.bind_eq_ok.mp hrun₁
  obtain ⟨_, mid₃, hpackages, hrun₃⟩ := Run.bind_eq_ok.mp hrun₂
  obtain ⟨record, mid₄, hjson, hrun₄⟩ := Run.bind_eq_ok.mp hrun₃
  obtain ⟨_, mid₅, hwrite, hreport⟩ := Run.bind_eq_ok.mp hrun₄
  have hdirs' := Run.forEach_log (fun level => [FileOp.createDirPrivate level])
    (fun level _ mid mid' hlevel => (Run.perform_eq_ok.mp hlevel).2) hdirs
  rw [← List.map_eq_flatMap] at hdirs'
  obtain ⟨texts, hlength, htexts, hpackages'⟩ := forEach_writePackage h hpackages
  obtain ⟨hrecord, hmid₄⟩ := Run.ofExcept_eq_ok.mp hjson
  have hreport' : log' = mid₅ ++ reportOps directory request.reportFile := by
    cases hfile : request.reportFile with
    | none =>
      rw [hfile] at hreport
      rw [(Run.pure_eq_ok.mp hreport).2, reportOps, List.append_nil]
    | some report =>
      rw [hfile] at hreport
      exact (Run.perform_eq_ok.mp hreport).2
  refine ⟨texts, record, hlength, htexts, hrecord, ?_⟩
  rw [hreport', (Run.perform_eq_ok.mp hwrite).2, hmid₄, hpackages', hdirs',
    (Run.perform_eq_ok.mp hall).2]

end Shape

/-! ## The names of the files -/

theorem padded_injective {width n m : Nat} (h : padded width n = padded width m) : n = m := by
  have hvalue : ∀ k : Nat, Nat.ofDigitChars 10 (padded width k).toList 0 = k := fun k => by
    rw [padded, String.toList_ofList, Nat.ofDigitChars_append, Nat.ofDigitChars_replicate_zero,
      Nat.mul_zero, Nat.ofDigitChars_ten_toDigits]
  rw [← hvalue n, h, hvalue]

theorem toList_packageFilename (leafIndex : U32) : (packageFilename leafIndex).toList =
    "package-".toList ++ (padded PACKAGE_INDEX_DIGITS leafIndex.toNat).toList ++
      ".zkpor.json".toList := by
  rw [packageFilename, String.toList_append, String.toList_append, String.toList_append,
    List.append_assoc _ ".".toList]
  rfl

/-- **Each leaf has a file name of its own.** -/
theorem packageFilename_injective : Function.Injective packageFilename := by
  intro i j h
  have hlist := congrArg String.toList h
  rw [toList_packageFilename, toList_packageFilename] at hlist
  have hdigits := List.append_cancel_left (List.append_cancel_right hlist)
  exact BitVec.eq_of_toNat_eq (padded_injective (String.toList_injective hdigits))

theorem packageFilename_ne (leafIndex : U32) : packageFilename leafIndex ≠ GENERATION_FILE := by
  intro h
  have hlist := congrArg (fun s => s.toList.head?) h
  simp [toList_packageFilename, GENERATION_FILE] at hlist

/-- The files of a directory of packages. -/
def fileNames (count : Nat) : List String :=
  (List.range count).map (fun i => packageFilename (BitVec.ofNat 32 i)) ++ [GENERATION_FILE]

theorem fileNames_nodup {count : Nat} (h : count ≤ 2 ^ 32) : (fileNames count).Nodup := by
  rw [fileNames, List.nodup_append]
  refine ⟨?_, List.nodup_singleton _, ?_⟩
  · refine List.Nodup.map_on ?_ List.nodup_range
    intro i hi j hj hname
    have heq := congrArg BitVec.toNat (packageFilename_injective hname)
    rw [List.mem_range] at hi hj
    rwa [BitVec.toNat_ofNat, BitVec.toNat_ofNat, Nat.mod_eq_of_lt (by omega),
      Nat.mod_eq_of_lt (by omega)] at heq
  · intro name hname other hother
    obtain ⟨i, -, rfl⟩ := List.mem_map.mp hname
    rw [List.mem_singleton.mp hother]
    exact packageFilename_ne _

end ZkPoR.Generation
