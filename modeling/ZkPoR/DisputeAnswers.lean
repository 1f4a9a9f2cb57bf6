import ZkPoR.DisputeSettlement
import ZkPoR.GenerationRecord
import ZkPoR.Inclusion
import ZkPoR.RetainedAnswers
import ZkPoR.SdkDisputeCalls

/-! # Disputes that the redacted tree settles

The authority keeps the redacted tree of an attestation, and answers from it.  Its
answers are the evidence that the contract takes under the attested root
(`WellFormed.inclusion`), and without a collision there is no other evidence
(`WellFormed.isPlace_of_inclusion`).  So an open dispute can be answered when the tree names
the customer, and cannot be answered by anybody when it does not.
-/
namespace ZkPoR.Retained
open CheckedInt BoundedLoop SerdeJson Package TypedStore Transaction TransitionSystem

/-! ## The evidence of the contract -/

section Evidence
variable {poseidon2 : List Fr → Fr} {tree : Tree}

/-- Everything that the tree hashes. -/
def Tree.inputs (poseidon2 : List Fr → Fr) (tree : Tree) : Set (List Fr) :=
  {x | (∃ row ∈ tree.entries, x = leafInput (BitVec.ofNat 256 row.1) (BitVec.ofNat 256 row.2)) ∨
    ∃ q ∈ MerkleTree.treePairs (nodeHash poseidon2) (tree.leaf poseidon2)
      tree.binding.treeDepth.toNat, x = nodeInput q}

theorem scVal_path {e : Sdk.InclusionEvidence} (he : IsPlace poseidon2 tree e) :
    e.scVal.path = MerkleTree.path (nodeHash poseidon2) (tree.leaf poseidon2)
      tree.binding.treeDepth.toNat e.position := by
  change e.path.map (BitVec.ofNat 256) = _
  rw [he.path, Sdk.map_ofNat_toNat]

/-- The leaf of a row. -/
theorem leaf_of_row {i : Nat} {row : Nat × Nat} (hrow : tree.entries[i]? = some row) :
    tree.leaf poseidon2 i = hashOf poseidon2 row := by
  rw [Tree.leaf, leafAt, List.getD_eq_getElem?_getD, List.getElem?_map, hrow]
  rfl

/-- **Completeness.**  The contract takes the evidence of a place of the tree. -/
theorem WellFormed.inclusion (h : WellFormed poseidon2 tree)
    (hdepth : tree.binding.treeDepth.toNat = 12) {root : U256}
    (hroot : tree.binding.root = root.toNat) {e : Sdk.InclusionEvidence}
    (he : IsPlace poseidon2 tree e) : ZkPoR.inclusion poseidon2 root e.scVal = .ok () := by
  have hvalid := h.place_valid he
  obtain ⟨hid, -, -, hposition⟩ := hvalid.scVal
  have hlt := h.position_lt he
  refine inclusion_eq_ok.mpr ⟨?_, ?_, ?_, Sdk.frInRange_ofNat hvalid.id,
    Sdk.frInRange_ofNat hvalid.commitment, ?_, ?_⟩
  · rw [scVal_path he, MerkleTree.length_path, hdepth]
  · rwa [hposition, ← hdepth]
  · intro hzero
    rw [hzero] at hid
    exact hvalid.idNonzero hid.symm
  · rw [scVal_path he]
    exact frInRange_pathFrom (fun i => frInRange_leaf i) _ _ _
  · have hleaf : leafHash poseidon2 e.scVal.id e.scVal.commitment =
        tree.leaf poseidon2 e.position := (leaf_of_row he.row).symm
    rw [hleaf, hposition, scVal_path he, MerkleTree.walk_path _ hlt]
    refine BitVec.eq_of_toNat_eq ?_
    rw [← hroot, h.root]
    rfl

/-- **Soundness.**  Without a collision, what the contract takes is the evidence of a
place of the tree. -/
theorem WellFormed.isPlace_of_inclusion (h : WellFormed poseidon2 tree)
    (hdepth : tree.binding.treeDepth.toNat = 12) {root : U256}
    (hroot : tree.binding.root = root.toNat) {S : Set (List Fr)} (hS : Set.InjOn poseidon2 S)
    (htree : tree.inputs poseidon2 ⊆ S) {evidence : ZkPoR.InclusionEvidence}
    (hevidence : evidenceInputs poseidon2 evidence ⊆ S)
    (hincluded : ZkPoR.inclusion poseidon2 root evidence = .ok ()) :
    ∃ e, IsPlace poseidon2 tree e ∧ e.scVal = evidence := by
  obtain ⟨hlength, hlt, hne, hid, hcommitment, hpath, hwalk⟩ := inclusion_eq_ok.mp hincluded
  have hlt' : evidence.position.toNat < tree.entries.length := by rwa [h.length, hdepth]
  obtain ⟨⟨id, commitment⟩, hrow⟩ : ∃ row, tree.entries[evidence.position.toNat]? = some row :=
    ⟨_, List.getElem?_eq_getElem hlt'⟩
  have hcanonical := h.canonical _ (List.mem_of_getElem? hrow)
  have hroot' : MerkleTree.root (nodeHash poseidon2) (tree.leaf poseidon2)
      tree.binding.treeDepth.toNat = root :=
    BitVec.eq_of_toNat_eq (h.root.symm.trans hroot)
  obtain ⟨hleaf, hsiblings⟩ := walk_binds hS (fun i => frInRange_leaf i)
    (fun q hq => htree (.inr ⟨q, hq, rfl⟩)) (frInRange_leafHash evidence.id evidence.commitment)
    hpath (fun q hq => hevidence (.inr ⟨q, hq, rfl⟩)) (hlength.trans hdepth.symm)
    (hdepth ▸ hlt) (hwalk.trans hroot'.symm)
  -- the leaf of the walk is the row of its position
  rw [leaf_of_row hrow] at hleaf
  have hinput := hS (hevidence (.inl rfl))
    (htree (.inl ⟨_, List.mem_of_getElem? hrow, rfl⟩)) (ofFr_injective hleaf)
  simp only [leafInput, List.cons.injEq, and_true, true_and] at hinput
  have hid' : evidence.id = BitVec.ofNat 256 id :=
    eq_of_toFr hid (Sdk.frInRange_ofNat hcanonical.1) hinput.1
  have hcommitment' : evidence.commitment = BitVec.ofNat 256 commitment :=
    eq_of_toFr hcommitment (Sdk.frInRange_ofNat hcanonical.2) hinput.2
  have hcustomer : id ≠ PADDING_LEAF_ID := by
    rintro rfl
    exact hne hid'
  have hrow' : tree.entries[evidence.position.toNat]? =
      some (evidence.id.toNat, evidence.commitment.toNat) := by
    rw [hrow, hid', hcommitment', toNat_ofNat_of_lt hcanonical.1, toNat_ofNat_of_lt hcanonical.2]
  refine ⟨.ofScVal evidence, ⟨?_, hrow', ?_⟩, Sdk.scVal_ofScVal evidence⟩
  · -- behind the customers there is padding only
    by_contra hcount
    have hcount : (customersOf tree.entries).length ≤ evidence.position.toNat := by
      rw [← h.count]
      exact Nat.le_of_not_lt hcount
    exact hcustomer (h.redacted.padding_of_le hcount hrow)
  · change evidence.path.map BitVec.toNat = _
    rw [hsiblings]
    rfl

/-- Without a collision, the contract takes evidence only of an identifier that the tree
names. -/
theorem WellFormed.mem_of_inclusion (h : WellFormed poseidon2 tree)
    (hdepth : tree.binding.treeDepth.toNat = 12) {root : U256}
    (hroot : tree.binding.root = root.toNat) {S : Set (List Fr)} (hS : Set.InjOn poseidon2 S)
    (htree : tree.inputs poseidon2 ⊆ S) {evidence : ZkPoR.InclusionEvidence}
    (hevidence : evidenceInputs poseidon2 evidence ⊆ S)
    (hincluded : ZkPoR.inclusion poseidon2 root evidence = .ok ()) :
    evidence.id.toNat ∈ tree.identifiers := by
  obtain ⟨e, he, rfl⟩ := h.isPlace_of_inclusion hdepth hroot hS htree hevidence hincluded
  rw [(h.place_valid he).scVal.1]
  exact (@mem_identifiers poseidon2 tree _).mpr ⟨e, he, rfl⟩

end Evidence

/-! ## Trees of a few customers -/

/-- The tree of depth 12 with some customers in front, and padding behind them. -/
def paddedTree (customers : List (Nat × Nat)) (root : Nat) : Tree where
  binding := {
    network := "testnet"
    registry := "R"
    asset := "A"
    attestationId := 1
    snapshotLedger := 100
    contextHash := 9
    root
    treeDepth := 12 }
  entries := customers ++ List.replicate (2 ^ 12 - customers.length) (PADDING_LEAF_ID, 0)
  count := customers.length
  levels := treeLevels Poseidon2.hash ((customers ++
    List.replicate (2 ^ 12 - customers.length) (PADDING_LEAF_ID, 0)).map (hashOf Poseidon2.hash))

/-- The leaf of the padding. -/
def paddingLeaf : U256 := hashOf Poseidon2.hash (PADDING_LEAF_ID, 0)

section Padded
variable {customers : List (Nat × Nat)} {root : Nat}

theorem map_fst_paddedTree : (paddedTree customers root).entries.map Prod.fst =
    customers.map Prod.fst ++ List.replicate (2 ^ 12 - customers.length) PADDING_LEAF_ID := by
  rw [paddedTree, List.map_append, List.map_replicate]

/-- Behind the customers every leaf is that of the padding. -/
theorem leaf_paddedTree {i : Nat} (hi : customers.length ≤ i) (hlt : i < 2 ^ 12) :
    (paddedTree customers root).leaf Poseidon2.hash i = paddingLeaf := by
  refine leaf_of_row ?_
  rw [paddedTree, List.getElem?_append_right hi]
  exact List.getElem?_replicate_of_lt (by omega)

theorem wellFormed_paddedTree (hlength : customers.length ≤ 2 ^ 12)
    (hcanonical : ∀ row ∈ customers, row.1 < frModulus ∧ row.2 < frModulus)
    (hne : ∀ id ∈ customers.map Prod.fst, id ≠ PADDING_LEAF_ID)
    (hnodup : (customers.map Prod.fst).Nodup)
    (hroot : root = (MerkleTree.root (nodeHash Poseidon2.hash)
      ((paddedTree customers root).leaf Poseidon2.hash) 12).toNat) :
    WellFormed Poseidon2.hash (paddedTree customers root) where
  depthPos := show 0 < (12 : U32).toNat by decide
  depthLe := show (12 : U32).toNat ≤ 32 by decide
  length := by
    change (customers ++ List.replicate (2 ^ 12 - customers.length) _).length = 2 ^ 12
    rw [List.length_append, List.length_replicate]
    omega
  canonical row hrow := by
    rcases List.mem_append.mp hrow with hrow | hrow
    · exact hcanonical row hrow
    · rw [List.eq_of_mem_replicate hrow]
      decide
  redacted := Generation.redacted_front map_fst_paddedTree hne hnodup
  count := by
    rw [Generation.customersOf_front map_fst_paddedTree hne, List.length_map]
    rfl
  levels := rfl
  root := hroot

/-- The record of a padded tree is read as the tree. -/
theorem parse_paddedTree (h : WellFormed Poseidon2.hash (paddedTree customers root))
    (hroot : root < frModulus) :
    parseTree reference Poseidon2.hash
      (Generation.recordText reference (paddedTree customers root).toRetainedTree "ab") =
        .ok (paddedTree customers root) := by
  have htext : "testnet" ≠ "" ∧ "R" ≠ "" ∧ "A" ≠ "" ∧ "ab" ≠ "" := by decide
  exact Generation.parseTree_recordText reference_documented h
    ⟨htext.1, htext.2.1, htext.2.2.1, show (1 : U64) ≠ 0 by decide, show 9 < frModulus by decide,
      hroot⟩ htext.2.2.2

end Padded

/-- The root of the tree with one customer. -/
def oneRoot : Nat :=
  2585748920094755358703075169762169222700586639814399265375250325569286270403

/-- The path of the first leaf, beside which there is padding only. -/
def paddingPath : List U256 :=
  (List.range 12).map (MerkleTree.uniform (nodeHash Poseidon2.hash) paddingLeaf)

theorem path_paddedTree {row : Nat × Nat} {root : Nat} :
    MerkleTree.path (nodeHash Poseidon2.hash) ((paddedTree [row] root).leaf Poseidon2.hash) 12 0 =
      paddingPath :=
  MerkleTree.path_front _ fun _ hi hlt => leaf_paddedTree hi hlt

theorem oneRoot_eq :
    oneRoot = (MerkleTree.walk (nodeHash Poseidon2.hash) (hashOf Poseidon2.hash (42, 7)) 0
      paddingPath).toNat := by
  decide +kernel

theorem wellFormed_one : WellFormed Poseidon2.hash (paddedTree [(42, 7)] oneRoot) := by
  refine wellFormed_paddedTree (by decide) (by decide) (by decide) (by decide) ?_
  rw [← MerkleTree.walk_path (nodeHash Poseidon2.hash) (show 0 < 2 ^ 12 by norm_num),
    path_paddedTree]
  exact oneRoot_eq

/-! ## The answers of a tree -/

/-- **A redacted tree answers for its customers and for nobody else.**  Of a tree that the
reader takes, an answer exists exactly for the requests that name its attestation and one
of its customers.  The SDK reads the text of the answer as the row of that customer, with
a path that walks to the attested root in the tools and in the SDK. -/
theorem retained_answers {serde : SerdeJson} {poseidon2 : List Fr → Fr} {tree : Tree}
    (hserde : Documented serde) {source : String}
    (htree : parseTree serde poseidon2 source = .ok tree) (request : AnswerRequest) :
    ((∃ out, answer serde tree request = .ok out) ↔
      tree.binding = request.binding ∧ request.identifier ∈ tree.identifiers) ∧
    ∀ out, answer serde tree request = .ok out → ∃ e : Sdk.InclusionEvidence,
      Sdk.parseInclusionEvidence out = .ok e ∧ e.id = request.identifier ∧
      tree.entries[e.position]? = some (e.id, e.commitment) ∧
      (∃ leaf, Sdk.leafHash poseidon2 e.id e.commitment = .ok leaf ∧
        Sdk.rootFromPath poseidon2 leaf e.position e.path tree.binding.treeDepth.toNat =
          .ok tree.binding.root) ∧
      ∃ path, e.path = path.map BitVec.toNat ∧
        Package.rootFromPath poseidon2
          (leafHash poseidon2 (BitVec.ofNat 256 e.id) (BitVec.ofNat 256 e.commitment))
          (BitVec.ofNat 64 e.position) path tree.binding.treeDepth.toNat =
            .ok (BitVec.ofNat 256 tree.binding.root) := by
  obtain ⟨-, -, -, hwf⟩ := parseTree_eq_ok.mp htree
  constructor
  · rw [@mem_identifiers poseidon2 tree]
    simp only [answer_eq_ok hwf]
    exact ⟨fun ⟨_, hbinding, e, he, hid, _⟩ => ⟨hbinding, e, he, hid⟩,
      fun ⟨hbinding, e, he, hid⟩ => ⟨_, hbinding, e, he, hid, rfl⟩⟩
  · intro out hout
    obtain ⟨-, e, he, hid, rfl⟩ := (answer_eq_ok hwf).mp hout
    have hvalid := hwf.place_valid he
    obtain ⟨htools, hsdk⟩ := hwf.walks he
    have hleaf : Sdk.leafHash poseidon2 e.id e.commitment =
        .ok (leafHash poseidon2 (BitVec.ofNat 256 e.id) (BitVec.ofNat 256 e.commitment)).toNat := by
      have h := @Sdk.leafHash_eq poseidon2 (BitVec.ofNat 256 e.id) (BitVec.ofNat 256 e.commitment)
        (Sdk.frInRange_ofNat hvalid.id) (Sdk.frInRange_ofNat hvalid.commitment)
      rwa [toNat_ofNat_of_lt hvalid.id, toNat_ofNat_of_lt hvalid.commitment] at h
    exact ⟨e, parseInclusionEvidence_answerText hserde hvalid, hid, he.row, ⟨_, hleaf, hsdk⟩, _,
      he.path, htools⟩

/-- The tree of one customer answers for it. -/
theorem retained_answers_sample : ∃ out e,
    answer reference (paddedTree [(42, 7)] oneRoot) ⟨(paddedTree [(42, 7)] oneRoot).binding, 42⟩ =
      .ok out ∧
    Sdk.parseInclusionEvidence out = .ok e ∧ e.id = 42 := by
  obtain ⟨hexists, hreads⟩ := retained_answers reference_documented
    (parse_paddedTree wellFormed_one (by decide)) ⟨(paddedTree [(42, 7)] oneRoot).binding, 42⟩
  obtain ⟨out, hout⟩ := hexists.mpr ⟨rfl, by decide⟩
  obtain ⟨e, hread, hid, -⟩ := hreads out hout
  exact ⟨out, e, hout, hread, hid⟩

end ZkPoR.Retained

/-! ## Over a run -/

namespace ZkPoR.RegistryRun
open CheckedInt BoundedLoop SerdeJson TypedStore Transaction TransitionSystem

section
variable {H : Host} (run : RegistryRun H) {asset : Address} {targetId : U64} {identifier : U256}

/-- An open dispute can be settled in its state. -/
theorem exists_settleable (t : Nat) (ledger : LedgerInfo) {d : Dispute}
    (hd : (run.state t).get (.dispute asset targetId identifier) = some d)
    (hopen : d.status = .open) :
    ∃ entry target, Settleable H { run.state t with ledger } asset targetId identifier d entry
      target := by
  obtain ⟨u, hu, _, _, target, hopened⟩ := run.exists_openedBy hd
  obtain ⟨entry₀, hentry₀⟩ := hopened.registered
  obtain ⟨entry, hentry, -⟩ := run.entry_stable hu.le hentry₀
  have hbond := run.bondInvariant asset t
  exact ⟨entry, target, hd, hopen, hentry, run.record_stable asset hu.le hopened.target,
    ⟨hbond.available, hbond.burned, hbond.bounded, hbond.burned_eq, hbond.unburned⟩,
    (run.solvent t).deposit (fun a => run.bondInvariant a t) hd hopen⟩

/-- A stored dispute has a positive target. -/
theorem target_pos {t : Nat} {a : Attestation}
    (h : (run.state t).get (.attestation asset targetId) = some a) : 1 ≤ targetId.toNat :=
  (((run.historyInvariant asset t).exists_iff targetId).mp (by rw [h]; rfl)).1

/-- A record of the history is the same one at every instant. -/
theorem record_unique {t u : Nat} {a b : Attestation}
    (ha : (run.state t).get (.attestation asset targetId) = some a)
    (hb : (run.state u).get (.attestation asset targetId) = some b) : a = b := by
  rcases Nat.le_total t u with htu | hut
  · exact Option.some.inj ((run.record_stable asset htu ha).symm.trans hb)
  · exact Option.some.inj (ha.symm.trans (run.record_stable asset hut hb))

/-- **A customer of the tree can be answered for.**  Let a dispute be open within its
window, and let the authority hold the redacted tree of the fixed root.  If the tree names
the identifier, then it answers for it, the SDK reads the answer and makes a call of it, and
the contract takes that call from the authority: the record closes as answered, and the
deposit moves to the authority. -/
theorem named_customer_answered {serde : SerdeJson} (hserde : Documented serde) (t : Nat)
    (ledger : LedgerInfo) {d : Dispute}
    (hd : (run.state t).get (.dispute asset targetId identifier) = some d)
    (hopen : d.status = .open) (hwindow : ledger.sequence ≤ d.deadline) {target : Attestation}
    (htarget : (run.state t).get (.attestation asset targetId) = some target) {source : String}
    {tree : Retained.Tree} (htree : Retained.parseTree serde H.poseidon2 source = .ok tree)
    (hdepth : tree.binding.treeDepth.toNat = 12)
    (hroot : tree.binding.root = target.finalRoot.toNat)
    (hnamed : identifier.toNat ∈ tree.identifiers) :
    ∃ entry out e argument, (run.state t).get (.asset asset) = some entry ∧
      Retained.answer serde tree ⟨tree.binding, identifier.toNat⟩ = .ok out ∧
      Sdk.parseInclusionEvidence out = .ok e ∧
      Sdk.answerDispute asset targetId.toNat e = .ok (.answerDispute asset targetId argument) ∧
      argument.id = identifier ∧
      ∀ invocation : Invocation H, Transfers invocation →
        invocation.authorized entry.authority = true →
        ∃ s', (Op.answerDispute asset targetId argument).run invocation
            { run.state t with ledger } = .ok ((), s') ∧
          s'.get (.dispute asset targetId identifier) = some (d.answer ledger.sequence) ∧
          s'.native = moveFunds (run.state t).native H.currentContract entry.authority 100000000 := by
  obtain ⟨entry, target', hsettle⟩ := run.exists_settleable t ledger hd hopen
  obtain rfl : target' = target := Option.some.inj (hsettle.recorded.symm.trans htarget)
  obtain ⟨-, -, -, hwf⟩ := Retained.parseTree_eq_ok.mp htree
  obtain ⟨e, he, hid⟩ := (@Retained.mem_identifiers H.poseidon2 tree _).mp hnamed
  have hvalid := hwf.place_valid he
  have hargument : e.scVal.id = identifier := by
    refine BitVec.eq_of_toNat_eq ?_
    rw [hvalid.scVal.1, hid]
  refine ⟨entry, _, e, e.scVal, hsettle.registered,
    (Retained.answer_eq_ok hwf).mpr ⟨rfl, e, he, hid, rfl⟩,
    Retained.parseInclusionEvidence_answerText hserde hvalid,
    Sdk.answerDispute_of_valid hvalid (run.target_pos htarget), hargument,
    fun invocation htransfers hauth => ?_⟩
  subst hargument
  refine ⟨_, answerDispute_effect.mpr (.answerDispute hsettle.registered hsettle.stored
    hsettle.stillOpen hwindow hsettle.recorded (hwf.inclusion hdepth hroot he) hauth hsettle.covered
    (htransfers _ _ _)), State.get_save_self .., ?_⟩
  rw [State.move_native, State.save_native, deposit_val]

/-- The calls of a run with a dispute against the tree of one customer. -/
def disputedCalls : List Op := [
  sampleRegistration,
  .submitAttestation (sampleContract 3) 100 (BitVec.ofNat 256 Retained.oneRoot) 1000 [],
  .registerDkimKey (sampleContract 3) sampleKey,
  .openDispute (sampleContract 3) (sampleAccount 9) none (.email ⟨1, 42, []⟩)]

/-- The dispute of the customer. -/
def sampleDispute : Dispute := .new (sampleAccount 9) (.email 1) 1 42 100 51940

theorem disputed_sample :
    ((sampleRun disputedCalls).state 4).get (.dispute (sampleContract 3) 1 42) =
        some sampleDispute ∧
      (((sampleRun disputedCalls).state 4).get
        (.attestation (sampleContract 3) 1)).map Attestation.finalRoot =
          some (BitVec.ofNat 256 Retained.oneRoot) ∧
      (((sampleRun disputedCalls).state 4).get
        (.asset (sampleContract 3))).map AssetEntry.authority = some (sampleAccount 7) := by
  decide +kernel

/-- The tree of one customer answers the dispute about it. -/
theorem named_customer_answered_sample : ∃ out e argument,
    Retained.answer reference (Retained.paddedTree [(42, 7)] Retained.oneRoot)
      ⟨(Retained.paddedTree [(42, 7)] Retained.oneRoot).binding, 42⟩ = .ok out ∧
    Sdk.parseInclusionEvidence out = .ok e ∧
    Sdk.answerDispute (sampleContract 3) 1 e = .ok (.answerDispute (sampleContract 3) 1 argument) ∧
    ∃ s', (Op.answerDispute (sampleContract 3) 1 argument).run sampleInvocation
        { (sampleRun disputedCalls).state 4 with
          ledger := { sampleBefore.ledger with sequence := 51940 } } = .ok ((), s') ∧
      s'.get (.dispute (sampleContract 3) 1 42) = some (sampleDispute.answer 51940) := by
  obtain ⟨hdispute, hattested, hmap⟩ := disputed_sample
  obtain ⟨target, htarget, hroot⟩ := Option.map_eq_some_iff.mp hattested
  have hnat : (BitVec.ofNat 256 Retained.oneRoot).toNat = Retained.oneRoot := by decide
  obtain ⟨entry, out, e, argument, hentry, hanswer, hread, hcall, -, haccept⟩ :=
    named_customer_answered (sampleRun disputedCalls) reference_documented 4
      { sampleBefore.ledger with sequence := 51940 } hdispute rfl (by decide) htarget
      (Retained.parse_paddedTree Retained.wellFormed_one (by decide)) rfl (by rw [hroot, hnat]; rfl)
      (by decide)
  have hauthority : ∀ entry, ((sampleRun disputedCalls).state 4).get
      (.asset (sampleContract 3)) = some entry → entry.authority = sampleAccount 7 := by
    intro entry hentry
    rw [hentry] at hmap
    exact Option.some.inj hmap
  obtain ⟨s', hrun, hclosed, -⟩ := haccept sampleInvocation (fun _ _ _ => rfl)
    (by rw [hauthority entry hentry]; decide)
  exact ⟨out, e, argument, hanswer, hread, hcall, s', hrun, hclosed⟩

/-- **A customer that the tree omits is never answered for.**  Let a dispute stand against
an attestation, and let a redacted tree of its root not name the identifier.  Then in no
state of the run is the dispute answered, unless somebody found a collision: the sponge is
injective on a set of inputs that contains what the tree hashed and what the evidence of
every answer hashed. -/
theorem omitted_customer_unanswered {t : Nat} {target : Attestation}
    (htarget : (run.state t).get (.attestation asset targetId) = some target)
    {serde : SerdeJson} {source : String} {tree : Retained.Tree}
    (htree : Retained.parseTree serde H.poseidon2 source = .ok tree)
    (hdepth : tree.binding.treeDepth.toNat = 12)
    (hroot : tree.binding.root = target.finalRoot.toNat)
    (homitted : identifier.toNat ∉ tree.identifiers) {S : Set (List Fr)}
    (hS : Set.InjOn H.poseidon2 S) (hinputs : tree.inputs H.poseidon2 ⊆ S)
    (hanswers : ∀ u invocation evidence,
      run.Calls u invocation (.answerDispute asset targetId evidence) →
      evidenceInputs H.poseidon2 evidence ⊆ S) (u : Nat) {e : Dispute}
    (he : (run.state u).get (.dispute asset targetId identifier) = some e) :
    e.status = .open ∨ e.status = .omissionProven := by
  obtain ⟨-, -, -, hwf⟩ := Retained.parseTree_eq_ok.mp htree
  induction u generalizing e with
  | zero =>
    rw [show run.state 0 = run.first from rfl, run.first_start.get] at he
    cases he
  | succ u ih =>
    rcases run.dispute_step u asset targetId identifier with heq | ⟨_, _, f, hcall, hf, hwrite⟩
    · exact ih (heq ▸ he)
    · obtain rfl : f = e := Option.some.inj (hf.symm.trans he)
      generalize (run.state u).get (.dispute asset targetId identifier) = old at hwrite
      generalize (run.state (u + 1)).native = native at hwrite
      cases hwrite with
      | create => exact .inl rfl
      | answer _ _ _ recorded included =>
        -- an answer would be evidence of the identifier under the root of the tree
        rw [← run.record_unique htarget recorded] at included
        exact absurd (hwf.mem_of_inclusion hdepth hroot hS hinputs (hanswers u _ _ hcall) included)
          homitted
      | resolve => exact .inr rfl

/-- The evidence of the customer. -/
def customerEvidence : InclusionEvidence := ⟨42, 7, Retained.paddingPath, 0⟩

/-- The calls of a run in which the customer is answered for, and in which somebody whom the
tree omits has opened a dispute too. -/
def answeredCalls : List Op := disputedCalls ++ [
  .openDispute (sampleContract 3) (sampleAccount 9) none (.email ⟨1, 43, []⟩),
  .answerDispute (sampleContract 3) 1 customerEvidence]

theorem answered_sample :
    ((sampleRun answeredCalls).state 6).get (.dispute (sampleContract 3) 1 42) =
        some (sampleDispute.answer 100) ∧
      ((sampleRun answeredCalls).state 6).get (.dispute (sampleContract 3) 1 43) =
        some (.new (sampleAccount 9) (.email 1) 1 43 100 51940) ∧
      (((sampleRun answeredCalls).state 6).get
        (.attestation (sampleContract 3) 1)).map Attestation.finalRoot =
          some (BitVec.ofNat 256 Retained.oneRoot) := by
  decide +kernel

/-- What the tree of one customer hashes: two leaves, and two pairs at each height. -/
def customerInputs : List (List Fr) :=
  [leafInput 42 7, leafInput 0 0] ++ (List.range 12).flatMap fun k =>
    [nodeInput (MerkleTree.uniform (nodeHash Poseidon2.hash) Retained.paddingLeaf k,
      MerkleTree.uniform (nodeHash Poseidon2.hash) Retained.paddingLeaf k),
     nodeInput (MerkleTree.front (nodeHash Poseidon2.hash)
        (Retained.hashOf Poseidon2.hash (42, 7)) Retained.paddingLeaf k,
      MerkleTree.uniform (nodeHash Poseidon2.hash) Retained.paddingLeaf k)]

theorem injOn_customerInputs : Set.InjOn Poseidon2.hash {x | x ∈ customerInputs} := by
  have hnodup : (customerInputs.map Poseidon2.hash).Nodup := by decide +kernel
  exact fun x hx y hy h => List.inj_on_of_nodup_map hnodup hx hy h

theorem pairs_one {q : U256 × U256}
    (hq : q ∈ MerkleTree.treePairs (nodeHash Poseidon2.hash)
      ((Retained.paddedTree [(42, 7)] Retained.oneRoot).leaf Poseidon2.hash) 12) :
    nodeInput q ∈ customerInputs := by
  obtain ⟨k, hk, hpair⟩ := MerkleTree.treePairs_front (nodeHash Poseidon2.hash)
    (fun i hi hlt => Retained.leaf_paddedTree hi hlt) hq
  refine List.mem_append_right _ (List.mem_flatMap.mpr ⟨k, List.mem_range.mpr hk, ?_⟩)
  rcases hpair with rfl | rfl
  · exact List.mem_cons_self
  · exact List.mem_cons_of_mem _ List.mem_cons_self

theorem inputs_one : (Retained.paddedTree [(42, 7)] Retained.oneRoot).inputs Poseidon2.hash ⊆
    {x | x ∈ customerInputs} := by
  rintro x (⟨row, hrow, rfl⟩ | ⟨q, hq, rfl⟩)
  · rcases List.mem_append.mp hrow with hrow | hrow
    · rw [List.mem_singleton.mp hrow]
      exact List.mem_append_left _ List.mem_cons_self
    · rw [List.eq_of_mem_replicate hrow]
      exact List.mem_append_left _ (List.mem_cons_of_mem _ List.mem_cons_self)
  · exact pairs_one hq

/-- The evidence of the customer hashes nothing that the tree did not hash. -/
theorem evidenceInputs_customer :
    evidenceInputs Poseidon2.hash customerEvidence ⊆ {x | x ∈ customerInputs} := by
  rintro x (rfl | ⟨q, hq, rfl⟩)
  · exact List.mem_append_left _ List.mem_cons_self
  · have hpair : q ∈ MerkleTree.walkPairs (nodeHash Poseidon2.hash)
        ((Retained.paddedTree [(42, 7)] Retained.oneRoot).leaf Poseidon2.hash 0) 0
        (MerkleTree.path (nodeHash Poseidon2.hash)
          ((Retained.paddedTree [(42, 7)] Retained.oneRoot).leaf Poseidon2.hash) 12 0) := by
      rw [Retained.path_paddedTree]
      exact hq
    exact pairs_one (MerkleTree.walkPairs_path _ (show 0 < 2 ^ 12 by norm_num) hpair)

/-- In the run the customer of the tree is answered for, and the other one is not. -/
theorem omitted_customer_unanswered_sample :
    ((sampleRun answeredCalls).state 6).get (.dispute (sampleContract 3) 1 42) =
        some (sampleDispute.answer 100) ∧
      ((sampleRun answeredCalls).state 6).get (.dispute (sampleContract 3) 1 43) =
        some (.new (sampleAccount 9) (.email 1) 1 43 100 51940) ∧
      ∀ u e, ((sampleRun answeredCalls).state u).get (.dispute (sampleContract 3) 1 43) = some e →
        e.status = .open ∨ e.status = .omissionProven := by
  obtain ⟨hanswered, hdispute, hattested⟩ := answered_sample
  refine ⟨hanswered, hdispute, fun v e he => ?_⟩
  obtain ⟨target, htarget, hroot⟩ := Option.map_eq_some_iff.mp hattested
  have hnat : (BitVec.ofNat 256 Retained.oneRoot).toNat = Retained.oneRoot := by decide
  refine omitted_customer_unanswered (sampleRun answeredCalls) htarget
    (Retained.parse_paddedTree Retained.wellFormed_one (by decide)) rfl
    (by rw [hroot, hnat]; rfl) (by decide) injOn_customerInputs inputs_one ?_ v he
  intro u invocation evidence hcall
  -- the last call of the run is the one answer
  have hevent := hcall.1
  rcases u with _ | _ | _ | _ | _ | _ | u
  · cases hevent
  · cases hevent
  · cases hevent
  · cases hevent
  · cases hevent
  · cases hevent
    exact evidenceInputs_customer
  · cases hevent

end
end ZkPoR.RegistryRun
