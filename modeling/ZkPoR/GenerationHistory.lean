import ZkPoR.GenerationRecord

/-! # Runs of the packages command, one after another

One run is complete and exact (`packages_exact`): nothing is attempted before the gates, a
run that passes them ends on a disk that refuses nothing, and its files are those of its
customers.  Over runs that each take the record of the run before as their prior tree, the
attestation identifiers count up from one, the trees keep their depth, and no customer
leaves (`customers_continue`).
-/
namespace ZkPoR.Generation
open CheckedInt BoundedLoop SerdeJson Package Generator EffectLog Circuit

section Runs
variable {primitives : Identity.Primitives} {parseBigUint : BigUintParser} {serde : SerdeJson}
  {poseidon2 : List Fr → Fr} {config : Config} {context : AttestationContext}
  {masterSecret : U256} {request : GenerationRequest}

/-! ## A run that passes the gates ends -/

theorem exists_writePlan {shape : Shape} {p : Plan}
    (h : Gates primitives parseBigUint serde poseidon2 (configOf shape) context masterSecret request p)
    (hdepth : shape.depth ≤ 32) {refuses : List FileOp → FileOp → Option String}
    (hdisk : ∀ log op, refuses log op = none) (log : List FileOp) :
    ∃ log', writePlan serde poseidon2 refuses context request p log = (.ok (), log') := by
  have hpackage : ∀ entry ∈ p.tree.salts.zipIdx, ∀ mid, ∃ mid',
      writePackage serde refuses context request p (treeLevels poseidon2 p.tree.leaves) entry mid =
        (.ok (), mid') := by
    rw [salts_zipIdx h]
    intro entry hentry mid
    obtain ⟨i, hi, rfl⟩ := List.mem_map.mp hentry
    have hrow := List.getElem?_eq_getElem (List.mem_range.mp hi)
    have hcanonical := canonical_packageFor h hrow
    obtain ⟨mid', hmid'⟩ := Run.exists_perform hdisk _ mid
    refine ⟨mid', ?_⟩
    rw [writePackage, packageAt_eq h hrow]
    exact Run.bind_eq_ok.mpr ⟨_, mid, rfl, Run.bind_eq_ok.mpr
      ⟨_, mid, Run.ofExcept_eq_ok.mpr ⟨Schema.toJson_of_canonical hcanonical, rfl⟩, hmid'⟩⟩
  obtain ⟨mid₁, h₁⟩ := Run.exists_perform hdisk (.createDirAll request.out) log
  obtain ⟨mid₂, h₂⟩ := Run.exists_forEach
    (fun level _ => Run.exists_perform hdisk (.createDirPrivate level)) mid₁
  obtain ⟨mid₃, h₃⟩ := Run.exists_forEach hpackage mid₂
  obtain ⟨mid₄, h₄⟩ := Run.exists_perform hdisk (.writePrivate (directoryOf request
    p.generation.registry context.asset ++ [GENERATION_FILE]) (recordText serde
      (recordTree poseidon2 context request p).toRetainedTree request.attested.transactionHash)) mid₃
  have h₅ : ∃ log', writeReport refuses (directoryOf request p.generation.registry context.asset)
      request.reportFile mid₄ = (.ok (), log') := by
    cases request.reportFile with
    | none => exact ⟨mid₄, rfl⟩
    | some report => exact Run.exists_perform hdisk _ mid₄
  obtain ⟨log', h₅⟩ := h₅
  exact ⟨log', Run.bind_eq_ok.mpr ⟨(), mid₁, h₁, Run.bind_eq_ok.mpr ⟨(), mid₂, h₂,
    Run.bind_eq_ok.mpr ⟨(), mid₃, h₃, Run.bind_eq_ok.mpr ⟨_, mid₃,
      Run.ofExcept_eq_ok.mpr ⟨generationJson_eq h hdepth, rfl⟩,
      Run.bind_eq_ok.mpr ⟨(), mid₄, h₄, h₅⟩⟩⟩⟩⟩⟩

/-! ## A generation of one customer -/

section Sample
theorem two_le_sample : 2 ≤ 2 := Nat.le_refl 2

theorem isPowerOfTwo_sample : Nat.isPowerOfTwo 2 := ⟨1, rfl⟩

theorem capacity_sample : 2 * 2 < 2 ^ 64 := by decide

def sampleShape : Shape :=
  ⟨2, 2, two_le_sample, isPowerOfTwo_sample, two_le_sample, isPowerOfTwo_sample, capacity_sample⟩

def sampleContextFile : AttestationContext := ⟨9, sampleAsset, 7⟩

def sampleGenerations : Value :=
  .array [.object [("network", .string "testnet"), ("registry", .string sampleRegistry),
    ("tree_depth", .number (.posInt 2))]]

/-- The attestation of the tree over some customers. -/
def sampleAttested (customers : CustomerEntries) (id : U64) (hid : id ≠ 0) : AttestedEntry where
  id
  context := 9
  root := (treeRoot Poseidon2.hash 5 9 customers.list sampleShape).val
  snapshotLedger := 7
  transactionHash := "ab"
  id_ne := hid
  context_lt := by decide
  root_lt := Fin.isLt _

def sampleRequest (text : String) (attested : AttestedEntry) (prior : Option PriorFile) :
    GenerationRequest where
  customersFile := some text
  deploymentsFile := some (sampleText sampleGenerations)
  out := ["out"]
  network := "testnet"
  registry := sampleRegistry
  attested
  prior
  reportFile := some ["report"]

def samplePlan (customers : CustomerEntries) : Plan where
  generation := { network := "testnet", registry := sampleRegistry, treeDepth := 2 }
  customers
  rows := (List.range 4).map (rowAt customers.list)
  tree := {
    salts := (List.range customers.list.rows.length).map fun i =>
      toBig (saltOf Poseidon2.hash 5 9 i)
    commitments := (List.range 4).map fun i =>
      toBig (commitmentAt Poseidon2.hash 5 9 customers.list i)
    leaves := treeLeaves Poseidon2.hash 5 9 customers.list sampleShape
    root := (treeRoot Poseidon2.hash 5 9 customers.list sampleShape).val }

theorem find_sampleGenerations :
    Deployments.find reference (sampleText sampleGenerations) "testnet" sampleRegistry =
      .ok (some { network := "testnet", registry := sampleRegistry, treeDepth := 2 }) := by
  have hparse : JsonText.parse (sampleText sampleGenerations) = some (sampleJson sampleGenerations) :=
    reference_documented.pretty rfl
  have hread : reference.fromStr (sampleText sampleGenerations) = .ok sampleGenerations :=
    reference_documented.reads hparse (show SerdeJson.plain _ _ = true from rfl)
      (show _ = some sampleGenerations from rfl)
  rw [Deployments.find, Deployments.generations, hread]
  rfl

theorem sample_gates {customers : CustomerEntries} {text : String} {id : U64} (hid : id ≠ 0)
    {prior : Option PriorFile} (hlength : customers.list.rows.length ≤ 4)
    (htext : readCustomerEntries referencePrimitives referenceBigUint text.toList =
      .ok customers.entries)
    (hprior : checkPriorFile reference Poseidon2.hash
      (sampleRequest text (sampleAttested customers id hid) prior) sampleRegistry sampleAsset
        customers.list.rows 4 = .ok ()) :
    Gates referencePrimitives referenceBigUint reference Poseidon2.hash (configOf sampleShape)
      sampleContextFile 5 (sampleRequest text (sampleAttested customers id hid) prior)
      (samplePlan customers) where
  generation := ⟨_, rfl, find_sampleGenerations⟩
  depth := (trailingZeros_capacity sampleShape).symm
  snapshot := rfl
  contextHash := rfl
  customers := ⟨text, rfl, htext⟩
  prior := hprior
  rows := padToCapacity_eq_ok.mpr ⟨hlength, rfl⟩
  tree := packageTree_of_length hlength
  root := rfl
  network := by
    have hall : "testnet" ≠ "" ∧
        "testnet".toList.all (fun c => c.isAlphanum || c == '-') = true :=
      ⟨by decide, rfl⟩
    exact hall

/-- One customer. -/
def sampleCustomer : CustomerEntries := ⟨[⟨11, 100, .legacy⟩], rfl⟩

theorem read_sampleCustomer :
    readCustomerEntries referencePrimitives referenceBigUint "11,100".toList =
      .ok sampleCustomer.entries := by
  decide +kernel

theorem ne_empty_of_isContract {value : String} (h : Schema.isContract value = true) :
    value ≠ "" := by
  rintro rfl
  exact absurd h (by decide)

theorem sample_gates_first :
    Gates referencePrimitives referenceBigUint reference Poseidon2.hash (configOf sampleShape)
      sampleContextFile 5 (sampleRequest "11,100" (sampleAttested sampleCustomer 1 (by decide)) none)
      (samplePlan sampleCustomer) :=
  sample_gates (by decide) (by decide) read_sampleCustomer rfl

end Sample

/-! ## One run -/

/-- **The packages are complete and exact.**  Whatever the disk does, nothing is attempted on
it before every gate passed.  A run that ends wrote one package for each customer row, at
the position of the row, and behind them the record of its tree, under names of their own;
the customer command, with the deployments file of the run and a chain that holds the attestation,
reports each of these packages as included with the balance of its row.  On a disk that
refuses nothing, the gates are all that a run can fail. -/
theorem packages_exact (hserde : Documented serde) {batchB numBatchesK nodeHashArity : U64}
    (hconfig : readShape batchB numBatchesK nodeHashArity = .ok config)
    (hcapacity : config.capacity ≤ 2 ^ 32) (refuses : List FileOp → FileOp → Option String)
    (log : List FileOp) :
    let run := writePackages primitives parseBigUint serde poseidon2 refuses config context
      masterSecret request log
    (run.2 ≠ log → ∃ p,
      Gates primitives parseBigUint serde poseidon2 config context masterSecret request p) ∧
    (∀ p, Gates primitives parseBigUint serde poseidon2 config context masterSecret request p →
      (∀ log op, refuses log op = none) → ∃ log', run = (.ok (), log')) ∧
    ∀ log', run = (.ok (), log') → Schema.isContract request.registry = true →
      Schema.isContract context.asset = true →
      let directory := directoryOf request request.registry context.asset
      ∃ (deployments customersText : String) (entries : List CustomerEntry) (texts : List String)
        (record : String), request.deploymentsFile = some deployments ∧
        request.customersFile = some customersText ∧
        readCustomerEntries primitives parseBigUint customersText.toList = .ok entries ∧
        texts.length = entries.length ∧
        (∃ p, Gates primitives parseBigUint serde poseidon2 config context masterSecret request p ∧
          record = recordText serde (recordTree poseidon2 context request p).toRetainedTree
            request.attested.transactionHash) ∧
        log' = log ++ [.createDirAll request.out] ++
          (directoriesOf request request.registry context.asset).map .createDirPrivate ++
          packageOps directory texts ++ [.writePrivate (directory ++ [GENERATION_FILE]) record] ++
          reportOps directory request.reportFile ∧
        (fileNames texts.length).Nodup ∧
        ∀ i entry text, entries[i]? = some entry → texts[i]? = some text →
          (∃ package, Schema.parse serde poseidon2 text = .ok package ∧ package.id = entry.id ∧
            package.balance = entry.balance ∧ package.leafIndex.toNat = i) ∧
          ∀ chain attestation latestLedger,
            Holds chain context request request.registry attestation latestLedger →
            ∃ report, InclusionVerify.verify primitives serde poseidon2 text deployments chain =
                .ok (.included report) ∧
              report.balance = entry.balance ∧ report.leafIndex.toNat = i := by
  intro run
  have hdepthLe : ∀ shape : Shape, (configOf shape).capacity ≤ 2 ^ 32 → shape.depth ≤ 32 := by
    intro shape hle
    have hpow : 2 ^ shape.depth ≤ 2 ^ 32 := Shape.capacity_eq shape ▸ hle
    exact (Nat.pow_le_pow_iff_right (by norm_num)).mp hpow
  refine ⟨?_, ?_, ?_⟩
  · intro hne
    obtain ⟨p, hp⟩ := Run.exists_ok_of_log_ne hne
    exact ⟨p, plan_eq_ok.mp hp⟩
  · intro p hgates hdisk
    obtain ⟨shape, rfl, -⟩ := hgates.exists_shape hconfig
    obtain ⟨log', hwrite⟩ := exists_writePlan hgates (hdepthLe shape hcapacity) hdisk log
    exact ⟨log', Run.bind_eq_ok.mpr ⟨p, log, Run.ofExcept_eq_ok.mpr
      ⟨plan_eq_ok.mpr hgates, rfl⟩, hwrite⟩⟩
  · intro log' hrun hregistry hasset directory
    obtain ⟨p, mid, hplan, hwrite⟩ := Run.bind_eq_ok.mp hrun
    obtain ⟨hread, rfl⟩ := Run.ofExcept_eq_ok.mp hplan
    have hgates := plan_eq_ok.mp hread
    obtain ⟨shape, rfl, -⟩ := hgates.exists_shape hconfig
    obtain ⟨deployments, hdeployments, hfind⟩ := hgates.generation
    obtain ⟨customersText, hcustomers, hentries⟩ := hgates.customers
    have hname : p.generation.registry = request.registry := by
      obtain ⟨_, -, -, -, hname⟩ := Deployments.find_eq_some hfind
      exact hname
    have hdepth := hdepthLe shape hcapacity
    have hregistry' : Schema.isContract p.generation.registry = true := hname ▸ hregistry
    obtain ⟨texts, record, hlength, htexts, hrecord, hlog⟩ := writePlan_log hgates hwrite
    rw [generationJson_eq hgates hdepth, Except.ok.injEq] at hrecord
    rw [hname] at hlog
    refine ⟨deployments, customersText, p.customers.entries, texts, record, hdeployments,
      hcustomers, hentries, hlength, ⟨p, hgates, hrecord.symm⟩, hlog, ?_, ?_⟩
    · refine fileNames_nodup ?_
      rw [hlength, ← length_list]
      exact hgates.length_le.trans hcapacity
    · intro i entry text hentry htext
      have hjson := htexts i entry text hentry htext
      have hindex : (BitVec.ofNat 32 i).toNat = i := by
        have hlt : i < 2 ^ 32 :=
          (hgates.entry_lt hentry).1.trans_le (Nat.pow_le_pow_right (by norm_num) hdepth)
        rw [BitVec.toNat_ofNat, Nat.mod_eq_of_lt hlt]
      refine ⟨⟨_, Schema.parse_of_toJson hserde
        (valid_packageFor hgates hregistry' hasset hentry) hjson, rfl, rfl, hindex⟩, ?_⟩
      intro chain attestation latestLedger hholds
      exact ⟨_, verify_packageFor hgates hserde hregistry' hasset hdepth hentry hjson hdeployments
        (hname ▸ hholds), rfl, hindex⟩

end Runs

/-- A chain that holds the attestation of the sample customer. -/
def sampleHolder : InclusionVerify.Chain where
  attestation _ _ _ := .ok (.attested
    { contextHash := 9
      finalRoot := (sampleAttested sampleCustomer 1 (by decide)).root
      totalLiabilities := 100
      snapshotLedger := 7
      attestedLedger := 8 })
  latestLedger := .ok 9

/-- The one package of the sample customer. -/
theorem packages_exact_sample : ∃ text log' report,
    writePackages referencePrimitives referenceBigUint reference Poseidon2.hash (fun _ _ => none)
        (configOf sampleShape) sampleContextFile 5
        (sampleRequest "11,100" (sampleAttested sampleCustomer 1 (by decide)) none) [] =
      (.ok (), log') ∧
    .writePrivate (["out", "packages", "testnet", sampleRegistry, sampleAsset, decimalText 1] ++
      [packageFilename 0]) text ∈ log' ∧
    InclusionVerify.verify referencePrimitives reference Poseidon2.hash text
      (sampleText sampleGenerations) sampleHolder = .ok (.included report) ∧
    report.balance = 100 := by
  obtain ⟨-, hend, hexact⟩ := @packages_exact referencePrimitives referenceBigUint reference
    Poseidon2.hash (configOf sampleShape) sampleContextFile 5
    (sampleRequest "11,100" (sampleAttested sampleCustomer 1 (by decide)) none)
    reference_documented 2 2 2 (by decide) (by decide) (fun _ _ => none) []
  obtain ⟨log', hrun⟩ := hend _ sample_gates_first fun _ _ => rfl
  obtain ⟨deployments, customersText, entries, texts, record, hdeployments, hcustomers, hentries,
    hlength, -, hlog, -, htexts⟩ := hexact log' hrun isContract_sample.1 isContract_sample.2
  obtain ⟨text, htextAt, htext⟩ := sample_gates_first.customers
  have hdeployments := Option.some.inj hdeployments
  have hcustomers := Option.some.inj (htextAt.symm.trans hcustomers)
  rw [← hcustomers] at hentries
  obtain rfl := Except.ok.inj (htext.symm.trans hentries)
  rw [← hdeployments] at htexts
  obtain ⟨text, rfl⟩ := List.length_eq_one_iff.mp hlength
  obtain ⟨-, hverify⟩ := htexts 0 ⟨11, 100, .legacy⟩ text rfl rfl
  obtain ⟨report, hreport, hbalance, -⟩ := hverify sampleHolder _ _ ⟨rfl, rfl, rfl, rfl, rfl⟩
  refine ⟨text, log', report, hrun, ?_, hreport, hbalance⟩
  rw [hlog]
  simp only [List.mem_append]
  exact .inl (.inl (.inr List.mem_cons_self))

/-! ## The prior tree -/

/-- What the check of a prior tree compares. -/
theorem checkPrior_eq_ok {prior : PriorInput} {network registry asset : String}
    {current : List Row} {capacity : Nat} :
    checkPrior prior network registry asset current capacity = .ok () ↔
      ∃ tree, prior.manifest = .ok tree ∧ tree.binding.network = network ∧
        tree.binding.registry = registry ∧ tree.binding.asset = asset ∧
        tree.binding.attestationId = prior.id ∧ tree.binding.root = prior.root ∧
        tree.binding.contextHash = prior.context ∧
        tree.binding.treeDepth.toNat = trailingZeros capacity ∧
        ∀ id ∈ tree.identifiers, id ∈ current.map Prod.fst := by
  unfold checkPrior
  cases hmanifest : prior.manifest with
  | error reason => simp
  | ok tree =>
    simp only [Except.ok.injEq, exists_eq_left']
    split
    · rename_i hne
      simp only [reduceCtorEq, false_iff]
      rintro ⟨h1, h2, h3, h4, h5, h6, h7, -⟩
      rcases hne with h | h | h | h | h | h | h <;> contradiction
    · rename_i heq
      simp only [not_or, not_not] at heq
      obtain ⟨h1, h2, h3, h4, h5, h6, h7⟩ := heq
      split
      · rename_i id hfind
        have hmem := List.mem_of_find?_eq_some hfind
        have hnot : id ∉ current.map Prod.fst := by simpa using List.find?_some hfind
        simp only [reduceCtorEq, false_iff]
        exact fun hall => hnot (hall.2.2.2.2.2.2.2 id hmem)
      · rename_i hfind
        rw [List.find?_eq_none] at hfind
        simp only [true_iff]
        exact ⟨h1, h2, h3, h4, h5, h6, h7, fun id hid => by simpa using hfind id hid⟩

/-! ## Runs that continue each other -/

/-- One run of the command: what it reads, and how the disk behaves. -/
structure Session where
  config : Config
  context : AttestationContext
  masterSecret : U256
  request : GenerationRequest
  refuses : List FileOp → FileOp → Option String
  log : List FileOp
  shaped : ∃ batchB numBatchesK nodeHashArity, readShape batchB numBatchesK nodeHashArity = .ok config
  capacity_le : config.capacity ≤ 2 ^ 32

/-- The later tree stands in the same place, has the same depth, and keeps every customer. -/
structure Keeps (tree later : Retained.Tree) : Prop where
  network : later.binding.network = tree.binding.network
  registry : later.binding.registry = tree.binding.registry
  asset : later.binding.asset = tree.binding.asset
  treeDepth : later.binding.treeDepth = tree.binding.treeDepth
  customers : ∀ id ∈ tree.identifiers, id ∈ later.identifiers

theorem Keeps.refl (tree : Retained.Tree) : Keeps tree tree :=
  ⟨rfl, rfl, rfl, rfl, fun _ hid => hid⟩

theorem Keeps.trans {tree later last : Retained.Tree} (h : Keeps tree later) (h' : Keeps later last) :
    Keeps tree last where
  network := h'.network.trans h.network
  registry := h'.registry.trans h.registry
  asset := h'.asset.trans h.asset
  treeDepth := h'.treeDepth.trans h.treeDepth
  customers := fun id hid => h'.customers id (h.customers id hid)

section Sessions
variable (primitives : Identity.Primitives) (parseBigUint : BigUintParser) (serde : SerdeJson)
  (poseidon2 : List Fr → Fr)

/-- The run ends, and this is the record that it wrote. -/
def Session.Ends (s : Session) (record : String) : Prop :=
  ∃ ops, writePackages primitives parseBigUint serde poseidon2 s.refuses s.config s.context
      s.masterSecret s.request s.log = (.ok (), s.log ++ ops) ∧
    .writePrivate (directoryOf s.request s.request.registry s.context.asset ++ [GENERATION_FILE])
      record ∈ ops

/-- The tree belongs to the run: its attestation, and its customers in row order. -/
structure Session.Recorded (s : Session) (record : String) (tree : Retained.Tree) : Prop where
  parses : Retained.parseTree serde poseidon2 record = .ok tree
  network : tree.binding.network = s.request.network
  registry : tree.binding.registry = s.request.registry
  asset : tree.binding.asset = s.context.asset
  attestationId : tree.binding.attestationId = s.request.attested.id
  snapshot : tree.binding.snapshotLedger = s.context.snapshotLedger
  contextHash : tree.binding.contextHash = toBig s.context.hash
  root : tree.binding.root = s.request.attested.root
  depth : tree.binding.treeDepth.toNat = trailingZeros s.config.capacity
  customers : ∃ text entries, s.request.customersFile = some text ∧
    readCustomerEntries primitives parseBigUint text.toList = .ok entries ∧
    tree.identifiers = entries.map CustomerEntry.id ∧ tree.count = entries.length

variable {primitives parseBigUint serde poseidon2} {s : Session} {record : String}

/-- The record of a run is that of its plan. -/
theorem Session.Ends.gates (h : s.Ends primitives parseBigUint serde poseidon2 record) :
    ∃ (shape : Shape) (p : Plan), s.config = configOf shape ∧ shape.depth ≤ 32 ∧
      p.generation.registry = s.request.registry ∧
      Gates primitives parseBigUint serde poseidon2 (configOf shape) s.context s.masterSecret
        s.request p ∧
      record = recordText serde (recordTree poseidon2 s.context s.request p).toRetainedTree
        s.request.attested.transactionHash := by
  obtain ⟨ops, hrun, hrecord⟩ := h
  obtain ⟨batchB, numBatchesK, nodeHashArity, hconfig⟩ := s.shaped
  obtain ⟨p, mid, hplan, hwrite⟩ := Run.bind_eq_ok.mp hrun
  obtain ⟨hread, rfl⟩ := Run.ofExcept_eq_ok.mp hplan
  have hgates := plan_eq_ok.mp hread
  obtain ⟨shape, hshape, -⟩ := hgates.exists_shape hconfig
  rw [hshape] at hgates
  have hdepth : shape.depth ≤ 32 := by
    have hle : (configOf shape).capacity ≤ 2 ^ 32 := hshape ▸ s.capacity_le
    have hpow : 2 ^ shape.depth ≤ 2 ^ 32 := Shape.capacity_eq shape ▸ hle
    exact (Nat.pow_le_pow_iff_right (by norm_num)).mp hpow
  obtain ⟨text, -, hfind⟩ := hgates.generation
  have hname : p.generation.registry = s.request.registry := by
    obtain ⟨_, -, -, -, hname⟩ := Deployments.find_eq_some hfind
    exact hname
  obtain ⟨texts, written, -, -, hjson, hlog⟩ := writePlan_log hgates hwrite
  rw [generationJson_eq hgates hdepth] at hjson
  obtain rfl := Except.ok.inj hjson
  simp only [List.append_assoc, List.append_cancel_left_eq] at hlog
  refine ⟨shape, p, hshape, hdepth, hname, hgates, ?_⟩
  -- no other operation of the run writes this file
  rw [hlog, hname] at hrecord
  simp only [List.mem_append, List.mem_singleton, List.mem_map, reduceCtorEq, and_false,
    exists_false, false_or, packageOps, FileOp.writePrivate.injEq] at hrecord
  rcases hrecord with ⟨entry, -, hpath, -⟩ | ⟨-, hrecord⟩ | hreport
  · have hlast := List.append_cancel_left hpath
    exact absurd (List.singleton_inj.mp hlast) (packageFilename_ne _)
  · exact hrecord
  · cases hfile : s.request.reportFile with
    | none => simp [hfile, reportOps] at hreport
    | some report => simp [hfile, reportOps] at hreport

/-- A run that passes the gates on a disk that refuses nothing leaves its record. -/
theorem Session.exists_ends {shape : Shape} {p : Plan} (hshape : s.config = configOf shape)
    (hgates : Gates primitives parseBigUint serde poseidon2 (configOf shape) s.context s.masterSecret
      s.request p) (hdisk : ∀ log op, s.refuses log op = none) :
    ∃ record, s.Ends primitives parseBigUint serde poseidon2 record := by
  have hdepth : shape.depth ≤ 32 := by
    have hle : (configOf shape).capacity ≤ 2 ^ 32 := hshape ▸ s.capacity_le
    have hpow : 2 ^ shape.depth ≤ 2 ^ 32 := Shape.capacity_eq shape ▸ hle
    exact (Nat.pow_le_pow_iff_right (by norm_num)).mp hpow
  obtain ⟨text, -, hfind⟩ := hgates.generation
  have hname : p.generation.registry = s.request.registry := by
    obtain ⟨_, -, -, -, hname⟩ := Deployments.find_eq_some hfind
    exact hname
  obtain ⟨log', hwrite⟩ := exists_writePlan hgates hdepth hdisk s.log
  obtain ⟨texts, record, -, -, -, hlog⟩ := writePlan_log hgates hwrite
  have hrun : writePackages primitives parseBigUint serde poseidon2 s.refuses s.config s.context
      s.masterSecret s.request s.log = (.ok (), log') := by
    rw [hshape]
    exact Run.bind_eq_ok.mpr ⟨p, s.log, Run.ofExcept_eq_ok.mpr ⟨plan_eq_ok.mpr hgates, rfl⟩, hwrite⟩
  simp only [List.append_assoc] at hlog
  rw [hlog, hname] at hrun
  refine ⟨record, _, hrun, ?_⟩
  simp only [List.mem_append]
  exact .inr (.inr (.inr (.inl (List.mem_singleton.mpr rfl))))

/-- **The reader takes the record of a run**, and finds its customers in it. -/
theorem Session.Ends.recorded (hserde : Documented serde)
    (h : s.Ends primitives parseBigUint serde poseidon2 record) (hregistry : s.request.registry ≠ "")
    (hasset : s.context.asset ≠ "") (hhash : s.request.attested.transactionHash ≠ "") :
    ∃ tree, s.Recorded primitives parseBigUint serde poseidon2 record tree := by
  obtain ⟨shape, p, hshape, hdepth, hname, hgates, rfl⟩ := h.gates
  have hpos : 0 < shape.depth := by
    refine Nat.pos_of_ne_zero fun hzero => ?_
    have hcapacity := shape.capacity_eq
    rw [hzero, pow_zero] at hcapacity
    have hfour : 2 * 2 ≤ shape.b * shape.k := Nat.mul_le_mul shape.two_le_b shape.two_le_k
    exact absurd (hcapacity ▸ hfour : 2 * 2 ≤ 1) (by norm_num)
  have hwf := wellFormed_recordTree hgates hpos hdepth
  obtain ⟨text, htext, hentries⟩ := hgates.customers
  refine ⟨recordTree poseidon2 s.context s.request p, ?_⟩
  exact {
    parses := parseTree_recordText hserde hwf {
      network := hgates.network.1
      registry := by
        change p.generation.registry ≠ ""
        rwa [hname]
      asset := hasset
      attestationId := s.request.attested.id_ne
      contextHash := s.request.attested.context_lt
      root := s.request.attested.root_lt } hhash
    network := rfl
    registry := hname
    asset := rfl
    attestationId := rfl
    snapshot := hgates.snapshot.symm
    contextHash := hgates.contextHash.symm
    root := rfl
    depth := by
      change (BitVec.ofNat 32 p.generation.treeDepth).toNat = _
      rw [hshape, hgates.depth_eq, BitVec.toNat_ofNat, Nat.mod_eq_of_lt (by omega)]
      exact (trailingZeros_capacity shape).symm
    customers := ⟨text, _, htext, hentries, by
      rw [hwf.identifiers]
      exact customersOf_front hgates.fst_leafPairs hgates.ids_ne, rfl⟩ }

/-- **The next run** takes the next attestation, in the same place and depth, and keeps every
customer. -/
theorem Session.Recorded.next {tree : Retained.Tree}
    (htree : s.Recorded primitives parseBigUint serde poseidon2 record tree) {s' : Session}
    {record' : String} {tree' : Retained.Tree}
    (hends : s'.Ends primitives parseBigUint serde poseidon2 record')
    (htree' : s'.Recorded primitives parseBigUint serde poseidon2 record' tree') {prior : PriorFile}
    (hprior : s'.request.prior = some prior) (hmanifest : prior.manifest = some record) :
    tree'.binding.attestationId.toNat = tree.binding.attestationId.toNat + 1 ∧
      Keeps tree tree' := by
  obtain ⟨shape, p, hshape, -, hname, hgates, -⟩ := hends.gates
  have hcheck := hgates.prior
  rw [checkPriorFile, hprior] at hcheck
  obtain ⟨_, hnext, hcheck⟩ := bind_eq_ok.mp hcheck
  have hnext := checkedAdd_eq_some.mp (assertThat_eq_ok.mp hnext)
  obtain ⟨found, hfound, hnetwork, hregistry, hasset, hid, -, -, hdepth, hkept⟩ :=
    checkPrior_eq_ok.mp hcheck
  have hread : (priorInput serde poseidon2 prior).manifest = .ok tree.toRetainedTree := by
    simp only [priorInput, hmanifest, Generator.orPanic, htree.parses, Except.mapError, bind,
      Except.bind, pure, Except.pure]
  obtain rfl := Except.ok.inj (hread.symm.trans hfound)
  refine ⟨?_, ⟨?_, ?_, ?_, ?_, ?_⟩⟩
  · rw [htree'.attestationId, hnext, hid]
    rfl
  · rw [htree'.network, hnetwork]
  · rw [htree'.registry, hregistry, hname]
  · rw [htree'.asset, hasset]
  · refine BitVec.eq_of_toNat_eq ?_
    rw [htree'.depth, hdepth, hshape]
  · intro id hid
    obtain ⟨text, entries, htext, hentries, hids, -⟩ := htree'.customers
    obtain ⟨text', htext', hentries'⟩ := hgates.customers
    obtain rfl := Option.some.inj (htext.symm.trans htext')
    obtain rfl := Except.ok.inj (hentries.symm.trans hentries')
    rw [hids]
    have hmem := hkept id hid
    have hrows : p.customers.list.rows.map Prod.fst = p.customers.entries.map CustomerEntry.id :=
      List.map_map
    rwa [hrows] at hmem

/-- **No customer leaves.**  In a sequence of runs of any length whose first has no prior tree
and whose every other run takes the record of the run before, the `i`-th run carries the
attestation identifier `i`, its record is read as a tree of its attestation with its
customers in row order, and every later tree stands in the same place, has the same depth,
and names every customer of this one. -/
theorem customers_continue (hserde : Documented serde) {sessions : Nat → Session}
    {records : Nat → String} {n : Nat}
    (hends : ∀ i < n, (sessions i).Ends primitives parseBigUint serde poseidon2 (records i))
    (hplace : ∀ i < n, (sessions i).request.registry ≠ "" ∧ (sessions i).context.asset ≠ "" ∧
      (sessions i).request.attested.transactionHash ≠ "")
    (hfirst : (sessions 0).request.prior = none)
    (hnext : ∀ i, i + 1 < n → ∃ prior, (sessions (i + 1)).request.prior = some prior ∧
      prior.manifest = some (records i)) :
    ∃ trees : Nat → Retained.Tree,
      (∀ i < n, (sessions i).Recorded primitives parseBigUint serde poseidon2 (records i) (trees i) ∧
        (trees i).binding.attestationId.toNat = i + 1) ∧
      ∀ i j, i ≤ j → j < n → Keeps (trees i) (trees j) := by
  have hrecorded : ∀ i, ∃ tree, i < n →
      (sessions i).Recorded primitives parseBigUint serde poseidon2 (records i) tree := by
    intro i
    by_cases hi : i < n
    · obtain ⟨hregistry, hasset, hhash⟩ := hplace i hi
      obtain ⟨tree, htree⟩ := (hends i hi).recorded hserde hregistry hasset hhash
      exact ⟨tree, fun _ => htree⟩
    · exact ⟨⟨⟨⟨"", "", "", 0, 0, 0, 0, 0⟩, [], 0⟩, []⟩, fun h => absurd h hi⟩
  choose trees htrees using hrecorded
  have hstep : ∀ i, i + 1 < n → (trees (i + 1)).binding.attestationId.toNat =
      (trees i).binding.attestationId.toNat + 1 ∧ Keeps (trees i) (trees (i + 1)) := by
    intro i hi
    obtain ⟨prior, hprior, hmanifest⟩ := hnext i hi
    exact (htrees i (by omega)).next (hends (i + 1) hi) (htrees (i + 1) hi) hprior hmanifest
  refine ⟨trees, fun i hi => ⟨htrees i hi, ?_⟩, ?_⟩
  -- the identifiers count up from the first run, which has no prior tree
  · induction i with
    | zero =>
      obtain ⟨_, p, -, -, -, hgates, -⟩ := (hends 0 hi).gates
      have hcheck := hgates.prior
      rw [checkPriorFile, hfirst] at hcheck
      rw [(htrees 0 hi).attestationId, assertThat_eq_ok.mp hcheck]
      rfl
    | succ i ih =>
      rw [(hstep i hi).1, ih (by omega)]
  · intro i j hij hj
    induction j, hij using Nat.le_induction with
    | base => exact Keeps.refl _
    | succ j hij ih => exact (ih (by omega)).trans (hstep j hj).2

end Sessions

/-! ## Two generations -/

/-- The customer of the first generation, and a new one. -/
def sampleCustomers₂ : CustomerEntries := ⟨[⟨11, 0, .legacy⟩, ⟨12, 5, .legacy⟩], rfl⟩

/-- A run over some customers. -/
def sampleSession (text : String) (attested : AttestedEntry) (prior : Option PriorFile) : Session where
  config := configOf sampleShape
  context := sampleContextFile
  masterSecret := 5
  request := sampleRequest text attested prior
  refuses _ _ := none
  log := []
  shaped := ⟨2, 2, 2, by decide⟩
  capacity_le := by decide

def sampleFirst : Session :=
  sampleSession "11,100" (sampleAttested sampleCustomer 1 (by decide)) none

/-- The run behind the first one. -/
def sampleSecond (record : String) : Session :=
  sampleSession "11,0\n12,5" (sampleAttested sampleCustomers₂ 2 (by decide)) (some
    { manifest := some record
      id := 1
      root := (sampleAttested sampleCustomer 1 (by decide)).root
      context := 9 })

theorem exists_sampleFirst : ∃ record,
    sampleFirst.Ends referencePrimitives referenceBigUint reference Poseidon2.hash record :=
  Session.exists_ends rfl sample_gates_first fun _ _ => rfl

theorem exists_sampleSecond {record : String}
    (h : sampleFirst.Ends referencePrimitives referenceBigUint reference Poseidon2.hash record) :
    ∃ record', (sampleSecond record).Ends referencePrimitives referenceBigUint reference
      Poseidon2.hash record' := by
  obtain ⟨tree, htree⟩ := h.recorded reference_documented
    (ne_empty_of_isContract isContract_sample.1) (ne_empty_of_isContract isContract_sample.2)
    (by decide)
  obtain ⟨text, entries, htext, hentries, hids, -⟩ := htree.customers
  have htext := Option.some.inj htext
  rw [← htext] at hentries
  obtain rfl := Except.ok.inj (read_sampleCustomer.symm.trans hentries)
  have hmanifest : (priorInput reference Poseidon2.hash ⟨some record, 1,
      (sampleAttested sampleCustomer 1 (by decide)).root, 9⟩).manifest = .ok tree.toRetainedTree := by
    simp only [priorInput, Generator.orPanic, htree.parses, Except.mapError, bind, Except.bind, pure,
      Except.pure]
  refine Session.exists_ends rfl (sample_gates (by decide) (by decide) (by decide +kernel) ?_)
    fun _ _ => rfl
  have hnext : checkedAdd (1 : U64) 1 = some 2 := by decide
  refine bind_eq_ok.mpr ⟨(), assertThat_eq_ok.mpr hnext, checkPrior_eq_ok.mpr
    ⟨tree.toRetainedTree, hmanifest, htree.network, htree.registry, htree.asset,
      htree.attestationId, htree.root, htree.contextHash, htree.depth, ?_⟩⟩
  rw [hids]
  decide

/-- The customer of the first generation is in the tree of the second. -/
theorem customers_continue_sample : ∃ record record' tree tree',
    sampleFirst.Ends referencePrimitives referenceBigUint reference Poseidon2.hash record ∧
    (sampleSecond record).Ends referencePrimitives referenceBigUint reference Poseidon2.hash
      record' ∧
    Retained.parseTree reference Poseidon2.hash record = .ok tree ∧
    Retained.parseTree reference Poseidon2.hash record' = .ok tree' ∧
    tree'.binding.attestationId.toNat = 2 ∧ Keeps tree tree' := by
  obtain ⟨record, hfirst⟩ := exists_sampleFirst
  obtain ⟨record', hsecond⟩ := exists_sampleSecond hfirst
  have hcases : ∀ i < 2, i = 0 ∨ i = 1 := by omega
  have hregistry := ne_empty_of_isContract isContract_sample.1
  have hasset := ne_empty_of_isContract isContract_sample.2
  have hhash : sampleFirst.request.attested.transactionHash ≠ "" := by decide
  obtain ⟨trees, htrees, hkeeps⟩ := @customers_continue referencePrimitives referenceBigUint
    reference Poseidon2.hash reference_documented
    (fun i => if i = 0 then sampleFirst else sampleSecond record)
    (fun i => if i = 0 then record else record') 2
    (fun i hi => by
      rcases hcases i hi with rfl | rfl
      · exact hfirst
      · exact hsecond)
    (fun i hi => by
      rcases hcases i hi with rfl | rfl
      · exact ⟨hregistry, hasset, hhash⟩
      · exact ⟨hregistry, hasset, hhash⟩)
    rfl (fun i hi => by
      obtain rfl : i = 0 := by omega
      exact ⟨_, rfl, rfl⟩)
  exact ⟨record, record', trees 0, trees 1, hfirst, hsecond, (htrees 0 (by norm_num)).1.parses,
    (htrees 1 (by norm_num)).1.parses, (htrees 1 (by norm_num)).2,
    hkeeps 0 1 (by norm_num) (by norm_num)⟩

end ZkPoR.Generation
