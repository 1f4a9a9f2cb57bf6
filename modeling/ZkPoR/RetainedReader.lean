import ZkPoR.CustomerFile
import ZkPoR.SerdeWriting
import ZkPoR.TreeAgreement

/-! # The reader of a redacted tree

`retained.rs`: the reader of the file that the authority keeps of one generation, the
reader of a request, and the answer to it.  The reader rebuilds the tree from the
leaves and compares its root, so what it accepts is a full tree with the customers in
front (`WellFormed`), and `parseTree_eq_ok` says from which values it reads one.
-/
namespace ZkPoR.Retained
open CheckedInt BoundedLoop SerdeJson Package
open Schema (IsFr asStr_eq_some asU64_eq_some asArray_eq_some asObject_eq_some mapError_eq_ok)

def RETAINED_TREE_FORMAT : String := "zkpor-redacted-tree/1"
def TREE_FIELDS : List String :=
  ["format", "network", "registry", "asset", "attestation_id", "snapshot_ledger", "context_hash",
    "root", "tree_depth", "count", "transaction_hash", "leaves"]
def REQUEST_FIELDS : List String :=
  ["network", "registry", "asset", "attestation_id", "snapshot_ledger", "context_hash", "root",
    "tree_depth", "identifier"]
def LEAF_FIELDS : List String := ["id", "commitment"]

/-- A redacted tree as its reader holds it, with the levels that an answer reads. -/
structure Tree extends RetainedTree where
  levels : List (List U256)

/-- What a dispute asks of one tree. -/
structure AnswerRequest where
  binding : TreeBinding
  identifier : Nat
deriving DecidableEq

/-! ## Fields -/

def orRefuse {α : Type} (x : Option α) (reason : String) : Except (Halt String) α :=
  match x with
  | some a => .ok a
  | none => .error (.error reason)

def require (p : Prop) [Decidable p] (reason : String) : Except (Halt String) Unit :=
  if p then .ok () else .error (.error reason)

def text (value : Value) (key : String) : Except (Halt String) String :=
  orRefuse ((value.index key).asStr.filter fun s => s ≠ "") s!"{key} must be nonempty text"

def u32Field (value : Value) (key : String) : Except (Halt String) U32 := do
  let number ← orRefuse ((value.index key).asU64.filter fun n => n.toNat < 2 ^ 32)
    s!"{key} must be a u32"
  return number.setWidth 32

def field (value : Value) (key : String) : Except (Halt String) Nat := do
  let source ← text value key
  (parsePackageFr source).mapError fun _ => .error s!"{key} must be a canonical field element"

/-- The value is an object with these keys and no other. -/
def exactKeys (value : Value) (keys : List String) : Except (Halt String) Unit := do
  let object ← orRefuse value.asObject "an object is required"
  require (object.length = keys.length ∧ ∀ key ∈ keys, (value.get key).isSome = true)
    "the object has missing or unexpected fields"

/-- The positive number that a text writes in its one form. -/
def attestationIdOf (source : String) : Option U64 :=
  (Generator.parseU64Text source.toList).filter fun id =>
    0 < id.toNat ∧ decimalText id.toNat = source

def binding (value : Value) : Except (Halt String) TreeBinding := do
  let idText ← text value "attestation_id"
  let attestationId ← orRefuse (attestationIdOf idText)
    "attestation_id must be a canonical positive u64 string"
  let network ← text value "network"
  let registry ← text value "registry"
  let asset ← text value "asset"
  let snapshotLedger ← u32Field value "snapshot_ledger"
  let contextHash ← field value "context_hash"
  let root ← field value "root"
  let treeDepth ← u32Field value "tree_depth"
  return {
    network, registry, asset, attestationId, snapshotLedger, contextHash, root, treeDepth }

/-! ## The readers -/

/-- What the loop over the leaves has collected. -/
structure LeafState where
  identifiers : List Nat
  padded : Bool
  entries : List (Nat × Nat)
  hashes : List U256

section Reader
variable (serde : SerdeJson) (poseidon2 : List Fr → Fr)

def parseRequest (source : String) : Except (Halt String) AnswerRequest := do
  let value ← (serde.fromStr source).mapError fun _ => .error "the answer request is not JSON"
  exactKeys value REQUEST_FIELDS
  let identifier ← field value "identifier"
  require (identifier ≠ PADDING_LEAF_ID) "the padding identifier cannot receive an answer"
  let binding ← binding value
  return { binding, identifier }

/-- The rules on the identifier of one leaf, and the identifiers with it. -/
def identifierStep (s : LeafState) (id : Nat) : Except (Halt String) LeafState :=
  if id = PADDING_LEAF_ID then .ok { s with padded := true }
  else do
    require (s.padded = false) "a customer follows a padding leaf"
    require (id ∉ s.identifiers) "a customer identifier repeats"
    return { s with identifiers := id :: s.identifiers }

/-- One iteration of the loop over the leaves. -/
def leafStep (s : LeafState) (entry : Value) : Except (Halt String) LeafState := do
  exactKeys entry LEAF_FIELDS
  let id ← field entry "id"
  let commitment ← field entry "commitment"
  let s ← identifierStep s id
  let idElement ← Halt.ofPanic (Generator.toFr id)
  let commitmentElement ← Halt.ofPanic (Generator.toFr commitment)
  return { s with
    hashes := s.hashes ++ [leafHash poseidon2 idElement commitmentElement]
    entries := s.entries ++ [(id, commitment)] }

def parseTree (source : String) : Except (Halt String) Tree := do
  let value ← (serde.fromStr source).mapError fun _ => .error "the redacted tree is not JSON"
  exactKeys value TREE_FIELDS
  let format ← text value "format"
  require (format = RETAINED_TREE_FORMAT) "the redacted tree format is unsupported"
  let binding ← binding value
  require (¬ (binding.treeDepth.toNat = 0 ∨ 32 < binding.treeDepth.toNat))
    "the tree depth cannot use u32 positions"
  let capacity ← orRefuse (checkedShl (1 : U64) binding.treeDepth.toNat)
    "the tree capacity does not fit this host"
  let leaves ← orRefuse (value.index "leaves").asArray "the redacted tree must have leaves"
  require (leaves.length = capacity.toNat) "the redacted tree must contain every leaf"
  let _ ← text value "transaction_hash"
  let s ← leaves.foldlM (leafStep poseidon2) ⟨[], false, [], []⟩
  let count := s.identifiers.length
  require ((value.index "count").asU64 = some (BitVec.ofNat 64 count))
    "the customer count differs from the redacted leaves"
  let levels := treeLevels poseidon2 s.hashes
  require ((levels.getLast?.bind List.head?).map Generator.toBig = some binding.root)
    "the redacted tree does not reach its root"
  return { binding, entries := s.entries, levels, count }

/-- The public answer to one request. -/
def answer (tree : Tree) (request : AnswerRequest) : Except (Halt String) String := do
  require (tree.binding = request.binding)
    "the redacted tree differs from the requested attestation"
  let position ← orRefuse
    ((tree.entries.take tree.count).findIdx? fun entry => entry.1 = request.identifier)
    "the requested identifier is absent from the redacted tree"
  let entry ← Halt.ofPanic (Generator.index tree.entries position)
  let siblings ← Halt.ofPanic (pathInLevels tree.levels position)
  let path ← Halt.ofPanic (siblings.mapM fun element => frHex (Generator.toBig element))
  let id ← Halt.ofPanic (frHex entry.1)
  let commitment ← Halt.ofPanic (frHex entry.2)
  let position ← orRefuse (if position < 2 ^ 32 then some (BitVec.ofNat 64 position) else none)
    "the position does not fit u32"
  let value := jsonObject
    [("id", .string id), ("commitment", .string commitment),
      ("position", .number (.posInt position)), ("path", .array (path.map .string))]
  return serde.toStringPretty value ++ "\n"

end Reader

/-! ## What the fields take -/

/-- The value is a text that is not empty. -/
def IsText (value : Value) (s : String) : Prop := value = .string s ∧ s ≠ ""

theorem orRefuse_eq_ok {α : Type} {x : Option α} {reason : String} {a : α} :
    orRefuse x reason = .ok a ↔ x = some a := by
  cases x <;> simp [orRefuse]

theorem require_eq_ok {p : Prop} [Decidable p] {reason : String} {u : Unit} :
    require p reason = .ok u ↔ p := by
  unfold require
  split <;> simp_all

theorem text_eq_ok {value : Value} {key s : String} :
    text value key = .ok s ↔ IsText (value.index key) s := by
  rw [text, orRefuse_eq_ok, Option.filter_eq_some_iff, asStr_eq_some, decide_eq_true_eq]
  rfl

theorem u32Field_eq_ok {value : Value} {key : String} {n : U32} :
    u32Field value key = .ok n ↔ value.index key = .number (.posInt (n.setWidth 64)) := by
  have hwide : (n.setWidth 64).toNat = n.toNat := by
    rw [BitVec.toNat_setWidth, Nat.mod_eq_of_lt (by omega)]
  simp only [u32Field, bind_eq_ok, orRefuse_eq_ok, Option.filter_eq_some_iff, asU64_eq_some,
    decide_eq_true_eq]
  constructor
  · rintro ⟨number, ⟨hnumber, hlt⟩, hout⟩
    cases hout
    rw [hnumber]
    congr 2
    refine BitVec.eq_of_toNat_eq ?_
    rw [hwide, BitVec.toNat_setWidth, Nat.mod_eq_of_lt hlt]
  · intro h
    refine ⟨_, ⟨h, by rw [hwide]; exact n.isLt⟩, ?_⟩
    exact congrArg Except.ok (BitVec.eq_of_toNat_eq (by
      rw [BitVec.toNat_setWidth, hwide, Nat.mod_eq_of_lt n.isLt]))

theorem hexText_ne_empty (x : U256) : hexText x ≠ "" := by
  intro h
  have hlist := congrArg String.toList h
  rw [toList_hexText] at hlist
  cases hlist

theorem field_eq_ok {value : Value} {key : String} {v : Nat} :
    field value key = .ok v ↔ IsFr (value.index key) v := by
  simp only [field, bind_eq_ok, text_eq_ok, mapError_eq_ok, parsePackageFr_eq_ok]
  constructor
  · rintro ⟨_, ⟨hvalue, -⟩, hlt, rfl⟩
    exact ⟨hvalue, hlt⟩
  · rintro ⟨hvalue, hlt⟩
    exact ⟨_, ⟨hvalue, hexText_ne_empty _⟩, hlt, rfl⟩

/-- The value is an object, and these are its keys. -/
def HasExactKeys (value : Value) (keys : List String) : Prop :=
  ∃ members, value = .object members ∧ members.length = keys.length ∧
    ∀ key ∈ keys, (value.get key).isSome = true

theorem exactKeys_eq_ok {value : Value} {keys : List String} {u : Unit} :
    exactKeys value keys = .ok u ↔ HasExactKeys value keys := by
  simp only [exactKeys, bind_eq_ok, orRefuse_eq_ok, asObject_eq_some, require_eq_ok]
  exact ⟨fun ⟨members, hvalue, h⟩ => ⟨members, hvalue, h⟩, fun ⟨members, hvalue, h⟩ =>
    ⟨members, hvalue, h⟩⟩

theorem attestationIdOf_eq_some {source : String} {id : U64} :
    attestationIdOf source = some id ↔ id ≠ 0 ∧ source = decimalText id.toNat := by
  have hpos : 0 < id.toNat ↔ id ≠ 0 := by
    rw [Nat.pos_iff_ne_zero, ne_eq, ne_eq, ← BitVec.toNat_inj]
    rfl
  rw [attestationIdOf, Option.filter_eq_some_iff, decide_eq_true_eq, hpos]
  constructor
  · rintro ⟨-, hne, hsource⟩
    exact ⟨hne, hsource.symm⟩
  · rintro ⟨hne, rfl⟩
    refine ⟨?_, hne, rfl⟩
    have hdigits := DecimalText.isDecimal_toDigits id.toNat
    have hprefix : List.isPrefixOf? ['+'] (Nat.toDigits 10 id.toNat) = none := by
      obtain ⟨c, cs, hcons⟩ := List.exists_cons_of_ne_nil hdigits.1
      have hc : c ≠ '+' := by
        rintro rfl
        have := hdigits.2.2 '+' (by rw [hcons]; exact List.mem_cons_self)
        cases this
      rw [hcons]
      simp [List.isPrefixOf?, Ne.symm hc]
    rw [decimalText, String.toList_ofList, Generator.parseU64Text, hprefix, Option.getD_none,
      if_neg (by simp only [hdigits.1, false_or, not_not, List.all_eq_true]; exact hdigits.2.2),
      Nat.ofDigitChars_ten_toDigits, if_pos id.isLt, BitVec.ofNat_toNat, BitVec.setWidth_eq]

/-- The object names the attestation. -/
structure IsBinding (value : Value) (b : TreeBinding) : Prop where
  network : IsText (value.index "network") b.network
  registry : IsText (value.index "registry") b.registry
  asset : IsText (value.index "asset") b.asset
  attestationId : value.index "attestation_id" = .string (decimalText b.attestationId.toNat)
  attestationPos : b.attestationId ≠ 0
  snapshotLedger :
    value.index "snapshot_ledger" = .number (.posInt (b.snapshotLedger.setWidth 64))
  contextHash : IsFr (value.index "context_hash") b.contextHash
  root : IsFr (value.index "root") b.root
  treeDepth : value.index "tree_depth" = .number (.posInt (b.treeDepth.setWidth 64))

theorem decimalText_ne_empty (n : Nat) : decimalText n ≠ "" := by
  intro h
  have hlist := congrArg String.toList h
  rw [decimalText, String.toList_ofList] at hlist
  exact (DecimalText.isDecimal_toDigits n).1 hlist

theorem binding_eq_ok {value : Value} {b : TreeBinding} :
    binding value = .ok b ↔ IsBinding value b := by
  simp only [binding, bind_eq_ok, text_eq_ok, orRefuse_eq_ok, attestationIdOf_eq_some,
    u32Field_eq_ok, field_eq_ok]
  constructor
  · rintro ⟨_, ⟨hid, -⟩, id, ⟨hpos, rfl⟩, network, hnetwork, registry, hregistry, asset, hasset,
      snapshot, hsnapshot, context, hcontext, root, hroot, depth, hdepth, hout⟩
    cases hout
    exact ⟨hnetwork, hregistry, hasset, hid, hpos, hsnapshot, hcontext, hroot, hdepth⟩
  · intro h
    exact ⟨_, ⟨h.attestationId, decimalText_ne_empty _⟩, _, ⟨h.attestationPos, rfl⟩, _, h.network,
      _, h.registry, _, h.asset, _, h.snapshotLedger, _, h.contextHash, _, h.root, _, h.treeDepth,
      rfl⟩

/-- The value is a request. -/
structure IsRequest (value : Value) (request : AnswerRequest) : Prop where
  keys : HasExactKeys value REQUEST_FIELDS
  identifier : IsFr (value.index "identifier") request.identifier
  identifierNe : request.identifier ≠ PADDING_LEAF_ID
  binding : IsBinding value request.binding

theorem parseRequest_eq_ok {serde : SerdeJson} {source : String} {request : AnswerRequest} :
    parseRequest serde source = .ok request ↔
      ∃ value, serde.fromStr source = .ok value ∧ IsRequest value request := by
  simp only [parseRequest, bind_eq_ok, mapError_eq_ok, exactKeys_eq_ok, field_eq_ok,
    require_eq_ok, binding_eq_ok]
  constructor
  · rintro ⟨value, hvalue, _, hkeys, identifier, hidentifier, _, hne, b, hb, hout⟩
    cases hout
    exact ⟨value, hvalue, hkeys, hidentifier, hne, hb⟩
  · rintro ⟨value, hvalue, h⟩
    exact ⟨value, hvalue, (), h.keys, _, h.identifier, (), h.identifierNe, _, h.binding, rfl⟩

/-! ## The leaves -/

/-- The identifiers of the customers among the leaves, in order. -/
def customersOf (rows : List (Nat × Nat)) : List Nat :=
  (rows.map Prod.fst).filter fun id => id ≠ PADDING_LEAF_ID

/-- No customer repeats, and behind a padding leaf there is padding only. -/
structure Redacted (rows : List (Nat × Nat)) : Prop where
  nodup : (customersOf rows).Nodup
  front : rows.Pairwise fun a b => a.1 = PADDING_LEAF_ID → b.1 = PADDING_LEAF_ID

/-- The value is the leaf. -/
structure IsLeaf (value : Value) (row : Nat × Nat) : Prop where
  keys : HasExactKeys value LEAF_FIELDS
  id : IsFr (value.index "id") row.1
  commitment : IsFr (value.index "commitment") row.2

/-- The hash of one leaf. -/
def hashOf (poseidon2 : List Fr → Fr) (row : Nat × Nat) : U256 :=
  leafHash poseidon2 (BitVec.ofNat 256 row.1) (BitVec.ofNat 256 row.2)

/-- What the loop has collected behind some leaves. -/
def stateOf (poseidon2 : List Fr → Fr) (rows : List (Nat × Nat)) : LeafState where
  identifiers := (customersOf rows).reverse
  padded := rows.any fun row => row.1 = PADDING_LEAF_ID
  entries := rows
  hashes := rows.map (hashOf poseidon2)

theorem customersOf_append (rows more : List (Nat × Nat)) :
    customersOf (rows ++ more) = customersOf rows ++ customersOf more := by
  rw [customersOf, List.map_append, List.filter_append]
  rfl

theorem customersOf_padding {row : Nat × Nat} (h : row.1 = PADDING_LEAF_ID) :
    customersOf [row] = [] := by
  simp [customersOf, h]

theorem customersOf_customer {row : Nat × Nat} (h : row.1 ≠ PADDING_LEAF_ID) :
    customersOf [row] = [row.1] := by
  simp [customersOf, h]

theorem redacted_nil : Redacted [] := ⟨List.nodup_nil, List.Pairwise.nil⟩

theorem Redacted.left {rows more : List (Nat × Nat)} (h : Redacted (rows ++ more)) :
    Redacted rows := by
  have hnodup := h.nodup
  rw [customersOf_append] at hnodup
  exact ⟨(List.nodup_append.mp hnodup).1, (List.pairwise_append.mp h.front).1⟩

/-- The rules on the next leaf. -/
theorem redacted_append_singleton {rows : List (Nat × Nat)} {row : Nat × Nat}
    (h : Redacted rows) :
    Redacted (rows ++ [row]) ↔ (row.1 ≠ PADDING_LEAF_ID →
      (∀ other ∈ rows, other.1 ≠ PADDING_LEAF_ID) ∧ row.1 ∉ customersOf rows) := by
  have hfront : (rows ++ [row]).Pairwise (fun a b => a.1 = PADDING_LEAF_ID → b.1 = PADDING_LEAF_ID) ↔
      (row.1 ≠ PADDING_LEAF_ID → ∀ other ∈ rows, other.1 ≠ PADDING_LEAF_ID) := by
    rw [List.pairwise_append]
    simp only [h.front, List.pairwise_singleton, List.mem_singleton, forall_eq, true_and]
    exact ⟨fun hall hne other hother hzero => hne (hall other hother hzero),
      fun hall other hother hzero => by_contra fun hne => hall hne other hother hzero⟩
  by_cases hrow : row.1 = PADDING_LEAF_ID
  · simp only [hrow, ne_eq, not_true_eq_false, false_implies, iff_true] at hfront ⊢
    exact ⟨by rw [customersOf_append, customersOf_padding hrow, List.append_nil]; exact h.nodup,
      hfront⟩
  · have hnodup : (customersOf (rows ++ [row])).Nodup ↔ row.1 ∉ customersOf rows := by
      rw [customersOf_append, customersOf_customer hrow, List.nodup_append]
      simp only [h.nodup, List.nodup_singleton, List.mem_singleton, forall_eq, true_and]
      exact ⟨fun hall hmem => hall _ hmem rfl, fun hnot a ha heq => hnot (heq ▸ ha)⟩
    simp only [hrow, ne_eq, not_false_eq_true, forall_const] at hfront ⊢
    exact ⟨fun hall => ⟨hfront.mp hall.front, hnodup.mp hall.nodup⟩,
      fun hall => ⟨hnodup.mpr hall.2, hfront.mpr hall.1⟩⟩

section Leaves
variable {poseidon2 : List Fr → Fr}

theorem identifierStep_eq_ok {rows : List (Nat × Nat)} {id : Nat} {s : LeafState} :
    identifierStep (stateOf poseidon2 rows) id = .ok s ↔
      (id ≠ PADDING_LEAF_ID →
        (∀ other ∈ rows, other.1 ≠ PADDING_LEAF_ID) ∧ id ∉ customersOf rows) ∧
      s = { stateOf poseidon2 rows with
        identifiers := (customersOf rows ++ customersOf [(id, 0)]).reverse
        padded := (stateOf poseidon2 rows).padded || id = PADDING_LEAF_ID } := by
  unfold identifierStep
  by_cases hid : id = PADDING_LEAF_ID
  · rw [if_pos hid, customersOf_padding hid, List.append_nil]
    simp only [hid, Except.ok.injEq, ne_eq, not_true_eq_false, false_implies, true_and,
      decide_true, Bool.or_true]
    exact ⟨fun h => h.symm, fun h => h.symm⟩
  · have hpadded : (stateOf poseidon2 rows).padded = false ↔
        ∀ other ∈ rows, other.1 ≠ PADDING_LEAF_ID := by
      simp [stateOf]
    have hseen : id ∉ (stateOf poseidon2 rows).identifiers ↔ id ∉ customersOf rows := by
      simp [stateOf]
    rw [if_neg hid, customersOf_customer hid]
    simp only [bind_eq_ok, require_eq_ok, hpadded, hseen, hid, decide_false, Bool.or_false,
      List.reverse_append, List.reverse_singleton, List.singleton_append, ne_eq,
      not_false_eq_true, forall_const]
    constructor
    · rintro ⟨_, hall, _, hnot, hout⟩
      cases hout
      exact ⟨⟨hall, hnot⟩, rfl⟩
    · rintro ⟨⟨hall, hnot⟩, rfl⟩
      exact ⟨(), hall, (), hnot, rfl⟩

/-- The loop takes the next leaf exactly when the leaves up to it are redacted ones. -/
theorem leafStep_eq_ok {rows : List (Nat × Nat)} (h : Redacted rows) {entry : Value}
    {s : LeafState} :
    leafStep poseidon2 (stateOf poseidon2 rows) entry = .ok s ↔
      ∃ row, IsLeaf entry row ∧ Redacted (rows ++ [row]) ∧ s = stateOf poseidon2 (rows ++ [row]) := by
  have hstate : ∀ row : Nat × Nat, stateOf poseidon2 (rows ++ [row]) =
      { identifiers := (customersOf rows ++ customersOf [(row.1, 0)]).reverse
        padded := (stateOf poseidon2 rows).padded || row.1 = PADDING_LEAF_ID
        entries := rows ++ [row]
        hashes := rows.map (hashOf poseidon2) ++ [hashOf poseidon2 row] } := fun row => by
    simp [stateOf, customersOf]
  simp only [leafStep, bind_eq_ok, exactKeys_eq_ok, field_eq_ok, identifierStep_eq_ok,
    Halt.ofPanic_eq_ok]
  constructor
  · rintro ⟨_, hkeys, id, hid, commitment, hcommitment, s', ⟨hrules, rfl⟩, x, hx, y, hy, hout⟩
    rw [Schema.toFr_eq_ok hid.2] at hx
    rw [Schema.toFr_eq_ok hcommitment.2] at hy
    cases hx
    cases hy
    cases hout
    refine ⟨(id, commitment), ⟨hkeys, hid, hcommitment⟩,
      (redacted_append_singleton h).mpr hrules, ?_⟩
    rw [hstate]
    rfl
  · rintro ⟨row, hleaf, hredacted, rfl⟩
    refine ⟨(), hleaf.keys, _, hleaf.id, _, hleaf.commitment, _,
      ⟨(redacted_append_singleton h).mp hredacted, rfl⟩, _, Schema.toFr_eq_ok hleaf.id.2, _,
      Schema.toFr_eq_ok hleaf.commitment.2, ?_⟩
    rw [hstate]
    rfl

/-- **The loop over the leaves** takes exactly the redacted lists. -/
theorem foldlM_leafStep_eq_ok {entries : List Value} {rows : List (Nat × Nat)} (h : Redacted rows)
    {s : LeafState} :
    entries.foldlM (leafStep poseidon2) (stateOf poseidon2 rows) = .ok s ↔
      ∃ more, List.Forall₂ IsLeaf entries more ∧ Redacted (rows ++ more) ∧
        s = stateOf poseidon2 (rows ++ more) := by
  induction entries generalizing rows with
  | nil =>
    rw [List.foldlM_nil]
    constructor
    · intro hout
      cases hout
      exact ⟨[], .nil, by rwa [List.append_nil], by rw [List.append_nil]⟩
    · rintro ⟨more, hmore, -, rfl⟩
      cases hmore
      rw [List.append_nil]
      rfl
  | cons entry entries ih =>
    rw [List.foldlM_cons, bind_eq_ok]
    constructor
    · rintro ⟨s', hstep, hrest⟩
      obtain ⟨row, hrow, hredacted, rfl⟩ := (leafStep_eq_ok h).mp hstep
      obtain ⟨more, hmore, hall, rfl⟩ := (ih hredacted).mp hrest
      rw [List.append_assoc] at hall ⊢
      exact ⟨row :: more, .cons hrow hmore, hall, rfl⟩
    · rintro ⟨_, _ | @⟨_, row, _, more, hrow, hmore⟩, hall, rfl⟩
      have hshift : rows ++ row :: more = rows ++ [row] ++ more := by simp
      rw [hshift] at hall
      refine ⟨_, (leafStep_eq_ok h).mpr ⟨row, hrow, hall.left, rfl⟩, ?_⟩
      exact (ih hall.left).mpr ⟨more, hmore, hall, congrArg (stateOf poseidon2) hshift⟩

end Leaves

/-! ## Trees -/

/-- **What the reader accepts**: a full tree of field elements, with the customers in
front, whose levels are those of its leaves and end in its root. -/
structure WellFormed (poseidon2 : List Fr → Fr) (tree : Tree) : Prop where
  depthPos : 0 < tree.binding.treeDepth.toNat
  depthLe : tree.binding.treeDepth.toNat ≤ 32
  length : tree.entries.length = 2 ^ tree.binding.treeDepth.toNat
  canonical : ∀ row ∈ tree.entries, row.1 < frModulus ∧ row.2 < frModulus
  redacted : Redacted tree.entries
  count : tree.count = (customersOf tree.entries).length
  levels : tree.levels = treeLevels poseidon2 (tree.entries.map (hashOf poseidon2))
  root : tree.binding.root = (MerkleTree.root (nodeHash poseidon2)
    (leafAt (tree.entries.map (hashOf poseidon2))) tree.binding.treeDepth.toNat).toNat

/-- The value writes the tree. -/
structure IsTree (value : Value) (tree : Tree) : Prop where
  keys : HasExactKeys value TREE_FIELDS
  format : value.index "format" = .string RETAINED_TREE_FORMAT
  binding : IsBinding value tree.binding
  leaves : ∃ entries, value.index "leaves" = .array entries ∧
    List.Forall₂ IsLeaf entries tree.entries
  transactionHash : ∃ hash, IsText (value.index "transaction_hash") hash
  count : value.index "count" = .number (.posInt (BitVec.ofNat 64 tree.count))

theorem capacity_eq_some {d n : Nat} (hd : d ≤ 32) :
    (∃ capacity, checkedShl (1 : U64) d = some capacity ∧ n = capacity.toNat) ↔ n = 2 ^ d := by
  have hpow : 2 ^ d < 2 ^ 64 := Nat.pow_lt_pow_right (by norm_num) (by omega)
  have hshift : ((1 : U64) <<< d).toNat = 2 ^ d := by
    rw [BitVec.toNat_shiftLeft, Nat.shiftLeft_eq]
    change 1 * 2 ^ d % 2 ^ 64 = _
    rw [Nat.one_mul, Nat.mod_eq_of_lt hpow]
  rw [checkedShl, if_pos (by omega)]
  simp only [Option.some.injEq, exists_eq_left', hshift]

theorem canonical_of_isLeaf {entries : List Value} {rows : List (Nat × Nat)}
    (h : List.Forall₂ IsLeaf entries rows) :
    ∀ row ∈ rows, row.1 < frModulus ∧ row.2 < frModulus := by
  induction h with
  | nil => exact fun row hrow => absurd hrow List.not_mem_nil
  | cons hleaf _ ih => exact List.forall_mem_cons.mpr ⟨⟨hleaf.id.2, hleaf.commitment.2⟩, ih⟩

/-- **The reader takes exactly the values that write a well-formed tree.** -/
theorem parseTree_eq_ok {serde : SerdeJson} {poseidon2 : List Fr → Fr} {source : String}
    {tree : Tree} :
    parseTree serde poseidon2 source = .ok tree ↔
      ∃ value, serde.fromStr source = .ok value ∧ IsTree value tree ∧ WellFormed poseidon2 tree := by
  have hempty : (⟨[], false, [], []⟩ : LeafState) = stateOf poseidon2 [] := rfl
  have hroot : ∀ {d root : Nat} {rows : List (Nat × Nat)}, rows.length = 2 ^ d →
      ((((treeLevels poseidon2 (rows.map (hashOf poseidon2))).getLast?.bind List.head?).map
        Generator.toBig = some root) ↔ root = (MerkleTree.root (nodeHash poseidon2)
          (leafAt (rows.map (hashOf poseidon2))) d).toNat) := by
    intro d root rows hlength
    have hlevel : (rows.map (hashOf poseidon2)).length = 2 ^ d := by rwa [List.length_map]
    rw [getLast?_treeLevels hlevel, Option.bind_some, List.head?_cons, Option.map_some,
      Option.some.injEq]
    exact eq_comm
  simp only [parseTree, bind_eq_ok, mapError_eq_ok, exactKeys_eq_ok, text_eq_ok, require_eq_ok,
    binding_eq_ok, orRefuse_eq_ok, asArray_eq_some, asU64_eq_some, hempty,
    foldlM_leafStep_eq_ok redacted_nil, List.nil_append]
  constructor
  · rintro ⟨value, hvalue, _, hkeys, _, ⟨hformat, -⟩, _, rfl, b, hb, _, hdepth, capacity, hcapacity,
      entries, hentries, _, hfull, hash, hhash, _, ⟨rows, hrows, hredacted, rfl⟩, _, hcount, _,
      hlast, hout⟩
    rw [not_or, Nat.not_lt] at hdepth
    have hlength : rows.length = 2 ^ b.treeDepth.toNat :=
      hrows.length_eq ▸ (capacity_eq_some hdepth.2).mp ⟨capacity, hcapacity, hfull⟩
    have hroot := (hroot hlength).mp hlast
    cases hout
    refine ⟨value, hvalue, ?_, ?_⟩
    · exact {
        keys := hkeys
        format := hformat
        binding := hb
        leaves := ⟨entries, hentries, hrows⟩
        transactionHash := ⟨hash, hhash⟩
        count := hcount }
    · exact {
        depthPos := Nat.pos_of_ne_zero hdepth.1
        depthLe := hdepth.2
        length := hlength
        canonical := canonical_of_isLeaf hrows
        redacted := hredacted
        count := List.length_reverse
        levels := rfl
        root := hroot }
  · rintro ⟨value, hvalue, htree, hwf⟩
    obtain ⟨entries, hentries, hrows⟩ := htree.leaves
    obtain ⟨hash, hhash⟩ := htree.transactionHash
    obtain ⟨capacity, hcapacity, hfull⟩ := (capacity_eq_some hwf.depthLe).mpr
      (hrows.length_eq.trans hwf.length)
    have hcount : (stateOf poseidon2 tree.entries).identifiers.length = tree.count := by
      rw [hwf.count]
      exact List.length_reverse
    refine ⟨value, hvalue, (), htree.keys, _, ⟨htree.format, by decide⟩, (), rfl, _, htree.binding,
      (), ?_, capacity, hcapacity, entries, hentries, (), hfull, hash, hhash, _,
      ⟨tree.entries, hrows, hwf.redacted, rfl⟩, (), ?_, (), (hroot hwf.length).mpr hwf.root, ?_⟩
    · have := hwf.depthPos
      have := hwf.depthLe
      omega
    · rw [hcount]
      exact htree.count
    · rw [hcount, stateOf]
      dsimp only
      rw [← hwf.levels]
      rfl

end ZkPoR.Retained
