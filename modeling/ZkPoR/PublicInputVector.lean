import Mathlib.Data.Fintype.EquivFin
import ZkPoR.Manifest
import ZkPoR.Registry

/-! # The public input vector of the terminal proof

The registry writes the vector by the positions of its generated parameters, and the SDK
by the positions of a manifest.  A manifest that the SDK reads puts the four elements at
the four positions in some order.  Both writers then make the arrangement of the
elements in that order, and the reader of the SDK takes exactly these arrangements.
-/
namespace ZkPoR
open ByteString BlockLayout CheckedInt InsertionMap JsonText JavaScript
open BoundedLoop (bind_eq_ok)

/-! ## The writer of the registry -/

/-- The generated parameters that the writer of the registry reads.  The key hash is a
Poseidon2 hash, so it is a field element. -/
structure PublicInputParams where
  innerKeyHash : BytesN 32
  canonical : beNat innerKeyHash.toList < frModulus
  contextHashIndex : Nat
  innerKeyHashIndex : Nat
  finalRootIndex : Nat
  lIndex : Nat

/-- `Vec::set`, which fails behind the end. -/
def setField (fields : List Bytes) (index : Nat) (field : Bytes) : Option (List Bytes) :=
  if index < fields.length then some (fields.set index field) else none

namespace PublicInputParams

/-- The public input byte string under given parameters. -/
def publicInputs (params : PublicInputParams) (context finalRoot : U256)
    (totalLiabilities : U128) : Option Bytes := do
  let fields : List Bytes := List.replicate PUBLIC_INPUT_COUNT []
  let fields ← setField fields params.contextHashIndex (toBeBytes context)
  let fields ← setField fields params.innerKeyHashIndex params.innerKeyHash.toList
  let fields ← setField fields params.finalRootIndex (toBeBytes finalRoot)
  let fields ← setField fields params.lIndex
    (toBeBytes (BitVec.ofNat 256 totalLiabilities.toNat))
  return fields.flatten

/-- The parameters of this build. -/
def pinned : PublicInputParams where
  innerKeyHash := INNER_KEY_HASH
  canonical := by decide
  contextHashIndex := CONTEXT_HASH_INDEX
  innerKeyHashIndex := INNER_KEY_HASH_INDEX
  finalRootIndex := FINAL_ROOT_INDEX
  lIndex := L_INDEX

theorem publicInputs_pinned (context finalRoot : U256) (totalLiabilities : U128) :
    pinned.publicInputs context finalRoot totalLiabilities =
      some (ZkPoR.publicInputs context finalRoot totalLiabilities) := rfl

end PublicInputParams

/-! ## The positions of a manifest -/

namespace Sdk

instance : Fintype PublicInputName := ⟨⟨PUBLIC_INPUT_NAMES, by decide⟩, PublicInputName.mem_names⟩

/-- The manifest puts each element at its position. -/
def LaidOut (positions : OrderedMap PublicInputName Nat)
    (position : PublicInputName ≃ Fin PUBLIC_INPUT_COUNT) : Prop :=
  ∀ name, positions.get name = some (position name : Nat)

theorem readPosition_lt {source : List (Text × Value)} {name : PublicInputName} {position : Nat}
    (h : readPosition source name = .ok position) : position < PUBLIC_INPUT_COUNT := by
  unfold readPosition at h
  split at h
  · split at h
    · split at h
      · cases h
      · cases h
        omega
    · cases h
  · cases h

theorem setPosition_eq_ok {source : List (Text × Value)} {name : PublicInputName}
    {positions out : OrderedMap PublicInputName Nat} :
    setPosition source positions name = .ok out ↔
      ∃ position, readPosition source name = .ok position ∧ positions.set name position = out := by
  simp only [setPosition, bind_eq_ok, pure, Except.pure, Except.ok.injEq]

/-- The loop gives each of its names a position. -/
theorem get_of_foldlM {source : List (Text × Value)} {names : List PublicInputName}
    {positions out : OrderedMap PublicInputName Nat}
    (h : names.foldlM (setPosition source) positions = .ok out) {name : PublicInputName}
    (hname : name ∈ names ∨ ∃ position < PUBLIC_INPUT_COUNT, positions.get name = some position) :
    ∃ position < PUBLIC_INPUT_COUNT, out.get name = some position := by
  induction names generalizing positions with
  | nil =>
    cases h
    exact hname.resolve_left List.not_mem_nil
  | cons head names ih =>
    rw [List.foldlM_cons, bind_eq_ok] at h
    obtain ⟨next, hstep, h⟩ := h
    obtain ⟨position, hread, rfl⟩ := setPosition_eq_ok.mp hstep
    refine ih h ?_
    by_cases heq : name = head
    · subst heq
      exact .inr ⟨position, readPosition_lt hread, OrderedMap.get_set_self positions position⟩
    · rw [OrderedMap.get_set_of_ne positions position heq]
      exact hname.imp_left fun hmem => (List.mem_cons.mp hmem).resolve_left heq

/-- A map of the four names that takes four positions takes each of them once. -/
theorem nodup_of_taken {positions : OrderedMap PublicInputName Nat}
    (h : (positions.entries.map Prod.snd).dedup.length = PUBLIC_INPUT_NAMES.length) :
    (positions.entries.map Prod.snd).Nodup := by
  have hkeys : positions.entries.length ≤ PUBLIC_INPUT_NAMES.length := by
    have hle := (List.subperm_of_subset positions.nodup
      fun name _ => PublicInputName.mem_names name).length_le
    rwa [List.length_map] at hle
  have hdedup := List.dedup_sublist (positions.entries.map Prod.snd)
  have heq := hdedup.eq_of_length_le (by rw [h, List.length_map]; exact hkeys)
  rw [← heq]
  exact List.nodup_dedup _

theorem exists_laidOut {source : List (Text × Value)} {positions : OrderedMap PublicInputName Nat}
    (h : readPositions source = .ok positions) : ∃ position, LaidOut positions position := by
  rw [readPositions, bind_eq_ok] at h
  obtain ⟨read, hloop, h⟩ := h
  dsimp only at h
  split at h
  · cases h
  rename_i htaken
  cases h
  have hnodup := nodup_of_taken (not_not.mp htaken)
  choose position hlt hget using fun name => get_of_foldlM hloop (.inl (PublicInputName.mem_names name))
  have hinjective : Function.Injective fun name => (⟨position name, hlt name⟩ : Fin _) := by
    intro name name' heq
    have hvalue : position name = position name' := congrArg Fin.val heq
    exact OrderedMap.get_injective positions hnodup (hget name) (hvalue ▸ hget name')
  exact ⟨.ofBijective _ ((Fintype.bijective_iff_injective_and_card _).mpr ⟨hinjective, rfl⟩), hget⟩

/-- **The positions of a manifest** are the positions of the vector in some order. -/
theorem exists_laidOut_of_parseManifest {engine : Engine} {text : String} {manifest : Manifest}
    (h : parseManifest engine text = .ok manifest) :
    ∃ position, LaidOut manifest.publicInputPositions position := by
  simp only [parseManifest, bind_eq_ok] at h
  obtain ⟨_, -, _, -, _, -, _, -, _, -, positions, hpositions, h⟩ := h
  obtain ⟨_, -, _, -, _, -, _, -, _, -, _, -, _, -, _, -, _, -, h⟩ := h
  cases h
  exact exists_laidOut hpositions

/-! ## The writer and the reader of the SDK -/

/-- The blocks of the values. -/
def PublicInputs.blocks (values : PublicInputs) (name : PublicInputName) : Bytes :=
  toBe FR_BYTES (values.value name)

theorem PublicInputs.length_blocks (values : PublicInputs) (name : PublicInputName) :
    (values.blocks name).length = FR_BYTES := length_toBe _ _

section Codec
variable {manifest : Manifest} {position : PublicInputName ≃ Fin PUBLIC_INPUT_COUNT}

theorem positionOf_eq (hlaid : LaidOut manifest.publicInputPositions position)
    (name : PublicInputName) : positionOf manifest name = .ok (position name : Nat) := by
  rw [positionOf, hlaid name]

theorem toBytes_eq_ok {value : Nat} {bytes : Bytes} :
    (toBytes value).mapError ManifestError.other = .ok bytes ↔
      value < frModulus ∧ toBe FR_BYTES value = bytes := by
  rw [Schema.mapError_eq_ok]
  by_cases h : value < frModulus
  · rw [toBytes_of_lt h, Except.ok.injEq]
    exact ⟨fun heq => ⟨h, heq⟩, fun heq => heq.2⟩
  · have hrange : ¬ inRange value := h
    rw [toBytes, if_pos hrange]
    exact ⟨fun heq => (by cases heq), fun heq => absurd heq.1 h⟩

theorem writeElement_eq_ok (hlaid : LaidOut manifest.publicInputPositions position)
    {values : PublicInputs} {output out : Bytes} {name : PublicInputName}
    (hlength : output.length = PUBLIC_INPUT_BYTES) :
    writeElement manifest values output name = .ok out ↔ values.value name < frModulus ∧
      overwrite output (position name * FR_BYTES) (values.blocks name) = out := by
  have hle := block_le (w := FR_BYTES) (position name).isLt
  have hfits : ¬ output.length < position name * FR_BYTES + (values.blocks name).length := by
    rw [values.length_blocks, hlength]
    exact Nat.not_lt.mpr hle
  simp only [writeElement, bind_eq_ok, positionOf_eq hlaid, toBytes_eq_ok, Except.ok.injEq]
  constructor
  · rintro ⟨_, ⟨hlt, rfl⟩, _, rfl, h⟩
    exact ⟨hlt, Except.ok.inj ((if_neg hfits).symm.trans h)⟩
  · rintro ⟨hlt, rfl⟩
    exact ⟨_, ⟨hlt, rfl⟩, _, rfl, if_neg hfits⟩

/-- The loop over some names, from any string of the length. -/
theorem foldlM_writeElement (hlaid : LaidOut manifest.publicInputPositions position)
    {values : PublicInputs} {out : Bytes} (names : List PublicInputName) {output : Bytes}
    (hlength : output.length = PUBLIC_INPUT_BYTES) :
    names.foldlM (writeElement manifest values) output = .ok out ↔
      (∀ name ∈ names, values.value name < frModulus) ∧
        names.foldl (fun output name =>
          overwrite output (position name * FR_BYTES) (values.blocks name)) output = out := by
  induction names generalizing output with
  | nil =>
    simp only [List.foldlM_nil, List.foldl_nil, pure, Except.pure, Except.ok.injEq]
    exact ⟨fun h => ⟨fun _ hmem => absurd hmem List.not_mem_nil, h⟩, fun h => h.2⟩
  | cons name names ih =>
    have hnext : (overwrite output (position name * FR_BYTES) (values.blocks name)).length =
        PUBLIC_INPUT_BYTES := by
      rw [length_overwrite, hlength]
      rw [values.length_blocks, hlength]
      exact block_le (position name).isLt
    rw [List.foldlM_cons, bind_eq_ok, List.foldl_cons, List.forall_mem_cons]
    simp only [writeElement_eq_ok hlaid hlength]
    constructor
    · rintro ⟨_, ⟨hlt, rfl⟩, h⟩
      obtain ⟨hall, heq⟩ := (ih hnext).mp h
      exact ⟨⟨hlt, hall⟩, heq⟩
    · rintro ⟨⟨hlt, hall⟩, heq⟩
      exact ⟨_, ⟨hlt, rfl⟩, (ih hnext).mpr ⟨hall, heq⟩⟩

/-- The writer makes the arrangement of the values. -/
theorem serializePublicInputs_eq_ok (hlaid : LaidOut manifest.publicInputPositions position)
    {values : PublicInputs} {bytes : Bytes} :
    serializePublicInputs manifest values = .ok bytes ↔
      (∀ name, values.value name < frModulus) ∧ arrange position values.blocks = bytes := by
  have hzeros : (List.replicate PUBLIC_INPUT_BYTES (0 : UInt8)).length = PUBLIC_INPUT_BYTES :=
    List.length_replicate
  rw [serializePublicInputs, foldlM_writeElement hlaid _ hzeros,
    foldl_overwrite values.length_blocks PublicInputName.mem_names hzeros]
  exact and_congr_left fun _ =>
    ⟨fun h name => h name name.mem_names, fun h name _ => h name⟩

theorem readElement_eq_ok (hlaid : LaidOut manifest.publicInputPositions position) {bytes : Bytes}
    {name : PublicInputName} {value : Nat} :
    readElement manifest bytes name = .ok value ↔
      value = beNat (block FR_BYTES bytes (position name)) ∧ value < frModulus := by
  have hsubarray : subarray bytes (position name * FR_BYTES) ((position name + 1) * FR_BYTES) =
      block FR_BYTES bytes (position name) := by
    rw [subarray, block, Nat.succ_mul, Nat.add_sub_cancel_left]
  simp only [readElement, bind_eq_ok, positionOf_eq hlaid, Except.ok.injEq]
  constructor
  · rintro ⟨_, rfl, h⟩
    rw [hsubarray, bytesToBigint_eq] at h
    split at h
    · cases h
    rename_i hrange
    cases h
    exact ⟨rfl, not_not.mp hrange⟩
  · rintro ⟨rfl, hlt⟩
    refine ⟨_, rfl, ?_⟩
    rw [hsubarray, bytesToBigint_eq, if_neg (not_not.mpr (show inRange _ from hlt))]
    rfl

/-- The reader takes the numbers of the blocks. -/
theorem readPublicInputs_eq_ok (hlaid : LaidOut manifest.publicInputPositions position)
    {bytes : Bytes} {values : PublicInputs} :
    readPublicInputs manifest bytes = .ok values ↔ bytes.length = PUBLIC_INPUT_BYTES ∧
      ∀ name, values.value name = beNat (block FR_BYTES bytes (position name)) ∧
        values.value name < frModulus := by
  unfold readPublicInputs
  split
  · rename_i hlength
    exact ⟨fun h => (by cases h), fun h => absurd h.1 hlength⟩
  rename_i hlength
  simp only [bind_eq_ok, readElement_eq_ok hlaid, pure, Except.pure, Except.ok.injEq]
  constructor
  · rintro ⟨_, hcontext, _, hkey, _, hroot, _, hl, rfl⟩
    refine ⟨not_not.mp hlength, fun name => ?_⟩
    cases name with
    | contextHash => exact hcontext
    | innerKeyHash => exact hkey
    | finalRoot => exact hroot
    | l => exact hl
  · rintro ⟨-, h⟩
    exact ⟨_, h .contextHash, _, h .innerKeyHash, _, h .finalRoot, _, h .l, rfl⟩

/-- Reading what the writer made. -/
theorem read_of_serialize (hlaid : LaidOut manifest.publicInputPositions position)
    {values : PublicInputs} {bytes : Bytes}
    (h : serializePublicInputs manifest values = .ok bytes) :
    readPublicInputs manifest bytes = .ok values := by
  obtain ⟨hlt, rfl⟩ := (serializePublicInputs_eq_ok hlaid).mp h
  have hlength : (arrange position values.blocks).length = PUBLIC_INPUT_BYTES :=
    length_arrange values.length_blocks
  refine (readPublicInputs_eq_ok hlaid).mpr ⟨hlength, fun name => ?_⟩
  rw [block_arrange values.length_blocks name, PublicInputs.blocks]
  exact ⟨(beNat_toBe_of_canonical (hlt name)).symm, hlt name⟩

/-- Writing what the reader took. -/
theorem serialize_of_read (hlaid : LaidOut manifest.publicInputPositions position)
    {values : PublicInputs} {bytes : Bytes} (h : readPublicInputs manifest bytes = .ok values) :
    serializePublicInputs manifest values = .ok bytes := by
  obtain ⟨hlength, hvalues⟩ := (readPublicInputs_eq_ok hlaid).mp h
  refine (serializePublicInputs_eq_ok hlaid).mpr ⟨fun name => (hvalues name).2, ?_⟩
  rw [eq_comm, eq_arrange_iff hlength values.length_blocks]
  intro name
  have hblock := length_block (w := FR_BYTES) hlength (position name).isLt
  have hbytes := toBe_beNat (block FR_BYTES bytes (position name))
  rw [hblock] at hbytes
  rw [PublicInputs.blocks, (hvalues name).1, hbytes]

/-- The reader refuses a wrong length and a block that is no field element, and nothing
else. -/
theorem exists_read_iff (hlaid : LaidOut manifest.publicInputPositions position) {bytes : Bytes} :
    (∃ values, readPublicInputs manifest bytes = .ok values) ↔
      bytes.length = PUBLIC_INPUT_BYTES ∧
        ∀ i < PUBLIC_INPUT_COUNT, beNat (block FR_BYTES bytes i) < frModulus := by
  constructor
  · rintro ⟨values, h⟩
    obtain ⟨hlength, hvalues⟩ := (readPublicInputs_eq_ok hlaid).mp h
    refine ⟨hlength, fun i hi => ?_⟩
    obtain ⟨name, hname⟩ := position.surjective ⟨i, hi⟩
    have hi' : (position name : Nat) = i := congrArg Fin.val hname
    rw [← hi', ← (hvalues name).1]
    exact (hvalues name).2
  · rintro ⟨hlength, hblocks⟩
    let element name := beNat (block FR_BYTES bytes (position name))
    refine ⟨⟨element .contextHash, element .innerKeyHash, element .finalRoot, element .l⟩,
      (readPublicInputs_eq_ok hlaid).mpr ⟨hlength, fun name => ?_⟩⟩
    have hlt := hblocks _ (position name).isLt
    cases name <;> exact ⟨rfl, hlt⟩

end Codec

end Sdk

/-! ## The two writers -/

namespace PublicInputParams
open Sdk

/-- The position of an element in the parameters. -/
def index (params : PublicInputParams) : PublicInputName → Nat
  | .contextHash => params.contextHashIndex
  | .innerKeyHash => params.innerKeyHashIndex
  | .finalRoot => params.finalRootIndex
  | .l => params.lIndex

/-- The parameters have the positions of the manifest. -/
def Carries (params : PublicInputParams) (manifest : Manifest) : Prop :=
  ∀ name, manifest.publicInputPositions.get name = some (params.index name)

/-- The values that the registry writes. -/
def values (params : PublicInputParams) (context finalRoot : U256) (totalLiabilities : U128) :
    PublicInputs where
  contextHash := context.toNat
  innerKeyHash := beNat params.innerKeyHash.toList
  finalRoot := finalRoot.toNat
  l := totalLiabilities.toNat

variable {params : PublicInputParams} {context finalRoot : U256} {totalLiabilities : U128}

theorem toNat_total (totalLiabilities : U128) :
    (BitVec.ofNat 256 totalLiabilities.toNat).toNat = totalLiabilities.toNat := by
  rw [BitVec.toNat_ofNat]
  exact Nat.mod_eq_of_lt (totalLiabilities.isLt.trans (by norm_num))

/-- The blocks of the registry are those of the SDK. -/
theorem blocks_values :
    (params.values context finalRoot totalLiabilities).blocks = fun
      | .contextHash => toBeBytes context
      | .innerKeyHash => params.innerKeyHash.toList
      | .finalRoot => toBeBytes finalRoot
      | .l => toBeBytes (BitVec.ofNat 256 totalLiabilities.toNat) := by
  funext name
  cases name with
  | contextHash => rfl
  | innerKeyHash =>
    have hbytes := toBe_beNat params.innerKeyHash.toList
    rwa [params.innerKeyHash.toList_length] at hbytes
  | finalRoot => rfl
  | l =>
    show _ = toBeBytes _
    rw [toBeBytes, toNat_total]
    rfl

theorem values_lt (hcontext : frInRange context) (hroot : frInRange finalRoot)
    (name : PublicInputName) :
    (params.values context finalRoot totalLiabilities).value name < frModulus := by
  cases name with
  | contextHash => exact hcontext
  | innerKeyHash => exact params.canonical
  | finalRoot => exact hroot
  | l => exact totalLiabilities.isLt.trans (by decide)

theorem values_inj {context' finalRoot' : U256} {totalLiabilities' : U128}
    (h : ∀ name, (params.values context finalRoot totalLiabilities).blocks name =
      (params.values context' finalRoot' totalLiabilities').blocks name) :
    context = context' ∧ finalRoot = finalRoot' ∧ totalLiabilities = totalLiabilities' := by
  rw [blocks_values, blocks_values] at h
  refine ⟨toBeBytes_injective (h .contextHash), toBeBytes_injective (h .finalRoot), ?_⟩
  have htotal := congrArg BitVec.toNat (toBeBytes_injective (h .l))
  rw [toNat_total, toNat_total] at htotal
  exact BitVec.eq_of_toNat_eq htotal

theorem setField_eq_some {fields : List Bytes} (hfields : fields.length = PUBLIC_INPUT_COUNT)
    (i : Fin PUBLIC_INPUT_COUNT) (field : Bytes) :
    setField fields i field = some (fields.set i field) := by
  rw [setField, if_pos]
  rw [hfields]
  exact i.isLt

/-- **The registry makes the arrangement of the values.** -/
theorem publicInputs_eq {position : PublicInputName ≃ Fin PUBLIC_INPUT_COUNT}
    (h : ∀ name, params.index name = position name) :
    params.publicInputs context finalRoot totalLiabilities =
      some (arrange position (params.values context finalRoot totalLiabilities).blocks) := by
  have hzeros : (List.replicate PUBLIC_INPUT_COUNT ([] : Bytes)).length = PUBLIC_INPUT_COUNT :=
    List.length_replicate
  have hfold := @foldl_set _ _ _ position
    (params.values context finalRoot totalLiabilities).blocks _ _ PublicInputName.mem_names _ hzeros
  rw [← hfold, blocks_values]
  have hcontext : params.contextHashIndex = position .contextHash := h .contextHash
  have hkey : params.innerKeyHashIndex = position .innerKeyHash := h .innerKeyHash
  have hroot : params.finalRootIndex = position .finalRoot := h .finalRoot
  have hl : params.lIndex = position .l := h .l
  simp only [publicInputs, hcontext, hkey, hroot, hl, setField_eq_some, hzeros, List.length_set,
    Option.bind_eq_bind, Option.bind_some]
  rfl

end PublicInputParams

/-- **The public input vector of an accepted manifest.**  Its positions are the four
positions in some order; the writer and the reader of the SDK undo each other, and the
reader refuses nothing but a wrong length and a block that is no field element.  A registry
whose parameters have these positions writes what the SDK writes for the same values,
and its vector names the context, the root, and the total; the registry of this
build is the one with the pinned parameters. -/
theorem public_input_vector {engine : Sdk.Engine} {text : String} {manifest : Sdk.Manifest}
    (h : Sdk.parseManifest engine text = .ok manifest) :
    (∃ position : Sdk.PublicInputName ≃ Fin PUBLIC_INPUT_COUNT,
      Sdk.LaidOut manifest.publicInputPositions position) ∧
    (∀ values : Sdk.PublicInputs, (∀ name, values.value name < frModulus) →
      ∃ bytes, Sdk.serializePublicInputs manifest values = .ok bytes ∧
        bytes.length = Sdk.PUBLIC_INPUT_BYTES ∧ Sdk.readPublicInputs manifest bytes = .ok values) ∧
    (∀ bytes values, Sdk.readPublicInputs manifest bytes = .ok values →
      Sdk.serializePublicInputs manifest values = .ok bytes) ∧
    (∀ bytes, (∃ values, Sdk.readPublicInputs manifest bytes = .ok values) ↔
      bytes.length = Sdk.PUBLIC_INPUT_BYTES ∧
        ∀ i < PUBLIC_INPUT_COUNT, beNat (block FR_BYTES bytes i) < frModulus) ∧
    (∀ params : PublicInputParams, params.Carries manifest →
      (∀ context finalRoot totalLiabilities, frInRange context → frInRange finalRoot →
        ∃ bytes, params.publicInputs context finalRoot totalLiabilities = some bytes ∧
          Sdk.serializePublicInputs manifest (params.values context finalRoot totalLiabilities) =
            .ok bytes ∧ bytes.length = Sdk.PUBLIC_INPUT_BYTES) ∧
      ∀ context finalRoot totalLiabilities context' finalRoot' totalLiabilities',
        params.publicInputs context finalRoot totalLiabilities =
            params.publicInputs context' finalRoot' totalLiabilities' →
          context = context' ∧ finalRoot = finalRoot' ∧ totalLiabilities = totalLiabilities') ∧
    ∀ context finalRoot totalLiabilities,
      PublicInputParams.pinned.publicInputs context finalRoot totalLiabilities =
        some (publicInputs context finalRoot totalLiabilities) := by
  obtain ⟨position, hlaid⟩ := Sdk.exists_laidOut_of_parseManifest h
  refine ⟨⟨position, hlaid⟩, ?_, fun _ _ => Sdk.serialize_of_read hlaid,
    fun _ => Sdk.exists_read_iff hlaid, ?_, PublicInputParams.publicInputs_pinned⟩
  · intro values hvalues
    have hwritten := (Sdk.serializePublicInputs_eq_ok hlaid).mpr ⟨hvalues, rfl⟩
    exact ⟨_, hwritten, length_arrange values.length_blocks, Sdk.read_of_serialize hlaid hwritten⟩
  · intro params hcarries
    have hindex : ∀ name, params.index name = position name := fun name =>
      Option.some.inj ((hcarries name).symm.trans (hlaid name))
    constructor
    · intro context finalRoot totalLiabilities hcontext hroot
      refine ⟨_, PublicInputParams.publicInputs_eq hindex, ?_,
        length_arrange (params.values _ _ _).length_blocks⟩
      exact (Sdk.serializePublicInputs_eq_ok hlaid).mpr
        ⟨PublicInputParams.values_lt hcontext hroot, rfl⟩
    · intro context finalRoot totalLiabilities context' finalRoot' totalLiabilities' heq
      rw [PublicInputParams.publicInputs_eq hindex, PublicInputParams.publicInputs_eq hindex,
        Option.some.injEq] at heq
      exact PublicInputParams.values_inj (arrange_inj (params.values _ _ _).length_blocks
        (params.values _ _ _).length_blocks heq)

/-! ## A manifest with another order -/

def sampleManifestValue : SerdeJson.Value :=
  .object [("batch_b", .number (.posInt 1024)), ("num_batches_k", .number (.posInt 4)),
    ("bb_version", .string "0.87.0"), ("nargo_version", .string "1.0.0-beta.9"),
    ("proof_scheme", .string "ultra_honk"), ("terminal_oracle_hash", .string "keccak"),
    ("inner_oracle_hash", .string "poseidon2"), ("inner_key_hash", .string "19"),
    ("aggregator_key_sha256", .string "92cd"), ("public_input_count", .number (.posInt 4)),
    ("public_input_bytes", .number (.posInt 128)),
    ("public_input_positions", .object [("context_hash", .number (.posInt 2)),
      ("inner_key_hash", .number (.posInt 0)), ("final_root", .number (.posInt 3)),
      ("L", .number (.posInt 1))])]

def sampleManifestText : String := SerdeJson.reference.toStringPretty sampleManifestValue

def sampleEngine : Sdk.Engine where
  string _ := []
  syntaxError _ := []
  log2 n := toDouble (natural (Nat.log2 n))

def sampleManifest : Sdk.Manifest where
  batchB := 1024
  numBatchesK := 4
  treeDepth := (sampleEngine.log2 1024).add (sampleEngine.log2 4)
  bbVersion := Text.ofString "0.87.0"
  nargoVersion := Text.ofString "1.0.0-beta.9"
  proofScheme := Text.ofString "ultra_honk"
  terminalOracleHash := Text.ofString "keccak"
  innerOracleHash := Text.ofString "poseidon2"
  innerKeyHash := 19
  aggregatorKeySha256 := Text.ofString "92cd"
  publicInputPositions :=
    ⟨[(.contextHash, 2), (.innerKeyHash, 0), (.finalRoot, 3), (.l, 1)], by decide⟩

def samplePositions : List (Text × Value) :=
  [(Text.ofString "context_hash", .number (toDouble (natural 2))),
    (Text.ofString "inner_key_hash", .number (toDouble (natural 0))),
    (Text.ofString "final_root", .number (toDouble (natural 3))),
    (Text.ofString "L", .number (toDouble (natural 1)))]

def sampleProperties : List (Text × Value) :=
  [(Text.ofString "batch_b", .number (toDouble (natural 1024))),
    (Text.ofString "num_batches_k", .number (toDouble (natural 4))),
    (Text.ofString "bb_version", .string (Text.ofString "0.87.0")),
    (Text.ofString "nargo_version", .string (Text.ofString "1.0.0-beta.9")),
    (Text.ofString "proof_scheme", .string (Text.ofString "ultra_honk")),
    (Text.ofString "terminal_oracle_hash", .string (Text.ofString "keccak")),
    (Text.ofString "inner_oracle_hash", .string (Text.ofString "poseidon2")),
    (Text.ofString "inner_key_hash", .string (Text.ofString "19")),
    (Text.ofString "aggregator_key_sha256", .string (Text.ofString "92cd")),
    (Text.ofString "public_input_count", .number (toDouble (natural 4))),
    (Text.ofString "public_input_bytes", .number (toDouble (natural 128))),
    (Text.ofString "public_input_positions", .object samplePositions)]

theorem parse_sampleManifest :
    JavaScript.parse sampleManifestText = some (.object sampleProperties) := by
  have hparse : JsonText.parse sampleManifestText =
      some ((SerdeJson.toJson sampleManifestValue).getD .null) :=
    SerdeJson.reference_documented.pretty rfl
  rw [JavaScript.parse, hparse]
  rfl

theorem readPositions_sample :
    Sdk.readPositions samplePositions = .ok sampleManifest.publicInputPositions := by
  have hcontext := @Sdk.readPosition_natural samplePositions 2 .contextHash rfl (by decide)
  have hkey := @Sdk.readPosition_natural samplePositions 0 .innerKeyHash rfl (by decide)
  have hroot := @Sdk.readPosition_natural samplePositions 3 .finalRoot rfl (by decide)
  have hl := @Sdk.readPosition_natural samplePositions 1 .l rfl (by decide)
  rw [Sdk.readPositions, bind_eq_ok]
  simp only [Sdk.PUBLIC_INPUT_NAMES, List.foldlM_cons, Sdk.setPosition, hcontext, hkey, hroot, hl]
  exact ⟨_, rfl, rfl⟩

theorem parseManifest_sample :
    Sdk.parseManifest sampleEngine sampleManifestText = .ok sampleManifest := by
  have hbatch := @Sdk.powerOfTwoField_natural sampleProperties 1024 "batch_b" rfl
    ⟨by decide, by decide⟩ (by decide)
  have hcount := @Sdk.powerOfTwoField_natural sampleProperties 4 "num_batches_k" rfl
    ⟨by decide, by decide⟩ (by decide)
  simp only [Sdk.parseManifest, bind_eq_ok, parse_sampleManifest]
  refine ⟨_, rfl, sampleProperties, rfl, (), if_pos (Sdk.isNumber_natural (by decide)), (),
    if_pos (Sdk.isNumber_natural (by decide)), samplePositions, rfl, _, readPositions_sample, 1024,
    hbatch, 4, hcount, 19, rfl, _, rfl, _, rfl, _, rfl, _, rfl, _, rfl, _, rfl, ?_⟩
  rfl

/-- The parameters of that order. -/
def sampleParams : PublicInputParams where
  innerKeyHash := INNER_KEY_HASH
  canonical := by decide
  contextHashIndex := 2
  innerKeyHashIndex := 0
  finalRootIndex := 3
  lIndex := 1

theorem public_input_vector_sample :
    sampleParams.Carries sampleManifest ∧
      ∃ bytes, sampleParams.publicInputs 5 6 7 = some bytes ∧
        Sdk.serializePublicInputs sampleManifest (sampleParams.values 5 6 7) = .ok bytes ∧
        bytes.length = Sdk.PUBLIC_INPUT_BYTES ∧
        Sdk.readPublicInputs sampleManifest bytes = .ok (sampleParams.values 5 6 7) := by
  have hcarries : sampleParams.Carries sampleManifest := fun name => by cases name <;> rfl
  obtain ⟨-, hread, -, -, hparams, -⟩ := public_input_vector parseManifest_sample
  obtain ⟨bytes, hbytes, hwritten, hlength⟩ :=
    (hparams sampleParams hcarries).1 5 6 7 (by decide) (by decide)
  have hlt : ∀ name, (sampleParams.values 5 6 7).value name < frModulus :=
    PublicInputParams.values_lt (by decide) (by decide)
  obtain ⟨bytes', hwritten', -, hback⟩ := hread _ hlt
  obtain rfl : bytes = bytes' := Except.ok.inj (hwritten.symm.trans hwritten')
  exact ⟨hcarries, bytes, hbytes, hwritten, hlength, hback⟩

end ZkPoR
