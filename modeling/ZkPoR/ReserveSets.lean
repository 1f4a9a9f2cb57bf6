import ZkPoR.Context
import Mathlib.Data.List.Perm.Basic

/-! # The reserve set hash in place

`reserve_set_hash` sorts a fixed array of which it uses a prefix.
`reserveSetHashInPlace` is that function, array and loops, and it is the
`reserveSetHash` of the other modules (`reserveSetHashInPlace_eq`).  A hash names its
set: the input of the sponge is the sorted list of limb pairs, every limb is a field
element, and the limbs name the addresses.
-/
namespace ZkPoR
open ByteString CheckedInt InsertionSort

section InPlace

/-- A slot that no address fills. -/
def emptySlot : AddressParts := ⟨0, List.Vector.replicate 32 0⟩

/-- The first loop: the parts of each address go to the slot of its index. -/
def fillSlots : List Address → Nat → List AddressParts → Except ContextError (List AddressParts)
  | [], _, sorted => .ok sorted
  | address :: reserves, index, sorted =>
    match addressParts address with
    | .error reason => .error reason
    | .ok parts => fillSlots reserves (index + 1) (sorted.set index parts)

/-- The second loop, over the first `count` slots. -/
def sortSlots (count : Nat) (sorted : List AddressParts) : List AddressParts :=
  (List.range' 1 (count - 1)).foldl sink sorted

/-- `reserve_set_hash`, on its array of 32 slots. -/
def reserveSetHashInPlace (poseidon2 : List Fr → Fr) (reserves : List Address) :
    Except ContextError U256 :=
  let count := reserves.length
  if count = 0 then .error .emptyReserveSet
  else if count > MAX_RESERVE_ADDRESSES then .error .tooManyReserveAddresses
  else
    match fillSlots reserves 0 (List.replicate MAX_RESERVE_ADDRESSES emptySlot) with
    | .error reason => .error reason
    | .ok slots =>
      let sorted := sortSlots count slots
      if hasEqualNeighboursIn count sorted then .error .duplicateReserveAddress
      else .ok (hash poseidon2 (limbs (sorted.take count)))

/-- Filling keeps the filled prefix in order. -/
theorem fillSlots_eq (reserves : List Address) (done slots : List AddressParts)
    (h : reserves.length ≤ slots.length) :
    fillSlots reserves done.length (done ++ slots) =
      (reserves.mapM addressParts).map fun parts =>
        done ++ parts ++ slots.drop reserves.length := by
  -- the slots before the position are filled, and those behind it are empty
  induction reserves generalizing done slots with
  | nil => simp [fillSlots, pure, Except.pure, Except.map]
  | cons address reserves ih =>
    cases slots with
    | nil => simp at h
    | cons slot slots =>
      rw [fillSlots, List.mapM_cons]
      cases hparts : addressParts address with
      | error reason => rfl
      | ok parts =>
        have hset : (done ++ slot :: slots).set done.length parts = (done ++ [parts]) ++ slots := by
          simp
        have hlength : done.length + 1 = (done ++ [parts]).length := by simp
        dsimp only
        rw [hset, hlength, ih (done ++ [parts]) slots (by simpa using h)]
        cases hrest : reserves.mapM addressParts with
        | error reason => rfl
        | ok rest => simp [Except.map, bind, Except.bind, pure, Except.pure]

/-- The slots in order, and the unused ones behind. -/
theorem sortSlots_eq (parts pad : List AddressParts) :
    sortSlots parts.length (parts ++ pad) = insertionSort parts ++ pad :=
  foldl_sink_prefix parts pad

theorem hasEqualNeighboursIn_sorted (parts pad : List AddressParts) :
    hasEqualNeighboursIn parts.length (insertionSort parts ++ pad) =
      hasEqualNeighbours (insertionSort parts) := by
  have h := hasEqualNeighboursIn_append (insertionSort parts) pad
  rwa [(insertionSort_perm parts).length_eq] at h

/-- **The array and the list agree.** -/
theorem reserveSetHashInPlace_eq (poseidon2 : List Fr → Fr) (reserves : List Address) :
    reserveSetHashInPlace poseidon2 reserves = reserveSetHash poseidon2 reserves := by
  unfold reserveSetHashInPlace reserveSetHash
  dsimp only
  split
  · rfl
  split
  · rfl
  rename_i hmany
  have hfill := fillSlots_eq reserves [] (List.replicate MAX_RESERVE_ADDRESSES emptySlot)
    (by rw [List.length_replicate]; omega)
  rw [List.length_nil, List.nil_append] at hfill
  rw [hfill]
  cases hparts : reserves.mapM addressParts with
  | error reason => rfl
  | ok parts =>
    -- the loops see the filled prefix only
    have hlength : reserves.length = parts.length :=
      (mapM_addressParts_eq_ok.mp hparts).length_eq
    have hsorted := (insertionSort_perm parts).length_eq
    simp only [Except.map, List.nil_append, hlength, sortSlots_eq, hasEqualNeighboursIn_sorted]
    split
    · rfl
    · rw [List.take_left' hsorted]

end InPlace

/-! ## The limbs of an address -/

theorem toNat_frFromBe {bytes : Bytes} (h : bytes.length = FR_BYTES) :
    (frFromBe bytes).toNat = beNat bytes := by
  have hlt := beNat_lt bytes
  rw [h] at hlt
  rw [frFromBe, BitVec.toNat_ofNat, Nat.mod_eq_of_lt]
  exact hlt

/-- The halves of a payload. -/
theorem length_halves (parts : AddressParts) :
    (parts.payload.toList.take ADDRESS_LIMB_BYTES).length = ADDRESS_LIMB_BYTES ∧
      (parts.payload.toList.drop ADDRESS_LIMB_BYTES).length = ADDRESS_LIMB_BYTES := by
  simp [ADDRESS_LIMB_BYTES]

/-- The tag stands above the first half of the payload. -/
theorem encodeParts_hi (parts : AddressParts) :
    (encodeParts parts).1.toNat =
      parts.tag.toNat * 2 ^ 128 + beNat (parts.payload.toList.take ADDRESS_LIMB_BYTES) := by
  obtain ⟨hfirst, -⟩ := length_halves parts
  have htag : parts.tag.toNat < 256 ^ ADDRESS_LIMB_BYTES :=
    parts.tag.isLt.trans (by norm_num [ADDRESS_LIMB_BYTES])
  have hlength : (toBe ADDRESS_LIMB_BYTES parts.tag.toNat ++
      parts.payload.toList.take ADDRESS_LIMB_BYTES).length = FR_BYTES := by
    rw [List.length_append, length_toBe, hfirst]
    rfl
  rw [encodeParts, toNat_frFromBe hlength, beNat_append, beNat_toBe_of_lt htag, hfirst]
  rfl

theorem encodeParts_lo (parts : AddressParts) :
    (encodeParts parts).2.toNat = beNat (parts.payload.toList.drop ADDRESS_LIMB_BYTES) := by
  obtain ⟨-, hsecond⟩ := length_halves parts
  have hlength : (List.replicate ADDRESS_LIMB_BYTES (0 : UInt8) ++
      parts.payload.toList.drop ADDRESS_LIMB_BYTES).length = FR_BYTES := by
    rw [List.length_append, List.length_replicate, hsecond]
    rfl
  rw [encodeParts, toNat_frFromBe hlength, beNat_append, beNat_zeros, Nat.zero_mul, Nat.zero_add]

theorem halves_lt (parts : AddressParts) :
    beNat (parts.payload.toList.take ADDRESS_LIMB_BYTES) < 2 ^ 128 ∧
      beNat (parts.payload.toList.drop ADDRESS_LIMB_BYTES) < 2 ^ 128 := by
  obtain ⟨hfirst, hsecond⟩ := length_halves parts
  have h1 := beNat_lt (parts.payload.toList.take ADDRESS_LIMB_BYTES)
  have h2 := beNat_lt (parts.payload.toList.drop ADDRESS_LIMB_BYTES)
  rw [hfirst] at h1
  rw [hsecond] at h2
  exact ⟨h1, h2⟩

/-- No bit of a limb is lost by reduction. -/
theorem frInRange_encodeParts (parts : AddressParts) :
    frInRange (encodeParts parts).1 ∧ frInRange (encodeParts parts).2 := by
  obtain ⟨hfirst, hsecond⟩ := halves_lt parts
  have htag := parts.tag.isLt
  have hmodulus : 2 ^ 200 < frModulus := by decide
  unfold frInRange
  rw [encodeParts_hi, encodeParts_lo]
  constructor <;> omega

/-- Every limb of a list of parts is a field element. -/
theorem frInRange_limbs {parts : List AddressParts} {x : U256} (h : x ∈ limbs parts) :
    frInRange x := by
  obtain ⟨p, -, hx⟩ := List.mem_flatMap.mp h
  rcases List.mem_pair.mp hx with rfl | rfl
  · exact (frInRange_encodeParts p).1
  · exact (frInRange_encodeParts p).2

/-- A list of limb pairs names its parts. -/
theorem limbs_injective : Function.Injective limbs := by
  intro parts
  induction parts with
  | nil =>
    intro parts' h
    cases parts' with
    | nil => rfl
    | cons p' parts' => cases h
  | cons p parts ih =>
    intro parts' h
    cases parts' with
    | nil => cases h
    | cons p' parts' =>
      simp only [limbs, List.flatMap_cons, List.cons_append, List.nil_append,
        List.cons.injEq] at h
      obtain ⟨hhi, hlo, hrest⟩ := h
      rw [encodeParts_injective (Prod.ext hhi hlo), ih hrest]

theorem limbs_ne_nil {parts : List AddressParts} (h : parts ≠ []) : limbs parts ≠ [] := by
  cases parts with
  | nil => exact absurd rfl h
  | cons p parts => exact List.cons_ne_nil _ _

/-- Canonical inputs survive the reduction of the host. -/
theorem map_toFr_inj {xs ys : List U256} (hxs : ∀ x ∈ xs, frInRange x)
    (hys : ∀ y ∈ ys, frInRange y) (h : xs.map toFr = ys.map toFr) : xs = ys := by
  have hback : ∀ {zs : List U256}, (∀ z ∈ zs, frInRange z) → (zs.map toFr).map ofFr = zs := by
    intro zs hzs
    rw [List.map_map]
    exact (List.map_congr_left fun z hz => ofFr_toFr (hzs z hz)).trans (List.map_id _)
  rw [← hback hxs, ← hback hys, h]

/-! ## The set that a hash names -/

/-- What the host hashes for a list of parts. -/
def setInput (parts : List AddressParts) : List Fr := (limbs (insertionSort parts)).map toFr

/-- The input of the sponge names the parts, up to their order. -/
theorem setInput_eq_iff {parts parts' : List AddressParts} :
    setInput parts = setInput parts' ↔ parts.Perm parts' := by
  constructor
  · intro h
    have hlimbs := map_toFr_inj (fun _ => frInRange_limbs) (fun _ => frInRange_limbs) h
    have hsorted := limbs_injective hlimbs
    exact (insertionSort_perm parts).symm.trans (hsorted ▸ insertionSort_perm parts')
  · intro h
    rw [setInput, insertionSort_congr h, setInput]

/-- The parts are those of the addresses, up to their order. -/
theorem perm_parts_iff {reserves reserves' : List Address} {parts parts' : List AddressParts}
    (h : reserves.mapM addressParts = .ok parts) (h' : reserves'.mapM addressParts = .ok parts') :
    reserves.Perm reserves' ↔ parts.Perm parts' := by
  have hunique : Relator.BiUnique fun address p => addressParts address = .ok p :=
    ⟨fun _ _ _ ha hb => addressParts_injOn ha hb,
      fun _ _ _ ha hb => Except.ok.inj (ha.symm.trans hb)⟩
  exact List.rel_perm hunique (mapM_addressParts_eq_ok.mp h) (mapM_addressParts_eq_ok.mp h')

/-- The input that a list of addresses gives, nothing where an address has no parts. -/
def reserveInput (reserves : List Address) : List Fr :=
  match reserves.mapM addressParts with
  | .ok parts => setInput parts
  | .error _ => []

theorem reserveInput_eq {reserves : List Address} {parts : List AddressParts}
    (h : reserves.mapM addressParts = .ok parts) : reserveInput reserves = setInput parts := by
  rw [reserveInput, h]

/-- The value of an accepted list is the hash of its input. -/
theorem reserveSetHash_eq_input {poseidon2 : List Fr → Fr} {reserves : List Address}
    {value : U256} (h : reserveSetHash poseidon2 reserves = .ok value) :
    value = ofFr (poseidon2 (reserveInput reserves)) := by
  obtain ⟨-, parts, hparts, rfl⟩ := reserveSetHash_eq_ok.mp h
  rw [reserveInput_eq hparts]
  rfl

/-- A list of accepted addresses has parts. -/
theorem exists_parts {reserves : List Address} (h : ∀ reserve ∈ reserves, reserve.Accepted) :
    ∃ parts, reserves.mapM addressParts = .ok parts := by
  induction reserves with
  | nil => exact ⟨[], rfl⟩
  | cons reserve reserves ih =>
    rw [List.forall_mem_cons] at h
    obtain ⟨parts, hparts⟩ := ih h.2
    obtain ⟨payload, rfl⟩ := h.1
    cases payload with
    | accountIdPublicKeyEd25519 key =>
      exact ⟨⟨ADDRESS_TAG_ACCOUNT, key⟩ :: parts, by rw [List.mapM_cons, hparts]; rfl⟩
    | contractIdHash id =>
      exact ⟨⟨ADDRESS_TAG_CONTRACT, id⟩ :: parts, by rw [List.mapM_cons, hparts]; rfl⟩

/-- The hash takes every reserve set. -/
theorem exists_reserveSetHash {poseidon2 : List Fr → Fr} {reserves : List Address} :
    (∃ value, reserveSetHash poseidon2 reserves = .ok value) ↔ ReserveSet reserves := by
  constructor
  · rintro ⟨value, h⟩
    exact (reserveSetHash_eq_ok.mp h).1
  · intro h
    obtain ⟨parts, hparts⟩ := exists_parts h.accepted
    exact ⟨_, reserveSetHash_eq_ok.mpr ⟨h, parts, hparts, rfl⟩⟩

/-- The order of the list does not count. -/
theorem reserveSetHash_perm {poseidon2 : List Fr → Fr} {reserves reserves' : List Address}
    {value : U256} (hperm : reserves.Perm reserves')
    (h : reserveSetHash poseidon2 reserves = .ok value) :
    reserveSetHash poseidon2 reserves' = .ok value := by
  obtain ⟨hset, parts, hparts, rfl⟩ := reserveSetHash_eq_ok.mp h
  have hset' : ReserveSet reserves' :=
    { nonempty := hperm.length_eq ▸ hset.nonempty
      bounded := hperm.length_eq ▸ hset.bounded
      accepted := fun reserve hmem => hset.accepted reserve (hperm.mem_iff.mpr hmem)
      distinct := hperm.nodup_iff.mp hset.distinct }
  obtain ⟨parts', hparts'⟩ := exists_parts hset'.accepted
  refine reserveSetHash_eq_ok.mpr ⟨hset', parts', hparts', ?_⟩
  rw [insertionSort_congr ((perm_parts_iff hparts hparts').mp hperm)]

/-- **A value names its set.**  Where the sponge has no collision, equal values come
from one set. -/
theorem reserveSetHash_binds {poseidon2 : List Fr → Fr} {S : Set (List Fr)}
    (hS : Set.InjOn poseidon2 S) {reserves reserves' : List Address} {value value' : U256}
    (h : reserveSetHash poseidon2 reserves = .ok value)
    (h' : reserveSetHash poseidon2 reserves' = .ok value')
    (hmem : reserveInput reserves ∈ S) (hmem' : reserveInput reserves' ∈ S) :
    value = value' ↔ reserves.Perm reserves' := by
  constructor
  · intro heq
    rw [reserveSetHash_eq_input h, reserveSetHash_eq_input h', ofFr_inj] at heq
    have hinput := hS hmem hmem' heq
    obtain ⟨-, parts, hparts, -⟩ := reserveSetHash_eq_ok.mp h
    obtain ⟨-, parts', hparts', -⟩ := reserveSetHash_eq_ok.mp h'
    rw [reserveInput_eq hparts, reserveInput_eq hparts'] at hinput
    exact (perm_parts_iff hparts hparts').mpr (setInput_eq_iff.mp hinput)
  · intro hperm
    exact Except.ok.inj ((reserveSetHash_perm hperm h).symm.trans h')

/-- **Limb pairs compare as the parts do**, by tag and then by payload. -/
theorem le_iff_limbs (p q : AddressParts) :
    p ≤ q ↔ (encodeParts p).1.toNat < (encodeParts q).1.toNat ∨
      (encodeParts p).1.toNat = (encodeParts q).1.toNat ∧
        (encodeParts p).2.toNat ≤ (encodeParts q).2.toNat := by
  have hsplit : ∀ r : AddressParts, beNat r.payload.toList =
      beNat (r.payload.toList.take ADDRESS_LIMB_BYTES) * 2 ^ 128 +
        beNat (r.payload.toList.drop ADDRESS_LIMB_BYTES) := fun r => by
    rw [← List.take_append_drop ADDRESS_LIMB_BYTES r.payload.toList, beNat_append,
      List.take_append_drop, (length_halves r).2]
    rfl
  have hlt : q < p ↔ q.tag.toNat < p.tag.toNat ∨ q.tag.toNat = p.tag.toNat ∧
      beNat q.payload.toList < beNat p.payload.toList := by
    rw [← map_toNat_lt_iff (q.payload.toList_length.trans p.payload.toList_length.symm)]
    exact List.cons_lt_cons_iff
  obtain ⟨hp1, hp2⟩ := halves_lt p
  obtain ⟨hq1, hq2⟩ := halves_lt q
  rw [← not_lt, hlt, hsplit, hsplit, encodeParts_hi, encodeParts_hi, encodeParts_lo,
    encodeParts_lo]
  omega

end ZkPoR
