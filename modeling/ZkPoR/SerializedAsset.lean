import ZkPoR.BoundedLoop
import ZkPoR.Registry
import ZkPoR.Splitting

/-! # Serialized classic assets

`classic_issuer` reads the issuer from a byte string that the caller supplies.  A
string that it takes is one of two layouts in full (`classicIssuer_eq_ok`), so a key and
a code have one string of each kind.  The reader asks for no byte behind the end:
`HostRead.classicIssuer` does the same with reads that can trap, and it never traps.
-/
namespace ZkPoR
open ByteString CheckedInt Splitting
open BoundedLoop (bind_eq_ok)

/-! ## One word -/

section Word
variable {bytes : Bytes} {offset : Nat}

/-- One more byte of a word that is not full. -/
theorem toNat_shift_or {value : U32} {byte : UInt8} (h : value.toNat < 2 ^ 24) :
    ((value <<< 8) ||| byte.toBitVec.setWidth 32).toNat = value.toNat * 256 + byte.toNat := by
  have hbyte : byte.toNat < 2 ^ 8 := byte.toNat_lt
  have hshift : (value <<< 8).toNat = value.toNat <<< 8 := by
    rw [BitVec.toNat_shiftLeft, Nat.shiftLeft_eq, Nat.mod_eq_of_lt (by omega)]
  have hwidth : (byte.toBitVec.setWidth 32).toNat = byte.toNat := by
    rw [BitVec.toNat_setWidth, UInt8.toNat_toBitVec, Nat.mod_eq_of_lt (by omega)]
  rw [BitVec.toNat_or, hshift, hwidth, ← Nat.shiftLeft_add_eq_or_of_lt hbyte, Nat.shiftLeft_eq]

/-- The loop reads a big-endian number. -/
theorem toNat_foldl_word {word : Bytes} (h : word.length ≤ XDR_DISCRIMINANT_BYTES) :
    (word.foldl (fun (value : U32) byte => (value <<< 8) ||| byte.toBitVec.setWidth 32) 0).toNat =
      beNat word := by
  induction word using List.reverseRecOn with
  | nil => rfl
  | append_singleton word byte ih =>
    rw [List.length_append, List.length_singleton] at h
    have hlt : beNat word < 2 ^ 24 :=
      calc beNat word < 256 ^ word.length := beNat_lt word
        _ ≤ 256 ^ 3 := Nat.pow_le_pow_right (by decide) (Nat.le_of_succ_le_succ h)
    have hword := ih (Nat.le_of_succ_le h)
    rw [List.foldl_append, List.foldl_cons, List.foldl_nil, toNat_shift_or (hword ▸ hlt), hword,
      beNat_concat]

theorem map_range_getD (h : offset + XDR_DISCRIMINANT_BYTES ≤ bytes.length) :
    (List.range XDR_DISCRIMINANT_BYTES).map (fun index => bytes.getD (offset + index) 0) =
      slice bytes offset (offset + XDR_DISCRIMINANT_BYTES) := by
  apply List.ext_getElem?
  intro k
  rw [getElem?_slice, List.getElem?_map]
  by_cases hk : k < XDR_DISCRIMINANT_BYTES
  · rw [List.getElem?_range hk, if_pos (by omega), Option.map_some, List.getD_eq_getElem?_getD,
      List.getElem?_eq_getElem (show offset + k < bytes.length by omega), Option.getD_some]
  · rw [List.getElem?_eq_none (by rw [List.length_range]; omega), if_neg (by omega), Option.map_none]

/-- **A word is the four bytes at its offset.** -/
theorem u32At_eq_ok {value : U32} :
    u32At bytes offset = .ok value ↔ offset + XDR_DISCRIMINANT_BYTES ≤ bytes.length ∧
      slice bytes offset (offset + XDR_DISCRIMINANT_BYTES) =
        toBe XDR_DISCRIMINANT_BYTES value.toNat := by
  unfold u32At
  split
  · rename_i hshort
    refine ⟨fun h => (by cases h), fun h => ?_⟩
    omega
  · rename_i hlong
    have hle : offset + XDR_DISCRIMINANT_BYTES ≤ bytes.length := Nat.le_of_not_lt hlong
    have hlength : (slice bytes offset (offset + XDR_DISCRIMINANT_BYTES)).length =
        XDR_DISCRIMINANT_BYTES := by
      rw [length_slice hle, Nat.add_sub_cancel_left]
    have hword := toNat_foldl_word hlength.le
    rw [← map_range_getD hle, List.foldl_map] at hword
    rw [Except.ok.injEq, and_iff_right hle]
    constructor
    · rintro rfl
      have hsame := toBe_beNat (slice bytes offset (offset + XDR_DISCRIMINANT_BYTES))
      rw [hlength] at hsame
      rw [hword, map_range_getD hle, hsame]
    · intro h
      have hvalue : value.toNat < 256 ^ XDR_DISCRIMINANT_BYTES := value.isLt
      apply BitVec.eq_of_toNat_eq
      rw [hword, map_range_getD hle, h, beNat_toBe_of_lt hvalue]

/-- The only refusal of a word is that the string ends. -/
theorem u32At_eq_error {error : Error} : u32At bytes offset = .error error ↔
    bytes.length < offset + XDR_DISCRIMINANT_BYTES ∧ error = .malformedAsset := by
  unfold u32At
  split
  · rename_i hshort
    rw [Except.error.injEq, and_iff_right hshort, eq_comm]
  · rename_i hlong
    refine ⟨fun h => (by cases h), fun h => absurd h.1 hlong⟩

end Word

/-! ## The layouts -/

/-- A serialized asset: its type, its code, the type of the key, and the key. -/
def serializedAsset (assetType : U32) (code : Bytes) (key : BytesN 32) : Bytes :=
  toBe XDR_DISCRIMINANT_BYTES assetType.toNat ++ code ++
    toBe XDR_DISCRIMINANT_BYTES PUBLIC_KEY_TYPE_ED25519.toNat ++ key.toList

/-- The string is one of the two layouts of a classic asset. -/
def IsClassicAsset (bytes code : Bytes) (key : BytesN 32) : Prop :=
  code.length = ASSET_CODE4_BYTES ∧ bytes = serializedAsset ASSET_TYPE_ALPHANUM4 code key ∨
    code.length = ASSET_CODE12_BYTES ∧ bytes = serializedAsset ASSET_TYPE_ALPHANUM12 code key

/-- The account of a key. -/
def account (key : BytesN 32) : Address := .ofPayload (.accountIdPublicKeyEd25519 key)

theorem codeBytes_eq_ok {assetType : U32} {code : Nat} : codeBytes assetType = .ok code ↔
    assetType = ASSET_TYPE_ALPHANUM4 ∧ code = ASSET_CODE4_BYTES ∨
      assetType = ASSET_TYPE_ALPHANUM12 ∧ code = ASSET_CODE12_BYTES := by
  unfold codeBytes
  split
  · rename_i hnative
    subst hnative
    simp [ASSET_TYPE_NATIVE, ASSET_TYPE_ALPHANUM4, ASSET_TYPE_ALPHANUM12]
  split
  · rename_i h4
    subst h4
    simp [ASSET_TYPE_ALPHANUM4, ASSET_TYPE_ALPHANUM12, eq_comm]
  split
  · rename_i h12
    subst h12
    simp [ASSET_TYPE_ALPHANUM4, ASSET_TYPE_ALPHANUM12, eq_comm]
  · rename_i h4 h12
    simp [h4, h12]

theorem codeBytes_error {assetType : U32} {error : Error} (h : codeBytes assetType = .error error) :
    error = .malformedAsset ∨
      error = .nativeAssetNotSupported ∧ assetType = ASSET_TYPE_NATIVE := by
  unfold codeBytes at h
  split at h
  · rename_i hnative
    exact .inr ⟨(Except.error.inj h).symm, hnative⟩
  split at h
  · cases h
  split at h
  · cases h
  · exact .inl (Except.error.inj h).symm

theorem isClassicAsset_iff {bytes code : Bytes} {key : BytesN 32} :
    IsClassicAsset bytes code key ↔ ∃ assetType, codeBytes assetType = .ok code.length ∧
      bytes = serializedAsset assetType code key := by
  simp only [codeBytes_eq_ok]
  constructor
  · rintro (⟨hlen, hbytes⟩ | ⟨hlen, hbytes⟩)
    · exact ⟨_, .inl ⟨rfl, hlen⟩, hbytes⟩
    · exact ⟨_, .inr ⟨rfl, hlen⟩, hbytes⟩
  · rintro ⟨assetType, ⟨rfl, hlen⟩ | ⟨rfl, hlen⟩, hbytes⟩
    · exact .inl ⟨hlen, hbytes⟩
    · exact .inr ⟨hlen, hbytes⟩

/-- The steps behind the asset type, for a code of a known length. -/
def issuerAt (bytes : Bytes) (code : Nat) : Except Error Address :=
  let keyTypeAt := XDR_DISCRIMINANT_BYTES + code
  let keyAt := keyTypeAt + XDR_DISCRIMINANT_BYTES
  if bytes.length ≠ keyAt + ED25519_KEY_BYTES then .error .malformedAsset
  else do
    let keyType ← u32At bytes keyTypeAt
    if keyType ≠ PUBLIC_KEY_TYPE_ED25519 then .error .malformedAsset
    else if h : ((bytes.drop keyAt).take ED25519_KEY_BYTES).length = 32 then
      .ok (account ⟨_, h⟩)
    else .error .malformedAsset

theorem classicIssuer_eq (bytes : Bytes) : classicIssuer bytes = (do
    let assetType ← u32At bytes 0
    let code ← codeBytes assetType
    issuerAt bytes code) := rfl

/-- A string from an offset on is the word there and the rest. -/
theorem drop_eq_word_append {bytes : Bytes} {offset : Nat}
    (h : offset + XDR_DISCRIMINANT_BYTES ≤ bytes.length) :
    bytes.drop offset = slice bytes offset (offset + XDR_DISCRIMINANT_BYTES) ++
      bytes.drop (offset + XDR_DISCRIMINANT_BYTES) := by
  have hdrop : ∀ i, bytes.drop i = slice bytes i bytes.length := fun i => by
    rw [slice, List.take_length]
  rw [hdrop, hdrop, slice_append (Nat.le_add_right _ _) h]

/-- Behind a code, the string is the type of the key and the key. -/
theorem issuerAt_eq_ok {bytes : Bytes} {code : Nat} {issuer : Address} :
    issuerAt bytes code = .ok issuer ↔ ∃ key : BytesN 32, issuer = account key ∧
      bytes.drop (XDR_DISCRIMINANT_BYTES + code) =
        toBe XDR_DISCRIMINANT_BYTES PUBLIC_KEY_TYPE_ED25519.toNat ++ key.toList := by
  have hword : XDR_DISCRIMINANT_BYTES = 4 := rfl
  unfold issuerAt
  dsimp only
  split
  · rename_i hlength
    refine ⟨fun h => (by cases h), ?_⟩
    rintro ⟨key, -, hdrop⟩
    refine absurd ?_ hlength
    have hlen := congrArg List.length hdrop
    rw [List.length_drop, List.length_append, length_toBe, key.toList_length] at hlen
    unfold ED25519_KEY_BYTES
    omega
  rename_i hlength
  have hlength := not_not.mp hlength
  have hle : XDR_DISCRIMINANT_BYTES + code + XDR_DISCRIMINANT_BYTES ≤ bytes.length :=
    hlength ▸ Nat.le_add_right _ _
  have hrest : (bytes.drop (XDR_DISCRIMINANT_BYTES + code + XDR_DISCRIMINANT_BYTES)).length = 32 := by
    rw [List.length_drop, hlength, Nat.add_sub_cancel_left]
    rfl
  have hkey : (bytes.drop (XDR_DISCRIMINANT_BYTES + code + XDR_DISCRIMINANT_BYTES)).take
      ED25519_KEY_BYTES = bytes.drop (XDR_DISCRIMINANT_BYTES + code + XDR_DISCRIMINANT_BYTES) :=
    List.take_of_length_le hrest.le
  rw [bind_eq_ok, drop_eq_word_append hle]
  constructor
  · rintro ⟨keyType, hkeyType, h⟩
    split at h
    · cases h
    rename_i hed25519
    rw [dif_pos (by rw [hkey, hrest])] at h
    obtain rfl := Except.ok.inj h
    refine ⟨_, rfl, ?_⟩
    rw [(u32At_eq_ok.mp hkeyType).2, not_not.mp hed25519]
    congr 1
    exact hkey.symm
  · rintro ⟨key, rfl, hdrop⟩
    obtain ⟨hslice, hkeyList⟩ := List.append_inj hdrop (by
      rw [length_slice hle, length_toBe, Nat.add_sub_cancel_left])
    refine ⟨_, u32At_eq_ok.mpr ⟨hle, hslice⟩, ?_⟩
    rw [if_neg (not_not.mpr rfl), dif_pos (by rw [hkey, hrest])]
    congr 2
    exact Subtype.ext (hkey.trans hkeyList)

theorem read_serializedAsset (assetType : U32) (code : Bytes) (key : BytesN 32) :
    u32At (serializedAsset assetType code key) 0 = .ok assetType ∧
      issuerAt (serializedAsset assetType code key) code.length = .ok (account key) := by
  have hword : (toBe XDR_DISCRIMINANT_BYTES assetType.toNat).length = XDR_DISCRIMINANT_BYTES :=
    length_toBe _ _
  constructor
  · have heq : serializedAsset assetType code key = [] ++ toBe XDR_DISCRIMINANT_BYTES
        assetType.toNat ++ (code ++ toBe XDR_DISCRIMINANT_BYTES PUBLIC_KEY_TYPE_ED25519.toNat ++
          key.toList) := by
      simp [serializedAsset]
    have hslice := slice_of_eq_append heq
    rw [hword] at hslice
    refine u32At_eq_ok.mpr ⟨?_, hslice⟩
    rw [heq, List.nil_append, List.length_append, hword]
    omega
  · refine issuerAt_eq_ok.mpr ⟨key, rfl, ?_⟩
    rw [serializedAsset, List.append_assoc _ (toBe _ _), List.drop_left']
    rw [List.length_append, hword]

/-- **The reader takes the layouts.** -/
theorem classicIssuer_eq_ok {bytes : Bytes} {issuer : Address} : classicIssuer bytes = .ok issuer ↔
    ∃ code key, issuer = account key ∧ IsClassicAsset bytes code key := by
  rw [classicIssuer_eq, bind_eq_ok]
  constructor
  · rintro ⟨assetType, hassetType, h⟩
    obtain ⟨length, hlength, h⟩ := bind_eq_ok.mp h
    obtain ⟨key, rfl, hdrop⟩ := issuerAt_eq_ok.mp h
    obtain ⟨hle, hslice⟩ := u32At_eq_ok.mp hassetType
    have hbytes : bytes = serializedAsset assetType
        ((bytes.drop XDR_DISCRIMINANT_BYTES).take length) key := by
      rw [serializedAsset, ← hslice, List.append_assoc, List.append_assoc, ← hdrop,
        ← List.drop_drop, List.take_append_drop]
      conv_lhs => rw [← List.drop_zero (l := bytes), drop_eq_word_append hle]
      rw [Nat.zero_add]
    have hlen : ((bytes.drop XDR_DISCRIMINANT_BYTES).take length).length = length := by
      have hrest := congrArg List.length hdrop
      rw [List.length_drop, List.length_append, length_toBe] at hrest
      have hword : XDR_DISCRIMINANT_BYTES = 4 := rfl
      rw [List.length_take, List.length_drop]
      omega
    exact ⟨_, key, rfl, isClassicAsset_iff.mpr ⟨assetType, by rw [hlen, hlength], hbytes⟩⟩
  · rintro ⟨code, key, rfl, hclassic⟩
    obtain ⟨assetType, hcode, rfl⟩ := isClassicAsset_iff.mp hclassic
    obtain ⟨hassetType, hissuer⟩ := read_serializedAsset assetType code key
    exact ⟨_, hassetType, bind_eq_ok.mpr ⟨_, hcode, hissuer⟩⟩

/-! ## The refusals -/

theorem issuerAt_error {bytes : Bytes} {code : Nat} {error : Error}
    (h : issuerAt bytes code = .error error) : error = .malformedAsset := by
  unfold issuerAt at h
  dsimp only at h
  split at h
  · exact (Except.error.inj h).symm
  cases hkeyType : u32At bytes (XDR_DISCRIMINANT_BYTES + code) with
  | error reason =>
    rw [hkeyType] at h
    obtain rfl := Except.error.inj h
    exact (u32At_eq_error.mp hkeyType).2
  | ok keyType =>
    rw [hkeyType] at h
    dsimp only [bind, Except.bind] at h
    split at h
    · exact (Except.error.inj h).symm
    split at h
    · cases h
    · exact (Except.error.inj h).symm

/-- Only the native type is refused under another reason. -/
theorem classicIssuer_error {bytes : Bytes} {error : Error}
    (h : classicIssuer bytes = .error error) :
    error = .malformedAsset ∨ error = .nativeAssetNotSupported ∧
      u32At bytes 0 = .ok ASSET_TYPE_NATIVE := by
  rw [classicIssuer_eq] at h
  cases hassetType : u32At bytes 0 with
  | error reason =>
    rw [hassetType] at h
    obtain rfl := Except.error.inj h
    exact .inl (u32At_eq_error.mp hassetType).2
  | ok assetType =>
    rw [hassetType] at h
    dsimp only [bind, Except.bind] at h
    cases hcode : codeBytes assetType with
    | error reason =>
      rw [hcode] at h
      obtain rfl := Except.error.inj h
      rcases codeBytes_error hcode with hmalformed | ⟨hnative, rfl⟩
      · exact .inl hmalformed
      · exact .inr ⟨hnative, rfl⟩
    | ok code =>
      rw [hcode] at h
      exact .inl (issuerAt_error h)

/-- **The native type is refused under its own reason.** -/
theorem classicIssuer_eq_native {bytes : Bytes} :
    classicIssuer bytes = .error .nativeAssetNotSupported ↔ 4 ≤ bytes.length ∧
      bytes.take 4 = [0, 0, 0, 0] := by
  have hword : u32At bytes 0 = .ok ASSET_TYPE_NATIVE ↔ 4 ≤ bytes.length ∧
      bytes.take 4 = [0, 0, 0, 0] := by
    rw [u32At_eq_ok, Nat.zero_add, slice, List.drop_zero]
    rfl
  rw [← hword]
  constructor
  · intro h
    rcases classicIssuer_error h with hmalformed | ⟨-, hnative⟩
    · cases hmalformed
    · exact hnative
  · intro h
    rw [classicIssuer_eq, h]
    rfl

/-! ## Reads that can trap

The same reader, over reads that trap behind the end of the string.
-/
namespace HostRead

/-- `get_unchecked`. -/
def getUnchecked (bytes : Bytes) (index : Nat) : ExceptT Error Option UInt8 :=
  ExceptT.lift bytes[index]?

/-- `slice`. -/
def slice (bytes : Bytes) (start stop : Nat) : ExceptT Error Option Bytes :=
  ExceptT.lift (if start ≤ stop ∧ stop ≤ bytes.length then some (Splitting.slice bytes start stop)
    else none)

def u32At (bytes : Bytes) (offset : Nat) : ExceptT Error Option U32 :=
  if bytes.length < offset + XDR_DISCRIMINANT_BYTES then throw .malformedAsset
  else (List.range XDR_DISCRIMINANT_BYTES).foldlM (fun value index => do
    let byte ← getUnchecked bytes (offset + index)
    return (value <<< 8) ||| byte.toBitVec.setWidth 32) 0

/-- `try_into`. -/
def tryInto (key : Bytes) : ExceptT Error Option (BytesN 32) :=
  if h : key.length = 32 then return ⟨key, h⟩ else throw .malformedAsset

def classicIssuer (bytes : Bytes) : ExceptT Error Option Address := do
  let assetType ← u32At bytes 0
  let code ← ExceptT.mk (some (codeBytes assetType))
  let keyTypeAt := XDR_DISCRIMINANT_BYTES + code
  let keyAt := keyTypeAt + XDR_DISCRIMINANT_BYTES
  if bytes.length ≠ keyAt + ED25519_KEY_BYTES then throw .malformedAsset
  else
    let keyType ← u32At bytes keyTypeAt
    if keyType ≠ PUBLIC_KEY_TYPE_ED25519 then throw .malformedAsset
    else
      let key ← slice bytes keyAt (keyAt + ED25519_KEY_BYTES)
      let key ← tryInto key
      return account key

theorem tryInto_eq {key : Bytes} (h : key.length = 32) : tryInto key = pure ⟨key, h⟩ := dif_pos h

theorem getUnchecked_eq {bytes : Bytes} {index : Nat} (h : index < bytes.length) :
    getUnchecked bytes index = pure (bytes.getD index 0) := by
  rw [getUnchecked, List.getElem?_eq_getElem h, List.getD_eq_getElem?_getD,
    List.getElem?_eq_getElem h]
  rfl

theorem foldlM_getUnchecked {bytes : Bytes} {offset : Nat} {step : U32 → UInt8 → U32}
    {indices : List Nat} (h : ∀ index ∈ indices, offset + index < bytes.length) (value : U32) :
    indices.foldlM (fun value index => do
        let byte ← getUnchecked bytes (offset + index)
        return step value byte) value =
      (pure (indices.foldl (fun value index => step value (bytes.getD (offset + index) 0)) value) :
        ExceptT Error Option U32) := by
  induction indices generalizing value with
  | nil => rfl
  | cons index indices ih =>
    rw [List.forall_mem_cons] at h
    rw [List.foldlM_cons, getUnchecked_eq h.1, pure_bind, pure_bind, ih h.2, List.foldl_cons]

theorem u32At_eq (bytes : Bytes) (offset : Nat) :
    (u32At bytes offset).run = some (ZkPoR.u32At bytes offset) := by
  unfold u32At ZkPoR.u32At
  split
  · rfl
  · rename_i hlong
    rw [foldlM_getUnchecked fun index hindex => ?_]
    · rfl
    · rw [List.mem_range] at hindex
      omega

/-- Steps that do not trap. -/
theorem run_bind {α β : Type} {x : ExceptT Error Option α} {y : Except Error α}
    {f : α → ExceptT Error Option β} {g : α → Except Error β} (hx : x.run = some y)
    (hf : ∀ a, (f a).run = some (g a)) : (x >>= f).run = some (y >>= g) := by
  have hx : x = some y := hx
  subst hx
  cases y with
  | error reason => rfl
  | ok a => exact hf a

/-- **No read traps.** -/
theorem run_classicIssuer (bytes : Bytes) :
    (classicIssuer bytes).run = some (ZkPoR.classicIssuer bytes) := by
  rw [classicIssuer_eq]
  refine run_bind (u32At_eq bytes 0) fun assetType => run_bind rfl fun code => ?_
  unfold issuerAt
  dsimp only
  split
  · rfl
  rename_i hlength
  have hlength := not_not.mp hlength
  refine run_bind (u32At_eq bytes _) fun keyType => ?_
  split
  · rfl
  · -- the slice ends where the string does
    have hrest : (bytes.drop (XDR_DISCRIMINANT_BYTES + code + XDR_DISCRIMINANT_BYTES)).length =
        32 := by
      rw [List.length_drop, hlength, Nat.add_sub_cancel_left]
      rfl
    have hslice : slice bytes (XDR_DISCRIMINANT_BYTES + code + XDR_DISCRIMINANT_BYTES)
        (XDR_DISCRIMINANT_BYTES + code + XDR_DISCRIMINANT_BYTES + ED25519_KEY_BYTES) =
        pure (bytes.drop (XDR_DISCRIMINANT_BYTES + code + XDR_DISCRIMINANT_BYTES)) := by
      rw [slice, if_pos ⟨Nat.le_add_right _ _, hlength.ge⟩, Splitting.slice, ← hlength,
        List.take_length]
      rfl
    have hkey : (bytes.drop (XDR_DISCRIMINANT_BYTES + code + XDR_DISCRIMINANT_BYTES)).take
        ED25519_KEY_BYTES = bytes.drop (XDR_DISCRIMINANT_BYTES + code + XDR_DISCRIMINANT_BYTES) :=
      List.take_of_length_le hrest.le
    simp only [hkey]
    rw [hslice, pure_bind, tryInto_eq hrest, dif_pos hrest]
    rfl

end HostRead

/-! ## The parser -/

/-- A string has one code and one key. -/
theorem IsClassicAsset.unique {bytes code code' : Bytes} {key key' : BytesN 32}
    (h : IsClassicAsset bytes code key) (h' : IsClassicAsset bytes code' key') :
    code = code' ∧ key = key' := by
  obtain ⟨assetType, hcode, rfl⟩ := isClassicAsset_iff.mp h
  obtain ⟨assetType', hcode', hbytes⟩ := isClassicAsset_iff.mp h'
  have hassetType := (read_serializedAsset assetType code key).1
  rw [hbytes] at hassetType
  obtain rfl := Except.ok.inj ((read_serializedAsset assetType' code' key').1.symm.trans hassetType)
  have hlen : code.length = code'.length := Except.ok.inj (hcode.symm.trans hcode')
  obtain ⟨hleft, hkey⟩ := List.append_inj' hbytes (by rw [key.toList_length, key'.toList_length])
  obtain ⟨hleft, -⟩ := List.append_inj' hleft rfl
  exact ⟨(List.append_inj' hleft hlen).2, Subtype.ext hkey⟩

/-- A key and a code have one string of each kind. -/
theorem existsUnique_serializedAsset {assetType : U32} {code : Bytes} (key : BytesN 32)
    (hcode : codeBytes assetType = .ok code.length) :
    ∃! bytes, classicIssuer bytes = .ok (account key) ∧ u32At bytes 0 = .ok assetType ∧
      slice bytes XDR_DISCRIMINANT_BYTES (XDR_DISCRIMINANT_BYTES + code.length) = code := by
  have hslice : ∀ (assetType : U32) (code : Bytes) (key : BytesN 32),
      slice (serializedAsset assetType code key) XDR_DISCRIMINANT_BYTES
        (XDR_DISCRIMINANT_BYTES + code.length) = code := fun assetType code key =>
    slice_of_eq_append (List.append_assoc _ _ _)
  refine ⟨serializedAsset assetType code key, ⟨classicIssuer_eq_ok.mpr ⟨code, key, rfl,
    isClassicAsset_iff.mpr ⟨_, hcode, rfl⟩⟩, (read_serializedAsset assetType code key).1,
    hslice assetType code key⟩, ?_⟩
  rintro bytes ⟨hissuer, hassetType, hbytes⟩
  obtain ⟨code', key', hkey, hclassic⟩ := classicIssuer_eq_ok.mp hissuer
  obtain ⟨assetType', hcode', rfl⟩ := isClassicAsset_iff.mp hclassic
  obtain rfl := Except.ok.inj ((read_serializedAsset assetType' code' key').1.symm.trans hassetType)
  have hlen : code'.length = code.length := Except.ok.inj (hcode'.symm.trans hcode)
  rw [← hlen, hslice] at hbytes
  obtain rfl : key = key' := by
    unfold account at hkey
    exact AddressPayload.accountIdPublicKeyEd25519.inj (Address.ofPayload.inj hkey)
  rw [hbytes]

/-- **The parser of a serialized asset.**  It takes the two layouts in full and answers
the account of their key.  Four zero bytes at the front are refused as native, and every
other string as malformed.  No read is behind the end.  A key and a code have one string
of each kind, and no string names two keys. -/
theorem classicIssuer_parses :
    (∀ bytes issuer, classicIssuer bytes = .ok issuer ↔
      ∃ code key, issuer = account key ∧ IsClassicAsset bytes code key) ∧
    (∀ bytes, classicIssuer bytes = .error .nativeAssetNotSupported ↔
      4 ≤ bytes.length ∧ bytes.take 4 = [0, 0, 0, 0]) ∧
    (∀ bytes, classicIssuer bytes = .error .malformedAsset ↔
      (¬ ∃ code key, IsClassicAsset bytes code key) ∧
        ¬ (4 ≤ bytes.length ∧ bytes.take 4 = [0, 0, 0, 0])) ∧
    (∀ bytes error, classicIssuer bytes = .error error →
      error = .malformedAsset ∨ error = .nativeAssetNotSupported) ∧
    (∀ bytes, (HostRead.classicIssuer bytes).run = some (classicIssuer bytes)) ∧
    (∀ assetType code (key : BytesN 32), codeBytes assetType = .ok code.length →
      ∃! bytes, classicIssuer bytes = .ok (account key) ∧ u32At bytes 0 = .ok assetType ∧
        slice bytes XDR_DISCRIMINANT_BYTES (XDR_DISCRIMINANT_BYTES + code.length) = code) ∧
    (∀ bytes code code' key key', IsClassicAsset bytes code key → IsClassicAsset bytes code' key' →
      code = code' ∧ key = key') := by
  refine ⟨fun _ _ => classicIssuer_eq_ok, fun _ => classicIssuer_eq_native, fun bytes => ?_,
    fun _ _ h => (classicIssuer_error h).imp_right And.left, HostRead.run_classicIssuer,
    fun _ _ key hcode => existsUnique_serializedAsset key hcode, fun _ _ _ _ _ h h' => h.unique h'⟩
  rw [← classicIssuer_eq_native]
  constructor
  · intro h
    refine ⟨?_, fun hnative => (by rw [h] at hnative; cases hnative)⟩
    rintro ⟨code, key, hclassic⟩
    have hok := classicIssuer_eq_ok.mpr ⟨code, key, rfl, hclassic⟩
    rw [h] at hok
    cases hok
  · rintro ⟨hlayout, hnative⟩
    cases hissuer : classicIssuer bytes with
    | ok issuer =>
      obtain ⟨code, key, -, hclassic⟩ := classicIssuer_eq_ok.mp hissuer
      exact absurd ⟨code, key, hclassic⟩ hlayout
    | error error =>
      rcases classicIssuer_error hissuer with rfl | ⟨rfl, -⟩
      · rfl
      · exact absurd hissuer hnative

/-- The four letters `USDC`, and a key: one string, which names the key. -/
theorem classicIssuer_parses_sample :
    (∃! bytes, classicIssuer bytes = .ok (account (List.Vector.replicate 32 7)) ∧
      u32At bytes 0 = .ok ASSET_TYPE_ALPHANUM4 ∧ slice bytes 4 8 = [85, 83, 68, 67]) ∧
    classicIssuer ([0, 0, 0, 1, 85, 83, 68, 67, 0, 0, 0, 0] ++ List.replicate 32 7) =
      .ok (account (List.Vector.replicate 32 7)) :=
  ⟨classicIssuer_parses.2.2.2.2.2.1 ASSET_TYPE_ALPHANUM4 [85, 83, 68, 67]
      (List.Vector.replicate 32 7) (by decide),
    (classicIssuer_parses.1 _ _).mpr ⟨[85, 83, 68, 67], List.Vector.replicate 32 7, rfl,
      .inl ⟨rfl, by decide⟩⟩⟩

end ZkPoR
