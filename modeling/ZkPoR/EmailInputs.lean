import ZkPoR.ContextBinding
import ZkPoR.Disputes

/-! # What an email proof binds

The subject of an email is the base64url text of an identifier: 43 characters, and the
character at one place is one base-64 digit of the identifier (`sextet_eq`), so the text
names the identifier.  The public inputs are nine elements of 32 bytes, of which
the subject fills two, and the byte string of a registration context has fixed lengths,
so both name everything that they were built from.
-/
namespace ZkPoR
open ByteString CheckedInt

namespace Email

/-! ## The subject -/

/-- The value of the character at one place of the subject. -/
def sextet (id : U256) (index : Nat) : Nat :=
  let input := toBeBytes id
  let bit := index * 6
  let word : BitVec 16 := ((input.getD (bit / 8) 0).toBitVec.setWidth 16 <<< 8) |||
    (input.getD (bit / 8 + 1) 0).toBitVec.setWidth 16
  ((word >>> (10 - bit % 8)) &&& 63).toNat

theorem subject_eq (id : U256) :
    subject id = (List.range SUBJECT_BYTES).map fun index => BASE64URL.getD (sextet id index) 0 :=
  rfl

@[simp] theorem length_subject (id : U256) : (subject id).length = SUBJECT_BYTES := by
  simp [subject_eq]

/-- Two bytes as one word. -/
theorem toNat_word (a b : UInt8) :
    (((a.toBitVec.setWidth 16 <<< 8) ||| b.toBitVec.setWidth 16 : BitVec 16)).toNat =
      a.toNat * 256 + b.toNat := by
  have ha : a.toNat < 256 := a.toNat_lt
  have hb : b.toNat < 2 ^ 8 := b.toNat_lt
  have hmod : a.toNat <<< 8 % 2 ^ 16 = a.toNat <<< 8 := by
    rw [Nat.shiftLeft_eq]
    exact Nat.mod_eq_of_lt (by omega)
  rw [BitVec.toNat_or, BitVec.toNat_shiftLeft, BitVec.toNat_setWidth, BitVec.toNat_setWidth,
    UInt8.toNat_toBitVec, UInt8.toNat_toBitVec, Nat.mod_eq_of_lt (by omega : a.toNat < 2 ^ 16),
    Nat.mod_eq_of_lt (by omega : b.toNat < 2 ^ 16), hmod, ← Nat.shiftLeft_add_eq_or_of_lt hb,
    Nat.shiftLeft_eq]

/-- The word at one byte of the identifier, which a zero byte follows. -/
theorem toNat_source (id : U256) {source : Nat} (h : source ≤ 31) :
    ((toBeBytes id).getD source 0).toNat * 256 + ((toBeBytes id).getD (source + 1) 0).toNat =
      id.toNat * 256 / 256 ^ (31 - source) % 2 ^ 16 := by
  rw [List.getD_eq_getElem?_getD, List.getD_eq_getElem?_getD, toBeBytes,
    getElem?_toBe _ (show source < FR_BYTES by change source < 32; omega)]
  rcases Nat.lt_or_eq_of_le h with hlt | rfl
  · rw [getElem?_toBe _ (show source + 1 < FR_BYTES by change source + 1 < 32; omega)]
    obtain ⟨k, hk, hk'⟩ : ∃ k, 31 - source = k + 1 ∧ 31 - (source + 1) = k :=
      ⟨30 - source, by omega, by omega⟩
    have hhigh : id.toNat / 256 ^ (k + 1) = id.toNat / 256 ^ k / 256 := by
      rw [Nat.div_div_eq_div_mul, pow_succ]
    have hword : id.toNat * 256 / 256 ^ (k + 1) = id.toNat / 256 ^ k := by
      rw [pow_succ, Nat.mul_div_mul_right _ _ (by norm_num)]
    change (UInt8.ofNat (id.toNat / 256 ^ (31 - source))).toNat * 256 +
      (UInt8.ofNat (id.toNat / 256 ^ (31 - (source + 1)))).toNat = _
    rw [hk, hk', hhigh, hword, UInt8.toNat_ofNat', UInt8.toNat_ofNat']
    omega
  · rw [List.getElem?_eq_none (by simp [FR_BYTES])]
    simp [FR_BYTES]
    omega

/-- **One character of the subject is one base-64 digit of the identifier.** -/
theorem sextet_eq (id : U256) {index : Nat} (h : index < SUBJECT_BYTES) :
    sextet id index = id.toNat * 4 / 64 ^ (42 - index) % 64 := by
  have hindex : index < 43 := h
  have hshift : index * 6 % 8 ≤ 6 := by omega
  have hsource : index * 6 / 8 ≤ 31 := by omega
  -- the digit lies inside one word of two bytes
  have hdigit : ∀ (x k : Nat), k ≤ 10 → x % 2 ^ 16 / 2 ^ k % 64 = x / 2 ^ k % 64 := by
    intro x k hk
    have hdvd : 64 ∣ 2 ^ (16 - k) := pow_dvd_pow 2 (show 6 ≤ 16 - k by omega)
    rw [show (2 : Nat) ^ 16 = 2 ^ k * 2 ^ (16 - k) by rw [← pow_add]; congr 1; omega,
      Nat.mod_mul_right_div_self, Nat.mod_mod_of_dvd _ hdvd]
  have hexp : 256 ^ (31 - index * 6 / 8) * 2 ^ (10 - index * 6 % 8) = 64 ^ (42 - index) * 64 := by
    rw [← pow_succ, show (256 : Nat) = 2 ^ 8 by norm_num, show (64 : Nat) = 2 ^ 6 by norm_num,
      ← pow_mul, ← pow_mul, ← pow_add]
    congr 1
    omega
  have hquot : id.toNat * 256 = id.toNat * 4 * 64 := by omega
  rw [sextet, BitVec.toNat_and, BitVec.toNat_ushiftRight, toNat_word, toNat_source id hsource,
    Nat.shiftRight_eq_div_pow, show (63 : BitVec 16).toNat = 2 ^ 6 - 1 by rfl,
    Nat.and_two_pow_sub_one_eq_mod, hdigit _ _ (by omega), Nat.div_div_eq_div_mul, hexp, hquot,
    Nat.mul_div_mul_right _ _ (by norm_num)]

theorem sextet_lt (id : U256) {index : Nat} (h : index < SUBJECT_BYTES) : sextet id index < 64 := by
  rw [sextet_eq id h]
  exact Nat.mod_lt _ (by norm_num)

/-- **The subject names the identifier.** -/
theorem subject_injective : Function.Injective subject := by
  intro id id' h
  have hnodup : BASE64URL.Nodup := by decide
  -- the alphabet has no repeat, so the characters name the digits
  have hdigit : ∀ index < SUBJECT_BYTES, sextet id index = sextet id' index := by
    intro index hindex
    have hchar := congrArg (fun l => l.getD index 0) h
    simp only [subject_eq, List.getD_eq_getElem?_getD, List.getElem?_map,
      List.getElem?_range hindex, Option.map_some, Option.getD_some] at hchar
    have hlt := sextet_lt id hindex
    have hlt' := sextet_lt id' hindex
    have hlength : BASE64URL.length = 64 := rfl
    rw [List.getElem?_eq_getElem (hlength ▸ hlt), List.getElem?_eq_getElem (hlength ▸ hlt')] at hchar
    exact (List.Nodup.getElem_inj_iff hnodup).mp hchar
  have hbound : ∀ x : U256, x.toNat * 4 < 64 ^ 43 := fun x => by
    have := x.isLt
    calc x.toNat * 4 < 2 ^ 256 * 4 := by omega
      _ = 64 ^ 43 := by norm_num
  -- 43 digits are 258 bits, of which the last two are zero
  have hnat : id.toNat * 4 = id'.toNat * 4 := by
    refine eq_of_digits_eq (hbound id) (hbound id') fun j hj => ?_
    have hat := hdigit (42 - j) (show 42 - j < 43 by omega)
    rw [sextet_eq id (show 42 - j < 43 by omega), sextet_eq id' (show 42 - j < 43 by omega),
      show 42 - (42 - j) = j by omega] at hat
    exact hat
  exact BitVec.eq_of_toNat_eq (by omega)

/-! ## The public inputs -/

/-- The nine elements of the public inputs. -/
def elements (record : DkimKey) (id : U256) : List Bytes :=
  let zeros := List.replicate HASH_HALF_BYTES 0
  [toBeBytes record.contextHash, toBeBytes record.key.modulusHash, toBeBytes record.key.redcHash,
    zeros ++ record.key.domainHash.toList.take HASH_HALF_BYTES,
    zeros ++ record.key.domainHash.toList.drop HASH_HALF_BYTES,
    zeros ++ record.key.fromHeaderHash.toList.take HASH_HALF_BYTES,
    zeros ++ record.key.fromHeaderHash.toList.drop HASH_HALF_BYTES,
    packPart ((subject id).take PACKED_BYTES), packPart ((subject id).drop PACKED_BYTES)]

theorem publicInputs_eq (record : DkimKey) (id : U256) :
    publicInputs record id = (elements record id).flatten := by
  have hchunks : (subject id).toChunks PACKED_BYTES =
      [(subject id).take PACKED_BYTES, (subject id).drop PACKED_BYTES] := by
    have hlength := length_subject id
    have htake : ((subject id).take PACKED_BYTES).length = PACKED_BYTES := by
      rw [List.length_take, hlength]
      rfl
    have hne : (subject id).drop PACKED_BYTES ≠ [] := by
      rw [← List.length_pos_iff, List.length_drop, hlength]
      decide
    have hle : ((subject id).drop PACKED_BYTES).length ≤ PACKED_BYTES := by
      rw [List.length_drop, hlength]
      decide
    have h := toChunks_append (n := PACKED_BYTES) (by decide) htake hne hle
    rwa [List.take_append_drop] at h
  simp [publicInputs, hchunks, elements, appendHash]

theorem length_packPart {part : Bytes} (h : part.length ≤ PACKED_BYTES) :
    (packPart part).length = FR_BYTES := by
  change part.length ≤ 31 at h
  simp only [packPart, List.length_append, List.length_cons, List.length_replicate]
  change part.length + 1 + (32 - 1 - part.length) = 32
  omega

theorem length_take_subject (id : U256) : ((subject id).take PACKED_BYTES).length = 31 := by
  rw [List.length_take, length_subject]
  rfl

theorem length_drop_subject (id : U256) : ((subject id).drop PACKED_BYTES).length = 12 := by
  rw [List.length_drop, length_subject]
  rfl

theorem length_take_hash (hash : BytesN 32) : (hash.toList.take HASH_HALF_BYTES).length = 16 := by
  rw [List.length_take, hash.toList_length]
  rfl

theorem length_drop_hash (hash : BytesN 32) : (hash.toList.drop HASH_HALF_BYTES).length = 16 := by
  rw [List.length_drop, hash.toList_length]
  rfl

theorem length_elements (record : DkimKey) (id : U256) : (elements record id).length = 9 := by
  simp only [elements, List.length_cons, List.length_nil]

/-- Every element has 32 bytes. -/
theorem length_of_mem_elements (record : DkimKey) (id : U256) :
    ∀ e ∈ elements record id, e.length = FR_BYTES := by
  have hhalf : ∀ half : Bytes, half.length = 16 →
      (List.replicate HASH_HALF_BYTES (0 : UInt8) ++ half).length = FR_BYTES := fun half hlength => by
    rw [List.length_append, List.length_replicate, hlength]
    rfl
  have hfirst := length_packPart (length_take_subject id).le
  have hlast := length_packPart ((length_drop_subject id).trans_le (by decide))
  simp only [elements, List.forall_mem_cons]
  exact ⟨length_toBeBytes _, length_toBeBytes _, length_toBeBytes _, hhalf _ (length_take_hash _),
    hhalf _ (length_drop_hash _), hhalf _ (length_take_hash _), hhalf _ (length_drop_hash _),
    hfirst, hlast, fun _ h => nomatch h⟩

/-- What a registration checked of its numbers. -/
structure WellFormed (record : DkimKey) : Prop where
  modulus : record.key.modulusHash ≠ 0 ∧ frInRange record.key.modulusHash
  redc : record.key.redcHash ≠ 0 ∧ frInRange record.key.redcHash
  context : record.contextHash ≠ 0 ∧ frInRange record.contextHash

/-- A number that leaves the first byte zero is below the modulus. -/
theorem beNat_cons_zero_lt {bytes : Bytes} (h : bytes.length ≤ 31) : beNat (0 :: bytes) < frModulus := by
  have hlt := beNat_lt bytes
  have hpow : 256 ^ bytes.length ≤ 256 ^ 31 := Nat.pow_le_pow_right (by norm_num) h
  have hmodulus : 256 ^ 31 < frModulus := by decide
  rw [beNat_cons]
  change 0 * _ + _ < _
  omega

/-- **Every element of the public inputs is a canonical field element.** -/
theorem canonical_of_mem_elements {record : DkimKey} (hrecord : WellFormed record) (id : U256) :
    ∀ e ∈ elements record id, beNat e < frModulus := by
  have hhalf : ∀ half : Bytes, half.length = 16 →
      beNat (List.replicate HASH_HALF_BYTES 0 ++ half) < frModulus := fun half hlength => by
    change beNat (0 :: (List.replicate 15 0 ++ half)) < frModulus
    exact beNat_cons_zero_lt (by rw [List.length_append, List.length_replicate]; omega)
  have hpack : ∀ part : Bytes, part.length ≤ 31 → beNat (packPart part) < frModulus :=
    fun part hle => by
      have hlength : (packPart part).length = 32 := length_packPart hle
      rw [packPart, List.cons_append] at hlength ⊢
      exact beNat_cons_zero_lt (Nat.succ.inj hlength).le
  have hfirst := hpack _ (length_take_subject id).le
  have hlast := hpack _ ((length_drop_subject id).trans_le (by decide))
  simp only [elements, List.forall_mem_cons, beNat_toBeBytes]
  exact ⟨hrecord.context.2, hrecord.modulus.2, hrecord.redc.2, hhalf _ (length_take_hash _),
    hhalf _ (length_drop_hash _), hhalf _ (length_take_hash _), hhalf _ (length_drop_hash _),
    hfirst, hlast, fun _ h => nomatch h⟩

/-- Two lists of chunks of one length, with one count, read from one string. -/
theorem flatten_inj {n : Nat} {xs ys : List Bytes} (hcount : xs.length = ys.length)
    (hxs : ∀ x ∈ xs, x.length = n) (hys : ∀ y ∈ ys, y.length = n)
    (h : xs.flatten = ys.flatten) : xs = ys := by
  induction xs generalizing ys with
  | nil => exact (List.length_eq_zero_iff.mp hcount.symm).symm
  | cons x xs ih =>
    cases ys with
    | nil => cases hcount
    | cons y ys =>
      rw [List.forall_mem_cons] at hxs hys
      rw [List.flatten_cons, List.flatten_cons] at h
      obtain ⟨rfl, hrest⟩ := List.append_inj h (hxs.1.trans hys.1.symm)
      rw [ih (Nat.succ.inj hcount) hxs.2 hys.2 hrest]

theorem packPart_inj {part part' : Bytes} (hlength : part.length = part'.length)
    (h : packPart part = packPart part') : part = part' := by
  rw [packPart, packPart, List.cons_append, List.cons_append, List.cons.injEq] at h
  exact (List.append_inj h.2 hlength).1

/-- A hash is its two halves. -/
theorem halves_inj {hash hash' : BytesN 32}
    (htake : hash.toList.take HASH_HALF_BYTES = hash'.toList.take HASH_HALF_BYTES)
    (hdrop : hash.toList.drop HASH_HALF_BYTES = hash'.toList.drop HASH_HALF_BYTES) :
    hash = hash' := by
  refine List.Vector.toList_injective ?_
  rw [← List.take_append_drop HASH_HALF_BYTES hash.toList, htake, hdrop, List.take_append_drop]

theorem key_ext {key key' : DkimKeyInput} (hmodulus : key.modulusHash = key'.modulusHash)
    (hredc : key.redcHash = key'.redcHash) (hdomain : key.domainHash = key'.domainHash)
    (hfrom : key.fromHeaderHash = key'.fromHeaderHash) : key = key' := by
  cases key
  cases key'
  simp_all only

/-- **The public inputs name the context, the key, and the identifier.** -/
theorem publicInputs_inj {record record' : DkimKey} {id id' : U256}
    (h : publicInputs record id = publicInputs record' id') :
    record.contextHash = record'.contextHash ∧ record.key = record'.key ∧ id = id' := by
  rw [publicInputs_eq, publicInputs_eq] at h
  have hcount := (length_elements record id).trans (length_elements record' id').symm
  have helements := flatten_inj hcount (length_of_mem_elements record id)
    (length_of_mem_elements record' id') h
  simp only [elements, List.cons.injEq, List.append_cancel_left_eq, and_true] at helements
  obtain ⟨hcontext, hmodulus, hredc, hdomain, hdomain', hfrom, hfrom', hfirst, hlast⟩ := helements
  refine ⟨toBeBytes_injective hcontext, ?_, subject_injective ?_⟩
  · exact key_ext (toBeBytes_injective hmodulus) (toBeBytes_injective hredc)
      (halves_inj hdomain hdomain') (halves_inj hfrom hfrom')
  · rw [← List.take_append_drop PACKED_BYTES (subject id),
      packPart_inj (by rw [length_take_subject, length_take_subject]) hfirst,
      packPart_inj (by rw [length_drop_subject, length_drop_subject]) hlast,
      List.take_append_drop]

/-! ## The registration context -/

/-- What a registration context binds. -/
structure Registration where
  networkId : BytesN 32
  registry : Address
  asset : Address
  authority : Address
  keyId : U64
  key : DkimKeyInput

/-- The byte string that a registration context is the hash of. -/
def Registration.bytes (r : Registration) : Except ContextError Bytes :=
  (encodeAddresses [r.registry, r.asset, r.authority]).map fun addresses =>
    CONTEXT_DOMAIN ++ r.networkId.toList ++ addresses ++ toBe 8 r.keyId.toNat ++
      toBeBytes r.key.modulusHash ++ toBeBytes r.key.redcHash ++ r.key.domainHash.toList ++
      r.key.fromHeaderHash.toList

/-- The bytes of one address in a byte string. -/
def addressBytes (pair : U256 × U256) : Bytes := toBeBytes pair.1 ++ toBeBytes pair.2

theorem addressBytes_injective : Function.Injective addressBytes := by
  intro pair pair' h
  obtain ⟨hhi, hlo⟩ := List.append_inj h (by simp)
  exact Prod.ext (toBeBytes_injective hhi) (toBeBytes_injective hlo)

@[simp] theorem length_addressBytes (pair : U256 × U256) : (addressBytes pair).length = 64 := by
  simp [addressBytes, FR_BYTES]

theorem encodeAddresses_cons_eq_ok {address : Address} {addresses : List Address} {bytes : Bytes} :
    encodeAddresses (address :: addresses) = .ok bytes ↔
      ∃ pair rest, encodeAddress address = .ok pair ∧ encodeAddresses addresses = .ok rest ∧
        bytes = addressBytes pair ++ rest := by
  rw [encodeAddresses]
  cases encodeAddress address with
  | error reason => simp
  | ok pair =>
    cases encodeAddresses addresses with
    | error reason => simp [Except.map]
    | ok rest => simp [Except.map, addressBytes, eq_comm]

/-- The addresses of a byte string, one for each address in order. -/
theorem encodeAddresses_inj {addresses addresses' : List Address} {bytes bytes' rest rest' : Bytes}
    (hcount : addresses.length = addresses'.length) (h : encodeAddresses addresses = .ok bytes)
    (h' : encodeAddresses addresses' = .ok bytes') (heq : bytes ++ rest = bytes' ++ rest') :
    addresses = addresses' ∧ rest = rest' := by
  induction addresses generalizing addresses' bytes bytes' with
  | nil =>
    obtain rfl := List.length_eq_zero_iff.mp hcount.symm
    obtain rfl : bytes = bytes' := Except.ok.inj (h.symm.trans h')
    exact ⟨rfl, List.append_cancel_left heq⟩
  | cons address addresses ih =>
    cases addresses' with
    | nil => cases hcount
    | cons address' addresses' =>
      obtain ⟨pair, tail, hpair, htail, hbytes⟩ := encodeAddresses_cons_eq_ok.mp h
      obtain ⟨pair', tail', hpair', htail', hbytes'⟩ := encodeAddresses_cons_eq_ok.mp h'
      rw [hbytes, hbytes', List.append_assoc, List.append_assoc] at heq
      -- every address has one encoded length
      obtain ⟨hfirst, htails⟩ := List.append_inj heq (by simp)
      obtain ⟨hall, hrest⟩ := ih (Nat.succ.inj hcount) htail htail' htails
      rw [← addressBytes_injective hfirst] at hpair'
      exact ⟨by rw [encodeAddress_injOn hpair hpair', hall], hrest⟩

/-- **The byte string of a registration context names the registration.** -/
theorem Registration.bytes_injOn {r r' : Registration} {bytes : Bytes} (h : r.bytes = .ok bytes)
    (h' : r'.bytes = .ok bytes) : r = r' := by
  have hsplit : ∀ {r : Registration}, r.bytes = .ok bytes →
      ∃ addresses, encodeAddresses [r.registry, r.asset, r.authority] = .ok addresses ∧
        bytes = CONTEXT_DOMAIN ++ (r.networkId.toList ++ (addresses ++ (toBe 8 r.keyId.toNat ++
          (toBeBytes r.key.modulusHash ++ (toBeBytes r.key.redcHash ++
            (r.key.domainHash.toList ++ r.key.fromHeaderHash.toList)))))) := by
    intro r h
    rw [Registration.bytes] at h
    cases haddresses : encodeAddresses [r.registry, r.asset, r.authority] with
    | error reason =>
      rw [haddresses] at h
      cases h
    | ok addresses =>
      rw [haddresses] at h
      obtain rfl := Except.ok.inj h
      exact ⟨addresses, rfl, by simp⟩
  obtain ⟨addresses, haddresses, hbytes⟩ := hsplit h
  obtain ⟨addresses', haddresses', hbytes'⟩ := hsplit h'
  -- each part has a fixed length, so the parts are cut off one by one
  obtain ⟨hnetwork, hrest⟩ :=
    List.append_inj (List.append_cancel_left (hbytes.symm.trans hbytes')) (by simp)
  have hcount : [r.registry, r.asset, r.authority].length =
      [r'.registry, r'.asset, r'.authority].length := rfl
  obtain ⟨hall, hrest⟩ := encodeAddresses_inj hcount haddresses haddresses' hrest
  obtain ⟨hid, hrest⟩ := List.append_inj hrest (by simp)
  obtain ⟨hmodulus, hrest⟩ := List.append_inj hrest (by simp)
  obtain ⟨hredc, hrest⟩ := List.append_inj hrest (by simp)
  obtain ⟨hdomain, hfrom⟩ := List.append_inj hrest (by simp)
  have hkeyId : r.keyId = r'.keyId := by
    have hbound : ∀ n : U64, n.toNat < 256 ^ 8 := fun n => n.isLt
    have hnat := congrArg beNat hid
    rw [beNat_toBe_of_lt (hbound _), beNat_toBe_of_lt (hbound _)] at hnat
    exact BitVec.eq_of_toNat_eq hnat
  have hkey : r.key = r'.key :=
    key_ext (toBeBytes_injective hmodulus) (toBeBytes_injective hredc)
      (List.Vector.toList_injective hdomain) (List.Vector.toList_injective hfrom)
  have hnetworkId : r.networkId = r'.networkId := List.Vector.toList_injective hnetwork
  cases r
  cases r'
  simp_all only [List.cons.injEq, and_true]

variable {H : Host}

/-- The registration of a key in one registry. -/
def registration (H : Host) (asset authority : Address) (keyId : U64) (key : DkimKeyInput) :
    Registration :=
  ⟨H.networkId, H.currentContract, asset, authority, keyId, key⟩

/-- The context is the reduced hash of the byte string. -/
theorem context_eq_ok {asset authority : Address} {keyId : U64} {key : DkimKeyInput}
    {contextHash : U256} :
    context H asset authority keyId key = .ok contextHash ↔
      ∃ bytes, (registration H asset authority keyId key).bytes = .ok bytes ∧
        contextHash = frReduce (H.sha256 bytes).toList := by
  rw [context, Registration.bytes, registration]
  cases encodeAddresses [H.currentContract, asset, authority] with
  | error reason => simp [Except.map]
  | ok addresses => simp [Except.map, eq_comm]

/-- A reduced hash is canonical. -/
theorem frInRange_frReduce (bytes : Bytes) : frInRange (frReduce bytes) := by
  have hlt := Nat.mod_lt (frFromBe bytes).toNat frModulus_pos
  have := frModulus_lt
  rw [frInRange, frReduce, BitVec.toNat_ofNat, Nat.mod_eq_of_lt (hlt.trans this)]
  exact hlt

end Email
end ZkPoR
