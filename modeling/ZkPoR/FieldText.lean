import ZkPoR.DecimalText
import ZkPoR.Generator
import ZkPoR.HexText
import ZkPoR.JsonText
import Mathlib.Data.List.DropRight

/-! # Field elements and integers as text

What a package writes for a field element and for a 64-bit integer, and the two
readers of each: `fr.rs` of the Rust tools, and `fr.ts` of the SDK.  The readers
differ in their steps and accept the same texts: one for each value.
-/
namespace ZkPoR
open ByteString CheckedInt DecimalText HexText JsonText

/-- The package text of a 256-bit integer. -/
def hexText (x : U256) : String := String.ofList ('0' :: 'x' :: hexOf (toBeBytes x))

/-- The decimal text of an integer. -/
def decimalText (n : Nat) : String := String.ofList (Nat.toDigits 10 n)

/-- Hexadecimal digits of one field element. -/
def FR_HEX_DIGITS : Nat := FR_BYTES * 2

namespace Package
open Generator

/-- A field element as the package format holds it. -/
def frHex (value : Nat) : Except String String := (be32 value).map hexText

/-- Bytes of a text in UTF-8. -/
def byteLength (cs : List Char) : Nat := (cs.map Char.utf8Size).sum

/-- White space for `str::trim`. -/
def isWhitespace (c : Char) : Bool :=
  c.toNat = 0x20 || (0x09 ≤ c.toNat && c.toNat ≤ 0x0d) || c.toNat = 0x85 || c.toNat = 0xa0 ||
    c.toNat = 0x1680 || (0x2000 ≤ c.toNat && c.toNat ≤ 0x200a) || c.toNat = 0x2028 ||
    c.toNat = 0x2029 || c.toNat = 0x202f || c.toNat = 0x205f || c.toNat = 0x3000

def trim (cs : List Char) : List Char := (cs.dropWhile isWhitespace).rdropWhile isWhitespace

/-- The 32 bytes of a hexadecimal text of exactly 64 characters. -/
def hexBytes (text : List Char) : Except String Bytes :=
  if byteLength text ≠ FR_HEX_DIGITS then
    .error (s!"a value of {FR_HEX_DIGITS} hexadecimal characters is required, " ++
      s!"and this text holds {byteLength text}")
  else if ¬ text.all (fun c => (hexDigit? c).isSome) then
    .error "the value contains a non-hexadecimal byte"
  else
    .ok (bytesOf text)

/-- A field element from a hexadecimal text, with or without the `0x` prefix and in
either case. -/
def parseFr (text : List Char) : Except String Nat := do
  let text := trim text
  let bytes ← hexBytes ((List.isPrefixOf? ['0', 'x'] text).getD text)
  if beNat bytes < frModulus then .ok (beNat bytes)
  else .error s!"{String.ofList text} is not below the field modulus"

/-- A field element in the one form that the package format allows. -/
def parsePackageFr (text : String) : Except String Nat :=
  match List.isPrefixOf? ['0', 'x'] text.toList with
  | none => .error s!"{text} does not start with 0x"
  | some body =>
    if byteLength body ≠ FR_HEX_DIGITS then
      .error s!"{text} does not hold {FR_HEX_DIGITS} hexadecimal characters after 0x"
    else if body.any Char.isUpper then
      .error s!"{text} is not lowercase"
    else
      parseFr text.toList

/-- The check that `parse` makes of a balance and of an attestation identifier. -/
def isDecimal (text : String) : Bool :=
  ¬ (text.toList = [] ∨ byteLength text.toList > 1 ∧ text.toList.head? = some '0' ∨
    ¬ text.toList.all Char.isDigit)

/-- `parse::<u64>` on a text of digits. -/
def parseU64 (text : String) : Option U64 :=
  let n := Nat.ofDigitChars 10 text.toList 0
  if n < 2 ^ 64 then some (BitVec.ofNat 64 n) else none

end Package

namespace Sdk

/-- `/^0x[0-9a-f]{64}$/` -/
def isFrHex : List Char → Bool
  | '0' :: 'x' :: body => body.length = FR_HEX_DIGITS && body.all isLowerHex
  | _ => false

/-- Reads the strict text form of a field element. -/
def parseHex (text : Text) (field : String) : Except String Nat :=
  let malformed := s!"{field} must be 0x and exactly {FR_HEX_DIGITS} lowercase hexadecimal digits"
  match text.toString? with
  | none => .error malformed
  | some s =>
    if ¬ isFrHex s.toList then .error malformed
    else if hexNat (s.toList.drop 2) < frModulus then .ok (hexNat (s.toList.drop 2))
    else .error s!"{field} is at or above the field modulus"

/-- Reads a `u64` in the decimal text form of the package schema. -/
def parseU64Decimal (text : Text) (field : String) : Except String Nat :=
  let malformed := s!"{field} must be a decimal integer with no sign and no leading zero"
  match text.toString? with
  | none => .error malformed
  | some s =>
    if ¬ IsDecimal s.toList then .error malformed
    else if Nat.ofDigitChars 10 s.toList 0 < 2 ^ 64 then .ok (Nat.ofDigitChars 10 s.toList 0)
    else .error s!"{field} is above the largest u64"

end Sdk

/-! ## One text for each value -/

theorem toList_hexText (x : U256) : (hexText x).toList = '0' :: 'x' :: hexOf (toBeBytes x) :=
  String.toList_ofList

/-- The characters after `0x` are 64 lowercase digits. -/
theorem hexOf_toBeBytes (x : U256) :
    (hexOf (toBeBytes x)).length = FR_HEX_DIGITS ∧
      (∀ c ∈ hexOf (toBeBytes x), isLowerHex c = true) ∧
      bytesOf (hexOf (toBeBytes x)) = toBeBytes x :=
  ⟨by rw [length_hexOf, length_toBeBytes]; rfl, fun _ => isLowerHex_of_mem_hexOf,
    bytesOf_hexOf _⟩

/-- 64 lowercase digits are the digits of their number. -/
theorem hexOf_of_isLowerHex {body : List Char} (hlength : body.length = FR_HEX_DIGITS)
    (h : ∀ c ∈ body, isLowerHex c = true) :
    hexOf (toBeBytes (BitVec.ofNat 256 (beNat (bytesOf body)))) = body := by
  have hlength' : body.length = 2 * FR_BYTES := hlength
  have hbytes : (bytesOf body).length = FR_BYTES := length_bytesOf hlength'
  have hlt : beNat (bytesOf body) < 2 ^ 256 := by
    have := beNat_lt (bytesOf body)
    rwa [hbytes] at this
  rw [toBeBytes, BitVec.toNat_ofNat, Nat.mod_eq_of_lt hlt, ← hbytes, toBe_beNat,
    hexOf_bytesOf hlength' h]

/-- The integer of a field element fits. -/
theorem toNat_ofNat_of_lt {v : Nat} (h : v < frModulus) : (BitVec.ofNat 256 v).toNat = v := by
  rw [BitVec.toNat_ofNat, Nat.mod_eq_of_lt (h.trans frModulus_lt)]

theorem isLowerHex_facts {c : Char} (h : isLowerHex c = true) :
    (hexDigit? c).isSome = true ∧ c.utf8Size = 1 ∧ c.isUpper = false ∧
      Package.isWhitespace c = false := by
  obtain ⟨n, hn, hdigit, rfl⟩ := isLowerHex_iff.mp h
  revert n
  decide

namespace Package
open Generator

theorem byteLength_append (xs ys : List Char) :
    byteLength (xs ++ ys) = byteLength xs + byteLength ys := by
  rw [byteLength, List.map_append, List.sum_append]
  rfl

theorem byteLength_of_ascii {cs : List Char} (h : ∀ c ∈ cs, c.utf8Size = 1) :
    byteLength cs = cs.length := by
  induction cs with
  | nil => rfl
  | cons c cs ih =>
    rw [List.forall_mem_cons] at h
    rw [byteLength, List.map_cons, List.sum_cons, h.1, ← byteLength, ih h.2, List.length_cons,
      Nat.add_comm]

theorem eq_nil_of_byteLength {cs : List Char} (h : byteLength cs = 0) : cs = [] := by
  cases cs with
  | nil => rfl
  | cons c cs =>
    have := Char.utf8Size_pos c
    rw [byteLength, List.map_cons, List.sum_cons] at h
    omega

theorem trim_of_forall {cs : List Char} (h : ∀ c ∈ cs, isWhitespace c = false) : trim cs = cs := by
  have hfront : cs.dropWhile isWhitespace = cs := by
    cases cs with
    | nil => rfl
    | cons c cs => simp [h c List.mem_cons_self]
  rw [trim, hfront, List.rdropWhile_eq_self_iff]
  intro hne hspace
  rw [h _ (List.getLast_mem hne)] at hspace
  cases hspace

/-- A text that starts with a digit loses characters only at its end. -/
theorem exists_trim_append {c : Char} {cs : List Char} (hc : isWhitespace c = false) :
    ∃ spaces, trim (c :: cs) ++ spaces = c :: cs := by
  have hfront : (c :: cs).dropWhile isWhitespace = c :: cs := by simp [hc]
  rw [trim, hfront]
  exact List.rdropWhile_prefix isWhitespace _

theorem hexBytes_eq_ok {text : List Char} {bytes : Bytes} :
    hexBytes text = .ok bytes ↔
      byteLength text = FR_HEX_DIGITS ∧ (∀ c ∈ text, (hexDigit? c).isSome = true) ∧
        bytes = bytesOf text := by
  unfold hexBytes
  split
  · rename_i h
    simp [h]
  · rename_i h
    split
    · rename_i hdigits
      rw [List.all_eq_true] at hdigits
      simp [hdigits]
    · rename_i hdigits
      rw [List.all_eq_true] at hdigits
      simp only [Except.ok.injEq]
      exact ⟨fun hout => ⟨not_not.mp h, not_not.mp hdigits, hout.symm⟩, fun hout => hout.2.2.symm⟩

theorem parseFr_eq_ok {text : List Char} {v : Nat} :
    parseFr text = .ok v ↔
      ∃ body, (List.isPrefixOf? ['0', 'x'] (trim text)).getD (trim text) = body ∧
        byteLength body = FR_HEX_DIGITS ∧ (∀ c ∈ body, (hexDigit? c).isSome = true) ∧
        v = beNat (bytesOf body) ∧ v < frModulus := by
  simp only [parseFr, BoundedLoop.bind_eq_ok]
  constructor
  · rintro ⟨bytes, hbytes, hv⟩
    obtain ⟨hlength, hdigits, rfl⟩ := hexBytes_eq_ok.mp hbytes
    split at hv
    · rename_i hlt
      cases hv
      exact ⟨_, rfl, hlength, hdigits, rfl, hlt⟩
    · cases hv
  · rintro ⟨body, rfl, hlength, hdigits, rfl, hlt⟩
    exact ⟨_, hexBytes_eq_ok.mpr ⟨hlength, hdigits, rfl⟩, if_pos hlt⟩

theorem isPrefixOf?_zeroX {cs body : List Char} :
    List.isPrefixOf? ['0', 'x'] cs = some body ↔ cs = '0' :: 'x' :: body := by
  rcases cs with _ | ⟨a, _ | ⟨b, cs⟩⟩
  · simp [List.isPrefixOf?]
  · simp [List.isPrefixOf?]
  · simp only [List.isPrefixOf?, beq_iff_eq]
    split
    · rename_i ha
      split
      · rename_i hb
        simp [← ha, ← hb]
      · rename_i hb
        simp [Ne.symm hb]
    · rename_i ha
      simp [Ne.symm ha]

theorem isLowerHex_of_isSome {c : Char} (h : (hexDigit? c).isSome = true)
    (hupper : c.isUpper = false) : isLowerHex c = true := by
  unfold hexDigit? at h
  split at h
  · rename_i hc
    simp [isLowerHex, hc]
  split at h
  · rename_i hc
    simp [isLowerHex, hc]
  split at h
  · rename_i hc
    have hA : 'A'.val ≤ c.val := hc.1
    have hF : c.val ≤ 'Z'.val := UInt32.le_trans hc.2 (by decide)
    exact absurd ⟨hA, hF⟩ (of_decide_eq_false hupper)
  · cases h

/-- The trim of the lenient reader leaves the 64 digits after `0x` whole, or the
reader refuses what is left. -/
theorem eq_of_parseFr {body body' : List Char} (hlength : byteLength body = FR_HEX_DIGITS)
    (h : (List.isPrefixOf? ['0', 'x'] (trim ('0' :: 'x' :: body))).getD
      (trim ('0' :: 'x' :: body)) = body')
    (hlength' : byteLength body' = FR_HEX_DIGITS) : body' = body := by
  have hsize : ∀ cs, byteLength ('0' :: 'x' :: cs) = 2 + byteLength cs := fun cs =>
    byteLength_append ['0', 'x'] cs
  have hzero : isWhitespace '0' = false := by decide
  obtain ⟨spaces, hspaces⟩ : ∃ spaces, trim ('0' :: 'x' :: body) ++ spaces = '0' :: 'x' :: body :=
    exists_trim_append hzero
  cases hstrip : List.isPrefixOf? ['0', 'x'] (trim ('0' :: 'x' :: body)) with
  | some rest =>
    rw [hstrip, Option.getD_some] at h
    subst h
    rw [isPrefixOf?_zeroX.mp hstrip] at hspaces
    have htotal := congrArg byteLength hspaces
    rw [byteLength_append, hsize, hsize, hlength, hlength'] at htotal
    have hnil : spaces = [] := eq_nil_of_byteLength (by omega)
    subst hnil
    simpa using hspaces
  | none =>
    rw [hstrip, Option.getD_none] at h
    rw [h] at hspaces hstrip
    -- 64 bytes are more than the two characters of the prefix
    match body', hspaces, hlength' with
    | [], _, hlength' => cases hlength'
    | [c], _, hlength' =>
      have := c.utf8Size_le_four
      rw [byteLength, List.map_singleton, List.sum_singleton] at hlength'
      have : FR_HEX_DIGITS = 64 := rfl
      omega
    | a :: b :: rest, hspaces, _ =>
      obtain ⟨rfl, hrest⟩ := List.cons.inj hspaces
      obtain ⟨rfl, -⟩ := List.cons.inj hrest
      rw [isPrefixOf?_zeroX.mpr rfl] at hstrip
      cases hstrip

theorem parsePackageFr_of_isLowerHex {text : String} {body : List Char}
    (htext : text.toList = '0' :: 'x' :: body) (hsize : body.length = FR_HEX_DIGITS)
    (hlower : ∀ c ∈ body, isLowerHex c = true) (hlt : beNat (bytesOf body) < frModulus) :
    parsePackageFr text = .ok (beNat (bytesOf body)) := by
  have hfacts := fun c hc => isLowerHex_facts (hlower c hc)
  have hlength : byteLength body = FR_HEX_DIGITS := by
    rw [byteLength_of_ascii fun c hc => (hfacts c hc).2.1, hsize]
  have hupper : ¬ body.any Char.isUpper = true := by
    rw [List.any_eq_true]
    rintro ⟨c, hc, hupper⟩
    rw [(hfacts c hc).2.2.1] at hupper
    cases hupper
  have htrim : trim text.toList = text.toList := by
    refine trim_of_forall ?_
    rw [htext, List.forall_mem_cons, List.forall_mem_cons]
    exact ⟨by decide, by decide, fun c hc => (hfacts c hc).2.2.2⟩
  have hbody : List.isPrefixOf? ['0', 'x'] text.toList = some body := isPrefixOf?_zeroX.mpr htext
  unfold parsePackageFr
  rw [hbody]
  dsimp only
  rw [if_neg (not_not.mpr hlength), if_neg hupper, parseFr_eq_ok, htrim, hbody]
  exact ⟨body, Option.getD_some, hlength, fun c hc => (hfacts c hc).1, rfl, hlt⟩

/-- **The strict reader takes one text for each field element.** -/
theorem parsePackageFr_eq_ok {text : String} {v : Nat} :
    parsePackageFr text = .ok v ↔ v < frModulus ∧ text = hexText (BitVec.ofNat 256 v) := by
  constructor
  · intro h
    unfold parsePackageFr at h
    split at h
    · cases h
    rename_i body hbody
    split at h
    · cases h
    rename_i hlength
    split at h
    · cases h
    rename_i hupper
    rw [List.any_eq_true] at hupper
    obtain ⟨body', hbody', hlength', hdigits, rfl, hlt⟩ := parseFr_eq_ok.mp h
    have htext := isPrefixOf?_zeroX.mp hbody
    rw [htext] at hbody'
    obtain rfl := eq_of_parseFr (not_not.mp hlength) hbody' hlength'
    have hlower : ∀ c ∈ body', isLowerHex c = true := fun c hc =>
      isLowerHex_of_isSome (hdigits c hc)
        (Bool.eq_false_iff.mpr fun hc' => hupper ⟨c, hc, hc'⟩)
    have hsize : body'.length = FR_HEX_DIGITS := by
      rw [← byteLength_of_ascii fun c hc => (isLowerHex_facts (hlower c hc)).2.1, hlength']
    refine ⟨hlt, String.toList_injective ?_⟩
    rw [htext, toList_hexText, hexOf_of_isLowerHex hsize hlower]
  · rintro ⟨hlt, rfl⟩
    obtain ⟨hsize, hlower, hbytes⟩ := hexOf_toBeBytes (BitVec.ofNat 256 v)
    have hvalue : beNat (bytesOf (hexOf (toBeBytes (BitVec.ofNat 256 v)))) = v := by
      rw [hbytes, beNat_toBeBytes, toNat_ofNat_of_lt hlt]
    have hread := parsePackageFr_of_isLowerHex (toList_hexText _) hsize hlower (by rwa [hvalue])
    rwa [hvalue] at hread

theorem utf8Size_digitChar : ∀ d < 10, (Nat.digitChar d).utf8Size = 1 := by decide

/-- **A 64-bit integer has one text.** -/
theorem decimal_iff {text : String} {n : U64} :
    isDecimal text = true ∧ parseU64 text = some n ↔ text = decimalText n.toNat := by
  have hdecimal : isDecimal text = true ↔ IsDecimal text.toList := by
    simp only [isDecimal, decide_eq_true_eq, not_or, not_not, not_and, List.all_eq_true]
    refine and_congr_right fun hne => and_congr_left fun hdigits => ?_
    have hlength : byteLength text.toList = text.toList.length :=
      byteLength_of_ascii fun c hc => by
        obtain ⟨d, hd, rfl⟩ := digitChar_of_isDigit (hdigits c hc)
        exact utf8Size_digitChar d hd
    have hpos := List.length_pos_of_ne_nil hne
    rw [hlength]
    refine ⟨fun h h0 => ?_, fun h hlt h0 => ?_⟩
    · by_contra hlt
      exact h (by omega) h0
    · have := h h0
      omega
  rw [hdecimal]
  constructor
  · rintro ⟨hcs, hn⟩
    unfold parseU64 at hn
    dsimp only at hn
    split at hn
    · rename_i hlt
      cases hn
      rw [decimalText, BitVec.toNat_ofNat, Nat.mod_eq_of_lt hlt, toDigits_ofDigitChars hcs,
        String.ofList_toList]
    · cases hn
  · rintro rfl
    rw [decimalText, parseU64, String.toList_ofList, Nat.ofDigitChars_ten_toDigits]
    refine ⟨isDecimal_toDigits _, ?_⟩
    rw [if_pos n.isLt, BitVec.ofNat_toNat, BitVec.setWidth_eq]

end Package

namespace Sdk

theorem parseHex_eq_ok {text : Text} {field : String} {v : Nat} :
    parseHex text field = .ok v ↔
      v < frModulus ∧ text = Text.ofString (hexText (BitVec.ofNat 256 v)) := by
  constructor
  · intro h
    unfold parseHex at h
    dsimp only at h
    split at h
    · cases h
    rename_i s hs
    split at h
    · cases h
    rename_i hform
    split at h
    · rename_i hlt
      cases h
      rw [Text.toString?_eq_some.mp hs]
      have hform := not_not.mp hform
      unfold isFrHex at hform
      split at hform
      · rename_i body hbody
        simp only [Bool.and_eq_true, decide_eq_true_eq, List.all_eq_true] at hform
        obtain ⟨hsize, hlower⟩ := hform
        have hdrop : s.toList.drop 2 = body := by
          rw [hbody]
          rfl
        have hvalue : hexNat body = beNat (bytesOf body) := by
          have hsize' : body.length = 2 * FR_BYTES := hsize
          conv_lhs => rw [← hexOf_bytesOf hsize' hlower]
          exact hexNat_hexOf _
        rw [hdrop] at hlt ⊢
        refine ⟨hlt, congrArg Text.ofString (String.toList_injective ?_)⟩
        rw [hbody, toList_hexText, hvalue, hexOf_of_isLowerHex hsize hlower]
      · cases hform
    · cases h
  · intro h
    have hlt := h.1
    obtain ⟨hsize, hlower, -⟩ := hexOf_toBeBytes (BitVec.ofNat 256 v)
    have hform : isFrHex (hexText (BitVec.ofNat 256 v)).toList = true := by
      rw [toList_hexText]
      simp only [isFrHex, hsize, decide_true, Bool.true_and, List.all_eq_true]
      exact hlower
    have hvalue : hexNat ((hexText (BitVec.ofNat 256 v)).toList.drop 2) = v := by
      rw [toList_hexText, List.drop_succ_cons, List.drop_succ_cons, List.drop_zero, hexNat_hexOf,
        beNat_toBeBytes, toNat_ofNat_of_lt hlt]
    rw [h.2, parseHex, Text.toString?_ofString]
    dsimp only
    rw [if_neg (not_not.mpr hform), hvalue, if_pos hlt]

theorem parseU64Decimal_eq_ok {text : Text} {field : String} {n : Nat} :
    parseU64Decimal text field = .ok n ↔ n < 2 ^ 64 ∧ text = Text.ofString (decimalText n) := by
  constructor
  · intro h
    unfold parseU64Decimal at h
    dsimp only at h
    split at h
    · cases h
    rename_i s hs
    split at h
    · cases h
    rename_i hdecimal
    split at h
    · rename_i hlt
      cases h
      rw [Text.toString?_eq_some.mp hs, decimalText, toDigits_ofDigitChars (not_not.mp hdecimal),
        String.ofList_toList]
      exact ⟨hlt, rfl⟩
    · cases h
  · rintro ⟨hlt, rfl⟩
    unfold parseU64Decimal
    dsimp only
    rw [Text.toString?_ofString, decimalText]
    dsimp only
    rw [String.toList_ofList, if_neg (not_not.mpr (isDecimal_toDigits n)),
      Nat.ofDigitChars_ten_toDigits, if_pos hlt]

end Sdk
end ZkPoR
