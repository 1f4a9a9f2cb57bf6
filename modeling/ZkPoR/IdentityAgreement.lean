import Mathlib.Data.Fintype.Pigeonhole
import ZkPoR.CustomerCheck
import ZkPoR.SubjectText

/-! # One identifier rule in two languages

Both readers of an email accept the texts of a mailbox (`IsMailbox`) and answer its
canonical form, which is a mailbox again and its own canonical form.  With one hash
both derive one identifier, and what they hash names the mailbox, the code, and the
counter.
-/
namespace ZkPoR
open ByteString JsonText

/-! ## Mailboxes -/

namespace Identity

/-- The two parts of a supported mailbox. -/
structure IsMailbox (localPart domain : List Char) : Prop where
  atoms : (localPart.splitOn '.').all isAtom = true
  labels : (domain.splitOn '.').all isLabel = true
  localLength : localPart.length ≤ LOCAL_PART_MAX_BYTES
  domainLength : domain.length ≤ DOMAIN_MAX_BYTES
  addressLength : localPart.length + 1 + domain.length ≤ ADDRESS_MAX_BYTES

/-- A character of a mailbox: ASCII, no space, and not the separator of the parts. -/
def isPlain (c : Char) : Bool :=
  isAscii c && c ≠ '@' && !Package.isWhitespace c && !Sdk.isWhitespace c && c.utf8Size = 1

/-- A fact about every ASCII character. -/
theorem forall_ascii {P : Char → Prop} (h : ∀ n < 128, P (Char.ofNat n)) {c : Char}
    (hc : isAscii c = true) : P c := by
  have hlt : c.toNat < 128 := of_decide_eq_true hc
  have hchar := h c.toNat hlt
  rwa [Char.ofNat_toNat] at hchar

theorem isAscii_of_isAlphanum {c : Char} (h : c.isAlphanum = true) : isAscii c = true := by
  have hranges : ((decide (c.val ≥ 'A'.val ∧ c.val ≤ 'Z'.val) ||
      (decide (c.val ≥ 'a'.val) && decide (c.val ≤ 'z'.val))) ||
      (decide (c.val ≥ '0'.val) && decide (c.val ≤ '9'.val))) = true := h
  simp only [Bool.or_eq_true, Bool.and_eq_true, decide_eq_true_eq] at hranges
  refine decide_eq_true ?_
  rcases hranges with (⟨-, hle⟩ | ⟨-, hle⟩) | ⟨-, hle⟩
  · exact lt_of_le_of_lt (UInt32.le_iff_toNat_le.mp hle) (by decide)
  · exact lt_of_le_of_lt (UInt32.le_iff_toNat_le.mp hle) (by decide)
  · exact lt_of_le_of_lt (UInt32.le_iff_toNat_le.mp hle) (by decide)

theorem isAscii_of_isAtext {c : Char} (h : isAtext c = true) : isAscii c = true := by
  rw [isAtext, Bool.or_eq_true] at h
  rcases h with h | h
  · exact isAscii_of_isAlphanum h
  · have hall : "!#$%&'*+-/=?^_\x60\x7b|\x7d~".toList.all isAscii = true := by decide
    exact List.all_eq_true.mp hall c (List.contains_iff_mem.mp h)

theorem isPlain_of_isAtext {c : Char} (h : isAtext c = true) : isPlain c = true := by
  have hall : ∀ n < 128, isAtext (Char.ofNat n) = true → isPlain (Char.ofNat n) = true := by
    decide +kernel
  exact forall_ascii (P := fun c => isAtext c = true → isPlain c = true) hall
    (isAscii_of_isAtext h) h

/-- A character of a domain label. -/
def isLabelChar (c : Char) : Bool := c.isAlphanum || c = '-'

theorem isAscii_of_isLabelChar {c : Char} (h : isLabelChar c = true) : isAscii c = true := by
  rw [isLabelChar, Bool.or_eq_true, decide_eq_true_eq] at h
  rcases h with h | rfl
  · exact isAscii_of_isAlphanum h
  · rfl

theorem isPlain_of_isLabelChar {c : Char} (h : isLabelChar c = true) : isPlain c = true := by
  have hall : ∀ n < 128, isLabelChar (Char.ofNat n) = true → isPlain (Char.ofNat n) = true := by
    decide
  exact forall_ascii (P := fun c => isLabelChar c = true → isPlain c = true) hall
    (isAscii_of_isLabelChar h) h

/-- The lower case of a label character is one, and it is its own lower case. -/
theorem toLower_of_isLabelChar {c : Char} (h : isLabelChar c = true) :
    isLabelChar c.toLower = true ∧ c.toLower.isAlphanum = c.isAlphanum ∧
      c.toLower.toLower = c.toLower := by
  have hall : ∀ n < 128, isLabelChar (Char.ofNat n) = true →
      isLabelChar (Char.ofNat n).toLower = true ∧
        (Char.ofNat n).toLower.isAlphanum = (Char.ofNat n).isAlphanum ∧
        (Char.ofNat n).toLower.toLower = (Char.ofNat n).toLower := by decide
  exact forall_ascii (P := fun c => isLabelChar c = true → isLabelChar c.toLower = true ∧
    c.toLower.isAlphanum = c.isAlphanum ∧ c.toLower.toLower = c.toLower) hall
    (isAscii_of_isLabelChar h) h

theorem mem_pieces_of_mem {α : Type} {x : α} {sep : List α} {ls : List (List α)}
    (h : x ∈ sep.intercalate ls) : x ∈ sep ∨ ∃ l ∈ ls, x ∈ l := by
  induction ls with
  | nil => exact absurd h List.not_mem_nil
  | cons head ls ih =>
    cases ls with
    | nil =>
      rw [List.intercalate_singleton] at h
      exact .inr ⟨head, List.mem_cons_self, h⟩
    | cons next ls =>
      rw [List.intercalate_cons_cons, List.mem_append, List.mem_append] at h
      rcases h with (h | h) | h
      · exact .inr ⟨head, List.mem_cons_self, h⟩
      · exact .inl h
      · exact (ih h).imp_right fun ⟨l, hl, hx⟩ => ⟨l, List.mem_cons_of_mem _ hl, hx⟩

/-- A dotted text consists of dots and of the characters of its pieces. -/
theorem eq_dot_or_of_mem {cs : List Char} {piece : List Char → Bool} {P : Char → Prop}
    (hpiece : ∀ p, piece p = true → ∀ c ∈ p, P c) (h : (cs.splitOn '.').all piece = true) :
    ∀ c ∈ cs, c = '.' ∨ P c := by
  intro c hc
  rw [← @List.intercalate_splitOn Char cs _ _ '.'] at hc
  rcases mem_pieces_of_mem hc with hdot | ⟨p, hp, hcp⟩
  · exact .inl (List.mem_singleton.mp hdot)
  · exact .inr (hpiece p (List.all_eq_true.mp h p hp) c hcp)

theorem isAtom_chars {atom : List Char} (h : isAtom atom = true) : ∀ c ∈ atom, isAtext c = true := by
  rw [isAtom, Bool.and_eq_true, List.all_eq_true] at h
  exact h.2

theorem isLabel_chars {label : List Char} (h : isLabel label = true) :
    ∀ c ∈ label, isLabelChar c = true := by
  simp only [isLabel, Bool.and_eq_true, List.all_eq_true] at h
  exact h.1.1.2

namespace IsMailbox
variable {localPart domain : List Char} (h : IsMailbox localPart domain)
include h

theorem plain_localPart : ∀ c ∈ localPart, isPlain c = true := by
  intro c hc
  rcases eq_dot_or_of_mem (fun _ hp => isAtom_chars hp) h.atoms c hc with rfl | hatext
  · decide
  · exact isPlain_of_isAtext hatext

theorem domain_chars : ∀ c ∈ domain, c = '.' ∨ isLabelChar c = true :=
  eq_dot_or_of_mem (fun _ hp => isLabel_chars hp) h.labels

theorem plain_domain : ∀ c ∈ domain, isPlain c = true := by
  intro c hc
  rcases h.domain_chars c hc with rfl | hlabel
  · decide
  · exact isPlain_of_isLabelChar hlabel

theorem localPart_ne_nil : localPart ≠ [] := by
  intro hnil
  have hatoms := h.atoms
  rw [hnil] at hatoms
  exact absurd hatoms (by decide)

theorem domain_ne_nil : domain ≠ [] := by
  intro hnil
  have hlabels := h.labels
  rw [hnil] at hlabels
  exact absurd hlabels (by decide)

theorem notMem_localPart : '@' ∉ localPart := fun hmem =>
  absurd (h.plain_localPart _ hmem) (by decide)

theorem notMem_domain : '@' ∉ domain := fun hmem => absurd (h.plain_domain _ hmem) (by decide)

/-- What both readers ask of the whole address. -/
theorem address : ∀ c ∈ localPart ++ '@' :: domain, isAscii c = true ∧ c.utf8Size = 1 ∧
    Package.isWhitespace c = false ∧ Sdk.isWhitespace c = false := by
  have hplain : ∀ {c}, isPlain c = true → isAscii c = true ∧ c.utf8Size = 1 ∧
      Package.isWhitespace c = false ∧ Sdk.isWhitespace c = false := by
    intro c hc
    simp only [isPlain, Bool.and_eq_true, decide_eq_true_eq, Bool.not_eq_true'] at hc
    exact ⟨hc.1.1.1.1, hc.2, hc.1.1.2, hc.1.2⟩
  intro c hc
  rcases List.mem_append.mp hc with hc | hc
  · exact hplain (h.plain_localPart c hc)
  rcases List.mem_cons.mp hc with rfl | hc
  · decide
  · exact hplain (h.plain_domain c hc)

end IsMailbox

/-- A scan stops at a character that it does not skip. -/
theorem stops_of_dropWhile {p : Char → Bool} {cs rest : List Char} {c : Char}
    (h : cs.dropWhile p = c :: rest) : p c = false := by
  have hne : cs.dropWhile p ≠ [] := by
    rw [h]
    exact List.cons_ne_nil _ _
  have hhead := List.head_dropWhile_not p hne
  simpa only [h, List.head_cons] using hhead

theorem splitAt_eq_some {cs localPart domain : List Char} :
    splitAt cs = some (localPart, domain) ↔ cs = localPart ++ '@' :: domain ∧ '@' ∉ localPart := by
  have htake : ∀ c ∈ cs.takeWhile (· ≠ '@'), c ≠ '@' := fun c hc => by
    simpa using List.mem_takeWhile_imp hc
  unfold splitAt
  rw [List.span_eq_takeWhile_dropWhile]
  constructor
  · intro h
    split at h
    · rename_i before c after heq
      cases h
      obtain ⟨htakeEq, hdropEq⟩ := Prod.mk.inj heq
      obtain rfl : c = '@' := by simpa using stops_of_dropWhile hdropEq
      refine ⟨?_, fun hmem => htake '@' (htakeEq ▸ hmem) rfl⟩
      rw [← htakeEq, ← hdropEq, List.takeWhile_append_dropWhile]
    · cases h
  · rintro ⟨rfl, hnot⟩
    have hpos : ∀ c ∈ localPart, (decide (c ≠ '@')) = true := fun c hc =>
      decide_eq_true fun heq => hnot (heq ▸ hc)
    rw [List.takeWhile_append_of_pos hpos, List.dropWhile_append_of_pos hpos]
    simp

theorem map_intercalate_dot (ls : List (List Char)) :
    (['.'].intercalate ls).map Char.toLower = ['.'].intercalate (ls.map (List.map Char.toLower)) := by
  induction ls with
  | nil => rfl
  | cons head ls ih =>
    cases ls with
    | nil => rw [List.intercalate_singleton, List.map_cons, List.map_nil, List.intercalate_singleton]
    | cons next ls =>
      rw [List.map_cons] at ih
      rw [List.intercalate_cons_cons, List.map_append, List.map_append, ih]
      exact List.intercalate_cons_cons.symm

/-- A text without white space is trimmed. -/
theorem trim_of_forall {p : Char → Bool} {cs : List Char} (h : ∀ c ∈ cs, p c = false) :
    (cs.dropWhile p).rdropWhile p = cs := by
  have hdrop : ∀ {cs : List Char}, (∀ c ∈ cs, p c = false) → cs.dropWhile p = cs := by
    intro cs h
    cases cs with
    | nil => rfl
    | cons c cs => exact List.dropWhile_cons_of_neg (by rw [h c List.mem_cons_self]; decide)
  rw [hdrop h, List.rdropWhile, hdrop fun c hc => h c (List.mem_reverse.mp hc), List.reverse_reverse]

/-! ## The reader of the Rust tools -/

theorem canonicalEmail_eq_ok {email canonical : String} :
    canonicalEmail email = .ok canonical ↔
      ∃ localPart domain, email.toList = localPart ++ '@' :: domain ∧ IsMailbox localPart domain ∧
        canonical = String.ofList (localPart ++ '@' :: domain.map Char.toLower) := by
  unfold canonicalEmail
  dsimp only
  constructor
  · intro h
    split at h
    · cases h
    rename_i haddress
    split at h
    · cases h
    rename_i localPart domain hsplit
    split at h
    · cases h
    rename_i hparts
    obtain ⟨heq, -⟩ := splitAt_eq_some.mp hsplit
    simp only [not_or, not_not, Nat.not_lt] at haddress hparts
    obtain ⟨hascii, hlength, -⟩ := haddress
    obtain ⟨-, -, hlocal, -, hdomain, hatoms, hlabels⟩ := hparts
    refine ⟨localPart, domain, heq, ⟨hatoms, hlabels, hlocal, hdomain, ?_⟩, (Except.ok.inj h).symm⟩
    rw [Package.byteLength_of_ascii, heq, List.length_append, List.length_cons] at hlength
    · omega
    · intro c hc
      have hsize : ∀ n < 128, (Char.ofNat n).utf8Size = 1 := by decide
      exact forall_ascii (P := fun c => c.utf8Size = 1) hsize (List.all_eq_true.mp hascii c hc)
  · rintro ⟨localPart, domain, heq, hmailbox, rfl⟩
    have haddress := hmailbox.address
    have hsplit : splitAt email.toList = some (localPart, domain) :=
      splitAt_eq_some.mpr ⟨heq, hmailbox.notMem_localPart⟩
    have htrim : Package.trim email.toList = email.toList := by
      rw [heq]
      exact trim_of_forall fun c hc => (haddress c hc).2.2.1
    have hlength : Package.byteLength email.toList ≤ ADDRESS_MAX_BYTES := by
      rw [heq, Package.byteLength_of_ascii fun c hc => (haddress c hc).2.1, List.length_append,
        List.length_cons]
      have := hmailbox.addressLength
      omega
    have hascii : email.toList.all isAscii = true := by
      rw [heq, List.all_eq_true]
      exact fun c hc => (haddress c hc).1
    rw [if_neg (by simp only [not_or, not_not, Nat.not_lt]; exact ⟨hascii, hlength, htrim⟩), hsplit]
    exact if_neg (by
      simp only [not_or, not_not, Nat.not_lt]
      exact ⟨hmailbox.notMem_domain, hmailbox.localPart_ne_nil, hmailbox.localLength,
        hmailbox.domain_ne_nil, hmailbox.domainLength, hmailbox.atoms, hmailbox.labels⟩)

/-- The canonical form of a mailbox is a mailbox, and its own canonical form. -/
theorem IsMailbox.lower {localPart domain : List Char} (h : IsMailbox localPart domain) :
    IsMailbox localPart (domain.map Char.toLower) ∧
      (domain.map Char.toLower).map Char.toLower = domain.map Char.toLower := by
  have hpieces : ∀ label ∈ domain.splitOn '.', ∀ c ∈ label, isLabelChar c = true := fun label hlabel =>
    isLabel_chars (List.all_eq_true.mp h.labels label hlabel)
  have hsplit : (domain.map Char.toLower).splitOn '.' =
      (domain.splitOn '.').map (List.map Char.toLower) := by
    have hjoin : domain.map Char.toLower =
        ['.'].intercalate ((domain.splitOn '.').map (List.map Char.toLower)) := by
      rw [← map_intercalate_dot, List.intercalate_splitOn]
    rw [hjoin, List.splitOn_intercalate]
    · intro lowered hlowered hdot
      obtain ⟨label, hlabel, rfl⟩ := List.mem_map.mp hlowered
      obtain ⟨c, hc, hcdot⟩ := List.mem_map.mp hdot
      have hlower := (toLower_of_isLabelChar (hpieces label hlabel c hc)).1
      rw [hcdot] at hlower
      exact absurd hlower (by decide)
    · rw [Ne, List.map_eq_nil_iff]
      exact List.splitOn_ne_nil _ _
  have hlabel : ∀ label, isLabel label = true → isLabel (label.map Char.toLower) = true := by
    intro label hlabel
    have hchars := isLabel_chars hlabel
    have hend : ∀ {o : Option Char}, (∀ c, o = some c → c ∈ label) → o.any Char.isAlphanum = true →
        (o.map Char.toLower).any Char.isAlphanum = true := by
      intro o hmem hany
      cases o with
      | none => exact hany
      | some c =>
        rw [Option.map_some, Option.any_some, (toLower_of_isLabelChar (hchars c (hmem c rfl))).2.1]
        exact hany
    simp only [isLabel, Bool.and_eq_true, List.all_eq_true, decide_eq_true_eq] at hlabel ⊢
    obtain ⟨⟨⟨⟨hne, hlength⟩, -⟩, hhead⟩, hlast⟩ := hlabel
    refine ⟨⟨⟨⟨?_, ?_⟩, ?_⟩, ?_⟩, ?_⟩
    · rwa [Ne, List.map_eq_nil_iff]
    · rwa [List.length_map]
    · intro c hc
      obtain ⟨c', hc', rfl⟩ := List.mem_map.mp hc
      exact (toLower_of_isLabelChar (hchars c' hc')).1
    · rw [List.head?_map]
      exact hend (fun c hc => List.mem_of_head? hc) hhead
    · rw [List.getLast?_map]
      exact hend (fun c hc => List.mem_of_getLast? hc) hlast
  refine ⟨⟨h.atoms, ?_, h.localLength, ?_, ?_⟩, ?_⟩
  · rw [hsplit, List.all_map, List.all_eq_true]
    exact fun label hmem => hlabel label (List.all_eq_true.mp h.labels label hmem)
  · rw [List.length_map]
    exact h.domainLength
  · rw [List.length_map]
    exact h.addressLength
  · rw [List.map_map]
    refine List.map_congr_left fun c hc => ?_
    rcases h.domain_chars c hc with rfl | hlabelChar
    · rfl
    · exact (toLower_of_isLabelChar hlabelChar).2.2

theorem canonicalEmail_idempotent {email canonical : String}
    (h : canonicalEmail email = .ok canonical) : canonicalEmail canonical = .ok canonical := by
  obtain ⟨localPart, domain, -, hmailbox, rfl⟩ := canonicalEmail_eq_ok.mp h
  refine canonicalEmail_eq_ok.mpr ⟨localPart, domain.map Char.toLower, ?_, hmailbox.lower.1, ?_⟩
  · rw [String.toList_ofList]
  · rw [hmailbox.lower.2]

end Identity
/-! ## The reader of the SDK -/

namespace Sdk
open Identity (IsMailbox isLabel isAscii)

/-- The expression for a label, and its length, are the rule of the Rust tools. -/
theorem isDomainLabel_iff (label : List Char) :
    (label.length ≤ EMAIL_DOMAIN_LABEL_MAX_BYTES && isDomainLabel label) = isLabel label := by
  rw [Bool.eq_iff_iff]
  cases label with
  | nil => decide
  | cons c cs =>
    simp only [isLabel, isDomainLabel, Bool.and_eq_true, Bool.or_eq_true, decide_eq_true_eq,
      List.all_eq_true, List.head?_cons, Option.any_some]
    have hhyphen : ∀ {d : Char}, d.isAlphanum = true → d.isAlphanum = true ∨ d = '-' := .inl
    rcases List.eq_nil_or_concat cs with rfl | ⟨init, last, rfl⟩
    · simp only [List.forall_mem_singleton, List.getLast?_singleton, Option.any_some]
      constructor
      · rintro ⟨hlength, hc, -⟩
        exact ⟨⟨⟨⟨List.cons_ne_nil _ _, hlength⟩, hhyphen hc⟩, hc⟩, hc⟩
      · rintro ⟨⟨⟨⟨-, hlength⟩, -⟩, hc⟩, -⟩
        exact ⟨hlength, hc, .inl trivial⟩
    · rw [List.concat_eq_append, List.dropLast_concat, ← List.cons_append, List.getLast?_concat,
        List.getLast?_concat, Option.any_some, List.forall_mem_append, List.forall_mem_cons,
        List.forall_mem_singleton]
      constructor
      · rintro ⟨hlength, hc, hrest⟩
        obtain ⟨hinit, hlast⟩ := hrest.resolve_left (by simp)
        exact ⟨⟨⟨⟨by simp, hlength⟩, ⟨hhyphen hc, hinit⟩, hhyphen hlast⟩, hc⟩, hlast⟩
      · rintro ⟨⟨⟨⟨-, hlength⟩, ⟨-, hinit⟩, -⟩, hc⟩, hlast⟩
        exact ⟨hlength, hc, .inr ⟨hinit, hlast⟩⟩

/-- **Both readers accept the same mailboxes.** -/
theorem canonicalEmail_eq_ok {email : Text} {canonical : String} :
    canonicalEmail email = .ok canonical ↔
      ∃ s, email = Text.ofString s ∧ Identity.canonicalEmail s = .ok canonical := by
  simp only [Identity.canonicalEmail_eq_ok]
  unfold canonicalEmail
  constructor
  · intro h
    split at h
    · cases h
    rename_i s hs
    refine ⟨s, Text.toString?_eq_some.mp hs, ?_⟩
    dsimp only at h
    split at h
    · cases h
    rename_i haddress
    split at h
    · cases h
    rename_i localPart domain hsplit
    split at h
    · cases h
    split at h
    · cases h
    rename_i hparts
    obtain ⟨heq, -⟩ := Identity.splitAt_eq_some.mp hsplit
    simp only [not_or, not_not, Nat.not_lt, isDomainLabel_iff] at haddress hparts
    obtain ⟨-, hlength, -⟩ := haddress
    obtain ⟨hlocal, hatoms, -, hdomain, hlabels⟩ := hparts
    rw [heq, List.length_append, List.length_cons] at hlength
    have haddressLength : localPart.length + 1 + domain.length ≤ EMAIL_ADDRESS_MAX_BYTES := by omega
    exact ⟨localPart, domain, heq, ⟨hatoms, hlabels, hlocal, hdomain, haddressLength⟩,
      (Except.ok.inj h).symm⟩
  · rintro ⟨s, rfl, localPart, domain, heq, hmailbox, rfl⟩
    have haddress := hmailbox.address
    have hsplit : Identity.splitAt s.toList = some (localPart, domain) :=
      Identity.splitAt_eq_some.mpr ⟨heq, hmailbox.notMem_localPart⟩
    have htrim : trim s.toList = s.toList := by
      rw [heq]
      exact Identity.trim_of_forall fun c hc => (haddress c hc).2.2.2
    have hlength : s.toList.length ≤ EMAIL_ADDRESS_MAX_BYTES := by
      rw [heq, List.length_append, List.length_cons]
      have hle : localPart.length + 1 + domain.length ≤ EMAIL_ADDRESS_MAX_BYTES :=
        hmailbox.addressLength
      omega
    have hascii : s.toList.all isAscii = true := by
      rw [heq, List.all_eq_true]
      exact fun c hc => (haddress c hc).1
    simp only [Text.toString?_ofString]
    rw [if_neg (by simp only [not_or, not_not, Nat.not_lt]; exact ⟨hascii, hlength, htrim⟩), hsplit]
    dsimp only
    rw [if_neg (not_or.mpr ⟨hmailbox.localPart_ne_nil, hmailbox.notMem_domain⟩)]
    simp only [isDomainLabel_iff]
    exact if_neg (by
      simp only [not_or, not_not, Nat.not_lt]
      exact ⟨hmailbox.localLength, hmailbox.atoms, hmailbox.domain_ne_nil, hmailbox.domainLength,
        hmailbox.labels⟩)

theorem canonicalEmail_ofString {s canonical : String} :
    canonicalEmail (Text.ofString s) = .ok canonical ↔ Identity.canonicalEmail s = .ok canonical := by
  rw [canonicalEmail_eq_ok]
  constructor
  · rintro ⟨s', hs, h⟩
    rwa [Text.ofString_injective hs]
  · exact fun h => ⟨s, rfl, h⟩

end Sdk

/-! ## What is hashed -/

namespace Identity

/-- A canonical email is a short ASCII text. -/
theorem canonical_ascii {email canonical : String} (h : canonicalEmail email = .ok canonical) :
    (∀ c ∈ canonical.toList, isAscii c = true) ∧ canonical.toList.length ≤ ADDRESS_MAX_BYTES := by
  obtain ⟨localPart, domain, -, hmailbox, rfl⟩ := canonicalEmail_eq_ok.mp h
  rw [String.toList_ofList]
  refine ⟨fun c hc => (hmailbox.lower.1.address c hc).1, ?_⟩
  have hle := hmailbox.lower.1.addressLength
  rw [List.length_append, List.length_cons]
  omega

theorem ascii_inj {xs ys : List Char} (hxs : ∀ c ∈ xs, isAscii c = true)
    (hys : ∀ c ∈ ys, isAscii c = true) (h : ascii xs = ascii ys) : xs = ys := by
  have hback : ∀ {cs : List Char}, (∀ c ∈ cs, isAscii c = true) →
      (ascii cs).map (fun byte => Char.ofNat byte.toNat) = cs := by
    intro cs hcs
    rw [ascii, List.map_map]
    have hchar : ∀ n < 128, Char.ofNat (UInt8.ofNat (Char.ofNat n).toNat).toNat = Char.ofNat n := by
      decide +kernel
    exact (List.map_congr_left fun c hc =>
      forall_ascii (P := fun c => Char.ofNat (UInt8.ofNat c.toNat).toNat = c) hchar (hcs c hc)).trans
        (List.map_id _)
  rw [← hback hxs, h, hback hys]

/-- **What is hashed names the mailbox, the code, and the counter.** -/
theorem preimage_inj {email email' : List Char} {code code' : Bytes} {counter counter' : Nat}
    (hemail : ∀ c ∈ email, isAscii c = true) (hemail' : ∀ c ∈ email', isAscii c = true)
    (hlength : email.length < 2 ^ 16) (hlength' : email'.length < 2 ^ 16)
    (hcode : code.length = IDENTIFIER_BYTES) (hcode' : code'.length = IDENTIFIER_BYTES)
    (hcounter : counter < 2 ^ 32) (hcounter' : counter' < 2 ^ 32)
    (h : preimage email code counter = preimage email' code' counter') :
    email = email' ∧ code = code' ∧ counter = counter' := by
  simp only [preimage, List.append_assoc] at h
  -- the length of the email comes first, so every part is cut off at a known place
  obtain ⟨hsize, hrest⟩ := List.append_inj (List.append_cancel_left h) (by simp)
  have hsizes : email.length = email'.length := by
    have hnat := congrArg beNat hsize
    rwa [beNat_toBe_of_lt hlength, beNat_toBe_of_lt hlength'] at hnat
  obtain ⟨hascii, hrest⟩ := List.append_inj hrest (by simp [ascii, hsizes])
  obtain ⟨hcodes, hcounters⟩ := List.append_inj hrest (hcode.trans hcode'.symm)
  refine ⟨ascii_inj hemail hemail' hascii, hcodes, ?_⟩
  have hnat := congrArg beNat hcounters
  rwa [beNat_toBe_of_lt hcounter, beNat_toBe_of_lt hcounter'] at hnat

/-! ## The hash -/

/-- What the rule relies on: a digest has 32 bytes, and among the digests of one mailbox
and code there are seven different ones. -/
structure Sha256 (sha256 : Bytes → Bytes) : Prop where
  length : ∀ bytes, (sha256 bytes).length = 32
  spread : ∀ email code, ∃ counters : Fin 7 → Nat, (∀ i, counters i < 2 ^ 32) ∧
    Function.Injective fun i => sha256 (preimage email code (counters i))

/-- How often the modulus goes into the digest of one counter. -/
def quotient (sha256 : Bytes → Bytes) (email : List Char) (code : Bytes) (counter : Nat) : Nat :=
  beNat (sha256 (preimage email code counter)) / frModulus

theorem quotient_lt {sha256 : Bytes → Bytes} (hsha : Sha256 sha256) (email : List Char)
    (code : Bytes) (counter : Nat) : quotient sha256 email code counter < 6 := by
  have hbytes := beNat_lt (sha256 (preimage email code counter))
  rw [hsha.length] at hbytes
  refine Nat.div_lt_of_lt_mul (hbytes.trans ?_)
  decide

/-- A digest that is zero in the field is determined by its quotient. -/
theorem beNat_of_identifierAt_zero {sha256 : Bytes → Bytes} {email : List Char} {code : Bytes}
    {counter : Nat} (h : identifierAt sha256 email code counter = 0) :
    beNat (sha256 (preimage email code counter)) =
      frModulus * quotient sha256 email code counter :=
  (Nat.mul_div_cancel' (Nat.dvd_of_mod_eq_zero h)).symm

/-- The field reads only six strings of 32 bytes as zero, so some counter ends the
search. -/
theorem exists_nonzero {sha256 : Bytes → Bytes} (hsha : Sha256 sha256) (email : List Char)
    (code : Bytes) : ∃ counter < 2 ^ 32, identifierAt sha256 email code counter ≠ 0 := by
  obtain ⟨counters, hlt, hinj⟩ := hsha.spread email code
  by_contra hall
  push Not at hall
  have hzero : ∀ i, identifierAt sha256 email code (counters i) = 0 := fun i => hall _ (hlt i)
  -- seven counters for six quotients
  obtain ⟨i, j, hne, heq⟩ := Fintype.exists_ne_map_eq_of_card_lt
    (fun i => (⟨_, quotient_lt hsha email code (counters i)⟩ : Fin 6)) (by decide)
  refine hne (hinj (eq_of_beNat_eq ((hsha.length _).trans (hsha.length _).symm) ?_))
  rw [beNat_of_identifierAt_zero (hzero i), beNat_of_identifierAt_zero (hzero j), Fin.mk.inj heq]

end Identity

/-! ## One identifier -/

section Agreement
variable {primitives : Identity.Primitives} {sdkPrimitives : Sdk.Primitives}

theorem Identity.decodeCode_eq_ok (hprimitives : primitives.Documented) {code : String}
    {bytes : Bytes} :
    Identity.decodeCode primitives code = .ok bytes ↔
      bytes.length = Identity.IDENTIFIER_BYTES ∧ code = Identity.base64Text bytes := by
  rw [← Identity.decodeCanonical32_eq_some hprimitives]
  unfold Identity.decodeCode
  cases Identity.decodeCanonical32 primitives code <;> simp

/-- **Both readers accept the same codes.** -/
theorem Sdk.decodeCanonical32_iff (hprimitives : primitives.Documented)
    (hsdk : sdkPrimitives.Documented) {code : Text} {bytes : Bytes} :
    Sdk.decodeCanonical32 sdkPrimitives code = some bytes ↔
      ∃ s, code = Text.ofString s ∧ Identity.decodeCode primitives s = .ok bytes := by
  rw [Sdk.decodeCanonical32_eq_some hsdk]
  simp only [Identity.decodeCode_eq_ok hprimitives]
  constructor
  · rintro ⟨hlength, rfl⟩
    exact ⟨_, rfl, hlength, rfl⟩
  · rintro ⟨s, rfl, hlength, rfl⟩
    exact ⟨hlength, rfl⟩

/-- An accepted email and code have an identifier. -/
theorem Identity.exists_deriveIdentifier (hsha : Identity.Sha256 primitives.sha256)
    {email code canonical : String} {bytes : Bytes}
    (hemail : Identity.canonicalEmail email = .ok canonical)
    (hcode : Identity.decodeCode primitives code = .ok bytes) :
    ∃ id, Identity.deriveIdentifier primitives email code = .ok id ∧ id ≠ 0 ∧ id < frModulus := by
  have hexists := Identity.exists_nonzero hsha canonical.toList bytes
  have hfind := Nat.find_spec hexists
  refine ⟨Identity.identifierAt primitives.sha256 canonical.toList bytes (Nat.find hexists),
    Identity.deriveIdentifier_eq_ok.mpr ⟨canonical, bytes, hemail, hcode, Nat.find hexists, hfind.1,
      fun j hj => ?_, rfl, hfind.2⟩, hfind.2, Nat.mod_lt _ frModulus_pos⟩
  by_contra hne
  exact Nat.find_min hexists hj ⟨hj.trans hfind.1, hne⟩

/-- With one hash, the SDK derives the identifier of the Rust tools. -/
theorem Sdk.deriveCustomerIdentifier_of_deriveIdentifier (hprimitives : primitives.Documented)
    (hsdk : sdkPrimitives.Documented) (hsame : sdkPrimitives.sha256 = primitives.sha256)
    {email code canonical : String} {bytes : Bytes} {id : Nat}
    (hemail : Identity.canonicalEmail email = .ok canonical)
    (hcode : Identity.decodeCode primitives code = .ok bytes)
    (h : Identity.deriveIdentifier primitives email code = .ok id) :
    Sdk.deriveCustomerIdentifier sdkPrimitives (Text.ofString email) (Text.ofString code) =
      .ok id := by
  have hdecode : Sdk.decodeCanonical32 sdkPrimitives (Text.ofString code) = some bytes :=
    (Sdk.decodeCanonical32_iff hprimitives hsdk).mpr ⟨code, rfl, hcode⟩
  simp only [Identity.deriveIdentifier, hemail, hcode, bind, Except.bind] at h
  simp only [Sdk.deriveCustomerIdentifier, Sdk.canonicalEmail_ofString.mpr hemail, hdecode, hsame,
    bind, Except.bind]
  split at h
  · rename_i first hfirst
    cases h
    rfl
  · cases h

/-- **The identifier rule.**  Both readers accept the same emails with the same canonical
form, which is its own canonical form, and the same codes; both derive one identifier, a
nonzero field element that depends on the email through its canonical form; and what is
hashed names the canonical email, the code, and the counter. -/
theorem identifier_agree (hprimitives : primitives.Documented) (hsdk : sdkPrimitives.Documented)
    (hsha : Identity.Sha256 primitives.sha256)
    (hsame : sdkPrimitives.sha256 = primitives.sha256) :
    (∀ email canonical, Sdk.canonicalEmail email = .ok canonical ↔
      ∃ s, email = Text.ofString s ∧ Identity.canonicalEmail s = .ok canonical) ∧
    (∀ email canonical, Identity.canonicalEmail email = .ok canonical →
      Identity.canonicalEmail canonical = .ok canonical ∧
      Sdk.canonicalEmail (Text.ofString canonical) = .ok canonical) ∧
    (∀ code bytes, Sdk.decodeCanonical32 sdkPrimitives code = some bytes ↔
      ∃ s, code = Text.ofString s ∧ Identity.decodeCode primitives s = .ok bytes) ∧
    (∀ email code canonical bytes, Identity.canonicalEmail email = .ok canonical →
      Identity.decodeCode primitives code = .ok bytes →
      ∃ id, Identity.deriveIdentifier primitives email code = .ok id ∧
        Sdk.deriveCustomerIdentifier sdkPrimitives (Text.ofString email) (Text.ofString code) =
          .ok id ∧ id ≠ 0 ∧ id < frModulus) ∧
    (∀ email email' canonical code, Identity.canonicalEmail email = .ok canonical →
      Identity.canonicalEmail email' = .ok canonical →
      Identity.deriveIdentifier primitives email code =
        Identity.deriveIdentifier primitives email' code) ∧
    (∀ email email' canonical code, Sdk.canonicalEmail email = .ok canonical →
      Sdk.canonicalEmail email' = .ok canonical →
      Sdk.deriveCustomerIdentifier sdkPrimitives email code =
        Sdk.deriveCustomerIdentifier sdkPrimitives email' code) ∧
    ∀ email email' canonical canonical' code code' counter counter',
      Identity.canonicalEmail email = .ok canonical →
      Identity.canonicalEmail email' = .ok canonical' →
      code.length = Identity.IDENTIFIER_BYTES → code'.length = Identity.IDENTIFIER_BYTES →
      counter < 2 ^ 32 → counter' < 2 ^ 32 →
      Identity.preimage canonical.toList code counter =
        Identity.preimage canonical'.toList code' counter' →
      canonical = canonical' ∧ code = code' ∧ counter = counter' := by
  refine ⟨fun email canonical => Sdk.canonicalEmail_eq_ok, ?_, ?_, ?_, ?_, ?_, ?_⟩
  · intro email canonical h
    have hagain := Identity.canonicalEmail_idempotent h
    exact ⟨hagain, Sdk.canonicalEmail_ofString.mpr hagain⟩
  · exact fun code bytes => Sdk.decodeCanonical32_iff hprimitives hsdk
  · intro email code canonical bytes hemail hcode
    obtain ⟨id, hid, hne, hlt⟩ := Identity.exists_deriveIdentifier hsha hemail hcode
    exact ⟨id, hid, Sdk.deriveCustomerIdentifier_of_deriveIdentifier hprimitives hsdk hsame hemail
      hcode hid, hne, hlt⟩
  · intro email email' canonical code h h'
    rw [Identity.deriveIdentifier, Identity.deriveIdentifier, h, h']
  · intro email email' canonical code h h'
    rw [Sdk.deriveCustomerIdentifier, Sdk.deriveCustomerIdentifier, h, h']
  · intro email email' canonical canonical' code code' counter counter' h h' hcode hcode' hcounter
      hcounter' heq
    obtain ⟨hascii, hlength⟩ := Identity.canonical_ascii h
    obtain ⟨hascii', hlength'⟩ := Identity.canonical_ascii h'
    have hshort : Identity.ADDRESS_MAX_BYTES < 2 ^ 16 := by decide
    obtain ⟨hcanonical, hrest⟩ := Identity.preimage_inj hascii hascii' (hlength.trans_lt hshort)
      (hlength'.trans_lt hshort) hcode hcode' hcounter hcounter' heq
    exact ⟨String.toList_injective hcanonical, hrest⟩

end Agreement

section Sample

/-- The hash on the sample mailbox and code, and a string that ends like its input on
every other input. -/
def sampleSha256 (bytes : Bytes) : Bytes :=
  if bytes = Identity.preimage "Alice.Tag@example.com".toList (List.replicate 32 0) 0 then
    toBe 32 sampleId
  else toBe 32 (beNat bytes % 2 ^ 32)

theorem sha256_sample : Identity.Sha256 sampleSha256 where
  length bytes := by
    unfold sampleSha256
    split <;> exact length_toBe _ _
  spread email code := by
    have hlow : ∀ i : Fin 7, beNat (Identity.preimage email code (i.val + 1)) % 2 ^ 32 = i.val + 1 := by
      intro i
      have hlt := i.isLt
      rw [Identity.preimage, beNat_append, length_toBe, beNat_toBe_of_lt (by omega)]
      omega
    have hother : ∀ i : Fin 7, Identity.preimage email code (i.val + 1) ≠
        Identity.preimage "Alice.Tag@example.com".toList (List.replicate 32 0) 0 := by
      intro i heq
      have hlowi := hlow i
      rw [heq] at hlowi
      have hzero : beNat (Identity.preimage "Alice.Tag@example.com".toList (List.replicate 32 0) 0) %
          2 ^ 32 = 0 := by decide +kernel
      omega
    have hsmall : ∀ i : Fin 7, i.val + 1 < 2 ^ 32 := fun i => by omega
    refine ⟨fun i => i.val + 1, hsmall, fun i j heq => ?_⟩
    simp only [sampleSha256, if_neg (hother _), hlow] at heq
    have hnat := congrArg beNat heq
    have hwide : (2 : Nat) ^ 32 ≤ 256 ^ 32 := by norm_num
    rw [beNat_toBe_of_lt ((hsmall i).trans_le hwide), beNat_toBe_of_lt ((hsmall j).trans_le hwide)] at hnat
    exact Fin.ext (by omega)

/-- Both languages derive one identifier of the sample mailbox and code. -/
theorem identifier_agree_sample :
    ∃ id, Identity.deriveIdentifier { referencePrimitives with sha256 := sampleSha256 } sampleEmail
        sampleCode = .ok id ∧
      Sdk.deriveCustomerIdentifier { sdkReferencePrimitives with sha256 := sampleSha256 }
        (Text.ofString sampleEmail) (Text.ofString sampleCode) = .ok id ∧
      id ≠ 0 ∧ id < frModulus := by
  obtain ⟨-, -, -, hderive, -⟩ := @identifier_agree
    { referencePrimitives with sha256 := sampleSha256 }
    { sdkReferencePrimitives with sha256 := sampleSha256 }
    ⟨referencePrimitives_documented.encode, referencePrimitives_documented.decode⟩
    ⟨sdkReferencePrimitives_documented.encode, sdkReferencePrimitives_documented.decode⟩
    sha256_sample rfl
  exact hderive sampleEmail sampleCode "Alice.Tag@example.com" (List.replicate 32 0)
    (by decide +kernel) (by decide +kernel)

end Sample
end ZkPoR
