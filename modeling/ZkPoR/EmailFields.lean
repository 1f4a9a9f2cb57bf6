import ZkPoR.EmailScan

/-! # What the checks of the chosen positions say

Each check of a position is read as a fact about the bytes there: a value in full
(`exact_eq_ok`), the end of a tag (`tagBounds_eq_ok`), the names of an h tag
(`signedNames_eq_ok`), a host name (`readDomain_eq_ok`), and the two fields
(`readFrom_eq_ok`, `readSubject_eq_ok`).
-/
namespace ZkPoR.Circuit.Email
open ByteString BoundedLoop Splitting

variable {header : Header}

theorem Sequence.endIndex_eq_ok {sequence : Sequence} {stop : Nat}
    (h : sequence.endIndex = .ok stop) : stop = sequence.index + sequence.length := by
  unfold Sequence.endIndex at h
  split at h
  · exact (Except.ok.inj h).symm
  · cases h

theorem Sequence.endIndex_of_le {sequence : Sequence}
    (h : sequence.index + sequence.length ≤ header.len) :
    sequence.endIndex = .ok (sequence.index + sequence.length) := by
  have hmax : header.len ≤ 1024 := header.length_le
  rw [Sequence.endIndex, if_pos (by omega)]

/-! ## A value in full -/

theorem matchesAt_eq_true {index : Nat} {value : Bytes}
    (h : matchesAt header index value = true) :
    index + value.length ≤ header.len ∧
      slice header.bytes index (index + value.length) = value := by
  have hall := fold_invariant (n := value.length)
    (P := fun k equal => equal = true → index + value.length ≤ header.len ∧
      ∀ offset < k, header.bytes[index + offset]? = value[offset]?)
    (fun hfits => ⟨by split at hfits <;> simp at hfits; omega, fun o ho => absurd ho (by omega)⟩)
    (fun k hk equal ih hequal => ?_) h
  · obtain ⟨hlen, hbytes⟩ := hall
    refine ⟨hlen, List.ext_getElem? fun k => ?_⟩
    rw [getElem?_slice]
    split
    · exact hbytes k (by omega)
    · exact (List.getElem?_eq_none (by omega)).symm
  · rw [Bool.and_eq_true] at hequal
    obtain ⟨hlen, hbytes⟩ := ih hequal.1
    refine ⟨hlen, fun offset hoffset => ?_⟩
    rcases Nat.lt_or_eq_of_le (Nat.le_of_lt_succ hoffset) with hlt | rfl
    · exact hbytes offset hlt
    · have hfits : (if index ≤ header.len then decide (value.length ≤ header.len - index)
          else false) = true := by
        rw [if_pos (by omega), decide_eq_true_iff]
        omega
      have hbyte := hequal.2
      rw [if_pos hfits, beq_iff_eq] at hbyte
      rw [BoundedVec.getElem?_bytes (by omega), hbyte, List.getElem?_eq_getElem hk]

theorem exact_eq_ok {sequence : Sequence} {value : Bytes}
    (h : exact header sequence value = .ok ()) :
    slice header.bytes sequence.index (sequence.index + sequence.length) = value := by
  obtain ⟨_, hlength, h⟩ := bind_eq_ok.mp h
  rw [assertOr_eq_ok.mp hlength]
  exact (matchesAt_eq_true (assertOr_eq_ok.mp h)).2

/-! ## The end of a tag -/

/-- What `tag_bounds` has read before one position. -/
def BoundsRead (header : Header) (index stop : Nat) (k : Nat) (suffix : Bool) : Prop :=
  (∀ j < k, index ≤ j → j < stop → header.getUnchecked j ≠ SEMICOLON) ∧
  (suffix = true → ∀ j < k, stop ≤ j → j < header.len → header.bytes[j]? = some SPACE) ∧
  (suffix = false → ∃ last, stop ≤ last ∧ last < header.len ∧
    header.bytes[last]? = some SEMICOLON ∧
    ∀ j, stop ≤ j → j < last → header.bytes[j]? = some SPACE)

theorem BoundsRead.step {tag : Sequence} {stop k : Nat} {suffix suffix' : Bool}
    (ih : BoundsRead header tag.index stop k suffix)
    (h : tagBoundsStep header tag stop k suffix = .ok suffix') :
    BoundsRead header tag.index stop (k + 1) suffix' := by
  obtain ⟨hbody, hsuffix, hended⟩ := ih
  obtain ⟨_, hbyte, h⟩ := bind_eq_ok.mp h
  have hbody' : ∀ j < k + 1, tag.index ≤ j → j < stop → header.getUnchecked j ≠ SEMICOLON := by
    intro j hj hle hlt
    rcases Nat.lt_or_eq_of_le (Nat.le_of_lt_succ hj) with hj | rfl
    · exact hbody j hj hle hlt
    · exact (assertOr_eq_ok.mp hbyte ⟨hle, hlt⟩).1
  split at h
  · rename_i hin
    obtain ⟨hstop, hlen, hopen⟩ := hin
    split at h
    · rename_i hsemi
      obtain rfl := Except.ok.inj h
      refine ⟨hbody', fun hfalse => absurd hfalse (by decide), fun _ => ⟨k, hstop, hlen, ?_,
        fun j hj hjk => hsuffix hopen j hjk hj (by omega)⟩⟩
      rw [BoundedVec.getElem?_bytes hlen, hsemi]
    · obtain ⟨_, hspace, h⟩ := bind_eq_ok.mp h
      obtain rfl := Except.ok.inj h
      refine ⟨hbody', fun _ j hj hle hlt => ?_, hended⟩
      rcases Nat.lt_or_eq_of_le (Nat.le_of_lt_succ hj) with hj | rfl
      · exact hsuffix hopen j hj hle hlt
      · rw [BoundedVec.getElem?_bytes hlen, assertOr_eq_ok.mp hspace]
  · rename_i hout
    obtain rfl := Except.ok.inj h
    refine ⟨hbody', fun hopen j hj hle hlt => ?_, hended⟩
    rcases Nat.lt_or_eq_of_le (Nat.le_of_lt_succ hj) with hj | rfl
    · exact hsuffix hopen j hj hle hlt
    · exact absurd ⟨hle, hlt, hopen⟩ hout

/-- **An accepted tag holds no semicolon and ends at one, up to spaces.** -/
theorem tagBounds_eq_ok {dkim tag : Sequence} (h : tagBounds header dkim tag = .ok ()) :
    2 ≤ tag.length ∧ tag.index + tag.length ≤ header.len ∧
      (∀ j, tag.index ≤ j → j < tag.index + tag.length →
        header.getUnchecked j ≠ SEMICOLON) ∧
      ∃ last, tag.index + tag.length ≤ last ∧ last ≤ header.len ∧
        (last = header.len ∨ header.bytes[last]? = some SEMICOLON) ∧
        ∀ j, tag.index + tag.length ≤ j → j < last → header.bytes[j]? = some SPACE := by
  obtain ⟨_, -, h⟩ := bind_eq_ok.mp h
  obtain ⟨_, htwo, h⟩ := bind_eq_ok.mp h
  obtain ⟨stop, hstop, h⟩ := bind_eq_ok.mp h
  obtain ⟨_, hlen, h⟩ := bind_eq_ok.mp h
  obtain ⟨suffix, hloop, -⟩ := bind_eq_ok.mp h
  obtain rfl := Sequence.endIndex_eq_ok hstop
  have hlen := assertOr_eq_ok.mp hlen
  have hmax : header.len ≤ MAX_EMAIL_HEADER_LENGTH := header.length_le
  obtain ⟨hbody, hopen, hended⟩ := forRange_invariant (P := BoundsRead header tag.index _)
    ⟨fun j hj => absurd hj (by omega), fun _ j hj => absurd hj (by omega), fun h => by cases h⟩
    (fun k _ s s' hs hstep => hs.step hstep) hloop
  refine ⟨assertOr_eq_ok.mp htwo, hlen, fun j hj hlt => hbody j (by omega) hj hlt, ?_⟩
  cases suffix with
  | true =>
    exact ⟨header.len, hlen, le_rfl, .inl rfl, fun j hj hlt => hopen rfl j (by omega) hj hlt⟩
  | false =>
    obtain ⟨last, hle, hlt, hsemi, hspaces⟩ := hended rfl
    exact ⟨last, hle, hlt.le, .inr hsemi, hspaces⟩

/-! ## The names of an h tag -/

/-- The name of at most seven letters that a token spells. -/
theorem eq_of_token {raw name : Bytes} (hraw : (0 : UInt8) ∉ raw) (hname : (0 : UInt8) ∉ name)
    (hshort : raw.length ≤ SUBJECT_NAME_LENGTH) (hlen : name.length ≤ SUBJECT_NAME_LENGTH)
    (h : frOfNat (beNat raw) = frOfNat (beNat name)) : raw = name := by
  have hbound : ∀ {text : Bytes}, text.length ≤ SUBJECT_NAME_LENGTH →
      beNat text < frModulus := fun {text} htext =>
    calc beNat text < 256 ^ text.length := beNat_lt text
      _ ≤ 256 ^ SUBJECT_NAME_LENGTH := Nat.pow_le_pow_right (by decide) htext
      _ < frModulus := by decide
  have hval := congrArg Fin.val h
  rw [frOfNat_val (hbound hshort), frOfNat_val (hbound hlen)] at hval
  exact eq_of_beNat_eq_of_notMem hraw hname hval

/-- One entry of the list from `lo` to `hi`, between colons or the ends, is the name up
to case and surrounding spaces. -/
def Lists (header : Header) (lo hi : Nat) (name : Bytes) : Prop :=
  ∃ i j, lo ≤ i ∧ i ≤ j ∧ j ≤ hi ∧ (i = lo ∨ header.bytes[i - 1]? = some COLON) ∧
    (j = hi ∨ header.bytes[j]? = some COLON) ∧ COLON ∉ slice header.bytes i j ∧
    (trimSpaces (slice header.bytes i j)).map toLower = name

/-- The entry that is being read before position `i`: spaces, a name, and spaces. -/
structure Entry (header : Header) (lo i : Nat) (s : NameScan) (start : Nat)
    (left raw right : Bytes) : Prop where
  lo_le : lo ≤ start
  start_le : start ≤ i
  opens : start = lo ∨ header.bytes[start - 1]? = some COLON
  notMem : COLON ∉ slice header.bytes start i
  eq : slice header.bytes start i = left ++ raw ++ right
  left_eq : ∀ x ∈ left, x = SPACE
  right_eq : ∀ x ∈ right, x = SPACE
  raw_ne : ∀ x ∈ raw, x ≠ SPACE ∧ toLower x ≠ 0
  right_nil : raw = [] → right = []
  length_eq : s.length = raw.length
  ended : s.ended = !right.isEmpty
  token : s.token = if raw.length ≤ SUBJECT_NAME_LENGTH then frOfNat (beNat (raw.map toLower)) else 0

namespace Entry
variable {lo i start : Nat} {s s' : NameScan} {left raw right : Bytes}

theorem trim_eq (h : Entry header lo i s start left raw right) :
    trimSpaces (slice header.bytes start i) = raw := by
  rw [h.eq]
  exact trimSpaces_append h.left_eq h.right_eq
    (fun hhead => (h.raw_ne SPACE (List.mem_of_head? hhead)).1 rfl)
    (fun hlast => (h.raw_ne SPACE (List.mem_of_getLast? hlast)).1 rfl)

/-- A token names the entry. -/
theorem eq_of_token (h : Entry header lo i s start left raw right) {name : Bytes}
    (hname : (0 : UInt8) ∉ name) (hlen : name.length ≤ SUBJECT_NAME_LENGTH)
    (htoken : s.token = frOfNat (beNat name)) (hne : frOfNat (beNat name) ≠ 0) :
    raw.map toLower = name := by
  rw [h.token] at htoken
  split at htoken
  · rename_i hshort
    refine Email.eq_of_token (fun hzero => ?_) hname (by simpa using hshort) hlen htoken
    obtain ⟨y, hy, hy0⟩ := List.mem_map.mp hzero
    exact (h.raw_ne y hy).2 hy0
  · exact absurd htoken.symm hne

/-- A space of the list. -/
theorem space (h : Entry header lo i s start left raw right)
    (hi : header.bytes[i]? = some SPACE) (hread : s.read SPACE = .ok s') :
    (∃ left raw right, Entry header lo (i + 1) s' start left raw right) ∧
      s'.fromCount = s.fromCount ∧ s'.subjectCount = s.subjectCount := by
  rw [NameScan.read, if_neg (by decide), if_pos rfl] at hread
  obtain rfl := Except.ok.inj hread
  refine ⟨?_, by split <;> rfl, by split <;> rfl⟩
  have hnext := slice_snoc h.start_le hi
  have hnotMem : COLON ∉ slice header.bytes start (i + 1) := by
    rw [hnext]
    simpa using ⟨h.notMem, by decide⟩
  have hsnoc : ∀ {text : Bytes}, (∀ x ∈ text, x = SPACE) → ∀ x ∈ text ++ [SPACE], x = SPACE := by
    intro text htext x hx
    rcases List.mem_append.mp hx with hx | hx
    · exact htext x hx
    · exact List.mem_singleton.mp hx
  have hle := h.start_le
  -- a space before the name is skipped, and one after it ends the name
  cases raw with
  | nil =>
    have hright := h.right_nil rfl
    subst hright
    refine ⟨left ++ [SPACE], [], [], h.lo_le, by omega, h.opens, hnotMem, ?_, hsnoc h.left_eq,
      by simp, by simp, fun _ => rfl, ?_, ?_, ?_⟩
    · rw [hnext, h.eq]
      simp
    all_goals rw [if_neg (by rw [h.length_eq]; exact Nat.lt_irrefl 0)]
    · exact h.length_eq
    · exact h.ended
    · exact h.token
  | cons x raw =>
    refine ⟨left, x :: raw, right ++ [SPACE], h.lo_le, by omega, h.opens, hnotMem, ?_, h.left_eq,
      hsnoc h.right_eq, h.raw_ne, by simp, ?_, ?_, ?_⟩
    · rw [hnext, h.eq]
      simp
    all_goals rw [if_pos (by rw [h.length_eq]; simp)]
    · exact h.length_eq
    · simp
    · exact h.token

/-- A letter of a name. -/
theorem letter (h : Entry header lo i s start left raw right) {byte : UInt8}
    (hi : header.bytes[i]? = some byte) (hcolon : byte ≠ COLON) (hspace : byte ≠ SPACE)
    (hread : s.read byte = .ok s') :
    Entry header lo (i + 1) s' start left (raw ++ [byte]) [] ∧
      s'.fromCount = s.fromCount ∧ s'.subjectCount = s.subjectCount := by
  rw [NameScan.read, if_neg hcolon, if_neg hspace] at hread
  obtain ⟨_, hended, hread⟩ := bind_eq_ok.mp hread
  obtain ⟨_, hlower, hread⟩ := bind_eq_ok.mp hread
  obtain ⟨_, -, hread⟩ := bind_eq_ok.mp hread
  obtain rfl := Except.ok.inj hread
  have hright : right = [] := by
    have := h.ended.symm.trans (assertOr_eq_ok.mp hended)
    simpa using this
  subst hright
  have hnext := slice_snoc h.start_le hi
  have hle := h.start_le
  -- a zero byte would not change the number of the name
  have hnonzero : toLower byte ≠ 0 := by
    rcases assertOr_eq_ok.mp hlower with hlower | hlower
    · exact isLower_ne hlower (by decide)
    · rw [hlower]
      decide
  refine ⟨⟨h.lo_le, by omega, h.opens, ?_, ?_, h.left_eq, by simp, fun x hx => ?_, fun _ => rfl, ?_,
    by rw [assertOr_eq_ok.mp hended]; rfl, ?_⟩, rfl, rfl⟩
  · rw [hnext]
    simpa using ⟨h.notMem, hcolon.symm⟩
  · rw [hnext, h.eq]
    simp
  · rcases List.mem_append.mp hx with hx | hx
    · exact h.raw_ne x hx
    · rw [List.mem_singleton.mp hx]
      exact ⟨hspace, hnonzero⟩
  · rw [List.length_append, List.length_singleton, ← h.length_eq]
  · rw [List.length_append, List.length_singleton, ← h.length_eq, List.map_append]
    split
    · rename_i hshort
      have htoken := h.token
      rw [if_pos (by rw [← h.length_eq]; omega)] at htoken
      rw [htoken, frOfNat_beNat_concat]
      rfl
    · rfl

/-- The entry that starts after a colon. -/
theorem empty (hlo : lo ≤ i) (hopens : i = lo ∨ header.bytes[i - 1]? = some COLON)
    (htoken : s.token = 0) (hlength : s.length = 0) (hended : s.ended = false) :
    Entry header lo i s i [] [] [] where
  lo_le := hlo
  start_le := le_rfl
  opens := hopens
  notMem := by simp
  eq := slice_self
  left_eq := by simp
  right_eq := by simp
  raw_ne := by simp
  right_nil _ := rfl
  length_eq := hlength
  ended := hended
  token := htoken

end Entry

/-- What `signed_names` has read before position `k` of the list from `lo` to `hi`. -/
structure NamesRead (header : Header) (lo hi k : Nat) (s : NameScan) : Prop where
  before : k ≤ lo → s = NameScan.init
  entry : lo ≤ k → k ≤ hi → ∃ start left raw right, Entry header lo k s start left raw right
  fromCount : 0 < s.fromCount → Lists header lo hi FROM_NAME
  subjectCount : 0 < s.subjectCount → Lists header lo hi SUBJECT_NAME

theorem FROM_TOKEN_eq : FROM_TOKEN = frOfNat (beNat FROM_NAME) := by decide

theorem SUBJECT_TOKEN_eq : SUBJECT_TOKEN = frOfNat (beNat SUBJECT_NAME) := by decide

namespace NamesRead
variable {lo hi k : Nat} {s s' : NameScan}

/-- A byte of the list that is no colon. -/
theorem byte (h : NamesRead header lo hi k s) (hlo : lo ≤ k) (hk : k < hi) {byte : UInt8}
    (hbyte : header.bytes[k]? = some byte) (hcolon : byte ≠ COLON) (hread : s.read byte = .ok s') :
    NamesRead header lo hi (k + 1) s' := by
  obtain ⟨start, left, raw, right, hentry⟩ := h.entry hlo hk.le
  have hnext : (∃ left raw right, Entry header lo (k + 1) s' start left raw right) ∧
      s'.fromCount = s.fromCount ∧ s'.subjectCount = s.subjectCount := by
    by_cases hspace : byte = SPACE
    · subst hspace
      exact hentry.space hbyte hread
    · obtain ⟨hentry, hcounts⟩ := hentry.letter hbyte hcolon hspace hread
      exact ⟨⟨_, _, _, hentry⟩, hcounts⟩
  obtain ⟨⟨left, raw, right, hentry⟩, hfrom, hsubject⟩ := hnext
  refine ⟨fun hle => absurd hle (by omega), fun _ _ => ⟨_, _, _, _, hentry⟩, ?_, ?_⟩
  · rw [hfrom]
    exact h.fromCount
  · rw [hsubject]
    exact h.subjectCount

/-- The end of an entry, at a colon or at the end of the list. -/
theorem colon (h : NamesRead header lo hi k s) (hlo : lo ≤ k) (hk : k ≤ hi)
    (hbyte : k = hi ∨ header.bytes[k]? = some COLON) (hread : s.read COLON = .ok s') :
    NamesRead header lo hi (k + 1) s' := by
  obtain ⟨start, left, raw, right, hentry⟩ := h.entry hlo hk
  rw [NameScan.read, if_pos rfl] at hread
  obtain ⟨_, -, hread⟩ := bind_eq_ok.mp hread
  obtain rfl := Except.ok.inj hread
  have hlists : ∀ {name : Bytes}, (0 : UInt8) ∉ name → name.length ≤ SUBJECT_NAME_LENGTH →
      s.token = frOfNat (beNat name) → frOfNat (beNat name) ≠ 0 → Lists header lo hi name := by
    intro name hname hlen htoken hne
    refine ⟨start, k, hentry.lo_le, hentry.start_le, hk, hentry.opens, hbyte, hentry.notMem, ?_⟩
    rw [hentry.trim_eq]
    exact hentry.eq_of_token hname hlen htoken hne
  refine ⟨fun hle => absurd hle (by omega), fun _ hle => ⟨_, _, _, _, Entry.empty (by omega)
    (.inr ?_) rfl rfl rfl⟩, fun hcount => ?_, fun hcount => ?_⟩
  · rw [Nat.add_sub_cancel]
    exact hbyte.resolve_left (by omega)
  · by_cases htoken : s.token = FROM_TOKEN
    · exact hlists (by decide) (by decide) (htoken.trans FROM_TOKEN_eq) (by decide)
    · exact h.fromCount (by simpa [htoken] using hcount)
  · by_cases htoken : s.token = SUBJECT_TOKEN
    · exact hlists (by decide) (by decide) (htoken.trans SUBJECT_TOKEN_eq) (by decide)
    · exact h.subjectCount (by simpa [htoken] using hcount)

end NamesRead

/-- **An accepted h tag lists From and Subject.** -/
theorem signedNames_eq_ok {sequence : Sequence}
    (hstop : sequence.index + sequence.length ≤ header.len)
    (h : signedNames header sequence = .ok ()) :
    Lists header (sequence.index + 2) (sequence.index + sequence.length) FROM_NAME ∧
      Lists header (sequence.index + 2) (sequence.index + sequence.length) SUBJECT_NAME := by
  obtain ⟨stop, hend, h⟩ := bind_eq_ok.mp h
  obtain ⟨s, hloop, hcounts⟩ := bind_eq_ok.mp h
  obtain rfl := Sequence.endIndex_eq_ok hend
  have hcounts := assertOr_eq_ok.mp hcounts
  have hread := forRange_invariant
    (P := NamesRead header (sequence.index + 2) (sequence.index + sequence.length))
    ⟨fun _ => rfl, fun hle => absurd hle (by omega), fun hpos => absurd hpos (by decide),
      fun hpos => absurd hpos (by decide)⟩ (fun k _ s s' ih hbody => ?_) hloop
  · exact ⟨hread.fromCount hcounts.1, hread.subjectCount hcounts.2⟩
  · split at hbody
    · rename_i hin
      obtain ⟨hlo, hle⟩ := hin
      -- The end of the list is read as one more colon.
      by_cases hk : k = sequence.index + sequence.length
      · rw [if_pos hk] at hbody
        exact ih.colon hlo hle (.inl hk) hbody
      · rw [if_neg hk] at hbody
        have hbyte : header.bytes[k]? = some (header.getUnchecked k) :=
          BoundedVec.getElem?_bytes (by omega)
        by_cases hcolon : header.getUnchecked k = COLON
        · rw [hcolon] at hbody hbyte
          exact ih.colon hlo hle (.inr hbyte) hbody
        · exact ih.byte hlo (by omega) hbyte hcolon hbody
    · rename_i hout
      obtain rfl := Except.ok.inj hbody
      refine ⟨fun hle => ih.before (by omega), fun hlo hle => ?_, ih.fromCount, ih.subjectCount⟩
      have hk : k + 1 = sequence.index + 2 := by
        by_contra hne
        exact hout ⟨by omega, by omega⟩
      have hinit := ih.before (by omega)
      subst hinit
      exact ⟨_, _, _, _, Entry.empty hlo (.inl hk) rfl rfl rfl⟩

/-! ## Arrays that copy the header -/

/-- An array that holds the bytes from a position on. -/
theorem take_toList_eq_slice {max : Nat} {storage : Vector UInt8 max} {start len : Nat}
    (hlen : len ≤ max) (hstop : start + len ≤ header.len)
    (h : ∀ j < len, entry 0 storage j = header.getUnchecked (start + j)) :
    storage.toList.take len = slice header.bytes start (start + len) := by
  apply List.ext_getElem?
  intro k
  rw [List.getElem?_take, getElem?_slice]
  by_cases hk : k < len
  · rw [if_pos hk, if_pos (by omega), Vector.getElem?_toList, BoundedVec.getElem?_bytes (by omega),
      ← h k hk, entry_of_lt (by omega), Vector.getElem?_eq_getElem]
  · rw [if_neg hk, if_neg (by omega)]

theorem fromParts_eq_ok {max len : Nat} {storage : Vector UInt8 max} {out : BoundedVec max}
    (h : BoundedVec.fromParts storage len = .ok out) :
    len ≤ max ∧ out.bytes = storage.toList.take len := by
  obtain ⟨_, hlen, h⟩ := bind_eq_ok.mp h
  obtain rfl := Except.ok.inj h
  exact ⟨assertOr_eq_ok.mp hlen, rfl⟩

/-- **The From output is the line.** -/
theorem readFrom_eq_ok {fromSequence : Sequence} {out : BoundedVec MAX_FROM_LENGTH}
    (hstop : fromSequence.index + fromSequence.length ≤ header.len)
    (h : readFrom header fromSequence = .ok out) :
    out.bytes = slice header.bytes fromSequence.index
      (fromSequence.index + fromSequence.length) := by
  obtain ⟨hlen, hout⟩ := fromParts_eq_ok h
  rw [hout]
  refine take_toList_eq_slice hlen hstop fun j hj => ?_
  refine fold_invariant (n := MAX_FROM_LENGTH) (P := fun k storage => ∀ j < k,
    j < fromSequence.length →
      entry 0 storage j = header.getUnchecked (fromSequence.index + j)) (fun j hj => by omega)
    (fun k hk storage ih j hj hlt => ?_) j (by omega) hj
  rcases Nat.lt_or_eq_of_le (Nat.le_of_lt_succ hj) with hjk | rfl
  · split
    · rw [entry_set, if_neg (by omega)]
      exact ih j hjk hlt
    · exact ih j hjk hlt
  · rw [if_pos hlt, entry_set, if_pos rfl]

/-- **The Subject output is the value of the line.** -/
theorem readSubject_eq_ok {subject : Sequence} {out : Vector UInt8 SUBJECT_LENGTH}
    (hstop : subject.index + (SUBJECT_NAME_LENGTH + 1 + SUBJECT_LENGTH) ≤ header.len)
    (h : readSubject header subject = .ok out) :
    out.toList = slice header.bytes (subject.index + SUBJECT_NAME_LENGTH + 1)
        (subject.index + SUBJECT_NAME_LENGTH + 1 + SUBJECT_LENGTH) ∧
      ∀ x ∈ out.toList, isBase64url x = true := by
  have hall := forRange_invariant (n := SUBJECT_LENGTH)
    (P := fun k (bytes : Vector UInt8 SUBJECT_LENGTH) => ∀ j < k,
      entry 0 bytes j = header.getUnchecked (subject.index + SUBJECT_NAME_LENGTH + 1 + j) ∧
        isBase64url (entry 0 bytes j) = true) (fun j hj => by omega)
    (fun k hk bytes bytes' ih hbody j hj => ?_) h
  · refine ⟨?_, fun x hx => ?_⟩
    · rw [← take_toList_eq_slice le_rfl (by omega) fun j hj => (hall j hj).1,
        List.take_of_length_le (by simp)]
    · obtain ⟨k, hk, rfl⟩ := List.getElem_of_mem hx
      rw [Vector.length_toList] at hk
      have := (hall k hk).2
      rwa [entry_of_lt hk] at this
  · obtain ⟨_, hbase, hbody⟩ := bind_eq_ok.mp hbody
    obtain rfl := Except.ok.inj hbody
    rw [entry_set]
    rcases Nat.lt_or_eq_of_le (Nat.le_of_lt_succ hj) with hj | rfl
    · rw [if_neg (by omega)]
      exact ih j hj
    · rw [if_pos rfl]
      exact ⟨rfl, assertOr_eq_ok.mp hbase⟩

/-! ## The domain -/

/-- The start of a label. -/
structure PartialLabel (label : Bytes) : Prop where
  length_le : label.length ≤ MAX_DOMAIN_LABEL_LENGTH
  forall_mem : ∀ x ∈ label, isLower x ∨ isDigit x ∨ x = HYPHEN
  head : label.head? ≠ some HYPHEN

theorem PartialLabel.isLabel {label : Bytes} (h : PartialLabel label) (hne : label ≠ [])
    (hlast : label.getLast? ≠ some HYPHEN) : IsLabel label :=
  ⟨hne, h.length_le, h.forall_mem, h.head, hlast⟩

theorem IsLabel.dot_notMem {label : Bytes} (h : ∀ x ∈ label, isLower x ∨ isDigit x ∨ x = HYPHEN) :
    DOT ∉ label := by
  intro hmem
  have := h DOT hmem
  revert this
  decide

/-- Labels that each end at a dot, and the label after them. -/
theorem splitOn_labels {labels : List Bytes} {last : Bytes} (h : ∀ label ∈ labels, IsLabel label)
    (hlast : DOT ∉ last) :
    (labels.flatMap (· ++ [DOT]) ++ last).splitOn DOT = labels ++ [last] := by
  induction labels with
  | nil => rw [List.flatMap_nil, List.nil_append, List.splitOn_eq_singleton hlast, List.nil_append]
  | cons label labels ih =>
    rw [List.forall_mem_cons] at h
    rw [List.flatMap_cons, List.append_assoc, List.append_assoc, List.singleton_append,
      List.splitOn_append_cons_self_of_not_mem (IsLabel.dot_notMem h.1.forall_mem), ih h.2,
      List.cons_append]

/-- What the loop has read of the domain before one byte: whole labels, and the label
that is being read. -/
def DomainRead (text : Bytes) (s : DomainScan) : Prop :=
  ∃ (labels : List Bytes) (label : Bytes), text = labels.flatMap (· ++ [DOT]) ++ label ∧
    (∀ l ∈ labels, IsLabel l) ∧ PartialLabel label ∧ s.labelLength = label.length ∧
    (s.lastHyphen = true ↔ label.getLast? = some HYPHEN)

theorem DomainRead.read {text : Bytes} {s s' : DomainScan} {offset : Nat}
    {hoffset : offset < MAX_DOMAIN_LENGTH} {byte : UInt8} (ih : DomainRead text s)
    (h : s.read offset hoffset byte = .ok s') :
    DomainRead (text ++ [byte]) s' ∧ s'.domainBytes = s.domainBytes.set offset byte := by
  obtain ⟨labels, label, rfl, hlabels, hlabel, hlength, hhyphen⟩ := ih
  obtain ⟨_, hclass, h⟩ := bind_eq_ok.mp h
  obtain ⟨labelLength, hnext, h⟩ := bind_eq_ok.mp h
  obtain rfl := Except.ok.inj h
  refine ⟨?_, rfl⟩
  -- a dot ends the label, and any other byte extends it
  unfold DomainScan.nextLabel at hnext
  split at hnext
  · rename_i hdot
    obtain ⟨_, hended, hnext⟩ := bind_eq_ok.mp hnext
    obtain rfl := Except.ok.inj hnext
    obtain ⟨hpos, hlast⟩ := assertOr_eq_ok.mp hended
    refine ⟨labels ++ [label], [], by simp [hdot], fun l hl => ?_,
      ⟨by decide, by simp, by simp⟩, rfl, by simp [hdot, show DOT ≠ HYPHEN by decide]⟩
    rcases List.mem_append.mp hl with hl | hl
    · exact hlabels l hl
    · rw [List.mem_singleton.mp hl]
      refine hlabel.isLabel ?_ ?_
      · rintro rfl
        rw [hlength] at hpos
        exact absurd hpos (by simp)
      · intro hlasts
        rw [hhyphen.mpr hlasts] at hlast
        cases hlast
  · rename_i hdot
    obtain ⟨_, hfirst, hnext⟩ := bind_eq_ok.mp hnext
    obtain ⟨_, hshort, hnext⟩ := bind_eq_ok.mp hnext
    obtain rfl := Except.ok.inj hnext
    have hfirst := assertOr_eq_ok.mp hfirst
    have hshort := assertOr_eq_ok.mp hshort
    refine ⟨labels, label ++ [byte], by simp, hlabels, ⟨?_, fun x hx => ?_, ?_⟩, ?_, by simp⟩
    · rw [List.length_append, List.length_singleton, ← hlength]
      exact hshort
    · rcases List.mem_append.mp hx with hx | hx
      · exact hlabel.forall_mem x hx
      · rw [List.mem_singleton.mp hx]
        rcases assertOr_eq_ok.mp hclass with h | h | h | h
        · exact .inl h
        · exact .inr (.inl h)
        · exact .inr (.inr h)
        · exact absurd h hdot
    · cases label with
      | nil =>
        have hbyte := hfirst.resolve_left (by simp [hlength])
        simpa using hbyte
      | cons x label => simpa using hlabel.head
    · rw [List.length_append, List.length_singleton, ← hlength]

/-- **An accepted domain is the rest of the tag, and a host name.** -/
theorem readDomain_eq_ok {domain : Sequence} {out : BoundedVec MAX_DOMAIN_LENGTH}
    (hstop : domain.index + domain.length ≤ header.len)
    (h : readDomain header domain = .ok out) :
    2 < domain.length ∧
      out.bytes = slice header.bytes (domain.index + 2) (domain.index + domain.length) ∧
      IsHostName out.bytes := by
  obtain ⟨_, hbounds, h⟩ := bind_eq_ok.mp h
  obtain ⟨s, hloop, h⟩ := bind_eq_ok.mp h
  obtain ⟨_, hlast, h⟩ := bind_eq_ok.mp h
  obtain ⟨htwo, hmax⟩ := assertOr_eq_ok.mp hbounds
  obtain ⟨hlen, hout⟩ := fromParts_eq_ok h
  -- the loop runs past the text, where it changes nothing, so the invariant stops there
  have hread := forRange_invariant (n := MAX_DOMAIN_LENGTH)
    (P := fun k (s : DomainScan) =>
      DomainRead (slice header.bytes (domain.index + 2)
        (domain.index + 2 + min k (domain.length - 2))) s ∧
      ∀ j < k, j < domain.length - 2 →
        entry 0 s.domainBytes j = header.getUnchecked (domain.index + 2 + j))
    ⟨⟨[], [], by simp, by simp, ⟨by decide, by simp, by simp⟩, rfl, by simp [DomainScan.init]⟩,
      fun j hj => absurd hj (by omega)⟩ (fun k hk s s' ih hbody => ?_) hloop
  · obtain ⟨⟨labels, label, htext, hlabels, hlabel, hlength, hhyphen⟩, hentries⟩ := hread
    obtain ⟨hpos, hended⟩ := assertOr_eq_ok.mp hlast
    have hbytes : out.bytes =
        slice header.bytes (domain.index + 2) (domain.index + 2 + (domain.length - 2)) := by
      rw [hout]
      exact take_toList_eq_slice hlen (by omega) fun j hj => hentries j (by omega) hj
    rw [show min MAX_DOMAIN_LENGTH (domain.length - 2) = domain.length - 2 by omega, ← hbytes]
      at htext
    refine ⟨htwo, ?_, out.length_le, fun l hl => ?_⟩
    · rw [hbytes, show domain.index + 2 + (domain.length - 2) = domain.index + domain.length
        by omega]
    · rw [htext, splitOn_labels hlabels (IsLabel.dot_notMem hlabel.forall_mem)] at hl
      rcases List.mem_append.mp hl with hl | hl
      · exact hlabels l hl
      · rw [List.mem_singleton.mp hl]
        refine hlabel.isLabel ?_ ?_
        · rintro rfl
          rw [hlength] at hpos
          exact absurd hpos (by simp)
        · intro hlasts
          rw [hhyphen.mpr hlasts] at hended
          cases hended
  · obtain ⟨hdomain, hentries⟩ := ih
    split at hbody
    · rename_i hin
      obtain ⟨hdomain, hset⟩ := hdomain.read hbody
      have hbyte : header.bytes[domain.index + 2 + k]? =
          some (header.getUnchecked (domain.index + 2 + k)) :=
        BoundedVec.getElem?_bytes (by omega)
      rw [show min k (domain.length - 2) = k by omega, ← slice_snoc (by omega) hbyte] at hdomain
      rw [show min (k + 1) (domain.length - 2) = k + 1 by omega]
      refine ⟨hdomain, fun j hj hlt => ?_⟩
      rw [hset, entry_set]
      rcases Nat.lt_or_eq_of_le (Nat.le_of_lt_succ hj) with hj | rfl
      · rw [if_neg (by omega)]
        exact hentries j hj hlt
      · rw [if_pos rfl]
    · rename_i hout
      obtain rfl := Except.ok.inj hbody
      rw [show min (k + 1) (domain.length - 2) = min k (domain.length - 2) by omega]
      exact ⟨hdomain, fun j hj hlt => hentries j (by omega) hlt⟩

end ZkPoR.Circuit.Email
