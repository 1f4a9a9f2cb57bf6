import ZkPoR.EmailBinding

/-! # The spaces after an h tag

The circuit takes an h tag with the spaces at its end or without them.  The scan reads
only where the tags start, the spaces belong to what follows the shorter tag, and no
name of the list ends later.  So a header that is accepted with one sequence is accepted
with the shorter one, with the same outputs (`Checked.shorten`).
-/
namespace ZkPoR.Circuit.Email
open ByteString BoundedLoop Splitting

/-! ## The starts of the tags -/

section Starts
variable {selected selected' : Vector Sequence TAG_KINDS}

/-- The tags start at the same positions. -/
def SameStarts (selected selected' : Vector Sequence TAG_KINDS) : Prop :=
  ∀ kind (h : kind < TAG_KINDS), selected[kind].index = selected'[kind].index

theorem countTags_congr (h : SameStarts selected selected') (byte next : UInt8) (index : Nat)
    (counts : Vector Nat TAG_KINDS) :
    countTags selected byte next index counts = countTags selected' byte next index counts := by
  unfold countTags
  congr 1
  funext kind hkind counts
  rw [h kind hkind]

theorem TagScan.read_congr (h : SameStarts selected selected') (s : TagScan) (byte next : UInt8)
    (index : Nat) : s.read selected byte next index = s.read selected' byte next index := by
  unfold TagScan.read TagScan.begin
  rw [countTags_congr h]

theorem scanByte_congr (h : SameStarts selected selected') (header : Header)
    (subject fromSequence dkim : Sequence) (index : Nat) (s : FieldScan × TagScan) :
    scanByte header subject fromSequence dkim selected index s =
      scanByte header subject fromSequence dkim selected' index s := by
  unfold scanByte
  simp only [TagScan.read_congr h]

end Starts

/-! ## The end of a tag -/

section Bounds
variable {header : Header} {dkim tag : Sequence} {len : Nat}

/-- One position, for a tag that ends at `stop` before the spaces up to `stop'`. -/
theorem tagBoundsStep_shorten {stop stop' index : Nat} {suffix suffix' : Bool}
    (hle : stop ≤ stop') (hspace : stop ≤ index → index < stop' → header.getUnchecked index = SPACE)
    (h : tagBoundsStep header tag stop' index suffix = .ok suffix') :
    tagBoundsStep header ⟨tag.index, len⟩ stop index suffix = .ok suffix' := by
  obtain ⟨_, hbody, h⟩ := bind_eq_ok.mp h
  refine bind_eq_ok.mpr ⟨(), assertOr_eq_ok.mpr fun hin =>
    assertOr_eq_ok.mp hbody ⟨hin.1, hin.2.trans_le hle⟩, ?_⟩
  by_cases hin : stop ≤ index ∧ index < stop'
  · -- a space that belonged to the tag
    rw [if_neg fun hout => Nat.not_le_of_lt hin.2 hout.1] at h
    rw [hspace hin.1 hin.2]
    split
    · exact h
    · exact h
  · have hsame : stop' ≤ index ↔ stop ≤ index := by omega
    simp only [hsame] at h
    exact h

theorem tagBounds_shorten (htwo : 2 ≤ len) (hle : len ≤ tag.length)
    (hspaces : ∀ j, tag.index + len ≤ j → j < tag.index + tag.length →
      header.bytes[j]? = some SPACE)
    (h : tagBounds header dkim tag = .ok ()) :
    tagBounds header dkim ⟨tag.index, len⟩ = .ok () := by
  obtain ⟨_, hbase, h⟩ := bind_eq_ok.mp h
  obtain ⟨_, -, h⟩ := bind_eq_ok.mp h
  obtain ⟨stop, hstop, h⟩ := bind_eq_ok.mp h
  obtain ⟨_, hlen, h⟩ := bind_eq_ok.mp h
  obtain ⟨suffix, hloop, -⟩ := bind_eq_ok.mp h
  obtain rfl := Sequence.endIndex_eq_ok hstop
  have hlen := assertOr_eq_ok.mp hlen
  have hshort : tag.index + len ≤ header.len := by omega
  refine bind_eq_ok.mpr ⟨(), hbase, bind_eq_ok.mpr ⟨(), assertOr_eq_ok.mpr htwo, bind_eq_ok.mpr
    ⟨_, Sequence.endIndex_of_le hshort, bind_eq_ok.mpr ⟨(), assertOr_eq_ok.mpr hshort,
    bind_eq_ok.mpr ⟨suffix, forRange_mono (fun j hj s s' hstep => ?_) hloop, rfl⟩⟩⟩⟩⟩
  exact tagBoundsStep_shorten (Nat.add_le_add_left hle _)
    (fun hj hlt => BoundedVec.getUnchecked_eq (hspaces j hj hlt)) hstep

end Bounds

/-! ## The names of an h tag -/

/-- The variables, but for the spaces after a name. -/
def NameScan.unended (s : NameScan) : NameScan := { s with ended := false }

theorem NameScan.unended_of_space {s s' : NameScan} (h : s.read SPACE = .ok s') :
    s'.unended = s.unended := by
  rw [NameScan.read, if_neg (by decide), if_pos rfl] at h
  obtain rfl := Except.ok.inj h
  split <;> rfl

/-- The end of a name does not depend on the spaces before it. -/
theorem NameScan.read_colon_congr {s t : NameScan} (h : s.unended = t.unended) :
    s.read COLON = t.read COLON := by
  have hunended : ∀ s : NameScan, s.read COLON = s.unended.read COLON := fun _ => rfl
  rw [hunended s, h, ← hunended t]

section Names
variable {header : Header} {sequence : Sequence} {len : Nat}

/-- The list of names, without spaces at its end. -/
theorem signedNames_shorten (hmax : header.len < MAX_EMAIL_HEADER_LENGTH) (htwo : 2 ≤ len)
    (hle : len ≤ sequence.length) (hend : sequence.index + sequence.length ≤ header.len)
    (hspaces : ∀ j, sequence.index + len ≤ j → j < sequence.index + sequence.length →
      header.bytes[j]? = some SPACE)
    (h : signedNames header sequence = .ok ()) :
    signedNames header ⟨sequence.index, len⟩ = .ok () := by
  obtain ⟨stop, hstop, h⟩ := bind_eq_ok.mp h
  obtain ⟨out, hloop, hcounts⟩ := bind_eq_ok.mp h
  obtain rfl := Sequence.endIndex_eq_ok hstop
  obtain ⟨trace, hzero, hlast, hstep⟩ := forRange_trace hloop
  have hshort : sequence.index + len ≤ header.len := by omega
  -- the states agree at the ends of both lists
  have hsame : ∀ d, sequence.index + len + d ≤ sequence.index + sequence.length →
      (trace (sequence.index + len + d)).unended = (trace (sequence.index + len)).unended := by
    intro d
    induction d with
    | zero => exact fun _ => rfl
    | succ d ih =>
      intro hd
      have hread := hstep (sequence.index + len + d) (by omega)
      rw [if_pos (by omega), if_neg (by omega),
        BoundedVec.getUnchecked_eq (hspaces _ (by omega) (by omega))] at hread
      exact (NameScan.unended_of_space hread).trans (ih (by omega))
  have hfinal := hstep (sequence.index + sequence.length) (by omega)
  rw [if_pos (by omega), if_pos rfl] at hfinal
  have hcolon := NameScan.read_colon_congr (hsame (sequence.length - len) (by omega))
  rw [show sequence.index + len + (sequence.length - len) = sequence.index + sequence.length by
    omega, hfinal] at hcolon
  refine bind_eq_ok.mpr ⟨_, Sequence.endIndex_of_le hshort, bind_eq_ok.mpr ⟨out, ?_, hcounts⟩⟩
  -- behind the shorter list the loop is where the other one is behind the longer list
  obtain ⟨moved, hmoved⟩ : ∃ moved : Nat → NameScan, ∀ k, moved k =
      if k ≤ sequence.index + len then trace k
      else trace (max k (sequence.index + sequence.length + 1)) := ⟨_, fun _ => rfl⟩
  have hbefore : ∀ k, k ≤ sequence.index + len → moved k = trace k := fun k hk => by
    rw [hmoved, if_pos hk]
  have hbehind : ∀ k, sequence.index + len < k →
      moved k = trace (max k (sequence.index + sequence.length + 1)) := fun k hk => by
    rw [hmoved, if_neg (Nat.not_le_of_lt hk)]
  have hout : moved MAX_EMAIL_HEADER_LENGTH = out := by
    rw [hbehind _ (by omega), Nat.max_eq_left (by omega), hlast]
  rw [← hout]
  refine forRange_of_trace ((hbefore 0 (Nat.zero_le _)).trans hzero) fun k hk => ?_
  have hread := hstep k hk
  dsimp only
  rcases Nat.lt_trichotomy k (sequence.index + len) with hlt | rfl | hgt
  · rw [hbefore k hlt.le, hbefore (k + 1) hlt]
    by_cases hlo : sequence.index + 2 ≤ k
    · rw [if_pos ⟨hlo, by omega⟩, if_neg (by omega)] at hread
      rw [if_pos ⟨hlo, hlt.le⟩, if_neg hlt.ne, hread]
    · rw [if_neg fun hin => hlo hin.1] at hread
      rw [if_neg fun hin => hlo hin.1, hread]
  · rw [if_pos ⟨by omega, le_rfl⟩, if_pos rfl, hbefore _ le_rfl, hbehind _ (Nat.lt_succ_self _),
      Nat.max_eq_right (by omega), ← hcolon]
  · rw [if_neg fun hin => Nat.not_le_of_lt hgt hin.2, hbehind k hgt, hbehind (k + 1) (by omega)]
    rcases Nat.lt_or_ge (sequence.index + sequence.length) k with hpast | hin
    · rw [if_neg fun hin => Nat.not_le_of_lt hpast hin.2] at hread
      rw [Nat.max_eq_left hpast, Nat.max_eq_left (by omega), hread]
    · rw [Nat.max_eq_right (by omega), Nat.max_eq_right (by omega)]

/-- The bytes of the list: letters, hyphens, spaces, and colons. -/
def IsNameByte (byte : UInt8) : Prop :=
  byte = COLON ∨ byte = SPACE ∨ isLower (toLower byte) = true ∨ byte = HYPHEN

theorem NameScan.isNameByte_of_read {s s' : NameScan} {byte : UInt8} (h : s.read byte = .ok s') :
    IsNameByte byte := by
  unfold NameScan.read at h
  split at h
  · rename_i hcolon
    exact .inl hcolon
  split at h
  · rename_i hspace
    exact .inr (.inl hspace)
  obtain ⟨_, -, h⟩ := bind_eq_ok.mp h
  obtain ⟨_, hlower, -⟩ := bind_eq_ok.mp h
  rcases assertOr_eq_ok.mp hlower with hlower | hhyphen
  · exact .inr (.inr (.inl hlower))
  · refine .inr (.inr (.inr ?_))
    unfold toLower at hhyphen
    split at hhyphen
    · rename_i hupper
      have hletter := congrArg UInt8.toNat hhyphen
      rw [isUpper, Bool.and_eq_true, decide_eq_true_eq, decide_eq_true_eq,
        UInt8.le_iff_toNat_le, UInt8.le_iff_toNat_le] at hupper
      rw [UInt8.toNat_add] at hletter
      have hlo : 65 ≤ byte.toNat := hupper.1
      have hhi : byte.toNat ≤ 90 := hupper.2
      have hmod : (byte.toNat + 32) % 2 ^ 8 = 45 := hletter
      omega
    · exact hhyphen

theorem isNameByte_of_signedNames (hend : sequence.index + sequence.length ≤ header.len)
    (h : signedNames header sequence = .ok ()) :
    ∀ x ∈ slice header.bytes (sequence.index + 2) (sequence.index + sequence.length),
      IsNameByte x := by
  obtain ⟨stop, hstop, h⟩ := bind_eq_ok.mp h
  obtain ⟨_, hloop, -⟩ := bind_eq_ok.mp h
  obtain rfl := Sequence.endIndex_eq_ok hstop
  obtain ⟨trace, -, -, hstep⟩ := forRange_trace hloop
  have hmax : header.len ≤ MAX_EMAIL_HEADER_LENGTH := header.length_le
  refine mem_slice_bytes fun k hlo hk => ?_
  have hread := hstep k (by omega)
  rw [if_pos ⟨hlo, hk.le⟩, if_neg hk.ne] at hread
  exact NameScan.isNameByte_of_read hread

end Names

/-! ## The shorter h tag -/

/-- The positions with an h tag of another length. -/
def DkimTags.shorten (tags : DkimTags) (len : Nat) : DkimTags :=
  { tags with signedHeaders := ⟨tags.signedHeaders.index, len⟩ }

theorem DkimTags.sameStarts_shorten (tags : DkimTags) (len : Nat) :
    SameStarts tags.selected (tags.shorten len).selected := by
  intro kind hkind
  match kind, hkind with
  | 0, _ | 1, _ | 2, _ | 3, _ | 4, _ | 5, _ => rfl

/-- **An accepted header is accepted without the spaces at the end of its h tag.** -/
theorem Checked.shorten {constrainHeaderField : ConstrainHeaderField} {header : Header}
    {subject fromSequence dkim : Sequence} {tags : DkimTags} {out : Outputs} {len : Nat}
    (h : Checked constrainHeaderField header subject fromSequence dkim tags out) (htwo : 2 ≤ len)
    (hle : len ≤ tags.signedHeaders.length)
    (hspaces : ∀ j, tags.signedHeaders.index + len ≤ j →
      j < tags.signedHeaders.index + tags.signedHeaders.length → header.bytes[j]? = some SPACE) :
    Checked constrainHeaderField header subject fromSequence dkim (tags.shorten len) out := by
  have hsigned : tagBounds header dkim tags.signedHeaders = .ok () := h.bounds 3 (by decide)
  obtain ⟨-, hend, -⟩ := tagBounds_eq_ok hsigned
  obtain ⟨s, hscan, hrest⟩ := h.scan
  exact {
    h with
    scan := by
      refine ⟨s, ?_, hrest⟩
      simp only [← scanByte_congr (tags.sameStarts_shorten len)]
      exact hscan
    bounds := fun kind hkind => by
      match kind, hkind with
      | 0, hkind | 1, hkind | 2, hkind | 4, hkind | 5, hkind => exact h.bounds _ hkind
      | 3, _ => exact tagBounds_shorten htwo hle hspaces hsigned
    signedNames := signedNames_shorten h.header_len.2 htwo hle hend hspaces h.signedNames }

end ZkPoR.Circuit.Email
