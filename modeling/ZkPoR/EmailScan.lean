import ZkPoR.EmailReading

/-! # What the scan of a header has checked

The scan is read as the list of its states (`Scanned`).  A field name is followed
from the start of its line to its colon, where the scan compares the position that
the prover chose (`Scanned.index_of_name`).  A tag name is followed from the spaces
before it to its equals sign (`Scanned.tag`), and a count of one leaves a tag at the
chosen position (`Scanned.exists_tag`).
-/
namespace ZkPoR.Circuit
open ByteString BoundedLoop Splitting

namespace BoundedVec
variable {max : Nat} {header : BoundedVec max} {index : Nat} {x : UInt8}

theorem getElem?_bytes (h : index < header.len) :
    header.bytes[index]? = some (header.getUnchecked index) := by
  rw [getUnchecked, List.getD_eq_getElem?_getD, List.getElem?_eq_getElem h, Option.getD_some]

theorem getUnchecked_eq (h : header.bytes[index]? = some x) : header.getUnchecked index = x := by
  rw [getUnchecked, List.getD_eq_getElem?_getD, h, Option.getD_some]

theorem lt_len (h : header.bytes[index]? = some x) : index < header.len :=
  (List.getElem?_eq_some_iff.mp h).1

end BoundedVec

namespace Email

/-! ## Bytes -/

theorem isLower_ne {byte other : UInt8} (h : isLower byte = true)
    (hother : isLower other = false) : byte ≠ other := by
  rintro rfl
  rw [h] at hother
  cases hother

/-- A token is the number that a name of at most seven bytes spells. -/
theorem frOfNat_beNat_concat (name : Bytes) (byte : UInt8) :
    frOfNat (beNat name) * 256 + byteFr byte = frOfNat (beNat (name ++ [byte])) := by
  rw [beNat_concat]
  apply Fin.ext
  simp only [frOfNat, byteFr, Fin.val_add, Fin.val_mul]
  rw [show ((256 : Fr) : Nat) = 256 % frModulus from rfl, ← Nat.mul_mod, ← Nat.add_mod]

/-! ## The fields -/

section Field
variable {s s' : FieldScan} {subject fromSequence dkim : Sequence} {byte : UInt8}

/-- One more byte of a field name. -/
theorem FieldScan.read_name (h : s.read subject fromSequence dkim byte = .ok s')
    (hname : s.fieldName = true) (hcr : byte ≠ CR) (hlf : byte ≠ LF) (hcolon : byte ≠ COLON) :
    s'.fieldName = true ∧ s'.fieldStart = s.fieldStart ∧
      s'.fieldNameLength = s.fieldNameLength + 1 ∧
      s'.fieldNameValue = if s.fieldNameLength + 1 ≤ SUBJECT_NAME_LENGTH then
        s.fieldNameValue * 256 + byteFr byte else 0 := by
  rw [FieldScan.read, if_pos ⟨hcr, hlf⟩, if_pos hname, if_neg hcolon] at h
  obtain ⟨_, -, h⟩ := bind_eq_ok.mp h
  obtain ⟨_, -, h⟩ := bind_eq_ok.mp h
  obtain rfl := Except.ok.inj h
  exact ⟨hname, rfl, rfl, rfl⟩

/-- The colon after a field name. -/
theorem FieldScan.read_colon (h : s.read subject fromSequence dkim COLON = .ok s')
    (hname : s.fieldName = true) (hstart : s.fieldStart < dkim.index) :
    (s.fieldNameValue = FROM_TOKEN → fromSequence.index = s.fieldStart) ∧
      (s.fieldNameValue = SUBJECT_TOKEN → subject.index = s.fieldStart) := by
  rw [FieldScan.read, if_pos (by decide), if_pos hname, if_pos rfl] at h
  obtain ⟨_, -, h⟩ := bind_eq_ok.mp h
  obtain ⟨counted, hcount, -⟩ := bind_eq_ok.mp h
  rw [FieldScan.countField, if_pos hstart] at hcount
  obtain ⟨mid, hfrom, hsubject⟩ := bind_eq_ok.mp hcount
  have hmid : (s.fieldNameValue = FROM_TOKEN → fromSequence.index = s.fieldStart) ∧
      mid.fieldNameValue = s.fieldNameValue ∧ mid.fieldStart = s.fieldStart := by
    rw [FieldScan.countFrom] at hfrom
    split at hfrom
    · obtain ⟨_, hindex, hfrom⟩ := bind_eq_ok.mp hfrom
      obtain rfl := Except.ok.inj hfrom
      exact ⟨fun _ => assertOr_eq_ok.mp hindex, rfl, rfl⟩
    · rename_i hne
      obtain rfl := Except.ok.inj hfrom
      exact ⟨fun heq => absurd heq hne, rfl, rfl⟩
  obtain ⟨hfrom, hvalue, hstart⟩ := hmid
  refine ⟨hfrom, fun heq => ?_⟩
  rw [FieldScan.countSubject, if_pos (hvalue.trans heq)] at hsubject
  obtain ⟨_, hindex, -⟩ := bind_eq_ok.mp hsubject
  rw [← hstart]
  exact assertOr_eq_ok.mp hindex

end Field

/-! ## The tags -/

section Tag
variable {s s' : TagScan} {selected : Vector Sequence TAG_KINDS} {byte next : UInt8}
  {index : Nat} {counts counts' : Vector Nat TAG_KINDS}

/-- The byte starts the name of one required tag. -/
def StartsTag (byte next : UInt8) (kind : Nat) : Prop := byte = entry 0 names kind ∧ next = EQUALS

instance (byte next : UInt8) (kind : Nat) : Decidable (StartsTag byte next kind) :=
  inferInstanceAs (Decidable (_ ∧ _))

theorem countTags_eq_ok (h : countTags selected byte next index counts = .ok counts') (kind : Nat)
    (hkind : kind < TAG_KINDS) :
    entry 0 counts' kind = entry 0 counts kind + (if StartsTag byte next kind then 1 else 0) ∧
      (StartsTag byte next kind → selected[kind].index = index) := by
  -- the loop has counted the kinds below its index, each at most once
  have hall := forRange_invariant (n := TAG_KINDS) (P := fun k (c : Vector Nat TAG_KINDS) =>
      ∀ kind (_ : kind < TAG_KINDS),
        entry 0 c kind = entry 0 counts kind +
            (if kind < k ∧ StartsTag byte next kind then 1 else 0) ∧
          (kind < k → StartsTag byte next kind → selected[kind].index = index))
    (fun kind _ => ⟨by simp, fun hlt => absurd hlt (Nat.not_lt_zero _)⟩)
    (fun k hk c c' ih hbody kind hkind => ?_) h kind hkind
  · simpa [hkind] using hall
  · obtain ⟨hcount, hselected⟩ := ih kind hkind
    have hstarts : StartsTag byte next k ↔ byte = names[k] ∧ next = EQUALS := by
      rw [StartsTag, entry_of_lt hk]
    have hother : kind ≠ k →
        ((kind < k + 1 ∧ StartsTag byte next kind) ↔ (kind < k ∧ StartsTag byte next kind)) :=
      fun hne => and_congr_left fun _ => by omega
    split at hbody
    · rename_i hhit
      obtain ⟨_, hindex, hbody⟩ := bind_eq_ok.mp hbody
      obtain rfl := Except.ok.inj hbody
      have hindex := assertOr_eq_ok.mp hindex
      rw [entry_set]
      by_cases hkk : kind = k
      · subst hkk
        rw [if_pos rfl, if_pos ⟨Nat.lt_succ_self _, hstarts.mpr hhit⟩, ← entry_of_lt hkind, hcount,
          if_neg (by omega)]
        exact ⟨rfl, fun _ _ => hindex⟩
      · rw [if_neg hkk, hcount, if_congr (hother hkk) rfl rfl]
        exact ⟨rfl, fun hlt => hselected (by omega)⟩
    · rename_i hmiss
      obtain rfl := Except.ok.inj hbody
      by_cases hkk : kind = k
      · subst hkk
        rw [hcount, if_neg (by omega), if_neg fun hhit => hmiss (hstarts.mp hhit.2)]
        exact ⟨rfl, fun _ hhit => absurd (hstarts.mp hhit) hmiss⟩
      · rw [hcount, if_congr (hother hkk) rfl rfl]
        exact ⟨rfl, fun hlt => hselected (by omega)⟩

/-- The byte is read as the first of a tag. -/
def TagScan.Begins (s : TagScan) (byte : UInt8) : Prop := s.tagStart = true ∧ byte ≠ SPACE

instance (s : TagScan) (byte : UInt8) : Decidable (s.Begins byte) :=
  inferInstanceAs (Decidable (_ ∧ _))

theorem TagScan.begin_eq_ok (h : s.begin selected byte next index = .ok s') :
    (s.Begins byte → isLower byte = true ∧ s'.tagName = true ∧ s'.tagStart = false ∧
      ∀ kind (hkind : kind < TAG_KINDS), StartsTag byte next kind → selected[kind].index = index) ∧
    (¬ s.Begins byte → s' = s) ∧
    (∀ kind < TAG_KINDS, entry 0 s'.counts kind = entry 0 s.counts kind +
      if s.Begins byte ∧ StartsTag byte next kind then 1 else 0) := by
  rw [TagScan.begin] at h
  split at h
  · rename_i hbegins
    have hbegins : s.Begins byte := hbegins
    obtain ⟨_, hlower, h⟩ := bind_eq_ok.mp h
    obtain ⟨counts, hcounts, h⟩ := bind_eq_ok.mp h
    obtain rfl := Except.ok.inj h
    refine ⟨fun _ => ⟨assertOr_eq_ok.mp hlower, rfl, rfl, fun kind hkind =>
      (countTags_eq_ok hcounts kind hkind).2⟩, fun hnot => absurd hbegins hnot, fun kind hkind => ?_⟩
    simp only [hbegins, true_and]
    exact (countTags_eq_ok hcounts kind hkind).1
  · rename_i hnot
    obtain rfl := Except.ok.inj h
    have hnot : ¬ s.Begins byte := hnot
    exact ⟨fun hbegins => absurd hbegins hnot, fun _ => rfl, fun kind _ => by simp [hnot]⟩

theorem TagScan.readName_eq_ok (h : s.readName byte = .ok s') :
    s'.tagStart = s.tagStart ∧ s'.counts = s.counts ∧
      (s.tagName = true → byte = EQUALS ∨ isLower byte = true ∧ s'.tagName = true) ∧
      (s.tagName = true → byte ≠ EQUALS → s'.tagName = true) := by
  rw [TagScan.readName] at h
  split at h
  · rename_i hname
    split at h
    · rename_i hequals
      obtain rfl := Except.ok.inj h
      exact ⟨rfl, rfl, fun _ => .inl hequals, fun _ hne => absurd hequals hne⟩
    · obtain ⟨_, hlower, h⟩ := bind_eq_ok.mp h
      obtain rfl := Except.ok.inj h
      exact ⟨rfl, rfl, fun _ => .inr ⟨assertOr_eq_ok.mp hlower, hname⟩, fun _ _ => hname⟩
  · rename_i hname
    obtain rfl := Except.ok.inj h
    exact ⟨rfl, rfl, fun htrue => absurd htrue hname, fun htrue => absurd htrue hname⟩

/-- **What one byte does to the tags.** -/
theorem TagScan.read_eq_ok (h : s.read selected byte next index = .ok s') :
    (s.Begins byte → isLower byte = true ∧ s'.tagName = true ∧
      ∀ kind (hkind : kind < TAG_KINDS), StartsTag byte next kind → selected[kind].index = index) ∧
    (s.tagName = true → byte = EQUALS ∨ isLower byte = true ∧ s'.tagName = true) ∧
    (s'.tagStart = true ↔ byte = SEMICOLON ∨ s.tagStart = true ∧ byte = SPACE) ∧
    (∀ kind < TAG_KINDS, entry 0 s'.counts kind = entry 0 s.counts kind +
      if s.Begins byte ∧ StartsTag byte next kind then 1 else 0) := by
  rw [TagScan.read] at h
  obtain ⟨begun, hbegin, h⟩ := bind_eq_ok.mp h
  obtain ⟨named, hname, h⟩ := bind_eq_ok.mp h
  obtain rfl := Except.ok.inj h
  obtain ⟨hbegins, hkept, hcounts⟩ := TagScan.begin_eq_ok hbegin
  obtain ⟨hstart, hsame, hread, hnamed⟩ := TagScan.readName_eq_ok hname
  have hlast : ∀ t : TagScan, (if byte = SEMICOLON then { t with tagStart := true } else t).tagName
      = t.tagName := fun t => by split <;> rfl
  have hcount : ∀ t : TagScan, (if byte = SEMICOLON then { t with tagStart := true } else t).counts
      = t.counts := fun t => by split <;> rfl
  rw [hlast, hcount]
  have hfirst : s.Begins byte → isLower byte = true ∧ named.tagName = true := fun hb => by
    obtain ⟨hlower, htag, -⟩ := hbegins hb
    exact ⟨hlower, hnamed htag (isLower_ne hlower (by decide))⟩
  refine ⟨fun hb => ⟨(hfirst hb).1, (hfirst hb).2, (hbegins hb).2.2.2⟩, fun htag => ?_, ?_,
    fun kind hkind => ?_⟩
  -- inside of a name the byte is checked; at its begin it is the first letter
  · by_cases hb : s.Begins byte
    · exact .inr (hfirst hb)
    · rw [hkept hb] at hread
      exact hread htag
  · by_cases hsemi : byte = SEMICOLON
    · simp [hsemi]
    · rw [if_neg hsemi, hstart]
      by_cases hb : s.Begins byte
      · rw [(hbegins hb).2.2.1]
        simp [hsemi, hb.2]
      · rw [hkept hb]
        simp only [hsemi, false_or]
        refine ⟨fun htrue => ⟨htrue, ?_⟩, fun hboth => hboth.1⟩
        by_contra hspace
        exact hb ⟨htrue, hspace⟩
  · rw [hsame]
    exact hcounts kind hkind

end Tag

/-! ## The states of the scan -/

section Scan
variable {header : Header} {subject fromSequence dkim : Sequence}
  {selected : Vector Sequence TAG_KINDS} {trace : Nat → FieldScan × TagScan}

/-- Where the value of the DKIM field starts. -/
def Sequence.tagBase (dkim : Sequence) : Nat := dkim.index + DKIM_NAME_LENGTH + 1

theorem scanByte_eq_ok {i : Nat} {s s' : FieldScan × TagScan} (hi : i < header.len)
    (h : scanByte header subject fromSequence dkim selected i s = .ok s') :
    checkLineEnd header s.1 (header.getUnchecked i) (nextByte header i) i = .ok () ∧
      (s.1.enter header i).read subject fromSequence dkim (header.getUnchecked i) = .ok s'.1 ∧
      (Sequence.tagBase dkim ≤ i →
        s.2.read selected (header.getUnchecked i) (nextByte header i) i = .ok s'.2) ∧
      (i < Sequence.tagBase dkim → s'.2 = s.2) := by
  rw [scanByte, if_pos hi] at h
  obtain ⟨_, hline, h⟩ := bind_eq_ok.mp h
  obtain ⟨field, hfield, h⟩ := bind_eq_ok.mp h
  split at h
  · rename_i hbase
    obtain ⟨tag, htag, h⟩ := bind_eq_ok.mp h
    obtain rfl := Except.ok.inj h
    exact ⟨hline, hfield, fun _ => htag, fun hlt => absurd hbase (Nat.not_le_of_lt hlt)⟩
  · rename_i hbase
    obtain rfl := Except.ok.inj h
    exact ⟨hline, hfield, fun hle => absurd hle hbase, fun _ => rfl⟩

/-- The states between the bytes of an accepted header. -/
structure Scanned (header : Header) (subject fromSequence dkim : Sequence)
    (selected : Vector Sequence TAG_KINDS) (trace : Nat → FieldScan × TagScan) : Prop where
  zero : trace 0 = (FieldScan.init, TagScan.init)
  step : ∀ i, i < header.len →
    scanByte header subject fromSequence dkim selected i (trace i) = .ok (trace (i + 1))

theorem exists_scanned {out : FieldScan × TagScan}
    (h : forRange MAX_EMAIL_HEADER_LENGTH (FieldScan.init, TagScan.init)
      (fun index _ s => scanByte header subject fromSequence dkim selected index s) = .ok out) :
    ∃ trace, Scanned header subject fromSequence dkim selected trace ∧ trace header.len = out := by
  obtain ⟨trace, hzero, hlast, hstep⟩ := forRange_trace h
  have hlen : header.len ≤ MAX_EMAIL_HEADER_LENGTH := header.length_le
  refine ⟨trace, ⟨hzero, fun i hi => hstep i (by omega)⟩, ?_⟩
  rw [← hlast]
  -- The iterations past the end of the header keep the state.
  suffices hkept : ∀ d, header.len + d ≤ MAX_EMAIL_HEADER_LENGTH →
      trace header.len = trace (header.len + d) by
    have := hkept (MAX_EMAIL_HEADER_LENGTH - header.len) (by omega)
    rwa [show header.len + (MAX_EMAIL_HEADER_LENGTH - header.len) = MAX_EMAIL_HEADER_LENGTH
      by omega] at this
  intro d
  induction d with
  | zero => exact fun _ => rfl
  | succ d ih =>
    intro hd
    have hnext := hstep (header.len + d) (by omega)
    rw [scanByte, if_neg (by omega)] at hnext
    rw [ih (by omega), Except.ok.inj hnext, Nat.add_assoc]

theorem nextByte_eq_iff {header : Header} {i : Nat} {byte : UInt8} (hbyte : byte ≠ 0) :
    nextByte header i = byte ↔ header.bytes[i + 1]? = some byte := by
  constructor
  · intro h
    unfold nextByte at h
    split at h
    · rename_i hlt
      rw [BoundedVec.getElem?_bytes hlt, h]
    · exact absurd h.symm hbyte
  · intro h
    rw [nextByte, if_pos (BoundedVec.lt_len h), BoundedVec.getUnchecked_eq h]

/-- No line starts behind a byte that is no line feed. -/
theorem lineStart_eq_false {header : Header} {i : Nat} {x : UInt8} (h : header.bytes[i]? = some x)
    (hx : x ≠ LF) : lineStart header (i + 1) = false := by
  rw [lineStart, if_neg (Nat.succ_ne_zero i), Nat.add_sub_cancel, BoundedVec.getUnchecked_eq h]
  split
  · simp [hx]
  · rfl

/-- A line starts where the separator puts it. -/
theorem lineStart_of_pieceAt {header : Header} {before line after : Bytes}
    (hat : PieceAt [CR, LF] header.bytes before line after) :
    lineStart header before.length = true := by
  rcases hat.opens with rfl | ⟨rest, rfl⟩
  · rfl
  · have hcr : header.bytes[rest.length]? = some CR := by rw [hat.eq]; simp
    have hlf : header.bytes[rest.length + 1]? = some LF := by rw [hat.eq]; simp
    rw [lineStart, if_neg (by simp), if_pos (by simp), List.length_append]
    rw [show rest.length + [CR, LF].length - 2 = rest.length from rfl,
      show rest.length + [CR, LF].length - 1 = rest.length + 1 from rfl,
      BoundedVec.getUnchecked_eq hcr, BoundedVec.getUnchecked_eq hlf]
    rfl

/-- Only spaces stand between the position and the start of a tag, which is the start
of the value or the position after a semicolon. -/
def AfterSpaces (header : Header) (base i : Nat) : Prop :=
  ∃ start, base ≤ start ∧ start ≤ i ∧
    (start = base ∨ header.bytes[start - 1]? = some SEMICOLON) ∧
    ∀ j, start ≤ j → j < i → header.bytes[j]? = some SPACE

namespace Scanned

/-! ### Line endings -/

theorem cr (h : Scanned header subject fromSequence dkim selected trace) {i : Nat}
    (hi : header.bytes[i]? = some CR) : header.bytes[i + 1]? = some LF := by
  have hlt := BoundedVec.lt_len hi
  obtain ⟨hline, -⟩ := scanByte_eq_ok hlt (h.step i hlt)
  obtain ⟨_, -, hline⟩ := bind_eq_ok.mp hline
  obtain ⟨_, hnext, -⟩ := bind_eq_ok.mp hline
  exact (nextByte_eq_iff (by decide)).mp (assertOr_eq_ok.mp hnext (BoundedVec.getUnchecked_eq hi))

theorem lf (h : Scanned header subject fromSequence dkim selected trace) {i : Nat}
    (hi : header.bytes[i]? = some LF) : ∃ j, i = j + 1 ∧ header.bytes[j]? = some CR := by
  have hlt := BoundedVec.lt_len hi
  obtain ⟨hline, -⟩ := scanByte_eq_ok hlt (h.step i hlt)
  obtain ⟨_, hprevious, -⟩ := bind_eq_ok.mp hline
  have hprevious := assertOr_eq_ok.mp hprevious (BoundedVec.getUnchecked_eq hi)
  split at hprevious
  · refine ⟨i - 1, by omega, ?_⟩
    rw [BoundedVec.getElem?_bytes (by omega), hprevious]
  · exact absurd hprevious (by decide)

/-! ### Field names -/

/-- A field name is read from the start of its line. -/
theorem name_read (h : Scanned header subject fromSequence dkim selected trace) {name : Bytes}
    {start : Nat} (hcr : CR ∉ name) (hlf : LF ∉ name) (hcolon : COLON ∉ name)
    (hlen : name.length ≤ SUBJECT_NAME_LENGTH) (hstart : lineStart header start = true)
    (hbytes : ∀ k < name.length, header.bytes[start + k]? = name[k]?) (k : Nat)
    (hk : k ≤ name.length) :
    ((trace (start + k)).1.enter header (start + k)).fieldName = true ∧
      ((trace (start + k)).1.enter header (start + k)).fieldStart = start ∧
      ((trace (start + k)).1.enter header (start + k)).fieldNameLength = k ∧
      ((trace (start + k)).1.enter header (start + k)).fieldNameValue =
        frOfNat (beNat (name.take k)) := by
  induction k with
  | zero =>
    rw [Nat.add_zero, FieldScan.enter, if_pos hstart]
    exact ⟨rfl, rfl, rfl, rfl⟩
  | succ k ih =>
    obtain ⟨hfield, hfrom, hlength, hvalue⟩ := ih (by omega)
    have hbyte := (hbytes k (by omega)).trans (List.getElem?_eq_getElem hk)
    have hmem : name[k] ∈ name := List.getElem_mem hk
    have hne : name[k] ≠ LF := ne_of_mem_of_not_mem hmem hlf
    obtain ⟨-, hread, -⟩ := scanByte_eq_ok (BoundedVec.lt_len hbyte)
      (h.step _ (BoundedVec.lt_len hbyte))
    rw [BoundedVec.getUnchecked_eq hbyte] at hread
    obtain ⟨hfield', hfrom', hlength', hvalue'⟩ := FieldScan.read_name hread hfield
      (ne_of_mem_of_not_mem hmem hcr) hne (ne_of_mem_of_not_mem hmem hcolon)
    rw [FieldScan.enter, ← Nat.add_assoc, if_neg (by simp [lineStart_eq_false hbyte hne])]
    refine ⟨hfield', hfrom'.trans hfrom, hlength'.trans (by rw [hlength]), ?_⟩
    have hshort : k + 1 ≤ SUBJECT_NAME_LENGTH := hk.trans hlen
    rw [hvalue', hlength, if_pos hshort, hvalue, frOfNat_beNat_concat,
      List.take_succ_eq_append_getElem]

/-- **A line with the name of a From or a Subject is the line that the prover chose.** -/
theorem index_of_name (h : Scanned header subject fromSequence dkim selected trace)
    {name before line after : Bytes} (hcr : CR ∉ name) (hlf : LF ∉ name) (hcolon : COLON ∉ name)
    (hlen : name.length ≤ SUBJECT_NAME_LENGTH)
    (hat : PieceAt [CR, LF] header.bytes before line after) (hline : namesField name line = true)
    (hbefore : before.length < dkim.index) :
    (frOfNat (beNat name) = FROM_TOKEN → fromSequence.index = before.length) ∧
      (frOfNat (beNat name) = SUBJECT_TOKEN → subject.index = before.length) := by
  obtain ⟨value, rfl⟩ := namesField_iff.mp hline
  have hbytes : ∀ k, header.bytes[before.length + k]? = (name ++ [COLON] ++ value ++ after)[k]? :=
    fun k => by
      rw [hat.eq, List.append_assoc before, List.getElem?_append_right (by omega),
        Nat.add_sub_cancel_left]
  have hstart := lineStart_of_pieceAt hat
  have hpre : ∀ k < name.length, header.bytes[before.length + k]? = name[k]? := fun k hk => by
    rw [hbytes, List.append_assoc, List.append_assoc, List.getElem?_append_left hk]
  have hend : header.bytes[before.length + name.length]? = some COLON := by
    rw [hbytes]
    simp
  obtain ⟨hfield, hfrom, -, hvalue⟩ := h.name_read hcr hlf hcolon hlen hstart hpre name.length le_rfl
  obtain ⟨-, hread, -⟩ := scanByte_eq_ok (BoundedVec.lt_len hend)
    (h.step _ (BoundedVec.lt_len hend))
  rw [BoundedVec.getUnchecked_eq hend] at hread
  have hcounted := FieldScan.read_colon hread hfield (by rwa [hfrom])
  rwa [hvalue, List.take_length, hfrom] at hcounted

/-! ### Tags -/

/-- Before the value of the DKIM field, no byte belongs to a tag. -/
theorem tag_eq_init (h : Scanned header subject fromSequence dkim selected trace) {i : Nat}
    (hi : i ≤ header.len) (hbase : i ≤ Sequence.tagBase dkim) : (trace i).2 = TagScan.init := by
  induction i with
  | zero => rw [h.zero]
  | succ i ih =>
    rw [(scanByte_eq_ok (by omega) (h.step i (by omega))).2.2.2 (by omega)]
    exact ih (by omega) (by omega)

theorem tagStart_iff (h : Scanned header subject fromSequence dkim selected trace) {i : Nat}
    (hbase : Sequence.tagBase dkim ≤ i) (hi : i ≤ header.len) :
    (trace i).2.tagStart = true ↔ AfterSpaces header (Sequence.tagBase dkim) i := by
  induction i, hbase using Nat.le_induction with
  | base =>
    rw [h.tag_eq_init hi le_rfl]
    exact ⟨fun _ => ⟨_, le_rfl, le_rfl, .inl rfl, fun j hj hlt => absurd hlt (by omega)⟩,
      fun _ => rfl⟩
  | succ i hbase ih =>
    have hlt : i < header.len := by omega
    obtain ⟨-, -, hstart, -⟩ :=
      TagScan.read_eq_ok ((scanByte_eq_ok hlt (h.step i hlt)).2.2.1 hbase)
    have hbyte := BoundedVec.getElem?_bytes hlt
    rw [hstart, ih (by omega)]
    constructor
    · rintro (hsemi | ⟨⟨start, hle, hstart, hopens, hspaces⟩, hspace⟩)
      · refine ⟨i + 1, by omega, le_rfl, .inr ?_, fun j hj hlt => absurd hlt (by omega)⟩
        rw [Nat.add_sub_cancel, hbyte, hsemi]
      · refine ⟨start, hle, by omega, hopens, fun j hj hji => ?_⟩
        rcases Nat.lt_or_eq_of_le (Nat.le_of_lt_succ hji) with hji | rfl
        · exact hspaces j hj hji
        · rw [hbyte, hspace]
    · rintro ⟨start, hle, hstart, hopens, hspaces⟩
      rcases Nat.lt_or_eq_of_le hstart with hstart | rfl
      · have hspace := hspaces i (by omega) (by omega)
        exact .inr ⟨⟨start, hle, by omega, hopens, fun j hj hji => hspaces j hj (by omega)⟩,
          BoundedVec.getUnchecked_eq hspace⟩
      · left
        have hsemi := hopens.resolve_left (by omega)
        rw [Nat.add_sub_cancel] at hsemi
        exact BoundedVec.getUnchecked_eq hsemi

/-- A name that is being read ends at an equals sign. -/
theorem exists_equals (h : Scanned header subject fromSequence dkim selected trace)
    (hfinal : (trace header.len).2.tagName = false) (d : Nat) {i : Nat} (hd : i + d = header.len)
    (hbase : Sequence.tagBase dkim ≤ i) (hname : (trace i).2.tagName = true) :
    ∃ stop, i ≤ stop ∧ stop < header.len ∧ header.bytes[stop]? = some EQUALS ∧
      ∀ j, i ≤ j → j < stop → isLower (header.getUnchecked j) = true := by
  induction d generalizing i with
  | zero =>
    rw [Nat.add_zero] at hd
    rw [hd, hfinal] at hname
    cases hname
  | succ d ih =>
    have hlt : i < header.len := by omega
    obtain ⟨-, hread, -⟩ := TagScan.read_eq_ok ((scanByte_eq_ok hlt (h.step i hlt)).2.2.1 hbase)
    rcases hread hname with hequals | ⟨hlower, hname⟩
    · refine ⟨i, le_rfl, hlt, ?_, fun j hj hji => absurd hji (by omega)⟩
      rw [BoundedVec.getElem?_bytes hlt, hequals]
    · obtain ⟨stop, hle, hstop, hequals, hlowers⟩ := ih (by omega) (by omega) hname
      refine ⟨stop, by omega, hstop, hequals, fun j hj hjs => ?_⟩
      rcases Nat.lt_or_eq_of_le hj with hj | rfl
      · exact hlowers j hj hjs
      · exact hlower

/-- **A tag is a name in lower case and an equals sign, and a required tag stands
where the prover chose.** -/
theorem tag (h : Scanned header subject fromSequence dkim selected trace)
    (hfinal : (trace header.len).2.tagName = false) {i : Nat} (hi : i < header.len)
    (hafter : AfterSpaces header (Sequence.tagBase dkim) i)
    (hspace : header.bytes[i]? ≠ some SPACE) :
    (∃ stop, i < stop ∧ stop < header.len ∧ header.bytes[stop]? = some EQUALS ∧
      ∀ j, i ≤ j → j < stop → isLower (header.getUnchecked j) = true) ∧
    ∀ kind (hkind : kind < TAG_KINDS),
      StartsTag (header.getUnchecked i) (nextByte header i) kind → selected[kind].index = i := by
  have hbase : Sequence.tagBase dkim ≤ i := by
    obtain ⟨start, hle, hstart, -⟩ := hafter
    omega
  obtain ⟨hbegins, -⟩ := TagScan.read_eq_ok ((scanByte_eq_ok hi (h.step i hi)).2.2.1 hbase)
  rw [BoundedVec.getElem?_bytes hi] at hspace
  obtain ⟨hlower, hname, hselected⟩ :=
    hbegins ⟨(h.tagStart_iff hbase (by omega)).mpr hafter, fun heq => hspace (by rw [heq])⟩
  refine ⟨?_, hselected⟩
  obtain ⟨stop, hle, hstop, hequals, hlowers⟩ :=
    h.exists_equals hfinal (header.len - (i + 1)) (by omega) (by omega) hname
  refine ⟨stop, by omega, hstop, hequals, fun j hj hjs => ?_⟩
  rcases Nat.lt_or_eq_of_le hj with hj | rfl
  · exact hlowers j (by omega) hjs
  · exact hlower

/-- A count that is not zero has counted a tag. -/
theorem exists_of_count (h : Scanned header subject fromSequence dkim selected trace) {kind i : Nat}
    (hkind : kind < TAG_KINDS) (hi : i ≤ header.len)
    (hcount : entry 0 (trace i).2.counts kind ≠ 0) :
    ∃ j, Sequence.tagBase dkim ≤ j ∧ j < header.len ∧
      AfterSpaces header (Sequence.tagBase dkim) j ∧ header.bytes[j]? ≠ some SPACE ∧
      StartsTag (header.getUnchecked j) (nextByte header j) kind := by
  induction i with
  | zero =>
    rw [h.zero] at hcount
    exact absurd (by rw [TagScan.init, entry_of_lt hkind, Vector.getElem_replicate]) hcount
  | succ i ih =>
    have hlt : i < header.len := by omega
    obtain ⟨-, -, htag, hbefore⟩ := scanByte_eq_ok hlt (h.step i hlt)
    rcases Nat.lt_or_ge i (Sequence.tagBase dkim) with hbase | hbase
    · rw [hbefore hbase] at hcount
      exact ih (by omega) hcount
    · obtain ⟨-, -, -, hcounts⟩ := TagScan.read_eq_ok (htag hbase)
      rw [hcounts kind hkind] at hcount
      split at hcount
      · rename_i hhit
        refine ⟨i, hbase, hlt, (h.tagStart_iff hbase (by omega)).mp hhit.1.1, ?_, hhit.2⟩
        rw [BoundedVec.getElem?_bytes hlt]
        exact fun heq => hhit.1.2 (Option.some.inj heq)
      · exact ih (by omega) hcount

end Scanned
end Scan

end Email
end ZkPoR.Circuit
