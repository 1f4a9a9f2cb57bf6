import ZkPoR.EmailBinding

/-! # The relaxed form of an accepted header

The scan keeps what it has read of the line it is in (`LineRead`), so a line that a CR
ends is a field in relaxed form.  The check of a CR looks at the state before the line
is entered.  In front of an empty line that is the state of the line before it, so
one empty line between two fields passes (`not_relaxed_emptyLine`), and nothing
else does: `relaxed_iff`.
-/
namespace ZkPoR.Circuit.Email
open ByteString BoundedLoop Splitting

/-! ## Fields -/

/-- The name of a field. -/
structure IsFieldName (name : Bytes) : Prop where
  nonempty : name ≠ []
  length_le : name.length ≤ MAX_HEADER_NAME_LENGTH
  forall_mem : ∀ x ∈ name, isLower x ∨ isDigit x ∨ x = HYPHEN

/-- A value without a tab, and with single spaces inside only. -/
structure IsRelaxedValue (value : Bytes) : Prop where
  tab : TAB ∉ value
  head : value.head? ≠ some SPACE
  last : value.getLast? ≠ some SPACE
  single : ¬ [SPACE, SPACE] <:+: value

/-- A field in relaxed form, on one line. -/
def IsField (line : Bytes) : Prop :=
  ∃ name value, line = name ++ COLON :: value ∧ IsFieldName name ∧ IsRelaxedValue value ∧
    CR ∉ value ∧ LF ∉ value

/-- A list of fields in relaxed form, the DKIM field last, and no line ending behind it. -/
structure IsRelaxed (header : Bytes) : Prop where
  fields : ∀ line ∈ crlfLines header, IsField line
  dkim : ∃ value, (crlfLines header).getLast? = some (DKIM_NAME ++ [COLON] ++ value)
  ends : ¬ [CR, LF] <:+ header

theorem IsField.ne_nil {line : Bytes} (h : IsField line) : line ≠ [] := by
  obtain ⟨name, value, rfl, -⟩ := h
  exact List.append_ne_nil_of_right_ne_nil _ (List.cons_ne_nil _ _)

/-! ## What the scan keeps of a line -/

/-- What the scan has read of the line that it is in. -/
inductive LineRead (s : FieldScan) (text : Bytes) : Prop
  | name (hfield : s.fieldName = true) (hlength : s.fieldNameLength = text.length)
      (hspace : s.previousSpace = false) (hle : text.length ≤ MAX_HEADER_NAME_LENGTH)
      (hmem : ∀ x ∈ text, isLower x ∨ isDigit x ∨ x = HYPHEN)
  | value {name value : Bytes} (hfield : s.fieldName = false) (htext : text = name ++ COLON :: value)
      (hname : IsFieldName name) (htab : TAB ∉ value) (hhead : value.head? ≠ some SPACE)
      (hsingle : ¬ [SPACE, SPACE] <:+: value) (hstart : s.valueStart = true ↔ value = [])
      (hspace : s.previousSpace = true ↔ value.getLast? = some SPACE)

section Read
variable {s s' : FieldScan} {subject fromSequence dkim : Sequence} {text : Bytes} {byte : UInt8}

/-- The counts say nothing of the line. -/
theorem FieldScan.countField_previousSpace
    (h : s.countField subject fromSequence dkim = .ok s') : s'.previousSpace = s.previousSpace := by
  have hfrom : ∀ {s s' : FieldScan}, s.countFrom fromSequence = .ok s' →
      s'.previousSpace = s.previousSpace := by
    intro s s' h
    rw [FieldScan.countFrom] at h
    split at h
    · obtain ⟨_, -, h⟩ := bind_eq_ok.mp h
      rw [← Except.ok.inj h]
    · rw [← Except.ok.inj h]
  have hsubject : ∀ {s s' : FieldScan}, s.countSubject subject = .ok s' →
      s'.previousSpace = s.previousSpace := by
    intro s s' h
    rw [FieldScan.countSubject] at h
    split at h
    · obtain ⟨_, -, h⟩ := bind_eq_ok.mp h
      rw [← Except.ok.inj h]
    · rw [← Except.ok.inj h]
  rw [FieldScan.countField] at h
  split at h
  · obtain ⟨mid, hmid, h⟩ := bind_eq_ok.mp h
    exact (hsubject h).trans (hfrom hmid)
  · rw [← Except.ok.inj h]

theorem single_concat {value : Bytes} (h : ¬ [SPACE, SPACE] <:+: value)
    (hlast : value.getLast? = some SPACE → byte ≠ SPACE) :
    ¬ [SPACE, SPACE] <:+: value ++ [byte] := by
  rw [List.infix_concat_iff]
  rintro (⟨front, heq⟩ | hinfix)
  · have hpair : (front ++ [SPACE]) ++ [SPACE] = value ++ [byte] := by
      rw [← heq]
      simp
    obtain ⟨rfl, hbyte⟩ := List.append_inj' hpair rfl
    refine hlast (by simp) ?_
    exact (List.singleton_inj.mp hbyte).symm
  · exact h hinfix

/-- **One more byte of the line.** -/
theorem LineRead.read (h : LineRead s text) (hread : s.read subject fromSequence dkim byte = .ok s')
    (hcr : byte ≠ CR) (hlf : byte ≠ LF) : LineRead s' (text ++ [byte]) := by
  rw [FieldScan.read, if_pos ⟨hcr, hlf⟩] at hread
  cases h with
  | name hfield hlength hspace hle hmem =>
    rw [if_pos hfield] at hread
    split at hread
    · -- the colon ends the name
      rename_i hcolon
      subst hcolon
      obtain ⟨_, hpos, hread⟩ := bind_eq_ok.mp hread
      obtain ⟨counted, hcount, hread⟩ := bind_eq_ok.mp hread
      obtain rfl := Except.ok.inj hread
      have hpos := assertOr_eq_ok.mp hpos
      have hname : IsFieldName text :=
        ⟨List.ne_nil_of_length_pos (hlength ▸ hpos), hle, hmem⟩
      refine .value rfl rfl hname List.not_mem_nil (by simp) (by simp) (by simp) ?_
      rw [FieldScan.countField_previousSpace hcount, hspace]
      simp
    · obtain ⟨_, hbyte, hread⟩ := bind_eq_ok.mp hread
      obtain ⟨_, hlt, hread⟩ := bind_eq_ok.mp hread
      obtain rfl := Except.ok.inj hread
      have hlt := assertOr_eq_ok.mp hlt
      refine .name hfield ?_ hspace ?_ ?_
      · rw [List.length_append, ← hlength]
        rfl
      · rw [List.length_append, ← hlength]
        exact hlt
      · rw [List.forall_mem_append, List.forall_mem_singleton]
        exact ⟨hmem, assertOr_eq_ok.mp hbyte⟩
  | @value name value hfield htext hname htab hhead hsingle hstart hspace =>
    rw [if_neg (by simp [hfield])] at hread
    obtain ⟨_, htabByte, hread⟩ := bind_eq_ok.mp hread
    obtain ⟨_, hspaces, hread⟩ := bind_eq_ok.mp hread
    obtain rfl := Except.ok.inj hread
    have htabByte := assertOr_eq_ok.mp htabByte
    have hspaces := assertOr_eq_ok.mp hspaces
    rw [hstart, hspace, not_and, not_or] at hspaces
    refine @LineRead.value _ _ name (value ++ [byte]) hfield (by rw [htext]; simp) hname ?_ ?_
      (single_concat hsingle fun hlast hbyte => (hspaces hbyte).2 hlast) (by simp) (by simp)
    · rw [List.mem_append, List.mem_singleton, not_or]
      exact ⟨htab, htabByte.symm⟩
    · cases value with
      | nil => exact fun hbyte => (hspaces (Option.some.inj hbyte)).1 rfl
      | cons x value => exact hhead

end Read

/-! ## Whole lines -/

section Lines
variable {header : Header} {subject fromSequence dkim : Sequence}
  {selected : Vector Sequence TAG_KINDS} {trace : Nat → FieldScan × TagScan} {start : Nat}
  {line text : Bytes}

theorem Scanned.line_read (h : Scanned header subject fromSequence dkim selected trace)
    (hcr : CR ∉ text) (hlf : LF ∉ text) (hstart : lineStart header start = true)
    (hbytes : ∀ k < text.length, header.bytes[start + k]? = text[k]?) (k : Nat)
    (hk : k ≤ text.length) :
    LineRead ((trace (start + k)).1.enter header (start + k)) (text.take k) := by
  induction k with
  | zero =>
    rw [Nat.add_zero, FieldScan.enter, if_pos hstart, List.take_zero]
    exact .name rfl rfl rfl (Nat.zero_le _) (List.forall_mem_nil _)
  | succ k ih =>
    have hbyte := (hbytes k hk).trans (List.getElem?_eq_getElem hk)
    have hmem : text[k] ∈ text := List.getElem_mem hk
    have hne : text[k] ≠ LF := ne_of_mem_of_not_mem hmem hlf
    obtain ⟨-, hread, -⟩ := scanByte_eq_ok (BoundedVec.lt_len hbyte)
      (h.step _ (BoundedVec.lt_len hbyte))
    rw [BoundedVec.getUnchecked_eq hbyte] at hread
    rw [FieldScan.enter, ← Nat.add_assoc, if_neg (by simp [lineStart_eq_false hbyte hne]),
      List.take_succ_eq_append_getElem hk]
    exact (ih (by omega)).read hread (ne_of_mem_of_not_mem hmem hcr) hne

/-- The state behind a line, if the line is not empty. -/
theorem Scanned.whole_line (h : Scanned header subject fromSequence dkim selected trace)
    {before after : Bytes} (hcr : CR ∉ text) (hlf : LF ∉ text) (hne : text ≠ [])
    (hat : PieceAt [CR, LF] header.bytes before text after) :
    LineRead (trace (before.length + text.length)).1 text := by
  have hbytes : ∀ k < text.length, header.bytes[before.length + k]? = text[k]? := fun k hk => by
    rw [hat.eq, List.append_assoc, List.getElem?_append_right (by omega), Nat.add_sub_cancel_left,
      List.getElem?_append_left hk]
  have hread := h.line_read hcr hlf (lineStart_of_pieceAt hat) hbytes text.length le_rfl
  obtain ⟨k, hk⟩ := Nat.exists_eq_succ_of_ne_zero (mt List.length_eq_zero_iff.mp hne)
  have hlt : k < text.length := by omega
  have hlast := (hbytes k hlt).trans (List.getElem?_eq_getElem hlt)
  have hlastLf : text[k] ≠ LF := ne_of_mem_of_not_mem (List.getElem_mem hlt) hlf
  rw [List.take_length, FieldScan.enter, hk, Nat.add_succ,
    if_neg (by simp [lineStart_eq_false hlast hlastLf])] at hread
  rwa [hk, Nat.add_succ]

/-- **A line that is read to its end is a field.** -/
theorem LineRead.isField {s : FieldScan} (h : LineRead s line) (hfield : s.fieldName = false)
    (hspace : s.previousSpace = false) (hcr : CR ∉ line) (hlf : LF ∉ line) : IsField line := by
  cases h with
  | name hname => rw [hfield] at hname; cases hname
  | @value name value _ htext hname htab hhead hsingle _ hlast =>
    have hvalue : ∀ x ∈ value, x ∈ line := fun x hx => by
      rw [htext]
      exact List.mem_append_right _ (List.mem_cons_of_mem _ hx)
    refine ⟨name, value, htext, hname, ⟨htab, hhead, fun hl => ?_, hsingle⟩,
      fun hmem => hcr (hvalue _ hmem), fun hmem => hlf (hvalue _ hmem)⟩
    rw [← hlast, hspace] at hl
    cases hl

/-- The name of the DKIM field has been read to its colon. -/
theorem LineRead.fieldName {s : FieldScan} {name : Bytes} (h : LineRead s line)
    (hname : namesField name line = true) : s.fieldName = false := by
  cases h with
  | value hfield => exact hfield
  | name _ _ _ _ hmem =>
    obtain ⟨value, rfl⟩ := namesField_iff.mp hname
    exact absurd (hmem COLON (by simp)) (by decide)

/-- A CR ends a line only when its field is read to the end. -/
theorem Scanned.at_cr (h : Scanned header subject fromSequence dkim selected trace) {i : Nat}
    (hi : header.bytes[i]? = some CR) :
    (trace i).1.fieldName = false ∧ (trace i).1.previousSpace = false := by
  have hlt := BoundedVec.lt_len hi
  obtain ⟨hline, -⟩ := scanByte_eq_ok hlt (h.step i hlt)
  obtain ⟨_, -, hline⟩ := bind_eq_ok.mp hline
  obtain ⟨_, -, hline⟩ := bind_eq_ok.mp hline
  exact assertOr_eq_ok.mp hline (BoundedVec.getUnchecked_eq hi)

end Lines

/-! ## The lines of an accepted header -/

section Accepted
variable {constrainHeaderField : ConstrainHeaderField} {header : Header}
  {subject fromSequence dkim : Sequence} {tags : DkimTags} {out : Outputs}

/-- What the lines of an accepted header are: fields, and empty lines between them. -/
structure Lines (header : Bytes) : Prop where
  field : ∀ line ∈ crlfLines header, line = [] ∨ IsField line
  dkim : ∃ value, (crlfLines header).getLast? = some (DKIM_NAME ++ [COLON] ++ value)
  opens : ¬ [CR, LF] <+: header
  ends : ¬ [CR, LF] <:+ header

theorem lines_of_checkHeaders (hconstrain : EnforcesWholeLine constrainHeaderField)
    (h : checkHeaders constrainHeaderField header subject fromSequence dkim tags = .ok out) :
    Lines header.bytes := by
  obtain ⟨s, hscan, -, hspace, -⟩ := (checkHeaders_iff.mp h).scan
  obtain ⟨trace, hscanned, rfl⟩ := exists_scanned hscan
  obtain ⟨_, haccepted⟩ := checkHeaders_eq_ok hconstrain h
  obtain ⟨dbefore, dline, dafter, hdat, hdbefore, hdlength, hdname, hdcr, hdlf⟩ :=
    haccepted.dkim_line
  obtain rfl := dkim_after haccepted.dkim_end hdat hdbefore hdlength
  have hdne : dline ≠ [] := by
    obtain ⟨value, rfl⟩ := namesField_iff.mp hdname
    simp
  -- the state at the end of the header is the one behind the DKIM field
  have hend : ∀ {before line : Bytes}, PieceAt [CR, LF] header.bytes before line [] →
      before.length + line.length = header.len := fun hat => by
    have hlen := congrArg List.length hat.eq
    rw [List.append_nil, List.length_append] at hlen
    exact hlen.symm
  have hdread := hscanned.whole_line hdcr hdlf hdne hdat
  rw [hend hdat] at hdread
  have hfield := hdread.fieldName hdname
  have hdlast : header.bytes = dbefore ++ dline := by rw [hdat.eq, List.append_nil]
  refine ⟨fun line hmem => ?_, ?_, ?_, ?_⟩
  · rw [or_iff_not_imp_left]
    intro hne
    obtain ⟨hcr, hlf⟩ := notMem_of_mem_splitOnPair (by decide) (fun i => hscanned.cr)
      (fun i => hscanned.lf) hmem
    obtain ⟨before, after, hat⟩ := splits_crlfLines.exists_pieceAt hmem
    have hread := hscanned.whole_line hcr hlf hne hat
    rcases hat.closes with rfl | ⟨rest, rfl⟩
    · rw [hend hat] at hread
      exact hread.isField hfield hspace hcr hlf
    · have hi : header.bytes[before.length + line.length]? = some CR := by
        rw [hat.eq, ← List.length_append]
        simp
      obtain ⟨hfield, hspace⟩ := hscanned.at_cr hi
      exact hread.isField hfield hspace hcr hlf
  · obtain ⟨earlier, hlines, -⟩ := haccepted.lines
    exact ⟨_, by rw [hlines, List.getLast?_concat]⟩
  · rintro ⟨rest, hrest⟩
    have hzero : header.bytes[0]? = some CR := by rw [← hrest]; rfl
    have hstate := (hscanned.at_cr hzero).1
    rw [hscanned.zero] at hstate
    cases hstate
  · rintro ⟨rest, hrest⟩
    have hlast := congrArg List.getLast? (hrest.trans hdlast)
    rw [List.getLast?_append_of_ne_nil _ hdne] at hlast
    refine hdlf (List.mem_of_getLast? (hlast.symm.trans ?_))
    simp

/-- Two line endings in a row are an empty line. -/
theorem nil_mem_crlfLines {header : Bytes} (h : [CR, LF, CR, LF] <:+: header) :
    [] ∈ crlfLines header := by
  obtain ⟨front, rest, rfl⟩ := h
  have hsplit : front ++ [CR, LF, CR, LF] ++ rest = front ++ [CR, LF] ++ ([] ++ [CR, LF] ++ rest) := by
    simp
  rw [hsplit, splits_crlfLines.append, splits_crlfLines.append]
  exact List.mem_append_right _ (List.mem_append_left _ (List.mem_singleton_self _))

/-- **The relaxed form of an accepted header.**  Whatever the positions, an accepted
header is a list of fields in relaxed form with the DKIM field last, exactly when no
line ending stands right behind another one. -/
theorem relaxed_iff (hconstrain : EnforcesWholeLine constrainHeaderField)
    (h : checkHeaders constrainHeaderField header subject fromSequence dkim tags = .ok out) :
    IsRelaxed header.bytes ↔ ¬ [CR, LF, CR, LF] <:+: header.bytes := by
  have hlines := lines_of_checkHeaders hconstrain h
  constructor
  · exact fun hrelaxed hinfix => (hrelaxed.fields [] (nil_mem_crlfLines hinfix)).ne_nil rfl
  · intro hinfix
    refine ⟨fun line hmem => (hlines.field line hmem).resolve_left ?_, hlines.dkim, hlines.ends⟩
    rintro rfl
    obtain ⟨before, after, hat⟩ := splits_crlfLines.exists_pieceAt hmem
    have heq : header.bytes = before ++ after := by rw [hat.eq, List.append_nil]
    -- an empty line at an end of the header is a line ending there
    rcases hat.opens with rfl | ⟨front, rfl⟩
    · rcases hat.closes with rfl | hafter
      · have hpos := (checkHeaders_iff.mp h).header_len.1
        rw [BoundedVec.len, heq] at hpos
        cases hpos
      · exact hlines.opens (heq ▸ hafter)
    · rcases hat.closes with rfl | ⟨rest, rfl⟩
      · exact hlines.ends ⟨front, by rw [heq, List.append_nil]⟩
      · exact hinfix ⟨front, rest, by rw [heq]; simp⟩

/-- The header of the tests is in relaxed form. -/
theorem relaxed_iff_fixture : IsRelaxed fixture.bytes := by
  have hchecked : checkHeaders constrainLine fixture ⟨0, 51⟩ ⟨53, 24⟩ ⟨79, 87⟩ fixtureTags =
      .ok fixtureOutputs := by decide +kernel
  exact (relaxed_iff constrainLine_enforces hchecked).mpr (by decide +kernel)

end Accepted

/-! ## An empty line -/

/-- The header of the tests with an empty line behind the Subject. -/
def emptyLine : Header where
  bytes := fixtureSubject ++ [CR, LF, CR, LF] ++ fixtureFrom ++ [CR, LF] ++ fixtureDkim
  length_le := by decide +kernel

def emptyLineTags : DkimTags where
  version := ⟨96, 3⟩
  algorithm := ⟨101, 12⟩
  canonicalization := ⟨115, 17⟩
  domain := ⟨134, 14⟩
  signedHeaders := ⟨150, 14⟩
  signature := ⟨166, 2⟩

/-- The circuit accepts a header with an empty line. -/
theorem not_relaxed_emptyLine : EnforcesWholeLine constrainLine ∧
    checkHeaders constrainLine emptyLine ⟨0, 51⟩ ⟨55, 24⟩ ⟨81, 87⟩ emptyLineTags =
      .ok fixtureOutputs ∧
    [] ∈ crlfLines emptyLine.bytes ∧ ¬ IsRelaxed emptyLine.bytes := by
  have hnil : [] ∈ crlfLines emptyLine.bytes := nil_mem_crlfLines (by decide +kernel)
  exact ⟨constrainLine_enforces, by decide +kernel, hnil,
    fun hrelaxed => (hrelaxed.fields [] hnil).ne_nil rfl⟩

end ZkPoR.Circuit.Email
