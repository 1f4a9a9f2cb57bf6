import ZkPoR.EmailFields

/-! # The email circuit binds its outputs to the signed header

A header that the circuit accepts has a reading (`checkHeaders_reads`), and the
outputs are what the reading says.  The positions that the prover chose do not occur
in the reading, so they have no effect on the outputs (`checkHeaders_binds`).

The hypothesis on `constrainHeaderField` is what its package documents: a sequence
that it accepts is one whole line of the header, and the line starts with the name
of the field and a colon.
-/
namespace ZkPoR.Circuit.Email
open ByteString BoundedLoop Splitting

/-- The sequence is one whole line, which starts with the name and a colon. -/
def WholeLine (header : Header) (sequence : Sequence) (name : Bytes) : Prop :=
  ∃ before line after, PieceAt [CR, LF] header.bytes before line after ∧
    before.length = sequence.index ∧ line.length = sequence.length ∧
    namesField name line = true ∧ CR ∉ line ∧ LF ∉ line

/-- What `constrain_header_field` enforces of a field that is not too long. -/
def EnforcesWholeLine (constrainHeaderField : ConstrainHeaderField) : Prop :=
  ∀ maxFieldLength header sequence name,
    sequence.length ≤ name.length + 1 + maxFieldLength →
    constrainHeaderField maxFieldLength header sequence name = .ok () →
    WholeLine header sequence name

/-- A whole line is its name, a colon, and the rest of its sequence. -/
theorem WholeLine.slice_eq {header : Header} {sequence : Sequence} {name : Bytes}
    (h : WholeLine header sequence name) :
    slice header.bytes sequence.index (sequence.index + sequence.length) =
      name ++ [COLON] ++ slice header.bytes (sequence.index + (name.length + 1))
        (sequence.index + sequence.length) := by
  obtain ⟨before, line, after, hat, hbefore, hlength, hname, -⟩ := h
  obtain ⟨value, rfl⟩ := namesField_iff.mp hname
  have hslice := slice_of_eq_append hat.eq
  rw [hbefore, hlength] at hslice
  have hlen := congrArg List.length hat.eq
  simp only [List.length_append, List.length_singleton] at hlen hlength
  rw [hslice]
  congr 1
  have hsplit : slice header.bytes sequence.index (sequence.index + (name.length + 1)) ++
      slice header.bytes (sequence.index + (name.length + 1))
        (sequence.index + sequence.length) = name ++ [COLON] ++ value :=
    (slice_append (by omega) (by omega)).trans hslice
  refine (List.append_inj_right hsplit ?_).symm
  rw [length_slice (by omega), List.length_append, List.length_singleton]
  omega

/-! ## What an accepted header has passed -/

section Accepted
variable {constrainHeaderField : ConstrainHeaderField} {header : Header}
  {subject fromSequence dkim : Sequence} {tags : DkimTags} {out : Outputs}
  {trace : Nat → FieldScan × TagScan}

/-- The assertions of `checkHeaders`, one by one. -/
structure Checked (constrainHeaderField : ConstrainHeaderField) (header : Header)
    (subject fromSequence dkim : Sequence) (tags : DkimTags) (out : Outputs) : Prop where
  header_len : 0 < header.len ∧ header.len < MAX_EMAIL_HEADER_LENGTH
  subject_index : subject.index = 0 ∨ 2 ≤ subject.index
  from_index : fromSequence.index = 0 ∨ 2 ≤ fromSequence.index
  dkim_index : 2 ≤ dkim.index
  dkim_end : dkim.endIndex = .ok header.len
  subject_length : subject.length = SUBJECT_NAME_LENGTH + 1 + SUBJECT_LENGTH
  from_length : FROM_NAME_LENGTH + 1 < fromSequence.length ∧ fromSequence.length ≤ MAX_FROM_LENGTH
  subject_end : ∃ stop, subject.endIndex = .ok stop ∧ stop < dkim.index
  from_end : ∃ stop, fromSequence.endIndex = .ok stop ∧ stop < dkim.index
  subject_line : constrainHeaderField SUBJECT_LENGTH header subject SUBJECT_NAME = .ok ()
  from_line : constrainHeaderField MAX_FROM_LENGTH header fromSequence FROM_NAME = .ok ()
  dkim_line : constrainHeaderField MAX_EMAIL_HEADER_LENGTH header dkim DKIM_NAME = .ok ()
  scan : ∃ s : FieldScan × TagScan,
    forRange MAX_EMAIL_HEADER_LENGTH (FieldScan.init, TagScan.init)
        (fun index _ s => scanByte header subject fromSequence dkim tags.selected index s) = .ok s ∧
      s.2.tagName = false ∧ s.1.previousSpace = false ∧ s.1.subjectCount = 1 ∧
      s.1.fromCount = 1 ∧ ∀ kind (h : kind < TAG_KINDS), s.2.counts[kind] = 1
  bounds : ∀ kind (h : kind < TAG_KINDS), tagBounds header dkim tags.selected[kind] = .ok ()
  algorithm : exact header tags.algorithm ALGORITHM = .ok ()
  canonicalization : exact header tags.canonicalization CANONICALIZATION = .ok ()
  version : exact header tags.version VERSION = .ok ()
  signature : exact header tags.signature SIGNATURE = .ok ()
  signedNames : signedNames header tags.signedHeaders = .ok ()
  domain : readDomain header tags.domain = .ok out.domain
  fromBytes : readFrom header fromSequence = .ok out.fromBytes
  subjectBytes : readSubject header subject = .ok out.subjectBytes

theorem assertOr_eq_ok_unit {condition : Prop} [Decidable condition] {reason : Failure} {u : Unit} :
    assertOr condition reason = .ok u ↔ condition := assertOr_eq_ok

/-- **`checkHeaders` answers exactly when every assertion holds.** -/
theorem checkHeaders_iff :
    checkHeaders constrainHeaderField header subject fromSequence dkim tags = .ok out ↔
      Checked constrainHeaderField header subject fromSequence dkim tags out := by
  simp only [checkHeaders, bind_eq_ok, assertOr_eq_ok_unit, forRange_unit]
  constructor
  · rintro ⟨_, hlen, _, hsubjectIndex, _, hfromIndex, dkimEnd, hdkimEnd, _, ⟨hdkim, rfl⟩, _,
      hsubjectLength, _, hfromLength, subjectEnd, hsubjectEnd, fromEnd, hfromEnd, _,
      ⟨hsubjectDkim, hfromDkim⟩, _, hsubjectLine, _, hfromLine, _, hdkimLine, s, hscan, _,
      ⟨htagName, hspace⟩, _, ⟨hsubjectCount, hfromCount⟩, _, hkinds, _, halgorithm, _,
      hcanonicalization, _, hversion, _, hsignature, _, hsigned, domain, hdomain, fromBytes,
      hfromBytes, subjectBytes, hsubjectBytes, hout⟩
    obtain rfl := Except.ok.inj hout
    exact ⟨hlen, hsubjectIndex, hfromIndex, hdkim, hdkimEnd, hsubjectLength, hfromLength,
      ⟨_, hsubjectEnd, hsubjectDkim⟩, ⟨_, hfromEnd, hfromDkim⟩, hsubjectLine, hfromLine, hdkimLine,
      ⟨s, hscan, htagName, hspace, hsubjectCount, hfromCount,
        fun kind h => (hkinds kind h).choose_spec.1⟩,
      fun kind h => (hkinds kind h).choose_spec.2, halgorithm, hcanonicalization, hversion,
      hsignature, hsigned, hdomain, hfromBytes, hsubjectBytes⟩
  · intro h
    obtain ⟨subjectEnd, hsubjectEnd, hsubjectDkim⟩ := h.subject_end
    obtain ⟨fromEnd, hfromEnd, hfromDkim⟩ := h.from_end
    obtain ⟨s, hscan, htagName, hspace, hsubjectCount, hfromCount, hcounts⟩ := h.scan
    exact ⟨(), h.header_len, (), h.subject_index, (), h.from_index, _, h.dkim_end, (),
      ⟨h.dkim_index, rfl⟩, (), h.subject_length, (), h.from_length, _, hsubjectEnd, _, hfromEnd,
      (), ⟨hsubjectDkim, hfromDkim⟩, (), h.subject_line, (), h.from_line, (), h.dkim_line, s,
      hscan, (), ⟨htagName, hspace⟩, (), ⟨hsubjectCount, hfromCount⟩, (),
      fun kind hkind => ⟨(), hcounts kind hkind, h.bounds kind hkind⟩, (), h.algorithm, (),
      h.canonicalization, (), h.version, (), h.signature, (), h.signedNames, _, h.domain, _,
      h.fromBytes, _, h.subjectBytes, rfl⟩

/-- The checks that an accepted header has passed. -/
structure Accepted (header : Header) (subject fromSequence dkim : Sequence) (tags : DkimTags)
    (out : Outputs) (trace : Nat → FieldScan × TagScan) : Prop where
  dkim_end : dkim.index + dkim.length = header.len
  subject_length : subject.length = SUBJECT_NAME_LENGTH + 1 + SUBJECT_LENGTH
  subject_end : subject.index + subject.length < dkim.index
  from_end : fromSequence.index + fromSequence.length < dkim.index
  subject_line : WholeLine header subject SUBJECT_NAME
  from_line : WholeLine header fromSequence FROM_NAME
  dkim_line : WholeLine header dkim DKIM_NAME
  scanned : Scanned header subject fromSequence dkim tags.selected trace
  tagName : (trace header.len).2.tagName = false
  counts : ∀ kind < TAG_KINDS, entry 0 (trace header.len).2.counts kind = 1
  bounds : ∀ kind (h : kind < TAG_KINDS), tagBounds header dkim tags.selected[kind] = .ok ()
  algorithm : exact header tags.algorithm ALGORITHM = .ok ()
  canonicalization : exact header tags.canonicalization CANONICALIZATION = .ok ()
  version : exact header tags.version VERSION = .ok ()
  signature : exact header tags.signature SIGNATURE = .ok ()
  signedNames : signedNames header tags.signedHeaders = .ok ()
  domain : readDomain header tags.domain = .ok out.domain
  fromBytes : readFrom header fromSequence = .ok out.fromBytes
  subjectBytes : readSubject header subject = .ok out.subjectBytes

theorem checkHeaders_eq_ok (hconstrain : EnforcesWholeLine constrainHeaderField)
    (h : checkHeaders constrainHeaderField header subject fromSequence dkim tags = .ok out) :
    ∃ trace, Accepted header subject fromSequence dkim tags out trace := by
  have h := checkHeaders_iff.mp h
  obtain ⟨subjectEnd, hsubjectEnd, hsubjectDkim⟩ := h.subject_end
  obtain ⟨fromEnd, hfromEnd, hfromDkim⟩ := h.from_end
  obtain ⟨s, hscan, htagName, -, -, -, hcounts⟩ := h.scan
  have hsubjectEnd := Sequence.endIndex_eq_ok hsubjectEnd
  have hfromEnd := Sequence.endIndex_eq_ok hfromEnd
  have hdkimEnd := Sequence.endIndex_eq_ok h.dkim_end
  have hfromLength := h.from_length
  have hmax : header.len ≤ MAX_EMAIL_HEADER_LENGTH := header.length_le
  obtain ⟨trace, hscanned, hlast⟩ := exists_scanned hscan
  refine ⟨trace, hdkimEnd.symm, h.subject_length, hsubjectEnd ▸ hsubjectDkim,
    hfromEnd ▸ hfromDkim, hconstrain _ _ _ _ h.subject_length.le h.subject_line,
    hconstrain _ _ _ _ (by omega) h.from_line, hconstrain _ _ _ _ (by omega) h.dkim_line,
    hscanned, ?_, fun kind hkind => ?_, h.bounds, h.algorithm, h.canonicalization, h.version,
    h.signature, h.signedNames, h.domain, h.fromBytes, h.subjectBytes⟩
  · rw [hlast]
    exact htagName
  · rw [hlast, entry_of_lt hkind]
    exact hcounts kind hkind

/-! ## The lines -/

/-- The DKIM field is the end of the header. -/
theorem dkim_after {before line after : Bytes} (hend : dkim.index + dkim.length = header.len)
    (hat : PieceAt [CR, LF] header.bytes before line after) (hbefore : before.length = dkim.index)
    (hlength : line.length = dkim.length) : after = [] := by
  have hlen := congrArg List.length hat.eq
  rw [List.length_append, List.length_append] at hlen
  have hheader : header.bytes.length = header.len := rfl
  exact List.length_eq_zero_iff.mp (by omega)

/-- A field of one name before the DKIM field is the line that the prover chose. -/
theorem filter_lines {sequence : Sequence} {name : Bytes}
    (hend : dkim.index + dkim.length = header.len) (hdkim : WholeLine header dkim DKIM_NAME)
    (hline : WholeLine header sequence name) (hne : name ≠ [])
    (hhead : name.head? ≠ DKIM_NAME.head?)
    (hindex : ∀ before line after, PieceAt [CR, LF] header.bytes before line after →
      namesField name line = true → before.length < dkim.index →
      sequence.index = before.length) :
    (crlfLines header.bytes).filter (namesField name) =
      [slice header.bytes sequence.index (sequence.index + sequence.length)] := by
  obtain ⟨before, line, after, hat, hbefore, hlength, hname, hcr, -⟩ := hline
  obtain ⟨dbefore, dline, dafter, hdat, hdbefore, hdlength, hdname, -, hdlf⟩ := hdkim
  obtain rfl := dkim_after hend hdat hdbefore hdlength
  rw [← hbefore, ← hlength, slice_of_eq_append hat.eq]
  refine splits_crlfLines.filter_eq_singleton (by decide) hat (splitOnPair_of_notMem hcr) hname
    fun b l a hbla hl => ?_
  rcases Nat.lt_trichotomy b.length dbefore.length with hlt | heq | hgt
  · rw [hbefore, hindex b l a hbla hl (by omega)]
  · -- Two names would start at the DKIM field.
    exfalso
    obtain ⟨value, rfl⟩ := namesField_iff.mp hl
    obtain ⟨dvalue, rfl⟩ := namesField_iff.mp hdname
    obtain ⟨x, name, rfl⟩ := List.exists_cons_of_ne_nil hne
    have hboth := hbla.eq.symm.trans hdat.eq
    rw [List.append_assoc b, List.append_assoc dbefore] at hboth
    have hheads := congrArg List.head? (List.append_inj hboth heq).2
    exact hhead hheads
  · -- A line feed would stand in the DKIM field.
    exfalso
    obtain ⟨rest, rfl⟩ := hbla.opens.resolve_left fun hnil => by simp [hnil] at hgt
    have hlf : header.bytes[rest.length + 1]? = some LF := by rw [hbla.eq]; simp
    have hlen : (rest ++ [CR, LF]).length = rest.length + 2 := List.length_append
    rw [hdat.eq, List.append_nil, List.getElem?_append_right (by omega)] at hlf
    exact hdlf (List.mem_of_getElem? hlf)

/-- **The lines of an accepted header**: the DKIM field is the last one, and one line
before it is the From line and one the Subject line. -/
theorem Accepted.lines (h : Accepted header subject fromSequence dkim tags out trace) :
    ∃ earlier,
      crlfLines header.bytes = earlier ++
        [DKIM_NAME ++ [COLON] ++ slice header.bytes (Sequence.tagBase dkim) header.len] ∧
      earlier.filter (namesField FROM_NAME) =
        [slice header.bytes fromSequence.index (fromSequence.index + fromSequence.length)] ∧
      earlier.filter (namesField SUBJECT_NAME) =
        [slice header.bytes subject.index (subject.index + subject.length)] := by
  obtain ⟨dbefore, dline, dafter, hdat, hdbefore, hdlength, hdname, hdcr, -⟩ := h.dkim_line
  obtain rfl := dkim_after h.dkim_end hdat hdbefore hdlength
  obtain ⟨earlier, right, hlines, -, -, hright⟩ :=
    splits_crlfLines.split_pieceAt hdat (splitOnPair_of_notMem hdcr)
  rw [hright rfl, List.append_nil] at hlines
  obtain ⟨value, rfl⟩ := namesField_iff.mp hdname
  have hvalue : value = slice header.bytes (Sequence.tagBase dkim) header.len := by
    have heq : header.bytes = dbefore ++ (DKIM_NAME ++ [COLON]) ++ value ++ [] := by
      rw [hdat.eq]
      simp
    have hslice := slice_of_eq_append heq
    have hpre : (dbefore ++ (DKIM_NAME ++ [COLON])).length = Sequence.tagBase dkim := by
      rw [List.length_append, hdbefore]
      rfl
    have hlen := congrArg List.length heq
    rw [List.append_nil, List.length_append] at hlen
    rw [hpre] at hslice hlen
    rw [← hlen] at hslice
    exact hslice.symm
  have hfilter : ∀ {name : Bytes} {text : Bytes}, namesField name (DKIM_NAME ++ [COLON] ++ value) = false →
      (crlfLines header.bytes).filter (namesField name) = [text] →
      earlier.filter (namesField name) = [text] := by
    intro name text hother hall
    rwa [hlines, List.filter_append, List.filter_cons, hother, if_neg (by decide),
      List.filter_nil, List.append_nil] at hall
  refine ⟨earlier, hvalue ▸ hlines, hfilter ?_ (filter_lines h.dkim_end h.dkim_line h.from_line
    (by decide) (by decide) fun before line after hat hname hlt => ?_), hfilter ?_ (filter_lines
    h.dkim_end h.dkim_line h.subject_line (by decide) (by decide)
    fun before line after hat hname hlt => ?_)⟩
  · rfl
  · exact (h.scanned.index_of_name (by decide) (by decide) (by decide) (by decide) hat hname
      hlt).1 FROM_TOKEN_eq.symm
  · rfl
  · exact (h.scanned.index_of_name (by decide) (by decide) (by decide) (by decide) hat hname
      hlt).2 SUBJECT_TOKEN_eq.symm

/-! ## The tags -/

section Shape
variable {left name rest : Bytes}

theorem notMem_equals (hleft : ∀ x ∈ left, x = SPACE) (hname : ∀ x ∈ name, isLower x = true) :
    ∀ x ∈ left ++ name, (x != EQUALS) = true := by
  intro x hx
  rw [bne_iff_ne]
  rcases List.mem_append.mp hx with hx | hx
  · rw [hleft x hx]
    decide
  · exact isLower_ne (hname x hx) (by decide)

/-- The name of a tag stands after spaces and before the equals sign. -/
theorem tagName_append (hleft : ∀ x ∈ left, x = SPACE) (hname : ∀ x ∈ name, isLower x = true) :
    tagName (left ++ name ++ EQUALS :: rest) = name := by
  rw [tagName, List.takeWhile_append_of_pos (notMem_equals hleft hname),
    List.takeWhile_cons_of_neg (by decide)]
  exact trimSpaces_append hleft (by simp)
    (fun hhead => isLower_ne (hname SPACE (List.mem_of_head? hhead)) (by decide) rfl)
    (fun hlast => isLower_ne (hname SPACE (List.mem_of_getLast? hlast)) (by decide) rfl)

theorem tagText_append (hleft : ∀ x ∈ left, x = SPACE) (hname : ∀ x ∈ name, isLower x = true) :
    tagText (left ++ name ++ EQUALS :: rest) = rest := by
  rw [tagText, List.dropWhile_append_of_pos (notMem_equals hleft hname),
    List.dropWhile_cons_of_neg (by decide), List.drop_succ_cons, List.drop_zero]

/-- Only spaces have no name. -/
theorem tagName_spaces (hleft : ∀ x ∈ left, x = SPACE) : tagName left = [] := by
  have hall : ∀ x ∈ left, (x != EQUALS) = true := fun x hx => by rw [hleft x hx]; decide
  rw [tagName, List.takeWhile_eq_self_iff.mpr hall]
  have htrim : trimSpaces (left ++ [] ++ []) = [] :=
    trimSpaces_append hleft (by simp) (by simp) (by simp)
  rwa [List.append_nil, List.append_nil] at htrim

end Shape

theorem mem_slice_bytes {P : UInt8 → Prop} {i j : Nat}
    (h : ∀ m, i ≤ m → m < j → P (header.getUnchecked m)) : ∀ x ∈ slice header.bytes i j, P x := by
  intro x hx
  obtain ⟨m, him, hmj, hm⟩ := mem_slice.mp hx
  rw [← BoundedVec.getUnchecked_eq hm]
  exact h m him hmj

/-- Where a required tag stands: behind spaces at the start of the value or after a
semicolon, and before spaces at a semicolon or the end. -/
structure TagAt (header : Header) (base : Nat) (tag : Sequence) (name : UInt8) (start stop : Nat) :
    Prop where
  base_le : base ≤ start
  start_le : start ≤ tag.index
  two_le : 2 ≤ tag.length
  le_stop : tag.index + tag.length ≤ stop
  stop_le : stop ≤ header.len
  opens : start = base ∨ header.bytes[start - 1]? = some SEMICOLON
  closes : stop = header.len ∨ header.bytes[stop]? = some SEMICOLON
  spaces : ∀ j, start ≤ j → j < tag.index → header.bytes[j]? = some SPACE
  right_eq : ∀ x ∈ slice header.bytes (tag.index + tag.length) stop, x = SPACE
  notMem : SEMICOLON ∉ slice header.bytes tag.index (tag.index + tag.length)
  name_eq : header.bytes[tag.index]? = some name
  equals_eq : header.bytes[tag.index + 1]? = some EQUALS

namespace TagAt
variable {base : Nat} {tag : Sequence} {c : UInt8} {start stop : Nat}

theorem left_eq (h : TagAt header base tag c start stop) :
    ∀ x ∈ slice header.bytes start tag.index, x = SPACE :=
  mem_slice_bytes fun m hm hlt => BoundedVec.getUnchecked_eq (h.spaces m hm hlt)

/-- The text of a tag from its name on. -/
theorem slice_tag (h : TagAt header base tag c start stop) :
    slice header.bytes tag.index (tag.index + tag.length) =
      [c, EQUALS] ++ slice header.bytes (tag.index + 2) (tag.index + tag.length) := by
  have htwo := h.two_le
  rw [slice_cons (by omega) h.name_eq, slice_cons (by omega) h.equals_eq]
  rfl

/-- The piece around a tag. -/
theorem slice_piece (h : TagAt header base tag c start stop) :
    slice header.bytes start stop = slice header.bytes start tag.index ++
      slice header.bytes tag.index (tag.index + tag.length) ++
        slice header.bytes (tag.index + tag.length) stop := by
  rw [slice_append h.start_le (Nat.le_add_right _ _),
    slice_append (h.start_le.trans (Nat.le_add_right _ _)) h.le_stop]

theorem notMem_piece (h : TagAt header base tag c start stop) :
    SEMICOLON ∉ slice header.bytes start stop := by
  rw [h.slice_piece, List.mem_append, List.mem_append]
  rintro ((hmem | hmem) | hmem)
  · exact absurd (h.left_eq _ hmem) (by decide)
  · exact h.notMem hmem
  · exact absurd (h.right_eq _ hmem) (by decide)

theorem pieceAt (h : TagAt header base tag c start stop) :
    PieceAt [SEMICOLON] (slice header.bytes base header.len) (slice header.bytes base start)
      (slice header.bytes start stop) (slice header.bytes stop header.len) :=
  pieceAt_slice h.base_le (h.start_le.trans ((Nat.le_add_right _ _).trans h.le_stop)) h.stop_le
    h.opens h.closes

/-- The name of the piece is the one of the tag, and its text stands behind the equals sign. -/
theorem tagName_eq (h : TagAt header base tag c start stop) (hlower : isLower c = true) :
    tagName (slice header.bytes start stop) = [c] ∧
      tagText (slice header.bytes start stop) = slice header.bytes (tag.index + 2) stop := by
  have htwo := h.two_le
  have hstart := h.start_le
  have hstop := h.le_stop
  have hpiece : slice header.bytes start stop = slice header.bytes start tag.index ++ [c] ++
      EQUALS :: slice header.bytes (tag.index + 2) stop := by
    rw [← slice_append hstart (show tag.index ≤ stop by omega), slice_cons (by omega) h.name_eq,
      slice_cons (by omega) h.equals_eq, List.append_assoc, List.singleton_append]
  have hlowers : ∀ x ∈ [c], isLower x = true := by simpa using hlower
  rw [hpiece]
  exact ⟨tagName_append h.left_eq hlowers, tagText_append h.left_eq hlowers⟩

end TagAt

namespace Accepted

theorem tagBase_le (h : Accepted header subject fromSequence dkim tags out trace) :
    Sequence.tagBase dkim ≤ header.len := by
  obtain ⟨_, line, _, -, -, hlength, hname, -⟩ := h.dkim_line
  obtain ⟨value, rfl⟩ := namesField_iff.mp hname
  have hend := h.dkim_end
  rw [← hlength, List.length_append, show (DKIM_NAME ++ [COLON]).length = 15 from rfl] at hend
  show dkim.index + 15 ≤ header.len
  omega

/-- **Every tag is spaces, a name in lower case, an equals sign, and a text**, unless it
is spaces alone. -/
theorem piece_shape (h : Accepted header subject fromSequence dkim tags out trace)
    {before piece after : Bytes}
    (hat : PieceAt [SEMICOLON] (slice header.bytes (Sequence.tagBase dkim) header.len)
      before piece after) :
    (∀ x ∈ piece, x = SPACE) ∨
    ∃ left name rest, piece = left ++ name ++ EQUALS :: rest ∧ (∀ x ∈ left, x = SPACE) ∧
      name ≠ [] ∧ (∀ x ∈ name, isLower x = true) ∧
      AfterSpaces header (Sequence.tagBase dkim)
        (Sequence.tagBase dkim + before.length + left.length) := by
  have hbase := h.tagBase_le
  rcases spaces_or_first piece with hall | ⟨left, x, more, hpiece, hleft, hx⟩
  · exact .inl hall
  right
  have hlen := hat.length_le hbase le_rfl
  have hentry : ∀ k < piece.length,
      header.bytes[Sequence.tagBase dkim + before.length + k]? = piece[k]? :=
    fun k hk => hat.getElem?_piece hbase le_rfl hk
  have hpieceLen : piece.length = left.length + (more.length + 1) := by
    rw [hpiece, List.length_append, List.length_cons]
  have hspaces : ∀ k < left.length,
      header.bytes[Sequence.tagBase dkim + before.length + k]? = some SPACE := fun k hk => by
    rw [hentry k (by omega), hpiece, List.getElem?_append_left hk, List.getElem?_eq_getElem hk,
      hleft _ (List.getElem_mem hk)]
  have hfirst : header.bytes[Sequence.tagBase dkim + before.length + left.length]? = some x := by
    rw [hentry _ (by omega), hpiece]
    simp
  generalize hi : Sequence.tagBase dkim + before.length = i at *
  have hafter : AfterSpaces header (Sequence.tagBase dkim) (i + left.length) := by
    refine ⟨i, by omega, by omega, ?_, fun j hj hlt => ?_⟩
    · rcases hat.getElem?_before hbase le_rfl with hzero | hsemi
      · exact .inl (by omega)
      · rw [hi] at hsemi
        exact .inr hsemi
    · have := hspaces (j - i) (by omega)
      rwa [show i + (j - i) = j by omega] at this
  obtain ⟨⟨stop, hlt, hstop, hequals, hlowers⟩, -⟩ := h.scanned.tag h.tagName
    (BoundedVec.lt_len hfirst) hafter (by rw [hfirst]; exact fun heq => hx (Option.some.inj heq))
  -- The equals sign stands in the piece: a semicolon before it is no lower-case letter.
  have hinside : stop < i + piece.length := by
    by_contra hge
    rcases hat.getElem?_after hbase le_rfl with hend | hsemi
    · omega
    · rw [hi] at hsemi
      rcases Nat.lt_or_eq_of_le (Nat.le_of_not_lt hge) with hlt | rfl
      · have hlower := hlowers _ (by omega) hlt
        rw [BoundedVec.getUnchecked_eq hsemi] at hlower
        exact absurd hlower (by decide)
      · exact absurd (hsemi.symm.trans hequals) (by decide)
  refine ⟨slice header.bytes i (i + left.length), slice header.bytes (i + left.length) stop,
    slice header.bytes (stop + 1) (i + piece.length), ?_, ?_, ?_, mem_slice_bytes hlowers, ?_⟩
  · have hslice := hat.piece_eq hbase le_rfl
    rw [hi] at hslice
    rw [← slice_cons hinside hequals, slice_append (by omega) hlt.le,
      slice_append (by omega) hinside.le]
    exact hslice
  · refine mem_slice_bytes fun m him hm => ?_
    have := hspaces (m - i) (by omega)
    rw [show i + (m - i) = m by omega] at this
    exact BoundedVec.getUnchecked_eq this
  · rw [slice_cons hlt hfirst]
    exact List.cons_ne_nil _ _
  · have hleftLen : (slice header.bytes i (i + left.length)).length = left.length := by
      rw [length_slice (by have : header.bytes.length = header.len := rfl; omega)]
      omega
    rwa [hleftLen]

/-- Two starts of one tag are equal. -/
theorem start_unique {start start' i : Nat} {base : Nat}
    (hstart : base ≤ start) (hstart' : base ≤ start') (hi : start ≤ i) (hi' : start' ≤ i)
    (hopens : start = base ∨ header.bytes[start - 1]? = some SEMICOLON)
    (hopens' : start' = base ∨ header.bytes[start' - 1]? = some SEMICOLON)
    (hspaces : ∀ j, start ≤ j → j < i → header.bytes[j]? = some SPACE)
    (hspaces' : ∀ j, start' ≤ j → j < i → header.bytes[j]? = some SPACE) : start = start' := by
  rcases Nat.lt_trichotomy start start' with hlt | heq | hlt
  · have hsemi := hopens'.resolve_left (by omega)
    rw [hspaces (start' - 1) (by omega) (by omega)] at hsemi
    exact absurd hsemi (by decide)
  · exact heq
  · have hsemi := hopens.resolve_left (by omega)
    rw [hspaces' (start - 1) (by omega) (by omega)] at hsemi
    exact absurd hsemi (by decide)

theorem isLower_names : ∀ kind < TAG_KINDS, isLower (entry 0 names kind) = true := by decide

/-- A tag with a required name starts where the spaces before the chosen position do. -/
theorem start_eq_of_name (h : Accepted header subject fromSequence dkim tags out trace) {kind : Nat}
    (hkind : kind < TAG_KINDS) {start : Nat} (hstart : Sequence.tagBase dkim ≤ start)
    (hle : start ≤ tags.selected[kind].index)
    (hopens : start = Sequence.tagBase dkim ∨ header.bytes[start - 1]? = some SEMICOLON)
    (hspaces : ∀ j, start ≤ j → j < tags.selected[kind].index → header.bytes[j]? = some SPACE)
    {before left rest after : Bytes}
    (hat : PieceAt [SEMICOLON] (slice header.bytes (Sequence.tagBase dkim) header.len) before
      (left ++ [entry 0 names kind] ++ EQUALS :: rest) after)
    (hleft : ∀ x ∈ left, x = SPACE)
    (hafter : AfterSpaces header (Sequence.tagBase dkim)
      (Sequence.tagBase dkim + before.length + left.length)) :
    start = Sequence.tagBase dkim + before.length := by
  have hbase := h.tagBase_le
  have hentry : ∀ k < (left ++ [entry 0 names kind] ++ EQUALS :: rest).length,
      header.bytes[Sequence.tagBase dkim + before.length + k]? =
        (left ++ [entry 0 names kind] ++ EQUALS :: rest)[k]? :=
    fun k hk => hat.getElem?_piece hbase le_rfl hk
  have hfirst := hentry left.length (by simp)
  have hsecond := hentry (left.length + 1) (by simp)
  rw [show (left ++ [entry 0 names kind] ++ EQUALS :: rest)[left.length]? =
    some (entry 0 names kind) by simp] at hfirst
  rw [show (left ++ [entry 0 names kind] ++ EQUALS :: rest)[left.length + 1]? = some EQUALS
    by simp, ← Nat.add_assoc] at hsecond
  -- The scan compares the position of every tag of the name with the chosen one.
  have hsame := (h.scanned.tag h.tagName (BoundedVec.lt_len hfirst) hafter (by
    rw [hfirst]
    exact fun heq => isLower_ne (isLower_names kind hkind) (by decide) (Option.some.inj heq))).2
      kind hkind ⟨BoundedVec.getUnchecked_eq hfirst, (nextByte_eq_iff (by decide)).mpr hsecond⟩
  refine start_unique hstart (by omega) hle (by omega) hopens ?_ hspaces fun j hj hlt => ?_
  · rcases hat.getElem?_before hbase le_rfl with hzero | hsemi
    · exact .inl (by omega)
    · exact .inr hsemi
  · have hk := hentry (j - (Sequence.tagBase dkim + before.length)) (by simp; omega)
    have hin : j - (Sequence.tagBase dkim + before.length) < left.length := by omega
    rw [show Sequence.tagBase dkim + before.length + (j - (Sequence.tagBase dkim + before.length)) = j
      by omega, List.append_assoc, List.getElem?_append_left hin] at hk
    rw [hk, List.getElem?_eq_getElem hin, hleft _ (List.getElem_mem hin)]

/-- **A required tag stands where the prover chose.** -/
theorem exists_tagAt (h : Accepted header subject fromSequence dkim tags out trace) (kind : Nat)
    (hkind : kind < TAG_KINDS) {tag : Sequence} (htag : tags.selected[kind] = tag) :
    ∃ start stop, TagAt header (Sequence.tagBase dkim) tag (entry 0 names kind) start stop := by
  obtain ⟨i, -, hi, hafter, hspace, hstarts⟩ :=
    h.scanned.exists_of_count hkind le_rfl (by rw [h.counts kind hkind]; decide)
  have hindex := (h.scanned.tag h.tagName hi hafter hspace).2 kind hkind hstarts
  have hbounds := h.bounds kind hkind
  subst htag
  subst hindex
  obtain ⟨htwo, hend, hbody, stop, hle, hstop, hcloses, hright⟩ := tagBounds_eq_ok hbounds
  obtain ⟨start, hstart, hstartle, hopens, hleft⟩ := hafter
  refine ⟨start, stop, hstart, hstartle, htwo, hle, hstop, hopens, hcloses, hleft,
    mem_slice_bytes fun m hm hlt => BoundedVec.getUnchecked_eq (hright m hm hlt), fun hmem => ?_,
    ?_, (nextByte_eq_iff (by decide)).mp hstarts.2⟩
  · exact mem_slice_bytes (P := (· ≠ SEMICOLON)) (fun m hm hlt => hbody m hm hlt) _ hmem rfl
  · rw [BoundedVec.getElem?_bytes hi, hstarts.1]

/-- **It occurs once.** -/
theorem tagsNamed_eq (h : Accepted header subject fromSequence dkim tags out trace) (kind : Nat)
    (hkind : kind < TAG_KINDS) {start stop : Nat}
    (hat : TagAt header (Sequence.tagBase dkim) tags.selected[kind] (entry 0 names kind) start stop) :
    tagsNamed (slice header.bytes (Sequence.tagBase dkim) header.len) [entry 0 names kind] =
      [slice header.bytes start stop] := by
  have hstop := hat.le_stop.trans hat.stop_le
  have hstart := hat.start_le
  refine (splits_splitOn SEMICOLON).filter_eq_singleton (by decide) hat.pieceAt
    (List.splitOn_eq_singleton hat.notMem_piece) ?_ fun b l a hbla hl => ?_
  · rw [(hat.tagName_eq (isLower_names kind hkind)).1, beq_self_eq_true]
  · rw [beq_iff_eq] at hl
    rcases h.piece_shape hbla with hall | ⟨left, name, rest, rfl, hl', hne, hlowers, hafter⟩
    · rw [tagName_spaces hall] at hl
      cases hl
    · rw [tagName_append hl' hlowers] at hl
      subst hl
      rw [length_slice (by have : header.bytes.length = header.len := rfl; omega),
        h.start_eq_of_name hkind hat.base_le hstart hat.opens hat.spaces hbla hl' hafter]
      omega

/-- A tag whose text does not end at a space. -/
theorem map_trimSpaces (h : Accepted header subject fromSequence dkim tags out trace) (kind : Nat)
    (hkind : kind < TAG_KINDS) {tag : Sequence} (htag : tags.selected[kind] = tag) {text : Bytes}
    (htext : slice header.bytes tag.index (tag.index + tag.length) = text)
    (hhead : text.head? ≠ some SPACE) (hlast : text.getLast? ≠ some SPACE) :
    (tagsNamed (slice header.bytes (Sequence.tagBase dkim) header.len)
      [entry 0 names kind]).map trimSpaces = [text] := by
  subst htag
  obtain ⟨start, stop, hat⟩ := h.exists_tagAt kind hkind rfl
  rw [h.tagsNamed_eq kind hkind hat, List.map_singleton, hat.slice_piece, htext,
    trimSpaces_append hat.left_eq hat.right_eq hhead hlast]

/-- A name that the accepted list names is among the signed fields of the tag. -/
theorem mem_signedFields {base : Nat} {tag : Sequence} {start stop : Nat} {c : UInt8} {name : Bytes}
    (hat : TagAt header base tag c start stop) (hlower : isLower c = true)
    (hlists : Lists header (tag.index + 2) (tag.index + tag.length) name) :
    name ∈ signedFields (slice header.bytes start stop) := by
  have hle := hat.le_stop
  obtain ⟨i, j, hlo, hij, hj, hopens, hcloses, hcolon, htrim⟩ := hlists
  rw [signedFields, (hat.tagName_eq hlower).2, List.mem_map]
  by_cases hend : j = tag.index + tag.length
  · -- The spaces after the tag belong to the last name of the list.
    subst hend
    have hsplit : slice header.bytes i (tag.index + tag.length) ++
        slice header.bytes (tag.index + tag.length) stop = slice header.bytes i stop :=
      slice_append hij hle
    refine ⟨slice header.bytes i stop, (splits_splitOn COLON).mem_of_pieceAt
      (pieceAt_slice hlo (hij.trans hle) le_rfl hopens (.inl rfl))
      (List.splitOn_eq_singleton fun hmem => ?_), ?_⟩
    · rw [← hsplit, List.mem_append] at hmem
      rcases hmem with hmem | hmem
      · exact hcolon hmem
      · exact absurd (hat.right_eq _ hmem) (by decide)
    · rw [← hsplit, trimSpaces_append_spaces hat.right_eq, htrim]
  · exact ⟨slice header.bytes i j, (splits_splitOn COLON).mem_of_pieceAt
      (pieceAt_slice hlo hij (hj.trans hle) hopens (.inr (hcloses.resolve_left hend)))
      (List.splitOn_eq_singleton hcolon), htrim⟩

/-- **The tags of an accepted header.** -/
theorem readsTags (h : Accepted header subject fromSequence dkim tags out trace) :
    ReadsTags (slice header.bytes (Sequence.tagBase dkim) header.len) out.domain.bytes := by
  refine ⟨?_, ?_, ?_, ?_, ?_, ?_⟩
  · obtain ⟨start, stop, hat⟩ := h.exists_tagAt 0 (by decide) (show _ = tags.domain from rfl)
    obtain ⟨-, hbytes, hhost⟩ := readDomain_eq_ok (hat.le_stop.trans hat.stop_le) h.domain
    have htext := hat.slice_tag
    rw [← hbytes] at htext
    refine h.map_trimSpaces 0 (by decide) rfl htext (fun hhead => ?_) fun hlast => ?_
    · exact absurd (Option.some.inj hhead) (by decide)
    have hmem := List.mem_of_getLast? hlast
    rcases List.mem_append.mp hmem with hmem | hmem
    · exact absurd hmem (by decide)
    · exact hhost.space_notMem hmem
  · exact h.map_trimSpaces 1 (by decide) rfl (exact_eq_ok h.algorithm) (by decide) (by decide)
  · exact h.map_trimSpaces 2 (by decide) rfl (exact_eq_ok h.canonicalization) (by decide)
      (by decide)
  · obtain ⟨start, stop, hat⟩ := h.exists_tagAt 3 (by decide)
      (show _ = tags.signedHeaders from rfl)
    obtain ⟨hfrom, hsubject⟩ := signedNames_eq_ok (hat.le_stop.trans hat.stop_le) h.signedNames
    exact ⟨_, h.tagsNamed_eq 3 (by decide) hat, mem_signedFields hat (by decide) hfrom,
      mem_signedFields hat (by decide) hsubject⟩
  · exact h.map_trimSpaces 4 (by decide) rfl (exact_eq_ok h.version) (by decide) (by decide)
  · exact h.map_trimSpaces 5 (by decide) rfl (exact_eq_ok h.signature) (by decide) (by decide)

/-- **An accepted header has a reading, and the outputs are it.** -/
theorem reads (h : Accepted header subject fromSequence dkim tags out trace) :
    Reads header.bytes out := by
  obtain ⟨earlier, hlines, hfrom, hsubject⟩ := h.lines
  have hdkim := h.dkim_end
  have hsubjectEnd := h.subject_end
  have hfromEnd := h.from_end
  have hsubjectLength := h.subject_length
  obtain ⟨hsubjectBytes, hbase64url⟩ := readSubject_eq_ok (by omega) h.subjectBytes
  have hfromBytes := readFrom_eq_ok (by omega) h.fromBytes
  refine ⟨fun i => h.scanned.cr, fun i => h.scanned.lf, ⟨earlier, _, hlines, ?_, ?_, h.readsTags⟩,
    hbase64url, ?_⟩
  · rw [hfrom, hfromBytes]
  · rw [hsubject, hsubjectBytes, h.subject_line.slice_eq, hsubjectLength]
    rfl
  · obtain ⟨start, stop, hat⟩ := h.exists_tagAt 0 (by decide) (show _ = tags.domain from rfl)
    exact (readDomain_eq_ok (hat.le_stop.trans hat.stop_le) h.domain).2.2

end Accepted

end Accepted

/-- **The outputs are bound to the header.**  Every header that the circuit accepts is
read as its outputs say, whatever the positions; two choices of positions for one
header give one output; and two proofs about one header, one key, and one context
publish the same fields. -/
theorem checkHeaders_binds (constrainHeaderField : ConstrainHeaderField)
    (hconstrain : EnforcesWholeLine constrainHeaderField) :
    (∀ header subject fromSequence dkim tags out,
      checkHeaders constrainHeaderField header subject fromSequence dkim tags = .ok out →
      Reads header.bytes out) ∧
    (∀ header subject fromSequence dkim tags out subject' fromSequence' dkim' tags' out',
      checkHeaders constrainHeaderField header subject fromSequence dkim tags = .ok out →
      checkHeaders constrainHeaderField header subject' fromSequence' dkim' tags' =
        .ok out' → out = out') ∧
    (∀ packages header pubkey context signature subject fromSequence dkim tags fields
        signature' subject' fromSequence' dkim' tags' fields',
      main constrainHeaderField packages header pubkey signature subject fromSequence dkim tags
        context = .ok fields →
      main constrainHeaderField packages header pubkey signature' subject' fromSequence' dkim' tags'
        context = .ok fields' → fields = fields') := by
  have hreads : ∀ header subject fromSequence dkim tags out,
      checkHeaders constrainHeaderField header subject fromSequence dkim tags = .ok out →
      Reads header.bytes out := fun header subject fromSequence dkim tags out h => by
    obtain ⟨trace, haccepted⟩ := checkHeaders_eq_ok hconstrain h
    exact haccepted.reads
  refine ⟨hreads, fun header subject fromSequence dkim tags out subject' fromSequence' dkim' tags'
    out' h h' => (hreads _ _ _ _ _ _ h).unique (hreads _ _ _ _ _ _ h'), ?_⟩
  intro packages header pubkey context signature subject fromSequence dkim tags fields signature'
    subject' fromSequence' dkim' tags' fields' h h'
  obtain ⟨_, -, h⟩ := bind_eq_ok.mp h
  obtain ⟨_, -, h⟩ := bind_eq_ok.mp h
  obtain ⟨keyHashes, hkey, h⟩ := bind_eq_ok.mp h
  obtain ⟨_, -, h⟩ := bind_eq_ok.mp h
  obtain ⟨out, hout, h⟩ := bind_eq_ok.mp h
  obtain ⟨_, -, h'⟩ := bind_eq_ok.mp h'
  obtain ⟨_, -, h'⟩ := bind_eq_ok.mp h'
  obtain ⟨keyHashes', hkey', h'⟩ := bind_eq_ok.mp h'
  obtain ⟨_, -, h'⟩ := bind_eq_ok.mp h'
  obtain ⟨out', hout', h'⟩ := bind_eq_ok.mp h'
  have hkeys : keyHashes = keyHashes' := Except.ok.inj (hkey.symm.trans hkey')
  have houts : out = out' := (hreads _ _ _ _ _ _ hout).unique (hreads _ _ _ _ _ _ hout')
  subst hkeys houts
  exact Except.ok.inj (h.symm.trans h')

/-! ### A header that the circuit accepts -/

/-- A check of one line, as the package does it. -/
def constrainLine : ConstrainHeaderField := fun maxFieldLength header sequence name => do
  let stop ← sequence.endIndex
  assertThat (stop ≤ header.len)
  assertThat (sequence.index = 0 ∨ 2 ≤ sequence.index ∧
    header.getUnchecked (sequence.index - 2) = CR ∧ header.getUnchecked (sequence.index - 1) = LF)
  assertThat (stop = header.len ∨
    header.getUnchecked stop = CR ∧ nextByte header stop = LF)
  let line := slice header.bytes sequence.index stop
  assertThat (namesField name line = true)
  assertThat (CR ∉ line.take (name.length + 1 + maxFieldLength))
  assertThat (LF ∉ line.take (name.length + 1 + maxFieldLength))

theorem constrainLine_enforces : EnforcesWholeLine constrainLine := by
  intro maxFieldLength header sequence name hmax h
  obtain ⟨stop, hend, h⟩ := bind_eq_ok.mp h
  obtain ⟨_, hstop, h⟩ := bind_eq_ok.mp h
  obtain ⟨_, hopens, h⟩ := bind_eq_ok.mp h
  obtain ⟨_, hcloses, h⟩ := bind_eq_ok.mp h
  obtain ⟨_, hname, h⟩ := bind_eq_ok.mp h
  obtain ⟨_, hcr, hlf⟩ := bind_eq_ok.mp h
  have hstop : stop ≤ header.bytes.length := assertOr_eq_ok.mp hstop
  have hopens := assertOr_eq_ok.mp hopens
  have hcloses := assertOr_eq_ok.mp hcloses
  have hname := assertOr_eq_ok.mp hname
  have hcr := assertOr_eq_ok.mp hcr
  have hlf := assertOr_eq_ok.mp hlf
  have hstopEq := Sequence.endIndex_eq_ok hend
  have hline : (slice header.bytes sequence.index stop).length = sequence.length := by
    rw [length_slice hstop]
    omega
  rw [List.take_of_length_le (by omega)] at hcr hlf
  refine ⟨slice header.bytes 0 sequence.index, slice header.bytes sequence.index stop,
    slice header.bytes stop header.bytes.length, ⟨slice_split (by omega) hstop, ?_, ?_⟩, ?_, hline,
    hname, hcr, hlf⟩
  · rcases hopens with hzero | ⟨htwo, hbeforeCr, hbeforeLf⟩
    · exact .inl (by rw [hzero, slice_self])
    · obtain ⟨i, hi⟩ := Nat.exists_eq_add_of_le' htwo
      rw [hi] at hbeforeCr hbeforeLf
      have hcr : header.bytes[i]? = some CR := by
        rw [BoundedVec.getElem?_bytes (show i < header.bytes.length by omega), ← hbeforeCr]
        rfl
      have hlf : header.bytes[i + 1]? = some LF := by
        rw [BoundedVec.getElem?_bytes (show i + 1 < header.bytes.length by omega), ← hbeforeLf]
        rfl
      refine .inr ⟨slice header.bytes 0 i, ?_⟩
      rw [hi, slice_snoc (by omega) hlf, slice_snoc (by omega) hcr, List.append_assoc]
      rfl
  · rcases Nat.lt_or_eq_of_le hstop with hlt | heq
    · obtain ⟨hafterCr, hafterLf⟩ := hcloses.resolve_left (Nat.ne_of_lt hlt)
      have hnext := (nextByte_eq_iff (by decide)).mp hafterLf
      refine .inr ⟨slice header.bytes (stop + 2) header.bytes.length, ?_⟩
      rw [slice_cons hlt (BoundedVec.getElem?_bytes hlt), hafterCr,
        slice_cons (show stop + 1 < header.bytes.length from BoundedVec.lt_len hnext) hnext]
      rfl
    · exact .inl (by rw [heq, slice_self])
  · rw [length_slice (by omega)]
    rfl

/-- The Subject line of the fixture. -/
def fixtureSubject : Bytes :=
  ascii ['s', 'u', 'b', 'j', 'e', 'c', 't', ':', 'A', 'A', 'A', 'A', 'A', 'A', 'A', 'A', 'A',
    'A', 'A', 'A', 'A', 'A', 'A', 'A', 'A', 'A', 'A', 'A', 'A', 'A', 'A', 'A', 'A', 'A', 'A',
    'A', 'A', 'A', 'A', 'A', 'A', 'A', 'A', 'A', 'A', 'A', 'A', 'A', 'A', 'A', 'E']

def fixtureFrom : Bytes :=
  ascii ['f', 'r', 'o', 'm', ':', 'i', 's', 's', 'u', 'e', 'r', '@', 'e', 'x', 'a', 'm', 'p',
    'l', 'e', '.', 't', 'e', 's', 't']

def fixtureDkim : Bytes :=
  ascii ['d', 'k', 'i', 'm', '-', 's', 'i', 'g', 'n', 'a', 't', 'u', 'r', 'e', ':', 'v', '=',
    '1', ';', ' ', 'a', '=', 'r', 's', 'a', '-', 's', 'h', 'a', '2', '5', '6', ';', ' ', 'c',
    '=', 'r', 'e', 'l', 'a', 'x', 'e', 'd', '/', 'r', 'e', 'l', 'a', 'x', 'e', 'd', ';', ' ',
    'd', '=', 'e', 'x', 'a', 'm', 'p', 'l', 'e', '.', 't', 'e', 's', 't', ';', ' ', 'h', '=',
    'f', 'r', 'o', 'm', ':', 's', 'u', 'b', 'j', 'e', 'c', 't', ';', ' ', 'b', '=']

def fixture : Header where
  bytes := fixtureSubject ++ [CR, LF] ++ fixtureFrom ++ [CR, LF] ++ fixtureDkim
  length_le := by decide +kernel

def fixtureTags : DkimTags where
  version := ⟨94, 3⟩
  algorithm := ⟨99, 12⟩
  canonicalization := ⟨113, 17⟩
  domain := ⟨132, 14⟩
  signedHeaders := ⟨148, 14⟩
  signature := ⟨164, 2⟩

def fixtureOutputs : Outputs where
  subjectBytes := ⟨⟨fixtureSubject.drop 8⟩, by decide⟩
  domain := ⟨ascii ['e', 'x', 'a', 'm', 'p', 'l', 'e', '.', 't', 'e', 's', 't'], by decide⟩
  fromBytes := ⟨fixtureFrom, by decide⟩

/-- The header of the tests is read as its outputs say. -/
theorem fixture_reads : Reads fixture.bytes fixtureOutputs :=
  (checkHeaders_binds constrainLine constrainLine_enforces).1 fixture ⟨0, 51⟩ ⟨53, 24⟩ ⟨79, 87⟩
    fixtureTags fixtureOutputs (by decide +kernel)

end ZkPoR.Circuit.Email
