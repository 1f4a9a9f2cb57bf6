import ZkPoR.EmailTagReader

/-! # The preparation of a witness agrees with the circuit

What `preparedInputs` reports are the identifier and the hashes of what the circuit answers
for its positions.  And for a header that the circuit accepts, in which no tag name repeats
and whose Subject is the one of an identifier, `preparedInputs` finds positions that the
circuit accepts with the same answers: those that the circuit was given, but for the spaces
at the end of the h tag.
-/
namespace ZkPoR.EmailTool
open ByteString HexText JsonText JavaScript Binary64 InsertionMap Splitting Trimming
open BoundedLoop (bind_eq_ok)
open Circuit (Sequence BoundedVec)
open Circuit.Email hiding signedNames
open CheckedInt (U256)

/-! ## The names of an h tag -/

/-- On the letters of a name both functions are one. -/
theorem toLowerCase_of_isLower {byte : UInt8} (h : isLower (toLower byte) = true) :
    toLowerCase byte = toLower byte := by
  unfold toLower at h ⊢
  unfold toLowerCase
  by_cases hupper : isUpper byte = true
  · rw [if_pos hupper]
    rw [isUpper, Bool.and_eq_true, decide_eq_true_eq, decide_eq_true_eq] at hupper
    rw [if_pos (.inl hupper)]
  · rw [if_neg hupper] at h ⊢
    simp only [isLower, Bool.and_eq_true, decide_eq_true_eq, UInt8.le_iff_toNat_le] at h
    change 97 ≤ byte.toNat ∧ byte.toNat ≤ 122 at h
    refine if_neg ?_
    simp only [UInt8.le_iff_toNat_le]
    change ¬ (65 ≤ byte.toNat ∧ byte.toNat ≤ 90 ∨
      192 ≤ byte.toNat ∧ byte.toNat ≤ 222 ∧ byte ≠ 215)
    omega

theorem eq_colon_of_toLowerCase {byte : UInt8} (h : toLowerCase byte = COLON) : byte = COLON := by
  unfold toLowerCase at h
  split at h
  · -- no letter is a colon
    rename_i hletter
    simp only [UInt8.le_iff_toNat_le] at hletter
    change 65 ≤ byte.toNat ∧ byte.toNat ≤ 90 ∨
      192 ≤ byte.toNat ∧ byte.toNat ≤ 222 ∧ byte ≠ 215 at hletter
    have hsum : (byte.toNat + 32) % 2 ^ 8 = 58 := congrArg UInt8.toNat h
    omega
  · exact h

theorem trim_of_isLower {left name right : Bytes} (hleft : ∀ x ∈ left, x = SPACE)
    (hright : ∀ x ∈ right, x = SPACE) (hname : ∀ x ∈ name, isLower x = true) :
    trim (left ++ name ++ right) = name :=
  (trimmed_append (isSpace_of_eq hleft) (isSpace_of_eq hright)).trans (trimmed_of_ends
    (fun x hx => isSpace_of_isLower (hname x (List.mem_of_head? hx)))
    (fun x hx => isSpace_of_isLower (hname x (List.mem_of_getLast? hx))))

theorem map_spaces {xs : Bytes} (h : ∀ x ∈ xs, x = SPACE) :
    ∀ x ∈ xs.map toLowerCase, x = SPACE := by
  intro x hx
  obtain ⟨y, hy, rfl⟩ := List.mem_map.mp hx
  rw [h y hy]
  rfl

/-- **A name that the circuit finds in the list is one that `preparedInputs` finds.** -/
theorem mem_signedNames {header : Header} {lo hi : Nat} {name : Bytes}
    (h : Lists header lo hi name) (hlower : ∀ x ∈ name, isLower x = true) :
    name ∈ signedNames (slice header.bytes lo hi) := by
  obtain ⟨i, j, hlo, hij, hj, hopens, hcloses, hcolon, htrim⟩ := h
  -- the entry between its colons, in lower case
  have hat := (pieceAt_slice hlo hij hj hopens hcloses).map toLowerCase
  have hnotMem : COLON ∉ (slice header.bytes i j).map toLowerCase := by
    intro hmem
    obtain ⟨y, hy, heq⟩ := List.mem_map.mp hmem
    exact hcolon (eq_colon_of_toLowerCase heq ▸ hy)
  have hmem := (splits_splitOn COLON).mem_of_pieceAt hat (List.splitOn_eq_singleton hnotMem)
  refine List.mem_map.mpr ⟨_, hmem, ?_⟩
  obtain ⟨left, right, hentry, hleft, hright⟩ :=
    exists_trimmed (p := (· == SPACE)) (slice header.bytes i j)
  have hsame : (trimSpaces (slice header.bytes i j)).map toLowerCase = name := by
    rw [← htrim]
    refine List.map_congr_left fun x hx => toLowerCase_of_isLower (hlower _ ?_)
    rw [← htrim]
    exact List.mem_map_of_mem hx
  rw [hentry, List.map_append, List.map_append,
    show (trimmed (· == SPACE) (slice header.bytes i j)).map toLowerCase = name from hsame]
  exact trim_of_isLower (map_spaces fun x hx => beq_iff_eq.mp (hleft x hx))
    (map_spaces fun x hx => beq_iff_eq.mp (hright x hx)) hlower

/-! ## The tags -/

section Tags
variable {header : Header} {base start stop : Nat} {tag : Sequence} {c : UInt8}

/-- The text of a tag. -/
def tagBody (header : Header) (tag : Sequence) : Bytes :=
  slice header.bytes (tag.index + 2) (tag.index + tag.length)

/-- A tag is read from its own position, without the spaces at its end. -/
theorem tagOf_eq (h : TagAt header base tag c start stop) (hlower : isLower c = true) :
    tagOf (start, slice header.bytes start stop) =
      ⟨(tagBody header tag).rdropWhile isSpace,
        ⟨tag.index, 2 + ((tagBody header tag).rdropWhile isSpace).length⟩⟩ := by
  have htwo := h.two_le
  have hstart := h.start_le
  have hle := h.le_stop
  have hstop : stop ≤ header.bytes.length := h.stop_le
  have hpiece : slice header.bytes start stop = slice header.bytes start tag.index ++ [c] ++
      EQUALS :: slice header.bytes (tag.index + 2) stop := by
    rw [← slice_append hstart (show tag.index ≤ stop by omega), slice_cons (by omega) h.name_eq,
      slice_cons (by omega) h.equals_eq, List.append_assoc, List.singleton_append]
  have hbody : (slice header.bytes (tag.index + 2) stop).rdropWhile isSpace =
      (tagBody header tag).rdropWhile isSpace := by
    rw [← slice_append (show tag.index + 2 ≤ tag.index + tag.length by omega) hle]
    exact rdropWhile_append_of_pos (isSpace_of_eq h.right_eq)
  obtain ⟨htrimStart, htrim⟩ := trim_of_tag h.left_eq (List.cons_ne_nil c [])
    (by simpa using hlower) (slice header.bytes (tag.index + 2) stop)
  rw [← hpiece] at htrimStart htrim
  have hleading : start + ((slice header.bytes start stop).length -
      (trimStart (slice header.bytes start stop)).length) = tag.index := by
    rw [htrimStart, hpiece, List.length_append, List.length_append, List.length_append,
      length_slice (by omega)]
    omega
  have hlength : (trim (slice header.bytes start stop)).length =
      2 + ((tagBody header tag).rdropWhile isSpace).length := by
    rw [htrim, hbody, List.length_append, List.length_singleton, List.length_cons]
    omega
  rw [tagOf, hleading, hlength, (h.tagName_eq hlower).2, hbody]

/-- A tag whose text does not end at a space is read as it stands. -/
theorem tagOf_of_last (h : TagAt header base tag c start stop) (hlower : isLower c = true)
    (hlast : ∀ x ∈ (tagBody header tag).getLast?, isSpace x = false) :
    tagOf (start, slice header.bytes start stop) = ⟨tagBody header tag, tag⟩ := by
  have htwo := h.two_le
  have hend : tag.index + tag.length ≤ header.bytes.length := h.le_stop.trans h.stop_le
  have hlength : 2 + (tagBody header tag).length = tag.length := by
    rw [tagBody, length_slice hend]
    omega
  rw [tagOf_eq h hlower, rdropWhile_of_last hlast, hlength]

end Tags

section Accepted
variable {constrainHeaderField : ConstrainHeaderField} {header : Header}
  {subject fromSequence dkim : Sequence} {tags : Circuit.Email.DkimTags} {out : Outputs}
  {trace : Nat → FieldScan × TagScan}

/-- The value of the DKIM field. -/
def dkimValue (header : Header) (dkim : Sequence) : Bytes :=
  slice header.bytes (Sequence.tagBase dkim) header.len

/-- No line ends in the value. -/
theorem notMem_dkimValue (h : WholeLine header dkim DKIM_NAME)
    (hend : dkim.index + dkim.length = header.len) :
    LF ∉ dkimValue header dkim ∧ CR ∉ dkimValue header dkim := by
  obtain ⟨before, line, after, hat, hbefore, hlength, -, hcr, hlf⟩ := h
  have hline := slice_of_eq_append hat.eq
  rw [hbefore, hlength, hend] at hline
  have hmem : ∀ x ∈ dkimValue header dkim, x ∈ line := by
    intro x hx
    obtain ⟨m, hlo, hm, hget⟩ := mem_slice.mp hx
    rw [← hline]
    exact mem_slice.mpr ⟨m, by unfold Sequence.tagBase at hlo; omega, hm, hget⟩
  exact ⟨fun hx => hlf (hmem _ hx), fun hx => hcr (hmem _ hx)⟩

/-- **The parts of the value of an accepted header are tags.** -/
theorem Accepted.areTags (h : Accepted header subject fromSequence dkim tags out trace) :
    AreTags ((dkimValue header dkim).splitOn SEMICOLON) := by
  intro part hpart
  obtain ⟨before, after, hat⟩ := (splits_splitOn SEMICOLON).exists_pieceAt hpart
  obtain ⟨hlf, hcr⟩ := notMem_dkimValue h.dkim_line h.dkim_end
  refine (h.piece_shape hat).imp id ?_
  rintro ⟨left, name, rest, rfl, hleft, hname, hlower, -⟩
  have hmem : ∀ x ∈ rest, x ∈ dkimValue header dkim := by
    intro x hx
    rw [hat.eq]
    simp [hx]
  exact ⟨left, name, rest, rfl, hleft, hname, hlower, fun hx => hlf (hmem _ hx),
    fun hx => hcr (hmem _ hx)⟩

/-- The only space among the bytes of an h tag is the one of the circuit. -/
theorem eq_space_of_isNameByte {byte : UInt8} (h : IsNameByte byte) (hspace : isSpace byte = true) :
    byte = SPACE := by
  rcases h with rfl | rfl | hletter | rfl
  · exact absurd hspace (by decide)
  · rfl
  · -- a letter is no space
    exfalso
    unfold toLower at hletter
    split at hletter
    · rename_i hupper
      simp only [isSpace, isUpper, Bool.or_eq_true, Bool.and_eq_true, beq_iff_eq,
        decide_eq_true_eq, UInt8.le_iff_toNat_le, ← UInt8.toNat_inj] at hupper hspace
      change 65 ≤ byte.toNat ∧ byte.toNat ≤ 90 at hupper
      change (byte.toNat = 32 ∨ 9 ≤ byte.toNat ∧ byte.toNat ≤ 13) ∨ byte.toNat = 160 at hspace
      omega
    · rw [isSpace_of_isLower hletter] at hspace
      cases hspace
  · exact absurd hspace (by decide)

/-- The length of a tag without the spaces at its end. -/
def trimmedLength (header : Header) (tag : Sequence) : Nat :=
  2 + ((tagBody header tag).rdropWhile isSpace).length

/-- Behind the trimmed h tag only spaces belong to the tag. -/
theorem spaces_behind {tag : Sequence} (htwo : 2 ≤ tag.length)
    (hend : tag.index + tag.length ≤ header.len)
    (hbytes : ∀ x ∈ tagBody header tag, IsNameByte x) :
    trimmedLength header tag ≤ tag.length ∧
      slice header.bytes (tag.index + 2) (tag.index + trimmedLength header tag) =
        (tagBody header tag).rdropWhile isSpace ∧
      ∀ j, tag.index + trimmedLength header tag ≤ j → j < tag.index + tag.length →
        header.bytes[j]? = some SPACE := by
  have hbody : tagBody header tag = (tagBody header tag).rdropWhile isSpace ++
      (tagBody header tag).rtakeWhile isSpace := List.rdropWhile_append_rtakeWhile.symm
  have hlength : (tagBody header tag).length = tag.length - 2 := by
    rw [tagBody, length_slice hend]
    omega
  have hsum := congrArg List.length hbody
  rw [List.length_append, hlength] at hsum
  unfold trimmedLength
  refine ⟨by omega, ?_, fun j hlo hj => ?_⟩
  · refine List.append_inj_left ((slice_append ?_ ?_).trans hbody) ?_
    · omega
    · omega
    have hbytes : header.len = header.bytes.length := rfl
    rw [length_slice (by omega)]
    omega
  · have hget : (tagBody header tag)[j - (tag.index + 2)]? = header.bytes[j]? := by
      rw [tagBody, getElem?_slice, if_pos (by omega),
        show tag.index + 2 + (j - (tag.index + 2)) = j by omega]
    have hright := hget
    rw [hbody, List.getElem?_append_right (by omega)] at hright
    rw [BoundedVec.getElem?_bytes (by omega)] at hget hright ⊢
    rw [eq_space_of_isNameByte (hbytes _ (List.mem_of_getElem? hget))
      (List.mem_rtakeWhile_imp (List.mem_of_getElem? hright))]

/-! ## The selected tags -/

/-- The map holds every tag of the DKIM value under its name. -/
def HoldsTags (header : Header) (dkim : Sequence) (read : OrderedMap Bytes Tag) : Prop :=
  ∀ p ∈ located 1 (Sequence.tagBase dkim) ((dkimValue header dkim).splitOn SEMICOLON),
    tagName p.2 ≠ [] → read.get (tagName p.2) = some (tagOf p)

section Held
variable {read : OrderedMap Bytes Tag}

theorem HoldsTags.get (h : HoldsTags header dkim read) {tag : Sequence} {c : UInt8}
    {start stop : Nat} (hat : TagAt header (Sequence.tagBase dkim) tag c start stop)
    (hlower : isLower c = true) :
    read.get [c] = some (tagOf (start, slice header.bytes start stop)) := by
  have hmem : (Sequence.tagBase dkim +
      (slice header.bytes (Sequence.tagBase dkim) start).length, slice header.bytes start stop) ∈
        located 1 (Sequence.tagBase dkim) ((dkimValue header dkim).splitOn SEMICOLON) :=
    (splits_splitOn SEMICOLON).mem_located (fun xs => List.splitOn_ne_nil SEMICOLON xs) hat.pieceAt
      (List.splitOn_eq_singleton hat.notMem_piece)
  have hstart : Sequence.tagBase dkim + (slice header.bytes (Sequence.tagBase dkim) start).length =
      start := by
    have hlen : start ≤ header.bytes.length := hat.start_le.trans
      ((Nat.le_add_right _ _).trans (hat.le_stop.trans hat.stop_le))
    rw [length_slice hlen]
    have := hat.base_le
    omega
  rw [hstart] at hmem
  obtain ⟨hname, -⟩ := hat.tagName_eq hlower
  have hget := h _ hmem (by rw [hname]; exact List.cons_ne_nil _ _)
  rwa [hname] at hget

/-- A required tag whose text does not end at a space. -/
theorem HoldsTags.get_of_text (h : HoldsTags header dkim read)
    (haccepted : Accepted header subject fromSequence dkim tags out trace) (kind : Nat)
    (hkind : kind < TAG_KINDS) {tag : Sequence} (htag : tags.selected[kind] = tag) {value : Bytes}
    (htext : slice header.bytes tag.index (tag.index + tag.length) =
      [BoundedLoop.entry 0 names kind, EQUALS] ++ value)
    (hlast : ∀ x ∈ value.getLast?, isSpace x = false) :
    read.get [BoundedLoop.entry 0 names kind] = some ⟨value, tag⟩ := by
  obtain ⟨start, stop, hat⟩ := haccepted.exists_tagAt kind hkind htag
  have hbody : tagBody header tag = value :=
    List.append_cancel_left (hat.slice_tag.symm.trans htext)
  have hlower := Circuit.Email.Accepted.isLower_names kind hkind
  rw [h.get hat hlower, tagOf_of_last hat hlower (by rwa [hbody]), hbody]

theorem isSpace_of_isHostName {domain : Bytes} (h : IsHostName domain) :
    ∀ x ∈ domain, isSpace x = false := by
  intro x hx
  by_cases hdot : x = DOT
  · rw [hdot]
    decide
  · obtain ⟨label, hlabel, hmem⟩ := (splits_splitOn DOT).exists_mem hx (by simpa using hdot)
    rcases (h.labels label hlabel).forall_mem x hmem with hlower | hdigit | rfl
    · exact isSpace_of_isLower hlower
    · by_contra hspace
      rw [Bool.not_eq_false] at hspace
      simp only [isSpace, isDigit, Bool.or_eq_true, Bool.and_eq_true, beq_iff_eq,
        decide_eq_true_eq, UInt8.le_iff_toNat_le, ← UInt8.toNat_inj] at hdigit hspace
      change 48 ≤ x.toNat ∧ x.toNat ≤ 57 at hdigit
      change (x.toNat = 32 ∨ 9 ≤ x.toNat ∧ x.toNat ≤ 13) ∨ x.toNat = 160 at hspace
      omega
    · decide

/-- The positions of an accepted header, without the spaces at the end of the h tag. -/
def trimmedTags (header : Header) (tags : Circuit.Email.DkimTags) : Circuit.Email.DkimTags :=
  tags.shorten (trimmedLength header tags.signedHeaders)

/-- **The tags that `preparedInputs` selects** are those that the circuit was given. -/
theorem HoldsTags.selected (h : HoldsTags header dkim read)
    (haccepted : Accepted header subject fromSequence dkim tags out trace)
    (hnames : Circuit.Email.signedNames header (trimmedTags header tags).signedHeaders = .ok ()) :
    Selected read out.domain.bytes (trimmedTags header tags) := by
  have hlower := Circuit.Email.Accepted.isLower_names
  refine ⟨?_, ?_, ?_, ?_, ?_, ?_⟩
  · obtain ⟨start, stop, hat⟩ := haccepted.exists_tagAt 0 (by decide)
      (show _ = tags.domain from rfl)
    obtain ⟨-, hbytes, hhost⟩ := readDomain_eq_ok (hat.le_stop.trans hat.stop_le) haccepted.domain
    refine h.get_of_text haccepted 0 (by decide) rfl ?_
      fun x hx => isSpace_of_isHostName hhost x (List.mem_of_getLast? hx)
    rw [hbytes]
    exact hat.slice_tag
  · obtain ⟨start, stop, hat⟩ := haccepted.exists_tagAt 3 (by decide)
      (show _ = tags.signedHeaders from rfl)
    have hend := hat.le_stop.trans hat.stop_le
    obtain ⟨hle, hvalue, -⟩ := spaces_behind hat.two_le hend
      (isNameByte_of_signedNames hend haccepted.signedNames)
    have hshort : (trimmedTags header tags).signedHeaders.index +
        (trimmedTags header tags).signedHeaders.length ≤ header.len :=
      (Nat.add_le_add_left hle _).trans hend
    obtain ⟨hfrom, hsubject⟩ := signedNames_eq_ok hshort hnames
    refine ⟨_, (h.get hat (hlower 3 (by decide))).trans
      (congrArg some (tagOf_eq hat (hlower 3 (by decide)))), ?_, ?_⟩
    · rw [← hvalue]
      exact mem_signedNames hfrom (by decide +kernel)
    · rw [← hvalue]
      exact mem_signedNames hsubject (by decide +kernel)
  · exact h.get_of_text haccepted 1 (by decide) rfl (exact_eq_ok haccepted.algorithm)
      (by decide +kernel)
  · exact h.get_of_text haccepted 2 (by decide) rfl (exact_eq_ok haccepted.canonicalization)
      (by decide +kernel)
  · exact h.get_of_text haccepted 4 (by decide) rfl (exact_eq_ok haccepted.version)
      (by decide +kernel)
  · exact h.get_of_text haccepted 5 (by decide) rfl (exact_eq_ok haccepted.signature)
      (by decide +kernel)

end Held

end Accepted

/-! ## The fields -/

section Fields
variable {header : Header} {sequence : Sequence} {name : Bytes}

theorem map_line_fieldsFrom (offset : Nat) (lines : List Bytes) :
    (fieldsFrom offset lines).map Field.line = lines := by
  rw [fieldsFrom_eq, List.map_map]
  exact map_snd_located

/-- The field at a sequence. -/
def fieldAt (header : Header) (sequence : Sequence) : Field :=
  ⟨slice header.bytes sequence.index (sequence.index + sequence.length), sequence.index⟩

theorem fieldAt_sequence (h : WholeLine header sequence name) :
    (fieldAt header sequence).sequence = sequence := by
  obtain ⟨before, line, after, hat, hbefore, hlength, -⟩ := h
  have hline := slice_of_eq_append hat.eq
  rw [hbefore, hlength] at hline
  rw [Field.sequence, fieldAt, hline, hlength]

/-- A whole line is a field. -/
theorem mem_fieldsFrom_of_wholeLine (h : WholeLine header sequence name) :
    fieldAt header sequence ∈ fieldsFrom 0 (crlfLines header.bytes) := by
  obtain ⟨before, line, after, hat, hbefore, hlength, -, hcr, -⟩ := h
  have hline := slice_of_eq_append hat.eq
  rw [hbefore, hlength] at hline
  have hmem : (0 + before.length, line) ∈
      located [CR, LF].length 0 (crlfLines header.bytes) :=
    splits_crlfLines.mem_located splitOnPair_ne_nil hat (splitOnPair_of_notMem hcr)
  rw [Nat.zero_add, hbefore, ← hline] at hmem
  exact mem_fieldsFrom.mpr hmem

/-- The one line with a name is the one field with it. -/
theorem one_eq_ok_of_lines {name : String} {fields : List Field} {item : Field}
    (hmem : item ∈ fields) (hlines : (fields.map Field.line).filter
      (startsWith · (text s!"{name}:")) = [item.line]) : one fields name = .ok item := by
  rw [one_eq_ok]
  rw [List.filter_map, List.map_eq_singleton_iff] at hlines
  obtain ⟨found, hfound, hline⟩ := hlines
  have hitem : item ∈ fields.filter ((startsWith · (text s!"{name}:")) ∘ Field.line) := by
    refine List.mem_filter.mpr ⟨hmem, ?_⟩
    have hstarts : found ∈ fields.filter ((startsWith · (text s!"{name}:")) ∘ Field.line) := by
      rw [hfound]
      exact List.mem_singleton_self found
    rw [Function.comp_apply, ← hline]
    exact (List.mem_filter.mp hstarts).2
  rw [hfound, List.mem_singleton] at hitem
  rw [hitem]
  exact hfound

end Fields

section Accepted
variable {constrainHeaderField : ConstrainHeaderField} {header : Header}
  {subject fromSequence dkim : Sequence} {tags : Circuit.Email.DkimTags} {out : Outputs}
  {trace : Nat → FieldScan × TagScan}

/-- The DKIM field of an accepted header. -/
theorem Accepted.dkimLine (h : Accepted header subject fromSequence dkim tags out trace) :
    (fieldAt header dkim).line = DKIM_NAME ++ [COLON] ++ dkimValue header dkim := by
  have hslice := h.dkim_line.slice_eq
  rw [h.dkim_end] at hslice
  rw [fieldAt, h.dkim_end]
  exact hslice

/-- **It is the last field**, where the circuit has it. -/
theorem Accepted.getLast?_fields (h : Accepted header subject fromSequence dkim tags out trace) :
    (fieldsFrom 0 (crlfLines header.bytes)).getLast? = some (fieldAt header dkim) := by
  obtain ⟨earlier, hlines, -, -⟩ := h.lines
  have hline : DKIM_NAME ++ [COLON] ++ slice header.bytes (Sequence.tagBase dkim) header.len =
      (fieldAt header dkim).line := (Accepted.dkimLine h).symm
  rw [hline] at hlines
  have hlength : (fieldAt header dkim).line.length = dkim.length :=
    congrArg Sequence.length (fieldAt_sequence h.dkim_line)
  -- the earlier lines fill the header up to the field
  have hsum := splits_crlfLines.sum_length splitOnPair_ne_nil header.bytes
  rw [hlines, List.map_append, List.sum_append, List.map_singleton, List.sum_singleton,
    hlength] at hsum
  have hend : dkim.index + dkim.length = header.bytes.length := h.dkim_end
  have hindex : (earlier.map fun piece => piece.length + [CR, LF].length).sum = dkim.index :=
    Nat.add_right_cancel (hsum.trans (by rw [← hend, Nat.add_assoc]))
  rw [fieldsFrom_eq, hlines, located_append, List.map_append, located, located, List.map_singleton,
    List.getLast?_concat, hindex, Nat.zero_add]
  rfl

/-- **The fields that `preparedInputs` selects** are those that the circuit was given. -/
theorem Accepted.selectFields_eq_ok
    (h : Accepted header subject fromSequence dkim tags out trace)
    (hfrom : fromSequence.length ≤ MAX_FROM_LENGTH) :
    selectFields header.bytes = .ok (fieldAt header subject, fieldAt header fromSequence,
      fieldAt header dkim) := by
  obtain ⟨earlier, hlines, hfromLines, hsubjectLines⟩ := h.lines
  have hline : DKIM_NAME ++ [COLON] ++ slice header.bytes (Sequence.tagBase dkim) header.len =
      (fieldAt header dkim).line := (Accepted.dkimLine h).symm
  have hfilter : ∀ {name : Bytes} {sequence : Sequence},
      namesField name (DKIM_NAME ++ [COLON] ++
        slice header.bytes (Sequence.tagBase dkim) header.len) = false →
      earlier.filter (namesField name) = [(fieldAt header sequence).line] →
      ((fieldsFrom 0 (crlfLines header.bytes)).map Field.line).filter (namesField name) =
        [(fieldAt header sequence).line] := by
    intro name sequence hother hearlier
    rw [map_line_fieldsFrom, hlines, List.filter_append, hearlier, List.filter_cons, hother]
    rfl
  refine EmailTool.selectFields_eq_ok.mpr
    ⟨one_eq_ok_of_lines (mem_fieldsFrom_of_wholeLine h.subject_line) (hfilter rfl hsubjectLines),
      one_eq_ok_of_lines (mem_fieldsFrom_of_wholeLine h.from_line) (hfilter rfl hfromLines),
      Accepted.getLast?_fields h, ?_, ?_⟩
  · rw [Accepted.dkimLine h]
    rfl
  · have hlength : (fieldAt header fromSequence).line.length = fromSequence.length :=
      congrArg Sequence.length (fieldAt_sequence h.from_line)
    rw [hlength]
    exact hfrom

/-! ## The whole header -/

/-- The parts of the last line between semicolons, behind the name of the field. -/
def dkimParts (header : Bytes) : List Bytes :=
  (((crlfLines header).getLast?.getD []).drop (DKIM_NAME ++ [COLON]).length).splitOn SEMICOLON

theorem Accepted.dkimParts_eq (h : Accepted header subject fromSequence dkim tags out trace) :
    dkimParts header.bytes = (dkimValue header dkim).splitOn SEMICOLON := by
  obtain ⟨earlier, hlines, -, -⟩ := h.lines
  rw [dkimParts, hlines, List.getLast?_concat, Option.getD_some, List.drop_left]
  rfl

/-- **The tags that `preparedInputs` finds.** -/
theorem Accepted.selectTags_eq_ok (h : Accepted header subject fromSequence dkim tags out trace)
    (hnodup : (tagNames (dkimParts header.bytes)).Nodup)
    (hnames : Circuit.Email.signedNames header (trimmedTags header tags).signedHeaders = .ok ()) :
    selectTags (fieldAt header dkim) = .ok (out.domain.bytes, trimmedTags header tags) := by
  rw [Accepted.dkimParts_eq h] at hnodup
  obtain ⟨read, hread, hholds⟩ :
      ∃ read, readTags (Sequence.tagBase dkim) (dkimValue header dkim) = .ok read ∧
        HoldsTags header dkim read := exists_readTags (Accepted.areTags h) hnodup
  refine EmailTool.selectTags_eq_ok.mpr ⟨read, ?_, HoldsTags.selected hholds h hnames⟩
  rw [Accepted.dkimLine h]
  exact hread

/-- The parts that `preparedInputs` makes its witness of. -/
def partsOf (header : Header) (subject fromSequence dkim : Sequence)
    (tags : Circuit.Email.DkimTags) (out : Outputs) (id : Nat) : Parts where
  subject := fieldAt header subject
  fromField := fieldAt header fromSequence
  dkim := fieldAt header dkim
  id := id
  domain := out.domain.bytes
  tags := trimmedTags header tags

/-- The Subject of an accepted header is read as the identifier that it is the text of. -/
theorem Accepted.readIdentifier_eq_ok {engine : Engine}
    (h : Accepted header subject fromSequence dkim tags out trace)
    (hprimitives : engine.primitives.Documented) {id : Nat} (hne : id ≠ 0) (hlt : id < frModulus)
    (hid : out.subjectBytes.toList = Email.subject (BitVec.ofNat 256 id)) :
    readIdentifier engine (fieldAt header subject) = .ok id := by
  have hsubjectEnd := h.subject_end
  have hdkimEnd := h.dkim_end
  have hlength := h.subject_length
  obtain ⟨hbytes, -⟩ := readSubject_eq_ok (by omega) h.subjectBytes
  refine (EmailTool.readIdentifier_eq_ok hprimitives).mpr ⟨hne, hlt, ?_⟩
  rw [← hid, hbytes, fieldAt, hlength, drop_slice]
  rfl

/-- **What `preparedInputs` finds in an accepted header**, and the circuit accepts it. -/
theorem exists_selects {engine : Engine} (hprimitives : engine.primitives.Documented)
    (hconstrain : EnforcesWholeLine constrainHeaderField)
    (hcheck : checkHeaders constrainHeaderField header subject fromSequence dkim tags = .ok out)
    (hnodup : (tagNames (dkimParts header.bytes)).Nodup) {id : Nat} (hne : id ≠ 0)
    (hlt : id < frModulus)
    (hid : out.subjectBytes.toList = Email.subject (BitVec.ofNat 256 id)) :
    Selects engine header.bytes (partsOf header subject fromSequence dkim tags out id) ∧
      checkHeaders constrainHeaderField header (fieldAt header subject).sequence
        (fieldAt header fromSequence).sequence (fieldAt header dkim).sequence
        (trimmedTags header tags) = .ok out := by
  have hchecked := checkHeaders_iff.mp hcheck
  obtain ⟨trace, h⟩ := checkHeaders_eq_ok hconstrain hcheck
  have hsigned : tagBounds header dkim tags.signedHeaders = .ok () := hchecked.bounds 3 (by decide)
  obtain ⟨htwo, hend, -⟩ := tagBounds_eq_ok hsigned
  obtain ⟨hle, -, hspaces⟩ := spaces_behind htwo hend
    (isNameByte_of_signedNames hend hchecked.signedNames)
  have hshort := hchecked.shorten (Nat.le_add_right _ _) hle hspaces
  refine ⟨⟨Accepted.selectFields_eq_ok h hchecked.from_length.2,
    Accepted.readIdentifier_eq_ok h hprimitives hne hlt hid,
    Accepted.selectTags_eq_ok h hnodup hshort.signedNames⟩, ?_⟩
  rw [fieldAt_sequence h.subject_line, fieldAt_sequence h.from_line, fieldAt_sequence h.dkim_line]
  exact checkHeaders_iff.mpr hshort

end Accepted

/-! ## The output of the helper -/

/-- A number in decimal, as the helper writes it. -/
def decimalItem (n : Nat) : Value := .string (Text.ofString (decimalText n))

theorem fieldItem_decimalItem (n : Nat) : fieldItem (decimalItem n) = some n := by
  have htext : (decimalText n).toList = Nat.toDigits 10 n := String.toList_ofList
  simp only [fieldItem, decimalItem, Text.toString?_ofString]
  dsimp only [bind, Option.bind]
  split
  · rename_i digits heq
    have hx : 'x'.isDigit = true :=
      DecimalText.isDigit_toDigits (n := n) (by rw [← htext, heq]; simp)
    exact absurd hx (by decide)
  · rw [htext, if_pos (DecimalText.isDecimal_toDigits n), Nat.ofDigitChars_ten_toDigits]

theorem fieldArray_decimalItem {values : List Nat} (h : ∀ n ∈ values, n < frModulus) :
    fieldArray (some (.array (values.map decimalItem))) values.length = .ok values := by
  have hitems : (values.map decimalItem).mapM fieldItem = some values := by
    clear h
    induction values with
    | nil => rfl
    | cons n values ih =>
      rw [List.map_cons, List.mapM_cons, fieldItem_decimalItem, ih]
      rfl
  rw [fieldArray]
  simp only [Option.bind_some, Value.elements?, List.length_map, ne_eq, not_true_eq_false, hitems]
  simpa using h

/-- The storage of a header: its bytes, and zeros up to the bound. -/
def storageOf (header : Header) : List Nat :=
  header.bytes.map UInt8.toNat ++ List.replicate (HEADER_BOUND - header.len) 0

/-- What the helper writes about a header and a key. -/
def helperOutput (header : Header) (signature modulus redc : List Nat) : Value :=
  .object [
    (Text.ofString "signature", .array (signature.map decimalItem)),
    (Text.ofString "header", .object [
      (Text.ofString "storage", .array ((storageOf header).map decimalItem)),
      (Text.ofString "len", decimalItem header.len)]),
    (Text.ofString "pubkey", .object [
      (Text.ofString "modulus", .array (modulus.map decimalItem)),
      (Text.ofString "redc", .array (redc.map decimalItem))])]

/-- The limbs of a key or of a signature. -/
def AreLimbs (values : List Nat) : Prop :=
  values.length = KEY_LIMBS ∧ ∀ n ∈ values, n < frModulus

theorem fieldArray_limbs {values : List Nat} (h : AreLimbs values) :
    fieldArray (some (.array (values.map decimalItem))) KEY_LIMBS = .ok values := by
  rw [← h.1]
  exact fieldArray_decimalItem h.2

/-- **The output of the helper supplies the header.** -/
theorem supplies_helperOutput {engine : Engine} {header : Header}
    {signature modulus redc : List Nat} (hnumber : ∀ n < HEADER_BOUND,
      (engine.number (some (decimalItem n))).bind Double.toInt? = some (n : Int))
    (hlen : 0 < header.len ∧ header.len < HEADER_BOUND) (hsignature : AreLimbs signature)
    (hmodulus : AreLimbs modulus) (hredc : AreLimbs redc) :
    Supplies engine (helperOutput header signature modulus redc)
      ⟨storageOf header, header.len, header.bytes, signature, modulus, redc⟩ := by
  refine ⟨_, _, _, rfl, rfl, rfl, readHeader_eq_ok.mpr ⟨?_, ?_, ?_⟩, fieldArray_limbs hsignature,
    fieldArray_limbs hmodulus, fieldArray_limbs hredc⟩
  · have hlength : (storageOf header).length = HEADER_BOUND := by
      rw [storageOf, List.length_append, List.length_map, List.length_replicate]
      exact Nat.add_sub_cancel' hlen.2.le
    rw [← hlength]
    refine fieldArray_decimalItem fun n hn => ?_
    rcases List.mem_append.mp hn with hn | hn
    · obtain ⟨byte, -, rfl⟩ := List.mem_map.mp hn
      exact byte.toNat_lt.trans (by decide)
    · rw [(List.mem_replicate.mp hn).2]
      decide
  · refine bind_eq_ok.mpr ⟨header.len, orThrow_eq_ok.mpr (hnumber _ hlen.2), bind_eq_ok.mpr
      ⟨(), throwIf_eq_ok.mpr ?_, rfl⟩⟩
    omega
  · exact List.take_left' (List.length_map _)

/-! ## The agreement -/

/-- What is reported is what the circuit answers. -/
structure Reports (engine : Engine) (p : Prepared) (out : Outputs) : Prop where
  id : ∃ id, id ≠ 0 ∧ id < frModulus ∧
    out.subjectBytes.toList = Email.subject (BitVec.ofNat 256 id) ∧
    p.id = hexText (BitVec.ofNat 256 id)
  domainHash : p.domainHash = String.ofList (hexOf (engine.primitives.sha256 out.domain.bytes))
  fromHeaderHash :
    p.fromHeaderHash = String.ofList (hexOf (engine.primitives.sha256 out.fromBytes.bytes))

/-- The circuit accepts the header with the positions that were prepared. -/
def Accepts (constrainHeaderField : ConstrainHeaderField) (header : Header) (p : Prepared)
    (out : Outputs) : Prop :=
  p.storage.take p.len = header.bytes.map UInt8.toNat ∧
    checkHeaders constrainHeaderField header p.subjectSequence p.fromSequence p.dkimSequence
      p.tags = .ok out

/-- **The preparation of a witness agrees with the circuit.**  Its report is what the
circuit answers for its positions; and where the circuit accepts a header with any
positions, no tag name repeats, and the Subject is the one of an identifier, it succeeds,
and the circuit accepts its positions with the same answers. -/
theorem preparedInputs_agree (engine : Engine) (constrainHeaderField : ConstrainHeaderField)
    (hprimitives : engine.primitives.Documented)
    (hconstrain : EnforcesWholeLine constrainHeaderField) :
    (∀ inputs p header out, preparedInputs engine inputs = .ok p →
      Accepts constrainHeaderField header p out → Reports engine p out) ∧
    (∀ header subject fromSequence dkim tags out id,
      checkHeaders constrainHeaderField header subject fromSequence dkim tags = .ok out →
      (tagNames (dkimParts header.bytes)).Nodup → id ≠ 0 → id < frModulus →
      out.subjectBytes.toList = Email.subject (BitVec.ofNat 256 id) →
      ∀ inputs s, Supplies engine inputs s → s.header = header.bytes →
        ∃ p, preparedInputs engine inputs = .ok p ∧ Accepts constrainHeaderField header p out) := by
  constructor
  · rintro inputs p header out hprepared ⟨hstorage, hcheck⟩
    obtain ⟨s, parts, hsupplies, hselects, rfl⟩ :=
      (preparedInputs_eq_ok hprimitives).mp hprepared
    obtain ⟨_, _, _, -, -, -, hread, -⟩ := hsupplies
    obtain ⟨-, -, hbytes⟩ := readHeader_eq_ok.mp hread
    have hheader : s.header = header.bytes :=
      List.map_injective_iff.mpr (fun _ _ => UInt8.toNat_inj.mp) (hbytes.symm.trans hstorage)
    rw [hheader] at hselects
    obtain ⟨hsubject, hdomain, hfrom⟩ := hselects.outputs_eq hprimitives hcheck
    obtain ⟨hne, hlt, -⟩ := (readIdentifier_eq_ok hprimitives).mp hselects.identifier
    exact ⟨⟨parts.id, hne, hlt, hsubject, rfl⟩, by rw [hdomain]; rfl, by rw [hfrom]; rfl⟩
  · intro header subject fromSequence dkim tags out id hcheck hnodup hne hlt hid inputs s hsupplies
      hheader
    obtain ⟨hselects, haccepts⟩ := exists_selects hprimitives hconstrain hcheck hnodup hne hlt hid
    rw [← hheader] at hselects
    refine ⟨_, (preparedInputs_eq_ok hprimitives).mpr ⟨s, _, hsupplies, hselects, rfl⟩, ?_,
      haccepts⟩
    obtain ⟨_, _, _, -, -, -, hread, -⟩ := hsupplies
    rw [← hheader]
    exact (readHeader_eq_ok.mp hread).2.2

/-! ### A header that both accept -/

section Fixture

/-- The hash of the domain and of the From line of the fixture. -/
def fixtureSha256 (bytes : Bytes) : Bytes :=
  if bytes = fixtureOutputs.domain.bytes then
    toBe 32 0x9b263fbcb589853137b33ddcafa5bcc5403464ead4da766d0f819348bf8d472c
  else if bytes = fixtureFrom then
    toBe 32 0x4198993e9fb42c156d3dbbc100d8cc14e52b6d464bca61f2c1c0c39d8e1aa99a
  else []

/-- `Number` on decimal texts. -/
def decimalNumber (value : Option Value) : Option Double := do
  let .string text ← value | none
  let s ← text.toString?
  if DecimalText.IsDecimal s.toList then
    some (toDouble (natural (Nat.ofDigitChars 10 s.toList 0)))
  else none

theorem decimalNumber_decimalItem {n : Nat} (h : n < HEADER_BOUND) :
    (decimalNumber (some (decimalItem n))).bind Double.toInt? = some (n : Int) := by
  have htext : (decimalText n).toList = Nat.toDigits 10 n := String.toList_ofList
  simp only [decimalNumber, decimalItem, bind, Option.bind_some, Text.toString?_ofString]
  rw [htext, if_pos (DecimalText.isDecimal_toDigits n), Nat.ofDigitChars_ten_toDigits]
  exact toDouble_natural (h.trans (by decide))

def fixtureEngine : Engine where
  number := decimalNumber
  primitives := { sdkReferencePrimitives with sha256 := fixtureSha256 }

/-- The helper's output on the fixture is prepared, and the circuit accepts it. -/
theorem preparedInputs_agree_fixture : ∃ p,
    preparedInputs fixtureEngine (helperOutput fixture (List.replicate KEY_LIMBS 3)
      (List.replicate KEY_LIMBS 5) (List.replicate KEY_LIMBS 7)) = .ok p ∧
    Accepts constrainLine fixture p fixtureOutputs ∧
    Reports fixtureEngine p fixtureOutputs := by
  have hlimbs : ∀ n, n < frModulus → AreLimbs (List.replicate KEY_LIMBS n) := fun n hn =>
    ⟨List.length_replicate, fun m hm => by rwa [(List.mem_replicate.mp hm).2]⟩
  have hlen : 0 < fixture.len ∧ fixture.len < HEADER_BOUND := by decide +kernel
  obtain ⟨hreports, haccepts⟩ := preparedInputs_agree fixtureEngine constrainLine
    ⟨sdkReferencePrimitives_documented.encode, sdkReferencePrimitives_documented.decode⟩
    constrainLine_enforces
  obtain ⟨p, hp, haccept⟩ := haccepts fixture ⟨0, 51⟩ ⟨53, 24⟩ ⟨79, 87⟩ fixtureTags fixtureOutputs 1
    (by decide +kernel) (by decide +kernel) one_ne_zero (by decide) (by decide +kernel) _ _
    (supplies_helperOutput (fun n hn => decimalNumber_decimalItem hn) hlen
      (hlimbs 3 (by decide)) (hlimbs 5 (by decide)) (hlimbs 7 (by decide))) rfl
  exact ⟨p, hp, haccept, hreports _ _ _ _ hp haccept⟩

end Fixture

end ZkPoR.EmailTool
