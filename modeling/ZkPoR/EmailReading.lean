import ZkPoR.EmailHeaders
import ZkPoR.Splitting
import ZkPoR.Trimming

/-! # What a signed header says

A declarative reading of a header: the lines between the line endings, the tags
between the semicolons of the DKIM field, the names between the colons of the h
tag, and the labels between the dots of a domain.  No position occurs in it, so
`Reads header out` depends on the bytes of the header alone, and a header has at
most one reading (`Reads.unique`).
-/
namespace ZkPoR.Circuit.Email
open ByteString Splitting

/-! ## Lines -/

/-- The lines of a header. -/
def crlfLines (header : Bytes) : List Bytes := splitOnPair CR LF header

/-- The line starts with the field name and a colon. -/
def namesField (name line : Bytes) : Bool := (name ++ [COLON]).isPrefixOf line

theorem splits_crlfLines : Splits [CR, LF] crlfLines := splits_splitOnPair (by decide)

theorem namesField_iff {name line : Bytes} :
    namesField name line = true ↔ ∃ value, line = name ++ [COLON] ++ value := by
  rw [namesField, List.isPrefixOf_iff_prefix]
  exact ⟨fun ⟨value, h⟩ => ⟨value, h.symm⟩, fun ⟨value, h⟩ => ⟨value, h.symm⟩⟩

/-! ## Trimmed text -/

/-- Text without the spaces at its ends. -/
def trimSpaces (text : Bytes) : Bytes := (text.dropWhile (· == SPACE)).rdropWhile (· == SPACE)

theorem isSpaces {text : Bytes} (h : ∀ x ∈ text, x = SPACE) : ∀ x ∈ text, (x == SPACE) = true :=
  fun x hx => beq_iff_eq.mpr (h x hx)

theorem trimSpaces_append {left text right : Bytes} (hleft : ∀ x ∈ left, x = SPACE)
    (hright : ∀ x ∈ right, x = SPACE) (hhead : text.head? ≠ some SPACE)
    (hlast : text.getLast? ≠ some SPACE) : trimSpaces (left ++ text ++ right) = text := by
  have hends : ∀ {end? : Option UInt8}, end? ≠ some SPACE → ∀ x ∈ end?, (x == SPACE) = false :=
    fun hne x hx => beq_eq_false_iff_ne.mpr fun heq => hne (heq ▸ hx)
  exact (Trimming.trimmed_append (isSpaces hleft) (isSpaces hright)).trans
    (Trimming.trimmed_of_ends (hends hhead) (hends hlast))

/-- Spaces at the end are trimmed. -/
theorem trimSpaces_append_spaces {text right : Bytes} (hright : ∀ x ∈ right, x = SPACE) :
    trimSpaces (text ++ right) = trimSpaces text := Trimming.trimmed_append_right (isSpaces hright)

/-- Text is spaces alone, or has a first byte that is no space. -/
theorem spaces_or_first (text : Bytes) :
    (∀ x ∈ text, x = SPACE) ∨
      ∃ left x rest, text = left ++ x :: rest ∧ (∀ y ∈ left, y = SPACE) ∧ x ≠ SPACE := by
  induction text with
  | nil => exact .inl (by simp)
  | cons y text ih =>
    by_cases hy : y = SPACE
    · rcases ih with hall | ⟨left, x, rest, rfl, hleft, hx⟩
      · exact .inl (List.forall_mem_cons.mpr ⟨hy, hall⟩)
      · exact .inr ⟨y :: left, x, rest, rfl, List.forall_mem_cons.mpr ⟨hy, hleft⟩, hx⟩
    · exact .inr ⟨[], y, text, rfl, by simp, hy⟩

/-! ## Tags -/

/-- The name of a tag: what stands before the equals sign. -/
def tagName (piece : Bytes) : Bytes := trimSpaces (piece.takeWhile (· != EQUALS))

/-- What stands after the equals sign. -/
def tagText (piece : Bytes) : Bytes := (piece.dropWhile (· != EQUALS)).drop 1

/-- The tags of one name in the value of a DKIM field. -/
def tagsNamed (value name : Bytes) : List Bytes :=
  (value.splitOn SEMICOLON).filter fun piece => tagName piece == name

/-- The names that an h tag lists, in lower case. -/
def signedFields (piece : Bytes) : List Bytes :=
  ((tagText piece).splitOn COLON).map fun name => (trimSpaces name).map toLower

/-! ## Host names -/

structure IsLabel (label : Bytes) : Prop where
  nonempty : label ≠ []
  length_le : label.length ≤ MAX_DOMAIN_LABEL_LENGTH
  forall_mem : ∀ x ∈ label, isLower x ∨ isDigit x ∨ x = HYPHEN
  head : label.head? ≠ some HYPHEN
  last : label.getLast? ≠ some HYPHEN

/-- A lower-case host name, in labels between dots. -/
structure IsHostName (domain : Bytes) : Prop where
  length_le : domain.length ≤ MAX_DOMAIN_LENGTH
  labels : ∀ label ∈ domain.splitOn DOT, IsLabel label

theorem IsHostName.space_notMem {domain : Bytes} (h : IsHostName domain) : SPACE ∉ domain := by
  intro hmem
  obtain ⟨label, hlabel, hspace⟩ := (splits_splitOn DOT).exists_mem hmem (by decide)
  have := (h.labels label hlabel).forall_mem SPACE hspace
  revert this
  decide

/-! ## The reading -/

/-- What the value of the DKIM field says about the domain. -/
structure ReadsTags (value : Bytes) (domain : Bytes) : Prop where
  domain : (tagsNamed value [100]).map trimSpaces = [[100, EQUALS] ++ domain]
  algorithm : (tagsNamed value [97]).map trimSpaces = [ALGORITHM]
  canonicalization : (tagsNamed value [99]).map trimSpaces = [CANONICALIZATION]
  signedHeaders : ∃ piece, tagsNamed value [104] = [piece] ∧
    FROM_NAME ∈ signedFields piece ∧ SUBJECT_NAME ∈ signedFields piece
  version : (tagsNamed value [118]).map trimSpaces = [VERSION]
  signature : (tagsNamed value [98]).map trimSpaces = [SIGNATURE]

/-- The outputs are what the header says. -/
structure Reads (header : Bytes) (out : Outputs) : Prop where
  cr : ∀ i, header[i]? = some CR → header[i + 1]? = some LF
  lf : ∀ i, header[i]? = some LF → ∃ j, i = j + 1 ∧ header[j]? = some CR
  lines : ∃ earlier value, crlfLines header = earlier ++ [DKIM_NAME ++ [COLON] ++ value] ∧
    earlier.filter (namesField FROM_NAME) = [out.fromBytes.bytes] ∧
    earlier.filter (namesField SUBJECT_NAME) =
      [SUBJECT_NAME ++ [COLON] ++ out.subjectBytes.toList] ∧
    ReadsTags value out.domain.bytes
  base64url : ∀ x ∈ out.subjectBytes.toList, isBase64url x = true
  hostName : IsHostName out.domain.bytes

/-- **A header has at most one reading.** -/
theorem Reads.unique {header : Bytes} {out out' : Outputs} (h : Reads header out)
    (h' : Reads header out') : out = out' := by
  obtain ⟨earlier, value, hlines, hfrom, hsubject, htags⟩ := h.lines
  obtain ⟨earlier', value', hlines', hfrom', hsubject', htags'⟩ := h'.lines
  obtain ⟨rfl, hlast⟩ := List.append_inj' (hlines.symm.trans hlines') rfl
  obtain rfl := List.append_cancel_left (List.singleton_inj.mp hlast)
  have hfromBytes := List.singleton_inj.mp (hfrom.symm.trans hfrom')
  have hsubjectBytes := List.append_cancel_left
    (List.singleton_inj.mp (hsubject.symm.trans hsubject'))
  have hdomain := List.append_cancel_left
    (List.singleton_inj.mp (htags.domain.symm.trans htags'.domain))
  obtain ⟨subjectBytes, ⟨domain, _⟩, ⟨fromBytes, _⟩⟩ := out
  obtain ⟨subjectBytes', ⟨domain', _⟩, ⟨fromBytes', _⟩⟩ := out'
  obtain rfl : domain = domain' := hdomain
  obtain rfl : fromBytes = fromBytes' := hfromBytes
  obtain rfl : subjectBytes = subjectBytes' := Vector.toList_inj.mp hsubjectBytes
  rfl

end ZkPoR.Circuit.Email
