import ZkPoR.EmailWitness

/-! # What the preparation of a witness reads

The positions that `preparedInputs` writes are those of the texts that it reads: a field
is the line at its position, and a tag is its name, an equals sign, and its value.  So
the values that it reports are what the circuit answers for the same positions.
-/
namespace ZkPoR.EmailTool
open ByteString HexText JsonText JavaScript InsertionMap Splitting
open BoundedLoop (bind_eq_ok)
open Circuit.Email
open CheckedInt (U256)
open Sdk (record?)

/-! ## The lines -/

theorem fieldsFrom_eq (offset : Nat) (lines : List Bytes) : fieldsFrom offset lines =
    (located [CR, LF].length offset lines).map fun p => { line := p.2, index := p.1 } := by
  induction lines generalizing offset with
  | nil => rfl
  | cons line lines ih =>
    rw [fieldsFrom, ih, located, List.map_cons]
    rfl

theorem mem_fieldsFrom {offset : Nat} {lines : List Bytes} {item : Field} :
    item ∈ fieldsFrom offset lines ↔
      (item.index, item.line) ∈ located [CR, LF].length offset lines := by
  rw [fieldsFrom_eq, List.mem_map]
  constructor
  · rintro ⟨⟨i, line⟩, hmem, rfl⟩
    exact hmem
  · exact fun hmem => ⟨_, hmem, rfl⟩

/-- A field is the line at its position. -/
theorem slice_field {header : Bytes} {item : Field}
    (h : item ∈ fieldsFrom 0 (crlfLines header)) :
    slice header item.index (item.index + item.line.length) = item.line := by
  obtain ⟨before, after, hat, hi⟩ := splits_crlfLines.pieceAt_of_mem_located (mem_fieldsFrom.mp h)
  rw [hi, Nat.zero_add]
  exact slice_of_eq_append hat.eq

theorem one_eq_ok {fields : List Field} {name : String} {item : Field} :
    one fields name = .ok item ↔
      (fields.filter fun item => startsWith item.line (text s!"{name}:")) = [item] := by
  unfold one
  split
  · rename_i found heq
    rw [heq, Except.ok.injEq, List.singleton_inj]
  · rename_i hne
    exact ⟨fun h => (by cases h), fun h => absurd h (hne item)⟩

theorem orThrow_eq_ok {α : Type} {x : Option α} {message : String} {a : α} :
    orThrow x message = .ok a ↔ x = some a := by
  cases x <;> simp [orThrow]

theorem throwIf_eq_ok {p : Prop} [Decidable p] {message : String} {u : Unit} :
    throwIf p message = .ok u ↔ ¬ p := by
  unfold throwIf
  split <;> simp_all

/-- **What the selected fields are.** -/
theorem selectFields_eq_ok {header : Bytes} {subject fromField dkim : Field} :
    selectFields header = .ok (subject, fromField, dkim) ↔
      one (fieldsFrom 0 (crlfLines header)) "subject" = .ok subject ∧
        one (fieldsFrom 0 (crlfLines header)) "from" = .ok fromField ∧
        (fieldsFrom 0 (crlfLines header)).getLast? = some dkim ∧
        startsWith dkim.line (text "dkim-signature:") = true ∧
        fromField.line.length ≤ FROM_BOUND := by
  simp only [selectFields, bind_eq_ok, orThrow_eq_ok, throwIf_eq_ok, Option.filter_eq_some_iff,
    Nat.not_lt, pure, Except.pure, Except.ok.injEq, Prod.mk.injEq]
  constructor
  · rintro ⟨_, hsubject, _, hfrom, _, ⟨hlast, hdkim⟩, _, hlength, rfl, rfl, rfl⟩
    exact ⟨hsubject, hfrom, hlast, hdkim, hlength⟩
  · rintro ⟨hsubject, hfrom, hlast, hdkim, hlength⟩
    exact ⟨_, hsubject, _, hfrom, _, ⟨hlast, hdkim⟩, (), hlength, rfl, rfl, rfl⟩

/-! ## The tags -/

theorem trimStart_eq (s : Bytes) : s = s.takeWhile isSpace ++ trimStart s :=
  List.takeWhile_append_dropWhile.symm

theorem exists_trim_append (s : Bytes) :
    ∃ right, trimStart s = trim s ++ right ∧ ∀ x ∈ right, isSpace x = true :=
  ⟨(trimStart s).rtakeWhile isSpace, List.rdropWhile_append_rtakeWhile.symm,
    fun _ hx => List.mem_rtakeWhile_imp hx⟩

theorem length_leading (s : Bytes) :
    s.length - (trimStart s).length = (s.takeWhile isSpace).length := by
  have hlen := congrArg List.length (trimStart_eq s)
  rw [List.length_append] at hlen
  omega

theorem matchTag_eq_some {s name value : Bytes} :
    matchTag s = some (name, value) ↔ s = name ++ EQUALS :: value ∧ name ≠ [] ∧
      (∀ x ∈ name, isLower x = true) ∧ LF ∉ value ∧ CR ∉ value := by
  have hvalue : ∀ value : Bytes, (value.all fun b => b ≠ LF && b ≠ CR) = true ↔
      LF ∉ value ∧ CR ∉ value := by
    intro value
    simp only [List.all_eq_true, Bool.and_eq_true, decide_eq_true_eq]
    exact ⟨fun h => ⟨fun hlf => (h LF hlf).1 rfl, fun hcr => (h CR hcr).2 rfl⟩,
      fun h b hb => ⟨fun heq => h.1 (heq ▸ hb), fun heq => h.2 (heq ▸ hb)⟩⟩
  constructor
  · intro h
    unfold matchTag at h
    dsimp only at h
    split at h
    · rename_i byte rest hdrop
      split at h
      · rename_i hmatch
        obtain ⟨hname, hequals, hrest⟩ := hmatch
        obtain ⟨rfl, rfl⟩ := Prod.mk.inj (Option.some.inj h)
        refine ⟨?_, hname, fun x hx => List.mem_takeWhile_imp hx, (hvalue rest).mp hrest⟩
        rw [← hequals, ← hdrop, List.takeWhile_append_dropWhile]
      · cases h
    · cases h
  · rintro ⟨rfl, hname, hlower, hrest⟩
    have htake : (name ++ EQUALS :: value).takeWhile isLower = name := by
      rw [List.takeWhile_append_of_pos hlower, List.takeWhile_cons_of_neg (by decide),
        List.append_nil]
    have hdrop : (name ++ EQUALS :: value).dropWhile isLower = EQUALS :: value := by
      rw [List.dropWhile_append_of_pos hlower, List.dropWhile_cons_of_neg (by decide)]
    simp only [matchTag, htake, hdrop]
    rw [if_pos ⟨hname, trivial, (hvalue value).mpr hrest⟩]

/-- The tags stand in the header as they are read. -/
def Stand (header : Bytes) (tags : OrderedMap Bytes Tag) : Prop :=
  ∀ name found, tags.get name = some found →
    slice header found.sequence.index (found.sequence.index + found.sequence.length) =
      name ++ EQUALS :: found.value

theorem Stand.read {header part : Bytes} {s s' : TagReader} (h : Stand header s.tags)
    (hpart : slice header s.tagOffset (s.tagOffset + part.length) = part)
    (hread : s.read part = .ok s') :
    Stand header s'.tags ∧ s'.tagOffset = s.tagOffset + part.length + 1 := by
  obtain ⟨tags, htags, hread⟩ := bind_eq_ok.mp hread
  obtain rfl := Except.ok.inj hread
  refine ⟨?_, rfl⟩
  unfold TagReader.add at htags
  dsimp only at htags ⊢
  split at htags
  · rw [← Except.ok.inj htags]
    exact h
  split at htags
  · rename_i name value hmatch
    split at htags
    · cases htags
    obtain rfl := Except.ok.inj htags
    -- the trimmed part is the tag, behind its leading spaces
    obtain ⟨right, hright, -⟩ := exists_trim_append part
    have hsplit : part = part.takeWhile isSpace ++ trim part ++ right := by
      rw [List.append_assoc, ← hright]
      exact trimStart_eq part
    have htext := hpart
    rw [hsplit] at htext
    have hslice := slice_middle htext
    intro other found hget
    by_cases heq : other = name
    · subst heq
      rw [OrderedMap.get_set_self, Option.some.injEq] at hget
      subst hget
      dsimp only
      rw [length_leading, hslice]
      exact (matchTag_eq_some.mp hmatch).1
    · rw [OrderedMap.get_set_of_ne _ _ heq] at hget
      exact h other found hget
  · cases htags

theorem Stand.foldlM {header : Bytes} {parts : List Bytes} {s s' : TagReader}
    (h : Stand header s.tags)
    (hparts : ∀ p ∈ located 1 s.tagOffset parts, slice header p.1 (p.1 + p.2.length) = p.2)
    (hfold : parts.foldlM TagReader.read s = .ok s') : Stand header s'.tags := by
  induction parts generalizing s with
  | nil =>
    rw [List.foldlM_nil] at hfold
    rw [← Except.ok.inj hfold]
    exact h
  | cons part parts ih =>
    rw [List.foldlM_cons, bind_eq_ok] at hfold
    obtain ⟨mid, hread, hfold⟩ := hfold
    obtain ⟨hmid, hoffset⟩ := h.read (hparts _ List.mem_cons_self) hread
    refine ih hmid (fun p hp => hparts p (List.mem_cons_of_mem _ ?_)) hfold
    rwa [hoffset] at hp

/-- **The tags that the reader answers stand in the header.** -/
theorem stand_of_readTags {header value : Bytes} {tagOffset : Nat} {tags : OrderedMap Bytes Tag}
    (hvalue : slice header tagOffset (tagOffset + value.length) = value)
    (h : readTags tagOffset value = .ok tags) : Stand header tags := by
  obtain ⟨s, hfold, h⟩ := bind_eq_ok.mp h
  obtain rfl := Except.ok.inj h
  refine Stand.foldlM (s := { tags := .empty, tagOffset }) (fun _ _ hget => by cases hget)
    (fun p hp => ?_) hfold
  obtain ⟨before, after, hat, hi⟩ := (splits_splitOn SEMICOLON).pieceAt_of_mem_located hp
  have hmiddle := hvalue
  rw [hat.eq] at hmiddle
  rw [hi]
  exact slice_middle hmiddle

theorem tag_eq_ok {tags : OrderedMap Bytes Tag} {name : String} {expected : Option String}
    {found : Tag} :
    tag tags name expected = .ok found ↔ tags.get (text name) = some found ∧
      ∀ value, expected = some value → found.value = text value := by
  unfold tag
  split
  · rename_i hget
    rw [hget]
    simp
  · rename_i other hget
    rw [hget]
    split
    · rename_i hall
      rw [Except.ok.injEq, Option.some.injEq]
      refine ⟨?_, And.left⟩
      rintro rfl
      refine ⟨rfl, ?_⟩
      rintro value rfl
      exact of_decide_eq_true hall
    · rename_i hall
      refine ⟨fun h => (by cases h), ?_⟩
      rintro ⟨hfound, hvalue⟩
      obtain rfl := Option.some.inj hfound
      refine absurd ?_ hall
      cases expected with
      | none => rfl
      | some value => exact decide_eq_true (hvalue value rfl)

/-- What the selected tags are. -/
structure Selected (tags : OrderedMap Bytes Tag) (domain : Bytes)
    (selected : Circuit.Email.DkimTags) : Prop where
  domain : tags.get (text "d") = some ⟨domain, selected.domain⟩
  signedHeaders : ∃ value, tags.get (text "h") = some ⟨value, selected.signedHeaders⟩ ∧
    text "from" ∈ signedNames value ∧ text "subject" ∈ signedNames value
  algorithm : tags.get (text "a") = some ⟨text "rsa-sha256", selected.algorithm⟩
  canonicalization : tags.get (text "c") = some ⟨text "relaxed/relaxed", selected.canonicalization⟩
  version : tags.get (text "v") = some ⟨text "1", selected.version⟩
  signature : tags.get (text "b") = some ⟨text "", selected.signature⟩

theorem selectTags_eq_ok {dkim : Field} {domain : Bytes} {selected : Circuit.Email.DkimTags} :
    selectTags dkim = .ok (domain, selected) ↔
      ∃ tags, readTags (dkim.index + (text "dkim-signature:").length)
          (dkim.line.drop (text "dkim-signature:").length) = .ok tags ∧
        Selected tags domain selected := by
  simp only [selectTags, bind_eq_ok, throwIf_eq_ok, tag_eq_ok, not_or, not_not, Option.some.injEq,
    forall_eq', pure, Except.pure, Except.ok.injEq, Prod.mk.injEq, reduceCtorEq, false_implies,
    implies_true, and_true]
  constructor
  · rintro ⟨tags, htags, ⟨_, domain⟩, hdomain, ⟨value, signedHeaders⟩, hsigned, _, hnames,
      ⟨_, algorithm⟩, ⟨halgorithm, rfl⟩, ⟨_, canonicalization⟩, ⟨hcanonicalization, rfl⟩,
      ⟨_, version⟩, ⟨hversion, rfl⟩, ⟨_, signature⟩, ⟨hsignature, rfl⟩, rfl, rfl⟩
    exact ⟨tags, htags, hdomain, ⟨value, hsigned, hnames⟩, halgorithm, hcanonicalization, hversion,
      hsignature⟩
  · rintro ⟨tags, htags, h⟩
    obtain ⟨value, hsigned, hnames⟩ := h.signedHeaders
    exact ⟨tags, htags, _, h.domain, _, hsigned, (), hnames, _, ⟨h.algorithm, rfl⟩, _,
      ⟨h.canonicalization, rfl⟩, _, ⟨h.version, rfl⟩, _, ⟨h.signature, rfl⟩, rfl, rfl⟩

/-! ## The header -/

theorem headerByte_eq_ok {item : Nat} {byte : UInt8} :
    headerByte item = .ok byte ↔ item = byte.toNat := by
  unfold headerByte
  split
  · rename_i hlarge
    refine ⟨fun h => (by cases h), fun h => ?_⟩
    have := byte.toNat_lt
    omega
  · rename_i hsmall
    rw [Except.ok.injEq]
    constructor
    · rintro rfl
      rw [UInt8.toNat_ofNat']
      omega
    · rintro rfl
      exact UInt8.ofNat_toNat

/-- The bytes of the header are the numbers of its storage. -/
theorem mapM_headerByte {items : List Nat} {bytes : Bytes} :
    items.mapM headerByte = .ok bytes ↔ items = bytes.map UInt8.toNat := by
  rw [BoundedLoop.mapM_eq_ok_iff]
  simp only [headerByte_eq_ok]
  rw [← List.forall₂_map_right_iff (f := UInt8.toNat), List.forall₂_eq_eq_eq]

theorem readHeader_eq_ok {engine : Engine} {source : List (Text × Value)} {storage : List Nat}
    {len : Nat} {header : Bytes} :
    readHeader engine source = .ok (storage, len, header) ↔
      fieldArray (property source "storage") HEADER_BOUND = .ok storage ∧
        headerLength (engine.number (property source "len")) = .ok len ∧
        storage.take len = header.map UInt8.toNat := by
  simp only [readHeader, bind_eq_ok, mapM_headerByte, pure, Except.pure, Except.ok.injEq,
    Prod.mk.injEq]
  constructor
  · rintro ⟨_, hstorage, _, hlen, _, hheader, rfl, rfl, rfl⟩
    exact ⟨hstorage, hlen, hheader⟩
  · rintro ⟨hstorage, hlen, hheader⟩
    exact ⟨_, hstorage, _, hlen, _, hheader, rfl, rfl, rfl⟩

/-! ## The identifier -/

theorem ofLatin1_injective : Function.Injective ofLatin1 := by
  refine List.map_injective_iff.mpr fun x y h => ?_
  have hchar : ∀ byte : UInt8, (Char.ofNat byte.toNat).toNat = byte.toNat := fun byte => by
    rw [Char.ofNat, dif_pos (.inl (byte.toNat_lt.trans (by decide)))]
    rfl
  have hnat := congrArg Char.toNat (CodePoint.scalar.inj h)
  rw [hchar, hchar] at hnat
  exact UInt8.toNat_inj.mp hnat

theorem ofLatin1_subject (id : U256) :
    ofLatin1 (Email.subject id) = Text.ofString (Email.subjectText id) := by
  rw [ofLatin1, Text.ofString, Email.subjectText, String.toList_ofList, List.map_map]
  rfl

/-- **Only the subject of an identifier is read.** -/
theorem readIdentifier_eq_ok {engine : Engine} (hprimitives : engine.primitives.Documented)
    {subject : Field} {id : Nat} :
    readIdentifier engine subject = .ok id ↔ id ≠ 0 ∧ id < frModulus ∧
      subject.line.drop (text "subject:").length = Email.subject (BitVec.ofNat 256 id) := by
  simp only [readIdentifier, bind_eq_ok, throwIf_eq_ok, not_not,
    Sdk.parseIdentifierSubject_eq_ok hprimitives, ← ofLatin1_subject, ofLatin1_injective.eq_iff]
  constructor
  · rintro ⟨_, -, h⟩
    exact h
  · rintro ⟨hne, hlt, htext⟩
    exact ⟨(), by rw [htext, Email.length_subject]; rfl, hne, hlt, htext⟩

/-! ## What is prepared -/

/-- The output of the helper: the header in its storage, and the numbers of the key. -/
structure Supplied where
  storage : List Nat
  len : Nat
  header : Bytes
  signature : List Nat
  modulus : List Nat
  redc : List Nat

/-- The parts of the header that a witness is made of. -/
structure Parts where
  subject : Field
  fromField : Field
  dkim : Field
  id : Nat
  domain : Bytes
  tags : Circuit.Email.DkimTags

section Prepare
variable (engine : Engine)

/-- The value is the output of the helper. -/
def Supplies (inputs : Value) (s : Supplied) : Prop :=
  ∃ source headerSource pubkey, record? inputs = some source ∧
    (property source "header").bind record? = some headerSource ∧
    (property source "pubkey").bind record? = some pubkey ∧
    readHeader engine headerSource = .ok (s.storage, s.len, s.header) ∧
    fieldArray (property source "signature") KEY_LIMBS = .ok s.signature ∧
    fieldArray (property pubkey "modulus") KEY_LIMBS = .ok s.modulus ∧
    fieldArray (property pubkey "redc") KEY_LIMBS = .ok s.redc

structure Selects (header : Bytes) (parts : Parts) : Prop where
  fields : selectFields header = .ok (parts.subject, parts.fromField, parts.dkim)
  identifier : readIdentifier engine parts.subject = .ok parts.id
  tags : selectTags parts.dkim = .ok (parts.domain, parts.tags)

/-- The witness of these parts. -/
def prepared (s : Supplied) (parts : Parts) : Prepared where
  format := PREPARED_FORMAT
  id := hexText (BitVec.ofNat 256 parts.id)
  domainHash := String.ofList (hexOf (engine.primitives.sha256 parts.domain))
  fromHeaderHash := String.ofList (hexOf (engine.primitives.sha256 parts.fromField.line))
  signature := s.signature
  storage := s.storage
  len := s.len
  modulus := s.modulus
  redc := s.redc
  subjectSequence := parts.subject.sequence
  fromSequence := parts.fromField.sequence
  dkimSequence := parts.dkim.sequence
  tags := parts.tags

variable {engine}

/-- **What is prepared is the witness of the parts that the header has.** -/
theorem preparedInputs_eq_ok (hprimitives : engine.primitives.Documented) {inputs : Value}
    {out : Prepared} :
    preparedInputs engine inputs = .ok out ↔ ∃ s parts, Supplies engine inputs s ∧
      Selects engine s.header parts ∧ out = prepared engine s parts := by
  simp only [preparedInputs, bind_eq_ok, orThrow_eq_ok, Prod.exists, pure, Except.pure,
    Except.ok.injEq]
  constructor
  · rintro ⟨source, hsource, headerSource, hheaderSource, pubkey, hpubkey, storage, len, header,
      hheader, subject, fromField, dkim, hfields, id, hid, domain, tags, htags, idText, hidText,
      signature, hsignature, modulus, hmodulus, redc, hredc, rfl⟩
    rw [Sdk.toHex_of_lt ((readIdentifier_eq_ok hprimitives).mp hid).2.1] at hidText
    obtain rfl := Except.ok.inj hidText
    exact ⟨⟨storage, len, header, signature, modulus, redc⟩,
      ⟨subject, fromField, dkim, id, domain, tags⟩, ⟨source, headerSource, pubkey, hsource,
      hheaderSource, hpubkey, hheader, hsignature, hmodulus, hredc⟩, ⟨hfields, hid, htags⟩, rfl⟩
  · rintro ⟨s, parts, ⟨source, headerSource, pubkey, hsource, hheaderSource, hpubkey, hheader,
      hsignature, hmodulus, hredc⟩, ⟨hfields, hid, htags⟩, rfl⟩
    exact ⟨source, hsource, headerSource, hheaderSource, pubkey, hpubkey, _, _, _, hheader, _, _, _,
      hfields, _, hid, _, _, htags, _,
      Sdk.toHex_of_lt ((readIdentifier_eq_ok hprimitives).mp hid).2.1, _, hsignature, _, hmodulus,
      _, hredc, rfl⟩

end Prepare

/-! ## What is reported -/

section Reports
variable {engine : Engine} {constrainHeaderField : ConstrainHeaderField} {header : Header}
  {parts : Parts} {out : Outputs}

theorem mem_of_one {fields : List Field} {name : String} {item : Field}
    (h : one fields name = .ok item) : item ∈ fields := by
  refine List.mem_of_mem_filter (p := fun item => startsWith item.line (text s!"{name}:")) ?_
  rw [one_eq_ok.mp h]
  exact List.mem_singleton_self item

/-- **The circuit answers the texts of the parts**, when it is given their positions. -/
theorem Selects.outputs_eq (h : Selects engine header.bytes parts)
    (hprimitives : engine.primitives.Documented)
    (hcheck : checkHeaders constrainHeaderField header parts.subject.sequence
      parts.fromField.sequence parts.dkim.sequence parts.tags = .ok out) :
    out.subjectBytes.toList = Email.subject (BitVec.ofNat 256 parts.id) ∧
      out.domain.bytes = parts.domain ∧ out.fromBytes.bytes = parts.fromField.line := by
  have hchecked := checkHeaders_iff.mp hcheck
  obtain ⟨hsubject, hfrom, hlast, -, -⟩ := selectFields_eq_ok.mp h.fields
  obtain ⟨tags, htags, hselected⟩ := selectTags_eq_ok.mp h.tags
  obtain ⟨subjectEnd, hsubjectEnd, hsubjectDkim⟩ := hchecked.subject_end
  obtain ⟨fromEnd, hfromEnd, hfromDkim⟩ := hchecked.from_end
  have hsubjectEnd := Sequence.endIndex_eq_ok hsubjectEnd
  have hfromEnd := Sequence.endIndex_eq_ok hfromEnd
  have hdkimEnd := Sequence.endIndex_eq_ok hchecked.dkim_end
  have hsubjectLength := hchecked.subject_length
  refine ⟨?_, ?_, ?_⟩
  · obtain ⟨hbytes, -⟩ := readSubject_eq_ok (by omega) hchecked.subjectBytes
    have hline := slice_field (mem_of_one hsubject)
    rw [show parts.subject.line.length = SUBJECT_NAME_LENGTH + 1 + SUBJECT_LENGTH from
      hsubjectLength] at hline
    rw [hbytes, ← ((readIdentifier_eq_ok hprimitives).mp h.identifier).2.2, ← hline, drop_slice]
    rfl
  · obtain ⟨-, hend, -⟩ := tagBounds_eq_ok (hchecked.bounds 0 (by decide))
    obtain ⟨-, hbytes, -⟩ := readDomain_eq_ok hend hchecked.domain
    have hline := slice_field (List.mem_of_getLast? hlast)
    have htag := stand_of_readTags (slice_drop hline _) htags _ _ hselected.domain
    have hdrop : (slice header.bytes parts.tags.domain.index
        (parts.tags.domain.index + parts.tags.domain.length)).drop 2 =
          slice header.bytes (parts.tags.domain.index + 2)
            (parts.tags.domain.index + parts.tags.domain.length) := drop_slice
    rw [hbytes]
    exact hdrop.symm.trans (congrArg (List.drop 2) htag)
  · rw [readFrom_eq_ok (by omega) hchecked.fromBytes]
    exact slice_field (mem_of_one hfrom)

end Reports

end ZkPoR.EmailTool
