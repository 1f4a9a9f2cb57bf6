import ZkPoR.EmailPositions
import ZkPoR.EmailWitnessReads
import ZkPoR.LastWrite

/-! # How the preparation of a witness reads the tags

In a header that the circuit accepts, each part of the DKIM value between semicolons is
spaces alone, or spaces, a name in lower case, an equals sign, and a text.  On such parts
`preparedInputs` fails only at a repeated name, and otherwise its map holds every tag
under its name (`exists_readTags`).
-/
namespace ZkPoR.EmailTool
open ByteString InsertionMap Splitting Trimming
open BoundedLoop (bind_eq_ok)
open Circuit.Email (SPACE EQUALS SEMICOLON COLON CR LF isLower isUpper toLower tagName tagText
  isLower_ne)

/-! ## Spaces and letters -/

theorem isSpace_of_eq {xs : Bytes} (h : ∀ x ∈ xs, x = SPACE) : ∀ x ∈ xs, isSpace x = true :=
  fun x hx => by rw [h x hx]; rfl

theorem isSpace_of_isLower {byte : UInt8} (h : isLower byte = true) : isSpace byte = false := by
  by_contra hspace
  rw [Bool.not_eq_false] at hspace
  simp only [isSpace, isLower, Bool.or_eq_true, Bool.and_eq_true, beq_iff_eq, decide_eq_true_eq,
    UInt8.le_iff_toNat_le, ← UInt8.toNat_inj] at h hspace
  change 97 ≤ byte.toNat ∧ byte.toNat ≤ 122 at h
  change (byte.toNat = 32 ∨ 9 ≤ byte.toNat ∧ byte.toNat ≤ 13) ∨ byte.toNat = 160 at hspace
  omega

/-! ## One part -/

/-- Spaces, a name in lower case, an equals sign, and a text on one line. -/
def IsTag (part : Bytes) : Prop :=
  ∃ left name rest, part = left ++ name ++ EQUALS :: rest ∧ (∀ x ∈ left, x = SPACE) ∧
    name ≠ [] ∧ (∀ x ∈ name, isLower x = true) ∧ LF ∉ rest ∧ CR ∉ rest

/-- The tag that a part at a position is read as. -/
def tagOf (p : Nat × Bytes) : Tag where
  value := (tagText p.2).rdropWhile isSpace
  sequence := ⟨p.1 + (p.2.length - (trimStart p.2).length), (trim p.2).length⟩

/-- What is left of a part without the spaces at its ends. -/
theorem trim_of_tag {left name : Bytes} (hleft : ∀ x ∈ left, x = SPACE) (hname : name ≠ [])
    (hlower : ∀ x ∈ name, isLower x = true) (rest : Bytes) :
    trimStart (left ++ name ++ EQUALS :: rest) = name ++ EQUALS :: rest ∧
      trim (left ++ name ++ EQUALS :: rest) = name ++ EQUALS :: rest.rdropWhile isSpace := by
  have hstart : trimStart (left ++ name ++ EQUALS :: rest) = name ++ EQUALS :: rest := by
    obtain ⟨x, name, rfl⟩ := List.exists_cons_of_ne_nil hname
    rw [trimStart, List.append_assoc, List.dropWhile_append_of_pos (isSpace_of_eq hleft),
      List.cons_append, List.dropWhile_cons_of_neg]
    rw [isSpace_of_isLower (hlower x List.mem_cons_self)]
    decide
  exact ⟨hstart, by rw [trim, hstart, rdropWhile_append_cons (by decide)]⟩

theorem IsTag.tagName_ne_nil {part : Bytes} (h : IsTag part) : tagName part ≠ [] := by
  obtain ⟨left, name, rest, rfl, hleft, hname, hlower, -⟩ := h
  rwa [Circuit.Email.tagName_append hleft hlower]

theorem TagReader.add_of_spaces {s : TagReader} {part : Bytes} (h : ∀ x ∈ part, x = SPACE) :
    s.add part = .ok s.tags := by
  have htrim : trim part = [] := trimmed_eq_nil (isSpace_of_eq h)
  rw [TagReader.add, htrim, if_pos rfl]

theorem TagReader.add_of_tag {s : TagReader} {part : Bytes} (h : IsTag part)
    (hnew : s.tags.get (tagName part) = none) :
    s.add part = .ok (s.tags.set (tagName part) (tagOf (s.tagOffset, part))) := by
  obtain ⟨left, name, rest, rfl, hleft, hname, hlower, hlf, hcr⟩ := h
  obtain ⟨-, htrim⟩ := trim_of_tag hleft hname hlower rest
  have hsubset : ∀ {x}, x ∉ rest → x ∉ rest.rdropWhile isSpace := fun hx hmem =>
    hx ((List.rdropWhile_prefix isSpace rest).subset hmem)
  have hmatch : matchTag (name ++ EQUALS :: rest.rdropWhile isSpace) =
      some (name, rest.rdropWhile isSpace) :=
    matchTag_eq_some.mpr ⟨rfl, hname, hlower, hsubset hlf, hsubset hcr⟩
  rw [Circuit.Email.tagName_append hleft hlower] at hnew ⊢
  rw [TagReader.add, htrim, if_neg (by simp), hmatch]
  dsimp only
  rw [hnew, if_neg (by simp), tagOf, htrim, Circuit.Email.tagText_append hleft hlower]

/-! ## All parts -/

/-- Every part is a tag, or spaces alone. -/
def AreTags (parts : List Bytes) : Prop :=
  ∀ part ∈ parts, (∀ x ∈ part, x = SPACE) ∨ IsTag part

/-- The names of the tags among the parts. -/
def tagNames (parts : List Bytes) : List Bytes := (parts.map tagName).filter (· ≠ [])

/-- The tags among the parts, with their positions. -/
def named (offset : Nat) (parts : List Bytes) : List (Nat × Bytes) :=
  (located 1 offset parts).filter fun p => tagName p.2 ≠ []

theorem map_named (offset : Nat) (parts : List Bytes) :
    (named offset parts).map (fun p => tagName p.2) = tagNames parts := by
  have hparts : (located 1 offset parts).map (fun p => tagName p.2) = parts.map tagName :=
    calc (located 1 offset parts).map (fun p => tagName p.2)
        = ((located 1 offset parts).map Prod.snd).map tagName := by rw [List.map_map]; rfl
      _ = parts.map tagName := by rw [map_snd_located]
  rw [tagNames, ← hparts, List.filter_map]
  rfl

theorem named_cons (offset : Nat) (part : Bytes) (parts : List Bytes) :
    named offset (part :: parts) =
      (if tagName part ≠ [] then [(offset, part)] else []) ++
        named (offset + part.length + 1) parts := by
  rw [named, located, List.filter_cons]
  split <;> simp_all [named]

theorem tagNames_cons (part : Bytes) (parts : List Bytes) :
    tagNames (part :: parts) =
      (if tagName part ≠ [] then [tagName part] else []) ++ tagNames parts := by
  rw [tagNames, List.map_cons, List.filter_cons]
  split <;> simp_all [tagNames]

/-- **The reader writes every tag under its name**, in the order of the parts. -/
theorem TagReader.exists_foldlM {parts : List Bytes} {s : TagReader} (hparts : AreTags parts)
    (hnodup : (tagNames parts).Nodup) (hnew : ∀ name ∈ tagNames parts, s.tags.get name = none) :
    ∃ s', parts.foldlM TagReader.read s = .ok s' ∧
      s'.tags =
        (named s.tagOffset parts).foldl (fun m p => m.set (tagName p.2) (tagOf p)) s.tags := by
  induction parts generalizing s with
  | nil => exact ⟨s, rfl, rfl⟩
  | cons part parts ih =>
    obtain ⟨hpart, hrest⟩ := List.forall_mem_cons.mp hparts
    rw [tagNames_cons] at hnodup hnew
    rw [named_cons]
    rcases hpart with hspaces | htag
    · -- a part of spaces changes nothing
      have hname : tagName part = [] := Circuit.Email.tagName_spaces hspaces
      rw [hname, if_neg (by simp), List.nil_append] at hnodup hnew ⊢
      obtain ⟨s', hfold, hs'⟩ := ih (s := ⟨s.tags, s.tagOffset + part.length + 1⟩) hrest hnodup hnew
      refine ⟨s', ?_, hs'⟩
      rw [List.foldlM_cons, TagReader.read, TagReader.add_of_spaces hspaces]
      exact hfold
    · have hname := htag.tagName_ne_nil
      rw [if_pos hname, List.singleton_append] at hnodup hnew ⊢
      obtain ⟨hnotMem, hnodup⟩ := List.nodup_cons.mp hnodup
      obtain ⟨hfirst, hnew⟩ := List.forall_mem_cons.mp hnew
      obtain ⟨s', hfold, hs'⟩ := ih
        (s := ⟨s.tags.set (tagName part) (tagOf (s.tagOffset, part)),
          s.tagOffset + part.length + 1⟩)
        hrest hnodup fun name hmem => by
          have hne : name ≠ tagName part := fun heq => hnotMem (heq ▸ hmem)
          exact (OrderedMap.get_set_of_ne s.tags _ hne).trans (hnew name hmem)
      refine ⟨s', ?_, hs'⟩
      rw [List.foldlM_cons, TagReader.read, TagReader.add_of_tag htag hfirst]
      exact hfold

/-- **The tags of a value without a repeated name**: each stands under its name. -/
theorem exists_readTags {offset : Nat} {value : Bytes} (hparts : AreTags (value.splitOn SEMICOLON))
    (hnodup : (tagNames (value.splitOn SEMICOLON)).Nodup) :
    ∃ tags, readTags offset value = .ok tags ∧
      ∀ p ∈ located 1 offset (value.splitOn SEMICOLON), tagName p.2 ≠ [] →
        tags.get (tagName p.2) = some (tagOf p) := by
  obtain ⟨s, hfold, hs⟩ := TagReader.exists_foldlM (s := { tags := .empty, tagOffset := offset })
    hparts hnodup fun _ _ => OrderedMap.get_empty
  refine ⟨s.tags, bind_eq_ok.mpr ⟨s, hfold, rfl⟩, fun p hp hname => ?_⟩
  have hmem : p ∈ named offset (value.splitOn SEMICOLON) :=
    List.mem_filter.mpr ⟨hp, by simpa using hname⟩
  rw [hs, LastWrite.get_foldl_set (fun p => tagName p.2) tagOf,
    LastWrite.lastUnder_of_mem (by rwa [map_named]) hmem rfl, Option.map_some]

end ZkPoR.EmailTool
