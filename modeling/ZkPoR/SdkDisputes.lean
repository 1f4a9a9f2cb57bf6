import ZkPoR.InsertionSort
import ZkPoR.JsonAgreement
import ZkPoR.SdkInclusion
import Mathlib.Data.List.Lex

/-! # The dispute evidence of the SDK

`disputes.ts`: the check of one inclusion evidence, its reader, and the evidence of a
customer package.  The reader compares the sorted keys of the file with one joined text,
so it takes an object with the four fields in any order (`parseInclusionEvidence_eq_ok`).
-/
namespace ZkPoR.Sdk
open CheckedInt BoundedLoop JsonText JavaScript InsertionSort

/-- The evidence that a customer stands at one position of a tree. -/
structure InclusionEvidence where
  id : Nat
  commitment : Nat
  path : List Nat
  position : Nat
deriving DecidableEq

/-! ## Keys -/

/-- The code units of a text, which `sort` compares. -/
def codeUnits (text : Text) : List Nat :=
  text.flatMap fun
    | .scalar c =>
      if c.toNat < 0x10000 then [c.toNat]
      else [0xD800 + (c.toNat - 0x10000) / 0x400, 0xDC00 + (c.toNat - 0x10000) % 0x400]
    | .surrogate unit => [unit]

/-- `Object.keys(value).sort().join(",")` -/
def sortedKeys (keys : List Text) : List Nat :=
  (codeUnits (Text.ofString ",")).intercalate (insertionSort (keys.map codeUnits))

def EVIDENCE_KEYS : String := "commitment,id,path,position"

/-! ## The reader -/

def validIdentifier (id : Nat) : Except String Unit :=
  check (¬ (id = PADDING_LEAF_ID ∨ ¬ inRange id)) "the identifier must be a nonzero field element"

def validateInclusionEvidence (evidence : InclusionEvidence) : Except String Unit := do
  validIdentifier evidence.id
  check (inRange evidence.commitment) "the commitment is not a field element"
  check (evidence.position ≤ MAX_U32) "the leaf position must be a u32"
  check (∀ sibling ∈ evidence.path, inRange sibling) "the path must contain field elements"

def orInvalid {α : Type} (x : Option α) (message : String) : Except String α :=
  match x with
  | some a => .ok a
  | none => .error message

def pathField (entry : Text) (index : Nat) : Except String Nat :=
  parseHex entry s!"the path at level {index}"

/-- Reads the public answer artifact.  It carries no balance or salt. -/
def parseInclusionEvidence (text : String) : Except String InclusionEvidence := do
  let parsed ← orInvalid (JavaScript.parse text) "the answer artifact is not JSON"
  let source ← orInvalid (record? parsed) "the answer artifact has incorrect fields"
  check (sortedKeys (source.map Prod.fst) = codeUnits (Text.ofString EVIDENCE_KEYS))
    "the answer artifact has incorrect fields"
  let missing := "the answer artifact needs an identifier and a commitment"
  let idText ← orInvalid ((property source "id").bind string?) missing
  let commitmentText ← orInvalid ((property source "commitment").bind string?) missing
  let entries ← orInvalid (((property source "path").bind Value.elements?).bind fun entries =>
    entries.mapM string?) "the answer artifact needs a path of field elements"
  let id ← parseHex idText "the identifier"
  let commitment ← parseHex commitmentText "the commitment"
  let path ← entries.zipIdx.mapM fun (entry, index) => pathField entry index
  let position ← parseU32 (property source "position") "the position"
  let evidence := { id, commitment, path, position }
  validateInclusionEvidence evidence
  return evidence

/-- The evidence that a customer package holds. -/
def inclusionEvidenceFromPackage (entry : InclusionPackage) : Except String InclusionEvidence := do
  let evidence := {
    id := entry.id
    commitment := entry.commitment
    path := entry.siblings
    position := entry.leafIndex }
  validateInclusionEvidence evidence
  return evidence

/-! ## What the reader takes -/

/-- What every evidence satisfies. -/
structure InclusionEvidence.Valid (e : InclusionEvidence) : Prop where
  idNonzero : e.id ≠ PADDING_LEAF_ID
  id : e.id < frModulus
  commitment : e.commitment < frModulus
  path : ∀ sibling ∈ e.path, sibling < frModulus
  position : e.position < 2 ^ 32

theorem validateInclusionEvidence_eq_ok {e : InclusionEvidence} {u : Unit} :
    validateInclusionEvidence e = .ok u ↔ e.Valid := by
  have hmax : e.position ≤ MAX_U32 ↔ e.position < 2 ^ 32 := Nat.lt_succ_iff.symm
  simp only [validateInclusionEvidence, validIdentifier, bind_eq_ok, check_eq_ok, not_or, not_not,
    hmax]
  constructor
  · rintro ⟨_, ⟨hne, hid⟩, _, hcommitment, _, hposition, hpath⟩
    exact ⟨hne, hid, hcommitment, hpath, hposition⟩
  · intro h
    exact ⟨(), ⟨h.idNonzero, h.id⟩, (), h.commitment, (), h.position, h.path⟩

theorem orInvalid_eq_ok {α : Type} {x : Option α} {message : String} {a : α} :
    orInvalid x message = .ok a ↔ x = some a := by
  cases x <;> simp [orInvalid]

/-- The object is the evidence: its four fields, and the one text of each. -/
structure IsEvidence (source : List (Text × Value)) (e : InclusionEvidence) : Prop where
  keys : sortedKeys (source.map Prod.fst) = codeUnits (Text.ofString EVIDENCE_KEYS)
  id : IsHexField (property source "id") e.id
  idNonzero : e.id ≠ PADDING_LEAF_ID
  commitment : IsHexField (property source "commitment") e.commitment
  path : ∃ values, property source "path" = some (.array values) ∧
    List.Forall₂ IsHex values e.path
  position : IsU32Field (property source "position") e.position

theorem pathField_eq_ok {entry : Text} {index v : Nat} :
    pathField entry index = .ok v ↔
      v < frModulus ∧ entry = Text.ofString (hexText (BitVec.ofNat 256 v)) := parseHex_eq_ok

/-- The entries of the path are strings, and each one reads as a field element. -/
theorem pathFields_eq_ok {values : List Value} {start : Nat} {path : List Nat} :
    (∃ entries, values.mapM string? = some entries ∧
      ((entries.zipIdx start).mapM fun (entry, index) => pathField entry index) = .ok path) ↔
      List.Forall₂ IsHex values path := by
  induction values generalizing start path with
  | nil => cases path <;> simp [pure, Except.pure]
  | cons value values ih =>
    simp only [List.mapM_cons, Option.bind_eq_bind, Option.bind_eq_some_iff, string?_eq_some]
    constructor
    · rintro ⟨_, ⟨text, rfl, entries, hentries, hout⟩, hread⟩
      cases hout
      rw [List.zipIdx_cons, mapM_cons_eq_ok] at hread
      obtain ⟨v, vs, hv, hvs, rfl⟩ := hread
      have hhex := pathField_eq_ok.mp hv
      exact .cons ⟨congrArg Value.string hhex.2, hhex.1⟩ (ih.mp ⟨entries, hentries, hvs⟩)
    · rintro (_ | @⟨_, v, _, vs, hv, hvs⟩)
      obtain ⟨entries, hentries, hread⟩ := ih.mpr hvs
      have hhead : pathField (Text.ofString (hexText (BitVec.ofNat 256 v))) start = .ok v :=
        pathField_eq_ok.mpr ⟨hv.2, rfl⟩
      refine ⟨Text.ofString (hexText (BitVec.ofNat 256 v)) :: entries,
        ⟨_, hv.1, entries, hentries, rfl⟩, ?_⟩
      rw [List.zipIdx_cons, mapM_cons_eq_ok]
      dsimp only
      rw [hhead]
      exact ⟨v, vs, rfl, hread, rfl⟩

theorem IsEvidence.valid {source : List (Text × Value)} {e : InclusionEvidence}
    (h : IsEvidence source e) : e.Valid := by
  obtain ⟨_, -, -, hid⟩ := h.id
  obtain ⟨_, -, -, hcommitment⟩ := h.commitment
  obtain ⟨_, -, hpath⟩ := h.path
  exact ⟨h.idNonzero, hid, hcommitment, lt_of_forall₂_isHex hpath, h.position.2⟩

theorem hexText_eq_ok {value : Option Value} {what : String} {v : Nat} :
    (∃ text, value.bind string? = some text ∧ parseHex text what = .ok v) ↔ IsHexField value v := by
  simp only [Option.bind_eq_some_iff, string?_eq_some, parseHex_eq_ok]
  constructor
  · rintro ⟨text, ⟨_, hvalue, rfl⟩, hlt, htext⟩
    exact ⟨_, hvalue, congrArg Value.string htext, hlt⟩
  · rintro ⟨_, hvalue, rfl, hlt⟩
    exact ⟨_, ⟨_, hvalue, rfl⟩, hlt, rfl⟩

/-- **The reader takes exactly the objects that are evidence.** -/
theorem parseInclusionEvidence_eq_ok {text : String} {e : InclusionEvidence} :
    parseInclusionEvidence text = .ok e ↔
      ∃ source, JavaScript.parse text = some (.object source) ∧ IsEvidence source e := by
  have hpath : ∀ {value : Option Value} {entries : List Text},
      (value.bind Value.elements?).bind (fun entries => entries.mapM string?) = some entries ↔
        ∃ values, value = some (.array values) ∧ values.mapM string? = some entries := by
    intro value entries
    simp only [Option.bind_eq_some_iff, elements?_eq_some]
    constructor
    · rintro ⟨values, ⟨_, hvalue, rfl⟩, h⟩
      exact ⟨values, hvalue, h⟩
    · rintro ⟨values, hvalue, h⟩
      exact ⟨values, ⟨_, hvalue, rfl⟩, h⟩
  simp only [parseInclusionEvidence, bind_eq_ok, orInvalid_eq_ok, record?_eq_some, check_eq_ok, hpath,
    parseU32_eq_ok, validateInclusionEvidence_eq_ok]
  constructor
  · rintro ⟨_, hparse, source, rfl, _, hkeys, idText, hidText, commitmentText, hcommitmentText,
      entries, ⟨values, hvalues, hentries⟩, id, hid, commitment, hcommitment, path, hread,
      position, hposition, _, hvalid, hout⟩
    cases hout
    exact ⟨source, hparse, hkeys, hexText_eq_ok.mp ⟨idText, hidText, hid⟩, hvalid.idNonzero,
      hexText_eq_ok.mp ⟨commitmentText, hcommitmentText, hcommitment⟩,
      ⟨values, hvalues, pathFields_eq_ok.mp ⟨entries, hentries, hread⟩⟩, hposition⟩
  · rintro ⟨source, hparse, h⟩
    obtain ⟨idText, hidText, hid⟩ := hexText_eq_ok.mpr h.id
    obtain ⟨commitmentText, hcommitmentText, hcommitment⟩ := hexText_eq_ok.mpr h.commitment
    obtain ⟨values, hvalues, hpath⟩ := h.path
    obtain ⟨entries, hentries, hread⟩ := pathFields_eq_ok.mpr hpath
    exact ⟨_, hparse, source, rfl, (), h.keys, idText, hidText, commitmentText, hcommitmentText,
      entries, ⟨values, hvalues, hentries⟩, _, hid, _, hcommitment, _, hread, _, h.position, (),
      h.valid, rfl⟩

/-! ## The order of the keys -/

theorem perm_setProperty {key : Text} {value : Value} {properties : List (Text × Value)}
    (h : key ∉ properties.map Prod.fst) :
    (setProperty key value properties).Perm ((key, value) :: properties) := by
  induction properties with
  | nil => exact List.Perm.refl _
  | cons head properties ih =>
    obtain ⟨k, v⟩ := head
    rw [List.map_cons, List.mem_cons, not_or] at h
    rw [setProperty, if_neg (Ne.symm h.1)]
    split
    · exact List.Perm.refl _
    · exact ((ih h.2).cons _).trans (List.Perm.swap _ _ _)

/-- The keys of an object are those of the text, in another order. -/
theorem perm_ofMembers {members : List (Text × Json)} (sofar : List (Text × Value))
    (hnodup : (members.map Prod.fst).Nodup)
    (hnew : ∀ key ∈ members.map Prod.fst, key ∉ sofar.map Prod.fst) :
    ((ofMembers sofar members).map Prod.fst).Perm
      (members.map Prod.fst ++ sofar.map Prod.fst) := by
  induction members generalizing sofar with
  | nil => exact List.Perm.refl _
  | cons member members ih =>
    obtain ⟨key, x⟩ := member
    rw [List.map_cons, List.nodup_cons] at hnodup
    rw [List.map_cons, List.forall_mem_cons] at hnew
    have hset := (@perm_setProperty key (ofJson x) sofar hnew.1).map Prod.fst
    rw [List.map_cons] at hset
    have hnext : ∀ k ∈ members.map Prod.fst,
        k ∉ (setProperty key (ofJson x) sofar).map Prod.fst := by
      intro k hk hmem
      rcases List.mem_cons.mp (hset.mem_iff.mp hmem) with rfl | hmem
      · exact hnodup.1 hk
      · exact hnew.2 k hk hmem
    rw [ofMembers, List.map_cons, List.cons_append]
    exact (ih _ hnodup.2 hnext).trans
      (((hset.append_left _)).trans List.perm_middle)

/-- The order of the keys does not matter to the joined text. -/
theorem sortedKeys_perm {keys keys' : List Text} (h : keys.Perm keys') :
    sortedKeys keys = sortedKeys keys' := by
  rw [sortedKeys, sortedKeys, insertionSort_congr (h.map codeUnits)]

end ZkPoR.Sdk
