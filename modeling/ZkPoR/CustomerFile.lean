import ZkPoR.GeneratorAgreement
import ZkPoR.IdentityAgreement
import ZkPoR.PackageSchema
import ZkPoR.TextLines

/-! # The customer file

`read_customer_entries` drops blank lines, comments, and one header, and reads each
line that is left as one row: `id,balance` under the legacy header or none, and five
fields under the versioned header.  `dataLines` are the lines of a file that are neither
blank nor a comment, less one header, and `RowOf` says what a row writes, so that the reader
answers one entry for each of these lines in order, or refuses the file (`customer_file`).
-/
namespace ZkPoR.Generator
open CheckedInt DecimalText TextLines Package Circuit
open BoundedLoop (bind_eq_ok mapM_eq_ok_iff)
open Schema (IdentifierRule IDENTIFIER_RULE mapError_eq_ok)

def LEGACY_IDENTIFIER_RULE : String := "zkpor-legacy-id/1"
def VERSIONED_CUSTOMER_HEADER : String := "id,balance,identifier_rule,email,code"
def LEGACY_CUSTOMER_HEADER : String := "id,balance"

/-- One row of a customer file. -/
structure CustomerEntry where
  id : Nat
  balance : U64
  identifierRule : IdentifierRule
deriving DecidableEq

/-! ## Numbers -/

/-- `parse::<u64>()`: one sign may come first. -/
def parseU64Text (text : List Char) : Option U64 :=
  let digits := (List.isPrefixOf? ['+'] text).getD text
  if digits = [] ∨ ¬ digits.all Char.isDigit then none
  else if Nat.ofDigitChars 10 digits 0 < 2 ^ 64 then
    some (BitVec.ofNat 64 (Nat.ofDigitChars 10 digits 0))
  else none

/-- `parse::<BigUint>()` -/
abbrev BigUintParser : Type := List Char → Option Nat

/-- A text writes a number in decimal, behind one sign or none. -/
def WritesDecimal (text : List Char) (n : Nat) : Prop :=
  ∃ digits, digits ≠ [] ∧ (∀ c ∈ digits, c.isDigit = true) ∧
    (text = digits ∨ text = '+' :: digits) ∧ Nat.ofDigitChars 10 digits 0 = n

/-- What the reader needs of `num-bigint`: an accepted text writes the number, with
separators that have no value, and every text of digits is accepted. -/
structure BigUintParser.Documented (parseBigUint : BigUintParser) : Prop where
  sound : ∀ {text n}, parseBigUint text = some n →
    WritesDecimal (text.filter fun c => c ≠ '_') n
  digits : ∀ {text}, text ≠ [] → (∀ c ∈ text, c.isDigit = true) →
    parseBigUint text = some (Nat.ofDigitChars 10 text 0)

def versionedDecimal (value : List Char) : Bool :=
  value ≠ [] && (value = ['0'] || value.head? ≠ some '0') && value.all Char.isDigit

/-! ## The reader -/

def orPanic {α : Type} (x : Option α) (message : String) : Except String α :=
  match x with
  | some a => .ok a
  | none => .error message

def assertThat (p : Prop) [Decidable p] (message : String) : Except String Unit :=
  if p then .ok () else .error message

/-- The lines that are neither blank nor a comment, with their numbers. -/
def numberedLines (text : List Char) : List (Nat × List Char) :=
  ((lines text).zipIdx 1).filterMap fun (line, number) =>
    if trim line = [] ∨ (line.dropWhile isWhitespace).head? = some '#' then none
    else some (number, line)

/-- The first of these lines is the given header. -/
def startsWith (header : String) (text : List Char) : Bool :=
  match numberedLines text with
  | [] => false
  | (_, line) :: _ => line = header.toList

/-- The lines of the rows: a header is none. -/
def numberedRows (text : List Char) : List (Nat × List Char) :=
  if startsWith VERSIONED_CUSTOMER_HEADER text ∨ startsWith LEGACY_CUSTOMER_HEADER text then
    (numberedLines text).tail
  else numberedLines text

section Reader
variable (primitives : Identity.Primitives) (parseBigUint : BigUintParser)

/-- The decimal identifier of a versioned row. -/
def rowIdentifier (number : Nat) (text : List Char) : Except String Nat := do
  assertThat (versionedDecimal text = true) s!"row {number} needs a decimal identifier"
  orPanic (parseBigUint text) s!"row {number} needs a decimal identifier"

/-- The identifier of a row with an email, and its check against a written one. -/
def emailIdentifier (number : Nat) (id email code : List Char) : Except String Nat := do
  let derived ← (Identity.deriveIdentifier primitives (String.ofList email)
    (String.ofList code)).mapError fun reason => s!"row {number}: {reason.toString}"
  if id = [] then return derived
  else do
    let supplied ← rowIdentifier parseBigUint number id
    assertThat (supplied = derived) s!"row {number} identifier differs from its email and code"
    return derived

def versionedEntry (number : Nat) (line : List Char) : Except String CustomerEntry :=
  match line.splitOn ',' with
  | [id, balance, rule, email, code] => do
    assertThat (versionedDecimal balance = true) s!"row {number} needs a decimal balance"
    let balance ← orPanic (parseU64Text balance) s!"row {number} needs a u64 balance"
    if rule = LEGACY_IDENTIFIER_RULE.toList then do
      assertThat (email = [] ∧ code = [])
        s!"row {number} is legacy and cannot carry an email or code"
      let id ← rowIdentifier parseBigUint number id
      return { id, balance, identifierRule := .legacy }
    else if rule = IDENTIFIER_RULE.toList then do
      let id ← emailIdentifier primitives parseBigUint number id email code
      return { id, balance, identifierRule := .emailCodeV1 }
    else .error s!"row {number} has an unsupported identifier rule"
  | _ => .error s!"row {number} needs five customer fields"

def legacyEntry (number : Nat) (line : List Char) : Except String CustomerEntry := do
  let (id, balance) ← orPanic (splitOnce ',' line) s!"row {number} needs id,balance"
  let id ← orPanic (parseBigUint (trim id)) s!"row {number} needs a decimal identifier"
  let balance ← orPanic (parseU64Text (trim balance)) s!"row {number} needs a u64 balance"
  return { id, balance, identifierRule := .legacy }

def customerEntry (versioned : Bool) (row : Nat × List Char) : Except String CustomerEntry :=
  if versioned then versionedEntry primitives parseBigUint row.1 row.2
  else legacyEntry parseBigUint row.1 row.2

/-- The identifiers and the balances of the entries. -/
def rowsOf (entries : List CustomerEntry) : List Row :=
  entries.map fun entry => (entry.id, entry.balance)

def readCustomerEntries (text : List Char) : Except String (List CustomerEntry) := do
  let entries ← (numberedRows text).mapM
    (customerEntry primitives parseBigUint (startsWith VERSIONED_CUSTOMER_HEADER text))
  assertIdentifierRules (rowsOf entries)
  return entries

def readCustomers (text : List Char) : Except String (List Row) := do
  let entries ← readCustomerEntries primitives parseBigUint text
  return rowsOf entries

end Reader

/-! ## What a row writes -/

/-- The lines that are neither blank nor a comment. -/
def contentLines (text : List Char) : List (List Char) :=
  (lines text).filter fun line =>
    trim line ≠ [] ∧ (line.dropWhile isWhitespace).head? ≠ some '#'

/-- The file says that its rows have five fields. -/
def isVersioned (text : List Char) : Bool :=
  (contentLines text).head? = some VERSIONED_CUSTOMER_HEADER.toList

/-- The lines of the rows, in file order: one header in front is no row. -/
def dataLines (text : List Char) : List (List Char) :=
  match contentLines text with
  | [] => []
  | line :: rest =>
    if line ∈ [VERSIONED_CUSTOMER_HEADER.toList, LEGACY_CUSTOMER_HEADER.toList] then rest
    else line :: rest

/-- The numbers of the lines select nothing. -/
theorem map_numberedLines (text : List Char) :
    (numberedLines text).map Prod.snd = contentLines text := by
  unfold numberedLines contentLines
  generalize 1 = first
  induction lines text generalizing first with
  | nil => rfl
  | cons line rest ih =>
    rw [List.zipIdx_cons, List.filterMap_cons]
    by_cases hskip : trim line = [] ∨ (line.dropWhile isWhitespace).head? = some '#'
    · simp only [hskip, if_true, ih]
      rw [List.filter_cons_of_neg]
      simpa [or_iff_not_imp_left] using hskip
    · simp only [hskip, if_false, List.map_cons, ih]
      rw [List.filter_cons_of_pos]
      simpa [not_or] using hskip

theorem startsWith_eq (header : String) (text : List Char) :
    startsWith header text = decide ((contentLines text).head? = some header.toList) := by
  rw [startsWith, ← map_numberedLines]
  cases numberedLines text with
  | nil => rfl
  | cons row rest => simp

/-- **The reader takes the lines of the rows**, and no other line. -/
theorem map_numberedRows (text : List Char) :
    (numberedRows text).map Prod.snd = dataLines text := by
  have hheader : (startsWith VERSIONED_CUSTOMER_HEADER text = true ∨
      startsWith LEGACY_CUSTOMER_HEADER text = true) ↔ ∃ header ∈
        [VERSIONED_CUSTOMER_HEADER.toList, LEGACY_CUSTOMER_HEADER.toList],
        (contentLines text).head? = some header := by
    simp [startsWith_eq]
  have hlines := map_numberedLines text
  unfold numberedRows dataLines
  cases hcontent : contentLines text with
  | nil =>
    rw [hcontent, List.map_eq_nil_iff] at hlines
    simp [hlines]
  | cons line rest =>
    rw [hcontent] at hlines hheader
    simp only [List.head?_cons, Option.some.injEq, exists_eq_right'] at hheader
    dsimp only
    by_cases hfirst : line ∈ [VERSIONED_CUSTOMER_HEADER.toList, LEGACY_CUSTOMER_HEADER.toList]
    · rw [if_pos (hheader.mpr hfirst), if_pos hfirst, List.map_tail, hlines, List.tail_cons]
    · rw [if_neg (mt hheader.mp hfirst), if_neg hfirst, hlines]

/-- What one line writes: the number behind each decimal field, and the identifier that
the email and the code derive. -/
inductive RowOf (primitives : Identity.Primitives) : Bool → List Char → CustomerEntry → Prop
  | legacy {line id balance entry} (fields : line = id ++ ',' :: balance) (first : ',' ∉ id)
      (idWritten : WritesDecimal ((trim id).filter fun c => c ≠ '_') entry.id)
      (balanceWritten : WritesDecimal (trim balance) entry.balance.toNat)
      (rule : entry.identifierRule = .legacy) : RowOf primitives false line entry
  | versionedLegacy {line entry}
      (fields : line.splitOn ',' = [Nat.toDigits 10 entry.id,
        Nat.toDigits 10 entry.balance.toNat, LEGACY_IDENTIFIER_RULE.toList, [], []])
      (rule : entry.identifierRule = .legacy) : RowOf primitives true line entry
  | email {line id email code entry}
      (fields : line.splitOn ',' = [id, Nat.toDigits 10 entry.balance.toNat,
        IDENTIFIER_RULE.toList, email, code])
      (derived : Identity.deriveIdentifier primitives (String.ofList email) (String.ofList code) =
        .ok entry.id)
      (idWritten : id = [] ∨ id = Nat.toDigits 10 entry.id)
      (rule : entry.identifierRule = .emailCodeV1) : RowOf primitives true line entry

section Fields

theorem orPanic_eq_ok {α : Type} {x : Option α} {message : String} {a : α} :
    orPanic x message = .ok a ↔ x = some a := by
  cases x <;> simp [orPanic]

theorem assertThat_eq_ok {p : Prop} [Decidable p] {message : String} {u : Unit} :
    assertThat p message = .ok u ↔ p := by
  unfold assertThat
  split <;> simp [*]

/-- A text is what stands behind its sign, or a sign comes first. -/
theorem eq_or_eq_cons_of_isPrefixOf? {sign : Char} {text : List Char} :
    text = (List.isPrefixOf? [sign] text).getD text ∨
      text = sign :: (List.isPrefixOf? [sign] text).getD text := by
  cases text with
  | nil => exact .inl rfl
  | cons c text =>
    by_cases hsign : sign = c
    · exact .inr (by simp [List.isPrefixOf?, hsign])
    · exact .inl (by simp [List.isPrefixOf?, hsign])

theorem writesDecimal_of_parseU64Text {text : List Char} {n : U64}
    (h : parseU64Text text = some n) : WritesDecimal text n.toNat := by
  unfold parseU64Text at h
  dsimp only at h
  split at h
  · cases h
  rename_i hdigits
  split at h
  · rename_i hlt
    rw [not_or, not_not, List.all_eq_true] at hdigits
    obtain rfl := Option.some.inj h
    exact ⟨_, hdigits.1, hdigits.2, eq_or_eq_cons_of_isPrefixOf?, by
      rw [BitVec.toNat_ofNat, Nat.mod_eq_of_lt hlt]⟩
  · cases h

/-- The strict check of a versioned row leaves one text for each number. -/
theorem isDecimal_of_versionedDecimal {text : List Char} (h : versionedDecimal text = true) :
    IsDecimal text := by
  simp only [versionedDecimal, Bool.and_eq_true, Bool.or_eq_true, decide_eq_true_eq,
    List.all_eq_true] at h
  obtain ⟨⟨hne, hzero⟩, hdigits⟩ := h
  exact ⟨hne, fun hhead => hzero.elim (fun h => by rw [h]; rfl) fun h => absurd hhead h, hdigits⟩

/-- A text of digits has no sign. -/
theorem toDigits_of_writesDecimal {text : List Char} {n : Nat} (htext : IsDecimal text)
    (h : WritesDecimal text n) : text = Nat.toDigits 10 n := by
  obtain ⟨digits, -, -, rfl | rfl, rfl⟩ := h
  · exact (toDigits_ofDigitChars htext).symm
  · exact absurd (htext.2.2 '+' List.mem_cons_self) (by decide)

variable {primitives : Identity.Primitives} {parseBigUint : BigUintParser}

theorem rowIdentifier_eq_ok (hbig : BigUintParser.Documented parseBigUint) {number : Nat}
    {text : List Char} {id : Nat} (h : rowIdentifier parseBigUint number text = .ok id) :
    text = Nat.toDigits 10 id := by
  simp only [rowIdentifier, bind_eq_ok, assertThat_eq_ok, orPanic_eq_ok] at h
  obtain ⟨_, hdecimal, hparse⟩ := h
  have htext := isDecimal_of_versionedDecimal hdecimal
  rw [hbig.digits htext.1 htext.2.2] at hparse
  rw [← Option.some.inj hparse, toDigits_ofDigitChars htext]

theorem emailIdentifier_eq_ok (hbig : BigUintParser.Documented parseBigUint) {number : Nat}
    {text email code : List Char} {id : Nat}
    (h : emailIdentifier primitives parseBigUint number text email code = .ok id) :
    Identity.deriveIdentifier primitives (String.ofList email) (String.ofList code) = .ok id ∧
      (text = [] ∨ text = Nat.toDigits 10 id) := by
  simp only [emailIdentifier, bind_eq_ok] at h
  obtain ⟨derived, hderived, h⟩ := h
  rw [mapError_eq_ok] at hderived
  split at h
  · rename_i hempty
    obtain rfl := Except.ok.inj h
    exact ⟨hderived, .inl hempty⟩
  · simp only [bind_eq_ok, assertThat_eq_ok] at h
    obtain ⟨supplied, hsupplied, _, hsame, h⟩ := h
    obtain rfl := Except.ok.inj h
    exact ⟨hderived, .inr (hsame ▸ rowIdentifier_eq_ok hbig hsupplied)⟩

/-- **What the reader of a row accepts.** -/
theorem rowOf_of_customerEntry (hbig : BigUintParser.Documented parseBigUint) {versioned : Bool}
    {row : Nat × List Char} {entry : CustomerEntry}
    (h : customerEntry primitives parseBigUint versioned row = .ok entry) :
    RowOf primitives versioned row.2 entry := by
  cases versioned with
  | false =>
    simp only [customerEntry, Bool.false_eq_true, if_false, legacyEntry, bind_eq_ok,
      orPanic_eq_ok] at h
    obtain ⟨⟨idText, balanceText⟩, hsplit, id, hid, balance, hbalance, h⟩ := h
    obtain rfl := Except.ok.inj h
    obtain ⟨hline, hfirst⟩ := splitOnce_eq_some.mp hsplit
    exact .legacy hline hfirst (hbig.sound hid) (writesDecimal_of_parseU64Text hbalance) rfl
  | true =>
    simp only [customerEntry, if_true, versionedEntry] at h
    split at h
    · rename_i id balanceText rule email code hfields
      simp only [bind_eq_ok, assertThat_eq_ok, orPanic_eq_ok] at h
      obtain ⟨_, hdecimal, balance, hbalance, h⟩ := h
      have htext := toDigits_of_writesDecimal (isDecimal_of_versionedDecimal hdecimal)
        (writesDecimal_of_parseU64Text hbalance)
      split at h
      · rename_i hrule
        simp only [bind_eq_ok, assertThat_eq_ok] at h
        obtain ⟨_, ⟨rfl, rfl⟩, id, hid, h⟩ := h
        obtain rfl := Except.ok.inj h
        have hidText := rowIdentifier_eq_ok hbig hid
        exact .versionedLegacy (by rw [hfields, htext, hrule, hidText]) rfl
      split at h
      · rename_i hrule
        simp only [bind_eq_ok] at h
        obtain ⟨id, hid, h⟩ := h
        obtain rfl := Except.ok.inj h
        obtain ⟨hderived, hwritten⟩ := emailIdentifier_eq_ok hbig hid
        exact .email (by rw [hfields, htext, hrule]) hderived hwritten rfl
      · cases h
    · cases h

end Fields

/-! ## The list and the tree -/

section Rows
variable {rows : List Row}

/-- The exact sum of the balances. -/
def totalOf (rows : List Row) : Nat := (rows.map fun row => row.2.toNat).sum

/-- Padding keeps the rows in front, and adds rows that hold nothing. -/
theorem padToCapacity_of_le {capacity : Nat} (h : rows.length ≤ capacity) :
    ∃ padded, padToCapacity rows capacity = .ok padded ∧
      padded = rows ++ List.replicate (capacity - rows.length) (0, 0) ∧
      padded.length = capacity ∧ totalOf padded = totalOf rows := by
  refine ⟨_, if_neg (not_not.mpr h), rfl, ?_, ?_⟩
  · rw [List.length_append, List.length_replicate]
    omega
  · have hnothing : ZkPoR.PADDING_LEAF_BALANCE.toNat = 0 := rfl
    simp [totalOf, hnothing]

theorem padToCapacity_of_lt {capacity : Nat} (h : capacity < rows.length) :
    ∃ reason, padToCapacity rows capacity = .error reason :=
  ⟨_, if_pos (Nat.not_le.mpr h)⟩

/-- The position of an identifier is where it stands, once the identifiers differ. -/
theorem indexOfCustomer_eq_ok (hnodup : (rows.map Prod.fst).Nodup) {id i : Nat} :
    indexOfCustomer rows id = .ok i ↔ (rows.map Prod.fst)[i]? = some id := by
  unfold indexOfCustomer
  constructor
  · intro h
    split at h
    · cases h
    · rename_i index hfind
      obtain rfl := Except.ok.inj h
      obtain ⟨hlt, hid, -⟩ := List.findIdx?_eq_some_iff_getElem.mp hfind
      rw [List.getElem?_map, List.getElem?_eq_getElem hlt, Option.map_some, of_decide_eq_true hid]
  · intro h
    obtain ⟨hlt, hid⟩ := List.getElem?_eq_some_iff.mp h
    rw [List.length_map] at hlt
    have hfind : rows.findIdx? (fun row => decide (row.1 = id)) = some i := by
      rw [List.findIdx?_eq_some_iff_getElem]
      refine ⟨hlt, by simpa using hid, fun j hji hj => ?_⟩
      have hsame : (rows.map Prod.fst)[j]? = (rows.map Prod.fst)[i]? := by
        rw [h, List.getElem?_map, List.getElem?_eq_getElem (hji.trans hlt), Option.map_some,
          of_decide_eq_true hj]
      have hjlt : j < (rows.map Prod.fst).length := by
        rw [List.length_map]
        exact hji.trans hlt
      exact hji.ne (List.getElem?_inj hjlt hnodup |>.mp hsame)
    rw [hfind]

end Rows

/-- **The customer file.**  The reader refuses the file, or answers one entry for each
line of a row, in order, that the line writes; no identifier stands twice.  Padding
keeps these rows in front and their sum, or refuses, and the index of an identifier is
its one position. -/
theorem customer_file {primitives : Identity.Primitives} {parseBigUint : BigUintParser}
    (hbig : BigUintParser.Documented parseBigUint) {text : List Char}
    {entries : List CustomerEntry}
    (h : readCustomerEntries primitives parseBigUint text = .ok entries) :
    List.Forall₂ (RowOf primitives (isVersioned text)) (dataLines text) entries ∧
    readCustomers primitives parseBigUint text = .ok (rowsOf entries) ∧
    (∀ entry ∈ entries, entry.id ≠ 0 ∧ entry.id < frModulus) ∧
    (entries.map CustomerEntry.id).Nodup ∧
    (∀ capacity, (rowsOf entries).length ≤ capacity →
      ∃ padded, padToCapacity (rowsOf entries) capacity = .ok padded ∧
        padded = rowsOf entries ++
          List.replicate (capacity - (rowsOf entries).length) (0, 0) ∧
        padded.length = capacity ∧ totalOf padded = totalOf (rowsOf entries)) ∧
    (∀ capacity, capacity < (rowsOf entries).length →
      ∃ reason, padToCapacity (rowsOf entries) capacity = .error reason) ∧
    (∀ id i, indexOfCustomer (rowsOf entries) id = .ok i ↔
      (entries.map CustomerEntry.id)[i]? = some id) := by
  have hread := h
  simp only [readCustomerEntries, bind_eq_ok, mapM_eq_ok_iff] at h
  obtain ⟨found, hrows, _, hrules, h⟩ := h
  rw [Except.ok.inj h] at hrows hrules
  have hids : (rowsOf entries).map Prod.fst = entries.map CustomerEntry.id := by
    rw [rowsOf, List.map_map]
    rfl
  obtain ⟨hfields, hnodup⟩ := assertIdentifierRules_eq_ok.mp hrules
  refine ⟨?_, ?_, fun entry hmem => ?_, hids ▸ hnodup, fun _ => padToCapacity_of_le,
    fun _ => padToCapacity_of_lt, fun id i => hids ▸ indexOfCustomer_eq_ok hnodup⟩
  · rw [← map_numberedRows, isVersioned, ← startsWith_eq, List.forall₂_map_left_iff]
    exact hrows.imp fun _ _ hrow => rowOf_of_customerEntry hbig hrow
  · rw [readCustomers, hread]
    rfl
  · exact hfields (entry.id, entry.balance) (List.mem_map_of_mem hmem)

/-! ## A file of two rows -/

/-- A parser that follows the documentation. -/
def referenceBigUint : BigUintParser := fun text =>
  let digits := text.filter fun c => c ≠ '_'
  let digits := (List.isPrefixOf? ['+'] digits).getD digits
  if text.head? = some '_' ∨ digits = [] ∨ ¬ digits.all Char.isDigit then none
  else some (Nat.ofDigitChars 10 digits 0)

theorem referenceBigUint_documented : BigUintParser.Documented referenceBigUint where
  sound {text n} h := by
    unfold referenceBigUint at h
    dsimp only at h
    split at h
    · cases h
    rename_i hdigits
    simp only [not_or, not_not, List.all_eq_true] at hdigits
    exact ⟨_, hdigits.2.1, hdigits.2.2, eq_or_eq_cons_of_isPrefixOf?, Option.some.inj h⟩
  digits {text} hne hdigits := by
    have hkeep : text.filter (fun c => c ≠ '_') = text := by
      rw [List.filter_eq_self]
      intro c hc
      have := hdigits c hc
      have hne : c ≠ '_' := by
        rintro rfl
        exact absurd this (by decide)
      simp [hne]
    have hsign : List.isPrefixOf? ['+'] text = none := by
      cases text with
      | nil => rfl
      | cons c text =>
        have hplus : '+' ≠ c := by
          rintro rfl
          exact absurd (hdigits '+' List.mem_cons_self) (by decide)
        simp [List.isPrefixOf?, hplus]
    have hhead : text.head? ≠ some '_' := by
      intro hhead
      exact absurd (hdigits '_' (List.mem_of_head? hhead)) (by decide)
    unfold referenceBigUint
    dsimp only
    rw [hkeep, hsign, Option.getD_none, if_neg]
    simp only [not_or, not_not, List.all_eq_true]
    exact ⟨hhead, hne, hdigits⟩

/-- A row of each rule. -/
def sampleCustomers : List Char :=
  VERSIONED_CUSTOMER_HEADER.toList ++ "\n# a comment\n7,100,zkpor-legacy-id/1,,\n".toList ++
    ",25,zkpor-email-code/1,".toList ++ sampleEmail.toList ++ ',' :: sampleCode.toList

theorem customer_file_sample :
    List.Forall₂ (RowOf { referencePrimitives with sha256 := sampleSha256 } true)
      (dataLines sampleCustomers)
      [⟨7, 100, .legacy⟩, ⟨sampleId % frModulus, 25, .emailCodeV1⟩] := by
  have hread : readCustomerEntries { referencePrimitives with sha256 := sampleSha256 }
      referenceBigUint sampleCustomers =
        .ok [⟨7, 100, .legacy⟩, ⟨sampleId % frModulus, 25, .emailCodeV1⟩] := by decide +kernel
  exact (customer_file referenceBigUint_documented hread).1

end ZkPoR.Generator
