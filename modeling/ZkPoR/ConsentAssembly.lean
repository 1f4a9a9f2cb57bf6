import ZkPoR.LastWrite

/-! # The assembly of a consent collection

Each reserve address signs its own authorization entry, and `assembleConsent` puts the
collected entries in place of those that the simulation produced.  It looks up each
address in a map from the label of a collected entry to what its text decodes to.  The
Stellar library decodes and inspects an entry, and is a parameter.

The map is read by the label alone: nothing compares the decoded entry with the simulated
one, and nothing asks whether it is signed.  `assembleConsent_eq_ok` says what comes back,
and from it follow the exact inputs on which each entry is replaced by its own signed
counterpart.
-/
namespace ZkPoR.Consent
open BoundedLoop InsertionMap LastWrite

/-- Two lists that are related place by place, at one place. -/
theorem getElem?_of_forall₂ {α β : Type} {R : α → β → Prop} {xs : List α} {ys : List β}
    (h : List.Forall₂ R xs ys) {i : Nat} {x : α} (hx : xs[i]? = some x) :
    ∃ y, ys[i]? = some y ∧ R x y := by
  obtain ⟨hi, rfl⟩ := List.getElem?_eq_some_iff.mp hx
  have hi' : i < ys.length := h.length_eq ▸ hi
  exact ⟨ys[i], List.getElem?_eq_getElem hi', h.get hi hi'⟩

/-- What `inspectAuthEntry` reports. -/
structure AuthEntryInformation where
  /-- Nothing for source account credentials. -/
  address : Option String
  signed : Bool
  signatureExpirationLedger : Option Nat

/-- The part of the Stellar library that reads authorization entries.  A text that is not
an entry gives the message of the cause. -/
structure EntryLibrary (Entry Invocation : Type) where
  fromXDR : String → Except String Entry
  toXDR : Entry → String
  inspectAuthEntry : Entry → AuthEntryInformation
  /-- The nonce of address credentials. -/
  nonce : Entry → Option Int
  rootInvocation : Entry → Invocation

/-- One authorization entry that a reserve address must sign. -/
structure ConsentEntry where
  address : String
  entryXdr : String
  expirationLedger : Nat
  signed : Bool

/-- A consent step that cannot proceed. -/
structure ConsentError where
  message : String

variable {Entry Invocation : Type} (library : EntryLibrary Entry Invocation)

/-- Reads one entry out of its base64 XDR text. -/
def decode (entryXdr : String) : Except ConsentError Entry :=
  (library.fromXDR entryXdr).mapError fun cause =>
    ⟨"the text is not a Soroban authorization entry: " ++ cause⟩

/-- Describes one entry, so a step can name its address and its deadline. -/
def describeEntry (entry : Entry) : Except ConsentError ConsentEntry :=
  let information := library.inspectAuthEntry entry
  match information.address with
  | none => .error
      ⟨"the entry carries source account credentials, so no separate address signs it"⟩
  | some address => .ok {
      address
      entryXdr := library.toXDR entry
      expirationLedger := information.signatureExpirationLedger.getD 0
      signed := information.signed }

/-- The entries of a simulated call that need the consent of an address other than the
transaction source. -/
def consentEntriesOf (entries : List Entry) : Except ConsentError (List ConsentEntry) :=
  (entries.filter fun entry => (library.inspectAuthEntry entry).address.isSome).mapM
    (describeEntry library)

/-- The map from the label of a collected entry to what its text decodes to. -/
def byAddress (collected : List ConsentEntry) :
    Except ConsentError (OrderedMap String Entry) :=
  fill ConsentEntry.address (fun entry => decode library entry.entryXdr) collected

/-- The entry that takes the place of a simulated one. -/
def replacement (collected : OrderedMap String Entry) (entry : Entry) :
    Except ConsentError Entry :=
  match (library.inspectAuthEntry entry).address with
  | none => .ok entry
  | some address =>
    match collected.get address with
    | none => .error ⟨"the address " ++ address ++ " did not sign its authorization entry"⟩
    | some signed => .ok signed

/-- Puts the collected entries back into the transaction. -/
def assembleConsent (simulated : List Entry) (collected : List ConsentEntry) :
    Except ConsentError (List Entry) := do
  let entries ← byAddress library collected
  simulated.mapM (replacement library entries)

/-! ## What comes back -/

/-- The address that must sign an entry. -/
def signer (entry : Entry) : Option String := (library.inspectAuthEntry entry).address

/-- A collected entry that the library can decode. -/
def Decodes (entry : ConsentEntry) : Prop := ∃ inner, library.fromXDR entry.entryXdr = .ok inner

/-- The last collected entry under a label decodes to an entry. -/
def Serves (collected : List ConsentEntry) (address : String) (inner : Entry) : Prop :=
  ∃ entry, lastUnder ConsentEntry.address collected address = some entry ∧
    library.fromXDR entry.entryXdr = .ok inner

/-- The entry that `assembleConsent` puts in the place of a simulated one. -/
def Replaces (collected : List ConsentEntry) (entry inner : Entry) : Prop :=
  (signer library entry = none ∧ inner = entry) ∨
    ∃ address, signer library entry = some address ∧ Serves library collected address inner

section Assembly
variable {library} {simulated assembled : List Entry} {collected : List ConsentEntry}
  {entry inner : Entry} {address : String}

theorem decode_eq_ok {text : String} :
    decode library text = .ok inner ↔ library.fromXDR text = .ok inner := by
  rw [decode]
  cases library.fromXDR text <;> simp [Except.mapError]

/-- The map exists when every text decodes, whether or not its address is simulated. -/
theorem exists_byAddress :
    (∃ m, byAddress library collected = .ok m) ↔ ∀ entry ∈ collected, Decodes library entry := by
  rw [byAddress, exists_fill]
  simp only [decode_eq_ok, Decodes]

theorem get_byAddress {m : OrderedMap String Entry} (h : byAddress library collected = .ok m) :
    m.get address = some inner ↔ Serves library collected address inner := by
  rw [get_fill h, Option.bind_eq_some_iff, Serves]
  refine exists_congr fun entry => and_congr_right fun _ => ?_
  rw [← decode_eq_ok]
  cases decode library entry.entryXdr <;> simp [Except.toOption]

theorem replacement_eq_ok {m : OrderedMap String Entry}
    (h : byAddress library collected = .ok m) :
    replacement library m entry = .ok inner ↔ Replaces library collected entry inner := by
  rw [replacement, Replaces, signer]
  cases (library.inspectAuthEntry entry).address with
  | none => simp [eq_comm]
  | some address =>
    cases hget : m.get address with
    | none =>
      have hnone : ¬ Serves library collected address inner := by
        rw [← get_byAddress h, hget]
        nofun
      simp [hget, hnone]
    | some served =>
      have hiff : served = inner ↔ Serves library collected address inner := by
        rw [← get_byAddress h, hget, Option.some.injEq]
      simp only [reduceCtorEq, false_and, false_or, Option.some.injEq, exists_eq_left', hget,
        Except.ok.injEq]
      exact hiff

/-- **What `assembleConsent` answers.**  It needs a text that decodes in every collected
entry, and an entry under the label of every simulated address. -/
theorem assembleConsent_eq_ok :
    assembleConsent library simulated collected = .ok assembled ↔
      (∀ entry ∈ collected, Decodes library entry) ∧
        List.Forall₂ (Replaces library collected) simulated assembled := by
  rw [assembleConsent, bind_eq_ok, ← exists_byAddress]
  constructor
  · rintro ⟨m, hm, h⟩
    refine ⟨⟨m, hm⟩, (mapM_eq_ok_iff.mp h).imp fun _ _ h => (replacement_eq_ok hm).mp h⟩
  · rintro ⟨⟨m, hm⟩, h⟩
    exact ⟨m, hm, mapM_eq_ok_iff.mpr (h.imp fun _ _ h => (replacement_eq_ok hm).mpr h)⟩

theorem Serves.unique {inner' : Entry} (h : Serves library collected address inner)
    (h' : Serves library collected address inner') : inner = inner' := by
  obtain ⟨entry, hlast, hread⟩ := h
  obtain ⟨entry', hlast', hread'⟩ := h'
  obtain rfl : entry = entry' := Option.some.inj (hlast.symm.trans hlast')
  exact Except.ok.inj (hread.symm.trans hread')

theorem Replaces.serves (h : Replaces library collected entry inner)
    (hsigner : signer library entry = some address) :
    Serves library collected address inner := by
  rcases h with ⟨hnone, -⟩ | ⟨address', heq, hserves⟩
  · exact absurd (hsigner.symm.trans hnone) (by simp)
  · obtain rfl : address = address' := Option.some.inj (hsigner.symm.trans heq)
    exact hserves

/-- A collection that decodes and holds every simulated address is complete enough for the
function to answer. -/
theorem exists_assembled (hdecodes : ∀ entry ∈ collected, Decodes library entry)
    (hlabels : ∀ entry ∈ simulated, ∀ address, signer library entry = some address →
      lastUnder ConsentEntry.address collected address ≠ none) :
    ∃ assembled, assembleConsent library simulated collected = .ok assembled := by
  induction simulated with
  | nil => exact ⟨[], assembleConsent_eq_ok.mpr ⟨hdecodes, .nil⟩⟩
  | cons entry simulated ih =>
    rw [List.forall_mem_cons] at hlabels
    obtain ⟨assembled, hassembled⟩ := ih hlabels.2
    have hrest := (assembleConsent_eq_ok.mp hassembled).2
    cases hsigner : signer library entry with
    | none => exact ⟨entry :: assembled,
        assembleConsent_eq_ok.mpr ⟨hdecodes, .cons (.inl ⟨hsigner, rfl⟩) hrest⟩⟩
    | some address =>
      obtain ⟨last, hlast⟩ := Option.ne_none_iff_exists'.mp (hlabels.1 address hsigner)
      obtain ⟨inner, hinner⟩ := hdecodes last (mem_of_lastUnder hlast)
      exact ⟨inner :: assembled, assembleConsent_eq_ok.mpr
        ⟨hdecodes, .cons (.inr ⟨address, hsigner, last, hlast, hinner⟩) hrest⟩⟩

/-- One address gets one entry, however many the simulation holds for it. -/
theorem assembled_eq_of_signer_eq {i j : Nat} {entry' : Entry}
    (h : assembleConsent library simulated collected = .ok assembled)
    (hi : simulated[i]? = some entry) (hj : simulated[j]? = some entry')
    (hsigner : signer library entry = some address)
    (hsigner' : signer library entry' = some address) : assembled[i]? = assembled[j]? := by
  have hat : ∀ {k : Nat} {e : Entry}, simulated[k]? = some e →
      signer library e = some address →
        ∃ inner, assembled[k]? = some inner ∧ Serves library collected address inner := by
    intro k e hk he
    obtain ⟨inner, hinner, hplaced⟩ := getElem?_of_forall₂ (assembleConsent_eq_ok.mp h).2 hk
    exact ⟨inner, hinner, hplaced.serves he⟩
  obtain ⟨inner, hinner, hserves⟩ := hat hi hsigner
  obtain ⟨inner', hinner', hserves'⟩ := hat hj hsigner'
  rw [hinner, hinner', hserves.unique hserves']

end Assembly

/-! ## The counterpart of an entry -/

/-- A signed entry of the same address, with the same nonce and the same root invocation. -/
structure Counterpart (entry inner : Entry) : Prop where
  address : signer library inner = signer library entry
  signed : (library.inspectAuthEntry inner).signed = true
  nonce : library.nonce inner = library.nonce entry
  rootInvocation : library.rootInvocation inner = library.rootInvocation entry

/-- A collected entry with the address on its label and a counterpart inside. -/
def HasCounterpart (collected : List ConsentEntry) (entry : Entry) : Prop :=
  ∃ c ∈ collected, signer library entry = some c.address ∧
    ∃ inner, library.fromXDR c.entryXdr = .ok inner ∧ Counterpart library entry inner

/-- What stands in the place of a simulated entry. -/
def Placed (entry inner : Entry) : Prop :=
  (signer library entry = none ∧ inner = entry) ∨
    (signer library entry ≠ none ∧ Counterpart library entry inner)

/-- **A correct assembly.** -/
structure Assembles (simulated : List Entry) (collected : List ConsentEntry) : Prop where
  /-- In the places and the order of the simulation. -/
  returned : ∀ assembled, assembleConsent library simulated collected = .ok assembled →
    List.Forall₂ (Placed library) simulated assembled
  refused : ∀ entry ∈ simulated, signer library entry ≠ none →
    ¬ HasCounterpart library collected entry →
      ∃ e, assembleConsent library simulated collected = .error e
  /-- Simulated entries with different nonces get different entries, also under one
  address. -/
  own : ∀ assembled, assembleConsent library simulated collected = .ok assembled →
    ∀ (i j : Nat) (entry entry' : Entry), simulated[i]? = some entry →
      simulated[j]? = some entry' →
      library.nonce entry ≠ library.nonce entry' → assembled[i]? ≠ assembled[j]?
  /-- A collection with the counterpart of every entry is not refused. -/
  complete : (∀ c ∈ collected, Decodes library c) →
    (∀ entry ∈ simulated, signer library entry ≠ none →
      HasCounterpart library collected entry) →
        ∃ assembled, assembleConsent library simulated collected = .ok assembled

/-- A collected text is not an entry, or a simulated address labels no collected entry. -/
def Incomplete (simulated : List Entry) (collected : List ConsentEntry) : Prop :=
  (∃ c ∈ collected, ¬ Decodes library c) ∨
    ∃ entry ∈ simulated, ∃ address, signer library entry = some address ∧
      lastUnder ConsentEntry.address collected address = none

/-- The last collected entry under each simulated address is the counterpart of each
simulated entry of that address. -/
def LastMatches (simulated : List Entry) (collected : List ConsentEntry) : Prop :=
  ∀ entry ∈ simulated, ∀ address, signer library entry = some address →
    ∃ inner, Serves library collected address inner ∧ Counterpart library entry inner

section Condition
variable {library} {simulated assembled : List Entry} {collected : List ConsentEntry}
  {entry inner : Entry}

/-- The function answers exactly when the collection is not incomplete. -/
theorem exists_assembled_iff :
    (∃ assembled, assembleConsent library simulated collected = .ok assembled) ↔
      ¬ Incomplete library simulated collected := by
  constructor
  · rintro ⟨assembled, h⟩ hincomplete
    obtain ⟨hdecodes, hplaces⟩ := assembleConsent_eq_ok.mp h
    rcases hincomplete with ⟨c, hc, hnot⟩ | ⟨entry, hentry, address, hsigner, hnone⟩
    · exact hnot (hdecodes c hc)
    · obtain ⟨i, hi⟩ := List.mem_iff_getElem?.mp hentry
      obtain ⟨inner, -, hreplaces⟩ := getElem?_of_forall₂ hplaces hi
      obtain ⟨last, hlast, -⟩ := hreplaces.serves hsigner
      exact absurd (hnone.symm.trans hlast) (by simp)
  · intro h
    rw [Incomplete, not_or] at h
    push Not at h
    exact exists_assembled h.1 h.2

theorem exists_assembled_of_counterparts (hdecodes : ∀ c ∈ collected, Decodes library c)
    (h : ∀ entry ∈ simulated, signer library entry ≠ none →
      HasCounterpart library collected entry) :
    ∃ assembled, assembleConsent library simulated collected = .ok assembled := by
  refine exists_assembled hdecodes fun entry hentry address hsigner => ?_
  obtain ⟨c, hc, hlabel, -⟩ := h entry hentry (by simp [hsigner])
  obtain ⟨last, hlast⟩ := exists_lastUnder hc (Option.some.inj (hlabel.symm.trans hsigner))
  simp [hlast]

theorem Placed.nonce_eq (h : Placed library entry inner) :
    library.nonce inner = library.nonce entry := by
  rcases h with ⟨-, rfl⟩ | ⟨-, h⟩
  · rfl
  · exact h.nonce

theorem Replaces.placed (h : Replaces library collected entry inner)
    (hmatches : ∀ address, signer library entry = some address →
      ∃ inner, Serves library collected address inner ∧ Counterpart library entry inner) :
    Placed library entry inner := by
  rcases h with ⟨hnone, rfl⟩ | ⟨address, hsigner, hserves⟩
  · exact .inl ⟨hnone, rfl⟩
  · obtain ⟨inner', hserves', hcounterpart⟩ := hmatches address hsigner
    rw [hserves.unique hserves']
    exact .inr ⟨by simp [hsigner], hcounterpart⟩

theorem LastMatches.returned (h : LastMatches library simulated collected)
    (hassembled : assembleConsent library simulated collected = .ok assembled) :
    List.Forall₂ (Placed library) simulated assembled := by
  have hplaces := (List.forall₂_and_left _ _).mpr ⟨h, (assembleConsent_eq_ok.mp hassembled).2⟩
  exact hplaces.imp fun entry inner hplace => hplace.2.placed hplace.1

theorem LastMatches.hasCounterpart (h : LastMatches library simulated collected)
    (hentry : entry ∈ simulated) (hsigner : signer library entry ≠ none) :
    HasCounterpart library collected entry := by
  obtain ⟨address, haddress⟩ := Option.ne_none_iff_exists'.mp hsigner
  obtain ⟨inner, ⟨last, hlast, hread⟩, hcounterpart⟩ := h entry hentry address haddress
  refine ⟨last, mem_of_lastUnder hlast, ?_, inner, hread, hcounterpart⟩
  rw [haddress, key_of_lastUnder hlast]

/-- A list in the places of the simulation gives different nonces different entries. -/
theorem own_of_forall₂ (h : List.Forall₂ (Placed library) simulated assembled) {i j : Nat}
    {entry' : Entry} (hi : simulated[i]? = some entry) (hj : simulated[j]? = some entry')
    (hnonce : library.nonce entry ≠ library.nonce entry') : assembled[i]? ≠ assembled[j]? := by
  obtain ⟨inner, hinner, hplaced⟩ := getElem?_of_forall₂ h hi
  obtain ⟨inner', hinner', hplaced'⟩ := getElem?_of_forall₂ h hj
  rw [hinner, hinner', Ne, Option.some.injEq]
  rintro rfl
  exact hnonce (hplaced.nonce_eq.symm.trans hplaced'.nonce_eq)

/-- **When the assembly is correct.**  Exactly when the collection is incomplete, and then
the function throws, or the last entry under each simulated address is the counterpart of
every simulated entry of that address. -/
theorem assembles_iff :
    Assembles library simulated collected ↔
      Incomplete library simulated collected ∨ LastMatches library simulated collected := by
  constructor
  · intro h
    by_cases hincomplete : Incomplete library simulated collected
    · exact .inl hincomplete
    · right
      intro entry hentry address hsigner
      obtain ⟨assembled, hassembled⟩ := exists_assembled_iff.mpr hincomplete
      obtain ⟨i, hi⟩ := List.mem_iff_getElem?.mp hentry
      obtain ⟨inner, hinner, hreplaces⟩ :=
        getElem?_of_forall₂ (assembleConsent_eq_ok.mp hassembled).2 hi
      obtain ⟨inner', hinner', hplaced⟩ :=
        getElem?_of_forall₂ (h.returned assembled hassembled) hi
      obtain rfl : inner = inner' := Option.some.inj (hinner.symm.trans hinner')
      rcases hplaced with ⟨hnone, -⟩ | ⟨-, hcounterpart⟩
      · exact absurd (hsigner.symm.trans hnone) (by simp)
      · exact ⟨inner, hreplaces.serves hsigner, hcounterpart⟩
  · rintro (hincomplete | hmatches)
    · have hnot := fun assembled hassembled =>
        exists_assembled_iff.mp ⟨assembled, hassembled⟩ hincomplete
      refine ⟨fun assembled h => absurd h (hnot assembled), fun _ _ _ _ => ?_,
        fun assembled h => absurd h (hnot assembled), exists_assembled_of_counterparts⟩
      cases hresult : assembleConsent library simulated collected with
      | error e => exact ⟨e, rfl⟩
      | ok assembled => exact absurd hresult (hnot assembled)
    · refine ⟨fun _ h => hmatches.returned h, fun entry hentry hsigner hno => ?_,
        fun _ h _ _ _ _ => own_of_forall₂ (hmatches.returned h),
        exists_assembled_of_counterparts⟩
      exact absurd (hmatches.hasCounterpart hentry hsigner) hno

end Condition

/-! ## A collection of a whole simulation -/

/-- The description of an entry, and nothing for source account credentials. -/
def described (entry : Entry) : Option ConsentEntry :=
  (signer library entry).map fun address =>
    { address
      entryXdr := library.toXDR entry
      expirationLedger := (library.inspectAuthEntry entry).signatureExpirationLedger.getD 0
      signed := (library.inspectAuthEntry entry).signed }

section Collection
variable {library} {simulated : List Entry} {step : Entry → Entry}

theorem describeEntry_eq_ok {entry : Entry} {c : ConsentEntry} :
    describeEntry library entry = .ok c ↔ described library entry = some c := by
  rw [describeEntry, described, signer]
  cases (library.inspectAuthEntry entry).address <;> simp

/-- The export never throws: the filter leaves no entry that has no description. -/
theorem consentEntriesOf_eq (entries : List Entry) :
    consentEntriesOf library entries = .ok (entries.filterMap (described library)) := by
  rw [consentEntriesOf]
  induction entries with
  | nil => rfl
  | cons entry entries ih =>
    cases hsigner : (library.inspectAuthEntry entry).address with
    | none =>
      have hnone : described library entry = none := by simp [described, signer, hsigner]
      rw [List.filter_cons_of_neg (by simp [hsigner]), ih, List.filterMap_cons_none hnone]
    | some address =>
      obtain ⟨c, hc⟩ : ∃ c, described library entry = some c := by
        simp [described, signer, hsigner]
      rw [List.filter_cons_of_pos (by simp [hsigner]), List.filterMap_cons_some hc]
      exact mapM_cons_eq_ok.mpr ⟨c, _, describeEntry_eq_ok.mpr hc, ih, rfl⟩

theorem labels_described (entries : List Entry) :
    (entries.filterMap (described library)).map ConsentEntry.address =
      entries.filterMap (signer library) := by
  rw [List.map_filterMap]
  refine List.filterMap_congr fun entry _ => ?_
  rw [described, Option.map_map]
  exact Option.map_id'

/-- **A step on each entry reaches its place.**  Each address has one entry, the step keeps
the address, and the collection describes what the step made of each entry.  Whether the
step signs is not asked. -/
theorem assembleConsent_map (hread : ∀ entry, library.fromXDR (library.toXDR entry) = .ok entry)
    (hnodup : (simulated.filterMap (signer library)).Nodup)
    (hsigner : ∀ entry ∈ simulated, signer library (step entry) = signer library entry)
    (hsource : ∀ entry ∈ simulated, signer library entry = none → step entry = entry) :
    (consentEntriesOf library (simulated.map step) >>= assembleConsent library simulated) =
      .ok (simulated.map step) := by
  rw [consentEntriesOf_eq, bind_eq_ok]
  refine ⟨_, rfl, assembleConsent_eq_ok.mpr ⟨fun c hc => ?_, ?_⟩⟩
  · obtain ⟨entry, -, hdescribed⟩ := List.mem_filterMap.mp hc
    obtain ⟨address, -, rfl⟩ := Option.map_eq_some_iff.mp hdescribed
    exact ⟨entry, hread entry⟩
  · rw [List.forall₂_map_right_iff, List.forall₂_same]
    intro entry hentry
    cases haddress : signer library entry with
    | none => exact .inl ⟨haddress, hsource entry hentry haddress⟩
    | some address =>
      obtain ⟨c, hc⟩ : ∃ c, described library (step entry) = some c := by
        simp [described, hsigner entry hentry, haddress]
      obtain ⟨address', hstep, rfl⟩ := Option.map_eq_some_iff.mp hc
      obtain rfl : address' = address :=
        Option.some.inj (hstep.symm.trans ((hsigner entry hentry).trans haddress))
      refine .inr ⟨address', haddress, _, lastUnder_of_mem ?_
        (List.mem_filterMap.mpr ⟨_, List.mem_map_of_mem hentry, hc⟩) rfl, hread _⟩
      have hlabels : simulated.filterMap (signer library ∘ step) =
          simulated.filterMap (signer library) := List.filterMap_congr hsigner
      rwa [labels_described, List.filterMap_map, hlabels]

/-- The unsigned entries of a simulation pass for a collection. -/
theorem assembleConsent_unsigned
    (hread : ∀ entry, library.fromXDR (library.toXDR entry) = .ok entry)
    (hnodup : (simulated.filterMap (signer library)).Nodup) :
    (consentEntriesOf library simulated >>= assembleConsent library simulated) =
      .ok simulated := by
  have h := @assembleConsent_map Entry Invocation library simulated id hread hnodup
    (fun _ _ => rfl) fun _ _ _ => rfl
  rwa [List.map_id] at h

end Collection

/-! ## An entry that nobody signed -/

/-- The credentials, the nonce and the invocation of an entry. -/
structure SampleEntry where
  information : AuthEntryInformation
  nonce : Option Int
  rootInvocation : String

def sampleAddress : String := "GAAAAAAAAAAAAAAAAAAAAAAAAAAAAAAAAAAAAAAAAAAAAAAAAAAAAWHF"

def sampleEntry : SampleEntry where
  information := {
    address := some sampleAddress, signed := false, signatureExpirationLedger := some 0 }
  nonce := some 11
  rootInvocation := "register_asset"

/-- The base64 XDR of the entry, for a contract whose identifier is zero. -/
def sampleXdr : String :=
  "AAAAAQAAAAAAAAAAAAAAAAAAAAAAAAAAAAAAAAAAAAAAAAAAAAAAAAAAAAAAAAAAAAAACwAAAAAAAAABAAAAAAAA" ++
    "AAEAAAAAAAAAAAAAAAAAAAAAAAAAAAAAAAAAAAAAAAAAAAAAAA5yZWdpc3Rlcl9hc3NldAAAAAAAAAAAAAA="

def sampleLibrary : EntryLibrary SampleEntry String where
  fromXDR text := if text = sampleXdr then .ok sampleEntry else .error "XDR Read Error"
  toXDR _ := sampleXdr
  inspectAuthEntry entry := entry.information
  nonce entry := entry.nonce
  rootInvocation entry := entry.rootInvocation

/-- The simulated entry as the export describes it. -/
def sampleConsent : ConsentEntry := ⟨sampleAddress, sampleXdr, 0, false⟩

example : consentEntriesOf sampleLibrary [sampleEntry] = .ok [sampleConsent] := rfl

/-- The simulated entry comes back as it was exported, with no signature, and the function
does not throw. -/
theorem assembleConsent_accepts_unsigned :
    assembleConsent sampleLibrary [sampleEntry] [sampleConsent] = .ok [sampleEntry] ∧
      ¬ Assembles sampleLibrary [sampleEntry] [sampleConsent] := by
  have hread : sampleLibrary.fromXDR sampleXdr = .ok sampleEntry := by simp [sampleLibrary]
  have hlast : lastUnder ConsentEntry.address [sampleConsent] sampleAddress =
      some sampleConsent := by simp [lastUnder, sampleConsent]
  have hresult : assembleConsent sampleLibrary [sampleEntry] [sampleConsent] =
      .ok [sampleEntry] := by
    refine assembleConsent_eq_ok.mpr ⟨?_, .cons (.inr ⟨_, rfl, _, hlast, hread⟩) .nil⟩
    rw [List.forall_mem_singleton]
    exact ⟨_, hread⟩
  refine ⟨hresult, fun h => ?_⟩
  rcases (List.forall₂_cons.mp (h.returned _ hresult)).1 with ⟨hnone, -⟩ | ⟨-, hcounterpart⟩
  · cases hnone
  · exact Bool.false_ne_true hcounterpart.signed

end ZkPoR.Consent
