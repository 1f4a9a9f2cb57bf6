import ZkPoR.StoredHistory

/-! # Following a stored history

A reader that follows `nextId` to the end has every record from its start to the count
of the last page, in order, however the chain grew between its requests
(`stored_history_pages`).  The chain enters through the invariants of its run only: a
count never falls, and a counted record is there and stays.
-/
namespace ZkPoR.Sdk
open CheckedInt BoundedLoop JsonText JavaScript Binary64 Transaction TransitionSystem Pagination

/-! ## The values of the registry -/

/-- A stored attestation as the client holds it. -/
def storedAttestation (attestation : Attestation) (id : Nat) : StoredAttestation where
  finalRoot := attestation.finalRoot.toNat
  totalLiabilities := attestation.totalLiabilities.toNat
  snapshotLedger := attestation.snapshotLedger.toNat
  reserveSum := attestation.reserveSum.val
  attestedLedger := attestation.attestedLedger.toNat
  attestationId := id
  contextHash := attestation.contextHash.toNat

/-- A stored observation as the client holds it. -/
def storedObservation (observation : ReserveObservation) : StoredReserveObservation where
  observationId := observation.observationId.toNat
  observedSum := observation.observedSum.val
  observedLedger := observation.observedLedger.toNat
  reserveSetHash := observation.reserveSetHash.toNat
  attestationId := observation.attestationId.map fun id => (id.toNat : Int)
  belowAttested := observation.belowAttested

def storedStatus (status : ZkPoR.ObservationStatus) : ObservationStatus where
  observationCount := status.observationCount.toNat
  firstLowObservation := status.firstLowObservation.map fun id => (id.toNat : Int)

theorem requireNumber_ofNat (n : U32) (what : String) :
    requireNumber (.number (ofNat n.toNat)) what = .ok (n.toNat : Int) := by
  have hlt : n.toNat < 2 ^ 32 := n.isLt
  rw [requireNumber, ofNat, toDouble_natural (by omega)]

theorem decodeStoredAttestation_native (attestation : Attestation) (id : Nat) :
    decodeStoredAttestation (nativeAttestation attestation) id =
      .ok (storedAttestation attestation id) := by
  have hnumber : ∀ key what (n : U32),
      mapField (nativeAttestation attestation) key "get_attestation" =
        .ok (.number (ofNat n.toNat)) →
      numberField (nativeAttestation attestation) key what = .ok (n.toNat : Int) := by
    intro key what n hfield
    rw [numberField, hfield]
    exact requireNumber_ofNat n what
  unfold decodeStoredAttestation
  rw [hnumber "snapshot_ledger" _ attestation.snapshotLedger rfl,
    hnumber "attested_ledger" _ attestation.attestedLedger rfl]
  rfl

theorem requireStoredId_of_le {n : Nat} (hpos : 1 ≤ n) (hle : n ≤ MAX_U64) (name : String) :
    requireStoredId (.bigint n) name = .ok (n : Int) := by
  have hin : ¬ ((n : Int) < 1 ∨ (n : Int) > MAX_U64) := by omega
  change (if (n : Int) < 1 ∨ (n : Int) > MAX_U64 then _ else _) = _
  rw [if_neg hin]
  rfl

theorem toNat_le (n : U64) : n.toNat ≤ MAX_U64 := Nat.le_pred_of_lt n.isLt

/-- An optional identifier comes back. -/
theorem requireOptionalId_native {fields : List (Text × NativeValue)} {key : String}
    {k : Text} {id : Option U64} (method : String)
    (hfield : fields.find? (fun field => field.1 = Text.ofString key) =
      some (k, nativeOptionalId id)) (hpos : ∀ n, id = some n → 1 ≤ n.toNat) :
    requireOptionalId (.record fields) key method = .ok (id.map fun n => (n.toNat : Int)) := by
  unfold requireOptionalId
  cases id with
  | none => simp [hfield, nativeOptionalId]
  | some n =>
    have hread := requireStoredId_of_le (hpos n rfl) (toNat_le n) key
    simp [hfield, nativeOptionalId, hread, Functor.map, Except.map]

theorem decodeStoredObservation_native {observation : ReserveObservation} {id : U64}
    (h : observation.WellFormed id) (hpos : 1 ≤ id.toNat) :
    decodeStoredObservation (nativeObservation observation) =
      .ok (storedObservation observation) := by
  have hbaseline : requireOptionalId (nativeObservation observation) "attestation_id"
      "get_observation" = .ok (observation.attestationId.map fun n => (n.toNat : Int)) :=
    requireOptionalId_native _ rfl h.positive
  have hid : requireStoredId (.bigint observation.observationId.toNat)
      "the observation identifier" = .ok (observation.observationId.toNat : Int) := by
    rw [h.matching]
    exact requireStoredId_of_le hpos (toNat_le id) _
  have hledger := requireNumber_ofNat observation.observedLedger "the observed ledger"
  have hlow : ¬ (observation.belowAttested = true ∧
      (observation.attestationId.map fun n => (n.toNat : Int)) = none) := by
    rintro ⟨hbelow, hnone⟩
    rw [h.none_low (Option.map_eq_none_iff.mp hnone)] at hbelow
    cases hbelow
  refine bind_eq_ok.mpr ⟨_, rfl, bind_eq_ok.mpr ⟨_, rfl, bind_eq_ok.mpr ⟨_, hbaseline, ?_⟩⟩⟩
  rw [if_neg hlow]
  exact bind_eq_ok.mpr ⟨_, rfl, bind_eq_ok.mpr ⟨_, hid, bind_eq_ok.mpr ⟨_, rfl,
    bind_eq_ok.mpr ⟨_, rfl, bind_eq_ok.mpr ⟨_, rfl, bind_eq_ok.mpr ⟨_, hledger,
      bind_eq_ok.mpr ⟨_, rfl, bind_eq_ok.mpr ⟨_, rfl, rfl⟩⟩⟩⟩⟩⟩⟩⟩

theorem decodeObservationStatus_native {status : ZkPoR.ObservationStatus}
    (h : status.WellFormed) :
    decodeObservationStatus (nativeStatus status) = .ok (storedStatus status) := by
  have hfirst : requireOptionalId (nativeStatus status) "first_low_observation"
      "observation_status" = .ok (status.firstLowObservation.map fun n => (n.toNat : Int)) :=
    requireOptionalId_native _ rfl fun n hn => (h n hn).1
  have hcount := toNat_le status.observationCount
  have hin : ¬ ((status.observationCount.toNat : Int) < 0 ∨
      (status.observationCount.toNat : Int) > MAX_U64) := by omega
  have hnone : ¬ ((status.firstLowObservation.map fun n => (n.toNat : Int)).any fun first =>
      first > (status.observationCount.toNat : Int)) = true := by
    cases hlow : status.firstLowObservation with
    | none => simp
    | some n =>
      have hle := (h n hlow).2
      simp only [Option.map_some, Option.any_some, decide_eq_true_eq]
      omega
  refine bind_eq_ok.mpr ⟨_, rfl, bind_eq_ok.mpr ⟨_, rfl, ?_⟩⟩
  rw [if_neg hin]
  refine bind_eq_ok.mpr ⟨_, hfirst, ?_⟩
  rw [if_neg hnone]
  rfl

/-! ## What one request answers -/

/-- The count of a registered asset, the refusal of another one, or no answer. -/
inductive CountAnswer (registered reached : Prop) (count : Nat) : Except Failure Nat → Prop
  | counted (h : registered) : CountAnswer registered reached count (.ok count)
  | unregistered (h : ¬ registered) :
    CountAnswer registered reached count (.error (.refused ASSET_NOT_REGISTERED))
  | unanswered (h : ¬ reached) {method : String} {message : Text}
      (hmessage : Unanswered method message) :
    CountAnswer registered reached count (.error (.infrastructure message))

/-- A record, or no answer. -/
inductive RecordAnswer {α : Type} (reached : Prop) (holds : α → Prop) :
    Except Failure (Option α) → Prop
  | found {a : α} (h : holds a) : RecordAnswer reached holds (.ok (some a))
  | unanswered (h : ¬ reached) {method : String} {message : Text}
      (hmessage : Unanswered method message) :
    RecordAnswer reached holds (.error (.infrastructure message))

section
variable {H : Host} {run : RegistryRun H} {clock : Nat → Nat} {reached : Nat → Prop}
  {strkey : Address → Text} {registry asset : Text} {address : Address} {server : Nat → Client}

theorem Serves.countAnswer_attestations
    (h : Serves run clock reached strkey registry asset address server) (n : Nat) :
    CountAnswer ((run.state (clock n)).get (.asset address) ≠ none) (reached n)
      ((run.state (clock n)).attestationCount address).toNat
      (attestationTotal registry asset (server n)) := by
  unfold attestationTotal
  rw [h.parses n]
  change CountAnswer _ _ _ (simulateRead (server n) registry (.attestationCount address) >>= _)
  by_cases hregistered : (run.state (clock n)).get (.asset address) = none
  · rcases h.read_of_error (.attestationCount address) rfl
      fun _ => attestationCount_of_unregistered hregistered with
      hrefused | ⟨hreached, message, hmessage, hfailed⟩
    · rw [hrefused]
      exact .unregistered fun hne => hne hregistered
    · rw [hfailed]
      exact .unanswered hreached hmessage
  · rcases h.read_of_ok (.attestationCount address) rfl
      fun _ => attestationCount_of_registered hregistered with
      hcount | ⟨hreached, message, hmessage, hfailed⟩
    · have hbound := toNat_le ((run.state (clock n)).attestationCount address)
      have hin : ¬ ((((run.state (clock n)).attestationCount address).toNat : Int) < 0 ∨
          (((run.state (clock n)).attestationCount address).toNat : Int) > MAX_U64) := by omega
      rw [hcount]
      change CountAnswer _ _ _ (if _ then _ else _)
      rw [if_neg hin]
      exact .counted hregistered
    · rw [hfailed]
      exact .unanswered hreached hmessage

/-- The client holds the record that the registry holds at one instant. -/
def HoldsAttestation (run : RegistryRun H) (address : Address) (t id : Nat)
    (record : StoredAttestation) : Prop :=
  ∃ attestation, (run.state t).get (.attestation address (BitVec.ofNat 64 id)) =
    some attestation ∧ record = storedAttestation attestation id

def HoldsObservation (run : RegistryRun H) (address : Address) (t id : Nat)
    (record : StoredReserveObservation) : Prop :=
  ∃ observation, (run.state t).get (.observation address (BitVec.ofNat 64 id)) =
    some observation ∧ observation.observationId = BitVec.ofNat 64 id ∧
      record = storedObservation observation

/-- An identifier up to a count is one of 64 bits. -/
theorem toNat_ofNat_of_le_count {id : Nat} {count : U64} (h : id ≤ count.toNat) :
    (BitVec.ofNat 64 id).toNat = id := by
  have hlt := count.isLt
  rw [BitVec.toNat_ofNat, Nat.mod_eq_of_lt (by omega)]

theorem Serves.recordAnswer_attestation
    (h : Serves run clock reached strkey registry asset address server) (n : Nat) {id : Nat}
    (hpos : 1 ≤ id)
    (hle : id ≤ ((run.state (clock n)).attestationCount address).toNat) :
    RecordAnswer (reached n) (HoldsAttestation run address (clock n) id)
      (readStoredAttestation (server n) registry asset id) := by
  have hid := toNat_ofNat_of_le_count hle
  have hbound := toNat_le ((run.state (clock n)).attestationCount address)
  have hin : ¬ (id < 1 ∨ id > MAX_U64) := by omega
  obtain ⟨attestation, hget⟩ := @RegistryRun.exists_attestation H run address (clock n)
    (BitVec.ofNat 64 id) (by omega) (by omega)
  unfold readStoredAttestation
  rw [if_neg hin, h.parses n]
  change RecordAnswer _ _ (undefinedFor _
    (simulateRead (server n) registry (.getAttestation address (BitVec.ofNat 64 id))) >>= _)
  rcases h.read_of_ok (.getAttestation address _) rfl fun _ => getAttestation_of_get hget with
    hrecord | ⟨hreached, message, hmessage, hfailed⟩
  · rw [hrecord]
    change RecordAnswer _ _ (some <$> decodeStoredAttestation (nativeAttestation attestation) id)
    rw [decodeStoredAttestation_native]
    exact .found ⟨attestation, hget, rfl⟩
  · rw [hfailed]
    exact .unanswered hreached hmessage

theorem Serves.countAnswer_observations
    (h : Serves run clock reached strkey registry asset address server) (n : Nat) :
    CountAnswer ((run.state (clock n)).get (.asset address) ≠ none) (reached n)
      ((run.state (clock n)).observationStatus address).observationCount.toNat
      (observationTotal registry asset (server n)) := by
  unfold observationTotal readObservationStatus
  rw [h.parses n]
  change CountAnswer _ _ _ (undefinedFor _
    (simulateRead (server n) registry (.observationStatus address) >>=
      decodeObservationStatus) >>= _)
  by_cases hregistered : (run.state (clock n)).get (.asset address) = none
  · rcases h.read_of_error (.observationStatus address) rfl
      fun _ => observationStatus_of_unregistered hregistered with
      hrefused | ⟨hreached, message, hmessage, hfailed⟩
    · rw [hrefused]
      exact .unregistered fun hne => hne hregistered
    · rw [hfailed]
      exact .unanswered hreached hmessage
  · rcases h.read_of_ok (.observationStatus address) rfl
      fun _ => observationStatus_of_registered hregistered with
      hstatus | ⟨hreached, message, hmessage, hfailed⟩
    · have hdecoded := decodeObservationStatus_native (run.status_wellFormed address (clock n))
      rw [hstatus]
      change CountAnswer _ _ _ (undefinedFor _ (decodeObservationStatus (nativeStatus _)) >>= _)
      rw [hdecoded]
      exact .counted hregistered
    · rw [hfailed]
      exact .unanswered hreached hmessage

theorem Serves.recordAnswer_observation
    (h : Serves run clock reached strkey registry asset address server) (n : Nat) {id : Nat}
    (hpos : 1 ≤ id)
    (hle : id ≤ ((run.state (clock n)).observationStatus address).observationCount.toNat) :
    RecordAnswer (reached n) (HoldsObservation run address (clock n) id)
      (readStoredObservation (server n) registry asset id) := by
  have hid := toNat_ofNat_of_le_count hle
  have hbound := toNat_le ((run.state (clock n)).observationStatus address).observationCount
  have hin : ¬ ((id : Int) < 1 ∨ (id : Int) > MAX_U64) := by omega
  obtain ⟨observation, hget⟩ := @RegistryRun.exists_observation H run address (clock n)
    (BitVec.ofNat 64 id) (by omega) (by omega)
  have hwell := run.observation_wellFormed hget
  have hdecoded := decodeStoredObservation_native hwell (by omega)
  have hsame : ¬ (storedObservation observation).observationId ≠ id := by
    change ¬ ((observation.observationId.toNat : Int) ≠ id)
    rw [hwell.matching, hid]
    exact fun hne => hne rfl
  unfold readStoredObservation requireObservationId requireId
  rw [if_neg hin, h.parses n]
  change RecordAnswer _ _ (undefinedFor _
    (simulateRead (server n) registry (.getObservation address (BitVec.ofNat 64 id))) >>= _)
  rcases h.read_of_ok (.getObservation address _) rfl fun _ => getObservation_of_get hget with
    hrecord | ⟨hreached, message, hmessage, hfailed⟩
  · rw [hrecord]
    change RecordAnswer _ _ (decodeStoredObservation (nativeObservation observation) >>= _)
    rw [hdecoded]
    change RecordAnswer _ _ (if _ then _ else _)
    rw [if_neg hsame]
    exact .found ⟨observation, hget, hwell.matching, rfl⟩
  · rw [hfailed]
    exact .unanswered hreached hmessage

end

/-! ## Pages -/

section
variable {α : Type} {registered reached : Nat → Prop} {holds : Nat → Nat → α → Prop}
  {counted : Nat → Nat} {require : Int → Except Failure Nat}
  {readCount : Client → Except Failure Nat}
  {read : Client → Nat → Except Failure (Option α)} {missing : Nat → String}
  {server : Nat → Client} {options : StoredHistoryOptions} {page : Page α} {n m : Nat}

@[simp] theorem request_eq_ok {ask : Client → Except Failure α} {x : α} :
    request ask server n = .ok (x, m) ↔ ask (server n) = .ok x ∧ n + 1 = m := by
  unfold request
  cases ask (server n) with
  | ok y => simp [Except.map]
  | error failure => simp [Except.map]

@[simp] theorem request_eq_error {ask : Client → Except Failure α} {failure : Failure} :
    request ask server n = .error failure ↔ ask (server n) = .error failure := by
  unfold request
  cases ask (server n) with
  | ok y => simp [Except.map]
  | error failure => simp [Except.map]

theorem requireId_eq_ok {message : String} {id : Int} {start : Nat} :
    requireId message id = .ok start ↔ id = start ∧ 1 ≤ start ∧ start ≤ MAX_U64 := by
  unfold requireId
  split
  · simp only [reduceCtorEq, false_iff]
    omega
  · rw [Except.ok.injEq]
    omega

theorem requireHistoryCount_eq_ok {count : Double} {k : Nat} :
    requireHistoryCount count = .ok k ↔
      count.toInt? = some (k : Int) ∧ 1 ≤ k ∧ k ≤ HISTORY_PAGE_LIMIT := by
  unfold requireHistoryCount
  cases hcount : count.toInt? with
  | none => simp
  | some z =>
    simp only [Option.some.injEq]
    split
    · simp only [reduceCtorEq, false_iff]
      omega
    · rw [Except.ok.injEq]
      omega

theorem readHistory_eq_ok :
    readHistory require readCount read missing options server n = .ok (page, m) ↔
      ∃ start count, require options.startId = .ok start ∧
        requireHistoryCount options.count = .ok count ∧
        readPage (request readCount) (fun id => request fun client => read client id)
          (fun id => .infrastructure (Text.ofString (missing id))) start count server n =
            .ok (page, m) := by
  simp [readHistory]

/-- The checks of the options are no infrastructure failures. -/
theorem readHistory_eq_infrastructure {message : String} {text : Text}
    (h : readHistory (requireId message) readCount read missing options server n =
      .error (.infrastructure text)) :
    ∃ start count : Nat, 1 ≤ start ∧
      readPage (request readCount) (fun id => request fun client => read client id)
        (fun id => .infrastructure (Text.ofString (missing id))) start count server n =
          .error (.infrastructure text) := by
  have hid : requireId message options.startId ≠ .error (.infrastructure text) := by
    unfold requireId
    split <;> simp
  have hcount : requireHistoryCount options.count ≠ .error (.infrastructure text) := by
    unfold requireHistoryCount
    dsimp only
    split
    · split <;> simp
    · simp
  simp only [readHistory, Tx.bind_eq_error, Tx.lift_eq_error, Tx.lift_eq_ok, id_eq] at h
  rcases h with ⟨_, hfails, rfl⟩ | ⟨start, _, ⟨hstart, rfl⟩, ⟨_, hfails, rfl⟩ | ⟨count, _, ⟨-, rfl⟩, hpage⟩⟩
  · exact absurd hfails hid
  · exact absurd hfails hcount
  · exact ⟨start, count, (requireId_eq_ok.mp hstart).2.1, hpage⟩

/-- A history that grows while it is read. -/
structure Growing (registered reached : Nat → Prop) (holds : Nat → Nat → α → Prop)
    (counted : Nat → Nat) (readCount : Client → Except Failure Nat)
    (read : Client → Nat → Except Failure (Option α)) (server : Nat → Client) :
    Prop where
  log : AppendOnly holds counted
  bounded : ∀ n, counted n ≤ MAX_U64
  stays : ∀ {n m}, n ≤ m → registered n → registered m
  count : ∀ n, CountAnswer (registered n) (reached n) (counted n) (readCount (server n))
  record : ∀ n {id}, 1 ≤ id → id ≤ counted n →
    RecordAnswer (reached n) (holds n id) (read (server n) id)

/-- **Following a history.** -/
structure Paged (registered reached : Nat → Prop) (holds : Nat → Nat → α → Prop)
    (counted : Nat → Nat) (missing : Nat → String)
    (readHistory : StoredHistoryOptions → Reading (Page α)) (server : Nat → Client) :
    Prop where
  /-- The pages together are the records from the start to the count of the last page. -/
  complete : ∀ {count : Double} {start n m : Nat} {pages : List (Page α)},
    Follows (fun id => readHistory { startId := id, count }) server start n pages m →
      ∃ last, pages.getLast? = some last ∧
        counted n ≤ last.totalCount ∧ last.totalCount ≤ counted m ∧
        List.Forall₂ (holds m) (List.range' start (last.totalCount + 1 - start))
          (pages.flatMap Page.records)
  /-- A page holds at most its count, and a page past the end is empty and the last one. -/
  page : ∀ {options n m} {page : Page α}, readHistory options server n = .ok (page, m) →
    page.totalCount = counted n ∧
      (∃ count : Nat, options.count.toInt? = some (count : Int) ∧ page.records.length ≤ count) ∧
      ((page.totalCount : Int) < options.startId → page.records = [] ∧ page.nextId = none)
  /-- Where every request reaches the registry, the reader comes to the end. -/
  ends : ∀ {count start n : Nat}, 1 ≤ count → count ≤ HISTORY_PAGE_LIMIT → 1 ≤ start →
    start ≤ MAX_U64 → registered n → (∀ m, n ≤ m → reached m) →
      ∃ pages m, Follows (fun id => readHistory { startId := id, count := ofNat count }) server
        start n pages m
  neverMissing : ∀ options n id, readHistory options server n ≠
    .error (.infrastructure (Text.ofString (missing id)))

namespace Growing

theorem reads (h : Growing registered reached holds counted readCount read server) :
    Reads holds counted server (request readCount)
      (fun id => request fun client => read client id) where
  count := by
    intro n total m hread
    obtain ⟨hanswer, rfl⟩ := request_eq_ok.mp hread
    have hcount := h.count n
    rw [hanswer] at hcount
    cases hcount
    exact ⟨rfl, Nat.le_succ n⟩
  record := by
    intro id n found m hpos hle hread
    obtain ⟨hanswer, rfl⟩ := request_eq_ok.mp hread
    have hrecord := h.record n hpos hle
    rw [hanswer] at hrecord
    cases hrecord with
    | found ha => exact ⟨Nat.le_succ n, _, rfl, h.log.holds_mono (Nat.le_succ n) ha⟩

/-- What a page of the reader holds. -/
theorem isPage (h : Growing registered reached holds counted readCount read server)
    {message : String}
    (hread : readHistory (requireId message) readCount read missing options server n =
      .ok (page, m)) :
    ∃ start count : Nat, options.startId = start ∧ options.count.toInt? = some (count : Int) ∧
      1 ≤ start ∧ n ≤ m ∧ page.totalCount = counted n ∧ IsPage (holds m) start count page := by
  obtain ⟨start, count, hstart, hcount, hpage⟩ := readHistory_eq_ok.mp hread
  obtain ⟨hstart, hpos, -⟩ := requireId_eq_ok.mp hstart
  obtain ⟨hcount, hone, -⟩ := requireHistoryCount_eq_ok.mp hcount
  obtain ⟨hle, htotal, hholds⟩ := isPage_of_readPage h.log h.reads hpos hone hpage
  exact ⟨start, count, hstart, hcount, hpos, hle, htotal, hholds⟩

/-- A page of a growing history fails where a request does. -/
theorem failure_of_readPage (h : Growing registered reached holds counted readCount read server)
    {start count : Nat} {failure : Failure} (hstart : 1 ≤ start)
    (hfails : readPage (request readCount) (fun id => request fun client => read client id)
      (fun id => .infrastructure (Text.ofString (missing id))) start count server n =
        .error failure) :
    (¬ registered n ∧ failure = .refused ASSET_NOT_REGISTERED) ∨
      ∃ m, n ≤ m ∧ ¬ reached m ∧ ∃ method message, Unanswered method message ∧
        failure = .infrastructure message := by
  rcases readPage_eq_error h.log h.reads hstart hfails with hcount | ⟨id, m, hle, hpos, hid, hread⟩
  · rw [request_eq_error] at hcount
    have hanswer := h.count n
    rw [hcount] at hanswer
    cases hanswer with
    | unregistered hnot => exact .inl ⟨hnot, rfl⟩
    | unanswered hreached hmessage =>
      exact .inr ⟨n, le_refl n, hreached, _, _, hmessage, rfl⟩
  · rw [request_eq_error] at hread
    have hanswer := h.record m hpos hid
    rw [hread] at hanswer
    cases hanswer with
    | unanswered hreached hmessage => exact .inr ⟨m, hle, hreached, _, _, hmessage, rfl⟩

/-- **The reader of a growing history.** -/
theorem paged (h : Growing registered reached holds counted readCount read server)
    {message : String}
    (hmissing : ∀ {method text id}, Unanswered method text → text ≠ Text.ofString (missing id)) :
    Paged registered reached holds counted missing
      (readHistory (requireId message) readCount read missing) server where
  complete := by
    intro count start n m pages hfollows
    have hpage : ∀ {start s : Nat} {page s'}, readHistory (requireId message) readCount read missing
        { startId := (start : Int), count } server s = .ok (page, s') →
        s ≤ s' ∧ page.totalCount = counted s ∧
          IsPage (holds s') start (count.toInt?.getD 0).toNat page := by
      intro start s page s' hread
      obtain ⟨start', k, hstart, hcount, -, hle, htotal, hholds⟩ := h.isPage hread
      obtain rfl : start = start' := Int.ofNat.inj hstart
      rw [hcount, Option.getD_some, Int.toNat_natCast]
      exact ⟨hle, htotal, hholds⟩
    exact (hfollows.records h.log hpage).2
  page := by
    intro options n m page hread
    obtain ⟨start, count, hstart, hcount, -, -, htotal, hholds⟩ := h.isPage hread
    refine ⟨htotal, ⟨count, hcount, hholds.length_le⟩, fun hend => hholds.of_pastEnd ?_⟩
    omega
  ends := by
    intro count start n hpos hlimit hstart hend hregistered hreached
    have hlt : count < 2 ^ 53 := hlimit.trans_lt (by decide)
    have hcount : requireHistoryCount (ofNat count) = .ok count :=
      requireHistoryCount_eq_ok.mpr ⟨toDouble_natural hlt, hpos, hlimit⟩
    have hpage : ∀ {start s : Nat} {page s'}, readHistory (requireId message) readCount read missing
        { startId := (start : Int), count := ofNat count } server s = .ok (page, s') →
        s ≤ s' ∧ page.totalCount = counted s ∧ IsPage (holds s') start count page := by
      intro start s page s' hread
      obtain ⟨start', k, hstart, hk, -, hle, htotal, hholds⟩ := h.isPage hread
      obtain rfl : start = start' := Int.ofNat.inj hstart
      obtain rfl : count = k := by
        rw [ofNat, toDouble_natural hlt, Option.some.injEq] at hk
        exact Int.ofNat.inj hk
      exact ⟨hle, htotal, hholds⟩
    refine exists_follows hpos hpage h.bounded ?_ hstart hend (le_refl n)
    -- every request from here on is answered
    intro start s hstart hend hle
    have hid : requireId message (start : Int) = .ok start :=
      requireId_eq_ok.mpr ⟨rfl, hstart, hend⟩
    cases hread : readPage (request readCount) (fun id => request fun client => read client id)
        (fun id => .infrastructure (Text.ofString (missing id))) start count server s with
    | ok result =>
      exact ⟨result.1, result.2, readHistory_eq_ok.mpr ⟨start, count, hid, hcount, hread⟩⟩
    | error failure =>
      rcases h.failure_of_readPage hstart hread with ⟨hnot, -⟩ | ⟨m, hm, hnot, -⟩
      · exact absurd (h.stays hle hregistered) hnot
      · exact absurd (hreached m (le_trans hle hm)) hnot
  neverMissing := by
    intro options n id hfails
    obtain ⟨start, count, hstart, hpage⟩ := readHistory_eq_infrastructure hfails
    rcases h.failure_of_readPage hstart hpage with ⟨-, hrefused⟩ | ⟨m, -, -, method, text, hmessage, htext⟩
    · cases hrefused
    · cases htext
      exact hmissing hmessage rfl

end Growing

theorem getElem?_ofString_append {start : String} {rest : Text} {i : Nat} {c : Char}
    (h : start.toList[i]? = some c) : (Text.ofString start ++ rest)[i]? = some (.scalar c) := by
  have hlt : i < (Text.ofString start).length := by
    rw [Text.ofString, List.length_map]
    exact (List.getElem?_eq_some_iff.mp h).1
  rw [List.getElem?_append_left hlt, Text.ofString, List.getElem?_map, h, Option.map_some]

/-- The fifth character of a request without an answer. -/
theorem Unanswered.fifth {method : String} {text : Text} (h : Unanswered method text) :
    text[4]? = some (.scalar 'c') ∨ text[4]? = some (.scalar 's') := by
  cases h with
  | unreachable =>
    rw [Text.ofString_append]
    exact .inl (getElem?_ofString_append rfl)
  | failed error =>
    rw [Text.ofString_append, Text.ofString_append, List.append_assoc, List.append_assoc]
    exact .inr (getElem?_ofString_append rfl)
  | noValue =>
    rw [Text.ofString_append, Text.ofString_append, List.append_assoc]
    exact .inl (getElem?_ofString_append rfl)

/-- No request fails with the text of a missing record: the fifth character tells. -/
theorem Unanswered.ne_missing {method kind : String} {text : Text} {c : Char} {id : Nat}
    (hkind : kind.toList[0]? = some c) (hc : c ≠ 'c' ∧ c ≠ 's') (h : Unanswered method text) :
    text ≠ Text.ofString (missingRecord kind id) := by
  have hfifth : (Text.ofString (missingRecord kind id))[4]? = some (.scalar c) := by
    unfold missingRecord
    simp only [Text.ofString_append, List.append_assoc]
    rw [List.getElem?_append_right (by decide)]
    exact getElem?_ofString_append hkind
  rintro rfl
  rcases h.fifth with hother | hother
  · rw [hfifth, Option.some.injEq, CodePoint.scalar.injEq] at hother
    exact hc.1 hother
  · rw [hfifth, Option.some.injEq, CodePoint.scalar.injEq] at hother
    exact hc.2 hother

end

/-! ## Both histories -/

section
variable {H : Host} {run : RegistryRun H} {clock : Nat → Nat} {reached : Nat → Prop}
  {strkey : Address → Text} {registry asset : Text} {address : Address} {server : Nat → Client}

/-- The attestations of an asset grow while they are read. -/
theorem Serves.growing_attestations
    (h : Serves run clock reached strkey registry asset address server) :
    Growing (fun n => (run.state (clock n)).get (.asset address) ≠ none) reached
      (fun n => HoldsAttestation run address (clock n))
      (fun n => ((run.state (clock n)).attestationCount address).toNat)
      (attestationTotal registry asset)
      (fun client id => readStoredAttestation client registry asset id) server where
  log := {
    holds_mono := fun hle ⟨attestation, hget, hrecord⟩ =>
      ⟨attestation, run.record_stable address (h.monotone hle) hget, hrecord⟩
    counted_mono := fun hle => run.attestationCount_mono (h.monotone hle) }
  bounded _ := toNat_le _
  stays hle := run.registered_stable (h.monotone hle)
  count := h.countAnswer_attestations
  record n _ := h.recordAnswer_attestation n

/-- The observations of an asset grow while they are read. -/
theorem Serves.growing_observations
    (h : Serves run clock reached strkey registry asset address server) :
    Growing (fun n => (run.state (clock n)).get (.asset address) ≠ none) reached
      (fun n => HoldsObservation run address (clock n))
      (fun n => ((run.state (clock n)).observationStatus address).observationCount.toNat)
      (observationTotal registry asset)
      (fun client id => readStoredObservation client registry asset id) server where
  log := {
    holds_mono := fun hle ⟨observation, hget, hid, hrecord⟩ =>
      ⟨observation, run.observation_stable (h.monotone hle) hget, hid, hrecord⟩
    counted_mono := fun hle => run.observationCount_mono (h.monotone hle) }
  bounded _ := toNat_le _
  stays hle := run.registered_stable (h.monotone hle)
  count := h.countAnswer_observations
  record n _ := h.recordAnswer_observation n

/-- **Following `nextId` reads a stored history from the start to its end**, however the
chain grows between the requests. -/
theorem stored_history_pages (h : Serves run clock reached strkey registry asset address server) :
    Paged (fun n => (run.state (clock n)).get (.asset address) ≠ none) reached
        (fun n => HoldsAttestation run address (clock n))
        (fun n => ((run.state (clock n)).attestationCount address).toNat)
        (missingRecord "attestation") (readStoredAttestationHistory registry asset) server ∧
      Paged (fun n => (run.state (clock n)).get (.asset address) ≠ none) reached
        (fun n => HoldsObservation run address (clock n))
        (fun n => ((run.state (clock n)).observationStatus address).observationCount.toNat)
        (missingRecord "observation") (readStoredObservationHistory registry asset) server :=
  ⟨h.growing_attestations.paged fun hanswer => hanswer.ne_missing (c := 'a') rfl (by decide),
    h.growing_observations.paged fun hanswer => hanswer.ne_missing (c := 'o') rfl (by decide)⟩

end

/-- Both histories of the sample asset. -/
theorem stored_history_pages_sample :
    Paged (fun n => ((sampleRun sampleCalls).state (n + 2)).get (.asset (sampleContract 3)) ≠ none)
        (fun _ => True)
        (fun n => HoldsAttestation (sampleRun sampleCalls) (sampleContract 3) (n + 2))
        (fun n => (((sampleRun sampleCalls).state (n + 2)).attestationCount
          (sampleContract 3)).toNat)
        (missingRecord "attestation") (readStoredAttestationHistory [] [])
        (sampleEndpoint (· + 2)) ∧
      Paged
        (fun n => ((sampleRun sampleCalls).state (n + 2)).get (.asset (sampleContract 3)) ≠ none)
        (fun _ => True)
        (fun n => HoldsObservation (sampleRun sampleCalls) (sampleContract 3) (n + 2))
        (fun n => (((sampleRun sampleCalls).state (n + 2)).observationStatus
          (sampleContract 3)).observationCount.toNat)
        (missingRecord "observation") (readStoredObservationHistory [] [])
        (sampleEndpoint (· + 2)) :=
  stored_history_pages (serves_sampleEndpoint (fun _ _ h => Nat.add_le_add_right h 2) [] [])

end ZkPoR.Sdk
