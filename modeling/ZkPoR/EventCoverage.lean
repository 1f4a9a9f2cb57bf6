import ZkPoR.EventHistory
import ZkPoR.Pagination

/-! # What a covered range holds

The reader compares ledgers, and an answer can stop in the middle of one.  So a cursor
in the latest ledger does not show that the ledger was read to its end: an answer with
as many events as the request allows can leave events of that ledger behind it.
`history_covers_iff` says that this is the only way in which a history that claims
to cover its range can miss an event.
-/
namespace ZkPoR.Sdk
open CheckedInt BoundedLoop JsonText Binary64 Transaction Pagination

/-! ## Places -/

theorem Place.ledger_mono {a b : Place} (h : a ≤ b) : a.ledger ≤ b.ledger := by
  have hle : (ofLex a).1 ≤ (ofLex b).1 := by
    rcases Prod.Lex.le_iff.mp h with hlt | ⟨heq, -⟩
    · exact hlt.le
    · exact heq.le
  unfold Place.ledger
  rw [Nat.shiftRight_eq_div_pow, Nat.shiftRight_eq_div_pow]
  exact Nat.div_le_div_right hle

/-- A cursor that can be read names the ledger of its place. -/
theorem ledger_placeOf {cursor : String} {ledger : Nat}
    (h : ledgerOfEventCursor cursor = some ledger) : (placeOf cursor).ledger = ledger := by
  unfold ledgerOfEventCursor at h
  split at h
  · exact Option.some.inj h
  · cases h

/-! ## The events of one page -/

variable {display : Option NativeValue → Text} {registry asset : Text} {address : Address}
  {events : List RpcEvent} {client : EventClient}

/-- The decoder names the asset of the second topic. -/
theorem asset_of_decode {event : RpcEvent} {decoded : Text × DecodedAttestation}
    (htopic : event.topic = [.string (Text.ofString ATTESTATION_EVENT_TOPIC), .string asset])
    (h : decodeAttestationEvent display event.topic event.value = .ok decoded) :
    decoded.1 = asset := by
  rw [htopic] at h
  unfold decodeAttestationEvent at h
  simp only [List.getElem?_cons_zero, List.getElem?_cons_succ, ne_eq, not_true_eq_false,
    if_false] at h
  split at h
  · obtain ⟨_, -, h⟩ := bind_eq_ok.mp h
    obtain ⟨_, -, h⟩ := bind_eq_ok.mp h
    obtain ⟨_, -, h⟩ := bind_eq_ok.mp h
    cases h
    rfl
  · obtain ⟨_, -, h⟩ := bind_eq_ok.mp h
    cases h
    rfl

/-- Each event of the asset has its record. -/
theorem forall₂_attestationsOf {page : List RpcEvent} {found : List AttestationEvent}
    (htopic : ∀ event ∈ page,
      event.topic = [.string (Text.ofString ATTESTATION_EVENT_TOPIC), .string asset])
    (h : attestationsOf display asset page = .ok found) :
    List.Forall₂ (RecordOf display asset) page found := by
  induction page generalizing found with
  | nil =>
    cases h
    exact .nil
  | cons event page ih =>
    rw [List.forall_mem_cons] at htopic
    obtain ⟨decoded, hdecoded, h⟩ := bind_eq_ok.mp h
    obtain ⟨rest, hrest, h⟩ := bind_eq_ok.mp h
    have hasset := asset_of_decode htopic.1 hdecoded
    rw [if_neg (not_not_intro hasset)] at h
    cases h
    refine .cons ⟨decoded.2, ?_, rfl⟩ (ih htopic.2 hrest)
    rw [hdecoded, ← hasset]

/-! ## Following the cursors -/

/-- What the reader has seen when it sends a request. -/
def seen (startLedger : Nat) (origin : Origin) (event : RpcEvent) : Bool :=
  startLedger ≤ event.place.ledger && !origin.before event.place

/-- Before its first request a reader has seen nothing. -/
theorem seen_startLedger (ledger : Nat) (event : RpcEvent) :
    seen ledger (.startLedger ledger) event = false := by
  rw [seen, Origin.before, Bool.and_not_self]

/-- A request that has a place in its range has every later one. -/
theorem Origin.before_mono {origin : Origin} {a b : Place} (hab : a < b)
    (h : origin.before a = true) : origin.before b = true := by
  cases origin with
  | startLedger ledger =>
    have hle : ledger ≤ a.ledger := of_decide_eq_true h
    exact decide_eq_true (hle.trans (Place.ledger_mono hab.le))
  | cursor text =>
    have hlt : placeOf text < a := of_decide_eq_true h
    exact decide_eq_true (hlt.trans hab)

/-- What an answer has seen, and what it adds. -/
theorem filter_seen_append {startLedger : Nat} {origin : Origin} {stop : Place}
    (hsorted : events.Pairwise fun a b => a.place < b.place)
    (hstart : origin = .startLedger startLedger ∨
      ∃ cursor, origin = .cursor cursor ∧ startLedger ≤ (placeOf cursor).ledger)
    (hreaches : origin.reaches stop) :
    events.filter (seen startLedger origin) ++ events.filter (fun event =>
        origin.before event.place && decide (event.place ≤ stop)) =
      events.filter fun event =>
        decide (startLedger ≤ event.place.ledger) && decide (event.place ≤ stop) := by
  rw [filter_append_filter hsorted]
  · refine List.filter_congr fun event _ => ?_
    rcases hstart with rfl | ⟨cursor, rfl, hcursor⟩
    · simp only [seen, Origin.before]
      cases decide (startLedger ≤ event.place.ledger) <;> rfl
    · -- behind the cursor the ledger is in the range, and up to it the place is
      simp only [seen, Origin.before]
      by_cases hlt : placeOf cursor < event.place
      · have hledger := hcursor.trans (Place.ledger_mono hlt.le)
        simp [hlt, hledger]
      · have hle := (not_lt.mp hlt).trans hreaches
        simp [hlt, hle]
  · intro event h
    rw [seen, Bool.and_eq_true, Bool.not_eq_true'] at h
    rw [h.2, Bool.false_and]
  · intro a b hab h
    rw [Bool.and_eq_true] at h
    rw [seen, Origin.before_mono hab h.1, Bool.not_true, Bool.and_false]

theorem getEvents_eq_ok {request : EventRequest} {n m : Nat} {page : EventsPage} :
    getEvents request client n = .ok (page, m) ↔
      client.getEvents n request = some page ∧ n + 1 = m := by
  unfold getEvents
  cases client.getEvents n request with
  | none => simp [infrastructure]
  | some found => simp

/-- An event endpoint, and a reader that has followed its cursors so far. -/
structure Followed (display : Option NativeValue → Text) (asset : Text) (events : List RpcEvent)
    (client : EventClient) (request : EventRequest) (startLedger : Nat) (n : Nat)
    (attestations : List AttestationEvent) (origin : Origin) : Prop where
  asked : requestAt client request n = { request with origin }
  start : origin = .startLedger startLedger ∨
    ∃ cursor, origin = .cursor cursor ∧ startLedger ≤ (placeOf cursor).ledger
  found : List.Forall₂ (RecordOf display asset) (events.filter (seen startLedger origin))
    attestations
  /-- No answer so far stopped in its latest ledger. -/
  below : ∀ k < n, ∀ page, answerAt client request k = some page →
    ledgerOfEventCursor page.cursor ≠ some page.latestLedger

/-- What the reader has when an answer reaches its latest ledger. -/
structure Reached (display : Option NativeValue → Text) (asset : Text) (events : List RpcEvent)
    (client : EventClient) (request : EventRequest) (startLedger : Nat) (m : Nat)
    (stopped : Stopped) : Prop where
  answer : answerAt client request (m - 1) = some stopped.page
  pos : 1 ≤ m
  reached : ∃ ledger, ledgerOfEventCursor stopped.page.cursor = some ledger ∧
    stopped.page.latestLedger ≤ ledger
  found : List.Forall₂ (RecordOf display asset)
    (events.filter fun event => decide (startLedger ≤ event.place.ledger) &&
      decide (event.place ≤ placeOf stopped.page.cursor)) stopped.attestations
  below : ∀ k < m - 1, ∀ page, answerAt client request k = some page →
    ledgerOfEventCursor page.cursor ≠ some page.latestLedger

section
variable {request : EventRequest} {startLedger n : Nat} {attestations found : List AttestationEvent}
  {origin : Origin} {page : EventsPage} {reached : Nat}

/-- The reader has every event up to the cursor of the next answer. -/
theorem Followed.found_append (hevents : MatchingEvents asset events)
    (hserves : ServesEvents request.registry request.asset events client)
    (h : Followed client.display asset events client request startLedger n attestations origin)
    (hpage : client.getEvents n { request with origin } = some page)
    (hcursor : ledgerOfEventCursor page.cursor = some reached)
    (hfound : attestationsOf client.display asset page.events = .ok found) :
    startLedger ≤ (placeOf page.cursor).ledger ∧
      List.Forall₂ (RecordOf client.display asset)
        (events.filter fun event => decide (startLedger ≤ event.place.ledger) &&
          decide (event.place ≤ placeOf page.cursor)) (attestations ++ found) := by
  obtain ⟨hreaches, hanswer⟩ :=
    @hserves.answers n { request with origin } page rfl rfl hpage (by simp [hcursor])
  dsimp only at hreaches hanswer
  have htopic : ∀ event ∈ page.events, event.topic =
      [.string (Text.ofString ATTESTATION_EVENT_TOPIC), .string asset] := by
    rw [hanswer]
    exact fun event hevent => hevents.topic event (List.mem_filter.mp hevent).1
  have hnew := forall₂_attestationsOf htopic hfound
  rw [hanswer] at hnew
  rw [← filter_seen_append hevents.sorted h.start hreaches]
  refine ⟨?_, List.rel_append h.found hnew⟩
  rcases h.start with rfl | ⟨cursor, rfl, hstart⟩
  · exact hreaches
  · exact hstart.trans (Place.ledger_mono hreaches)

theorem Followed.answer (h : Followed client.display asset events client request startLedger n
    attestations origin) (hpage : client.getEvents n { request with origin } = some page) :
    answerAt client request n = some page := by
  rw [answerAt, h.asked, hpage]

/-- The reader after an answer below its latest ledger. -/
theorem Followed.next (hevents : MatchingEvents asset events)
    (hserves : ServesEvents request.registry request.asset events client)
    (h : Followed client.display asset events client request startLedger n attestations origin)
    (hpage : client.getEvents n { request with origin } = some page)
    (hcursor : ledgerOfEventCursor page.cursor = some reached)
    (hbelow : reached < page.latestLedger)
    (hfound : attestationsOf client.display asset page.events = .ok found) :
    Followed client.display asset events client request startLedger (n + 1)
      (attestations ++ found) (.cursor page.cursor) := by
  obtain ⟨hstart, hall⟩ := h.found_append hevents hserves hpage hcursor hfound
  have hanswer := h.answer hpage
  refine ⟨?_, .inr ⟨page.cursor, rfl, hstart⟩, ?_, ?_⟩
  · rw [answerAt] at hanswer
    rw [requestAt, hanswer]
  · have hseen : ∀ event : RpcEvent, seen startLedger (.cursor page.cursor) event =
        (decide (startLedger ≤ event.place.ledger) &&
          decide (event.place ≤ placeOf page.cursor)) := fun event => by
      rw [seen, Origin.before, ← decide_not]
      simp only [not_lt]
    rw [List.filter_congr fun event _ => hseen event]
    exact hall
  · intro k hk other hother
    rcases Nat.lt_succ_iff_lt_or_eq.mp hk with hk | rfl
    · exact h.below k hk other hother
    · rw [hanswer, Option.some.injEq] at hother
      rw [← hother, hcursor, ne_eq, Option.some.injEq]
      omega

/-- **The loop**, by induction on the fuel. -/
theorem reached_of_followCursors {fuel m : Nat} {stopped : Stopped}
    (hevents : MatchingEvents asset events)
    (hserves : ServesEvents request.registry request.asset events client)
    (hfollowed : Followed client.display asset events client request startLedger n attestations
      origin)
    (h : followCursors asset request fuel attestations origin client n = .ok (some stopped, m))
    (hcovers : stopped.coversTheWholeRange = true) :
    Reached client.display asset events client request startLedger m stopped := by
  induction fuel generalizing n attestations origin with
  | zero => cases h
  | succ fuel ih =>
    rw [followCursors] at h
    simp only [Tx.bind_eq_ok, Tx.reads_eq_ok, Tx.lift_eq_ok] at h
    obtain ⟨page, n₁, hread, _, _, ⟨rfl, rfl⟩, found, _, ⟨hfound, rfl⟩, h⟩ := h
    obtain ⟨hpage, rfl⟩ := getEvents_eq_ok.mp hread
    cases hcursor : ledgerOfEventCursor page.cursor with
    | none =>
      rw [hcursor] at h
      cases h
      cases hcovers
    | some reached =>
      rw [hcursor] at h
      dsimp only at h
      split at h
      · rename_i hreached
        cases h
        exact ⟨hfollowed.answer hpage, Nat.succ_pos n, ⟨reached, hcursor, hreached⟩,
          (hfollowed.found_append hevents hserves hpage hcursor hfound).2, hfollowed.below⟩
      · rename_i hbelow
        have hnext := hfollowed.next hevents hserves hpage hcursor (by omega) hfound
        split at h
        · split at h
          · cases h
            cases hcovers
          · exact ih hnext h
        · exact ih hnext h

end

/-! ## The range -/

/-- The record of an event has its ledger. -/
theorem RecordOf.ledger {event : RpcEvent} {attestation : AttestationEvent}
    (h : RecordOf display asset event attestation) : attestation.ledger = event.ledger := by
  obtain ⟨decoded, -, rfl⟩ := h
  rfl

theorem map_ledger {l : List RpcEvent} {attestations : List AttestationEvent}
    (h : List.Forall₂ (RecordOf display asset) l attestations) :
    attestations.map (fun attestation => attestation.ledger) = l.map RpcEvent.ledger := by
  induction h with
  | nil => rfl
  | cons hrecord _ ih => rw [List.map_cons, List.map_cons, hrecord.ledger, ih]

/-- Records in the order of their events are in ledger order. -/
theorem pairwise_ledger {l : List RpcEvent} {attestations : List AttestationEvent}
    (hevents : MatchingEvents asset events) (hl : l.Sublist events)
    (h : List.Forall₂ (RecordOf display asset) l attestations) :
    attestations.Pairwise fun left right => left.ledger ≤ right.ledger := by
  have hsorted : (l.map RpcEvent.ledger).Pairwise (· ≤ ·) := by
    refine List.pairwise_map.mpr ((hevents.sorted.sublist hl).imp_of_mem fun ha hb hlt => ?_)
    rw [hevents.ledger _ (hl.subset ha), hevents.ledger _ (hl.subset hb)]
    exact Place.ledger_mono hlt.le
  rwa [← map_ledger h, List.pairwise_map] at hsorted

/-- What a reader that ended within its fuel has read. -/
theorem reached_of_readAttestationHistory {fuel m : Nat} {fromLedger : Option Nat}
    {history : AttestationHistory} (hevents : MatchingEvents asset events)
    (haddress : client.address asset = .ok address)
    (hserves : ServesEvents registry address events client)
    (h : readAttestationHistory fuel registry asset fromLedger client 0 = .ok (some history, m))
    (hcovers : history.coversTheWholeRange = true) :
    ∃ stopped, Reached client.display asset events client
        { origin := .startLedger history.oldestLedgerCovered, registry, asset := address,
          limit := HISTORY_PAGE_LIMIT } history.oldestLedgerCovered m stopped ∧
      history.latestLedger = stopped.page.latestLedger ∧
      history.attestations =
        stopped.attestations.mergeSort fun left right => left.ledger ≤ right.ledger := by
  simp only [readAttestationHistory, Tx.bind_eq_ok, Tx.reads_eq_ok, Tx.lift_eq_ok,
    Tx.pure_eq_ok] at h
  obtain ⟨_, _, ⟨rfl, rfl⟩, retained, _, ⟨-, rfl⟩, _, _, ⟨rfl, rfl⟩, found, _, ⟨hparsed, rfl⟩,
    stopped, _, hloop, hhistory, rfl⟩ := h
  obtain rfl : address = found := Except.ok.inj (haddress.symm.trans hparsed)
  cases stopped with
  | none => cases hhistory
  | some stopped =>
    rw [Option.map_some, Option.some.injEq] at hhistory
    subst hhistory
    refine ⟨stopped, reached_of_followCursors hevents hserves ?_ hloop hcovers, rfl, rfl⟩
    refine ⟨rfl, .inl rfl, ?_, fun k hk => absurd hk (Nat.not_lt_zero k)⟩
    rw [List.filter_eq_nil_iff.mpr fun event _ => Bool.eq_false_iff.mp (seen_startLedger _ event)]
    exact .nil

/-- **The range is covered exactly when the last answer leaves no event of it behind.** -/
theorem Reached.covers_iff {request : EventRequest} {startLedger m : Nat} {stopped : Stopped}
    (hevents : MatchingEvents asset events)
    (h : Reached display asset events client request startLedger m stopped) :
    List.Forall₂ (RecordOf display asset)
        (events.filter fun event => inLedgers startLedger stopped.page.latestLedger event.ledger)
        (stopped.attestations.filter fun attestation =>
          inLedgers startLedger stopped.page.latestLedger attestation.ledger) ↔
      ¬ StopsInside events startLedger stopped.page := by
  obtain ⟨reached, hcursor, hreached⟩ := h.reached
  have hstop := ledger_placeOf hcursor
  -- what the reader holds of the range
  have hread := List.rel_filter (R := RecordOf display asset)
    (p := fun event => inLedgers startLedger stopped.page.latestLedger event.ledger)
    (q := fun attestation => inLedgers startLedger stopped.page.latestLedger attestation.ledger)
    (fun event attestation hrecord => by
      dsimp only
      rw [hrecord.ledger]) h.found
  rw [List.filter_filter] at hread
  have hsub : events.filter (fun event =>
      inLedgers startLedger stopped.page.latestLedger event.ledger &&
        (decide (startLedger ≤ event.place.ledger) &&
          decide (event.place ≤ placeOf stopped.page.cursor))) =
      (events.filter fun event =>
        inLedgers startLedger stopped.page.latestLedger event.ledger).filter fun event =>
          decide (event.place ≤ placeOf stopped.page.cursor) := by
    rw [List.filter_filter]
    refine List.filter_congr fun event hevent => ?_
    rw [← hevents.ledger event hevent, inLedgers]
    cases decide (startLedger ≤ event.ledger) <;>
      cases decide (event.ledger ≤ stopped.page.latestLedger) <;>
      cases decide (event.place ≤ placeOf stopped.page.cursor) <;> rfl
  rw [hsub] at hread
  constructor
  · rintro hcomplete ⟨-, event, hevent, hstart, hlatest, hbehind⟩
    have hlength := hread.length_eq.trans hcomplete.length_eq.symm
    have hrange : inLedgers startLedger stopped.page.latestLedger event.ledger = true := by
      rw [inLedgers, decide_eq_true hstart, decide_eq_true hlatest.le]
      rfl
    have hall := List.filter_eq_self.mp (List.filter_sublist.eq_of_length hlength) event
      (List.mem_filter.mpr ⟨hevent, hrange⟩)
    exact absurd hbehind (not_lt.mpr (of_decide_eq_true hall))
  · intro hinside
    rwa [List.filter_eq_self.mpr] at hread
    intro event hevent
    obtain ⟨hevent, hrange⟩ := List.mem_filter.mp hevent
    rw [inLedgers, Bool.and_eq_true, decide_eq_true_eq, decide_eq_true_eq] at hrange
    refine decide_eq_true (not_lt.mp fun hbehind => hinside ?_)
    -- an event behind the cursor is in the ledger of the cursor, which is the latest one
    have hledger := Place.ledger_mono hbehind.le
    rw [hstop, ← hevents.ledger event hevent] at hledger
    have hlatest : reached = stopped.page.latestLedger := by omega
    exact ⟨hlatest ▸ hcursor, event, hevent, hrange.1, by omega, hbehind⟩

/-- **A history that claims to cover its range does so exactly when no answer stopped
inside its latest ledger**, with events of that ledger unread. -/
theorem history_covers_iff {fuel m : Nat} {fromLedger : Option Nat}
    {history : AttestationHistory} (hevents : MatchingEvents asset events)
    (haddress : client.address asset = .ok address)
    (hserves : ServesEvents registry address events client)
    (h : readAttestationHistory fuel registry asset fromLedger client 0 = .ok (some history, m))
    (hcovers : history.coversTheWholeRange = true) :
    CoversRange client.display asset events history ↔
      ∀ k < m, ∀ page, answerAt client
        { origin := .startLedger history.oldestLedgerCovered, registry, asset := address,
          limit := HISTORY_PAGE_LIMIT } k = some page →
        ¬ StopsInside events history.oldestLedgerCovered page := by
  obtain ⟨stopped, hreached, hlatest, hattestations⟩ :=
    reached_of_readAttestationHistory hevents haddress hserves h hcovers
  have hsorted := pairwise_ledger hevents List.filter_sublist hreached.found
  have hkept : history.attestations = stopped.attestations := by
    rw [hattestations]
    exact List.mergeSort_of_pairwise (hsorted.imp fun hle => decide_eq_true hle)
  have hiff := hreached.covers_iff hevents
  have hcovered : CoversRange client.display asset events history ↔
      ¬ StopsInside events history.oldestLedgerCovered stopped.page := by
    rw [← hiff]
    refine ⟨fun h => ?_, fun h => ⟨hkept ▸ hsorted, ?_⟩⟩
    · rw [← hlatest, ← hkept]
      exact h.complete
    · rw [hlatest, hkept]
      exact h
  rw [hcovered]
  constructor
  · intro hinside k hk page hpage
    rcases Nat.lt_or_eq_of_le (Nat.le_sub_one_of_lt hk) with hlt | rfl
    · exact fun hstops => hreached.below k hlt page hpage hstops.1
    · rw [hreached.answer, Option.some.injEq] at hpage
      rwa [← hpage]
  · intro hall
    have hpos := hreached.pos
    exact hall (m - 1) (by omega) _ hreached.answer

/-! ## An endpoint -/

/-- The text of a cursor. -/
def cursorText (place : Place) : String :=
  String.ofList (Nat.toDigits 10 (ofLex place).1 ++ '-' :: Nat.toDigits 10 (ofLex place).2)

/-- The last place of a ledger. -/
def endPlace (ledger : Nat) : Place := toLex (ledger * 2 ^ 32 + (2 ^ 32 - 1), 2 ^ 32 - 1)

theorem ne_dash_of_mem_toDigits {n : Nat} {c : Char} (h : c ∈ Nat.toDigits 10 n) :
    decide (c ≠ '-') = true := by
  refine decide_eq_true fun hc => ?_
  have hdigit := DecimalText.isDigit_toDigits h
  rw [hc] at hdigit
  exact absurd hdigit (by decide)

theorem identifierText_cursorText (place : Place) :
    identifierText (cursorText place) = Nat.toDigits 10 (ofLex place).1 := by
  rw [identifierText, cursorText, String.toList_ofList,
    List.takeWhile_append_of_pos fun c hc => ne_dash_of_mem_toDigits hc, List.takeWhile_cons]
  simp

theorem placeOf_cursorText (place : Place) : placeOf (cursorText place) = place := by
  have hindex : ((cursorText place).toList.dropWhile (· ≠ '-')).drop 1 =
      Nat.toDigits 10 (ofLex place).2 := by
    rw [cursorText, String.toList_ofList,
      List.dropWhile_append_of_pos fun c hc => ne_dash_of_mem_toDigits hc, List.dropWhile_cons]
    simp
  rw [placeOf, identifierText_cursorText, hindex, Nat.ofDigitChars_toDigits (by decide) (by decide),
    Nat.ofDigitChars_toDigits (by decide) (by decide)]
  rfl

theorem ledgerOfEventCursor_cursorText (place : Place) :
    ledgerOfEventCursor (cursorText place) = some place.ledger := by
  have hdigits : (Nat.toDigits 10 (ofLex place).1).all Char.isDigit = true :=
    List.all_eq_true.mpr fun c hc => DecimalText.isDigit_toDigits hc
  rw [ledgerOfEventCursor, identifierText_cursorText, if_pos ⟨Nat.toDigits_ne_nil, hdigits⟩,
    Nat.ofDigitChars_toDigits (by decide) (by decide)]
  rfl

instance (origin : Origin) (place : Place) : Decidable (origin.reaches place) :=
  match origin with
  | .startLedger ledger => inferInstanceAs (Decidable (ledger ≤ place.ledger))
  | .cursor text => inferInstanceAs (Decidable (placeOf text ≤ place))

/-- The events that an answer to a request can hold. -/
def pending (events : List RpcEvent) (request : EventRequest) : List RpcEvent :=
  events.filter fun event => request.origin.before event.place

/-- Where an answer stops: at its last event when it is full, and else at the end of the
latest ledger. -/
def stopOf (latestLedger limit : Nat) (events : List RpcEvent) : Place :=
  match events[limit - 1]? with
  | some event => event.place
  | none => endPlace latestLedger

/-- An endpoint that knows the events of one asset up to its latest ledger. -/
def endpoint (address : Address) (events : List RpcEvent) (oldestLedger latestLedger : Nat) :
    EventClient where
  address _ := .ok address
  health := some { oldestLedger, latestLedger }
  getEvents _ request :=
    if 0 < request.limit ∧ request.origin.reaches (endPlace latestLedger) then
      some {
        events := (pending events request).take request.limit
        cursor := cursorText (stopOf latestLedger request.limit (pending events request))
        oldestLedger, latestLedger }
    else none
  display _ := []

/-- The first events of a sorted list are those up to the last of them. -/
theorem take_eq_filter {l : List RpcEvent} {i : Nat} {event : RpcEvent}
    (hsorted : l.Pairwise fun a b => a.place < b.place) (h : l[i]? = some event) :
    l.take (i + 1) = l.filter fun other => decide (other.place ≤ event.place) := by
  induction l generalizing i with
  | nil => simp at h
  | cons a l ih =>
    obtain ⟨hbefore, hsorted⟩ := List.pairwise_cons.mp hsorted
    cases i with
    | zero =>
      obtain rfl : a = event := by simpa using h
      have hnil : l.filter (fun other => decide (other.place ≤ a.place)) = [] :=
        List.filter_eq_nil_iff.mpr fun other hother hle =>
          absurd (hbefore other hother) (not_lt.mpr (of_decide_eq_true hle))
      rw [List.filter_cons, if_pos (decide_eq_true (le_refl a.place)), hnil]
      rfl
    | succ i =>
      rw [List.getElem?_cons_succ] at h
      have hle := (hbefore event (List.mem_of_getElem? h)).le
      rw [List.take_succ_cons, ih hsorted h, List.filter_cons, if_pos (decide_eq_true hle)]

theorem Origin.reaches_of_before {origin : Origin} {place : Place}
    (h : origin.before place = true) : origin.reaches place := by
  cases origin with
  | startLedger ledger => exact of_decide_eq_true h
  | cursor text => exact (of_decide_eq_true h : placeOf text < place).le

/-- **The endpoint keeps its promise**, when it knows no event beyond its latest ledger. -/
theorem endpoint_serves {oldestLedger latestLedger : Nat}
    (hsorted : events.Pairwise fun a b => a.place < b.place)
    (hlatest : ∀ event ∈ events, event.place ≤ endPlace latestLedger) :
    ServesEvents registry address events (endpoint address events oldestLedger latestLedger) where
  limited := by
    intro n request page h
    simp only [endpoint, Option.ite_none_right_eq_some, Option.some.injEq] at h
    rw [← h.2, List.length_take]
    exact Nat.min_le_left _ _
  answers := by
    intro n request page _ _ h _
    simp only [endpoint, Option.ite_none_right_eq_some, Option.some.injEq] at h
    obtain ⟨⟨hlimit, hreaches⟩, rfl⟩ := h
    have hpending : (pending events request).Pairwise fun a b => a.place < b.place :=
      hsorted.sublist List.filter_sublist
    have hfilter : ∀ stop : Place, events.filter (fun event =>
        request.origin.before event.place && decide (event.place ≤ stop)) =
        (pending events request).filter fun event => decide (event.place ≤ stop) := by
      intro stop
      rw [pending, List.filter_filter]
      exact List.filter_congr fun event _ => Bool.and_comm _ _
    dsimp only
    rw [placeOf_cursorText, hfilter]
    unfold stopOf
    cases hlast : (pending events request)[request.limit - 1]? with
    | none =>
      -- the answer is not full, and holds all that there is
      refine ⟨hreaches, ?_⟩
      rw [List.getElem?_eq_none_iff] at hlast
      rw [List.take_of_length_le (by omega), List.filter_eq_self.mpr]
      exact fun event hevent => decide_eq_true (hlatest event (List.mem_filter.mp hevent).1)
    | some event =>
      have hbefore := (List.mem_filter.mp (List.mem_of_getElem? hlast)).2
      refine ⟨Origin.reaches_of_before hbefore, ?_⟩
      rw [← take_eq_filter hpending hlast, Nat.sub_add_cancel hlimit]

/-! ## A crowded ledger -/

def crowdedLedger : Nat := 1000

def sampleEventValue : NativeValue :=
  .record [(Text.ofString "final_root", .bigint 7), (Text.ofString "total_liabilities", .bigint 900),
    (Text.ofString "snapshot_ledger", .number (JavaScript.ofNat 960)),
    (Text.ofString "reserve_sum", .bigint 1400),
    (Text.ofString "attested_ledger", .number (JavaScript.ofNat 1000))]

/-- The events of one ledger, one transaction after the other. -/
def crowdedEvent (index : Nat) : RpcEvent where
  place := toLex (crowdedLedger * 2 ^ 32 + index * 2 ^ 12, 0)
  topic := [.string (Text.ofString ATTESTATION_EVENT_TOPIC), .string (Text.ofString "ASSET")]
  value := sampleEventValue
  ledger := crowdedLedger
  txHash := Text.ofString "bb"

def crowdedEvents (n : Nat) : List RpcEvent := (List.range n).map crowdedEvent

def crowdedClient (n : Nat) : EventClient :=
  endpoint (sampleContract 3) (crowdedEvents n) 900 crowdedLedger

def crowdedAttestation : AttestationEvent where
  finalRoot := 7
  totalLiabilities := 900
  snapshotLedger := 960
  reserveSum := 1400
  attestedLedger := 1000
  attestationId := none
  ledger := crowdedLedger
  transactionHash := Text.ofString "bb"

def crowdedHistory (n : Nat) : AttestationHistory where
  attestations := List.replicate (min n HISTORY_PAGE_LIMIT) crowdedAttestation
  oldestLedgerCovered := 900
  oldestLedgerRetained := 900
  latestLedger := crowdedLedger
  reachesTheRetentionLimit := true
  coversTheWholeRange := true

theorem matchingEvents_crowded {n : Nat} (h : n ≤ 2 ^ 20) :
    MatchingEvents (Text.ofString "ASSET") (crowdedEvents n) where
  sorted := by
    refine List.pairwise_map.mpr (List.pairwise_lt_range.imp fun {i j} hlt => ?_)
    exact Prod.Lex.lt_iff.mpr (.inl (by
      change crowdedLedger * 2 ^ 32 + i * 2 ^ 12 < crowdedLedger * 2 ^ 32 + j * 2 ^ 12
      omega))
  topic := List.forall_mem_map.mpr fun _ _ => rfl
  ledger := List.forall_mem_map.mpr fun i hi => by
    have hlt := List.mem_range.mp hi
    change crowdedLedger = (crowdedLedger * 2 ^ 32 + i * 2 ^ 12) >>> 32
    rw [Nat.shiftRight_eq_div_pow, crowdedLedger]
    omega

theorem serves_crowded {n : Nat} (h : n ≤ 2 ^ 20) :
    ServesEvents [] (sampleContract 3) (crowdedEvents n) (crowdedClient n) := by
  refine endpoint_serves (matchingEvents_crowded h).sorted (List.forall_mem_map.mpr fun i hi => ?_)
  have hlt := List.mem_range.mp hi
  refine Prod.Lex.le_iff.mpr (.inl ?_)
  change crowdedLedger * 2 ^ 32 + i * 2 ^ 12 < crowdedLedger * 2 ^ 32 + (2 ^ 32 - 1)
  omega

theorem decodeAttestationEvent_crowded (i : Nat) :
    decodeAttestationEvent (fun _ => []) (crowdedEvent i).topic (crowdedEvent i).value =
      .ok (Text.ofString "ASSET", crowdedAttestation.toDecodedAttestation) := by
  have hnumber : ∀ (n : Nat) what, n < 2 ^ 53 →
      requireNumber (.number (JavaScript.ofNat n)) what = .ok (n : Int) := fun n what hn => by
    rw [requireNumber, JavaScript.ofNat, JavaScript.toDouble_natural hn]
  have hdecoded : decodeAttestation sampleEventValue ATTESTATION_EVENT_TOPIC none =
      .ok crowdedAttestation.toDecodedAttestation :=
    bind_eq_ok.mpr ⟨_, rfl, bind_eq_ok.mpr ⟨_, rfl, bind_eq_ok.mpr ⟨_, rfl,
      bind_eq_ok.mpr ⟨_, rfl, bind_eq_ok.mpr ⟨_, rfl, bind_eq_ok.mpr ⟨_, hnumber 960 _ (by decide),
        bind_eq_ok.mpr ⟨_, rfl, bind_eq_ok.mpr ⟨_, rfl, bind_eq_ok.mpr ⟨_, rfl,
          bind_eq_ok.mpr ⟨_, hnumber 1000 _ (by decide), rfl⟩⟩⟩⟩⟩⟩⟩⟩⟩⟩
  exact bind_eq_ok.mpr ⟨_, hdecoded, rfl⟩

theorem attestationsOf_crowded (l : List Nat) :
    attestationsOf (fun _ => []) (Text.ofString "ASSET") (l.map crowdedEvent) =
      .ok (List.replicate l.length crowdedAttestation) := by
  induction l with
  | nil => rfl
  | cons i l ih =>
    rw [List.map_cons, attestationsOf]
    exact bind_eq_ok.mpr ⟨_, decodeAttestationEvent_crowded i, bind_eq_ok.mpr ⟨_, ih, rfl⟩⟩

/-- The request of a reader that names no ledger. -/
def crowdedRequest : EventRequest where
  origin := .startLedger 900
  registry := []
  asset := sampleContract 3
  limit := HISTORY_PAGE_LIMIT

/-- The first answer of the crowded ledger. -/
def crowdedPage (n : Nat) : EventsPage where
  events := (crowdedEvents n).take HISTORY_PAGE_LIMIT
  cursor := cursorText (stopOf crowdedLedger HISTORY_PAGE_LIMIT (crowdedEvents n))
  oldestLedger := 900
  latestLedger := crowdedLedger

theorem getEvents_crowded {n : Nat} (h : n ≤ 2 ^ 20) :
    (crowdedClient n).getEvents 0 crowdedRequest = some (crowdedPage n) := by
  have hall : pending (crowdedEvents n) crowdedRequest = crowdedEvents n := by
    refine List.filter_eq_self.mpr fun event hevent => decide_eq_true ?_
    rw [← (matchingEvents_crowded h).ledger event hevent]
    obtain ⟨i, -, rfl⟩ := List.mem_map.mp hevent
    exact (by decide : 900 ≤ crowdedLedger)
  have hasked : 0 < crowdedRequest.limit ∧
      crowdedRequest.origin.reaches (endPlace crowdedLedger) := ⟨by decide, by decide⟩
  unfold crowdedClient endpoint
  dsimp only
  rw [if_pos hasked, hall]
  rfl

/-- Its cursor names the ledger, wherever it stopped. -/
theorem ledgerOfEventCursor_crowded {n : Nat} (h : n ≤ 2 ^ 20) :
    ledgerOfEventCursor (crowdedPage n).cursor = some crowdedLedger := by
  rw [crowdedPage, ledgerOfEventCursor_cursorText, stopOf]
  split
  · rename_i event hevent
    have hmem := List.mem_of_getElem? hevent
    rw [← (matchingEvents_crowded h).ledger event hmem]
    obtain ⟨i, -, rfl⟩ := List.mem_map.mp hmem
    rfl
  · rfl

theorem followCursors_crowded {n : Nat} (h : n ≤ 2 ^ 20) :
    followCursors (Text.ofString "ASSET") crowdedRequest 1 [] (.startLedger 900)
        (crowdedClient n) 0 =
      .ok (some {
        attestations := List.replicate (min n HISTORY_PAGE_LIMIT) crowdedAttestation
        page := crowdedPage n
        coversTheWholeRange := true }, 1) := by
  have hfound : attestationsOf (fun _ => []) (Text.ofString "ASSET") (crowdedPage n).events =
      .ok (List.replicate (min n HISTORY_PAGE_LIMIT) crowdedAttestation) := by
    rw [crowdedPage, crowdedEvents, ← List.map_take, attestationsOf_crowded, List.length_take,
      List.length_range, Nat.min_comm]
  rw [followCursors]
  refine Tx.bind_eq_ok.mpr ⟨_, _, getEvents_eq_ok.mpr ⟨getEvents_crowded h, rfl⟩,
    Tx.bind_eq_ok.mpr ⟨_, _, rfl, Tx.bind_eq_ok.mpr ⟨_, _, Tx.lift_eq_ok.mpr ⟨hfound, rfl⟩, ?_⟩⟩⟩
  have hreached : crowdedLedger ≥ (crowdedPage n).latestLedger := le_refl crowdedLedger
  rw [ledgerOfEventCursor_crowded h]
  dsimp only
  rw [if_pos hreached]
  rfl

/-- The reader takes the first page of the ledger for all of it. -/
theorem readAttestationHistory_crowded {n : Nat} (h : n ≤ 2 ^ 20) :
    readAttestationHistory 1 [] (Text.ofString "ASSET") none (crowdedClient n) 0 =
      .ok (some (crowdedHistory n), 1) := by
  have hsorted : (List.replicate (min n HISTORY_PAGE_LIMIT) crowdedAttestation).mergeSort
      (fun left right => left.ledger ≤ right.ledger) =
        List.replicate (min n HISTORY_PAGE_LIMIT) crowdedAttestation := by
    exact List.mergeSort_of_pairwise (List.pairwise_replicate.mpr (.inr (by decide)))
  refine Tx.bind_eq_ok.mpr ⟨_, _, rfl, Tx.bind_eq_ok.mpr ⟨_, _, rfl, Tx.bind_eq_ok.mpr ⟨_, _, rfl,
    Tx.bind_eq_ok.mpr ⟨_, _, rfl, Tx.bind_eq_ok.mpr ⟨_, _, followCursors_crowded h, ?_⟩⟩⟩⟩⟩
  rw [Option.map_some, hsorted]
  rfl

/-- Two events in the latest ledger fit into one answer, and both sides hold. -/
theorem history_covers_iff_two :
    CoversRange (fun _ => []) (Text.ofString "ASSET") (crowdedEvents 2) (crowdedHistory 2) ↔
      ∀ k < 1, ∀ page, answerAt (crowdedClient 2) crowdedRequest k = some page →
        ¬ StopsInside (crowdedEvents 2) 900 page :=
  history_covers_iff (matchingEvents_crowded (by decide)) rfl (serves_crowded (by decide))
    (readAttestationHistory_crowded (by decide)) rfl

/-- **One event more than an answer holds**: the reader reports a covered range, and
misses that event. -/
theorem not_covers_crowded :
    MatchingEvents (Text.ofString "ASSET") (crowdedEvents 201) ∧
      ServesEvents [] (sampleContract 3) (crowdedEvents 201) (crowdedClient 201) ∧
      readAttestationHistory 1 [] (Text.ofString "ASSET") none (crowdedClient 201) 0 =
        .ok (some (crowdedHistory 201), 1) ∧
      (crowdedHistory 201).coversTheWholeRange = true ∧
      ¬ CoversRange (fun _ => []) (Text.ofString "ASSET") (crowdedEvents 201)
        (crowdedHistory 201) := by
  refine ⟨matchingEvents_crowded (by decide), serves_crowded (by decide),
    readAttestationHistory_crowded (by decide), rfl, fun hcovers => ?_⟩
  have hall : (crowdedEvents 201).filter (fun event => inLedgers 900 crowdedLedger event.ledger) =
      crowdedEvents 201 :=
    List.filter_eq_self.mpr (List.forall_mem_map.mpr fun _ _ => rfl)
  have hlength := hcovers.complete.length_eq
  change ((crowdedEvents 201).filter fun event =>
    inLedgers 900 crowdedLedger event.ledger).length = _ at hlength
  rw [hall, crowdedEvents, List.length_map, List.length_range] at hlength
  have hshort := List.length_filter_le (fun attestation : AttestationEvent =>
    inLedgers 900 crowdedLedger attestation.ledger) (crowdedHistory 201).attestations
  have hpage : (crowdedHistory 201).attestations.length = 200 := List.length_replicate
  change 201 = ((crowdedHistory 201).attestations.filter fun attestation =>
    inLedgers 900 crowdedLedger attestation.ledger).length at hlength
  omega

end ZkPoR.Sdk
