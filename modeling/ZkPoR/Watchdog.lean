import Mathlib.Logic.Function.Basic
import ZkPoR.TransitionSystem

/-! # The watchdog

`runWatchdog` looks at every attestation after the one of the customer's old package,
and opens a dispute where no package of the customer was delivered in time.  A
state directory holds one file for each target, so that a run knows what earlier
runs did; the model has one step of a run for each of its awaits, any number of runs
on one directory and one identity, and a ledger that moves between any two steps.

At every await a run can stop by an exception, after the awaited operation took
effect or before.  A created file can then be left incomplete, and a replaced one
not, because the replacement is a rename.

`Current` is the condition on which the protocol of the state file rests: a run that
replaces a record, or that sends, finds the record that it last read or wrote.
-/
namespace ZkPoR
namespace Watchdog
open TransitionSystem

abbrev RunId := Nat
abbrev Hash := Nat

section Model

/-- `DISPUTE_TARGET_MAX_AGE_LEDGERS` -/
def disputeTargetMaxAgeLedgers : Nat := 518400

/-- `WATCHDOG_DELIVERY_GRACE_LEDGERS` -/
def watchdogDeliveryGraceLedgers : Nat := 51840

/-- `graceOf`, with the `RangeError` as none. -/
def graceOf (value : Option Int) : Option Nat :=
  let grace := value.getD watchdogDeliveryGraceLedgers
  if grace < 1 ∨ disputeTargetMaxAgeLedgers ≤ grace then none else some grace.toNat

inductive StateStatus
  | delivered | disputed | pending | expired
  deriving DecidableEq

/-- A state record, without the fields that name the identity and the target: the
directory is named by the first, and the file by the second. -/
structure StateRecord where
  graceLedgers : Nat
  status : StateStatus
  transactionHash : Option Hash
  maxTime : Option Nat
  deriving DecidableEq

/-- A file of the state directory. -/
inductive File
  | absent
  /-- Incomplete, or of another check, or open to others. -/
  | unreadable
  | record (r : StateRecord)
  deriving DecidableEq

/-- `readState`: nothing without a file, and none where it throws. -/
def readState (file : File) (grace : Nat) : Option (Option StateRecord) :=
  match file with
  | .absent => some none
  | .unreadable => none
  | .record r =>
    if r.graceLedgers ≠ grace then none
    else if r.status = .pending ∧ (r.transactionHash = none ∨ r.maxTime = none) then none
    else some (some r)

inductive TxStatus
  | unseen | applied | failed
  deriving DecidableEq

/-- The answer of `getTransaction`. -/
inductive TxAnswer
  | notFound | success | failed
  deriving DecidableEq

/-- The ledger, and what a reader of it sees. -/
structure Chain where
  ledger : Nat
  closeTime : Nat
  /-- The number of attestations. -/
  total : Nat
  /-- The ledger at which an attestation was accepted. -/
  attestedLedger : Nat → Option Nat
  /-- The registry holds a dispute of the identifier for the target. -/
  disputed : Nat → Bool
  txs : Hash → TxStatus
  /-- The server keeps the outcome of a transaction for a while only. -/
  forgotten : Hash → Bool

def Chain.getTransaction (c : Chain) (h : Hash) : TxAnswer :=
  if c.forgotten h then .notFound
  else match c.txs h with
    | .unseen => .notFound
    | .applied => .success
    | .failed => .failed

/-- `WatchdogCoreOutcome` -/
inductive CoreOutcome
  | noNewAttestation
  | waiting (targetId deliveryDeadline currentLedger : Nat)
  | delivered (targetId : Nat)
  | opened (targetId : Nat) (transactionHash : Hash)
  | existing (targetId : Nat)
  | pending (targetId : Nat) (transactionHash : Hash)
  | expired (targetId currentLedger : Nat)
  deriving DecidableEq

structure Outcome where
  core : CoreOutcome
  skippedExpiredTargetId : Option Nat
  deriving DecidableEq

/-- What a run knows in its loop. -/
structure Pass where
  grace : Nat
  total : Nat
  currentLedger : Nat
  target : Nat
  lastDelivered : Option Nat
  firstExpired : Option Nat
  deriving DecidableEq

/-- A target for which no outcome is stored.  `retry` is the pending record that the
run found, none when there was no record. -/
structure Attempt where
  pass : Pass
  retry : Option StateRecord
  attested : Nat
  deriving DecidableEq

/-- Where a run stands, between two awaits. -/
inductive Point
  | idle
  /-- The checks of the old package. -/
  | checking (grace : Nat)
  | history (grace : Nat)
  | ledger (grace total : Nat)
  | reading (p : Pass)
  /-- `pendingOutcome` reads the dispute. -/
  | pendingDispute (p : Pass) (record : StateRecord)
  | pendingSettled (p : Pass) (record : StateRecord)
  | pendingTransaction (p : Pass) (record : StateRecord)
  | attestation (p : Pass) (retry : Option StateRecord)
  | package (a : Attempt)
  | delivering (a : Attempt)
  | expiring (a : Attempt)
  | dispute (a : Attempt)
  | disputing (a : Attempt)
  | account (a : Attempt)
  /-- `submit` simulates the transaction, and signs it. -/
  | preparing (a : Attempt)
  /-- The callback `beforeSend`. -/
  | recording (a : Attempt) (hash : Hash)
  | sending (a : Attempt) (hash : Hash)
  | polling (a : Attempt) (hash : Hash)
  | confirming (a : Attempt) (hash : Hash)
  | closing (a : Attempt) (hash : Hash)
  /-- The run returned an outcome, or threw. -/
  | ended (outcome : Option Outcome)
  deriving DecidableEq

/-- What a run read of the ledger. -/
inductive Fact
  | ledger (n : Nat)
  | attested (target n : Nat)
  | noDispute (target : Nat)

structure State where
  files : Nat → File
  chain : Chain
  point : RunId → Point
  /-- The hashes of the pending records that were stored for a target. -/
  recorded : Nat → List Hash
  /-- The hashes that a run found failed, or not found after their expiry. -/
  cleared : Nat → List Hash
  facts : RunId → List Fact
  sent : List (RunId × Nat × Hash)

/-- Whether an awaited operation throws: before it took effect, in the middle of it,
or after. -/
inductive Fault
  | none | before | during | after
  deriving DecidableEq

/-- What a step takes from outside the model: whether the package of the target was
delivered and verified, and the transaction that was built. -/
structure Input where
  fault : Fault
  ownPackage : Bool
  hash : Hash

def State.goto (s : State) (r : RunId) (p : Point) : State :=
  { s with point := Function.update s.point r p }

def State.throw (s : State) (r : RunId) : State := s.goto r (.ended none)

def State.return (s : State) (r : RunId) (core : CoreOutcome) (p : Pass) : State :=
  s.goto r (.ended (some ⟨core, p.firstExpired⟩))

def State.note (s : State) (r : RunId) (f : Fact) : State :=
  { s with facts := Function.update s.facts r (f :: s.facts r) }

/-- The end of the loop. -/
def Pass.final (p : Pass) : Outcome :=
  match p.firstExpired, p.lastDelivered with
  | some target, _ => ⟨.expired target p.currentLedger, none⟩
  | none, none => ⟨.noNewAttestation, none⟩
  | none, some target => ⟨.delivered target, none⟩

/-- The next target of the loop. -/
def Pass.next (p : Pass) : Point :=
  if p.target + 1 ≤ p.total then .reading { p with target := p.target + 1 } else .ended (some p.final)

def Pass.delivered (p : Pass) : Pass := { p with lastDelivered := some p.target }

def Pass.expired (p : Pass) : Pass :=
  { p with firstExpired := p.firstExpired.orElse fun _ => some p.target }

/-- `recordOf`, for a status that carries no transaction. -/
def recordOf (grace : Nat) (status : StateStatus) : StateRecord := ⟨grace, status, none, none⟩

/-- The file after `createState`, when the run found none, or after `replaceState`. -/
def File.store (file : File) (view : Option StateRecord) (n : StateRecord) (fault : Fault) : File :=
  match view, fault with
  | none, .before => file
  | none, .during => if file = .absent then .unreadable else file
  | none, _ => if file = .absent then .record n else file
  | some _, .before | some _, .during => file
  | some _, _ => .record n

/-- The record was stored. -/
def File.stores (file : File) (view : Option StateRecord) (fault : Fault) : Bool :=
  match view, fault with
  | none, .none | none, .after => file = .absent
  | some _, .none | some _, .after => true
  | _, _ => false

/-- Stores a record, and goes on when the call returns.  A file that another run
created stops the run. -/
def State.store (s : State) (r : RunId) (target : Nat) (view : Option StateRecord)
    (n : StateRecord) (fault : Fault) (next : Point) : State :=
  { s with
    files := Function.update s.files target ((s.files target).store view n fault)
    recorded :=
      if (s.files target).stores view fault ∧ n.status = .pending then
        Function.update s.recorded target (n.transactionHash.toList ++ s.recorded target)
      else s.recorded
    point := Function.update s.point r
      (if (s.files target).stores view fault ∧ fault = .none then next else .ended none) }

/-- The expiry of a transaction is a part of it. -/
def pendingRecord (maxTimeOf : Hash → Nat) (grace : Nat) (hash : Hash) : StateRecord :=
  ⟨grace, .pending, some hash, some (maxTimeOf hash)⟩

/-- The step of a run from one await to the next, when the await does not throw. -/
def State.proceed (oldId : Nat) (maxTimeOf : Hash → Nat) (s : State) (r : RunId) (i : Input) :
    State :=
  match s.point r with
  | .idle | .ended _ => s
  | .checking grace => s.goto r (.history grace)
  | .history grace =>
    s.goto r (if s.chain.total ≤ oldId then .ended (some ⟨.noNewAttestation, none⟩)
      else .ledger grace s.chain.total)
  | .ledger grace total =>
    (s.note r (.ledger s.chain.ledger)).goto r
      (.reading ⟨grace, total, s.chain.ledger, oldId + 1, none, none⟩)
  | .reading p =>
    match readState (s.files p.target) p.grace with
    | none => s.throw r
    | some none => s.goto r (.attestation p none)
    | some (some record) =>
      match record.status with
      | .delivered => s.goto r p.delivered.next
      | .disputed => s.goto r p.next
      | .expired => s.goto r p.expired.next
      | .pending => s.goto r (.pendingDispute p record)
  | .pendingDispute p record =>
    s.goto r (if s.chain.disputed p.target then .pendingSettled p record
      else .pendingTransaction p record)
  | .pendingSettled p record =>
    s.store r p.target (some record) { record with status := .disputed } i.fault
      (.ended (some ⟨.existing p.target, p.firstExpired⟩))
  | .pendingTransaction p record =>
    match record.transactionHash, record.maxTime with
    | some hash, some maxTime =>
      match s.chain.getTransaction hash with
      | .success => s.throw r
      | .failed => { s with
          cleared := Function.update s.cleared p.target (hash :: s.cleared p.target)
          point := Function.update s.point r (.attestation p (some record)) }
      | .notFound =>
        if maxTime < s.chain.closeTime then { s with
          cleared := Function.update s.cleared p.target (hash :: s.cleared p.target)
          point := Function.update s.point r (.attestation p (some record)) }
        else s.return r (.pending p.target hash) p
    | _, _ => s.throw r
  | .attestation p retry =>
    match s.chain.attestedLedger p.target with
    | none => s.throw r
    | some attested => (s.note r (.attested p.target attested)).goto r (.package ⟨p, retry, attested⟩)
  | .package a =>
    if i.ownPackage then s.goto r (.delivering a)
    else if a.pass.currentLedger < a.attested + a.pass.grace then
      s.return r (.waiting a.pass.target (a.attested + a.pass.grace) a.pass.currentLedger) a.pass
    else if disputeTargetMaxAgeLedgers < a.pass.currentLedger - a.attested then
      s.goto r (.expiring a)
    else s.goto r (.dispute a)
  | .delivering a =>
    s.store r a.pass.target a.retry (recordOf a.pass.grace .delivered) i.fault a.pass.delivered.next
  | .expiring a =>
    s.store r a.pass.target a.retry (recordOf a.pass.grace .expired) i.fault a.pass.expired.next
  | .dispute a =>
    if s.chain.disputed a.pass.target then s.goto r (.disputing a)
    else (s.note r (.noDispute a.pass.target)).goto r (.account a)
  | .disputing a =>
    s.store r a.pass.target a.retry (recordOf a.pass.grace .disputed) i.fault
      (.ended (some ⟨.existing a.pass.target, a.pass.firstExpired⟩))
  | .account a => s.goto r (.preparing a)
  | .preparing a => s.goto r (.recording a i.hash)
  | .recording a hash =>
    s.store r a.pass.target a.retry (pendingRecord maxTimeOf a.pass.grace hash) i.fault
      (.sending a hash)
  | .sending a hash =>
    { s with
      sent := (r, a.pass.target, hash) :: s.sent
      point := Function.update s.point r
        (if i.fault = .none then .polling a hash else .ended none) }
  | .polling a hash =>
    s.goto r (if s.chain.getTransaction hash = .success then .confirming a hash else .ended none)
  | .confirming a hash =>
    s.goto r (if s.chain.disputed a.pass.target then .closing a hash else .ended none)
  | .closing a hash =>
    s.store r a.pass.target (some (pendingRecord maxTimeOf a.pass.grace hash))
      { recordOf a.pass.grace .disputed with transactionHash := some hash } i.fault
      (.ended (some ⟨.opened a.pass.target hash, a.pass.firstExpired⟩))

/-- The awaits whose operation can take effect although it throws. -/
def Point.Writes : Point → Bool
  | .pendingSettled .. | .delivering _ | .expiring _ | .disputing _ | .recording .. | .sending ..
  | .closing .. => true
  | _ => false

/-- The step of a run, at most up to its next await. -/
def State.advance (oldId : Nat) (maxTimeOf : Hash → Nat) (s : State) (r : RunId) (i : Input) :
    State :=
  if i.fault = .none ∨ ((s.point r).Writes ∧ i.fault ≠ .before) then
    s.proceed oldId maxTimeOf r i
  else match s.point r with
    | .idle => s
    | .ended _ => s
    | _ => s.throw r

inductive Event
  /-- `runWatchdog` is called with a grace. -/
  | begin (r : RunId) (deliveryGraceLedgers : Option Int)
  | step (r : RunId) (i : Input)
  /-- The process of a run dies. -/
  | kill (r : RunId)
  /-- A ledger closes. -/
  | close (ledgers seconds : Nat)
  /-- The ledger takes in a transaction that was sent, before its expiry. -/
  | settle (target : Nat) (hash : Hash) (success : Bool)
  | attest (attestedLedger : Nat)
  /-- Anybody opens a dispute of the identifier. -/
  | open (target : Nat)
  | forget (hash : Hash)

/-- The ledger takes in a transaction. -/
def Chain.settle (c : Chain) (target : Nat) (hash : Hash) (success : Bool) : Chain :=
  { c with
    txs := Function.update c.txs hash (if success then .applied else .failed)
    disputed := if success then Function.update c.disputed target true else c.disputed }

/-- The state after an event. -/
def Event.apply (oldId : Nat) (maxTimeOf : Hash → Nat) : Event → State → State
  | .begin r value, s =>
    match s.point r with
    | .idle =>
      match graceOf value with
      | some grace => s.goto r (.checking grace)
      | none => s.throw r
    | _ => s
  | .step r i, s => s.advance oldId maxTimeOf r i
  | .kill r, s =>
    match s.point r with
    | .idle | .ended _ => s
    | _ => s.throw r
  | .close ledgers seconds, s =>
    { s with chain := { s.chain with
        ledger := s.chain.ledger + ledgers, closeTime := s.chain.closeTime + seconds } }
  | .settle target hash success, s =>
    if (s.sent.any fun sent => sent.2 = (target, hash)) ∧ s.chain.txs hash = .unseen ∧
        s.chain.closeTime ≤ maxTimeOf hash then
      { s with chain := s.chain.settle target hash success }
    else s
  | .attest attestedLedger, s =>
    { s with chain := { s.chain with
        total := s.chain.total + 1
        attestedLedger :=
          Function.update s.chain.attestedLedger (s.chain.total + 1) (some attestedLedger) } }
  | .open target, s =>
    { s with chain := { s.chain with disputed := Function.update s.chain.disputed target true } }
  | .forget hash, s =>
    { s with chain := { s.chain with forgotten := Function.update s.chain.forgotten hash true } }

/-- A pending record names a transaction and its expiry. -/
def StateRecord.Names (maxTimeOf : Hash → Nat) (w : StateRecord) (h : Hash) : Prop :=
  w.status = .pending ∧ w.transactionHash = some h ∧ w.maxTime = some (maxTimeOf h)

/-- The transaction can still land. -/
def Chain.Live (maxTimeOf : Hash → Nat) (c : Chain) (h : Hash) : Prop :=
  c.txs h = .unseen ∧ c.closeTime ≤ maxTimeOf h

/-- No run has begun.  The state directory is what earlier runs left in it: a pending
record names a transaction, and at most one transaction of a target is not known to be
settled, which a record then stands for. -/
structure Initial (maxTimeOf : Hash → Nat) (s : State) : Prop where
  idle : ∀ r, s.point r = .idle
  unsent : s.sent = []
  unread : ∀ r, s.facts r = []
  uncleared : ∀ target, s.cleared target = []
  single : ∀ target, (s.recorded target).length ≤ 1
  stored : ∀ target, ∀ h ∈ s.recorded target, ∃ w, s.files target = .record w ∧
    (w.status = .pending → w.transactionHash = some h)
  names : ∀ target w, s.files target = .record w → w.status = .pending →
    ∃ h, w.Names maxTimeOf h

/-- Runs of the watchdog on one state directory and one identity, whose old package
is of the attestation `oldId`. -/
def watchdog (oldId : Nat) (maxTimeOf : Hash → Nat) : Machine State Event where
  start := Initial maxTimeOf
  apply := Event.apply oldId maxTimeOf

/-- What a run stores next: the target, the record it found there, and the new one. -/
def Point.write (maxTimeOf : Hash → Nat) : Point → Option (Nat × Option StateRecord × StateRecord)
  | .pendingSettled p record => some (p.target, some record, { record with status := .disputed })
  | .delivering a => some (a.pass.target, a.retry, recordOf a.pass.grace .delivered)
  | .expiring a => some (a.pass.target, a.retry, recordOf a.pass.grace .expired)
  | .disputing a => some (a.pass.target, a.retry, recordOf a.pass.grace .disputed)
  | .recording a hash => some (a.pass.target, a.retry, pendingRecord maxTimeOf a.pass.grace hash)
  | .closing a hash => some (a.pass.target, some (pendingRecord maxTimeOf a.pass.grace hash),
      { recordOf a.pass.grace .disputed with transactionHash := some hash })
  | _ => none

/-- The run sends a transaction. -/
def Sends (s : State) (e : Event) (r : RunId) (a : Attempt) (hash : Hash) : Prop :=
  s.point r = .sending a hash ∧ ∃ i, e = .step r i ∧ i.fault ≠ .before

/-- The condition on a step: a run that replaces a record finds the one that it last
read or wrote, or one that already has the terminal status it stores, and a run that
sends finds its own pending record. -/
def Current (maxTimeOf : Hash → Nat) (s : State) (e : Event) : Prop :=
  (∀ r i target view n, e = .step r i →
    (s.point r).write maxTimeOf = some (target, some view, n) →
    i.fault = .none ∨ i.fault = .after →
    s.files target = .record view ∨
      ∃ w, s.files target = .record w ∧ w.status = n.status ∧ n.status ≠ .pending) ∧
  ∀ r a hash, Sends s e r a hash →
    s.files a.pass.target = .record (pendingRecord maxTimeOf a.pass.grace hash)

end Model

section Steps
variable {oldId : Nat} {maxTimeOf : Hash → Nat}

theorem store_files (s : State) (r : RunId) (target : Nat) (view : Option StateRecord)
    (n : StateRecord) (fault : Fault) (next : Point) :
    (s.store r target view n fault next).files =
      Function.update s.files target ((s.files target).store view n fault) := rfl

variable (oldId maxTimeOf) in
/-- What a run does to the files: it stores the record of its point, or nothing. -/
theorem advance_files (s : State) (r : RunId) (i : Input) :
    ((s.advance oldId maxTimeOf r i).files = s.files ∧
      (s.advance oldId maxTimeOf r i).recorded = s.recorded) ∨
    ∃ target view n next, (s.point r).write maxTimeOf = some (target, view, n) ∧
      s.advance oldId maxTimeOf r i = s.store r target view n i.fault next := by
  by_cases hfault : i.fault = .none ∨ ((s.point r).Writes ∧ i.fault ≠ .before)
  · simp only [State.advance, hfault, if_true]
    unfold State.proceed
    cases hpoint : s.point r with
    | pendingSettled p record => exact .inr ⟨_, _, _, _, rfl, rfl⟩
    | delivering a => exact .inr ⟨_, _, _, _, rfl, rfl⟩
    | expiring a => exact .inr ⟨_, _, _, _, rfl, rfl⟩
    | disputing a => exact .inr ⟨_, _, _, _, rfl, rfl⟩
    | recording a hash => exact .inr ⟨_, _, _, _, rfl, rfl⟩
    | closing a hash => exact .inr ⟨_, _, _, _, rfl, rfl⟩
    | reading p =>
      left
      dsimp only
      split
      · exact ⟨rfl, rfl⟩
      · exact ⟨rfl, rfl⟩
      · split <;> exact ⟨rfl, rfl⟩
    | pendingTransaction p record =>
      left
      dsimp only
      split
      · split
        · exact ⟨rfl, rfl⟩
        · exact ⟨rfl, rfl⟩
        · split <;> exact ⟨rfl, rfl⟩
      · exact ⟨rfl, rfl⟩
    | package a =>
      left
      dsimp only
      repeat' split
      all_goals exact ⟨rfl, rfl⟩
    | attestation p retry =>
      left
      dsimp only
      split <;> exact ⟨rfl, rfl⟩
    | dispute a =>
      left
      dsimp only
      split <;> exact ⟨rfl, rfl⟩
    | _ => exact .inl ⟨rfl, rfl⟩
  · left
    simp only [State.advance, hfault, if_false]
    split <;> exact ⟨rfl, rfl⟩

theorem store_point (s : State) (r : RunId) (target : Nat) (view : Option StateRecord)
    (n : StateRecord) (fault : Fault) (next : Point) :
    (s.store r target view n fault next).point r = next ∨
      (s.store r target view n fault next).point r = .ended none := by
  simp only [State.store, Function.update_self]
  split
  · exact .inl rfl
  · exact .inr rfl

/-- A stored record is the new one, or the file is as before, or an incomplete one that
was absent. -/
theorem store_cases (file : File) (view : Option StateRecord) (n : StateRecord) (fault : Fault) :
    (file.store view n fault = .record n ∧ file.stores view fault = true ∧
        (fault = .none ∨ fault = .after) ∧ (view = none → file = .absent)) ∨
      (file.store view n fault = file ∧ file.stores view fault = false) ∨
      (file.store view n fault = .unreadable ∧ file.stores view fault = false ∧
        file = .absent) := by
  cases view with
  | none => by_cases h : file = .absent <;> cases fault <;> simp [File.store, File.stores, h]
  | some view => cases fault <;> simp [File.store, File.stores]

end Steps

end Watchdog
end ZkPoR
