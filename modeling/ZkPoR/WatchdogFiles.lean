import ZkPoR.Interruption
import ZkPoR.SdkInclusion
import ZkPoR.WatchdogRecord

/-! # The watchdog and its files

`runWatchdog` as a program over the state directory of one check, one file operation
at a time.  The network, the delivered packages, the name of a temporary file and the
transaction that is built come from outside: each is a question, and its answer is any
value of its type, or an exception.

A file operation can fail.  A write that fails may have written a part of its text, and
every other operation that fails changes nothing.
-/
namespace ZkPoR.WatchdogFiles
open CheckedInt JsonText JavaScript Binary64 HexText Interruption
open Watchdog (StateStatus disputeTargetMaxAgeLedgers watchdogDeliveryGraceLedgers)

/-! ## The state directory -/

def SECRET_FILE_MODE : Nat := 0o600
def PRIVATE_DIRECTORY_MODE : Nat := 0o700

/-- The permissions of the group and of the others. -/
def isPrivate (mode : Nat) : Bool := mode &&& 0o077 = 0

theorem isPrivate_secretFileMode : isPrivate SECRET_FILE_MODE = true := by decide

structure File where
  isFile : Bool
  mode : Nat
  text : String
deriving DecidableEq

/-- A new file of the watchdog. -/
def created (text : String) : File := ⟨true, SECRET_FILE_MODE, text⟩

/-- The mode of the directory of the check, and the files in it by name. -/
structure Store where
  directory : Option Nat
  files : String → Option File

def Store.put (s : Store) (name : String) (file : Option File) : Store :=
  { s with files := Function.update s.files name file }

@[simp] theorem Store.files_put_same (s : Store) (name : String) (file : Option File) :
    (s.put name file).files name = file := Function.update_self _ _ _

theorem Store.files_put_of_ne (s : Store) {name other : String} (file : Option File)
    (h : other ≠ name) : (s.put name file).files other = s.files other :=
  Function.update_of_ne h _ _

/-- `${targetId}.json` -/
def stateName (targetId : Nat) : String := decimalText targetId ++ ".json"

/-- `${path}.${process.pid}.${randomUUID()}.tmp` -/
def temporaryName (path : String) (pid : Nat) (uuid : String) : String :=
  path ++ "." ++ decimalText pid ++ "." ++ uuid ++ ".tmp"

/-! ## Operations -/

/-- The `code` of an error of the file system. -/
inductive IoCode
  | EEXIST
  | ENOENT
  | other
deriving DecidableEq

/-- What a run throws. -/
inductive Thrown
  | io (code : IoCode)
  | state (error : StateError)
  | infrastructure (message : String)
  | disputeInput (message : String)
  | range (message : String)
  | package (error : Sdk.PackageError)
  | deployments (error : DeploymentsError)
  | identity (reason : String)
  /-- Thrown by what a question asks. -/
  | outside

inductive TransactionStatus
  | SUCCESS
  | FAILED
  | NOT_FOUND
deriving DecidableEq

structure Transaction where
  status : TransactionStatus
  latestLedgerCloseTime : Int

/-- What a run asks outside of its state directory. -/
inductive Question
  | verifyInclusion (packageText : String)
  /-- The count of `readStoredAttestationHistory`. -/
  | totalCount
  | latestLedger
  | storedAttestation (targetId : Nat)
  | readPackage (targetId : Nat)
  /-- Whether `readStoredDispute` finds a dispute. -/
  | storedDispute (targetId : Nat)
  | getTransaction (hash : Text)
  | getAccount
  /-- `process.pid` and `randomUUID`. -/
  | temporary
  /-- The hash and the expiry of the signed transaction of `submit`. -/
  | prepare (targetId : Nat)
  | sendAndSettle (hash : Text)

/-- A string of JavaScript. -/
abbrev JsString := { text : Text // text.Normal }

def Reply : Question → Type
  | .verifyInclusion _ => Sdk.Verdict
  | .totalCount => Nat
  | .latestLedger => Nat
  | .storedAttestation _ => Option Sdk.StoredAttestation
  | .readPackage _ => String
  | .storedDispute _ => Bool
  | .getTransaction _ => Transaction
  | .getAccount => Unit
  | .temporary => Nat × String
  | .prepare _ => U256 × Double
  | .sendAndSettle _ => JsString

inductive Op
  | mkdir
  | stat
  | lstat (name : String)
  | readFile (name : String)
  /-- `open` with the flag `wx`. -/
  | create (name : String)
  | write (name text : String)
  | sync (name : String)
  | close (name : String)
  | rename (old new : String)
  | openDirectory
  | syncDirectory
  | closeDirectory
  | ask (question : Question)

def Answer : Op → Type
  | .stat => Nat
  | .lstat _ => Bool × Nat
  | .readFile _ => String
  | .ask question => Reply question
  | _ => Unit

/-- The operation leaves the files as they are. -/
def Same {α : Type} (s s' : Store) (answer : Except Thrown α) : Prop :=
  s' = s ∧ ∀ e, answer = .error e → e = .io .other

/-- The operation reads a file, when there is one. -/
def Reads {α : Type} (s s' : Store) (name : String) (get : File → α) (answer : Except Thrown α) :
    Prop :=
  s' = s ∧
    match answer with
    | .ok a => ∃ file, s.files name = some file ∧ a = get file
    | .error e => e = .io .ENOENT ∧ s.files name = none ∨ e = .io .other

/-- What an operation does. -/
def does : (o : Op) → Store → Except Thrown (Answer o) → Store → Prop
  | .mkdir, s, answer, s' =>
    match answer with
    | .ok () => s' = { s with directory := s.directory.or (some PRIVATE_DIRECTORY_MODE) }
    | .error e => s' = s ∧ e = .io .other
  | .stat, s, answer, s' =>
    s' = s ∧
      match answer with
      | .ok mode => s.directory = some mode
      | .error e => e = .io .ENOENT ∧ s.directory = none ∨ e = .io .other
  | .lstat name, s, answer, s' => Reads s s' name (fun file => (file.isFile, file.mode)) answer
  | .readFile name, s, answer, s' => Reads s s' name File.text answer
  | .create name, s, answer, s' =>
    match answer with
    | .ok () => s.files name = none ∧ s' = s.put name (some (created ""))
    | .error e => s' = s ∧ (e = .io .EEXIST ∧ s.files name ≠ none ∨ e = .io .other)
  | .write name text, s, answer, s' =>
    -- the handle is that of the file, which is still under its name
    ∃ file, s.files name = some file ∧
      match answer with
      | .ok () => s' = s.put name (some { file with text })
      | .error e => e = .io .other ∧
          ∃ left, CutOff text left ∧ s' = s.put name (some { file with text := left })
  | .rename old new, s, answer, s' =>
    match answer with
    -- whatever stood under the new name is gone
    | .ok () => ∃ file, s.files old = some file ∧ s' = (s.put old none).put new (some file)
    | .error e => s' = s ∧ e = .io .other
  | .ask _, s, answer, s' => s' = s ∧ ∀ e, answer = .error e → e = .outside ∨ ∃ code, e = .io code
  | .sync _, s, answer, s' => Same s s' answer
  | .close _, s, answer, s' => Same s s' answer
  | .openDirectory, s, answer, s' => Same s s' answer
  | .syncDirectory, s, answer, s' => Same s s' answer
  | .closeDirectory, s, answer, s' => Same s s' answer

/-- The file system and the world around the watchdog. -/
abbrev fileSystem : Interface Thrown := ⟨Op, Answer, Store, does⟩

abbrev Program (α : Type) := Prog fileSystem α

def perform (o : Op) : Program (Answer o) := Prog.perform (I := fileSystem) o

def ask (question : Question) : Program (Reply question) := perform (.ask question)

/-- Whether the registry holds a dispute of the identifier for the target. -/
def readStoredDispute (targetId : Nat) : Program Bool := ask (.storedDispute targetId)

/-- What `submit` does before its callback. -/
def prepareDispute (targetId : Nat) : Program (U256 × Double) := ask (.prepare targetId)

def sendAndSettle (hash : Text) : Program JsString := ask (.sendAndSettle hash)

def readTotalCount : Program Nat := ask .totalCount

def latestLedger : Program Nat := ask .latestLedger

def throw {α : Type} (e : Thrown) : Program α := Prog.throw e

def infrastructure {α : Type} (message : String) : Program α := throw (.infrastructure message)

/-! ## The state files -/

def syncDirectory : Program Unit := do
  perform .openDirectory
  Prog.finish (perform .syncDirectory) (perform .closeDirectory)

section
variable (otherNumber : Double → String)

/-- What both routines do with a file that they created. -/
def fill (name : String) (record : StateRecord) : Program Unit :=
  Prog.finish (do perform (.write name (stateText otherNumber record)); perform (.sync name))
    (perform (.close name))

def createState (path : String) (record : StateRecord) : Program Bool :=
  (perform (.create path)).after fun
    -- another run was first, which is no failure
    | .error (.io .EEXIST) => pure false
    | .error _ => infrastructure "the watchdog cannot create its state"
    | .ok () => do
      fill otherNumber path record
      syncDirectory
      return true

/-- The part of `replaceState` after the name of the temporary file. -/
def replaceBy (temporary path : String) (record : StateRecord) : Program Unit := do
  perform (.create temporary)
  fill otherNumber temporary record
  perform (.rename temporary path)
  syncDirectory

def replaceState (path : String) (record : StateRecord) : Program Unit := do
  let name ← ask .temporary
  replaceBy otherNumber (temporaryName path name.1 name.2) path record

end

/-- The part of `readState` after the check of the file. -/
def readText (path : String) (expected : StateRecord) : Program (Option StateRecord) :=
  (perform (.readFile path)).after fun
    | .error (.io .ENOENT) => pure none
    | .error _ => infrastructure "the watchdog cannot read its state"
    | .ok text => Prog.ofExcept (((parseState text expected).map some).mapError .state)

/-- The part of `readState` that looks at what `lstat` found. -/
def readPrivate (path : String) (expected : StateRecord) (details : Bool × Nat) :
    Program (Option StateRecord) :=
  if details.1 ∧ isPrivate details.2 then readText path expected else throw (.state .notPrivate)

def readState (path : String) (expected : StateRecord) : Program (Option StateRecord) :=
  (perform (.lstat path)).after fun
    | .error (.io .ENOENT) => pure none
    | .error _ => infrastructure "the watchdog cannot inspect its state"
    | .ok details => readPrivate path expected details

/-! ## The checks of the old package -/

/-- What comes from libraries; `otherNumber` writes the numbers that are not small
natural numbers. -/
structure Library where
  primitives : Sdk.Primitives
  poseidon2 : List Fr → Fr
  otherNumber : Double → String

structure Input where
  network : Text
  deploymentsText : String
  oldPackageText : String
  identityText : String
  deliveryGraceLedgers : Option Double

def graceOf (value : Option Double) : Except Thrown Nat :=
  let refused : Except Thrown Nat := .error (.range
    s!"the package delivery grace must be 1 through {disputeTargetMaxAgeLedgers - 1} ledgers")
  match value with
  | none => .ok watchdogDeliveryGraceLedgers
  | some value =>
    match value.toInt? with
    | none => refused
    | some grace =>
      if grace < 1 ∨ disputeTargetMaxAgeLedgers ≤ grace then refused else .ok grace.toNat

def require (p : Prop) [Decidable p] (e : Thrown) : Except Thrown Unit :=
  if p then .ok () else .error e

/-- The deployments file names the registry of the old package. -/
def requireTrusted (input : Input) (old : Sdk.InclusionPackage) : Except Thrown Unit := do
  let untrusted : Thrown :=
    .infrastructure "the old package does not name a trusted registry on this network"
  require (old.network = input.network) untrusted
  let generation ← (Sdk.findGeneration input.deploymentsText old.network old.registry).mapError
    .deployments
  require (generation.isSome = true) untrusted

/-- The checks of a run before its first question. -/
def checkInput (lib : Library) (input : Input) : Except Thrown (Nat × Sdk.InclusionPackage) := do
  let grace ← graceOf input.deliveryGraceLedgers
  let old ← (Sdk.parsePackage lib.poseidon2 input.oldPackageText).mapError .package
  requireTrusted input old
  let ownership ← (Sdk.checkOwnIdentifier lib.primitives old input.identityText).mapError .identity
  require (ownership = .own)
    (.disputeInput "the old package does not match the private identity")
  return (grace, old)

/-- The field `kind` of a verdict. -/
def kindOf : Sdk.Verdict → String
  | .included _ => "included"
  | .refused (.unsupportedFormat _) => "unsupported-format"
  | .refused (.malformed _) => "malformed"
  | .refused (.untrustedDeployment _ _ _) => "untrusted-deployment"
  | .refused (.invalidDeployments _) => "invalid-deployments"
  | .refused (.noMatchingAttestation _) => "no-matching-attestation"
  | .refused (.rootMismatch _ _) => "root-mismatch"
  | .refused .foreignIdentifier => "foreign-identifier"
  | .refused .unsupportedIdentifierRule => "unsupported-identifier-rule"
  | .refused (.invalidIdentity _) => "invalid-identity"

/-- The package is included, and the identity is its own. -/
def isConfirmed : Sdk.Verdict → Bool
  | .included report => report.identityConfirmed
  | .refused _ => false

def requireOldInclusion (input : Input) : Program Unit := do
  let verdict ← ask (.verifyInclusion input.oldPackageText)
  if isConfirmed verdict then return ()
  else infrastructure s!"the old package did not pass inclusion: {kindOf verdict}"

def stateDirectory : Program Unit := do
  perform .mkdir
  let mode ← perform .stat
  if isPrivate mode then return ()
  else infrastructure "the watchdog state directory must be private to its owner"

/-! ## One target -/

/-- `WatchdogCoreOutcome` -/
inductive CoreOutcome
  | noNewAttestation
  | waiting (targetId : Nat) (deliveryDeadline : Int) (currentLedger : Nat)
  | delivered (targetId : Nat)
  | opened (targetId : Nat) (transactionHash : Text)
  | existing (targetId : Nat)
  | pending (targetId : Nat) (transactionHash : Text) (transactionStatus : TransactionStatus)
  | expired (targetId currentLedger : Nat)

structure Outcome where
  core : CoreOutcome
  skippedExpiredTargetId : Option Nat

/-- What a run knows once the loop starts. -/
structure Session where
  lib : Library
  input : Input
  old : Sdk.InclusionPackage
  grace : Nat
  currentLedger : Nat

/-- What the loop carries from one target to the next. -/
structure Pass where
  lastDelivered : Option Nat
  firstExpired : Option Nat

def Pass.delivered (pass : Pass) (targetId : Nat) : Pass :=
  { pass with lastDelivered := some targetId }

def Pass.expired (pass : Pass) (targetId : Nat) : Pass :=
  { pass with firstExpired := pass.firstExpired.or (some targetId) }

/-- The loop goes on, or the run returns. -/
inductive Next
  | go (pass : Pass)
  | stop (outcome : Outcome)

/-- `return withExpired(outcome, firstExpired)` -/
def withExpired (core : CoreOutcome) (pass : Pass) : Next := .stop ⟨core, pass.firstExpired⟩

def packageText (targetId : Nat) : Program (Option String) :=
  (ask (.readPackage targetId)).after fun
    | .error (.io .ENOENT) => pure none
    | .error _ => infrastructure "the watchdog cannot read a delivered package"
    | .ok text => pure (some text)

section Target
variable (session : Session) (targetId : Nat)

def Session.recordOf (status : StateStatus) : StateRecord :=
  WatchdogFiles.recordOf session.input.network session.old session.grace targetId status none none

/-- The package is that of the old one for the target. -/
def Session.matchesTarget (entry : Sdk.InclusionPackage) : Bool :=
  entry.network = session.old.network && entry.registry = session.old.registry &&
    entry.asset = session.old.asset && entry.attestationId = targetId &&
    entry.id = session.old.id

def ownPackageForTarget : Program Bool := do
  let text ← packageText targetId
  match text with
  | none => return false
  | some text => do
    let verdict ← ask (.verifyInclusion text)
    if isConfirmed verdict then do
      let entry ← Prog.ofExcept ((Sdk.parsePackage session.lib.poseidon2 text).mapError .package)
      return session.matchesTarget targetId entry
    else return false

/-- The ways in which the loop stores a record: in place of the pending one, or as the
first one of the target. -/
def storeState (retry : Bool) (record : StateRecord) : Program Unit :=
  if retry then replaceState session.lib.otherNumber (stateName targetId) record
  else do
    let stored ← createState session.lib.otherNumber (stateName targetId) record
    if stored then return ()
    else infrastructure "another watchdog run changed the target state"

/-- What the answer for the pending transaction means; none stands for a retry.  The
expiry is a safe integer. -/
def settledOutcome (hash : Text) (maxTime : Double) (transaction : Transaction) :
    Program (Option CoreOutcome) :=
  match transaction.status with
  | .FAILED => return none
  | .NOT_FOUND =>
    -- an expired transaction that the network does not know cannot land any more
    if maxTime.toInt?.any (· < transaction.latestLedgerCloseTime) then return none
    else return some (.pending targetId hash .NOT_FOUND)
  | .SUCCESS => infrastructure "the settled dispute transaction has no fixed dispute record"

def pendingOutcome (record : StateRecord) : Program (Option CoreOutcome) := do
  let dispute ← readStoredDispute targetId
  if dispute then do
    replaceState session.lib.otherNumber (stateName targetId) { record with status := .disputed }
    return some (.existing targetId)
  else
    match record.transactionHash, record.maxTime with
    | some hash, some maxTime => do
      let transaction ← Prog.handle (ask (.getTransaction hash)) fun _ =>
        infrastructure "the watchdog cannot read its pending transaction"
      settledOutcome targetId hash maxTime transaction
    | _, _ => infrastructure "the pending watchdog state has no transaction identity"

/-- The hash of a transaction as `toString("hex")` writes it. -/
def hashText (hash : U256) : Text := Text.ofString (String.ofList (hexOf (toBeBytes hash)))

/-- The callback `beforeSend`. -/
def beforeSend (retry : Bool) (hash : U256) (maxTime : Double) : Program Unit :=
  storeState session targetId retry
    (recordOf session.input.network session.old session.grace targetId .pending
      (some (hashText hash)) (some maxTime))

/-- `openDispute` with the callback, from the building of the transaction on. -/
def openDispute (retry : Bool) : Program JsString := do
  let ready ← prepareDispute targetId
  if isExpiry ready.2 then do
    beforeSend session targetId retry ready.1 ready.2
    sendAndSettle (hashText ready.1)
  else infrastructure "the dispute transaction has no bounded expiry"

/-- The last part of the loop: the run opens the dispute, and returns. -/
def sendDispute (retry : Bool) (pass : Pass) : Program Next := do
  let _ ← Prog.handle (ask .getAccount) fun _ =>
    infrastructure "the watchdog cannot read the disputer account"
  let hash ← openDispute session targetId retry
  let dispute ← readStoredDispute targetId
  if dispute then do
    replaceState session.lib.otherNumber (stateName targetId)
      (recordOf session.input.network session.old session.grace targetId .disputed
        (some hash.val) none)
    return withExpired (.opened targetId hash.val) pass
  else infrastructure "the settled dispute transaction has no fixed dispute record"

/-- The part of the loop after the expiry of the target was ruled out. -/
def disputeTarget (retry : Bool) (pass : Pass) : Program Next := do
  let existing ← readStoredDispute targetId
  if existing then do
    storeState session targetId retry (session.recordOf targetId .disputed)
    return withExpired (.existing targetId) pass
  else sendDispute session targetId retry pass

/-- The part of the loop for a target without a package. -/
def missingPackage (retry : Bool) (pass : Pass) (attestedLedger : Int) : Program Next :=
  if session.currentLedger < attestedLedger + session.grace then
    return withExpired
      (.waiting targetId (attestedLedger + session.grace) session.currentLedger) pass
  else if session.currentLedger - attestedLedger > disputeTargetMaxAgeLedgers then do
    storeState session targetId retry (session.recordOf targetId .expired)
    return .go (pass.expired targetId)
  else disputeTarget session targetId retry pass

/-- The part of the loop for a target without an outcome. -/
def processTarget (retry : Bool) (pass : Pass) : Program Next := do
  let target ← ask (.storedAttestation targetId)
  match target with
  | none => infrastructure "the attestation count includes a missing target"
  | some attestation => do
    let own ← ownPackageForTarget session targetId
    if own then do
      storeState session targetId retry (session.recordOf targetId .delivered)
      return .go (pass.delivered targetId)
    else missingPackage session targetId retry pass attestation.attestedLedger

def resumeTarget (record : StateRecord) (pass : Pass) : Program Next := do
  let pending ← pendingOutcome session targetId record
  match pending with
  | some core => return withExpired core pass
  | none => processTarget session targetId true pass

/-- One iteration of the loop. -/
def runTarget (pass : Pass) : Program Next := do
  let state ← readState (stateName targetId) (session.recordOf targetId .delivered)
  match state with
  | none => processTarget session targetId false pass
  | some record =>
    match record.status with
    | .delivered => return .go (pass.delivered targetId)
    | .disputed => return .go pass
    | .expired => return .go (pass.expired targetId)
    | .pending => resumeTarget session targetId record pass

end Target

/-! ## The run -/

/-- The outcome after the last target. -/
def finalOutcome (currentLedger : Nat) (pass : Pass) : Outcome :=
  match pass.firstExpired, pass.lastDelivered with
  | some targetId, _ => ⟨.expired targetId currentLedger, none⟩
  | none, none => ⟨.noNewAttestation, none⟩
  | none, some targetId => ⟨.delivered targetId, none⟩

/-- The loop over the targets that remain. -/
def runTargets (session : Session) : Nat → Nat → Pass → Program Outcome
  | 0, _, pass => return finalOutcome session.currentLedger pass
  | remaining + 1, targetId, pass => do
    let next ← runTarget session targetId pass
    match next with
    | .go pass => runTargets session remaining (targetId + 1) pass
    | .stop outcome => return outcome

/-- The part of a run after the checks of its input. -/
def runChecked (lib : Library) (input : Input) (grace : Nat) (old : Sdk.InclusionPackage) :
    Program Outcome := do
  requireOldInclusion input
  if Sdk.MAX_U64 ≤ old.attestationId then
    throw (.range "the old attestation ID has no following u64 ID")
  else do
    stateDirectory
    let totalCount ← readTotalCount
    if totalCount ≤ old.attestationId then return ⟨.noNewAttestation, none⟩
    else do
      let currentLedger ← latestLedger
      runTargets ⟨lib, input, old, grace, currentLedger⟩ (totalCount - old.attestationId)
        (old.attestationId + 1) ⟨none, none⟩

def runWatchdog (lib : Library) (input : Input) : Program Outcome := do
  let checked ← Prog.ofExcept (checkInput lib input)
  runChecked lib input checked.1 checked.2

end ZkPoR.WatchdogFiles
