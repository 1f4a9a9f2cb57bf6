import ZkPoR.JsonTruncation
import ZkPoR.SdkPackage
import ZkPoR.Stringify
import ZkPoR.Watchdog

/-! # The state record of the watchdog as a text

`recordOf` and the text that the watchdog stores, and the strict reader of
`readState`.  The reader takes a record of its own check back, also where the line end
behind it is missing (`parseState_record`).  It takes nothing else that a failed write can
leave of the text (`parseState_cutOff`), and so it has no record for an empty text.
-/
namespace ZkPoR.WatchdogFiles
open JsonText JavaScript Binary64 HexText
open Watchdog (StateStatus)

def WATCHDOG_STATE_FORMAT : String := "zkpor-watchdog/1"

/-- `Number.MAX_SAFE_INTEGER` -/
def MAX_SAFE_INTEGER : Nat := 2 ^ 53 - 1

def statusText : StateStatus → String
  | .delivered => "delivered"
  | .disputed => "disputed"
  | .pending => "pending"
  | .expired => "expired"

/-- The fields of a record, without its constant format. -/
structure StateRecord where
  network : Text
  registry : Text
  asset : Text
  identifier : String
  oldAttestationId : String
  graceLedgers : Nat
  targetId : String
  status : StateStatus
  transactionHash : Option Text
  maxTime : Option Double
deriving DecidableEq

/-- `recordOf`.  The range check of `toHex` holds of every identifier of a package. -/
def recordOf (network : Text) (old : Sdk.InclusionPackage) (grace targetId : Nat)
    (status : StateStatus) (transactionHash : Option Text) (maxTime : Option Double) :
    StateRecord where
  network
  registry := old.registry
  asset := old.asset
  identifier := hexText (BitVec.ofNat 256 old.id)
  oldAttestationId := decimalText old.attestationId
  graceLedgers := grace
  targetId := decimalText targetId
  status
  transactionHash
  maxTime

def StateRecord.properties (record : StateRecord) : List (String × Scalar) :=
  [("format", .string (Text.ofString WATCHDOG_STATE_FORMAT)), ("network", .string record.network),
      ("registry", .string record.registry), ("asset", .string record.asset),
      ("identifier", .string (Text.ofString record.identifier)),
      ("oldAttestationId", .string (Text.ofString record.oldAttestationId)),
      ("graceLedgers", .number (ofNat record.graceLedgers)),
      ("targetId", .string (Text.ofString record.targetId)),
      ("status", .string (Text.ofString (statusText record.status)))] ++
    (record.transactionHash.map fun hash => ("transactionHash", Scalar.string hash)).toList ++
    (record.maxTime.map fun maxTime => ("maxTime", Scalar.number maxTime)).toList

/-- What `createState` and `replaceState` write. -/
def stateText (otherNumber : Double → String) (record : StateRecord) : String :=
  stringify otherNumber record.properties ++ "\n"

/-- The text holds the whole record: it is what the watchdog writes, or all of it but the
line end. -/
def HoldsRecord (otherNumber : Double → String) (record : StateRecord) (text : String) : Prop :=
  text = stateText otherNumber record ∨ text ++ "\n" = stateText otherNumber record

/-! ## The strict reader -/

/-- What `readState` throws, apart from failures of the file system. -/
inductive StateError
  | notPrivate
  | notJson
  | differentCheck
  | unsupportedStatus
  | noTransactionHash
  | noBoundedExpiry
  | invalidHash
deriving DecidableEq

def StateError.message : StateError → String
  | .notPrivate => "the watchdog state file must be private to its owner"
  | .notJson => "the watchdog state is not JSON"
  | .differentCheck => "the watchdog state belongs to a different check"
  | .unsupportedStatus => "the watchdog state has an unsupported status"
  | .noTransactionHash => "the pending watchdog state has no transaction hash"
  | .noBoundedExpiry => "the pending watchdog state has no bounded expiry"
  | .invalidHash => "the watchdog transaction hash is invalid"

/-- The text of an error tells what the reader refused. -/
theorem StateError.message_injective : Function.Injective StateError.message := by
  intro a b h
  cases a <;> cases b <;> first | rfl | exact absurd h (by decide)

/-- `/^[0-9a-f]{64}$/` -/
def isHash (text : Text) : Bool :=
  match text.toString? with
  | some s => s.toList.length = 64 && s.toList.all isLowerHex
  | none => false

/-- A safe integer that is positive. -/
def isExpiry (value : Double) : Bool :=
  match value.toInt? with
  | some n => 1 ≤ n && n ≤ MAX_SAFE_INTEGER
  | none => false

def IsText (source : List (Text × Value)) (key : String) (text : Text) : Prop :=
  asString (property source key) = some text

instance (source : List (Text × Value)) (key : String) (text : Text) :
    Decidable (IsText source key text) :=
  inferInstanceAs (Decidable (_ = _))

def IsNumber (source : List (Text × Value)) (key : String) (n : Nat) : Prop :=
  (asNumber (property source key)).bind Double.toInt? = some (n : Int)

instance (source : List (Text × Value)) (key : String) (n : Nat) :
    Decidable (IsNumber source key n) :=
  inferInstanceAs (Decidable (_ = _))

/-- The state is that of the expected check. -/
def Belongs (source : List (Text × Value)) (expected : StateRecord) : Prop :=
  IsText source "format" (Text.ofString WATCHDOG_STATE_FORMAT) ∧
    IsText source "network" expected.network ∧ IsText source "registry" expected.registry ∧
    IsText source "asset" expected.asset ∧
    IsText source "identifier" (Text.ofString expected.identifier) ∧
    IsText source "oldAttestationId" (Text.ofString expected.oldAttestationId) ∧
    IsNumber source "graceLedgers" expected.graceLedgers ∧
    IsText source "targetId" (Text.ofString expected.targetId)

instance (source : List (Text × Value)) (expected : StateRecord) :
    Decidable (Belongs source expected) :=
  inferInstanceAs (Decidable (_ ∧ _))

def readStatus (source : List (Text × Value)) : Option StateStatus :=
  (asString (property source "status")).bind fun text =>
    [StateStatus.delivered, .disputed, .pending, .expired].find? fun status =>
      text = Text.ofString (statusText status)

/-- The part of `readState` after the check of the status. -/
def readFields (source : List (Text × Value)) (expected : StateRecord) (status : StateStatus) :
    Except StateError StateRecord :=
  let transactionHash := property source "transactionHash"
  let maxTime := property source "maxTime"
  if status = .pending ∧ ¬ (asString transactionHash).any isHash then .error .noTransactionHash
  else if status = .pending ∧ ¬ (asNumber maxTime).any isExpiry then .error .noBoundedExpiry
  else if transactionHash.isSome ∧ asString transactionHash = none then .error .invalidHash
  else
    .ok { expected with
      status
      transactionHash := (asString transactionHash).or expected.transactionHash
      maxTime := (asNumber maxTime).or expected.maxTime }

/-- The part of `readState` after the file was read. -/
def parseState (text : String) (expected : StateRecord) : Except StateError StateRecord :=
  match JavaScript.parse text with
  | none => .error .notJson
  | some (.object source) =>
    if Belongs source expected then
      match readStatus source with
      | none => .error .unsupportedStatus
      | some status => readFields source expected status
    else .error .differentCheck
  | some _ => .error .differentCheck

theorem parseState_empty (expected : StateRecord) : parseState "" expected = .error .notJson := rfl

/-! ## Records of one check -/

/-- What every record expected of a check is. -/
structure Plain (expected : StateRecord) : Prop where
  network : expected.network.Normal
  registry : expected.registry.Normal
  asset : expected.asset.Normal
  grace : expected.graceLedgers < 2 ^ 53
  noHash : expected.transactionHash = none
  noExpiry : expected.maxTime = none

/-- A record of the expected check, with what its status needs. -/
structure Complete (expected record : StateRecord) : Prop where
  check : record = { expected with
    status := record.status
    transactionHash := record.transactionHash
    maxTime := record.maxTime }
  hash : ∀ text, record.transactionHash = some text → text.Normal
  expiry : ∀ value, record.maxTime = some value → IsSafe value
  pending : record.status = .pending →
    record.transactionHash.any isHash = true ∧ record.maxTime.any isExpiry = true

theorem isSafe_ofNat {n : Nat} (h : n < 2 ^ 53) : IsSafe (ofNat n) := ⟨n, h, toDouble_natural h⟩

theorem isSafe_of_isExpiry {value : Double} (h : isExpiry value = true) : IsSafe value := by
  unfold isExpiry at h
  split at h
  · rename_i n hn
    have hmax : (MAX_SAFE_INTEGER : Int) = 2 ^ 53 - 1 := rfl
    simp only [Bool.and_eq_true, decide_eq_true_eq] at h
    exact ⟨n.toNat, by omega, by rw [hn, Int.toNat_of_nonneg (by omega)]⟩
  · cases h

variable {expected record : StateRecord}

/-- Every property of a complete record has one text only. -/
theorem exact_properties (hplain : Plain expected) (h : Complete expected record) :
    ∀ p ∈ record.properties, p.2.Exact := by
  have hcheck := h.check
  have hnetwork : record.network.Normal := by
    rw [hcheck]
    exact hplain.network
  have hregistry : record.registry.Normal := by
    rw [hcheck]
    exact hplain.registry
  have hasset : record.asset.Normal := by
    rw [hcheck]
    exact hplain.asset
  have hgrace : record.graceLedgers < 2 ^ 53 := by
    rw [hcheck]
    exact hplain.grace
  intro p hp
  simp only [StateRecord.properties, List.cons_append, List.nil_append, List.mem_cons,
    List.mem_append, Option.mem_toList, Option.map_eq_some_iff] at hp
  rcases hp with rfl | rfl | rfl | rfl | rfl | rfl | rfl | rfl | rfl | ⟨hash, hhash, rfl⟩ |
    ⟨value, hvalue, rfl⟩
  · exact Text.normal_ofString _
  · exact hnetwork
  · exact hregistry
  · exact hasset
  · exact Text.normal_ofString _
  · exact Text.normal_ofString _
  · exact isSafe_ofNat hgrace
  · exact Text.normal_ofString _
  · exact Text.normal_ofString _
  · exact h.hash hash hhash
  · exact h.expiry value hvalue

theorem nodup_properties (record : StateRecord) : (record.properties.map Prod.fst).Nodup := by
  unfold StateRecord.properties
  cases record.transactionHash <;> cases record.maxTime <;> simp

theorem readStatus_eq {source : List (Text × Value)} {status : StateStatus}
    (h : IsText source "status" (Text.ofString (statusText status))) :
    readStatus source = some status := by
  rw [readStatus, h, Option.bind_some]
  cases status <;> decide

theorem isExpiry_congr {value value' : Double} (h : value.toInt? = value'.toInt?) :
    isExpiry value = isExpiry value' := by
  rw [isExpiry, h, ← isExpiry]

/-- The number that the reader finds is the one that was written. -/
theorem exists_asNumber_eq {value : Double} (h : IsSafe value) :
    ∃ found, asNumber (some (ofJson (Scalar.number value).json)) = some found ∧ IsSafe found ∧
      found.toInt? = value.toInt? := by
  obtain ⟨n, hlt, hn⟩ := h
  obtain ⟨found, hfound, hn'⟩ := exists_ofJson_number hlt hn
  exact ⟨found, by rw [hfound]; rfl, ⟨n, hlt, hn'⟩, hn'.trans hn.symm⟩

/-- An object that holds the properties of a record and no other. -/
structure Holds (source : List (Text × Value)) (record : StateRecord) : Prop where
  property_eq : ∀ p ∈ record.properties, property source p.1 = some (ofJson p.2.json)
  property_eq_none : ∀ key, key ∉ record.properties.map Prod.fst → property source key = none

variable {source : List (Text × Value)}

theorem Holds.isText (h : Holds source record) {key : String} {text : Text}
    (hp : (key, Scalar.string text) ∈ record.properties) : IsText source key text := by
  rw [IsText, h.property_eq _ hp]
  rfl

theorem Holds.belongs (hplain : Plain expected) (hcomplete : Complete expected record)
    (h : Holds source record) : Belongs source expected := by
  have hcheck := hcomplete.check
  refine ⟨h.isText ?_, h.isText ?_, h.isText ?_, h.isText ?_, h.isText ?_, h.isText ?_, ?_,
    h.isText ?_⟩
  case refine_7 =>
    have hp : ("graceLedgers", Scalar.number (ofNat expected.graceLedgers)) ∈
        record.properties := by
      rw [hcheck]
      simp [StateRecord.properties]
    obtain ⟨found, hfound, -, hn⟩ := exists_asNumber_eq (isSafe_ofNat hplain.grace)
    rw [IsNumber, h.property_eq _ hp, hfound, Option.bind_some, hn]
    exact toDouble_natural hplain.grace
  all_goals
    rw [hcheck]
    simp [StateRecord.properties]

/-- The reader finds the hash of the record, and a property that is no text is not there. -/
theorem Holds.transactionHash (h : Holds source record) :
    asString (property source "transactionHash") = record.transactionHash ∧
      ((property source "transactionHash").isSome = true →
        asString (property source "transactionHash") ≠ none) := by
  cases hrecord : record.transactionHash with
  | none =>
    have hnone : property source "transactionHash" = none := by
      refine h.property_eq_none _ ?_
      unfold StateRecord.properties
      cases record.maxTime <;> simp [hrecord]
    rw [hnone]
    exact ⟨rfl, fun hsome => absurd hsome (by decide)⟩
  | some text =>
    have hfound : asString (property source "transactionHash") = some text :=
      h.isText (by simp [StateRecord.properties, hrecord])
    rw [hfound]
    exact ⟨rfl, fun _ => Option.some_ne_none _⟩

/-- The expiry that the reader finds is as safe and as positive as the one of the record. -/
theorem Holds.maxTime (hcomplete : Complete expected record) (h : Holds source record) :
    (∀ value, asNumber (property source "maxTime") = some value → IsSafe value) ∧
      (asNumber (property source "maxTime")).any isExpiry = record.maxTime.any isExpiry := by
  cases hrecord : record.maxTime with
  | none =>
    have hnone : property source "maxTime" = none := by
      refine h.property_eq_none _ ?_
      unfold StateRecord.properties
      cases record.transactionHash <;> simp [hrecord]
    rw [hnone]
    exact ⟨fun value hvalue => absurd hvalue (by simp [asNumber]), rfl⟩
  | some value =>
    have hp : ("maxTime", Scalar.number value) ∈ record.properties := by
      simp [StateRecord.properties, hrecord]
    obtain ⟨found, hfound, hsafe, hn⟩ := exists_asNumber_eq (hcomplete.expiry value hrecord)
    rw [h.property_eq _ hp, hfound]
    refine ⟨?_, isExpiry_congr hn⟩
    intro other hother
    cases hother
    exact hsafe

/-- **The reader takes back what the watchdog wrote.** -/
theorem parseState_record {otherNumber : Double → String} {text : String}
    (hplain : Plain expected) (h : Complete expected record)
    (htext : HoldsRecord otherNumber record text) :
    ∃ found, parseState text expected = .ok found ∧
      found.status = record.status ∧ found.transactionHash = record.transactionHash ∧
      Complete expected found := by
  obtain ⟨source, hline, hwhole, hmem, hother⟩ := exists_parse_stringify otherNumber
    (exact_properties hplain h) (nodup_properties record)
  have hparse : JavaScript.parse text = some (.object source) := by
    rcases htext with rfl | hline_end
    · exact hwhole
    · rw [stateText, String.append_left_inj] at hline_end
      rw [hline_end, hline]
  have hholds : Holds source record := ⟨hmem, hother⟩
  have hbelongs : Belongs source expected := hholds.belongs hplain h
  have hstatus : readStatus source = some record.status :=
    readStatus_eq (hholds.isText (by simp [StateRecord.properties]))
  obtain ⟨hhash, hhash_text⟩ := hholds.transactionHash
  obtain ⟨hsafe, hexpiry⟩ := hholds.maxTime h
  refine ⟨{ expected with
    status := record.status
    transactionHash := record.transactionHash
    maxTime := asNumber (property source "maxTime") }, ?_, rfl, rfl, ?_⟩
  · rw [parseState, hparse]
    dsimp only
    rw [if_pos hbelongs, hstatus]
    dsimp only
    rw [readFields, if_neg fun hbad => hbad.2 (hhash ▸ (h.pending hbad.1).1),
      if_neg fun hbad => hbad.2 (hexpiry ▸ (h.pending hbad.1).2),
      if_neg fun hbad => hhash_text hbad.1 hbad.2, hhash, hplain.noHash, hplain.noExpiry,
      Option.or_none, Option.or_none]
  · exact {
      check := rfl
      hash := h.hash
      expiry := hsafe
      pending := fun hpending => ⟨(h.pending hpending).1, hexpiry ▸ (h.pending hpending).2⟩ }

/-- **The reader takes no other text that a failed write leaves.** -/
theorem parseState_cutOff {otherNumber : Double → String} {left : String}
    (hplain : Plain expected) (h : Complete expected record)
    (hcut : CutOff (stateText otherNumber record) left)
    (hnot : ¬ HoldsRecord otherNumber record left) (other : StateRecord) :
    parseState left other = .error .notJson := by
  have hwhole : JsonText.parse (stateText otherNumber record) = _ :=
    parse_append_newline (parse_stringify (exact_properties hplain h))
  have hnone : JsonText.parse left = none := by
    rw [← Option.not_isSome_iff_eq_none, Option.isSome_iff_exists]
    rintro ⟨x, hx⟩
    obtain ⟨init, hinit⟩ : ∃ init,
        (stringify otherNumber record.properties).toList = '{' :: init ++ ['}'] := by
      rw [stringify, String.toList_ofList]
      exact ⟨_, rfl⟩
    have htext : (stateText otherNumber record).toList = '{' :: init ++ ['}'] ++ ['\n'] := by
      rw [stateText, String.toList_append, hinit]
      rfl
    obtain ⟨after, hafter, hblank⟩ := parse_cutOff hwhole htext hcut hx
    -- nothing is missing, or the line end, or the brace in front of it
    rcases List.eq_nil_or_concat after with rfl | ⟨front, c, rfl⟩
    · rw [List.append_nil] at hafter
      exact hnot (.inl (String.toList_injective hafter.symm))
    · rw [htext, List.concat_eq_append, ← List.append_assoc] at hafter
      obtain ⟨hfront, hc⟩ := List.append_inj' hafter rfl
      rcases List.eq_nil_or_concat front with rfl | ⟨front', d, rfl⟩
      · refine hnot (.inr (String.toList_injective ?_))
        rw [htext, hfront, String.toList_append, List.append_nil]
        rfl
      · rw [List.concat_eq_append, ← List.append_assoc] at hfront
        obtain ⟨-, hd⟩ := List.append_inj' hfront rfl
        have hbrace : d = '}' := (List.cons.inj hd).1.symm
        have hmem := hblank d (by simp)
        rw [hbrace] at hmem
        exact absurd hmem (by decide)
  rw [parseState, JavaScript.parse, hnone]
  rfl

end ZkPoR.WatchdogFiles
