import ZkPoR.Context
import ZkPoR.Identity
import ZkPoR.JavaScript

/-! # Reading the registry through a simulation

`simulateRead` simulates one call and returns the value that it produced.  The endpoint
and the Stellar library are the parameter `Client`: the two address parsers, the answer to
`simulateTransaction`, and the health call.

A contract error reaches the client inside the text of a failed simulation, and
`registryErrorCode` finds it there: the number that the host writes comes back
(`registryErrorCode_hostError`).
-/
namespace ZkPoR.Sdk
open CheckedInt BoundedLoop JsonText JavaScript Binary64

/-- What ends a read without a value. -/
inductive Failure
  | infrastructure (message : Text)
  | refused (code : Nat)
  | other (message : Text)
deriving DecidableEq

def infrastructure {α : Type} (message : String) : Except Failure α :=
  .error (.infrastructure (Text.ofString message))

/-- The values that `scValToNative` gives. -/
inductive NativeValue
  | bigint (value : Int)
  | number (value : Double)
  | boolean (value : Bool)
  | string (text : Text)
  | null
  | list (elements : List NativeValue)
  | record (fields : List (Text × NativeValue))
  | other

def ASSET_NOT_REGISTERED : Nat := 7
def ATTESTATION_NOT_FOUND : Nat := 21
def DISPUTE_NOT_FOUND : Nat := 27
def OBSERVATION_NOT_FOUND : Nat := 34

/-! ## The error code of a refusal -/

/-- White space for `\s`. -/
def isSpace : CodePoint → Bool
  | .scalar c => isWhitespace c
  | .surrogate _ => false

/-- The digits at the start of a text. -/
def leadingDigits : Text → List Char
  | .scalar c :: text => if c.isDigit then c :: leadingDigits text else []
  | _ => []

/-- The number of a text that starts with `Error(Contract, #n)`. -/
def contractError (text : Text) : Option Nat := do
  let rest ← (Text.ofString "Error(Contract,").isPrefixOf? text
  let rest ← (Text.ofString "#").isPrefixOf? (rest.dropWhile isSpace)
  let digits := leadingDigits rest
  if digits ≠ [] ∧ (rest.drop digits.length).head? = some (.scalar ')') then
    return Nat.ofDigitChars 10 digits 0
  else none

/-- Reads a registry error code out of the text of a failed call: the first contract error
of the text. -/
def registryErrorCode (text : Text) : Option Nat := text.tails.findSome? contractError

/-- The start of the text in which the host reports a contract error. -/
def hostError (code : Nat) : Text := Text.ofString s!"HostError: Error(Contract, #{code})"

/-! ## The read -/

/-- A read of the registry, with its arguments in order. -/
inductive Read
  | attestationCount (asset : Address)
  | getAttestation (asset : Address) (id : U64)
  | observationStatus (asset : Address)
  | getObservation (asset : Address) (id : U64)
  | getDispute (asset : Address) (targetId : U64) (identifier : U256)
deriving DecidableEq

/-- The function that a read calls. -/
def Read.method : Read → String
  | attestationCount _ => "attestation_count"
  | getAttestation _ _ => "get_attestation"
  | observationStatus _ => "observation_status"
  | getObservation _ _ => "get_observation"
  | getDispute _ _ _ => "get_dispute"

/-- The answer of an endpoint to a simulated call. -/
inductive SimulateTransactionResponse
  | error (text : Text)
  | success (retval : Option NativeValue)

/-- What the client asks of the Stellar library and of the endpoint. -/
structure Client where
  /-- The address of a text. -/
  address : Text → Except Failure Address
  /-- The contract of a text. -/
  contract : Text → Except Failure Address
  /-- The answer to a call of a contract, or none where the request throws. -/
  simulateTransaction : Address → Read → Option SimulateTransactionResponse
  health : Except Failure Nat

/-- What the client makes of an answer. -/
def valueOf (method : String) : Option SimulateTransactionResponse → Except Failure NativeValue
  | none => infrastructure s!"the client cannot simulate the call {method}"
  | some (.error text) =>
    match registryErrorCode text with
    | some code => .error (.refused code)
    | none => .error (.infrastructure
        (Text.ofString s!"the simulation of the call {method} failed: " ++ text))
  | some (.success none) => infrastructure s!"the call {method} returned no value"
  | some (.success (some native)) => .ok native

/-- Simulates a call and returns the value it produced. -/
def simulateRead (client : Client) (registry : Text) (read : Read) :
    Except Failure NativeValue := do
  let contract ← client.contract registry
  valueOf read.method (client.simulateTransaction contract read)

/-- The refusals that mean that there is nothing to read. -/
def undefinedFor {α : Type} (codes : List Nat) : Except Failure α → Except Failure (Option α)
  | .ok value => .ok (some value)
  | .error (.refused code) => if code ∈ codes then .ok none else .error (.refused code)
  | .error failure => .error failure

/-! ## What the client finds in an answer -/

theorem leadingDigits_append {digits : List Char} (h : ∀ c ∈ digits, c.isDigit = true)
    (rest : Text) :
    leadingDigits (digits.map .scalar ++ rest) = digits ++ leadingDigits rest := by
  induction digits with
  | nil => rfl
  | cons c digits ih =>
    rw [List.forall_mem_cons] at h
    rw [List.map_cons, List.cons_append, leadingDigits, if_pos h.1, ih h.2, List.cons_append]

theorem contractError_append (rest : Text) :
    contractError (Text.ofString "Error(Contract, #" ++ rest) =
      if leadingDigits rest ≠ [] ∧
        (rest.drop (leadingDigits rest).length).head? = some (.scalar ')') then
        some (Nat.ofDigitChars 10 (leadingDigits rest) 0)
      else none := rfl

/-- A contract error at the start of a text is found. -/
theorem contractError_of_digits (code : Nat) (log : Text) :
    contractError (Text.ofString "Error(Contract, #" ++
      ((Nat.toDigits 10 code).map .scalar ++ .scalar ')' :: log)) = some code := by
  have hdigits : leadingDigits ((Nat.toDigits 10 code).map .scalar ++ .scalar ')' :: log) =
      Nat.toDigits 10 code := by
    have hnone : leadingDigits (.scalar ')' :: log) = [] := rfl
    rw [leadingDigits_append fun _ => DecimalText.isDigit_toDigits, hnone, List.append_nil]
  have hclosed : (((Nat.toDigits 10 code).map CodePoint.scalar ++ .scalar ')' :: log).drop
      (Nat.toDigits 10 code).length).head? = some (.scalar ')') := by
    rw [List.drop_left' (List.length_map _), List.head?_cons]
  rw [contractError_append, hdigits, if_pos ⟨Nat.toDigits_ne_nil, hclosed⟩,
    Nat.ofDigitChars_ten_toDigits]

theorem registryErrorCode_cons {point : CodePoint} {text : Text}
    (h : contractError (point :: text) = none) :
    registryErrorCode (point :: text) = registryErrorCode text := by
  rw [registryErrorCode, List.tails_cons, List.findSome?_cons, h]
  rfl

theorem registryErrorCode_of_contractError {text : Text} {code : Nat}
    (h : contractError text = some code) : registryErrorCode text = some code := by
  cases text with
  | nil => cases h
  | cons point text => rw [registryErrorCode, List.tails_cons, List.findSome?_cons, h]

theorem hostError_eq (code : Nat) :
    hostError code = Text.ofString "HostError: " ++
      (Text.ofString "Error(Contract, #" ++
        ((Nat.toDigits 10 code).map .scalar ++ [.scalar ')'])) := by
  have hcode : Text.ofString (toString code) = (Nat.toDigits 10 code).map .scalar := by
    rw [Text.ofString, Nat.toString_eq_ofList_toDigits, String.toList_ofList]
  have hstart : Text.ofString (toString "HostError: Error(Contract, #") =
      Text.ofString "HostError: " ++ Text.ofString "Error(Contract, #" := rfl
  rw [hostError, Text.ofString_append, Text.ofString_append, hcode, hstart, List.append_assoc,
    List.append_assoc]
  rfl

/-- **The code that the host writes comes back**, whatever follows it in the text. -/
theorem registryErrorCode_hostError (code : Nat) (log : Text) :
    registryErrorCode (hostError code ++ log) = some code := by
  have hfound := contractError_of_digits code log
  rw [hostError_eq, List.append_assoc, List.append_assoc, List.append_assoc, List.singleton_append]
  generalize (Nat.toDigits 10 code).map CodePoint.scalar ++ .scalar ')' :: log = rest at hfound ⊢
  -- no contract error starts in the eleven characters before it
  have hskip : registryErrorCode (Text.ofString "HostError: " ++
      (Text.ofString "Error(Contract, #" ++ rest)) =
        registryErrorCode (Text.ofString "Error(Contract, #" ++ rest) := by
    iterate 11 refine (registryErrorCode_cons rfl).trans ?_
    rfl
  exact hskip.trans (registryErrorCode_of_contractError hfound)

theorem valueOf_hostError (method : String) (code : Nat) (log : Text) :
    valueOf method (some (.error (hostError code ++ log))) = .error (.refused code) := by
  rw [valueOf, registryErrorCode_hostError]

/-- Only the value of a successful simulation is a value of the read. -/
theorem valueOf_eq_ok {method : String} {answer : Option SimulateTransactionResponse}
    {value : NativeValue} :
    valueOf method answer = .ok value ↔ answer = some (.success (some value)) := by
  constructor
  · intro h
    unfold valueOf at h
    split at h
    · cases h
    · split at h <;> cases h
    · cases h
    · cases h
      rfl
  · rintro rfl
    rfl

theorem simulateRead_eq_ok {client : Client} {registry : Text} {read : Read}
    {value : NativeValue} :
    simulateRead client registry read = .ok value ↔
      ∃ contract, client.contract registry = .ok contract ∧
        client.simulateTransaction contract read = some (.success (some value)) := by
  simp only [simulateRead, bind_eq_ok, valueOf_eq_ok]

theorem undefinedFor_eq_some {α : Type} {codes : List Nat} {answer : Except Failure α} {a : α} :
    undefinedFor codes answer = .ok (some a) ↔ answer = .ok a := by
  cases answer with
  | ok value => simp [undefinedFor]
  | error failure =>
    cases failure with
    | refused code => by_cases hcode : code ∈ codes <;> simp [undefinedFor, hcode]
    | infrastructure message => simp [undefinedFor]
    | other message => simp [undefinedFor]

end ZkPoR.Sdk
