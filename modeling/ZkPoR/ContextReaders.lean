import ZkPoR.CustomerFile
import ZkPoR.LastWrite
import ZkPoR.TreeShape

/-! # The context file in the two languages

`parseContext` of the client searches the whole text for the first line that a pattern
matches.  `read_context` of the generator cuts the text into lines, drops what stands
behind a number sign, and keeps the last assignment of each key.  So a key that is
assigned twice gives the client its first value and the generator its last one, and a
number sign or a line feed inside the quotes ends the value for the generator alone.

This module reads the generator's side by places: `LastAssignment` is the last line that
assigns a key, and `value_of_line` says what that line holds of a text that the pattern
of the client matches at its front.
-/
namespace ZkPoR
open ByteString CheckedInt JsonText JavaScript Binary64 LinePattern TextLines InsertionMap
open LastWrite
open BoundedLoop (bind_eq_ok)
open Schema (mapError_eq_ok)

namespace Sdk

/-- What a front end needs of the context file. -/
structure RunContext where
  asset : List Char
  snapshotLedger : Double
deriving DecidableEq

/-- Reads the asset and the snapshot ledger from the context file. -/
def parseContext (text : List Char) (path : Text) : Except ProvingError RunContext :=
  match exec isWhitespace isLineTerminator "asset".toList quoted true text with
  | none => .error (.proving (Text.ofString "the context file " ++ path ++
      Text.ofString " names no asset"))
  | some asset =>
    match exec isWhitespace isLineTerminator "snapshot_ledger".toList digits true text with
    | none => .error (.proving (Text.ofString "the context file " ++ path ++
        Text.ofString " states no snapshot_ledger"))
    | some snapshot => .ok { asset, snapshotLedger := parseInt snapshot }

end Sdk

namespace Generator
open Package

/-- The key and the value of a line, without its comment. -/
def pairOf (line : List Char) : Option (List Char × List Char) :=
  (splitOnce '=' (trim (line.takeWhile (· ≠ '#')))).map fun (k, v) => (trim k, trim v)

/-- Key and value text of every assignment in a simple TOML file.  The value keeps its
quotes and its brackets. -/
def readPairs (text : List Char) : OrderedMap (List Char) (List Char) :=
  (lines text).foldl (fun m line =>
    match pairOf line with
    | some (k, v) => m.set k v
    | none => m) .empty

section Values
variable (pairs : OrderedMap (List Char) (List Char)) (key : String)

def pairValue : Except String (List Char) := orPanic (pairs.get key.toList) s!"missing {key}"

def u64Value : Except String U64 := do
  orPanic (parseU64Text (← pairValue pairs key)) s!"{key} must be an unsigned integer"

/-- `trim_matches('"')` -/
def trimQuotes (value : List Char) : List Char := strip (· = '"') value

def textValue : Except String (List Char) := do
  return trimQuotes (← pairValue pairs key)

def listValue : Except String (List (List Char)) := do
  let value ← pairValue pairs key
  let items := (strip (fun c => c = '[' || c = ']') value).splitOn ','
  return (items.map fun item => trimQuotes (trim item)).filter (· ≠ [])

end Values

section Reader
variable (fromString : List Char → Option Address) (poseidon2 : List Fr → Fr)

/-- `Address::from_string`, which panics at a text that is not an address. -/
def address (strkey : List Char) : Except String Address :=
  orPanic (fromString strkey) s!"{String.ofList strkey} is not an address"

/-- The context that the pairs of a file make. -/
def contextOf (pairs : OrderedMap (List Char) (List Char)) :
    Except String AttestationContext := do
  let reserves ← (← listValue pairs "reserves").mapM (address fromString)
  let set ← (reserveSetHash poseidon2 reserves).mapError fun _ => "the reserve set is not valid"
  let snapshot ← u64Value pairs "snapshot_ledger"
  assertThat (snapshot.toNat < 2 ^ 32) "snapshot_ledger is a u32"
  let snapshotLedger : U32 := BitVec.ofNat 32 snapshot.toNat
  let asset ← textValue pairs "asset"
  let authorityAddress ← address fromString (← textValue pairs "authority")
  let assetAddress ← address fromString asset
  let hash ← (contextHash poseidon2 authorityAddress assetAddress set snapshotLedger).mapError
    fun _ => "the context addresses are not valid"
  return { hash, asset := String.ofList asset, snapshotLedger }

def readContext (text : List Char) : Except String AttestationContext :=
  contextOf fromString poseidon2 (readPairs text)

end Reader

/-- A character of an address in StrKey form. -/
def isBase32 (c : Char) : Bool :=
  (0x41 ≤ c.toNat && c.toNat ≤ 0x5a) || (0x32 ≤ c.toNat && c.toNat ≤ 0x37)

/-- A text that can be an address. -/
def IsStrkeyText (text : List Char) : Prop := text ≠ [] ∧ ∀ c ∈ text, isBase32 c = true

/-- What the reader needs of the Soroban library: it refuses a text that is not in StrKey
form. -/
def StrkeyOnly (fromString : List Char → Option Address) : Prop :=
  ∀ {text a}, fromString text = some a → IsStrkeyText text

/-- What the reader answers. -/
structure ReadsContext (fromString : List Char → Option Address) (poseidon2 : List Fr → Fr)
    (text : List Char) (context : AttestationContext) : Prop where
  asset : ∃ value, (readPairs text).get "asset".toList = some value ∧
    context.asset.toList = trimQuotes value
  snapshot : ∃ value, (readPairs text).get "snapshot_ledger".toList = some value ∧
    WritesDecimal value context.snapshotLedger.toNat
  /-- The hash is of the two values that the reader answers. -/
  hash : ∃ authority assetAddress set, fromString context.asset.toList = some assetAddress ∧
    contextHash poseidon2 authority assetAddress set context.snapshotLedger = .ok context.hash

section Accepts
variable {fromString : List Char → Option Address} {poseidon2 : List Fr → Fr} {text : List Char}
  {context : AttestationContext}

theorem readsContext_of_readContext (h : readContext fromString poseidon2 text = .ok context) :
    ReadsContext fromString poseidon2 text context := by
  simp only [readContext, contextOf, bind_eq_ok, u64Value, textValue, pairValue, address,
    orPanic_eq_ok, assertThat_eq_ok, mapError_eq_ok] at h
  obtain ⟨_, -, _, -, set, -, snapshot, ⟨snapshotText, hsnapshot, hparse⟩, _, hfits, asset,
    ⟨assetText, hasset, hassetText⟩, _, ⟨_, -, -⟩, authority, -, assetAddress, hassetAddress,
    hash, hhash, hcontext⟩ := h
  obtain rfl := Except.ok.inj hcontext
  obtain rfl := Except.ok.inj hassetText
  refine ⟨⟨assetText, hasset, String.toList_ofList⟩, ⟨snapshotText, hsnapshot, ?_⟩,
    authority, assetAddress, set, by rw [String.toList_ofList, hassetAddress], hhash⟩
  have hnumber := writesDecimal_of_parseU64Text hparse
  rwa [BitVec.toNat_ofNat, Nat.mod_eq_of_lt hfits]

end Accepts

/-! ## The last assignment of a key -/

/-- The last line that assigns a key, with the text in front of the line. -/
def LastAssignment (key : String) (text before value : List Char) : Prop :=
  ∃ pieces piece later, splitInclusive text = pieces ++ piece :: later ∧
    before = pieces.flatten ∧ pairOf (stripEnd piece) = some (key.toList, value) ∧
      ∀ p ∈ later, ∀ v, pairOf (stripEnd p) ≠ some (key.toList, v)

theorem readPairs_eq (text : List Char) :
    readPairs text = ((lines text).filterMap pairOf).foldl (fun m p => m.set p.1 p.2) .empty := by
  rw [readPairs, List.foldl_filterMap]
  congr 1
  funext m line
  cases pairOf line <;> rfl

/-- The map of the reader holds the last assignment of each key. -/
theorem get_readPairs {key : String} {text value : List Char} :
    (readPairs text).get key.toList = some value ↔
      ∃ before, LastAssignment key text before value := by
  rw [readPairs_eq, get_foldl_set Prod.fst Prod.snd, Option.map_eq_some_iff, lines,
    List.filterMap_map]
  constructor
  · rintro ⟨⟨k, v⟩, hlast, rfl⟩
    obtain ⟨rfl, earlier, later, hsplit, hlater⟩ := lastUnder_eq_some.mp hlast
    obtain ⟨pieces, rest, hpieces, -, hrest⟩ := List.filterMap_eq_append_iff.mp hsplit
    obtain ⟨skipped, piece, after, rfl, hskipped, hpair, rfl⟩ :=
      List.filterMap_eq_cons_iff.mp hrest
    refine ⟨_, pieces ++ skipped, piece, after, by rw [hpieces, List.append_assoc], rfl, hpair,
      fun p hp w hw => ?_⟩
    exact hlater _ (List.mem_filterMap.mpr ⟨p, hp, hw⟩) rfl
  · rintro ⟨before, pieces, piece, later, hsplit, -, hpair, hlater⟩
    refine ⟨(key.toList, value), lastUnder_eq_some.mpr ⟨rfl, pieces.filterMap (pairOf ∘ stripEnd),
      later.filterMap (pairOf ∘ stripEnd), ?_, fun p hp => ?_⟩, rfl⟩
    · rw [hsplit, List.filterMap_append, List.filterMap_cons_some (f := pairOf ∘ stripEnd) hpair]
    · obtain ⟨q, hq, hpairq⟩ := List.mem_filterMap.mp hp
      rintro hkey
      exact hlater q hq p.2 (hpairq.trans (by rw [← hkey]))

/-! ## One line for both -/

/-- Where a line stops for the generator. -/
def Stops (rest : List Char) : Prop :=
  rest = [] ∨ (∃ rest', rest = '#' :: rest') ∨ (∃ rest', rest = '\n' :: rest') ∨
    ∃ rest', rest = '\r' :: '\n' :: rest'

theorem Stops.head {rest : List Char} (h : Stops rest) :
    ∀ c ∈ rest.head?, c = '#' ∨ c = '\n' ∨ c = '\r' := by
  rintro c hc
  rcases h with rfl | ⟨rest', rfl⟩ | ⟨rest', rfl⟩ | ⟨rest', rfl⟩
  · cases hc
  all_goals
    obtain rfl := Option.some.inj hc
    simp

/-- The part of a piece that the generator reads, in its place in the text. -/
theorem exists_stops {text piece : List Char} {pieces later : List (List Char)}
    (h : splitInclusive text = pieces ++ piece :: later) :
    ∃ rest, text = pieces.flatten ++ ((stripEnd piece).takeWhile (· ≠ '#') ++ rest) ∧
      Stops rest := by
  have htext : text = pieces.flatten ++ (piece ++ later.flatten) := by
    rw [← flatten_splitInclusive text, h, List.flatten_append, List.flatten_cons]
  obtain ⟨ending, hpiece, hending⟩ : ∃ ending, piece = stripEnd piece ++ ending ∧
      Stops (ending ++ later.flatten) := by
    rcases splitInclusive_parts h with ⟨line, rfl, -⟩ | ⟨hnot, rfl⟩
    · obtain ⟨ending, heq, rfl | rfl⟩ := stripEnd_concat line
      · exact ⟨_, heq, .inr (.inr (.inl ⟨_, rfl⟩))⟩
      · exact ⟨_, heq, .inr (.inr (.inr ⟨_, rfl⟩))⟩
    · exact ⟨[], by rw [stripEnd_of_notMem hnot, List.append_nil], .inl rfl⟩
  refine ⟨(stripEnd piece).dropWhile (· ≠ '#') ++ (ending ++ later.flatten), ?_, ?_⟩
  · rw [← List.append_assoc (List.takeWhile _ _), List.takeWhile_append_dropWhile,
      ← List.append_assoc (stripEnd piece), ← hpiece, htext]
  · cases hcomment : (stripEnd piece).dropWhile (· ≠ '#') with
    | nil => exact hending
    | cons c comment =>
      have hhead := List.head?_dropWhile_not (fun c : Char => c ≠ '#') (stripEnd piece)
      rw [hcomment] at hhead
      have hc : c = '#' := by simpa using hhead
      exact .inr (.inl ⟨_, by rw [hc]; rfl⟩)

/-- The value of a line is what stands behind its first equals sign, without the white
space around it. -/
theorem pairOf_parts {line key value : List Char} (h : pairOf line = some (key, value)) :
    ∃ front back, line.takeWhile (· ≠ '#') = front ++ '=' :: back ∧ '=' ∉ front ∧
      strip isWhitespace back = value := by
  obtain ⟨⟨k, v⟩, hsplit, hpair⟩ := Option.map_eq_some_iff.mp h
  obtain ⟨-, rfl⟩ := Prod.mk.inj hpair
  obtain ⟨htrim, hkey⟩ := splitOnce_eq_some.mp hsplit
  obtain ⟨front, back, hline, hfront, hback⟩ :=
    exists_strip (p := isWhitespace) (line.takeWhile (· ≠ '#'))
  have hparts : line.takeWhile (· ≠ '#') = (front ++ k) ++ '=' :: (v ++ back) := by
    rw [hline, show strip isWhitespace _ = _ from htrim]
    simp
  refine ⟨front ++ k, v ++ back, hparts, ?_, strip_append_right hback⟩
  rw [List.mem_append, not_or]
  exact ⟨fun hmem => absurd (hfront _ hmem) (by decide), hkey⟩

section Line
variable {text before name gap gap' body value : List Char} {key : String}

/-- A match at the front of the last line that assigns the key: the line of the generator
covers a part of what the pattern matched behind the equals sign. -/
theorem value_of_line (hlast : LastAssignment key text before value)
    (htext : text = before ++ (name ++ (gap ++ '=' :: (gap' ++ body))))
    (hname : '=' ∉ name) (hgap : ∀ c ∈ gap, Sdk.isWhitespace c = true) :
    ∃ covered rest, covered ++ rest = gap' ++ body ∧ Stops rest ∧
      strip isWhitespace covered = value := by
  obtain ⟨pieces, piece, later, hsplit, rfl, hpair, -⟩ := hlast
  obtain ⟨rest, hplace, hstops⟩ := exists_stops hsplit
  obtain ⟨front, back, hline, hfront, hvalue⟩ := pairOf_parts hpair
  refine ⟨back, rest, ?_, hstops, hvalue⟩
  have hsame : (name ++ gap) ++ '=' :: (gap' ++ body) = front ++ '=' :: (back ++ rest) := by
    have hplaced := List.append_cancel_left (htext.symm.trans hplace)
    rw [hline] at hplaced
    simpa using hplaced
  have hsign : '=' ∉ name ++ gap := by
    rw [List.mem_append, not_or]
    exact ⟨hname, fun hmem => absurd (hgap _ hmem) (by decide)⟩
  exact (append_cons_inj hsame hsign hfront).2.symm

end Line

end Generator
end ZkPoR
