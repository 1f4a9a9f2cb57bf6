import ZkPoR.JavaScript
import ZkPoR.PackageSchema

/-! # The record of the deployment generations

Both readers of the deployments file, the search for the generation of one
network and one registry, and the current generation of one network.  A file that names one pair twice answers nothing, so a
generation that is found is the only record of its pair.
-/
namespace ZkPoR
open JsonText BoundedLoop

/-- Why the deployment records answer nothing. -/
inductive DeploymentsError
  | unreadable (reason : String)
  | contradictory (reason : String)
deriving DecidableEq

def orUnreadable {α : Type} (x : Option α) (reason : String) : Except DeploymentsError α :=
  match x with
  | some a => .ok a
  | none => .error (.unreadable reason)

section Repeats
variable {α κ : Type} [DecidableEq κ] (key : α → κ)

/-- The first entry whose key an earlier entry has. -/
def firstRepeat (seen : List κ) : List α → Option α
  | [] => none
  | x :: xs => if key x ∈ seen then some x else firstRepeat (key x :: seen) xs

variable {key}

theorem firstRepeat_eq_none {seen : List κ} {xs : List α} :
    firstRepeat key seen xs = none ↔ (∀ x ∈ xs, key x ∉ seen) ∧ (xs.map key).Nodup := by
  induction xs generalizing seen with
  | nil => simp [firstRepeat]
  | cons x xs ih =>
    rw [firstRepeat, List.map_cons, List.nodup_cons, List.forall_mem_cons]
    split
    · rename_i h
      simp [h]
    · rename_i h
      rw [ih]
      simp only [List.mem_cons, not_or, List.mem_map, not_exists, not_and]
      constructor
      · rintro ⟨hseen, hnodup⟩
        exact ⟨⟨h, fun y hy => (hseen y hy).2⟩, fun y hy => (hseen y hy).1, hnodup⟩
      · rintro ⟨⟨-, hseen⟩, hkeys, hnodup⟩
        exact ⟨fun y hy => ⟨hkeys y hy, hseen y hy⟩, hnodup⟩

/-- A search from the start answers nothing exactly when no key repeats. -/
theorem firstRepeat_nil_eq_none {xs : List α} : firstRepeat key [] xs = none ↔ (xs.map key).Nodup :=
  firstRepeat_eq_none.trans (and_iff_right fun _ _ => List.not_mem_nil)

theorem exists_firstRepeat {xs : List α} (h : ¬ (xs.map key).Nodup) :
    ∃ one, firstRepeat key [] xs = some one :=
  Option.ne_none_iff_exists'.mp fun hnone => h (firstRepeat_nil_eq_none.mp hnone)

omit [DecidableEq κ] in
/-- Without a repeated key, an entry that a search finds is the only one. -/
theorem filter_eq_singleton_of_nodup {p : α → Bool} {xs : List α} {x : α}
    (hnodup : (xs.map key).Nodup) (hkey : ∀ y z, p y = true → p z = true → key y = key z)
    (h : xs.find? p = some x) : xs.filter p = [x] := by
  induction xs with
  | nil => cases h
  | cons y ys ih =>
    rw [List.map_cons, List.nodup_cons] at hnodup
    rw [List.find?_cons] at h
    split at h
    · rename_i hy
      cases h
      have hrest : ys.filter p = [] := by
        rw [List.filter_eq_nil_iff]
        intro z hz hpz
        exact hnodup.1 (List.mem_map.mpr ⟨z, hz, hkey z _ hpz hy⟩)
      rw [List.filter_cons_of_pos hy, hrest]
    · rename_i hy
      rw [List.filter_cons_of_neg (by simp [hy]), ih hnodup.2 h]

end Repeats

/-! ## The Rust reader -/

namespace Deployments
open SerdeJson

/-- One deployment generation. -/
structure Generation where
  network : String
  registry : String
  treeDepth : Nat
deriving DecidableEq

def Generation.pair (generation : Generation) : String × String :=
  (generation.network, generation.registry)

/-- The record of one pair. -/
def Generation.names (network registry : String) (generation : Generation) : Bool :=
  generation.network = network && generation.registry = registry

def recordText (record : Value) (name : String) : Except String String :=
  match (record.index name).asStr with
  | some text => .ok text
  | none => .error s!"a generation record holds no {name}"

def generation (record : Value) : Except String Generation := do
  let network ← recordText record "network"
  let registry ← recordText record "registry"
  match (record.index "tree_depth").asU64 with
  | some depth => .ok { network, registry, treeDepth := depth.toNat }
  | none => .error "a generation record holds no tree_depth"

/-- The refusal of a file that holds two records for one pair. -/
def refuseRepeat (generations : List Generation) : Except DeploymentsError Unit :=
  match firstRepeat Generation.pair [] generations with
  | none => .ok ()
  | some one =>
    .error (.contradictory (s!"the deployments file holds two records for the registry " ++
      s!"{one.registry} on the network {one.network}"))

/-- Every generation of the file, in the order that the file lists them. -/
def generations (serde : SerdeJson) (text : String) :
    Except DeploymentsError (List Generation) := do
  let json ← (serde.fromStr text).mapError .unreadable
  let records ← orUnreadable json.asArray "the deployments file is not a list of generations"
  let generations ← (records.mapM generation).mapError .unreadable
  refuseRepeat generations
  return generations

/-- The generation that one network name and one registry address name together. -/
def find (serde : SerdeJson) (text network registry : String) :
    Except DeploymentsError (Option Generation) :=
  (generations serde text).map fun generations =>
    generations.find? (Generation.names network registry)

/-- The current generation of one network: the last record that names it. -/
def current (serde : SerdeJson) (text network : String) : Except DeploymentsError Generation := do
  let generations ← generations serde text
  orUnreadable (generations.reverse.find? fun generation => generation.network = network)
    s!"no deployment generation for network {network}"

theorem nodup_of_generations {serde : SerdeJson} {text : String} {gens : List Generation}
    (h : generations serde text = .ok gens) : (gens.map Generation.pair).Nodup := by
  simp only [generations, bind_eq_ok] at h
  obtain ⟨json, -, records, -, gens', -, _, hrepeat, hout⟩ := h
  cases hout
  unfold refuseRepeat at hrepeat
  split at hrepeat
  · rename_i hnone
    exact firstRepeat_nil_eq_none.mp hnone
  · cases hrepeat

/-- **A generation that is found is the only record of its pair.** -/
theorem find_eq_some {serde : SerdeJson} {text network registry : String} {g : Generation}
    (h : find serde text network registry = .ok (some g)) :
    ∃ gens, generations serde text = .ok gens ∧
      gens.filter (Generation.names network registry) = [g] ∧
      g.network = network ∧ g.registry = registry := by
  unfold find at h
  cases hgens : generations serde text with
  | error reason =>
    rw [hgens] at h
    cases h
  | ok gens =>
    rw [hgens] at h
    have hfind : gens.find? (Generation.names network registry) = some g := Except.ok.inj h
    have hnames := List.find?_some hfind
    simp only [Generation.names, Bool.and_eq_true, decide_eq_true_eq] at hnames
    refine ⟨gens, rfl, filter_eq_singleton_of_nodup (nodup_of_generations hgens) ?_ hfind, hnames⟩
    intro y z hy hz
    simp only [Generation.names, Bool.and_eq_true, decide_eq_true_eq] at hy hz
    rw [Generation.pair, Generation.pair, hy.1, hy.2, hz.1, hz.2]

end Deployments

/-! ## The reader of the SDK -/

namespace Sdk
open JavaScript

/-- One deployment generation. -/
structure Generation where
  network : Text
  registry : Text
  verifier : Text
  aggregatorKeySha256 : Text
  registryWasmSha256 : Text
  verifierWasmSha256 : Text
  treeDepth : Nat
deriving DecidableEq

/-- The network, a zero character, and the registry. -/
def Generation.pair (generation : Generation) : Text :=
  generation.network ++ [.scalar '\x00'] ++ generation.registry

/-- The record of one pair. -/
def Generation.names (network registry : Text) (generation : Generation) : Bool :=
  generation.network = network && generation.registry = registry

/-- A string that is not empty. -/
def recordField (record : List (Text × Value)) (key : String) (position : Nat) :
    Except DeploymentsError Text :=
  match property record key with
  | some (.string (point :: text)) => .ok (point :: text)
  | _ => .error (.unreadable s!"the deployment record at position {position} carries no {key}")

/-- An integer from one on. -/
def treeDepthField (record : List (Text × Value)) (position : Nat) :
    Except DeploymentsError Nat :=
  let missing : DeploymentsError :=
    .unreadable s!"the deployment record at position {position} carries no tree_depth"
  match property record "tree_depth" with
  | some (.number value) =>
    match value.toInt? with
    | some depth => if 1 ≤ depth then .ok depth.toNat else .error missing
    | none => .error missing
  | _ => .error missing

def generation (record : Value) (position : Nat) : Except DeploymentsError Generation :=
  match record with
  | .object fields => do
    let treeDepth ← treeDepthField fields position
    let network ← recordField fields "network" position
    let registry ← recordField fields "registry" position
    let verifier ← recordField fields "verifier" position
    let aggregatorKeySha256 ← recordField fields "aggregator_key_sha256" position
    let registryWasmSha256 ← recordField fields "registry_wasm_sha256" position
    let verifierWasmSha256 ← recordField fields "verifier_wasm_sha256" position
    return { network, registry, verifier, aggregatorKeySha256, registryWasmSha256,
             verifierWasmSha256, treeDepth }
  | _ => .error (.unreadable s!"the deployment record at position {position} is not an object")

/-- The refusal of a file that names one pair twice. -/
def refuseRepeat (generations : List Generation) : Except DeploymentsError Unit :=
  match firstRepeat Generation.pair [] generations with
  | none => .ok ()
  | some one =>
    .error (.contradictory (s!"the deployments file names the registry " ++
      s!"{one.registry.toString?.getD default} on the network " ++
      s!"{one.network.toString?.getD default} twice"))

/-- Reads every generation of the file, in the order the file records them. -/
def parseDeployments (text : String) : Except DeploymentsError (List Generation) := do
  let parsed ← orUnreadable (JavaScript.parse text) "the deployments file is not valid JSON"
  let records ← orUnreadable parsed.elements? "the deployments file is a list of records"
  let generations ← records.zipIdx.mapM fun (record, position) => generation record position
  refuseRepeat generations
  return generations

/-- The current generation of one network: the last record that names it. -/
def currentGeneration (text : String) (network : Text) :
    Except DeploymentsError (Option Generation) :=
  (parseDeployments text).map fun generations =>
    generations.foldl
      (fun current generation => if generation.network = network then some generation else current)
      none

/-- The generation that one pair of a network and a registry names. -/
def findGeneration (text : String) (network registry : Text) :
    Except DeploymentsError (Option Generation) :=
  (parseDeployments text).map fun generations =>
    generations.find? (Generation.names network registry)

theorem nodup_of_parseDeployments {text : String} {gens : List Generation}
    (h : parseDeployments text = .ok gens) : (gens.map Generation.pair).Nodup := by
  simp only [parseDeployments, bind_eq_ok] at h
  obtain ⟨json, -, records, -, gens', -, _, hrepeat, hout⟩ := h
  cases hout
  unfold refuseRepeat at hrepeat
  split at hrepeat
  · rename_i hnone
    exact firstRepeat_nil_eq_none.mp hnone
  · cases hrepeat

/-- **A generation that is found is the only record of its pair.** -/
theorem findGeneration_eq_some {text : String} {network registry : Text} {g : Generation}
    (h : findGeneration text network registry = .ok (some g)) :
    ∃ gens, parseDeployments text = .ok gens ∧
      gens.filter (Generation.names network registry) = [g] ∧
      g.network = network ∧ g.registry = registry := by
  unfold findGeneration at h
  cases hgens : parseDeployments text with
  | error reason =>
    rw [hgens] at h
    cases h
  | ok gens =>
    rw [hgens] at h
    have hfind : gens.find? (Generation.names network registry) = some g := Except.ok.inj h
    have hnames := List.find?_some hfind
    simp only [Generation.names, Bool.and_eq_true, decide_eq_true_eq] at hnames
    refine ⟨gens, rfl, filter_eq_singleton_of_nodup (nodup_of_parseDeployments hgens) ?_ hfind,
      hnames⟩
    intro y z hy hz
    simp only [Generation.names, Bool.and_eq_true, decide_eq_true_eq] at hy hz
    rw [Generation.pair, Generation.pair, hy.1, hy.2, hz.1, hz.2]

end Sdk
end ZkPoR
