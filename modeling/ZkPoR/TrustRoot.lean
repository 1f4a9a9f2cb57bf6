import ZkPoR.Deployments
import ZkPoR.JsonAgreement

/-! # The deployments file as a trust root

A file whose records are all readable either names some pair twice, and then it
answers nothing, or every pair names at most one record (`TrustRoot`).  The reader
of the Rust tools keeps this law on every file.  The reader of the SDK compares one
joined text of the pair, and rounds a tree depth, so it keeps the law exactly on the
files that `Trusted` leaves.
-/
namespace ZkPoR
open JsonText BoundedLoop

/-! ## The law of one reader -/

/-- What a query of the deployments file answers. -/
inductive Answer (γ : Type)
  | unreadable (reason : String)
  | contradictory
  | absent
  | record (found : γ)

/-- Both queries are refused, are without a record, or found related records. -/
def Answer.Same {γ γ' : Type} (same : γ → γ' → Prop) : Answer γ → Answer γ' → Prop
  | .contradictory, .contradictory => True
  | .absent, .absent => True
  | .record g, .record g' => same g g'
  | _, _ => False

/-- The answer of a query that always has a record. -/
def Answer.ofRead {γ : Type} : Except DeploymentsError γ → Answer γ
  | .ok g => .record g
  | .error (.unreadable reason) => .unreadable reason
  | .error (.contradictory _) => .contradictory

/-- The answer of a search in the records. -/
def Answer.ofOption {γ : Type} : Option γ → Answer γ
  | some g => .record g
  | none => .absent

/-- The answer of a query that can be without a record. -/
def Answer.ofQuery {γ : Type} : Except DeploymentsError (Option γ) → Answer γ
  | .ok found => .ofOption found
  | .error (.unreadable reason) => .unreadable reason
  | .error (.contradictory _) => .contradictory

section Law
variable {γ τ : Type} [DecidableEq τ] (pair : γ → τ × τ) (records : List γ)

/-- Two positions hold one pair. -/
def Repeats : Prop :=
  ∃ i j : Nat, i ≠ j ∧ ∃ g h, records[i]? = some g ∧ records[j]? = some h ∧ pair g = pair h

/-- The records of one pair. -/
def recordsOf (network registry : τ) : List γ :=
  records.filter fun g => pair g = (network, registry)

/-- The records of one network. -/
def recordsOn (network : τ) : List γ := records.filter fun g => (pair g).1 = network

/-- The law of a trust root: a repeated pair refuses every query; without one, a pair
finds its only record, and the current generation is the last record of its network. -/
structure TrustRoot (all : Answer (List γ)) (find : τ → τ → Answer γ) (current : τ → Answer γ) :
    Prop where
  refuses : (all = .contradictory ∧ (∀ network registry, find network registry = .contradictory) ∧
      ∀ network, current network = .contradictory) ↔ Repeats pair records
  all : ¬ Repeats pair records → all = .record records
  find : ¬ Repeats pair records → ∀ network registry,
    (∃ g, recordsOf pair records network registry = [g] ∧ find network registry = .record g) ∨
      (recordsOf pair records network registry = [] ∧ find network registry = .absent)
  current : ¬ Repeats pair records → ∀ network,
    (∃ g, (recordsOn pair records network).getLast? = some g ∧ current network = .record g) ∨
      (recordsOn pair records network = [] ∧ current network = .absent)

variable {pair records}

omit [DecidableEq τ] in
theorem repeats_iff : Repeats pair records ↔ ¬ (records.map pair).Nodup := by
  rw [List.nodup_iff_getElem?_ne_getElem?]
  constructor
  · rintro ⟨i, j, hne, g, h, hi, hj, heq⟩ hnodup
    have hget : ∀ {k : Nat} {x : γ}, records[k]? = some x →
        k < (records.map pair).length ∧ (records.map pair)[k]? = some (pair x) := by
      intro k x hk
      obtain ⟨hlt, -⟩ := List.getElem?_eq_some_iff.mp hk
      exact ⟨by rwa [List.length_map], by rw [List.getElem?_map, hk]; rfl⟩
    obtain ⟨hilt, hi⟩ := hget hi
    obtain ⟨hjlt, hj⟩ := hget hj
    rcases Nat.lt_or_gt_of_ne hne with hlt | hlt
    · exact hnodup i j hlt hjlt (by rw [hi, hj, heq])
    · exact hnodup j i hlt hilt (by rw [hi, hj, heq])
  · intro h
    push Not at h
    obtain ⟨i, j, hlt, hj, heq⟩ := h
    rw [List.length_map] at hj
    refine ⟨i, j, hlt.ne, records[i], records[j], List.getElem?_eq_getElem _,
      List.getElem?_eq_getElem _, ?_⟩
    simpa [List.getElem?_map, List.getElem?_eq_getElem, hj, hlt.trans hj] using heq

omit [DecidableEq τ] in
theorem nodup_of_not_repeats (h : ¬ Repeats pair records) : (records.map pair).Nodup := by
  rwa [repeats_iff, not_not] at h

/-- Without a repeated pair, a search finds the only record of the pair. -/
theorem find?_of_nodup (hnodup : (records.map pair).Nodup) (network registry : τ) :
    (∃ g, recordsOf pair records network registry = [g] ∧
      records.find? (fun g => pair g = (network, registry)) = some g) ∨
    (recordsOf pair records network registry = [] ∧
      records.find? (fun g => pair g = (network, registry)) = none) := by
  cases hfind : records.find? fun g => decide (pair g = (network, registry)) with
  | some g =>
    refine .inl ⟨g, filter_eq_singleton_of_nodup hnodup ?_ hfind, rfl⟩
    intro y z hy hz
    exact (of_decide_eq_true hy).trans (of_decide_eq_true hz).symm
  | none =>
    refine .inr ⟨?_, rfl⟩
    rw [recordsOf, List.filter_eq_nil_iff]
    exact List.find?_eq_none.mp hfind

theorem getLast?_recordsOn (network : τ) :
    (∃ g, (recordsOn pair records network).getLast? = some g ∧
      records.reverse.find? (fun g => (pair g).1 = network) = some g) ∨
    (recordsOn pair records network = [] ∧
      records.reverse.find? (fun g => (pair g).1 = network) = none) := by
  have hfind : records.reverse.find? (fun g => (pair g).1 = network) =
      (recordsOn pair records network).getLast? := by
    rw [← List.head?_filter, List.filter_reverse, List.head?_reverse, recordsOn]
  cases hlast : (recordsOn pair records network).getLast? with
  | some g => exact .inl ⟨g, rfl, hfind.trans hlast⟩
  | none => exact .inr ⟨List.getLast?_eq_none_iff.mp hlast, hfind.trans hlast⟩

/-- A reader that refuses exactly a repeated pair, and otherwise searches its records. -/
theorem TrustRoot.of_search {all : Answer (List γ)} {find : τ → τ → Answer γ}
    {current : τ → Answer γ}
    (hrepeats : Repeats pair records → all = .contradictory ∧
      (∀ network registry, find network registry = .contradictory) ∧
      ∀ network, current network = .contradictory)
    (hall : ¬ Repeats pair records → all = .record records)
    (hfind : ¬ Repeats pair records → ∀ network registry, find network registry =
      .ofOption (records.find? fun g => pair g = (network, registry)))
    (hcurrent : ¬ Repeats pair records → ∀ network, current network =
      .ofOption (records.reverse.find? fun g => (pair g).1 = network)) :
    TrustRoot pair records all find current where
  refuses := by
    refine ⟨fun ⟨hrefused, _⟩ => ?_, hrepeats⟩
    by_contra hno
    rw [hall hno] at hrefused
    cases hrefused
  all := hall
  find := by
    intro hno network registry
    rw [hfind hno]
    refine (find?_of_nodup (nodup_of_not_repeats hno) network registry).imp ?_ ?_
    · rintro ⟨g, hg, hfound⟩
      exact ⟨g, hg, by rw [hfound, Answer.ofOption]⟩
    · rintro ⟨hnil, hfound⟩
      exact ⟨hnil, by rw [hfound, Answer.ofOption]⟩
  current := by
    intro hno network
    rw [hcurrent hno]
    rcases @getLast?_recordsOn γ τ _ pair records network with ⟨g, hg, hfound⟩ | ⟨hnil, hfound⟩
    · exact .inl ⟨g, hg, by rw [hfound, Answer.ofOption]⟩
    · exact .inr ⟨hnil, by rw [hfound, Answer.ofOption]⟩

end Law

/-! ## The reader of the Rust tools -/

namespace Deployments

/-- The records of a text, each readable on its own. -/
def Records (serde : SerdeJson) (text : String) (records : List Generation) : Prop :=
  ∃ json values, serde.fromStr text = .ok json ∧ json.asArray = some values ∧
    values.mapM generation = .ok records

/-- The answer about the current generation.  A network without a record has an error
of its own. -/
def currentAnswer (serde : SerdeJson) (text network : String) : Answer Generation :=
  match current serde text network with
  | .ok g => .record g
  | .error (.unreadable reason) =>
    if reason = s!"no deployment generation for network {network}" then .absent
    else .unreadable reason
  | .error (.contradictory _) => .contradictory

variable {serde : SerdeJson} {text : String} {records : List Generation}

theorem generations_of_records (h : Records serde text records) :
    generations serde text = (refuseRepeat records).map fun _ => records := by
  obtain ⟨json, values, hjson, hvalues, hrecords⟩ := h
  simp only [generations, hjson, hvalues, hrecords, orUnreadable, Except.mapError, bind,
    Except.bind]
  cases refuseRepeat records <;> rfl

theorem refuseRepeat_of_nodup (h : (records.map Generation.pair).Nodup) :
    refuseRepeat records = .ok () := by
  rw [refuseRepeat, firstRepeat_nil_eq_none.mpr h]

theorem refuseRepeat_of_not_nodup (h : ¬ (records.map Generation.pair).Nodup) :
    ∃ reason, refuseRepeat records = .error (.contradictory reason) := by
  obtain ⟨one, hone⟩ := exists_firstRepeat h
  rw [refuseRepeat, hone]
  exact ⟨_, rfl⟩

/-- **The Rust reader keeps the law on every text of readable records.** -/
theorem trustRoot (h : Records serde text records) :
    TrustRoot Generation.pair records (.ofRead (generations serde text))
      (fun network registry => .ofQuery (find serde text network registry))
      (currentAnswer serde text) := by
  have hok : ¬ Repeats Generation.pair records → generations serde text = .ok records := by
    intro hno
    rw [generations_of_records h, refuseRepeat_of_nodup (nodup_of_not_repeats hno), Except.map]
  refine TrustRoot.of_search ?_ ?_ ?_ ?_
  · intro hrepeats
    obtain ⟨reason, hreason⟩ := refuseRepeat_of_not_nodup (repeats_iff.mp hrepeats)
    have herror : generations serde text = .error (.contradictory reason) := by
      rw [generations_of_records h, hreason, Except.map]
    refine ⟨by rw [herror, Answer.ofRead], fun network registry => ?_, fun network => ?_⟩
    · rw [find, herror, Except.map, Answer.ofQuery]
    · rw [currentAnswer, current, herror]
      rfl
  · intro hno
    rw [hok hno, Answer.ofRead]
  · intro hno network registry
    have hnames : Generation.names network registry =
        fun g => decide (Generation.pair g = (network, registry)) := by
      funext g
      simp [Generation.names, Generation.pair]
    rw [find, hok hno, hnames, Except.map, Answer.ofQuery]
  · intro hno network
    have hcurrent : current serde text network = orUnreadable
        (records.reverse.find? fun g => (Generation.pair g).1 = network)
        s!"no deployment generation for network {network}" := by
      rw [current, hok hno]
      rfl
    rw [currentAnswer, hcurrent]
    cases records.reverse.find? fun g => decide ((Generation.pair g).1 = network) with
    | some g => rfl
    | none => exact if_pos rfl

end Deployments

/-! ## The reader of the SDK -/

namespace Sdk

/-- The pair itself, which the reader joins into one text. -/
def Generation.networkAndRegistry (generation : Generation) : Text × Text :=
  (generation.network, generation.registry)

/-- The records of a text, each readable on its own. -/
def Records (text : String) (records : List Generation) : Prop :=
  ∃ parsed values, JavaScript.parse text = some parsed ∧ parsed.elements? = some values ∧
    (values.zipIdx.mapM fun (record, position) => generation record position) = .ok records

/-- Records whose pairs differ have different joined texts. -/
def Unaliased (records : List Generation) : Prop :=
  ∀ g ∈ records, ∀ h ∈ records, g.pair = h.pair → g.networkAndRegistry = h.networkAndRegistry

variable {text : String} {records : List Generation}

theorem parseDeployments_of_records (h : Records text records) :
    parseDeployments text = (refuseRepeat records).map fun _ => records := by
  obtain ⟨parsed, values, hparsed, hvalues, hrecords⟩ := h
  simp only [parseDeployments, hparsed, hvalues, hrecords, orUnreadable, bind, Except.bind]
  cases refuseRepeat records <;> rfl

theorem refuseRepeat_of_nodup (h : (records.map Generation.pair).Nodup) :
    refuseRepeat records = .ok () := by
  rw [refuseRepeat, firstRepeat_nil_eq_none.mpr h]

theorem refuseRepeat_of_not_nodup (h : ¬ (records.map Generation.pair).Nodup) :
    ∃ reason, refuseRepeat records = .error (.contradictory reason) := by
  obtain ⟨one, hone⟩ := exists_firstRepeat h
  rw [refuseRepeat, hone]
  exact ⟨_, rfl⟩

/-- A repeated pair is a repeated joined text. -/
theorem pair_of_networkAndRegistry {g h : Generation}
    (heq : g.networkAndRegistry = h.networkAndRegistry) : g.pair = h.pair := by
  rw [Generation.networkAndRegistry, Generation.networkAndRegistry, Prod.mk.injEq] at heq
  rw [Generation.pair, Generation.pair, heq.1, heq.2]

theorem nodup_of_nodup_pair (h : (records.map Generation.pair).Nodup) :
    (records.map Generation.networkAndRegistry).Nodup := by
  rw [List.nodup_map_iff_inj_on h.of_map]
  intro x hx y hy heq
  exact List.inj_on_of_nodup_map h hx hy (pair_of_networkAndRegistry heq)

theorem nodup_pair_of_unaliased (hkeys : Unaliased records)
    (h : (records.map Generation.networkAndRegistry).Nodup) :
    (records.map Generation.pair).Nodup := by
  rw [List.nodup_map_iff_inj_on h.of_map]
  intro x hx y hy heq
  exact List.inj_on_of_nodup_map h hx hy (hkeys x hx y hy heq)

/-- The last record that the loop kept. -/
theorem foldl_current (network : Text) (start : Option Generation) (records : List Generation) :
    records.foldl
      (fun current generation => if generation.network = network then some generation else current)
      start =
      (records.reverse.find? fun g => g.networkAndRegistry.1 = network).or start := by
  induction records generalizing start with
  | nil => rfl
  | cons g records ih =>
    rw [List.foldl_cons, ih, List.reverse_cons, List.find?_append, List.find?_singleton]
    by_cases h : g.network = network <;> simp [Generation.networkAndRegistry, h]

/-- **The reader of the SDK keeps the law on a text whose joined texts tell the pairs
apart.** -/
theorem trustRoot (h : Records text records)
    (hkeys : Repeats Generation.networkAndRegistry records ∨ Unaliased records) :
    TrustRoot Generation.networkAndRegistry records (.ofRead (parseDeployments text))
      (fun network registry => .ofQuery (findGeneration text network registry))
      (fun network => .ofQuery (currentGeneration text network)) := by
  have hok : ¬ Repeats Generation.networkAndRegistry records →
      parseDeployments text = .ok records := by
    intro hno
    have hnodup := nodup_pair_of_unaliased (hkeys.resolve_left hno) (nodup_of_not_repeats hno)
    rw [parseDeployments_of_records h, refuseRepeat_of_nodup hnodup, Except.map]
  refine TrustRoot.of_search ?_ ?_ ?_ ?_
  · intro hrepeats
    obtain ⟨reason, hreason⟩ := refuseRepeat_of_not_nodup fun hnodup =>
      repeats_iff.mp hrepeats (nodup_of_nodup_pair hnodup)
    have herror : parseDeployments text = .error (.contradictory reason) := by
      rw [parseDeployments_of_records h, hreason, Except.map]
    refine ⟨by rw [herror, Answer.ofRead], fun network registry => ?_, fun network => ?_⟩
    · rw [findGeneration, herror, Except.map, Answer.ofQuery]
    · rw [currentGeneration, herror, Except.map, Answer.ofQuery]
  · intro hno
    rw [hok hno, Answer.ofRead]
  · intro hno network registry
    have hnames : Generation.names network registry =
        fun g => decide (Generation.networkAndRegistry g = (network, registry)) := by
      funext g
      simp [Generation.names, Generation.networkAndRegistry]
    rw [findGeneration, hok hno, hnames, Except.map, Answer.ofQuery]
  · intro hno network
    rw [currentGeneration, hok hno, Except.map, Answer.ofQuery, foldl_current, Option.or_none]

end Sdk
/-! ## Both readers on one text -/

/-- Both records name one generation. -/
structure SameGeneration (g : Deployments.Generation) (g' : Sdk.Generation) : Prop where
  network : g'.network = Text.ofString g.network
  registry : g'.registry = Text.ofString g.registry
  treeDepth : g'.treeDepth = g.treeDepth

/-- The number is one of the doubles, so `JSON.parse` keeps it. -/
def IsDouble (n : Nat) : Prop := (JavaScript.toDouble (natural n)).toInt? = some (n : Int)

/-- What one record of a text is in both readers: the SDK rounds the tree depth. -/
structure Rounded (g : Deployments.Generation) (g' : Sdk.Generation) : Prop where
  network : g'.network = Text.ofString g.network
  registry : g'.registry = Text.ofString g.registry
  treeDepth : (JavaScript.toDouble (natural g.treeDepth)).toInt? = some (g'.treeDepth : Int)

theorem Rounded.same_iff {g : Deployments.Generation} {g' : Sdk.Generation} (h : Rounded g g') :
    SameGeneration g g' ↔ IsDouble g.treeDepth := by
  constructor
  · intro hsame
    rw [IsDouble, h.treeDepth, hsame.treeDepth]
  · intro hdouble
    refine ⟨h.network, h.registry, ?_⟩
    rw [IsDouble, h.treeDepth] at hdouble
    exact Int.ofNat.inj (Option.some.inj hdouble)

theorem Deployments.recordText_eq_ok {record : SerdeJson.Value} {name text : String} :
    Deployments.recordText record name = .ok text ↔ record.index name = .string text := by
  unfold Deployments.recordText
  cases record.index name <;> simp [SerdeJson.Value.asStr]

theorem Deployments.generation_eq_ok {record : SerdeJson.Value} {g : Deployments.Generation}
    (h : Deployments.generation record = .ok g) :
    record.index "network" = .string g.network ∧ record.index "registry" = .string g.registry ∧
      ∃ depth, record.index "tree_depth" = .number (.posInt depth) ∧ g.treeDepth = depth.toNat := by
  simp only [Deployments.generation, bind_eq_ok, Deployments.recordText_eq_ok] at h
  obtain ⟨network, hnetwork, registry, hregistry, h⟩ := h
  split at h
  · rename_i depth hdepth
    cases h
    exact ⟨hnetwork, hregistry, depth, Schema.asU64_eq_some.mp hdepth, rfl⟩
  · cases h

theorem Sdk.recordField_eq_ok {record : List (Text × JavaScript.Value)} {key : String}
    {position : Nat} {text : Text} (h : Sdk.recordField record key position = .ok text) :
    JavaScript.property record key = some (.string text) := by
  unfold Sdk.recordField at h
  split at h
  · rename_i hproperty
    cases h
    exact hproperty
  · cases h

theorem Sdk.treeDepthField_eq_ok {record : List (Text × JavaScript.Value)} {position depth : Nat}
    (h : Sdk.treeDepthField record position = .ok depth) :
    ∃ value, JavaScript.property record "tree_depth" = some (.number value) ∧
      value.toInt? = some (depth : Int) := by
  unfold Sdk.treeDepthField at h
  dsimp only at h
  split at h
  · rename_i value hproperty
    split at h
    · rename_i n hn
      split at h
      · rename_i hpos
        cases h
        exact ⟨value, hproperty, by rw [hn, Int.toNat_of_nonneg (by omega)]⟩
      · cases h
    · cases h
  · cases h

theorem Sdk.generation_eq_ok {record : JavaScript.Value} {position : Nat} {g : Sdk.Generation}
    (h : Sdk.generation record position = .ok g) :
    ∃ fields, record = .object fields ∧
      JavaScript.property fields "network" = some (.string g.network) ∧
      JavaScript.property fields "registry" = some (.string g.registry) ∧
      ∃ value, JavaScript.property fields "tree_depth" = some (.number value) ∧
        value.toInt? = some (g.treeDepth : Int) := by
  unfold Sdk.generation at h
  split at h
  · rename_i fields
    simp only [bind_eq_ok] at h
    obtain ⟨depth, hdepth, network, hnetwork, registry, hregistry, _, -, _, -, _, -, _, -, hout⟩ := h
    cases hout
    exact ⟨fields, rfl, Sdk.recordField_eq_ok hnetwork, Sdk.recordField_eq_ok hregistry,
      Sdk.treeDepthField_eq_ok hdepth⟩
  · cases h

/-- One tree, read as a record by both. -/
theorem rounded_of_json {x : Json} {value : SerdeJson.Value} {g : Deployments.Generation}
    {g' : Sdk.Generation} {position : Nat} (hvalue : SerdeJson.ofJson x = some value)
    (hg : Deployments.generation value = .ok g)
    (hg' : Sdk.generation (JavaScript.ofJson x) position = .ok g') : Rounded g g' := by
  obtain ⟨hnetwork, hregistry, depth, hdepth, hdepthNat⟩ := Deployments.generation_eq_ok hg
  obtain ⟨fields, hfields, hnetwork', hregistry', number, hnumber, hdepth'⟩ :=
    Sdk.generation_eq_ok hg'
  obtain ⟨members, rfl⟩ : ∃ members, x = .object members := by
    cases x
    case object members => exact ⟨members, rfl⟩
    all_goals cases hfields
  rw [SerdeJson.ofJson, Option.map_eq_some_iff] at hvalue
  obtain ⟨out, hout, rfl⟩ := hvalue
  rw [JavaScript.ofJson, JavaScript.Value.object.injEq] at hfields
  subst hfields
  rw [JavaScript.property_of_index_string hout hnetwork] at hnetwork'
  rw [JavaScript.property_of_index_string hout hregistry] at hregistry'
  rw [JavaScript.property_of_index_posInt hout hdepth] at hnumber
  cases hnumber
  refine ⟨?_, ?_, ?_⟩
  · exact (JavaScript.Value.string.inj (Option.some.inj hnetwork')).symm
  · exact (JavaScript.Value.string.inj (Option.some.inj hregistry')).symm
  · rw [hdepthNat]
    exact hdepth'

/-- Two relations, one after the other, over lists. -/
theorem forall₂_comp {α β γ : Type} {R : α → β → Prop} {S : β → γ → Prop} {T : α → γ → Prop}
    (hT : ∀ a b c, R a b → S b c → T a c) {xs : List α} {ys : List β} {zs : List γ}
    (hR : List.Forall₂ R xs ys) (hS : List.Forall₂ S ys zs) : List.Forall₂ T xs zs := by
  induction hR generalizing zs with
  | nil =>
    cases hS
    exact .nil
  | cons hab _ ih =>
    cases hS with
    | cons hbc hS => exact .cons (hT _ _ _ hab hbc) (ih hS)

/-- **The records of one text**: the SDK reads those of the Rust reader, with rounded
tree depths. -/
theorem rounded_of_records {serde : SerdeJson} (hserde : serde.Documented) {text : String}
    {records : List Deployments.Generation} {sdkRecords : List Sdk.Generation}
    (h : Deployments.Records serde text records) (h' : Sdk.Records text sdkRecords) :
    List.Forall₂ Rounded records sdkRecords := by
  obtain ⟨json, values, hjson, hvalues, hrecords⟩ := h
  obtain ⟨parsed, elements, hparsed, helements, hsdk⟩ := h'
  obtain ⟨x, hx, hxjson⟩ := hserde.sound hjson
  rw [Schema.asArray_eq_some] at hvalues
  subst hvalues
  obtain ⟨xs, rfl, hxs⟩ := SerdeJson.ofJson_eq_array.mp hxjson
  rw [JavaScript.parse, hx, Option.map_some, JavaScript.ofJson, JavaScript.ofElements_eq_map] at hparsed
  cases hparsed
  cases helements
  rw [mapM_eq_ok_iff] at hrecords hsdk
  -- the positions do not matter to the records
  have hsdk' : List.Forall₂ (fun element g' => ∃ position,
      Sdk.generation element position = .ok g') (xs.map JavaScript.ofJson) sdkRecords := by
    rw [← List.zipIdx_map_fst 0 (xs.map JavaScript.ofJson), List.forall₂_map_left_iff]
    exact hsdk.imp fun entry g' hentry => ⟨entry.2, hentry⟩
  rw [List.forall₂_map_left_iff] at hsdk'
  have hrust : List.Forall₂ (fun g x => ∃ value, SerdeJson.ofJson x = some value ∧
      Deployments.generation value = .ok g) records xs :=
    List.Forall₂.flip (forall₂_comp (fun _ value _ hx hg => ⟨value, hx, hg⟩) hxs hrecords)
  refine forall₂_comp ?_ hrust hsdk'
  rintro g x g' ⟨value, hvalue, hg⟩ ⟨position, hg'⟩
  exact rounded_of_json hvalue hg hg'

/-- Both readers give one answer to every query. -/
structure Agrees (serde : SerdeJson) (text : String) : Prop where
  all : Answer.Same (List.Forall₂ SameGeneration) (.ofRead (Deployments.generations serde text))
    (.ofRead (Sdk.parseDeployments text))
  find : ∀ network registry, Answer.Same SameGeneration
    (.ofQuery (Deployments.find serde text network registry))
    (.ofQuery (Sdk.findGeneration text (Text.ofString network) (Text.ofString registry)))
  current : ∀ network, Answer.Same SameGeneration (Deployments.currentAnswer serde text network)
    (.ofQuery (Sdk.currentGeneration text (Text.ofString network)))

/-- A pair is repeated in both readers or in neither. -/
theorem repeats_iff_of_rounded {records : List Deployments.Generation}
    {sdkRecords : List Sdk.Generation} (h : List.Forall₂ Rounded records sdkRecords) :
    Repeats Deployments.Generation.pair records ↔
      Repeats Sdk.Generation.networkAndRegistry sdkRecords := by
  have hmap : sdkRecords.map Sdk.Generation.networkAndRegistry =
      (records.map Deployments.Generation.pair).map (Prod.map Text.ofString Text.ofString) := by
    induction h with
    | nil => rfl
    | cons hround _ ih =>
      rw [List.map_cons, List.map_cons, List.map_cons, ih, Sdk.Generation.networkAndRegistry,
        hround.network, hround.registry]
      rfl
  rw [repeats_iff, repeats_iff, hmap, List.nodup_map_iff
    (Function.Injective.prodMap Text.ofString_injective Text.ofString_injective)]

theorem forall₂_recordsOf {records : List Deployments.Generation}
    {sdkRecords : List Sdk.Generation} (h : List.Forall₂ SameGeneration records sdkRecords)
    (network registry : String) :
    List.Forall₂ SameGeneration (recordsOf Deployments.Generation.pair records network registry)
      (recordsOf Sdk.Generation.networkAndRegistry sdkRecords (Text.ofString network)
        (Text.ofString registry)) := by
  refine List.rel_filter ?_ h
  intro g g' hsame
  simp only [decide_eq_true_eq, Deployments.Generation.pair, Sdk.Generation.networkAndRegistry,
    Prod.mk.injEq, hsame.network, hsame.registry, Text.ofString_injective.eq_iff]

theorem forall₂_recordsOn {records : List Deployments.Generation}
    {sdkRecords : List Sdk.Generation} (h : List.Forall₂ SameGeneration records sdkRecords)
    (network : String) :
    List.Forall₂ SameGeneration (recordsOn Deployments.Generation.pair records network)
      (recordsOn Sdk.Generation.networkAndRegistry sdkRecords (Text.ofString network)) := by
  refine List.rel_filter ?_ h
  intro g g' hsame
  have hiff : g.network = network ↔ g'.network = Text.ofString network := by
    rw [hsame.network, Text.ofString_injective.eq_iff]
  exact decide_eq_true_iff.trans (hiff.trans decide_eq_true_iff.symm)

/-- The readers agree when both keep the law and no tree depth is rounded. -/
theorem agrees_of_trustRoot {serde : SerdeJson} {text : String}
    {records : List Deployments.Generation} {sdkRecords : List Sdk.Generation}
    (h : TrustRoot Deployments.Generation.pair records
      (.ofRead (Deployments.generations serde text))
      (fun network registry => .ofQuery (Deployments.find serde text network registry))
      (Deployments.currentAnswer serde text))
    (h' : TrustRoot Sdk.Generation.networkAndRegistry sdkRecords
      (.ofRead (Sdk.parseDeployments text))
      (fun network registry => .ofQuery (Sdk.findGeneration text network registry))
      (fun network => .ofQuery (Sdk.currentGeneration text network)))
    (hround : List.Forall₂ Rounded records sdkRecords)
    (hdepth : Repeats Sdk.Generation.networkAndRegistry sdkRecords ∨
      ∀ g ∈ records, IsDouble g.treeDepth) : Agrees serde text := by
  by_cases hrepeats : Repeats Deployments.Generation.pair records
  · obtain ⟨hall, hfind, hcurrent⟩ := h.refuses.mpr hrepeats
    obtain ⟨hall', hfind', hcurrent'⟩ :=
      h'.refuses.mpr ((repeats_iff_of_rounded hround).mp hrepeats)
    exact {
      all := by rw [hall, hall']; trivial
      find := fun network registry => by rw [hfind, hfind']; trivial
      current := fun network => by rw [hcurrent, hcurrent']; trivial }
  have hrepeats' := (repeats_iff_of_rounded hround).not.mp hrepeats
  have hsame : List.Forall₂ SameGeneration records sdkRecords := by
    refine ((List.forall₂_and_left _ _).mpr ⟨hdepth.resolve_left hrepeats', hround⟩).imp ?_
    exact fun g g' hg => hg.2.same_iff.mpr hg.1
  exact {
    all := by
      rw [h.all hrepeats, h'.all hrepeats']
      exact hsame
    find := fun network registry => by
      have hfilter := forall₂_recordsOf hsame network registry
      rcases h.find hrepeats network registry with ⟨g, hg, hfind⟩ | ⟨hg, hfind⟩
      · rcases h'.find hrepeats' (Text.ofString network) (Text.ofString registry) with
          ⟨g', hg', hfind'⟩ | ⟨hg', -⟩
        · rw [hg, hg'] at hfilter
          rw [hfind, hfind']
          exact (List.forall₂_cons.mp hfilter).1
        · rw [hg, hg'] at hfilter
          cases hfilter
      · rcases h'.find hrepeats' (Text.ofString network) (Text.ofString registry) with
          ⟨g', hg', -⟩ | ⟨-, hfind'⟩
        · rw [hg, hg'] at hfilter
          cases hfilter
        · rw [hfind, hfind']
          trivial
    current := fun network => by
      have hfilter := List.forall₂_reverse_iff.mpr (forall₂_recordsOn hsame network)
      rcases h.current hrepeats network with ⟨g, hg, hcurrent⟩ | ⟨hg, hcurrent⟩
      · rcases h'.current hrepeats' (Text.ofString network) with ⟨g', hg', hcurrent'⟩ | ⟨hg', -⟩
        · rw [List.getLast?_eq_head?_reverse] at hg hg'
          obtain ⟨gs, hgs⟩ := List.head?_eq_some_iff.mp hg
          obtain ⟨gs', hgs'⟩ := List.head?_eq_some_iff.mp hg'
          rw [hgs, hgs'] at hfilter
          rw [hcurrent, hcurrent']
          exact (List.forall₂_cons.mp hfilter).1
        · rw [hg', List.reverse_nil, List.forall₂_nil_right_iff, List.reverse_eq_nil_iff] at hfilter
          rw [hfilter] at hg
          cases hg
      · rcases h'.current hrepeats' (Text.ofString network) with ⟨g', hg', -⟩ | ⟨-, hcurrent'⟩
        · rw [hg, List.reverse_nil, List.forall₂_nil_left_iff, List.reverse_eq_nil_iff] at hfilter
          rw [hfilter] at hg'
          cases hg'
        · rw [hcurrent, hcurrent']
          trivial }

/-! ## The files that both readers trust alike -/

/-- The law of the trust root in both readers, and one answer from both. -/
structure Trusted (serde : SerdeJson) (text : String) : Prop where
  rust : ∀ records, Deployments.Records serde text records →
    TrustRoot Deployments.Generation.pair records (.ofRead (Deployments.generations serde text))
      (fun network registry => .ofQuery (Deployments.find serde text network registry))
      (Deployments.currentAnswer serde text)
  sdk : ∀ records, Sdk.Records text records →
    TrustRoot Sdk.Generation.networkAndRegistry records (.ofRead (Sdk.parseDeployments text))
      (fun network registry => .ofQuery (Sdk.findGeneration text network registry))
      (fun network => .ofQuery (Sdk.currentGeneration text network))
  agrees : ∀ records sdkRecords, Deployments.Records serde text records →
    Sdk.Records text sdkRecords → Agrees serde text

/-- Without a repeated pair the law needs joined texts that tell the pairs apart. -/
theorem Sdk.unaliased_of_trustRoot {text : String} {records : List Sdk.Generation}
    (hrecords : Sdk.Records text records)
    (h : TrustRoot Sdk.Generation.networkAndRegistry records (.ofRead (Sdk.parseDeployments text))
      (fun network registry => .ofQuery (Sdk.findGeneration text network registry))
      (fun network => .ofQuery (Sdk.currentGeneration text network)))
    (hrepeats : ¬ Repeats Sdk.Generation.networkAndRegistry records) : Sdk.Unaliased records := by
  have hnodup : (records.map Sdk.Generation.pair).Nodup := by
    by_contra hdup
    obtain ⟨reason, hreason⟩ := Sdk.refuseRepeat_of_not_nodup hdup
    have hall := h.all hrepeats
    rw [Sdk.parseDeployments_of_records hrecords, hreason] at hall
    cases hall
  intro g hg h hh heq
  rw [List.inj_on_of_nodup_map hnodup hg hh heq]

/-- **Both readers keep the law of the trust root exactly when** a pair is repeated, or
the joined texts tell the pairs apart and no tree depth is rounded. -/
theorem trusted_iff {serde : SerdeJson} (hserde : serde.Documented) (text : String) :
    Trusted serde text ↔ ∀ sdkRecords, Sdk.Records text sdkRecords →
      Repeats Sdk.Generation.networkAndRegistry sdkRecords ∨ Sdk.Unaliased sdkRecords ∧
        ∀ records, Deployments.Records serde text records →
          ∀ g ∈ records, IsDouble g.treeDepth := by
  constructor
  · intro h sdkRecords hsdk
    by_cases hrepeats : Repeats Sdk.Generation.networkAndRegistry sdkRecords
    · exact .inl hrepeats
    refine .inr ⟨Sdk.unaliased_of_trustRoot hsdk (h.sdk _ hsdk) hrepeats, ?_⟩
    intro records hrecords g hg
    have hround := rounded_of_records hserde hrecords hsdk
    have hall := (h.agrees _ _ hrecords hsdk).all
    rw [(h.rust _ hrecords).all ((repeats_iff_of_rounded hround).not.mpr hrepeats),
      (h.sdk _ hsdk).all hrepeats] at hall
    have hboth := hround.mp (fun g g' hg (hg' : SameGeneration g g') => And.intro hg hg') hall
    obtain ⟨i, hi, rfl⟩ := List.mem_iff_getElem.mp hg
    have hget := hboth.get hi (hboth.length_eq ▸ hi)
    exact hget.1.same_iff.mp hget.2
  · intro h
    have hsdk : ∀ records, Sdk.Records text records → TrustRoot Sdk.Generation.networkAndRegistry
        records (.ofRead (Sdk.parseDeployments text))
        (fun network registry => .ofQuery (Sdk.findGeneration text network registry))
        (fun network => .ofQuery (Sdk.currentGeneration text network)) := fun records hrecords =>
      Sdk.trustRoot hrecords ((h _ hrecords).imp_right And.left)
    refine ⟨fun records hrecords => Deployments.trustRoot hrecords, hsdk, ?_⟩
    intro records sdkRecords hrecords hsdkRecords
    exact agrees_of_trustRoot (Deployments.trustRoot hrecords) (hsdk _ hsdkRecords)
      (rounded_of_records hserde hrecords hsdkRecords)
      ((h _ hsdkRecords).imp_right fun hkeys => hkeys.2 _ hrecords)

section Sample
open SerdeJson

/-- One record of a sample file. -/
def sampleRecord (network registry : String) : Value :=
  .object [("aggregator_key_sha256", .string "aa"), ("network", .string network),
    ("registry", .string registry), ("registry_wasm_sha256", .string "bb"),
    ("tree_depth", .number (.posInt 12)), ("verifier", .string "CV"),
    ("verifier_wasm_sha256", .string "cc")]

/-- The same record in the SDK. -/
def sampleSdkRecord (network registry : String) : Sdk.Generation where
  network := Text.ofString network
  registry := Text.ofString registry
  verifier := Text.ofString "CV"
  aggregatorKeySha256 := Text.ofString "aa"
  registryWasmSha256 := Text.ofString "bb"
  verifierWasmSha256 := Text.ofString "cc"
  treeDepth := 12

/-- The text of a file with two records. -/
def sampleFile (first second : String × String) : String :=
  reference.toStringPretty
    (.array [sampleRecord first.1 first.2, sampleRecord second.1 second.2])

/-- The tree of a sample record. -/
def sampleRecordJson (entry : String × String) : Json :=
  (SerdeJson.toJson (sampleRecord entry.1 entry.2)).getD .null

theorem parse_sampleFile (first second : String × String) :
    JsonText.parse (sampleFile first second) =
      some (.array [sampleRecordJson first, sampleRecordJson second]) :=
  reference_documented.pretty rfl

theorem records_sampleFile {first second : String × String} {records : List Sdk.Generation}
    (h : (([sampleRecordJson first, sampleRecordJson second].map JavaScript.ofJson).zipIdx.mapM
      fun (record, position) => Sdk.generation record position) = .ok records) :
    Sdk.Records (sampleFile first second) records := by
  refine ⟨.array ([sampleRecordJson first, sampleRecordJson second].map JavaScript.ofJson), _, ?_, rfl, h⟩
  rw [JavaScript.parse, parse_sampleFile, Option.map_some, JavaScript.ofJson,
    JavaScript.ofElements_eq_map]

theorem Sdk.Records.unique {text : String} {records records' : List Sdk.Generation}
    (h : Sdk.Records text records) (h' : Sdk.Records text records') : records = records' := by
  obtain ⟨parsed, values, hparsed, hvalues, hrecords⟩ := h
  obtain ⟨parsed', values', hparsed', hvalues', hrecords'⟩ := h'
  obtain rfl := Option.some.inj (hparsed.symm.trans hparsed')
  obtain rfl := Option.some.inj (hvalues.symm.trans hvalues')
  exact Except.ok.inj (hrecords.symm.trans hrecords')

/-- The network of the first record and the registry of the second one hold the zero
character that the reader joins with. -/
def aliasedFile : String := sampleFile ("a\u0000b", "c") ("a", "b\u0000c")

theorem records_aliasedFile :
    Sdk.Records aliasedFile [sampleSdkRecord "a\u0000b" "c", sampleSdkRecord "a" "b\u0000c"] :=
  records_sampleFile (by decide +kernel)

/-- The file names two pairs, and the reader of the SDK refuses it. -/
theorem not_trusted_aliasedFile :
    ¬ ∀ (serde : SerdeJson) (text : String), serde.Documented → Trusted serde text := by
  intro h
  have hrepeats : ¬ Repeats Sdk.Generation.networkAndRegistry
      [sampleSdkRecord "a\u0000b" "c", sampleSdkRecord "a" "b\u0000c"] := by
    rw [repeats_iff, not_not]
    decide +kernel
  have hkeys := Sdk.unaliased_of_trustRoot records_aliasedFile
    ((h reference aliasedFile reference_documented).sdk _ records_aliasedFile) hrepeats
  have heq := hkeys _ List.mem_cons_self _ (List.mem_cons_of_mem _ (List.mem_singleton_self _))
    (by decide +kernel)
  revert heq
  decide +kernel

/-- Two generations of one network. -/
def plainFile : String := sampleFile ("testnet", "CFIRST") ("testnet", "CSECOND")

theorem records_plainFile :
    Sdk.Records plainFile [sampleSdkRecord "testnet" "CFIRST", sampleSdkRecord "testnet" "CSECOND"] :=
  records_sampleFile (by decide +kernel)

theorem treeDepth_plainFile {records : List Deployments.Generation}
    (h : Deployments.Records reference plainFile records) : ∀ g ∈ records, g.treeDepth = 12 := by
  obtain ⟨json, values, hjson, hvalues, hrecords⟩ := h
  have hread : reference.fromStr plainFile = .ok (.array [sampleRecord "testnet" "CFIRST",
      sampleRecord "testnet" "CSECOND"]) :=
    reference_documented.reads (parse_sampleFile _ _) (show SerdeJson.plain _ _ = true from rfl) rfl
  obtain rfl := Except.ok.inj (hjson.symm.trans hread)
  cases hvalues
  have hvalue : [sampleRecord "testnet" "CFIRST", sampleRecord "testnet" "CSECOND"].mapM
      Deployments.generation = .ok [⟨"testnet", "CFIRST", 12⟩, ⟨"testnet", "CSECOND", 12⟩] := by
    rfl
  obtain rfl := Except.ok.inj (hrecords.symm.trans hvalue)
  simp

/-- Both readers trust a file with two generations of one network. -/
theorem trusted_plainFile : Trusted reference plainFile := by
  refine (trusted_iff reference_documented plainFile).mpr fun sdkRecords hsdk => .inr ⟨?_, ?_⟩
  · obtain rfl := hsdk.unique records_plainFile
    intro g hg h hh heq
    have hnodup : ([sampleSdkRecord "testnet" "CFIRST", sampleSdkRecord "testnet" "CSECOND"].map
        Sdk.Generation.pair).Nodup := by decide +kernel
    rw [List.inj_on_of_nodup_map hnodup hg hh heq]
  · intro records hrecords g hg
    rw [treeDepth_plainFile hrecords g hg]
    exact JavaScript.toDouble_natural (by decide)

end Sample
end ZkPoR
