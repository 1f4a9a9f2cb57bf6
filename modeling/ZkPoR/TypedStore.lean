import Mathlib.Data.Finmap
import Mathlib.Algebra.Order.BigOperators.Group.Finset
import Mathlib.Tactic.Abel

/-! # A typed key-value store with lifetimes

A finite map whose keys determine the types of their values.  Every entry also
holds the last ledger up to which it is live: a write of a new key starts a
lifetime, a write of an old key keeps it, and `extendTtl` moves it forward.

`total` adds a valuation over all entries.  A finite map has finitely many
keys, so the sum needs no side condition, and one write changes it by the new
value minus the old one (`total_put`).
-/
namespace TypedStore

/-- One stored value and the last ledger up to which it is live. -/
structure Entry (α : Type) where
  value : α
  liveUntil : Nat
deriving DecidableEq

/-- A finite map from keys to entries of the type that the key determines. -/
def Store (K : Type) (V : K → Type) : Type := Finmap fun k : K => Entry (V k)

namespace Store
variable {K : Type} {V : K → Type}

/-- The store that holds nothing. -/
def empty : Store K V := (∅ : Finmap fun k : K => Entry (V k))

variable [DecidableEq K]

/-- The entry under a key. -/
def entry (s : Store K V) (k : K) : Option (Entry (V k)) := Finmap.lookup k s

/-- The value under a key. -/
def get (s : Store K V) (k : K) : Option (V k) := (s.entry k).map Entry.value

/-- The last live ledger of a key. -/
def liveUntil (s : Store K V) (k : K) : Option Nat := (s.entry k).map Entry.liveUntil

/-- The keys that hold a value. -/
def keys (s : Store K V) : Finset K := Finmap.keys s

/-- Writes an entry as it is. -/
def insert (s : Store K V) (k : K) (e : Entry (V k)) : Store K V := Finmap.insert k e s

/-- Writes a value.  A key that is already stored keeps its lifetime, and a new
key is live until `fresh`. -/
def put (s : Store K V) (fresh : Nat) (k : K) (v : V k) : Store K V :=
  s.insert k ⟨v, (s.liveUntil k).getD fresh⟩

/-- Moves the lifetime of a key to `now + extendTo` when at most `threshold`
ledgers are left of it, and never backwards. -/
def extendTtl (s : Store K V) (now threshold extendTo : Nat) (k : K) : Store K V :=
  match s.entry k with
  | some e =>
    if e.liveUntil < now + extendTo ∧ e.liveUntil - now ≤ threshold then
      s.insert k ⟨e.value, now + extendTo⟩
    else s
  | none => s

variable (s : Store K V)

@[simp] theorem entry_empty (k : K) : (empty : Store K V).entry k = none :=
  Finmap.lookup_empty k

@[simp] theorem get_empty (k : K) : (empty : Store K V).get k = none := by
  simp [get]

@[simp] theorem entry_insert_self (k : K) (e : Entry (V k)) :
    (s.insert k e).entry k = some e := Finmap.lookup_insert s

theorem entry_insert_of_ne {k k' : K} (e : Entry (V k)) (h : k' ≠ k) :
    (s.insert k e).entry k' = s.entry k' := Finmap.lookup_insert_of_ne s h

@[simp] theorem get_put_self (fresh : Nat) (k : K) (v : V k) :
    (s.put fresh k v).get k = some v := by
  simp [get, put]

theorem entry_put_of_ne {k k' : K} (fresh : Nat) (v : V k) (h : k' ≠ k) :
    (s.put fresh k v).entry k' = s.entry k' := s.entry_insert_of_ne _ h

@[simp] theorem entry_put_self (fresh : Nat) (k : K) (v : V k) :
    (s.put fresh k v).entry k = some ⟨v, (s.liveUntil k).getD fresh⟩ := s.entry_insert_self k _

theorem get_put_of_ne {k k' : K} (fresh : Nat) (v : V k) (h : k' ≠ k) :
    (s.put fresh k v).get k' = s.get k' := by
  rw [get, get, s.entry_put_of_ne fresh v h]

theorem entry_extendTtl_of_ne {k k' : K} (now threshold extendTo : Nat) (h : k' ≠ k) :
    (s.extendTtl now threshold extendTo k).entry k' = s.entry k' := by
  unfold extendTtl
  split
  · split
    · exact s.entry_insert_of_ne _ h
    · rfl
  · rfl

/-- An extension whose threshold is its goal tops the lifetime up to the goal. -/
theorem entry_extendTtl_self {k : K} {e : Entry (V k)} (now limit : Nat)
    (h : s.entry k = some e) :
    (s.extendTtl now limit limit k).entry k =
      some ⟨e.value, max e.liveUntil (now + limit)⟩ := by
  simp only [extendTtl, h]
  split
  · rename_i hold
    rw [s.entry_insert_self, max_eq_right hold.1.le]
  · rename_i hold
    -- an entry below the goal is also below the threshold
    have hle : now + limit ≤ e.liveUntil := by omega
    rw [h, max_eq_left hle]

/-- A lifetime extension changes no value. -/
@[simp] theorem get_extendTtl (now threshold extendTo : Nat) (k k' : K) :
    (s.extendTtl now threshold extendTo k).get k' = s.get k' := by
  by_cases h : k' = k
  · subst h
    unfold extendTtl
    split
    · rename_i e he
      split
      · simp [get, he]
      · rfl
    · rfl
  · rw [get, get, s.entry_extendTtl_of_ne now threshold extendTo h]

/-- The keys of the store are those under which it holds a value. -/
theorem isSome_get {k : K} : (s.get k).isSome ↔ k ∈ s.keys := by
  rw [get, Option.isSome_map]
  exact Finmap.lookup_isSome.trans Finmap.mem_keys.symm

/-! ## The sum of a valuation over all entries -/

section Total
variable {M : Type} [AddCommMonoid M] (f : (k : K) → V k → M)

/-- The worth of one key: the valuation of its value, or nothing. -/
def worth (k : K) : M := (s.get k).elim 0 (f k)

/-- The sum of a valuation over all entries of the store. -/
def total : M := ∑ k ∈ s.keys, s.worth f k

theorem worth_of_not_mem {k : K} (h : k ∉ s.keys) : s.worth f k = 0 := by
  rw [← isSome_get, Option.not_isSome_iff_eq_none] at h
  simp [worth, h]

/-- Any finite set that covers the stored keys gives the same sum. -/
theorem total_eq_sum {T : Finset K} (h : s.keys ⊆ T) :
    s.total f = ∑ k ∈ T, s.worth f k :=
  Finset.sum_subset h fun _ _ hk => s.worth_of_not_mem f hk

@[simp] theorem total_empty : (empty : Store K V).total f = 0 := by
  simp [total, keys, empty, Finmap.keys_empty]

theorem worth_of_zero {k : K} (h : ∀ v, f k v = 0) : s.worth f k = 0 := by
  rw [worth]
  cases s.get k with
  | none => rfl
  | some v => exact h v

/-- Two stores whose keys have the same worth have one sum. -/
theorem total_congr {s s' : Store K V} (h : ∀ k, s'.worth f k = s.worth f k) :
    s'.total f = s.total f := by
  rw [s'.total_eq_sum f Finset.subset_union_left, s.total_eq_sum f Finset.subset_union_right]
  exact Finset.sum_congr rfl fun k _ => h k

/-- Two stores that agree on every value but that of `k` differ in their sums by
the worth of `k`. -/
theorem total_of_agree {s s' : Store K V} (k : K) (h : ∀ k', k' ≠ k → s'.get k' = s.get k') :
    s'.total f + s.worth f k = s.total f + s'.worth f k := by
  have hk : k ∈ Insert.insert k (s'.keys ∪ s.keys) := Finset.mem_insert_self _ _
  have hs' : s'.keys ⊆ Insert.insert k (s'.keys ∪ s.keys) :=
    Finset.subset_union_left.trans (Finset.subset_insert _ _)
  have hs : s.keys ⊆ Insert.insert k (s'.keys ∪ s.keys) :=
    Finset.subset_union_right.trans (Finset.subset_insert _ _)
  rw [s'.total_eq_sum f hs', s.total_eq_sum f hs, ← Finset.add_sum_erase _ _ hk,
    ← Finset.add_sum_erase _ (s.worth f) hk]
  have hrest : ∑ x ∈ (Insert.insert k (s'.keys ∪ s.keys)).erase k, s'.worth f x =
      ∑ x ∈ (Insert.insert k (s'.keys ∪ s.keys)).erase k, s.worth f x :=
    Finset.sum_congr rfl fun x hx => by rw [worth, worth, h x (Finset.ne_of_mem_erase hx)]
  rw [hrest]
  abel

/-- A write changes the sum by the new value and the old one. -/
theorem total_put (fresh : Nat) (k : K) (v : V k) :
    (s.put fresh k v).total f + s.worth f k = s.total f + f k v := by
  have h : (s.put fresh k v).total f + s.worth f k = s.total f + (s.put fresh k v).worth f k :=
    total_of_agree f k fun k' hk' => s.get_put_of_ne fresh v hk'
  simpa [worth] using h

/-- A lifetime extension keeps the sum. -/
@[simp] theorem total_extendTtl (now threshold extendTo : Nat) (k : K) :
    (s.extendTtl now threshold extendTo k).total f = s.total f :=
  total_congr f fun k' => by rw [worth, worth, get_extendTtl]

/-- A sum of entries that are worth nothing negative is not negative. -/
theorem total_nonneg {f : (k : K) → V k → Int} (h : ∀ k, 0 ≤ s.worth f k) : 0 ≤ s.total f :=
  Finset.sum_nonneg fun k _ => h k

end Total
end Store
end TypedStore
