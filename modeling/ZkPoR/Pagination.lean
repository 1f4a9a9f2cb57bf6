import ZkPoR.Transaction
import Mathlib.Data.List.Forall2
import Mathlib.Order.Basic

/-! # Pages of a growing log

A log of records under consecutive numbers, read in pages while it grows.  A page
first reads the count, then the records up to it, so the count of a page is fixed
before its first record.  A reader follows the next number from page to page
(`Follows`) until a page names none.  What the pages hold together is the log up to
the count of the last page (`Follows.records`), and the reader ends
(`exists_follows`), because every page starts behind the one before it.
-/
namespace Pagination
open Transaction
variable {ρ σ ε α : Type}

/-- Some records, the count of the log, and where the next page starts. -/
structure Page (α : Type) where
  records : List α
  totalCount : Nat
  nextId : Option Nat
deriving DecidableEq

/-! ## Reading a page -/

/-- The records of `k` numbers.  A number without a record ends the reading. -/
def readRecords (read : Nat → Tx ρ σ ε (Option α)) (missing : Nat → ε) :
    Nat → Nat → Tx ρ σ ε (List α)
  | _, 0 => pure []
  | id, k + 1 => do
    let found ← read id
    let record ← Tx.orFail found (missing id)
    let records ← readRecords read missing (id + 1) k
    return record :: records

/-- The page of `count` numbers from `start`, or what the log holds of it. -/
def readPage (readCount : Tx ρ σ ε Nat) (read : Nat → Tx ρ σ ε (Option α)) (missing : Nat → ε)
    (start count : Nat) : Tx ρ σ ε (Page α) := do
  let totalCount ← readCount
  let requestedEnd := start + count - 1
  let endId := if requestedEnd < totalCount then requestedEnd else totalCount
  let records ← readRecords read missing start (endId + 1 - start)
  return { records, totalCount, nextId := if endId < totalCount then some (endId + 1) else none }

/-- Following the next number from page to page, from one state to another. -/
inductive Follows (read : Nat → Tx ρ σ ε (Page α)) (r : ρ) : Nat → σ → List (Page α) → σ → Prop
  | last {start : Nat} {s s' : σ} {page : Page α} (hread : read start r s = .ok (page, s'))
      (hnext : page.nextId = none) : Follows read r start s [page] s'
  | next {start id : Nat} {s s₁ s' : σ} {page : Page α} {pages : List (Page α)}
      (hread : read start r s = .ok (page, s₁)) (hnext : page.nextId = some id)
      (hrest : Follows read r id s₁ pages s') : Follows read r start s (page :: pages) s'

/-! ## The pages of an append-only log -/

/-- What the state holds of the log only grows. -/
structure AppendOnly [Preorder σ] (holds : σ → Nat → α → Prop) (counted : σ → Nat) : Prop where
  holds_mono : ∀ {s s' id a}, s ≤ s' → holds s id a → holds s' id a
  counted_mono : ∀ {s s'}, s ≤ s' → counted s ≤ counted s'

/-- The page of `count` numbers from `start`. -/
structure IsPage (holds : Nat → α → Prop) (start count : Nat) (page : Page α) : Prop where
  records : List.Forall₂ holds (List.range' start (min count (page.totalCount + 1 - start)))
    page.records
  next : page.nextId = if start + count ≤ page.totalCount then some (start + count) else none

namespace IsPage
variable {holds : Nat → α → Prop} {start count : Nat} {page : Page α}

theorem length_le (h : IsPage holds start count page) : page.records.length ≤ count := by
  rw [← h.records.length_eq, List.length_range']
  exact Nat.min_le_left _ _

/-- A page past the end is empty, and the last one. -/
theorem of_pastEnd (h : IsPage holds start count page) (hend : page.totalCount < start) :
    page.records = [] ∧ page.nextId = none := by
  constructor
  · rw [← List.length_eq_zero_iff, ← h.records.length_eq, List.length_range']
    omega
  · rw [h.next, if_neg (by omega)]

/-- The last page ends at the count. -/
theorem of_last (h : IsPage holds start count page) (hnext : page.nextId = none) :
    List.Forall₂ holds (List.range' start (page.totalCount + 1 - start)) page.records := by
  have hend : ¬ start + count ≤ page.totalCount := by
    intro hle
    rw [h.next, if_pos hle] at hnext
    cases hnext
  have hmin : min count (page.totalCount + 1 - start) = page.totalCount + 1 - start := by omega
  rw [← hmin]
  exact h.records

/-- A page that names a next number is full. -/
theorem of_next {id : Nat} (h : IsPage holds start count page) (hnext : page.nextId = some id) :
    id = start + count ∧ start + count ≤ page.totalCount ∧
      List.Forall₂ holds (List.range' start count) page.records := by
  have hend : start + count ≤ page.totalCount := by
    by_contra hlt
    rw [h.next, if_neg hlt] at hnext
    cases hnext
  rw [h.next, if_pos hend, Option.some.injEq] at hnext
  have hmin : min count (page.totalCount + 1 - start) = count := by omega
  have hrecords := h.records
  rw [hmin] at hrecords
  exact ⟨hnext.symm, hend, hrecords⟩

end IsPage

section Growing
variable [Preorder σ] {holds : σ → Nat → α → Prop} {counted : σ → Nat} {r : ρ} {s s' : σ}

/-- The reads of a log: the count, and a record under every number up to it. -/
structure Reads (holds : σ → Nat → α → Prop) (counted : σ → Nat) (r : ρ)
    (readCount : Tx ρ σ ε Nat) (read : Nat → Tx ρ σ ε (Option α)) : Prop where
  count : ∀ {s n s'}, readCount r s = .ok (n, s') → n = counted s ∧ s ≤ s'
  record : ∀ {id s found s'}, 1 ≤ id → id ≤ counted s → read id r s = .ok (found, s') →
    s ≤ s' ∧ ∃ a, found = some a ∧ holds s' id a

variable {readCount : Tx ρ σ ε Nat} {read : Nat → Tx ρ σ ε (Option α)} {missing : Nat → ε}

/-- The records of a range within the count, by induction on its length. -/
theorem forall₂_of_readRecords (hlog : AppendOnly holds counted)
    (hreads : Reads holds counted r readCount read) {id k : Nat} {records : List α}
    (hid : 1 ≤ id) (hend : id + k ≤ counted s + 1)
    (h : readRecords read missing id k r s = .ok (records, s')) :
    s ≤ s' ∧ List.Forall₂ (holds s') (List.range' id k) records := by
  induction k generalizing id s records with
  | zero =>
    rw [readRecords, Tx.pure_eq_ok] at h
    obtain ⟨rfl, rfl⟩ := h
    exact ⟨le_refl s, .nil⟩
  | succ k ih =>
    simp only [readRecords, Tx.bind_eq_ok, Tx.orFail_eq_ok, Tx.pure_eq_ok] at h
    obtain ⟨found, s₁, hread, record, s₂, ⟨rfl, rfl⟩, rest, s₃, hrest, rfl, rfl⟩ := h
    obtain ⟨hle, a, hfound, ha⟩ := hreads.record hid (by omega) hread
    cases hfound
    have hcount := hlog.counted_mono hle
    obtain ⟨hle', hforall⟩ := ih (by omega) (by omega) hrest
    rw [List.range'_succ]
    exact ⟨le_trans hle hle', .cons (hlog.holds_mono hle' ha) hforall⟩

/-- The page ends at the count of the log, or names the number behind it. -/
theorem nextId_eq {start count total : Nat} (hcount : 1 ≤ count) :
    (if (if start + count - 1 < total then start + count - 1 else total) < total then
        some ((if start + count - 1 < total then start + count - 1 else total) + 1) else none) =
      if start + count ≤ total then some (start + count) else none := by
  by_cases hfull : start + count ≤ total
  · have hend : start + count - 1 < total := by omega
    rw [if_pos hend, if_pos hend, if_pos hfull, Nat.sub_add_cancel (by omega)]
  · have hend : ¬ start + count - 1 < total := by omega
    rw [if_neg hend, if_neg (Nat.lt_irrefl total), if_neg hfull]

/-- **What a page holds.** -/
theorem isPage_of_readPage (hlog : AppendOnly holds counted)
    (hreads : Reads holds counted r readCount read) {start count : Nat} {page : Page α}
    (hstart : 1 ≤ start) (hcount : 1 ≤ count)
    (h : readPage readCount read missing start count r s = .ok (page, s')) :
    s ≤ s' ∧ page.totalCount = counted s ∧ IsPage (holds s') start count page := by
  simp only [readPage, Tx.bind_eq_ok, Tx.pure_eq_ok] at h
  obtain ⟨n, s₁, hn, records, s₂, hrecords, rfl, rfl⟩ := h
  obtain ⟨rfl, hle⟩ := hreads.count hn
  have hmono := hlog.counted_mono hle
  have hlength : (if start + count - 1 < counted s then start + count - 1 else counted s) + 1 -
      start = min count (counted s + 1 - start) := by
    split <;> omega
  rw [hlength] at hrecords
  by_cases hempty : counted s < start
  · -- nothing is read past the end
    have hzero : min count (counted s + 1 - start) = 0 := by omega
    rw [hzero, readRecords, Tx.pure_eq_ok] at hrecords
    obtain ⟨rfl, rfl⟩ := hrecords
    refine ⟨hle, rfl, ⟨?_, nextId_eq hcount⟩⟩
    rw [hzero]
    exact .nil
  · obtain ⟨hle', hforall⟩ := forall₂_of_readRecords hlog hreads hstart (by omega) hrecords
    exact ⟨le_trans hle hle', rfl, ⟨hforall, nextId_eq hcount⟩⟩

variable {readNext : Nat → Tx ρ σ ε (Page α)} {start count : Nat} {pages : List (Page α)}

/-- **Following the pages yields the log, up to the count of the last page.** -/
theorem Follows.records (hlog : AppendOnly holds counted)
    (hpage : ∀ {start s page s'}, readNext start r s = .ok (page, s') →
      s ≤ s' ∧ page.totalCount = counted s ∧ IsPage (holds s') start count page)
    (h : Follows readNext r start s pages s') :
    s ≤ s' ∧ ∃ last, pages.getLast? = some last ∧ counted s ≤ last.totalCount ∧
      last.totalCount ≤ counted s' ∧
      List.Forall₂ (holds s') (List.range' start (last.totalCount + 1 - start))
        (pages.flatMap Page.records) := by
  induction h with
  | @last start s s' page hread hnext =>
    obtain ⟨hle, htotal, hrecords⟩ := hpage hread
    have hmono := hlog.counted_mono hle
    refine ⟨hle, page, rfl, by omega, by omega, ?_⟩
    rw [List.flatMap_singleton]
    exact hrecords.of_last hnext
  | @next start id s s₁ s' page pages hread hnext hrest ih =>
    obtain ⟨hle, htotal, hrecords⟩ := hpage hread
    obtain ⟨rfl, hend, hfull⟩ := hrecords.of_next hnext
    obtain ⟨hle', last, hlast, hgrown, hcounted, hforall⟩ := ih
    have hmono := hlog.counted_mono hle
    refine ⟨le_trans hle hle', last, ?_, by omega, hcounted, ?_⟩
    · rw [List.getLast?_cons, hlast, Option.getD_some]
    · -- the full page and the rest are one range
      have hlength : last.totalCount + 1 - start =
          count + (last.totalCount + 1 - (start + count)) := by omega
      rw [List.flatMap_cons, hlength, ← List.range'_append_1]
      exact List.rel_append (hfull.imp fun _ _ ha => hlog.holds_mono hle' ha) hforall

/-! ## Progress -/

/-- A reading within the count fails as one of its reads does. -/
theorem readRecords_eq_error {e : ε} {id k : Nat}
    (hlog : AppendOnly holds counted) (hreads : Reads holds counted r readCount read)
    (hid : 1 ≤ id) (hend : id + k ≤ counted s + 1)
    (h : readRecords read missing id k r s = .error e) :
    ∃ id s', s ≤ s' ∧ 1 ≤ id ∧ id ≤ counted s' ∧ read id r s' = .error e := by
  induction k generalizing id s with
  | zero => simp [readRecords] at h
  | succ k ih =>
    simp only [readRecords, Tx.bind_eq_error, Tx.orFail_eq_error, Tx.orFail_eq_ok,
      Tx.pure_eq_error, and_false, exists_false, or_false] at h
    rcases h with hread | ⟨found, s₁, hread, ⟨hnone, -⟩ | ⟨record, s₂, ⟨-, rfl⟩, hrest⟩⟩
    · exact ⟨id, s, le_refl s, hid, by omega, hread⟩
    · -- every number up to the count has a record
      obtain ⟨-, a, hfound, -⟩ := hreads.record hid (by omega) hread
      cases hfound.symm.trans hnone
    · obtain ⟨hle, -⟩ := hreads.record hid (by omega) hread
      have hcount := hlog.counted_mono hle
      obtain ⟨id', s', hle', hfails⟩ := ih (by omega) (by omega) hrest
      exact ⟨id', s', le_trans hle hle', hfails⟩

/-- **A page fails only as one of its reads does**: no record within the count is
missing. -/
theorem readPage_eq_error {e : ε} (hlog : AppendOnly holds counted)
    (hreads : Reads holds counted r readCount read) (hstart : 1 ≤ start)
    (h : readPage readCount read missing start count r s = .error e) :
    readCount r s = .error e ∨
      ∃ id s', s ≤ s' ∧ 1 ≤ id ∧ id ≤ counted s' ∧ read id r s' = .error e := by
  simp only [readPage, Tx.bind_eq_error, Tx.pure_eq_error, and_false, exists_false, or_false] at h
  rcases h with h | ⟨n, s₁, hn, hrecords⟩
  · exact .inl h
  right
  obtain ⟨rfl, hle⟩ := hreads.count hn
  have hmono := hlog.counted_mono hle
  by_cases hempty : counted s < start
  · have hzero : (if start + count - 1 < counted s then start + count - 1 else counted s) + 1 -
        start = 0 := by
      split <;> omega
    rw [hzero] at hrecords
    simp [readRecords] at hrecords
  · have hend : start + ((if start + count - 1 < counted s then start + count - 1 else counted s) +
        1 - start) ≤ counted s₁ + 1 := by
      split <;> omega
    obtain ⟨id, s', hle', hfails⟩ := readRecords_eq_error hlog hreads hstart hend hrecords
    exact ⟨id, s', le_trans hle hle', hfails⟩

/-- **The reader ends**, when every page can be read and no count is above a limit. -/
theorem exists_follows {limit : Nat} {s₀ : σ} (hcount : 1 ≤ count)
    (hpage : ∀ {start s page s'}, readNext start r s = .ok (page, s') →
      s ≤ s' ∧ page.totalCount = counted s ∧ IsPage (holds s') start count page)
    (hlimit : ∀ s, counted s ≤ limit)
    (hread : ∀ start s, 1 ≤ start → start ≤ limit → s₀ ≤ s →
      ∃ page s', readNext start r s = .ok (page, s'))
    (hstart : 1 ≤ start) (hend : start ≤ limit) (hs : s₀ ≤ s) :
    ∃ pages s', Follows readNext r start s pages s' := by
  induction hm : limit - start using Nat.strongRecOn generalizing start s with
  | ind m ih =>
    obtain ⟨page, s₁, hfirst⟩ := hread start s hstart hend hs
    obtain ⟨hle, htotal, hrecords⟩ := hpage hfirst
    cases hnext : page.nextId with
    | none => exact ⟨[page], s₁, .last hfirst hnext⟩
    | some id =>
      obtain ⟨rfl, hfull, -⟩ := hrecords.of_next hnext
      have hbound := hlimit s
      obtain ⟨pages, s', hrest⟩ := ih (limit - (start + count)) (by omega) (by omega) (by omega)
        (le_trans hs hle) rfl
      exact ⟨page :: pages, s', .next hfirst hnext hrest⟩

end Growing

/-! ## Windows of a sorted log -/

/-- Two windows of a sorted list, one behind the other, are one window. -/
theorem filter_append_filter {before : α → α → Prop} {l : List α} {p q : α → Bool}
    (hsorted : l.Pairwise before) (happart : ∀ a, p a = true → q a = false)
    (hbehind : ∀ a b, before a b → q a = true → p b = false) :
    l.filter p ++ l.filter q = l.filter fun a => p a || q a := by
  induction l with
  | nil => rfl
  | cons a l ih =>
    obtain ⟨hbefore, hsorted⟩ := List.pairwise_cons.mp hsorted
    rw [List.filter_cons, List.filter_cons, List.filter_cons, ← ih hsorted]
    cases hp : p a with
    | true => simp [happart a hp]
    | false =>
      cases hq : q a with
      | false => simp
      | true =>
        -- nothing of the first window stands behind the second one
        have hnil : l.filter p = [] := List.filter_eq_nil_iff.mpr fun b hb =>
          Bool.eq_false_iff.mp (hbehind a b (hbefore b hb) hq)
        simp [hnil]

end Pagination
