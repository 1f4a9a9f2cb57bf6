import Mathlib.Algebra.Order.BigOperators.Group.List
import Mathlib.Algebra.BigOperators.Group.List.Basic
import Mathlib.Data.List.Perm.Basic
import Mathlib.Data.List.Infix

/-! # Running sums within bounds

A program that adds the terms of a list one after another, and refuses a partial
sum outside its bounds, depends on the order of the list although the sum does
not.  `Stays` says that no partial sum leaves the bounds, and `gains` and
`losses` are the sums of the terms above and below zero: every order stays
within the bounds exactly when these two do (`forall_perm_stays_iff`).
-/
namespace RunningSum

variable {M : Type} [AddCommGroup M] [LinearOrder M]

/-- Every partial sum of a list, from a start on, lies within two bounds. -/
def Stays (lo hi start : M) (terms : List M) : Prop :=
  ∀ init, init <+: terms → lo ≤ start + init.sum ∧ start + init.sum ≤ hi

/-- The sum of the terms that do not fall below zero. -/
def gains (terms : List M) : M := (terms.filter fun term => decide (0 ≤ term)).sum

/-- The sum of the terms below zero. -/
def losses (terms : List M) : M := (terms.filter fun term => !decide (0 ≤ term)).sum

variable {lo hi start : M} {terms : List M}

theorem stays_nil : Stays lo hi start [] ↔ lo ≤ start ∧ start ≤ hi := by
  simp [Stays]

theorem stays_cons {term : M} :
    Stays lo hi start (term :: terms) ↔
      (lo ≤ start ∧ start ≤ hi) ∧ Stays lo hi (start + term) terms := by
  constructor
  · intro h
    refine ⟨by simpa using h [] List.nil_prefix, fun init hinit => ?_⟩
    simpa [add_assoc] using h (term :: init) (List.cons_prefix_cons.mpr ⟨rfl, hinit⟩)
  · rintro ⟨hstart, h⟩ init hinit
    rcases List.prefix_cons_iff.mp hinit with rfl | ⟨rest, rfl, hrest⟩
    · simpa using hstart
    · simpa [add_assoc] using h rest hrest

/-- The start, and the whole sum, are partial sums. -/
theorem Stays.start_mem (h : Stays lo hi start terms) : lo ≤ start ∧ start ≤ hi := by
  simpa using h [] List.nil_prefix

theorem Stays.sum_mem (h : Stays lo hi start terms) :
    lo ≤ start + terms.sum ∧ start + terms.sum ≤ hi := h terms List.prefix_rfl

theorem Stays.left {terms' : List M} (h : Stays lo hi start (terms ++ terms')) :
    Stays lo hi start terms := fun init hinit => h init (hinit.trans (List.prefix_append ..))

/-! ## Gains and losses -/

theorem gains_perm {terms' : List M} (h : terms.Perm terms') : gains terms = gains terms' :=
  (h.filter _).sum_eq

theorem losses_perm {terms' : List M} (h : terms.Perm terms') : losses terms = losses terms' :=
  (h.filter _).sum_eq

section Split
variable {α : Type} (f : α → M)

/-- The items whose terms do not fall below zero. -/
def up (items : List α) : List α := items.filter fun item => decide (0 ≤ f item)

/-- The items whose terms are below zero. -/
def down (items : List α) : List α := items.filter fun item => !decide (0 ≤ f item)

variable {f} {items : List α}

theorem sum_up : ((up f items).map f).sum = gains (items.map f) := by
  simp [up, gains, List.filter_map, Function.comp_def]

theorem sum_down : ((down f items).map f).sum = losses (items.map f) := by
  simp [down, losses, List.filter_map, Function.comp_def]

theorem perm_up_down : items.Perm (up f items ++ down f items) :=
  (List.filter_append_perm _ items).symm

end Split

variable [IsOrderedAddMonoid M]

theorem gains_nonneg (terms : List M) : 0 ≤ gains terms :=
  List.sum_nonneg fun term hterm => by simpa using (List.mem_filter.mp hterm).2

theorem losses_nonpos (terms : List M) : losses terms ≤ 0 := by
  induction terms with
  | nil => simp [losses]
  | cons term terms ih =>
    rcases le_or_gt 0 term with hterm | hterm
    · simpa [losses, hterm] using ih
    · simpa [losses, hterm.not_ge] using add_nonpos hterm.le ih

/-- A partial sum lies between the losses and the gains of the whole list. -/
theorem prefix_sum_mem {init : List M} (h : init <+: terms) :
    losses terms ≤ init.sum ∧ init.sum ≤ gains terms := by
  induction terms generalizing init with
  | nil => simp [List.prefix_nil.mp h, losses, gains]
  | cons term terms ih =>
    rcases List.prefix_cons_iff.mp h with rfl | ⟨rest, rfl, hrest⟩
    · exact ⟨losses_nonpos _, gains_nonneg _⟩
    · obtain ⟨hlosses, hgains⟩ := ih hrest
      rcases le_or_gt 0 term with hterm | hterm
      · have hlow : losses terms ≤ term + rest.sum := hlosses.trans (le_add_of_nonneg_left hterm)
        simpa [losses, gains, hterm] using ⟨hlow, hgains⟩
      · have hhigh : term + rest.sum ≤ gains terms :=
          (add_le_of_nonpos_left hterm.le).trans hgains
        simpa [losses, gains, hterm, hterm.not_ge] using ⟨hlosses, hhigh⟩

theorem stays_of_gains (hlosses : lo ≤ losses terms) (hgains : gains terms ≤ hi) :
    Stays lo hi 0 terms := by
  intro init hinit
  obtain ⟨hlow, hhigh⟩ := prefix_sum_mem hinit
  rw [zero_add]
  exact ⟨hlosses.trans hlow, hhigh.trans hgains⟩

/-- **Every order stays within the bounds exactly when the gains alone and the losses
alone do.**  The order that decides puts all gains first, or all losses. -/
theorem forall_perm_stays_iff {α : Type} {f : α → M} {items : List α} :
    (∀ items', items.Perm items' → Stays lo hi 0 (items'.map f)) ↔
      lo ≤ losses (items.map f) ∧ gains (items.map f) ≤ hi := by
  constructor
  · intro h
    have hupFirst := h (up f items ++ down f items) perm_up_down
    have hdownFirst := h (down f items ++ up f items) (perm_up_down.trans List.perm_append_comm)
    rw [List.map_append] at hupFirst hdownFirst
    have hhigh := hupFirst.left.sum_mem.2
    have hlow := hdownFirst.left.sum_mem.1
    rw [zero_add, sum_up] at hhigh
    rw [zero_add, sum_down] at hlow
    exact ⟨hlow, hhigh⟩
  · rintro ⟨hlow, hhigh⟩ items' hperm
    refine stays_of_gains ?_ ?_
    · rwa [← losses_perm (hperm.map f)]
    · rwa [← gains_perm (hperm.map f)]

end RunningSum
