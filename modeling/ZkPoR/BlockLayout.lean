import Mathlib.Data.List.OfFn
import Mathlib.Logic.Equiv.Defs
import Mathlib.Tactic.Common

/-! # Blocks of one length

A string of `n` blocks of `w` elements, each at a position of its own.  Such a string is
the same as its blocks (`eq_of_block_eq`), so what puts every block at its position and
what takes it from there undo each other, for every order of the positions.  A writer
can fill a string in place (`foldl_overwrite`) or fill a list of fields and put them
together (`foldl_set`).
-/
namespace BlockLayout
variable {α ι : Type} {n w : Nat}

/-- The block at a position. -/
def block (w : Nat) (l : List α) (i : Nat) : List α := (l.drop (i * w)).take w

/-- The list with other elements from an offset on. -/
def overwrite (l : List α) (offset : Nat) (xs : List α) : List α :=
  l.take offset ++ (xs ++ l.drop (offset + xs.length))

theorem getElem?_block (l : List α) (i k : Nat) :
    (block w l i)[k]? = if k < w then l[i * w + k]? else none := by
  rw [block, List.getElem?_take, List.getElem?_drop]

/-- A block ends inside the string. -/
theorem block_le {i : Nat} (hi : i < n) : i * w + w ≤ n * w := by
  rw [← Nat.succ_mul]
  exact Nat.mul_le_mul_right w hi

theorem length_block {l : List α} {i : Nat} (hl : l.length = n * w) (hi : i < n) :
    (block w l i).length = w := by
  have hle := block_le (w := w) hi
  rw [block, List.length_take, List.length_drop, hl]
  omega

/-- A string is the same as its blocks. -/
theorem eq_of_block_eq {l l' : List α} (hl : l.length = n * w) (hl' : l'.length = n * w)
    (h : ∀ i < n, block w l i = block w l' i) : l = l' := by
  refine List.ext_getElem? fun j => ?_
  by_cases hj : j < n * w
  · have hw : 0 < w := Nat.pos_of_ne_zero fun hzero => by simp [hzero] at hj
    have hblock := congrArg (·[j % w]?) (h (j / w) (Nat.div_lt_of_lt_mul (by rwa [Nat.mul_comm])))
    simp only [getElem?_block, if_pos (Nat.mod_lt j hw)] at hblock
    rwa [Nat.mul_comm, Nat.div_add_mod] at hblock
  · rw [List.getElem?_eq_none (by omega), List.getElem?_eq_none (by omega)]

/-! ## Writing in place -/

theorem length_overwrite {l xs : List α} {offset : Nat} (h : offset + xs.length ≤ l.length) :
    (overwrite l offset xs).length = l.length := by
  rw [overwrite, List.length_append, List.length_append, List.length_take, List.length_drop]
  omega

theorem getElem?_overwrite {l xs : List α} {offset : Nat} (h : offset + xs.length ≤ l.length)
    (j : Nat) : (overwrite l offset xs)[j]? =
      if offset ≤ j ∧ j < offset + xs.length then xs[j - offset]? else l[j]? := by
  have hoffset : (l.take offset).length = offset := by
    rw [List.length_take]
    omega
  by_cases hbefore : j < offset
  · rw [overwrite, List.getElem?_append_left (by omega), if_neg (by omega), List.getElem?_take,
      if_pos hbefore]
  rw [overwrite, List.getElem?_append_right (by omega), hoffset]
  by_cases hinside : j < offset + xs.length
  · rw [List.getElem?_append_left (by omega), if_pos ⟨by omega, hinside⟩]
  · rw [List.getElem?_append_right (by omega), if_neg (by omega), List.getElem?_drop]
    congr 1
    omega

variable {l xs : List α} {i j : Nat}

theorem block_overwrite_self (hl : l.length = n * w) (hi : i < n) (hxs : xs.length = w) :
    block w (overwrite l (i * w) xs) i = xs := by
  have hle := block_le (w := w) hi
  refine List.ext_getElem? fun k => ?_
  rw [getElem?_block, getElem?_overwrite (by omega)]
  by_cases hk : k < w
  · rw [if_pos hk, if_pos ⟨by omega, by omega⟩, Nat.add_sub_cancel_left]
  · rw [if_neg hk, List.getElem?_eq_none (by omega)]

/-- A write leaves the other blocks alone. -/
theorem block_overwrite_of_ne (hl : l.length = n * w) (hj : j < n) (hxs : xs.length = w)
    (hne : i ≠ j) : block w (overwrite l (j * w) xs) i = block w l i := by
  have hle := block_le (w := w) hj
  refine List.ext_getElem? fun k => ?_
  rw [getElem?_block, getElem?_block, getElem?_overwrite (by omega)]
  by_cases hk : k < w
  · rw [if_pos hk, if_pos hk, if_neg]
    rintro ⟨hlow, hhigh⟩
    rcases Nat.lt_or_gt_of_ne hne with hlt | hgt
    · have := block_le (w := w) hlt
      omega
    · have := block_le (w := w) hgt
      omega
  · rw [if_neg hk, if_neg hk]

/-! ## Positions -/

theorem block_flatten {fields : List (List α)} (h : ∀ field ∈ fields, field.length = w)
    (hi : i < fields.length) : block w fields.flatten i = fields[i] := by
  induction fields generalizing i with
  | nil => cases hi
  | cons field fields ih =>
    have hfield := h field List.mem_cons_self
    cases i with
    | zero =>
      rw [block, Nat.zero_mul, List.drop_zero, List.flatten_cons, List.getElem_cons_zero]
      exact List.take_left' hfield
    | succ i =>
      have hdrop : (field ++ fields.flatten).drop ((i + 1) * w) = fields.flatten.drop (i * w) := by
        rw [Nat.succ_mul, Nat.add_comm, ← List.drop_drop, List.drop_left' hfield]
      rw [block, List.flatten_cons, hdrop, List.getElem_cons_succ]
      exact ih (fun field hmem => h field (List.mem_cons_of_mem _ hmem))
        (Nat.lt_of_succ_lt_succ hi)

section Arrange
variable (position : ι ≃ Fin n) (blocks : ι → List α)

/-- The string of the blocks, each at its position. -/
def arrange : List α := (List.ofFn fun i => blocks (position.symm i)).flatten

variable {position blocks}

theorem length_of_mem_ofFn (h : ∀ i, (blocks i).length = w) :
    ∀ field ∈ List.ofFn fun i => blocks (position.symm i), field.length = w := by
  intro field hmem
  obtain ⟨i, rfl⟩ := List.mem_ofFn.mp hmem
  exact h _

theorem length_arrange (h : ∀ i, (blocks i).length = w) :
    (arrange position blocks).length = n * w := by
  have hlengths : (List.ofFn fun i => blocks (position.symm i)).map List.length =
      List.replicate n w := by
    rw [List.eq_replicate_iff, List.length_map, List.length_ofFn]
    exact ⟨rfl, List.forall_mem_map.mpr (length_of_mem_ofFn h)⟩
  rw [arrange, List.length_flatten, hlengths, List.sum_replicate_nat]

theorem block_arrange (h : ∀ i, (blocks i).length = w) (i : ι) :
    block w (arrange position blocks) (position i) = blocks i := by
  rw [arrange, block_flatten (length_of_mem_ofFn h) (by rw [List.length_ofFn]; exact (position i).isLt),
    List.getElem_ofFn]
  exact congrArg blocks (position.symm_apply_apply i)

/-- The arrangement is the string with these blocks. -/
theorem eq_arrange_iff {l : List α} (hl : l.length = n * w) (h : ∀ i, (blocks i).length = w) :
    l = arrange position blocks ↔ ∀ i, block w l (position i) = blocks i := by
  constructor
  · rintro rfl
    exact block_arrange h
  · intro hblocks
    refine eq_of_block_eq hl (length_arrange h) fun i hi => ?_
    obtain ⟨name, hname⟩ := position.surjective ⟨i, hi⟩
    have hi' : i = position name := congrArg Fin.val hname.symm
    rw [hi', hblocks, block_arrange h]

theorem arrange_inj {blocks' : ι → List α} (h : ∀ i, (blocks i).length = w)
    (h' : ∀ i, (blocks' i).length = w) (heq : arrange position blocks = arrange position blocks')
    (i : ι) : blocks i = blocks' i := by
  have hblock : block w (arrange position blocks) (position i) = blocks i := block_arrange h i
  rw [← hblock, heq, block_arrange h']

/-! ## Two writers -/

theorem length_foldl_set (names : List ι) (fields : List (List α)) :
    (names.foldl (fun fields i => fields.set (position i) (blocks i)) fields).length =
      fields.length := by
  induction names generalizing fields with
  | nil => rfl
  | cons name names ih => rw [List.foldl_cons, ih, List.length_set]

variable [DecidableEq ι]

/-- The blocks after some of them are written in place. -/
theorem block_foldl_overwrite (h : ∀ i, (blocks i).length = w) (names : List ι) {l : List α}
    (hl : l.length = n * w) (i : ι) :
    let out := names.foldl (fun l i => overwrite l (position i * w) (blocks i)) l
    out.length = n * w ∧
      block w out (position i) = if i ∈ names then blocks i else block w l (position i) := by
  induction names generalizing l with
  | nil => exact ⟨hl, by rw [if_neg List.not_mem_nil]; rfl⟩
  | cons name names ih =>
    have hname := (position name).isLt
    have hlength : (overwrite l (position name * w) (blocks name)).length = n * w := by
      have hle := block_le (w := w) hname
      rw [length_overwrite (by rw [h, hl]; exact hle), hl]
    obtain ⟨hout, hblock⟩ := ih hlength
    refine ⟨hout, ?_⟩
    rw [List.foldl_cons, hblock]
    by_cases hmem : i ∈ names
    · rw [if_pos hmem, if_pos (List.mem_cons_of_mem _ hmem)]
    rw [if_neg hmem]
    by_cases heq : i = name
    · subst heq
      rw [if_pos List.mem_cons_self, block_overwrite_self hl hname (h i)]
    · have hne : (position i : Nat) ≠ position name := fun hval =>
        heq (position.injective (Fin.ext hval))
      rw [if_neg (by simp [heq, hmem]), block_overwrite_of_ne hl hname (h name) hne]

/-- A string in which every block is written is the arrangement. -/
theorem foldl_overwrite (h : ∀ i, (blocks i).length = w) {names : List ι}
    (hall : ∀ i, i ∈ names) {l : List α} (hl : l.length = n * w) :
    names.foldl (fun l i => overwrite l (position i * w) (blocks i)) l =
      arrange position blocks := by
  cases names with
  | nil =>
    refine eq_of_block_eq hl (length_arrange h) fun i hi => ?_
    exact absurd (hall (position.symm ⟨i, hi⟩)) List.not_mem_nil
  | cons name names =>
    have hout := @block_foldl_overwrite _ _ _ _ position blocks _ h (name :: names) l hl
    rw [eq_arrange_iff (hout name).1 h]
    intro i
    rw [(hout i).2, if_pos (hall i)]

/-- The fields after some of them are set. -/
theorem getElem?_foldl_set (names : List ι) (fields : List (List α))
    (hfields : fields.length = n) (i : ι) :
    (names.foldl (fun fields i => fields.set (position i) (blocks i)) fields)[(position i : Nat)]? =
      if i ∈ names then some (blocks i) else fields[(position i : Nat)]? := by
  induction names generalizing fields with
  | nil => rw [if_neg List.not_mem_nil]; rfl
  | cons name names ih =>
    rw [List.foldl_cons, ih _ (by rw [List.length_set, hfields])]
    by_cases hmem : i ∈ names
    · rw [if_pos hmem, if_pos (List.mem_cons_of_mem _ hmem)]
    rw [if_neg hmem]
    by_cases heq : i = name
    · subst heq
      rw [if_pos List.mem_cons_self, List.getElem?_set_self (by rw [hfields]; exact (position i).isLt)]
    · have hne : (position name : Nat) ≠ position i := fun hval =>
        heq (position.injective (Fin.ext hval.symm))
      rw [if_neg (by simp [heq, hmem]), List.getElem?_set_ne hne]

/-- Fields that are all set make the arrangement. -/
theorem foldl_set {names : List ι} (hall : ∀ i, i ∈ names) {fields : List (List α)}
    (hfields : fields.length = n) :
    (names.foldl (fun fields i => fields.set (position i) (blocks i)) fields).flatten =
      arrange position blocks := by
  rw [arrange]
  congr 1
  refine List.ext_getElem? fun j => ?_
  by_cases hj : j < n
  · obtain ⟨i, hi⟩ := position.surjective ⟨j, hj⟩
    have hj' : j = position i := congrArg Fin.val hi.symm
    rw [List.getElem?_ofFn, dif_pos hj, ← hi, position.symm_apply_apply, hj',
      getElem?_foldl_set names fields hfields, if_pos (hall i)]
  · rw [List.getElem?_eq_none (by rw [length_foldl_set]; omega),
      List.getElem?_eq_none (by rw [List.length_ofFn]; omega)]

end Arrange

end BlockLayout
