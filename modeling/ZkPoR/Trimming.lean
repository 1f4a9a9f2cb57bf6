import Mathlib.Data.List.DropRight

/-! # A list without the entries of a kind at its ends

`trimmed p xs` leaves out the entries with `p` at both ends of the list.  A list is its
trimmed part between such entries (`exists_trimmed`), and what stands between such entries
is trimmed as if it stood alone (`trimmed_append`).
-/
namespace Trimming
variable {α : Type} {p : α → Bool} {xs left right : List α} {x : α}

/-! ## At the end -/

theorem rdropWhile_append_of_pos (h : ∀ y ∈ right, p y = true) :
    (xs ++ right).rdropWhile p = xs.rdropWhile p := by
  rw [List.rdropWhile, List.rdropWhile, List.reverse_append,
    List.dropWhile_append_of_pos fun y hy => h y (List.mem_reverse.mp hy)]

/-- Nothing is left out before an entry of another kind. -/
theorem rdropWhile_append_cons (h : p x = false) :
    (left ++ x :: xs).rdropWhile p = left ++ x :: xs.rdropWhile p := by
  induction xs using List.reverseRecOn with
  | nil => rw [List.rdropWhile_concat_neg _ _ _ (by simp [h]), List.rdropWhile_nil]
  | append_singleton xs y ih =>
    rw [← List.cons_append, ← List.append_assoc, List.rdropWhile_concat, List.rdropWhile_concat]
    split
    · exact ih
    · simp

theorem rdropWhile_of_last (h : ∀ y ∈ xs.getLast?, p y = false) : xs.rdropWhile p = xs := by
  rw [List.rdropWhile_eq_self_iff]
  intro hne hlast
  rw [h _ (List.getLast?_eq_some_getLast hne)] at hlast
  cases hlast

/-! ## At both ends -/

/-- The list without the entries of the kind at its ends. -/
def trimmed (p : α → Bool) (xs : List α) : List α := (xs.dropWhile p).rdropWhile p

theorem exists_trimmed (xs : List α) :
    ∃ left right, xs = left ++ trimmed p xs ++ right ∧ (∀ y ∈ left, p y = true) ∧
      ∀ y ∈ right, p y = true := by
  refine ⟨xs.takeWhile p, (xs.dropWhile p).rtakeWhile p, ?_,
    fun _ hy => List.mem_takeWhile_imp hy, fun _ hy => List.mem_rtakeWhile_imp hy⟩
  rw [List.append_assoc, trimmed, List.rdropWhile_append_rtakeWhile,
    List.takeWhile_append_dropWhile]

theorem trimmed_append_left (h : ∀ y ∈ left, p y = true) :
    trimmed p (left ++ xs) = trimmed p xs := by
  rw [trimmed, List.dropWhile_append_of_pos h, trimmed]

theorem trimmed_append_right (h : ∀ y ∈ right, p y = true) :
    trimmed p (xs ++ right) = trimmed p xs := by
  rw [trimmed, trimmed, List.dropWhile_append]
  split
  · rename_i hall
    rw [List.isEmpty_iff.mp hall, List.dropWhile_eq_nil_iff.mpr h]
  · exact rdropWhile_append_of_pos h

/-- Only the part between is trimmed. -/
theorem trimmed_append (hleft : ∀ y ∈ left, p y = true) (hright : ∀ y ∈ right, p y = true) :
    trimmed p (left ++ xs ++ right) = trimmed p xs := by
  rw [trimmed_append_right hright, trimmed_append_left hleft]

/-- Nothing is left out between entries of other kinds. -/
theorem trimmed_of_ends (hhead : ∀ y ∈ xs.head?, p y = false)
    (hlast : ∀ y ∈ xs.getLast?, p y = false) : trimmed p xs = xs := by
  cases xs with
  | nil => rfl
  | cons x xs =>
    rw [trimmed, List.dropWhile_cons_of_neg (by simp [hhead x rfl])]
    exact rdropWhile_of_last hlast

theorem trimmed_eq_nil (h : ∀ y ∈ xs, p y = true) : trimmed p xs = [] := by
  rw [trimmed, List.dropWhile_eq_nil_iff.mpr h, List.rdropWhile_nil]

end Trimming
