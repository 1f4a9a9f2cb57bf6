import Mathlib.Algebra.GroupWithZero.Nat
import Mathlib.Data.List.Basic
import Mathlib.Data.List.Infix

/-! # Splitting a list at a separator

A list is split into pieces at each occurrence of a separator, which is one
entry (`List.splitOn`) or two (`splitOnPair`).  `Splits` states what a proof needs
of either: the pieces join to the list, and a separator in the middle splits the
list into two lists that are split on their own.

`PieceAt` says where a piece stands.  A split list has one piece of a kind when
every piece of that kind stands at one position (`Splits.filter_eq_singleton`),
so a scanner that pins the position of a piece pins the piece.
-/
namespace Splitting
variable {α : Type}

/-! ## Slices -/

/-- The entries from position `i` on, before position `j`. -/
def slice (xs : List α) (i j : Nat) : List α := (xs.take j).drop i

section Slice
variable {xs : List α} {x : α} {i j k : Nat}

theorem length_slice (h : j ≤ xs.length) : (slice xs i j).length = j - i := by
  rw [slice, List.length_drop, List.length_take, Nat.min_eq_left h]

@[simp] theorem slice_self : slice xs i i = [] := by
  rw [slice, List.drop_eq_nil_iff, List.length_take]
  omega

theorem getElem?_slice : (slice xs i j)[k]? = if i + k < j then xs[i + k]? else none := by
  rw [slice, List.getElem?_drop, List.getElem?_take]

theorem mem_slice : x ∈ slice xs i j ↔ ∃ m, i ≤ m ∧ m < j ∧ xs[m]? = some x := by
  rw [List.mem_iff_getElem?]
  constructor
  · rintro ⟨k, hk⟩
    rw [getElem?_slice] at hk
    split at hk
    · exact ⟨i + k, by omega, by omega, hk⟩
    · cases hk
  · rintro ⟨m, him, hmj, hm⟩
    refine ⟨m - i, ?_⟩
    rw [getElem?_slice, if_pos (by omega), show i + (m - i) = m by omega, hm]

theorem slice_append (hij : i ≤ j) (hjk : j ≤ k) :
    slice xs i j ++ slice xs j k = slice xs i k := by
  apply List.ext_getElem?
  intro m
  by_cases hk : j ≤ xs.length
  · rw [List.getElem?_append, length_slice hk]
    split
    · rw [getElem?_slice, getElem?_slice, if_pos (by omega), if_pos (by omega)]
    · rw [getElem?_slice, getElem?_slice, show j + (m - (j - i)) = i + m by omega]
  · have hout : slice xs j k = [] := by
      rw [slice, List.drop_eq_nil_iff, List.length_take]
      omega
    rw [hout, List.append_nil, slice, slice, List.take_of_length_le (by omega),
      List.take_of_length_le (by omega)]

theorem slice_cons (h : i < j) (hx : xs[i]? = some x) :
    slice xs i j = x :: slice xs (i + 1) j := by
  rw [← slice_append (Nat.le_succ i) h]
  suffices slice xs i (i + 1) = [x] by rw [this, List.singleton_append]
  apply List.ext_getElem?
  rintro (_ | k)
  · rw [getElem?_slice, if_pos (by omega), Nat.add_zero, hx, List.getElem?_cons_zero]
  · rw [getElem?_slice, if_neg (by omega), List.getElem?_cons_succ, List.getElem?_nil]

theorem slice_snoc (h : i ≤ j) (hx : xs[j]? = some x) :
    slice xs i (j + 1) = slice xs i j ++ [x] := by
  rw [← slice_append h (Nat.le_succ j), slice_cons (Nat.lt_succ_self j) hx, slice_self]

/-- A list is what stands before a slice, the slice, and what stands after it. -/
theorem slice_split (hij : i ≤ j) (hj : j ≤ xs.length) :
    xs = slice xs 0 i ++ slice xs i j ++ slice xs j xs.length := by
  rw [slice_append (Nat.zero_le i) hij, slice_append (Nat.zero_le j) hj, slice, List.drop_zero,
    List.take_length]

theorem slice_of_eq_append {before piece after : List α} (h : xs = before ++ piece ++ after) :
    slice xs before.length (before.length + piece.length) = piece := by
  rw [slice, h, ← List.length_append, List.take_left, List.drop_left]

/-- The rest of a slice is a slice. -/
theorem drop_slice : (slice xs i j).drop k = slice xs (i + k) j := by
  rw [slice, List.drop_drop, slice]

theorem slice_drop {text : List α} (h : slice xs i (i + text.length) = text) (k : Nat) :
    slice xs (i + k) (i + k + (text.drop k).length) = text.drop k := by
  rcases Nat.le_total k text.length with hle | hle
  · rw [List.length_drop, Nat.add_assoc, Nat.add_sub_cancel' hle, ← drop_slice, h]
  · rw [List.drop_of_length_le hle, List.length_nil, Nat.add_zero, slice_self]

/-- A part of a slice is a slice. -/
theorem slice_middle {left text right : List α}
    (h : slice xs i (i + (left ++ text ++ right).length) = left ++ text ++ right) :
    slice xs (i + left.length) (i + left.length + text.length) = text := by
  apply List.ext_getElem?
  intro m
  rw [getElem?_slice]
  by_cases hm : m < text.length
  · have hentry := congrArg (·[left.length + m]?) h
    simp only [getElem?_slice, List.length_append] at hentry
    rw [if_pos (by omega), List.append_assoc, List.getElem?_append_right (by omega),
      Nat.add_sub_cancel_left, List.getElem?_append_left hm] at hentry
    rw [if_pos (by omega), Nat.add_assoc, hentry]
  · rw [if_neg (by omega), List.getElem?_eq_none (by omega)]

end Slice

/-! ## Pieces -/

/-- `piece` stands in `xs` after `before` and before `after`, between two separators
or the ends of the list. -/
structure PieceAt (sep xs before piece after : List α) : Prop where
  eq : xs = before ++ piece ++ after
  opens : before = [] ∨ sep <:+ before
  closes : after = [] ∨ sep <+: after

theorem PieceAt.map {β : Type} {sep xs before piece after : List α} (f : α → β)
    (h : PieceAt sep xs before piece after) :
    PieceAt (sep.map f) (xs.map f) (before.map f) (piece.map f) (after.map f) where
  eq := by rw [h.eq, List.map_append, List.map_append]
  opens := h.opens.imp (fun hnil => by rw [hnil, List.map_nil]) fun hsuffix => hsuffix.map f
  closes := h.closes.imp (fun hnil => by rw [hnil, List.map_nil]) fun hprefix => hprefix.map f

/-! ## The positions of the pieces -/

/-- Pieces with their positions, `k` entries apart. -/
def located (k : Nat) : Nat → List (List α) → List (Nat × List α)
  | _, [] => []
  | offset, piece :: pieces => (offset, piece) :: located k (offset + piece.length + k) pieces

section Located
variable {k offset : Nat} {pieces pieces' : List (List α)}

@[simp] theorem map_snd_located : (located k offset pieces).map Prod.snd = pieces := by
  induction pieces generalizing offset with
  | nil => rfl
  | cons piece pieces ih => rw [located, List.map_cons, ih]

theorem located_append : located k offset (pieces ++ pieces') = located k offset pieces ++
    located k (offset + (pieces.map fun piece => piece.length + k).sum) pieces' := by
  induction pieces generalizing offset with
  | nil => rfl
  | cons piece pieces ih =>
    rw [List.cons_append, located, ih, located, List.cons_append, List.map_cons, List.sum_cons,
      ← Nat.add_assoc, ← Nat.add_assoc]

/-- The length of joined pieces, with a separator behind the last one too. -/
theorem sum_length_add {sep : List α} (hne : pieces ≠ []) :
    (pieces.map fun piece => piece.length + sep.length).sum =
      (sep.intercalate pieces).length + sep.length := by
  induction pieces with
  | nil => exact absurd rfl hne
  | cons piece pieces ih =>
    cases pieces with
    | nil => simp
    | cons next pieces =>
      rw [List.map_cons, List.sum_cons, ih (List.cons_ne_nil _ _), List.intercalate_cons_cons,
        List.length_append, List.length_append]
      omega

/-- A located piece of joined pieces stands at its position. -/
theorem exists_pieceAt_of_mem_located {sep piece : List α} {i : Nat}
    (h : (i, piece) ∈ located sep.length offset pieces) :
    ∃ before after, PieceAt sep (sep.intercalate pieces) before piece after ∧
      i = offset + before.length := by
  induction pieces generalizing offset with
  | nil => cases h
  | cons head pieces ih =>
    cases pieces with
    | nil =>
      obtain ⟨rfl, rfl⟩ := Prod.mk.inj (List.mem_singleton.mp h)
      exact ⟨[], [], ⟨by simp, .inl rfl, .inl rfl⟩, rfl⟩
    | cons next pieces =>
      rw [List.intercalate_cons_cons]
      rcases List.mem_cons.mp h with h | h
      · obtain ⟨rfl, rfl⟩ := Prod.mk.inj h
        exact ⟨[], sep ++ sep.intercalate (next :: pieces), ⟨by simp, .inl rfl,
          .inr (List.prefix_append _ _)⟩, rfl⟩
      · obtain ⟨before, after, ⟨heq, hopens, hcloses⟩, hi⟩ := ih h
        refine ⟨head ++ sep ++ before, after, ⟨by simp [heq], .inr ?_, hcloses⟩, ?_⟩
        · rcases hopens with rfl | hopens
          · rw [List.append_nil]
            exact List.suffix_append _ _
          · exact hopens.trans (List.suffix_append _ _)
        · rw [hi, List.length_append, List.length_append]
          omega

end Located

/-! ## Split lists -/

/-- What splitting at `sep` is: the pieces join to the list, and a separator splits
the list into two that are split on their own. -/
structure Splits (sep : List α) (split : List α → List (List α)) : Prop where
  join : ∀ xs, sep.intercalate (split xs) = xs
  append : ∀ xs ys, split (xs ++ sep ++ ys) = split xs ++ split ys

/-- Each piece of a joined list stands somewhere in it. -/
theorem exists_pieceAt_intercalate {sep piece : List α} {pieces : List (List α)}
    (h : piece ∈ pieces) :
    ∃ before after, PieceAt sep (sep.intercalate pieces) before piece after := by
  have hlocated : piece ∈ (located sep.length 0 pieces).map Prod.snd := by rwa [map_snd_located]
  obtain ⟨⟨i, _⟩, hmem, rfl⟩ := List.mem_map.mp hlocated
  obtain ⟨before, after, hat, -⟩ := exists_pieceAt_of_mem_located hmem
  exact ⟨before, after, hat⟩

theorem mem_intercalate {sep : List α} {pieces : List (List α)} {x : α}
    (h : x ∈ sep.intercalate pieces) : x ∈ sep ∨ ∃ piece ∈ pieces, x ∈ piece := by
  induction pieces with
  | nil => simp at h
  | cons head pieces ih =>
    cases pieces with
    | nil => exact .inr ⟨head, List.mem_cons_self, by simpa using h⟩
    | cons next pieces =>
      rw [List.intercalate_cons_cons, List.append_assoc, List.mem_append, List.mem_append] at h
      rcases h with h | h | h
      · exact .inr ⟨head, List.mem_cons_self, h⟩
      · exact .inl h
      · rcases ih h with h | ⟨piece, hpiece, hx⟩
        · exact .inl h
        · exact .inr ⟨piece, List.mem_cons_of_mem _ hpiece, hx⟩

namespace Splits
variable {sep xs : List α} {split : List α → List (List α)}

/-- Every piece of a split list stands somewhere in the list. -/
theorem exists_pieceAt (hsplit : Splits sep split) {piece : List α} (h : piece ∈ split xs) :
    ∃ before after, PieceAt sep xs before piece after := by
  have hpiece : ∃ before after, PieceAt sep (sep.intercalate (split xs)) before piece after :=
    exists_pieceAt_intercalate h
  rwa [hsplit.join] at hpiece

/-- An entry that is no part of a separator is in a piece. -/
theorem exists_mem (hsplit : Splits sep split) {x : α} (hx : x ∈ xs) (hsep : x ∉ sep) :
    ∃ piece ∈ split xs, x ∈ piece := by
  rw [← hsplit.join xs] at hx
  exact (mem_intercalate hx).resolve_left hsep

/-- The pieces of a list around one piece of it that holds no separator. -/
theorem split_pieceAt (hsplit : Splits sep split) {before piece after : List α}
    (h : PieceAt sep xs before piece after) (hpiece : split piece = [piece]) :
    ∃ left right, split xs = left ++ [piece] ++ right ∧
      (∀ l ∈ left, ∃ b a, PieceAt sep xs b l a ∧ b.length + sep.length ≤ before.length) ∧
      (∀ r ∈ right, ∃ b a, PieceAt sep xs b r a ∧
        before.length + piece.length + sep.length ≤ b.length) ∧
      (after = [] → right = []) := by
  obtain ⟨rfl, hopens, hcloses⟩ := h
  have hright : ∃ right, split (piece ++ after) = [piece] ++ right ∧
      (∀ r ∈ right, ∃ b a, PieceAt sep (before ++ piece ++ after) b r a ∧
        before.length + piece.length + sep.length ≤ b.length) ∧ (after = [] → right = []) := by
    rcases hcloses with rfl | ⟨rest, rfl⟩
    · exact ⟨[], by simpa using hpiece, by simp, fun _ => rfl⟩
    · refine ⟨split rest, ?_, fun r hr => ?_, fun hnil => ?_⟩
      · rw [← List.append_assoc, hsplit.append, hpiece]
      · obtain ⟨b, a, heq, hb, ha⟩ := hsplit.exists_pieceAt hr
        refine ⟨before ++ piece ++ sep ++ b, a, ⟨by simp [heq], .inr ?_, ha⟩, by simp; omega⟩
        rcases hb with rfl | hb
        · rw [List.append_nil]
          exact List.suffix_append _ _
        · exact hb.trans (List.suffix_append _ _)
      · -- An empty rest leaves an empty separator, which splits `[]` twice.
        obtain ⟨rfl, rfl⟩ := List.append_eq_nil_iff.mp hnil
        have hdouble := congrArg List.length (hsplit.append [] [])
        rw [List.append_nil, List.append_nil, List.length_append] at hdouble
        exact List.length_eq_zero_iff.mp (by omega)
  obtain ⟨right, hright, hr, hlast⟩ := hright
  rcases hopens with rfl | ⟨rest, rfl⟩
  · exact ⟨[], right, by simpa using hright, by simp, hr, hlast⟩
  · refine ⟨split rest, right, ?_, fun l hl => ?_, hr, hlast⟩
    · rw [List.append_assoc, hsplit.append, hright, List.append_assoc]
    · obtain ⟨b, a, heq, hb, ha⟩ := hsplit.exists_pieceAt hl
      refine ⟨b, a ++ sep ++ piece ++ after, ⟨by simp [heq], hb, .inr ?_⟩, ?_⟩
      · rcases ha with rfl | ha
        · simp [List.append_assoc]
        · simp only [List.append_assoc]
          exact ha.trans (List.prefix_append _ _)
      · rw [List.length_append, heq]
        simp only [List.length_append]
        omega

/-- A piece that holds no separator is one of the pieces. -/
theorem mem_of_pieceAt (hsplit : Splits sep split) {before piece after : List α}
    (h : PieceAt sep xs before piece after) (hpiece : split piece = [piece]) :
    piece ∈ split xs := by
  obtain ⟨left, right, heq, -⟩ := hsplit.split_pieceAt h hpiece
  simp [heq]

/-- **A piece is the only one of its kind when every piece of the kind stands where
it does.** -/
theorem filter_eq_singleton (hsplit : Splits sep split) (hsep : sep ≠ [])
    {before piece after : List α} (h : PieceAt sep xs before piece after)
    (hpiece : split piece = [piece]) {p : List α → Bool} (hp : p piece = true)
    (hunique : ∀ b l a, PieceAt sep xs b l a → p l = true → b.length = before.length) :
    (split xs).filter p = [piece] := by
  have hpos : 0 < sep.length := List.length_pos_of_ne_nil hsep
  obtain ⟨left, right, heq, hleft, hright, -⟩ := hsplit.split_pieceAt h hpiece
  have hl : left.filter p = [] := by
    rw [List.filter_eq_nil_iff]
    intro l hl hpl
    obtain ⟨b, a, hat, hlen⟩ := hleft l hl
    have := hunique b l a hat hpl
    omega
  have hr : right.filter p = [] := by
    rw [List.filter_eq_nil_iff]
    intro r hr hpr
    obtain ⟨b, a, hat, hlen⟩ := hright r hr
    have := hunique b r a hat hpr
    omega
  rw [heq, List.filter_append, List.filter_append, hl, hr, List.filter_cons, if_pos hp,
    List.filter_nil, List.append_nil, List.nil_append]

end Splits

namespace Splits
variable {sep xs : List α} {split : List α → List (List α)} {offset : Nat}

/-- Where the rest of a split list starts. -/
theorem sum_length (hsplit : Splits sep split) (hne : ∀ xs, split xs ≠ []) (xs : List α) :
    ((split xs).map fun piece => piece.length + sep.length).sum = xs.length + sep.length := by
  rw [sum_length_add (hne xs), hsplit.join]

/-- A piece that holds no separator is located where it stands. -/
theorem mem_located (hsplit : Splits sep split) (hne : ∀ xs, split xs ≠ [])
    {before piece after : List α} (h : PieceAt sep xs before piece after)
    (hpiece : split piece = [piece]) :
    (offset + before.length, piece) ∈ located sep.length offset (split xs) := by
  have hhead : ∀ {offset : Nat}, (offset, piece) ∈
      located sep.length offset (split (piece ++ after)) := by
    intro offset
    rcases h.closes with rfl | ⟨rest, rfl⟩
    · rw [List.append_nil, hpiece]
      exact List.mem_singleton_self _
    · rw [← List.append_assoc, hsplit.append, hpiece]
      exact List.mem_cons_self
  obtain ⟨rfl, hopens, -⟩ := h
  rcases hopens with rfl | ⟨rest, rfl⟩
  · exact hhead
  · rw [List.append_assoc, hsplit.append, located_append, hsplit.sum_length hne,
      List.length_append]
    exact List.mem_append_right _ hhead

/-- What is located stands there. -/
theorem pieceAt_of_mem_located (hsplit : Splits sep split) {piece : List α} {i : Nat}
    (h : (i, piece) ∈ located sep.length offset (split xs)) :
    ∃ before after, PieceAt sep xs before piece after ∧ i = offset + before.length := by
  obtain ⟨before, after, hat, hi⟩ := exists_pieceAt_of_mem_located h
  rw [hsplit.join] at hat
  exact ⟨before, after, hat, hi⟩

end Splits

/-! ## One entry as the separator -/

section One
variable {xs : List α} {sep : α}

theorem splits_splitOn [DecidableEq α] (sep : α) : Splits [sep] fun xs => xs.splitOn sep where
  join _ := List.intercalate_splitOn sep
  append xs ys := by
    rw [List.append_assoc, List.singleton_append]
    exact List.splitOn_append_cons_self xs ys

/-- A slice between two separators or the ends of a slice is a piece of it. -/
theorem pieceAt_slice {lo hi i j : Nat} (hlo : lo ≤ i) (hij : i ≤ j) (hj : j ≤ hi)
    (hopens : i = lo ∨ xs[i - 1]? = some sep) (hcloses : j = hi ∨ xs[j]? = some sep) :
    PieceAt [sep] (slice xs lo hi) (slice xs lo i) (slice xs i j) (slice xs j hi) where
  eq := by rw [slice_append hlo hij, slice_append (hlo.trans hij) hj]
  opens := by
    rcases Nat.eq_or_lt_of_le hlo with rfl | hlt
    · exact .inl slice_self
    · refine .inr ⟨slice xs lo (i - 1), ?_⟩
      have h := slice_snoc (show lo ≤ i - 1 by omega) (hopens.resolve_left (by omega))
      rw [show i - 1 + 1 = i by omega] at h
      exact h.symm
  closes := by
    rcases Nat.eq_or_lt_of_le hj with rfl | hlt
    · exact .inl slice_self
    · refine .inr ⟨slice xs (j + 1) hi, ?_⟩
      rw [slice_cons hlt (hcloses.resolve_left (by omega)), List.singleton_append]

section OfSlice
variable {lo hi : Nat} {before piece after : List α}

theorem PieceAt.length_le (h : PieceAt [sep] (slice xs lo hi) before piece after)
    (hlo : lo ≤ hi) (hhi : hi ≤ xs.length) :
    lo + before.length + piece.length + after.length = hi := by
  have hlen := congrArg List.length h.eq
  rw [length_slice hhi, List.length_append, List.length_append] at hlen
  omega

/-- The entries of a piece are those of the list. -/
theorem PieceAt.getElem?_piece (h : PieceAt [sep] (slice xs lo hi) before piece after)
    (hlo : lo ≤ hi) (hhi : hi ≤ xs.length) {k : Nat} (hk : k < piece.length) :
    xs[lo + before.length + k]? = piece[k]? := by
  have hlen := h.length_le hlo hhi
  have hentry : (slice xs lo hi)[before.length + k]? = piece[k]? := by
    rw [h.eq, List.append_assoc, List.getElem?_append_right (by omega), Nat.add_sub_cancel_left,
      List.getElem?_append_left hk]
  rw [getElem?_slice, if_pos (by omega)] at hentry
  rwa [Nat.add_assoc]

/-- A piece is a slice of the list. -/
theorem PieceAt.piece_eq (h : PieceAt [sep] (slice xs lo hi) before piece after)
    (hlo : lo ≤ hi) (hhi : hi ≤ xs.length) :
    piece = slice xs (lo + before.length) (lo + before.length + piece.length) := by
  apply List.ext_getElem?
  intro k
  rw [getElem?_slice]
  split
  · exact (h.getElem?_piece hlo hhi (by omega)).symm
  · exact List.getElem?_eq_none (by omega)

/-- Before a piece is the start of the list or a separator. -/
theorem PieceAt.getElem?_before (h : PieceAt [sep] (slice xs lo hi) before piece after)
    (hlo : lo ≤ hi) (hhi : hi ≤ xs.length) :
    before.length = 0 ∨ xs[lo + before.length - 1]? = some sep := by
  rcases h.opens with rfl | ⟨rest, rfl⟩
  · exact .inl rfl
  · right
    have hlen := h.length_le hlo hhi
    rw [List.length_append, List.length_singleton] at hlen ⊢
    have hentry : (slice xs lo hi)[rest.length]? = some sep := by rw [h.eq]; simp
    rw [getElem?_slice, if_pos (by omega)] at hentry
    rwa [show lo + (rest.length + 1) - 1 = lo + rest.length by omega]

/-- After a piece is the end of the list or a separator. -/
theorem PieceAt.getElem?_after (h : PieceAt [sep] (slice xs lo hi) before piece after)
    (hlo : lo ≤ hi) (hhi : hi ≤ xs.length) :
    lo + before.length + piece.length = hi ∨
      xs[lo + before.length + piece.length]? = some sep := by
  have hlen := h.length_le hlo hhi
  rcases h.closes with rfl | ⟨rest, rfl⟩
  · exact .inl (by simpa using hlen)
  · right
    rw [List.length_append, List.length_singleton] at hlen
    have hentry : (slice xs lo hi)[before.length + piece.length]? = some sep := by rw [h.eq]; simp
    rw [getElem?_slice, if_pos (by omega)] at hentry
    rwa [Nat.add_assoc]

end OfSlice

end One

/-! ## Two entries as the separator -/

section Pair
variable [DecidableEq α] (a b : α)

/-- The pieces between the occurrences of `a` and `b` one after the other. -/
def splitOnPair : List α → List (List α)
  | [] => [[]]
  | [x] => [[x]]
  | x :: y :: rest =>
    if x = a ∧ y = b then [] :: splitOnPair rest else (splitOnPair (y :: rest)).modifyHead (x :: ·)

variable {a b}

theorem splitOnPair_ne_nil (xs : List α) : splitOnPair a b xs ≠ [] := by
  fun_induction splitOnPair a b xs with
  | case1 => exact List.cons_ne_nil _ _
  | case2 x => exact List.cons_ne_nil _ _
  | case3 x y rest h ih => exact List.cons_ne_nil _ _
  | case4 x y rest h ih =>
    obtain ⟨head, tail, heq⟩ := List.exists_cons_of_ne_nil ih
    rw [heq, List.modifyHead_cons]
    exact List.cons_ne_nil _ _

theorem splits_splitOnPair (hab : a ≠ b) : Splits [a, b] (splitOnPair a b) where
  join xs := by
    fun_induction splitOnPair a b xs with
    | case1 => simp
    | case2 x => simp
    | case3 x y rest h ih =>
      obtain ⟨head, tail, heq⟩ := List.exists_cons_of_ne_nil (splitOnPair_ne_nil (a := a) (b := b) rest)
      rw [heq, List.intercalate_cons_cons, ← heq, ih, h.1, h.2]
      rfl
    | case4 x y rest h ih =>
      obtain ⟨head, tail, heq⟩ :=
        List.exists_cons_of_ne_nil (splitOnPair_ne_nil (a := a) (b := b) (y :: rest))
      rw [heq] at ih ⊢
      cases tail with
      | nil => simpa using ih
      | cons next tail =>
        rw [List.modifyHead_cons, List.intercalate_cons_cons]
        rw [List.intercalate_cons_cons] at ih
        rw [← ih]
        simp
  append xs ys := by
    fun_induction splitOnPair a b xs with
    | case1 => simp [splitOnPair]
    | case2 x => simp [splitOnPair, hab]
    | case3 x y rest h ih =>
      simp only [List.cons_append] at ih ⊢
      rw [splitOnPair, if_pos h, ih]
    | case4 x y rest h ih =>
      obtain ⟨head, tail, heq⟩ :=
        List.exists_cons_of_ne_nil (splitOnPair_ne_nil (a := a) (b := b) (y :: rest))
      simp only [List.cons_append] at ih ⊢
      rw [splitOnPair, if_neg h, ih, heq, List.cons_append, List.modifyHead_cons,
        List.modifyHead_cons, List.cons_append]

/-- A piece without the first entry of the separator is not split. -/
theorem splitOnPair_of_notMem {xs : List α} (h : a ∉ xs) : splitOnPair a b xs = [xs] := by
  fun_induction splitOnPair a b xs with
  | case1 => rfl
  | case2 x => rfl
  | case3 x y rest hxy ih => exact absurd List.mem_cons_self (hxy.1 ▸ h)
  | case4 x y rest hxy ih => rw [ih (fun hmem => h (List.mem_cons_of_mem x hmem)), List.modifyHead_cons]

/-- Where `a` and `b` only stand next to each other, no piece holds one of them. -/
theorem notMem_of_mem_splitOnPair {xs : List α} (hab : a ≠ b)
    (hnext : ∀ i, xs[i]? = some a → xs[i + 1]? = some b)
    (hprevious : ∀ i, xs[i]? = some b → ∃ j, i = j + 1 ∧ xs[j]? = some a) {piece : List α}
    (h : piece ∈ splitOnPair a b xs) : a ∉ piece ∧ b ∉ piece := by
  fun_induction splitOnPair a b xs generalizing piece with
  | case1 =>
    rw [List.mem_singleton.mp h]
    exact ⟨List.not_mem_nil, List.not_mem_nil⟩
  | case2 x =>
    rw [List.mem_singleton.mp h, List.mem_singleton, List.mem_singleton]
    refine ⟨fun hx => ?_, fun hx => ?_⟩
    · have := hnext 0 (by rw [hx]; rfl)
      cases this
    · obtain ⟨j, hj, -⟩ := hprevious 0 (by rw [hx]; rfl)
      omega
  | case3 x y rest hxy ih =>
    rcases List.mem_cons.mp h with rfl | h
    · exact ⟨List.not_mem_nil, List.not_mem_nil⟩
    refine ih (fun i hi => hnext (i + 2) hi) (fun i hi => ?_) h
    obtain ⟨j, hj, hja⟩ := hprevious (i + 2) hi
    obtain rfl : j = i + 1 := by omega
    cases i with
    | zero => exact absurd ((Option.some.inj hja).symm.trans hxy.2) hab
    | succ i => exact ⟨i, rfl, hja⟩
  | case4 x y rest hxy ih =>
    have hxa : x ≠ a := fun hx => hxy ⟨hx, Option.some.inj (hnext 0 (congrArg some hx))⟩
    have hxb : x ≠ b := fun hx => by
      obtain ⟨j, hj, -⟩ := hprevious 0 (congrArg some hx)
      omega
    have hrest : ∀ piece ∈ splitOnPair a b (y :: rest), a ∉ piece ∧ b ∉ piece := by
      intro piece hpiece
      refine ih (fun i hi => hnext (i + 1) hi) (fun i hi => ?_) hpiece
      obtain ⟨j, hj, hja⟩ := hprevious (i + 1) hi
      obtain rfl : j = i := by omega
      cases j with
      | zero => exact absurd (Option.some.inj hja) hxa
      | succ j => exact ⟨j, rfl, hja⟩
    obtain ⟨head, tail, heq⟩ :=
      List.exists_cons_of_ne_nil (splitOnPair_ne_nil (a := a) (b := b) (y :: rest))
    rw [heq] at hrest h
    rw [List.modifyHead_cons, List.mem_cons] at h
    rcases h with rfl | h
    · obtain ⟨ha, hb⟩ := hrest head List.mem_cons_self
      rw [List.mem_cons, List.mem_cons, not_or, not_or]
      exact ⟨⟨hxa.symm, ha⟩, hxb.symm, hb⟩
    · exact hrest piece (List.mem_cons_of_mem _ h)

end Pair

end Splitting
