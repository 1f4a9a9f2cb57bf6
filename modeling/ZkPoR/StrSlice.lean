import Mathlib.Data.List.Basic

/-! # Slices of a UTF-8 text

A text is a list of characters, and a slice of it names two byte offsets.  An offset
inside a character, or behind the end, has no slice: the program stops there.  A text
of one-byte characters has every slice within its length (`slice?_of_ascii`).
-/
namespace StrSlice

/-- The bytes of a text in UTF-8. -/
def bytes (text : List Char) : List UInt8 := text.flatMap String.utf8EncodeChar

/-- The text behind its first `n` bytes. -/
def dropBytes? : List Char → Nat → Option (List Char)
  | text, 0 => some text
  | [], _ + 1 => none
  | c :: text, n + 1 =>
    if c.utf8Size ≤ n + 1 then dropBytes? text (n + 1 - c.utf8Size) else none

/-- The text of the first `n` bytes. -/
def takeBytes? : List Char → Nat → Option (List Char)
  | _, 0 => some []
  | [], _ + 1 => none
  | c :: text, n + 1 =>
    if c.utf8Size ≤ n + 1 then (takeBytes? text (n + 1 - c.utf8Size)).map (c :: ·) else none

/-- `text[start..stop]` -/
def slice? (text : List Char) (start stop : Nat) : Option (List Char) :=
  if start ≤ stop then (dropBytes? text start).bind (takeBytes? · (stop - start)) else none

variable {text : List Char}

theorem dropBytes?_of_ascii (h : ∀ c ∈ text, c.utf8Size = 1) {n : Nat} (hn : n ≤ text.length) :
    dropBytes? text n = some (text.drop n) := by
  induction text generalizing n with
  | nil =>
    obtain rfl : n = 0 := Nat.le_zero.mp hn
    rfl
  | cons c text ih =>
    obtain ⟨hc, htext⟩ := List.forall_mem_cons.mp h
    cases n with
    | zero => rfl
    | succ n =>
      rw [dropBytes?, hc, if_pos (by omega), Nat.add_sub_cancel]
      exact ih htext (Nat.le_of_succ_le_succ hn)

theorem takeBytes?_of_ascii (h : ∀ c ∈ text, c.utf8Size = 1) {n : Nat} (hn : n ≤ text.length) :
    takeBytes? text n = some (text.take n) := by
  induction text generalizing n with
  | nil =>
    obtain rfl : n = 0 := Nat.le_zero.mp hn
    rfl
  | cons c text ih =>
    obtain ⟨hc, htext⟩ := List.forall_mem_cons.mp h
    cases n with
    | zero => rfl
    | succ n =>
      rw [takeBytes?, hc, if_pos (by omega), Nat.add_sub_cancel,
        ih htext (Nat.le_of_succ_le_succ hn), Option.map_some, List.take_succ_cons]

/-- **No offset of a one-byte text lies inside a character.** -/
theorem slice?_of_ascii (h : ∀ c ∈ text, c.utf8Size = 1) {start stop : Nat}
    (hle : start ≤ stop) (hstop : stop ≤ text.length) :
    slice? text start stop = some ((text.drop start).take (stop - start)) := by
  have hdrop : ∀ c ∈ text.drop start, c.utf8Size = 1 := fun c hc => h c (List.mem_of_mem_drop hc)
  rw [slice?, if_pos hle, dropBytes?_of_ascii h (by omega), Option.bind_some,
    takeBytes?_of_ascii hdrop (by rw [List.length_drop]; omega)]

/-! ## The bytes of a character -/

/-- A one-byte character is its own byte. -/
theorem utf8EncodeChar_of_ascii {c : Char} (h : c.utf8Size = 1) :
    String.utf8EncodeChar c = [c.val.toUInt8] := String.utf8EncodeChar_eq_singleton h

/-- The bytes of any other character start with one above `0x7f`. -/
theorem exists_cons_of_not_ascii {c : Char} (h : c.utf8Size ≠ 1) :
    ∃ first rest, String.utf8EncodeChar c = first :: rest ∧ 0x80 ≤ first.toNat := by
  have hpos := c.utf8Size_pos
  have hfour := c.utf8Size_le_four
  have hlead : ∀ low lead : UInt8, 0x80 ≤ lead.toNat → 0x80 ≤ (low ||| lead).toNat := by
    intro low lead hlead
    rw [UInt8.toNat_or]
    exact Nat.le_trans hlead Nat.right_le_or
  rcases (by omega : c.utf8Size = 2 ∨ c.utf8Size = 3 ∨ c.utf8Size = 4) with h2 | h3 | h4
  · exact ⟨_, _, String.utf8EncodeChar_eq_cons_cons h2, hlead _ _ (by decide)⟩
  · exact ⟨_, _, String.utf8EncodeChar_eq_cons_cons_cons h3, hlead _ _ (by decide)⟩
  · exact ⟨_, _, String.utf8EncodeChar_eq_cons_cons_cons_cons h4, hlead _ _ (by decide)⟩

/-- A test of one-byte characters, made byte by byte. -/
theorem all_bytes_iff {p : UInt8 → Bool} (hp : ∀ byte, p byte = true → byte.toNat < 0x80) :
    (bytes text).all p = true ↔ ∀ c ∈ text, c.utf8Size = 1 ∧ p c.val.toUInt8 = true := by
  simp only [bytes, List.all_flatMap, List.all_eq_true]
  refine forall₂_congr fun c _ => ⟨fun h => ?_, fun ⟨hsize, h⟩ => ?_⟩
  · by_cases hsize : c.utf8Size = 1
    · rw [utf8EncodeChar_of_ascii hsize] at h
      exact ⟨hsize, h _ List.mem_cons_self⟩
    · obtain ⟨first, rest, hbytes, hfirst⟩ := exists_cons_of_not_ascii hsize
      rw [hbytes] at h
      have := hp _ (h _ List.mem_cons_self)
      omega
  · rw [utf8EncodeChar_of_ascii hsize]
    simpa using h

end StrSlice
