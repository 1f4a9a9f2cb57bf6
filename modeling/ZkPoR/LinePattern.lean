import Mathlib.Data.List.TakeWhile

/-! # Assignments that a multi-line pattern finds

The pattern `^name\s*=\s*value\s*$`, for a value that no white space starts, over a
whole text: a line starts at the front of the text and behind a line terminator, and
ends at the back and before one.  A terminator is white space, so each `\s*` can run
over several lines.

`\s*`, the name, and the value match in one way each, so that the leftmost match is
the first start of a line where `assignment` succeeds (`exec_eq_some`).
-/
namespace LinePattern

section Match
variable {α : Type} (space terminator : Char → Bool)

/-- `\s*$`: the white space reaches the end of the text, or holds the end of a line. -/
def endsLine (rest : List Char) : Bool :=
  rest.dropWhile space = [] || (rest.takeWhile space).any terminator

/-- One match of the pattern at the start of a text. -/
def assignment (name : List Char) (value : List Char → Option (α × List Char))
    (text : List Char) : Option α := do
  let rest ← name.isPrefixOf? text
  let '=' :: rest := rest.dropWhile space | none
  let (a, rest) ← value (rest.dropWhile space)
  if endsLine space terminator rest then some a else none

/-- The leftmost match in a text, from a position that may be the start of a line. -/
def exec (name : List Char) (value : List Char → Option (α × List Char)) :
    Bool → List Char → Option α
  | _, [] => none
  | lineStart, c :: text =>
    match if lineStart then assignment space terminator name value (c :: text) else none with
    | some a => some a
    | none => exec name value (terminator c) text

end Match

/-- `(\d+)` -/
def digits (text : List Char) : Option (List Char × List Char) :=
  if text.takeWhile Char.isDigit = [] then none
  else some (text.takeWhile Char.isDigit, text.dropWhile Char.isDigit)

/-- `"([^"]+)"` -/
def quoted : List Char → Option (List Char × List Char)
  | '"' :: text =>
    match text.dropWhile (· ≠ '"') with
    | '"' :: rest =>
      if text.takeWhile (· ≠ '"') = [] then none
      else some (text.takeWhile (· ≠ '"'), rest)
    | _ => none
  | _ => none

theorem digits_eq_some {text a rest : List Char} :
    digits text = some (a, rest) ↔
      text = a ++ rest ∧ a ≠ [] ∧ (∀ c ∈ a, c.isDigit = true) ∧
        ∀ c ∈ rest.head?, c.isDigit = false := by
  rw [digits]
  constructor
  · intro h
    by_cases hnil : text.takeWhile Char.isDigit = []
    · simp [hnil] at h
    · rw [if_neg hnil, Option.some.injEq, Prod.mk.injEq] at h
      obtain ⟨rfl, rfl⟩ := h
      refine ⟨List.takeWhile_append_dropWhile.symm, hnil,
        fun c hc => List.mem_takeWhile_imp hc, fun c hc => ?_⟩
      have hhead := List.head?_dropWhile_not Char.isDigit text
      rw [Option.mem_def.mp hc] at hhead
      simpa using hhead
  · rintro ⟨rfl, hne, hdigits, hrest⟩
    have htake : (a ++ rest).takeWhile Char.isDigit = a := by
      rw [List.takeWhile_append_of_pos hdigits]
      cases rest with
      | nil => simp
      | cons c rest => simp [hrest c rfl]
    have hdrop : (a ++ rest).dropWhile Char.isDigit = rest := by
      rw [List.dropWhile_append_of_pos hdigits]
      cases rest with
      | nil => rfl
      | cons c rest => simp [hrest c rfl]
    rw [htake, hdrop, if_neg hne]

theorem eq_append_of_isPrefixOf? {name text rest : List Char}
    (h : name.isPrefixOf? text = some rest) : text = name ++ rest := by
  induction name generalizing text with
  | nil =>
    cases h
    rfl
  | cons c name ih =>
    cases text with
    | nil => cases h
    | cons d text =>
      change (if c == d then name.isPrefixOf? text else none) = some rest at h
      split at h
      · rename_i heq
        rw [eq_of_beq heq, ih h, List.cons_append]
      · cases h

/-- The parts of a quoted text. -/
theorem quoted_parts {text a rest : List Char} (h : quoted text = some (a, rest)) :
    text = '"' :: (a ++ '"' :: rest) ∧ a ≠ [] ∧ '"' ∉ a := by
  unfold quoted at h
  split at h
  · rename_i text
    split at h
    · rename_i rest' hrest
      by_cases hnil : text.takeWhile (fun c => c ≠ '"') = []
      · rw [if_pos hnil] at h
        cases h
      · rw [if_neg hnil, Option.some.injEq, Prod.mk.injEq] at h
        obtain ⟨rfl, rfl⟩ := h
        refine ⟨?_, hnil, fun hmem => ?_⟩
        · rw [← hrest, List.takeWhile_append_dropWhile]
        · simpa using List.mem_takeWhile_imp hmem
    · cases h
  · cases h

/-! ## Where the pattern matches -/

section Places
variable {α : Type} (terminator : Char → Bool)

/-- A line starts behind a part of a text. -/
def startsLine (lineStart : Bool) (before : List Char) : Bool :=
  before.getLast?.elim lineStart terminator

/-- A pattern matches at the start of a line, behind a part of the text. -/
def MatchesAt (pattern : List Char → Option α) (lineStart : Bool) (text before : List Char)
    (a : α) : Prop :=
  ∃ rest, text = before ++ rest ∧ rest ≠ [] ∧ startsLine terminator lineStart before = true ∧
    pattern rest = some a

/-- The leftmost match. -/
structure FirstMatch (pattern : List Char → Option α) (lineStart : Bool)
    (text before : List Char) (a : α) : Prop where
  here : MatchesAt terminator pattern lineStart text before a
  first : ∀ before' a', MatchesAt terminator pattern lineStart text before' a' →
    before.length ≤ before'.length

variable {terminator} {pattern : List Char → Option α} {lineStart : Bool} {c : Char}
  {text before : List Char} {a : α}

theorem startsLine_cons :
    startsLine terminator lineStart (c :: before) = startsLine terminator (terminator c) before := by
  cases before with
  | nil => rfl
  | cons d before =>
    rw [startsLine, startsLine, List.getLast?_cons_cons,
      List.getLast?_eq_some_getLast (List.cons_ne_nil d before)]
    rfl

theorem matchesAt_nil :
    MatchesAt terminator pattern lineStart (c :: text) [] a ↔
      lineStart = true ∧ pattern (c :: text) = some a := by
  simp [MatchesAt, startsLine]

theorem matchesAt_cons {d : Char} :
    MatchesAt terminator pattern lineStart (c :: text) (d :: before) a ↔
      c = d ∧ MatchesAt terminator pattern (terminator c) text before a := by
  simp only [MatchesAt, startsLine_cons, List.cons_append, List.cons.injEq]
  constructor
  · rintro ⟨rest, ⟨rfl, rfl⟩, h⟩
    exact ⟨rfl, rest, rfl, h⟩
  · rintro ⟨rfl, rest, rfl, h⟩
    exact ⟨rest, ⟨rfl, rfl⟩, h⟩

/-- A line whose front does not match leaves the first match to the rest of the text. -/
theorem firstMatch_cons
    (h : (if lineStart then pattern (c :: text) else none) = none) :
    (∃ before, FirstMatch terminator pattern lineStart (c :: text) before a) ↔
      ∃ before, FirstMatch terminator pattern (terminator c) text before a := by
  have hnil : ∀ a', ¬ MatchesAt terminator pattern lineStart (c :: text) [] a' := by
    intro a' hmatch
    obtain ⟨hstart, hpattern⟩ := matchesAt_nil.mp hmatch
    rw [if_pos hstart, hpattern] at h
    cases h
  constructor
  · rintro ⟨before, hhere, hfirst⟩
    cases before with
    | nil => exact absurd hhere (hnil a)
    | cons d before =>
      obtain ⟨rfl, hrest⟩ := matchesAt_cons.mp hhere
      refine ⟨before, hrest, fun before' a' hmatch => ?_⟩
      have hle := hfirst (c :: before') a' (matchesAt_cons.mpr ⟨rfl, hmatch⟩)
      simpa using hle
  · rintro ⟨before, hhere, hfirst⟩
    refine ⟨c :: before, matchesAt_cons.mpr ⟨rfl, hhere⟩, fun before' a' hmatch => ?_⟩
    cases before' with
    | nil => exact absurd hmatch (hnil a')
    | cons d before' =>
      have hle := hfirst before' a' (matchesAt_cons.mp hmatch).2
      simpa using hle

end Places

section Search
variable {α : Type} {space terminator : Char → Bool} {name : List Char}
  {value : List Char → Option (α × List Char)} {lineStart : Bool} {text : List Char} {a : α}

/-- **The search finds the leftmost match.** -/
theorem exec_eq_some :
    exec space terminator name value lineStart text = some a ↔
      ∃ before, FirstMatch terminator (assignment space terminator name value) lineStart text
        before a := by
  induction text generalizing lineStart with
  | nil =>
    refine ⟨fun h => absurd h (by simp [exec]), ?_⟩
    rintro ⟨before, ⟨rest, htext, hne, -⟩, -⟩
    exact absurd (List.append_eq_nil_iff.mp htext.symm).2 hne
  | cons c text ih =>
    rw [exec]
    cases hfront : (if lineStart then assignment space terminator name value (c :: text)
      else none) with
    | none => rw [ih, firstMatch_cons hfront]
    | some a' =>
      have hnil : MatchesAt terminator (assignment space terminator name value) lineStart
          (c :: text) [] a' := by
        rw [matchesAt_nil]
        cases lineStart with
        | false => cases hfront
        | true => exact ⟨rfl, hfront⟩
      constructor
      · intro h
        obtain rfl := Option.some.inj h
        exact ⟨[], hnil, fun _ _ _ => Nat.zero_le _⟩
      · rintro ⟨before, hhere, hfirst⟩
        obtain rfl := List.length_eq_zero_iff.mp (Nat.le_zero.mp (hfirst [] a' hnil))
        exact (matchesAt_nil.mp hnil).2.symm.trans (matchesAt_nil.mp hhere).2

/-- The parts of one match: a name, an equals sign, and a value, with white space
around the sign. -/
theorem assignment_parts (h : assignment space terminator name value text = some a) :
    ∃ gap gap' body tail, text = name ++ (gap ++ '=' :: (gap' ++ body)) ∧
      (∀ c ∈ gap, space c = true) ∧ (∀ c ∈ gap', space c = true) ∧
        value body = some (a, tail) ∧ endsLine space terminator tail = true := by
  simp only [assignment, Option.bind_eq_bind, Option.bind_eq_some_iff] at h
  obtain ⟨rest, hprefix, h⟩ := h
  obtain rfl := eq_append_of_isPrefixOf? hprefix
  split at h
  · rename_i body hsign
    simp only [Option.bind_eq_some_iff] at h
    obtain ⟨⟨found, tail⟩, hvalue, h⟩ := h
    dsimp only at h
    split at h
    · rename_i hends
      obtain rfl := Option.some.inj h
      refine ⟨rest.takeWhile space, body.takeWhile space, body.dropWhile space, tail, ?_,
        fun c hc => List.mem_takeWhile_imp hc, fun c hc => List.mem_takeWhile_imp hc,
        hvalue, hends⟩
      rw [List.takeWhile_append_dropWhile, ← hsign, List.takeWhile_append_dropWhile]
    · cases h
  · cases h

end Search

end LinePattern
