import Mathlib.Data.List.Basic
import Mathlib.Data.List.Infix
import ZkPoR.Trimming

/-! # Lines of a text

A line ends at a line feed, which a carriage return may precede, and the last line may
have no end.  `splitInclusive` cuts a text behind each line feed, so its pieces join to
the text, and `lines` takes the end off each piece.
-/
namespace TextLines

/-- The pieces of a text, each up to a line feed or the end. -/
def splitInclusive : List Char → List (List Char)
  | [] => []
  | c :: text =>
    if c = '\n' then [c] :: splitInclusive text
    else
      match splitInclusive text with
      | [] => [[c]]
      | piece :: pieces => (c :: piece) :: pieces

/-- The text before a last character, if that is what the text ends in. -/
def stripSuffix? (last : Char) (text : List Char) : Option (List Char) :=
  if text.getLast? = some last then some text.dropLast else none

/-- A piece without its line end. -/
def stripEnd (piece : List Char) : List Char :=
  match stripSuffix? '\n' piece with
  | none => piece
  | some line => (stripSuffix? '\r' line).getD line

/-- The lines of a text. -/
def lines (text : List Char) : List (List Char) := (splitInclusive text).map stripEnd

/-- The texts before and behind the first occurrence of a character. -/
def splitOnce (sep : Char) : List Char → Option (List Char × List Char)
  | [] => none
  | c :: text =>
    if c = sep then some ([], text)
    else (splitOnce sep text).map fun parts => (c :: parts.1, parts.2)

theorem splitOnce_eq_some {sep : Char} {text before after : List Char} :
    splitOnce sep text = some (before, after) ↔
      text = before ++ sep :: after ∧ sep ∉ before := by
  induction text generalizing before with
  | nil => simp [splitOnce]
  | cons c text ih =>
    rw [splitOnce]
    by_cases hc : c = sep
    · subst hc
      rw [if_pos rfl]
      cases before with
      | nil => simp
      | cons d before =>
        simp only [Option.some.injEq, Prod.mk.injEq, List.nil_eq, reduceCtorEq, false_and,
          List.cons_append, List.cons.injEq, List.mem_cons, not_or, false_iff]
        rintro ⟨⟨rfl, -⟩, hne, -⟩
        exact hne rfl
    · rw [if_neg hc, Option.map_eq_some_iff]
      constructor
      · rintro ⟨⟨init, rest⟩, hsplit, hparts⟩
        obtain ⟨rfl, rfl⟩ := Prod.mk.inj hparts
        obtain ⟨rfl, hmem⟩ := ih.mp hsplit
        exact ⟨rfl, by simp [Ne.symm hc, hmem]⟩
      · rintro ⟨htext, hmem⟩
        cases before with
        | nil =>
          obtain ⟨rfl, -⟩ := List.cons.inj htext
          exact absurd rfl hc
        | cons d before =>
          obtain ⟨rfl, rfl⟩ := List.cons.inj htext
          rw [List.mem_cons, not_or] at hmem
          exact ⟨(before, after), ih.mpr ⟨rfl, hmem.2⟩, rfl⟩

/-! ## The places of the lines -/

/-- A piece ends in its one line feed, or it is the last piece and has none. -/
theorem splitInclusive_parts {text piece : List Char} {pieces later : List (List Char)}
    (h : splitInclusive text = pieces ++ piece :: later) :
    (∃ line, piece = line ++ ['\n'] ∧ '\n' ∉ line) ∨ ('\n' ∉ piece ∧ later = []) := by
  induction text generalizing pieces piece with
  | nil => simp [splitInclusive] at h
  | cons c text ih =>
    rw [splitInclusive] at h
    split at h
    · rename_i hc
      cases pieces with
      | nil =>
        obtain ⟨rfl, -⟩ := List.cons.inj h
        exact .inl ⟨[], by rw [hc]; rfl, List.not_mem_nil⟩
      | cons first pieces => exact ih (List.cons.inj h).2
    · rename_i hc
      split at h
      · cases pieces with
        | nil =>
          obtain ⟨rfl, rfl⟩ := List.cons.inj h
          exact .inr ⟨by simpa using Ne.symm hc, rfl⟩
        | cons first pieces => simp at h
      · rename_i first rest hrest
        cases pieces with
        | nil =>
          obtain ⟨rfl, rfl⟩ := List.cons.inj h
          have hfirst : splitInclusive text = [] ++ first :: rest := hrest
          rcases ih hfirst with ⟨line, rfl, hline⟩ | ⟨hpiece, rfl⟩
          · exact .inl ⟨c :: line, rfl, by simp [Ne.symm hc, hline]⟩
          · exact .inr ⟨by simp [Ne.symm hc, hpiece], rfl⟩
        | cons d pieces =>
          obtain ⟨rfl, rfl⟩ := List.cons.inj h
          have hlater : splitInclusive text = (first :: pieces) ++ piece :: later := hrest
          exact ih hlater

/-- The pieces join to the text. -/
theorem flatten_splitInclusive (text : List Char) : (splitInclusive text).flatten = text := by
  induction text with
  | nil => rfl
  | cons c text ih =>
    rw [splitInclusive]
    split
    · rw [List.flatten_cons, ih, List.singleton_append]
    · cases hrest : splitInclusive text with
      | nil =>
        rw [hrest] at ih
        rw [← ih]
        rfl
      | cons first rest =>
        rw [hrest, List.flatten_cons] at ih
        rw [List.flatten_cons, List.cons_append, ih]

theorem splitInclusive_append {line rest : List Char} (h : '\n' ∉ line) :
    splitInclusive (line ++ '\n' :: rest) = (line ++ ['\n']) :: splitInclusive rest := by
  induction line with
  | nil => rw [List.nil_append, splitInclusive, if_pos rfl, List.nil_append]
  | cons c line ih =>
    rw [List.mem_cons, not_or] at h
    rw [List.cons_append, splitInclusive, if_neg (Ne.symm h.1), ih h.2, List.cons_append]

/-- **Lines that are written out are read back.** -/
theorem lines_joined {ls : List (List Char)}
    (h : ∀ line ∈ ls, '\n' ∉ line ∧ line.getLast? ≠ some '\r') :
    lines (ls.flatMap fun line => line ++ ['\n']) = ls := by
  induction ls with
  | nil => rfl
  | cons line ls ih =>
    rw [List.forall_mem_cons] at h
    have hend : stripEnd (line ++ ['\n']) = line := by
      rw [stripEnd, stripSuffix?, List.getLast?_concat, if_pos rfl, List.dropLast_concat]
      dsimp only
      rw [stripSuffix?, if_neg h.1.2, Option.getD_none]
    rw [lines] at ih
    rw [lines, List.flatMap_cons, List.append_assoc, List.singleton_append,
      splitInclusive_append h.1.1, List.map_cons, hend, ih h.2]

/-- A text with a line feed at its end, or with both characters of a line end. -/
theorem stripEnd_concat (line : List Char) :
    ∃ ending, line ++ ['\n'] = stripEnd (line ++ ['\n']) ++ ending ∧
      (ending = ['\n'] ∨ ending = ['\r', '\n']) := by
  have hfeed : stripSuffix? '\n' (line ++ ['\n']) = some line := by
    rw [stripSuffix?, List.getLast?_concat, if_pos rfl, List.dropLast_concat]
  rw [stripEnd, hfeed]
  dsimp only
  rw [stripSuffix?]
  split
  · rename_i hreturn
    refine ⟨['\r', '\n'], ?_, .inr rfl⟩
    obtain ⟨front, rfl⟩ := List.getLast?_eq_some_iff.mp hreturn
    simp
  · exact ⟨['\n'], rfl, .inl rfl⟩

theorem stripEnd_of_notMem {piece : List Char} (h : '\n' ∉ piece) : stripEnd piece = piece := by
  have hnone : stripSuffix? '\n' piece = none := by
    rw [stripSuffix?, if_neg fun hlast => h (List.mem_of_getLast? hlast)]
  rw [stripEnd, hnone]

/-! ## The first character of a kind -/

/-- A text is cut in one way where the characters of a kind end. -/
theorem append_inj_of_head {p : Char → Bool} {front front' rest rest' : List Char}
    (h : front ++ rest = front' ++ rest') (hfront : ∀ c ∈ front, p c = true)
    (hfront' : ∀ c ∈ front', p c = true) (hrest : ∀ c ∈ rest.head?, p c = false)
    (hrest' : ∀ c ∈ rest'.head?, p c = false) : front = front' ∧ rest = rest' := by
  have htake : ∀ {x y : List Char}, (∀ c ∈ x, p c = true) → (∀ c ∈ y.head?, p c = false) →
      (x ++ y).takeWhile p = x := by
    intro x y hx hy
    rw [List.takeWhile_append_of_pos hx]
    cases y with
    | nil => simp
    | cons c y => simp [hy c rfl]
  have heq : front = front' := by
    rw [← htake hfront hrest, h, htake hfront' hrest']
  subst heq
  exact ⟨rfl, List.append_cancel_left h⟩

/-- A text is cut in one way at the first place of a character. -/
theorem append_cons_inj {c : Char} {front front' rest rest' : List Char}
    (h : front ++ c :: rest = front' ++ c :: rest') (hfront : c ∉ front)
    (hfront' : c ∉ front') : front = front' ∧ rest = rest' := by
  obtain ⟨hf, hr⟩ := append_inj_of_head (p := fun d => d ≠ c) h
    (fun d hd => decide_eq_true fun heq => hfront (heq ▸ hd))
    (fun d hd => decide_eq_true fun heq => hfront' (heq ▸ hd)) (by simp) (by simp)
  exact ⟨hf, List.tail_eq_of_cons_eq hr⟩

/-! ## A text without the characters at its ends -/

section Strip
variable (p : Char → Bool)

/-- A text without the characters of a kind at its two ends. -/
def strip (text : List Char) : List Char := (text.dropWhile p).rdropWhile p

variable {p} {text : List Char}

theorem exists_strip (text : List Char) :
    ∃ front back, text = front ++ (strip p text ++ back) ∧ (∀ c ∈ front, p c = true) ∧
      ∀ c ∈ back, p c = true := by
  obtain ⟨front, back, htext, hfront, hback⟩ := Trimming.exists_trimmed (p := p) text
  exact ⟨front, back, htext.trans (List.append_assoc _ _ _), hfront, hback⟩

theorem mem_of_mem_strip {c : Char} (h : c ∈ strip p text) : c ∈ text := by
  obtain ⟨front, back, htext, -, -⟩ := exists_strip (p := p) text
  rw [htext]
  simp [h]

theorem strip_append_right {back : List Char} (h : ∀ c ∈ back, p c = true) :
    strip p (text ++ back) = strip p text := Trimming.trimmed_append_right h

end Strip

end TextLines
