import Mathlib.Data.List.Basic
import Mathlib.Data.List.TakeWhile

/-! # JSON texts

The syntax tree of a JSON text, its tokens, and a reader from characters to
tokens and from tokens to the tree.  A reader of a program turns the tree into
its own values: the tree keeps a number as its literal, keeps repeated members,
and keeps a surrogate that an escape leaves without its other half.

The token list of a tree is one function (`tokens`), and the reader of tokens
inverts it in both directions (`readTokens_eq_some`).  So a text denotes a tree
exactly when its characters lex to the tokens of that tree, whatever its layout
is (`parse_eq_some`), and a printer is right when its characters lex to the
tokens.
-/
namespace JsonText

/-! ## Trees and tokens -/

/-- One code point of a string: a scalar value, or a surrogate that stands
alone. -/
inductive CodePoint
  | scalar (c : Char)
  | surrogate (unit : Nat)
deriving DecidableEq

abbrev Text := List CodePoint

/-- The code points of a Unicode string. -/
def Text.ofString (s : String) : Text := s.toList.map .scalar

/-- The scalar value of a code point that has one. -/
def CodePoint.toChar? : CodePoint → Option Char
  | .scalar c => some c
  | .surrogate _ => none

/-- The Unicode string of a text without a surrogate. -/
def Text.toString? (text : Text) : Option String :=
  (text.mapM CodePoint.toChar?).map String.ofList

theorem Text.toString?_ofString (s : String) : (Text.ofString s).toString? = some s := by
  have hmap : ∀ cs : List Char, (cs.map CodePoint.scalar).mapM CodePoint.toChar? = some cs := by
    intro cs
    induction cs with
    | nil => rfl
    | cons c cs ih => simp [CodePoint.toChar?, ih]
  rw [Text.toString?, Text.ofString, hmap, Option.map_some, String.ofList_toList]

/-- A text has a Unicode string when it consists of that string. -/
theorem Text.toString?_eq_some {text : Text} {s : String} :
    text.toString? = some s ↔ text = Text.ofString s := by
  constructor
  · intro h
    obtain ⟨cs, hcs, rfl⟩ := Option.map_eq_some_iff.mp h
    rw [Text.ofString, String.toList_ofList]
    clear h
    induction text generalizing cs with
    | nil =>
      cases hcs
      rfl
    | cons point text ih =>
      simp only [List.mapM_cons, Option.bind_eq_bind, Option.bind_eq_some_iff] at hcs
      obtain ⟨c, hc, rest, hrest, hout⟩ := hcs
      cases hout
      cases point with
      | scalar c' =>
        cases hc
        rw [List.map_cons, ih rest hrest]
      | surrogate unit => cases hc
  · rintro rfl
    exact Text.toString?_ofString s

theorem Text.ofString_append (s t : String) :
    Text.ofString (s ++ t) = Text.ofString s ++ Text.ofString t := by
  rw [Text.ofString, String.toList_append, List.map_append]
  rfl

theorem Text.ofString_injective : Function.Injective Text.ofString := by
  intro s t h
  have hs := Text.toString?_ofString s
  rw [h, Text.toString?_ofString] at hs
  exact (Option.some.inj hs).symm

/-- A number as the text writes it: sign, integer part, digits after the point,
and exponent.  No point stands without a digit, so no digits mean no point. -/
structure NumberLiteral where
  negative : Bool
  integer : Nat
  fraction : List (Fin 10)
  exponent : Option Int
deriving DecidableEq

inductive Json
  | null
  | bool (b : Bool)
  | number (literal : NumberLiteral)
  | string (text : Text)
  | array (elements : List Json)
  | object (members : List (Text × Json))

/-- The object of members whose keys are Unicode strings. -/
def objectOf (members : List (String × Json)) : Json :=
  .object (members.map fun member => (Text.ofString member.1, member.2))

inductive Token
  | openBrace
  | closeBrace
  | openBracket
  | closeBracket
  | colon
  | comma
  | null
  | bool (b : Bool)
  | number (literal : NumberLiteral)
  | string (text : Text)
deriving DecidableEq

mutual

/-- The tokens of a tree. -/
def tokens : Json → List Token
  | .null => [.null]
  | .bool b => [.bool b]
  | .number literal => [.number literal]
  | .string text => [.string text]
  | .array [] => [.openBracket, .closeBracket]
  | .array (x :: xs) => .openBracket :: (tokens x ++ elementsTail xs)
  | .object [] => [.openBrace, .closeBrace]
  | .object ((key, x) :: xs) =>
    .openBrace :: .string key :: .colon :: (tokens x ++ membersTail xs)

/-- The tokens after an element of an array. -/
def elementsTail : List Json → List Token
  | [] => [.closeBracket]
  | x :: xs => .comma :: (tokens x ++ elementsTail xs)

/-- The tokens after a member of an object. -/
def membersTail : List (Text × Json) → List Token
  | [] => [.closeBrace]
  | (key, x) :: xs => .comma :: .string key :: .colon :: (tokens x ++ membersTail xs)

end

/-! ## From tokens to the tree -/

mutual

/-- The tree at the front of a token list, and what follows it. -/
def readValue : Nat → List Token → Option (Json × List Token)
  | 0, _ => none
  | fuel + 1, ts =>
    match ts with
    | .null :: ts => some (.null, ts)
    | .bool b :: ts => some (.bool b, ts)
    | .number literal :: ts => some (.number literal, ts)
    | .string text :: ts => some (.string text, ts)
    | .openBracket :: .closeBracket :: ts => some (.array [], ts)
    | .openBracket :: ts => do
      let (x, ts) ← readValue fuel ts
      let (xs, ts) ← readElements fuel ts
      return (.array (x :: xs), ts)
    | .openBrace :: .closeBrace :: ts => some (.object [], ts)
    | .openBrace :: .string key :: .colon :: ts => do
      let (x, ts) ← readValue fuel ts
      let (xs, ts) ← readMembers fuel ts
      return (.object ((key, x) :: xs), ts)
    | _ => none

/-- The rest of an array, after one of its elements. -/
def readElements : Nat → List Token → Option (List Json × List Token)
  | 0, _ => none
  | fuel + 1, ts =>
    match ts with
    | .closeBracket :: ts => some ([], ts)
    | .comma :: ts => do
      let (x, ts) ← readValue fuel ts
      let (xs, ts) ← readElements fuel ts
      return (x :: xs, ts)
    | _ => none

/-- The rest of an object, after one of its members. -/
def readMembers : Nat → List Token → Option (List (Text × Json) × List Token)
  | 0, _ => none
  | fuel + 1, ts =>
    match ts with
    | .closeBrace :: ts => some ([], ts)
    | .comma :: .string key :: .colon :: ts => do
      let (x, ts) ← readValue fuel ts
      let (xs, ts) ← readMembers fuel ts
      return ((key, x) :: xs, ts)
    | _ => none

end

/-- The tree of a whole token list. -/
def readTokens (ts : List Token) : Option Json :=
  match readValue ts.length ts with
  | some (x, []) => some x
  | _ => none

/-! ### The reader inverts the token list -/

theorem tokens_ne_nil (x : Json) : tokens x ≠ [] := by
  rcases x with _ | _ | _ | _ | (_ | _) | (_ | ⟨⟨_, _⟩, _⟩) <;> simp [tokens]

/-- The value after a bracket does not start with the closing bracket. -/
theorem tokens_ne_closeBracket (x : Json) (ts rest : List Token) :
    tokens x ++ ts ≠ .closeBracket :: rest := by
  rcases x with _ | _ | _ | _ | (_ | _) | (_ | ⟨⟨_, _⟩, _⟩) <;> simp [tokens]

theorem readValue_array {fuel : Nat} {ts : List Token} (h : ∀ rest, ts ≠ .closeBracket :: rest) :
    readValue (fuel + 1) (.openBracket :: ts) = do
      let (x, ts) ← readValue fuel ts
      let (xs, ts) ← readElements fuel ts
      return (.array (x :: xs), ts) :=
  readValue.eq_7 _ _ h

/-- Completeness, by induction on the fuel: the tokens bound it. -/
theorem read_tokens (fuel : Nat) :
    (∀ x rest, (tokens x).length ≤ fuel → readValue fuel (tokens x ++ rest) = some (x, rest)) ∧
    (∀ xs rest, (elementsTail xs).length ≤ fuel →
      readElements fuel (elementsTail xs ++ rest) = some (xs, rest)) ∧
    (∀ xs rest, (membersTail xs).length ≤ fuel →
      readMembers fuel (membersTail xs ++ rest) = some (xs, rest)) := by
  induction fuel with
  | zero =>
    refine ⟨fun x _ h => ?_, fun xs _ h => ?_, fun xs _ h => ?_⟩
    · exact absurd (List.length_eq_zero_iff.mp (Nat.le_zero.mp h)) (tokens_ne_nil x)
    · cases xs <;> simp [elementsTail] at h
    · rcases xs with _ | ⟨⟨_, _⟩, _⟩ <;> simp [membersTail] at h
  | succ fuel ih =>
    obtain ⟨ihValue, ihElements, ihMembers⟩ := ih
    refine ⟨fun x rest h => ?_, fun xs rest h => ?_, fun xs rest h => ?_⟩
    · rcases x with _ | _ | _ | _ | (_ | ⟨x, xs⟩) | (_ | ⟨⟨key, x⟩, xs⟩)
      all_goals try rfl
      · simp only [tokens, List.length_cons, List.length_append] at h
        rw [tokens, List.cons_append, List.append_assoc,
          readValue_array fun _ => tokens_ne_closeBracket x _ _]
        simp only [ihValue x _ (show _ ≤ fuel by omega), ihElements xs rest (by omega),
          Option.bind_eq_bind, Option.bind_some, pure]
      · simp only [tokens, List.length_cons, List.length_append] at h
        simp only [tokens, List.cons_append, List.append_assoc, readValue,
          ihValue x _ (show _ ≤ fuel by omega), ihMembers xs rest (by omega),
          Option.bind_eq_bind, Option.bind_some, pure]
    · rcases xs with _ | ⟨x, xs⟩
      · rfl
      · simp only [elementsTail, List.length_cons, List.length_append] at h
        simp only [elementsTail, List.cons_append, List.append_assoc, readElements,
          ihValue x _ (show _ ≤ fuel by omega), ihElements xs rest (by omega),
          Option.bind_eq_bind, Option.bind_some, pure]
    · rcases xs with _ | ⟨⟨key, x⟩, xs⟩
      · rfl
      · simp only [membersTail, List.length_cons, List.length_append] at h
        simp only [membersTail, List.cons_append, List.append_assoc, readMembers,
          ihValue x _ (show _ ≤ fuel by omega), ihMembers xs rest (by omega),
          Option.bind_eq_bind, Option.bind_some, pure]

/-- Soundness, by induction on the fuel. -/
theorem tokens_of_read (fuel : Nat) :
    (∀ ts x rest, readValue fuel ts = some (x, rest) → ts = tokens x ++ rest) ∧
    (∀ ts xs rest, readElements fuel ts = some (xs, rest) → ts = elementsTail xs ++ rest) ∧
    (∀ ts xs rest, readMembers fuel ts = some (xs, rest) → ts = membersTail xs ++ rest) := by
  induction fuel with
  | zero => simp [readValue, readElements, readMembers]
  | succ fuel ih =>
    obtain ⟨ihValue, ihElements, ihMembers⟩ := ih
    refine ⟨fun ts x rest h => ?_, fun ts xs rest h => ?_, fun ts xs rest h => ?_⟩
    · unfold readValue at h
      split at h
      · cases h; rfl
      · cases h; rfl
      · cases h; rfl
      · cases h; rfl
      · cases h; rfl
      · simp only [Option.bind_eq_bind, Option.bind_eq_some_iff, Prod.exists] at h
        obtain ⟨y, ts', hy, ys, ts'', hys, hout⟩ := h
        cases hout
        rw [ihValue _ _ _ hy, ihElements _ _ _ hys, tokens, List.cons_append, List.append_assoc]
      · cases h; rfl
      · simp only [Option.bind_eq_bind, Option.bind_eq_some_iff, Prod.exists] at h
        obtain ⟨y, ts', hy, ys, ts'', hys, hout⟩ := h
        cases hout
        rw [ihValue _ _ _ hy, ihMembers _ _ _ hys, tokens]
        simp only [List.cons_append, List.append_assoc]
      · cases h
    · unfold readElements at h
      split at h
      · cases h; rfl
      · simp only [Option.bind_eq_bind, Option.bind_eq_some_iff, Prod.exists] at h
        obtain ⟨y, ts', hy, ys, ts'', hys, hout⟩ := h
        cases hout
        rw [ihValue _ _ _ hy, ihElements _ _ _ hys, elementsTail, List.cons_append,
          List.append_assoc]
      · cases h
    · unfold readMembers at h
      split at h
      · cases h; rfl
      · simp only [Option.bind_eq_bind, Option.bind_eq_some_iff, Prod.exists] at h
        obtain ⟨y, ts', hy, ys, ts'', hys, hout⟩ := h
        cases hout
        rw [ihValue _ _ _ hy, ihMembers _ _ _ hys, membersTail]
        simp only [List.cons_append, List.append_assoc]
      · cases h

/-- **The reader inverts the token list**, in both directions. -/
theorem readTokens_eq_some {ts : List Token} {x : Json} :
    readTokens ts = some x ↔ ts = tokens x := by
  constructor
  · intro h
    unfold readTokens at h
    split at h
    · rename_i hread
      cases h
      rw [(tokens_of_read _).1 _ _ _ hread, List.append_nil]
    · cases h
  · rintro rfl
    have h := (read_tokens (tokens x).length).1 x [] le_rfl
    rw [List.append_nil] at h
    rw [readTokens, h]

end JsonText
