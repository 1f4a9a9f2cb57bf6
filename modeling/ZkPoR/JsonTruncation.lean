import ZkPoR.JsonLexer

/-! # A JSON text that is cut off

The text of an object says where it ends: what a failed write leaves of it is no JSON text,
unless only blanks are missing (`parse_cutOff`).  The tokens of a part come first in the whole
(`lexFrom_append`), and no object is the beginning of another (`tokens_append`).
-/
namespace JsonText

/-- What a write that failed leaves of a text, as a decoder of UTF-8 reads it: the characters
whose bytes were all written, and a replacement character for a part of the next one. -/
def CutOff (text left : String) : Prop :=
  ∃ before after, text.toList = before ++ after ∧
    (left.toList = before ∨
      ∃ c rest, after = c :: rest ∧ 1 < c.utf8Size ∧ left.toList = before ++ ['\uFFFD'])

/-! ## Tokens of a part -/

/-- What lexes to no token is blank. -/
theorem isBlank_of_lexFrom_nil {fuel : Nat} {cs : List Char} (h : lexFrom fuel cs = some []) :
    ∀ c ∈ cs, isBlank c = Bool.true := by
  induction fuel generalizing cs with
  | zero =>
    cases cs with
    | nil => simp
    | cons c cs => cases h
  | succ fuel ih =>
    cases cs with
    | nil => simp
    | cons c cs =>
      rw [lexFrom] at h
      by_cases hblank : isBlank c = Bool.true
      · rw [if_pos hblank] at h
        exact List.forall_mem_cons.mpr ⟨hblank, ih h⟩
      · rw [if_neg hblank] at h
        simp only [Option.bind_eq_bind, Option.bind_eq_some_iff, Prod.exists] at h
        obtain ⟨token, rest, -, ts, -, hout⟩ := h
        cases hout

/-- The tokens of a part come first, unless its last token is a number that may go on. -/
theorem lexFrom_append {more : List Char} {us : List Token} {fuel fuel' : Nat} {cs : List Char}
    {ts : List Token} (h : lexFrom fuel cs = some ts) (h' : lexFrom fuel' (cs ++ more) = some us)
    (hlast : ∀ literal, ts.getLast? ≠ some (.number literal)) :
    ∃ vs fuel'', us = ts ++ vs ∧ lexFrom fuel'' more = some vs := by
  induction fuel generalizing fuel' cs ts us with
  | zero =>
    cases cs with
    | nil =>
      cases h
      exact ⟨us, fuel', rfl, h'⟩
    | cons c cs => cases h
  | succ fuel ih =>
    cases cs with
    | nil =>
      cases h
      exact ⟨us, fuel', rfl, h'⟩
    | cons c cs =>
      cases fuel' with
      | zero => cases h'
      | succ fuel' =>
        rw [lexFrom] at h
        rw [List.cons_append, lexFrom] at h'
        by_cases hblank : isBlank c = Bool.true
        · rw [if_pos hblank] at h h'
          exact ih h h' hlast
        · rw [if_neg hblank] at h h'
          simp only [Option.bind_eq_bind, Option.bind_eq_some_iff, Prod.exists] at h h'
          obtain ⟨token, rest, htoken, ts', hrest, hout⟩ := h
          obtain ⟨token', rest', htoken', us', hrest', hout'⟩ := h'
          cases hout
          cases hout'
          -- a number at the end would be the last token
          have hends : ∀ literal, token = .number literal → rest = [] → EndsNumber more := by
            rintro literal rfl rfl
            cases fuel <;> cases hrest <;> exact absurd rfl (hlast literal)
          have happend := lexToken_append hends htoken
          rw [happend] at htoken'
          cases htoken'
          have hlast' : ∀ literal, ts'.getLast? ≠ some (.number literal) := by
            intro literal hliteral
            refine hlast literal ?_
            cases ts' with
            | nil => cases hliteral
            | cons t ts' => exact hliteral
          obtain ⟨vs, fuel'', rfl, hvs⟩ := ih hrest hrest' hlast'
          exact ⟨vs, fuel'', rfl, hvs⟩

/-! ## The last character -/

theorem lexString_suffix {cs rest : List Char} {text : Text}
    (h : lexString cs = some (text, rest)) : rest <:+ cs := by
  fun_induction lexString cs generalizing text rest with
  | case1 => cases h
  | case2 cs =>
    cases h
    exact List.suffix_cons _ _
  | case3 => cases h
  | case4 c1 c2 c3 c4 cs hquote ih =>
    simp only [Option.bind_eq_some_iff, Option.map_eq_some_iff, Prod.exists] at h
    obtain ⟨unit, hunit, text, rest, hcs, hout⟩ := h
    cases hout
    exact (ih hcs).trans ⟨['\\', 'u', c1, c2, c3, c4], rfl⟩
  | case5 cs hshort hquote => cases h
  | case6 e cs he hquote ih =>
    simp only [Option.bind_eq_some_iff, Option.map_eq_some_iff, Prod.exists] at h
    obtain ⟨c, hc, text, rest, hcs, hout⟩ := h
    cases hout
    exact (ih hcs).trans ⟨['\\', e], rfl⟩
  | case7 c cs hquote hescape hcontrol => cases h
  | case8 c cs hquote hescape hcontrol ih =>
    simp only [Option.map_eq_some_iff, Prod.exists] at h
    obtain ⟨text, rest, hcs, hout⟩ := h
    cases hout
    exact (ih hcs).trans (List.suffix_cons _ _)

theorem lexMinus_suffix (cs : List Char) : (lexMinus cs).2 <:+ cs := by
  unfold lexMinus
  split
  · exact List.suffix_cons _ _
  · exact List.suffix_rfl

theorem lexInteger_suffix {cs rest : List Char} {n : Nat} (h : lexInteger cs = some (n, rest)) :
    rest <:+ cs := by
  unfold lexInteger at h
  dsimp only at h
  split at h
  · cases h
    exact List.dropWhile_suffix _
  · cases h

theorem lexFraction_suffix {cs rest : List Char} {digits : List (Fin 10)}
    (h : lexFraction cs = some (digits, rest)) : rest <:+ cs := by
  unfold lexFraction at h
  split at h
  · dsimp only at h
    split at h
    · cases h
    · cases h
      exact (List.dropWhile_suffix _).trans (List.suffix_cons _ _)
  · cases h
    exact List.suffix_rfl

theorem lexSign_suffix (cs : List Char) : (lexSign cs).2 <:+ cs := by
  unfold lexSign
  split
  · exact List.suffix_cons _ _
  · exact List.suffix_cons _ _
  · exact List.suffix_rfl

theorem lexExponent_suffix {cs rest : List Char} {e : Option Int}
    (h : lexExponent cs = some (e, rest)) : rest <:+ cs := by
  unfold lexExponent at h
  split at h
  · cases h
    exact List.suffix_rfl
  · rename_i c cs
    split at h
    · dsimp only at h
      split at h
      · cases h
      · cases h
        exact ((List.dropWhile_suffix _).trans (lexSign_suffix cs)).trans (List.suffix_cons _ _)
    · cases h
      exact List.suffix_rfl

theorem lexNumber_suffix {cs rest : List Char} {literal : NumberLiteral}
    (h : lexNumber cs = some (literal, rest)) : rest <:+ cs := by
  unfold lexNumber at h
  simp only [Option.bind_eq_bind, Option.bind_eq_some_iff, Prod.exists] at h
  obtain ⟨integer, cs1, hinteger, fraction, cs2, hfraction, exponent, cs3, hexponent, hout⟩ := h
  cases hout
  have hinteger_suffix := (lexInteger_suffix hinteger).trans (lexMinus_suffix cs)
  have hfraction_suffix := (lexFraction_suffix hfraction).trans hinteger_suffix
  exact (lexExponent_suffix hexponent).trans hfraction_suffix

theorem lexWord_suffix {cs rest : List Char} {token : Token}
    (h : lexWord cs = some (token, rest)) : rest <:+ cs := by
  unfold lexWord at h
  split at h
  · cases h
    exact ⟨['n', 'u', 'l', 'l'], rfl⟩
  · cases h
    exact ⟨['t', 'r', 'u', 'e'], rfl⟩
  · cases h
    exact ⟨['f', 'a', 'l', 's', 'e'], rfl⟩
  · cases h

/-- What a token leaves is the end of the text. -/
theorem lexToken_suffix {c : Char} {cs rest : List Char} {token : Token}
    (h : lexToken c cs = some (token, rest)) : rest <:+ c :: cs := by
  unfold lexToken at h
  split at h
  · cases h
    exact List.suffix_cons _ _
  · split at h
    · obtain ⟨⟨text, rest'⟩, hstring, hout⟩ := Option.map_eq_some_iff.mp h
      cases hout
      exact (lexString_suffix hstring).trans (List.suffix_cons _ _)
    split at h
    · obtain ⟨⟨literal, rest'⟩, hliteral, hout⟩ := Option.map_eq_some_iff.mp h
      cases hout
      exact lexNumber_suffix hliteral
    · exact lexWord_suffix h

/-- Only a brace is the token of a closing brace. -/
theorem lexToken_closeBrace {c : Char} {cs rest : List Char}
    (h : lexToken c cs = some (.closeBrace, rest)) : c = '}' ∧ rest = cs := by
  unfold lexToken at h
  split at h
  · rename_i token hc
    cases h
    unfold punctuation at hc
    split at hc <;> cases hc
    exact ⟨rfl, rfl⟩
  · split at h
    · obtain ⟨⟨text, rest'⟩, -, hout⟩ := Option.map_eq_some_iff.mp h
      cases hout
    split at h
    · obtain ⟨⟨literal, rest'⟩, -, hout⟩ := Option.map_eq_some_iff.mp h
      cases hout
    · unfold lexWord at h
      split at h <;> cases h

/-- Behind the last brace there are only blanks. -/
theorem last_of_lexFrom {fuel : Nat} {cs : List Char} {ts : List Token}
    (h : lexFrom fuel cs = some ts) (hts : ts.getLast? = some .closeBrace) {c : Char}
    (hc : cs.getLast? = some c) : c = '}' ∨ isBlank c = Bool.true := by
  induction fuel generalizing cs ts with
  | zero =>
    cases cs with
    | nil => cases hc
    | cons d cs => cases h
  | succ fuel ih =>
    cases cs with
    | nil => cases hc
    | cons d cs =>
      rw [lexFrom] at h
      by_cases hblank : isBlank d = Bool.true
      · rw [if_pos hblank] at h
        cases cs with
        | nil =>
          cases hc
          exact .inr hblank
        | cons d' cs => exact ih h hts hc
      · rw [if_neg hblank] at h
        simp only [Option.bind_eq_bind, Option.bind_eq_some_iff, Prod.exists] at h
        obtain ⟨token, rest, htoken, ts', hrest, hout⟩ := h
        cases hout
        cases ts' with
        | nil =>
          -- the brace is the last token
          cases hts
          obtain ⟨rfl, rfl⟩ := lexToken_closeBrace htoken
          rcases List.mem_cons.mp (List.mem_of_getLast? hc) with rfl | hmem
          · exact .inl rfl
          · exact .inr (isBlank_of_lexFrom_nil hrest c hmem)
        | cons t ts' =>
          have hne : rest ≠ [] := by
            rintro rfl
            cases fuel <;> cases hrest
          obtain ⟨front, hfront⟩ := lexToken_suffix htoken
          refine ih hrest hts ?_
          rw [← hc, ← hfront, List.getLast?_append_of_ne_nil _ hne]

/-! ## Objects -/

theorem getLast?_membersTail (members : List (Text × Json)) :
    (membersTail members).getLast? = some .closeBrace := by
  induction members with
  | nil => rfl
  | cons member members ih =>
    have hne : membersTail members ≠ [] := by
      intro hnil
      rw [hnil] at ih
      cases ih
    rw [membersTail, ← List.cons_append, ← List.cons_append, ← List.cons_append,
      List.getLast?_append_of_ne_nil _ hne, ih]

theorem getLast?_tokens_object (members : List (Text × Json)) :
    (tokens (.object members)).getLast? = some .closeBrace := by
  rcases members with _ | ⟨⟨key, x⟩, members⟩
  · rfl
  · have hne : membersTail members ≠ [] := by
      intro hnil
      have hlast := getLast?_membersTail members
      rw [hnil] at hlast
      cases hlast
    rw [tokens, ← List.cons_append, ← List.cons_append, ← List.cons_append,
      List.getLast?_append_of_ne_nil _ hne, getLast?_membersTail]

/-- A text that starts with a brace denotes an object, if anything. -/
theorem exists_object_of_parse {text : String} {cs : List Char} {x : Json}
    (hfirst : text.toList = '{' :: cs) (h : parse text = some x) :
    ∃ members, x = .object members := by
  rw [parse_eq_some, hfirst, lex, List.length_cons, lexFrom, if_neg (by decide)] at h
  simp only [Option.bind_eq_bind, Option.bind_eq_some_iff, Prod.exists] at h
  obtain ⟨token, rest, htoken, ts, -, hout⟩ := h
  have hbrace : token = .openBrace := by
    cases htoken
    rfl
  have htokens : tokens x = .openBrace :: ts := by
    rw [← hbrace]
    exact (Option.some.inj hout).symm
  rcases x with _ | _ | _ | _ | (_ | _) | members
  all_goals first | exact ⟨_, rfl⟩ | simp [tokens] at htokens

/-- No tree is the beginning of another. -/
theorem tokens_append {x y : Json} {ts : List Token} (h : tokens x = tokens y ++ ts) :
    x = y ∧ ts = [] := by
  have hread := (read_tokens (tokens x).length).1
  have hle : (tokens y).length ≤ (tokens x).length := by
    rw [h, List.length_append]
    exact Nat.le_add_right _ _
  have hx := hread x [] le_rfl
  rw [List.append_nil] at hx
  have hy := hread y ts hle
  rw [← h, hx] at hy
  cases hy
  exact ⟨rfl, rfl⟩

/-- **A part of an object** is no JSON text, unless only blanks are missing. -/
theorem parse_part {text part : String} {members : List (Text × Json)} {cs after : List Char}
    (hwhole : parse text = some (.object members)) (htext : text.toList = part.toList ++ after)
    (hfirst : part.toList = '{' :: cs) {x : Json} (h : parse part = some x) :
    ∀ c ∈ after, isBlank c = Bool.true := by
  obtain ⟨members', rfl⟩ := exists_object_of_parse hfirst h
  rw [parse_eq_some, htext] at hwhole
  have hlast : ∀ literal, (tokens (.object members')).getLast? ≠ some (.number literal) := by
    intro literal
    rw [getLast?_tokens_object]
    nofun
  obtain ⟨ts, fuel, htokens, hafter⟩ := lexFrom_append (parse_eq_some.mp h) hwhole hlast
  obtain ⟨-, rfl⟩ := tokens_append htokens
  exact isBlank_of_lexFrom_nil hafter

/-- **An object that was cut off** is no JSON text, unless only blanks are missing. -/
theorem parse_cutOff {text left : String} {members : List (Text × Json)} {cs : List Char}
    (hwhole : parse text = some (.object members)) (hfirst : text.toList = '{' :: cs)
    (hcut : CutOff text left) {x : Json} (h : parse left = some x) :
    ∃ after, text.toList = left.toList ++ after ∧ ∀ c ∈ after, isBlank c = Bool.true := by
  obtain ⟨before, after, htext, hleft⟩ := hcut
  cases before with
  | nil =>
    exfalso
    -- nothing, or one replacement character
    rcases hleft with hleft | ⟨c, rest, -, -, hleft⟩
    · rw [parse_eq_some, hleft] at h
      exact tokens_ne_nil x (Option.some.inj h).symm
    · rw [parse_eq_some, hleft] at h
      cases h
  | cons d before =>
    obtain ⟨rfl, -⟩ : d = '{' ∧ before ++ after = cs := by
      rw [hfirst, List.cons_append] at htext
      exact ⟨(List.cons.inj htext).1.symm, (List.cons.inj htext).2.symm⟩
    rcases hleft with hleft | ⟨c, rest, -, -, hleft⟩
    · rw [← hleft] at htext
      exact ⟨after, htext, parse_part hwhole htext hleft h⟩
    · exfalso
      obtain ⟨members', rfl⟩ := exists_object_of_parse hleft h
      have hc := last_of_lexFrom (parse_eq_some.mp h) (getLast?_tokens_object members')
        (c := '\uFFFD') (by rw [hleft, List.getLast?_concat])
      revert hc
      decide

end JsonText
