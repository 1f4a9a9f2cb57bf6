import ZkPoR.ContextReaders

/-! # When the two readers of the context file agree

Where the first match of the client starts the last line that the generator reads, both
find one value: what the generator accepts as an address or as a number leaves no room for
anything else on the line, unless something between the quotes of the asset ends the line
for the generator (`asset_of_line`, `ledger_of_line`).  Elsewhere the two places must hold
the same value.  `contexts_agree_iff` puts the two cases together.
-/
namespace ZkPoR.Generator
open ByteString CheckedInt JsonText JavaScript Binary64 LinePattern TextLines Package
open BoundedLoop (bind_eq_ok)

theorem not_isWhitespace_of_isBase32 {c : Char} (h : isBase32 c = true) :
    Sdk.isWhitespace c = false ∧ isWhitespace c = false := by
  simp only [isBase32, Sdk.isWhitespace, isWhitespace, Bool.and_eq_true, Bool.or_eq_true,
    decide_eq_true_eq, Bool.or_eq_false_iff, Bool.and_eq_false_iff, decide_eq_false_iff_not] at h ⊢
  omega

section Asset
variable {covered rest gap quotedText tail : List Char}

/-- The line reaches behind the second quote, when nothing between the quotes ends it. -/
theorem exists_covered (h : covered ++ rest = gap ++ '"' :: (quotedText ++ '"' :: tail))
    (hgap : '"' ∉ gap) (hquoted : '"' ∉ quotedText) (hstops : Stops rest)
    (hquote : '"' ∈ covered) (hplain : '#' ∉ quotedText ∧ '\n' ∉ quotedText) :
    ∃ behind, covered = gap ++ '"' :: (quotedText ++ '"' :: behind) := by
  obtain ⟨front, inner, rfl, hfront⟩ := List.eq_append_cons_of_mem hquote
  rw [List.append_assoc, List.cons_append] at h
  obtain ⟨rfl, hinner⟩ := append_cons_inj h hfront hgap
  by_cases hsecond : '"' ∈ inner
  · obtain ⟨middle, behind, rfl, hmiddle⟩ := List.eq_append_cons_of_mem hsecond
    rw [List.append_assoc, List.cons_append] at hinner
    obtain ⟨rfl, -⟩ := append_cons_inj hinner hmiddle hquoted
    exact ⟨behind, rfl⟩
  · exfalso
    have hclosing : ∀ {end' : List Char}, rest ≠ '"' :: end' := by
      rintro end' rfl
      simpa using hstops.head '"' rfl
    rcases List.append_eq_append_iff.mp hinner with ⟨cut, rfl, hrest⟩ | ⟨extra, rfl, hrest⟩
    · -- the line would end between the quotes
      cases cut with
      | nil => exact hclosing hrest
      | cons c cut =>
        rw [List.cons_append] at hrest
        rcases hstops with hnil | ⟨rest', heq⟩ | ⟨rest', heq⟩ | ⟨rest', heq⟩
        · simp [hnil] at hrest
        · obtain ⟨rfl, -⟩ := List.cons.inj (heq.symm.trans hrest)
          simp at hplain
        · obtain ⟨rfl, -⟩ := List.cons.inj (heq.symm.trans hrest)
          simp at hplain
        · obtain ⟨rfl, hfeed⟩ := List.cons.inj (heq.symm.trans hrest)
          cases cut with
          | nil => simp at hfeed
          | cons d cut =>
            obtain ⟨rfl, -⟩ := List.cons.inj hfeed
            simp at hplain
    · cases extra with
      | nil => exact hclosing hrest.symm
      | cons c extra =>
        obtain ⟨rfl, -⟩ := List.cons.inj hrest
        simp at hsecond

/-- A text in StrKey form that the quotes of a line leave is what stands between the first
two of them. -/
theorem trimQuotes_of_covered {behind : List Char}
    (hcovered : covered = gap ++ '"' :: (quotedText ++ '"' :: behind))
    (hgap : ∀ c ∈ gap, Sdk.isWhitespace c = true) (hne : quotedText ≠ [])
    (hquoted : '"' ∉ quotedText)
    (hstrkey : IsStrkeyText (trimQuotes (strip isWhitespace covered))) :
    trimQuotes (strip isWhitespace covered) = quotedText := by
  obtain ⟨front, back, houter, hfront, hback⟩ := exists_strip (p := isWhitespace) covered
  obtain ⟨opening, closing, hinner, hopening, hclosing⟩ :=
    exists_strip (p := (· = '"')) (strip isWhitespace covered)
  rw [hinner] at houter
  change IsStrkeyText (strip _ _) at hstrkey
  change strip _ _ = _
  generalize strip (· = '"') (strip isWhitespace covered) = found at houter hstrkey ⊢
  rw [hcovered] at houter
  obtain ⟨hfound, hchars⟩ := hstrkey
  have hnotQuote : '"' ∉ found := fun hmem => absurd (hchars _ hmem) (by decide)
  have hgapQuote : '"' ∉ gap := fun hmem => absurd (hgap _ hmem) (by decide)
  have hfrontQuote : '"' ∉ front := fun hmem => absurd (hfront _ hmem) (by decide)
  cases opening with
  | nil =>
    -- the first character of the address would stand in front of the first quote
    exfalso
    obtain ⟨c, found, rfl⟩ := List.exists_cons_of_ne_nil hfound
    have hc := hchars c List.mem_cons_self
    rw [List.nil_append, List.cons_append, List.cons_append] at houter
    rcases List.append_eq_append_iff.mp houter with ⟨extra, rfl, hrest⟩ | ⟨extra, rfl, hrest⟩
    · cases extra with
      | nil => exact hnotQuote ((List.cons.inj hrest).1 ▸ List.mem_cons_self)
      | cons d extra => exact hfrontQuote ((List.cons.inj hrest).1 ▸ by simp)
    · cases extra with
      | nil => exact hnotQuote ((List.cons.inj hrest).1 ▸ List.mem_cons_self)
      | cons d extra =>
        obtain ⟨rfl, -⟩ := List.cons.inj hrest
        have hspace := hgap c (by simp)
        rw [(not_isWhitespace_of_isBase32 hc).1] at hspace
        cases hspace
  | cons q opening =>
    obtain rfl : q = '"' := by simpa using hopening q List.mem_cons_self
    rw [List.cons_append, List.cons_append] at houter
    obtain ⟨rfl, hrest⟩ := append_cons_inj houter hgapQuote hfrontQuote
    obtain rfl : opening = [] := by
      cases opening with
      | nil => rfl
      | cons d opening =>
        obtain rfl : d = '"' := by simpa using hopening d (by simp)
        obtain ⟨c, quotedText, rfl⟩ := List.exists_cons_of_ne_nil hne
        obtain ⟨rfl, -⟩ := List.cons.inj hrest
        simp at hquoted
    cases closing with
    | nil =>
      -- no quote would stand behind the address
      have hmem : '"' ∈ found ++ back := by
        rw [List.nil_append, List.append_nil] at hrest
        rw [← hrest]
        simp
      rcases List.mem_append.mp hmem with hmem | hmem
      · exact absurd hmem hnotQuote
      · exact absurd (hback _ hmem) (by decide)
    | cons d closing =>
      obtain rfl : d = '"' := by simpa using hclosing d List.mem_cons_self
      rw [List.nil_append, List.append_assoc, List.cons_append] at hrest
      exact (append_cons_inj hrest hquoted hnotQuote).1.symm

/-- **The asset on one line for both.**  The generator finds what the client finds exactly
when nothing between the quotes ends its line. -/
theorem asset_of_line (h : covered ++ rest = gap ++ '"' :: (quotedText ++ '"' :: tail))
    (hgap : ∀ c ∈ gap, Sdk.isWhitespace c = true) (hne : quotedText ≠ [])
    (hquoted : '"' ∉ quotedText) (hstops : Stops rest)
    (hstrkey : IsStrkeyText (trimQuotes (strip isWhitespace covered))) :
    quotedText = trimQuotes (strip isWhitespace covered) ↔
      '#' ∉ quotedText ∧ '\n' ∉ quotedText := by
  have hgapQuote : '"' ∉ gap := fun hmem => absurd (hgap _ hmem) (by decide)
  constructor
  · intro heq
    rw [heq]
    exact ⟨fun hmem => absurd (hstrkey.2 _ hmem) (by decide),
      fun hmem => absurd (hstrkey.2 _ hmem) (by decide)⟩
  · intro hplain
    have hquote : '"' ∈ covered := by
      by_contra hnot
      -- the line would hold white space alone
      obtain ⟨c, found, hfound⟩ := List.exists_cons_of_ne_nil hstrkey.1
      have hmem : c ∈ trimQuotes (strip isWhitespace covered) := by simp [hfound]
      have hcovered : c ∈ covered := mem_of_mem_strip (mem_of_mem_strip hmem)
      rcases List.append_eq_append_iff.mp h with ⟨extra, rfl, -⟩ | ⟨extra, rfl, hrest⟩
      · have hspace := hgap c (List.mem_append_left _ hcovered)
        rw [(not_isWhitespace_of_isBase32 (hstrkey.2 c hmem)).1] at hspace
        cases hspace
      · cases extra with
        | nil =>
          have hspace := hgap c (by simpa using hcovered)
          rw [(not_isWhitespace_of_isBase32 (hstrkey.2 c hmem)).1] at hspace
          cases hspace
        | cons d extra => exact hnot ((List.cons.inj hrest).1 ▸ by simp)
    obtain ⟨behind, hcovered⟩ := exists_covered h hgapQuote hquoted hstops hquote hplain
    exact (trimQuotes_of_covered hcovered hgap hne hquoted hstrkey).symm

end Asset

theorem not_isDigit_of_space {c : Char}
    (h : Sdk.isWhitespace c = true ∨ isWhitespace c = true) : c.isDigit = false := by
  by_contra hdigit
  rw [Bool.not_eq_false] at hdigit
  obtain ⟨d, hd, rfl⟩ := DecimalText.digitChar_of_isDigit hdigit
  have hnone : ∀ d < 10, Sdk.isWhitespace (Nat.digitChar d) = false ∧
      isWhitespace (Nat.digitChar d) = false := by decide
  rcases h with h | h
  · rw [(hnone d hd).1] at h
    cases h
  · rw [(hnone d hd).2] at h
    cases h

theorem head?_digits {digitsText rest : List Char} (hne : digitsText ≠ [])
    (h : ∀ c ∈ digitsText, c.isDigit = true) :
    ∀ c ∈ (digitsText ++ rest).head?, (!c.isDigit) = false := by
  obtain ⟨d, digitsText, rfl⟩ := List.exists_cons_of_ne_nil hne
  intro c hc
  obtain rfl : d = c := Option.some.inj hc
  rw [h d List.mem_cons_self]
  rfl

/-- **The ledger on one line for both.**  A text that the generator reads as a number
holds the digits that the pattern finds. -/
theorem ledger_of_line {covered rest gap digitsText tail : List Char} {n : Nat}
    (h : covered ++ rest = gap ++ (digitsText ++ tail))
    (hgap : ∀ c ∈ gap, Sdk.isWhitespace c = true)
    (hdigits : digits (digitsText ++ tail) = some (digitsText, tail)) (hstops : Stops rest)
    (hvalue : WritesDecimal (strip isWhitespace covered) n) :
    Nat.ofDigitChars 10 digitsText 0 = n := by
  obtain ⟨-, hne, hall, htail⟩ := digits_eq_some.mp hdigits
  obtain ⟨written, hwritten, hwrittenAll, hsign, rfl⟩ := hvalue
  obtain ⟨front, back, houter, hfront, hback⟩ := exists_strip (p := isWhitespace) covered
  obtain ⟨sign, hsplit, hsignOnly⟩ : ∃ sign, strip isWhitespace covered = sign ++ written ∧
      ∀ c ∈ sign, c = '+' := by
    rcases hsign with heq | heq
    · exact ⟨[], heq, fun c hc => absurd hc List.not_mem_nil⟩
    · exact ⟨['+'], heq, fun c hc => List.mem_singleton.mp hc⟩
  rw [houter, hsplit] at h
  have hcut : (front ++ sign) ++ (written ++ (back ++ rest)) = gap ++ (digitsText ++ tail) := by
    simpa using h
  have hnotDigit : ∀ c ∈ front ++ sign, (!c.isDigit) = true := by
    intro c hc
    rcases List.mem_append.mp hc with hc | hc
    · rw [not_isDigit_of_space (.inr (hfront c hc))]
      rfl
    · rw [hsignOnly c hc]
      rfl
  have hgapDigit : ∀ c ∈ gap, (!c.isDigit) = true := by
    intro c hc
    rw [not_isDigit_of_space (.inl (hgap c hc))]
    rfl
  obtain ⟨-, hsame⟩ := append_inj_of_head (p := fun c => !c.isDigit) hcut hnotDigit hgapDigit
    (head?_digits hwritten hwrittenAll) (head?_digits hne hall)
  have hbehind : ∀ c ∈ (back ++ rest).head?, c.isDigit = false := by
    intro c hc
    cases back with
    | nil => rcases hstops.head c hc with rfl | rfl | rfl <;> rfl
    | cons d back =>
      obtain rfl : d = c := Option.some.inj hc
      exact not_isDigit_of_space (.inr (hback d List.mem_cons_self))
  rw [(append_inj_of_head hsame hwrittenAll hall hbehind htail).1]

/-! ## The condition -/

/-- `^asset\s*=\s*"([^"]+)"\s*$` -/
def assetPattern : List Char → Option (List Char) :=
  assignment Sdk.isWhitespace Sdk.isLineTerminator "asset".toList quoted

/-- `^snapshot_ledger\s*=\s*(\d+)\s*$` -/
def ledgerPattern : List Char → Option (List Char) :=
  assignment Sdk.isWhitespace Sdk.isLineTerminator "snapshot_ledger".toList digits

/-- Both readers find one asset. -/
inductive OneAsset (text : List Char) : Prop
  /-- The first match starts the last line that assigns the key, and nothing between its
  quotes ends the line. -/
  | sameLine {before quotedText value}
      (first : FirstMatch Sdk.isLineTerminator assetPattern true text before quotedText)
      (last : LastAssignment "asset" text before value)
      (plain : '#' ∉ quotedText ∧ '\n' ∉ quotedText)
  /-- The first match is elsewhere, and the last line repeats what it quotes. -/
  | repeated {before before' quotedText value}
      (first : FirstMatch Sdk.isLineTerminator assetPattern true text before quotedText)
      (last : LastAssignment "asset" text before' value) (apart : before ≠ before')
      (same : trimQuotes value = quotedText)

/-- Both readers find one snapshot ledger. -/
inductive OneLedger (text : List Char) : Prop
  /-- The first match starts the last line that assigns the key. -/
  | sameLine {before digitsText value}
      (first : FirstMatch Sdk.isLineTerminator ledgerPattern true text before digitsText)
      (last : LastAssignment "snapshot_ledger" text before value)
  /-- The first match is elsewhere, and the last line writes its number again. -/
  | repeated {before before' digitsText value}
      (first : FirstMatch Sdk.isLineTerminator ledgerPattern true text before digitsText)
      (last : LastAssignment "snapshot_ledger" text before' value) (apart : before ≠ before')
      (same : WritesDecimal value (Nat.ofDigitChars 10 digitsText 0))

section Agreement
variable {fromString : List Char → Option Address} {poseidon2 : List Fr → Fr} {text : List Char}
  {path : Text} {run : Sdk.RunContext} {context : AttestationContext}

theorem parseContext_eq_ok :
    Sdk.parseContext text path = .ok run ↔
      (∃ before, FirstMatch Sdk.isLineTerminator assetPattern true text before run.asset) ∧
        ∃ digitsText, (∃ before, FirstMatch Sdk.isLineTerminator ledgerPattern true text before
          digitsText) ∧ run.snapshotLedger = Sdk.parseInt digitsText := by
  simp only [assetPattern, ledgerPattern, ← exec_eq_some, Sdk.parseContext]
  cases exec Sdk.isWhitespace Sdk.isLineTerminator "asset".toList quoted true text with
  | none => simp
  | some asset =>
    cases exec Sdk.isWhitespace Sdk.isLineTerminator "snapshot_ledger".toList digits true
      text with
    | none => simp
    | some snapshot =>
      obtain ⟨a, d⟩ := run
      simp [eq_comm]

/-- The number of the client is the number of the generator when the digits write it. -/
theorem toInt?_parseInt {digitsText : List Char} {ledger : U32} :
    (Sdk.parseInt digitsText).toInt? = some (ledger.toNat : Int) ↔
      Nat.ofDigitChars 10 digitsText 0 = ledger.toNat := by
  rcases Nat.lt_or_ge (Nat.ofDigitChars 10 digitsText 0) (2 ^ 53) with hlt | hge
  · rw [Sdk.parseInt, toInt?_ofRatio false hlt, Binary64.signed, if_neg (by decide),
      Option.some.injEq, Nat.cast_inj]
  · have hledger : ledger.toNat < 2 ^ 53 := ledger.isLt.trans (by decide)
    constructor
    · intro h
      exact absurd (le_of_toInt?_ofRatio hge h) (by omega)
    · intro h
      omega

/-- Where the first match starts the last line of the key, the line of the generator
covers a part of what stands behind the equals sign. -/
theorem exists_covered_of_match {α : Type} {key : String}
    {value : List Char → Option (α × List Char)} {before written : List Char} {a : α}
    (hmatch : MatchesAt Sdk.isLineTerminator
      (assignment Sdk.isWhitespace Sdk.isLineTerminator key.toList value) true text before a)
    (hlast : LastAssignment key text before written) (hkey : '=' ∉ key.toList) :
    ∃ gap body tail covered rest, (∀ c ∈ gap, Sdk.isWhitespace c = true) ∧
      value body = some (a, tail) ∧ covered ++ rest = gap ++ body ∧ Stops rest ∧
        strip isWhitespace covered = written := by
  obtain ⟨found, htext, -, -, hfound⟩ := hmatch
  obtain ⟨gap, gap', body, tail, hparts, hgap, hgap', hbody, -⟩ := assignment_parts hfound
  obtain ⟨covered, rest, hcovered, hstops, hvalue⟩ :=
    value_of_line hlast (htext.trans (by rw [hparts])) hkey hgap
  exact ⟨gap', body, tail, covered, rest, hgap', hbody, hcovered, hstops, hvalue⟩

theorem asset_eq_iff {before quotedText value : List Char}
    (hfirst : FirstMatch Sdk.isLineTerminator assetPattern true text before quotedText)
    (hlast : LastAssignment "asset" text before value)
    (hstrkey : IsStrkeyText (trimQuotes value)) :
    quotedText = trimQuotes value ↔ '#' ∉ quotedText ∧ '\n' ∉ quotedText := by
  obtain ⟨gap, body, tail, covered, rest, hgap, hbody, hcovered, hstops, rfl⟩ :=
    exists_covered_of_match hfirst.here hlast (by decide)
  obtain ⟨rfl, hne, hquoted⟩ := quoted_parts hbody
  exact asset_of_line hcovered hgap hne hquoted hstops hstrkey

theorem ledger_eq {before digitsText value : List Char} {n : Nat}
    (hfirst : FirstMatch Sdk.isLineTerminator ledgerPattern true text before digitsText)
    (hlast : LastAssignment "snapshot_ledger" text before value)
    (hvalue : WritesDecimal value n) : Nat.ofDigitChars 10 digitsText 0 = n := by
  obtain ⟨gap, body, tail, covered, rest, hgap, hbody, hcovered, hstops, rfl⟩ :=
    exists_covered_of_match hfirst.here hlast (by decide)
  obtain ⟨rfl, -⟩ := digits_eq_some.mp hbody
  exact ledger_of_line hcovered hgap hbody hstops hvalue

theorem asset_agrees_iff (hstrkey : StrkeyOnly fromString)
    (hclient : Sdk.parseContext text path = .ok run)
    (hgenerator : ReadsContext fromString poseidon2 text context) :
    run.asset = context.asset.toList ↔ OneAsset text := by
  obtain ⟨before, hfirst⟩ := (parseContext_eq_ok.mp hclient).1
  obtain ⟨value, hget, hasset⟩ := hgenerator.asset
  obtain ⟨_, _, _, haddress, -⟩ := hgenerator.hash
  have hform := hstrkey haddress
  rw [hasset] at hform ⊢
  constructor
  · intro heq
    obtain ⟨before', hlast⟩ := get_readPairs.mp hget
    by_cases hplace : before = before'
    · subst hplace
      exact .sameLine hfirst hlast ((asset_eq_iff hfirst hlast hform).mp heq)
    · exact .repeated hfirst hlast hplace heq.symm
  · have hrun : ∀ {before quotedText},
        FirstMatch Sdk.isLineTerminator assetPattern true text before quotedText →
          run.asset = quotedText := fun hfirst' => Option.some.inj
      ((exec_eq_some.mpr ⟨before, hfirst⟩).symm.trans (exec_eq_some.mpr ⟨_, hfirst'⟩))
    have hvalue : ∀ {before value'}, LastAssignment "asset" text before value' →
        value = value' := fun hlast => Option.some.inj
      (hget.symm.trans (get_readPairs.mpr ⟨_, hlast⟩))
    rintro (⟨hfirst', hlast, hplain⟩ | ⟨hfirst', hlast, -, hsame⟩)
    · rw [hvalue hlast] at hform ⊢
      rw [hrun hfirst']
      exact (asset_eq_iff hfirst' hlast hform).mpr hplain
    · rw [hrun hfirst', hvalue hlast, hsame]

theorem WritesDecimal.unique {written : List Char} {m n : Nat} (h : WritesDecimal written m)
    (h' : WritesDecimal written n) : m = n := by
  obtain ⟨digits, -, hall, hwritten, rfl⟩ := h
  obtain ⟨digits₂, -, hall₂, hwritten₂, rfl⟩ := h'
  rcases hwritten with rfl | rfl
  · rcases hwritten₂ with rfl | rfl
    · rfl
    · exact absurd (hall '+' List.mem_cons_self) (by decide)
  · rcases hwritten₂ with rfl | heq
    · exact absurd (hall₂ '+' List.mem_cons_self) (by decide)
    · rw [(List.cons.inj heq).2]

theorem ledger_agrees_iff (hclient : Sdk.parseContext text path = .ok run)
    (hgenerator : ReadsContext fromString poseidon2 text context) :
    run.snapshotLedger.toInt? = some (context.snapshotLedger.toNat : Int) ↔ OneLedger text := by
  obtain ⟨digitsText, ⟨before, hfirst⟩, hrun⟩ := (parseContext_eq_ok.mp hclient).2
  obtain ⟨value, hget, hwrites⟩ := hgenerator.snapshot
  rw [hrun, toInt?_parseInt]
  constructor
  · intro heq
    obtain ⟨before', hlast⟩ := get_readPairs.mp hget
    by_cases hplace : before = before'
    · subst hplace
      exact .sameLine hfirst hlast
    · exact .repeated hfirst hlast hplace (heq ▸ hwrites)
  · have hdigits : ∀ {before digitsText'},
        FirstMatch Sdk.isLineTerminator ledgerPattern true text before digitsText' →
          digitsText = digitsText' := fun hfirst' => Option.some.inj
      ((exec_eq_some.mpr ⟨before, hfirst⟩).symm.trans (exec_eq_some.mpr ⟨_, hfirst'⟩))
    have hvalue : ∀ {before value'}, LastAssignment "snapshot_ledger" text before value' →
        value = value' := fun hlast => Option.some.inj
      (hget.symm.trans (get_readPairs.mpr ⟨_, hlast⟩))
    rintro (⟨hfirst', hlast⟩ | ⟨hfirst', hlast, -, hsame⟩)
    · rw [hvalue hlast] at hwrites
      rw [hdigits hfirst']
      exact ledger_eq hfirst' hlast hwrites
    · rw [hvalue hlast] at hwrites
      rw [hdigits hfirst']
      exact hsame.unique hwrites

/-- **When the two readers agree.**  On a text that both accept, they answer one asset and
one snapshot ledger exactly when the first match of each pattern starts the last line that
assigns its key, with nothing between the quotes of the asset that ends the line, or that
line repeats the value of the match. -/
theorem contexts_agree_iff (hstrkey : StrkeyOnly fromString)
    (hclient : Sdk.parseContext text path = .ok run)
    (hgenerator : readContext fromString poseidon2 text = .ok context) :
    (run.asset = context.asset.toList ∧
      run.snapshotLedger.toInt? = some (context.snapshotLedger.toNat : Int)) ↔
        OneAsset text ∧ OneLedger text := by
  have hreads := readsContext_of_readContext hgenerator
  rw [asset_agrees_iff hstrkey hclient hreads, ledger_agrees_iff hclient hreads]

/-- Where the readers agree, the hash is of the values that the client checks and submits. -/
theorem hash_of_run (hstrkey : StrkeyOnly fromString)
    (hclient : Sdk.parseContext text path = .ok run)
    (hgenerator : readContext fromString poseidon2 text = .ok context)
    (hasset : OneAsset text) (hledger : OneLedger text) :
    ∃ authority asset set, fromString run.asset = some asset ∧
      ∃ ledger : U32, run.snapshotLedger.toInt? = some (ledger.toNat : Int) ∧
        contextHash poseidon2 authority asset set ledger = .ok context.hash := by
  have hreads := readsContext_of_readContext hgenerator
  obtain ⟨authority, asset, set, haddress, hhash⟩ := hreads.hash
  refine ⟨authority, asset, set, ?_, context.snapshotLedger,
    (ledger_agrees_iff hclient hreads).mpr hledger, hhash⟩
  rw [(asset_agrees_iff hstrkey hclient hreads).mpr hasset, haddress]

end Agreement

/-! ## The context of the fixtures -/

/-- The payload of each address repeats one byte, so its text repeats four characters. -/
def sampleKey (front period behind : String) : List Char :=
  front.toList ++ (List.replicate 12 period.toList).flatten ++ behind.toList

def sampleAuthority : List Char := sampleKey "GA" "IRCE" "IRCF6M"
def sampleAsset : List Char := sampleKey "CA" "RCEI" "RCEVQO"
def sampleAccount : List Char := sampleKey "GA" "ZTGM" "ZTHCM6"
def sampleContract : List Char := sampleKey "CB" "CEIR" "CEJ5HZ"

/-- The four addresses of the file. -/
def sampleFromString (text : List Char) : Option Address :=
  if text = sampleAuthority then
    some (.ofPayload (.accountIdPublicKeyEd25519 (List.Vector.replicate 32 0x11)))
  else if text = sampleAsset then
    some (.ofPayload (.contractIdHash (List.Vector.replicate 32 0x22)))
  else if text = sampleAccount then
    some (.ofPayload (.accountIdPublicKeyEd25519 (List.Vector.replicate 32 0x33)))
  else if text = sampleContract then
    some (.ofPayload (.contractIdHash (List.Vector.replicate 32 0x44)))
  else none

theorem sampleFromString_strkeyOnly : StrkeyOnly sampleFromString := by
  have hform : ∀ key ∈ [sampleAuthority, sampleAsset, sampleAccount, sampleContract],
      IsStrkeyText key := by
    simp only [List.forall_mem_cons, List.not_mem_nil, false_implies, implies_true, and_true]
    refine ⟨⟨by decide +kernel, ?_⟩, ⟨by decide +kernel, ?_⟩, ⟨by decide +kernel, ?_⟩,
      ⟨by decide +kernel, ?_⟩⟩
    all_goals exact List.all_eq_true.mp (by decide +kernel)
  intro text a h
  refine hform text ?_
  by_contra hmem
  simp only [List.mem_cons, List.not_mem_nil, or_false, not_or] at hmem
  rw [sampleFromString, if_neg hmem.1, if_neg hmem.2.1, if_neg hmem.2.2.1, if_neg hmem.2.2.2] at h
  cases h

def sampleLine (key : String) (value : List Char) : List Char :=
  key.toList ++ [' ', '=', ' '] ++ value

def quotes (value : List Char) : List Char := '"' :: value ++ ['"']

/-- The lines of the file, and lines behind them. -/
def sampleLines (behind : List (List Char)) : List (List Char) :=
  [['#'], sampleLine "authority" (quotes sampleAuthority), sampleLine "asset" (quotes sampleAsset),
    sampleLine "reserves" ('[' :: quotes sampleAccount ++ [',', ' '] ++ quotes sampleContract ++
      [']']), sampleLine "snapshot_ledger" ['1', '0', '0', '0']] ++ behind

def sampleFile (behind : List (List Char)) : List Char :=
  (sampleLines behind).flatMap fun line => line ++ ['\n']

def sampleRun : Sdk.RunContext := ⟨sampleAsset, Sdk.parseInt ['1', '0', '0', '0']⟩

theorem eq_ok_of_toOption {ε α : Type} {x : Except ε α} {a : α} (h : x.toOption = some a) :
    x = .ok a := by
  cases x with
  | error e => cases h
  | ok b => rw [Option.some.inj h]

/-- The generator reads a file by its lines. -/
theorem exists_readContext (behind : List (List Char)) (asset : List Char) (ledger : U32)
    (hlines : (sampleLines behind).all (fun line =>
      '\n' ∉ line && line.getLast? ≠ some '\r') = true)
    (h : (contextOf sampleFromString (fun _ => 0) (((sampleLines behind).filterMap pairOf).foldl
      (fun m p => m.set p.1 p.2) .empty)).toOption.map
        (fun context => (context.asset.toList, context.snapshotLedger)) = some (asset, ledger)) :
    ∃ context, readContext sampleFromString (fun _ => 0) (sampleFile behind) = .ok context ∧
      context.asset.toList = asset ∧ context.snapshotLedger = ledger := by
  obtain ⟨context, hcontext, hvalues⟩ := Option.map_eq_some_iff.mp h
  obtain ⟨hasset, hledger⟩ := Prod.mk.inj hvalues
  refine ⟨context, ?_, hasset, hledger⟩
  rw [readContext, readPairs_eq, sampleFile, lines_joined fun line hline => by
    simpa using List.all_eq_true.mp hlines line hline]
  exact eq_ok_of_toOption hcontext

theorem contexts_agree_iff_sample :
    ∃ context, readContext sampleFromString (fun _ => 0) (sampleFile []) = .ok context ∧
      Sdk.parseContext (sampleFile []) [] = .ok sampleRun ∧
        OneAsset (sampleFile []) ∧ OneLedger (sampleFile []) := by
  obtain ⟨context, hgenerator, hasset, hledger⟩ := exists_readContext [] sampleAsset 1000
    (by decide +kernel) (by decide +kernel)
  have hclient : Sdk.parseContext (sampleFile []) [] = .ok sampleRun :=
    eq_ok_of_toOption (by decide +kernel)
  refine ⟨context, hgenerator, hclient, ?_⟩
  refine (contexts_agree_iff sampleFromString_strkeyOnly hclient hgenerator).mp
    ⟨hasset.symm, ?_⟩
  rw [hledger]
  decide +kernel

/-- Two lines that assign the keys again. -/
def sampleRepeats : List (List Char) :=
  [sampleLine "asset" (quotes sampleContract), sampleLine "snapshot_ledger" ['2', '0', '0', '0']]

/-- The client keeps the first values, the generator the last ones. -/
theorem contexts_disagree_on_repeats :
    ∃ context,
      readContext sampleFromString (fun _ => 0) (sampleFile sampleRepeats) = .ok context ∧
      Sdk.parseContext (sampleFile sampleRepeats) [] = .ok sampleRun ∧
        sampleRun.asset ≠ context.asset.toList ∧
          sampleRun.snapshotLedger.toInt? ≠ some (context.snapshotLedger.toNat : Int) := by
  obtain ⟨context, hgenerator, hasset, hledger⟩ := exists_readContext sampleRepeats sampleContract
    2000 (by decide +kernel) (by decide +kernel)
  refine ⟨context, hgenerator, eq_ok_of_toOption (by decide +kernel), ?_, ?_⟩
  · rw [hasset]
    decide +kernel
  · rw [hledger]
    decide +kernel

end ZkPoR.Generator
