import ZkPoR.WatchdogFiles

/-! # A watchdog that is killed

A run can be killed in front of any operation, and any of its operations can fail.
`Stands` says what the state directory then holds: every state file is absent or holds one
complete record, except the one that the next operation writes into, which is empty.  It
holds of a run as long as no write into a state file fails before its record is whole
(`Intact`).  Such a write leaves a file that no run reads (`Torn`).
-/
namespace ZkPoR.WatchdogFiles
open CheckedInt JsonText JavaScript Binary64 HexText Interruption
open Watchdog (StateStatus disputeTargetMaxAgeLedgers watchdogDeliveryGraceLedgers)

/-! ## Names -/

theorem stateName_injective : Function.Injective stateName := by
  intro t t' h
  have hdigits : Nat.toDigits 10 t = Nat.toDigits 10 t' := by
    have hlist := congrArg String.toList h
    simpa [stateName, decimalText, String.toList_append] using hlist
  rw [← Nat.ofDigitChars_ten_toDigits (n := t), hdigits, Nat.ofDigitChars_ten_toDigits]

/-- A temporary file is no state file. -/
theorem stateName_ne_temporaryName (targetId : Nat) (path : String) (pid : Nat) (uuid : String) :
    stateName targetId ≠ temporaryName path pid uuid := by
  intro h
  have hstate : (stateName targetId).toList.getLast? = some 'n' := by
    simp [stateName, String.toList_append]
  have htemporary : (temporaryName path pid uuid).toList.getLast? = some 'p' := by
    rw [temporaryName, String.toList_append, List.getLast?_append]
    rfl
  rw [h, htemporary] at hstate
  cases hstate

/-! ## What the directory holds -/

section
variable (otherNumber : Double → String) (expected : Nat → StateRecord)

/-- The state file of the target is absent, or it holds one complete record. -/
def Fine (s : Store) (targetId : Nat) : Prop :=
  ∀ file, s.files (stateName targetId) = some file →
    ∃ record text, Complete (expected targetId) record ∧ HoldsRecord otherNumber record text ∧
      file = created text

/-- The next operation writes into the state file of the target. -/
def Writes (o : Option Op) (targetId : Nat) : Prop :=
  ∃ text, o = some (.write (stateName targetId) text)

def Stands (o : Option Op) (s : Store) : Prop :=
  ∀ targetId, (Writes o targetId → s.files (stateName targetId) = some (created "")) ∧
    (¬ Writes o targetId → Fine otherNumber expected s targetId)

/-- An operation of a run, with its answer and the directory behind it. -/
abbrev Event := Prog.Event fileSystem

/-- A write into a state file failed before the file had its text, all but the line end. -/
def Tears (e : Event) : Prop :=
  ∃ targetId text file, e.op = .write (stateName targetId) text ∧
    e.store.files (stateName targetId) = some file ∧ file.text ≠ text ∧ file.text ++ "\n" ≠ text

/-- No write of the run tore a state file. -/
def Intact (log : List Event) : Prop := ∀ e ∈ log, ¬ Tears e

/-- There is a state file that no run reads. -/
def Torn (s : Store) : Prop :=
  ∃ targetId text, s.files (stateName targetId) = some (created text) ∧
    ∀ other, parseState text other = .error .notJson

/-- What holds wherever a run stands. -/
def Point (log : List Event) (o : Option Op) (s : Store) : Prop :=
  Intact log ∧ Stands otherNumber expected o s ∨ ¬ Intact log ∧ Torn s

/-- The program does not throw what `readState` throws. -/
def NoState {α : Type} (result : Except Thrown α) : Prop :=
  ∀ e, result = .error e → ∀ error, e ≠ .state error

/-- How a program ends: no error of `readState`, and with a value that has the property only
where no file is torn. -/
def Ends {α : Type} (P : α → Prop) (result : Except Thrown α) (log : List Event) (_ : Store) :
    Prop :=
  NoState result ∧ ∀ a, result = .ok a → Intact log ∧ P a

/-- From a directory at rest, the program keeps `Point`, and its value has the
property. -/
def Ensures {α : Type} (p : Program α) (P : α → Prop) : Prop :=
  ∀ log s, Intact log → Stands otherNumber expected none s →
    Prog.Keeps (I := fileSystem) (Point otherNumber expected) (Ends P) p log s

end

variable {otherNumber : Double → String} {expected : Nat → StateRecord}

theorem not_writes_none (targetId : Nat) : ¬ Writes none targetId := by
  rintro ⟨text, h⟩
  cases h

theorem stands_none {s : Store} :
    Stands otherNumber expected none s ↔ ∀ targetId, Fine otherNumber expected s targetId :=
  ⟨fun h targetId => (h targetId).2 (not_writes_none targetId),
    fun h targetId => ⟨fun hwrites => absurd hwrites (not_writes_none targetId), fun _ => h targetId⟩⟩

/-- In front of any other operation the directory is at rest. -/
theorem stands_of_not_writes {o : Option Op} {s : Store} (h : ∀ targetId, ¬ Writes o targetId) :
    Stands otherNumber expected o s ↔ Stands otherNumber expected none s :=
  ⟨fun hs targetId => ⟨fun hwrites => absurd hwrites (not_writes_none targetId),
      fun _ => (hs targetId).2 (h targetId)⟩,
    fun hs targetId => ⟨fun hwrites => absurd hwrites (h targetId),
      fun _ => (hs targetId).2 (not_writes_none targetId)⟩⟩

/-- A change of a file that is no state file. -/
theorem stands_put {s : Store} {name : String} {file : Option File}
    (hname : ∀ targetId, stateName targetId ≠ name) (hs : Stands otherNumber expected none s) :
    Stands otherNumber expected none (s.put name file) := by
  rw [stands_none] at hs ⊢
  intro targetId found hfound
  rw [s.files_put_of_ne file (hname targetId)] at hfound
  exact hs targetId found hfound

/-- A state file that holds its record now. -/
theorem stands_put_record {s : Store} {targetId : Nat} {record : StateRecord} {text : String}
    (hrecord : Complete (expected targetId) record) (htext : HoldsRecord otherNumber record text)
    (hs : ∀ other, other ≠ targetId → Fine otherNumber expected s other) :
    Stands otherNumber expected none
      (s.put (stateName targetId) (some (created text))) := by
  rw [stands_none]
  intro other file hfile
  by_cases heq : other = targetId
  · subst heq
    rw [Store.files_put_same] at hfile
    cases hfile
    exact ⟨record, text, hrecord, htext, rfl⟩
  · have hne : stateName other ≠ stateName targetId := fun h => heq (stateName_injective h)
    rw [s.files_put_of_ne _ hne] at hfile
    exact hs other heq file hfile

theorem intact_cons {log : List Event} {e : Event} :
    Intact (e :: log) ↔ ¬ Tears e ∧ Intact log := List.forall_mem_cons

theorem point_of_stands {log : List Event} {o : Option Op} {s : Store} (hlog : Intact log)
    (hs : Stands otherNumber expected o s) : Point otherNumber expected log o s :=
  .inl ⟨hlog, hs⟩

theorem Point.stands {log : List Event} {o : Option Op} {s : Store}
    (h : Point otherNumber expected log o s) (hlog : Intact log) :
    Stands otherNumber expected o s :=
  (h.resolve_right fun htorn => htorn.1 hlog).2

/-! ## Rules -/

section Rules
variable {α β : Type} {P : α → Prop} {Q : β → Prop}

theorem noState_ok (a : α) : NoState (.ok a) := nofun

theorem noState_error {e : Thrown} (h : ∀ error, e ≠ .state error) :
    NoState (.error e : Except Thrown α) := by
  rintro _ ⟨rfl⟩
  exact h

theorem ensures_pure {a : α} (h : P a) : Ensures otherNumber expected (pure a) P := by
  intro log s hlog hs
  refine ⟨point_of_stands hlog hs, noState_ok a, ?_⟩
  intro a' ha
  cases ha
  exact ⟨hlog, h⟩

theorem ensures_throw {e : Thrown} (h : ∀ error, e ≠ .state error) :
    Ensures otherNumber expected (throw e) P :=
  fun _ _ hlog hs => ⟨point_of_stands hlog hs, noState_error h, nofun⟩

theorem ensures_infrastructure {message : String} :
    Ensures otherNumber expected (infrastructure message) P :=
  ensures_throw fun _ => nofun

theorem Ensures.bind {p : Program α} {f : α → Program β} (h : Ensures otherNumber expected p P)
    (hf : ∀ a, P a → Ensures otherNumber expected (f a) Q) :
    Ensures otherNumber expected (p >>= f) Q := by
  intro log s hlog hs
  refine Prog.Keeps.bind (h log s hlog hs) ?_ ?_
  · intro e log' s' hend
    exact ⟨noState_error (hend.1 e rfl), nofun⟩
  · intro a log' s' hpoint hend
    obtain ⟨hlog', ha⟩ := hend.2 a rfl
    exact hf a ha log' s' hlog' (hpoint.stands hlog')

theorem ensures_ofExcept {x : Except Thrown α} (hok : ∀ a, x = .ok a → P a) (herror : NoState x) :
    Ensures otherNumber expected (Prog.ofExcept x) P := by
  cases x with
  | ok a => exact ensures_pure (hok a rfl)
  | error e => exact ensures_throw (herror e rfl)

/-! ### Operations that leave the files as they are -/

/-- The operation changes no file, and throws nothing of a state file. -/
structure Quiet (o : Op) : Prop where
  not_write : ∀ name text, o ≠ .write name text
  files : ∀ s answer s', does o s answer s' → s'.files = s.files
  noState : ∀ s answer s', does o s answer s' → NoState answer

theorem not_writes {o : Op} (h : ∀ name text, o ≠ .write name text) (targetId : Nat) :
    ¬ Writes (some o) targetId := by
  rintro ⟨text, heq⟩
  exact h _ _ (Option.some.inj heq)

theorem not_tears {e : Event} (h : ∀ name text, e.op ≠ .write name text) : ¬ Tears e := by
  rintro ⟨targetId, text, file, hop, -⟩
  exact h _ _ hop

variable {o : Op} {log : List Event} {s s' : Store} {answer : Except Thrown (Answer o)}

/-- In front of any operation but a write the directory is at rest. -/
theorem Point.before (h : Point otherNumber expected log none s)
    (hwrite : ∀ name text, o ≠ .write name text) : Point otherNumber expected log (some o) s :=
  h.imp (fun h => ⟨h.1, (stands_of_not_writes (not_writes hwrite)).mpr h.2⟩) id

theorem Quiet.point (ho : Quiet o) (hdoes : does o s answer s')
    (h : Point otherNumber expected log none s) :
    Point otherNumber expected (⟨o, answer, s'⟩ :: log) none s' := by
  have hfiles := ho.files s answer s' hdoes
  have hintact : Intact (⟨o, answer, s'⟩ :: log) ↔ Intact log :=
    intact_cons.trans (and_iff_right (not_tears ho.not_write))
  rcases h with ⟨hlog, hs⟩ | ⟨hlog, htorn⟩
  · refine .inl ⟨hintact.mpr hlog, ?_⟩
    rw [stands_none] at hs ⊢
    intro targetId file hfile
    rw [hfiles] at hfile
    exact hs targetId file hfile
  · refine .inr ⟨fun hcons => hlog (hintact.mp hcons), ?_⟩
    obtain ⟨targetId, text, hfile, hparse⟩ := htorn
    exact ⟨targetId, text, by rw [hfiles, hfile], hparse⟩

theorem Quiet.intact (ho : Quiet o) (hlog : Intact log) : Intact (⟨o, answer, s'⟩ :: log) :=
  intact_cons.mpr ⟨not_tears ho.not_write, hlog⟩

/-- A program that goes on from either end of such an operation. -/
theorem ensures_after {f : Except Thrown (Answer o) → Program β} (ho : Quiet o)
    (hf : ∀ answer, NoState answer → Ensures otherNumber expected (f answer) Q) :
    Ensures otherNumber expected ((perform o).after f) Q := by
  intro log s hlog hs
  have hpoint : Point otherNumber expected log none s := point_of_stands hlog hs
  refine ⟨hpoint.before ho.not_write, ?_⟩
  intro answer s' hdoes
  have hlog' : Intact (⟨o, answer, s'⟩ :: log) := ho.intact hlog
  exact hf answer (ho.noState s answer s' hdoes) _ s' hlog' ((ho.point hdoes hpoint).stands hlog')

theorem ensures_perform (ho : Quiet o) :
    Ensures otherNumber expected (perform o) fun _ => True :=
  ensures_after (f := Prog.done) ho fun answer h => ensures_ofExcept (x := answer) (fun _ _ => trivial) h

theorem quiet_same {o : Op} (hwrite : ∀ name text, o ≠ .write name text)
    (hdoes : ∀ s answer s', does o s answer s' → Same s s' answer) : Quiet o where
  not_write := hwrite
  files s answer s' h := by rw [(hdoes s answer s' h).1]
  noState s answer s' h := by
    intro e he error
    rw [(hdoes s answer s' h).2 e he]
    exact nofun

theorem quiet_ask (question : Question) : Quiet (.ask question) where
  not_write := nofun
  files := by
    rintro s answer s' ⟨rfl, -⟩
    rfl
  noState := by
    rintro s answer s' ⟨-, herror⟩ e he error
    rcases herror e he with rfl | ⟨code, rfl⟩ <;> exact nofun

end Rules

/-! ## The operations of the watchdog -/

section Files

theorem ensures_ask (question : Question) :
    Ensures otherNumber expected (ask question) fun _ => True := ensures_perform (quiet_ask question)

/-- A question whose failure is answered by another one. -/
theorem ensures_handle_ask {question : Question} {f : Thrown → Program (Reply question)}
    (hf : ∀ e, Ensures otherNumber expected (f e) fun _ => True) :
    Ensures otherNumber expected (Prog.handle (ask question) f) fun _ => True := by
  refine ensures_after (quiet_ask question) fun answer _ => ?_
  cases answer with
  | ok a => exact ensures_pure trivial
  | error e => exact hf e

theorem quiet_sync (name : String) : Quiet (.sync name) := quiet_same nofun fun _ _ _ h => h

theorem quiet_close (name : String) : Quiet (.close name) := quiet_same nofun fun _ _ _ h => h

theorem ensures_syncDirectory :
    Ensures otherNumber expected syncDirectory fun _ => True := by
  have hopen : Quiet .openDirectory := quiet_same nofun fun _ _ _ h => h
  have hsync : Quiet .syncDirectory := quiet_same nofun fun _ _ _ h => h
  have hclose : Quiet .closeDirectory := quiet_same nofun fun _ _ _ h => h
  refine (ensures_perform hopen).bind fun _ _ => ensures_after hsync fun synced hsynced => ?_
  refine (ensures_perform hclose).bind fun _ _ => ?_
  exact ensures_ofExcept (fun _ _ => trivial) hsynced

/-- How the part between `open` and the end of `close` ends: a failed write is thrown. -/
def FillEnds (full : Store) (result : Except Thrown Unit) (log : List Event) (s : Store) : Prop :=
  NoState result ∧ ∀ u, result = .ok u → Intact log ∧ s = full

/-- The file is closed after either end of the write. -/
theorem keeps_close {name : String} {full s : Store} {log : List Event}
    {result : Except Thrown Unit} (hpoint : Point otherNumber expected log none s)
    (hresult : FillEnds full result log s) :
    Prog.Keeps (I := fileSystem) (Point otherNumber expected) (FillEnds full)
      ((perform (.close name)).after (Prog.onValue fun _ => Prog.done result)) log s := by
  have hclose := quiet_close name
  refine ⟨hpoint.before hclose.not_write, ?_⟩
  intro closed s' hdoes
  have hpoint' := hclose.point hdoes hpoint
  obtain ⟨rfl, herror⟩ : Same s s' closed := hdoes
  cases closed with
  | ok _ =>
    refine ⟨hpoint', hresult.1, ?_⟩
    intro u hu
    obtain ⟨hlog, hs⟩ := hresult.2 u hu
    exact ⟨hclose.intact hlog, hs⟩
  | error e =>
    refine ⟨hpoint', noState_error ?_, nofun⟩
    rw [herror e rfl]
    exact fun _ => nofun

/-- The file has its whole text once it was written, and what a failed write leaves of it
otherwise. -/
theorem keeps_fill {name : String} {record : StateRecord} {s : Store} {log : List Event}
    (hlog : Intact log) (hempty : s.files name = some (created ""))
    (hs : Stands otherNumber expected (some (.write name (stateText otherNumber record))) s)
    (hfull : Stands otherNumber expected none
      (s.put name (some (created (stateText otherNumber record)))))
    (hcut : ∀ answer left, CutOff (stateText otherNumber record) left →
      Point otherNumber expected
        (⟨.write name (stateText otherNumber record), answer, s.put name (some (created left))⟩ ::
          log) none (s.put name (some (created left)))) :
    Prog.Keeps (I := fileSystem) (Point otherNumber expected)
      (FillEnds (s.put name (some (created (stateText otherNumber record)))))
      (fill otherNumber name record) log s := by
  refine ⟨point_of_stands hlog hs, ?_⟩
  rintro answer s' ⟨file, hfile, hwritten⟩
  obtain rfl := Option.some.inj (hempty.symm.trans hfile)
  cases answer with
  | ok _ =>
    obtain rfl := hwritten
    -- the file has its text, and neither `sync` nor `close` changes it
    have hintact : Intact (⟨.write name (stateText otherNumber record), .ok (),
        s.put name (some (created (stateText otherNumber record)))⟩ :: log) := by
      refine intact_cons.mpr ⟨?_, hlog⟩
      rintro ⟨targetId, text, file, hop, hfile, hne, -⟩
      obtain ⟨rfl, rfl⟩ := Op.write.inj hop
      rw [Store.files_put_same] at hfile
      exact hne (congrArg File.text (Option.some.inj hfile)).symm
    have hpoint := point_of_stands hintact hfull
    have hsync := quiet_sync name
    refine ⟨Point.before hpoint hsync.not_write, ?_⟩
    intro synced s' hdoes
    refine keeps_close (hsync.point hdoes hpoint) ⟨hsync.noState _ _ _ hdoes, ?_⟩
    intro u _
    exact ⟨hsync.intact hintact, hdoes.1⟩
  | error e =>
    obtain ⟨rfl, left, hleft, rfl⟩ := hwritten
    exact keeps_close (hcut _ left hleft) ⟨noState_error fun _ => nofun, nofun⟩

/-- What a failed write leaves under the name of a state file: the record without its line
end, or a file that no run reads. -/
theorem point_cutOff {targetId : Nat} {record : StateRecord} {s : Store} {log : List Event}
    (hplain : Plain (expected targetId)) (hrecord : Complete (expected targetId) record)
    (hlog : Intact log)
    (hrest : ∀ other, other ≠ targetId → Fine otherNumber expected s other)
    {answer : Except Thrown Unit} {left : String} {s' : Store}
    (hcut : CutOff (stateText otherNumber record) left)
    (hs' : s' = s.put (stateName targetId) (some (created left))) :
    Point otherNumber expected
      (⟨.write (stateName targetId) (stateText otherNumber record), answer, s'⟩ :: log) none s' := by
  have hfile : s'.files (stateName targetId) = some (created left) := by
    rw [hs', Store.files_put_same]
  by_cases hholds : HoldsRecord otherNumber record left
  · refine point_of_stands (intact_cons.mpr ⟨?_, hlog⟩)
      (hs' ▸ stands_put_record hrecord hholds hrest)
    rintro ⟨other, text, file, hop, hfile', hne, hne'⟩
    obtain ⟨hname, rfl⟩ := Op.write.inj hop
    have hsame : s'.files (stateName other) = some file := hfile'
    rw [← hname, hfile] at hsame
    obtain rfl := Option.some.inj hsame
    exact hholds.elim hne hne'
  · refine .inr ⟨?_, targetId, left, hfile, parseState_cutOff hplain hrecord hcut hholds⟩
    intro hintact
    exact (intact_cons.mp hintact).1
      ⟨targetId, _, created left, rfl, hfile, not_or.mp hholds⟩

/-- **`createState`**: between `open` and `write`, and nowhere else, the state file is
empty. -/
theorem ensures_createState {targetId : Nat} {record : StateRecord}
    (hplain : Plain (expected targetId)) (hrecord : Complete (expected targetId) record) :
    Ensures otherNumber expected (createState otherNumber (stateName targetId) record)
      fun _ => True := by
  intro log s hlog hs
  have hpoint := point_of_stands hlog hs
  refine ⟨hpoint.before (o := .create _) nofun, ?_⟩
  intro answer s' h
  have hrest := stands_none.mp hs
  have hlog' : Intact (⟨.create (stateName targetId), answer, s'⟩ :: log) :=
    intact_cons.mpr ⟨not_tears nofun, hlog⟩
  cases answer with
  | error e =>
    -- the file was there, or `open` failed: nothing was created
    obtain ⟨rfl, ⟨rfl, -⟩ | rfl⟩ := h
    · exact ensures_pure trivial _ _ hlog' hs
    · exact ensures_infrastructure _ _ hlog' hs
  | ok _ =>
    obtain ⟨-, rfl⟩ := h
    set s' := s.put (stateName targetId) (some (created "")) with hs'
    have hothers : ∀ other, other ≠ targetId → Fine otherNumber expected s' other := by
      intro other hne file hfile
      rw [hs', s.files_put_of_ne _ fun hname => hne (stateName_injective hname)] at hfile
      exact hrest other file hfile
    have hwrite : Stands otherNumber expected
        (some (.write (stateName targetId) (stateText otherNumber record))) s' := by
      intro other
      constructor
      · rintro ⟨text, heq⟩
        have hname : stateName targetId = stateName other := (Op.write.inj (Option.some.inj heq)).1
        rw [hs', ← hname, Store.files_put_same]
      · intro hother
        refine hothers other ?_
        rintro rfl
        exact hother ⟨_, rfl⟩
    refine Prog.Keeps.bind (keeps_fill hlog' (Store.files_put_same _ _ _) hwrite
      (stands_put_record hrecord (.inl rfl) hothers) ?_) ?_ ?_
    · exact fun _ left hleft => point_cutOff hplain hrecord hlog' hothers hleft rfl
    · intro e log'' s'' hend
      exact ⟨noState_error (hend.1 e rfl), nofun⟩
    · intro _ log'' s'' hpoint'' hend
      have hlog'' := (hend.2 () rfl).1
      exact (ensures_syncDirectory.bind fun _ _ => ensures_pure trivial) log'' s'' hlog''
        (hpoint''.stands hlog'')

/-- The full file takes the name of the state in one operation. -/
theorem keeps_rename {temporary : String} {targetId : Nat} {record : StateRecord}
    (htemporary : ∀ other, stateName other ≠ temporary)
    (hrecord : Complete (expected targetId) record) {log : List Event} {s : Store}
    (hlog : Intact log) (hs : Stands otherNumber expected none s)
    (hfull : s.files temporary = some (created (stateText otherNumber record))) :
    Prog.Keeps (I := fileSystem) (Point otherNumber expected) (Ends fun _ => True)
      (perform (.rename temporary (stateName targetId))) log s := by
  refine ⟨(point_of_stands hlog hs).before (o := .rename _ _) nofun, ?_⟩
  intro renamed s' h
  have hlog' : Intact (⟨.rename temporary (stateName targetId), renamed, s'⟩ :: log) :=
    intact_cons.mpr ⟨not_tears nofun, hlog⟩
  cases renamed with
  | error e =>
    obtain ⟨rfl, rfl⟩ := h
    exact ⟨point_of_stands hlog' hs, noState_error fun _ => nofun, nofun⟩
  | ok _ =>
    obtain ⟨file, hfile, rfl⟩ := h
    obtain rfl := Option.some.inj (hfull.symm.trans hfile)
    refine ⟨point_of_stands hlog' (stands_put_record hrecord (.inl rfl) ?_), noState_ok _,
      fun _ _ => ⟨hlog', trivial⟩⟩
    intro other _
    exact stands_none.mp (stands_put htemporary hs) other

/-- **`replaceState`**: the state file changes in one operation. -/
theorem ensures_replaceBy {temporary : String} {targetId : Nat} {record : StateRecord}
    (htemporary : ∀ other, stateName other ≠ temporary)
    (hrecord : Complete (expected targetId) record) :
    Ensures otherNumber expected (replaceBy otherNumber temporary (stateName targetId) record)
      fun _ => True := by
  intro log s hlog hs
  have hpoint := point_of_stands hlog hs
  refine ⟨hpoint.before (o := .create _) nofun, ?_⟩
  intro answer s' h
  have hlog' : Intact (⟨.create temporary, answer, s'⟩ :: log) :=
    intact_cons.mpr ⟨not_tears nofun, hlog⟩
  cases answer with
  | error e =>
    obtain ⟨rfl, ⟨rfl, -⟩ | rfl⟩ := h
    · exact ensures_throw (e := .io .EEXIST) (P := fun _ : Unit => True) (fun _ => nofun) _ _ hlog' hs
    · exact ensures_throw (e := .io .other) (P := fun _ : Unit => True) (fun _ => nofun) _ _ hlog' hs
  | ok _ =>
    obtain ⟨-, rfl⟩ := h
    -- a temporary name is no state name, so every state stands while the file is filled
    have hwrites : ∀ text other, ¬ Writes (some (.write temporary text)) other := by
      rintro text other ⟨text', heq⟩
      exact htemporary other (Op.write.inj (Option.some.inj heq)).1.symm
    have hmade : Stands otherNumber expected none (s.put temporary (some (created ""))) :=
      stands_put htemporary hs
    change Prog.Keeps _ _ (do
      fill otherNumber temporary record
      perform (.rename temporary (stateName targetId))
      syncDirectory : Program Unit) _ _
    refine Prog.Keeps.bind (keeps_fill hlog' (Store.files_put_same _ _ _)
      ((stands_of_not_writes (hwrites _)).mpr hmade) (stands_put htemporary hmade) ?_) ?_ ?_
    · intro answer left _
      refine point_of_stands (intact_cons.mpr ⟨?_, hlog'⟩) (stands_put htemporary hmade)
      rintro ⟨other, text, file, hop, -⟩
      exact htemporary other (Op.write.inj hop).1.symm
    · intro e log'' s'' hend
      exact ⟨noState_error (hend.1 e rfl), nofun⟩
    · intro _ log'' s'' hpoint'' hend
      obtain ⟨hlog'', rfl⟩ := hend.2 () rfl
      refine Prog.Keeps.bind (keeps_rename htemporary hrecord hlog'' (hpoint''.stands hlog'')
        (Store.files_put_same _ _ _)) (fun _ _ _ hrenamed => ?_) ?_
      · exact ⟨noState_error (hrenamed.1 _ rfl), nofun⟩
      · intro _ log s hpoint hrenamed
        have hlog := (hrenamed.2 () rfl).1
        exact ensures_syncDirectory log s hlog (hpoint.stands hlog)

theorem ensures_replaceState {targetId : Nat} {record : StateRecord}
    (hrecord : Complete (expected targetId) record) :
    Ensures otherNumber expected (replaceState otherNumber (stateName targetId) record)
      fun _ => True :=
  (ensures_ask .temporary).bind fun _ _ =>
    ensures_replaceBy (fun other => stateName_ne_temporaryName other _ _ _) hrecord

/-- **`readState`** takes every file that the watchdog wrote. -/
theorem ensures_readState {targetId : Nat} (hplain : Plain (expected targetId)) :
    Ensures otherNumber expected (readState (stateName targetId) (expected targetId))
      fun state => ∀ record, state = some record → Complete (expected targetId) record := by
  intro log s hlog hs
  have hpoint := point_of_stands hlog hs
  have hnone : ∀ record, none = some record → Complete (expected targetId) record := nofun
  refine ⟨hpoint.before (o := .lstat _) nofun, ?_⟩
  rintro answer s' ⟨rfl, h⟩
  have hlog' : Intact (⟨.lstat (stateName targetId), answer, s'⟩ :: log) :=
    intact_cons.mpr ⟨not_tears nofun, hlog⟩
  cases answer with
  | error e =>
    rcases h with ⟨rfl, -⟩ | rfl
    · exact ensures_pure hnone _ _ hlog' hs
    · exact ensures_infrastructure _ _ hlog' hs
  | ok details =>
    obtain ⟨file, hfile, rfl⟩ := h
    -- at rest, a file that is there holds one complete record
    obtain ⟨record, text, hrecord, htext, rfl⟩ := stands_none.mp hs targetId file hfile
    set file := created text with hcreated
    change Prog.Keeps (I := fileSystem) (Point otherNumber expected) _
      (readPrivate (stateName targetId) (expected targetId) (file.isFile, file.mode)) _ s'
    rw [readPrivate, if_pos ⟨rfl, isPrivate_secretFileMode⟩]
    refine ⟨(point_of_stands hlog' hs).before (o := .readFile _) nofun, ?_⟩
    rintro answer s'' ⟨rfl, h⟩
    have hlog'' : Intact (⟨.readFile (stateName targetId), answer, s''⟩ :: _) :=
      intact_cons.mpr ⟨not_tears nofun, hlog'⟩
    cases answer with
    | error e =>
      rcases h with ⟨rfl, -⟩ | rfl
      · exact ensures_pure hnone _ _ hlog'' hs
      · exact ensures_infrastructure _ _ hlog'' hs
    | ok found =>
      obtain ⟨file', hfile', rfl⟩ := h
      -- nobody wrote between `lstat` and `readFile`
      obtain rfl := Option.some.inj (hfile.symm.trans hfile')
      obtain ⟨found, hfound, -, -, hcomplete⟩ := parseState_record hplain hrecord htext
      refine ensures_ofExcept ?_ ?_ _ s'' hlog'' hs
      · intro state hstate
        rw [hcreated, created, hfound] at hstate
        cases hstate
        intro other hother
        cases hother
        exact hcomplete
      · intro e he
        rw [hcreated, created, hfound] at he
        cases he

end Files

/-! ## The run -/

section Run
variable (session : Session)

/-- The record that `readState` compares with. -/
def Session.base (targetId : Nat) : StateRecord := session.recordOf targetId .delivered

def Session.Ensures {α : Type} (p : Program α) (P : α → Prop) : Prop :=
  WatchdogFiles.Ensures session.lib.otherNumber session.base p P

variable {session} {targetId : Nat} {record : StateRecord} {retry : Bool} {pass : Pass}

/-- `recordOf` sets the status and the transaction only. -/
theorem recordOf_eq (status : StateStatus) (hash : Option Text) (maxTime : Option Double) :
    recordOf session.input.network session.old session.grace targetId status hash maxTime =
      { session.base targetId with status, transactionHash := hash, maxTime } := rfl

theorem complete_recordOf (status : StateStatus) (h : status ≠ .pending) :
    Complete (session.base targetId) (session.recordOf targetId status) where
  check := rfl
  hash := nofun
  expiry := nofun
  pending := fun hpending => absurd hpending h

/-- A pending record that settled. -/
theorem Complete.disputed (h : Complete (session.base targetId) record) :
    Complete (session.base targetId) { record with status := .disputed } where
  check := by rw [h.check]
  hash := h.hash
  expiry := h.expiry
  pending := nofun

theorem isHash_hashText (hash : U256) : isHash (hashText hash) = true := by
  obtain ⟨hlength, hlower, -⟩ := hexOf_toBeBytes hash
  rw [isHash, hashText, Text.toString?_ofString]
  simp only [String.toList_ofList, Bool.and_eq_true, decide_eq_true_eq, List.all_eq_true]
  exact ⟨hlength, hlower⟩

theorem complete_pending (hash : U256) {maxTime : Double} (h : isExpiry maxTime = true) :
    Complete (session.base targetId)
      (recordOf session.input.network session.old session.grace targetId .pending
        (some (hashText hash)) (some maxTime)) := by
  rw [recordOf_eq]
  have hhash : (some (hashText hash)).any isHash = true := by
    rw [Option.any_some]
    exact isHash_hashText hash
  have hnormal : (hashText hash).Normal := by
    rw [hashText]
    exact Text.normal_ofString _
  generalize hashText hash = text at hhash hnormal
  exact {
    check := rfl
    hash := by
      rintro _ ⟨rfl⟩
      exact hnormal
    expiry := by
      rintro _ ⟨rfl⟩
      exact isSafe_of_isExpiry h
    pending := fun _ => ⟨hhash, h⟩ }

theorem complete_settled (hash : JsString) :
    Complete (session.base targetId)
      (recordOf session.input.network session.old session.grace targetId .disputed
        (some hash.val) none) where
  check := rfl
  hash := by
    intro text htext
    cases htext
    exact hash.property
  expiry := nofun
  pending := nofun

theorem ensures_packageText : session.Ensures (packageText targetId) fun _ => True := by
  refine ensures_after (quiet_ask _) fun answer _ => ?_
  split
  · exact ensures_pure trivial
  · exact ensures_infrastructure
  · exact ensures_pure trivial

theorem ensures_package {α : Type} (x : Except Sdk.PackageError α) :
    session.Ensures (Prog.ofExcept (x.mapError .package)) fun _ => True := by
  refine ensures_ofExcept (fun _ _ => trivial) ?_
  cases x with
  | ok a => exact noState_ok a
  | error reason => exact noState_error fun _ => nofun

theorem ensures_ownPackage :
    session.Ensures (ownPackageForTarget session targetId) fun _ => True := by
  refine ensures_packageText.bind fun text _ => ?_
  cases text with
  | none => exact ensures_pure trivial
  | some text =>
    refine (ensures_ask _).bind fun verdict _ => ?_
    split
    · exact (ensures_package _).bind fun entry _ => ensures_pure trivial
    · exact ensures_pure trivial

theorem ensures_storeState (hplain : Plain (session.base targetId))
    (h : Complete (session.base targetId) record) :
    session.Ensures (storeState session targetId retry record) fun _ => True := by
  unfold storeState
  split
  · exact ensures_replaceState h
  · refine (ensures_createState hplain h).bind fun stored _ => ?_
    split
    · exact ensures_pure trivial
    · exact ensures_infrastructure

theorem ensures_pendingOutcome (h : Complete (session.base targetId) record) :
    session.Ensures (pendingOutcome session targetId record) fun _ => True := by
  refine (ensures_ask _).bind fun dispute _ => ?_
  split
  · exact (ensures_replaceState h.disputed).bind fun _ _ => ensures_pure trivial
  split
  · refine (ensures_handle_ask fun _ => ensures_infrastructure).bind fun transaction _ => ?_
    unfold settledOutcome
    split
    · exact ensures_pure trivial
    · split <;> exact ensures_pure trivial
    · exact ensures_infrastructure
  · exact ensures_infrastructure

theorem ensures_prepareDispute : session.Ensures (prepareDispute targetId) fun _ => True :=
  ensures_ask _

theorem ensures_sendAndSettle {hash : Text} :
    session.Ensures (sendAndSettle hash) fun _ => True := ensures_ask _

theorem ensures_openDispute (hplain : Plain (session.base targetId)) :
    session.Ensures (openDispute session targetId retry) fun _ => True := by
  refine ensures_prepareDispute.bind fun ready _ => ?_
  -- the callback stores a pending record only with an expiry that the reader takes
  by_cases hexpiry : isExpiry ready.2 = true
  · rw [if_pos hexpiry]
    exact (ensures_storeState hplain (complete_pending _ hexpiry)).bind fun _ _ =>
      ensures_sendAndSettle
  · rw [if_neg hexpiry]
    exact ensures_infrastructure

theorem ensures_sendDispute (hplain : Plain (session.base targetId)) :
    session.Ensures (sendDispute session targetId retry pass) fun _ => True := by
  refine (ensures_handle_ask fun _ => ensures_infrastructure).bind fun _ _ => ?_
  refine (ensures_openDispute hplain).bind fun hash _ => (ensures_ask _).bind fun dispute _ => ?_
  split
  · exact (ensures_replaceState (complete_settled hash)).bind fun _ _ => ensures_pure trivial
  · exact ensures_infrastructure

theorem ensures_disputeTarget (hplain : Plain (session.base targetId)) :
    session.Ensures (disputeTarget session targetId retry pass) fun _ => True := by
  refine (ensures_ask _).bind fun existing _ => ?_
  split
  · exact (ensures_storeState hplain (complete_recordOf .disputed nofun)).bind fun _ _ =>
      ensures_pure trivial
  · exact ensures_sendDispute hplain

theorem ensures_missingPackage (hplain : Plain (session.base targetId)) {attestedLedger : Int} :
    session.Ensures (missingPackage session targetId retry pass attestedLedger) fun _ => True := by
  unfold missingPackage
  split
  · exact ensures_pure trivial
  split
  · exact (ensures_storeState hplain (complete_recordOf .expired nofun)).bind fun _ _ =>
      ensures_pure trivial
  · exact ensures_disputeTarget hplain

theorem ensures_processTarget (hplain : Plain (session.base targetId)) :
    session.Ensures (processTarget session targetId retry pass) fun _ => True := by
  refine (ensures_ask _).bind fun target _ => ?_
  split
  · exact ensures_infrastructure
  · refine ensures_ownPackage.bind fun own _ => ?_
    split
    · exact (ensures_storeState hplain (complete_recordOf .delivered nofun)).bind fun _ _ =>
        ensures_pure trivial
    · exact ensures_missingPackage hplain

/-- One iteration of the loop. -/
theorem ensures_runTarget (hplain : Plain (session.base targetId)) :
    session.Ensures (runTarget session targetId pass) fun _ => True := by
  refine (ensures_readState hplain).bind fun state hstate => ?_
  cases state with
  | none => exact ensures_processTarget hplain
  | some record =>
    have hrecord := hstate record rfl
    dsimp only
    split
    · exact ensures_pure trivial
    · exact ensures_pure trivial
    · exact ensures_pure trivial
    · refine (ensures_pendingOutcome hrecord).bind fun pending _ => ?_
      cases pending with
      | some core => exact ensures_pure trivial
      | none => exact ensures_processTarget hplain

/-- The loop, by induction on the targets that remain. -/
theorem ensures_runTargets (session : Session)
    (hplain : ∀ targetId, Plain (session.base targetId)) (remaining targetId : Nat) (pass : Pass) :
    session.Ensures (runTargets session remaining targetId pass) fun _ => True := by
  induction remaining generalizing targetId pass with
  | zero => exact ensures_pure trivial
  | succ remaining ih =>
    refine (ensures_runTarget (hplain targetId)).bind fun next _ => ?_
    cases next with
    | go pass => exact ih _ _
    | stop outcome => exact ensures_pure trivial

end Run

end ZkPoR.WatchdogFiles
