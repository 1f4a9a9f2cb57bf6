import Mathlib.Logic.Function.Basic
import Mathlib.Data.List.TakeWhile
import ZkPoR.TransitionSystem
import ZkPoR.DecimalText

/-! # The run lock

`takeRunLock` takes the lock file of one repository, and the function it returns
releases it.  A process runs both as single file operations, so the model has one
step for each operation and any number of calls run interleaved: every call has a
program point, and a run schedules the calls in any order.

A file is named by its creation.  The path holds at most one file, an unlink
leaves the file to those that opened it, and the write that names the owner goes
through the handle of the creation.  A process can die between any two
operations, and an identifier is not given to a second process.

The creation and the write are two operations, and so are the read that finds a
lock stale and the unlink that removes it.  `removal_disturbs` says which
interleavings let a removal take the lock file of a live call, and
`exclusive_of_undisturbed` says that nothing else ends the mutual exclusion.
-/
namespace ZkPoR
namespace RunLock
open TransitionSystem DecimalText

abbrev Pid := Nat
abbrev Caller := Nat
abbrev FileId := Nat

section Text

/-- White space for `String.prototype.trim` and `parseInt`. -/
def isSpace (c : Char) : Bool :=
  c.val = 0x20 || (0x09 ≤ c.val && c.val ≤ 0x0d) || c.val = 0xa0 || c.val = 0x1680 ||
    (0x2000 ≤ c.val && c.val ≤ 0x200a) || c.val = 0x2028 || c.val = 0x2029 ||
    c.val = 0x202f || c.val = 0x205f || c.val = 0x3000 || c.val = 0xfeff

def trim (text : List Char) : List Char :=
  ((text.dropWhile isSpace).reverse.dropWhile isSpace).reverse

/-- `Number.parseInt(text, 10)`: an optional sign and the longest run of digits.
A number above 2^53 is kept exactly, and no process has such an identifier. -/
def parseInt (text : List Char) : Option Int :=
  match text.dropWhile isSpace with
  | '-' :: rest => (digits rest).map fun n => -(n : Int)
  | '+' :: rest => (digits rest).map fun n => (n : Int)
  | rest => (digits rest).map fun n => (n : Int)
where
  digits (rest : List Char) : Option Nat :=
    match rest.takeWhile Char.isDigit with
    | [] => none
    | run => some (Nat.ofDigitChars 10 run 0)

/-- The identifier that a text names. -/
def pidOf (text : List Char) : Option Pid :=
  match parseInt (trim text) with
  | some n => if 0 < n then some n.toNat else none
  | none => none

/-- The text that a call writes for its process. -/
def pidText (pid : Pid) : List Char := Nat.toDigits 10 pid ++ ['\n']

theorem isSpace_of_isDigit {c : Char} (h : c.isDigit = true) : isSpace c = false := by
  simp only [Char.isDigit, ge_iff_le, Bool.and_eq_true, decide_eq_true_eq] at h
  obtain ⟨hlow, hhigh⟩ := h
  have hlow : 48 ≤ c.val.toNat := hlow
  have hhigh : c.val.toNat ≤ 57 := hhigh
  simp only [isSpace, Bool.or_eq_false_iff, Bool.and_eq_false_iff, decide_eq_false_iff_not,
    UInt32.le_iff_toNat_le, ← UInt32.toNat_inj]
  simp only [UInt32.reduceToNat]
  omega

theorem dropWhile_space_digits {text : List Char} (h : ∀ c ∈ text, c.isDigit = true) :
    text.dropWhile isSpace = text := by
  cases text with
  | nil => rfl
  | cons c rest =>
    have hc : isSpace c = false := isSpace_of_isDigit (h c (by simp))
    simp [hc]

theorem trim_pidText (pid : Pid) : trim (pidText pid) = Nat.toDigits 10 pid := by
  have hdigits : ∀ c ∈ Nat.toDigits 10 pid, c.isDigit = true := fun _ => isDigit_toDigits
  have hfront : (pidText pid).dropWhile isSpace = pidText pid := by
    obtain ⟨c, rest, hcons⟩ := List.exists_cons_of_ne_nil (Nat.toDigits_ne_nil (n := pid) (b := 10))
    have hc : isSpace c = false := isSpace_of_isDigit (hdigits c (by simp [hcons]))
    simp [pidText, hcons, hc]
  have hnewline : isSpace '\n' = true := by decide
  have hback : (Nat.toDigits 10 pid).reverse.dropWhile isSpace = (Nat.toDigits 10 pid).reverse :=
    dropWhile_space_digits fun c hc => hdigits c (List.mem_reverse.mp hc)
  rw [trim, hfront, pidText, List.reverse_append]
  simp [hnewline, hback]

/-- A reader of the text that a call wrote learns the process of that call. -/
theorem pidOf_pidText {pid : Pid} (hpid : 0 < pid) : pidOf (pidText pid) = some pid := by
  have hdigits : ∀ c ∈ Nat.toDigits 10 pid, c.isDigit = true := fun _ => isDigit_toDigits
  obtain ⟨c, rest, hcons⟩ := List.exists_cons_of_ne_nil (Nat.toDigits_ne_nil (n := pid) (b := 10))
  have hsign : c ≠ '-' ∧ c ≠ '+' := by
    have hc := hdigits c (by simp [hcons])
    constructor <;> rintro rfl <;> exact absurd hc (by decide)
  have hrun : (Nat.toDigits 10 pid).takeWhile Char.isDigit = Nat.toDigits 10 pid :=
    List.takeWhile_eq_self_iff.mpr hdigits
  have hread : parseInt.digits (Nat.toDigits 10 pid) = some pid := by
    rw [parseInt.digits, hrun]
    simp only [hcons]
    rw [← hcons, Nat.ofDigitChars_ten_toDigits]
  have hparse : parseInt (Nat.toDigits 10 pid) = some (pid : Int) := by
    rw [parseInt, dropWhile_space_digits hdigits]
    rw [hcons] at hread ⊢
    split
    · simp_all
    · simp_all
    · rw [hread]; rfl
  simp [pidOf, trim_pidText, hparse, hpid]

end Text

section Model

/-- A process runs once. -/
inductive Life
  | unborn | running | dead
  deriving DecidableEq

/-- How a file operation ends.  A write can also succeed on a handle whose closing
then fails. -/
inductive Outcome
  | done | failed | closeFailed
  deriving DecidableEq

/-- What a reader of the path found. -/
abbrev Seen := Option (FileId × List Char)

/-- The owner that a lock file names, or nothing when it names none. -/
def ownerOf (seen : Seen) : Option Pid := seen.bind fun file => pidOf file.2

/-- Where a call stands, between two file operations. -/
inductive Point
  | idle
  /-- The creation succeeded, in the first or in the second `claim`. -/
  | writing (again : Bool) (file : FileId)
  /-- The first `claim` returned false. -/
  | reading
  | checking (seen : Seen)
  /-- The owner is gone, or the file names nobody. -/
  | unlinking (seen : Seen)
  /-- Before the second `claim`. -/
  | retrying
  /-- The second `claim` returned false. -/
  | refusing
  | refused (owner : Nat)
  /-- `takeRunLock` returned. -/
  | holding (file : FileId)
  /-- The release was called, and set `released`. -/
  | releasing (file : FileId)
  /-- The release found the lock file to be its own. -/
  | removing (file : FileId)
  | released
  deriving DecidableEq

/-- The file that a call created and has not finished with. -/
def Point.file? : Point → Option FileId
  | .writing _ file | .holding file | .releasing file | .removing file => some file
  | _ => none

structure State where
  life : Pid → Life
  point : Caller → Point
  path : Option FileId
  text : FileId → List Char
  fresh : FileId

/-- Sending the signal 0: an error means that no such process runs, or that it
belongs to another user and runs. -/
def State.isAlive (s : State) (pid : Pid) : Bool := s.life pid = .running

def State.goto (s : State) (c : Caller) (point : Point) : State :=
  { s with point := Function.update s.point c point }

/-- `readFileSync` of the path. -/
def State.read (s : State) : Outcome → Seen
  | .done => s.path.map fun file => (file, s.text file)
  | _ => none

/-- `unlinkSync` of the path. -/
def State.unlink (s : State) : Outcome → State
  | .done => { s with path := none }
  | _ => s

/-- `claim` returned false. -/
def State.claimFailed (s : State) (c : Caller) (again : Bool) : State :=
  s.goto c (if again then .refusing else .reading)

/-- `openSync(path, "wx")` of `claim`. -/
def State.create (s : State) (c : Caller) (again : Bool) (o : Outcome) : State :=
  if s.path = none ∧ o = .done then
    { s with
      point := Function.update s.point c (.writing again s.fresh)
      path := some s.fresh
      text := Function.update s.text s.fresh []
      fresh := s.fresh + 1 }
  else s.claimFailed c again

/-- `writeSync` and `closeSync` of `claim`. -/
def State.write (s : State) (pid : Pid) (c : Caller) (again : Bool) (file : FileId) :
    Outcome → State
  | .done => { s with text := Function.update s.text file (pidText pid) }.goto c (.holding file)
  | .failed => s.claimFailed c again
  | .closeFailed =>
    { s with text := Function.update s.text file (pidText pid) }.claimFailed c again

/-- The next operation of a call. -/
def State.advance (s : State) (pid : Pid) (c : Caller) (o : Outcome) : State :=
  match s.point c with
  | .idle => s.create c false o
  | .writing again file => s.write pid c again file o
  | .reading => s.goto c (.checking (s.read o))
  | .checking seen =>
    match ownerOf seen with
    | some owner => s.goto c (if s.isAlive owner then .refused owner else .unlinking seen)
    | none => s.goto c (.unlinking seen)
  | .unlinking _ => (s.unlink o).goto c .retrying
  | .retrying => s.create c true o
  | .refusing => s.goto c (.refused ((ownerOf (s.read o)).getD 0))
  | .releasing file =>
    s.goto c (if ownerOf (s.read o) = some pid then .removing file else .released)
  | .removing _ => (s.unlink o).goto c .released
  | .refused _ | .holding _ | .released => s

/-- The returned function: only its first call does anything. -/
def State.release (s : State) (c : Caller) : State :=
  match s.point c with
  | .holding file => s.goto c (.releasing file)
  | _ => s

inductive Event
  /-- A call does its next operation. -/
  | step (c : Caller) (o : Outcome)
  | release (c : Caller)
  /-- `withRunLifecycle` of a call removes the witness files. -/
  | sweep (c : Caller)
  | spawn (pid : Pid)
  | die (pid : Pid)

def State.setLife (s : State) (pid : Pid) (life : Life) : State :=
  { s with life := Function.update s.life pid life }

/-- The state after an event.  Only a running process does anything. -/
def Event.apply (pid : Caller → Pid) : Event → State → State
  | .step c o, s => if s.isAlive (pid c) then s.advance (pid c) c o else s
  | .release c, s => if s.isAlive (pid c) then s.release c else s
  | .sweep _, s => s
  | .spawn p, s => if s.life p = .unborn then s.setLife p .running else s
  | .die p, s => if s.life p = .running then s.setLife p .dead else s

/-- No call has begun.  The path may hold a file with any text, left by a process
that died or by anybody else. -/
def Initial (s : State) : Prop :=
  (∀ c, s.point c = .idle) ∧ ∀ file, s.path = some file → file < s.fresh

/-- The lock of one repository, and calls by the processes `pid`. -/
def lock (pid : Caller → Pid) : Machine State Event where
  start := Initial
  apply := Event.apply pid

variable (pid : Caller → Pid)

/-- A live process is between a successful `takeRunLock` and its release. -/
def Holds (s : State) (c : Caller) : Prop :=
  s.life (pid c) = .running ∧ ∃ file, s.point c = .holding file

/-- A live call has created this file and has not finished with it: it is about to
name itself in it, holds the lock, or is about to remove it. -/
def Uses (s : State) (c : Caller) (file : FileId) : Prop :=
  s.life (pid c) = .running ∧ (s.point c).file? = some file

/-- The event takes a lock file for stale and removes it while a live call uses it. -/
def Disturbs (s : State) (e : Event) : Prop :=
  ∃ c seen, e = .step c .done ∧ s.life (pid c) = .running ∧ s.point c = .unlinking seen ∧
    ∃ owner file, Uses pid s owner file ∧ s.path = some file

theorem Holds.uses {s : State} {c : Caller} (h : Holds pid s c) : ∃ file, Uses pid s c file := by
  obtain ⟨hlife, file, hpoint⟩ := h
  exact ⟨file, hlife, by rw [hpoint]; rfl⟩

end Model

section Effects
variable {pid : Caller → Pid}

@[simp] theorem goto_point (s : State) (c : Caller) (p : Point) :
    (s.goto c p).point = Function.update s.point c p := rfl

@[simp] theorem goto_life (s : State) (c : Caller) (p : Point) : (s.goto c p).life = s.life := rfl

@[simp] theorem goto_path (s : State) (c : Caller) (p : Point) : (s.goto c p).path = s.path := rfl

@[simp] theorem goto_text (s : State) (c : Caller) (p : Point) : (s.goto c p).text = s.text := rfl

@[simp] theorem goto_fresh (s : State) (c : Caller) (p : Point) :
    (s.goto c p).fresh = s.fresh := rfl

/-- A point at which a call has no file of its own and has seen none. -/
def Point.Quiet : Point → Prop
  | .reading | .retrying | .refusing | .refused _ | .released => True
  | _ => False

theorem Point.Quiet.file? {p : Point} (h : p.Quiet) : p.file? = none := by
  cases p <;> first | rfl | exact h.elim

/-- What one operation of a call can do. -/
inductive Effect (pid : Pid) (c : Caller) (o : Outcome) (s : State) : State → Prop
  | same : Effect pid c o s s
  | quiet (p : Point) (hp : p.Quiet) : Effect pid c o s (s.goto c p)
  | created (again : Bool) (hpath : s.path = none) : Effect pid c o s
      { s with
        point := Function.update s.point c (.writing again s.fresh)
        path := some s.fresh
        text := Function.update s.text s.fresh []
        fresh := s.fresh + 1 }
  | named (again : Bool) (file : FileId) (h : s.point c = .writing again file) (p : Point)
      (hp : p = .holding file ∨ p.Quiet) : Effect pid c o s
      ({ s with text := Function.update s.text file (pidText pid) }.goto c p)
  | read (h : s.point c = .reading) : Effect pid c o s (s.goto c (.checking (s.read o)))
  | stale (seen : Seen) (h : s.point c = .checking seen)
      (hdead : ∀ owner, ownerOf seen = some owner → s.life owner ≠ .running) :
      Effect pid c o s (s.goto c (.unlinking seen))
  | unlinked (seen : Seen) (h : s.point c = .unlinking seen) (ho : o = .done) :
      Effect pid c o s ({ s with path := none }.goto c .retrying)
  | releasing (file : FileId) (h : s.point c = .holding file) :
      Effect pid c o s (s.goto c (.releasing file))
  | removing (file : FileId) (h : s.point c = .releasing file) :
      Effect pid c o s (s.goto c (.removing file))
  | removed (file : FileId) (h : s.point c = .removing file) :
      Effect pid c o s ({ s with path := none }.goto c .released)

theorem create_effect (pid : Pid) (c : Caller) (o : Outcome) (s : State) (again : Bool) :
    Effect pid c o s (s.create c again o) := by
  unfold State.create
  by_cases h : s.path = none ∧ o = .done
  · rw [if_pos h]
    exact .created again h.1
  · rw [if_neg h]
    exact .quiet _ (by cases again <;> trivial)

theorem write_effect {pid : Pid} {c : Caller} {o : Outcome} {s : State} {again : Bool}
    {file : FileId} (h : s.point c = .writing again file) :
    Effect pid c o s (s.write pid c again file o) := by
  have hquiet : (if again then Point.refusing else Point.reading).Quiet := by
    cases again <;> trivial
  cases o with
  | done => exact .named again file h _ (.inl rfl)
  | failed => exact .quiet _ hquiet
  | closeFailed => exact .named again file h _ (.inr hquiet)

/-- One operation of a call has one of the effects. -/
theorem advance_effect (pid : Pid) (c : Caller) (o : Outcome) (s : State) :
    Effect pid c o s (s.advance pid c o) := by
  unfold State.advance
  cases hpoint : s.point c with
  | idle => exact create_effect pid c o s false
  | writing again file => exact write_effect hpoint
  | reading => exact .read hpoint
  | checking seen =>
    cases hown : ownerOf seen with
    | none => simpa [hown] using Effect.stale seen hpoint (by simp [hown])
    | some owner =>
      by_cases halive : s.life owner = .running
      · simpa [hown, State.isAlive, halive] using Effect.quiet (.refused owner) trivial
      · simpa [hown, State.isAlive, halive] using Effect.stale seen hpoint (by simp [hown, halive])
  | unlinking seen =>
    by_cases ho : o = .done
    · subst ho
      exact .unlinked seen hpoint rfl
    · have hsame : s.unlink o = s := by cases o <;> first | rfl | exact absurd rfl ho
      simpa [hsame] using Effect.quiet .retrying trivial
  | retrying => exact create_effect pid c o s true
  | refusing => exact .quiet _ trivial
  | releasing file =>
    by_cases hown : ownerOf (s.read o) = some pid
    · simpa [hown] using Effect.removing file hpoint
    · simpa [hown] using Effect.quiet .released trivial
  | removing file =>
    by_cases ho : o = .done
    · subst ho
      exact .removed file hpoint
    · have hsame : s.unlink o = s := by cases o <;> first | rfl | exact absurd rfl ho
      simpa [hsame] using Effect.quiet .released trivial
  | refused owner => exact .same
  | holding file => exact .same
  | released => exact .same

theorem release_effect (pid : Pid) (c : Caller) (o : Outcome) (s : State) :
    Effect pid c o s (s.release c) := by
  unfold State.release
  cases hpoint : s.point c <;> first | exact .same | exact .releasing _ hpoint

theorem Effect.life_eq {pid : Pid} {c : Caller} {o : Outcome} {s s' : State}
    (h : Effect pid c o s s') : s'.life = s.life := by
  cases h <;> rfl

/-- The path is left alone, or receives the new file of the call, or is emptied by a
removal. -/
theorem Effect.path_cases {pid : Pid} {c : Caller} {o : Outcome} {s s' : State}
    (h : Effect pid c o s s') :
    (s'.path = s.path ∧ s'.fresh = s.fresh) ∨
      (s.path = none ∧ s'.path = some s.fresh ∧ s'.fresh = s.fresh + 1) ∨
      (s'.path = none ∧ s'.fresh = s.fresh ∧ (s'.point c).file? = none ∧
        ((∃ seen, s.point c = .unlinking seen ∧ o = .done) ∨
          ∃ file, s.point c = .removing file)) := by
  cases h with
  | created again hpath => exact .inr (.inl ⟨hpath, rfl, rfl⟩)
  | unlinked seen hp ho => exact .inr (.inr ⟨rfl, rfl, by simp [Point.file?], .inl ⟨seen, hp, ho⟩⟩)
  | removed file hp => exact .inr (.inr ⟨rfl, rfl, by simp [Point.file?], .inr ⟨file, hp⟩⟩)
  | _ => exact .inl ⟨rfl, rfl⟩

/-- After an operation a call has a file of its own that it had before, or the one
that the operation created. -/
theorem Effect.file_cases {pid : Pid} {c d : Caller} {o : Outcome} {s s' : State} {file : FileId}
    (h : Effect pid c o s s') (hfile : (s'.point d).file? = some file) :
    (s.point d).file? = some file ∨
      (d = c ∧ file = s.fresh ∧ s.path = none ∧ s'.path = some s.fresh ∧
        s'.fresh = s.fresh + 1) := by
  by_cases hd : d = c
  · subst d
    cases h with
    | same => exact .inl hfile
    | quiet p hp => simp [hp.file?] at hfile
    | created again hpath =>
      simp only [Function.update_self, Point.file?, Option.some.injEq] at hfile
      exact .inr ⟨rfl, hfile.symm, hpath, rfl, rfl⟩
    | named again own hpoint p hp =>
      rcases hp with rfl | hquiet
      · left
        simpa [hpoint, Point.file?] using hfile
      · simp [hquiet.file?] at hfile
    | read hpoint => simp [Point.file?] at hfile
    | stale seen hpoint hdead => simp [Point.file?] at hfile
    | unlinked seen hpoint ho => simp [Point.file?] at hfile
    | removed own hpoint => simp [Point.file?] at hfile
    | releasing own hpoint | removing own hpoint =>
      left
      simpa [hpoint, Point.file?] using hfile
  · left
    cases h <;> simpa [Function.update_of_ne hd] using hfile

end Effects

section Invariants
variable {pid : Caller → Pid}

/-- What holds in every state: a file belongs to the call that created it, names
nobody until that call writes, and names the process of that call afterwards. -/
structure Owned (pid : Caller → Pid) (s : State) : Prop where
  path_fresh : ∀ file, s.path = some file → file < s.fresh
  file_fresh : ∀ c file, (s.point c).file? = some file → file < s.fresh
  born : ∀ c file, (s.point c).file? = some file → s.life (pid c) ≠ .unborn
  distinct : ∀ c d file, (s.point c).file? = some file → (s.point d).file? = some file → c = d
  text_eq : ∀ c file, (s.point c).file? = some file →
    s.text file = if ∃ again, s.point c = .writing again file then [] else pidText (pid c)

/-- Every live call that uses a file finds it at the path. -/
def Kept (pid : Caller → Pid) (s : State) : Prop :=
  ∀ c file, Uses pid s c file → s.path = some file

theorem file?_of_initial {s : State} (h : Initial s) (c : Caller) : (s.point c).file? = none := by
  rw [h.1 c]
  rfl

theorem Owned.of_initial {s : State} (h : Initial s) : Owned pid s := by
  have hnone := file?_of_initial h
  refine ⟨h.2, ?_, ?_, ?_, ?_⟩ <;> intro c
  all_goals simp [hnone c]

theorem Kept.of_initial {s : State} (h : Initial s) : Kept pid s := by
  rintro c file ⟨-, hfile⟩
  rw [file?_of_initial h c] at hfile
  cases hfile

theorem Effect.fresh_le {pid : Pid} {c : Caller} {o : Outcome} {s s' : State}
    (he : Effect pid c o s s') : s.fresh ≤ s'.fresh := by
  rcases he.path_cases with ⟨-, h⟩ | ⟨-, -, h⟩ | ⟨-, h, -⟩
  · exact h.ge
  · exact h ▸ Nat.le_succ s.fresh
  · exact h.ge

/-- An operation of one call leaves the points of the others alone. -/
theorem Effect.point_of_ne {pid : Pid} {c d : Caller} {o : Outcome} {s s' : State}
    (he : Effect pid c o s s') (hd : d ≠ c) : s'.point d = s.point d := by
  cases he <;> first | rfl | exact Function.update_of_ne hd _ _

/-- An operation writes to the file that its call is about to name itself in, and
empties the file that it creates. -/
theorem Effect.text_of_ne {pid : Pid} {c : Caller} {o : Outcome} {s s' : State} {file : FileId}
    (he : Effect pid c o s s') (hfresh : file < s.fresh) (hfile : (s.point c).file? ≠ some file) :
    s'.text file = s.text file := by
  cases he with
  | created again hpath => exact Function.update_of_ne (Nat.ne_of_lt hfresh) _ _
  | named again own hpoint p hp =>
    have hne : file ≠ own := by
      rintro rfl
      exact hfile (by rw [hpoint]; rfl)
    exact Function.update_of_ne hne _ _
  | _ => rfl

/-- The text of the own file after an operation. -/
theorem Owned.text_effect {s s' : State} {c : Caller} {o : Outcome} (hs : Owned pid s)
    (he : Effect (pid c) c o s s') {file : FileId} (hfile : (s'.point c).file? = some file) :
    s'.text file = if ∃ again, s'.point c = .writing again file then [] else pidText (pid c) := by
  cases he with
  | same => exact hs.text_eq c file hfile
  | quiet p hp => simp [hp.file?] at hfile
  | created again hpath =>
    simp only [Function.update_self, Point.file?, Option.some.injEq] at hfile
    subst hfile
    simp
  | named again own hpoint p hp =>
    rcases hp with rfl | hquiet
    · simp only [goto_point, Function.update_self, Point.file?, Option.some.injEq] at hfile
      subst hfile
      simp
    · simp [hquiet.file?] at hfile
  | read hpoint => simp [Point.file?] at hfile
  | stale seen hpoint hdead => simp [Point.file?] at hfile
  | unlinked seen hpoint ho => simp [Point.file?] at hfile
  | removed own hpoint => simp [Point.file?] at hfile
  | releasing own hpoint | removing own hpoint =>
    have hown : (s.point c).file? = some file := by
      simpa [hpoint, Point.file?] using hfile
    simpa [hpoint] using hs.text_eq c file hown

theorem Owned.effect {s s' : State} {c : Caller} {o : Outcome} (hs : Owned pid s)
    (hlive : s.life (pid c) = .running) (he : Effect (pid c) c o s s') : Owned pid s' := by
  refine ⟨?_, ?_, ?_, ?_, ?_⟩
  · intro file hfile
    rcases he.path_cases with ⟨hpath, -⟩ | ⟨-, hpath, hnext⟩ | ⟨hpath, -⟩
    · exact lt_of_lt_of_le (hs.path_fresh file (hpath ▸ hfile)) he.fresh_le
    · have hnew : s.fresh = file := Option.some.inj (hpath.symm.trans hfile)
      rw [hnext, ← hnew]
      exact Nat.lt_succ_self s.fresh
    · rw [hpath] at hfile
      cases hfile
  · intro d file hfile
    rcases he.file_cases hfile with h | ⟨-, rfl, -, -, hnext⟩
    · exact lt_of_lt_of_le (hs.file_fresh d file h) he.fresh_le
    · exact hnext ▸ Nat.lt_succ_self s.fresh
  · intro d file hfile
    rw [he.life_eq]
    rcases he.file_cases hfile with h | ⟨rfl, -⟩
    · exact hs.born d file h
    · simp [hlive]
  · intro d e file hd he'
    rcases he.file_cases hd with hd | ⟨rfl, rfl, -⟩
    · rcases he.file_cases he' with he' | ⟨rfl, rfl, -⟩
      · exact hs.distinct d e file hd he'
      · exact absurd (hs.file_fresh d _ hd) (lt_irrefl _)
    · rcases he.file_cases he' with he' | ⟨rfl, -⟩
      · exact absurd (hs.file_fresh e _ he') (lt_irrefl _)
      · rfl
  · intro d file hfile
    by_cases hd : d = c
    · subst d
      exact hs.text_effect he hfile
    · rw [he.point_of_ne hd] at hfile ⊢
      have hother : (s.point c).file? ≠ some file := fun h => hd (hs.distinct d c file hfile h)
      rw [he.text_of_ne (hs.file_fresh d file hfile) hother]
      exact hs.text_eq d file hfile

/-- One operation of a live call keeps the files of the others at the path, unless
it removes as stale a file in use. -/
theorem Kept.effect {s s' : State} {c : Caller} {o : Outcome} (hs : Owned pid s)
    (hk : Kept pid s) (hlive : s.life (pid c) = .running) (he : Effect (pid c) c o s s')
    (hcalm : ∀ seen, s.point c = .unlinking seen → o = .done →
      ∀ owner file, Uses pid s owner file → s.path ≠ some file) : Kept pid s' := by
  rintro d file ⟨hlife, hfile⟩
  rw [he.life_eq] at hlife
  rcases he.file_cases hfile with h | ⟨-, rfl, -, hpath, -⟩
  · have hkept := hk d file ⟨hlife, h⟩
    rcases he.path_cases with ⟨hpath, -⟩ | ⟨hpath, -⟩ | ⟨-, -, hnone, hremoval⟩
    · rw [hpath, hkept]
    · rw [hpath] at hkept
      cases hkept
    · -- a release removes its own file, so that no other call uses the one removed
      rcases hremoval with ⟨seen, hpoint, ho⟩ | ⟨own, hpoint⟩
      · exact absurd hkept (hcalm seen hpoint ho d file ⟨hlife, h⟩)
      · have hown : (s.point c).file? = some own := by rw [hpoint]; rfl
        have hsame : some own = some file := (hk c own ⟨hlive, hown⟩).symm.trans hkept
        have hdc : d = c := hs.distinct d c file h (hown.trans hsame)
        rw [hdc, hnone] at hfile
        cases hfile
  · exact hpath

theorem Owned.setLife {s : State} {p : Pid} {life : Life} (hs : Owned pid s)
    (hlife : life ≠ .unborn) : Owned pid (s.setLife p life) := by
  refine ⟨hs.path_fresh, hs.file_fresh, ?_, hs.distinct, hs.text_eq⟩
  intro c file hfile
  by_cases hc : pid c = p
  · simp [State.setLife, hc, hlife]
  · simpa [State.setLife, hc] using hs.born c file hfile

theorem Kept.setLife {s : State} {p : Pid} {life : Life} (hs : Owned pid s) (hk : Kept pid s)
    (hlife : s.life p = .unborn ∨ life = .dead) : Kept pid (s.setLife p life) := by
  rintro c file ⟨hrun, hfile⟩
  refine hk c file ⟨?_, hfile⟩
  by_cases hc : pid c = p
  · rcases hlife with hunborn | rfl
    · exact absurd (hc ▸ hunborn) (hs.born c file hfile)
    · simp [State.setLife, hc] at hrun
  · simpa [State.setLife, hc] using hrun

/-- An event is an operation of a live call, a change of one process, or nothing. -/
theorem apply_cases (e : Event) (s : State) :
    (∃ c o, s.life (pid c) = .running ∧ Effect (pid c) c o s (e.apply pid s) ∧
      (e = .step c o ∨ (∀ seen, s.point c = .unlinking seen → o ≠ .done))) ∨
    (∃ p life, life ≠ .unborn ∧ (s.life p = .unborn ∨ life = .dead) ∧ s.life p ≠ .dead ∧
      e.apply pid s = s.setLife p life) ∨
    e.apply pid s = s := by
  cases e with
  | step c o =>
    by_cases hlive : s.life (pid c) = .running
    · left
      refine ⟨c, o, hlive, ?_, .inl rfl⟩
      simpa [Event.apply, State.isAlive, hlive] using advance_effect (pid c) c o s
    · right; right
      simp [Event.apply, State.isAlive, hlive]
  | release c =>
    by_cases hlive : s.life (pid c) = .running
    · left
      refine ⟨c, .failed, hlive, ?_, .inr ?_⟩
      · simpa [Event.apply, State.isAlive, hlive] using release_effect (pid c) c .failed s
      · simp
    · right; right
      simp [Event.apply, State.isAlive, hlive]
  | sweep c => exact .inr (.inr rfl)
  | spawn p =>
    by_cases hp : s.life p = .unborn
    · right; left
      exact ⟨p, .running, by simp, .inl hp, by simp [hp], by simp [Event.apply, hp]⟩
    · right; right
      simp [Event.apply, hp]
  | die p =>
    by_cases hp : s.life p = .running
    · right; left
      exact ⟨p, .dead, by simp, .inr rfl, by simp [hp], by simp [Event.apply, hp]⟩
    · right; right
      simp [Event.apply, hp]

theorem Owned.apply {s : State} (hs : Owned pid s) (e : Event) : Owned pid (e.apply pid s) := by
  rcases apply_cases e s with ⟨c, o, hlive, he, -⟩ | ⟨p, life, hlife, -, -, h⟩ | h
  · exact hs.effect hlive he
  · rw [h]
    exact hs.setLife hlife
  · rw [h]
    exact hs

theorem Kept.apply {s : State} (hs : Owned pid s) (hk : Kept pid s) {e : Event}
    (hcalm : ¬ Disturbs pid s e) : Kept pid (e.apply pid s) := by
  rcases apply_cases e s with ⟨c, o, hlive, he, hevent⟩ | ⟨p, life, -, hlife, -, h⟩ | h
  · refine Kept.effect hs hk hlive he ?_
    intro seen hpoint ho owner file huse hpath
    rcases hevent with rfl | hnot
    · exact hcalm ⟨c, seen, by rw [ho], hlive, hpoint, owner, file, huse, hpath⟩
    · exact hnot seen hpoint ho
  · rw [h]
    exact Kept.setLife hs hk hlife
  · rw [h]
    exact hk

theorem Run.owned (run : Run (lock pid)) (t : Nat) : Owned pid (run.state t) :=
  run.invariant (fun _ => Owned.of_initial) (fun e _ hs => hs.apply e) t

/-- What a call read before it took the lock for stale. -/
def Point.seen? : Point → Seen
  | .checking seen | .unlinking seen => seen
  | _ => none

/-- What a recovering call has read of a file that is in use: nothing, when it read
before the owner named itself, and otherwise the name of that owner, which a removal
then follows only after the owner died. -/
structure Recovering (pid : Caller → Pid) (s : State) : Prop where
  seen_fresh : ∀ r file text, (s.point r).seen? = some (file, text) → file < s.fresh
  seen_text : ∀ r file text, (s.point r).seen? = some (file, text) →
    ∀ c, (s.point c).file? = some file → text = [] ∨ text = pidText (pid c)
  dead : ∀ r file text, s.point r = .unlinking (some (file, text)) →
    ∀ c, (s.point c).file? = some file → text = pidText (pid c) → s.life (pid c) = .dead

theorem Recovering.of_initial {s : State} (h : Initial s) : Recovering pid s := by
  refine ⟨?_, ?_, ?_⟩ <;> intro r
  all_goals simp [h.1 r, Point.seen?]

/-- A call has seen a file before an operation, or reads it at the path. -/
theorem Effect.seen_cases {pid : Pid} {c r : Caller} {o : Outcome} {s s' : State} {file : FileId}
    {text : List Char} (he : Effect pid c o s s') (h : (s'.point r).seen? = some (file, text)) :
    (s.point r).seen? = some (file, text) ∨ (s.path = some file ∧ text = s.text file ∧ s' = s.goto c
      (.checking (some (file, text)))) := by
  by_cases hr : r = c
  · subst r
    cases he with
    | same => exact .inl h
    | quiet p hp => cases p <;> simp [Point.seen?] at h <;> exact hp.elim
    | created again hpath => simp [Point.seen?] at h
    | named again own hpoint p hp =>
      rcases hp with rfl | hp
      · simp [Point.seen?] at h
      · cases p <;> simp [Point.seen?] at h <;> exact hp.elim
    | read hpoint =>
      right
      have hread : s.read o = some (file, text) := by simpa [Point.seen?] using h
      have hdone : o = .done := by
        cases o <;> first | rfl | simp [State.read] at hread
      subst hdone
      simp only [State.read, Option.map_eq_some_iff, Prod.mk.injEq] at hread
      obtain ⟨found, hpath, rfl, htext⟩ := hread
      exact ⟨hpath, htext.symm, by simp [State.read, hpath, htext]⟩
    | stale seen hpoint hdead =>
      left
      simpa [Point.seen?, hpoint] using h
    | unlinked seen hpoint ho => simp [Point.seen?] at h
    | removed own hpoint => simp [Point.seen?] at h
    | releasing own hpoint | removing own hpoint => simp [Point.seen?] at h
  · left
    rwa [he.point_of_ne hr] at h

/-- A call that takes a lock for stale took it for stale before, or its owner does
not run. -/
theorem Effect.unlinking_cases {pid : Pid} {c r : Caller} {o : Outcome} {s s' : State}
    {seen : Seen} (he : Effect pid c o s s') (h : s'.point r = .unlinking seen) :
    s.point r = .unlinking seen ∨ (s.point r = .checking seen ∧
      ∀ owner, ownerOf seen = some owner → s.life owner ≠ .running) := by
  by_cases hr : r = c
  · subst r
    cases he with
    | same => exact .inl h
    | quiet p hp =>
      simp only [goto_point, Function.update_self] at h
      subst h
      exact hp.elim
    | named again own hpoint p hp =>
      simp only [goto_point, Function.update_self] at h
      subst h
      rcases hp with hp | hp
      · cases hp
      · exact hp.elim
    | stale seen' hpoint hdead =>
      simp only [goto_point, Function.update_self, Point.unlinking.injEq] at h
      subst h
      exact .inr ⟨hpoint, hdead⟩
    | _ => simp at h
  · left
    rwa [he.point_of_ne hr] at h

theorem Recovering.effect {s s' : State} {c : Caller} {o : Outcome} (hpid : ∀ c, 0 < pid c)
    (hs : Owned pid s) (hr : Recovering pid s) (he : Effect (pid c) c o s s') :
    Recovering pid s' := by
  -- only a new file gets an owner, and no process has seen it yet
  have hold : ∀ {file d}, file < s.fresh → (s'.point d).file? = some file →
      (s.point d).file? = some file := by
    intro file d hlt hfile
    rcases he.file_cases hfile with h | ⟨-, rfl, -⟩
    · exact h
    · exact absurd hlt (lt_irrefl _)
  have hseen : ∀ r file text, (s'.point r).seen? = some (file, text) → file < s.fresh := by
    intro r file text h
    rcases he.seen_cases h with h | ⟨hpath, -⟩
    · exact hr.seen_fresh r file text h
    · exact hs.path_fresh file hpath
  refine ⟨?_, ?_, ?_⟩
  · intro r file text h
    exact lt_of_lt_of_le (hseen r file text h) he.fresh_le
  · intro r file text h d hd
    have hd := hold (hseen r file text h) hd
    rcases he.seen_cases h with h | ⟨-, rfl, -⟩
    · exact hr.seen_text r file text h d hd
    · rw [hs.text_eq d file hd]
      split
      · exact .inl rfl
      · exact .inr rfl
  · intro r file text h d hd htext
    have hd := hold (hseen r file text (by rw [h]; rfl)) hd
    rw [he.life_eq]
    rcases he.unlinking_cases h with h | ⟨-, hdead⟩
    · exact hr.dead r file text h d hd htext
    · -- the check found the process that the file names not running
      have hname : ownerOf (some (file, text)) = some (pid d) := by
        simp [ownerOf, htext, pidOf_pidText (hpid d)]
      have hborn := hs.born d file hd
      have hrun := hdead _ hname
      cases hlife : s.life (pid d) <;> simp_all

theorem Recovering.setLife {s : State} {p : Pid} {life : Life} (hr : Recovering pid s)
    (hp : s.life p ≠ .dead) : Recovering pid (s.setLife p life) := by
  refine ⟨hr.seen_fresh, hr.seen_text, ?_⟩
  intro r file text h c hc htext
  have hdead := hr.dead r file text h c hc htext
  have hne : pid c ≠ p := fun heq => hp (heq ▸ hdead)
  simpa [State.setLife, hne] using hdead

theorem Recovering.apply {s : State} (hpid : ∀ c, 0 < pid c) (hs : Owned pid s)
    (hr : Recovering pid s) (e : Event) : Recovering pid (e.apply pid s) := by
  rcases apply_cases e s with ⟨c, o, -, he, -⟩ | ⟨p, life, -, -, hp, h⟩ | h
  · exact hr.effect hpid hs he
  · rw [h]
    exact hr.setLife hp
  · rw [h]
    exact hr

theorem Run.recovering (hpid : ∀ c, 0 < pid c) (run : Run (lock pid)) (t : Nat) :
    Recovering pid (run.state t) :=
  (run.invariant (P := fun s => Owned pid s ∧ Recovering pid s)
    (fun _ h => ⟨Owned.of_initial h, Recovering.of_initial h⟩)
    (fun e _ h => ⟨h.1.apply e, h.2.apply hpid h.1 e⟩) t).2

end Invariants

section Exclusion
variable {pid : Caller → Pid}

/-- The two defects behind every removal of a live lock.  The removing call read the
file before its owner had named itself in it, or the file came to the path after the
read (or the read failed). -/
theorem removal_disturbs (hpid : ∀ c, 0 < pid c) (run : Run (lock pid)) (t : Nat) {r : Caller}
    {seen : Seen} (hpoint : (run.state t).point r = .unlinking seen) {owner : Caller}
    {file : FileId} (huse : Uses pid (run.state t) owner file) :
    seen = some (file, []) ∨ ∀ text, seen ≠ some (file, text) := by
  have hr := Run.recovering hpid run t
  by_cases hread : ∃ text, seen = some (file, text)
  · obtain ⟨text, rfl⟩ := hread
    left
    rcases hr.seen_text r file text (by rw [hpoint]; rfl) owner huse.2 with rfl | htext
    · rfl
    · have hdead := hr.dead r file text hpoint owner huse.2 htext
      rw [huse.1] at hdead
      cases hdead
  · right
    rintro text rfl
    exact hread ⟨text, rfl⟩

/-- **Mutual exclusion.**  Up to an instant at which no removal has taken the lock
file of a live call, at most one call of a live process is between a successful
`takeRunLock` and its release, and a run that sweeps is that one. -/
theorem exclusive_of_undisturbed (run : Run (lock pid)) (t : Nat)
    (hcalm : ∀ u < t, ¬ Disturbs pid (run.state u) (run.event u)) :
    (∀ c d, Holds pid (run.state t) c → Holds pid (run.state t) d → c = d) ∧
    ∀ c, run.event t = .sweep c → Holds pid (run.state t) c →
      ∀ d, Holds pid (run.state t) d → d = c := by
  have hkept : Kept pid (run.state t) := by
    refine run.invariant_upto (P := Kept pid) (fun _ => Kept.of_initial) t ?_
    intro u hu hk
    exact Kept.apply (Run.owned run u) hk (hcalm u hu)
  have hone : ∀ c d, Holds pid (run.state t) c → Holds pid (run.state t) d → c = d := by
    intro c d hc hd
    obtain ⟨f, hf⟩ := hc.uses
    obtain ⟨g, hg⟩ := hd.uses
    have hsame : some f = some g := (hkept c f hf).symm.trans (hkept d g hg)
    cases hsame
    exact (Run.owned run t).distinct c d f hf.2 hg.2
  refine ⟨hone, ?_⟩
  intro c _ hc d hd
  exact hone d c hd hc

/-- A call whose process is the only live one disturbs nobody. -/
theorem not_disturbs_of_alone {s : State} {e : Event}
    (halone : ∀ c d, s.life (pid c) = .running → s.life (pid d) = .running → c = d) :
    ¬ Disturbs pid s e := by
  rintro ⟨c, seen, -, hlive, hpoint, owner, file, ⟨howner, hfile⟩, -⟩
  have hsame : owner = c := halone owner c howner hlive
  rw [hsame, hpoint] at hfile
  cases hfile

theorem step_life (c : Caller) (o : Outcome) (s : State) :
    ((Event.step c o).apply pid s).life = s.life := by
  by_cases hlive : s.life (pid c) = .running
  · simpa [Event.apply, State.isAlive, hlive] using (advance_effect (pid c) c o s).life_eq
  · simp [Event.apply, State.isAlive, hlive]

/-- A run that finds the lock of a dead process, takes it over, and sweeps. -/
def recovery : Run (lock (· + 1)) where
  first :=
    { life := fun p => if p = 1 then .running else .dead
      point := fun _ => .idle
      path := some 0
      text := fun _ => pidText 9
      fresh := 1 }
  first_start := ⟨fun _ => rfl, by simp⟩
  event := fun t => if t < 6 then .step 0 .done else .sweep 0

theorem recovery_life (t : Nat) : (recovery.state t).life = recovery.first.life := by
  refine recovery.stable (P := fun s => s.life = recovery.first.life) ?_ (Nat.zero_le t) rfl
  intro u hu
  rw [← hu]
  change ((if u < 6 then Event.step 0 .done else .sweep 0).apply (· + 1) (recovery.state u)).life = _
  split
  · exact step_life 0 .done _
  · rfl

theorem recovery_exclusive :
    Holds (· + 1) (recovery.state 6) 0 ∧
    ∀ d, Holds (· + 1) (recovery.state 6) d → d = 0 := by
  have hholds : Holds (· + 1) (recovery.state 6) 0 := by
    refine ⟨?_, 1, rfl⟩
    rw [recovery_life]
    rfl
  refine ⟨hholds, ?_⟩
  refine (exclusive_of_undisturbed recovery 6 ?_).2 0 rfl hholds
  intro u _
  refine not_disturbs_of_alone ?_
  intro c d hc hd
  rw [recovery_life] at hc hd
  have hc : c = 0 := by simpa [recovery] using hc
  have hd : d = 0 := by simpa [recovery] using hd
  rw [hc, hd]

/-- Two runs on a repository without a lock file.  The second finds the file that the
first has created and not yet named itself in. -/
def overlap : Run (lock (· + 1)) where
  first :=
    { life := fun _ => .running
      point := fun _ => .idle
      path := none
      text := fun _ => []
      fresh := 0 }
  first_start := ⟨fun _ => rfl, by simp⟩
  event := fun t =>
    if t = 0 ∨ t = 7 then .step 0 .done else if t < 7 then .step 1 .done else .sweep 1

/-- Two live processes hold the lock, and one sweeps the files of the other. -/
theorem overlap_not_exclusive :
    ¬ ∀ (pid : Caller → Pid), (∀ c, 0 < pid c) → ∀ (run : Run (lock pid)) (t : Nat),
      (∀ c d, Holds pid (run.state t) c → Holds pid (run.state t) d → pid c = pid d) ∧
      ∀ c, run.event t = .sweep c → Holds pid (run.state t) c →
        ∀ d, Holds pid (run.state t) d → pid d = pid c := by
  intro h
  have hfirst : Holds (· + 1) (overlap.state 8) 0 := ⟨rfl, 0, rfl⟩
  have hsecond : Holds (· + 1) (overlap.state 8) 1 := ⟨rfl, 1, rfl⟩
  have hsame := (h (· + 1) (fun c => Nat.succ_pos c) overlap 8).2 1 rfl hsecond 0 hfirst
  simp at hsame

end Exclusion
end RunLock
end ZkPoR
