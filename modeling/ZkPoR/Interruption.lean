import Mathlib.Logic.Relation

/-! # Programs that can be stopped

A program is a tree of operations on a store, and each operation gives an answer or
throws.  A program can be stopped in front of any of its operations, and what counts
then is the store that it leaves.  A run keeps a log of its operations, the last one first.

`Keeps C Q p log s` says that `p`, started on `s`, meets `C` wherever it stands, and `Q`
when it ends.  The condition `C` sees the log and the operation that comes next, so that a
store in the middle of a change can be told from one that is at rest, and from one that a
failed change left.  Programs are put together with `after`, which sees both ways in which a
program ends.
-/
namespace Interruption

/-- Operations, their answers, and what they do to a store. -/
structure Interface (ε : Type) where
  Op : Type
  Answer : Op → Type
  Store : Type
  does : (o : Op) → Store → Except ε (Answer o) → Store → Prop

inductive Prog {ε : Type} (I : Interface ε) (α : Type)
  | done (result : Except ε α)
  | op (o : I.Op) (next : Except ε (I.Answer o) → Prog I α)

namespace Prog
variable {ε : Type} {I : Interface ε} {α β : Type}

/-- Goes on from either end of a program. -/
def after : Prog I α → (Except ε α → Prog I β) → Prog I β
  | done result, f => f result
  | op o next, f => op o fun answer => (next answer).after f

/-- Goes on from the value of a program. -/
def onValue (f : α → Prog I β) : Except ε α → Prog I β
  | .ok a => f a
  | .error e => done (.error e)

instance : Monad (Prog I) where
  pure a := done (.ok a)
  bind p f := p.after (onValue f)

def perform (o : I.Op) : Prog I (I.Answer o) := op o done

def throw (e : ε) : Prog I α := done (.error e)

def ofExcept (x : Except ε α) : Prog I α := done x

/-- `catch`. -/
def handle (p : Prog I α) (f : ε → Prog I α) : Prog I α :=
  p.after fun
    | .ok a => done (.ok a)
    | .error e => f e

/-- `finally`: the last part runs in both cases, and what it throws comes first. -/
def finish (p : Prog I α) (last : Prog I Unit) : Prog I α :=
  p.after fun result => last.after (onValue fun _ => done result)

/-- The operation that the program stands in front of. -/
def nextOp : Prog I α → Option I.Op
  | done _ => none
  | op o _ => some o

/-! ## Runs -/

/-- What an operation of a run answered, and the store that it left. -/
structure Event {ε : Type} (I : Interface ε) where
  op : I.Op
  answer : Except ε (I.Answer op)
  store : I.Store

/-- Where a run stands: the rest of the program, the store, and the log. -/
structure Config (I : Interface ε) (α : Type) where
  rest : Prog I α
  store : I.Store
  log : List (Event I)

/-- One operation of a program. -/
inductive Step : Config I α → Config I α → Prop
  | op {o : I.Op} {next : Except ε (I.Answer o) → Prog I α} {s s' : I.Store}
      {answer : Except ε (I.Answer o)} {log : List (Event I)} (h : I.does o s answer s') :
      Step ⟨Prog.op o next, s, log⟩ ⟨next answer, s', ⟨o, answer, s'⟩ :: log⟩

/-- Where a program can stand, and what it did until then. -/
def Reaches (p : Prog I α) (s : I.Store) (c : Config I α) : Prop :=
  Relation.ReflTransGen Step ⟨p, s, []⟩ c

/-- The program can come to stand at a point with the property. -/
def CanReach (p : Prog I α) (s : I.Store) (log : List (Event I)) (P : Config I α → Prop) : Prop :=
  ∃ c, Relation.ReflTransGen Step ⟨p, s, log⟩ c ∧ P c

theorem CanReach.here {p : Prog I α} {s : I.Store} {log : List (Event I)} {P : Config I α → Prop}
    (h : P ⟨p, s, log⟩) : CanReach p s log P := ⟨_, .refl, h⟩

/-- One more operation at the front. -/
theorem CanReach.op {o : I.Op} {next : Except ε (I.Answer o) → Prog I α} {s s' : I.Store}
    {answer : Except ε (I.Answer o)} {log : List (Event I)} {P : Config I α → Prop}
    (hdoes : I.does o s answer s') (h : CanReach (next answer) s' (⟨o, answer, s'⟩ :: log) P) :
    CanReach (Prog.op o next) s log P := by
  obtain ⟨c, hreach, hP⟩ := h
  exact ⟨c, .head (.op hdoes) hreach, hP⟩

/-- A program that ended stays where it is. -/
theorem Reaches.eq_of_done {result : Except ε α} {s : I.Store} {c : Config I α}
    (h : Reaches (done result) s c) : c = ⟨done result, s, []⟩ := by
  unfold Reaches at h
  induction h with
  | refl => rfl
  | tail _ hstep ih =>
    rw [ih] at hstep
    cases hstep

/-! ## What holds wherever a program stands -/

variable {C : List (Event I) → Option I.Op → I.Store → Prop}
  {Q : Except ε α → List (Event I) → I.Store → Prop}
  {Q' : Except ε β → List (Event I) → I.Store → Prop}

def Keeps (C : List (Event I) → Option I.Op → I.Store → Prop)
    (Q : Except ε α → List (Event I) → I.Store → Prop) :
    Prog I α → List (Event I) → I.Store → Prop
  | done result, log, s => C log none s ∧ Q result log s
  | op o next, log, s =>
    C log (some o) s ∧
      ∀ answer s', I.does o s answer s' → Keeps C Q (next answer) (⟨o, answer, s'⟩ :: log) s'

theorem Keeps.here {p : Prog I α} {log : List (Event I)} {s : I.Store} (h : Keeps C Q p log s) :
    C log p.nextOp s := by
  cases p with
  | done result => exact h.1
  | op o next => exact h.1

/-- **Sequencing.**  The second program starts where the first ended. -/
theorem Keeps.after {p : Prog I α} {f : Except ε α → Prog I β} {log : List (Event I)} {s : I.Store}
    (h : Keeps C Q p log s)
    (hf : ∀ result log' s', C log' none s' → Q result log' s' → Keeps C Q' (f result) log' s') :
    Keeps C Q' (p.after f) log s := by
  induction p generalizing log s with
  | done result => exact hf _ _ _ h.1 h.2
  | op o next ih =>
    refine ⟨h.1, ?_⟩
    intro answer s' hdoes
    exact ih answer (h.2 answer s' hdoes)

theorem Keeps.bind {p : Prog I α} {f : α → Prog I β} {log : List (Event I)} {s : I.Store}
    (h : Keeps C Q p log s)
    (herror : ∀ e log' s', Q (.error e) log' s' → Q' (.error e) log' s')
    (hf : ∀ a log' s', C log' none s' → Q (.ok a) log' s' → Keeps C Q' (f a) log' s') :
    Keeps C Q' (p >>= f) log s := by
  refine Keeps.after h ?_
  intro result log' s' hrest hresult
  cases result with
  | ok a => exact hf a log' s' hrest hresult
  | error e => exact ⟨hrest, herror e log' s' hresult⟩

/-- **Soundness**, by induction on the run: the condition holds wherever the program
stands. -/
theorem Keeps.of_reaches {p : Prog I α} {s : I.Store} {c : Config I α} (h : Keeps C Q p [] s)
    (hreach : Reaches p s c) : Keeps C Q c.rest c.log c.store := by
  unfold Reaches at hreach
  induction hreach with
  | refl => exact h
  | tail _ hstep ih =>
    cases hstep with
    | op hdoes => exact ih.2 _ _ hdoes

end Prog
end Interruption
