import Mathlib.Logic.Relation
import Mathlib.Tactic.Common

/-!
# Programs of critical sections

A task is a tree of critical sections on a shared state `S`. Between two of its
sections its environment may move, so what a task knows about the state must
survive the environment. Sections carry a label `L`, the environment's moves a
label `M`, and `I` is what a task is told from outside.
-/

namespace Conc

/-- A task that returns an `A`. A section updates the state at once and goes on with
what it read; `halt` is a task that never moves again. -/
inductive Prog (S L I A : Type) : Type where
  | ret (a : A)
  | halt
  | step (l : L) (run : S → S) (next : S → Prog S L I A)
  | input (next : I → Prog S L I A)

namespace Prog

variable {S L I A B : Type}

def bind : Prog S L I A → (A → Prog S L I B) → Prog S L I B
  | ret a, f => f a
  | halt, _ => halt
  | step l run next, f => step l run fun s => (next s).bind f
  | input next, f => input fun i => (next i).bind f

instance : Monad (Prog S L I) where
  pure := ret
  bind := bind

def atomic (l : L) (f : S → A × S) : Prog S L I A :=
  step l (fun s => (f s).2) fun s => ret (f s).1

def read (l : L) (f : S → A) : Prog S L I A :=
  atomic l fun s => (f s, s)

def told : Prog S L I I :=
  input ret

end Prog

/-- What the task returns, and the state it leaves, when nothing else moves and `i` is all it is
ever told. -/
def Prog.solo {S L I A : Type} (i : I) : Prog S L I A → S → Option (A × S)
  | ret a, s => some (a, s)
  | halt, _ => none
  | step _ run next, s => (next s).solo i (run s)
  | input next, s => (next i).solo i s

variable {S L I A B : Type} (i : I) (s : S)

@[simp] theorem Prog.solo_pure (a : A) : (pure a : Prog S L I A).solo i s = some (a, s) := rfl

@[simp] theorem Prog.solo_bind (p : Prog S L I A) (f : A → Prog S L I B) :
    (p >>= f).solo i s = (p.solo i s).bind fun x => (f x.1).solo i x.2 := by
  change (p.bind f).solo i s = _
  induction p generalizing s with
  | ret | halt => rfl
  | step l run next ih => exact ih s (run s)
  | input next ih => exact ih i s

@[simp] theorem Prog.solo_atomic (l : L) (f : S → A × S) :
    (Prog.atomic l f : Prog S L I A).solo i s = some (f s) := rfl

@[simp] theorem Prog.solo_read (l : L) (f : S → A) :
    (Prog.read l f : Prog S L I A).solo i s = some (f s, s) := rfl

@[simp] theorem Prog.solo_told : (Prog.told : Prog S L I I).solo i s = some (i, s) := rfl

end Conc
