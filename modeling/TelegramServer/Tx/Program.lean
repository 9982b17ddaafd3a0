import Mathlib.Data.Set.Basic

/-!
# Transaction programs under READ COMMITTED

A transaction body is a tree of SQL statements. Each statement sees the
database as committed at that moment, with the transaction's own writes on
top; the locks it takes are held to the end. Writes are kept as a redo list
and reach the committed database when the transaction commits, so nothing an
open transaction wrote is visible to another one.

Nothing here depends on what the tables are: database states `DB`, lock names
`L`, row writes `O`, sequences `S` and errors `E` are parameters.
-/

namespace Tx

/-- Body of a transaction that returns an `A`. A statement names the locks it
takes, the rows it writes and how the transaction goes on, all as functions of
the view it runs on. `draw` is a sequence's `nextval`. -/
inductive Prog (DB L O S E A : Type) : Type where
  | ret (a : A)
  | fail (e : E)
  | stmt (need : DB → List L) (write : DB → List O) (next : DB → Prog DB L O S E A)
  | draw (seq : S) (next : Int → Prog DB L O S E A)

inductive Finish (A : Type) : Type where
  | commit (a : A)
  | rollback (a : A)
  deriving DecidableEq

def Finish.value {A : Type} : Finish A → A
  | .commit a => a
  | .rollback a => a

namespace Prog

variable {DB L O S E A B C : Type}

def bind : Prog DB L O S E A → (A → Prog DB L O S E B) → Prog DB L O S E B
  | ret a, f => f a
  | fail e, _ => fail e
  | stmt need write next, f => stmt need write fun v => (next v).bind f
  | draw seq next, f => draw seq fun n => (next n).bind f

instance : Monad (Prog DB L O S E) where
  pure := ret
  bind := bind

def nextval (seq : S) : Prog DB L O S E Int :=
  draw seq ret

def lock (l : L) : Prog DB L O S E Unit :=
  stmt (fun _ => [l]) (fun _ => []) fun _ => ret ()

def query (q : DB → A) : Prog DB L O S E A :=
  stmt (fun _ => []) (fun _ => []) fun v => ret (q v)

/-- A `SELECT ... FOR UPDATE`: the locks are those of the rows it finds. -/
def queryForUpdate (need : DB → List L) (q : DB → A) : Prog DB L O S E A :=
  stmt need (fun _ => []) fun v => ret (q v)

def exec (o : O) (q : DB → A) : Prog DB L O S E A :=
  stmt (fun _ => []) (fun _ => [o]) fun v => ret (q v)

def exec_ (o : O) : Prog DB L O S E Unit :=
  exec o fun _ => ()

def lockAll : List L → Prog DB L O S E Unit
  | [] => pure ()
  | l :: ls => do
      lock l
      lockAll ls

def orFail (e : E) : Option A → Prog DB L O S E A
  | some a => pure a
  | none => fail e

end Prog

/-- What the statements act on: how a row write changes the database, which lock a
number drawn from a sequence stands for, when that number is new to the database,
the one that a sequence gives while nothing else is going on, and which locks two
transactions cannot hold at a time. -/
structure Rows (DB L O S : Type) where
  apply : O → DB → DB
  drawn : S → Int → L
  unused : L → DB → Prop
  pick : S → DB → Int
  conflicts : L → L → Prop := fun l l' => l = l'
  conflicts_symm : ∀ l l', conflicts l l' → conflicts l' l := by exact fun _ _ h => h.symm

namespace Rows

variable {DB L O S : Type} (R : Rows DB L O S)

def replay (os : List O) (d : DB) : DB :=
  os.foldl (fun d o => R.apply o d) d

@[simp] theorem replay_nil (d : DB) : R.replay [] d = d := rfl

@[simp] theorem replay_cons (o : O) (os : List O) (d : DB) :
    R.replay (o :: os) d = R.replay os (R.apply o d) := rfl

theorem replay_append (os os' : List O) (d : DB) :
    R.replay (os ++ os') d = R.replay os' (R.replay os d) :=
  List.foldl_append

variable {R} {P : DB → Prop} {os : List O} {d : DB}

theorem replay_invariant (h : P d) (hstep : ∀ o ∈ os, ∀ d, P d → P (R.apply o d)) :
    P (R.replay os d) :=
  List.foldlRecOn os _ h fun d hd o ho => hstep o ho d hd

/-- What no write of the list changes is the same behind it. -/
theorem replay_frame {α : Type} {f : DB → α} (h : ∀ o ∈ os, ∀ d, f (R.apply o d) = f d) (d : DB) :
    f (R.replay os d) = f d :=
  replay_invariant (P := fun w => f w = f d) rfl fun o ho w hw => (h o ho w).trans hw

end Rows

variable {DB L O S E A T : Type}

/-- One open transaction: the call it serves, what is left of its body, the
locks it holds and its redo list. -/
structure Session (DB L O S E A T : Type) where
  call : T
  body : Prog DB L O S E (Finish A)
  held : List L
  redo : List O

/-- How a call came to its end. -/
inductive Outcome (A E : Type) : Type where
  | done (r : Finish A)
  | failed (e : E)
  | aborted
  deriving DecidableEq

def Outcome.answer {A E : Type} : Outcome A E → Option A
  | .done r => some r.value
  | .failed _ => none
  | .aborted => none

/-- One finished call, with the committed database before and after it. -/
structure Record (DB A E T : Type) where
  call : T
  pre : DB
  outcome : Outcome A E
  post : DB

/-- The committed database, the open transactions by session number, and the
finished calls in the order in which they ended. -/
structure Config (DB L O S E A T : Type) where
  db : DB
  open_ : Nat → Option (Session DB L O S E A T)
  log : List (Record DB A E T)

def Config.start (d : DB) : Config DB L O S E A T :=
  ⟨d, fun _ => none, []⟩

def Config.Free (c : Config DB L O S E A T) (R : Rows DB L O S) (i : Nat) (l : L) : Prop :=
  ∀ j s, j ≠ i → c.open_ j = some s → ∀ l' ∈ s.held, ¬ R.conflicts l l'

def Config.setSession (c : Config DB L O S E A T) (i : Nat) (s : Session DB L O S E A T) :
    Config DB L O S E A T :=
  { c with open_ := Function.update c.open_ i (some s) }

/-- Session `i` ends with the outcome `o`, leaving the database `d`. -/
def Config.close (c : Config DB L O S E A T) (i : Nat) (t : T) (o : Outcome A E) (d : DB) :
    Config DB L O S E A T :=
  ⟨d, Function.update c.open_ i none, c.log ++ [⟨t, c.db, o, d⟩]⟩

/-- One step of the interleaving. A statement runs once every lock it needs is
free of the other sessions; until then its session cannot move. -/
inductive Step (R : Rows DB L O S) (code : T → Prog DB L O S E (Finish A)) :
    Config DB L O S E A T → Config DB L O S E A T → Prop where
  | begin (c : Config DB L O S E A T) (i : Nat) (t : T) (hi : c.open_ i = none) :
      Step R code c (c.setSession i ⟨t, code t, [], []⟩)
  | stmt (c : Config DB L O S E A T) (i : Nat) (t : T) (held : List L) (redo : List O)
      (need : DB → List L) (write : DB → List O) (next : DB → Prog DB L O S E (Finish A))
      (hi : c.open_ i = some ⟨t, .stmt need write next, held, redo⟩)
      (hfree : ∀ l ∈ need (R.replay redo c.db), c.Free R i l) :
      Step R code c (c.setSession i
        ⟨t, next (R.replay redo c.db), need (R.replay redo c.db) ++ held,
          redo ++ write (R.replay redo c.db)⟩)
  | draw (c : Config DB L O S E A T) (i : Nat) (t : T) (held : List L) (redo : List O)
      (seq : S) (next : Int → Prog DB L O S E (Finish A)) (n : Int)
      (hi : c.open_ i = some ⟨t, .draw seq next, held, redo⟩)
      (hpos : 0 < n) (hnew : R.unused (R.drawn seq n) c.db) (hown : R.drawn seq n ∉ held)
      (hfree : c.Free R i (R.drawn seq n)) :
      Step R code c (c.setSession i ⟨t, next n, R.drawn seq n :: held, redo⟩)
  | commit (c : Config DB L O S E A T) (i : Nat) (t : T) (held : List L) (redo : List O) (a : A)
      (hi : c.open_ i = some ⟨t, .ret (.commit a), held, redo⟩) :
      Step R code c (c.close i t (.done (.commit a)) (R.replay redo c.db))
  | rollback (c : Config DB L O S E A T) (i : Nat) (t : T) (held : List L) (redo : List O) (a : A)
      (hi : c.open_ i = some ⟨t, .ret (.rollback a), held, redo⟩) :
      Step R code c (c.close i t (.done (.rollback a)) c.db)
  | fail (c : Config DB L O S E A T) (i : Nat) (t : T) (held : List L) (redo : List O) (e : E)
      (hi : c.open_ i = some ⟨t, .fail e, held, redo⟩) :
      Step R code c (c.close i t (.failed e) c.db)
  | abort (c : Config DB L O S E A T) (i : Nat) (s : Session DB L O S E A T)
      (hi : c.open_ i = some s) :
      Step R code c (c.close i s.call .aborted c.db)

/-- The configurations that some interleaving reaches from the database `d₀`. -/
inductive Reachable (R : Rows DB L O S) (code : T → Prog DB L O S E (Finish A)) (d₀ : DB) :
    Config DB L O S E A T → Prop where
  | start : Reachable R code d₀ (Config.start d₀)
  | step {c c' : Config DB L O S E A T} (h : Reachable R code d₀ c) (hs : Step R code c c') :
      Reachable R code d₀ c'

/-- What a body does when no other transaction is open: its end and the view it
leaves. -/
def Prog.alone (R : Rows DB L O S) : Prog DB L O S E A → DB → Except E A × DB
  | .ret a, d => (.ok a, d)
  | .fail e, d => (.error e, d)
  | .stmt _ write next, d => (next d).alone R (R.replay (write d) d)
  | .draw seq next, d => (next (R.pick seq d)).alone R d

end Tx
