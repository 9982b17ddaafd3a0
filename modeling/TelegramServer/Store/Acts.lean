import TelegramServer.Store.Locks
import TelegramServer.Tx.Numbered

/-!
# What a transaction does to a log

The writes of a committed transaction come in groups: a message is posted with
its row, its event and its dialog; an edit or a deletion of a row comes with its
event; a read marker is announced by an event. An `Act` is one such group, and
what a transaction did is the list of its acts.
-/

namespace TelegramServer.Store

open Tx Tx.Table List
open Message (isAt frozen)

/-- The owner's pts; 0 before the owner has a state row. -/
def DB.ptsOf (d : DB) (user : Int) : Int :=
  ((d.getState user).map (·.pts)).getD 0

/-- The next local id the owner's messages get; 1 before the owner has a state row. -/
def DB.nextOf (d : DB) (user : Int) : Int :=
  ((d.getState user).map (·.nextLocalID)).getD 1

inductive Act where
  | ensure (user now : Int)
  | post (m : Message) (unread now : Int)
  | edit (owner localID : Int) (text : String) (now : Int)
  | delete (owner localID now : Int)
  /-- The event that announces a read marker. -/
  | mark (owner : Int) (type : EventType) (marker now : Int)
  /-- A write outside the message log. -/
  | side (o : Write)

variable {as : List Act} {d : DB} {P : DB → Prop} {a : Act}

/-- The redo list of an act, begun on `d`. -/
def Act.writes (d : DB) : Act → List Write
  | .ensure user now => [.ensureUpdateState user now]
  | .post m unread now =>
    [.bumpState m.ownerID now, .insertMessage m,
      .insertEvent ⟨m.ownerID, d.ptsOf m.ownerID + 1, .newMessage, m.localID⟩,
      .upsertDialog m.ownerID m.peerType m.peerID m.localID unread]
  | .edit owner localID text now =>
    [.setEditedText owner localID text now, .bumpPtsOnly owner now,
      .insertEvent ⟨owner, d.ptsOf owner + 1, .edit, localID⟩]
  | .delete owner localID now =>
    [.setDeleted owner localID, .bumpPtsOnly owner now,
      .insertEvent ⟨owner, d.ptsOf owner + 1, .delete, localID⟩]
  | .mark owner type marker now =>
    [.bumpPtsOnly owner now, .insertEvent ⟨owner, d.ptsOf owner + 1, type, marker⟩]
  | .side o => [o]

def Act.apply (a : Act) (d : DB) : DB :=
  locking.replay (a.writes d) d

def runActs (as : List Act) (d : DB) : DB :=
  as.foldl (fun d a => a.apply d) d

@[simp] theorem runActs_nil (d : DB) : runActs [] d = d := rfl

@[simp] theorem runActs_cons (a : Act) (as : List Act) (d : DB) :
    runActs (a :: as) d = runActs as (a.apply d) := rfl

theorem runActs_append (as bs : List Act) (d : DB) :
    runActs (as ++ bs) d = runActs bs (runActs as d) :=
  foldl_append

theorem runActs_invariant (h : P d)
    (hstep : ∀ a ∈ as, ∀ d, P d → P (a.apply d)) : P (runActs as d) :=
  List.foldlRecOn as _ h fun d hd a ha => hstep a ha d hd

theorem runActs_frame {α : Type} {f : DB → α}
    (h : ∀ a ∈ as, ∀ d, f (a.apply d) = f d) (d : DB) : f (runActs as d) = f d :=
  runActs_invariant (P := fun w => f w = f d) rfl fun a ha w hw => (h a ha w).trans hw

def Act.owner : Act → Option Int
  | .ensure user _ => some user
  | .post m _ _ => some m.ownerID
  | .edit owner _ _ _ => some owner
  | .delete owner _ _ => some owner
  | .mark owner _ _ _ => some owner
  | .side o => if o.chat = none then o.owner else none

def Act.newMessages : Act → List Message
  | .post m _ _ => [m]
  | _ => []

def Act.announces : Act → Option Int
  | .post m _ _ => some m.ownerID
  | .edit owner _ _ _ => some owner
  | .delete owner _ _ => some owner
  | .mark owner _ _ _ => some owner
  | _ => none

def Act.adds : Act → Bool
  | .ensure _ _ => true
  | .post _ _ _ => true
  | _ => false

def Write.isSide : Write → Bool
  | .ensureUpdateState _ _ => false
  | .bumpState _ _ => false
  | .bumpPtsOnly _ _ => false
  | .insertMessage _ => false
  | .insertEvent _ => false
  | .setEditedText _ _ _ _ => false
  | .setDeleted _ _ => false
  | .upsertDialog _ _ _ _ _ => false
  | _ => true

theorem Write.isSide.log_unchanged {o : Write} (h : o.isSide) (d : DB) :
    (o.apply d).updateStates = d.updateStates ∧ (o.apply d).messages = d.messages ∧
      (o.apply d).events = d.events := by
  cases o <;> first | exact ⟨rfl, rfl, rfl⟩ | exact absurd h Bool.false_ne_true

def Message.kindOk (m : Message) : Prop :=
  (m.peerType = .user ∧ m.fanoutID = 0 ∧ m.action = .none) ∨
    (m.peerType = .chat ∧ 0 < m.fanoutID ∧ m.peerLocalID = 0)

structure PostOk (d : DB) (m : Message) : Prop where
  state : (d.getState m.ownerID).isSome
  next : m.localID = d.nextOf m.ownerID
  live : m.deleted = false
  kind : m.kindOk
  chat : m.peerType = .chat → d.hasChat m.peerID
  randomID : m.randomID ≠ 0 → ∀ m' ∈ d.messages, m'.ownerID = m.ownerID → m'.randomID ≠ m.randomID
  fanoutID : m.fanoutID ≠ 0 → ∀ m' ∈ d.messages, m'.fanoutID = m.fanoutID →
    m'.ownerID ≠ m.ownerID ∧ m'.peerID = m.peerID

def Message.unread (m : Message) : Int := if m.out then 0 else 1

def Act.Ok (d : DB) : Act → Prop
  | .ensure _ _ => True
  | .post m unread _ => PostOk d m ∧ unread = m.unread
  | .edit owner localID _ _ =>
    (d.getState owner).isSome ∧ ∃ m ∈ d.messages, isAt owner localID m
  | .delete owner localID _ =>
    (d.getState owner).isSome ∧ ∃ m ∈ d.messages, isAt owner localID m
  | .mark owner type _ _ => (d.getState owner).isSome ∧ (type = .readIn ∨ type = .readOut)
  | .side (.insertChat c members) => members.Nodup ∧ ∀ p ∈ d.participants, p.chatID ≠ c.id
  | .side o => o.isSide

def ActsOk : List Act → DB → Prop
  | [], _ => True
  | a :: as, d => a.Ok d ∧ ActsOk as (a.apply d)

theorem ActsOk.invariant (hok : ActsOk as d) (h : P d)
    (hstep : ∀ a ∈ as, ∀ d, a.Ok d → P d → P (a.apply d)) : P (runActs as d) := by
  induction as generalizing d with
  | nil => exact h
  | cons a as ih =>
    exact ih hok.2 (hstep a (by simp) d hok.1 h) fun a' ha' => hstep a' (by simp [ha'])

def announced (as : List Act) : List Int :=
  as.filterMap Act.announces

@[simp] theorem announced_append (as bs : List Act) :
    announced (as ++ bs) = announced as ++ announced bs := by
  simp [announced]

def newRows (as : List Act) : List Message :=
  as.flatMap Act.newMessages

@[simp] theorem newRows_append (as bs : List Act) :
    newRows (as ++ bs) = newRows as ++ newRows bs := by
  simp [newRows]

theorem newRows_eq_nil (h : ∀ a ∈ as, a.newMessages = []) : newRows as = [] :=
  flatMap_eq_nil_iff.mpr h

theorem frozen_messages_replay (os : List Write) (d : DB) :
    (locking.replay os d).messages.map frozen =
      d.messages.map frozen ++ (os.flatMap Write.newMessages).map frozen := by
  induction os generalizing d with
  | nil => simp
  | cons o os ih =>
    rw [Rows.replay_cons, ih, flatMap_cons, map_append, ← append_assoc]
    congr 1
    exact frozen_messages_apply o d

theorem Act.Ok.newMessages_writes (h : a.Ok d) :
    (a.writes d).flatMap Write.newMessages = a.newMessages := by
  cases a with
  | side o => cases o <;> first | rfl | exact absurd h Bool.false_ne_true
  | _ => rfl

theorem ActsOk.frozen_messages (h : ActsOk as d) :
    (runActs as d).messages.map frozen = d.messages.map frozen ++ (newRows as).map frozen := by
  induction as generalizing d with
  | nil => simp [newRows]
  | cons a as ih =>
    rw [runActs_cons, ih h.2, Act.apply, frozen_messages_replay, h.1.newMessages_writes]
    simp [newRows]

theorem ActsOk.mem_messages (h : ActsOk as d) {m : Message} (hm : m ∈ (runActs as d).messages) :
    (∃ m' ∈ d.messages, m'.frozen = m.frozen) ∨ ∃ m' ∈ newRows as, m'.frozen = m.frozen := by
  have : m.frozen ∈ (runActs as d).messages.map frozen := mem_map_of_mem hm
  rw [h.frozen_messages, mem_append, mem_map, mem_map] at this
  exact this

/-- The event that an act appends: whose log it is in, its kind and the id it names. -/
def Act.event : Act → Option (Int × EventType × Int)
  | .post m _ _ => some (m.ownerID, .newMessage, m.localID)
  | .edit owner localID _ _ => some (owner, .edit, localID)
  | .delete owner localID _ => some (owner, .delete, localID)
  | .mark owner type marker _ => some (owner, type, marker)
  | _ => none

def Event.entry (e : Event) : Int × EventType × Int :=
  (e.ownerID, e.type, e.localID)

theorem Act.Ok.events (h : a.Ok d) :
    ∃ new, (a.apply d).events = d.events ++ new ∧ new.map Event.entry = a.event.toList := by
  cases a with
  | ensure => exact ⟨[], (append_nil _).symm, rfl⟩
  | side o =>
    refine ⟨[], ?_, rfl⟩
    cases o <;> first | exact (append_nil _).symm | exact absurd h Bool.false_ne_true
  | _ => exact ⟨[_], rfl, rfl⟩

theorem ActsOk.events (h : ActsOk as d) :
    ∃ new, (runActs as d).events = d.events ++ new ∧
      new.map Event.entry = as.filterMap Act.event := by
  induction as generalizing d with
  | nil => exact ⟨[], (append_nil _).symm, rfl⟩
  | cons a as ih =>
    obtain ⟨one, hone, hentry⟩ := h.1.events
    obtain ⟨new, hnew, hentries⟩ := ih h.2
    refine ⟨one ++ new, ?_, ?_⟩
    · rw [runActs_cons, hnew, hone, append_assoc]
    · rw [map_append, hentry, hentries]
      cases ha : a.event <;> simp [ha]

theorem grows_runActs (as : List Act) (d : DB) : Grows d (runActs as d) := by
  induction as generalizing d with
  | nil => exact Grows.refl d
  | cons a as ih => exact (locking.grows_replay (a.writes d) d).trans (ih _)

theorem actsOk_append {bs : List Act} :
    ActsOk (as ++ bs) d ↔ ActsOk as d ∧ ActsOk bs (runActs as d) := by
  induction as generalizing d with
  | nil => simp [ActsOk]
  | cons a as ih => simp [ActsOk, ih, and_assoc]

end TelegramServer.Store
