import TelegramServer.Conc.Crew
import TelegramServer.Tx.Table
import Mathlib.Algebra.Order.Ring.Int
import Mathlib.Data.List.Nodup

/-!
# Secret chats in the database

The key exchanges, the encrypted events of each recipient, and the statements on them. A
transaction shows what it has written when it commits, so its writes and its commit are one
operation. Times are microseconds.
-/

namespace TelegramServer.Secret

open Conc Tx.Table

abbrev Bytes := List UInt8

structure RPCError where
  code : Nat
  type : String
  deriving DecidableEq

inductive ChatState where
  | requested
  | active
  | discarded
  deriving DecidableEq

structure SecretChat where
  id : Int
  adminID : Int
  participantID : Int
  state : ChatState := .requested
  gAHash : Bytes := []
  gA : Bytes := []
  gAOrB : Option Bytes := none
  keyFingerprint : Option Int := none
  randomID : Int := 0
  date : Int := 0
  deriving DecidableEq

def SecretChat.party (c : SecretChat) (userID : Int) : Bool :=
  userID = c.adminID ∨ userID = c.participantID

def SecretChat.other (c : SecretChat) (userID : Int) : Int :=
  if userID = c.adminID then c.participantID else c.adminID

structure EncryptedEvent where
  ownerID : Int
  qts : Int
  chatID : Int
  randomID : Int
  bytes : Bytes
  date : Int
  deriving DecidableEq

structure EncryptedSend where
  recipientID : Int
  chatID : Int
  randomID : Int
  data : Bytes

structure UpdateState where
  userID : Int
  qts : Int := 0
  date : Int := 0
  deriving DecidableEq

inductive EncryptedChat where
  | waiting (id accessHash date adminID participantID : Int)
  | requested (id accessHash date adminID participantID : Int) (gA : Bytes)
  | chat (id accessHash date adminID participantID : Int) (gAOrB : Bytes) (keyFingerprint : Int)
  | discarded (id : Int)
  deriving DecidableEq

structure UpdateEncryption where
  chat : EncryptedChat
  date : Int
  deriving DecidableEq

/-- A client that catches up: the date it has, and what it has been told. -/
structure Client where
  date : Int := 0
  told : List UpdateEncryption := []
  deriving DecidableEq

/-- The tables, the sequence, the advisory locks with the calls that hold them, and a client.
`stored` has every event that was ever stored, with the call that stored it, `dates` every date
that a row of `update_state` was given, and `notified` the users that were told of a chat. -/
structure World where
  now : Int := 0
  users : List Int := []
  chats : List SecretChat := []
  nextChatID : Int := 1
  events : List EncryptedEvent := []
  updateStates : List UpdateState := []
  locks : List (Int × Nat) := []
  client : Client := {}
  stored : List (EncryptedEvent × Nat) := []
  dates : List (Int × Int) := []
  notifyFails : Bool := false
  notified : List (Int × Int) := []
  deriving DecidableEq

def maxOutstandingSecretChats : Nat := 10

def maxInt32 : Int := 2 ^ 31 - 1

def unix (date : Int) : Int := date / 1000000

namespace World

variable (s : World)

def chatByID (id : Int) : Option SecretChat :=
  s.chats.find? (·.id = id)

def requestedBy (adminID : Int) : List SecretChat :=
  s.chats.filter fun c => c.adminID = adminID ∧ c.state = .requested

def chatByAdminRandomID (adminID randomID : Int) : Option SecretChat :=
  (s.requestedBy adminID).find? fun c => c.randomID = randomID ∧ c.randomID ≠ 0

def eventByRandomID (ownerID randomID : Int) : Option EncryptedEvent :=
  s.events.find? fun e => e.ownerID = ownerID ∧ e.randomID = randomID

def updateState (userID : Int) : Option UpdateState :=
  s.updateStates.find? (·.userID = userID)

def locked (key : Int) : Bool :=
  s.locks.any (·.1 = key)

/-- `InsertEncryptedEvent`: the row, unless the recipient has no state or the key is taken. -/
def newEvent (p : EncryptedSend) (date : Int) : Option EncryptedEvent :=
  if (s.eventByRandomID p.recipientID p.randomID).isSome then none
  else (s.updateState p.recipientID).map fun u =>
    ⟨p.recipientID, u.qts + 1, p.chatID, p.randomID, p.data, date⟩

def chatsAfterDate (userID date : Int) : List SecretChat :=
  s.chats.filter fun c => c.party userID ∧ date * 1000000 < c.date

end World

/-- One statement, or the writes of a transaction with its commit. -/
inductive Op where
  | userByID (id : Int)
  /-- The transaction starts, which is its `now()`. -/
  | begins
  | lock (key : Int)
  | rollback (key : Int)
  | chatByAdminRandomID (adminID randomID : Int)
  | countRequested (adminID : Int)
  | nextChatID
  | insertChat (c : SecretChat)
  | chatByID (id : Int)
  | acceptChat (id participantID : Int) (gB : Bytes) (keyFingerprint date : Int)
  | discardChat (id date : Int)
  | notifyEncryption (userID chatID : Int)
  | eventByRandomID (p : EncryptedSend)
  | insertEvent (p : EncryptedSend) (date : Int)
  | commitEvent (e : EncryptedEvent)
  | notifyEncryptedMsg (userID qts : Int)
  | getQts (userID : Int)
  | deleteEvents (ownerID maxQts : Int)
  | bumpState (userIDs : List Int) (date : Int)
  | ask
  | getState (userID : Int)
  | chatsAfterDate (userID date : Int)
  | deliver (date : Int) (updates : List UpdateEncryption)

/-- The primary key and the index on the requests of an admin refuse the row. -/
def World.conflicts (s : World) (c : SecretChat) : Bool :=
  (s.chatByID c.id).isSome ∨ (s.chatByAdminRandomID c.adminID c.randomID).isSome

def SecretChat.accept (id participantID : Int) (gB : Bytes) (keyFingerprint date : Int)
    (c : SecretChat) : SecretChat :=
  if c.id = id ∧ c.participantID = participantID ∧ c.state = .requested then
    { c with state := .active, gAOrB := some gB, keyFingerprint := some keyFingerprint, date }
  else c

def SecretChat.discard (id date : Int) (c : SecretChat) : SecretChat :=
  if c.id = id ∧ (c.state = .requested ∨ c.state = .active) then
    { c with state := .discarded, date }
  else c

namespace World

variable (s : World)

def unlock (key : Int) (me : Nat) : World :=
  { s with locks := s.locks.filter (· ≠ (key, me)) }

def storeEvent (e : EncryptedEvent) (me : Nat) : World :=
  { s with
    events := s.events ++ [e]
    updateStates := updateWhere (·.userID = e.ownerID)
      (fun u => { u with qts := u.qts + 1, date := e.date }) s.updateStates
    stored := s.stored ++ [(e, me)]
    dates := s.dates ++ [(e.ownerID, e.date)] }.unlock e.ownerID me

/-- The rows of `update_state` that a message transaction moves. -/
def bumpState (userIDs : List Int) (date : Int) : World :=
  { s with
    updateStates := updateWhere (·.userID ∈ userIDs) (fun u => { u with date }) s.updateStates
    dates := s.dates ++ userIDs.map (·, date) }

end World

/-- What the operation does for the call `me`. -/
def Op.apply (me : Nat) : Op → World → World
  | .lock key, s => if s.locked key then s else { s with locks := s.locks ++ [(key, me)] }
  | .rollback key, s => s.unlock key me
  | .nextChatID, s => { s with nextChatID := s.nextChatID + 1 }
  | .insertChat c, s =>
    if s.conflicts c then s.unlock c.adminID me
    else { s with chats := s.chats ++ [c] }.unlock c.adminID me
  | .acceptChat id participantID gB keyFingerprint date, s =>
    { s with chats := s.chats.map (·.accept id participantID gB keyFingerprint date) }
  | .discardChat id date, s => { s with chats := s.chats.map (·.discard id date) }
  | .notifyEncryption userID chatID, s =>
    -- The error is logged and the call goes on.
    { s with notified := s.notified ++ if s.notifyFails then [] else [(userID, chatID)] }
  | .commitEvent e, s => s.storeEvent e me
  | .deleteEvents ownerID maxQts, s =>
    { s with events := s.events.filter fun e => ¬ (e.ownerID = ownerID ∧ e.qts ≤ maxQts) }
  | .bumpState userIDs date, s => s.bumpState userIDs date
  | .deliver date updates, s =>
    { s with client := { s.client with date, told := s.client.told ++ updates } }
  | _, s => s

def World.ensureUpdateState (s : World) (userID : Int) : World :=
  if (s.updateState userID).isSome then s
  else
    { s with
      updateStates := s.updateStates ++ [⟨userID, 0, s.now⟩]
      dates := s.dates ++ [(userID, s.now)] }

/-- What happens beside the calls: time goes on, a user gets a row of `update_state`, and `NOTIFY`
stops working or works again. -/
inductive Outside where
  | tick (now : Int)
  | ensureUpdateState (userID : Int)
  | notify (fails : Bool)

def outside (s : World) : Outside → Option World
  | .tick now => if s.now ≤ now then some { s with now } else none
  | .ensureUpdateState userID => some (s.ensureUpdateState userID)
  | .notify fails => some { s with notifyFails := fails }

end TelegramServer.Secret
