import Mathlib.Data.List.Dedup
import TelegramServer.Store.Locks

/-!
# Message transactions

`SendMessage`, `EditMessage`, `DeleteMessages` and `ReadHistory`, statement by
statement in the order the store issues them, and the statements that all of the
store's transactions share. `now` is the start time of the transaction. Database
failures other than a missing row are not modelled here: a transaction may abort at
any statement.
-/

namespace TelegramServer.Store

open Tx

inductive StoreErr where
  | messageInvalid
  | notMember
  | chatFull
  | chatWriteForbidden
  | chatAdminRequired
  | chatAdminTargetCreator
  | chatTargetNotMember
  | fileMissing
  | ptsUnknown
  | invalidBlock
  | pollInvalid
  | pollDenied
  | pollClosed
  | pollVoteNotAllowed
  | pollIDRetryLimit
  | overCap
  /-- A statement that has to return a row returned none. -/
  | noRows
  deriving DecidableEq

abbrev Body (A : Type) := Prog DB Lock Write Seq StoreErr A

/-- Sorted ascending, without duplicates: the order every lock helper takes its locks in. -/
def ascendingUnique (ids : List Int) : List Int :=
  (ids.insertionSort (· ≤ ·)).dedup

@[simp] theorem mem_ascendingUnique {ids : List Int} {u : Int} :
    u ∈ ascendingUnique ids ↔ u ∈ ids := by
  simp [ascendingUnique]

theorem ascendingUnique_pairwise (ids : List Int) : (ascendingUnique ids).Pairwise (· < ·) := by
  have hle : (ascendingUnique ids).Pairwise (· ≤ ·) :=
    (ids.pairwise_insertionSort (· ≤ ·)).sublist (List.dedup_sublist _)
  exact (hle.and (List.nodup_dedup _)).imp fun h => lt_of_le_of_ne h.1 h.2

def lockOwners (ids : List Int) : Body Unit :=
  .lockAll ((ascendingUnique ids).map .owner)

def lockFileForReference (id : Int) : Body (Option File) :=
  .queryForUpdate (fun d => if (d.fileByID id).isSome then [.file id] else []) (·.fileByID id)

def lockFiles : List Int → Body Unit
  | [] => pure ()
  | id :: ids => do
      let file ← lockFileForReference id
      let _ ← .orFail .fileMissing file
      lockFiles ids

def lockFileRefs (ids : List Int) : Body Unit :=
  lockFiles (ascendingUnique (ids.filter (· ≠ 0)))

def ensureUpdateState (now user : Int) : Body Unit :=
  .exec_ (.ensureUpdateState user now)

/-- Allocates the next local id and advances pts; returns the new pts and the local id. -/
def bumpState (now user : Int) : Body (Int × Int) := do
  let s ← .exec (.bumpState user now) (·.getState user)
  let s ← .orFail .noRows s
  pure (s.pts + 1, s.nextLocalID)

def bumpPtsOnly (now user : Int) : Body Int := do
  let s ← .exec (.bumpPtsOnly user now) (·.getState user)
  let s ← .orFail .noRows s
  pure (s.pts + 1)

def insertMessage (m : Message) : Body Unit :=
  .exec_ (.insertMessage m)

def insertEvent (owner pts : Int) (type : EventType) (localID : Int) : Body Unit :=
  .exec_ (.insertEvent { ownerID := owner, pts, type, localID })

def upsertDialog (owner : Int) (peerType : PeerType) (peer top unread : Int) : Body Unit :=
  .exec_ (.upsertDialog owner peerType peer top unread)

def newMessagePts (owner localID : Int) : Body Int := do
  let pts ← .query (·.newMessagePts owner localID)
  .orFail .ptsUnknown pts

/-- The caller's earlier message with this dedup token, if the token is set. -/
def dedupRow (owner randomID : Int) : Body (Option Message) :=
  if randomID ≠ 0 then .query (·.messageByRandomID owner randomID) else pure none

def messageOrFail (e : StoreErr) (owner localID : Int) : Body Message := do
  let m ← .query (·.messageByOwnerLocal owner localID)
  .orFail e m

/-- How many rows `SetDeleted` changes. -/
def DB.undeleted (d : DB) (owner localID : Int) : Nat :=
  (d.messages.filter fun m => Message.isAt owner localID m && !m.deleted).length

/-- The poll that the cleanup trigger locks and unlinks; the foreign key says that it is there. -/
def DB.cleanedPoll (d : DB) (owner localID : Int) : Option Int :=
  if d.undeleted owner localID = 0 then none
  else (d.pollCopy owner localID).filter d.hasPoll

def pollMessageCopyCleanup (owner localID : Int) : Option Int → List Write
  | none => []
  | some poll => [.unlinkPoll owner localID poll, .deleteUnlinkedPoll poll]

/-- Marks a message deleted and reports how many rows changed. The cleanup trigger runs in the
same statement. -/
def setDeleted (owner localID : Int) : Body Nat :=
  .stmt (fun d => ((d.cleanedPoll owner localID).map Lock.poll).toList)
    (fun d => pollMessageCopyCleanup owner localID (d.cleanedPoll owner localID) ++
      [.setDeleted owner localID])
    fun d => .ret (d.undeleted owner localID)

def chatByIDForUpdate (id : Int) : Body (Option Chat) :=
  .queryForUpdate (fun d => if d.hasChat id then [.chat id] else []) (·.chatByID id)

def pollByIDForUpdate (id : Int) : Body (Option Poll) :=
  .queryForUpdate (fun d => if d.hasPoll id then [.poll id] else []) (·.pollByID id)

def ptsOf (perOwner : Owned) (owner : Int) : Option Int :=
  (perOwner.find? (·.1 = owner)).map (·.2)

def setPts (perOwner : Owned) (owner pts : Int) : Owned :=
  (owner, pts) :: perOwner.filter (·.1 ≠ owner)

structure SendParams where
  fromID : Int
  toID : Int
  text : String
  randomID : Int
  fileID : Int
  replyToMsgID : Int
  deriving DecidableEq

structure Sent where
  message : Message
  senderPts : Int
  recipientPts : Int
  dup : Bool
  deriving DecidableEq

/-- The recipient's pts for the stored counterpart of a deduped 1:1 send. A row of
another destination has no counterpart here, and the current pts is reported. -/
def mirrorPts (existing : Message) (toID : Int) : Body Int :=
  if existing.peerType = .user ∧ existing.ownerID = toID ∧ existing.peerID = toID then
    newMessagePts existing.ownerID existing.localID
  else if existing.peerType ≠ .user ∨ existing.peerID ≠ toID ∨ existing.peerLocalID = 0 then do
    let s ← .query (·.getState toID)
    let s ← .orFail .noRows s
    pure s.pts
  else newMessagePts toID existing.peerLocalID

/-- The column for a reply id: `int32` of it, or none. -/
def storedReply (replyToMsgID : Int) : Int :=
  if 0 < replyToMsgID then int32 replyToMsgID else 0

def SendParams.outRow (p : SendParams) (now peerLocalID localID : Int) : Message where
  ownerID := p.fromID
  localID := localID
  peerType := .user
  peerID := p.toID
  fromID := p.fromID
  date := now
  text := p.text
  out := true
  randomID := p.randomID
  peerLocalID := peerLocalID
  fileID := p.fileID
  replyToMsgID := storedReply p.replyToMsgID

def SendParams.inRow (p : SendParams) (now replyTo peerLocalID localID : Int) : Message where
  ownerID := p.toID
  localID := localID
  peerType := .user
  peerID := p.fromID
  fromID := p.fromID
  date := now
  text := p.text
  out := false
  peerLocalID := peerLocalID
  fileID := p.fileID
  replyToMsgID := replyTo

def sendSelf (now : Int) (p : SendParams) : Body (Finish Sent) := do
  let b ← bumpState now p.fromID
  insertMessage (p.outRow now 0 b.2)
  insertEvent p.fromID b.1 .newMessage b.2
  upsertDialog p.fromID .user p.fromID b.2 0
  let stored ← messageOrFail .noRows p.fromID b.2
  pure (.commit ⟨stored, b.1, b.1, false⟩)

/-- The recipient's id of the message being replied to: the mirror of the sender's. -/
def mirrorReply (p : SendParams) : Body Int :=
  if 0 < p.replyToMsgID then do
    let ref ← .query (·.messageByOwnerLocal p.fromID p.replyToMsgID)
    pure ((ref.map (int32 ·.peerLocalID)).getD 0)
  else pure 0

/-- Sender outbox copy, with the dedup token, and recipient inbox copy. -/
def sendPair (now : Int) (p : SendParams) : Body (Finish Sent) := do
  let sb ← bumpState now p.fromID
  let rb ← bumpState now p.toID
  insertMessage (p.outRow now rb.2 sb.2)
  let replyTo ← mirrorReply p
  insertMessage (p.inRow now replyTo sb.2 rb.2)
  insertEvent p.fromID sb.1 .newMessage sb.2
  insertEvent p.toID rb.1 .newMessage rb.2
  upsertDialog p.fromID .user p.toID sb.2 0
  upsertDialog p.toID .user p.fromID rb.2 1
  let stored ← messageOrFail .noRows p.fromID sb.2
  pure (.commit ⟨stored, sb.1, rb.1, false⟩)

/-- Both sides of a 1:1 message in one transaction. A repeated random id returns the
original at the pts its copies occupy, and the transaction is rolled back. -/
def sendMessage (now : Int) (p : SendParams) : Body (Finish Sent) := do
  lockOwners [p.fromID, p.toID]
  lockFileRefs [p.fileID]
  ensureUpdateState now p.fromID
  ensureUpdateState now p.toID
  let existing ← dedupRow p.fromID p.randomID
  match existing with
  | some m => do
      let sPts ← newMessagePts p.fromID m.localID
      let rPts ← mirrorPts m p.toID
      pure (.rollback ⟨m, sPts, rPts, true⟩)
  | none => if p.fromID = p.toID then sendSelf now p else sendPair now p

def chatCopies (pre : Message) : Body (List Message) :=
  if pre.fanoutID = 0 then .fail .messageInvalid
  else do
    let copies ← .query (·.messagesByFanout pre.fanoutID)
    if copies = [] then .fail .messageInvalid else pure copies

def chatMembers (chat : Int) : Body (List Int) :=
  .query fun d => (d.chatParticipants chat).map (·.userID)

/-- New text, pts bump and edit event for one owner's copy; returns the new pts. -/
def editCopy (now : Int) (text : String) (owner localID : Int) : Body Int := do
  .exec_ (.setEditedText owner localID text now)
  let pts ← bumpPtsOnly now owner
  insertEvent owner pts .edit localID
  pure pts

/-- The edit reaches the copies whose owners are still in the chat; returns the
author's new pts, 0 until it is known. -/
def editCopies (now : Int) (text : String) (author : Int) (members : List Int) :
    List Message → Int → Body Int
  | [], pts => pure pts
  | c :: cs, pts =>
    if c.ownerID ∈ members then do
      let p ← editCopy now text c.ownerID c.localID
      editCopies now text author members cs (if c.ownerID = author then p else pts)
    else editCopies now text author members cs pts

def editChatMessage (now : Int) (pre : Message) (text : String) : Body Int := do
  let copies ← chatCopies pre
  -- Service messages are server-authored: nobody rewrites them.
  if pre.action ≠ .none then .fail .messageInvalid
  else do
    lockOwners (copies.map (·.ownerID))
    let msg ← messageOrFail .messageInvalid pre.ownerID pre.localID
    if !msg.out || msg.deleted then .fail .messageInvalid
    else do
      let members ← chatMembers pre.peerID
      if pre.ownerID ∉ members then .fail .messageInvalid
      else editCopies now text pre.ownerID members copies 0

/-- Edits the caller's own outgoing message and its mirror, or every member's copy of a
chat message. Returns the peer id and the editor's new pts. -/
def editMessage (now owner localID : Int) (text : String) : Body (Finish (Int × Int)) := do
  let pre ← messageOrFail .messageInvalid owner localID
  if pre.peerType = .chat then do
    let pts ← editChatMessage now pre text
    pure (.commit (pre.peerID, pts))
  else do
    lockOwners [owner, pre.peerID]
    let msg ← messageOrFail .messageInvalid owner localID
    if !msg.out || msg.deleted then .fail .messageInvalid
    else do
      .exec_ (.setEditedText owner localID text now)
      if owner ≠ pre.peerID then .exec_ (.setEditedText pre.peerID msg.peerLocalID text now)
      else pure ()
      let ownerPts ← bumpPtsOnly now owner
      insertEvent owner ownerPts .edit localID
      if owner = pre.peerID then pure (.commit (pre.peerID, ownerPts))
      else do
        let peerPts ← bumpPtsOnly now pre.peerID
        insertEvent pre.peerID peerPts .edit msg.peerLocalID
        pure (.commit (pre.peerID, ownerPts))

/-! ## DeleteMessages -/

/-- One requested message with the fan-out copies a revoke walks; no copies for a
self-only delete and for a 1:1 message. -/
structure DeleteTarget where
  message : Message
  copies : List Message

def deleteTarget (owner : Int) (revoke : Bool) (localID : Int) : Body DeleteTarget := do
  let m ← messageOrFail .messageInvalid owner localID
  if m.peerType = .chat then
    if m.action ≠ .none then .fail .messageInvalid
    else if !revoke then pure ⟨m, []⟩
    else do
      -- The creator may moderate an inbound copy; everyone else only their own message.
      let chat ← if m.out then pure none else .query (·.chatByID m.peerID)
      if !m.out && chat.map (·.creatorID) ≠ some owner then .fail .messageInvalid
      else do
        let copies ← chatCopies m
        pure ⟨m, copies⟩
  else pure ⟨m, []⟩

def deleteTargets (owner : Int) (revoke : Bool) : List Int → Body (List DeleteTarget)
  | [] => pure []
  | id :: ids => do
      let t ← deleteTarget owner revoke id
      let ts ← deleteTargets owner revoke ids
      pure (t :: ts)

def DeleteTarget.owners (t : DeleteTarget) : List Int :=
  if t.message.peerType = .chat then t.copies.map (·.ownerID) else [t.message.peerID]

def deleteChats (targets : List DeleteTarget) : List Int :=
  ((targets.filter fun t => t.message.peerType = .chat ∧ t.copies.length ≠ 0).map
    (·.message.peerID)).dedup

/-- The member set of each of these chats; the caller has to be in every one. -/
def deleteMembers (owner : Int) : List Int → Body (List (Int × List Int))
  | [] => pure []
  | chat :: chats => do
      let members ← chatMembers chat
      if owner ∉ members then .fail .messageInvalid
      else do
        let rest ← deleteMembers owner chats
        pure ((chat, members) :: rest)

def membersOf (members : List (Int × List Int)) (chat : Int) : List Int :=
  ((members.find? (·.1 = chat)).map (·.2)).getD []

def DeleteTarget.pollRefs (owner : Int) (revoke : Bool) (members : List (Int × List Int))
    (t : DeleteTarget) : Owned :=
  if t.message.peerType = .chat then
    if t.copies = [] then [(owner, t.message.localID)]
    else (t.copies.filter (·.ownerID ∈ membersOf members t.message.peerID)).map
      fun c => (c.ownerID, c.localID)
  else
    (owner, t.message.localID) ::
      if revoke && t.message.peerID ≠ owner then [(t.message.peerID, t.message.peerLocalID)] else []

def DB.pollIDsForMessageCopies (d : DB) (refs : Owned) : List Int :=
  refs.flatMap fun r => (d.pollCopies.filter (PollCopy.isAt r.1 r.2)).map (·.pollID)

/-- A poll that a concurrent cleanup has removed meanwhile is skipped. -/
def lockPolls : List Int → Body Unit
  | [] => pure ()
  | id :: ids => do
      let _ ← pollByIDForUpdate id
      lockPolls ids

/-- Locks every poll that the delete will touch, in ascending order. -/
def lockPollsForDeletedMessageCopies (refs : Owned) : Body Unit :=
  if refs = [] then pure ()
  else do
    let pollIDs ← .query (·.pollIDsForMessageCopies refs)
    lockPolls (ascendingUnique pollIDs)

/-- Pts bump and delete event for one owner's row that was just marked deleted. -/
def deleteEvent (now owner localID : Int) (perOwner : Owned) :
    Body Owned := do
  let pts ← bumpPtsOnly now owner
  insertEvent owner pts .delete localID
  pure (setPts perOwner owner pts)

def deleteCopy (now owner localID : Int) (perOwner : Owned) :
    Body Owned := do
  let n ← setDeleted owner localID
  if n = 0 then pure perOwner else deleteEvent now owner localID perOwner

def deleteOwn (now owner localID : Int) (perOwner : Owned) :
    Body Owned := do
  let n ← setDeleted owner localID
  if n = 0 then .fail .messageInvalid else deleteEvent now owner localID perOwner

def deleteCopies (now : Int) (members : List Int) : List Message → Owned → Body Owned
  | [], perOwner => pure perOwner
  | c :: cs, perOwner =>
    if c.ownerID ∈ members then do
      let perOwner ← deleteCopy now c.ownerID c.localID perOwner
      deleteCopies now members cs perOwner
    else deleteCopies now members cs perOwner

def deleteOne (now owner : Int) (revoke : Bool) (members : List (Int × List Int))
    (t : DeleteTarget) (perOwner : Owned) : Body Owned :=
  if t.message.peerType = .chat then
    if t.copies = [] then deleteOwn now owner t.message.localID perOwner
    else deleteCopies now (membersOf members t.message.peerID) t.copies perOwner
  else do
    let perOwner ← deleteOwn now owner t.message.localID perOwner
    if !revoke || t.message.peerID = owner then pure perOwner
    else deleteCopy now t.message.peerID t.message.peerLocalID perOwner

def deleteAll (now owner : Int) (revoke : Bool) (members : List (Int × List Int)) :
    List DeleteTarget → Owned → Body Owned
  | [], perOwner => pure perOwner
  | t :: ts, perOwner => do
      let perOwner ← deleteOne now owner revoke members t perOwner
      deleteAll now owner revoke members ts perOwner

/-- Marks the caller's messages deleted, for everybody when revoked. Returns the
resulting pts of each affected user. -/
def deleteMessages (now owner : Int) (localIDs : List Int) (revoke : Bool) : Body (Finish Owned) :=
  if localIDs = [] then pure (.rollback [])
  else do
    let targets ← deleteTargets owner revoke localIDs
    lockOwners (owner :: targets.flatMap DeleteTarget.owners)
    let members ← deleteMembers owner (deleteChats targets)
    lockPollsForDeletedMessageCopies (targets.flatMap (·.pollRefs owner revoke members))
    let perOwner ← deleteAll now owner revoke members targets []
    pure (.commit perOwner)

/-- The owner's dialog read marker and unread count after an advance. -/
def advanceReadInbox (owner peer maxID : Int) : Body (Option Int) :=
  .exec (.advanceReadInbox owner .user peer maxID) fun d =>
    (d.dialog owner .user peer).map fun g => max g.readInboxMaxID maxID

/-- The newest mirror, in the peer's id space, of the reader's rows up to `maxID`. -/
def DB.maxPeerLocalID (d : DB) (owner peer maxID : Int) : Int :=
  ((d.messages.filter fun m => m.ownerID = owner ∧ m.peerType = .user ∧ m.peerID = peer ∧
    m.localID ≤ maxID).map (·.peerLocalID)).foldl max 0

/-- Marks the reader's inbound history with the peer read up to `maxID` and advances the
peer's outbox marker. Returns each owner's pts. -/
def readHistory (now owner peer maxID : Int) : Body (Finish (Int × Int)) := do
  lockOwners [owner, peer]
  let inbox ← advanceReadInbox owner peer maxID
  match inbox with
  | none => do
      let a ← .query (·.getState owner)
      let a ← .orFail .noRows a
      let b ← .query (·.getState peer)
      let b ← .orFail .noRows b
      pure (.rollback (a.pts, b.pts))
  | some marker =>
    if owner = peer then do
      let pts ← bumpPtsOnly now owner
      insertEvent owner pts .readIn marker
      pure (.commit (pts, pts))
    else do
      let peerMax ← .query (·.maxPeerLocalID owner peer maxID)
      .exec_ (.advanceReadOutbox peer .user owner peerMax)
      let rPts ← bumpPtsOnly now owner
      insertEvent owner rPts .readIn marker
      let pPts ← bumpPtsOnly now peer
      insertEvent peer pPts .readOut peerMax
      pure (.commit (rPts, pPts))

end TelegramServer.Store
