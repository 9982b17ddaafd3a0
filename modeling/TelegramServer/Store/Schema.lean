import Mathlib.Algebra.Order.Ring.Int
import Mathlib.Data.List.Sort
import TelegramServer.Tx.Table

/-!
# Tables of the message store

Rows carry the columns that the modelled transactions read or write. A table
is the list of its rows in insertion order; identifiers, `pts` values and
random ids are the 64-bit columns of the schema, and times are unix seconds.
A nullable column whose `NULL` the server reads back as zero is stored as zero.
-/

namespace TelegramServer.Store

def int32 (x : Int) : Int := x.bmod (2 ^ 32)

theorem int32_of_lt {x : Int} (h0 : 0 ≤ x) (h : x < 2 ^ 31) : int32 x = x := by
  unfold int32
  rw [Int.bmod_eq_of_le] <;> omega

/-- A number by owner: a `pts`, a local id, a date. -/
abbrev Owned := List (Int × Int)

/-- Discriminates the `peer_id` namespace: user, chat and channel ids come from
different sequences and can collide. -/
inductive PeerType where
  | user
  | chat
  | channel
  deriving DecidableEq

/-- `messages.action_type`: a plain message, or the service message announcing a
chat change. -/
inductive ChatAction where
  | none
  | create
  | addUser
  | deleteUser
  | editTitle
  deriving DecidableEq

inductive EventType where
  | newMessage
  | edit
  | delete
  | readIn
  | readOut
  deriving DecidableEq

/-- Per-owner update sequence and message-id allocator. -/
structure UpdateState where
  userID : Int
  pts : Int := 0
  nextLocalID : Int := 1
  qts : Int := 0
  seq : Int := 0
  date : Int
  deriving DecidableEq

/-- One owner's copy of a message. -/
structure Message where
  ownerID : Int
  localID : Int
  peerType : PeerType
  peerID : Int
  fromID : Int
  date : Int
  text : String
  out : Bool
  editDate : Option Int := none
  deleted : Bool := false
  randomID : Int := 0
  peerLocalID : Int := 0
  /-- Links every per-member copy of one chat message; 0 on 1:1 rows. -/
  fanoutID : Int := 0
  fileID : Int := 0
  action : ChatAction := .none
  actionUserID : Int := 0
  replyToMsgID : Int := 0
  fwdFromID : Int := 0
  fwdDate : Option Int := none
  fwdChannelID : Int := 0
  fwdChannelPost : Int := 0
  deriving DecidableEq

structure Event where
  ownerID : Int
  pts : Int
  type : EventType
  localID : Int
  deriving DecidableEq

structure Dialog where
  ownerID : Int
  peerType : PeerType
  peerID : Int
  topMessage : Int
  unreadCount : Int
  readInboxMaxID : Int := 0
  readOutboxMaxID : Int := 0
  deriving DecidableEq

structure Chat where
  id : Int
  title : String
  creatorID : Int
  version : Int := 1
  date : Int
  pinnedMessageID : Option Int := none
  defaultBannedRights : List String := []
  deriving DecidableEq

structure Participant where
  chatID : Int
  userID : Int
  inviterID : Int
  date : Int
  admin : Bool := false
  deriving DecidableEq

structure Block where
  blockerID : Int
  blockedID : Int
  date : Int
  deriving DecidableEq

structure Reaction where
  ownerID : Int
  localID : Int
  reactorID : Int
  reaction : String
  deriving DecidableEq

/-- An uploaded file; `subtypeRights` is `none` for a file that records no subtype. -/
structure File where
  id : Int
  stored : Bool := true
  subtypeRights : Option (List String) := none
  accessHash : Int := 0
  size : Int := 0
  mimeType : String := ""
  fileName : String := ""
  date : Int := 0
  deriving DecidableEq

abbrev Bytes := List UInt8

structure Poll where
  id : Int
  creatorID : Int
  randomID : Int := 0
  sourceLocalID : Int
  question : Bytes
  publicVoters : Bool := false
  multipleChoice : Bool := false
  quiz : Bool := false
  shuffleAnswers : Bool := false
  revotingDisabled : Bool := false
  closed : Bool := false
  closeDate : Option Int := none
  solution : Bytes := []
  deriving DecidableEq

structure PollOption where
  pollID : Int
  option : Bytes
  text : Bytes
  correct : Bool := false
  position : Int
  deriving DecidableEq

structure PollVote where
  pollID : Int
  voterID : Int
  deriving DecidableEq

structure PollVoteOption where
  pollID : Int
  voterID : Int
  option : Bytes
  deriving DecidableEq

/-- `poll_message_copies`: the message copy shows the poll. -/
structure PollCopy where
  ownerID : Int
  localID : Int
  pollID : Int
  deriving DecidableEq

structure DB where
  updateStates : List UpdateState := []
  messages : List Message := []
  events : List Event := []
  dialogs : List Dialog := []
  chats : List Chat := []
  participants : List Participant := []
  blocks : List Block := []
  reactions : List Reaction := []
  files : List File := []
  polls : List Poll := []
  pollOptions : List PollOption := []
  pollVotes : List PollVote := []
  pollVoteOptions : List PollVoteOption := []
  pollCopies : List PollCopy := []
  deriving DecidableEq

def Dialog.isFor (owner : Int) (peerType : PeerType) (peer : Int) (g : Dialog) : Bool :=
  g.ownerID = owner ∧ g.peerType = peerType ∧ g.peerID = peer

def Reaction.isFor (owner localID reactor : Int) (r : Reaction) : Bool :=
  r.ownerID = owner ∧ r.localID = localID ∧ r.reactorID = reactor

/-- The row is the owner's message `localID`. -/
def Message.isAt (owner localID : Int) (m : Message) : Bool :=
  m.ownerID = owner ∧ m.localID = localID

def Participant.isFor (chat user : Int) (p : Participant) : Bool :=
  p.chatID = chat ∧ p.userID = user

def Block.isFor (blocker blocked : Int) (b : Block) : Bool :=
  b.blockerID = blocker ∧ b.blockedID = blocked

def PollCopy.isAt (owner localID : Int) (c : PollCopy) : Bool :=
  c.ownerID = owner ∧ c.localID = localID

def PollVote.isFor (poll voter : Int) (v : PollVote) : Bool :=
  v.pollID = poll ∧ v.voterID = voter

def PollVoteOption.isFor (poll voter : Int) (v : PollVoteOption) : Bool :=
  v.pollID = poll ∧ v.voterID = voter

namespace DB

variable (d : DB)

def getState (user : Int) : Option UpdateState :=
  d.updateStates.find? (·.userID = user)

def messageByOwnerLocal (owner localID : Int) : Option Message :=
  d.messages.find? (Message.isAt owner localID)

def messageByRandomID (owner randomID : Int) : Option Message :=
  d.messages.find? fun m => m.ownerID = owner ∧ m.randomID = randomID ∧ m.randomID ≠ 0

/-- Every per-member copy of one chat message, ascending by owner. Zero is the
"not a chat message" sentinel, so it selects nothing. -/
def messagesByFanout (fanoutID : Int) : List Message :=
  (d.messages.filter fun m => m.fanoutID = fanoutID ∧ m.fanoutID ≠ 0).insertionSort
    (·.ownerID ≤ ·.ownerID)

/-- The pts at which `localID` entered the owner's log. -/
def newMessagePts (owner localID : Int) : Option Int :=
  (d.events.find? fun e => e.ownerID = owner ∧ e.localID = localID ∧ e.type = .newMessage).map
    (·.pts)

def dialog (owner : Int) (peerType : PeerType) (peer : Int) : Option Dialog :=
  d.dialogs.find? (Dialog.isFor owner peerType peer)

def chatByID (id : Int) : Option Chat :=
  d.chats.find? (·.id = id)

def chatParticipants (chat : Int) : List Participant :=
  (d.participants.filter (·.chatID = chat)).insertionSort (·.userID ≤ ·.userID)

def isChatMember (chat user : Int) : Bool :=
  d.participants.any (Participant.isFor chat user)

def isBlocked (blocker blocked : Int) : Bool :=
  d.blocks.any (Block.isFor blocker blocked)

def fileByID (id : Int) : Option File :=
  d.files.find? (·.id = id)

def pollByID (id : Int) : Option Poll :=
  d.polls.find? (·.id = id)

def hasPoll (id : Int) : Bool :=
  d.polls.any (·.id = id)

def pollCopy (owner localID : Int) : Option Int :=
  (d.pollCopies.find? (PollCopy.isAt owner localID)).map (·.pollID)

/-- The owner's non-deleted inbound rows in a dialog above a read marker. -/
def unreadAbove (owner : Int) (peerType : PeerType) (peer marker : Int) : Int :=
  (d.messages.filter fun m => m.ownerID = owner ∧ m.peerType = peerType ∧ m.peerID = peer ∧
    m.out = false ∧ m.deleted = false ∧ marker < m.localID).length

end DB

/-! ## Row writes

Every `INSERT`, `UPDATE` and `DELETE` of the modelled queries, and what it does
to the tables. `now` is the transaction's start time, the value of `now()` in
each of its statements. -/

open Tx.Table

/-- One write statement. `insertChat` stands for the insert of the chat and of its
first participants, which no statement comes between. -/
inductive Write where
  | ensureUpdateState (user now : Int)
  | bumpState (user now : Int)
  | bumpPtsOnly (user now : Int)
  | insertMessage (m : Message)
  | insertEvent (e : Event)
  | upsertDialog (owner : Int) (peerType : PeerType) (peer topMessage unread : Int)
  | setEditedText (owner localID : Int) (text : String) (now : Int)
  | setDeleted (owner localID : Int)
  | advanceReadInbox (owner : Int) (peerType : PeerType) (peer maxID : Int)
  | advanceChatReadInbox (owner : Int) (peerType : PeerType) (peer maxID : Int)
  | advanceReadOutbox (owner : Int) (peerType : PeerType) (peer maxID : Int)
  | upsertReaction (owner localID reactor : Int) (reaction : String)
  | deleteReaction (owner localID reactor : Int)
  | insertChat (c : Chat) (members : List Int)
  | insertChatParticipantIfAbsent (p : Participant)
  | deleteChatParticipant (chat user : Int)
  | setChatParticipantAdmin (chat user : Int) (admin : Bool)
  | bumpChatVersion (chat : Int)
  | setChatTitle (chat : Int) (title : String)
  | setChatDefaultBannedRights (chat : Int) (rights : List String)
  | setChatPinnedMessage (chat : Int) (pinned : Option Int)
  | insertBlockedUser (b : Block)
  | deleteBlockedUser (blocker blocked : Int)
  | insertPoll (p : Poll)
  | insertPollOption (o : PollOption)
  | insertPollMessageCopy (owner localID poll : Int)
  | insertPollVote (poll voter : Int)
  | deletePollVoteOptionsByVoter (poll voter : Int)
  | insertPollVoteOption (poll voter : Int) (option : Bytes)
  | deletePollVote (poll voter : Int)
  | closePoll (poll : Int)
  /-- The cleanup trigger's two deletions. -/
  | unlinkPoll (owner localID poll : Int)
  | deleteUnlinkedPoll (poll : Int)

/-- `read_inbox_max_id = GREATEST(...)` with the unread count recomputed above it. -/
def Dialog.readInbox (d : DB) (maxID : Int) (g : Dialog) : Dialog :=
  { g with
    readInboxMaxID := max g.readInboxMaxID maxID
    unreadCount := d.unreadAbove g.ownerID g.peerType g.peerID (max g.readInboxMaxID maxID) }

/-- The id is that of the poll, which no message copy shows any more. -/
def DB.unlinked (d : DB) (poll id : Int) : Bool :=
  id = poll ∧ d.pollCopies.any (·.pollID = poll) = false

@[grind =] def Write.apply : Write → DB → DB
  | .ensureUpdateState user now, d =>
    { d with
      updateStates := insertAbsent (·.userID = user) { userID := user, date := now }
        d.updateStates }
  | .bumpState user now, d =>
    { d with
      updateStates := updateWhere (·.userID = user)
        (fun s => { s with pts := s.pts + 1, nextLocalID := s.nextLocalID + 1, date := now })
        d.updateStates }
  | .bumpPtsOnly user now, d =>
    { d with
      updateStates := updateWhere (·.userID = user)
        (fun s => { s with pts := s.pts + 1, date := now }) d.updateStates }
  | .insertMessage m, d => { d with messages := d.messages ++ [m] }
  | .insertEvent e, d => { d with events := d.events ++ [e] }
  | .upsertDialog owner peerType peer top unread, d =>
    { d with
      dialogs := upsertWhere (Dialog.isFor owner peerType peer)
        (fun g => { g with topMessage := top, unreadCount := g.unreadCount + unread })
        { ownerID := owner, peerType, peerID := peer, topMessage := top, unreadCount := unread }
        d.dialogs }
  | .setEditedText owner localID text now, d =>
    { d with
      messages := updateWhere (Message.isAt owner localID)
        (fun m => { m with text, editDate := some now }) d.messages }
  | .setDeleted owner localID, d =>
    { d with
      messages := updateWhere (Message.isAt owner localID)
        (fun m => { m with deleted := true }) d.messages }
  | .advanceReadInbox owner peerType peer maxID, d =>
    -- The self dialog has no mirror row, so its outbox marker moves with the inbox one.
    { d with
      dialogs := updateWhere (Dialog.isFor owner peerType peer)
        (fun g => { g.readInbox d maxID with
          readOutboxMaxID :=
            if g.ownerID = g.peerID then max g.readOutboxMaxID maxID else g.readOutboxMaxID })
        d.dialogs }
  | .advanceChatReadInbox owner peerType peer maxID, d =>
    { d with
      dialogs := updateWhere (Dialog.isFor owner peerType peer) (Dialog.readInbox d maxID)
        d.dialogs }
  | .advanceReadOutbox owner peerType peer maxID, d =>
    { d with
      dialogs := updateWhere (Dialog.isFor owner peerType peer)
        (fun g => { g with readOutboxMaxID := max g.readOutboxMaxID maxID }) d.dialogs }
  | .upsertReaction owner localID reactor reaction, d =>
    { d with
      reactions := upsertWhere (Reaction.isFor owner localID reactor)
        (fun r => { r with reaction }) { ownerID := owner, localID, reactorID := reactor, reaction }
        d.reactions }
  | .deleteReaction owner localID reactor, d =>
    { d with reactions := d.reactions.filter fun r => !Reaction.isFor owner localID reactor r }
  | .insertChat c members, d =>
    -- A taken id violates the primary key.
    { d with
      chats := insertAbsent (·.id = c.id) c d.chats
      participants :=
        if d.chats.any (·.id = c.id) then d.participants
        else d.participants ++ members.map fun user =>
          { chatID := c.id, userID := user, inviterID := c.creatorID, date := c.date } }
  | .insertChatParticipantIfAbsent p, d =>
    { d with participants := insertAbsent (Participant.isFor p.chatID p.userID) p d.participants }
  | .deleteChatParticipant chat user, d =>
    { d with participants := d.participants.filter fun p => !Participant.isFor chat user p }
  | .setChatParticipantAdmin chat user admin, d =>
    { d with
      participants := updateWhere (Participant.isFor chat user) (fun p => { p with admin })
        d.participants }
  | .bumpChatVersion chat, d =>
    { d with
      chats := updateWhere (·.id = chat) (fun c => { c with version := c.version + 1 }) d.chats }
  | .setChatTitle chat title, d =>
    { d with
      chats := updateWhere (·.id = chat)
        (fun c => { c with title, version := c.version + 1 }) d.chats }
  | .setChatDefaultBannedRights chat rights, d =>
    { d with
      chats := updateWhere (·.id = chat)
        (fun c => { c with defaultBannedRights := rights, version := c.version + 1 }) d.chats }
  | .setChatPinnedMessage chat pinned, d =>
    { d with
      chats := updateWhere (·.id = chat)
        (fun c => { c with pinnedMessageID := pinned, version := c.version + 1 }) d.chats }
  | .insertBlockedUser b, d =>
    { d with blocks := insertAbsent (Block.isFor b.blockerID b.blockedID) b d.blocks }
  | .deleteBlockedUser blocker blocked, d =>
    { d with blocks := d.blocks.filter fun b => !Block.isFor blocker blocked b }
  | .insertPoll p, d =>
    -- A link names a poll that is there.
    { d with polls := if d.pollCopies.any (·.pollID = p.id) then d.polls else d.polls ++ [p] }
  | .insertPollOption o, d => { d with pollOptions := d.pollOptions ++ [o] }
  | .insertPollMessageCopy owner localID poll, d =>
    { d with pollCopies := d.pollCopies ++ [{ ownerID := owner, localID, pollID := poll }] }
  | .insertPollVote poll voter, d =>
    { d with
      pollVotes := insertAbsent (PollVote.isFor poll voter) { pollID := poll, voterID := voter }
        d.pollVotes }
  | .deletePollVoteOptionsByVoter poll voter, d =>
    { d with
      pollVoteOptions := d.pollVoteOptions.filter fun v => !PollVoteOption.isFor poll voter v }
  | .insertPollVoteOption poll voter option, d =>
    { d with
      pollVoteOptions := d.pollVoteOptions ++ [{ pollID := poll, voterID := voter, option }] }
  | .deletePollVote poll voter, d =>
    -- The selections go with the vote.
    { d with
      pollVotes := d.pollVotes.filter fun v => !PollVote.isFor poll voter v
      pollVoteOptions := d.pollVoteOptions.filter fun v => !PollVoteOption.isFor poll voter v }
  | .closePoll poll, d =>
    { d with
      polls := updateWhere (·.id = poll) (fun p => { p with closed := true }) d.polls }
  | .unlinkPoll owner localID poll, d =>
    { d with
      pollCopies := d.pollCopies.filter fun c =>
        !(PollCopy.isAt owner localID c && c.pollID = poll) }
  | .deleteUnlinkedPoll poll, d =>
    -- Options, votes and selections go with the poll.
    { d with
      polls := d.polls.filter fun p => !d.unlinked poll p.id
      pollOptions := d.pollOptions.filter fun o => !d.unlinked poll o.pollID
      pollVotes := d.pollVotes.filter fun v => !d.unlinked poll v.pollID
      pollVoteOptions := d.pollVoteOptions.filter fun v => !d.unlinked poll v.pollID }

end TelegramServer.Store
