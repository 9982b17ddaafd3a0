import TelegramServer.Channels.Schema
import Mathlib.Algebra.Ring.Int.Defs

/-!
# Hydration: stored rows to wire objects

Accounts, contacts, secret chats and the other rows that the handlers read next to the tables of
the message store and of the channels. Times are unix seconds here as in the message store; the
channel tables keep nanoseconds. The wire objects are the part of the TL schema that the modelled
handlers read and write: a conditional field is an `Option`; the document's file reference is the
big-endian spelling of its id, so the id stands for it.

Every reply and every push is built from these mappers. The mappers of single
rows are pure; the loaders read the database once for a set of ids and decide
what the viewer may see of them. Sets of ids are lists here and each id is
rendered once.
-/

namespace TelegramServer.Api

open TelegramServer.Store

structure User where
  id : Int
  phone : String := ""
  firstName : String := ""
  lastName : String := ""
  isOnline : Bool := false
  lastSeenAt : Option Int := none
  username : Option String := none

structure Contact where
  ownerID : Int
  contactID : Int
  deriving DecidableEq

structure EncryptedEvent where
  ownerID : Int
  qts : Int
  chatID : Int
  randomID : Int
  bytes : List UInt8
  date : Int

inductive SecretChatState where
  | requested
  | active
  | discarded

structure SecretChat where
  id : Int
  adminID : Int
  participantID : Int
  state : SecretChatState
  gA : List UInt8 := []
  gAOrB : List UInt8 := []
  keyFingerprint : Int := 0
  date : Int

/-- A role change that `ownerID` has not been told about yet. -/
structure ChatAdminMarker where
  ownerID : Int
  eventID : Int
  chatID : Int
  targetID : Int

structure DialogFilterChange where
  ownerID : Int
  at_ : Int

/-- The database as the handlers see it. -/
structure State where
  store : DB := {}
  users : List User := []
  contacts : List Contact := []
  channels : Channels.DB := {}
  encryptedEvents : List EncryptedEvent := []
  secretChats : List SecretChat := []
  chatAdminMarkers : List ChatAdminMarker := []
  dialogFilterChanges : List DialogFilterChange := []

namespace State

variable (s : State)

def userByID (id : Int) : Option User :=
  s.users.find? (·.id = id)

def usersByID (ids : List Int) : List User :=
  ids.dedup.filterMap s.userByID

def sharesDialog (viewer id : Int) : Bool :=
  s.store.dialogs.any fun g => g.peerType = .user ∧
    (g.ownerID = viewer ∧ g.peerID = id ∨ g.ownerID = id ∧ g.peerID = viewer)

def sharesChat (viewer id : Int) : Bool :=
  s.store.participants.any fun p => p.userID = viewer ∧
    s.store.participants.any fun q => q.chatID = p.chatID ∧ q.userID = id

/-- Both accounts are members of some channel and neither is banned there now. -/
def sharesChannel (now viewer id : Int) : Bool :=
  s.channels.participants.any fun v => v.userID = viewer ∧ !v.banned now ∧
    s.channels.participants.any fun m => m.channelID = v.channelID ∧ m.userID = id ∧ !m.banned now

/-- `EntitledUserIDs`: the live edges that admit an account's profile. -/
def entitled (now viewer id : Int) : Bool :=
  id = viewer || s.sharesDialog viewer id || s.sharesChat viewer id || s.sharesChannel now viewer id

end State

namespace Wire

inductive Peer where
  | user (id : Int)
  | chat (id : Int)
  | channel (id : Int)
  deriving DecidableEq

inductive MessageAction where
  | empty
  | chatCreate (title : String) (users : List Int)
  | chatAddUser (users : List Int)
  | chatDeleteUser (user : Int)
  | chatEditTitle (title : String)
  deriving DecidableEq

structure Document where
  id : Int
  accessHash : Int
  date : Int
  mimeType : String
  size : Int
  dcID : Int
  fileName : Option String
  deriving DecidableEq

structure ReplyHeader where
  replyToMsgID : Int
  replyToPeerID : Peer
  deriving DecidableEq

structure FwdHeader where
  date : Int
  fromID : Option Peer
  channelPost : Option Int
  deriving DecidableEq

/-- `message` and `messageService`. A reaction is rendered as its emoji, each with
a count of one. -/
inductive Message where
  | message (id : Int) (out : Bool) (peerID fromID : Peer) (text : String) (date : Int)
      (editDate : Option Int) (replyTo : Option ReplyHeader) (media : Option Document)
      (fwdFrom : Option FwdHeader) (reactions : List String)
  | service (id : Int) (out : Bool) (peerID fromID : Peer) (date : Int) (action : MessageAction)
  deriving DecidableEq

namespace Message

def id : Message → Int
  | message id .. => id
  | service id .. => id

end Message

inductive UserStatus where
  | empty
  | online (expires : Int)
  | offline (wasOnline : Int)
  | recently

inductive User where
  | user (id : Int) (self contact mutualContact : Bool) (firstName lastName : String)
      (accessHash : Int) (phone username : Option String) (status : UserStatus)
  | empty (id : Int)

/-- `chat`, `chatForbidden`, `channel` and `channelForbidden`. A forbidden peer
carries an empty title. -/
inductive Chat where
  | chat (id : Int) (title : String) (creator : Bool) (participantsCount date version : Int)
      (defaultBannedRights : Option (List String))
  | chatForbidden (id : Int)
  | channel (id : Int) (title : String) (accessHash date : Int) (megagroup broadcast creator : Bool)
      (username : Option String) (defaultBannedRights : Option (List String))
  | channelForbidden (id accessHash : Int)

inductive EncryptedChat where
  | waiting (id accessHash date adminID participantID : Int)
  | requested (id accessHash date adminID participantID : Int) (gA : List UInt8)
  | chat (id accessHash date adminID participantID : Int) (gAOrB : List UInt8)
      (keyFingerprint : Int)
  | discarded (id : Int)
  deriving DecidableEq

/-- Updates; the `pts_count` of every one that carries a `pts` is one. -/
inductive Update where
  | newMessage (message : Message) (pts : Int)
  | editMessage (message : Message) (pts : Int)
  | deleteMessages (messages : List Int) (pts : Int)
  | readHistoryOutbox (peer : Peer) (maxID pts : Int)
  | readHistoryInbox (peer : Peer) (maxID pts : Int)
  | messageID (id randomID : Int)
  | chatParticipantAdmin (chatID userID : Int) (isAdmin : Bool) (version : Int)
  | encryption (chat : EncryptedChat) (date : Int)
  | dialogFilters
  deriving DecidableEq

structure State where
  pts : Int
  qts : Int
  date : Int
  seq : Int
  unreadCount : Int

end Wire

inductive PeerKind where
  | user
  | channel
  | secret

/-- What a handler has besides the database: the clock in seconds with its nanoseconds, the
data centre and the keyed derivation of access hashes. -/
structure Env where
  now : Int := 0
  nanos : Int := 0
  dcID : Int := 1
  derive : (viewer : Int) → PeerKind → (peer : Int) → Int

/-- The clock in nanoseconds, as bans are measured. -/
def Env.clock (env : Env) : Int :=
  env.now * Channels.second + env.nanos

/-! ## Messages -/

def peerToTL : PeerType → Int → Wire.Peer
  | .chat, id => .chat id
  | .channel, id => .channel id
  | .user, id => .user id

def actionToTL (m : Message) (createUsers : List Int) : Wire.MessageAction :=
  match m.action with
  | .create => .chatCreate m.text createUsers
  | .addUser => .chatAddUser [m.actionUserID]
  | .deleteUser => .chatDeleteUser m.actionUserID
  | .editTitle => .chatEditTitle m.text
  | .none => .empty

def documentToTL (env : Env) (f : File) : Wire.Document where
  id := f.id
  accessHash := f.accessHash
  date := f.date
  mimeType := f.mimeType
  size := f.size
  dcID := env.dcID
  fileName := if f.fileName = "" then none else some f.fileName

def fileDocs (env : Env) (s : State) (ids : List Int) (id : Int) : Option Wire.Document :=
  if id ∈ ids then
    match s.store.fileByID id with
    | some f => if f.stored then some (documentToTL env f) else none
    | none => none
  else none

def loadFiles (env : Env) (s : State) (msgs : List Message) : Int → Option Wire.Document :=
  fileDocs env s ((msgs.map (·.fileID)).filter (· ≠ 0))

def zeroTime : Int := -62135596800

def fwdHeader (m : Message) : Option Wire.FwdHeader :=
  if m.fwdFromID ≠ 0 ∨ m.fwdDate.isSome then
    if m.fwdChannelID ≠ 0 then
      some ⟨m.fwdDate.getD zeroTime, some (.channel m.fwdChannelID), some m.fwdChannelPost⟩
    else if m.fwdFromID ≠ 0 then
      some ⟨m.fwdDate.getD zeroTime, some (.user m.fwdFromID), none⟩
    else
      some ⟨m.fwdDate.getD zeroTime, none, none⟩
  else none

/-- A row with an action is a service message. `createUsers` is the member list that
a create action names, `files` the documents of the batch. -/
def messageToTL (m : Message) (createUsers : List Int) (files : Int → Option Wire.Document)
    (reactions : List Reaction) : Wire.Message :=
  if m.action ≠ .none then
    .service m.localID m.out (peerToTL m.peerType m.peerID) (.user m.fromID) m.date
      (actionToTL m createUsers)
  else
    .message m.localID m.out (peerToTL m.peerType m.peerID)
      (.user m.fromID) m.text m.date m.editDate
      (if 0 < m.replyToMsgID then some ⟨m.replyToMsgID, peerToTL m.peerType m.peerID⟩ else none)
      (if m.fileID ≠ 0 then files m.fileID else none)
      (fwdHeader m) (reactions.map (·.reaction))

def unix (nanos : Int) : Int :=
  nanos / Channels.second

def contactState (s : State) (viewer id : Int) : Option Bool :=
  if 0 < viewer ∧ 0 < id ∧ id ≠ viewer ∧ ⟨viewer, id⟩ ∈ s.contacts then
    some (⟨id, viewer⟩ ∈ s.contacts)
  else none

def onlineWindow : Int := 300

def userStatusToTL (env : Env) (u : User) (self : Bool) : Wire.UserStatus :=
  if self then .recently
  else if u.isOnline then .online (env.now + onlineWindow)
  else
    match u.lastSeenAt with
    | some t => .offline t
    | none => .empty

def userToTL (env : Env) (s : State) (u : User) (viewer : Int) (self : Bool) : Wire.User :=
  .user u.id self (!self && (contactState s viewer u.id).isSome)
    (!self && contactState s viewer u.id == some true)
    u.firstName u.lastName (env.derive viewer .user u.id)
    (if self then some u.phone else none) u.username (userStatusToTL env u self)

def renderUsers (env : Env) (s : State) (users : List User) (viewer : Int)
    (entitled authorized : Int → Bool) : List Wire.User :=
  users.map fun u =>
    if u.id ≠ viewer ∧ entitled u.id = false ∧ authorized u.id = false then .empty u.id
    else userToTL env s u viewer (u.id = viewer)

def loadUsersWithAuthorizedIDs (env : Env) (s : State) (ids : List Int) (viewer : Int)
    (authorized : Int → Bool) : List Wire.User :=
  renderUsers env s (s.usersByID ids) viewer (s.entitled env.clock viewer) authorized

def loadUsers (env : Env) (s : State) (ids : List Int) (viewer : Int) : List Wire.User :=
  loadUsersWithAuthorizedIDs env s ids viewer fun _ => false

def chatDefaultRightNames : List String :=
  ["send_messages", "send_media", "send_stickers", "send_gifs", "send_games", "send_inline",
    "embed_links", "send_polls", "change_info", "invite_users", "pin_messages", "manage_topics",
    "send_photos", "send_videos", "send_roundvideos", "send_audios", "send_voices", "send_docs",
    "send_plain"]

/-- The flags that the stored rights set; no stored right leaves the field out. -/
def defaultBannedRightsToTL (rights : List String) : Option (List String) :=
  if rights = [] then none else some (chatDefaultRightNames.filter (· ∈ rights))

def chatToTL (c : Chat) (participantsCount viewer : Int) : Wire.Chat :=
  .chat c.id c.title (c.creatorID = viewer) participantsCount c.date c.version
    (defaultBannedRightsToTL c.defaultBannedRights)

/-- Live metadata for a current member, the bare id for anyone else. -/
def loadChat (s : State) (id viewer : Int) : Option Wire.Chat :=
  (s.store.chatByID id).map fun c =>
    if s.store.isChatMember id viewer then
      chatToTL c (s.store.chatParticipants id).length viewer
    else .chatForbidden c.id

def loadChats (s : State) (ids : List Int) (viewer : Int) : List Wire.Chat :=
  ids.dedup.filterMap (loadChat s · viewer)

def channelToTL (env : Env) (c : Channels.Channel) (m : Option Channels.ChannelParticipant)
    (viewer : Int) : Wire.Chat :=
  match m with
  | some m =>
    if m.banned env.clock then .channelForbidden c.id (env.derive viewer .channel c.id)
    else .channel c.id c.title (env.derive viewer .channel c.id) (unix c.date) c.megagroup
      (!c.megagroup) (m.role = Channels.channelRoleCreator) c.username
      (if c.megagroup then defaultBannedRightsToTL c.defaultBannedRights else none)
  | none => .channelForbidden c.id (env.derive viewer .channel c.id)

def loadChannels (env : Env) (s : State) (ids : List Int) (viewer : Int) : List Wire.Chat :=
  ids.dedup.filterMap fun id =>
    (s.channels.channelByID id).map fun c =>
      channelToTL env c (s.channels.channelParticipantByUser id viewer) viewer

/-! ## Updates of one account -/

structure Rendered where
  update : Wire.Update
  users : List Int := []
  chats : List Int := []
  channels : List Int := []

def batchMessages (s : State) (u : Int) (events : List Event) (id : Int) : Option Message :=
  if id ≠ 0 ∧ events.any (fun e => e.type ≠ .delete ∧ e.localID = id) then
    s.store.messageByOwnerLocal u id
  else none

/-- The current members of the chat a create action announces, for a viewer who is one
of them. -/
def createUsersFor (s : State) (u : Int) (m : Message) : List Int :=
  if m.action = .create ∧ s.store.isChatMember m.peerID u then
    (s.store.chatParticipants m.peerID).map (·.userID)
  else []

/-- Whom a message update names: its author, the peer or the owner, the subjects of a
service action and the original sender of a forward. -/
def messageRefs (u : Int) (m : Message) (createUsers : List Int) : List Int :=
  [m.fromID] ++ (if m.peerType = .chat then
      u :: (match m.action with
        | .addUser | .deleteUser => [m.actionUserID]
        | .create => createUsers
        | _ => [])
    else [m.peerID]) ++
    (if m.fwdFromID ≠ 0 ∧ m.fwdChannelID = 0 then [m.fwdFromID] else [])

/-- The update of one event, or nothing when its row is gone or its marker empty. -/
def eventToUpdate (s : State) (u : Int) (ev : Event) (msgs : Int → Option Message)
    (files : Int → Option Wire.Document) : Option Rendered :=
  match ev.type with
  | .newMessage | .edit =>
    (msgs ev.localID).map fun m =>
      let createUsers := createUsersFor s u m
      let message := messageToTL m createUsers files []
      { update := if ev.type = .edit then .editMessage message ev.pts
        else .newMessage message ev.pts
        users := messageRefs u m createUsers
        chats := if m.peerType = .chat then [m.peerID] else []
        channels := if m.fwdChannelID ≠ 0 then [m.fwdChannelID] else [] }
  | .delete => some { update := .deleteMessages [ev.localID] ev.pts }
  | .readIn | .readOut =>
    if ev.localID = 0 then none
    else
      (msgs ev.localID).map fun m =>
        let peer := peerToTL m.peerType m.peerID
        { update := if ev.type = .readOut then .readHistoryOutbox peer ev.localID ev.pts
            else .readHistoryInbox peer ev.localID ev.pts
          users := if m.peerType = .chat then [] else [m.peerID]
          chats := if m.peerType = .chat then [m.peerID] else [] }

/-- The cap on the events of one difference or push. -/
def maxDiffEvents : Nat := 500

/-- The owner's events in `(fromPts, toPts]`, ascending, at most `limit` of them. -/
def eventsWindow (s : State) (u fromPts toPts : Int) (limit : Nat) : List Event :=
  ((s.store.events.filter fun e => e.ownerID = u ∧ fromPts < e.pts ∧ e.pts ≤ toPts).insertionSort
    (·.pts ≤ ·.pts)).take limit

/-- `StateWithoutUnread`, or `StateWithoutChannelUnread` when the basic dialogs' unread
total is asked for. A user without a state row has the zero state. -/
def stateOf (s : State) (u : Int) (withUnread : Bool) : Wire.State :=
  let unread := if withUnread then
    ((s.store.dialogs.filter (·.ownerID = u)).map (·.unreadCount)).sum else 0
  match s.store.getState u with
  | some st => ⟨st.pts, st.qts, st.date, st.seq, unread⟩
  | none => ⟨0, 0, 0, 0, unread⟩

/-- One account's hydrated updates, each with its pts, and what a client is told along
with them. `head` is the account's pts before the cap clamped `state`. -/
structure UpdateBatch where
  ups : List (Int × Wire.Update)
  users : List Wire.User
  chats : List Wire.Chat
  state : Wire.State
  head : Int
  more : Bool

namespace UpdateBatch

def search (b : UpdateBatch) (pts : Int) : Nat :=
  b.ups.findIdx (pts ≤ ·.1)

def above (b : UpdateBatch) (fromPts : Int) : List (Int × Wire.Update) :=
  b.ups.drop (b.search (fromPts + 1))

end UpdateBatch

def batchEvents (s : State) (u fromPts toPts : Int) : List Event × Bool :=
  let events := eventsWindow s u fromPts toPts (maxDiffEvents + 1)
  (events.take maxDiffEvents, maxDiffEvents < events.length)

def renderEvents (env : Env) (s : State) (u : Int) (events : List Event) :
    List (Event × Rendered) :=
  let msgs := batchMessages s u events
  let files := loadFiles env s ((events.map (·.localID)).dedup.filterMap msgs)
  events.filterMap fun ev => (eventToUpdate s u ev msgs files).map (ev, ·)

/-- The state a batch advertises: through its last event when the cap cut it. -/
def clampState (st : Wire.State) (events : List Event) (more : Bool) : Wire.State :=
  if more then { st with pts := (events.getLast?.map (·.pts)).getD st.pts } else st

/-- `buildUpdates`: the account's events after `fromPts` as wire updates. -/
def buildUpdates (env : Env) (s : State) (u fromPts : Int) (withUnread : Bool) : UpdateBatch :=
  let st := stateOf s u withUnread
  let (events, more) := batchEvents s u fromPts st.pts
  let rendered := renderEvents env s u events
  { ups := rendered.map fun r => (r.1.pts, r.2.update)
    users := loadUsers env s (rendered.flatMap (·.2.users)) u
    chats := loadChats s (rendered.flatMap (·.2.chats)) u ++
      loadChannels env s (rendered.flatMap (·.2.channels)) u
    state := clampState st events more
    head := st.pts
    more }

end TelegramServer.Api
