import TelegramServer.Store.Messages

/-!
# Chat transactions

The fan-out, forwards, and the membership, pin, reaction and block mutations.
-/

namespace TelegramServer.Store

open Tx

def chatMediaSubtypeRights : List String :=
  ["send_stickers", "send_gifs", "send_videos", "send_roundvideos", "send_audios", "send_voices"]

/-- Whether the chat's default rights forbid the message. A document without recorded
subtypes is measured against every subtype right. -/
def defaultRestricted (rights : List String) (exempt media : Bool)
    (mediaRights : Option (List String)) : Bool :=
  if exempt then false
  else if "send_messages" ∈ rights then true
  else if media then
    "send_media" ∈ rights || "send_docs" ∈ rights ||
      (mediaRights.getD chatMediaSubtypeRights).any (· ∈ rights)
  else "send_plain" ∈ rights

def checkDefaultMessageRestriction (rights : List String) (exempt media : Bool)
    (mediaRights : Option (List String)) : Body Unit :=
  if defaultRestricted rights exempt media mediaRights then .fail .chatWriteForbidden
  else pure ()

/-! ## Fan-out -/

def maxChatParticipants : Nat := 200

structure Forward where
  fromID : Int
  date : Int
  channelID : Int := 0
  channelPost : Int := 0

structure FanOut where
  chatID : Int
  fromID : Int
  text : String := ""
  action : ChatAction := .none
  actionUserID : Int := 0
  randomID : Int := 0
  fileID : Int := 0
  mediaRights : Option (List String) := none
  replyToMsgID : Int := 0
  /-- Members to include although the chat's member set may not contain them: the
  removed user hears of their own removal. -/
  extra : List Int := []

structure Copy where
  chatID : Int
  fromID : Int
  text : String
  action : ChatAction
  actionUserID : Int
  randomID : Int
  fileID : Int
  replyToMsgID : Int
  fanoutID : Int
  forward : Option Forward

def Copy.row (c : Copy) (now owner localID : Int) : Message where
  ownerID := owner
  localID := localID
  peerType := .chat
  peerID := c.chatID
  fromID := c.fromID
  date := now
  text := c.text
  out := owner = c.fromID
  randomID := if owner = c.fromID then c.randomID else 0
  fanoutID := c.fanoutID
  fileID := c.fileID
  action := c.action
  actionUserID := c.actionUserID
  replyToMsgID := storedReply c.replyToMsgID
  fwdFromID := (c.forward.map (·.fromID)).getD 0
  fwdDate := c.forward.map (·.date)
  fwdChannelID := (c.forward.map (·.channelID)).getD 0
  fwdChannelPost := (c.forward.map (·.channelPost)).getD 0

/-- Row, event and dialog of one owner's copy; returns its pts and local id. -/
def deliverCopy (now : Int) (c : Copy) (owner : Int) : Body (Int × Int) := do
  let b ← bumpState now owner
  insertMessage (c.row now owner b.2)
  insertEvent owner b.1 .newMessage b.2
  upsertDialog owner .chat c.chatID b.2 (if owner = c.fromID then 0 else 1)
  pure b

/-- A fan-out makes sure of each owner's state row; a forward did so before its loop. -/
def ensureIf (ensure : Bool) (now owner : Int) : Body Unit :=
  if ensure then ensureUpdateState now owner else pure ()

def deliverCopies (now : Int) (c : Copy) (ensure : Bool) : List Int → Body (List (Int × Int × Int))
  | [] => pure []
  | owner :: owners => do
      ensureIf ensure now owner
      let b ← deliverCopy now c owner
      let rest ← deliverCopies now c ensure owners
      pure ((owner, b.1, b.2) :: rest)

def perOwnerPts (delivered : List (Int × Int × Int)) : Owned :=
  delivered.map fun x => (x.1, x.2.1)

/-- The sender's own copy of what was just delivered, if the sender received one. -/
def reloadSender (sender : Int) (delivered : List (Int × Int × Int)) : Body (Option Message) :=
  match delivered.find? (·.1 = sender) with
  | none => pure none
  | some b => do
      let m ← messageOrFail .noRows sender b.2.2
      pure (some m)

def ptsFor : List Int → Body Owned
  | [] => pure []
  | owner :: owners => do
      let s ← .query (·.getState owner)
      let s ← .orFail .noRows s
      let rest ← ptsFor owners
      pure ((owner, s.pts) :: rest)

def copyPts : List Message → Body Owned
  | [] => pure []
  | c :: cs => do
      let pts ← newMessagePts c.ownerID c.localID
      let rest ← copyPts cs
      pure ((c.ownerID, pts) :: rest)

/-- For a resend the dedup caught: the pts each stored copy occupies. A row of a 1:1
send has no fan-out to walk, and every owner's current pts is reported. -/
def fanoutPts (existing : Message) (owners : List Int) : Body Owned :=
  if existing.fanoutID = 0 then ptsFor owners
  else do
    let copies ← .query (·.messagesByFanout existing.fanoutID)
    copyPts copies

/-- What a fan-out returns: the sender's copy, each owner's pts, and whether the random
id was a repeat. -/
structure FannedOut where
  sender : Option Message
  perOwner : Owned
  dup : Bool
  deriving DecidableEq

def fanOutOwners (members extra : List Int) : List Int :=
  members ++ (extra.filter fun id => id ≠ 0 ∧ id ∉ members).dedup

def FanOut.copy (f : FanOut) (fanoutID : Int) : Copy where
  chatID := f.chatID
  fromID := f.fromID
  text := f.text
  action := f.action
  actionUserID := f.actionUserID
  randomID := f.randomID
  fileID := f.fileID
  replyToMsgID := f.replyToMsgID
  fanoutID := fanoutID
  forward := none

/-- The writing half of a fan-out, once its owners are locked and the send is new. -/
def fanOutWrite (now : Int) (f : FanOut) (owners : List Int) : Body FannedOut := do
  let fanoutID ← .nextval .fanout
  let delivered ← deliverCopies now (f.copy fanoutID) true owners
  let sender ← reloadSender f.fromID delivered
  pure ⟨sender, perOwnerPts delivered, false⟩

/-- A plain message is measured against the chat's default rights; a service message is
not. -/
def checkFanOut (f : FanOut) (chat : Chat) : Body Unit :=
  if f.action = .none then
    checkDefaultMessageRestriction chat.defaultBannedRights (f.fromID = chat.creatorID)
      (f.fileID ≠ 0) f.mediaRights
  else pure ()

/-- Under the chat's lock: settle who receives a copy, lock them, and write or answer a
repeat. -/
def fanOutLocked (now : Int) (f : FanOut) (chat : Chat) (members : List Int) : Body FannedOut :=
  if f.action = .none ∧ f.fromID ∉ members then .fail .notMember
  else if fanOutOwners members f.extra = [] then .fail .notMember
  else if maxChatParticipants < (fanOutOwners members f.extra).length then .fail .chatFull
  else do
    lockOwners (fanOutOwners members f.extra)
    lockFileRefs [f.fileID]
    let existing ← dedupRow f.fromID f.randomID
    match existing with
    | some m => do
        let pts ← fanoutPts m (fanOutOwners members f.extra)
        pure ⟨some m, pts, true⟩
    | none => do
        checkFanOut f chat
        fanOutWrite now f (fanOutOwners members f.extra)

def earlyMember (f : FanOut) : Body Bool :=
  if f.action = .none then .query (·.isChatMember f.chatID f.fromID) else pure true

/-- The in-transaction fan-out. The membership check of a plain message is repeated
under the chat's row lock; a service message's caller has made its own check. -/
def fanOut (now : Int) (f : FanOut) : Body FannedOut :=
  if f.chatID = 0 ∨ f.fromID = 0 then .fail .messageInvalid
  else do
    let early ← earlyMember f
    if !early then .fail .notMember
    else do
      let chat ← chatByIDForUpdate f.chatID
      let chat ← .orFail .notMember chat
      let members ← chatMembers f.chatID
      fanOutLocked now f chat members

def sendChatMessage (now : Int) (f : FanOut) : Body (Finish FannedOut) := do
  let r ← fanOut now f
  pure (.commit r)

/-! ## ForwardMessages -/

structure ForwardSource where
  fromID : Int
  date : Int
  text : String
  channelID : Int := 0
  channelPost : Int := 0
  fileID : Int := 0
  deriving DecidableEq

structure ForwardedMessage where
  message : Message
  pts : Int
  deriving DecidableEq

/-- Where the forwards go: a 1:1 peer, or a chat with what its locked row and member list
say. -/
inductive ForwardDest where
  | user (id : Int)
  | chat (id : Int) (rights : List String) (creatorID : Int) (members : List Int)

def ForwardSource.forward (src : ForwardSource) : Forward where
  fromID := src.fromID
  date := src.date
  channelID := src.channelID
  channelPost := if src.channelID = 0 then 0 else src.channelPost

def ForwardSource.outRow (src : ForwardSource)
    (now fromID toID randomID peerLocalID localID : Int) : Message where
  ownerID := fromID
  localID := localID
  peerType := .user
  peerID := toID
  fromID := fromID
  date := now
  text := src.text
  out := true
  randomID := randomID
  peerLocalID := peerLocalID
  fileID := src.fileID
  fwdFromID := src.fromID
  fwdDate := some src.date
  fwdChannelID := src.forward.channelID
  fwdChannelPost := src.forward.channelPost

def ForwardSource.inRow (src : ForwardSource) (now fromID toID peerLocalID localID : Int) :
    Message where
  ownerID := toID
  localID := localID
  peerType := .user
  peerID := fromID
  fromID := fromID
  date := now
  text := src.text
  out := false
  peerLocalID := peerLocalID
  fileID := src.fileID
  fwdFromID := src.fromID
  fwdDate := some src.date
  fwdChannelID := src.forward.channelID
  fwdChannelPost := src.forward.channelPost

def forwardPair (now fromID toID : Int) (src : ForwardSource) (randomID : Int) :
    Body (Owned × ForwardedMessage) := do
  let sb ← bumpState now fromID
  let rb ← bumpState now toID
  insertMessage (src.outRow now fromID toID randomID rb.2 sb.2)
  insertMessage (src.inRow now fromID toID sb.2 rb.2)
  insertEvent fromID sb.1 .newMessage sb.2
  insertEvent toID rb.1 .newMessage rb.2
  upsertDialog fromID .user toID sb.2 0
  upsertDialog toID .user fromID rb.2 1
  let stored ← messageOrFail .noRows fromID sb.2
  pure ([(fromID, sb.1), (toID, rb.1)], ⟨stored, sb.1⟩)

def forwardCopies (now fromID chatID : Int) (members : List Int) (src : ForwardSource)
    (randomID : Int) : Body (Owned × List ForwardedMessage) := do
  let fanoutID ← .nextval .fanout
  let delivered ← deliverCopies now
    { chatID, fromID, text := src.text, action := .none, actionUserID := 0, randomID,
      fileID := src.fileID, replyToMsgID := 0, fanoutID, forward := some src.forward }
    false members
  let sender ← reloadSender fromID delivered
  pure (perOwnerPts delivered,
    match sender with
    | some m => [⟨m, (ptsOf (perOwnerPts delivered) fromID).getD 0⟩]
    | none => [])

def DB.fileSubtypeRights (d : DB) (fileID : Int) : Option (List String) :=
  ((d.fileByID fileID).filter (·.stored)).bind (·.subtypeRights)

def forwardNew (now fromID : Int) (dest : ForwardDest) (src : ForwardSource) (randomID : Int) :
    Body (Owned × List ForwardedMessage) :=
  match dest with
  | .user toID => do
      let r ← forwardPair now fromID toID src randomID
      pure (r.1, [r.2])
  | .chat chatID rights creatorID members => do
      let mediaRights ← .query (·.fileSubtypeRights src.fileID)
      checkDefaultMessageRestriction rights (fromID = creatorID) (src.fileID ≠ 0) mediaRights
      forwardCopies now fromID chatID members src randomID

/-- One source: a repeated random id answers with the stored message at its pts. -/
def forwardOne (now fromID : Int) (dest : ForwardDest) (src : ForwardSource) (randomID : Int) :
    Body (Owned × List ForwardedMessage) := do
  let existing ← dedupRow fromID randomID
  match existing with
  | some m => do
      let pts ← newMessagePts fromID m.localID
      pure ([], [⟨m, pts⟩])
  | none => forwardNew now fromID dest src randomID

def forwardAll (now fromID : Int) (dest : ForwardDest) :
    List (ForwardSource × Int) → Body (Owned × List ForwardedMessage)
  | [] => pure ([], [])
  | (src, randomID) :: rest => do
      let one ← forwardOne now fromID dest src randomID
      let all ← forwardAll now fromID dest rest
      pure (one.1 ++ all.1, one.2 ++ all.2)

def ensureAll (now : Int) : List Int → Body Unit
  | [] => pure ()
  | u :: us => do
      ensureUpdateState now u
      ensureAll now us

def forwardDest (fromID : Int) (peerType : PeerType) (peerID : Int) : Body ForwardDest :=
  if peerType = .chat then do
    let chat ← chatByIDForUpdate peerID
    let chat ← .orFail .notMember chat
    let member ← .query (·.isChatMember peerID fromID)
    if !member then .fail .notMember
    else do
      let members ← chatMembers peerID
      pure (.chat peerID chat.defaultBannedRights chat.creatorID members)
  else pure (.user peerID)

def ForwardDest.owners (fromID : Int) : ForwardDest → List Int
  | .user id => [fromID, id]
  | .chat _ _ _ members => members

/-- Forwards messages to a user or a chat. Returns the pts of each affected user, the
later ones last, and the caller's copies. -/
def forwardMessages (now fromID : Int) (peerType : PeerType) (peerID : Int)
    (sources : List ForwardSource) (randomIDs : List Int) :
    Body (Finish (Owned × List ForwardedMessage)) :=
  if sources = [] ∨ randomIDs.length ≠ sources.length then .fail .messageInvalid
  else if peerType = .user ∧ peerID = fromID then .fail .messageInvalid
  else do
    let dest ← forwardDest fromID peerType peerID
    lockOwners (fromID :: dest.owners fromID)
    lockFileRefs (sources.map (·.fileID))
    ensureAll now (dest.owners fromID)
    let r ← forwardAll now fromID dest (sources.zip randomIDs)
    pure (.commit r)

/-! ## Chat mutations -/

structure ChatMutation where
  creatorID : Int
  defaultBannedRights : List String
  members : List Int
  admins : List Int

/-- Opens a membership change: the chat's row lock, and the caller's membership
re-checked under it. -/
def beginChatMutation (chatID callerID : Int) : Body ChatMutation := do
  let early ← .query (·.isChatMember chatID callerID)
  if !early then .fail .notMember
  else do
    let chat ← chatByIDForUpdate chatID
    let chat ← .orFail .notMember chat
    let parts ← .query (·.chatParticipants chatID)
    if callerID ∉ parts.map (·.userID) then .fail .notMember
    else
      pure ⟨chat.creatorID, chat.defaultBannedRights, parts.map (·.userID),
        (parts.filter (·.admin)).map (·.userID)⟩

def createMembers (creatorID : Int) (memberIDs : List Int) : List Int :=
  (creatorID :: memberIDs).eraseDups

def inviteeBlocks (creatorID id : Int) : Body Bool :=
  if id ≠ creatorID then .query (·.isBlocked id creatorID) else pure false

def unblockedMembers (creatorID : Int) : List Int → Body (List Int)
  | [] => pure []
  | id :: ids => do
      let blocked ← inviteeBlocks creatorID id
      let rest ← unblockedMembers creatorID ids
      pure (if blocked then rest else id :: rest)

def createChat (now creatorID : Int) (title : String) (memberIDs : List Int) : Body (Finish Chat) :=
  if maxChatParticipants < (createMembers creatorID memberIDs).length then .fail .chatFull
  else do
    let members ← unblockedMembers creatorID (createMembers creatorID memberIDs)
    let id ← .nextval .chat
    let chat : Chat := { id, title, creatorID, date := now }
    .exec_ (.insertChat chat members)
    pure (.commit chat)

/-- What adding or removing a user returns: whether anything changed, and the
announcement. -/
structure MemberChange where
  changed : Bool
  announced : Option FannedOut
  deriving DecidableEq

/-- Whether a target that is not a member yet has blocked the inviter. -/
def targetBlocks (members : List Int) (target callerID : Int) : Body Bool :=
  if target ∉ members then .query (·.isBlocked target callerID) else pure false

/-- Adds a user and announces it. An existing member is left alone. -/
def addChatUser (now chatID target callerID : Int) : Body (Finish MemberChange) := do
  let m ← beginChatMutation chatID callerID
  if target ∉ m.members ∧ callerID ≠ m.creatorID ∧ "invite_users" ∈ m.defaultBannedRights then
    .fail .chatWriteForbidden
  else do
    let blocked ← targetBlocks m.members target callerID
    if blocked then .fail .notMember
    else do
      lockOwners (m.members ++ [target])
      -- A block may have committed while the owner locks were waited for.
      let blocked ← targetBlocks m.members target callerID
      if blocked then .fail .notMember
      else if target ∉ m.members ∧ maxChatParticipants ≤ m.members.length then .fail .chatFull
      else do
        let present ← .exec (.insertChatParticipantIfAbsent
          { chatID, userID := target, inviterID := callerID, date := now })
          (·.isChatMember chatID target)
        if present then pure (.commit ⟨false, none⟩)
        else do
          .exec_ (.bumpChatVersion chatID)
          let r ← fanOut now
            { chatID, fromID := callerID, action := .addUser, actionUserID := target }
          pure (.commit ⟨true, some r⟩)

/-- Deletes one participant row under that user's advisory lock; reports whether it was
there. -/
def removeParticipant (chatID userID : Int) : Body Bool := do
  lockOwners [userID]
  .exec (.deleteChatParticipant chatID userID) (·.isChatMember chatID userID)

/-- Removes a user, or lets the caller leave, and announces it to the remaining members
and to the removed user. -/
def removeChatUser (now chatID target callerID : Int) : Body (Finish MemberChange) := do
  let m ← beginChatMutation chatID callerID
  if target = m.creatorID ∨ (callerID ≠ m.creatorID ∧ target ≠ callerID) then .fail .notMember
  else do
    lockOwners (m.members ++ [target])
    let removed ← removeParticipant chatID target
    if !removed then pure (.commit ⟨false, none⟩)
    else do
      .exec_ (.bumpChatVersion chatID)
      let r ← fanOut now
        { chatID, fromID := callerID, action := .deleteUser, actionUserID := target,
          extra := [target] }
      pure (.commit ⟨true, some r⟩)

def setChatTitle (now chatID callerID : Int) (title : String) :
    Body (Finish (Chat × FannedOut)) := do
  let m ← beginChatMutation chatID callerID
  if callerID ≠ m.creatorID then .fail .notMember
  else do
    lockOwners m.members
    .exec_ (.setChatTitle chatID title)
    let chat ← .query (·.chatByID chatID)
    let chat ← .orFail .noRows chat
    let r ← fanOut now { chatID, fromID := callerID, text := title, action := .editTitle }
    pure (.commit (chat, r))

def sameDefaultBannedRights (a b : List String) : Bool :=
  a.all (· ∈ b) && b.all (· ∈ a)

def setChatDefaultBannedRights (chatID callerID : Int) (rights : List String) :
    Body (Finish (Option Chat)) := do
  let m ← beginChatMutation chatID callerID
  if callerID ≠ m.creatorID then .fail .notMember
  else if sameDefaultBannedRights m.defaultBannedRights rights then pure (.commit none)
  else do
    .exec_ (.setChatDefaultBannedRights chatID rights)
    let chat ← .query (·.chatByID chatID)
    let chat ← .orFail .noRows chat
    pure (.commit (some chat))

/-- Changes a participant's administrator flag. The versioned event it records for the
members is no part of the model. -/
def setChatAdmin (chatID targetID callerID : Int) (admin : Bool) : Body (Finish Bool) := do
  let m ← beginChatMutation chatID callerID
  if callerID ≠ m.creatorID then .fail .chatAdminRequired
  else if targetID = m.creatorID then .fail .chatAdminTargetCreator
  else if targetID ∉ m.members then .fail .chatTargetNotMember
  else if (targetID ∈ m.admins : Bool) = admin then pure (.rollback false)
  else do
    .exec_ (.setChatParticipantAdmin chatID targetID admin)
    .exec_ (.bumpChatVersion chatID)
    pure (.commit true)

def pinValid (chatID callerID : Int) : Option Int → Body Bool
  | none => pure true
  | some id => do
      let msg ← messageOrFail .messageInvalid callerID id
      pure (!(msg.deleted || msg.peerType ≠ .chat || msg.peerID ≠ chatID))

def setChatPinnedMessage (chatID callerID : Int) (pinned : Option Int) :
    Body (Finish (Chat × List Int)) := do
  let m ← beginChatMutation chatID callerID
  lockOwners m.members
  let valid ← pinValid chatID callerID pinned
  if !valid then .fail .messageInvalid
  else do
    .exec_ (.setChatPinnedMessage chatID pinned)
    let chat ← .query (·.chatByID chatID)
    let chat ← .orFail .noRows chat
    pure (.commit (chat, m.members))

/-- Checks a new document send before the upload is assembled; reports a repeat. -/
def checkChatWritePermission (chatID callerID randomID : Int)
    (mediaRights : Option (List String)) : Body (Finish Bool) := do
  let m ← beginChatMutation chatID callerID
  let existing ← dedupRow callerID randomID
  if existing.isSome then pure (.commit true)
  else do
    checkDefaultMessageRestriction m.defaultBannedRights (callerID = m.creatorID) true mediaRights
    pure (.commit false)

def reactionWrite (owner localID reactor : Int) : Option String → Write
  | some reaction => .upsertReaction owner localID reactor reaction
  | none => .deleteReaction owner localID reactor

def reactCopies (reactor : Int) (reaction : Option String) (members : List Int) :
    List Message → Body Owned
  | [] => pure []
  | c :: cs =>
    if c.ownerID ∈ members then do
      .exec_ (reactionWrite c.ownerID c.localID reactor reaction)
      let rest ← reactCopies reactor reaction members cs
      pure ((c.ownerID, c.localID) :: rest)
    else reactCopies reactor reaction members cs

def chatReaction (reactor : Int) (pre : Message) (reaction : Option String) :
    Body Owned := do
  let copies ← chatCopies pre
  lockOwners (copies.map (·.ownerID))
  let msg ← messageOrFail .messageInvalid pre.ownerID pre.localID
  if msg.deleted then .fail .messageInvalid
  else do
    let members ← chatMembers pre.peerID
    if reactor ∉ members then .fail .notMember
    else do
      let affected ← reactCopies reactor reaction members copies
      -- Only setting a reaction insists on having reached a copy.
      if affected = [] ∧ reaction.isSome then .fail .notMember else pure affected

/-- `SendReaction` for `some reaction`, `ClearReaction` for `none`. Returns the copies
it reached. -/
def react (owner localID : Int) (reaction : Option String) :
    Body (Finish Owned) := do
  let msg ← messageOrFail .messageInvalid owner localID
  if msg.deleted then .fail .messageInvalid
  else if msg.peerType = .chat then do
    let affected ← chatReaction owner msg reaction
    pure (.commit affected)
  else do
    lockOwners [owner, msg.peerID]
    let cur ← messageOrFail .messageInvalid owner localID
    if cur.deleted then .fail .messageInvalid
    else do
      .exec_ (reactionWrite owner localID owner reaction)
      if owner = msg.peerID then pure (.commit [(owner, localID)])
      else do
        .exec_ (reactionWrite msg.peerID cur.peerLocalID owner reaction)
        pure (.commit [(owner, localID), (msg.peerID, cur.peerLocalID)])

structure ChatReadHistoryResult where
  pts : Int
  ptsCount : Int
  notifyUserIDs : List Int
  deriving DecidableEq

/-- Maps the covered inbound copies to each current sender's own message ids: the sender
and the newest of the sender's copies that was read. -/
def DB.chatReadReceiptTargets (d : DB) (owner chat afterID maxID : Int) (members : List Int) :
    Owned :=
  let covered := d.messages.filter fun m => m.ownerID = owner ∧ m.peerType = .chat ∧
    m.peerID = chat ∧ m.out = false ∧ m.deleted = false ∧ m.fanoutID ≠ 0 ∧
    afterID < m.localID ∧ m.localID ≤ maxID ∧ m.fromID ∈ members
  (ascendingUnique (covered.map (·.fromID))).filterMap fun sender =>
    let copies := d.messages.filter fun m => m.ownerID = sender ∧ m.fanoutID ≠ 0 ∧
      m.out = true ∧ m.peerType = .chat ∧ m.peerID = chat ∧
      covered.any fun c => c.fromID = sender ∧ c.fanoutID = m.fanoutID
    if copies = [] then none else some (sender, (copies.map (·.localID)).foldl max 0)

/-- Outbox marker, pts bump and event for each sender whose messages were read; returns
the senders reached. -/
def readReceipts (now chat : Int) : Owned → Body (List Int)
  | [] => pure []
  | (sender, maxID) :: rest => do
      let markers ← .query (·.dialog sender .chat chat)
      let markers ← .orFail .noRows markers
      if maxID ≤ markers.readOutboxMaxID then readReceipts now chat rest
      else do
        let rows ← .exec (.advanceReadOutbox sender .chat chat maxID) fun d =>
          (d.dialogs.filter (Dialog.isFor sender .chat chat)).length
        if rows ≠ 1 then .fail .noRows
        else do
          let pts ← bumpPtsOnly now sender
          insertEvent sender pts .readOut maxID
          let reached ← readReceipts now chat rest
          pure (sender :: reached)

def advanceChatReadHistory (now owner chat bound : Int) (members : List Int) :
    Body ChatReadHistoryResult := do
  let markers ← .query (·.dialog owner .chat chat)
  match markers.filter (·.readInboxMaxID < bound) with
  | none => do
      let s ← .query (·.getState owner)
      pure ⟨(s.map (·.pts)).getD 0, 0, []⟩
  | some g => do
      let targets ← .query (·.chatReadReceiptTargets owner chat g.readInboxMaxID bound members)
      let marker ← .exec (.advanceChatReadInbox owner .chat chat bound) fun d =>
        (d.dialog owner .chat chat).map fun g => max g.readInboxMaxID bound
      let marker ← .orFail .noRows marker
      let pts ← bumpPtsOnly now owner
      insertEvent owner pts .readIn marker
      let reached ← readReceipts now chat targets
      pure ⟨pts, 1, owner :: reached⟩

/-- One attempt, with the members read before the locks; `none` asks for another one,
since a member was added meanwhile. -/
def readChatHistoryAttempt (now owner chat bound : Int) (memberIDs : List Int) :
    Body (Finish (Option ChatReadHistoryResult)) := do
  lockOwners memberIDs
  let members ← chatMembers chat
  if maxChatParticipants < members.length then .fail .overCap
  else if members.any (· ∉ memberIDs) then pure (.rollback none)
  else if owner ∉ members then .fail .notMember
  else do
    let r ← advanceChatReadHistory now owner chat bound members
    pure (.commit (some r))

def DB.hasChatCopy (d : DB) (owner chat localID : Int) : Bool :=
  d.messages.any fun m => m.ownerID = owner ∧ m.peerType = .chat ∧ m.peerID = chat ∧
    m.localID = localID

/-- An attempt of `ReadChatHistory`. What `MaxChatReadMessageID` found before the first attempt, for
whatever `max_id`, is zero or the id of a copy that the reader has. -/
def readChatHistory (now owner chat bound : Int) (memberIDs : List Int) :
    Body (Finish (Option ChatReadHistoryResult)) := do
  let found ← .query fun d => decide (bound = 0) || d.hasChatCopy owner chat bound
  if !found then .fail .noRows
  else readChatHistoryAttempt now owner chat bound memberIDs

def validBlockIDs (blockerID blockedID : Int) : Bool :=
  0 < blockerID ∧ 0 < blockedID ∧ blockerID ≠ blockedID

def blockUser (now blockerID blockedID : Int) : Body (Finish Bool) :=
  if !validBlockIDs blockerID blockedID then .fail .invalidBlock
  else do
    lockOwners [blockerID, blockedID]
    let there ← .exec (.insertBlockedUser { blockerID, blockedID, date := now })
      (·.isBlocked blockerID blockedID)
    pure (.commit (!there))

def unblockUser (blockerID blockedID : Int) : Body (Finish Bool) :=
  if !validBlockIDs blockerID blockedID then .fail .invalidBlock
  else do
    lockOwners [blockerID, blockedID]
    let there ← .exec (.deleteBlockedUser blockerID blockedID) (·.isBlocked blockerID blockedID)
    pure (.commit there)

end TelegramServer.Store
