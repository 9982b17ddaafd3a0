import TelegramServer.Store.Invariant
import TelegramServer.Store.Chats
import TelegramServer.Store.Polls

/-!
# What each call of the store does

The calls whose transactions interleave, and for each one what it did when it
succeeded: the acts that lead from the state it committed on to the state it
left, and what its answer says about them.
-/

namespace TelegramServer.Store

open Tx List

variable {as : List Act} {d w : DB}

structure ChatSend where
  chatID : Int
  fromID : Int
  text : String
  randomID : Int
  fileID : Int
  mediaRights : Option (List String)
  replyToMsgID : Int
  deriving DecidableEq

def ChatSend.fanOut (p : ChatSend) : FanOut where
  chatID := p.chatID
  fromID := p.fromID
  text := p.text
  randomID := p.randomID
  fileID := p.fileID
  mediaRights := p.mediaRights
  replyToMsgID := p.replyToMsgID

def createAnnouncement (chatID creatorID : Int) (title : String) : FanOut where
  chatID := chatID
  fromID := creatorID
  text := title
  action := .create

/-- One call of the store. `now` is the start time of its transaction. -/
inductive Call where
  | send (now : Int) (p : SendParams)
  | sendChat (now : Int) (p : ChatSend)
  | announceChat (now chatID creatorID : Int) (title : String)
  | forward (now fromID : Int) (toChat : Bool) (peerID : Int) (sources : List ForwardSource)
      (randomIDs : List Int)
  | edit (now owner localID : Int) (text : String)
  | delete (now owner : Int) (localIDs : List Int) (revoke : Bool)
  | readHistory (now owner peer maxID : Int)
  | readChat (now owner chat bound : Int) (memberIDs : List Int)
  | createChat (now creatorID : Int) (title : String) (memberIDs : List Int)
  | addChatUser (now chatID target callerID : Int)
  | removeChatUser (now chatID target callerID : Int)
  | setChatTitle (now chatID callerID : Int) (title : String)
  | setChatRights (chatID callerID : Int) (rights : List String)
  | setChatAdmin (chatID targetID callerID : Int) (admin : Bool)
  | setChatPin (chatID callerID : Int) (pinned : Option Int)
  | checkChatWrite (chatID callerID randomID : Int) (mediaRights : Option (List String))
  | react (owner localID : Int) (reaction : Option String)
  | block (now blockerID blockedID : Int)
  | unblock (blockerID blockedID : Int)
  | castVote (times : VoteTimes) (viewerID : Int) (ref : PollMessageRef) (selected : List Bytes)
  | closePoll (callerID : Int) (ref : PollMessageRef)
  | createPoll (times : CreateTimes) (ids : List Int) (creatorID : Int) (ref : PollMessageRef)
      (draft : PollDraft)
  | viewPoll (clock viewerID : Int) (ref : PollMessageRef)
  deriving DecidableEq

inductive Reply where
  | sent (r : Sent)
  | fannedOut (r : FannedOut)
  | forwarded (perOwner : Owned) (messages : List ForwardedMessage)
  | edited (peerID pts : Int)
  | perOwner (pts : Owned)
  | read (readerPts peerPts : Int)
  | chatRead (r : Option ChatReadHistoryResult)
  | chat (c : Chat)
  | memberChange (r : MemberChange)
  | titled (c : Chat) (r : FannedOut)
  | rights (c : Option Chat)
  | pinned (c : Chat) (members : List Int)
  | copies (affected : Owned)
  | flag (b : Bool)
  | poll (view : PollView)
  | created (view : PollView) (duplicate : Bool)
  deriving DecidableEq

def forwardPeerType (toChat : Bool) : PeerType :=
  if toChat then .chat else .user

def answer {A : Type} (f : A → Reply) (p : Body (Finish A)) : Body (Finish Reply) := do
  let r ← p
  match r with
  | .commit a => pure (.commit (f a))
  | .rollback a => pure (.rollback (f a))

def code : Call → Body (Finish Reply)
  | .send now p => answer .sent (sendMessage now p)
  | .sendChat now p => answer .fannedOut (sendChatMessage now p.fanOut)
  | .announceChat now chatID creatorID title =>
    answer .fannedOut (sendChatMessage now (createAnnouncement chatID creatorID title))
  | .forward now fromID toChat peerID sources randomIDs =>
    answer (fun r => .forwarded r.1 r.2)
      (forwardMessages now fromID (forwardPeerType toChat) peerID sources randomIDs)
  | .edit now owner localID text =>
    answer (fun r => .edited r.1 r.2) (editMessage now owner localID text)
  | .delete now owner localIDs revoke => answer .perOwner (deleteMessages now owner localIDs revoke)
  | .readHistory now owner peer maxID =>
    answer (fun r => .read r.1 r.2) (readHistory now owner peer maxID)
  | .readChat now owner chat bound memberIDs =>
    answer .chatRead (readChatHistory now owner chat bound memberIDs)
  | .createChat now creatorID title memberIDs =>
    answer .chat (createChat now creatorID title memberIDs)
  | .addChatUser now chatID target callerID =>
    answer .memberChange (addChatUser now chatID target callerID)
  | .removeChatUser now chatID target callerID =>
    answer .memberChange (removeChatUser now chatID target callerID)
  | .setChatTitle now chatID callerID title =>
    answer (fun r => .titled r.1 r.2) (setChatTitle now chatID callerID title)
  | .setChatRights chatID callerID rights =>
    answer .rights (setChatDefaultBannedRights chatID callerID rights)
  | .setChatAdmin chatID targetID callerID admin =>
    answer .flag (setChatAdmin chatID targetID callerID admin)
  | .setChatPin chatID callerID pinned =>
    answer (fun r => .pinned r.1 r.2) (setChatPinnedMessage chatID callerID pinned)
  | .checkChatWrite chatID callerID randomID mediaRights =>
    answer .flag (checkChatWritePermission chatID callerID randomID mediaRights)
  | .react owner localID reaction => answer .copies (react owner localID reaction)
  | .block now blockerID blockedID => answer .flag (blockUser now blockerID blockedID)
  | .unblock blockerID blockedID => answer .flag (unblockUser blockerID blockedID)
  | .castVote times viewerID ref selected => answer .poll (castPollVote times viewerID ref selected)
  | .closePoll callerID ref => answer .flag (closePoll callerID ref)
  | .createPoll times ids creatorID ref draft =>
    answer (fun r => .created r.1 r.2) (createPoll times ids creatorID ref draft)
  | .viewPoll clock viewerID ref => answer .poll (pollForMessage clock viewerID ref)

/-! ## Specifications -/

/-- A transaction that committed on `d` did `as`; every new 1:1 row has its mirror. -/
structure Did (as : List Act) (d w : DB) : Prop where
  ok : ActsOk as d
  mirrored : Mirrored (newRows as)
  eq : w = runActs as d

theorem Did.nil (d : DB) : Did [] d d :=
  ⟨trivial, fun m hm => by simp [newRows] at hm, rfl⟩

theorem Did.inv (h : Did as d w) (hd : Inv d) : Inv w :=
  h.eq ▸ hd.runActs h.ok h.mirrored

theorem Did.append {bs : List Act} {v : DB} (h : Did as d v) (h' : Did bs v w) :
    Did (as ++ bs) d w where
  ok := actsOk_append.mpr ⟨h.ok, h.eq ▸ h'.ok⟩
  mirrored := by
    rw [newRows_append]
    exact h.mirrored.append h'.mirrored
  eq := by rw [runActs_append, ← h.eq, ← h'.eq]

theorem Did.new_row (h : Did as d w) {x : Message} (hx : x ∈ w.messages)
    (hnew : x.frozen ∉ d.messages.map Message.frozen) : ∃ y ∈ newRows as, y.frozen = x.frozen := by
  rw [h.eq] at hx
  rcases h.ok.mem_messages hx with ⟨y, hy, heq⟩ | hrow
  · exact absurd (heq ▸ mem_map_of_mem hy) hnew
  · exact hrow

theorem Did.stored (h : Did as d w) {y : Message} (hy : y ∈ newRows as) :
    ∃ x ∈ w.messages, x.frozen = y.frozen := by
  have hmem : y.frozen ∈ (runActs as d).messages.map Message.frozen := by
    rw [h.ok.frozen_messages]
    exact mem_append_right _ (mem_map_of_mem hy)
  rw [← h.eq] at hmem
  exact mem_map.mp hmem

structure Answers (d : DB) (sender randomID : Int) (m : Message) (pts : Int) : Prop where
  mem : m ∈ d.messages
  owner : m.ownerID = sender
  randomID : m.randomID = randomID
  event : ⟨sender, pts, .newMessage, m.localID⟩ ∈ d.events

def CopyOf (m x : Message) : Prop :=
  x.frozen = m.frozen ∨ (m.fanoutID ≠ 0 ∧ x.fanoutID = m.fanoutID) ∨
    (m.peerID ≠ m.ownerID ∧ Mirror m x)

def Unsent (d : DB) (sender randomID : Int) : Prop :=
  randomID ≠ 0 → ∀ m ∈ d.messages, m.ownerID = sender → m.randomID ≠ randomID

def DB.chatRow (d : DB) (c owner localID : Int) : Prop :=
  ∃ m ∈ d.messages, Message.isAt owner localID m ∧ m.peerType = .chat ∧ m.peerID = c

def Act.onChat (d : DB) (c : Int) : Act → Prop
  | .ensure _ _ => True
  | .post m _ _ => m.peerType = .chat ∧ m.peerID = c
  | .edit owner localID _ _ => d.chatRow c owner localID
  | .side (.upsertReaction owner localID _ _) => d.chatRow c owner localID
  | .side (.deleteReaction owner localID _) => d.chatRow c owner localID
  | .side (.insertChat row _) => row.id = c ∧ row.pinnedMessageID = none
  | .side (.setChatPinnedMessage _ _) => False
  | .side o => o.chat = some c
  | _ => False

/-- Acts on behalf of the chat `c` that reach only owners who are members of it in the
end, and `extra`. -/
def OnChat (c : Int) (extra : Int → Prop) (as : List Act) (d w : DB) : Prop :=
  ∀ a ∈ as, a.onChat d c ∧ ∀ u, a.owner = some u → w.isChatMember c u ∨ extra u

def Act.offChat (d : DB) : Act → Prop
  | .ensure _ _ => True
  | .post m _ _ => m.peerType = .user
  | .edit owner localID _ _ => ∀ c, ¬ d.chatRow c owner localID
  | .side (.upsertReaction owner localID _ _) => ∀ c, ¬ d.chatRow c owner localID
  | .side (.deleteReaction owner localID _) => ∀ c, ¬ d.chatRow c owner localID
  | .side (.insertBlockedUser _) => True
  | .side (.deleteBlockedUser _ _) => True
  | _ => False

def OffChat (as : List Act) (d : DB) : Prop :=
  ∀ a ∈ as, a.offChat d

theorem offChat_append {bs : List Act} (h : OffChat as d) (h' : OffChat bs d) :
    OffChat (as ++ bs) d :=
  fun a ha => (mem_append.mp ha).elim (h a) (h' a)

def SendSpec (p : SendParams) (d : DB) (r : Sent) (w : DB) : Prop :=
  Answers w p.fromID p.randomID r.message r.senderPts ∧ (r.dup = true ∧ p.randomID ≠ 0 ∧ w = d ∨
      r.dup = false ∧ Unsent d p.fromID p.randomID ∧
        ∃ as, Did as d w ∧ OffChat as d ∧ (∀ x ∈ newRows as, CopyOf r.message x) ∧
          ∀ u, u ∈ announced as ↔ u = p.fromID ∨ u = p.toID)

/-- A chat send also answers with the sender's row. Its pts is where that row sits in
the log, unless the random id was used for a 1:1 message: then it is the current one. -/
def SendChatSpec (p : ChatSend) (d : DB) (r : FannedOut) (w : DB) : Prop :=
  w.isChatMember p.chatID p.fromID ∧ ∃ m, r.sender = some m ∧ m ∈ w.messages ∧
    m.ownerID = p.fromID ∧ m.randomID = p.randomID ∧
    (m.fanoutID = 0 ∧ ptsOf r.perOwner p.fromID = some (d.ptsOf p.fromID) ∨
      ∃ pts, ptsOf r.perOwner p.fromID = some pts ∧ Answers w p.fromID p.randomID m pts) ∧
    (r.dup = true ∧ p.randomID ≠ 0 ∧ w = d ∨ r.dup = false ∧ Unsent d p.fromID p.randomID ∧
        ∃ as, Did as d w ∧ OnChat p.chatID (fun _ => False) as d w ∧
          (∀ x ∈ newRows as, CopyOf m x) ∧ announced as = r.perOwner.map Prod.fst)

def ForwardSpec (fromID : Int) (toChat : Bool) (peerID : Int) (randomIDs : List Int) (d : DB)
    (perOwner : Owned) (messages : List ForwardedMessage) (w : DB) : Prop :=
  List.Forall₂ (fun r f => Answers w fromID r f.message f.pts) randomIDs messages ∧
    ∃ as, Did as d w ∧ announced as = perOwner.map Prod.fst ∧
      (∀ x ∈ newRows as, ∃ f ∈ messages, CopyOf f.message x ∧ Unsent d fromID f.message.randomID) ∧
      (toChat = true → w.isChatMember peerID fromID ∧ OnChat peerID (fun _ => False) as d w) ∧
      (toChat = false → OffChat as d)

def RowSpec (owner localID : Int) (as : List Act) (d w : DB) : Prop :=
  Did as d w ∧ newRows as = [] ∧ ∃ m ∈ d.messages, Message.isAt owner localID m ∧
    (m.peerType = .chat → w.isChatMember m.peerID owner ∧ OnChat m.peerID (fun _ => False) as d w) ∧
    (m.peerType ≠ .chat → OffChat as d ∧ ∀ u ∈ announced as, u = owner ∨ u = m.peerID)

def ChatSpec (chatID callerID : Int) (extra : Int → Prop) (as : List Act) (d w : DB) : Prop :=
  Did as d w ∧ d.isChatMember chatID callerID ∧ OnChat chatID extra as d w

/-- A pin is set to a live message of the chat, under the caller's id for it, or cleared. -/
structure PinSpec (chatID callerID : Int) (pinned : Option Int) (d w : DB) : Prop where
  member : d.isChatMember chatID callerID
  names : ∀ id, pinned = some id → ∃ m ∈ d.messages, Message.isAt callerID id m ∧
    m.deleted = false ∧ m.peerType = .chat ∧ m.peerID = chatID
  did : Did [.side (.setChatPinnedMessage chatID pinned)] d w

def Act.deletes : Act → Prop
  | .delete _ _ _ => True
  | .side (.unlinkPoll _ _ _) => True
  | .side (.deleteUnlinkedPoll _) => True
  | _ => False

inductive Deletes : List Act → DB → Prop where
  | nil (d : DB) : Deletes [] d
  | snoc {as : List Act} {d : DB} (owner localID now : Int) (h : Deletes as d)
      (hlive : ∃ m ∈ (runActs as d).messages, Message.isAt owner localID m ∧ m.deleted = false) :
      Deletes (as ++ ((pollMessageCopyCleanup owner localID
        ((runActs as d).cleanedPoll owner localID)).map .side ++
          [Act.delete owner localID now])) d

def DeleteSpec (d : DB) (pts : Owned) (w : DB) : Prop :=
  ∃ as, Did as d w ∧ (∀ u, u ∈ announced as ↔ u ∈ pts.map Prod.fst) ∧ (∀ a ∈ as, a.deletes) ∧
    Deletes as d

/-- What a read of the history with the peer does, on the dialog `g`. -/
def readActs (now owner peer maxID : Int) (g : Dialog) (d : DB) : List Act :=
  if owner = peer then
    [.side (.advanceReadInbox owner .user peer maxID),
      .mark owner .readIn (max g.readInboxMaxID maxID) now]
  else
    [.side (.advanceReadInbox owner .user peer maxID),
      .side (.advanceReadOutbox peer .user owner (d.maxPeerLocalID owner peer maxID)),
      .mark owner .readIn (max g.readInboxMaxID maxID) now,
      .mark peer .readOut (d.maxPeerLocalID owner peer maxID) now]

def ReadSpec (now owner peer maxID : Int) (d w : DB) : Prop :=
  w = d ∨ ∃ g, d.dialog owner .user peer = some g ∧ Did (readActs now owner peer maxID g d) d w

def DB.chatOutbox (d : DB) (owner chat : Int) : Int :=
  ((d.dialog owner .chat chat).map (·.readOutboxMaxID)).getD 0

/-- The senders whose outbox marker a read of the chat moves, and to where. -/
def DB.chatReceipts (d : DB) (owner chat bound : Int) (g : Dialog) (members : List Int) :
    Owned :=
  (d.chatReadReceiptTargets owner chat g.readInboxMaxID bound members).filter fun t =>
    d.chatOutbox t.1 chat < t.2

def receiptActs (now chat : Int) (t : Int × Int) : List Act :=
  [.side (.advanceReadOutbox t.1 .chat chat t.2), .mark t.1 .readOut t.2 now]

/-- What a read of the chat does, on the reader's dialog `g`. -/
def chatReadActs (now owner chat bound : Int) (g : Dialog) (receipts : Owned) : List Act :=
  .side (.advanceChatReadInbox owner .chat chat bound) ::
    .mark owner .readIn (max g.readInboxMaxID bound) now :: receipts.flatMap (receiptActs now chat)

/-- A read of a chat moves the reader's marker, to one of the reader's copies. -/
structure ChatReads (now owner chat bound : Int) (d : DB) (g : Dialog) (members : List Int)
    (w : DB) : Prop where
  dialog : d.dialog owner .chat chat = some g
  moves : g.readInboxMaxID < bound
  copy : bound = 0 ∨ d.hasChatCopy owner chat bound
  senders : ∀ t ∈ d.chatReceipts owner chat bound g members, (d.dialog t.1 .chat chat).isSome
  did : Did (chatReadActs now owner chat bound g (d.chatReceipts owner chat bound g members)) d w

def ChatReadSpec (now owner chat bound : Int) (d : DB) (r : Option ChatReadHistoryResult) (w : DB) :
    Prop :=
  w = d ∧ (r.map (·.notifyUserIDs)).getD [] = [] ∨
    ∃ g members, ChatReads now owner chat bound d g members w ∧ (r.map (·.notifyUserIDs)).getD [] =
      owner :: (d.chatReceipts owner chat bound g members).map Prod.fst

/-- The poll as the viewer sees it on the tables `d`. -/
def DB.pollView (d : DB) (clock : Int) (row : Poll) (viewerID : Int) : Option PollView :=
  (d.pollIsClosed row.id clock).map fun closed =>
    .of row viewerID closed (d.hasPollVote row.id viewerID) (d.pollVoterCount row.id)
      (d.pollOptionResults row.id viewerID)

def voteWrites (poll voter : Int) (hasVote : Bool) (options : List Bytes) : List Write :=
  if options = [] then if hasVote then [.deletePollVote poll voter] else []
  else
    .insertPollVote poll voter :: .deletePollVoteOptionsByVoter poll voter ::
      options.map (.insertPollVoteOption poll voter)

/-- The vote is admitted: the poll is open, the options are its own, one of them unless more may be
chosen, and no vote is there that has to stay. -/
structure VoteOk (checked : Int) (row : Poll) (voter : Int) (options : List Bytes) (d : DB) :
    Prop where
  isOpen : d.pollIsClosed row.id checked = some false
  single : 1 < options.length → row.multipleChoice = true
  known : ∀ o ∈ options, o ∈ (d.pollOptionResults row.id voter).map (·.option)
  revote : row.revotingDisabled = true → d.hasPollVote row.id voter = false

def CastSpec (times : VoteTimes) (viewerID : Int) (selected : List Bytes) (d : DB)
    (view : PollView) (w : DB) : Prop :=
  ∃ row options os, d.pollByID row.id = some row ∧ normalizePollSelection selected = some options ∧
    w.pollView times.viewed row viewerID = some view ∧ Did (os.map .side) d w ∧
    (os = [] ∧ samePollSelection (d.pollVoteOptionsByVoter row.id viewerID) options ∨
      VoteOk times.checked row viewerID options d ∧
      os = voteWrites row.id viewerID (d.hasPollVote row.id viewerID) options)

def ClosePollSpec (d : DB) (b : Bool) (w : DB) : Prop :=
  ∃ poll, d.pollByID poll.id = some poll ∧ (poll.closed = true ∧ b = false ∧ w = d ∨
    poll.closed = false ∧ Did [.side (.closePoll poll.id)] d w)

/-- What makes a poll with its options, and links message copies to it. -/
def createWrites (row : Poll) (options : List PollOption) (links : Owned) : List Write :=
  .insertPoll row :: (options.map .insertPollOption ++
    links.map fun k => .insertPollMessageCopy k.1 k.2 row.id)

structure NewPoll (d : DB) (row : Poll) (options : List PollOption) (links : Owned) : Prop where
  absent : d.hasPoll row.id = false
  isOpen : row.closed = false
  quiz : row.quiz = true → row.revotingDisabled = true
  own : ∀ o ∈ options, o.pollID = row.id
  distinct : (options.map (·.option)).Nodup
  linked : links ≠ []
  once : links.Nodup
  free : ∀ k ∈ links, d.hasPollCopy k.1 k.2 = false
  live : ∀ k ∈ links, ∃ m ∈ d.messages, Message.isAt k.1 k.2 m ∧ m.deleted = false

def CreatePollSpec (times : CreateTimes) (creatorID : Int) (d : DB) (view : PollView)
    (duplicate : Bool) (w : DB) : Prop :=
  duplicate = true ∧ w = d ∨ duplicate = false ∧ ∃ row options links, NewPoll d row options links ∧
      Did ((createWrites row options links).map .side) d w ∧
      w.pollView times.viewed row creatorID = some view

def Spec : Call → DB → Reply → DB → Prop
  | .send _ p, d, .sent r, w => SendSpec p d r w
  | .sendChat _ p, d, .fannedOut r, w => SendChatSpec p d r w
  | .announceChat _ chatID _ _, d, .fannedOut _, w =>
    ∃ as, Did as d w ∧ OnChat chatID (fun _ => False) as d w
  | .forward _ fromID toChat peerID _ randomIDs, d, .forwarded perOwner messages, w =>
    ForwardSpec fromID toChat peerID randomIDs d perOwner messages w
  | .edit _ owner localID _, d, .edited _ _, w => ∃ as, RowSpec owner localID as d w
  | .delete _ _ _ _, d, .perOwner pts, w => DeleteSpec d pts w
  | .readHistory now owner peer maxID, d, .read _ _, w => ReadSpec now owner peer maxID d w
  | .readChat now owner chat bound _, d, .chatRead r, w => ChatReadSpec now owner chat bound d r w
  | .createChat _ _ _ _, d, .chat c, w =>
    ∃ as, Did as d w ∧ OnChat c.id (fun _ => False) as d w
  | .addChatUser _ chatID target callerID, d, .memberChange r, w =>
    ∃ as, ChatSpec chatID callerID (fun _ => False) as d w ∧ (r.changed = false ∧ w = d ∨
        d.isBlocked target callerID = false ∧ w.isBlocked target callerID = false)
  | .removeChatUser _ chatID target callerID, d, .memberChange _, w =>
    ∃ as, ChatSpec chatID callerID (· = target) as d w ∧ (∀ a ∈ as, a.owner ≠ none → a.adds) ∧
      ∀ x ∈ newRows as, x.action = .deleteUser ∧ x.actionUserID = target
  | .setChatTitle _ chatID callerID _, d, .titled _ _, w =>
    ∃ as, ChatSpec chatID callerID (fun _ => False) as d w
  | .setChatRights chatID callerID _, d, .rights _, w =>
    ∃ as, ChatSpec chatID callerID (fun _ => False) as d w
  | .setChatAdmin chatID _ callerID _, d, .flag _, w =>
    ∃ as, ChatSpec chatID callerID (fun _ => False) as d w
  | .setChatPin chatID callerID pinned, d, .pinned _ _, w => PinSpec chatID callerID pinned d w
  | .checkChatWrite chatID callerID _ _, d, .flag _, w =>
    ∃ as, ChatSpec chatID callerID (fun _ => False) as d w
  | .react owner localID _, d, .copies _, w => ∃ as, RowSpec owner localID as d w
  | .block _ _ _, d, .flag _, w => ∃ as, Did as d w ∧ OffChat as d
  | .unblock _ _, d, .flag _, w => ∃ as, Did as d w ∧ OffChat as d
  | .castVote times viewerID _ selected, d, .poll view,
    w => CastSpec times viewerID selected d view w
  | .closePoll _ _, d, .flag b, w => ClosePollSpec d b w
  | .createPoll times _ creatorID _ _, d, .created view duplicate, w =>
    CreatePollSpec times creatorID d view duplicate w
  | .viewPoll _ _ _, d, .poll _, w => w = d
  | _, _, _, _ => False

/-- What a body has to end in: its answer is right for the states before and after. -/
def Ends {A : Type} (S : DB → A → DB → Prop) (d : DB) (r : Finish A) (w : DB) : Prop :=
  match r with
  | .commit a => S d a w
  | .rollback a => S d a d

end TelegramServer.Store
