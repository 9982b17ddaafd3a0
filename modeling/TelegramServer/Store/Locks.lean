import TelegramServer.Store.Schema
import TelegramServer.Tx.Rules

/-!
# Which lock guards which rows

An owner's advisory lock guards everything stored under that owner and the
owner's membership of every existing chat; the lock on a `chats` row guards the
row and its member list; the lock on a `polls` row guards the poll with its votes
and links; a fan-out id belongs to the transaction that drew it. A file row is
locked by all that refer to it, and they do not keep each other waiting.
These are the facts `lockOwners`, `beginChatMutation` and `removeParticipant`
rely on, and the store's transactions are verified against them.
-/

namespace TelegramServer.Store

open Tx Tx.Table List
open Participant (isFor)
open Write (apply)

inductive Lock where
  | owner (user : Int)
  | chat (id : Int)
  | fanout (id : Int)
  | poll (id : Int)
  | file (id : Int)
  deriving DecidableEq

/-- File rows are locked `FOR SHARE`; every other lock is exclusive. -/
def Lock.conflicts : Lock → Lock → Prop
  | .file _, _ => False
  | l, l' => l = l'

instance : DecidableRel Lock.conflicts
  | .file _, _ => instDecidableFalse
  | .owner _, _ | .chat _, _ | .fanout _, _ | .poll _, _ => instDecidableEqLock _ _

theorem Lock.conflicts.eq {l l' : Lock} (h : l.conflicts l') : l = l' := by
  cases l <;> first | exact h | exact h.elim

/-- A new fan-out's number is nobody else's. The row of a chat comes first, then the owners, the
polls and the files. -/
def Lock.tier : Lock → Nat
  | .fanout _ => 0
  | .chat _ => 1
  | .owner _ => 2
  | .poll _ => 3
  | .file _ => 4

def Lock.id : Lock → Int
  | .owner id | .chat id | .fanout id | .poll id | .file id => id

/-- The order in which locks are taken: by tier, and by id within one tier. -/
def Lock.below (l l' : Lock) : Prop :=
  l.tier < l'.tier ∨ l.tier = l'.tier ∧ l.id < l'.id

theorem Lock.not_below_self (l : Lock) : ¬ l.below l := by
  simp [Lock.below]

theorem Lock.below.trans {l₁ l₂ l₃ : Lock} (h : l₁.below l₂) (h' : l₂.below l₃) : l₁.below l₃ := by
  simp only [Lock.below] at *
  omega

inductive Seq where
  | chat
  | fanout

/-- A fan-out has no row to lock: its number is drawn, and its copies are settled with it. -/
def Lock.drawnOnly : Lock → Prop
  | .fanout _ => True
  | _ => False

def Seq.drawn : Seq → Int → Lock
  | .chat, n => .chat n
  | .fanout, n => .fanout n

/-- A number past every one in use. -/
def Seq.next : Seq → DB → Int
  | .chat, d => (d.chats.map (·.id) ++ d.participants.map (·.chatID)).foldl max 0 + 1
  | .fanout, d => (d.messages.map (·.fanoutID)).foldl max 0 + 1

/-! ## Projections of the tables -/

def DB.ofOwner (d : DB) (user : Int) : DB where
  updateStates := d.updateStates.filter (·.userID = user)
  messages := d.messages.filter (·.ownerID = user)
  events := d.events.filter (·.ownerID = user)
  dialogs := d.dialogs.filter (·.ownerID = user)
  reactions := d.reactions.filter (·.ownerID = user)
  blocks := d.blocks.filter (·.blockerID = user)
  pollCopies := d.pollCopies.filter (·.ownerID = user)

def DB.ofChat (d : DB) (id : Int) : DB where
  chats := d.chats.filter (·.id = id)
  participants := d.participants.filter (·.chatID = id)

def DB.ofPoll (d : DB) (id : Int) : DB where
  polls := d.polls.filter (·.id = id)
  pollOptions := d.pollOptions.filter (·.pollID = id)
  pollVotes := d.pollVotes.filter (·.pollID = id)
  pollVoteOptions := d.pollVoteOptions.filter (·.pollID = id)
  pollCopies := d.pollCopies.filter (·.pollID = id)

def DB.hasChat (d : DB) (id : Int) : Bool :=
  d.chats.any (·.id = id)

def Message.frozen (m : Message) : Message :=
  { m with text := "", editDate := none, deleted := false }

def Chat.frozen (c : Chat) : Int × Int := (c.id, c.creatorID)

def DB.copyKeys (d : DB) (fanoutID : Int) : Owned :=
  (d.messages.filter fun m => m.fanoutID = fanoutID ∧ m.fanoutID ≠ 0).map
    fun m => (m.ownerID, m.localID)

/-- What an owner's lock keeps. A chat that comes into being may have the owner as a member, and
a poll that none of the owner's messages shows may come and go. -/
structure OwnerStable (u : Int) (d d' : DB) : Prop where
  rows : d.ofOwner u = d'.ofOwner u
  member : ∀ c, d.isChatMember c u → d'.isChatMember c u
  chat : ∀ c, d.hasChat c → d'.hasChat c ∧ (d'.isChatMember c u → d.isChatMember c u)
  poll : ∀ c ∈ d.pollCopies, c.ownerID = u → d'.hasPoll c.pollID = d.hasPoll c.pollID

/-- The part of the tables that a lock guards is the same in both states. -/
def Stable : Lock → DB → DB → Prop
  | .owner u, d, d' => OwnerStable u d d'
  | .chat c, d, d' => d.ofChat c = d'.ofChat c
  | .fanout n, d, d' => d.copyKeys n = d'.copyKeys n
  | .poll p, d, d' => d.ofPoll p = d'.ofPoll p
  | .file f, d, d' => d.fileByID f = d'.fileByID f

structure Grows (d d' : DB) : Prop where
  messages : (d.messages.map Message.frozen).Sublist (d'.messages.map Message.frozen)
  events : d.events.Sublist d'.events
  chats : (d.chats.map Chat.frozen).Sublist (d'.chats.map Chat.frozen)
  files : d.files = d'.files

def Unused : Lock → DB → Prop
  | .owner _, _ => False
  | .chat c, d => d.ofChat c = {}
  | .fanout n, d => d.copyKeys n = []
  | .poll _, _ => False
  | .file _, _ => False

def Write.owner : Write → Option Int
  | .ensureUpdateState user _ => some user
  | .bumpState user _ => some user
  | .bumpPtsOnly user _ => some user
  | .insertMessage m => some m.ownerID
  | .insertEvent e => some e.ownerID
  | .upsertDialog owner _ _ _ _ => some owner
  | .setEditedText owner _ _ _ => some owner
  | .setDeleted owner _ => some owner
  | .advanceReadInbox owner _ _ _ => some owner
  | .advanceChatReadInbox owner _ _ _ => some owner
  | .advanceReadOutbox owner _ _ _ => some owner
  | .upsertReaction owner _ _ _ => some owner
  | .deleteReaction owner _ _ => some owner
  | .insertChat _ _ => none
  | .insertChatParticipantIfAbsent p => some p.userID
  | .deleteChatParticipant _ user => some user
  | .setChatParticipantAdmin _ _ _ => none
  | .bumpChatVersion _ => none
  | .setChatTitle _ _ => none
  | .setChatDefaultBannedRights _ _ => none
  | .setChatPinnedMessage _ _ => none
  | .insertBlockedUser b => some b.blockerID
  | .deleteBlockedUser blocker _ => some blocker
  | .unlinkPoll owner _ _ => some owner
  | .insertPollMessageCopy owner _ _ => some owner
  | .insertPoll _ => none
  | .insertPollOption _ => none
  | .insertPollVote _ _ => none
  | .deletePollVoteOptionsByVoter _ _ => none
  | .insertPollVoteOption _ _ _ => none
  | .deletePollVote _ _ => none
  | .closePoll _ => none
  | .deleteUnlinkedPoll _ => none

def Write.chat : Write → Option Int
  | .insertChat c _ => some c.id
  | .insertChatParticipantIfAbsent p => some p.chatID
  | .deleteChatParticipant chat _ => some chat
  | .setChatParticipantAdmin chat _ _ => some chat
  | .bumpChatVersion chat => some chat
  | .setChatTitle chat _ => some chat
  | .setChatDefaultBannedRights chat _ => some chat
  | .setChatPinnedMessage chat _ => some chat
  | _ => none

def Write.fanout : Write → Option Int
  | .insertMessage m => if m.fanoutID = 0 then none else some m.fanoutID
  | _ => none

def Write.poll : Write → Option Int
  | .insertPoll p => some p.id
  | .insertPollOption o => some o.pollID
  | .insertPollMessageCopy _ _ poll => some poll
  | .insertPollVote poll _ => some poll
  | .deletePollVoteOptionsByVoter poll _ => some poll
  | .insertPollVoteOption poll _ _ => some poll
  | .deletePollVote poll _ => some poll
  | .closePoll poll => some poll
  | .unlinkPoll _ _ poll => some poll
  | .deleteUnlinkedPoll poll => some poll
  | _ => none

def Write.guards (o : Write) : List Lock :=
  (o.owner.map Lock.owner).toList ++ (o.chat.map Lock.chat).toList ++
    (o.fanout.map Lock.fanout).toList ++ (o.poll.map Lock.poll).toList

variable {c : PollCopy} {d d' : DB} {n p u : Int} {o : Write}

@[simp] theorem Write.owner_mem_guards : Lock.owner u ∈ o.guards ↔ o.owner = some u := by
  simp [Write.guards]

@[simp] theorem Write.chat_mem_guards {c : Int} : Lock.chat c ∈ o.guards ↔ o.chat = some c := by
  simp [Write.guards]

@[simp] theorem Write.fanout_mem_guards : Lock.fanout n ∈ o.guards ↔ o.fanout = some n := by
  simp [Write.guards]

@[simp] theorem Write.poll_mem_guards : Lock.poll p ∈ o.guards ↔ o.poll = some p := by
  simp [Write.guards]

theorem Write.file_notMem_guards (o : Write) (f : Int) : Lock.file f ∉ o.guards := by
  simp [Write.guards]

theorem conflicts_guards (o : Write) : ∀ l ∈ o.guards, l.conflicts l := by
  intro l hl
  cases l with
  | file f => exact absurd hl (o.file_notMem_guards f)
  | _ => rfl

/-! ## A write changes only what it is guarded by -/

theorem ofOwner_apply_of_ne (h : o.owner ≠ some u) (d : DB) :
    (o.apply d).ofOwner u = d.ofOwner u := by
  cases o <;> simp only [Write.owner, ne_eq, Option.some.injEq, reduceCtorEq,
    not_false_eq_true] at h
  case ensureUpdateState | insertBlockedUser =>
    simp only [apply, DB.ofOwner]
    congr 1
    exact filter_insertAbsent_of_ne h
  case bumpState | bumpPtsOnly | setEditedText | setDeleted | advanceReadInbox
      | advanceChatReadInbox | advanceReadOutbox =>
    simp only [apply, DB.ofOwner]
    congr 1
    exact filter_updateWhere_of_ne (by rintro x hx rfl; simp_all [Message.isAt, Dialog.isFor])
      (fun _ => rfl)
  case insertMessage | insertEvent | insertPollMessageCopy => simp [apply, DB.ofOwner, h]
  case upsertDialog | upsertReaction =>
    simp only [apply, DB.ofOwner]
    congr 1
    exact filter_upsertWhere_of_ne h (by rintro x hx rfl; simp_all [Dialog.isFor, Reaction.isFor])
      (fun _ => rfl)
  case deleteReaction | deleteBlockedUser | unlinkPoll =>
    simp only [apply, DB.ofOwner]
    congr 1
    exact filter_filter_of_ne
      (by rintro x rfl; simp [Reaction.isFor, Block.isFor, PollCopy.isAt, Ne.symm h])
  all_goals rfl

theorem DB.unreadAbove_ofOwner (d : DB) (u : Int) (pt : PeerType) (peer k : Int) :
    (d.ofOwner u).unreadAbove u pt peer k = d.unreadAbove u pt peer k := by
  simp only [DB.unreadAbove, DB.ofOwner, filter_filter]
  congr 3
  funext m
  by_cases h : m.ownerID = u <;> simp [h]

theorem Dialog.readInbox_ofOwner {g : Dialog} (hg : g.ownerID = u) (d : DB) (k : Int) :
    g.readInbox (d.ofOwner u) k = g.readInbox d k := by
  subst hg
  simp only [Dialog.readInbox, DB.unreadAbove_ofOwner]

theorem ofOwner_apply_of_chat (h : o.chat ≠ none) (d : DB) (u : Int) :
    (o.apply d).ofOwner u = d.ofOwner u := by
  cases o <;> first | rfl | exact absurd rfl h

theorem ofOwner_apply (h : o.owner = some u) (hc : o.chat = none) (d : DB) :
    (o.apply d).ofOwner u = o.apply (d.ofOwner u) := by
  cases o <;> simp only [Write.owner, Write.chat, Option.some.injEq, reduceCtorEq] at h hc <;>
    subst h
  case ensureUpdateState =>
    simp [apply, DB.ofOwner, filter_insertAbsent]
  case bumpState | bumpPtsOnly | setEditedText | setDeleted | advanceReadOutbox =>
    simp [apply, DB.ofOwner, filter_updateWhere]
  case insertMessage | insertEvent | insertPollMessageCopy =>
    simp [apply, DB.ofOwner]
  case upsertDialog =>
    simp +contextual [apply, DB.ofOwner, filter_upsertWhere, Dialog.isFor]
  case advanceReadInbox u _ _ _ | advanceChatReadInbox u _ _ _ =>
    simp only [apply, DB.ofOwner]
    congr 1
    rw [filter_updateWhere]
    · refine updateWhere_congr fun g hmem _ => ?_
      have hg : g.ownerID = u := by simpa using (mem_filter.mp hmem).2
      rw [← Dialog.readInbox_ofOwner hg]
      rfl
    · exact fun _ _ => rfl
  case upsertReaction =>
    simp +contextual [apply, DB.ofOwner, filter_upsertWhere, Reaction.isFor]
  case deleteReaction | deleteBlockedUser | unlinkPoll =>
    simp [apply, DB.ofOwner, filter_filter, Bool.and_comm]
  case insertBlockedUser =>
    simp +contextual [apply, DB.ofOwner, filter_insertAbsent, Block.isFor]

theorem ofChat_apply_of_ne {c : Int} (h : o.chat ≠ some c) (d : DB) :
    (o.apply d).ofChat c = d.ofChat c := by
  cases o <;> simp only [Write.chat, ne_eq, Option.some.injEq, reduceCtorEq, not_false_eq_true] at h
  case insertChat ch members =>
    simp only [apply, DB.ofChat]
    congr 1
    · exact filter_insertAbsent_of_ne h
    · split
      · rfl
      · simp [h]
  case insertChatParticipantIfAbsent p =>
    simp only [apply, DB.ofChat]
    congr 1
    exact filter_insertAbsent_of_ne h
  case deleteChatParticipant =>
    simp only [apply, DB.ofChat]
    congr 1
    exact filter_filter_of_ne (by rintro x rfl; simp [isFor, Ne.symm h])
  case setChatParticipantAdmin | bumpChatVersion | setChatTitle | setChatDefaultBannedRights |
      setChatPinnedMessage =>
    simp only [apply, DB.ofChat]
    congr 1
    exact filter_updateWhere_of_ne (by rintro x hx rfl; simp_all [isFor]) (fun _ => rfl)
  all_goals rfl

theorem ofChat_apply {c : Int} (h : o.chat = some c) (d : DB) :
    (o.apply d).ofChat c = (o.apply (d.ofChat c)).ofChat c := by
  cases o <;> simp only [Write.chat, Option.some.injEq, reduceCtorEq] at h <;> subst h
  case insertChat ch members =>
    have hany : (d.chats.filter (·.id = ch.id)).any (·.id = ch.id) =
        d.chats.any (·.id = ch.id) := any_filter_of_imp fun _ hx => hx
    simp only [apply, DB.ofChat, hany]
    congr 1
    · simp [filter_insertAbsent, filter_filter]
    · split <;> simp [filter_filter]
  case insertChatParticipantIfAbsent =>
    simp +contextual [apply, DB.ofChat, filter_insertAbsent, filter_filter, isFor]
  case deleteChatParticipant =>
    simp only [apply, DB.ofChat]
    congr 1
    · simp [filter_filter]
    · exact (filter_filter_filter _).symm
  all_goals simp [apply, DB.ofChat, filter_updateWhere, filter_filter]

theorem DB.isChatMember_ofChat (d : DB) (c u : Int) :
    (d.ofChat c).isChatMember c u = d.isChatMember c u :=
  any_filter_of_imp (by simp +contextual [isFor])

theorem DB.hasChat_ofChat (d : DB) (c : Int) : (d.ofChat c).hasChat c = d.hasChat c :=
  any_filter_of_imp fun _ hx => hx

/-! ### Polls -/

theorem ofPoll_apply_of_ne (h : o.poll ≠ some p) (d : DB) : (o.apply d).ofPoll p = d.ofPoll p := by
  cases o <;> simp only [Write.poll, ne_eq, Option.some.injEq, reduceCtorEq, not_false_eq_true] at h
  case insertPollVote =>
    simp only [apply, DB.ofPoll]
    congr 1
    exact filter_insertAbsent_of_ne h
  case insertPoll =>
    simp only [apply, DB.ofPoll]
    congr 1
    split
    · rfl
    · simp [h]
  case insertPollOption | insertPollMessageCopy | insertPollVoteOption => simp [apply, DB.ofPoll, h]
  case closePoll =>
    simp only [apply, DB.ofPoll]
    congr 1
    exact filter_updateWhere_of_ne (by rintro x hx rfl; simp_all) (fun _ => rfl)
  case deletePollVoteOptionsByVoter | deletePollVote | unlinkPoll | deleteUnlinkedPoll =>
    simp only [apply, DB.ofPoll]
    congr 1 <;> exact filter_filter_of_ne
      (by rintro x rfl; simp [PollVote.isFor, PollVoteOption.isFor, DB.unlinked, Ne.symm h])
  all_goals rfl

theorem DB.unlinked_ofPoll (d : DB) (p id : Int) :
    (d.ofPoll p).unlinked p id = d.unlinked p id := by
  have hlinks : (d.ofPoll p).pollCopies.any (·.pollID = p) = d.pollCopies.any (·.pollID = p) :=
    any_filter_of_imp fun _ hx => hx
  simp only [DB.unlinked, hlinks]

theorem ofPoll_apply (h : o.poll = some p) (d : DB) :
    (o.apply d).ofPoll p = (o.apply (d.ofPoll p)).ofPoll p := by
  cases o <;> simp only [Write.poll, Option.some.injEq, reduceCtorEq] at h <;> subst h
  case insertPollVote =>
    simp +contextual [apply, DB.ofPoll, filter_insertAbsent, filter_filter, PollVote.isFor]
  case insertPoll p =>
    have hlinks : (d.ofPoll p.id).pollCopies.any (·.pollID = p.id) =
        d.pollCopies.any (·.pollID = p.id) :=
      any_filter_of_imp fun _ hx => hx
    simp only [apply, hlinks]
    split <;> simp [DB.ofPoll]
  case insertPollOption | insertPollMessageCopy | insertPollVoteOption => simp [apply, DB.ofPoll]
  case closePoll => simp [apply, DB.ofPoll, filter_updateWhere, filter_filter]
  case deleteUnlinkedPoll p =>
    simp only [apply, DB.unlinked_ofPoll]
    simp only [DB.ofPoll, filter_filter_filter]
    simp only [filter_filter, Bool.and_self]
  all_goals
    simp only [apply, DB.ofPoll, filter_filter_filter]
    simp only [filter_filter, Bool.and_self]

theorem DB.hasPoll_ofPoll (d : DB) (p : Int) : (d.ofPoll p).hasPoll p = d.hasPoll p :=
  any_filter_of_imp fun _ hx => hx

theorem hasPoll_apply_of_ne (h : o.poll ≠ some p) (d : DB) :
    (o.apply d).hasPoll p = d.hasPoll p := by
  rw [← DB.hasPoll_ofPoll, ofPoll_apply_of_ne h, DB.hasPoll_ofPoll]

theorem hasPoll_apply (hc : c ∈ d.pollCopies) :
    (o.apply d).hasPoll c.pollID = d.hasPoll c.pollID := by
  by_cases h : o.poll = some c.pollID
  · cases o <;> simp only [Write.poll, Option.some.injEq, reduceCtorEq] at h
    case insertPoll p =>
      have hlinked : d.pollCopies.any (·.pollID = p.id) = true :=
        any_eq_true.mpr ⟨c, hc, by simp [h]⟩
      simp only [apply, hlinked, if_true]
    case closePoll =>
      simp only [apply, DB.hasPoll, updateWhere, any_map]
      congr 1
      funext p
      simp only [Function.comp_apply]
      split <;> rfl
    case deleteUnlinkedPoll poll =>
      subst h
      have hlinked : d.pollCopies.any (·.pollID = c.pollID) = true :=
        any_eq_true.mpr ⟨c, hc, by simp⟩
      simp [apply, DB.hasPoll, DB.unlinked, hlinked]
    all_goals rfl
  · exact hasPoll_apply_of_ne h d

theorem mem_pollCopies_apply (hc : c ∈ (o.apply d).pollCopies) :
    c ∈ d.pollCopies ∨ o = .insertPollMessageCopy c.ownerID c.localID c.pollID := by
  cases o
  case unlinkPoll => exact .inl (mem_filter.mp hc).1
  case insertPollMessageCopy =>
    rcases mem_append.mp hc with hc | hc
    · exact .inl hc
    · rw [mem_singleton.mp hc]
      exact .inr rfl
  all_goals exact .inl hc

def Write.newMessages : Write → List Message
  | .insertMessage m => [m]
  | _ => []

def Write.newEvents : Write → List Event
  | .insertEvent e => [e]
  | _ => []

theorem frozen_messages_apply (o : Write) (d : DB) : (o.apply d).messages.map Message.frozen =
      d.messages.map Message.frozen ++ o.newMessages.map Message.frozen := by
  cases o
  case insertMessage => simp [apply, Write.newMessages]
  case setEditedText | setDeleted =>
    simp only [apply, Write.newMessages, map_nil, append_nil]
    exact map_updateWhere fun _ _ => rfl
  all_goals simp [apply, Write.newMessages]

theorem events_apply (o : Write) (d : DB) : (o.apply d).events = d.events ++ o.newEvents := by
  cases o <;> simp [apply, Write.newEvents]

theorem files_apply (o : Write) (d : DB) : (o.apply d).files = d.files := by
  cases o <;> rfl

theorem DB.copyKeys_eq_frozen (d : DB) (n : Int) :
    d.copyKeys n = ((d.messages.map Message.frozen).filter
      fun m => m.fanoutID = n ∧ m.fanoutID ≠ 0).map fun m => (m.ownerID, m.localID) := by
  rw [filter_map, map_map]
  rfl

theorem copyKeys_apply_of_ne (h : o.fanout ≠ some n) (d : DB) :
    (o.apply d).copyKeys n = d.copyKeys n := by
  rw [DB.copyKeys_eq_frozen, DB.copyKeys_eq_frozen, frozen_messages_apply]
  cases o
  case insertMessage m =>
    have hm : ¬(m.frozen.fanoutID = n ∧ m.frozen.fanoutID ≠ 0) := by
      rintro ⟨hn, h0⟩
      have h0' : m.fanoutID ≠ 0 := h0
      exact h (by rw [Write.fanout, if_neg h0']; exact congrArg some hn)
    simp [Write.newMessages, filter_append, hm]
  all_goals simp [Write.newMessages]

theorem copyKeys_apply (o : Write) (h : d.copyKeys n = d'.copyKeys n) :
    (o.apply d).copyKeys n = (o.apply d').copyKeys n := by
  rw [DB.copyKeys_eq_frozen, DB.copyKeys_eq_frozen] at h ⊢
  rw [frozen_messages_apply, frozen_messages_apply, filter_append, filter_append,
    map_append, map_append, h]

def Write.newChats (d : DB) : Write → List Chat
  | .insertChat c _ => if d.hasChat c.id then [] else [c]
  | _ => []

theorem frozen_chats_apply (o : Write) (d : DB) : (o.apply d).chats.map Chat.frozen =
      d.chats.map Chat.frozen ++ (o.newChats d).map Chat.frozen := by
  cases o
  case insertChat c members =>
    cases hc : d.hasChat c.id <;>
      simp [apply, Write.newChats, insertAbsent, hc, show d.chats.any (·.id = c.id) = _ from hc]
  case bumpChatVersion | setChatTitle | setChatDefaultBannedRights | setChatPinnedMessage =>
    simp only [apply, Write.newChats, map_nil, append_nil]
    exact map_updateWhere fun _ _ => rfl
  all_goals simp [apply, Write.newChats]

/-! ## The discipline -/

theorem Stable.members {c : Int} (h : Stable (.owner u) d d') (hc : d.hasChat c) :
    d'.isChatMember c u = d.isChatMember c u := by
  have hback := (h.chat c hc).2
  have hforth := h.member c
  cases hd : d.isChatMember c u <;> cases hd' : d'.isChatMember c u <;> simp_all

theorem mem_pollCopies_of_ofOwner (h : d.ofOwner u = d'.ofOwner u) (hc : c ∈ d.pollCopies)
    (hu : c.ownerID = u) : c ∈ d'.pollCopies := by
  have heq : d.pollCopies.filter (·.ownerID = u) = d'.pollCopies.filter (·.ownerID = u) :=
    congrArg DB.pollCopies h
  have hmem : c ∈ d.pollCopies.filter (·.ownerID = u) := mem_filter.mpr ⟨hc, by simpa using hu⟩
  rw [heq] at hmem
  exact (mem_filter.mp hmem).1

theorem stable_refl (l : Lock) (d : DB) : Stable l d d := by
  cases l with
  | owner u => exact ⟨rfl, fun _ h => h, fun _ h => ⟨h, fun h' => h'⟩, fun _ _ _ => rfl⟩
  | _ => rfl

theorem stable_trans (l : Lock) (d₁ d₂ d₃ : DB) (h : Stable l d₁ d₂) (h' : Stable l d₂ d₃) :
    Stable l d₁ d₃ := by
  cases l with
  | owner u =>
    refine ⟨h.rows.trans h'.rows, fun c hc => h'.member c (h.member c hc), fun c hc => ?_,
      fun c hc hu => ?_⟩
    · obtain ⟨h₂, hback⟩ := h.chat c hc
      obtain ⟨h₃, hback'⟩ := h'.chat c h₂
      exact ⟨h₃, fun hm => hback (hback' hm)⟩
    · exact (h'.poll c (mem_pollCopies_of_ofOwner h.rows hc hu) hu).trans (h.poll c hc hu)
  | _ => exact Eq.trans h h'

theorem Grows.refl (d : DB) : Grows d d :=
  ⟨List.Sublist.refl _, List.Sublist.refl _, List.Sublist.refl _, rfl⟩

theorem Grows.trans {d₁ d₂ d₃ : DB} (h : Grows d₁ d₂) (h' : Grows d₂ d₃) : Grows d₁ d₃ :=
  ⟨h.messages.trans h'.messages, h.events.trans h'.events, h.chats.trans h'.chats,
    h.files.trans h'.files⟩

theorem grows_apply (o : Write) (d : DB) : Grows d (o.apply d) where
  messages := by
    rw [frozen_messages_apply]
    exact sublist_append_left _ _
  events := by
    rw [events_apply]
    exact sublist_append_left _ _
  chats := by
    rw [frozen_chats_apply]
    exact sublist_append_left _ _
  files := (files_apply o d).symm

theorem hasChat_apply (o : Write) {c : Int} (h : d.hasChat c) : (o.apply d).hasChat c := by
  simp only [DB.hasChat, any_eq_true, decide_eq_true_eq] at h ⊢
  obtain ⟨ch, hch, rfl⟩ := h
  have hmem : ch.frozen ∈ (o.apply d).chats.map Chat.frozen := by
    rw [frozen_chats_apply]
    exact mem_append_left _ (mem_map_of_mem hch)
  obtain ⟨ch', hch', heq⟩ := mem_map.mp hmem
  exact ⟨ch', hch', congrArg Prod.fst heq⟩

theorem isChatMember_apply_of_ne {c : Int} (h : o.chat ≠ some c) (d : DB) (u : Int) :
    (o.apply d).isChatMember c u = d.isChatMember c u := by
  rw [← DB.isChatMember_ofChat, ofChat_apply_of_ne h, DB.isChatMember_ofChat]

/-- Only a write under the user's own lock takes the user out of a chat, or into one
that exists. -/
theorem isChatMember_apply (h : o.owner ≠ some u) (d : DB) (c : Int) :
    (d.isChatMember c u → (o.apply d).isChatMember c u) ∧
      (d.hasChat c → (o.apply d).isChatMember c u → d.isChatMember c u) := by
  have hkept (heq : (o.apply d).isChatMember c u = d.isChatMember c u) :
      (d.isChatMember c u → (o.apply d).isChatMember c u) ∧
        (d.hasChat c → (o.apply d).isChatMember c u → d.isChatMember c u) :=
    ⟨fun hm => heq ▸ hm, fun _ hm => heq ▸ hm⟩
  by_cases hc : o.chat = some c
  · cases o <;> simp only [Write.chat, Write.owner, Option.some.injEq, reduceCtorEq, ne_eq,
      not_false_eq_true] at hc h <;> subst hc
    case insertChat ch members =>
      refine ⟨fun hm => ?_, fun hex hm => ?_⟩
      · simp only [apply, DB.isChatMember] at hm ⊢
        split
        · exact hm
        · rw [any_append, hm, Bool.true_or]
      · have hany : d.chats.any (·.id = ch.id) = true := hex
        simpa only [apply, DB.isChatMember, hany, if_true] using hm
    case insertChatParticipantIfAbsent p =>
      have hp : isFor p.chatID u p = false := by simp [isFor, h]
      refine hkept ?_
      simp only [apply, DB.isChatMember, insertAbsent]
      split
      · rfl
      · simp only [any_append, any_cons, hp, any_nil, Bool.or_false]
    case deleteChatParticipant chat user =>
      refine hkept (any_filter_of_imp fun p hp => ?_)
      simp only [isFor, Bool.decide_and, Bool.and_eq_true, decide_eq_true_eq] at hp
      simp [isFor, hp.2, Ne.symm h]
    case setChatParticipantAdmin chat user admin =>
      refine hkept ?_
      simp only [apply, DB.isChatMember, updateWhere, any_map]
      congr 1
      funext p
      simp only [Function.comp_apply]
      split <;> rfl
    all_goals exact hkept rfl
  · exact hkept (isChatMember_apply_of_ne hc d u)

theorem stable_apply (l : Lock) (o : Write) (d : DB) (h : l ∉ o.guards) :
    Stable l d (o.apply d) := by
  cases l with
  | owner u =>
    have hu : o.owner ≠ some u := fun hu => h (Write.owner_mem_guards.mpr hu)
    exact ⟨(ofOwner_apply_of_ne hu d).symm, fun c => (isChatMember_apply hu d c).1,
      fun c hc => ⟨hasChat_apply o hc, (isChatMember_apply hu d c).2 hc⟩,
      fun c hc _ => hasPoll_apply hc⟩
  | chat c => exact (ofChat_apply_of_ne (fun hc => h (Write.chat_mem_guards.mpr hc)) d).symm
  | fanout n => exact (copyKeys_apply_of_ne (fun hn => h (Write.fanout_mem_guards.mpr hn)) d).symm
  | poll p => exact (ofPoll_apply_of_ne (fun hp => h (Write.poll_mem_guards.mpr hp)) d).symm
  | file f => simp only [Stable, DB.fileByID, files_apply]

theorem unused_stable (l : Lock) (d d' : DB) (h : Unused l d) (hs : Stable l d d') :
    Unused l d' := by
  cases l with
  | owner u | poll p | file f => exact h.elim
  | chat | fanout => exact Eq.trans (Eq.symm hs) h

theorem used_stable (l : Lock) (d d' : DB) (hl : l.drawnOnly) (h : Unused l d')
    (hs : Stable l d d') :
    Unused l d := by
  cases l with
  | owner u | chat c | poll p | file f => exact hl.elim
  | fanout n => exact Eq.trans hs h

theorem ofChat_apply_congr {c : Int} (h : d.ofChat c = d'.ofChat c) :
    (o.apply d).ofChat c = (o.apply d').ofChat c := by
  by_cases hc : o.chat = some c
  · rw [ofChat_apply hc, ofChat_apply hc d', h]
  · rw [ofChat_apply_of_ne hc, ofChat_apply_of_ne hc, h]

theorem ofPoll_apply_congr (h : d.ofPoll p = d'.ofPoll p) :
    (o.apply d).ofPoll p = (o.apply d').ofPoll p := by
  by_cases hp : o.poll = some p
  · rw [ofPoll_apply hp, ofPoll_apply hp d', h]
  · rw [ofPoll_apply_of_ne hp, ofPoll_apply_of_ne hp, h]

theorem apply_stable (l : Lock) (o : Write) (d d' : DB) (hs : Stable l d d')
    (hg : ∀ l ∈ o.guards, Stable l d d') : Stable l (o.apply d) (o.apply d') := by
  cases l with
  | owner u =>
    -- On the write's own chat the two states agree altogether.
    have hchat : ∀ c, o.chat = some c →
        (o.apply d).isChatMember c u = (o.apply d').isChatMember c u ∧
          (o.apply d).hasChat c = (o.apply d').hasChat c := by
      intro c hc
      have heq := ofChat_apply_congr (o := o)
        (show d.ofChat c = d'.ofChat c from hg _ (Write.chat_mem_guards.mpr hc))
      rw [← DB.isChatMember_ofChat, ← DB.hasChat_ofChat, heq, DB.isChatMember_ofChat,
        DB.hasChat_ofChat]
      exact ⟨rfl, rfl⟩
    have hother : ∀ (x : DB) c, o.chat ≠ some c →
        (o.apply x).isChatMember c u = x.isChatMember c u ∧
          (o.apply x).hasChat c = x.hasChat c := by
      intro x c hc
      refine ⟨isChatMember_apply_of_ne hc x u, ?_⟩
      rw [← DB.hasChat_ofChat, ofChat_apply_of_ne hc, DB.hasChat_ofChat]
    refine ⟨?_, fun c => ?_, fun c => ?_, fun c hc hu => ?_⟩
    · by_cases hu : o.owner = some u
      · by_cases hc : o.chat = none
        · rw [ofOwner_apply hu hc, ofOwner_apply hu hc, hs.rows]
        · rw [ofOwner_apply_of_chat hc, ofOwner_apply_of_chat hc, hs.rows]
      · rw [ofOwner_apply_of_ne hu, ofOwner_apply_of_ne hu, hs.rows]
    · by_cases hc : o.chat = some c
      · rw [(hchat c hc).1]
        exact fun hm => hm
      · rw [(hother d c hc).1, (hother d' c hc).1]
        exact hs.member c
    · by_cases hc : o.chat = some c
      · rw [(hchat c hc).1, (hchat c hc).2]
        exact fun hm => ⟨hm, fun hm' => hm'⟩
      · rw [(hother d c hc).1, (hother d' c hc).1, (hother d c hc).2, (hother d' c hc).2]
        exact hs.chat c
    · rcases mem_pollCopies_apply hc with hmem | rfl
      · rw [hasPoll_apply hmem, hasPoll_apply (mem_pollCopies_of_ofOwner hs.rows hmem hu)]
        exact hs.poll c hmem hu
      · -- The two states agree on the poll that a new link shows.
        have heq : d.ofPoll c.pollID = d'.ofPoll c.pollID :=
          hg (.poll c.pollID) (by simp [Write.poll])
        change d'.hasPoll c.pollID = d.hasPoll c.pollID
        rw [← DB.hasPoll_ofPoll, ← heq, DB.hasPoll_ofPoll]
  | chat c => exact ofChat_apply_congr hs
  | fanout n => exact copyKeys_apply o hs
  | poll p => exact ofPoll_apply_congr hs
  | file f => simpa only [Stable, DB.fileByID, files_apply] using hs

theorem apply_grows (o : Write) (d d' : DB) (h : Grows d d')
    (hg : ∀ l ∈ o.guards, Stable l d d') : Grows (o.apply d) (o.apply d') where
  messages := by
    rw [frozen_messages_apply, frozen_messages_apply]
    exact h.messages.append_right _
  events := by
    rw [events_apply, events_apply]
    exact h.events.append_right _
  chats := by
    rw [frozen_chats_apply, frozen_chats_apply]
    have hnew : o.newChats d = o.newChats d' := by
      cases o
      case insertChat c members =>
        have heq : d.ofChat c.id = d'.ofChat c.id := hg (.chat c.id) (by simp [Write.chat])
        simp only [Write.newChats]
        rw [← DB.hasChat_ofChat, heq, DB.hasChat_ofChat]
      all_goals rfl
    rw [hnew]
    exact h.chats.append_right _
  files := by rw [files_apply, files_apply, h.files]

theorem foldl_max_le {xs : List Int} {a b : Int} :
    xs.foldl max a ≤ b ↔ a ≤ b ∧ ∀ x ∈ xs, x ≤ b := by
  induction xs generalizing a with
  | nil => simp
  | cons x xs ih => simp [ih, and_assoc]

theorem Seq.next_pos (s : Seq) (d : DB) : 0 < s.next d := by
  cases s <;> exact Int.lt_add_one_of_le (foldl_max_le.mp le_rfl).1

theorem Seq.next_unused (s : Seq) (d : DB) : Unused (s.drawn (s.next d)) d := by
  cases s with
  | chat =>
    have hlt : ∀ x ∈ d.chats.map (·.id) ++ d.participants.map (·.chatID), x < Seq.chat.next d :=
      fun x hx => Int.lt_add_one_of_le ((foldl_max_le.mp le_rfl).2 x hx)
    have hchats : d.chats.filter (fun c => c.id = Seq.chat.next d) = [] := by
      simp only [filter_eq_nil_iff, decide_eq_true_eq]
      exact fun c hc => (hlt c.id (by simp; exact .inl ⟨c, hc, rfl⟩)).ne
    have hparts : d.participants.filter (fun p => p.chatID = Seq.chat.next d) = [] := by
      simp only [filter_eq_nil_iff, decide_eq_true_eq]
      exact fun p hp => (hlt p.chatID (by simp; exact .inr ⟨p, hp, rfl⟩)).ne
    simp only [Seq.drawn, Unused, DB.ofChat, hchats, hparts]
  | fanout =>
    have hlt : ∀ m ∈ d.messages, m.fanoutID < Seq.fanout.next d := fun m hm =>
      Int.lt_add_one_of_le ((foldl_max_le.mp le_rfl).2 _ (mem_map_of_mem hm))
    simp only [Seq.drawn, Unused, DB.copyKeys, map_eq_nil_iff, filter_eq_nil_iff, decide_eq_true_eq]
    exact fun m hm h => (hlt m hm).ne h.1

def locking : Locking DB Lock Write Seq where
  apply := apply
  drawn := Seq.drawn
  pick := Seq.next
  pick_pos := Seq.next_pos
  pick_unused := Seq.next_unused
  unused := Unused
  conflicts := Lock.conflicts
  conflicts_symm _ _ h := h.eq ▸ h.eq.symm ▸ h
  guards := Write.guards
  conflicts_guards := conflicts_guards
  below := Lock.below
  drawnOnly := Lock.drawnOnly
  stable := Stable
  grows := Grows
  stable_refl := stable_refl
  stable_trans := stable_trans
  grows_refl := Grows.refl
  grows_trans _ _ _ := Grows.trans
  grows_apply := grows_apply
  stable_apply := stable_apply
  unused_stable := unused_stable
  used_stable := used_stable
  apply_grows := apply_grows
  apply_stable l o d d' hs _ hg := apply_stable l o d d' hs hg

end TelegramServer.Store
