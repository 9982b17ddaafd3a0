import TelegramServer.Store.ChatSpecs
import TelegramServer.Store.DeleteSpecs
import TelegramServer.Store.PollSpecs
import TelegramServer.Tx.Serial
import TelegramServer.Tx.Waits

/-!
# Runs of the store

Every call meets its specification whatever runs beside it, so every state that
an interleaving of calls commits satisfies the invariant, and every finished call
did what its answer says. Each transaction locks the row of at most one chat, then its owners, the
polls and the files, each kind in ascending order, so none waits forever.
-/

namespace TelegramServer.Store

open Tx Tx.Locking List

variable {r : StoreRecord} {as : List Act} {g : Dialog} {A : Type} {owner u : Int}
  {p : DB}

def Call.onPolls : Call → Bool
  | .castVote .. => true
  | .closePoll .. => true
  | .createPoll .. => true
  | .viewPoll .. => true
  | _ => false

variable {a : Reply} {d w : DB} {t : Call} {S : DB → A → DB → Prop} {f : A → Reply}

theorem Spec.onPolls (h : Spec t d a w) (ht : t.onPolls = true) :
    ∃ os : List Write, Did (os.map .side) d w ∧ ∀ o ∈ os, o.poll.isSome := by
  cases t <;> cases a <;> first | exact h.elim | exact absurd ht Bool.false_ne_true | skip
  case castVote.poll =>
    obtain ⟨row, options, os, -, -, -, hdid, hos⟩ := h
    refine ⟨os, hdid, fun o ho => ?_⟩
    rcases hos with ⟨rfl, -⟩ | ⟨-, rfl⟩
    · simp at ho
    · exact poll_of_mem_voteWrites ho ▸ rfl
  case closePoll.flag =>
    obtain ⟨poll, -, ⟨-, -, rfl⟩ | ⟨-, hdid⟩⟩ := h
    · exact ⟨[], .nil _, by simp⟩
    · exact ⟨[.closePoll poll.id], hdid, by simp [Write.poll]⟩
  case createPoll.created =>
    obtain ⟨-, rfl⟩ | ⟨-, row, options, links, hnew, hdid, -⟩ := h
    · exact ⟨[], .nil _, by simp⟩
    · exact ⟨_, hdid, fun o ho => poll_of_mem_createWrites hnew.own ho ▸ rfl⟩
  case viewPoll.poll =>
    obtain rfl := h
    exact ⟨[], .nil _, by simp⟩

def Act.reads : Act → Prop
  | .mark _ _ _ _ => True
  | .side (.advanceReadInbox _ _ _ _) => True
  | .side (.advanceChatReadInbox _ _ _ _) => True
  | .side (.advanceReadOutbox _ _ _ _) => True
  | _ => False

theorem reads_readActs {now peer maxID : Int} :
    ∀ a ∈ readActs now owner peer maxID g d, a.reads := by
  unfold readActs
  split <;> simp [Act.reads]

theorem reads_chatReadActs {now chat bound : Int} {receipts : Owned} :
    ∀ a ∈ chatReadActs now owner chat bound g receipts, a.reads := by
  simp only [chatReadActs, mem_cons, mem_flatMap, receiptActs]
  rintro a (rfl | rfl | ⟨t, -, rfl | rfl | h⟩)
  all_goals trivial

def Message.isOwnRemoval (m : Message) : Prop :=
  m.action = .deleteUser ∧ m.actionUserID = m.ownerID

/-- The calls that act in chats; what a deletion or a read marker writes goes to the
owner of the row, member or not. -/
def Call.actsInChats : Call → Bool
  | .delete _ _ _ _ => false
  | .readHistory _ _ _ _ => false
  | .readChat _ _ _ _ _ => false
  | _ => true

/-- What the acts of a call are, whatever it was called for. -/
inductive Deed (t : Call) (d w : DB) : List Act → Prop where
  | onChat {as : List Act} (c : Int) (extra : Int → Prop) (on : OnChat c extra as d w)
      (removal : ∀ a ∈ as, ∀ u, a.owner = some u → extra u →
        a.adds ∧ ∀ m ∈ a.newMessages, m.isOwnRemoval) : Deed t d w as
  | offChat {as : List Act} (off : OffChat as d) : Deed t d w as
  | pin (c u : Int) (pinned : Option Int) (call : t = .setChatPin c u pinned)
      (spec : PinSpec c u pinned d w) : Deed t d w [.side (.setChatPinnedMessage c pinned)]
  | delete {as : List Act} (call : t.actsInChats = false) (all : ∀ a ∈ as, a.deletes)
      (acts : Deletes as d) : Deed t d w as
  | read {as : List Act} (call : t.actsInChats = false) (all : ∀ a ∈ as, a.reads) : Deed t d w as
  | polls (os : List Write) (call : t.onPolls = true) (all : ∀ o ∈ os, o.poll.isSome) :
      Deed t d w (os.map .side)

theorem Deed.of_onChat {c : Int} (h : OnChat c (fun _ => False) as d w) : Deed t d w as :=
  .onChat c _ h fun _ _ _ _ hx => hx.elim

theorem RowSpec.deed {localID : Int} (h : RowSpec owner localID as d w) : Deed t d w as := by
  obtain ⟨-, -, m, -, -, hchat, hoff⟩ := h
  by_cases ht : m.peerType = .chat
  · exact .of_onChat (hchat ht).2
  · exact .offChat (hoff ht).1

theorem Spec.outside (h : Spec t d a w) (ht : t.actsInChats = false) :
    ∃ as, Did as d w ∧ ((∀ a ∈ as, a.deletes) ∧ Deletes as d ∨ ∀ a ∈ as, a.reads) := by
  have hnil : ∃ as, Did as w w ∧ ((∀ a ∈ as, a.deletes) ∧ Deletes as w ∨ ∀ a ∈ as, a.reads) :=
    ⟨[], .nil w, .inr fun a ha => by simp at ha⟩
  cases t <;> cases a <;> first | exact h.elim | cases ht; done | skip
  case delete.perOwner => exact h.imp fun as h => ⟨h.1, .inl h.2.2⟩
  case readHistory.read =>
    obtain rfl | ⟨g, -, hdid⟩ := h
    · exact hnil
    · exact ⟨_, hdid, .inr reads_readActs⟩
  case readChat.chatRead =>
    obtain ⟨rfl, -⟩ | ⟨g, members, hreads, -⟩ := h
    · exact hnil
    · exact ⟨_, hreads.did, .inr reads_chatReadActs⟩

theorem Spec.deed (h : Spec t d a w) : ∃ as, Did as d w ∧ Deed t d w as := by
  have hnil : ∃ as, Did as d d ∧ Deed t d d as := ⟨[], .nil d, .offChat fun a ha => by simp at ha⟩
  by_cases hpolls : t.onPolls = true
  · obtain ⟨os, hdid, hos⟩ := h.onPolls hpolls
    exact ⟨_, hdid, .polls os hpolls hos⟩
  by_cases hin : t.actsInChats = false
  · obtain ⟨as, hdid, ⟨hall, hdel⟩ | hall⟩ := h.outside hin
    · exact ⟨as, hdid, .delete hin hall hdel⟩
    · exact ⟨as, hdid, .read hin hall⟩
  cases t <;> cases a <;>
    first | exact h.elim | exact absurd rfl hpolls | exact absurd rfl hin | skip
  case send.sent =>
    obtain ⟨-, ⟨-, -, rfl⟩ | ⟨-, -, as, hdid, hoff, -⟩⟩ := h
    · exact hnil
    · exact ⟨as, hdid, .offChat hoff⟩
  case sendChat.fannedOut =>
    obtain ⟨-, m, -, -, -, -, -, ⟨-, -, rfl⟩ | ⟨-, -, as, hdid, hon, -⟩⟩ := h
    · exact hnil
    · exact ⟨as, hdid, .of_onChat hon⟩
  case forward.forwarded toChat _ _ _ _ _ =>
    obtain ⟨-, as, hdid, -, -, hchat, hoff⟩ := h
    cases toChat with
    | true => exact ⟨as, hdid, .of_onChat (hchat rfl).2⟩
    | false => exact ⟨as, hdid, .offChat (hoff rfl)⟩
  case removeChatUser.memberChange =>
    obtain ⟨as, hspec, hadds, hrows⟩ := h
    refine ⟨as, hspec.1, .onChat _ _ hspec.2.2 fun a ha u hu hx => ⟨hadds a ha (by simp [hu]), ?_⟩⟩
    intro m hm
    obtain ⟨haction, huser⟩ := hrows m (mem_flatMap.mpr ⟨a, ha, hm⟩)
    refine ⟨haction, huser.trans ?_⟩
    cases a <;> simp_all [Act.newMessages, Act.owner]
  case setChatPin.pinned => exact ⟨_, PinSpec.did h, .pin _ _ _ rfl h⟩
  case edit.edited => exact h.imp fun _ h => ⟨h.1, h.deed⟩
  case react.copies => exact h.imp fun _ h => ⟨h.1, h.deed⟩
  case announceChat.fannedOut => exact h.imp fun _ h => ⟨h.1, .of_onChat h.2⟩
  case createChat.chat => exact h.imp fun _ h => ⟨h.1, .of_onChat h.2⟩
  case addChatUser.memberChange => exact h.imp fun _ h => ⟨h.1.1, .of_onChat h.1.2.2⟩
  case block.flag => exact h.imp fun _ h => ⟨h.1, .offChat h.2⟩
  case unblock.flag => exact h.imp fun _ h => ⟨h.1, .offChat h.2⟩
  all_goals exact h.imp fun _ h => ⟨h.1, .of_onChat h.2.2⟩

theorem Spec.did (h : Spec t d a w) : ∃ as, Did as d w :=
  h.deed.imp fun _ h => h.1

def Effect : Call → DB → Reply → DB → Prop
  | .send now p, d, .sent r, w => SendRows now p d r w
  | .sendChat now p, d, .fannedOut r, w => FanOutRows now p.fanOut d r w
  | .forward _ fromID toChat peerID _ _, d, .forwarded _ ms,
    w => ForwardEffect fromID toChat peerID d ms w
  | .edit now owner localID text, d, .edited peer pts, w =>
    EditSpec now owner localID text d (peer, pts) w
  | .delete now owner localIDs revoke, d, .perOwner pts, w =>
    DeleteEffect now owner localIDs revoke d pts w
  | .readHistory now owner peer maxID, d, .read a b, w => ReadEffect now owner peer maxID d (a, b) w
  | .readChat now owner chat bound _, d, .chatRead r, w => ChatReadEffect now owner chat bound d r w
  | .react owner localID reaction, d, .copies affected, w =>
    ReactSpec owner localID reaction d affected w
  | .checkChatWrite _ _ _ _, d, .flag _, w => w = d
  | t, d, a, w => PostsOnly d w ∧ ChatEffect t d a w

def Fault : Call → StoreErr → Prop
  | .delete _ _ _ _, e => e = .messageInvalid
  | _, _ => True

theorem PostsOnly.of_polls {os : List Write} (h : Did (os.map .side) d w)
    (hos : ∀ o ∈ os, o.poll.isSome) :
    PostsOnly d w := by
  refine .of_none h (fun a ha => ?_) (newRows_eq_nil fun a ha => ?_)
  · obtain ⟨o, ho, rfl⟩ := mem_map.mp ha
    have := hos o ho
    cases o <;> first | rfl | exact absurd this Bool.false_ne_true
  · obtain ⟨o, -, rfl⟩ := mem_map.mp ha
    rfl

theorem wpf_answer {p : Body (Finish A)}
    {F : StoreErr → Prop} (hd : Inv d)
    (hp : locking.wpf p (.start Inv) d (fun r _ w => Ends S d r w) F)
    (hS : ∀ a w, S d a w → Spec t d (f a) w ∧ Effect t d (f a) w) :
    locking.wpf (answer f p) (.start Inv) d
      (fun r _ w => Good Inv (fun t d a w => Spec t d a w ∧ Effect t d a w) t d w r) F := by
  refine wpf_bind (wpf_mono hp (fun r _ w _ hr => ?_) fun _ he => he)
  cases r with
  | commit a =>
    have hspec := hS a w hr
    obtain ⟨as, hdid⟩ := hspec.1.did
    exact ⟨hdid.inv hd, hspec⟩
  | rollback a => exact hS a d hr

theorem wpf_answer_any {p : Body (Finish A)} (hd : Inv d) (hp : Meets p d S)
    (hS : ∀ a w, S d a w → Spec t d (f a) w ∧ Effect t d (f a) w := by exact fun _ _ h => h) :
    locking.wpf (answer f p) (.start Inv) d
      (fun r _ w => Good Inv (fun t d a w => Spec t d a w ∧ Effect t d a w) t d w r)
      fun _ => True :=
  wpf_answer hd (wpf_of_wp (.any p) hp) hS

/-- Every call meets its specification, and fails only as it may. -/
theorem code_effect (t : Call) (d : DB) (hd : Inv d) : locking.wpf (code t) (.start Inv) d
      (fun r _ w => Good Inv (fun t d a w => Spec t d a w ∧ Effect t d a w) t d w r)
      (Fault t) := by
  -- The calls about polls post nothing.
  have hpolls : ∀ a {w}, t.onPolls = true → Spec t d a w → PostsOnly d w := fun _ _ ht h => by
    obtain ⟨os, hdid, hos⟩ := h.onPolls ht
    exact .of_polls hdid hos
  cases t with
  | send => exact wpf_answer_any hd (wp_sendMessage _ _ hd)
  | sendChat => exact wpf_answer_any hd (wp_sendChatMessage _ _ hd)
  | announceChat => exact wpf_answer_any hd (wp_announceChat _ _ _ _ hd)
  | forward => exact wpf_answer_any hd (wp_forwardMessages _ _ _ _ _ _ hd)
  | edit => exact wpf_answer_any hd (wp_editMessage _ _ _ _ hd)
  | delete => exact wpf_answer hd (wpf_deleteMessages _ _ _ _ hd) fun _ _ h => ⟨h.spec, h⟩
  | readHistory => exact wpf_answer_any hd (wp_readHistory _ _ _ _ d) fun _ _ h => ⟨h.spec, h⟩
  | readChat => exact wpf_answer_any hd (wp_readChatHistory _ _ _ _ _ d)
  | createChat => exact wpf_answer_any hd (wp_createChat _ _ _ _ d)
  | addChatUser => exact wpf_answer_any hd (wp_addChatUser _ _ _ _ hd)
  | removeChatUser => exact wpf_answer_any hd (wp_removeChatUser _ _ _ _ hd)
  | setChatTitle => exact wpf_answer_any hd (wp_setChatTitle _ _ _ _ hd)
  | setChatRights => exact wpf_answer_any hd (wp_setChatRights _ _ _ d)
  | setChatAdmin => exact wpf_answer_any hd (wp_setChatAdmin _ _ _ _ d)
  | setChatPin => exact wpf_answer_any hd (wp_setChatPin _ _ _ d)
  | checkChatWrite => exact wpf_answer_any hd (wp_checkChatWrite _ _ _ _ d)
  | react => exact wpf_answer_any hd (wp_react _ _ _ hd)
  | block => exact wpf_answer_any hd (wp_blockUser _ _ _ d)
  | unblock => exact wpf_answer_any hd (wp_unblockUser _ _ d)
  | castVote =>
    exact wpf_answer_any hd (wp_castPollVote _ _ _ _ hd) fun view _ h =>
      ⟨h, hpolls (.poll view) rfl h, trivial⟩
  | closePoll =>
    exact wpf_answer_any hd (wp_closePoll _ _ hd) fun b _ h => ⟨h, hpolls (.flag b) rfl h, trivial⟩
  | createPoll =>
    exact wpf_answer_any hd (wp_createPoll _ _ _ _ _ hd) fun r _ h =>
      ⟨h, hpolls (.created r.1 r.2) rfl h, trivial⟩
  | viewPoll =>
    exact wpf_answer_any hd (wp_pollForMessage _ _ _ d) fun view _ h =>
      ⟨h, hpolls (.poll view) rfl h, trivial⟩

theorem code_spec (t : Call) (d : DB) (hd : Inv d) :
    locking.wp (code t) (.start Inv) d fun r _ w => Good Inv Spec t d w r := by
  refine wp_mono (wp_of_wpf (code_effect t d hd)) fun r _ w _ hr => ?_
  cases r with
  | commit a => exact ⟨hr.1, hr.2.1⟩
  | rollback a => exact hr.1

abbrev StoreConfig := Config DB Lock Write Seq StoreErr Reply Call

abbrev StoreRecord := Record DB Reply StoreErr Call

variable {c : StoreConfig} {files : List File} {states : Owned}

/-- What the interleavings of calls reach from tables without messages. -/
def Reached (states : Owned) (files : List File) (c : StoreConfig) : Prop :=
  Reachable locking.toRows code (.initial states files) c

theorem Reached.ok (h : Reached states files c) :
    locking.ConfigOk Inv Spec (.initial states files) c :=
  sound code_spec (.initial states files) h

theorem Reached.effect (h : Reached states files c) (hr : r ∈ c.log)
    (ha : r.outcome.answer = some a) : Effect r.call r.pre a r.post := by
  have hok : locking.ConfigOk Inv _ _ c :=
    sound (fun t d hd => wp_of_wpf (code_effect t d hd)) (.initial states files) h
  exact ((hok.records r hr).spec ha).2

theorem Reached.fault (h : Reached states files c) (hr : r ∈ c.log)
    {e : StoreErr} (he : r.outcome = .failed e) : Fault r.call e :=
  faults_sound code_effect (.initial states files) h hr he

instance decidableUnused : (l : Lock) → (d : DB) → Decidable (locking.toRows.unused l d)
  | .owner _, _ | .poll _, _ | .file _, _ => .isFalse not_false
  | .chat c, d => inferInstanceAs (Decidable (d.ofChat c = {}))
  | .fanout n, d => inferInstanceAs (Decidable (d.copyKeys n = []))

instance : DecidableRel locking.toRows.conflicts := inferInstanceAs (DecidableRel Lock.conflicts)

/-- The calls one after the other, from tables without messages. -/
def serialRun (states : Owned) (files : List File) (ts : List Call) : StoreConfig :=
  (Config.start (.initial states files)).serial locking.toRows code ts

theorem reached_serialRun {ts : List Call}
    (h : SerialDrawsNew locking.toRows code ts (.initial states files) := by decide) :
    Reached states files (serialRun states files ts) :=
  Reachable.start.serial rfl h

/-- Users who signed up at time 0. -/
abbrev two : Owned := [(1, 0), (2, 0)]

abbrev three : Owned := [(1, 0), (2, 0), (3, 0)]

/-- One of two users has written to the other before these calls. -/
def afterHi (ts : List Call) : StoreConfig :=
  serialRun two [] (.send 10 ⟨1, 2, "hi", 7, 0, 0⟩ :: ts)

/-- The first user has written to a chat with the given others before these calls. -/
def inChat (others : List Int) (ts : List Call) : StoreConfig :=
  serialRun [] [] (.createChat 9 1 "chat" others :: .sendChat 10 ⟨1, 1, "hi", 7, 0, none, 0⟩ :: ts)

def DB.eventLog (d : DB) (u : Int) : List Event :=
  d.events.filter (·.ownerID = u)

def DB.messageRows (d : DB) (u : Int) : List Message :=
  d.messages.filter (·.ownerID = u)

theorem LogOk.one_newMessage (h : LogOk u p) {m : Message} (hm : m ∈ p.messages) :
    (p.events.filter fun e => e.type = .newMessage ∧ e.localID = m.localID).length = 1 := by
  have hnodup : (p.messages.map (·.localID)).Nodup := by
    rw [show p.messages.map (·.localID) = _ from h.messages]
    exact nodup_upto _
  have hcount := count_eq_one_of_mem hnodup (mem_map_of_mem hm)
  rw [← h.announced, List.count, countP_map, countP_eq_length_filter, filter_filter] at hcount
  rw [← hcount]
  congr 2
  funext e
  simp [and_comm, Bool.beq_eq_decide_eq]

theorem LogOk.newMessage_order (h : LogOk u p) {e e' : Event}
    (he : e ∈ p.events) (he' : e' ∈ p.events) (hnew : e.type = .newMessage)
    (hnew' : e'.type = .newMessage) (hlt : e.pts < e'.pts) : e.localID < e'.localID := by
  have hpts : (p.events.filter (·.type = .newMessage)).Pairwise (·.pts < ·.pts) := by
    refine List.Pairwise.filter _ (pairwise_map.mp ?_)
    rw [show p.events.map (·.pts) = _ from h.events]
    exact pairwise_upto _
  have hids : (p.events.filter (·.type = .newMessage)).Pairwise (·.localID < ·.localID) := by
    refine pairwise_map.mp ?_
    rw [h.announced, show p.messages.map (·.localID) = _ from h.messages]
    exact pairwise_upto _
  exact lt_of_pairwise_lt hpts hids (by simp [he, hnew]) (by simp [he', hnew']) hlt

/-- In every committed state of every interleaving, an owner's events are numbered
`1, ..., pts` and its messages `1, ..., next - 1`; each message entered the log once, in
the order of the ids, and before its edits and deletions. -/
theorem eventLog_contiguous {states : Owned} {files : List File} {c : StoreConfig}
    (h : Reached states files c) (u : Int) :
    (c.db.eventLog u).map (·.pts) = upto (c.db.ptsOf u) ∧
      (c.db.messageRows u).map (·.localID) = upto (c.db.nextOf u - 1) ∧
      (∀ m ∈ c.db.messageRows u, ((c.db.eventLog u).filter fun e =>
        e.type = .newMessage ∧ e.localID = m.localID).length = 1) ∧
      (∀ e ∈ c.db.eventLog u, ∀ e' ∈ c.db.eventLog u, e.type = .newMessage →
        e'.type = .newMessage → e.pts < e'.pts → e.localID < e'.localID) ∧
      ∀ e ∈ c.db.eventLog u, e.type = .edit ∨ e.type = .delete →
        ∃ m ∈ c.db.messageRows u, m.localID = e.localID ∧
          ∃ e' ∈ c.db.eventLog u, e'.type = .newMessage ∧ e'.localID = e.localID ∧
            e'.pts < e.pts := by
  have hlog : LogOk u (c.db.ofOwner u) := h.ok.inv.logs u
  refine ⟨?_, ?_, fun m hm => hlog.one_newMessage hm,
    fun e he e' he' => hlog.newMessage_order he he', fun e he htype => ?_⟩
  · rw [← c.db.ptsOf_ofOwner u]
    exact hlog.events
  · rw [← c.db.nextOf_ofOwner u]
    exact hlog.messages
  · obtain ⟨e', he', hnew, hid, hlt⟩ := hlog.later e he htype
    have hmem : e.localID ∈ (c.db.ofOwner u).messages.map (·.localID) := by
      rw [← hlog.announced, ← hid]
      exact mem_map_of_mem (mem_filter.mpr ⟨he', by simpa using hnew⟩)
    obtain ⟨m, hm, hmid⟩ := mem_map.mp hmem
    exact ⟨m, hm, hmid, e', he', hnew, hid, hlt⟩

/-- A message sent, edited and deleted on both sides. -/
theorem eventLog_contiguous_revoked : ((afterHi [.edit 11 1 1 "ho",
      .delete 12 1 [1] true]).db.eventLog 2).map (·.pts) = [1, 2, 3] :=
  (eventLog_contiguous reached_serialRun 2).1

/-- What a client that follows a log does with the ids of its messages. -/
def applyEvent (ids : List Int) (e : Event) : List Int :=
  match e.type with
  | .newMessage => ids ++ [e.localID]
  | .delete => ids.filter (· ≠ e.localID)
  | _ => ids

def idsOf (k : EventType) (es : List Event) : List Int :=
  (es.filter (·.type = k)).map (·.localID)

theorem idsOf_snoc (k : EventType) (es : List Event) (e : Event) :
    idsOf k (es ++ [e]) = idsOf k es ++ if e.type = k then [e.localID] else [] := by
  by_cases h : e.type = k <;> simp [idsOf, h]

theorem foldl_applyEvent {es : List Event} (h : es.Pairwise fun e e' =>
      e.type = .delete → e'.type = .newMessage → e.localID ≠ e'.localID) :
    es.foldl applyEvent [] = (idsOf .newMessage es).filter (· ∉ idsOf .delete es) := by
  induction es using reverseRecOn with
  | nil => rfl
  | append_singleton es e ih =>
    obtain ⟨hes, -, hlast⟩ := pairwise_append.mp h
    rw [foldl_append, ih hes, idsOf_snoc, idsOf_snoc]
    cases htype : e.type with
    | newMessage =>
      have hnew : e.localID ∉ idsOf .delete es := by
        simpa [idsOf] using fun e' he' hdel => hlast e' he' e (mem_singleton.mpr rfl) hdel htype
      simp [applyEvent, htype, hnew]
    | delete => simp [applyEvent, htype, filter_filter, not_or, and_comm]
    | edit | readIn | readOut => simp [applyEvent, htype]

/-- A client that follows an account's log from its start has the account's live messages. -/
theorem log_replays_messages (h : Reached states files c) (u : Int) :
    (c.db.eventLog u).foldl applyEvent [] =
      ((c.db.messageRows u).filter (!·.deleted)).map (·.localID) := by
  have hlog : LogOk u (c.db.ofOwner u) := h.ok.inv.logs u
  refine (foldl_applyEvent (hlog.events.pairwise.imp_of_mem
    fun {e e'} he he' hlt hdel hnew heq => ?_)).trans ?_
  -- A deleted message was announced before, so no later event announces its id.
  · obtain ⟨e'', he'', hnew'', hid, hlt''⟩ := hlog.later e he (.inr hdel)
    have := hlog.newMessage_order he'' he' hnew'' hnew (hlt''.trans hlt)
    omega
  · rw [show idsOf .newMessage _ = _ from hlog.announced, filter_map]
    refine congrArg _ (filter_congr fun m hm => ?_)
    have hdeleted := hlog.deleted m hm
    cases hm' : m.deleted <;> simpa [idsOf, hm'] using hdeleted

theorem log_replays_messages_two : ((afterHi [.send 11 ⟨1, 2, "ho", 8, 0, 0⟩,
      .delete 12 1 [1] true]).db.eventLog 2).foldl applyEvent [] = [2] :=
  (log_replays_messages reached_serialRun 2).trans (by decide)

/-- At any moment of any interleaving of calls, each open transaction asks for one lock at most,
and no circle of transactions wait for each other. -/
theorem lock_waits_acyclic {d₀ : DB} (h₀ : Inv d₀) {c : StoreConfig}
    (hc : Reachable locking.toRows code d₀ c) :
    (∀ i l l', c.Wants locking.toRows i l → c.Wants locking.toRows i l' → l = l') ∧
      ∀ i, ¬ Relation.TransGen (c.WaitsFor locking.toRows) i i := by
  have hasc : locking.AllAscend c := (Locking.sound code_spec h₀ hc).allAscend
  refine ⟨fun i l l' => hasc.wants_unique, hasc.acyclic hc.exclusive Lock.not_below_self
    (fun _ _ _ => Lock.below.trans) fun _ _ => Lock.conflicts.eq⟩

/-- Two users block each other; the second call waits for the first. -/
theorem exists_blocks : ∃ c : StoreConfig, Reachable locking.toRows code (.initial [] []) c ∧
    c.WaitsFor locking.toRows 1 0 ∧ c.open_ 1 ≠ none := by
  have hbegin : Reachable locking.toRows code (.initial [] []) _ :=
    Reachable.start.step (.begin _ 0 (.block 5 1 2) rfl)
  have hlock := hbegin.step (.stmt _ 0 _ _ _ _ _ _ rfl fun l _ j s hj hs => by
    simp [Config.setSession, Config.start, hj] at hs)
  have hc := hlock.step (.begin _ 1 (.block 6 2 1) rfl)
  refine ⟨_, hc, ⟨by decide, .owner 1, .stmt rfl ?_, _, rfl, .owner 1, ?_,
    rfl⟩, by simp [Config.setSession]⟩
  · exact List.mem_singleton_self _
  · exact List.mem_singleton_self _

theorem lock_waits_acyclic_blocks : ∃ c : StoreConfig,
    Reachable locking.toRows code (.initial [] []) c ∧ c.WaitsFor locking.toRows 1 0 ∧
      ¬ Relation.TransGen (c.WaitsFor locking.toRows) 1 1 := by
  obtain ⟨c, hc, hwaits, -⟩ := exists_blocks
  exact ⟨c, hc, hwaits, (lock_waits_acyclic (.initial [] []) hc).2 1⟩

/-- However the calls interleave, as long as transactions are open the locks that one of them asks
for next are free. -/
theorem some_call_goes_on {d₀ : DB} (h₀ : Inv d₀) {c : StoreConfig}
    (hc : Reachable locking.toRows code d₀ c) {i : Nat} (hi : c.open_ i ≠ none) :
    ∃ j, c.open_ j ≠ none ∧ ∀ l, c.Wants locking.toRows j l → c.Free locking.toRows j l := by
  have hasc : locking.AllAscend c := (Locking.sound code_spec h₀ hc).allAscend
  exact Config.exists_free (Config.finite_open hc) (hasc.acyclic hc.exclusive Lock.not_below_self
    (fun _ _ _ => Lock.below.trans) fun _ _ => Lock.conflicts.eq) hi

theorem some_call_goes_on_blocks : ∃ c : StoreConfig,
    Reachable locking.toRows code (.initial [] []) c ∧ c.WaitsFor locking.toRows 1 0 ∧
      ∃ j, c.open_ j ≠ none ∧ ∀ l, c.Wants locking.toRows j l → c.Free locking.toRows j l := by
  obtain ⟨c, hc, hwaits, hopen⟩ := exists_blocks
  exact ⟨c, hc, hwaits, some_call_goes_on (.initial [] []) hc hopen⟩

end TelegramServer.Store
