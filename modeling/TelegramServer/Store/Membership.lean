import TelegramServer.Store.Runs

/-!
# Chat membership

What the transactions of a chat write, they write to its members: every row,
edit, event, reaction and dialog that a commit adds on behalf of a chat belongs
to an owner who is in the chat at that commit, or it tells an owner of their own
removal.
-/

namespace TelegramServer.Store

open Tx Tx.Table List
open Message (isAt_iff isAt frozen kept)

/-- The act writes for chats, and only to those who are members in `w`. -/
def Act.careful (d w : DB) : Act → Prop
  | .ensure _ _ => True
  | .post m _ _ => m.peerType = .chat → w.isChatMember m.peerID m.ownerID ∨ m.isOwnRemoval
  | .edit owner localID _ _ => ∀ c, d.chatRow c owner localID → w.isChatMember c owner
  | .delete _ _ _ => False
  | .mark _ _ _ _ => False
  | .side (.upsertReaction owner localID _ _) => ∀ c, d.chatRow c owner localID →
    w.isChatMember c owner
  | .side (.deleteReaction owner localID _) => ∀ c, d.chatRow c owner localID →
    w.isChatMember c owner
  | .side (.advanceReadInbox _ _ _ _) => False
  | .side (.advanceChatReadInbox _ _ _ _) => False
  | .side (.advanceReadOutbox _ _ _ _) => False
  | .side _ => True

def Careful (as : List Act) (d w : DB) : Prop :=
  ∀ a ∈ as, a.careful d w

variable {a : Reply} {as : List Act} {c l u : Int} {d w : DB} {m : Message} {t : Call}

theorem OffChat.careful (h : OffChat as d) : Careful as d w := by
  intro a ha
  have hoff := h a ha
  cases a with
  | ensure user now => trivial
  | post m unread now => exact fun hchat => absurd (hoff.symm.trans hchat) (by decide)
  | edit owner localID text now => exact fun c hc => absurd hc (hoff c)
  | delete | mark => exact hoff
  | side o =>
    cases o <;> first | trivial | exact fun c hc => absurd hc (hoff c)

theorem careful_of_polls {os : List Write} (h : ∀ o ∈ os, o.poll.isSome) :
    Careful (os.map .side) d w := by
  intro a ha
  obtain ⟨o, ho, rfl⟩ := mem_map.mp ha
  have hpoll := h o ho
  cases o <;> trivial

theorem Inv.chatRow_unique (h : Inv d) {c' : Int} (hc : d.chatRow c u l) (hc' : d.chatRow c' u l) :
    c = c' := by
  obtain ⟨m, hm, hat, -, rfl⟩ := hc
  obtain ⟨m', hm', hat', -, rfl⟩ := hc'
  obtain ⟨hu, hl⟩ := isAt_iff.mp hat
  obtain ⟨hu', hl'⟩ := isAt_iff.mp hat'
  rw [row_unique h.logs hm hm' (hu.trans hu'.symm) (hl.trans hl'.symm)]

/-- Acts on behalf of one chat, the removal of a member included. -/
theorem OnChat.careful {extra : Int → Prop} (hd : Inv d) (h : OnChat c extra as d w)
    (hextra : ∀ a ∈ as, ∀ u, a.owner = some u → extra u → a.adds ∧ ∀ m ∈ a.newMessages,
      m.isOwnRemoval) :
    Careful as d w := by
  intro a ha
  obtain ⟨hon, hmem⟩ := h a ha
  have hrow : ∀ {u l c'}, a.owner = some u → a.adds = false → d.chatRow c u l → d.chatRow c' u l →
      w.isChatMember c' u := by
    intro u l c' hu hadds hc hc'
    rw [← hd.chatRow_unique hc hc']
    rcases hmem u hu with hin | hx
    · exact hin
    · exact absurd (hextra a ha u hu hx).1 (by simp [hadds])
  cases a with
  | ensure user now => trivial
  | post m unread now =>
    intro _
    rw [hon.2]
    exact (hmem m.ownerID rfl).imp_right fun hx =>
      (hextra _ ha _ rfl hx).2 m (by simp [Act.newMessages])
  | edit owner localID text now => exact fun c' hc' => hrow rfl rfl hon hc'
  | delete | mark => exact hon
  | side o =>
    cases o <;> first
      | trivial
      | exact fun c' hc' => hrow rfl rfl hon hc'

theorem Spec.careful (hd : Inv d) (h : Spec t d a w) (ht : t.actsInChats = true) :
    ∃ as, Did as d w ∧ Careful as d w := by
  obtain ⟨as, hdid, hdeed⟩ := h.deed
  refine ⟨as, hdid, ?_⟩
  cases hdeed with
  | onChat c extra on removal => exact on.careful hd removal
  | offChat off => exact off.careful
  | pin c u pinned =>
    intro a ha
    rw [mem_singleton.mp ha]
    trivial
  | delete call | read call => exact absurd (ht.symm.trans call) (by simp)
  | polls os _ all => exact careful_of_polls all

/-! ## What changed was written by an act -/

def Act.logs (e : Event) : Act → Prop
  | .post m _ _ => e.ownerID = m.ownerID ∧ e.localID = m.localID
  | .edit owner localID _ _ => e.ownerID = owner ∧ e.localID = localID
  | .delete owner localID _ => e.ownerID = owner ∧ e.localID = localID
  | .mark owner _ marker _ => e.ownerID = owner ∧ e.localID = marker
  | _ => False

theorem Act.logs_of_event {a : Act} {e : Event} (h : a.event = some e.entry) : a.logs e := by
  cases a <;> first | (cases h; done) | skip
  all_goals
    obtain ⟨howner, hrest⟩ := Prod.ext_iff.mp (Option.some.inj h)
    exact ⟨howner.symm, (Prod.ext_iff.mp hrest).2.symm⟩

theorem mem_events_runActs (hok : ActsOk as d) {e : Event} (he : e ∈ (runActs as d).events) :
    e ∈ d.events ∨ ∃ a ∈ as, a.logs e := by
  obtain ⟨new, heq, hentries⟩ := hok.events
  rw [heq, mem_append] at he
  refine he.imp_right fun hnew => ?_
  have hmem : e.entry ∈ as.filterMap Act.event := hentries ▸ mem_map_of_mem hnew
  obtain ⟨a, ha, hevent⟩ := mem_filterMap.mp hmem
  exact ⟨a, ha, Act.logs_of_event hevent⟩

def Message.wording (m : Message) : String × Option Int :=
  (m.text, m.editDate)

def Act.edits (owner localID : Int) : Act → Bool
  | .edit u l _ _ => u = owner ∧ l = localID
  | _ => false

theorem wording_act {a : Act} (hok : a.Ok d) (hm : d.messageByOwnerLocal u l = some m)
    (ha : a.edits u l = false) :
    ∃ x, (a.apply d).messageByOwnerLocal u l = some x ∧ x.wording = m.wording := by
  have hupdate {v k : Int} {f : Message → Message}
      (hf : ∀ x : Message, (f x).ownerID = x.ownerID ∧ (f x).localID = x.localID) :
      (updateWhere (isAt v k) f d.messages).find? (isAt u l) =
        some (if isAt v k m then f m else m) := by
    rw [find?_updateWhere_of fun x _ => by simp [isAt, hf x], show d.messages.find? _ = _ from hm]
    rfl
  cases a with
  | ensure user now => exact ⟨m, hm, rfl⟩
  | post x unread now =>
    refine ⟨m, ?_, rfl⟩
    change (d.messages ++ [x]).find? (isAt u l) = some m
    rw [find?_append, show d.messages.find? _ = _ from hm]
    rfl
  | edit v k text now =>
    refine ⟨_, hupdate fun x => ⟨rfl, rfl⟩, ?_⟩
    have hat : isAt v k m = false := by
      obtain ⟨-, rfl, rfl⟩ := DB.messageByOwnerLocal_some hm
      rw [Bool.eq_false_iff] at ha ⊢
      intro hat
      obtain ⟨hu, hl⟩ := isAt_iff.mp hat
      exact ha (by simp [Act.edits, hu, hl])
    simp [hat]
  | delete v k now =>
    refine ⟨_, hupdate fun x => ⟨rfl, rfl⟩, ?_⟩
    split <;> rfl
  | mark owner type marker now => exact ⟨m, hm, rfl⟩
  | side o =>
    cases o <;> first | exact ⟨m, hm, rfl⟩ | exact absurd hok Bool.false_ne_true

theorem wording_runActs (hok : ActsOk as d) (hm : d.messageByOwnerLocal u l = some m)
    (has : ∀ a ∈ as, a.edits u l = false) :
    ∃ x, (runActs as d).messageByOwnerLocal u l = some x ∧ x.wording = m.wording := by
  induction as generalizing d m with
  | nil => exact ⟨m, hm, rfl⟩
  | cons a as ih =>
    obtain ⟨y, hy, hym⟩ := wording_act hok.1 hm (has a (by simp))
    obtain ⟨x, hx, hxy⟩ := ih hok.2 hy fun b hb => has b (by simp [hb])
    exact ⟨x, hx, hxy.trans hym⟩

def DB.reactionsOn (d : DB) (owner localID : Int) : List Reaction :=
  d.reactions.filter fun r => (r.ownerID, r.localID) = (owner, localID)

def Act.reacts (owner localID : Int) : Act → Bool
  | .side (.upsertReaction u l _ _) => (u, l) = (owner, localID)
  | .side (.deleteReaction u l _) => (u, l) = (owner, localID)
  | _ => false

theorem reactionsOn_act {a : Act} (ha : a.reacts u l = false) (d : DB) :
    (a.apply d).reactionsOn u l = d.reactionsOn u l := by
  cases a with
  | side o =>
    cases o
    case upsertReaction v k reactor reaction =>
      have hne : (v, k) ≠ (u, l) := by simpa [Act.reacts] using ha
      refine filter_upsertWhere_of_ne (k := fun r : Reaction => (r.ownerID, r.localID)) hne ?_
        fun _ => rfl
      intro x hx
      simp only [Reaction.isFor, decide_eq_true_eq] at hx
      rw [hx.1, hx.2.1]
      exact hne
    case deleteReaction v k reactor =>
      have hne : (v, k) ≠ (u, l) := by simpa [Act.reacts] using ha
      refine filter_filter_of_ne (k := fun r : Reaction => (r.ownerID, r.localID)) ?_
      intro x hx
      simp only [Prod.mk.injEq] at hx
      simp only [Reaction.isFor, hx.1, hx.2, Bool.not_eq_true', decide_eq_false_iff_not]
      exact fun h => hne (by simp [h.1, h.2.1])
    all_goals rfl
  | _ => rfl

theorem reactionsOn_runActs (has : ∀ a ∈ as, a.reacts u l = false) (d : DB) :
    (runActs as d).reactionsOn u l = d.reactionsOn u l :=
  runActs_frame (f := (·.reactionsOn u l)) (fun a ha => reactionsOn_act (has a ha)) d

def Act.lists (owner chat : Int) : Act → Bool
  | .post m _ _ => m.ownerID = owner ∧ m.peerType = .chat ∧ m.peerID = chat
  | .side (.advanceReadInbox _ _ _ _) => true
  | .side (.advanceChatReadInbox _ _ _ _) => true
  | .side (.advanceReadOutbox _ _ _ _) => true
  | _ => false

theorem dialog_act {a : Act} (hok : a.Ok d) (ha : a.lists u c = false) :
    (a.apply d).dialog u .chat c = d.dialog u .chat c := by
  cases a with
  | post m unread now =>
    have hne : (m.ownerID, m.peerType, m.peerID) ≠ (u, PeerType.chat, c) := by
      simpa [Act.lists] using ha
    have hkey : ∀ g : Dialog, Dialog.isFor u .chat c g =
        decide ((g.ownerID, g.peerType, g.peerID) = (u, PeerType.chat, c)) := by
      intro g
      simp [Dialog.isFor]
    simp only [DB.dialog, funext hkey, ← head?_filter]
    refine congrArg List.head? (filter_upsertWhere_of_ne
      (k := fun g : Dialog => (g.ownerID, g.peerType, g.peerID)) hne ?_ fun _ => rfl)
    intro g hg
    simp only [Dialog.isFor, decide_eq_true_eq] at hg
    rw [hg.1, hg.2.1, hg.2.2]
    exact hne
  | side o =>
    cases o <;> first
      | rfl
      | exact absurd ha.symm Bool.false_ne_true
      | exact absurd hok Bool.false_ne_true
  | _ => rfl

theorem dialog_runActs (hok : ActsOk as d) (has : ∀ a ∈ as, a.lists u c = false) :
    (runActs as d).dialog u .chat c = d.dialog u .chat c :=
  hok.invariant (P := fun w => w.dialog u .chat c = d.dialog u .chat c) rfl fun a ha _ hok hd =>
    (dialog_act hok (has a ha)).trans hd

/-! ## Every run -/

structure WrittenToMembers (pre post : DB) : Prop where
  rows : ∀ x ∈ post.messages, x.frozen ∉ pre.messages.map frozen → x.peerType = .chat →
    post.isChatMember x.peerID x.ownerID ∨ x.isOwnRemoval
  edits : ∀ m ∈ pre.messages, m.peerType = .chat → ∀ x ∈ post.messages, x.frozen = m.frozen →
    x.wording ≠ m.wording → post.isChatMember m.peerID m.ownerID
  events : ∀ e ∈ post.events, e ∉ pre.events → ∀ x ∈ post.messages,
    isAt e.ownerID e.localID x → x.peerType = .chat →
      post.isChatMember x.peerID x.ownerID ∨ x.isOwnRemoval
  reactions : ∀ m ∈ pre.messages, m.peerType = .chat →
    post.reactionsOn m.ownerID m.localID ≠ pre.reactionsOn m.ownerID m.localID →
      post.isChatMember m.peerID m.ownerID
  dialogs : ∀ u c, post.dialog u .chat c ≠ pre.dialog u .chat c → post.isChatMember c u ∨
    ∃ x ∈ post.messages, x.peerType = .chat ∧ x.peerID = c ∧ x.ownerID = u ∧ x.isOwnRemoval

theorem Inv.messageByOwnerLocal (h : Inv d) (hm : m ∈ d.messages) :
    d.messageByOwnerLocal m.ownerID m.localID = some m := by
  have hsome : (d.messages.find? (isAt m.ownerID m.localID)).isSome :=
    find?_isSome.mpr ⟨m, hm, isAt_iff.mpr ⟨rfl, rfl⟩⟩
  obtain ⟨x, hx⟩ := Option.isSome_iff_exists.mp hsome
  obtain ⟨hmem, hu, hl⟩ := DB.messageByOwnerLocal_some hx
  rw [← row_unique h.logs hmem hm hu hl]
  exact row_unique h.logs hmem hm hu hl ▸ hx

theorem DB.chatRow_of_mem (hm : m ∈ d.messages) (hchat : m.peerType = .chat) :
    d.chatRow m.peerID m.ownerID m.localID :=
  ⟨m, hm, isAt_iff.mpr ⟨rfl, rfl⟩, hchat, rfl⟩

theorem Careful.row (h : Careful as d w) {y x : Message} (hy : y ∈ newRows as)
    (hyx : y.frozen = x.frozen) (hchat : x.peerType = .chat) :
    w.isChatMember x.peerID x.ownerID ∨ x.isOwnRemoval := by
  obtain ⟨a, ha, hya⟩ := mem_flatMap.mp hy
  have hkept := kept hyx
  cases a with
  | post m unread now =>
    obtain rfl := mem_singleton.mp hya
    have hcase := h _ ha (hkept.peerType.trans hchat)
    rw [Message.isOwnRemoval, hkept.peerID, hkept.ownerID, hkept.action,
      hkept.actionUserID] at hcase
    exact hcase
  | _ => simp [Act.newMessages] at hya

theorem Careful.written (hd : Inv d) (hdid : Did as d w) (h : Careful as d w) :
    WrittenToMembers d w where
  rows x hx hnew hchat := by
    obtain ⟨y, hy, hyx⟩ := hdid.new_row hx hnew
    exact h.row hy hyx hchat
  edits m hm hchat x hx hxm hne := by
    by_contra hnot
    have hkey : x.ownerID = m.ownerID ∧ x.localID = m.localID :=
      ⟨(kept hxm).ownerID, (kept hxm).localID⟩
    have hfound := (hdid.inv hd).messageByOwnerLocal hx
    rw [hkey.1, hkey.2] at hfound
    obtain ⟨y, hy, hwording⟩ := wording_runActs hdid.ok (hd.messageByOwnerLocal hm) fun a ha => by
      rw [Bool.eq_false_iff]
      intro hedit
      cases a with
      | edit u l text now =>
        obtain ⟨rfl, rfl⟩ : u = m.ownerID ∧ l = m.localID := by simpa [Act.edits] using hedit
        exact hnot (h _ ha _ (DB.chatRow_of_mem hm hchat))
      | _ => exact absurd hedit Bool.false_ne_true
    rw [← hdid.eq, hfound] at hy
    exact hne (Option.some.inj hy ▸ hwording)
  events e he hnew x hx hat hchat := by
    obtain ⟨hu, hl⟩ := isAt_iff.mp hat
    rw [hdid.eq] at he
    obtain ⟨a, ha, hlogs⟩ := (mem_events_runActs hdid.ok he).resolve_left hnew
    by_cases hold : x.frozen ∈ d.messages.map frozen
    · obtain ⟨m, hm, hmx⟩ := mem_map.mp hold
      have hkept := kept hmx
      have hrow : d.chatRow x.peerID x.ownerID x.localID :=
        ⟨m, hm, hkept.isAt, hkept.peerType.trans hchat, hkept.peerID⟩
      cases a with
      | post p unread now =>
        -- The row that was posted is the one at this key.
        have hp : p ∈ newRows as := mem_flatMap.mpr ⟨_, ha, by simp [Act.newMessages]⟩
        obtain ⟨y, hy, hyp⟩ := hdid.stored hp
        have hxy : x = y := row_unique (hdid.inv hd).logs hx hy
          (hu.trans (hlogs.1.trans (kept hyp).ownerID.symm))
          (hl.trans (hlogs.2.trans (kept hyp).localID.symm))
        exact h.row hp (hyp.symm.trans (congrArg _ hxy.symm)) hchat
      | edit u l text now =>
        rw [hu, hl, hlogs.1, hlogs.2] at hrow
        left
        rw [hu, hlogs.1]
        exact h _ ha _ hrow
      | delete | mark => exact (h _ ha).elim
      | _ => exact hlogs.elim
    · obtain ⟨y, hy, hyx⟩ := hdid.new_row hx hold
      exact h.row hy hyx hchat
  reactions m hm hchat hne := by
    by_contra hnot
    refine hne (hdid.eq ▸ reactionsOn_runActs (fun a ha => ?_) d)
    rw [Bool.eq_false_iff]
    intro hreact
    have hrow := DB.chatRow_of_mem hm hchat
    cases a with
    | side o =>
      cases o
      case upsertReaction u l reactor reaction =>
        obtain ⟨rfl, rfl⟩ : u = m.ownerID ∧ l = m.localID := by simpa [Act.reacts] using hreact
        exact hnot (h _ ha _ hrow)
      case deleteReaction u l reactor =>
        obtain ⟨rfl, rfl⟩ : u = m.ownerID ∧ l = m.localID := by simpa [Act.reacts] using hreact
        exact hnot (h _ ha _ hrow)
      all_goals exact absurd hreact Bool.false_ne_true
    | _ => exact absurd hreact Bool.false_ne_true
  dialogs u c hne := by
    by_contra hnot
    refine hne (hdid.eq ▸ dialog_runActs hdid.ok fun a ha => ?_)
    rw [Bool.eq_false_iff]
    intro hlist
    cases a with
    | post p unread now =>
      obtain ⟨rfl, hchat, rfl⟩ : p.ownerID = u ∧ p.peerType = .chat ∧ p.peerID = c := by
        simpa [Act.lists] using hlist
      have hp : p ∈ newRows as := mem_flatMap.mpr ⟨_, ha, by simp [Act.newMessages]⟩
      obtain ⟨y, hy, hyp⟩ := hdid.stored hp
      have hkept := kept hyp
      have hychat := hkept.peerType.trans hchat
      refine hnot ((h.row hp hyp.symm hychat).imp ?_ ?_)
      · rw [hkept.peerID, hkept.ownerID]
        exact id
      · exact fun hrem => ⟨y, hy, hychat, hkept.peerID, hkept.ownerID, hrem⟩
    | side o => cases o <;> first | exact absurd hlist Bool.false_ne_true | exact h _ ha
    | _ => exact absurd hlist Bool.false_ne_true

def Call.actorIsMember (w : DB) : Call → Prop
  | .sendChat _ p => w.isChatMember p.chatID p.fromID
  | .forward _ fromID toChat peerID _ _ => toChat = true → w.isChatMember peerID fromID
  | .edit _ owner localID _ => ∀ c, w.chatRow c owner localID → w.isChatMember c owner
  | .react owner localID _ => ∀ c, w.chatRow c owner localID → w.isChatMember c owner
  | .setChatPin chatID callerID _ => w.isChatMember chatID callerID
  | _ => True

def Call.addsUnblocked (d w : DB) : Call → Prop
  | .addChatUser _ chatID target callerID =>
    d.isChatMember chatID target = false → w.isChatMember chatID target = true →
      d.isBlocked target callerID = false ∧ w.isBlocked target callerID = false
  | _ => True

theorem RowSpec.actor {owner localID : Int} (hd : Inv d) (h : RowSpec owner localID as d w)
    (hc : w.chatRow c owner localID) : w.isChatMember c owner := by
  obtain ⟨hdid, -, m, hm, hat, hchat, -⟩ := h
  obtain ⟨hu, hl⟩ := isAt_iff.mp hat
  obtain ⟨x, hx, hatx, htype, rfl⟩ := hc
  obtain ⟨hux, hlx⟩ := isAt_iff.mp hatx
  obtain ⟨y, hy, hym⟩ := (grows_runActs as d).row hm
  rw [← hdid.eq] at hy
  obtain rfl : x = y := row_unique (hdid.inv hd).logs hx hy
    (hux.trans (hu.symm.trans (kept hym).ownerID.symm))
    (hlx.trans (hl.symm.trans (kept hym).localID.symm))
  rw [show x.peerID = m.peerID from (kept hym).peerID]
  exact (hchat ((kept hym).peerType.symm.trans htype)).1

theorem Spec.actor (hd : Inv d) (h : Spec t d a w) : t.actorIsMember w := by
  cases t <;> cases a <;> first | exact h.elim | trivial | skip
  case sendChat.fannedOut => exact h.1
  case forward.forwarded =>
    obtain ⟨-, as, -, -, -, hchat, -⟩ := h
    exact fun htrue => (hchat htrue).1
  case edit.edited => exact fun c hc => h.elim fun _ h => h.actor hd hc
  case react.copies => exact fun c hc => h.elim fun _ h => h.actor hd hc
  case setChatPin.pinned =>
    have hmember := PinSpec.member h
    rw [(PinSpec.did h).eq]
    exact hmember

theorem Spec.added (h : Spec t d a w) : t.addsUnblocked d w := by
  cases t <;> cases a <;> first | exact h.elim | trivial | skip
  obtain ⟨as, -, ⟨-, rfl⟩ | hunblocked⟩ := h
  · exact fun hno hyes => absurd (hno.symm.trans hyes) Bool.false_ne_true
  · exact fun _ _ => hunblocked

/-- What one finished call may have done to chats. -/
structure ChatSafe (r : StoreRecord) : Prop where
  written : r.call.actsInChats = true → WrittenToMembers r.pre r.post
  actor : r.outcome.answer.isSome → r.call.actorIsMember r.post
  added : r.call.addsUnblocked r.pre r.post

/-- In every interleaving, in the order of the commits, chats are written to by their
members and for their members, and nobody is added by an inviter they block. -/
theorem chatSafe_of_reached {states : Owned} {files : List File} {c : StoreConfig}
    (h : Reached states files c) : ∀ r ∈ c.log, ChatSafe r := by
  intro r hr
  have hok := h.ok.records r hr
  cases ha : r.outcome.answer with
  | none =>
    have hsame := hok.unchanged ha
    refine ⟨fun _ => ?_, by simp [ha], ?_⟩
    · rw [hsame]
      exact Careful.written hok.1 (.nil r.pre) fun a ha => by simp at ha
    · rw [hsame]
      cases r.call <;>
        first | trivial | exact fun hno hyes => absurd (hno.symm.trans hyes) Bool.false_ne_true
  | some a =>
    have hspec := hok.spec ha
    refine ⟨fun hcall => ?_, fun _ => hspec.actor hok.1, hspec.added⟩
    obtain ⟨as, hdid, hcareful⟩ := hspec.careful hok.1 hcall
    exact hcareful.written hok.1 hdid

/-- A member leaves; what is said afterwards does not reach them. -/
theorem chatSafe_of_reached_leave :
    ∃ r ∈ (serialRun [] [] [.createChat 9 1 "chat" [2], .sendChat 10 ⟨1, 2, "hi", 7, 0, none, 0⟩,
        .removeChatUser 11 1 2 2, .sendChat 12 ⟨1, 1, "gone", 8, 0, none, 0⟩]).log,
      r.call = .sendChat 12 ⟨1, 1, "gone", 8, 0, none, 0⟩ ∧ r.outcome.answer.isSome ∧
        ChatSafe r := by
  refine ⟨_, getElem_mem (n := 3) (by decide), rfl, rfl, ?_⟩
  exact chatSafe_of_reached reached_serialRun _ (getElem_mem (by decide))

/-- An `AddChatUser` of someone who is in the chat already commits, though they block the
inviter: it adds nobody. -/
theorem addChatUser_of_blocking_member :
    ∃ c, Reached [] [] c ∧ ∃ r ∈ c.log, r.call = .addChatUser 11 1 2 1 ∧
      r.outcome = .done (.commit (.memberChange ⟨false, none⟩)) ∧
        r.pre.isBlocked 2 1 = true ∧ r.post.isBlocked 2 1 = true :=
  ⟨serialRun [] [] [.createChat 9 1 "chat" [2], .block 10 2 1, .addChatUser 11 1 2 1],
    reached_serialRun, by decide⟩

end TelegramServer.Store
