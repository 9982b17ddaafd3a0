import TelegramServer.Store.Copies

/-!
# Reply ids

Local ids are private to each owner, so the reply id of a message has to name, on every copy,
the owner's copy of what the sender replied to. A 1:1 send looks the mirror up; a fan-out writes
the sender's id on every copy, and neither checks the id that it is given.
-/

namespace TelegramServer.Store

open Tx Tx.Table List
open Message (frozen isAt)

variable {states : Owned} {files : List File} {c : StoreConfig}
  {r : StoreRecord} {d w : DB} {as : List Act} {m x y : Message}
  {ms : List Message} {now : Int} {p : ChatSend}

def SameMessage (x y : Message) : Prop :=
  x.key = y.key ∨ Mirror x y ∨ x.fanoutID ≠ 0 ∧ y.fanoutID = x.fanoutID

/-- The reply id of `x` names `t`: a row of the same owner in the same dialog, and a copy of what
the sender's copy of `x` names among the sender's rows. -/
structure Quotes (ms : List Message) (x t : Message) : Prop where
  key : t.key = (x.ownerID, x.replyToMsgID)
  dialog : t.peerType = x.peerType ∧ t.peerID = x.peerID
  named : ∃ s ∈ ms, s.ownerID = x.fromID ∧ SameMessage x s ∧
    ∃ n ∈ ms, n.key = (s.ownerID, s.replyToMsgID) ∧ SameMessage n t

instance (x y : Message) : Decidable (Mirror x y) :=
  decidable_of_iff (y.ownerID = x.peerID ∧ y.localID = x.peerLocalID ∧ y.peerType = .user ∧
    y.peerID = x.ownerID ∧ y.peerLocalID = x.localID)
    ⟨fun h => ⟨h.1, h.2.1, h.2.2.1, h.2.2.2.1, h.2.2.2.2⟩,
      fun h => ⟨h.owner, h.localID, h.peerType, h.peer, h.peerLocalID⟩⟩

instance (x y : Message) : Decidable (SameMessage x y) := inferInstanceAs (Decidable (_ ∨ _ ∨ _))

instance (ms : List Message) (x t : Message) : Decidable (Quotes ms x t) :=
  decidable_of_iff (t.key = (x.ownerID, x.replyToMsgID) ∧
    (t.peerType = x.peerType ∧ t.peerID = x.peerID) ∧
    ∃ s ∈ ms, s.ownerID = x.fromID ∧ SameMessage x s ∧
      ∃ n ∈ ms, n.key = (s.ownerID, s.replyToMsgID) ∧ SameMessage n t)
    ⟨fun h => ⟨h.1, h.2.1, h.2.2⟩, fun h => ⟨h.key, h.dialog, h.named⟩⟩

def ReplyRight (ms : List Message) (x : Message) : Prop :=
  x.replyToMsgID ≠ 0 → ∃ t ∈ ms, Quotes ms x t

instance (ms : List Message) (x : Message) : Decidable (ReplyRight ms x) :=
  inferInstanceAs (Decidable (_ → _))

def DB.repliesRight (d : DB) : Prop :=
  ∀ x ∈ d.messages, ReplyRight d.messages x

instance (d : DB) : Decidable d.repliesRight := inferInstanceAs (Decidable (∀ x ∈ d.messages, _))

theorem SameMessage.frozen (h : SameMessage x y) : SameMessage x.frozen y.frozen :=
  h.imp id (Or.imp (fun h => ⟨h.owner, h.localID, h.peerType, h.peer, h.peerLocalID⟩) id)

theorem SameMessage.of_frozen (h : SameMessage x.frozen y.frozen) : SameMessage x y :=
  h.imp id (Or.imp (fun h => ⟨h.owner, h.localID, h.peerType, h.peer, h.peerLocalID⟩) id)

theorem replyRight_frozen : ReplyRight (ms.map frozen) x.frozen ↔ ReplyRight ms x := by
  refine imp_congr Iff.rfl ⟨?_, ?_⟩
  · rintro ⟨_, ht, hkey, hdialog, _, hs, hown, hsame, _, hn, hnkey, hnt⟩
    obtain ⟨t, htmem, rfl⟩ := mem_map.mp ht
    obtain ⟨s, hsmem, rfl⟩ := mem_map.mp hs
    obtain ⟨n, hnmem, rfl⟩ := mem_map.mp hn
    exact ⟨t, htmem, hkey, hdialog, s, hsmem, hown, hsame.of_frozen, n, hnmem, hnkey, hnt.of_frozen⟩
  · rintro ⟨t, ht, hkey, hdialog, s, hs, hown, hsame, n, hn, hnkey, hnt⟩
    exact ⟨t.frozen, mem_map_of_mem ht, hkey, hdialog, s.frozen, mem_map_of_mem hs, hown,
      hsame.frozen, n.frozen, mem_map_of_mem hn, hnkey, hnt.frozen⟩

theorem ReplyRight.mono {ms' : List Message} (h : ReplyRight ms x) (hsub : ms ⊆ ms') :
    ReplyRight ms' x := by
  intro h0
  obtain ⟨t, ht, hkey, hdialog, s, hs, hown, hsame, n, hn, hnt⟩ := h h0
  exact ⟨t, hsub ht, hkey, hdialog, s, hsub hs, hown, hsame, n, hsub hn, hnt⟩

/-- Old replies stay right, so the new ones decide. -/
theorem DB.repliesRight.did (h : d.repliesRight) (hdid : Did as d w)
    (hnew : ∀ x ∈ newRows as, ReplyRight w.messages x) : w.repliesRight := by
  intro x hx
  have hfrozen : w.messages.map frozen =
      d.messages.map frozen ++ (newRows as).map frozen := hdid.eq ▸ hdid.ok.frozen_messages
  have hmem : x.frozen ∈ w.messages.map frozen := mem_map_of_mem hx
  rw [hfrozen, mem_append, mem_map, mem_map] at hmem
  rw [← replyRight_frozen]
  rcases hmem with ⟨x', hx', heq⟩ | ⟨x', hx', heq⟩
  · rw [← heq]
    refine (replyRight_frozen.mpr (h x' hx')).mono ?_
    rw [hfrozen]
    exact subset_append_left _ _
  · rw [← heq]
    exact replyRight_frozen.mpr (hnew x' hx')

/-! ## Sends -/

theorem Inv.find_row (h : Inv d) {t : Message} (ht : t ∈ d.messages) {u l : Int}
    (hk : t.key = (u, l)) : d.messages.find? (isAt u l) = some t := by
  have hat : isAt u l t := Message.key_eq_iff.mp hk
  cases hfind : d.messages.find? (isAt u l) with
  | none => exact absurd hat (by simpa using find?_eq_none.mp hfind t ht)
  | some x =>
    have hx : x.key = (u, l) := Message.key_eq_iff.mpr (find?_some hfind)
    rw [h.row_of_key (mem_of_find?_eq_some hfind) ht (hx.trans hk.symm)]

/-- The 1:1 send replies to a row that the sender has in the dialog. -/
def NamesMirror (d : DB) (p : SendParams) : Prop :=
  p.replyToMsgID < 2 ^ 31 ∧ ∃ t ∈ d.messages, t.key = (p.fromID, p.replyToMsgID) ∧
    t.peerType = .user ∧ t.peerID = p.toID ∧ t.peerLocalID < 2 ^ 31

/-- A 1:1 send to a message of the dialog replies right on both sides. -/
theorem SendRows.replyRight {p : SendParams} {s : Sent} (h : SendRows now p d s w) (hw : Inv w)
    (hdup : s.dup = false) (hnamed : 0 < p.replyToMsgID → NamesMirror d p) :
    ∃ as, Did as d w ∧ ∀ x ∈ newRows as, ReplyRight w.messages x := by
  obtain ⟨as, l, k, hdid, hadds, hmsg, hnew⟩ := h hdup
  have hmessages : w.messages = d.messages ++ newRows as := by
    rw [hdid.eq, messages_of_adds hadds]
  refine ⟨as, hdid, fun x hx h0 => ?_⟩
  have hout : p.outRow now k l ∈ w.messages := by
    rw [hmessages, hnew, hmsg]
    exact mem_append_right _ mem_cons_self
  rw [hnew, hmsg] at hx
  by_cases hpos : 0 < p.replyToMsgID
  · obtain ⟨hmax, t, ht, hkey, huser, hpeer, hmirrorMax⟩ := hnamed hpos
    have ht : t ∈ w.messages := hmessages ▸ mem_append_left _ ht
    have hstored : storedReply p.replyToMsgID = p.replyToMsgID := by
      rw [storedReply, if_pos hpos, int32_of_lt hpos.le hmax]
    have hnkey : t.key = (p.fromID, storedReply p.replyToMsgID) := by rw [hstored]; exact hkey
    have hown : x = p.outRow now k l → ∃ t ∈ w.messages, Quotes w.messages x t := by
      rintro rfl
      exact ⟨t, ht, hnkey, ⟨huser, hpeer⟩, _, hout, rfl, .inl rfl, t, ht, hnkey, .inl rfl⟩
    split at hx
    · exact hown (mem_singleton.mp hx)
    · rename_i hself
      obtain hx | rfl : x = p.outRow now k l ∨ x = p.inRow now (p.replyRef w.messages) l k := by
        simpa using hx
      · exact hown hx
      · have htown : t.ownerID = p.fromID := congrArg Prod.fst hkey
        obtain ⟨t', ht', hmirror⟩ := hw.mirror ht (by simp [huser])
          (by rw [hpeer, htown]; exact Ne.symm hself)
        have hone := (localID_lt_nextOf hw.logs ht').1
        have href : p.replyRef w.messages = t.peerLocalID := by
          rw [SendParams.replyRef, if_pos hpos, hw.find_row ht hkey]
          exact int32_of_lt (by rw [← hmirror.localID]; omega) hmirrorMax
        refine ⟨t', ht', ?_, ⟨hmirror.peerType, ?_⟩, _, hout, rfl,
          .inr (.inl ⟨rfl, rfl, rfl, rfl, rfl⟩), t, ht, hnkey, .inr (.inl hmirror)⟩
        · exact Prod.ext (hmirror.owner.trans hpeer) (hmirror.localID.trans href.symm)
        · exact hmirror.peer.trans htown
  · -- No copy has a reply id.
    refine absurd ?_ h0
    split at hx
    · rw [mem_singleton.mp hx]
      exact if_neg hpos
    · obtain rfl | rfl : x = p.outRow now k l ∨ x = p.inRow now (p.replyRef w.messages) l k := by
        simpa using hx
      · exact if_neg hpos
      · exact if_neg hpos

/-- The chat send replies to a message of the chat that all members have at the same local id. -/
def NamesCopies (d : DB) (p : ChatSend) : Prop :=
  p.replyToMsgID < 2 ^ 31 ∧ ∃ t ∈ d.messages, t.key = (p.fromID, p.replyToMsgID) ∧
    t.peerType = .chat ∧ t.peerID = p.chatID ∧ ∀ u ∈ (d.chatParticipants p.chatID).map (·.userID),
      ∃ t' ∈ d.messages, t'.key = (u, p.replyToMsgID) ∧ t'.fanoutID = t.fanoutID

structure FannedRows (now : Int) (p : ChatSend) (d w : DB) (m : Message) (as : List Act) :
    Prop where
  did : Did as d w
  messages : w.messages = d.messages ++ newRows as
  members : ∀ x ∈ newRows as, d.isChatMember p.chatID x.ownerID
  sender : m ∈ newRows as
  own : m.ownerID = p.fromID
  rows : ∀ x ∈ newRows as, ∃ u l, x = (p.fanOut.copy m.fanoutID).row now u l

theorem FanOutRows.fanned {f : FannedOut} (h : FanOutRows now p.fanOut d f w)
    (hspec : SendChatSpec p d f w) (hdup : f.dup = false) :
    ∃ m as, f.sender = some m ∧ FannedRows now p d w m as := by
  obtain ⟨n, owners, delivered, as, -, howners, hdel, hsender⟩ := h hdup
  obtain ⟨-, m, hs, -, hown, -⟩ := hspec
  have hm := hsender m hs
  have hmember : ∀ x ∈ newRows as, d.isChatMember p.chatID x.ownerID := by
    intro x hx
    rw [hdel.rows] at hx
    obtain ⟨b, hb, rfl⟩ := mem_map.mp hx
    have howner := (howners b.1).mp (hdel.keys ▸ mem_map_of_mem hb)
    exact howner.resolve_right (by simp [ChatSend.fanOut])
  have hrow : ∀ x ∈ newRows as, ∃ u l, x = (p.fanOut.copy n).row now u l := by
    intro x hx
    rw [hdel.rows] at hx
    obtain ⟨b, -, rfl⟩ := mem_map.mp hx
    exact ⟨b.1, b.2.2, rfl⟩
  have hn : m.fanoutID = n := by
    obtain ⟨u, l, rfl⟩ := hrow m hm
    rfl
  refine ⟨m, as, hs, hdel.did, ?_, hmember, hm, hown, ?_⟩
  · rw [hdel.did.eq, messages_of_adds hdel.adds]
  · rw [hn]
    exact hrow

theorem FannedRows.replyRight (h : FannedRows now p d w m as) (hw : Inv w)
    (hnamed : 0 < p.replyToMsgID → NamesCopies d p) :
    ∀ x ∈ newRows as, ReplyRight w.messages x := by
  intro x hx h0
  have hmem : ∀ y ∈ newRows as, y ∈ w.messages := fun y hy => by
    rw [h.messages]
    exact mem_append_right _ hy
  have hmw := hmem m h.sender
  have hm0 : m.fanoutID ≠ 0 := by
    obtain ⟨u, l, hrow⟩ := h.rows m h.sender
    have hkind := (hw.logs m.ownerID).kinds m (mem_filter.mpr ⟨hmw, by simp⟩)
    rcases hkind with ⟨huser, -⟩ | ⟨-, hpos, -⟩
    · rw [hrow] at huser
      exact absurd huser (by simp [Copy.row])
    · exact hpos.ne'
  have hreply : ∀ y ∈ newRows as, y.replyToMsgID = storedReply p.replyToMsgID := by
    intro y hy
    obtain ⟨u, l, rfl⟩ := h.rows y hy
    rfl
  have hfan : x.fanoutID = m.fanoutID ∧ x.fromID = p.fromID ∧ x.peerType = .chat ∧
      x.peerID = p.chatID := by
    obtain ⟨u, l, rfl⟩ := h.rows x hx
    exact ⟨rfl, rfl, rfl, rfl⟩
  have hpos : 0 < p.replyToMsgID := by
    by_contra hpos
    exact h0 ((hreply x hx).trans (if_neg hpos))
  obtain ⟨hmax, t, ht, hkey, hchat, hpeer, hcopies⟩ := hnamed hpos
  have hstored : storedReply p.replyToMsgID = p.replyToMsgID := by
    rw [storedReply, if_pos hpos, int32_of_lt hpos.le hmax]
  obtain ⟨t', ht', hkey', hfan'⟩ := hcopies x.ownerID (mem_chatMembers.mpr (h.members x hx))
  have hold : ∀ y ∈ d.messages, y ∈ w.messages := fun y hy => by
    rw [h.messages]
    exact mem_append_left _ hy
  have ht := hold t ht
  have ht' := hold t' ht'
  have ht0 : t.fanoutID ≠ 0 := by
    rcases (hw.logs t.ownerID).kinds t (mem_filter.mpr ⟨ht, by simp⟩) with ⟨huser, -⟩ | ⟨-, hpos, -⟩
    · exact absurd (huser.symm.trans hchat) (by simp)
    · exact hpos.ne'
  refine ⟨t', ht', ?_, ⟨?_, ?_⟩, m, hmw, ?_, .inr (.inr ⟨?_, hfan.1.symm⟩), t, ht, ?_,
    .inr (.inr ⟨ht0, hfan'⟩)⟩
  · rw [hreply x hx, hstored]
    exact hkey'
  · rw [hfan.2.2.1]
    exact (hw.logs t'.ownerID).chat_of_fanout (mem_filter.mpr ⟨ht', by simp⟩) (hfan'.trans_ne ht0)
  · rw [hfan.2.2.2, ← hpeer]
    exact hw.fanouts t ht t' ht' ht0 hfan'
  · rw [hfan.2.1]
    exact h.own
  · exact hfan.1.trans_ne hm0
  · rw [hreply m h.sender, hstored, h.own]
    exact hkey

/-! ## Runs -/

/-- A first send replies to nothing, or names what it should: in a 1:1 dialog a message of the
dialog, in a chat one that every member has at the same local id. -/
def NamesReply (d : DB) : Call → Prop
  | .send _ p => Unsent d p.fromID p.randomID → 0 < p.replyToMsgID → NamesMirror d p
  | .sendChat _ p => Unsent d p.fromID p.randomID → 0 < p.replyToMsgID → NamesCopies d p
  | _ => True

theorem PostsOnly.repliesRight (h : PostsOnly d w) (hd : d.repliesRight) : w.repliesRight := by
  obtain ⟨as, hdid, -, hnone⟩ := h
  exact hd.did hdid fun x hx h0 => absurd (hnone x hx) h0

theorem Effect.repliesRight {t : Call} {a : Reply} (h : Effect t d a w) (hspec : Spec t d a w)
    (hsend : ∀ now p, t ≠ .send now p) (hchat : ∀ now p, t ≠ .sendChat now p)
    (hd : d.repliesRight) :
    w.repliesRight := by
  have hnone : ∀ {as}, Did as d w → newRows as = [] → w.repliesRight := fun hdid hnew =>
    hd.did hdid (by simp [hnew])
  cases t <;> cases a <;> first | exact hspec.elim | exact PostsOnly.repliesRight h.1 hd | skip
  case send.sent now p s => exact absurd rfl (hsend now p)
  case sendChat.fannedOut now p s => exact absurd rfl (hchat now p)
  case forward.forwarded =>
    obtain ⟨⟨as, hdid, -, -, hreply, -⟩, -⟩ := h
    exact hd.did hdid fun x hx h0 => absurd (hreply x hx) h0
  case edit.edited =>
    obtain ⟨as, hdid, hnew, -⟩ := hspec
    exact hnone hdid hnew
  case delete.perOwner => exact (hspec.postsOnly rfl).repliesRight hd
  case readHistory.read => exact (hspec.postsOnly rfl).repliesRight hd
  case readChat.chatRead => exact (hspec.postsOnly rfl).repliesRight hd
  case react.copies =>
    obtain ⟨as, hdid, hnew, -⟩ := hspec
    exact hnone hdid hnew
  case checkChatWrite.flag =>
    obtain rfl := h
    exact hd

theorem Reached.repliesRight_step (h : Reached states files c) (hr : r ∈ c.log)
    (hn : NamesReply r.pre r.call) (hpre : r.pre.repliesRight) : r.post.repliesRight := by
  have hok := h.ok.records r hr
  cases ha : r.outcome.answer with
  | none => exact hok.unchanged ha ▸ hpre
  | some a =>
    have heffect := h.effect hr ha
    have hspec := hok.spec ha
    cases hcall : r.call with
    | send now p =>
      rw [hcall] at heffect hspec hn
      cases a <;> try exact hspec.elim
      case sent s =>
        obtain ⟨-, ⟨-, -, hsame⟩ | ⟨hdup, hunsent, -⟩⟩ := hspec
        · exact hsame ▸ hpre
        · obtain ⟨as, hdid, hnew⟩ := SendRows.replyRight heffect hok.2.1 hdup (hn hunsent)
          exact hpre.did hdid hnew
    | sendChat now p =>
      rw [hcall] at heffect hspec hn
      cases a <;> try exact hspec.elim
      case fannedOut f =>
        obtain ⟨-, m, -, -, -, -, -, ⟨-, -, hsame⟩ | ⟨hdup, hunsent, -⟩⟩ := id hspec
        · exact hsame ▸ hpre
        · obtain ⟨m, as, -, hrows⟩ := FanOutRows.fanned heffect hspec hdup
          exact hpre.did hrows.did (hrows.replyRight hok.2.1 (hn hunsent))
    | _ =>
      exact heffect.repliesRight hspec (by simp [hcall]) (by simp [hcall]) hpre

/-- Every reply id of every committed state names what it should if every first send replied to
nothing, or to a message that its copies can name. -/
theorem repliesRight_of_names (h : Reached states files c)
    (hn : ∀ r ∈ c.log, NamesReply r.pre r.call) : ∀ r ∈ c.log, r.post.repliesRight := by
  intro r hr
  have hpre : r.pre.repliesRight := h.ok.leads.invariant_pre
    (fun r' hr' hpre => h.repliesRight_step hr' (hn r' hr') hpre)
    (by simp [DB.repliesRight, DB.initial]) hr
  exact h.repliesRight_step hr (hn r hr) hpre

instance (d : DB) (p : SendParams) : Decidable (NamesMirror d p) :=
  inferInstanceAs (Decidable (_ ∧ _))

instance (d : DB) (p : ChatSend) : Decidable (NamesCopies d p) :=
  inferInstanceAs (Decidable (_ ∧ _))

instance (d : DB) (t : Call) : Decidable (NamesReply d t) := by
  unfold NamesReply Unsent
  split <;> infer_instance

/-- 2 replies to 1, in a chat and in a dialog where the ids of the two sides differ. -/
theorem repliesRight_of_names_both : ∃ c, Reached [] [] c ∧
    c.db.messages.map (·.replyToMsgID) = [0, 0, 1, 1, 0, 0, 0, 3, 4] ∧
      ∀ r ∈ c.log, r.post.repliesRight := by
  have hreached : Reached [] [] (serialRun [] [] [.createChat 9 1 "chat" [2],
      .sendChat 10 ⟨1, 1, "hi", 6, 0, none, 0⟩, .sendChat 11 ⟨1, 2, "ho", 7, 0, none, 1⟩,
      .send 12 ⟨1, 1, "note", 8, 0, 0⟩, .send 13 ⟨1, 2, "hi", 9, 0, 0⟩,
      .send 14 ⟨2, 1, "ho", 8, 0, 3⟩]) := reached_serialRun
  exact ⟨_, hreached, by decide +kernel, repliesRight_of_names hreached (by decide +kernel)⟩

/-- In a chat, 1 replies to the message that 1 has at 2 and 2 has at 1: on 2's copy the reply id
names the reply itself. In a dialog, 1 replies to a message that is not there. -/
theorem reply_of_another_message :
    (∃ c, Reached [(1, 0)] [] c ∧ ∃ r ∈ c.log, r.call = .sendChat 12 ⟨1, 1, "ho", 8, 0, none, 2⟩ ∧
      (∃ x ∈ r.post.messages, x.key = (2, 2) ∧ x.replyToMsgID = 2 ∧ x.fanoutID = 2) ∧
      (∃ t ∈ r.post.messages, t.key = (1, 2) ∧ t.fanoutID = 1) ∧ ¬ r.post.repliesRight) ∧
    ∃ c, Reached two [] c ∧ ∃ r ∈ c.log, r.call = .send 10 ⟨1, 2, "hi", 7, 0, 5⟩ ∧
      (∃ x ∈ r.post.messages, x.key = (1, 1) ∧ x.replyToMsgID = 5) ∧
      (∀ t ∈ r.post.messages, t.key ≠ (1, 5)) ∧ ¬ r.post.repliesRight :=
  ⟨⟨serialRun [(1, 0)] [] [.createChat 9 1 "chat" [2], .send 10 ⟨1, 1, "note", 6, 0, 0⟩,
      .sendChat 11 ⟨1, 1, "hi", 7, 0, none, 0⟩, .sendChat 12 ⟨1, 1, "ho", 8, 0, none, 2⟩],
      reached_serialRun, by decide +kernel⟩,
    serialRun two [] [.send 10 ⟨1, 2, "hi", 7, 0, 5⟩], reached_serialRun,
    by decide +kernel⟩

end TelegramServer.Store
