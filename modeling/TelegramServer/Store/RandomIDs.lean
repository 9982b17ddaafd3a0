import TelegramServer.Store.Runs

/-!
# One message per random id

A client repeats a send under the same random id until it is answered. Whatever
the repeats run beside, one of them creates the message and all of them are
answered with it.
-/

namespace TelegramServer.Store

open Tx List
open Message (kept frozen)

/-- The sender of a call that sends messages, and the random ids it carries. -/
def Call.sends : Call → Option (Int × List Int)
  | .send _ p => some (p.fromID, [p.randomID])
  | .sendChat _ p => some (p.fromID, [p.randomID])
  | .forward _ fromID _ _ _ randomIDs => some (fromID, randomIDs)
  | _ => none

def Call.isSendChat : Call → Bool
  | .sendChat _ _ => true
  | _ => false

/-- What an answer says of one random id: the sender's row, and the pts in its log. -/
structure SentAs where
  randomID : Int
  row : Option Message
  pts : Option Int

def Reply.sentAs : Call → Reply → List SentAs
  | .send _ p, .sent r => [⟨p.randomID, some r.message, some r.senderPts⟩]
  | .sendChat _ p, .fannedOut r => [⟨p.randomID, r.sender, ptsOf r.perOwner p.fromID⟩]
  | .forward _ _ _ _ _ randomIDs, .forwarded _ messages =>
    List.zipWith (fun id f => ⟨id, some f.message, some f.pts⟩) randomIDs messages
  | _, _ => []

variable {d w : DB} {m x y : Message} {now randomID s : Int}

theorem copyOf_congr (h : CopyOf m x) (hxy : x.frozen = y.frozen) : CopyOf m y := by
  rcases h with h | ⟨h0, h⟩ | ⟨hne, h⟩
  · exact .inl (hxy ▸ h)
  · exact .inr (.inl ⟨h0, (kept hxy).fanoutID.symm.trans h⟩)
  · have hkept := kept hxy.symm
    exact .inr (.inr ⟨hne, hkept.ownerID.trans h.owner, hkept.localID.trans h.localID,
      hkept.peerType.trans h.peerType, hkept.peerID.trans h.peer,
      hkept.peerLocalID.trans h.peerLocalID⟩)

structure SendsOnce (t : Call) (s : Int) (ids : List Int) (d : DB) (a : Reply) (w : DB) : Prop where
  answered : (a.sentAs t).map (·.randomID) = ids
  answers : ∀ x ∈ a.sentAs t, ∃ m ∈ w.messages, m.ownerID = s ∧ m.randomID = x.randomID ∧
    x.row = some m ∧ (t.isSendChat = true ∧ m.fanoutID = 0 ∧ x.pts = some (d.ptsOf s) ∨
        ∃ pts, x.pts = some pts ∧ ⟨s, pts, .newMessage, m.localID⟩ ∈ w.events)
  copies : ∀ x ∈ w.messages, x.frozen ∉ d.messages.map frozen →
    ∃ m ∈ w.messages, m.ownerID = s ∧ m.randomID ∈ ids ∧ CopyOf m x ∧ Unsent d s m.randomID

theorem SendSpec.sendsOnce {p : SendParams} {r : Sent} (h : SendSpec p d r w) :
    SendsOnce (.send now p) p.fromID [p.randomID] d (.sent r) w where
  answered := rfl
  answers x hx := by
    obtain rfl := mem_singleton.mp hx
    exact ⟨_, h.1.mem, h.1.owner, h.1.randomID, rfl, .inr ⟨_, rfl, h.1.event⟩⟩
  copies x hx hnew := by
    obtain ⟨hans, ⟨-, -, rfl⟩ | ⟨-, hunsent, as, hdid, -, hcopies, -⟩⟩ := h
    · exact absurd (mem_map_of_mem hx) hnew
    · obtain ⟨y, hy, heq⟩ := hdid.new_row hx hnew
      exact ⟨_, hans.mem, hans.owner, by simp [hans.randomID], copyOf_congr (hcopies y hy) heq,
        by rwa [hans.randomID]⟩

theorem SendChatSpec.sendsOnce {p : ChatSend} {r : FannedOut} (h : SendChatSpec p d r w) :
    SendsOnce (.sendChat now p) p.fromID [p.randomID] d (.fannedOut r) w := by
  obtain ⟨-, m, hs, hm, hown, hid, hpts, hcase⟩ := h
  refine ⟨rfl, fun x hx => ?_, fun x hx hnew => ?_⟩
  · obtain rfl := mem_singleton.mp hx
    refine ⟨m, hm, hown, hid, hs, ?_⟩
    rcases hpts with ⟨h0, hcur⟩ | ⟨pts, hp, hans⟩
    · exact .inl ⟨rfl, h0, hcur⟩
    · exact .inr ⟨pts, hp, hans.event⟩
  · rcases hcase with ⟨-, -, rfl⟩ | ⟨-, hunsent, as, hdid, -, hcopies, -⟩
    · exact absurd (mem_map_of_mem hx) hnew
    · obtain ⟨y, hy, heq⟩ := hdid.new_row hx hnew
      exact ⟨m, hm, hown, by simp [hid], copyOf_congr (hcopies y hy) heq, by rwa [hid]⟩

theorem ForwardSpec.sendsOnce {fromID peerID : Int} {toChat : Bool} {sources : List ForwardSource}
    {randomIDs : List Int} {perOwner : Owned} {messages : List ForwardedMessage}
    (h : ForwardSpec fromID toChat peerID randomIDs d perOwner messages w) :
    SendsOnce (.forward now fromID toChat peerID sources randomIDs) fromID randomIDs d
      (.forwarded perOwner messages) w := by
  obtain ⟨hall, as, hdid, -, hcopies, -⟩ := h
  refine ⟨?_, fun x hx => ?_, fun x hx hnew => ?_⟩
  · clear hcopies
    induction hall with
    | nil => rfl
    | cons _ _ ih => exact congrArg _ ih
  · obtain ⟨i, hi, rfl⟩ := mem_iff_getElem.mp hx
    simp only [Reply.sentAs, length_zipWith, Nat.lt_min] at hi
    have hans := (List.forall₂_iff_get.mp hall).2 i hi.1 hi.2
    simp only [Reply.sentAs, getElem_zipWith]
    exact ⟨_, hans.mem, hans.owner, hans.randomID, rfl, .inr ⟨_, rfl, hans.event⟩⟩
  · obtain ⟨y, hy, heq⟩ := hdid.new_row hx hnew
    obtain ⟨f, hf, hcopy, hunsent⟩ := hcopies y hy
    obtain ⟨i, hi, rfl⟩ := mem_iff_getElem.mp hf
    have hlen := hall.length_eq
    have hans := (List.forall₂_iff_get.mp hall).2 i (hlen ▸ hi) hi
    refine ⟨_, hans.mem, hans.owner, ?_, copyOf_congr hcopy heq, hunsent⟩
    rw [hans.randomID]
    exact get_mem _ _

theorem Spec.sendsOnce {t : Call} {ids : List Int} {a : Reply} (h : Spec t d a w)
    (ht : t.sends = some (s, ids)) : SendsOnce t s ids d a w := by
  cases t <;> simp only [Call.sends, Option.some.injEq, Prod.mk.injEq, reduceCtorEq] at ht
  all_goals
    obtain ⟨rfl, rfl⟩ := ht
    cases a <;> first | exact h.elim | skip
  · exact SendSpec.sendsOnce h
  · exact SendChatSpec.sendsOnce h
  · exact ForwardSpec.sendsOnce h

/-! ## The whole run -/

def DB.hasSent (d : DB) (s randomID : Int) : Bool :=
  (d.messageByRandomID s randomID).isSome

theorem DB.hasSent_iff (h0 : randomID ≠ 0) :
    d.hasSent s randomID = true ↔ ∃ m ∈ d.messages, m.ownerID = s ∧ m.randomID = randomID := by
  simp only [DB.hasSent, DB.messageByRandomID, find?_isSome, decide_eq_true_eq]
  constructor
  · rintro ⟨m, hm, hs, hid, -⟩
    exact ⟨m, hm, hs, hid⟩
  · rintro ⟨m, hm, hs, hid⟩
    exact ⟨m, hm, hs, hid, hid ▸ h0⟩

/-- The first message of the sender for the random id came with this call. -/
def creates (s randomID : Int) (r : StoreRecord) : Bool :=
  !r.pre.hasSent s randomID && r.post.hasSent s randomID

/-- What a run may show of the messages that `s` sends under one random id. -/
structure SentOnce (c : StoreConfig) (s randomID : Int) : Prop where
  /-- The sender has at most one row for it. -/
  row : ∀ m ∈ c.db.messages, ∀ m' ∈ c.db.messages, m.ownerID = s → m'.ownerID = s →
    m.randomID = randomID → m'.randomID = randomID → m = m'
  /-- At most one call created it. -/
  created : (c.log.filter (creates s randomID)).length ≤ 1
  /-- The rows that a call of the sender adds are copies of rows it created. -/
  copies : ∀ r ∈ c.log, ∀ ids, r.call.sends = some (s, ids) → ∀ x ∈ r.post.messages,
    x.frozen ∉ r.pre.messages.map frozen →
      ∃ m ∈ r.post.messages, m.ownerID = s ∧ m.randomID ∈ ids ∧ CopyOf m x ∧
        (m.randomID = randomID → creates s randomID r = true)
  /-- An owner has at most one copy of a message. -/
  copy : ∀ m ∈ c.db.messages, ∀ x ∈ c.db.messages, ∀ y ∈ c.db.messages, CopyOf m x → CopyOf m y →
    x.ownerID = y.ownerID → x = y
  /-- A call that succeeded is answered with the sender's row and the pts of its event.
  A chat send that repeats a 1:1 message is told the pts of the moment. -/
  answers : ∀ r ∈ c.log, ∀ a, r.outcome.answer = some a → ∀ ids, r.call.sends = some (s, ids) →
    (a.sentAs r.call).map (·.randomID) = ids ∧ ∀ x ∈ a.sentAs r.call, x.randomID = randomID →
        ∃ m ∈ c.db.messages, m.ownerID = s ∧ m.randomID = randomID ∧
          x.row.map frozen = some m.frozen ∧
          (r.call.isSendChat = true ∧ m.fanoutID = 0 ∧ x.pts = some (r.pre.ptsOf s) ∨
            ∃ pts, x.pts = some pts ∧ c.db.newMessagePts s m.localID = some pts)
  /-- A call that failed left everything as it was. -/
  failed : ∀ r ∈ c.log, r.outcome.answer = none → r.post = r.pre

theorem hasSent_grows {d' : DB} (h : Grows d d') (hs : d.hasSent s randomID = true) :
    d'.hasSent s randomID = true := by
  simp only [DB.hasSent, DB.messageByRandomID, find?_isSome, decide_eq_true_eq] at hs ⊢
  obtain ⟨m, hm, hown, hid, h0⟩ := hs
  obtain ⟨m', hm', heq⟩ := h.row hm
  have hkept := kept heq
  have hid' : m'.randomID = m.randomID := hkept.randomID
  exact ⟨m', hm', hkept.ownerID.trans hown, hid'.trans hid, hid' ▸ h0⟩

theorem creates_of_unsent {r : StoreRecord} (h0 : randomID ≠ 0)
    (hpre : Unsent r.pre s randomID) (hm : m ∈ r.post.messages) (hs : m.ownerID = s)
    (hid : m.randomID = randomID) : creates s randomID r = true := by
  have hpost : r.post.hasSent s randomID = true := (DB.hasSent_iff h0).mpr ⟨m, hm, hs, hid⟩
  have hnone : r.pre.hasSent s randomID = false := by
    rw [Bool.eq_false_iff, ne_eq, DB.hasSent_iff h0]
    rintro ⟨m', hm', hs', hid'⟩
    exact hpre h0 m' hm' hs' hid'
  simp [creates, hpost, hnone]

/-- Two copies of one message in the hands of one owner are one row. -/
theorem Inv.copy_unique (h : Inv d) (hm : m ∈ d.messages) (hx : x ∈ d.messages)
    (hy : y ∈ d.messages) (hmx : CopyOf m x) (hmy : CopyOf m y) (hown : x.ownerID = y.ownerID) :
    x = y := by
  have hmem {z : Message} (hz : z ∈ d.messages) : z ∈ (d.ofOwner z.ownerID).messages :=
    mem_filter.mpr ⟨hz, by simp⟩
  have hkind : m.kindOk := (h.logs m.ownerID).kinds m (hmem hm)
  have hpos {z : Message} (hz : z ∈ d.messages) : 1 ≤ z.localID :=
    ((h.logs z.ownerID).messages.num_mem (hmem hz)).1
  refine row_unique h.logs hx hy hown ?_
  -- A chat message has its copies by fan-out id, a 1:1 message its mirror.
  rcases hkind with ⟨-, h0, -⟩ | ⟨-, hfan, hpeer⟩
  · rcases hmx with hmx | hmx | ⟨hne, hmx⟩ <;> rcases hmy with hmy | hmy | ⟨hne', hmy⟩
    · exact (kept (hmx.trans hmy.symm)).localID
    · exact absurd h0 hmy.1
    · refine absurd ?_ hne'
      rw [← hmy.owner, ← hown]
      exact (kept hmx).ownerID
    · exact absurd h0 hmx.1
    · exact absurd h0 hmx.1
    · exact absurd h0 hmx.1
    · refine absurd ?_ hne
      rw [← hmx.owner, hown]
      exact (kept hmy).ownerID
    · exact absurd h0 hmy.1
    · rw [hmx.localID, hmy.localID]
  · have hfanout {z : Message} (hz : z ∈ d.messages) (hmz : CopyOf m z) :
        z.fanoutID = m.fanoutID := by
      rcases hmz with hmz | hmz | ⟨-, hmz⟩
      · exact (kept hmz).fanoutID
      · exact hmz.2
      · have := hpos hz
        rw [hmz.localID, hpeer] at this
        omega
    exact (h.logs y.ownerID).fanoutIDs y (hmem hy) x (hown ▸ hmem hx)
      ((hfanout hy hmy).trans_ne hfan.ne') ((hfanout hx hmx).trans (hfanout hy hmy).symm)

theorem LogOk.newMessagePts_of_mem {u pts localID : Int} (h : LogOk u (d.ofOwner u))
    (he : ⟨u, pts, .newMessage, localID⟩ ∈ d.events) : d.newMessagePts u localID = some pts := by
  have hin {e : Event} (he : e ∈ d.events) (hu : e.ownerID = u) : e ∈ (d.ofOwner u).events :=
    mem_filter.mpr ⟨he, by simpa using hu⟩
  cases hfind : d.events.find? fun e => e.ownerID = u ∧ e.localID = localID ∧
    e.type = .newMessage with
  | none => simpa using find?_eq_none.mp hfind _ he
  | some e =>
    have hmem := mem_of_find?_eq_some hfind
    obtain ⟨hu, hl, ht⟩ : e.ownerID = u ∧ e.localID = localID ∧ e.type = .newMessage := by
      simpa using find?_some hfind
    have hpts : e.pts = pts := by
      rcases lt_trichotomy e.pts pts with hlt | heq | hlt
      · have := h.newMessage_order (hin hmem hu) (hin he rfl) ht rfl hlt
        exact absurd hl this.ne
      · exact heq
      · have := h.newMessage_order (hin he rfl) (hin hmem hu) rfl ht hlt
        exact absurd hl.symm this.ne
    rw [DB.newMessagePts, hfind, Option.map_some, hpts]

/-- Sends under one random id, in any interleaving with anything else. -/
theorem sentOnce_of_reached {states : Owned} {files : List File} {c : StoreConfig}
    (h : Reached states files c) {s randomID : Int} (h0 : randomID ≠ 0) :
    SentOnce c s randomID where
  row m hm m' hm' hs hs' hid hid' := by
    have hmem {z : Message} (hz : z ∈ c.db.messages) (hzs : z.ownerID = s) :
        z ∈ (c.db.ofOwner s).messages := mem_filter.mpr ⟨hz, by simpa using hzs⟩
    exact row_unique h.ok.inv.logs hm hm' (hs.trans hs'.symm)
      ((h.ok.inv.logs s).randomIDs m' (hmem hm' hs') m (hmem hm hs) (hid'.trans_ne h0)
        (hid.trans hid'.symm))
  created := by
    refine (Locking.Leads.once h.ok.leads (P := (DB.hasSent · s randomID))
      fun r hr => hasSent_grows (h.ok.records r hr).2.2.1).trans ?_
    split <;> decide
  copies r hr ids hsends x hx hnew := by
    cases ha : r.outcome.answer with
    | none =>
      rw [(h.ok.records r hr).unchanged ha] at hx
      exact absurd (mem_map_of_mem hx) hnew
    | some a =>
      obtain ⟨m, hm, hs, hid, hcopy, hunsent⟩ :=
        (((h.ok.records r hr).spec ha).sendsOnce hsends).copies x hx hnew
      exact ⟨m, hm, hs, hid, hcopy, fun heq => creates_of_unsent h0 (heq ▸ hunsent) hm hs heq⟩
  copy m hm x hx y hy := h.ok.inv.copy_unique hm hx hy
  answers r hr a ha ids hsends := by
    have hspec := ((h.ok.records r hr).spec ha).sendsOnce hsends
    have hgrows : Grows r.post c.db := h.ok.grows_post hr
    refine ⟨hspec.answered, fun x hx hid => ?_⟩
    obtain ⟨m, hm, hs, hmid, hrow, hpts⟩ := hspec.answers x hx
    -- The row and its event are still there at the end of the run.
    obtain ⟨m', hm', heq⟩ := hgrows.row hm
    have hkept := kept heq
    refine ⟨m', hm', hkept.ownerID.trans hs, hkept.randomID.trans (hmid.trans hid),
      by rw [hrow, heq]; rfl, ?_⟩
    rcases hpts with ⟨hchat, hfan, hcur⟩ | ⟨pts, hp, he⟩
    · exact .inl ⟨hchat, hkept.fanoutID.trans hfan, hcur⟩
    · refine .inr ⟨pts, hp, (h.ok.inv.logs s).newMessagePts_of_mem ?_⟩
      rw [hkept.localID]
      exact hgrows.events.subset he
  failed r hr ha := (h.ok.records r hr).unchanged ha

theorem sentOnce_of_reached_retry : SentOnce (serialRun two [] [.send 10 ⟨1, 2, "first", 7, 0, 0⟩,
      .send 11 ⟨1, 2, "first", 7, 0, 0⟩]) 1 7 :=
  sentOnce_of_reached reached_serialRun (by decide)

/-- A repeat of a 1:1 send as a chat send: the answer names the row of the first send with
the pts of the second. -/
theorem sendChat_repeats_direct_message : ∃ c, Reached two [] c ∧
      ∃ r ∈ c.log, r.call.sends = some (1, [7]) ∧
        ∃ a ∈ r.outcome.answer, ∃ x ∈ a.sentAs r.call, x.pts = some 2 ∧
          x.row.bind (fun m => c.db.newMessagePts 1 m.localID) = some 1 :=
  ⟨serialRun two [] [.createChat 9 1 "chat" [2], .send 10 ⟨1, 2, "first", 7, 0, 0⟩,
      .send 11 ⟨1, 2, "second", 8, 0, 0⟩, .sendChat 12 ⟨1, 1, "first", 7, 0, none, 0⟩],
    reached_serialRun, by decide⟩

end TelegramServer.Store
