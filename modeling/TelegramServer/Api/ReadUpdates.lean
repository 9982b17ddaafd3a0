import TelegramServer.Api.Batch
import TelegramServer.Store.ReadReceipts

/-!
# The updates of read events

A read event stores the owner's local id alone. The update builder finds the dialog
again in whatever row the owner has at that id, so the update is right exactly when the
marker names a row of the dialog that was read.
-/

namespace TelegramServer.Api

open Tx TelegramServer.Store List

variable {states : Owned} {files : List File} {c : StoreConfig}
  {r : StoreRecord} {d w : DB} {t : PeerType} {s : State} {e : Event}
  {l p u : Int} {env : Env} {fromPts : Int} {withUnread : Bool} {now owner peer maxID : Int}
  {g : Dialog}

def readUpdate (type : EventType) (peer : Wire.Peer) (maxID pts : Int) : Wire.Update :=
  if type = .readOut then .readHistoryOutbox peer maxID pts else .readHistoryInbox peer maxID pts

theorem readUpdate_inj {type : EventType} {peer peer' : Wire.Peer} {maxID' pts pts' : Int}
    (h : readUpdate type peer maxID pts = readUpdate type peer' maxID' pts') :
    peer = peer' ∧ maxID = maxID' := by
  unfold readUpdate at h
  split at h <;> cases h <;> exact ⟨rfl, rfl⟩

theorem peerToTL_inj {t' : PeerType} {p' : Int} (h : peerToTL t p = peerToTL t' p') :
    t = t' ∧ p = p' := by
  cases t <;> cases t' <;> cases h <;> exact ⟨rfl, rfl⟩

theorem update_of_read {events : List Event} (he : e ∈ events)
    (htype : e.type = .readIn ∨ e.type = .readOut) (docs : Int → Option Wire.Document) :
    (eventToUpdate s u e (batchMessages s u events) docs).map (·.update) =
      if e.localID = 0 then none else (s.store.messageByOwnerLocal u e.localID).map fun m =>
        readUpdate e.type (peerToTL m.peerType m.peerID) e.localID e.pts := by
  have hmsgs : e.localID ≠ 0 →
      batchMessages s u events e.localID = s.store.messageByOwnerLocal u e.localID := by
    intro h0
    refine if_pos ⟨h0, any_eq_true.mpr ⟨e, he, ?_⟩⟩
    rcases htype with htype | htype <;> simp [htype]
  by_cases h0 : e.localID = 0
  · rcases htype with htype | htype <;> simp [eventToUpdate, htype, h0]
  · rcases htype with htype | htype <;>
      simp only [eventToUpdate, htype, h0, if_false, hmsgs h0, Option.map_map] <;> rfl

/-- The batch has an update for the read if its owner has a row at the marker, and this row says of
which dialog. -/
theorem mem_ups_of_read (hlog : LogOk u (s.store.ofOwner u))
    (he : e ∈ page s u fromPts) (htype : e.type = .readIn ∨ e.type = .readOut)
    {up : Wire.Update} :
    (e.pts, up) ∈ (buildUpdates env s u fromPts withUnread).ups ↔
      e.localID ≠ 0 ∧ ∃ m, s.store.messageByOwnerLocal u e.localID = some m ∧
        up = readUpdate e.type (peerToTL m.peerType m.peerID) e.localID e.pts := by
  set batch := page s u fromPts with hbatch
  rw [buildUpdates_ups (numbered_eventLog hlog), ← hbatch, renderEvents, map_filterMap,
    mem_filterMap]
  set docs := loadFiles env s ((batch.map (·.localID)).dedup.filterMap (batchMessages s u batch))
  have hupdate := update_of_read (s := s) (u := u) he htype docs
  have hiff : (eventToUpdate s u e (batchMessages s u batch) docs).map (·.update) = some up ↔
      e.localID ≠ 0 ∧ ∃ m, s.store.messageByOwnerLocal u e.localID = some m ∧
        up = readUpdate e.type (peerToTL m.peerType m.peerID) e.localID e.pts := by
    rw [hupdate]
    by_cases h0 : e.localID = 0
    · simp [h0]
    · simp [h0, eq_comm]
  rw [← hiff]
  constructor
  · rintro ⟨e', he', hsome⟩
    simp only [Option.map_map, Option.map_eq_some_iff, Function.comp_apply, Prod.mk.injEq] at hsome
    obtain ⟨x, hx, hpts, hup⟩ := hsome
    have hin : ∀ {y}, y ∈ batch → y ∈ s.store.eventLog u := fun hy =>
      (mem_filter.mp (mem_of_mem_take hy)).1
    obtain rfl := (numbered_eventLog hlog).eq_of_num (hin he') (hin he) hpts
    rw [hx, Option.map_some, hup]
  · intro hsome
    refine ⟨e, he, ?_⟩
    obtain ⟨x, hx, rfl⟩ := Option.map_eq_some_iff.mp hsome
    simp [hx]

theorem le_state_pts (env : Env) (withUnread : Bool) (hlog : LogOk u (s.store.ofOwner u))
    (he : e ∈ s.store.eventLog u) :
    e.pts ≤ (buildUpdates env s u (e.pts - 1) withUnread).state.pts := by
  rcases (@state_pts_cases env s u (e.pts - 1) withUnread (numbered_eventLog hlog))
    with ⟨-, l, hl, hpts⟩ | ⟨-, hpts⟩
  · have hlast := (mem_filter.mp (mem_of_mem_take (mem_of_getLast? hl))).2
    rw [hpts]
    simp only [decide_eq_true_eq] at hlast
    omega
  · rw [hpts]
    exact ((numbered_eventLog hlog).num_mem he).2

def marker (w : DB) (type : EventType) (u : Int) (t : PeerType) (p : Int) : Option Int :=
  (w.dialog u t p).map fun g => if type = .readOut then g.readOutboxMaxID else g.readInboxMaxID

/-- Every batch of `s` that covers the event has exactly one update for it: of the dialog, up to the
marker that `w` has there. -/
def Renders (w : DB) (t : PeerType) (p : Int) (e : Event) (s : State) : Prop :=
  ∃ maxID, marker w e.type e.ownerID t p = some maxID ∧ ∀ env fromPts withUnread, fromPts < e.pts →
    e.pts ≤ (buildUpdates env s e.ownerID fromPts withUnread).state.pts →
      ∀ up, (e.pts, up) ∈ (buildUpdates env s e.ownerID fromPts withUnread).ups ↔
        up = readUpdate e.type (peerToTL t p) maxID e.pts

theorem shows_iff_row (hd : Inv d) :
    d.shows u t p l ↔ ∃ m, d.messageByOwnerLocal u l = some m ∧ m.peerType = t ∧ m.peerID = p := by
  constructor
  · intro h
    obtain ⟨m, hm, hkey⟩ := any_eq_true.mp h
    simp only [Bool.and_eq_true, decide_eq_true_eq] at hkey
    obtain ⟨hu, hl⟩ := Message.isAt_iff.mp hkey.1.1
    exact ⟨m, hu ▸ hl ▸ hd.messageByOwnerLocal hm, hkey.1.2, hkey.2⟩
  · rintro ⟨m, hm, ht, hp⟩
    refine any_eq_true.mpr ⟨m, mem_of_find?_eq_some hm, ?_⟩
    have hat : Message.isAt u l m = true := find?_some hm
    simp [hat, ht, hp]

theorem shows_pos (hd : Inv d) (h : d.shows u t p l) : 0 < l := by
  obtain ⟨m, hm, hkey⟩ := any_eq_true.mp h
  simp only [Bool.and_eq_true, decide_eq_true_eq] at hkey
  have hone := (localID_lt_nextOf hd.logs hm).1
  rw [(Message.isAt_iff.mp hkey.1.1).2] at hone
  omega

theorem renders_iff (hs : Inv s.store)
    (he : e ∈ s.store.events) (htype : e.type = .readIn ∨ e.type = .readOut) :
    Renders w t p e s ↔
      marker w e.type e.ownerID t p = some e.localID ∧ s.store.shows e.ownerID t p e.localID := by
  have hlog := hs.logs e.ownerID
  have hmem : e ∈ s.store.eventLog e.ownerID := mem_filter.mpr ⟨he, by simp⟩
  constructor
  · rintro ⟨maxID, hmarker, hups⟩
    have hcover := le_state_pts ⟨0, 0, 1, fun _ _ _ => 0⟩ false hlog hmem
    have hbatch := mem_batch (numbered_eventLog hlog) hmem (by omega) hcover
    have hin := (hups _ _ _ (by omega) hcover _).mpr rfl
    obtain ⟨-, m, hm, heq⟩ := (mem_ups_of_read hlog hbatch htype).mp hin
    obtain ⟨hpeer, rfl⟩ := readUpdate_inj heq
    obtain ⟨rfl, rfl⟩ := peerToTL_inj hpeer
    exact ⟨hmarker, (shows_iff_row hs).mpr ⟨m, hm, rfl, rfl⟩⟩
  · rintro ⟨hmarker, hshows⟩
    refine ⟨e.localID, hmarker, fun env fromPts withUnread hlt hle up => ?_⟩
    rw [mem_ups_of_read hlog (mem_batch (numbered_eventLog hlog) hmem hlt hle) htype]
    obtain ⟨m, hm, rfl, rfl⟩ := (shows_iff_row hs).mp hshows
    have hpos := shows_pos hs hshows
    constructor
    · rintro ⟨-, m', hm', rfl⟩
      rw [Option.some.inj (hm.symm.trans hm')]
    · intro hup
      exact ⟨by omega, m, hm, hup⟩

/-! ## What reads append -/

def Placed (w : DB) (g : PeerType × Int) (x : Int × EventType × Int) : Prop :=
  marker w x.2.1 x.1 g.1 g.2 = some x.2.2 ∧ w.shows x.1 g.1 g.2 x.2.2

theorem filterMap_event_readActs (now owner peer maxID : Int) (g : Dialog) (d : DB) :
    (readActs now owner peer maxID g d).filterMap Act.event =
      if owner = peer then [(owner, .readIn, max g.readInboxMaxID maxID)]
      else [(owner, .readIn, max g.readInboxMaxID maxID),
        (peer, .readOut, d.maxPeerLocalID owner peer maxID)] := by
  unfold readActs
  split <;> rfl

theorem filterMap_event_chatReadActs (now owner chat bound : Int) (g : Dialog) (ts : Owned) :
    (chatReadActs now owner chat bound g ts).filterMap Act.event =
      (owner, .readIn, max g.readInboxMaxID bound) :: ts.map fun t => (t.1, .readOut, t.2) := by
  have hts : (ts.flatMap (receiptActs now chat)).filterMap Act.event =
      ts.map fun t => (t.1, .readOut, t.2) := by
    induction ts with
    | nil => rfl
    | cons t ts ih =>
      rw [flatMap_cons, filterMap_append, ih]
      rfl
  exact congrArg (List.cons _) hts

theorem messages_readActs (h : Did (readActs now owner peer maxID g d) d w) :
    w.messages = d.messages := by
  rw [h.eq]
  unfold readActs
  split <;> rfl

theorem marker_reader (hg : d.dialog owner .user peer = some g)
    (h : Did (readActs now owner peer maxID g d) d w) :
    marker w .readIn owner .user peer = some (max g.readInboxMaxID maxID) := by
  have hinbox : ((Write.advanceReadInbox owner .user peer maxID).apply d).dialog owner .user peer =
      some { g.readInbox d maxID with readOutboxMaxID :=
        if g.ownerID = g.peerID then max g.readOutboxMaxID maxID else g.readOutboxMaxID } := by
    rw [dialog_advanceReadInbox, hg]
    simp
  by_cases hself : owner = peer
  · have hdialog : w.dialog owner .user peer =
        ((Write.advanceReadInbox owner .user peer maxID).apply d).dialog owner .user peer := by
      rw [h.eq, readActs, if_pos hself]
      rfl
    rw [marker, hdialog, hinbox]
    rfl
  · have hdialog : w.dialog owner .user peer =
        ((Write.advanceReadOutbox peer .user owner (d.maxPeerLocalID owner peer maxID)).apply
          ((Write.advanceReadInbox owner .user peer maxID).apply d)).dialog owner .user peer := by
      rw [h.eq, readActs, if_neg hself]
      rfl
    rw [marker, hdialog, dialog_advanceReadOutbox, hinbox]
    simp [hself, Dialog.readInbox]

theorem marker_peer (hne : owner ≠ peer) (h : Did (readActs now owner peer maxID g d) d w) :
    marker w .readOut peer .user owner = (d.dialog peer .user owner).map fun g' =>
      max g'.readOutboxMaxID (d.maxPeerLocalID owner peer maxID) := by
  have hdialog : w.dialog peer .user owner =
      ((Write.advanceReadOutbox peer .user owner (d.maxPeerLocalID owner peer maxID)).apply
        ((Write.advanceReadInbox owner .user peer maxID).apply d)).dialog peer .user owner := by
    rw [h.eq, readActs, if_neg hne]
    rfl
  rw [marker, hdialog, dialog_advanceReadOutbox, dialog_advanceReadInbox, Option.map_map,
    Option.map_map]
  congr 1
  funext g'
  simp [hne.symm]

/-- The id that the read is translated to is that of a row of the peer's in the dialog, unless there
is nothing to translate. -/
theorem shows_maxPeerLocalID (hd : Inv d) (hne : owner ≠ peer)
    (hpos : 0 < d.maxPeerLocalID owner peer maxID) :
    ∃ m ∈ d.messages, m.key = (peer, d.maxPeerLocalID owner peer maxID) ∧ m.peerType = .user ∧
      m.peerID = owner := by
  rcases foldl_max_eq_or_mem ((d.messages.filter fun m => m.ownerID = owner ∧ m.peerType = .user ∧
      m.peerID = peer ∧ m.localID ≤ maxID).map (·.peerLocalID)) 0 with hzero | hmem
  · exact absurd hzero hpos.ne'
  · obtain ⟨x, hx, hxl⟩ := mem_map.mp hmem
    obtain ⟨hx, hkey⟩ := mem_filter.mp hx
    simp only [decide_eq_true_eq] at hkey
    obtain ⟨hxo, hxt, hxp, -⟩ := hkey
    obtain ⟨m, hm, hmirror, -⟩ := hd.mirrors x hx hxt (by rw [hxp, hxo]; exact hne.symm)
    refine ⟨m, hm, Prod.ext (hmirror.owner.trans hxp) (hmirror.localID.trans hxl), hmirror.peerType,
      hmirror.peer.trans hxo⟩

theorem placed_peer_iff (hd : Inv d) (hdialogs : DialogsOk d) (hne : owner ≠ peer)
    (h : Did (readActs now owner peer maxID g d) d w) :
    Placed w (.user, owner) (peer, .readOut, d.maxPeerLocalID owner peer maxID) ↔
      0 < d.maxPeerLocalID owner peer maxID ∧
        d.outboxOf peer .user owner ≤ d.maxPeerLocalID owner peer maxID := by
  have hshows : w.shows peer .user owner (d.maxPeerLocalID owner peer maxID) =
      d.shows peer .user owner (d.maxPeerLocalID owner peer maxID) := by
    rw [DB.shows, DB.shows, messages_readActs h]
  rw [Placed, marker_peer hne h, hshows, DB.outboxOf]
  constructor
  · rintro ⟨hmarker, hin⟩
    obtain ⟨g', hg', hmax⟩ := Option.map_eq_some_iff.mp hmarker
    refine ⟨shows_pos hd hin, ?_⟩
    rw [hg']
    exact max_eq_right_iff.mp hmax
  · rintro ⟨hpos, hle⟩
    obtain ⟨m, hm, hkey, hmt, hmp⟩ := shows_maxPeerLocalID hd hne hpos
    obtain ⟨hmo, hml⟩ := Prod.ext_iff.mp hkey
    obtain ⟨g', hg'⟩ := hdialogs.dialog_isSome hm
    rw [show m.ownerID = peer from hmo, hmt, hmp] at hg'
    rw [hg'] at hle ⊢
    refine ⟨congrArg some (max_eq_right hle), any_eq_true.mpr ⟨m, hm, ?_⟩⟩
    have hat : Message.isAt peer (d.maxPeerLocalID owner peer maxID) m :=
      Message.isAt_iff.mpr ⟨hmo, hml⟩
    simp [hat, hmt, hmp]

theorem placed_readChat {chat bound : Int} {members : List Int} (hd : Inv d)
    (hinboxes : InboxesOk d) (h : ChatReads now owner chat bound d g members w)
    {x : Int × EventType × Int} (hx : x ∈ (chatReadActs now owner chat bound g
      (d.chatReceipts owner chat bound g members)).filterMap Act.event) :
    Placed w (.chat, chat) x := by
  have hshows : ∀ u l, w.shows u .chat chat l = d.shows u .chat chat l := by
    intro u l
    rw [DB.shows, DB.shows, h.messages]
  rw [filterMap_event_chatReadActs] at hx
  rcases mem_cons.mp hx with rfl | hx
  · have hmoves := h.moves
    have hnonneg := hinboxes g (mem_of_find?_eq_some h.dialog)
    obtain ⟨go, hgo, hin⟩ := h.reader
    rw [Placed, max_eq_right hmoves.le, hshows]
    refine ⟨by rw [marker, hgo]; exact congrArg some hin, ?_⟩
    rcases h.copy with hzero | hcopy
    · omega
    · obtain ⟨m, hm, hkey⟩ := any_eq_true.mp hcopy
      simp only [decide_eq_true_eq] at hkey
      refine any_eq_true.mpr ⟨m, hm, ?_⟩
      simp [Message.isAt, hkey]
  · obtain ⟨t, ht, rfl⟩ := mem_map.mp hx
    obtain ⟨gs, hgs, hout⟩ := h.sender hd ht
    obtain ⟨-, m, hm, hat, -, hmt, hmp, -⟩ := mem_chatReceipts hd.logs ht
    rw [Placed, hshows]
    refine ⟨by rw [marker, hgs]; exact congrArg some hout, any_eq_true.mpr ⟨m, hm, ?_⟩⟩
    simp [hat, hmt, hmp]

/-! ## Runs -/

/-- The dialog that a read is about, as the owner of one of its events sees it. -/
def readDialog (t : Call) (u : Int) : PeerType × Int :=
  match t with
  | .readHistory _ owner peer _ => (.user, if u = owner then peer else owner)
  | .readChat _ _ chat _ _ => (.chat, chat)
  | _ => (.user, 0)

/-- Each event that the call appends renders as the dialog that was read. -/
def ReadsRender (r : StoreRecord) (s : State) : Prop :=
  ∀ new, r.post.events = r.pre.events ++ new → ∀ e ∈ new,
    Renders r.post (readDialog r.call e.ownerID).1 (readDialog r.call e.ownerID).2 e s

/-- `w` is the state that the record leaves, or a later one. -/
def Later (c : StoreConfig) (r : StoreRecord) (w : DB) : Prop :=
  ∃ before after, c.log = before ++ r :: after ∧ (w = r.post ∨ ∃ r' ∈ after, w = r'.post)

/-- A read of a 1:1 history moves the marker to a row of the dialog; and, unless it is the reader's
own, some row of the dialog is covered, and the peer's marker is not beyond it already. -/
def ReadInPlace (d : DB) : Call → Prop
  | .readHistory _ owner peer maxID => ∀ g, d.dialog owner .user peer = some g →
      d.shows owner .user peer (max g.readInboxMaxID maxID) ∧ (owner ≠ peer →
        0 < d.maxPeerLocalID owner peer maxID ∧
          d.outboxOf peer .user owner ≤ d.maxPeerLocalID owner peer maxID)
  | _ => True

theorem Later.grows (h : Reached states files c) (hr : r ∈ c.log) (hlater : Later c r w) :
    Grows r.post w ∧ Inv w := by
  obtain ⟨before, after, hlog, rfl | ⟨r', hr', rfl⟩⟩ := hlater
  · exact ⟨.refl _, (h.ok.records r hr).2.1⟩
  · have hmem : ∀ x ∈ after, x ∈ c.log := fun x hx => by simp [hlog, hx]
    have hok := h.ok.records r' (hmem r' hr')
    refine ⟨?_, hok.2.1⟩
    have hleads := h.ok.leads
    rw [hlog] at hleads
    obtain ⟨m, -, -, hrest⟩ := Locking.leads_append.mp hleads
    obtain ⟨l, l', rfl⟩ := append_of_mem hr'
    obtain ⟨m', hl, hm', -⟩ := Locking.leads_append.mp hrest
    have hgrows : Grows r.post m' :=
      hl.grows locking fun x hx => (h.ok.records x (hmem x (by simp [hx]))).2.2.1
    exact hgrows.trans (hm' ▸ hok.2.2.1)

/-- Whether a read event renders right is decided when it is appended. -/
theorem renders_later (hw : Inv w) (hgrows : Grows w s.store) (hs : Inv s.store) (he : e ∈ w.events)
    (htype : e.type = .readIn ∨ e.type = .readOut) (h : Placed w (t, p) e.entry) :
    Renders w t p e s := by
  refine (renders_iff hs (hgrows.events.subset he) htype).mpr ⟨h.1, ?_⟩
  obtain ⟨m, hm, hkey⟩ := any_eq_true.mp h.2
  simp only [Bool.and_eq_true, decide_eq_true_eq] at hkey
  have hat : Message.isAt e.ownerID e.localID m := hkey.1.1
  rw [shows_congr hw.logs hs.logs hgrows hm hat t p]
  exact (shows_iff hw.logs hm hat).mpr ⟨hkey.1.2, hkey.2⟩

/-- For reads that rendering is right says that what they append is in place. -/
theorem readsRender_iff (h : Reached states files c) (hr : r ∈ c.log) (as : List Act)
    (hdid : Did as r.pre r.post)
    (hkinds : ∀ x ∈ as.filterMap Act.event, x.2.1 = .readIn ∨ x.2.1 = .readOut) :
    (∀ s : State, Later c r s.store → ReadsRender r s) ↔
      ∀ x ∈ as.filterMap Act.event, Placed r.post (readDialog r.call x.1) x := by
  obtain ⟨new, hnew, hentries⟩ := hdid.ok.events
  rw [← hdid.eq] at hnew
  have hpost := (h.ok.records r hr).2.1
  have hin : ∀ {e}, e ∈ new → e ∈ r.post.events :=
    fun he => by rw [hnew]; exact mem_append_right _ he
  have hkind : ∀ {e}, e ∈ new → e.type = .readIn ∨ e.type = .readOut := fun he =>
    hkinds _ (hentries ▸ mem_map_of_mem (f := Event.entry) he)
  constructor
  · intro hrender x hx
    rw [← hentries] at hx
    obtain ⟨e, he, rfl⟩ := mem_map.mp hx
    obtain ⟨before, after, hlog⟩ := append_of_mem hr
    have hright := hrender { store := r.post } ⟨before, after, hlog, .inl rfl⟩ new hnew e he
    exact (renders_iff hpost (hin he) (hkind he)).mp hright
  · intro hplaced s hlater new' hnew' e he
    obtain rfl : new = new' := append_cancel_left (hnew.symm.trans hnew')
    obtain ⟨hgrows, hs⟩ := hlater.grows h hr
    have hentry : e.entry ∈ as.filterMap Act.event := hentries ▸ mem_map_of_mem he
    exact renders_later hpost hgrows hs (hin he) (hkind he) (hplaced _ hentry)

/-- In every interleaving the events of a successful read render, then and ever after, as the dialog
that was read and up to its marker, exactly when the read is in place; those of a chat read always
do. -/
theorem reads_render_iff (h : Reached states files c) (hr : r ∈ c.log) {a : Reply}
    (ha : r.outcome.answer = some a) (hread : r.call.reader.isSome) :
    (∀ s : State, Later c r s.store → ReadsRender r s) ↔ ReadInPlace r.pre r.call := by
  have hok := h.ok.records r hr
  have heffect := h.effect hr ha
  have hspec := hok.spec ha
  have hiff := readsRender_iff h hr
  have hdialogs := h.dialogsOk_pre hr
  have hinboxes := h.inboxesOk_pre hr
  generalize r.call = t at hread heffect hspec hiff
  cases t <;> first | exact absurd hread Bool.false_ne_true | skip
  all_goals cases a <;> first | exact hspec.elim | skip
  case readHistory.read now owner peer maxID readerPts peerPts =>
    obtain ⟨-, hdone⟩ := heffect
    cases hg : r.pre.dialog owner .user peer with
    | none =>
      rw [hg] at hdone
      have hsame : r.post = r.pre := hdone
      rw [hiff [] (hsame ▸ .nil r.pre) (by simp), ReadInPlace, hg]
      simp
    | some g =>
      rw [hg] at hdone
      have hdid : Did (readActs now owner peer maxID g r.pre) r.pre r.post := hdone
      have hself : ∀ l, r.post.shows owner .user peer l = r.pre.shows owner .user peer l := by
        intro l
        rw [DB.shows, DB.shows, messages_readActs hdid]
      rw [hiff _ hdid (by rw [filterMap_event_readActs]; split <;> simp), filterMap_event_readActs,
        ReadInPlace, hg]
      have hreader : Placed r.post (.user, peer) (owner, .readIn, max g.readInboxMaxID maxID) ↔
          r.pre.shows owner .user peer (max g.readInboxMaxID maxID) := by
        rw [Placed, marker_reader hg hdid, hself]
        exact and_iff_right rfl
      by_cases hne : owner = peer
      · subst hne
        simpa [readDialog] using hreader
      · have hpeer := placed_peer_iff hok.1 hdialogs hne hdid
        simpa [hne, Ne.symm hne, readDialog] using and_congr hreader hpeer
  case readChat.chatRead now owner chat bound memberIDs res =>
    refine iff_of_true ?_ trivial
    rcases hspec with ⟨hsame, -⟩ | ⟨g, members, hreads, -⟩
    · exact (hiff [] (hsame ▸ .nil r.pre) (by simp)).mpr (by simp)
    · refine (hiff _ hreads.did fun x hx => ?_).mpr fun x hx =>
        placed_readChat hok.1 hinboxes hreads hx
      rw [filterMap_event_chatReadActs] at hx
      rcases mem_cons.mp hx with rfl | hx
      · exact .inl rfl
      · obtain ⟨t, -, rfl⟩ := mem_map.mp hx
        exact .inr rfl

/-- 2 reads the one message that 1 sent. -/
theorem reads_render_iff_one : ∃ r ∈ (afterHi [.readHistory 11 2 1 1]).log,
      r.post.events = r.pre.events ++ [⟨2, 2, .readIn, 1⟩, ⟨1, 2, .readOut, 1⟩] ∧
        ReadsRender r { store := r.post } := by
  refine ⟨_, getElem_mem (n := 1) (by decide), by decide +kernel, ?_⟩
  refine (reads_render_iff reached_serialRun (getElem_mem (by decide)) rfl rfl).mpr
    ?_ _ ⟨_, [], rfl, .inl rfl⟩
  intro g hg
  cases hg
  decide +kernel

/-- 2 reads the dialog with 1 up to the id of a message that 3 sent: the event is rendered as a read
of the dialog with 3. -/
theorem read_renders_as_other_dialog :
    ∃ c, Reached three [] c ∧ ∃ r ∈ c.log, r.call = .readHistory 12 2 1 2 ∧
      (3, .readHistoryInbox (.user 3) 2 3) ∈
        (buildUpdates ⟨0, 0, 1, fun _ _ _ => 0⟩ { store := r.post } 2 2 false).ups ∧
      ¬ ReadsRender r { store := r.post } := by
  have hreached : Reached three [] (serialRun three []
      [.send 10 ⟨1, 2, "hi", 7, 0, 0⟩, .send 11 ⟨3, 2, "ho", 7, 0, 0⟩, .readHistory 12 2 1 2]) :=
    reached_serialRun
  refine ⟨_, hreached, _, getElem_mem (n := 2) (by decide),
    rfl, by decide +kernel, fun hrender => ?_⟩
  have hright := hrender [⟨2, 3, .readIn, 2⟩, ⟨1, 2, .readOut, 1⟩] (by decide +kernel) _
    mem_cons_self
  have hplaced := (renders_iff (hreached.ok.records _ (getElem_mem (by decide))).2.1
    (by decide +kernel) (.inl rfl)).mp hright
  exact absurd hplaced.2 (by decide +kernel)

end TelegramServer.Api
