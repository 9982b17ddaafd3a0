import TelegramServer.Store.Effects

/-!
# The message transactions meet their specifications

`SendMessage`, `EditMessage` and `ReadHistory`.
-/

namespace TelegramServer.Store

open Tx Tx.Table Tx.Locking List
open Message (isAt kept isAt_iff key)
open Act (post newMessages edit mark)
open SendParams (outRow inRow)

variable {G : Ctx DB Lock} {w x : DB} {B : Type} {p : SendParams} {as : List Act}
  {copies : List Message} {d : DB} {m pre : Message} {marker n now u : Int} {members : List Int}
  {text : String} {type : EventType} {Q : Post B} {ms mr : Message}

/-! ## SendMessage -/

theorem wp_mirrorPts {toID : Int} {Q : Post Int} (h : ∀ pts, Q pts G w) :
    locking.wp (mirrorPts m toID) G w Q := by
  unfold mirrorPts
  split
  · exact wp_newMessagePts_any h
  · split
    · refine wp_bind (wp_query fun v _ => ?_)
      exact wp_bind (wp_orFail fun s _ => h _)
    · exact wp_newMessagePts_any h

theorem replay_pair (hne : ms.ownerID ≠ mr.ownerID) (us ur now : Int) (w : DB) : locking.replay
      [.bumpState ms.ownerID now, .bumpState mr.ownerID now, .insertMessage ms, .insertMessage mr,
        .insertEvent ⟨ms.ownerID, w.ptsOf ms.ownerID + 1, .newMessage, ms.localID⟩,
        .insertEvent ⟨mr.ownerID, w.ptsOf mr.ownerID + 1, .newMessage, mr.localID⟩,
        .upsertDialog ms.ownerID ms.peerType ms.peerID ms.localID us,
        .upsertDialog mr.ownerID mr.peerType mr.peerID mr.localID ur] w =
      runActs [.post ms us now, .post mr ur now] w := by
  have hpts : ((post ms us now).apply w).ptsOf mr.ownerID = w.ptsOf mr.ownerID :=
    ptsOf_act_of_ne (by simpa [Act.owner] using hne) w
  simp only [runActs_cons, runActs_nil]
  rw [Act.apply.eq_1 (post mr ur now)]
  simp only [Act.writes, hpts]
  rfl

structure PairOk (w : DB) (ms mr : Message) : Prop where
  ne : ms.ownerID ≠ mr.ownerID
  states : (w.getState ms.ownerID).isSome ∧ (w.getState mr.ownerID).isSome
  next : ms.localID = w.nextOf ms.ownerID ∧ mr.localID = w.nextOf mr.ownerID
  live : ms.deleted = false ∧ mr.deleted = false
  user : ms.peerType = .user ∧ mr.peerType = .user
  plain : ms.fanoutID = 0 ∧ mr.fanoutID = 0 ∧ ms.action = .none ∧ mr.action = .none
  unsent : Unsent w ms.ownerID ms.randomID
  randomID : mr.randomID = 0
  mirror : Mirror ms mr
  out : ms.out = true ∧ mr.out = false

theorem Mirror.symm {m' : Message} (h : Mirror m m') (hm : m.peerType = .user) : Mirror m' m :=
  ⟨h.peer.symm, h.peerLocalID.symm, hm, h.owner.symm, h.localID.symm⟩

theorem PairOk.did (h : PairOk w ms mr) {us ur : Int} (hus : us = ms.unread)
    (hur : ur = mr.unread) (now : Int) :
    Did [.post ms us now, .post mr ur now] w (runActs [.post ms us now, .post mr ur now] w) where
  ok := by
    have hown : (post ms us now).owner ≠ some mr.ownerID := by simpa [Act.owner] using h.ne
    refine ⟨?_, ?_, trivial⟩
    · exact ⟨⟨h.states.1, h.next.1, h.live.1, .inl ⟨h.user.1, h.plain.1, h.plain.2.2.1⟩,
        by simp [h.user.1], h.unsent, by simp [h.plain.1]⟩, hus⟩
    · exact ⟨⟨by rw [getState_act_of_ne hown]; exact h.states.2,
        by rw [nextOf_act_of_ne hown]; exact h.next.2, h.live.2,
        .inl ⟨h.user.2, h.plain.2.1, h.plain.2.2.2⟩, by simp [h.user.2], by simp [h.randomID],
        by simp [h.plain.2.1]⟩, hur⟩
  mirrored := by
    intro m hm _ _
    simp only [newRows, newMessages, flatMap_cons, flatMap_nil, append_nil,
      cons_append, nil_append, mem_cons, not_mem_nil, or_false] at hm ⊢
    rcases hm with rfl | rfl
    · exact ⟨mr, .inr rfl, h.mirror, by simp [h.out]⟩
    · exact ⟨ms, .inl rfl, h.mirror.symm h.user.1, by simp [h.out]⟩
  eq := rfl

theorem wp_pair {s r : Int} {o : Int → Int → Message} {i : Int → Int → Int → Message}
    {m : Body Int} {X : List Message → Int → Prop} {k : Int × Int → Int × Int → Body B}
    (hne : s ≠ r) (hs : Lock.owner s ∈ G.held)
    (hr : Lock.owner r ∈ G.held)
    (ho : ∀ a b, (o a b).ownerID = s ∧ (o a b).localID = b ∧ (o a b).peerType = .user ∧
      (o a b).peerID = r ∧ (o a b).fanoutID = 0)
    (hi : ∀ x a b, (i x a b).ownerID = r ∧ (i x a b).localID = b ∧ (i x a b).peerType = .user ∧
      (i x a b).peerID = s ∧ (i x a b).fanoutID = 0)
    (hm : ∀ (G : Ctx DB Lock) w (Q : Post Int),
      Lock.owner s ∈ G.held → (∀ x, X w.messages x → Q x G w) → locking.wp m G w Q)
    (h : (w.getState s).isSome → (w.getState r).isSome →
      ∀ x, X (w.messages ++ [o (w.nextOf r) (w.nextOf s)]) x →
        locking.wp (k (w.ptsOf s + 1, w.nextOf s) (w.ptsOf r + 1, w.nextOf r)) G.wrote
        (runActs [.post (o (w.nextOf r) (w.nextOf s)) 0 now,
          .post (i x (w.nextOf s) (w.nextOf r)) 1 now] w) Q) :
    locking.wp (do
      let sb ← bumpState now s
      let rb ← bumpState now r
      insertMessage (o rb.2 sb.2)
      let x ← m
      insertMessage (i x sb.2 rb.2)
      insertEvent s sb.1 .newMessage sb.2
      insertEvent r rb.1 .newMessage rb.2
      upsertDialog s .user r sb.2 0
      upsertDialog r .user s rb.2 1
      k sb rb) G w Q := by
  have hstate : ((Write.bumpState s now).apply w).getState r = w.getState r := by
    rw [← DB.getState_ofOwner, ofOwner_apply_of_ne (by simpa [Write.owner] using hne),
      DB.getState_ofOwner]
  refine wp_bind (wp_bumpState hs fun hss => ?_)
  refine wp_bind (wp_bumpState hr fun hrs => ?_)
  simp only [DB.ptsOf.eq_1 ((Write.bumpState s now).apply w), hstate,
    DB.nextOf.eq_1 ((Write.bumpState s now).apply w)]
  rw [hstate] at hrs
  simp only [← DB.ptsOf.eq_1, ← DB.nextOf.eq_1]
  obtain ⟨o1, o2, o3, o4, o5⟩ := ho (w.nextOf r) (w.nextOf s)
  refine wp_bind (wp_insertMessage (by simpa [o1] using hs) (by simp [o5]) ?_)
  refine wp_bind (hm _ _ _ hs fun x hx => ?_)
  obtain ⟨i1, i2, i3, i4, i5⟩ := hi x (w.nextOf s) (w.nextOf r)
  refine wp_bind (wp_insertMessage (by simpa [i1] using hr) (by simp [i5]) ?_)
  refine wp_bind (wp_insertEvent hs (wp_bind (wp_insertEvent hr ?_)))
  refine wp_bind (wp_upsertDialog hs (wp_bind (wp_upsertDialog hr ?_)))
  have hgoal := h hss hrs x hx
  rw [← replay_pair (by rw [o1, i1]; exact hne)] at hgoal
  simp only [o1, o2, o3, o4, i1, i2, i3, i4] at hgoal
  exact hgoal

/-- The recipient's id of the message that is replied to, as the rows `ms` have it. -/
def SendParams.replyRef (p : SendParams) (ms : List Message) : Int :=
  if 0 < p.replyToMsgID then
    ((ms.find? (isAt p.fromID p.replyToMsgID)).map (int32 ·.peerLocalID)).getD 0
  else 0

theorem wp_mirrorReply (p : SendParams) (G : Ctx DB Lock) (w : DB)
    (Q : Post Int) (hu : Lock.owner p.fromID ∈ G.held)
    (h : ∀ x, p.replyRef w.messages = x → Q x G w) : locking.wp (mirrorReply p) G w Q := by
  unfold mirrorReply
  split
  · rename_i hpos
    refine wp_bind (wp_query_owner (u := p.fromID)
      (fun d => d.messageByOwnerLocal_ofOwner p.fromID p.replyToMsgID) hu (h _ ?_))
    rw [SendParams.replyRef, if_pos hpos]
    rfl
  · rename_i hpos
    exact h 0 (if_neg hpos)

def SendRows (now : Int) (p : SendParams) (d : DB) (r : Sent) (w : DB) : Prop :=
  r.dup = false → ∃ as l k, Did as d w ∧ (∀ a ∈ as, a.adds) ∧ r.message = p.outRow now k l ∧
    newRows as = r.message ::
      if p.fromID = p.toID then [] else [p.inRow now (p.replyRef w.messages) l k]

theorem answers_of_post (h : Inv d) (hok : ActsOk as d) {stored : Message}
    (hm : m ∈ (runActs as d).messages)
    (he : ⟨m.ownerID, n, .newMessage, m.localID⟩ ∈ (runActs as d).events)
    (hstored : (runActs as d).messageByOwnerLocal m.ownerID m.localID = some stored) :
    stored = m ∧ Answers (runActs as d) m.ownerID m.randomID m n := by
  obtain ⟨hmem, hu, hl⟩ := DB.messageByOwnerLocal_some hstored
  exact ⟨row_unique (logs_runActs h.logs hok) hmem hm hu hl, hm, rfl, rfl, he⟩

theorem did_ensure (now : Int) (users : List Int) (d : DB) :
    Did (users.map fun u => .ensure u now) d (runActs (users.map fun u => .ensure u now) d) := by
  induction users generalizing d with
  | nil => exact Did.nil d
  | cons u us ih =>
    exact (show Did [.ensure u now] d ((Act.ensure u now).apply d) from
      ⟨⟨trivial, trivial⟩, fun m hm => by simp [newRows, newMessages] at hm, rfl⟩).append (ih _)

theorem wp_sendSelf (hd : Inv d) (has : Did as d w)
    (hlog : announced as = [] ∧ newRows as = []) (hoff : OffChat as d) (hself : p.fromID = p.toID)
    (hdup : Unsent d p.fromID p.randomID) (hnew : Unsent w p.fromID p.randomID)
    (hadds : ∀ a ∈ as, a.adds)
    (hu : Lock.owner p.fromID ∈ G.held) :
    locking.wp (sendSelf now p) G w fun r _ w =>
      Ends (fun d r w => SendSpec p d r w ∧ SendRows now p d r w) d r w := by
  refine wp_post (r := p.outRow now 0) (fun l => ⟨rfl, rfl, rfl, hself.symm⟩) hu
    (fun l h => absurd rfl h) fun hs => ?_
  set m := p.outRow now 0 (w.nextOf p.fromID) with hm
  have hdid : Did (as ++ [Act.post m 0 now]) d ((post m 0 now).apply w) := by
    refine has.append ⟨⟨⟨⟨hs, rfl, rfl, .inl ⟨rfl, rfl, rfl⟩, by simp [hm, outRow], hnew,
      fun h => absurd rfl h⟩, rfl⟩, trivial⟩, ?_, rfl⟩
    intro x hx _ hne
    obtain rfl : x = m := by simpa [newRows, newMessages] using hx
    exact absurd hself.symm hne
  refine wp_bind (wp_messageOrFail hu fun stored hst => ?_)
  have heq : runActs (as ++ [Act.post m 0 now]) d = (post m 0 now).apply w := hdid.eq.symm
  obtain ⟨rfl, hans⟩ := answers_of_post (m := m) (n := w.ptsOf p.fromID + 1) hd hdid.ok
    (by rw [heq]; exact mem_append_right _ (by simp))
    (by rw [heq]; exact mem_append_right _ (by simp [hm, outRow]))
    (by rw [heq]; exact hst)
  rw [heq] at hans
  have hrows : newRows (as ++ [Act.post m 0 now]) = [m] := by
    rw [newRows_append, hlog.2]
    rfl
  refine ⟨⟨hans, .inr ⟨rfl, hdup, _, hdid, offChat_append hoff (by simp [OffChat, Act.offChat, hm,
    outRow]), ?_, ?_⟩⟩, fun _ => ⟨_, _, _, hdid, ?_, rfl, ?_⟩⟩
  · intro x hx
    rw [hrows, mem_singleton] at hx
    exact .inl (congrArg _ hx)
  · intro u
    rw [announced_append, hlog.1]
    simp [announced, Act.announces, hm, outRow, ← hself]
  · exact fun a ha => (mem_append.mp ha).elim (hadds a) fun h => mem_singleton.mp h ▸ rfl
  · rw [hrows, if_pos hself]

theorem wp_sendPair (hd : Inv d) (has : Did as d w)
    (hlog : announced as = [] ∧ newRows as = []) (hoff : OffChat as d) (hne : p.fromID ≠ p.toID)
    (hdup : Unsent d p.fromID p.randomID) (hnew : Unsent w p.fromID p.randomID)
    (hadds : ∀ a ∈ as, a.adds)
    (hs : Lock.owner p.fromID ∈ G.held) (hr : Lock.owner p.toID ∈ G.held) :
    locking.wp (sendPair now p) G w fun r _ w =>
      Ends (fun d r w => SendSpec p d r w ∧ SendRows now p d r w) d r w := by
  refine wp_pair (o := fun a b => p.outRow now a b) (i := fun x a b => p.inRow now x a b)
    (X := fun ms x => p.replyRef ms = x) hne hs hr
    (fun a b => ⟨rfl, rfl, rfl, rfl, rfl⟩) (fun x a b => ⟨rfl, rfl, rfl, rfl, rfl⟩)
    (wp_mirrorReply p) fun hss hrs x hx => ?_
  set ms := p.outRow now (w.nextOf p.toID) (w.nextOf p.fromID) with hms
  set mr := p.inRow now x (w.nextOf p.fromID) (w.nextOf p.toID) with hmr
  have hpair : PairOk w ms mr :=
    ⟨hne, ⟨hss, hrs⟩, ⟨rfl, rfl⟩, ⟨rfl, rfl⟩, ⟨rfl, rfl⟩, ⟨rfl, rfl, rfl, rfl⟩, hnew, rfl,
      ⟨rfl, rfl, rfl, rfl, rfl⟩, ⟨rfl, rfl⟩⟩
  have hdid : Did (as ++ [Act.post ms 0 now, .post mr 1 now]) d _ :=
    has.append (hpair.did rfl rfl now)
  have heq := hdid.eq
  refine wp_bind (wp_messageOrFail hs fun stored hst => ?_)
  obtain ⟨rfl, hans⟩ := answers_of_post (m := ms) (n := w.ptsOf p.fromID + 1) hd hdid.ok
    (by rw [← heq]; exact mem_append_left _ (mem_append_right _ (by simp)))
    (by rw [← heq]; exact mem_append_left _ (mem_append_right _ (by simp [hms, outRow])))
    (by rw [← heq]; exact hst)
  rw [← heq] at hans
  have hrows : newRows (as ++ [Act.post ms 0 now, .post mr 1 now]) = [ms, mr] := by
    rw [newRows_append, hlog.2]
    rfl
  -- The recipient's row is none that the sender can reply to.
  have href : p.replyRef (runActs [.post ms 0 now, .post mr 1 now] w).messages = x := by
    change p.replyRef ((w.messages ++ [ms]) ++ [mr]) = x
    have hnot : isAt p.fromID p.replyToMsgID mr = false := by
      simpa [isAt, hmr, inRow] using fun h => absurd h.symm hne
    have happend : ((w.messages ++ [ms]) ++ [mr]).find? (isAt p.fromID p.replyToMsgID) =
        ((w.messages ++ [ms]).find? (isAt p.fromID p.replyToMsgID)).or
          ([mr].find? (isAt p.fromID p.replyToMsgID)) := find?_append
    rw [← hx, SendParams.replyRef, SendParams.replyRef, happend, find?_singleton, hnot]
    simp
  refine ⟨⟨hans, .inr ⟨rfl, hdup, _, hdid, offChat_append hoff (by simp [OffChat, Act.offChat, hms,
    hmr, outRow, inRow]), ?_, ?_⟩⟩, fun _ => ⟨_, _, _, hdid, ?_, rfl, ?_⟩⟩
  · intro y hy
    rw [hrows] at hy
    obtain rfl | rfl : y = ms ∨ y = mr := by simpa using hy
    · exact .inl rfl
    · exact .inr (.inr ⟨hne.symm, hpair.mirror⟩)
  · intro u
    rw [announced_append, hlog.1]
    simp [announced, Act.announces, hms, hmr, outRow, inRow]
  · refine fun a ha => (mem_append.mp ha).elim (hadds a) fun h => ?_
    obtain rfl | rfl : a = .post ms 0 now ∨ a = .post mr 1 now := by simpa using h
    · rfl
    · rfl
  · rw [hrows, if_neg hne, href]

theorem wp_sendMessage (now : Int) (p : SendParams) (hd : Inv d) :
    Meets (sendMessage now p) d fun d r w => SendSpec p d r w ∧ SendRows now p d r w := by
  refine wp_bind (wp_lockOwners (.inr (by simp)) ?_)
  refine wp_bind (wp_lockFileRefs (by simp [Lock.tier]) fun files => ?_)
  set G := ((Ctx.start Inv : Ctx DB Lock).lock
    {l | ∃ u ∈ [p.fromID, p.toID], l = .owner u}).lock {l | ∃ id ∈ files, l = .file id} with hG
  have hs : Lock.owner p.fromID ∈ G.held := by simp [hG]
  have hr : Lock.owner p.toID ∈ G.held := by simp [hG]
  refine wp_bind (wp_ensureUpdateState hs ?_)
  refine wp_bind (wp_ensureUpdateState hr (wp_bind (wp_dedupRow hs ?_)))
  have hens := did_ensure now [p.fromID, p.toID] d
  cases hdup : ((Act.ensure p.toID now).apply ((Act.ensure p.fromID now).apply d)).messageByRandomID
      p.fromID p.randomID with
  | some m =>
    refine wp_bind (wp_newMessagePts hs fun sPts hsPts => ?_)
    refine wp_bind (wp_mirrorPts fun rPts => ?_)
    obtain ⟨hm, hu, hrand, h0⟩ := DB.messageByRandomID_some hdup
    exact ⟨⟨⟨hm, hu, hrand, DB.newMessagePts_some hsPts⟩, .inl ⟨rfl, h0, rfl⟩⟩, fun h => nomatch h⟩
  | none =>
    have hnew := unsent_of_messageByRandomID hdup
    -- Making the state rows touches no message.
    have hold : Unsent d p.fromID p.randomID := hnew
    have hoff : OffChat ([p.fromID, p.toID].map fun u => .ensure u now) d := by
      simp [OffChat, Act.offChat]
    dsimp only
    split
    · exact wp_sendSelf hd hens ⟨rfl, rfl⟩ hoff ‹_› hold hnew (by simp [Act.adds]) hs
    · exact wp_sendPair hd hens ⟨rfl, rfl⟩ hoff ‹_› hold hnew (by simp [Act.adds]) hs hr

/-! ## Copies of a chat message -/

structure CopiesOf (w : DB) (pre : Message) (copies : List Message) : Prop where
  own : ∃ c ∈ copies, c.ownerID = pre.ownerID ∧ c.localID = pre.localID
  rows : ∀ c ∈ copies, ∃ m ∈ w.messages, m.frozen = c.frozen
  chat : ∀ c ∈ copies, c.peerType = .chat ∧ c.peerID = pre.peerID ∧ c.fanoutID = pre.fanoutID

theorem LogOk.chat_of_fanout {p : DB} (h : LogOk u p) (hm : m ∈ p.messages) (h0 : m.fanoutID ≠ 0) :
    m.peerType = .chat := by
  rcases h.kinds m hm with ⟨-, hf, -⟩ | ⟨ht, -⟩
  · exact absurd hf h0
  · exact ht

/-- Nobody can add a copy to a fan-out that is done, so those are all. -/
structure AllCopies (w : DB) (pre : Message) (copies : List Message) : Prop
    extends CopiesOf w pre copies where
  fanout : pre.fanoutID ≠ 0
  all : ∀ x ∈ w.messages, x.fanoutID = pre.fanoutID → ∃ c ∈ copies, c.key = x.key
  owners : (copies.map (·.ownerID)).Nodup

theorem Inv.nodup_messages (h : Inv d) : d.messages.Nodup := by
  refine nodup_iff_count_le_one.mpr fun m => ?_
  have hown : ((d.ofOwner m.ownerID).messages.map (·.localID)).Nodup := by
    rw [show _ = _ from (h.logs m.ownerID).messages]
    exact nodup_upto _
  have hcount := nodup_iff_count_le_one.mp (List.Nodup.of_map _ hown) m
  rwa [DB.ofOwner, count_filter (by simp)] at hcount

theorem DB.mem_messagesByFanout (h0 : n ≠ 0) {c : Message} :
    c ∈ d.messagesByFanout n ↔ c ∈ d.messages ∧ c.fanoutID = n := by
  simp only [DB.messagesByFanout, mem_insertionSort, mem_filter, decide_eq_true_eq]
  exact ⟨fun hc => ⟨hc.1, hc.2.1⟩, fun hc => ⟨hc.1, hc.2, hc.2.trans_ne h0⟩⟩

theorem Inv.nodup_copyOwners (h : Inv d) (h0 : n ≠ 0) :
    ((d.messagesByFanout n).map (·.ownerID)).Nodup := by
  refine List.Nodup.map_on (fun x hx y hy hown => ?_)
    ((perm_insertionSort _ _).nodup_iff.mpr (h.nodup_messages.filter _))
  obtain ⟨hx, hxn⟩ := (DB.mem_messagesByFanout h0).mp hx
  obtain ⟨hy, hyn⟩ := (DB.mem_messagesByFanout h0).mp hy
  refine row_unique h.logs hx hy hown ?_
  exact (h.logs y.ownerID).fanoutIDs y (mem_filter.mpr ⟨hy, by simp⟩) x
    (mem_filter.mpr ⟨hx, by simpa using hown⟩) (hyn.trans_ne h0) (hxn.trans hyn.symm)

theorem DB.mem_copyKeys (h0 : n ≠ 0) {k : Int × Int} :
    k ∈ d.copyKeys n ↔ ∃ x ∈ d.messages, x.fanoutID = n ∧ x.key = k := by
  simp only [DB.copyKeys, mem_map, mem_filter, decide_eq_true_eq, and_assoc]
  refine exists_congr fun x => and_congr_right fun _ => ⟨fun h => ⟨h.1, h.2.2⟩, fun h => ?_⟩
  exact ⟨h.1, h.1.trans_ne h0, h.2⟩

theorem wp_chatCopies {Q : Post (List Message)}
    (hG : ∀ x, G.seen x → Inv x ∧ ∃ m ∈ x.messages, m.frozen = pre.frozen)
    (h : ∀ copies, AllCopies w pre copies → Q copies G w) : locking.wp (chatCopies pre) G w Q := by
  unfold chatCopies
  split
  · trivial
  rename_i h0
  refine wp_bind (wp_query fun v hv => ?_)
  split
  · trivial
  refine h _ ?_
  obtain ⟨hinv, m, hm, hf⟩ := hG v hv.seen
  have hmem : ∀ {c}, c ∈ v.messagesByFanout pre.fanoutID ↔
      c ∈ v.messages ∧ c.fanoutID = pre.fanoutID := DB.mem_messagesByFanout h0
  have hkept := kept hf
  refine ⟨⟨⟨m, hmem.mpr ⟨hm, hkept.fanoutID⟩, hkept.ownerID,
    hkept.localID⟩, fun c hc => ?_, fun c hc => ?_⟩, h0,
    fun x hx hxn => ?_, hinv.nodup_copyOwners h0⟩
  · exact (show Grows v w from hv.grows).row (hmem.mp hc).1
  · obtain ⟨hc, hcf⟩ := hmem.mp hc
    refine ⟨(hinv.logs c.ownerID).chat_of_fanout (mem_filter.mpr ⟨hc, by simp⟩)
      (hcf.trans_ne h0), ?_, hcf⟩
    exact (hinv.fanouts m hm c hc (hkept.fanoutID.trans_ne h0)
      (hcf.trans hkept.fanoutID.symm)).trans hkept.peerID
  · -- The number is in use, so its copies were settled in the view.
    have hused : v.copyKeys pre.fanoutID ≠ [] :=
      ne_nil_of_mem ((DB.mem_copyKeys h0).mpr ⟨m, hm, hkept.fanoutID, rfl⟩)
    have hkeys : v.copyKeys pre.fanoutID = w.copyKeys pre.fanoutID :=
      hv.settled (.fanout pre.fanoutID) trivial hused
    have hkey := (DB.mem_copyKeys h0).mpr ⟨x, hx, hxn, rfl⟩
    rw [← hkeys] at hkey
    obtain ⟨c, hc, hcn, hck⟩ := (DB.mem_copyKeys h0).mp hkey
    exact ⟨c, hmem.mpr ⟨hc, hcn⟩, hck⟩

/-- What is done to copies whose owners are members is done on behalf of the chat. -/
theorem RowSpec.of_copies (hpre : ∃ m ∈ d.messages, m.frozen = pre.frozen)
    (hchat : pre.peerType = .chat) (hcopies : CopiesOf d pre copies)
    (hself : d.isChatMember pre.peerID pre.ownerID)
    (hmem : ∀ c ∈ copies, c.ownerID ∈ members → d.isChatMember pre.peerID c.ownerID)
    (hdid : Did as d w)
    (hnew : newRows as = []) (hside : ∀ a ∈ as, ∀ o, a = .side o → o.chat = none)
    (has : ∀ a ∈ as, ∃ c ∈ copies, c.ownerID ∈ members ∧ a.owner = some c.ownerID ∧
      (d.chatRow pre.peerID c.ownerID c.localID → a.onChat d pre.peerID)) :
    RowSpec pre.ownerID pre.localID as d w := by
  have hstays : ∀ c u, w.isChatMember c u = d.isChatMember c u := fun c u => by
    rw [DB.isChatMember, hdid.eq, participants_runActs_eq hside, DB.isChatMember]
  obtain ⟨m, hm, hf⟩ := hpre
  have hkept := kept hf
  refine ⟨hdid, hnew, m, hm, ?_, fun _ => ⟨?_, fun a ha => ?_⟩, fun ht => ?_⟩
  · exact isAt_iff.mpr ⟨hkept.ownerID, hkept.localID⟩
  · rw [hstays, hkept.peerID]
    exact hself
  · obtain ⟨c, hc, hin, hown, hon⟩ := has a ha
    obtain ⟨x, hx, hxf⟩ := hcopies.rows c hc
    obtain ⟨hct, hcp, -⟩ := hcopies.chat c hc
    rw [hkept.peerID]
    refine ⟨hon ⟨x, hx, isAt_iff.mpr ⟨(kept hxf).ownerID, (kept hxf).localID⟩,
      (kept hxf).peerType.trans hct,
      (kept hxf).peerID.trans hcp⟩, fun u hu => ?_⟩
    obtain rfl : c.ownerID = u := by simpa [hown] using hu
    left
    rw [hstays]
    exact hmem c hc hin
  · exact absurd (hkept.peerType.trans hchat) ht

theorem AllCopies.reach (h : AllCopies d pre copies) (hd : Inv d) (hm : m ∈ d.messages)
    (hf : m.frozen = pre.frozen) (hchat : pre.peerType = .chat)
    (hself : d.isChatMember pre.peerID pre.ownerID)
    (hmem : ∀ c ∈ copies, c.ownerID ∈ members ↔ d.isChatMember pre.peerID c.ownerID) :
    Reach d m ((copies.filter (·.ownerID ∈ members)).map key) where
  mem k := by
    have hmc : m.peerType = .chat := (kept hf).peerType.trans hchat
    have hkept := kept hf
    have hmn : m.fanoutID = pre.fanoutID := hkept.fanoutID
    have hmo : m.ownerID = pre.ownerID := hkept.ownerID
    -- In a chat the row itself is one of the copies of members.
    have hreach : ∀ x ∈ d.messages, d.reaches m x ↔
        x.fanoutID = pre.fanoutID ∧ d.isChatMember pre.peerID x.ownerID := by
      intro x hx
      simp only [DB.reaches, hmc, if_true, hmn, hkept.peerID, Bool.or_eq_true, Bool.and_eq_true,
        decide_eq_true_eq, and_assoc]
      constructor
      · rintro (hat | ⟨-, hn, hin⟩)
        · obtain rfl := hd.row_of_key hx hm (Message.key_eq_iff.mpr hat)
          exact ⟨hmn, hmo ▸ hself⟩
        · exact ⟨hn, hin⟩
      · exact fun hx => .inr ⟨h.fanout, hx⟩
    constructor
    · intro hk
      obtain ⟨c, hc, rfl⟩ := mem_map.mp hk
      obtain ⟨hc, hin⟩ := mem_filter.mp hc
      obtain ⟨x, hx, hxf⟩ := h.rows c hc
      have hkept3 := kept hxf
      refine ⟨x, hx, (hreach x hx).mpr ⟨?_, ?_⟩, hkept3.key⟩
      · exact hkept3.fanoutID.trans (h.chat c hc).2.2
      · rw [hkept3.ownerID]
        exact (hmem c hc).mp (by simpa using hin)
    · rintro ⟨x, hx, hr, rfl⟩
      obtain ⟨hn, hin⟩ := (hreach x hx).mp hr
      obtain ⟨c, hc, hck⟩ := h.all x hx hn
      have hco : c.ownerID = x.ownerID := congrArg Prod.fst hck
      refine mem_map.mpr ⟨c, mem_filter.mpr ⟨hc, ?_⟩, hck⟩
      simpa using (hmem c hc).mpr (hco ▸ hin)
  owners := by
    rw [map_map]
    exact h.owners.sublist (filter_sublist.map _)

/-! ## EditMessage -/

theorem Inv.mirror (h : Inv d) (hm : m ∈ d.messages) (htype : m.peerType ≠ .chat)
    (hne : m.peerID ≠ m.ownerID) : ∃ m' ∈ d.messages, Mirror m m' := by
  have huser : m.peerType = .user :=
    ((h.logs m.ownerID).kinds m (mem_filter.mpr ⟨hm, by simp⟩)).elim (fun h => h.1)
      fun h => absurd h.1 htype
  obtain ⟨m', hm', hmirror, -⟩ := h.mirrors m hm huser hne
  exact ⟨m', hm', hmirror⟩

theorem Inv.not_chatRow (h : Inv d) (hm : m ∈ d.messages) (htype : m.peerType ≠ .chat) (c : Int) :
    ¬ d.chatRow c m.ownerID m.localID := by
  rintro ⟨x, hx, hat, hchat, -⟩
  obtain ⟨hu, hl⟩ := isAt_iff.mp hat
  exact htype (row_unique h.logs hx hm hu hl ▸ hchat)

theorem Inv.of_reaches (h : Inv d) {x : Message} (hm : m ∈ d.messages) (htype : m.peerType ≠ .chat)
    (hx : x ∈ d.messages) (hr : d.reaches m x) :
    x.peerType ≠ .chat ∧ (x.ownerID = m.ownerID ∨ x.ownerID = m.peerID) := by
  simp only [DB.reaches, htype, if_false, Bool.or_eq_true, Bool.and_eq_true,
    decide_eq_true_eq] at hr
  rcases hr with hat | ⟨hne, hat⟩
  · obtain rfl := h.row_of_key hx hm (Message.key_eq_iff.mpr hat)
    exact ⟨htype, .inl rfl⟩
  · obtain ⟨m', hm', hmirror⟩ := h.mirror hm htype hne
    obtain ⟨hu, hl⟩ := isAt_iff.mp hat
    obtain rfl := row_unique h.logs hx hm' (hu.trans hmirror.owner.symm)
      (hl.trans hmirror.localID.symm)
    exact ⟨by simp [hmirror.peerType], .inr hu⟩

theorem reach_self (hm : m ∈ d.messages) (htype : m.peerType ≠ .chat)
    (hself : m.ownerID = m.peerID) : Reach d m [(m.ownerID, m.localID)] where
  mem k := by
    have hreach : ∀ x, d.reaches m x ↔ x.key = m.key := by
      intro x
      simp [DB.reaches, htype, hself, isAt_iff, key]
    simp only [mem_singleton, hreach]
    constructor
    · rintro rfl
      exact ⟨m, hm, rfl, rfl⟩
    · rintro ⟨x, -, hx, rfl⟩
      exact hx
  owners := by simp

theorem Inv.reach_pair (h : Inv d) (hm : m ∈ d.messages) (htype : m.peerType ≠ .chat)
    (hne : m.ownerID ≠ m.peerID) :
    Reach d m [(m.ownerID, m.localID), (m.peerID, m.peerLocalID)] where
  mem k := by
    have hreach : ∀ x, d.reaches m x ↔ x.key = m.key ∨ x.key = (m.peerID, m.peerLocalID) := by
      intro x
      simp [DB.reaches, htype, hne.symm, isAt_iff, key]
    simp only [mem_cons, not_mem_nil, or_false, hreach]
    constructor
    · rintro (rfl | rfl)
      · exact ⟨m, hm, .inl rfl, rfl⟩
      · obtain ⟨m', hm', hmirror⟩ := h.mirror hm htype hne.symm
        have hkey : m'.key = (m.peerID, m.peerLocalID) := Prod.ext hmirror.owner hmirror.localID
        exact ⟨m', hm', .inr hkey, hkey⟩
    · rintro ⟨x, -, hx, rfl⟩
      exact hx
  owners := by simpa using hne

/-- An edit or a reaction of a 1:1 message stays between the two. -/
theorem RowSpec.of_reach {keys : Owned} (hd : Inv d) (hm : m ∈ d.messages)
    (htype : m.peerType ≠ .chat) (hreach : Reach d m keys) (hdid : Did as d w)
    (hnew : newRows as = [])
    (has : ∀ a ∈ as, ∃ k ∈ keys, (∀ u, a.announces = some u → u = k.1) ∧
      ((∀ c, ¬ d.chatRow c k.1 k.2) → a.offChat d)) : RowSpec m.ownerID m.localID as d w := by
  have hrow : ∀ k ∈ keys, (∀ c, ¬ d.chatRow c k.1 k.2) ∧ (k.1 = m.ownerID ∨ k.1 = m.peerID) := by
    intro k hk
    obtain ⟨x, hx, hr, rfl⟩ := (hreach.mem k).mp hk
    obtain ⟨ht, hown⟩ := hd.of_reaches hm htype hx hr
    exact ⟨hd.not_chatRow hx ht, hown⟩
  refine ⟨hdid, hnew, m, hm, isAt_iff.mpr ⟨rfl, rfl⟩, fun ht => absurd ht htype,
    fun _ => ⟨fun a ha => ?_, fun u hu => ?_⟩⟩
  · obtain ⟨k, hk, -, hoff⟩ := has a ha
    exact hoff (hrow k hk).1
  · obtain ⟨a, ha, hann⟩ := mem_filterMap.mp hu
    obtain ⟨k, hk, hown, -⟩ := has a ha
    rw [hown u hann]
    exact (hrow k hk).2

def editActs (now : Int) (text : String) (members : List Int) (copies : List Message) : List Act :=
  (copies.filter (·.ownerID ∈ members)).map fun c => .edit c.ownerID c.localID text now

theorem editActs_eq (now : Int) (text : String) (members : List Int) (copies : List Message) :
    editActs now text members copies =
      editKeys now text ((copies.filter (·.ownerID ∈ members)).map key) := by
  rw [editKeys, map_map]
  rfl

theorem wp_editCopies {author pts : Int} {Q : Post Int}
    (hlock : ∀ c ∈ copies, Lock.owner c.ownerID ∈ G.held)
    (hrows : ∀ c ∈ copies, ∃ m ∈ w.messages, m.frozen = c.frozen)
    (hnodup : (copies.map (·.ownerID)).Nodup)
      (h : ∀ G', ActsOk (editActs now text members copies) w →
        Q (if author ∈ members ∧ author ∈ copies.map (·.ownerID) then w.ptsOf author + 1
          else pts) G'
        (runActs (editActs now text members copies) w)) :
    locking.wp (editCopies now text author members copies pts) G w Q := by
  induction copies generalizing G w pts with
  | nil =>
    have hgoal := h G trivial
    rw [if_neg (by simp)] at hgoal
    exact hgoal
  | cons c cs ih =>
    obtain ⟨hfresh, hnodup⟩ := nodup_cons.mp hnodup
    unfold editCopies
    split
    · rename_i hc
      have hacts : editActs now text members (c :: cs) =
          .edit c.ownerID c.localID text now :: editActs now text members cs := by
        simp [editActs, hc]
      obtain ⟨m, hm, hf⟩ := hrows c (by simp)
      refine wp_bind (wp_editCopy (hlock c (by simp)) fun hs => ?_)
      refine ih (fun c' hc' => hlock c' (by simp [hc'])) (fun c' hc' => ?_) hnodup fun G' hok => ?_
      · obtain ⟨m', hm', hf'⟩ := hrows c' (by simp [hc'])
        obtain ⟨x, hx, hxf⟩ := (grows_runActs [.edit c.ownerID c.localID text now] w).row hm'
        exact ⟨x, hx, hxf.trans hf'⟩
      · have hone : (edit c.ownerID c.localID text now).Ok w := ⟨hs, m, hm, isAt_iff.mpr
          ⟨(kept hf).ownerID, (kept hf).localID⟩⟩
        have hgoal := h G'
        rw [hacts] at hgoal
        have hpts : (if author ∈ members ∧ author ∈ cs.map (·.ownerID) then
              ((edit c.ownerID c.localID text now).apply w).ptsOf author + 1
            else if c.ownerID = author then w.ptsOf c.ownerID + 1 else pts) =
            if author ∈ members ∧ author ∈ (c :: cs).map (·.ownerID) then w.ptsOf author + 1
            else pts := by
          by_cases hca : c.ownerID = author
          · subst hca
            rw [if_neg fun h => hfresh h.2, if_pos rfl, if_pos ⟨hc, by simp⟩]
          · have hne : (edit c.ownerID c.localID text now).owner ≠ some author := by
              simpa [Act.owner] using hca
            simp [ptsOf_act_of_ne hne, hca, Ne.symm hca]
        rw [hpts]
        exact hgoal ⟨hone, hok⟩
    · rename_i hc
      have hacts : editActs now text members (c :: cs) = editActs now text members cs := by
        simp [editActs, hc]
      rw [hacts] at h
      refine ih (fun c' hc' => hlock c' (by simp [hc'])) (fun c' hc' => hrows c' (by simp [hc']))
        hnodup fun G' hok => ?_
      have hpts : (author ∈ members ∧ author ∈ (c :: cs).map (·.ownerID)) ↔
          author ∈ members ∧ author ∈ cs.map (·.ownerID) := by
        rw [map_cons, mem_cons, and_congr_right_iff]
        exact fun hin => or_iff_right fun heq => hc (heq ▸ hin)
      have hgoal := h G' hok
      simp only [hpts] at hgoal
      exact hgoal

theorem mem_editActs {a : Act} (ha : a ∈ editActs now text members copies) :
    ∃ c ∈ copies, c.ownerID ∈ members ∧ a = .edit c.ownerID c.localID text now := by
  obtain ⟨c, hc, rfl⟩ := mem_map.mp ha
  obtain ⟨hc, hin⟩ := mem_filter.mp hc
  exact ⟨c, hc, by simpa using hin, rfl⟩

theorem newRows_editActs (now : Int) (text : String) (members : List Int) (copies : List Message) :
    newRows (editActs now text members copies) = [] := by
  refine newRows_eq_nil fun a ha => ?_
  obtain ⟨c, -, -, rfl⟩ := mem_editActs ha
  rfl

theorem saw_row {v : DB} (hpre : pre ∈ v.messages)
    (hx : ((Ctx.start Inv : Ctx DB Lock).saw Grows v).seen x) :
    Inv x ∧ ∃ m ∈ x.messages, m.frozen = pre.frozen :=
  ⟨hx.1, hx.2.row hpre⟩

theorem hasChat_of_row (h : Inv x ∧ ∃ m ∈ x.messages, m.frozen = pre.frozen)
    (hchat : pre.peerType = .chat) : x.hasChat pre.peerID := by
  obtain ⟨hinv, m, hm, hf⟩ := h
  have := hinv.chats m hm ((kept hf).peerType.trans hchat)
  rwa [(kept hf).peerID] at this

/-- The owners are locked and the row is read again: it is the one read before, up to its text. -/
theorem wp_lockRow {ids : List Int} {e : StoreErr} {k : Message → Body B}
    (hd : Inv d) (hfirst : ∀ l ∈ G.held, l.tier < 2)
    (hpre : ∃ m ∈ d.messages, m.frozen = pre.frozen)
    (h : ∀ (H : Ctx DB Lock) msg, H.seen = G.seen → (∀ u ∈ ids, Lock.owner u ∈ H.held) →
      msg ∈ d.messages → msg.frozen = pre.frozen → locking.wp (k msg) H d Q)
    (hown : pre.ownerID ∈ ids) :
    locking.wp (do
      lockOwners ids
      let msg ← messageOrFail e pre.ownerID pre.localID
      k msg) G d Q := by
  refine wp_bind (wp_lockOwners (.inr hfirst) ?_)
  have hheld : ∀ u ∈ ids, Lock.owner u ∈ (G.lock {l | ∃ u ∈ ids, l = Lock.owner u}).held :=
    fun u hu => Or.inr ⟨u, hu, rfl⟩
  refine wp_bind (wp_messageOrFail (hheld _ hown) fun msg hmsg => ?_)
  obtain ⟨hmem, hu, hl⟩ := DB.messageByOwnerLocal_some hmsg
  obtain ⟨m, hm, hf⟩ := hpre
  have hkept := kept hf
  obtain rfl := row_unique hd.logs hmem hm (hu.trans hkept.ownerID.symm)
    (hl.trans hkept.localID.symm)
  exact h _ msg rfl hheld hm hf

theorem wp_editChatMessage (hd : Inv d) (hfirst : ∀ l ∈ G.held, l.tier < 2)
    (hG : ∀ x, G.seen x → Inv x ∧ ∃ m ∈ x.messages, m.frozen = pre.frozen)
    (hpre : ∃ m ∈ d.messages, m.frozen = pre.frozen) (hchat : pre.peerType = .chat) :
    locking.wp (editChatMessage now pre text) G d
      fun pts _ w => (∃ as, RowSpec pre.ownerID pre.localID as d w) ∧
        EditSpec now pre.ownerID pre.localID text d (pre.peerID, pts) w := by
  refine wp_bind (wp_chatCopies hG fun copies hcopies => ?_)
  split
  · trivial
  rename_i hplain
  obtain ⟨own, hown, hou, -⟩ := hcopies.own
  refine wp_lockRow hd hfirst hpre (fun H msg hseen hheld hm hf => ?_) (hou ▸ mem_map_of_mem hown)
  have hlock : ∀ c ∈ copies, Lock.owner c.ownerID ∈ H.held :=
    fun c hc => hheld _ (mem_map_of_mem hc)
  have hself : Lock.owner pre.ownerID ∈ H.held := hou ▸ hlock own hown
  split
  · trivial
  rename_i hlive
  obtain ⟨hout, hlive⟩ : msg.out = true ∧ msg.deleted = false := by simpa using hlive
  refine wp_bind (wp_chatMembers_locked (fun x hx => ?_) fun members hmem => ?_)
  · exact hasChat_of_row (hG x (hseen ▸ hx)) hchat
  split
  · trivial
  rename_i hmember
  have hmember : pre.ownerID ∈ members := not_not.mp hmember
  refine wp_editCopies hlock hcopies.rows hcopies.owners fun G' hok => ?_
  have hdid : Did (editActs now text members copies) d
      (runActs (editActs now text members copies) d) :=
    ⟨hok, fun x hx => by simp [newRows_editActs] at hx, rfl⟩
  have hin := (hmem _ hself).mp hmember
  refine ⟨⟨_, .of_copies hpre hchat hcopies.toCopiesOf hin
    (fun c hc hin => (hmem _ (hlock c hc)).mp hin) hdid (newRows_editActs ..)
    (fun a ha o ho => ?_) fun a ha => ?_⟩, ?_⟩
  · obtain ⟨c, -, -, rfl⟩ := mem_editActs ha
    cases ho
  · obtain ⟨c, hc, hin, rfl⟩ := mem_editActs ha
    exact ⟨c, hc, hin, rfl, fun h => h⟩
  · have hkept := kept hf
    refine ⟨msg, _, ⟨hm, hkept.isAt, hout, hlive, ?_, fun _ => hkept.peerID ▸ hin⟩, ?_,
      hcopies.reach hd hm hf hchat hin fun c hc => hmem _ (hlock c hc), editActs_eq .. ▸ hdid⟩
    · exact hkept.action.trans (not_not.mp hplain)
    · rw [if_pos ⟨hmember, hou ▸ mem_map_of_mem hown⟩, hkept.peerID]

theorem replay_editPair {v l k : Int} (hne : u ≠ v) (w : DB) : locking.replay
      [.setEditedText u l text now, .setEditedText v k text now, .bumpPtsOnly u now,
        .insertEvent ⟨u, w.ptsOf u + 1, .edit, l⟩, .bumpPtsOnly v now,
        .insertEvent ⟨v, w.ptsOf v + 1, .edit, k⟩] w =
      runActs [.edit u l text now, .edit v k text now] w := by
  have hpts : ((edit u l text now).apply w).ptsOf v = w.ptsOf v :=
    ptsOf_act_of_ne (by simpa [Act.owner] using hne) w
  simp only [runActs_cons, runActs_nil]
  rw [Act.apply.eq_1 (edit v k text now)]
  simp only [Act.writes, hpts]
  rfl

theorem wp_editMessage (now owner localID : Int) (text : String) (hd : Inv d) :
    Meets (editMessage now owner localID text) d fun d r w => (∃ as, RowSpec owner localID as d w) ∧
        EditSpec now owner localID text d r w := by
  refine wp_bind (wp_messageOrFail_saw fun v pre hv hpre => ?_)
  obtain ⟨hmem, rfl, rfl⟩ := DB.messageByOwnerLocal_some hpre
  have hrow := (show Grows v d from hv.grows).row hmem
  split
  · refine wp_bind (wp_mono
      (wp_editChatMessage hd (by simp) (fun x hx => saw_row hmem hx) hrow ‹_›)
      fun pts G' w _ hspec => ?_)
    exact hspec
  rename_i htype
  refine wp_lockRow hd (by simp) hrow (fun H msg _ hheld hm hf => ?_) mem_cons_self
  have ho : Lock.owner pre.ownerID ∈ H.held := hheld _ (by simp)
  have hp : Lock.owner pre.peerID ∈ H.held := hheld _ (by simp)
  have hkept := kept hf
  have hmtype : msg.peerType ≠ .chat := hkept.peerType.trans_ne htype
  split
  · trivial
  rename_i hlive
  obtain ⟨hout, hlive⟩ : msg.out = true ∧ msg.deleted = false := by simpa using hlive
  have hplain : msg.action = .none :=
    ((hd.logs msg.ownerID).kinds msg (mem_filter.mpr ⟨hm, by simp⟩)).elim (fun h => h.2.2)
      fun h => absurd h.1 hmtype
  have hspec : ∀ keys w, Reach d msg keys → Did (editKeys now text keys) d w →
      (∃ as, RowSpec pre.ownerID pre.localID as d w) ∧
        EditSpec now pre.ownerID pre.localID text d (pre.peerID, d.ptsOf pre.ownerID + 1) w := by
    intro keys w hreach hdid
    refine ⟨⟨editKeys now text keys, ?_⟩, msg, keys,
      ⟨hm, hkept.isAt, hout, hlive, hplain, fun ht => absurd ht hmtype⟩,
      by rw [hkept.peerID], hreach, hdid⟩
    rw [← hkept.ownerID, ← hkept.localID]
    refine .of_reach hd hm hmtype hreach hdid (newRows_eq_nil fun a ha => ?_) fun a ha => ?_
    · obtain ⟨k, -, rfl⟩ := mem_map.mp ha
      rfl
    · obtain ⟨k, hk, rfl⟩ := mem_map.mp ha
      exact ⟨k, hk, fun u hu => (Option.some.inj hu).symm, fun h => h⟩
  refine wp_bind (wp_exec_under rfl ho ?_)
  by_cases hself : pre.ownerID = pre.peerID
  · rw [if_neg (not_not.mpr hself)]
    refine wp_bind (wp_bumpPtsOnly ho fun hs => ?_)
    refine wp_bind (wp_insertEvent ho ?_)
    rw [if_pos hself]
    have hreach := reach_self hm hmtype (by rw [hkept.ownerID, hkept.peerID]; exact hself)
    rw [hkept.ownerID, hkept.localID] at hreach
    exact hspec _ _ hreach ⟨⟨⟨hs, msg, hm, hkept.isAt⟩, trivial⟩,
      (fun _ hx => absurd hx not_mem_nil), rfl⟩
  · rw [if_pos hself]
    refine wp_bind (wp_exec_under rfl hp ?_)
    refine wp_bind (wp_bumpPtsOnly ho fun hs => ?_)
    refine wp_bind (wp_insertEvent ho ?_)
    rw [if_neg hself]
    refine wp_bind (wp_bumpPtsOnly hp fun hsp => ?_)
    refine wp_bind (wp_insertEvent hp ?_)
    have hstate : ((Write.bumpPtsOnly pre.ownerID now).apply d).getState pre.peerID =
        d.getState pre.peerID := by
      rw [← DB.getState_ofOwner, ofOwner_apply_of_ne (by simpa [Write.owner] using hself),
        DB.getState_ofOwner]
    have hpts : ((Write.bumpPtsOnly pre.ownerID now).apply d).ptsOf pre.peerID =
        d.ptsOf pre.peerID := by
      rw [DB.ptsOf, hstate, DB.ptsOf]
    change (((Write.bumpPtsOnly pre.ownerID now).apply d).getState pre.peerID).isSome at hsp
    rw [hstate] at hsp
    obtain ⟨mir, hmir, hmirror⟩ :=
      hd.mirror hm hmtype (by rw [hkept.peerID, hkept.ownerID]; exact Ne.symm hself)
    have hreach := hd.reach_pair hm hmtype (by rw [hkept.ownerID, hkept.peerID]; exact hself)
    rw [hkept.ownerID, hkept.localID, hkept.peerID] at hreach
    refine hspec _ _ hreach ⟨⟨⟨hs, msg, hm, hkept.isAt⟩, ⟨?_, ?_⟩, trivial⟩,
      (fun _ hx => absurd hx not_mem_nil), ?_⟩
    · rw [getState_act_of_ne (by simpa [Act.owner] using hself)]
      exact hsp
    · obtain ⟨x, hx, hxf⟩ :=
        (grows_runActs [.edit pre.ownerID pre.localID text now] d).row hmir
      refine ⟨x, hx, isAt_iff.mpr ⟨?_, ?_⟩⟩
      · exact (kept hxf).ownerID.trans (hmirror.owner.trans hkept.peerID)
      · exact (kept hxf).localID.trans hmirror.localID
    · change _ = runActs [.edit pre.ownerID pre.localID text now,
        .edit pre.peerID msg.peerLocalID text now] d
      rw [← replay_editPair hself, ← hpts]
      rfl

theorem Did.side {o : Write} (h : (Act.side o).Ok w) : Did [.side o] w (o.apply w) :=
  ⟨⟨h, trivial⟩, fun x hx => by simp [newRows, newMessages] at hx, rfl⟩

theorem Did.mark (hs : (w.getState u).isSome) (ht : type = .readIn ∨ type = .readOut) :
    Did [.mark u type marker now] w ((mark u type marker now).apply w) :=
  ⟨⟨⟨hs, ht⟩, trivial⟩, fun x hx => by simp [newRows, newMessages] at hx, rfl⟩

theorem wp_mark {k : Int → Body B} (hu : Lock.owner u ∈ G.held) (h : (w.getState u).isSome →
      locking.wp (k (w.ptsOf u + 1)) G.wrote ((mark u type marker now).apply w) Q) :
    locking.wp (do
      let pts ← bumpPtsOnly now u
      insertEvent u pts type marker
      k pts) G w Q := by
  refine wp_bind (wp_bumpPtsOnly hu fun hs => ?_)
  exact wp_bind (wp_insertEvent hu (h hs))

theorem DB.maxPeerLocalID_ofOwner (d : DB) (u peer maxID : Int) :
    (d.ofOwner u).maxPeerLocalID u peer maxID = d.maxPeerLocalID u peer maxID := by
  simp only [DB.maxPeerLocalID, DB.ofOwner, filter_filter]
  congr 3
  funext m
  by_cases h : m.ownerID = u <;> simp [h]

/-- Without a dialog a read leaves everything as it is; the answer has the pts of both. -/
def ReadEffect (now owner peer maxID : Int) (d : DB) (r : Int × Int) (w : DB) : Prop :=
  r = (w.ptsOf owner, w.ptsOf peer) ∧
    match d.dialog owner .user peer with
    | none => w = d
    | some g => Did (readActs now owner peer maxID g d) d w

theorem ReadEffect.spec {owner peer maxID : Int} {r : Int × Int}
    (h : ReadEffect now owner peer maxID d r w) : ReadSpec now owner peer maxID d w := by
  obtain ⟨-, h⟩ := h
  cases hg : d.dialog owner .user peer with
  | none =>
    rw [hg] at h
    exact .inl h
  | some g =>
    rw [hg] at h
    exact .inr ⟨g, hg, h⟩

theorem ptsOf_mark (hs : (w.getState u).isSome) :
    ((mark u type marker now).apply w).ptsOf u = w.ptsOf u + 1 :=
  ptsOf_bumpPtsOnly hs

theorem wp_readHistory (now owner peer maxID : Int) (d : DB) :
    locking.wp (readHistory now owner peer maxID) (.start Inv) d
      fun r _ w => Ends (ReadEffect now owner peer maxID) d r w := by
  refine wp_bind (wp_lockOwners (.inr (by simp)) ?_)
  set H := (Ctx.start Inv : Ctx DB Lock).lock {l | ∃ u ∈ [owner, peer], l = Lock.owner u} with hH
  have ho : Lock.owner owner ∈ H.held := by simp [hH]
  have hp : Lock.owner peer ∈ H.held := by simp [hH]
  refine wp_bind (wp_exec_owner (u := owner) (fun d => by rw [d.dialog_ofOwner]) ho rfl ?_)
  have hin : Did [.side (.advanceReadInbox owner .user peer maxID)] d _ := Did.side rfl
  cases hdialog : d.dialog owner .user peer with
  | none =>
    -- The update found no dialog, so the states are those from before.
    have hsame : ∀ u, ((Write.advanceReadInbox owner .user peer maxID).apply d).getState u =
        d.getState u := fun _ => rfl
    refine wp_bind (wp_getState ho (wp_bind (wp_orFail fun a ha => ?_)))
    refine wp_bind (wp_getState hp (wp_bind (wp_orFail fun b hb => ?_)))
    refine ⟨?_, by rw [hdialog]⟩
    rw [hsame] at ha hb
    rw [DB.ptsOf, DB.ptsOf, ha, hb]
    rfl
  | some g =>
    have hend : ∀ {r w}, r = (w.ptsOf owner, w.ptsOf peer) →
        Did (readActs now owner peer maxID g d) d w → ReadEffect now owner peer maxID d r w :=
      fun hr hdid => ⟨hr, by rw [hdialog]; exact hdid⟩
    dsimp only [Option.map_some]
    split
    · rename_i hself
      refine wp_mark ho fun hs => hend ?_ ?_
      · subst hself
        exact Prod.ext (ptsOf_mark hs).symm (ptsOf_mark hs).symm
      · rw [readActs, if_pos hself]
        exact hin.append (Did.mark hs (.inl rfl))
    · rename_i hne
      refine wp_bind (wp_query_owner (u := owner)
        (fun d => d.maxPeerLocalID_ofOwner owner peer maxID) ho ?_)
      refine wp_bind (wp_exec_under rfl hp ?_)
      refine wp_mark ho fun hs => wp_mark hp fun hs' => hend ?_ ?_
      · have hkept := ptsOf_act_of_ne
          (a := .mark peer .readOut (d.maxPeerLocalID owner peer maxID) now) (u := owner)
          (by simpa [Act.owner] using Ne.symm hne)
        exact Prod.ext ((hkept _).trans (ptsOf_mark hs)).symm (ptsOf_mark hs').symm
      · have hout := hin.append
          (Did.side (o := .advanceReadOutbox peer .user owner (d.maxPeerLocalID owner peer maxID))
            rfl)
        rw [readActs, if_neg hne]
        exact (hout.append (Did.mark hs (.inl rfl))).append (Did.mark hs' (.inr rfl))

end TelegramServer.Store
