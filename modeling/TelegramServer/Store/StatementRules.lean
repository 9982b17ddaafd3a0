import TelegramServer.Store.Spec

/-!
# Proof rules for the store's statements

Each statement helper of the store, under the locks it is used with, and the
groups of statements that make up one act.
-/

namespace TelegramServer.Store

open Tx Tx.Table Tx.Locking List
open Lock (owner)

variable {m' : Message} {o : Write} {pt : PeerType} {e : StoreErr} {c peer pts unread : Int}
  {A : Type} {G : Ctx DB Lock} {w : DB}

/-- What is to hold of an answer, the locks and the tables. -/
abbrev Post (A : Type) := A → Ctx DB Lock → DB → Prop

/-- A body, run from `d`, ends as it has to. -/
abbrev Meets {A : Type} (p : Body (Finish A)) (d : DB) (S : DB → A → DB → Prop) : Prop :=
  locking.wp p (.start Inv) d fun r _ w => Ends S d r w

/-! ## Reads under an owner's lock -/

variable {Q : Post Unit} {a : Act} {d : DB} {ids : List Int}
  {l now r u : Int} {m : Message} {q : DB → A}

theorem reads_ofOwner (hq : ∀ d : DB, q (d.ofOwner u) = q d) : locking.Reads q {owner u} := by
  intro v w _ h
  rw [← hq v, ← hq w, (h _ rfl : Stable (.owner u) v w).rows]

theorem wp_query_owner {Q : Post A} (hq : ∀ d : DB, q (d.ofOwner u) = q d)
    (hu : owner u ∈ G.held) (h : Q (q w) G w) : locking.wp (.query q : Body A) G w Q :=
  wp_query_of_reads (reads_ofOwner hq) (by simpa using hu) h

theorem held_of_guards {l : Lock} (ho : o.guards = [l]) (hl : l ∈ G.held) :
    ∀ l' ∈ o.guards, l' ∈ G.held := by
  intro l' hl'
  rw [ho, mem_singleton] at hl'
  exact hl' ▸ hl

theorem wp_exec_owner {Q : Post A}
    (hq : ∀ d : DB, q (d.ofOwner u) = q d) (hu : owner u ∈ G.held) (ho : o.guards = [.owner u])
    (h : Q (q w) G.wrote (o.apply w)) : locking.wp (.exec o q : Body A) G w Q :=
  wp_exec (reads_ofOwner hq) (by simpa using hu) (held_of_guards ho hu) h

theorem wp_exec_under {l : Lock} (ho : o.guards = [l]) (hl : l ∈ G.held)
    (h : Q () G.wrote (o.apply w)) : locking.wp (.exec_ o : Body Unit) G w Q :=
  wp_exec_ (held_of_guards ho hl) h

theorem DB.messageByOwnerLocal_ofOwner (d : DB) (u l : Int) :
    (d.ofOwner u).messageByOwnerLocal u l = d.messageByOwnerLocal u l := by
  simp only [DB.messageByOwnerLocal, DB.ofOwner, find?_filter]
  congr 1
  funext m
  by_cases h : m.ownerID = u <;> simp [Message.isAt, h]

theorem DB.messageByRandomID_ofOwner (d : DB) (u r : Int) :
    (d.ofOwner u).messageByRandomID u r = d.messageByRandomID u r := by
  simp only [DB.messageByRandomID, DB.ofOwner, find?_filter]
  congr 1
  funext m
  by_cases h : m.ownerID = u <;> simp [h]

theorem DB.newMessagePts_ofOwner (d : DB) (u l : Int) :
    (d.ofOwner u).newMessagePts u l = d.newMessagePts u l := by
  simp only [DB.newMessagePts, DB.ofOwner, find?_filter]
  congr 2
  funext e
  by_cases h : e.ownerID = u <;> simp [h]

theorem DB.dialog_ofOwner (d : DB) (u : Int) (pt : PeerType) (peer : Int) :
    (d.ofOwner u).dialog u pt peer = d.dialog u pt peer := by
  simp only [DB.dialog, DB.ofOwner, find?_filter]
  congr 1
  funext g
  by_cases h : g.ownerID = u <;> simp [Dialog.isFor, h]

theorem DB.isBlocked_ofOwner (d : DB) (u v : Int) : (d.ofOwner u).isBlocked u v = d.isBlocked u v :=
  any_filter_of_imp (by simp +contextual [Block.isFor])

theorem wp_lockOwners (ha : (∀ u ∈ ids, owner u ∈ G.held) ∨ ∀ l ∈ G.held, l.tier < 2)
    (h : Q () (G.lock {l | ∃ u ∈ ids, l = .owner u}) w) : locking.wp (lockOwners ids) G w Q := by
  refine wp_lockAll ?_ (fun l hl => ?_) (fun l hl => ?_) ?_
  · refine pairwise_map.mpr ((ascendingUnique_pairwise ids).imp fun hlt => ?_)
    exact .inr ⟨rfl, hlt⟩
  · obtain ⟨u, -, rfl⟩ := mem_map.mp hl
    exact not_false
  · obtain ⟨u, hu, rfl⟩ := mem_map.mp hl
    exact ha.imp (fun h => h u (mem_ascendingUnique.mp hu)) fun h l' hl' => .inl (h l' hl')
  have hset : {l | l ∈ (ascendingUnique ids).map owner} = {l | ∃ u ∈ ids, l = .owner u} := by
    ext l
    simp [eq_comm]
  rwa [hset]

theorem ascends_row {H : Set Lock} {l : Lock} {b : Bool} (hl : ¬ l.drawnOnly)
    (h : l ∈ H ∨ ∀ l' ∈ H, l'.below l) : locking.Ascends H (if b then [l] else []) := by
  cases b
  · exact locking.ascends_nil H
  · refine ⟨by simp, fun l' hl' => ?_, fun l' hl' => ?_⟩
    · rw [mem_singleton.mp hl']
      exact h
    · rw [mem_singleton.mp hl']
      exact hl

theorem wp_lockFiles (hids : ids.Pairwise (· < ·))
    (ha : ∀ l ∈ G.held, ∀ id ∈ ids, l.below (.file id))
    (h : ∀ files : List Int, Q () (G.lock {l | ∃ id ∈ files, l = .file id}) w) :
    locking.wp (lockFiles ids) G w Q := by
  induction ids generalizing G with
  | nil => simpa [lockFiles] using h []
  | cons id ids ih =>
    obtain ⟨hid, hids⟩ := pairwise_cons.mp hids
    refine wp_bind (wp_queryForUpdate (fun v => ?_) fun v _ => ?_)
    · exact ascends_row not_false (.inr fun l hl => ha l hl id (by simp))
    refine wp_bind (wp_orFail fun file hfile => ih hids ?_ fun files => ?_)
    · rintro l (hl | hl) id' hid'
      · exact ha l hl id' (by simp [hid'])
      · obtain rfl : l = .file id := by simpa [hfile] using hl
        exact .inr ⟨rfl, hid id' hid'⟩
    · have hset : {l | l ∈ if (v.fileByID id).isSome then [Lock.file id] else []} ∪
          {l | ∃ id ∈ files, l = .file id} = {l | ∃ f ∈ id :: files, l = .file f} := by
        ext l
        simp [hfile]
      rw [Ctx.lock_lock, hset]
      exact h (id :: files)

theorem wp_lockFileRefs (ha : ∀ l ∈ G.held, l.tier < 4)
    (h : ∀ files : List Int, Q () (G.lock {l | ∃ id ∈ files, l = .file id}) w) :
    locking.wp (lockFileRefs ids) G w Q :=
  wp_lockFiles (ascendingUnique_pairwise _) (fun l hl _ _ => .inl (ha l hl)) h

theorem wp_messageOrFail {Q : Post Message}
    (hu : owner u ∈ G.held) (h : ∀ m, w.messageByOwnerLocal u l = some m → Q m G w) :
    locking.wp (messageOrFail e u l) G w Q := by
  refine wp_bind (wp_query_owner (u := u) (fun d => d.messageByOwnerLocal_ofOwner u l) hu ?_)
  exact wp_orFail h

theorem wp_newMessagePts {Q : Post Int} (hu : owner u ∈ G.held)
    (h : ∀ pts, w.newMessagePts u l = some pts → Q pts G w) :
    locking.wp (newMessagePts u l) G w Q := by
  refine wp_bind (wp_query_owner (u := u) (fun d => d.newMessagePts_ofOwner u l) hu ?_)
  exact wp_orFail h

theorem wp_newMessagePts_any {Q : Post Int} (h : ∀ pts, Q pts G w) :
    locking.wp (newMessagePts u l) G w Q := by
  refine wp_bind (wp_query fun v _ => ?_)
  exact wp_orFail fun pts _ => h pts

theorem wp_dedupRow {Q : Post (Option Message)} (hu : owner u ∈ G.held)
    (h : Q (w.messageByRandomID u r) G w) : locking.wp (dedupRow u r) G w Q := by
  unfold dedupRow
  split
  · exact wp_query_owner (u := u) (fun d => d.messageByRandomID_ofOwner u r) hu h
  · rename_i hr
    have hnone : w.messageByRandomID u r = none := by
      have hr : r = 0 := not_not.mp hr
      simp +contextual [DB.messageByRandomID, hr]
    rwa [hnone] at h

theorem wp_getState {Q : Post (Option UpdateState)}
    (hu : owner u ∈ G.held) (h : Q (w.getState u) G w) :
    locking.wp (.query (·.getState u) : Body _) G w Q :=
  wp_query_owner (u := u) (fun d => d.getState_ofOwner u) hu h

/-- A row read before its owner's lock: it is still there in every later view. -/
theorem wp_messageOrFail_saw {Q : Post Message}
    (h : ∀ v m, locking.View G ∅ v w → v.messageByOwnerLocal u l = some m → Q m (G.saw Grows v) w) :
    locking.wp (messageOrFail e u l) G w Q := by
  refine wp_bind (wp_query_saw fun v hv => ?_)
  exact wp_orFail fun m hm => h v m hv hm

theorem mem_chatMembers : u ∈ (d.chatParticipants c).map (·.userID) ↔ d.isChatMember c u := by
  simp only [DB.chatParticipants, DB.isChatMember, mem_map, mem_insertionSort,
    mem_filter, decide_eq_true_eq, any_eq_true, Participant.isFor, Bool.decide_and,
    Bool.and_eq_true, and_assoc]

/-- Members read outside the chat's lock: right about the owners that are locked. -/
theorem wp_chatMembers_locked {Q : Post (List Int)} (hG : ∀ x, G.seen x → x.hasChat c)
    (h : ∀ members, (∀ u, owner u ∈ G.held → (u ∈ members ↔ w.isChatMember c u)) →
      Q members G w) : locking.wp (chatMembers c) G w Q := by
  refine wp_query fun v hv => h _ fun u hu => ?_
  have hstable : Stable (.owner u) v w := hv.stable _ (Or.inl hu)
  rw [mem_chatMembers, hstable.members (hG v hv.seen)]

theorem wp_ensureUpdateState (hu : owner u ∈ G.held)
    (h : Q () G.wrote ((Act.ensure u now).apply w)) : locking.wp (ensureUpdateState now u) G w Q :=
  wp_exec_under rfl hu h

theorem wp_bumpState {Q : Post (Int × Int)} (hu : owner u ∈ G.held)
    (h : (w.getState u).isSome → Q (w.ptsOf u + 1, w.nextOf u) G.wrote
      ((Write.bumpState u now).apply w)) :
    locking.wp (bumpState now u) G w Q := by
  refine wp_bind (wp_exec_owner (u := u) (fun d => d.getState_ofOwner u) hu rfl ?_)
  refine wp_bind (wp_orFail fun s hs => ?_)
  simpa [DB.ptsOf, DB.nextOf, hs] using h

theorem wp_bumpPtsOnly {Q : Post Int} (hu : owner u ∈ G.held)
    (h : (w.getState u).isSome → Q (w.ptsOf u + 1) G.wrote ((Write.bumpPtsOnly u now).apply w)) :
    locking.wp (bumpPtsOnly now u) G w Q := by
  refine wp_bind (wp_exec_owner (u := u) (fun d => d.getState_ofOwner u) hu rfl ?_)
  refine wp_bind (wp_orFail fun s hs => ?_)
  simpa [DB.ptsOf, hs] using h

theorem wp_insertMessage (hu : owner m.ownerID ∈ G.held)
    (hf : m.fanoutID ≠ 0 → Lock.fanout m.fanoutID ∈ G.held)
    (h : Q () G.wrote ((Write.insertMessage m).apply w)) : locking.wp (insertMessage m) G w Q := by
  refine wp_exec_ (fun l hl => ?_) h
  simp only [locking, Write.guards, Write.owner, Write.chat, Write.fanout, Write.poll] at hl
  by_cases h0 : m.fanoutID = 0
  · obtain rfl : l = .owner m.ownerID := by simpa [h0] using hl
    exact hu
  · obtain rfl | rfl : l = .owner m.ownerID ∨ l = .fanout m.fanoutID := by simpa [h0] using hl
    · exact hu
    · exact hf h0

theorem wp_insertEvent {type : EventType} (hu : owner u ∈ G.held)
    (h : Q () G.wrote ((Write.insertEvent ⟨u, pts, type, l⟩).apply w)) :
    locking.wp (insertEvent u pts type l) G w Q :=
  wp_exec_under rfl hu h

theorem wp_upsertDialog {top : Int} (hu : owner u ∈ G.held)
    (h : Q () G.wrote ((Write.upsertDialog u pt peer top unread).apply w)) :
    locking.wp (upsertDialog u pt peer top unread) G w Q :=
  wp_exec_under rfl hu h

theorem wp_post {B : Type} {r : Int → Message} {k : Int × Int → Body B} {Q : Post B}
    (hrow : ∀ l, (r l).ownerID = u ∧ (r l).localID = l ∧ (r l).peerType = pt ∧ (r l).peerID = peer)
    (hu : owner u ∈ G.held) (hf : ∀ l, (r l).fanoutID ≠ 0 → Lock.fanout (r l).fanoutID ∈ G.held)
    (h : (w.getState u).isSome → locking.wp (k (w.ptsOf u + 1, w.nextOf u)) G.wrote
      ((Act.post (r (w.nextOf u)) unread now).apply w) Q) :
    locking.wp (do
      let b ← bumpState now u
      insertMessage (r b.2)
      insertEvent u b.1 .newMessage b.2
      upsertDialog u pt peer b.2 unread
      k b) G w Q := by
  obtain ⟨h1, h2, h3, h4⟩ := hrow (w.nextOf u)
  refine wp_bind (wp_bumpState hu fun hs => ?_)
  refine wp_bind (wp_insertMessage (by simpa [h1] using hu) (hf _) ?_)
  refine wp_bind (wp_insertEvent hu ?_)
  refine wp_bind (wp_upsertDialog hu ?_)
  have hgoal := h hs
  simp only [Act.apply, Act.writes, h1, h2, h3, h4] at hgoal
  exact hgoal

theorem wp_editCopy {text : String} {Q : Post Int} (hu : owner u ∈ G.held)
    (h : (w.getState u).isSome → Q (w.ptsOf u + 1) G.wrote ((Act.edit u l text now).apply w)) :
    locking.wp (editCopy now text u l) G w Q := by
  refine wp_bind (wp_exec_under rfl hu ?_)
  refine wp_bind (wp_bumpPtsOnly hu fun hs => ?_)
  exact wp_bind (wp_insertEvent hu (h hs))

theorem getState_act_of_ne (h : a.owner ≠ some u) (d : DB) :
    (a.apply d).getState u = d.getState u := by
  rw [← DB.getState_ofOwner, ofOwner_act_of_ne h, DB.getState_ofOwner]

theorem ptsOf_act_of_ne (h : a.owner ≠ some u) (d : DB) : (a.apply d).ptsOf u = d.ptsOf u := by
  rw [DB.ptsOf, getState_act_of_ne h, DB.ptsOf]

theorem nextOf_act_of_ne (h : a.owner ≠ some u) (d : DB) : (a.apply d).nextOf u = d.nextOf u := by
  rw [DB.nextOf, getState_act_of_ne h, DB.nextOf]

theorem DB.messageByOwnerLocal_some (h : d.messageByOwnerLocal u l = some m) :
    m ∈ d.messages ∧ m.ownerID = u ∧ m.localID = l := by
  have hat := find?_some h
  simp only [Message.isAt, Bool.decide_and, Bool.and_eq_true, decide_eq_true_eq] at hat
  exact ⟨mem_of_find?_eq_some h, hat⟩

theorem DB.messageByRandomID_some (h : d.messageByRandomID u r = some m) :
    m ∈ d.messages ∧ m.ownerID = u ∧ m.randomID = r ∧ r ≠ 0 := by
  have hat := find?_some h
  simp only [Bool.decide_and, Bool.and_eq_true, decide_eq_true_eq] at hat
  obtain ⟨h1, h2, h3⟩ := hat
  exact ⟨mem_of_find?_eq_some h, h1, h2, h2 ▸ h3⟩

theorem unsent_of_messageByRandomID (h : d.messageByRandomID u r = none) : Unsent d u r := by
  intro hr m hm hu heq
  have := find?_eq_none.mp h m hm
  simp [hu, heq, hr] at this

theorem DB.newMessagePts_some (h : d.newMessagePts u l = some pts) :
    ⟨u, pts, .newMessage, l⟩ ∈ d.events := by
  simp only [DB.newMessagePts, Option.map_eq_some_iff] at h
  obtain ⟨e, he, rfl⟩ := h
  have hat := find?_some he
  simp only [Bool.decide_and, Bool.and_eq_true, decide_eq_true_eq] at hat
  obtain ⟨rfl, rfl, ht⟩ := hat
  have hmem := mem_of_find?_eq_some he
  rw [← ht]
  exact hmem

theorem Grows.row {d' : DB} (h : Grows d d') (hm : m ∈ d.messages) :
    ∃ m' ∈ d'.messages, m'.frozen = m.frozen := by
  have : m.frozen ∈ d'.messages.map Message.frozen := h.messages.subset (mem_map_of_mem hm)
  exact mem_map.mp this

theorem Message.isAt_iff : Message.isAt u l m ↔ m.ownerID = u ∧ m.localID = l := by
  simp [Message.isAt]

structure Message.Kept (m m' : Message) : Prop where
  ownerID : m.ownerID = m'.ownerID
  localID : m.localID = m'.localID
  peerType : m.peerType = m'.peerType
  peerID : m.peerID = m'.peerID
  randomID : m.randomID = m'.randomID
  peerLocalID : m.peerLocalID = m'.peerLocalID
  fanoutID : m.fanoutID = m'.fanoutID
  action : m.action = m'.action
  actionUserID : m.actionUserID = m'.actionUserID

theorem Message.kept (h : m.frozen = m'.frozen) : m.Kept m' := by
  cases m
  cases m'
  cases h
  constructor <;> rfl

theorem Message.Kept.isAt (h : m.Kept m') : Message.isAt m'.ownerID m'.localID m :=
  Message.isAt_iff.mpr ⟨h.ownerID, h.localID⟩

theorem row_unique (h : ∀ u, LogOk u (d.ofOwner u)) (hm : m ∈ d.messages)
    (hm' : m' ∈ d.messages) (hu : m.ownerID = m'.ownerID) (hl : m.localID = m'.localID) : m = m' :=
  (h m'.ownerID).messages.eq_of_num (mem_filter.mpr ⟨hm, by simpa using hu⟩)
    (mem_filter.mpr ⟨hm', by simp⟩) hl

theorem localID_lt_nextOf (hlogs : ∀ u, LogOk u (d.ofOwner u)) {x : Message} (hx : x ∈ d.messages) :
    1 ≤ x.localID ∧ x.localID < d.nextOf x.ownerID := by
  have hmem : x ∈ (d.ofOwner x.ownerID).messages := mem_filter.mpr ⟨hx, by simp⟩
  have hnum := (hlogs x.ownerID).messages.num_mem hmem
  rw [DB.nextOf_ofOwner] at hnum
  omega

end TelegramServer.Store
