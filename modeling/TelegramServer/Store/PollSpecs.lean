import TelegramServer.Store.MessageSpecs

/-!
# The poll transactions meet their specifications

Votes and the closing of a poll write to the poll alone, under its row lock, which
they take behind the owners' locks of the message copies.
-/

namespace TelegramServer.Store

open Tx Tx.Table Tx.Locking List
open Lock (owner)

variable {G : Ctx DB Lock} {w : DB} {A : Type} {Q : Post Unit}
  {clock creatorID p poll viewerID voter : Int} {copies : List Message} {d : DB} {msg : Message}
  {o : Write} {options : List Bytes} {ref : PollMessageRef} {row : Poll} {answers : List PollAnswer}
  {hasVote : Bool} {id l u : Int} {ls : Set Lock} {m : Message} {position : Nat} {q : DB → A}
  {v : DB}

/-! ## Access -/

theorem wp_validatePollRef (h : Q () G w) : locking.wp (validatePollRef viewerID ref) G w Q := by
  unfold validatePollRef
  split
  · trivial
  split
  · split
    · trivial
    · exact h
  · exact h
  · trivial

theorem wp_pollPeerAccess (h : Q () G w) : locking.wp (pollPeerAccess viewerID ref) G w Q := by
  refine wp_bind (wp_validatePollRef ?_)
  split
  · exact h
  refine wp_bind (wp_query fun v _ => ?_)
  split
  · trivial
  · exact h

theorem wp_pollMember (h : Q () G w) : locking.wp (pollMember viewerID ref) G w Q := by
  unfold pollMember
  split
  · refine wp_bind (wp_query fun v _ => ?_)
    split
    · trivial
    · exact h
  · exact h

theorem live_of_pollMessageMatches (h : pollMessageMatches msg ref) : msg.deleted = false := by
  unfold pollMessageMatches at h
  split at h
  · simp at h
  · simp_all

theorem View.copyKeys (hv : locking.View G ls v w) (hm : m ∈ v.messages) (h0 : m.fanoutID ≠ 0) :
    v.copyKeys m.fanoutID = w.copyKeys m.fanoutID := by
  refine hv.settled (.fanout m.fanoutID) trivial fun hunused => ?_
  have hmem : (m.ownerID, m.localID) ∈ v.copyKeys m.fanoutID :=
    (DB.mem_copyKeys h0).mpr ⟨m, hm, rfl, rfl⟩
  simp [show v.copyKeys m.fanoutID = [] from hunused] at hmem

theorem View.row_of_owner (hv : locking.View G ls v w) :
    owner m.ownerID ∈ G.held → (m ∈ v.messages ↔ m ∈ w.messages) := by
  intro hu
  have hstable : OwnerStable m.ownerID v w := hv.stable _ (.inl hu)
  have hrows := congrArg DB.messages hstable.rows
  have hmem : ∀ d : DB, m ∈ d.messages ↔ m ∈ (d.ofOwner m.ownerID).messages := by
    simp [DB.ofOwner]
  rw [hmem v, hmem w, hrows]

structure LockedCopies (H : Set Lock) (d : DB) (copies : List Message) : Prop where
  live : ∃ c ∈ copies, c.deleted = false
  locked : ∀ c ∈ copies, owner c.ownerID ∈ H
  rows : ∀ c ∈ copies, ∃ m ∈ d.messages, Message.isAt c.ownerID c.localID m ∧ m.deleted = c.deleted

theorem wp_pollCopies {pre : Message} {Q : Post (List Message)}
    (hG : ∀ x, G.seen x → ∃ m ∈ x.messages, m.frozen = pre.frozen)
    (hchat : ref.peerType = .chat → pre.fanoutID ≠ 0 → ∀ copies : List Message,
      (∀ u l, (u, l) ∈ w.copyKeys pre.fanoutID → u ∈ copies.map (·.ownerID)) → Q copies G w)
    (huser : ref.peerType ≠ .chat → Q [pre] G w) : locking.wp (pollCopies ref pre) G w Q := by
  unfold pollCopies chatCopies
  split
  · rename_i ht
    split
    · trivial
    rename_i h0
    refine wp_bind (wp_query fun v hv => ?_)
    split
    · trivial
    obtain ⟨m, hm, hf⟩ := hG v hv.seen
    have hkept := Message.kept hf
    refine hchat ht h0 _ fun u l hk => ?_
    rw [← hkept.fanoutID, ← View.copyKeys hv hm (hkept.fanoutID.trans_ne h0), hkept.fanoutID,
      DB.mem_copyKeys h0] at hk
    obtain ⟨c, hc, hcf, rfl, -⟩ := hk
    exact mem_map_of_mem ((DB.mem_messagesByFanout h0).mpr ⟨hc, hcf⟩)
  · rename_i ht
    exact huser ht

theorem wp_chatCopies_locked {Q : Post (List Message)}
    (hkeys : ∀ u l, (u, l) ∈ w.copyKeys msg.fanoutID → owner u ∈ G.held) (hmsg : msg ∈ w.messages)
    (hown : owner msg.ownerID ∈ G.held) (hlive : msg.deleted = false)
    (h : ∀ copies, LockedCopies G.held w copies → Q copies G w) :
    locking.wp (chatCopies msg) G w Q := by
  unfold chatCopies
  split
  · trivial
  rename_i h0
  refine wp_bind (wp_query fun v hv => ?_)
  split
  · trivial
  have hmsgv : msg ∈ v.messages := (View.row_of_owner hv hown).mpr hmsg
  have hlocked : ∀ c ∈ v.messagesByFanout msg.fanoutID, owner c.ownerID ∈ G.held := by
    intro c hc
    obtain ⟨hc, hcf⟩ := (DB.mem_messagesByFanout h0).mp hc
    refine hkeys c.ownerID c.localID ?_
    rw [← View.copyKeys hv hmsgv h0]
    exact (DB.mem_copyKeys h0).mpr ⟨c, hc, hcf, rfl⟩
  refine h _ ⟨⟨msg, (DB.mem_messagesByFanout h0).mpr ⟨hmsgv, rfl⟩, hlive⟩, hlocked, fun c hc => ?_⟩
  exact ⟨c, (View.row_of_owner hv (hlocked c hc)).mp ((DB.mem_messagesByFanout h0).mp hc).1,
    Message.isAt_iff.mpr ⟨rfl, rfl⟩, rfl⟩

theorem wp_lockPollMessage {Q : Post (Message × List Message)} (hw : Inv w)
    (hfirst : ∀ l ∈ G.held, l.tier < 2)
    (h : ∀ r G', (∀ l ∈ G'.held, l.tier < 3) → LockedCopies G'.held w r.2 → Q r G' w) :
    locking.wp (lockPollMessage viewerID ref) G w Q := by
  refine wp_bind (wp_pollPeerAccess ?_)
  refine wp_bind (wp_messageOrFail_saw fun v pre hv hpre => ?_)
  obtain ⟨hmem, rfl, hl⟩ := DB.messageByOwnerLocal_some hpre
  split
  · trivial
  rename_i hmatch
  obtain ⟨m, hm, hf⟩ := (show Grows v w from hv.grows).row hmem
  have hkept := Message.kept hf
  have hml : m.localID = ref.localID := hkept.localID.trans hl
  have hmf : m.fanoutID = pre.fanoutID := hkept.fanoutID
  have htier : ∀ (ids : List Int), ∀ l ∈ ((G.saw Grows v).lock {l | ∃ u ∈ ids, l = .owner u}).held,
      l.tier < 3 := by
    rintro ids l (hl | ⟨u, -, rfl⟩)
    · exact (hfirst l hl).trans (by decide)
    · simp [Lock.tier]
  -- The row read under the lock is the one read before it, up to its text.
  have hsame : ∀ {msg : Message}, w.messageByOwnerLocal pre.ownerID ref.localID = some msg →
      msg = m := by
    intro msg hmsg
    obtain ⟨hmsg, hu, hl⟩ := DB.messageByOwnerLocal_some hmsg
    exact row_unique hw.logs hmsg hm (hu.trans hkept.ownerID.symm) (hl.trans hml.symm)
  refine wp_bind (wp_pollCopies (fun x hx => hx.2.row hmem) (fun hchat h0 copies hkeys => ?_)
    fun huser => ?_)
  · refine wp_bind (wp_lockOwners (.inr hfirst) ?_)
    have hlock : ∀ u l, (u, l) ∈ w.copyKeys pre.fanoutID →
        owner u ∈ ((G.saw Grows v).lock {l | ∃ u ∈ copies.map (·.ownerID), l = .owner u}).held :=
      fun u l hk => .inr ⟨u, hkeys u l hk, rfl⟩
    have hown := hlock _ _ ((DB.mem_copyKeys h0).mpr ⟨m, hm, hmf, Prod.ext hkept.ownerID rfl⟩)
    refine wp_bind (wp_messageOrFail hown fun msg hmsg => ?_)
    obtain rfl := hsame hmsg
    split
    · trivial
    rename_i hmatch'
    refine wp_bind (wp_pollMember ?_)
    refine wp_bind (wp_chatCopies_locked (hmf ▸ hlock) hm (hkept.ownerID ▸ hown)
      (live_of_pollMessageMatches (by simpa using hmatch')) fun copies hcopies => ?_)
    exact h _ _ (htier _) hcopies
  · refine wp_bind (wp_lockOwners (.inr hfirst) ?_)
    have hown : owner pre.ownerID ∈
        ((G.saw Grows v).lock {l | ∃ u ∈ [pre].map (·.ownerID), l = .owner u}).held :=
      .inr ⟨pre.ownerID, by simp, rfl⟩
    refine wp_bind (wp_messageOrFail hown fun msg hmsg => ?_)
    obtain rfl := hsame hmsg
    split
    · trivial
    rename_i hmatch'
    refine wp_bind (wp_pollMember ?_)
    have hlive : pre.deleted = false := live_of_pollMessageMatches (by simpa using hmatch)
    have hlive' : msg.deleted = false := live_of_pollMessageMatches (by simpa using hmatch')
    refine h _ _ (htier _) ⟨⟨pre, by simp, hlive⟩, fun c hc => ?_, fun c hc => ?_⟩
    · rw [mem_singleton.mp hc]
      exact hown
    · rw [mem_singleton.mp hc]
      exact ⟨msg, hm, Message.isAt_iff.mpr ⟨hkept.ownerID, hml.trans hl.symm⟩,
        hlive'.trans hlive.symm⟩

theorem wp_pollOfMessage {Q : Post Poll} (h : ∀ p, Q p G w) :
    locking.wp (pollOfMessage viewerID ref) G w Q :=
  wp_bind (wp_query fun _ _ => wp_orFail fun p _ => h p)

theorem DB.pollByID_some {p : Poll} (h : d.pollByID id = some p) : d.hasPoll id ∧ p.id = id := by
  have hid := find?_some h
  exact ⟨any_eq_true.mpr ⟨p, mem_of_find?_eq_some h, hid⟩, by simpa using hid⟩

theorem reads_ofPoll (hq : ∀ d : DB, q (d.ofPoll p) = q d) : locking.Reads q {Lock.poll p} := by
  intro v w _ h
  rw [← hq v, ← hq w, show v.ofPoll p = w.ofPoll p from h _ rfl]

theorem wp_query_poll {Q : Post A} (hq : ∀ d : DB, q (d.ofPoll p) = q d) (hp : Lock.poll p ∈ G.held)
    (h : Q (q w) G w) : locking.wp (.query q : Body A) G w Q :=
  wp_query_of_reads (reads_ofPoll hq) (by simpa using hp) h

namespace DB

theorem pollByID_ofPoll (d : DB) (p : Int) : (d.ofPoll p).pollByID p = d.pollByID p := by
  simp only [DB.pollByID, DB.ofPoll, find?_filter]
  congr 1
  funext x
  simp

theorem pollIsClosed_ofPoll (d : DB) (p clock : Int) :
    (d.ofPoll p).pollIsClosed p clock = d.pollIsClosed p clock := by
  rw [DB.pollIsClosed, pollByID_ofPoll, DB.pollIsClosed]

theorem pollVoterCount_ofPoll (d : DB) (p : Int) :
    (d.ofPoll p).pollVoterCount p = d.pollVoterCount p := by
  simp [DB.pollVoterCount, DB.ofPoll, filter_filter]

theorem hasPollVote_ofPoll (d : DB) (p voter : Int) :
    (d.ofPoll p).hasPollVote p voter = d.hasPollVote p voter :=
  any_filter_of_imp (by simp +contextual [PollVote.isFor])

theorem filter_votes_ofPoll (d : DB) (p : Int) {q : PollVoteOption → Bool}
    (hq : ∀ v, q v → v.pollID = p) :
    (d.ofPoll p).pollVoteOptions.filter q = d.pollVoteOptions.filter q := by
  simp only [DB.ofPoll, filter_filter]
  refine filter_congr fun v _ => ?_
  by_cases h : q v
  · simp [h, hq v h]
  · simp [h]

theorem pollVoteOptionsByVoter_ofPoll (d : DB) (p voter : Int) :
    (d.ofPoll p).pollVoteOptionsByVoter p voter = d.pollVoteOptionsByVoter p voter := by
  rw [DB.pollVoteOptionsByVoter,
    filter_votes_ofPoll d p (by simp +contextual [PollVoteOption.isFor]), DB.pollVoteOptionsByVoter]

theorem pollOptionResults_ofPoll (d : DB) (p viewer : Int) :
    (d.ofPoll p).pollOptionResults p viewer = d.pollOptionResults p viewer := by
  have hoptions : (d.ofPoll p).pollOptions.filter (·.pollID = p) =
      d.pollOptions.filter (·.pollID = p) := by
    simp [DB.ofPoll, filter_filter]
  simp only [DB.pollOptionResults, hoptions]
  congr 1
  funext o
  rw [filter_votes_ofPoll d p (by simp +contextual)]
  congr 1
  exact any_filter_of_imp (by simp +contextual [PollVoteOption.isFor])

end DB

theorem wp_lockPoll {Q : Post Poll} (ha : ∀ l ∈ G.held, l.tier < 3)
    (h : ∀ p G', Lock.poll p.id ∈ G'.held → w.pollByID p.id = some p → Q p G' w) :
    locking.wp (lockPoll id) G w Q := by
  refine wp_bind (wp_queryForUpdate (fun v => ?_) fun v hv => ?_)
  · exact ascends_row not_false (.inr fun l hl => .inl (ha l hl))
  refine wp_orFail fun p hp => ?_
  obtain ⟨hhas, rfl⟩ := DB.pollByID_some hp
  have hlock : Lock.poll p.id ∈ G.held ∪ {l | l ∈ if v.hasPoll p.id then [.poll p.id] else []} :=
    .inr (by simp [hhas])
  refine h p _ hlock ?_
  have hread : v.pollByID p.id = w.pollByID p.id :=
    reads_ofPoll (q := (·.pollByID p.id)) (fun d => d.pollByID_ofPoll p.id) v w hv.grows
      fun l hl => hv.stable l (hl ▸ hlock)
  rw [← hread, hp]

theorem wp_pollIsClosed {Q : Post Bool} (hp : Lock.poll poll ∈ G.held)
    (h : ∀ b, w.pollIsClosed poll clock = some b → Q b G w) :
    locking.wp (pollIsClosed clock poll) G w Q :=
  wp_bind (wp_query_poll (fun d => d.pollIsClosed_ofPoll poll clock) hp (wp_orFail h))

theorem wp_pollView {Q : Post PollView} (hp : Lock.poll row.id ∈ G.held)
    (h : ∀ view, w.pollView clock row viewerID = some view → Q view G w) :
    locking.wp (pollView clock row viewerID) G w Q := by
  refine wp_bind (wp_pollIsClosed hp fun closed hclosed => ?_)
  refine wp_bind (wp_query_poll (fun d => d.pollVoterCount_ofPoll row.id) hp ?_)
  refine wp_bind (wp_query_poll (fun d => d.hasPollVote_ofPoll row.id viewerID) hp ?_)
  refine wp_bind (wp_query_poll (fun d => d.pollOptionResults_ofPoll row.id viewerID) hp ?_)
  exact h _ (by rw [DB.pollView, hclosed, Option.map_some])

theorem wp_pollView_any {Q : Post PollView} (h : ∀ view, Q view G w) :
    locking.wp (pollView clock row viewerID) G w Q := by
  refine wp_bind (wp_bind (wp_query fun v _ => wp_orFail fun b _ => ?_))
  refine wp_bind (wp_query fun v _ => ?_)
  refine wp_bind (wp_query fun v _ => ?_)
  exact wp_bind (wp_query fun v _ => h _)

/-! ## Votes -/

theorem wp_exec_poll {Q : Post A} (hq : ∀ d : DB, q (d.ofPoll p) = q d) (ho : o.guards = [.poll p])
    (hp : Lock.poll p ∈ G.held) (h : Q (q w) G.wrote (o.apply w)) :
    locking.wp (.exec o q : Body A) G w Q :=
  wp_exec (reads_ofPoll hq) (by simpa using hp) (held_of_guards ho hp) h

theorem wp_pollRow (ho : o.guards = [.poll p]) (hp : Lock.poll p ∈ G.held)
    (h : Q () G.wrote (o.apply w)) : locking.wp (.exec_ o : Body Unit) G w Q :=
  wp_exec_poll (fun _ => rfl) ho hp h

theorem wp_insertPollVoteOptions (hp : Lock.poll poll ∈ G.held)
    (h : Q () G.wrote (locking.replay (options.map (.insertPollVoteOption poll voter)) w)) :
    locking.wp (insertPollVoteOptions poll voter options) G.wrote w Q := by
  induction options generalizing w with
  | nil => exact h
  | cons option options ih =>
    exact wp_bind (wp_pollRow (p := poll) rfl hp (ih h))

theorem wp_savePollVote (hp : Lock.poll poll ∈ G.held)
    (h : ∀ G', G'.held = G.held → Q () G'
      (locking.replay (voteWrites poll voter hasVote options) w)) :
    locking.wp (savePollVote poll voter hasVote options) G w Q := by
  unfold savePollVote
  unfold voteWrites at h
  split
  · rename_i hnil
    rw [if_pos hnil] at h
    split
    · rename_i hvote
      rw [if_pos hvote] at h
      exact wp_pollRow (p := poll) rfl hp (h _ rfl)
    · rename_i hvote
      rw [if_neg hvote] at h
      exact h G rfl
  rename_i hsome
  rw [if_neg hsome] at h
  refine wp_bind (wp_pollRow (p := poll) rfl hp ?_)
  refine wp_bind (wp_pollRow (p := poll) rfl hp ?_)
  exact wp_insertPollVoteOptions (G := G) hp (h _ rfl)

theorem poll_of_mem_voteWrites (ho : o ∈ voteWrites poll voter hasVote options) :
    o.poll = some poll := by
  unfold voteWrites at ho
  split at ho
  · split at ho
    · rw [mem_singleton.mp ho]
      rfl
    · simp at ho
  · simp only [mem_cons, mem_map] at ho
    rcases ho with rfl | rfl | ⟨o, -, rfl⟩
    · rfl
    · rfl
    · rfl

theorem ok_of_poll (ho : o.poll.isSome) (d : DB) : (Act.side o).Ok d := by
  cases o <;> first | rfl | exact absurd ho (by simp [Write.poll])

theorem Did.polls {os : List Write} (h : ∀ o ∈ os, o.poll.isSome) (w : DB) :
    Did (os.map .side) w (locking.replay os w) := by
  induction os generalizing w with
  | nil => exact Did.nil w
  | cons o os ih =>
    have hfirst : Did [.side o] w (o.apply w) := Did.side (ok_of_poll (h o (by simp)) w)
    exact hfirst.append (ih (fun o' ho' => h o' (by simp [ho'])) (o.apply w))

theorem wp_castPollVote (times : VoteTimes) (viewerID : Int) (ref : PollMessageRef)
    (selected : List Bytes) (hd : Inv d) :
    locking.wp (castPollVote times viewerID ref selected) (.start Inv) d
      fun r _ w => Ends (CastSpec times viewerID selected) d r w := by
  refine wp_bind (wp_validatePollRef ?_)
  refine wp_bind (wp_bind (wp_lockPollMessage hd (by simp) fun _ G hG _ => ?_))
  refine wp_bind (wp_pollOfMessage fun row => wp_lockPoll hG fun poll H hp hpoll => ?_)
  refine wp_bind (wp_orFail fun options hoptions => ?_)
  refine wp_bind (wp_query_poll (fun d => d.hasPollVote_ofPoll poll.id viewerID) hp ?_)
  refine wp_bind (wp_query_poll (fun d => d.pollVoteOptionsByVoter_ofPoll poll.id viewerID) hp ?_)
  split
  · refine wp_bind (wp_pollView hp fun view hview => ?_)
    exact ⟨poll, options, [], hpoll, hoptions, hview, Did.nil d, .inl ⟨rfl, ‹_›⟩⟩
  refine wp_bind (wp_pollIsClosed hp fun closed hclosed => ?_)
  split
  · trivial
  rename_i hopen
  split
  · trivial
  rename_i hsingle
  refine wp_bind (wp_query_poll (fun d => d.pollOptionResults_ofPoll poll.id viewerID) hp ?_)
  split
  · trivial
  rename_i hknown
  split
  · trivial
  rename_i hrevote
  refine wp_bind (wp_savePollVote hp fun G' hG' => ?_)
  refine wp_bind (wp_pollView (hG' ▸ hp) fun view hview => ?_)
  refine ⟨poll, options, _, hpoll, hoptions, hview,
    Did.polls (fun o ho => poll_of_mem_voteWrites ho ▸ rfl) d,
      .inr ⟨⟨?_, fun hlen => ?_, fun o ho => ?_, fun hno => ?_⟩, rfl⟩⟩
  · rw [hclosed, Bool.not_eq_true _ |>.mp hopen]
  · by_contra hmany
    exact hsingle ⟨hlen, Bool.not_eq_true _ |>.mp hmany⟩
  · by_contra hnot
    exact hknown (any_eq_true.mpr ⟨o, ho, by simpa using hnot⟩)
  · by_contra hvote
    exact hrevote (by simp [hno, Bool.not_eq_false _ |>.mp hvote])

theorem wp_closePoll (callerID : Int) (ref : PollMessageRef) (hd : Inv d) :
    Meets (closePoll callerID ref) d ClosePollSpec := by
  refine wp_bind (wp_validatePollRef ?_)
  refine wp_bind (wp_lockPollMessage hd (by simp) fun _ G hG _ => ?_)
  refine wp_bind (wp_pollOfMessage fun row => ?_)
  split
  · trivial
  refine wp_bind (wp_lockPoll hG fun poll H hp hpoll => ?_)
  split
  · exact ⟨poll, hpoll, .inl ⟨‹_›, rfl, rfl⟩⟩
  rename_i hopen
  refine wp_bind (wp_exec_poll (p := poll.id) (fun d => ?_) rfl hp ?_)
  · simp only [DB.ofPoll, filter_filter]
    congr 2
    funext p
    by_cases h : p.id = poll.id <;> simp [h]
  · exact ⟨poll, hpoll, .inr ⟨by simpa using hopen, Did.side (ok_of_poll rfl d)⟩⟩

theorem wp_pollForMessage (clock viewerID : Int) (ref : PollMessageRef) (d : DB) :
    Meets (pollForMessage clock viewerID ref) d fun d _ w => w = d := by
  refine wp_bind (wp_validatePollRef ?_)
  refine wp_bind (wp_bind (wp_query fun v _ => ?_))
  split
  · exact rfl
  · trivial

/-! ## Creation -/

theorem wp_lockPollChat {Q : Post (Option Chat)}
    (h : ∀ chat G', (∀ l ∈ G'.held, l.tier < 2) → Q chat G' w) :
    locking.wp (lockPollChat creatorID ref) (.start Inv) w Q := by
  unfold lockPollChat
  split
  · refine wp_bind (wp_pollPeerAccess ?_)
    refine wp_bind (wp_queryForUpdate (fun v => ?_) fun v _ => ?_)
    · exact ascends_row not_false (.inr (by simp))
    refine wp_bind (wp_orFail fun chat _ => h _ _ fun l hl => ?_)
    rcases hl with hl | hl
    · simp at hl
    · obtain ⟨-, rfl⟩ : _ ∧ l = .chat ref.peerID := by simpa using hl
      simp [Lock.tier]
  · exact h none _ (by simp)

theorem wp_pollByCreatorRandomID {randomID : Int} {Q : Post (Option Poll)}
    (h : ∀ p, Q p G w) : locking.wp (pollByCreatorRandomID creatorID randomID) G w Q := by
  unfold pollByCreatorRandomID
  split
  · exact wp_query fun v _ => h _
  · exact h none

theorem wp_insertPollRow {Q : Post Bool} (ha : ∀ l ∈ G.held, l.tier < 3)
    (hdup : Q false G w) (hnew : ∀ G', G'.held = G.held ∪ {Lock.poll row.id} →
      w.hasPoll row.id = false → Q true G' ((Write.insertPoll row).apply w)) : locking.wp
        (insertPollRow row) G w Q := by
  intro v hv
  dsimp only at hv ⊢
  cases hconflict : v.pollConflict row with
  | true =>
    have hset : {l | l ∈ ([] : List Lock)} = ∅ := by simp
    simp only [if_true, hset, Set.union_empty]
    exact ⟨locking.ascends_nil _, covered_nil _, G.seen, fun x hx => hx.1 rfl, hdup⟩
  | false =>
    have hset : {l | l ∈ [Lock.poll row.id]} = {Lock.poll row.id} := by simp
    simp only [hconflict, Bool.false_eq_true, if_false, hset] at hv ⊢
    have habsent : v.hasPoll row.id = w.hasPoll row.id :=
      reads_ofPoll (q := (·.hasPoll row.id)) (fun d => d.hasPoll_ofPoll row.id) v w hv.grows
        fun l hl => hv.stable l (.inr hl)
    refine ⟨ascends_row (b := true) not_false (.inr fun l hl => .inl (ha l hl)), ?_, fun _ => True,
      fun _ _ => trivial, hnew _ rfl ?_⟩
    · intro o ho l hl
      rw [mem_singleton.mp ho] at hl
      exact .inr (by
        simpa [locking, Write.guards, Write.owner, Write.chat, Write.fanout, Write.poll] using hl)
    · rw [← habsent]
      simp only [DB.pollConflict, Bool.or_eq_false_iff] at hconflict
      exact hconflict.1

theorem wp_insertPoll {row : Int → Poll} {ids : List Int}
    {Q : Post (Poll × Bool)} (hrow : ∀ id, (row id).id = id)
    (ha : ∀ l ∈ G.held, l.tier < 3) (hdup : ∀ p, Q (p, false) G w)
    (hnew : ∀ id G', G'.held = G.held ∪ {Lock.poll id} → w.hasPoll id = false →
      Q (row id, true) G' ((Write.insertPoll (row id)).apply w)) :
    locking.wp (insertPoll row ids) G w Q := by
  induction ids with
  | nil => trivial
  | cons id ids ih =>
    refine wp_bind (wp_insertPollRow ha ?_ fun G' hG' habsent => ?_)
    · refine wp_bind (wp_pollByCreatorRandomID fun prior => ?_)
      cases prior with
      | some p => exact hdup p
      | none => exact ih
    · rw [hrow] at hG' habsent
      exact hnew id G' hG' habsent

/-- The options of a draft as rows, numbered from `position`. -/
def pollOptionRows (poll : Int) : Nat → List PollAnswer → List PollOption
  | _, [] => []
  | position, a :: answers =>
    ⟨poll, a.option, a.text, a.correct, position⟩ :: pollOptionRows poll (position + 1) answers

theorem pollID_of_mem_pollOptionRows {o : PollOption}
    (ho : o ∈ pollOptionRows poll position answers) : o.pollID = poll := by
  induction answers generalizing position with
  | nil => exact absurd ho (by simp [pollOptionRows])
  | cons a answers ih =>
    rcases mem_cons.mp ho with rfl | ho
    · rfl
    · exact ih ho

theorem pollOptionRows_option (poll : Int) (position : Nat) (answers : List PollAnswer) :
    (pollOptionRows poll position answers).map (·.option) = answers.map (·.option) := by
  induction answers generalizing position with
  | nil => rfl
  | cons a answers ih => simp [pollOptionRows, ih]

theorem wp_insertPollOptions (hp : Lock.poll poll ∈ G.held) (h : ∀ G', G'.held = G.held →
      Q () G' (locking.replay ((pollOptionRows poll position answers).map .insertPollOption) w)) :
    locking.wp (insertPollOptions poll position answers) G w Q := by
  induction answers generalizing G w position with
  | nil => exact h G rfl
  | cons a answers ih =>
    exact wp_bind (wp_pollRow (p := poll) rfl hp (ih (G := G.wrote) hp fun G' hG' => h G' hG'))

theorem DB.hasPollCopy_ofOwner (d : DB) (u l : Int) :
    (d.ofOwner u).hasPollCopy u l = d.hasPollCopy u l :=
  any_filter_of_imp (by simp +contextual [PollCopy.isAt])

theorem wp_insertPollMessageCopy {Q : Post Bool} (hu : owner u ∈ G.held)
    (hp : Lock.poll poll ∈ G.held) (hdup : Q false G.wrote w)
    (hnew : w.hasPollCopy u l = false →
      Q true G.wrote ((Write.insertPollMessageCopy u l poll).apply w)) :
    locking.wp (insertPollMessageCopy u l poll) G w Q := by
  refine wp_stmt_of_reads (fun v w hg hs => ?_) (by simp) (by simp) (fun o ho l' hl' => ?_) ?_
  · have hread : v.hasPollCopy u l = w.hasPollCopy u l :=
      reads_ofOwner (q := (·.hasPollCopy u l)) (fun d => d.hasPollCopy_ofOwner u l) v w hg
        fun l' hl' => hs l' (hl' ▸ hu)
    simp only [hread]
  · cases hcopy : w.hasPollCopy u l with
    | true => simp [hcopy] at ho
    | false =>
      obtain rfl : o = .insertPollMessageCopy u l poll := by simpa [hcopy] using ho
      obtain rfl | rfl : l' = .owner u ∨ l' = .poll poll := by
        simpa [locking, Write.guards, Write.owner, Write.chat, Write.fanout, Write.poll] using hl'
      · exact hu
      · exact hp
  · cases hcopy : w.hasPollCopy u l with
    | true => simpa [hcopy] using hdup
    | false => exact hnew hcopy

def liveKeys (copies : List Message) : Owned :=
  (copies.filter (!·.deleted)).map fun c => (c.ownerID, c.localID)

theorem mem_liveKeys {c : Message} (hc : c ∈ copies) (hlive : c.deleted = false) :
    (c.ownerID, c.localID) ∈ liveKeys copies :=
  mem_map.mpr ⟨c, mem_filter.mpr ⟨hc, by simp [hlive]⟩, rfl⟩

theorem exists_of_mem_liveKeys {k : Int × Int} (h : k ∈ liveKeys copies) :
    ∃ c ∈ copies, c.deleted = false ∧ (c.ownerID, c.localID) = k := by
  obtain ⟨c, hc, hk⟩ := mem_map.mp h
  obtain ⟨hc, hlive⟩ := mem_filter.mp hc
  exact ⟨c, hc, by simpa using hlive, hk⟩

theorem DB.hasPollCopy_link {u' l' : Int} :
    ((Write.insertPollMessageCopy u l poll).apply d).hasPollCopy u' l' =
      (d.hasPollCopy u' l' || (u = u' && l = l')) := by
  simp [Write.apply, DB.hasPollCopy, PollCopy.isAt]

theorem wp_linkPollCopies (hp : Lock.poll poll ∈ G.held)
    (hlock : ∀ c ∈ copies, owner c.ownerID ∈ G.held)
    (h : ∀ G', G'.held = G.held → (liveKeys copies).Nodup →
      (∀ k ∈ liveKeys copies, w.hasPollCopy k.1 k.2 = false) →
      Q () G' (locking.replay ((liveKeys copies).map fun k =>
        .insertPollMessageCopy k.1 k.2 poll) w)) :
    locking.wp (linkPollCopies poll copies) G w Q := by
  induction copies generalizing G w with
  | nil => exact h G rfl (by simp [liveKeys]) (by simp [liveKeys])
  | cons c copies ih =>
    have hrest : ∀ c' ∈ copies, owner c'.ownerID ∈ G.held := fun c' hc' => hlock c' (by simp [hc'])
    unfold linkPollCopies
    cases hdel : c.deleted with
    | true =>
      have hkeys : liveKeys (c :: copies) = liveKeys copies := by simp [liveKeys, hdel]
      rw [hkeys] at h
      exact ih hp hrest h
    | false =>
      have hkeys : liveKeys (c :: copies) = (c.ownerID, c.localID) :: liveKeys copies := by
        simp [liveKeys, hdel]
      rw [hkeys] at h
      refine wp_bind (wp_insertPollMessageCopy (hlock c (by simp)) hp trivial fun hfree => ?_)
      refine ih (G := G.wrote) hp hrest fun G' hG' hnodup hkfree => ?_
      have hfree' : ∀ k ∈ liveKeys copies, w.hasPollCopy k.1 k.2 = false ∧
          k ≠ (c.ownerID, c.localID) := by
        intro k hk
        have hk := hkfree k hk
        rw [DB.hasPollCopy_link, Bool.or_eq_false_iff] at hk
        refine ⟨hk.1, ?_⟩
        rintro rfl
        simp at hk
      refine h G' hG' (nodup_cons.mpr ⟨fun hmem => (hfree' _ hmem).2 rfl, hnodup⟩) fun k hk => ?_
      rcases mem_cons.mp hk with rfl | hk
      · exact hfree
      · exact (hfree' k hk).1

theorem wp_priorPoll {viewed : Int} {prior : Poll} {times : CreateTimes} :
    locking.wp (priorPoll viewed creatorID msg prior) G d
      fun r _ w => Ends (fun d r w => CreatePollSpec times creatorID d r.1 r.2 w) d r w := by
  unfold priorPoll
  split
  · trivial
  · exact wp_bind (wp_pollView_any fun view => .inl ⟨rfl, rfl⟩)

theorem normalizePollDraft_some {draft canonical : PollDraft} {now : Int}
    (h : normalizePollDraft draft now = some canonical) :
    (canonical.answers.map (·.option)).Nodup ∧
    (canonical.quiz = true → canonical.revotingDisabled = true) := by
  unfold normalizePollDraft at h
  split at h
  · exact nomatch h
  split at h
  · exact nomatch h
  split at h
  · exact nomatch h
  split at h
  · exact nomatch h
  split at h
  · exact nomatch h
  rename_i hnodup
  split at h
  · exact nomatch h
  obtain rfl : draft.canonical = canonical := Option.some.inj h
  refine ⟨?_, fun hquiz => ?_⟩
  · simpa [PollDraft.canonical, Function.comp_def] using hnodup
  · have hquiz : draft.quiz = true := hquiz
    simp [PollDraft.canonical, hquiz]

theorem poll_of_mem_createWrites {options : List PollOption} {links : Owned}
    (hown : ∀ x ∈ options, x.pollID = row.id) (ho : o ∈ createWrites row options links) :
    o.poll = some row.id := by
  simp only [createWrites, mem_cons, mem_append, mem_map] at ho
  rcases ho with rfl | ⟨x, hx, rfl⟩ | ⟨k, -, rfl⟩
  · rfl
  · exact congrArg some (hown x hx)
  · rfl

theorem replay_createWrites (row : Poll) (options : List PollOption) (links : Owned) (d : DB) :
    locking.replay (links.map fun k => .insertPollMessageCopy k.1 k.2 row.id)
        (locking.replay (options.map .insertPollOption) ((Write.insertPoll row).apply d)) =
      locking.replay (createWrites row options links) d := by
  rw [createWrites, Rows.replay_cons, locking.replay_append]
  rfl

theorem pollCopies_insertPoll (row : Poll) (d : DB) :
    ((Write.insertPoll row).apply d).pollCopies = d.pollCopies := rfl

theorem pollCopies_replay_options (options : List PollOption) (d : DB) :
    (locking.replay (options.map .insertPollOption) d).pollCopies = d.pollCopies := by
  induction options generalizing d with
  | nil => rfl
  | cons o options ih => exact ih _

theorem wp_createPoll (times : CreateTimes) (ids : List Int) (creatorID : Int)
    (ref : PollMessageRef) (draft : PollDraft) (hd : Inv d) :
    Meets (createPoll times ids creatorID ref draft) d fun d r w =>
      CreatePollSpec times creatorID d r.1 r.2 w := by
  refine wp_bind (wp_validatePollRef ?_)
  refine wp_bind (wp_lockPollChat fun chat G hG => ?_)
  refine wp_bind (wp_lockPollMessage hd hG fun r H hH hcopies => ?_)
  obtain ⟨msg, copies⟩ := r
  dsimp only
  split
  · trivial
  refine wp_bind (wp_pollByCreatorRandomID fun prior => ?_)
  cases prior with
  | some prior => exact wp_priorPoll
  | none =>
    refine wp_bind (wp_orFail fun canonical hcanonical => ?_)
    obtain ⟨hdistinct, hquiz⟩ := normalizePollDraft_some hcanonical
    split
    · trivial
    refine wp_bind (wp_insertPoll (fun _ => rfl) hH (fun p => wp_priorPoll)
      fun id K hK habsent => ?_)
    have hpoll : Lock.poll id ∈ K.held := by simp [hK]
    refine wp_bind (wp_insertPollOptions hpoll fun K' hK' => ?_)
    refine wp_bind (wp_linkPollCopies (hK' ▸ hpoll) (fun c hc => ?_) fun K'' hK'' honce hfree => ?_)
    · rw [hK', hK]
      exact .inl (hcopies.locked c hc)
    refine wp_bind (wp_pollView (hK'' ▸ hK' ▸ hpoll) fun view hview => ?_)
    rw [replay_createWrites] at hview ⊢
    have hown : ∀ o ∈ pollOptionRows id 0 canonical.answers,
        o.pollID = (canonical.row creatorID msg.randomID msg.localID id).id :=
      fun o ho => pollID_of_mem_pollOptionRows ho
    refine .inr ⟨rfl, _, _, _, ?_,
      Did.polls (fun o ho => poll_of_mem_createWrites hown ho ▸ rfl) d, hview⟩
    refine ⟨habsent, rfl, hquiz, hown, ?_, ?_, honce, fun k hk => ?_, fun k hk => ?_⟩
    · rwa [pollOptionRows_option]
    · obtain ⟨c, hc, hlive⟩ := hcopies.live
      exact ne_nil_of_mem (mem_liveKeys hc hlive)
    · have hk := hfree k hk
      rw [DB.hasPollCopy, pollCopies_replay_options, pollCopies_insertPoll] at hk
      exact hk
    · obtain ⟨c, hc, hlive, rfl⟩ := exists_of_mem_liveKeys hk
      obtain ⟨m, hm, hat, hdel⟩ := hcopies.rows c hc
      exact ⟨m, hm, hat, hdel.trans hlive⟩

end TelegramServer.Store
