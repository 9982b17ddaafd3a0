import TelegramServer.Store.PollVotes

/-!
# Secrecy of quiz answers

Two databases that differ in nothing but a quiz's correct answers and its solution answer views
and votes alike, until the viewer's vote is recorded or the quiz is closed.
-/

namespace TelegramServer.Store

open Tx Tx.Prog List
open Config (start)

variable {hasVote : Bool} {e : StoreErr} {clock : Int} {t : Call} {A : Type} {quiz : Int}
  {d d' : DB}

/-! ## What is secret -/

def Poll.hide (quiz : Int) (p : Poll) : Poll :=
  if p.id = quiz then { p with solution := [] } else p

def PollOption.hide (quiz : Int) (o : PollOption) : PollOption :=
  if o.pollID = quiz then { o with correct := false } else o

def DB.hide (d : DB) (quiz : Int) : DB :=
  { d with
    polls := d.polls.map (Poll.hide quiz)
    pollOptions := d.pollOptions.map (PollOption.hide quiz) }

/-- The databases differ only in the quiz's marks and its solution. -/
def SameButMarks (quiz : Int) (d d' : DB) : Prop :=
  d.hide quiz = d'.hide quiz

theorem SameButMarks.query (h : SameButMarks quiz d d') {f : DB → A}
    (hf : ∀ x : DB, f (x.hide quiz) = f x) : f d = f d' := by
  rw [← hf d, h, hf d']

/-- The program ends alike on both databases. -/
abbrev Same (Q : A → DB → A → DB → Prop) (p : Body A) (d d' : DB) : Prop :=
  Alike locking.toRows Q p p d d'

theorem alike_query_same (h : SameButMarks quiz d d') {f : DB → A}
    {Q : A → DB → A → DB → Prop} (hQ : Q (f d) d (f d) d')
    (hf : ∀ x : DB, f (x.hide quiz) = f x := by exact fun _ => rfl) : Same Q (.query f) d d' := by
  refine alike_query ?_
  rw [← h.query hf]
  exact hQ

theorem Poll.hide_id (p : Poll) : (p.hide quiz).id = p.id := by
  unfold Poll.hide
  split
  · rfl
  · rfl

theorem Poll.hide_of_ne {p : Poll} (h : p.id ≠ quiz) : p.hide quiz = p := if_neg h

theorem Poll.column_of_hide {β : Type} {p p' : Poll} (h : p.hide quiz = p'.hide quiz) (k : Poll → β)
    (hk : ∀ (x : Poll) (s : Bytes), k { x with solution := s } = k x) : k p = k p' := by
  have hhide : ∀ x : Poll, k (x.hide quiz) = k x := by
    intro x
    unfold Poll.hide
    split
    · exact hk x []
    · rfl
  rw [← hhide p, h, hhide p']

namespace DB

theorem pollByID_hide (d : DB) (quiz id : Int) :
    (d.hide quiz).pollByID id = (d.pollByID id).map (Poll.hide quiz) := by
  simp only [DB.hide, DB.pollByID, find?_map]
  congr 2
  funext p
  simp [Poll.hide_id]

theorem pollIsClosed_hide (d : DB) (quiz id clock : Int) :
    (d.hide quiz).pollIsClosed id clock = d.pollIsClosed id clock := by
  simp only [DB.pollIsClosed, pollByID_hide, Option.map_map]
  congr 1
  funext p
  simp only [Function.comp, Poll.hide]
  split
  · rfl
  · rfl

theorem pollByMessage_hide (d : DB) (quiz u l : Int) (pt : PeerType) (peer : Int) :
    (d.hide quiz).pollByMessage u l pt peer =
    (d.pollByMessage u l pt peer).map (Poll.hide quiz) := by
  simp only [DB.pollByMessage, pollByID_hide]
  have hmessages : (d.hide quiz).messages = d.messages := rfl
  have hcopies : (d.hide quiz).pollCopies = d.pollCopies := rfl
  rw [hmessages, hcopies]
  split
  · exact (map_findSome? ..).symm
  · rfl

def hideAnswer (quiz poll : Int) (a : PollAnswer) : PollAnswer :=
  if poll = quiz then { a with correct := false } else a

theorem pollOptionResults_hide (d : DB) (quiz poll viewer : Int) :
    (d.hide quiz).pollOptionResults poll viewer =
      (d.pollOptionResults poll viewer).map (hideAnswer quiz poll) := by
  have hid : ∀ o : PollOption, (o.hide quiz).pollID = o.pollID ∧
      (o.hide quiz).position = o.position := by
    intro o
    unfold PollOption.hide
    split
    · exact ⟨rfl, rfl⟩
    · exact ⟨rfl, rfl⟩
  have hrows : ((d.hide quiz).pollOptions.filter (·.pollID = poll)).insertionSort
      (·.position ≤ ·.position) = ((d.pollOptions.filter (·.pollID = poll)).insertionSort
        (·.position ≤ ·.position)).map (PollOption.hide quiz) := by
    rw [map_insertionSort _ (·.position ≤ ·.position) _ _ fun a _ b _ => by simp [hid]]
    congr 1
    simp only [DB.hide, filter_map]
    congr 2
    funext o
    simp [hid]
  simp only [DB.pollOptionResults, hrows, map_map]
  refine map_congr_left fun o ho => ?_
  rw [mem_insertionSort] at ho
  have hpoll : o.pollID = poll := by simpa using (mem_filter.mp ho).2
  simp only [Function.comp, PollOption.hide, hideAnswer, hpoll]
  split
  · rfl
  · rfl

end DB

variable {Q : A → DB → A → DB → Prop} {options : List Bytes} {poll viewerID voter : Int}
  {ref : PollMessageRef} {row : Poll}

theorem alike_validatePollRef {Q : Unit → DB → Unit → DB → Prop} (h : Q () d () d') :
    Same Q (validatePollRef viewerID ref) d d' := by
  unfold validatePollRef
  split
  · exact alike_fail _
  split
  · split
    · exact alike_fail _
    · exact h
  · exact h
  · exact alike_fail _

section

variable (hs : SameButMarks quiz d d')

include hs

theorem alike_pollPeerAccess {Q : Unit → DB → Unit → DB → Prop} (h : Q () d () d') :
    Same Q (pollPeerAccess viewerID ref) d d' := by
  refine alike_bind (alike_validatePollRef ?_)
  split
  · exact h
  refine alike_bind (alike_query_same hs ?_)
  split
  · exact alike_fail _
  · exact h

theorem alike_messageOrFail {u l : Int}
    {Q : Message → DB → Message → DB → Prop} (h : ∀ m, Q m d m d') :
    Same Q (messageOrFail e u l) d d' := by
  exact alike_bind (alike_query_same hs (alike_orFail_same fun m _ => h m))

theorem alike_chatCopies {m : Message}
    {Q : List Message → DB → List Message → DB → Prop} (h : ∀ copies, Q copies d copies d') :
    Same Q (chatCopies m) d d' := by
  unfold chatCopies
  split
  · exact alike_fail _
  refine alike_bind (alike_query_same hs ?_)
  split
  · exact alike_fail _
  · exact h _

theorem alike_pollMember {Q : Unit → DB → Unit → DB → Prop} (h : Q () d () d') :
    Same Q (pollMember viewerID ref) d d' := by
  unfold pollMember
  split
  · refine alike_bind (alike_query_same hs ?_)
    split
    · exact alike_fail _
    · exact h
  · exact h

theorem alike_lockPollMessage
    {Q : Message × List Message → DB → Message × List Message → DB → Prop} (h : ∀ r, Q r d r d') :
    Same Q (lockPollMessage viewerID ref) d d' := by
  refine alike_bind (alike_pollPeerAccess hs ?_)
  refine alike_bind (alike_messageOrFail hs fun pre => ?_)
  split
  · exact alike_fail _
  have hcopies : ∀ {Q : List Message → DB → List Message → DB → Prop},
      (∀ copies, Q copies d copies d') → Same Q (pollCopies ref pre) d d' := by
    intro Q hQ
    unfold pollCopies
    split
    · exact alike_chatCopies hs hQ
    · exact hQ _
  refine alike_bind (hcopies fun copies => ?_)
  refine alike_bind (alike_lockAll ?_)
  refine alike_bind (alike_messageOrFail hs fun msg => ?_)
  split
  · exact alike_fail _
  refine alike_bind (alike_pollMember hs ?_)
  split
  · exact alike_bind (alike_chatCopies hs fun copies => h _)
  · exact h _

end

theorem alike_row (quiz : Int) {x x' : Option Poll}
    (hx : x.map (Poll.hide quiz) = x'.map (Poll.hide quiz)) {Q : Poll → DB → Poll → DB → Prop}
    (h : ∀ p p', x = some p → x' = some p' → p.hide quiz = p'.hide quiz → Q p d p' d') :
    Alike locking.toRows Q (.orFail e x : Body Poll) (.orFail e x') d d' := by
  refine alike_orFail ?_ fun p p' hp hp' => h p p' hp hp' ?_
  · rw [← Option.isSome_map (f := Poll.hide quiz), hx, Option.isSome_map]
  · rw [hp, hp'] at hx
    exact Option.some.inj hx

theorem alike_pollOfMessage (hs : SameButMarks quiz d d') {Q : Poll → DB → Poll → DB → Prop}
      (h : ∀ p p', d.pollByMessage viewerID ref.localID ref.peerType ref.peerID = some p →
      p.hide quiz = p'.hide quiz → Q p d p' d') :
    Same Q (pollOfMessage viewerID ref) d d' := by
  refine alike_bind (alike_query (alike_row quiz ?_ fun p p' hp _ hpp => h p p' hp hpp))
  rw [← DB.pollByMessage_hide, ← DB.pollByMessage_hide, hs]

theorem alike_lockPoll (hs : SameButMarks quiz d d') {id : Int} {Q : Poll → DB → Poll → DB → Prop}
    (h : ∀ p p', d.pollByID p.id = some p → p.hide quiz = p'.hide quiz → Q p d p' d') :
    Same Q (lockPoll id) d d' := by
  refine alike_bind (alike_queryForUpdate (alike_row quiz ?_ fun p p' hp _ hpp => h p p' ?_ hpp))
  · rw [← DB.pollByID_hide, ← DB.pollByID_hide, hs]
  · rwa [(DB.pollByID_some hp).2]

def DB.keepsSecret (d : DB) (quiz viewer clock : Int) : Prop :=
  d.hasPollVote quiz viewer = false ∧ d.pollIsClosed quiz clock ≠ some true

theorem PollView.of_hide {viewer : Int} {closed hasVoted : Bool} {n : Nat}
    {options : List PollAnswer} (quiz poll : Int) (h : (closed || hasVoted) = false) :
    PollView.of row viewer closed hasVoted n options =
      PollView.of (row.hide quiz) viewer closed hasVoted n
        (options.map (DB.hideAnswer quiz poll)) := by
  have hanswers : options.map (fun o => { o with correct := (closed || hasVoted) && o.correct }) =
      (options.map (DB.hideAnswer quiz poll)).map
        fun o => { o with correct := (closed || hasVoted) && o.correct } := by
    rw [map_map]
    refine map_congr_left fun o _ => ?_
    simp only [h, Bool.false_and, Function.comp, DB.hideAnswer]
    split
    · rfl
    · rfl
  have hsolution : row.hide quiz = row ∨ row.hide quiz = { row with solution := [] } := by
    unfold Poll.hide
    split
    · exact .inr rfl
    · exact .inl rfl
  unfold PollView.of
  rw [← hanswers]
  rcases hsolution with heq | heq
  · rw [heq]
  · rw [heq]
    simp [h]

theorem alike_pollView (hs : SameButMarks quiz d d') {row' : Poll}
    (hrow : row.hide quiz = row'.hide quiz) {Q : PollView → DB → PollView → DB → Prop}
    (h : ∀ view view', (d.keepsSecret quiz viewerID clock → view = view') → Q view d view' d') :
    Alike locking.toRows Q (pollView clock row viewerID) (pollView clock row' viewerID) d d' := by
  have hid : row'.id = row.id := (Poll.column_of_hide hrow (·.id) fun _ _ => rfl).symm
  unfold pollView
  rw [hid]
  refine alike_bind (alike_bind (alike_query_same hs (alike_orFail_same fun closed hclosed => ?_)
    fun x => x.pollIsClosed_hide quiz row.id clock))
  refine alike_bind (alike_query_same hs ?_)
  refine alike_bind (alike_query_same hs ?_)
  refine alike_bind (alike_query (h _ _ fun hsecret => ?_))
  have hoptions : (d.pollOptionResults row.id viewerID).map (DB.hideAnswer quiz row.id) =
      (d'.pollOptionResults row.id viewerID).map (DB.hideAnswer quiz row.id) := by
    rw [← DB.pollOptionResults_hide, ← DB.pollOptionResults_hide, hs]
  by_cases hquiz : row.id = quiz
  · -- Nothing secret is shown.
    have hnone : (closed || d.hasPollVote row.id viewerID) = false := by
      rw [hquiz] at hclosed ⊢
      rw [hsecret.1, Bool.or_false, ← Bool.not_eq_true]
      rintro rfl
      exact hsecret.2 hclosed
    rw [PollView.of_hide quiz row.id hnone, hrow, hoptions, ← PollView.of_hide quiz row.id hnone]
  · rw [Poll.hide_of_ne hquiz, Poll.hide_of_ne (hid.trans_ne hquiz)] at hrow
    have hmap : (DB.hideAnswer quiz row.id) = id := by
      funext a
      exact if_neg hquiz
    rw [hmap, map_id, map_id] at hoptions
    rw [hoptions, hrow]

/-! ## Calls -/

theorem alike_snapshot {p p' : Body A} {P : A → A → Prop}
    (hp : Alike locking.toRows (fun a _ a' _ => P a a') p p' d d')
    (h : ∀ a a', P a a' → Q a d a' d') : Alike locking.toRows Q (snapshot p)
    (snapshot p') d d' := by
  refine alike_bind (alike_query ?_)
  unfold Alike at hp
  generalize p.alone locking.toRows d = r at hp ⊢
  generalize p'.alone locking.toRows d' = r' at hp ⊢
  obtain ⟨e | a, w⟩ := r <;> obtain ⟨e' | a', w'⟩ := r'
  · obtain rfl : e = e' := hp
    exact alike_fail e
  · exact hp.elim
  · exact hp.elim
  · exact h a a' hp

def VoteKept (quiz : Int) (d w : DB) : Prop :=
  w.polls = d.polls ∧ ∀ p u, d.pollByID quiz = some p → p.revotingDisabled = true →
    d.hasPollVote quiz u = true → w.hasPollVote quiz u = true ∧
      w.pollVoteOptionsByVoter quiz u = d.pollVoteOptionsByVoter quiz u

theorem VoteKept.refl (quiz : Int) (d : DB) : VoteKept quiz d d :=
  ⟨rfl, fun _ _ _ _ h => ⟨h, rfl⟩⟩

theorem VoteKept.trans {v w : DB} (h : VoteKept quiz d v) (h' : VoteKept quiz v w) :
    VoteKept quiz d w := by
  refine ⟨h'.1.trans h.1, fun p u hp hno hvote => ?_⟩
  obtain ⟨hvote', hsame⟩ := h.2 p u hp hno hvote
  have hp' : v.pollByID quiz = some p := by rw [DB.pollByID, h.1]; exact hp
  obtain ⟨hvote'', hsame'⟩ := h'.2 p u hp' hno hvote'
  exact ⟨hvote'', hsame'.trans hsame⟩

structure CallAlike (quiz : Int) (d : DB) (viewerID clock : Int) (r : Finish PollView) (w : DB)
    (r' : Finish PollView) (w' : DB) : Prop where
  same : SameButMarks quiz w w'
  answer : w.keepsSecret quiz viewerID clock → r = r'
  kept : VoteKept quiz d w
  commits : ∃ view view', r = .commit view ∧ r' = .commit view'

theorem alike_pollForMessage (hs : SameButMarks quiz d d') (clock viewerID : Int)
    (ref : PollMessageRef) : Same (CallAlike quiz d viewerID clock)
    (pollForMessage clock viewerID ref) d d' := by
  refine alike_bind (alike_validatePollRef (alike_bind (alike_snapshot
    (P := fun view view' => d.keepsSecret quiz viewerID clock → view = view') ?_
    fun view view' hview => ?_)))
  · refine alike_bind (alike_pollPeerAccess hs
      (alike_bind (alike_pollOfMessage hs fun p p' _ hpp => ?_)))
    exact alike_pollView hs hpp fun view view' hview => hview
  · exact ⟨hs, fun hsecret => by rw [hview hsecret], .refl quiz d, view, view', rfl, rfl⟩

theorem SameButMarks.voteWrites (hs : SameButMarks quiz d d') (poll voter : Int) (hasVote : Bool)
    (options : List Bytes) :
    SameButMarks quiz (locking.replay (voteWrites poll voter hasVote options) d)
      (locking.replay (voteWrites poll voter hasVote options) d') := by
  have hhide : ∀ x :
    DB, (locking.replay (Store.voteWrites poll voter hasVote options) x).hide quiz =
      locking.replay (Store.voteWrites poll voter hasVote options) (x.hide quiz) := by
    intro x
    rw [replay_voteWrites, replay_voteWrites]
    split
    · split
      · rfl
      · rfl
    · rfl
  rw [SameButMarks, hhide, hs, hhide]

theorem alike_insertPollVoteOptions {Q : Unit → DB → Unit → DB → Prop}
    (h : Q () (locking.replay (options.map (.insertPollVoteOption poll voter)) d) ()
      (locking.replay (options.map (.insertPollVoteOption poll voter)) d')) :
    Same Q (insertPollVoteOptions poll voter options) d d' := by
  induction options generalizing d d' with
  | nil => exact h
  | cons o options ih => exact alike_bind (alike_exec_ (ih h))

theorem alike_savePollVote {Q : Unit → DB → Unit → DB → Prop}
    (h : Q () (locking.replay (voteWrites poll voter hasVote options) d) ()
      (locking.replay (voteWrites poll voter hasVote options) d')) :
    Same Q (savePollVote poll voter hasVote options) d d' := by
  unfold savePollVote
  unfold voteWrites at h
  split
  · rename_i hnil
    rw [if_pos hnil] at h
    split
    · rename_i hvote
      rw [if_pos hvote] at h
      exact h
    · rename_i hvote
      rw [if_neg hvote] at h
      exact h
  · rename_i hsome
    rw [if_neg hsome] at h
    exact alike_bind (alike_exec_ (alike_bind (alike_exec_ (alike_insertPollVoteOptions h))))

theorem hasPollVote_voteWrites {p u : Int} (hne : ¬ (p = poll ∧ u = voter))
    (h : d.hasPollVote p u = true) :
    (locking.replay (voteWrites poll voter hasVote options) d).hasPollVote p u = true := by
  rw [← DB.mem_pollVotes] at h ⊢
  rw [replay_voteWrites]
  split
  · split
    · exact DB.voted_withoutVote.mpr ⟨hne, h⟩
    · exact h
  · exact DB.voted_withVote.mpr (.inl h)

/-- A recorded vote of the quiz's stays when someone else votes, or in another poll. -/
theorem voteKept_voteWrites (hrow : d.pollByID row.id = some row)
    (hrevote : (row.revotingDisabled && d.hasPollVote row.id voter) = false) :
    VoteKept quiz d (locking.replay
      (voteWrites row.id voter (d.hasPollVote row.id voter) options) d) := by
  have hpolls :
    (locking.replay (voteWrites row.id voter (d.hasPollVote row.id voter) options) d).polls =
      d.polls := by
    rw [replay_voteWrites]
    split
    · split
      · rfl
      · rfl
    · rfl
  refine ⟨hpolls, fun p u hp hno hvote => ?_⟩
  have hne : ¬ (quiz = row.id ∧ u = voter) := by
    rintro ⟨rfl, rfl⟩
    obtain rfl : row = p := Option.some.inj (hrow.symm.trans hp)
    rw [hno, hvote] at hrevote
    exact nomatch hrevote
  exact ⟨hasPollVote_voteWrites hne hvote, byVoter_voteWrites hne⟩

theorem alike_castPollVote (hs : SameButMarks quiz d d') (times : VoteTimes) (viewerID : Int)
    (ref : PollMessageRef) (selected : List Bytes) :
    Same (CallAlike quiz d viewerID times.viewed)
      (castPollVote times viewerID ref selected) d d' := by
  refine alike_bind (alike_validatePollRef ?_)
  refine alike_bind (alike_bind (alike_lockPollMessage hs fun _ => ?_))
  refine alike_bind (alike_pollOfMessage hs fun row row' _ hrow => ?_)
  have hid : row'.id = row.id := (Poll.column_of_hide hrow (·.id) fun _ _ => rfl).symm
  rw [hid]
  refine alike_lockPoll hs fun poll poll' hpoll hpp => ?_
  have hid : poll'.id = poll.id := (Poll.column_of_hide hpp (·.id) fun _ _ => rfl).symm
  have hmulti : poll'.multipleChoice = poll.multipleChoice :=
    (Poll.column_of_hide hpp (·.multipleChoice) fun _ _ => rfl).symm
  have hrevoting : poll'.revotingDisabled = poll.revotingDisabled :=
    (Poll.column_of_hide hpp (·.revotingDisabled) fun _ _ => rfl).symm
  rw [hid, hmulti, hrevoting]
  refine alike_bind (alike_orFail_same fun options hoptions => ?_)
  refine alike_bind (alike_query_same hs ?_)
  refine alike_bind (alike_query_same hs ?_)
  split
  · refine alike_bind (alike_pollView hs hpp fun view view' hview => ?_)
    exact ⟨hs, fun hsecret => by rw [hview hsecret], .refl quiz d, view, view', rfl, rfl⟩
  refine alike_bind (alike_bind (alike_query_same hs (alike_orFail_same fun closed _ => ?_)
    fun x => x.pollIsClosed_hide quiz poll.id times.checked))
  split
  · exact alike_fail _
  split
  · exact alike_fail _
  have hknown : (d.pollOptionResults poll.id viewerID).map (·.option) =
      (d'.pollOptionResults poll.id viewerID).map (·.option) := by
    refine hs.query (f := fun x : DB => (x.pollOptionResults poll.id viewerID).map (·.option))
      fun x => ?_
    rw [DB.pollOptionResults_hide, map_map]
    refine map_congr_left fun a _ => ?_
    simp only [Function.comp, DB.hideAnswer]
    split
    · rfl
    · rfl
  refine alike_bind (alike_query ?_)
  rw [hknown]
  split
  · exact alike_fail _
  split
  · exact alike_fail _
  rename_i hrevote
  refine alike_bind (alike_savePollVote (alike_bind (alike_pollView (hs.voteWrites ..) hpp
    fun view view' hview => ?_)))
  exact ⟨hs.voteWrites .., fun hsecret => by rw [hview hsecret],
    voteKept_voteWrites hpoll (by simpa using hrevote), view, view', rfl, rfl⟩

/-! ## Sequences of views and votes -/

/-- Who looks at a poll, and when the answer is rendered. -/
def Call.looks : Call → Option (Int × Int)
  | .viewPoll clock viewerID _ => some (viewerID, clock)
  | .castVote times viewerID _ _ => some (viewerID, times.viewed)
  | _ => none

/-- The records of one call in two runs: what the viewer is told is the same as long as no vote of
the viewer's is recorded and the quiz is open. -/
def Discreet (quiz viewer : Int) (r r' : StoreRecord) : Prop :=
  r.call = r'.call ∧ ∀ clock, r.call.looks = some (viewer, clock) →
    r.post.hasPollVote quiz viewer = false → r.post.pollIsClosed quiz clock ≠ some true →
    r.outcome = r'.outcome

theorem looks_alike (hs : SameButMarks quiz d d') (ht : t.looks = some (viewerID, clock)) :
    Alike locking.toRows (fun r w r' w' => SameButMarks quiz w w' ∧
        (w.keepsSecret quiz viewerID clock → r = r') ∧ VoteKept quiz d w ∧
        ∃ a a', r = .commit a ∧ r' = .commit a')
      (code t) (code t) d d' := by
  have hanswer : ∀ {p : Body (Finish PollView)},
      Same (CallAlike quiz d viewerID clock) p d d' →
      Alike locking.toRows (fun r w r' w' => SameButMarks quiz w w' ∧
        (w.keepsSecret quiz viewerID clock → r = r') ∧ VoteKept quiz d w ∧
        ∃ a a', r = .commit a ∧ r' = .commit a') (answer .poll p) (answer .poll p) d d' := by
    intro p hp
    refine alike_bind (hp.mono ?_)
    rintro _ w _ w' ⟨hsame, hview, hkept, view, view', rfl, rfl⟩
    refine ⟨hsame, fun hsecret => ?_, hkept, _, _, rfl, rfl⟩
    obtain rfl : view = view' := Finish.commit.inj (hview hsecret)
    rfl
  cases t with
  | viewPoll c v ref =>
    obtain ⟨rfl, rfl⟩ : v = viewerID ∧ c = clock := by simpa [Call.looks] using ht
    exact hanswer (alike_pollForMessage hs c v ref)
  | castVote times v ref selected =>
    obtain ⟨rfl, rfl⟩ : v = viewerID ∧ times.viewed = clock := by simpa [Call.looks] using ht
    exact hanswer (alike_castPollVote hs times v ref selected)
  | _ => exact nomatch ht

theorem look_step (hs : SameButMarks quiz d d') (ht : t.looks.isSome) (viewer : Int) :
    Discreet quiz viewer (.alone locking.toRows code d t) (.alone locking.toRows code d' t) ∧
      SameButMarks quiz (Record.alone locking.toRows code d t).post
        (Record.alone locking.toRows code d' t).post ∧
      VoteKept quiz d (Record.alone locking.toRows code d t).post := by
  obtain ⟨⟨viewerID, clock⟩, hlooks⟩ := Option.isSome_iff_exists.mp ht
  obtain ⟨r, r', w, w', ⟨hsame, hanswer, hkept, a, a', rfl, rfl⟩, hr, hr'⟩ | ⟨e, hr, hr'⟩ :=
    (looks_alike hs hlooks).record
  · rw [hr, hr']
    refine ⟨⟨rfl, fun c hc hvote hopen => ?_⟩, hsame, hkept⟩
    obtain ⟨rfl, rfl⟩ : viewerID = viewer ∧ clock = c := by simpa [hlooks] using hc
    exact congrArg Outcome.done (hanswer ⟨hvote, hopen⟩)
  · rw [hr, hr']
    exact ⟨⟨rfl, fun _ _ _ _ => rfl⟩, hs, .refl quiz d⟩

theorem voteKept_serial (quiz : Int) {ts : List Call} (hts : ∀ t ∈ ts, t.looks.isSome)
    (c : StoreConfig) : VoteKept quiz c.db (c.serial locking.toRows code ts).db :=
  Config.serial_invariant (I := VoteKept quiz c.db)
    (fun t ht _ hx => hx.trans (look_step (rfl : SameButMarks quiz _ _) (hts t ht) 0).2.2)
    (.refl quiz c.db)

/-- The schema's check on polls: a quiz may be answered once. -/
def DB.quizzesOnce (d : DB) : Prop :=
  ∀ p ∈ d.polls, p.quiz = true → p.revotingDisabled = true

/-- Two databases that differ in a quiz's marks and solution answer every view and vote alike, up to
the viewer's recorded vote or the closing of the quiz. A recorded vote in it is never changed. -/
theorem quiz_answers_secret {ts : List Call} (hs : SameButMarks quiz d d')
    (hts : ∀ t ∈ ts, t.looks.isSome) (viewer : Int) :
    List.Forall₂ (Discreet quiz viewer) ((start d).serial locking.toRows code ts).log
        ((start d').serial locking.toRows code ts).log ∧
      (d.quizzesOnce → ∀ p, d.pollByID quiz = some p → p.quiz = true →
        ∀ before after, ts = before ++ after →
          ((start d).serial locking.toRows code before).db.hasPollVote quiz viewer = true →
          ((start d).serial locking.toRows code ts).db.hasPollVote quiz viewer = true ∧
          ((start d).serial locking.toRows code ts).db.pollVoteOptionsByVoter quiz viewer =
          ((start d).serial locking.toRows code before).db.pollVoteOptionsByVoter quiz viewer) := by
  constructor
  · rw [Config.serial_log, Config.serial_log]
    refine records_forall₂ (I := SameButMarks quiz) (fun t ht x x' hx => ?_) hs
    obtain ⟨hdiscreet, hsame, -⟩ := look_step hx (hts t ht) viewer
    exact ⟨hdiscreet, hsame⟩
  · rintro honce p hp hquiz before after rfl hvote
    have hno : p.revotingDisabled = true := honce p (DB.mem_polls_of_pollByID hp) hquiz
    have hpolls : ((start d).serial locking.toRows code before).db.polls = d.polls :=
      (voteKept_serial quiz (fun t ht => hts t (mem_append_left _ ht)) (start d)).1
    rw [Config.serial_append]
    refine (voteKept_serial _ (fun t ht => hts t (mem_append_right _ ht)) _).2 p viewer ?_ hno hvote
    rw [DB.pollByID, hpolls]
    exact hp

/-- A quiz in the saved messages whose correct answer is `correct`. -/
def savedQuiz (correct : Bytes) : DB :=
  (serialRun [(1, 0)] [] [sendSaved, .createPoll ⟨50, 50⟩ [9] 1 savedRef {
    question := [63]
    answers := [⟨[1], [97], correct = [1], 0, false⟩, ⟨[2], [98], correct = [2], 0, false⟩]
    quiz := true
    solution := correct }]).db

/-- A view, a vote and an attempt to revise it. -/
def answerSaved : List Call :=
  [.viewPoll 60 1 savedRef, .castVote ⟨70, 70⟩ 1 savedRef [[1]],
    .castVote ⟨80, 80⟩ 1 savedRef [[2]]]

theorem quiz_answers_secret_saved : savedQuiz [1] ≠ savedQuiz [2] ∧
      List.Forall₂ (Discreet 9 1)
        ((start (savedQuiz [1])).serial locking.toRows code answerSaved).log
        ((start (savedQuiz [2])).serial locking.toRows code answerSaved).log ∧
      ((start (savedQuiz [1])).serial locking.toRows code
        answerSaved).db.pollVoteOptionsByVoter 9 1 = [[1]] := by
  have hsame : SameButMarks 9 (savedQuiz [1]) (savedQuiz [2]) := by
    unfold SameButMarks
    decide +kernel
  have hlooks : ∀ t ∈ answerSaved, t.looks.isSome := by decide +kernel
  obtain ⟨hlogs, hkept⟩ := quiz_answers_secret hsame hlooks 1
  refine ⟨by decide +kernel, hlogs, ?_⟩
  obtain ⟨p, hp⟩ : ∃ p, (savedQuiz [1]).pollByID 9 = some p ∧ p.quiz = true := by
    refine ⟨(savedQuiz [1]).polls.head (by decide +kernel), ?_⟩
    decide +kernel
  exact (hkept (by unfold DB.quizzesOnce; decide +kernel) p hp.1 hp.2 (answerSaved.take 2)
    (answerSaved.drop 2) rfl (by decide +kernel)).2.trans (by decide +kernel)

end TelegramServer.Store
