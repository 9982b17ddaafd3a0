import TelegramServer.Store.Runs
import TelegramServer.Tx.Schedule

/-!
# Poll votes

Votes, selections, options and links hang on a poll row, and a call changes them as a whole:
it leaves the polls alone, records a vote, closes a poll, creates one with its options and links,
or deletes message copies with what hangs on them. Every such change keeps the tables consistent,
and a recorded selection changes only through an admitted vote.
-/

namespace TelegramServer.Store

open Tx Tx.Table List
open PollVoteOption (isFor)

variable {d : DB} {checked l poll u : Int} {r : StoreRecord}
  {links : Owned} {a : Act} {as : List Act} {id now owner voter : Int} {o : Bytes}
  {options : List Bytes} {p row : Poll} {t : Call} {v w : DB} {c : PollCopy}

def DB.live (d : DB) (owner localID : Int) : Prop :=
  ∃ m ∈ d.messages, Message.isAt owner localID m ∧ m.deleted = false

def DB.selected (d : DB) (poll voter : Int) (option : Bytes) : Prop :=
  ⟨poll, voter, option⟩ ∈ d.pollVoteOptions

structure PollsOk (d : DB) : Prop where
  ids : ∀ p ∈ d.polls, ∀ p' ∈ d.polls, p.id = p'.id → p = p'
  votes : d.pollVotes.Nodup
  selections : d.pollVoteOptions.Nodup
  voted : ∀ poll voter, ⟨poll, voter⟩ ∈ d.pollVotes ↔ ∃ option, d.selected poll voter option
  options : ∀ o ∈ d.pollOptions, d.hasPoll o.pollID
  known : ∀ poll voter option, d.selected poll voter option →
    ∃ o ∈ d.pollOptions, o.pollID = poll ∧ o.option = option
  single : ∀ p ∈ d.polls, p.multipleChoice = false → ∀ voter o o',
    d.selected p.id voter o → d.selected p.id voter o' → o = o'
  links : ∀ c ∈ d.pollCopies, d.hasPoll c.pollID ∧ d.live c.ownerID c.localID
  keys : ∀ c ∈ d.pollCopies, ∀ c' ∈ d.pollCopies, c.ownerID = c'.ownerID → c.localID = c'.localID →
    c = c'
  linked : ∀ p ∈ d.polls, ∃ c ∈ d.pollCopies, c.pollID = p.id

theorem pollsOk_initial (states : Owned) (files : List File) : PollsOk (.initial states files) := by
  constructor <;> simp [DB.initial, DB.selected]

theorem DB.hasPoll_iff : d.hasPoll id ↔ ∃ p ∈ d.polls, p.id = id := by
  simp [DB.hasPoll]

theorem PollsOk.pollByID (h : PollsOk d) (hp : p ∈ d.polls) : d.pollByID p.id = some p := by
  have hsome : (d.pollByID p.id).isSome := find?_isSome.mpr ⟨p, hp, by simp⟩
  obtain ⟨q, hq⟩ := Option.isSome_iff_exists.mp hsome
  have hid : q.id = p.id := by simpa using find?_some hq
  rw [hq, h.ids q (mem_of_find?_eq_some hq) p hp hid]

theorem DB.mem_polls_of_pollByID (h : d.pollByID id = some p) : p ∈ d.polls :=
  mem_of_find?_eq_some h

/-! ## Calls that leave the polls alone -/

structure Spared (d w : DB) : Prop where
  polls : w.polls = d.polls
  options : w.pollOptions = d.pollOptions
  votes : w.pollVotes = d.pollVotes
  selections : w.pollVoteOptions = d.pollVoteOptions
  copies : w.pollCopies = d.pollCopies
  live : ∀ u l, d.live u l → w.live u l

theorem Spared.refl (d : DB) : Spared d d := ⟨rfl, rfl, rfl, rfl, rfl, fun _ _ h => h⟩

theorem Spared.trans (h : Spared d v) (h' : Spared v w) : Spared d w where
  polls := h'.polls.trans h.polls
  options := h'.options.trans h.options
  votes := h'.votes.trans h.votes
  selections := h'.selections.trans h.selections
  copies := h'.copies.trans h.copies
  live u l hl := h'.live u l (h.live u l hl)

theorem PollsOk.spared (h : PollsOk d) (hs : Spared d w) : PollsOk w := by
  have hselected : ∀ p u o, w.selected p u o ↔ d.selected p u o := fun p u o => by
    rw [DB.selected, hs.selections, DB.selected]
  have hhas : ∀ id, w.hasPoll id = d.hasPoll id :=
    fun id => by rw [DB.hasPoll, hs.polls, DB.hasPoll]
  constructor
  · rw [hs.polls]
    exact h.ids
  · rw [hs.votes]
    exact h.votes
  · rw [hs.selections]
    exact h.selections
  · simpa only [hs.votes, hselected] using h.voted
  · simpa only [hs.options, hhas] using h.options
  · simpa only [hs.options, hselected] using h.known
  · simpa only [hs.polls, hselected] using h.single
  · intro c hc
    rw [hs.copies] at hc
    rw [hhas]
    exact (h.links c hc).imp_right (hs.live _ _)
  · rw [hs.copies]
    exact h.keys
  · rw [hs.polls, hs.copies]
    exact h.linked

def Write.sparesPolls (o : Write) : Prop :=
  o.poll = none ∧ ∀ u l, o ≠ .setDeleted u l

theorem live_updateWhere {q : Message → Bool} {f : Message → Message}
    (hf : ∀ m, (f m).ownerID = m.ownerID ∧ (f m).localID = m.localID)
    (hkeep : ∀ m, q m → Message.isAt u l m → (f m).deleted = m.deleted) (h : d.live u l) :
    ∃ m ∈ updateWhere q f d.messages, Message.isAt u l m ∧ m.deleted = false := by
  obtain ⟨m, hm, hat, hdel⟩ := h
  refine ⟨if q m then f m else m, mem_map.mpr ⟨m, hm, rfl⟩, ?_⟩
  split
  · rename_i hq
    obtain ⟨hu, hl⟩ := Message.isAt_iff.mp hat
    exact ⟨Message.isAt_iff.mpr ⟨(hf m).1.trans hu, (hf m).2.trans hl⟩, (hkeep m hq hat).trans hdel⟩
  · exact ⟨hat, hdel⟩

theorem Write.sparesPolls.spared {o : Write} (h : o.sparesPolls) (d : DB) :
    Spared d (o.apply d) := by
  obtain ⟨hpoll, hdel⟩ := h
  cases o
  case setDeleted u l => exact absurd rfl (hdel u l)
  case insertMessage m =>
    refine ⟨rfl, rfl, rfl, rfl, rfl, fun u l ⟨x, hx, hat⟩ => ⟨x, ?_, hat⟩⟩
    exact mem_append_left _ hx
  case setEditedText u l text now =>
    exact ⟨rfl, rfl, rfl, rfl, rfl,
      fun u' l' hl => live_updateWhere (fun _ => ⟨rfl, rfl⟩) (fun _ _ _ => rfl) hl⟩
  all_goals first
    | exact ⟨rfl, rfl, rfl, rfl, rfl, fun u l h => h⟩
    | exact nomatch hpoll

def Act.sparesPolls : Act → Prop
  | .delete _ _ _ => False
  | .side o => o.poll = none ∧ o.isSide
  | _ => True

theorem Act.sparesPolls.spared (h : a.sparesPolls) (d : DB) : Spared d (a.apply d) := by
  have hreplay {os : List Write} (hos : ∀ o ∈ os, o.sparesPolls) : Spared d (locking.replay os d) :=
    Rows.replay_invariant (.refl d) fun o ho v hv => hv.trans ((hos o ho).spared v)
  refine hreplay ?_
  cases a with
  | delete => exact h.elim
  | side o =>
    intro o' ho'
    obtain rfl : o' = o := by simpa [Act.writes] using ho'
    refine ⟨h.1, ?_⟩
    rintro u l rfl
    exact absurd h.2 (by simp [Write.isSide])
  | ensure | post | edit | mark => simp [Act.writes, Write.sparesPolls, Write.poll]

theorem spared_runActs (h : ∀ a ∈ as, a.sparesPolls) (d : DB) : Spared d (runActs as d) :=
  runActs_invariant (.refl d) fun a ha v hv => hv.trans ((h a ha).spared v)

theorem Act.sparesPolls_of_onChat {c : Int} (h : a.onChat d c) : a.sparesPolls := by
  cases a with
  | ensure | post | edit => trivial
  | delete | mark => exact h.elim
  | side o => cases o <;> first | exact ⟨rfl, rfl⟩ | exact nomatch h

theorem Act.sparesPolls_of_offChat (h : a.offChat d) : a.sparesPolls := by
  cases a with
  | ensure | post | edit => trivial
  | delete | mark => exact h.elim
  | side o => cases o <;> first | exact ⟨rfl, rfl⟩ | exact h.elim

theorem Act.sparesPolls_of_reads (h : a.reads) : a.sparesPolls := by
  cases a with
  | ensure | post | edit | delete => exact h.elim
  | mark => trivial
  | side o => cases o <;> first | exact ⟨rfl, rfl⟩ | exact h.elim

inductive PollEffect (t : Call) (d w : DB) : Prop where
  | spared (h : Spared d w)
  | voted (times : VoteTimes) (viewerID : Int) (ref : PollMessageRef)
      (selected options : List Bytes) (row : Poll)
      (call : t = .castVote times viewerID ref selected)
      (found : d.pollByID row.id = some row)
      (normal : normalizePollSelection selected = some options)
      (ok : VoteOk times.checked row viewerID options d)
      (eq : w = locking.replay
        (voteWrites row.id viewerID (d.hasPollVote row.id viewerID) options) d)
  | closed (poll : Int) (eq : w = (Write.closePoll poll).apply d)
  | created (row : Poll) (options : List PollOption) (links : Owned)
      (new : NewPoll d row options links)
      (eq : w = locking.replay (createWrites row options links) d)
  | deleted (as : List Act) (acts : Deletes as d) (eq : w = runActs as d)

theorem Spec.pollEffect {a : Reply} (h : Spec t d a w) : PollEffect t d w := by
  obtain ⟨as, hdid, hdeed⟩ := h.deed
  have hspared (has : ∀ a ∈ as, a.sparesPolls) : PollEffect t d w :=
    .spared (hdid.eq ▸ spared_runActs has d)
  cases hdeed with
  | onChat c extra on => exact hspared fun a ha => Act.sparesPolls_of_onChat (on a ha).1
  | offChat off => exact hspared fun a ha => Act.sparesPolls_of_offChat (off a ha)
  | pin c u pinned => exact hspared fun a ha => by rw [mem_singleton.mp ha]; exact ⟨rfl, rfl⟩
  | delete _ _ acts => exact .deleted as acts hdid.eq
  | read _ all => exact hspared fun a ha => Act.sparesPolls_of_reads (all a ha)
  | polls os call =>
    clear hspared
    cases t <;> cases a <;> first | exact h.elim | exact absurd call Bool.false_ne_true | skip
    case castVote.poll =>
      obtain ⟨row, options, os, hrow, hoptions, -, hdid, ⟨rfl, -⟩ | ⟨hok, rfl⟩⟩ := h
      · obtain rfl : w = d := hdid.eq
        exact .spared (.refl _)
      · exact .voted _ _ _ _ options row rfl hrow hoptions hok (hdid.eq.trans (runActs_sides _ _))
    case closePoll.flag =>
      obtain ⟨poll, -, ⟨-, -, rfl⟩ | ⟨-, hdid⟩⟩ := h
      · exact .spared (.refl _)
      · exact .closed poll.id hdid.eq
    case createPoll.created =>
      obtain ⟨-, rfl⟩ | ⟨-, row, options, links, hnew, hdid, -⟩ := h
      · exact .spared (.refl _)
      · exact .created row options links hnew (hdid.eq.trans (runActs_sides _ _))
    case viewPoll.poll =>
      obtain rfl := h
      exact .spared (.refl _)

/-! ## Votes -/

theorem nodup_of_normalizePollSelection {selected : List Bytes}
    (h : normalizePollSelection selected = some options) : options.Nodup := by
  unfold normalizePollSelection at h
  split at h
  · exact nomatch h
  split at h
  · exact nomatch h
  rw [← Option.some.inj h]
  exact nodup_eraseDups selected

theorem replay_insertPollVoteOptions (poll voter : Int) (options : List Bytes) (d : DB) :
    locking.replay (options.map (.insertPollVoteOption poll voter)) d =
      { d with pollVoteOptions := d.pollVoteOptions ++ options.map (⟨poll, voter, ·⟩) } := by
  induction options generalizing d with
  | nil => simp
  | cons o options ih =>
    rw [map_cons, Rows.replay_cons, ih]
    simp [locking, Write.apply]

def DB.withVote (d : DB) (poll voter : Int) (options : List Bytes) : DB :=
  { d with
    pollVotes := insertAbsent (PollVote.isFor poll voter) ⟨poll, voter⟩ d.pollVotes
    pollVoteOptions := d.pollVoteOptions.filter (fun v => !isFor poll voter v) ++
      options.map (⟨poll, voter, ·⟩) }

def DB.withoutVote (d : DB) (poll voter : Int) : DB :=
  { d with
    pollVotes := d.pollVotes.filter fun v => !PollVote.isFor poll voter v
    pollVoteOptions := d.pollVoteOptions.filter fun v => !isFor poll voter v }

theorem replay_voteWrites (poll voter : Int) (hasVote : Bool) (options : List Bytes) (d : DB) :
    locking.replay (voteWrites poll voter hasVote options) d =
      if options = [] then if hasVote then d.withoutVote poll voter else d
      else d.withVote poll voter options := by
  unfold voteWrites
  split
  · split
    · rfl
    · rfl
  · rw [Rows.replay_cons, Rows.replay_cons, replay_insertPollVoteOptions]
    rfl

theorem PollVote.isFor_iff {v : PollVote} : PollVote.isFor poll voter v ↔ v = ⟨poll, voter⟩ := by
  cases v
  simp [PollVote.isFor]

theorem DB.mem_pollVotes : ⟨poll, voter⟩ ∈ d.pollVotes ↔ d.hasPollVote poll voter := by
  simp only [DB.hasPollVote, any_eq_true, PollVote.isFor_iff, exists_eq_right]

theorem DB.selected_withVote {p : Int} : (d.withVote poll voter options).selected p u o ↔
      if p = poll ∧ u = voter then o ∈ options else d.selected p u o := by
  simp only [DB.selected, DB.withVote, mem_append, mem_filter, isFor,
    mem_map, PollVoteOption.mk.injEq]
  split
  · rename_i h
    obtain ⟨rfl, rfl⟩ := h
    simp
  · rename_i h
    have hnew : ¬ ∃ x ∈ options, poll = p ∧ voter = u ∧ x = o := by
      rintro ⟨_, _, hp, hu, _⟩
      exact h ⟨hp.symm, hu.symm⟩
    simp only [hnew, or_false, h, decide_false, Bool.not_false, and_true]

theorem DB.selected_withoutVote {p : Int} :
    (d.withoutVote poll voter).selected p u o ↔ ¬ (p = poll ∧ u = voter) ∧ d.selected p u o := by
  simp only [DB.selected, DB.withoutVote, isFor, mem_filter, Bool.not_eq_true',
    decide_eq_false_iff_not, and_comm]

theorem DB.voted_withVote {p : Int} :
    ⟨p, u⟩ ∈ (d.withVote poll voter options).pollVotes ↔ ⟨p, u⟩ ∈ d.pollVotes ∨ p = poll ∧
      u = voter := by
  simp only [DB.withVote, insertAbsent]
  split
  · rename_i h
    obtain ⟨v, hv, hat⟩ := any_eq_true.mp h
    rw [PollVote.isFor_iff] at hat
    subst hat
    constructor
    · exact .inl
    · rintro (h | ⟨rfl, rfl⟩)
      · exact h
      · exact hv
  · simp [PollVote.mk.injEq]

theorem DB.voted_withoutVote {p : Int} :
    ⟨p, u⟩ ∈ (d.withoutVote poll voter).pollVotes ↔
      ¬ (p = poll ∧ u = voter) ∧ ⟨p, u⟩ ∈ d.pollVotes := by
  simp only [DB.withoutVote, PollVote.isFor, mem_filter, Bool.not_eq_true',
    decide_eq_false_iff_not, and_comm]

theorem VoteOk.option (h : VoteOk checked row voter options d) (ho : o ∈ options) :
    ∃ x ∈ d.pollOptions, x.pollID = row.id ∧ x.option = o := by
  have hknown := h.known o ho
  simp only [DB.pollOptionResults, map_map, mem_map, mem_insertionSort,
    mem_filter, decide_eq_true_eq, Function.comp] at hknown
  obtain ⟨x, ⟨hx, hp⟩, rfl⟩ := hknown
  exact ⟨x, hx, hp, rfl⟩

theorem PollsOk.withVote (h : PollsOk d) (hrow : row ∈ d.polls)
    (hok : VoteOk checked row voter options d) (hnodup : options.Nodup) (hne : options ≠ []) :
    PollsOk (d.withVote row.id voter options) where
  ids := h.ids
  votes := by
    simp only [DB.withVote, insertAbsent]
    split
    · exact h.votes
    · rename_i hno
      refine nodup_append.mpr ⟨h.votes, by simp, ?_⟩
      rintro v hv _ hv' rfl
      rw [mem_singleton] at hv'
      exact hno (any_eq_true.mpr ⟨v, hv, PollVote.isFor_iff.mpr hv'⟩)
  selections := by
    refine nodup_append.mpr ⟨h.selections.filter _, ?_, ?_⟩
    · exact hnodup.map fun o o' heq => by simpa using heq
    · rintro s hs _ hs' rfl
      obtain ⟨o, -, rfl⟩ := mem_map.mp hs'
      have hfor := (mem_filter.mp hs).2
      simp [isFor] at hfor
  voted p u := by
    rw [DB.voted_withVote]
    simp only [DB.selected_withVote]
    by_cases hpu : p = row.id ∧ u = voter
    · simp only [if_pos hpu]
      exact ⟨fun _ => exists_mem_of_ne_nil options hne, fun _ => .inr hpu⟩
    · simp only [hpu, or_false]
      exact h.voted p u
  options := h.options
  known p u o ho := by
    rw [DB.selected_withVote] at ho
    split at ho
    · rename_i hpu
      rw [hpu.1]
      exact hok.option ho
    · exact h.known p u o ho
  single p hp hone u o o' ho ho' := by
    rw [DB.selected_withVote] at ho ho'
    by_cases hpu : p.id = row.id ∧ u = voter
    · rw [if_pos hpu] at ho ho'
      obtain rfl := h.ids p hp row hrow hpu.1
      have hlen : options.length ≤ 1 := by
        by_contra hmany
        exact absurd (hok.single (not_le.mp hmany)) (by simp [hone])
      obtain ⟨x, rfl⟩ := length_eq_one_iff.mp (le_antisymm hlen (length_pos_of_mem ho))
      rw [mem_singleton.mp ho, mem_singleton.mp ho']
    · rw [if_neg hpu] at ho ho'
      exact h.single p hp hone u o o' ho ho'
  links := h.links
  keys := h.keys
  linked := h.linked

theorem PollsOk.withoutVote (h : PollsOk d) (poll voter : Int) :
    PollsOk (d.withoutVote poll voter) where
  ids := h.ids
  votes := h.votes.filter _
  selections := h.selections.filter _
  voted p u := by
    rw [DB.voted_withoutVote, h.voted]
    simp only [DB.selected_withoutVote, exists_and_left]
  options := h.options
  known p u o ho := h.known p u o (DB.selected_withoutVote.mp ho).2
  single p hp hone u o o' ho ho' :=
    h.single p hp hone u o o' (DB.selected_withoutVote.mp ho).2 (DB.selected_withoutVote.mp ho').2
  links := h.links
  keys := h.keys
  linked := h.linked

theorem PollsOk.closePoll (h : PollsOk d) (poll : Int) :
    PollsOk ((Write.closePoll poll).apply d) := by
  have hmem : ∀ p ∈ ((Write.closePoll poll).apply d).polls, ∃ q ∈ d.polls,
      p = (if q.id = poll then { q with closed := true } else q) := by
    intro p hp
    obtain ⟨q, hq, rfl⟩ := mem_map.mp hp
    exact ⟨q, hq, by simp⟩
  have hid : ∀ q : Poll, (if q.id = poll then { q with closed := true } else q).id = q.id := by
    intro q
    split
    · rfl
    · rfl
  have hmulti : ∀ q : Poll, (if q.id = poll then { q with closed := true } else q).multipleChoice =
      q.multipleChoice := by
    intro q
    split
    · rfl
    · rfl
  have hhas : ∀ id, d.hasPoll id → ((Write.closePoll poll).apply d).hasPoll id := by
    intro id hd
    obtain ⟨q, hq, rfl⟩ := DB.hasPoll_iff.mp hd
    exact DB.hasPoll_iff.mpr ⟨_, mem_map_of_mem hq, by simpa using hid q⟩
  refine ⟨fun p hp p' hp' heq => ?_, h.votes, h.selections, h.voted,
    fun o ho => hhas _ (h.options o ho), h.known, fun p hp hone => ?_,
      fun c hc => (h.links c hc).imp_left (hhas _), h.keys, fun p hp => ?_⟩
  · obtain ⟨q, hq, rfl⟩ := hmem p hp
    obtain ⟨q', hq', rfl⟩ := hmem p' hp'
    rw [hid, hid] at heq
    rw [h.ids q hq q' hq' heq]
  · obtain ⟨q, hq, rfl⟩ := hmem p hp
    rw [hmulti] at hone
    rw [hid]
    exact h.single q hq hone
  · obtain ⟨q, hq, rfl⟩ := hmem p hp
    rw [hid]
    exact h.linked q hq

/-! ## Creation -/

theorem replay_insertPollOptions (options : List PollOption) (d : DB) :
    locking.replay (options.map .insertPollOption) d =
      { d with pollOptions := d.pollOptions ++ options } := by
  induction options generalizing d with
  | nil => simp
  | cons o options ih =>
    rw [map_cons, Rows.replay_cons, ih]
    simp [locking, Write.apply]

theorem replay_links (poll : Int) (links : Owned) (d : DB) :
    locking.replay (links.map fun k => .insertPollMessageCopy k.1 k.2 poll) d =
      { d with pollCopies := d.pollCopies ++ links.map fun k => ⟨k.1, k.2, poll⟩ } := by
  induction links generalizing d with
  | nil => simp
  | cons k links ih =>
    rw [map_cons, Rows.replay_cons, ih]
    simp [locking, Write.apply]

/-- No link names a poll that is not there, so the row of a new one is stored. -/
theorem PollsOk.replay_createWrites (h : PollsOk d) {options : List PollOption}
    (habsent : d.hasPoll row.id = false) :
    locking.replay (createWrites row options links) d =
      { d with
        polls := d.polls ++ [row]
        pollOptions := d.pollOptions ++ options
        pollCopies := d.pollCopies ++ links.map fun k => ⟨k.1, k.2, row.id⟩ } := by
  have hfree : d.pollCopies.any (·.pollID = row.id) = false := by
    rw [any_eq_false]
    intro c hc heq
    have hhas := (h.links c hc).1
    rw [of_decide_eq_true heq, habsent] at hhas
    exact nomatch hhas
  rw [createWrites, Rows.replay_cons, locking.replay_append, replay_insertPollOptions, replay_links]
  simp [locking, Write.apply, hfree]

theorem DB.hasPollCopy_eq_false (h : d.hasPollCopy u l = false)
    (hc : c ∈ d.pollCopies) (hu : c.ownerID = u) (hl : c.localID = l) : False := by
  have := any_eq_false.mp h c hc
  exact this (PollCopy.isAt_iff.mpr ⟨hu, hl⟩)

theorem PollsOk.created (h : PollsOk d) {options : List PollOption}
    (hnew : NewPoll d row options links) :
    PollsOk (locking.replay (createWrites row options links) d) := by
  rw [h.replay_createWrites hnew.absent]
  have hother : ∀ p ∈ d.polls, p.id ≠ row.id := by
    intro p hp heq
    have hhas : d.hasPoll row.id := DB.hasPoll_iff.mpr ⟨p, hp, heq⟩
    rw [hnew.absent] at hhas
    exact nomatch hhas
  have hselected : ∀ u o, ¬ d.selected row.id u o := by
    intro u o ho
    obtain ⟨x, hx, hp, -⟩ := h.known _ _ _ ho
    have hhas := h.options x hx
    rw [hp, hnew.absent] at hhas
    exact nomatch hhas
  constructor
  · intro p hp p' hp' heq
    rcases mem_append.mp hp with hp | hp <;> rcases mem_append.mp hp' with hp' | hp'
    · exact h.ids p hp p' hp' heq
    · rw [mem_singleton.mp hp'] at heq
      exact absurd heq (hother p hp)
    · rw [mem_singleton.mp hp] at heq
      exact absurd heq.symm (hother p' hp')
    · rw [mem_singleton.mp hp, mem_singleton.mp hp']
  · exact h.votes
  · exact h.selections
  · exact h.voted
  · intro o ho
    rw [DB.hasPoll_iff]
    rcases mem_append.mp ho with ho | ho
    · obtain ⟨p, hp, hid⟩ := DB.hasPoll_iff.mp (h.options o ho)
      exact ⟨p, mem_append_left _ hp, hid⟩
    · exact ⟨row, by simp, (hnew.own o ho).symm⟩
  · intro p u o ho
    obtain ⟨x, hx, hxo⟩ := h.known p u o ho
    exact ⟨x, mem_append_left _ hx, hxo⟩
  · intro p hp hone u o o' ho ho'
    rcases mem_append.mp hp with hp | hp
    · exact h.single p hp hone u o o' ho ho'
    · rw [mem_singleton.mp hp] at ho
      exact absurd ho (hselected u o)
  · intro c hc
    rw [DB.hasPoll_iff]
    rcases mem_append.mp hc with hc | hc
    · obtain ⟨hhas, hlive⟩ := h.links c hc
      obtain ⟨p, hp, hid⟩ := DB.hasPoll_iff.mp hhas
      exact ⟨⟨p, mem_append_left _ hp, hid⟩, hlive⟩
    · obtain ⟨k, hk, rfl⟩ := mem_map.mp hc
      exact ⟨⟨row, by simp, rfl⟩, hnew.live k hk⟩
  · intro c hc c' hc' hu hl
    rcases mem_append.mp hc with hc | hc <;> rcases mem_append.mp hc' with hc' | hc'
    · exact h.keys c hc c' hc' hu hl
    · obtain ⟨k, hk, rfl⟩ := mem_map.mp hc'
      exact (DB.hasPollCopy_eq_false (hnew.free k hk) hc hu hl).elim
    · obtain ⟨k, hk, rfl⟩ := mem_map.mp hc
      exact (DB.hasPollCopy_eq_false (hnew.free k hk) hc' hu.symm hl.symm).elim
    · obtain ⟨k, -, rfl⟩ := mem_map.mp hc
      obtain ⟨k', -, rfl⟩ := mem_map.mp hc'
      obtain rfl : k = k' := Prod.ext hu hl
      rfl
  · intro p hp
    rcases mem_append.mp hp with hp | hp
    · obtain ⟨c, hc, hid⟩ := h.linked p hp
      exact ⟨c, mem_append_left _ hc, hid⟩
    · obtain ⟨k, hk⟩ := exists_mem_of_ne_nil links hnew.linked
      rw [mem_singleton.mp hp]
      exact ⟨⟨k.1, k.2, row.id⟩, mem_append_right _ (mem_map.mpr ⟨k, hk, rfl⟩), rfl⟩

/-! ## Deletion -/

theorem live_delete {u' l' : Int} (hne : ¬ (u' = u ∧ l' = l)) (h : d.live u' l') :
    ((Act.delete u l now).apply d).live u' l' := by
  refine live_updateWhere (fun _ => ⟨rfl, rfl⟩) (fun m hq hat => ?_) h
  obtain ⟨hu, hl⟩ := Message.isAt_iff.mp hq
  obtain ⟨hu', hl'⟩ := Message.isAt_iff.mp hat
  exact absurd ⟨hu'.symm.trans hu, hl'.symm.trans hl⟩ hne

theorem PollsOk.delete (h : PollsOk d)
    (hfree : ∀ c ∈ d.pollCopies, ¬ (c.ownerID = u ∧ c.localID = l)) :
    PollsOk ((Act.delete u l now).apply d) where
  ids := h.ids
  votes := h.votes
  selections := h.selections
  voted := h.voted
  options := h.options
  known := h.known
  single := h.single
  links c hc := (h.links c hc).imp_right (live_delete (hfree c hc))
  keys := h.keys
  linked := h.linked

def DB.otherLinks (d : DB) (owner localID poll : Int) : List PollCopy :=
  d.pollCopies.filter fun c => !(PollCopy.isAt owner localID c && c.pollID = poll)

def DB.lastLink (d : DB) (owner localID poll id : Int) : Bool :=
  id = poll ∧ (d.otherLinks owner localID poll).any (·.pollID = poll) = false

/-- The tables without the link at a key, and with the last one without the poll. -/
def DB.withoutLink (d : DB) (owner localID poll : Int) : DB :=
  { d with
    polls := d.polls.filter fun p => !d.lastLink owner localID poll p.id
    pollOptions := d.pollOptions.filter fun o => !d.lastLink owner localID poll o.pollID
    pollVotes := d.pollVotes.filter fun v => !d.lastLink owner localID poll v.pollID
    pollVoteOptions := d.pollVoteOptions.filter fun v => !d.lastLink owner localID poll v.pollID
    pollCopies := d.otherLinks owner localID poll }

theorem DB.mem_otherLinks : c ∈ d.otherLinks u l poll ↔
    c ∈ d.pollCopies ∧ ¬ ((c.ownerID = u ∧ c.localID = l) ∧ c.pollID = poll) := by
  simp only [DB.otherLinks, mem_filter, Bool.not_eq_true', Bool.and_eq_false_iff, PollCopy.isAt,
    decide_eq_false_iff_not, not_and_or]

theorem DB.lastLink_iff : d.lastLink u l poll id = true ↔
    id = poll ∧ ∀ c ∈ d.otherLinks u l poll, c.pollID ≠ poll := by
  simp [DB.lastLink]

theorem DB.lastLink_of_mem (hc : c ∈ d.otherLinks u l poll) :
    d.lastLink u l poll c.pollID = false := by
  rw [← Bool.not_eq_true, DB.lastLink_iff]
  exact fun h => h.2 c hc h.1

theorem DB.selected_withoutLink {p x : Int} : (d.withoutLink u l poll).selected p x o ↔
    d.selected p x o ∧ d.lastLink u l poll p = false := by
  simp [DB.selected, DB.withoutLink]

theorem DB.mem_polls_withoutLink : p ∈ (d.withoutLink u l poll).polls ↔
    p ∈ d.polls ∧ d.lastLink u l poll p.id = false := by
  simp [DB.withoutLink]

theorem DB.hasPoll_withoutLink (h : d.hasPoll id) (hlast : d.lastLink u l poll id = false) :
    (d.withoutLink u l poll).hasPoll id := by
  obtain ⟨p, hp, rfl⟩ := DB.hasPoll_iff.mp h
  exact DB.hasPoll_iff.mpr ⟨p, DB.mem_polls_withoutLink.mpr ⟨hp, hlast⟩, rfl⟩

theorem PollsOk.withoutLink (h : PollsOk d) (u l poll : Int) :
    PollsOk (d.withoutLink u l poll) where
  ids p hp p' hp' :=
    h.ids p (DB.mem_polls_withoutLink.mp hp).1 p' (DB.mem_polls_withoutLink.mp hp').1
  votes := h.votes.filter _
  selections := h.selections.filter _
  voted p x := by
    have hvotes : ⟨p, x⟩ ∈ (d.withoutLink u l poll).pollVotes ↔
        ⟨p, x⟩ ∈ d.pollVotes ∧ d.lastLink u l poll p = false := by
      simp [DB.withoutLink]
    simp only [hvotes, h.voted, DB.selected_withoutLink, exists_and_right]
  options o ho := by
    obtain ⟨ho, hlast⟩ := mem_filter.mp ho
    exact DB.hasPoll_withoutLink (h.options o ho) (by simpa using hlast)
  known p x o ho := by
    obtain ⟨ho, hlast⟩ := DB.selected_withoutLink.mp ho
    obtain ⟨y, hy, rfl, hyo⟩ := h.known p x o ho
    exact ⟨y, mem_filter.mpr ⟨hy, by simp [hlast]⟩, rfl, hyo⟩
  single p hp hone x o o' ho ho' :=
    h.single p (DB.mem_polls_withoutLink.mp hp).1 hone x o o' (DB.selected_withoutLink.mp ho).1
      (DB.selected_withoutLink.mp ho').1
  links c hc := by
    obtain ⟨hhas, hlive⟩ := h.links c (DB.mem_otherLinks.mp hc).1
    exact ⟨DB.hasPoll_withoutLink hhas (DB.lastLink_of_mem hc), hlive⟩
  keys c hc c' hc' := h.keys c (DB.mem_otherLinks.mp hc).1 c' (DB.mem_otherLinks.mp hc').1
  linked p hp := by
    obtain ⟨hp, hlast⟩ := DB.mem_polls_withoutLink.mp hp
    obtain ⟨c, hc, hid⟩ := h.linked p hp
    by_cases hpoll : p.id = poll
    · -- Another link of the poll is left, or the row would be gone.
      obtain ⟨c', hc', hid'⟩ : ∃ c' ∈ d.otherLinks u l poll, c'.pollID = poll := by
        by_contra hnone
        rw [← Bool.not_eq_true, DB.lastLink_iff] at hlast
        exact hlast ⟨hpoll, fun c hc heq => hnone ⟨c, hc, heq⟩⟩
      exact ⟨c', hc', hid'.trans hpoll.symm⟩
    · exact ⟨c, DB.mem_otherLinks.mpr ⟨hc, fun hx => hpoll (hid.symm.trans hx.2)⟩, hid⟩

theorem PollsOk.cleanedPoll (h : PollsOk d) (hlive : d.live u l) :
    d.cleanedPoll u l = none ∧ (∀ c ∈ d.pollCopies, ¬ (c.ownerID = u ∧ c.localID = l)) ∨
      ∃ poll, d.cleanedPoll u l = some poll ∧
        ∀ c ∈ d.pollCopies, c.ownerID = u ∧ c.localID = l → c.pollID = poll := by
  have hn : d.undeleted u l ≠ 0 := by
    obtain ⟨m, hm, hat, hdel⟩ := hlive
    exact (length_pos_of_mem (mem_filter.mpr ⟨hm, by simp [hat, hdel]⟩)).ne'
  rw [DB.cleanedPoll, if_neg hn]
  cases hcopy : d.pollCopy u l with
  | none =>
    left
    refine ⟨rfl, fun c hc hat => ?_⟩
    have hnone := find?_eq_none.mp (Option.map_eq_none_iff.mp hcopy) c hc
    exact hnone (PollCopy.isAt_iff.mpr hat)
  | some poll =>
    right
    obtain ⟨c, hc, hat, rfl⟩ := DB.pollCopy_some hcopy
    obtain ⟨hu, hl⟩ := PollCopy.isAt_iff.mp hat
    refine ⟨c.pollID, by simp [(h.links c hc).1], fun c' hc' hat' => ?_⟩
    rw [h.keys c' hc' c hc (hat'.1.trans hu.symm) (hat'.2.trans hl.symm)]

theorem runActs_cleanup {poll : Option Int} :
    runActs ((pollMessageCopyCleanup u l poll).map .side ++ [Act.delete u l now]) d =
      (Act.delete u l now).apply (match poll with | none => d | some p => d.withoutLink u l p) := by
  cases poll with
  | none | some => rfl

theorem PollsOk.deletes (h : PollsOk d) (hdel : Deletes as d) : PollsOk (runActs as d) := by
  induction hdel with
  | nil => exact h
  | snoc u l now hdel hlive ih =>
    rw [runActs_append, runActs_cleanup]
    obtain ⟨hnone, hfree⟩ | ⟨poll, hsome, hshown⟩ := (ih h).cleanedPoll hlive
    · rw [hnone]
      exact (ih h).delete hfree
    · rw [hsome]
      refine ((ih h).withoutLink u l poll).delete fun c hc hat => ?_
      obtain ⟨hc, hother⟩ := DB.mem_otherLinks.mp hc
      exact hother ⟨hat, hshown c hc hat⟩

theorem PollEffect.pollsOk (h : PollEffect t d w) (hd : PollsOk d) : PollsOk w := by
  cases h with
  | spared h => exact hd.spared h
  | voted times viewerID ref selected options row call found normal ok eq =>
    rw [eq, replay_voteWrites]
    split
    · split
      · exact hd.withoutVote _ _
      · exact hd
    · rename_i hne
      exact hd.withVote (DB.mem_polls_of_pollByID found) ok
        (nodup_of_normalizePollSelection normal) hne
  | closed poll eq =>
    rw [eq]
    exact hd.closePoll poll
  | created row options links new eq =>
    rw [eq]
    exact hd.created new
  | deleted as acts eq =>
    rw [eq]
    exact hd.deletes acts

/-! ## What stays -/

def Admits (t : Call) (d : DB) (p : Poll) (voter : Int) : Prop :=
  ∃ times ref selected, t = .castVote times voter ref selected ∧ p.closed = false ∧
    (∀ date, p.closeDate = some date → times.checked < date) ∧
    (p.revotingDisabled = true → d.hasPollVote p.id voter = false)

structure SamePoll (p p' : Poll) : Prop where
  id : p'.id = p.id
  revotingDisabled : p'.revotingDisabled = p.revotingDisabled
  closeDate : p'.closeDate = p.closeDate
  closed : p.closed = true → p'.closed = true

theorem SamePoll.refl (p : Poll) : SamePoll p p := ⟨rfl, rfl, rfl, fun h => h⟩

theorem SamePoll.trans {q r : Poll} (h : SamePoll p q) (h' : SamePoll q r) : SamePoll p r :=
  ⟨h'.id.trans h.id, h'.revotingDisabled.trans h.revotingDisabled, h'.closeDate.trans h.closeDate,
    fun hc => h'.closed (h.closed hc)⟩

theorem byVoter_congr {q : PollVoteOption → Bool} {new : List PollVoteOption} {p : Int}
    (hw : w.pollVoteOptions = d.pollVoteOptions.filter q ++ new)
    (hq : ∀ s, isFor p u s → q s) (hnew : ∀ s ∈ new, ¬ isFor p u s) :
    w.pollVoteOptionsByVoter p u = d.pollVoteOptionsByVoter p u := by
  have hnil : new.filter (isFor p u) = [] := filter_eq_nil_iff.mpr hnew
  rw [DB.pollVoteOptionsByVoter, hw, filter_append, hnil, append_nil, filter_filter,
    DB.pollVoteOptionsByVoter]
  congr 1
  refine filter_congr fun s _ => ?_
  cases hs : isFor p u s with
  | false => rfl
  | true => simp [hq s hs]

theorem isFor_ne {p p' u' : Int} {s : PollVoteOption} (hne : ¬ (p = p' ∧ u = u'))
    (hs : isFor p u s) : ¬ isFor p' u' s := by
  simp only [isFor, decide_eq_true_eq] at hs ⊢
  exact fun h => hne ⟨hs.1.symm.trans h.1, hs.2.symm.trans h.2⟩

theorem byVoter_voteWrites {p : Int} {hasVote : Bool} (hne : ¬ (p = poll ∧ u = voter)) :
    (locking.replay (voteWrites poll voter hasVote options) d).pollVoteOptionsByVoter p u =
      d.pollVoteOptionsByVoter p u := by
  have hkept : ∀ s, isFor p u s → (!isFor poll voter s) = true :=
    fun s hs => by simpa using isFor_ne hne hs
  rw [replay_voteWrites]
  split
  · split
    · exact byVoter_congr (append_nil _).symm hkept (by simp)
    · rfl
  · refine byVoter_congr rfl hkept fun s hs hfor => ?_
    obtain ⟨o, -, rfl⟩ := mem_map.mp hs
    simp only [isFor, decide_eq_true_eq] at hfor
    exact hne ⟨hfor.1.symm, hfor.2.symm⟩

/-- A poll that deletions leave was there before, with the same selections. -/
theorem Deletes.kept (h : Deletes as d) (hp : p ∈ (runActs as d).polls) : p ∈ d.polls ∧
      ∀ u, (runActs as d).pollVoteOptionsByVoter p.id u = d.pollVoteOptionsByVoter p.id u := by
  induction h with
  | nil => exact ⟨hp, fun _ => rfl⟩
  | snoc u l now hdel hlive ih =>
    rw [runActs_append, runActs_cleanup] at hp ⊢
    split at hp
    · exact ih hp
    · obtain ⟨hp, hlast⟩ := DB.mem_polls_withoutLink.mp hp
      obtain ⟨hold, hsame⟩ := ih hp
      refine ⟨hold, fun x => Eq.trans (byVoter_congr (append_nil _).symm (fun s hs => ?_) (by simp))
        (hsame x)⟩
      simp only [isFor, decide_eq_true_eq] at hs
      rw [hs.1, hlast]
      rfl

/-- A call leaves a voter's selections in a poll as they are, or it is that voter's admitted
vote. -/
theorem PollEffect.kept (h : PollEffect t d w) (hd : PollsOk d) (hp : p ∈ d.polls)
    (hw : w.hasPoll p.id) : ∃ p' ∈ w.polls, SamePoll p p' ∧ ∀ voter,
      w.pollVoteOptionsByVoter p.id voter = d.pollVoteOptionsByVoter p.id voter ∨
        Admits t d p voter := by
  cases h with
  | spared h =>
    refine ⟨p, h.polls ▸ hp, .refl p, fun voter => .inl ?_⟩
    rw [DB.pollVoteOptionsByVoter, h.selections, DB.pollVoteOptionsByVoter]
  | voted times viewerID ref selected options row call found normal ok eq =>
    have hpolls : w.polls = d.polls := by
      rw [eq, replay_voteWrites]
      split
      · split
        · rfl
        · rfl
      · rfl
    refine ⟨p, hpolls ▸ hp, .refl p, fun voter => ?_⟩
    by_cases hpu : p.id = row.id ∧ voter = viewerID
    · obtain ⟨hid, rfl⟩ := hpu
      obtain rfl := hd.ids p hp row (DB.mem_polls_of_pollByID found) hid
      have hopen := ok.isOpen
      rw [DB.pollIsClosed, found, Option.map_some, Option.some.injEq, Bool.or_eq_false_iff] at hopen
      refine .inr ⟨times, ref, selected, call, hopen.1, fun date hdate => ?_, ok.revote⟩
      have hafter := hopen.2
      rw [hdate] at hafter
      simpa using hafter
    · left
      rw [eq]
      exact byVoter_voteWrites hpu
  | closed poll eq =>
    rw [eq]
    refine ⟨_, mem_map_of_mem hp, ?_, fun voter => .inl rfl⟩
    split
    · exact ⟨rfl, rfl, rfl, fun _ => rfl⟩
    · exact .refl p
  | created row options links new eq =>
    rw [eq, hd.replay_createWrites new.absent]
    exact ⟨p, mem_append_left _ hp, .refl p, fun voter => .inl rfl⟩
  | deleted as acts eq =>
    rw [eq] at hw ⊢
    obtain ⟨p', hp', hid⟩ := DB.hasPoll_iff.mp hw
    obtain ⟨hold, hsame⟩ := acts.kept hp'
    obtain rfl := hd.ids p' hold p hp hid
    exact ⟨p', hp', .refl p', fun voter => .inl (hsame voter)⟩

theorem PollsOk.hasPollVote_iff (h : PollsOk d) (poll voter : Int) :
    d.hasPollVote poll voter = true ↔ d.pollVoteOptionsByVoter poll voter ≠ [] := by
  rw [← DB.mem_pollVotes, h.voted, DB.pollVoteOptionsByVoter, Ne, map_eq_nil_iff, filter_eq_nil_iff]
  constructor
  · rintro ⟨o, ho⟩ hnone
    exact hnone _ ho (by simp [isFor])
  · intro hsome
    by_contra hnone
    refine hsome fun s hs hfor => hnone ⟨s.option, ?_⟩
    simp only [isFor, decide_eq_true_eq] at hfor
    obtain ⟨rfl, rfl⟩ := hfor
    exact hs

def DB.voters (d : DB) (poll : Int) : Finset Int :=
  ((d.pollVoteOptions.filter (·.pollID = poll)).map (·.voterID)).toFinset

def DB.selectors (d : DB) (poll : Int) (option : Bytes) : Finset Int :=
  ((d.pollVoteOptions.filter fun s => s.pollID = poll ∧ s.option = option).map (·.voterID)).toFinset

theorem PollsOk.pollVoterCount (h : PollsOk d) (poll : Int) :
    d.pollVoterCount poll = (d.voters poll).card := by
  have hnodup : ((d.pollVotes.filter (·.pollID = poll)).map (·.voterID)).Nodup := by
    refine (h.votes.filter _).map_on fun v hv v' hv' heq => ?_
    have hp : v.pollID = poll := by simpa using (mem_filter.mp hv).2
    have hp' : v'.pollID = poll := by simpa using (mem_filter.mp hv').2
    cases v
    cases v'
    simp_all
  have hsame :
      d.voters poll = ((d.pollVotes.filter (·.pollID = poll)).map (·.voterID)).toFinset := by
    ext u
    have hvoted := h.voted poll u
    simp only [DB.voters, mem_toFinset, mem_map, mem_filter, decide_eq_true_eq]
    constructor
    · rintro ⟨s, ⟨hs, rfl⟩, rfl⟩
      exact ⟨_, ⟨hvoted.mpr ⟨s.option, hs⟩, rfl⟩, rfl⟩
    · rintro ⟨v, ⟨hv, rfl⟩, rfl⟩
      obtain ⟨o, ho⟩ := hvoted.mp hv
      exact ⟨_, ⟨ho, rfl⟩, rfl⟩
  rw [hsame, toFinset_card_of_nodup hnodup, length_map, DB.pollVoterCount]

theorem PollsOk.selectors (h : PollsOk d) (poll : Int) (option : Bytes) :
    (d.pollVoteOptions.filter fun s => s.pollID = poll ∧ s.option = option).length =
      (d.selectors poll option).card := by
  have hnodup : ((d.pollVoteOptions.filter fun s => s.pollID = poll ∧ s.option = option).map
      (·.voterID)).Nodup := by
    refine (h.selections.filter _).map_on fun s hs s' hs' heq => ?_
    have hp := of_decide_eq_true (mem_filter.mp hs).2
    have hp' := of_decide_eq_true (mem_filter.mp hs').2
    cases s
    cases s'
    simp_all
  rw [DB.selectors, toFinset_card_of_nodup hnodup, length_map]

/-! ## Every interleaving -/

/-- The tables of the polls agree with each other, and what is reported of them with the tables. -/
structure PollsConsistent (d : DB) : Prop where
  voted : ∀ poll voter, d.hasPollVote poll voter = true ↔ ∃ option, d.selected poll voter option
  known : ∀ poll voter option, d.selected poll voter option →
    ∃ o ∈ d.pollOptions, o.pollID = poll ∧ o.option = option
  single : ∀ p ∈ d.polls, p.multipleChoice = false → ∀ voter o o',
    d.selected p.id voter o → d.selected p.id voter o' → o = o'
  reported : ∀ p ∈ d.polls, ∀ clock viewer, ∃ view, d.pollView clock p viewer = some view ∧
    view.voterCount = (d.voters p.id).card ∧
    ∀ a ∈ view.answers, a.voterCount = (d.selectors p.id a.option).card
  linked : ∀ id, d.hasPoll id = true ↔ ∃ c ∈ d.pollCopies, c.pollID = id ∧
    d.live c.ownerID c.localID

theorem PollsOk.consistent (h : PollsOk d) : PollsConsistent d where
  voted poll voter := by
    rw [← DB.mem_pollVotes]
    exact h.voted poll voter
  known := h.known
  single := h.single
  reported p hp clock viewer := by
    refine ⟨_, by rw [DB.pollView, DB.pollIsClosed, h.pollByID hp]; rfl, h.pollVoterCount p.id, ?_⟩
    intro a ha
    simp only [PollView.of, DB.pollOptionResults, map_map, mem_map, Function.comp] at ha
    obtain ⟨o, -, rfl⟩ := ha
    exact h.selectors p.id o.option
  linked id := by
    rw [DB.hasPoll_iff]
    constructor
    · rintro ⟨p, hp, rfl⟩
      obtain ⟨c, hc, hid⟩ := h.linked p hp
      exact ⟨c, hc, hid, (h.links c hc).2⟩
    · rintro ⟨c, hc, rfl, -⟩
      exact DB.hasPoll_iff.mp (h.links c hc).1

def Call.notBefore (date : Int) : Call → Prop
  | .castVote times _ _ _ => date ≤ times.checked
  | _ => True

variable {states : Owned} {files : List File} {c : StoreConfig}

theorem Reached.pollEffect (h : Reached states files c)
    (hr : r ∈ c.log) : PollEffect r.call r.pre r.post := by
  have hok := h.ok.records r hr
  cases ha : r.outcome.answer with
  | none =>
    rw [hok.unchanged ha]
    exact .spared (.refl _)
  | some a => exact (hok.spec ha).pollEffect

theorem Reached.pollsOk_pre (h : Reached states files c) (hr : r ∈ c.log) : PollsOk r.pre :=
  h.ok.leads.invariant_pre (fun _ hr' hpre => (h.pollEffect hr').pollsOk hpre)
    (pollsOk_initial states files) hr

theorem Reached.pollsOk (h : Reached states files c) : PollsOk c.db :=
  h.ok.leads.invariant (fun _ hr hpre => (h.pollEffect hr).pollsOk hpre)
    (pollsOk_initial states files)

/-- Selections that no call of a stretch may change are the same at its end. -/
theorem Reached.selections_kept (h : Reached states files c) {rs : List StoreRecord}
    {d' : DB} (hrs : ∀ r ∈ rs, r ∈ c.log) (hleads : Locking.Leads rs d d') (hp : p ∈ d.polls)
    (hthere : ∀ r ∈ rs, r.post.hasPoll p.id) (hfixed : ∀ r ∈ rs, ∀ q, SamePoll p q →
      r.pre.pollVoteOptionsByVoter p.id voter = d.pollVoteOptionsByVoter p.id voter →
      ¬ Admits r.call r.pre q voter) :
    d'.pollVoteOptionsByVoter p.id voter = d.pollVoteOptionsByVoter p.id voter := by
  -- Along the stretch the row stays, up to its closing, and so do the selections.
  have hall : ∀ (rs : List StoreRecord) (x : DB) (q : Poll), (∀ r ∈ rs, r ∈ c.log) →
      Locking.Leads rs x d' → q ∈ x.polls → SamePoll p q → (∀ r ∈ rs, r.post.hasPoll p.id) →
      (∀ r ∈ rs, ∀ q, SamePoll p q →
        r.pre.pollVoteOptionsByVoter p.id voter = d.pollVoteOptionsByVoter p.id voter →
        ¬ Admits r.call r.pre q voter) →
      x.pollVoteOptionsByVoter p.id voter = d.pollVoteOptionsByVoter p.id voter →
      d'.pollVoteOptionsByVoter p.id voter = d.pollVoteOptionsByVoter p.id voter := by
    intro rs
    induction rs with
    | nil =>
      intro x q _ hx _ _ _ _ hsame
      obtain rfl : d' = x := hx
      exact hsame
    | cons r rs ih =>
      intro x q hmem hx hq hpq hthere hfixed hsame
      obtain ⟨rfl, hrest⟩ := hx
      have hr := hmem r (by simp)
      have hpost : r.post.hasPoll q.id := hpq.id ▸ hthere r (by simp)
      obtain ⟨q', hq', hqq', hvoter⟩ := (h.pollEffect hr).kept (h.pollsOk_pre hr) hq hpost
      refine ih r.post q' (fun r' hr' => hmem r' (by simp [hr'])) hrest hq' (hpq.trans hqq')
        (fun r' hr' => hthere r' (by simp [hr'])) (fun r' hr' => hfixed r' (by simp [hr'])) ?_
      rcases hvoter voter with hkept | hadmits
      · rw [← hpq.id, hkept, hpq.id, hsame]
      · exact absurd hadmits (hfixed r (by simp) q hpq hsame)
  exact hall rs d p hrs hleads hp (.refl p) hthere hfixed rfl

/-- In every interleaving the polls are consistent in every committed state. While a poll is there,
a vote that may not be revised stays, the selections of a closed poll stay, and so do those of a
poll whose close date has passed for the checks of the votes. -/
theorem poll_votes_consistent (h : Reached states files c) : PollsConsistent c.db ∧
      ∀ before after d, c.log = before ++ after → Locking.Leads before (.initial states files) d →
        ∀ p ∈ d.polls, (∀ r ∈ after, r.post.hasPoll p.id = true) → ∀ voter,
          (p.revotingDisabled = true ∧ d.hasPollVote p.id voter = true ∨ p.closed = true ∨
            (∃ date, p.closeDate = some date ∧ ∀ r ∈ after, r.call.notBefore date)) →
          c.db.pollVoteOptionsByVoter p.id voter = d.pollVoteOptionsByVoter p.id voter := by
  refine ⟨h.pollsOk.consistent, fun before after d hlog hbefore p hp hthere voter hfinal => ?_⟩
  have hmem : ∀ r ∈ after, r ∈ c.log := fun r hr => hlog ▸ mem_append_right _ hr
  have hafter : Locking.Leads after d c.db := by
    have hleads := h.ok.leads
    rw [hlog] at hleads
    obtain ⟨m, hm, hrest⟩ := Locking.leads_append.mp hleads
    rwa [hbefore.unique hm]
  have hd : PollsOk d := hbefore.invariant
    (fun r hr hpre => (h.pollEffect (hlog ▸ mem_append_left _ hr)).pollsOk hpre)
    (pollsOk_initial states files)
  refine h.selections_kept hmem hafter hp hthere fun r hr q hpq hsame => ?_
  rintro ⟨times, ref, selected, hcall, hopen, hdate, hrevote⟩
  rcases hfinal with ⟨hno, hvote⟩ | hclosed | ⟨date, hclose, hlate⟩
  · have hnone := hrevote (hpq.revotingDisabled.trans hno)
    rw [hpq.id] at hnone
    have hsome := (hd.hasPollVote_iff p.id voter).mp hvote
    rw [← hsame] at hsome
    rw [((h.pollsOk_pre (hmem r hr)).hasPollVote_iff p.id voter).mpr hsome] at hnone
    exact nomatch hnone
  · rw [hpq.closed hclosed] at hopen
    exact nomatch hopen
  · have hbefore := hdate date (hpq.closeDate.trans hclose)
    have hnot := hlate r hr
    rw [hcall] at hnot
    exact absurd hbefore (not_lt.mpr hnot)

def savedRef : PollMessageRef := ⟨.user, 1, 1⟩

def savedDraft (revotingDisabled : Bool) (closeDate : Option Int) : PollDraft where
  question := [63]
  answers := [⟨[1], [97], false, 0, false⟩, ⟨[2], [98], false, 0, false⟩]
  revotingDisabled := revotingDisabled
  closeDate := closeDate

def sendSaved : Call := .send 10 ⟨1, 1, "poll", 7, 0, 0⟩

def createSaved (revotingDisabled : Bool) (closeDate : Option Int) : Call :=
  .createPoll ⟨50, 50⟩ [9] 1 savedRef (savedDraft revotingDisabled closeDate)

/-- The poll of a saved message, voted in before these calls. -/
def voted (ts : List Call) : StoreConfig :=
  serialRun [(1, 0)] []
    (sendSaved :: createSaved true none :: .castVote ⟨60, 60⟩ 1 savedRef [[1]] :: ts)

/-- A vote that may not be revised, and one that tries to. -/
theorem poll_votes_consistent_fixed : ∃ p ∈ (voted []).db.polls,
      PollsConsistent (voted [.castVote ⟨70, 70⟩ 1 savedRef [[2]]]).db ∧
      (voted [.castVote ⟨70, 70⟩ 1 savedRef [[2]]]).db.pollVoteOptionsByVoter p.id 1 = [[1]] := by
  have hrun := poll_votes_consistent (c := voted [.castVote ⟨70, 70⟩ 1 savedRef [[2]]])
    (reached_serialRun (by decide +kernel))
  have hbefore : Reached [(1, 0)] [] (voted []) := reached_serialRun (by decide +kernel)
  refine ⟨(savedDraft true none).row 1 7 1 9, by decide +kernel, hrun.1, ?_⟩
  refine (hrun.2 _ _ _ rfl hbefore.ok.leads _ (by decide +kernel) (by decide +kernel) 1
    (.inl ⟨rfl, by decide +kernel⟩)).trans (by decide +kernel)

def Reply.showsClosed : Reply → Bool
  | .poll view => view.closed
  | _ => false

/-- A vote is checked before the close date, a view at the close date finds the poll closed without
a vote, and then the vote commits. -/
theorem selection_changes_after_close_date :
    ∃ c, Reached [(1, 0)] [] c ∧ c.log.map (fun r =>
        (r.call, r.outcome.answer.any Reply.showsClosed, r.post.pollVoteOptionsByVoter 9 1)) =
      [(sendSaved, false, []), (createSaved false (some 100), false, []),
        (.viewPoll 100 1 savedRef, true, []),
        (.castVote ⟨99, 100⟩ 1 savedRef [[1]], true, [[1]])] :=
  Board.exists_run 2 ([Move.begin 0 sendSaved] ++ replicate 10 (Move.run 0) ++
    [Move.begin 0 (createSaved false (some 100))] ++ replicate 13 (Move.run 0) ++
    [Move.begin 0 (Call.castVote ⟨99, 100⟩ 1 savedRef [[1]])] ++ replicate 16 (Move.run 0) ++
    [Move.begin 1 (Call.viewPoll 100 1 savedRef), .run 1, .run 1, .run 0]) (by decide +kernel)

end TelegramServer.Store
