import TelegramServer.Store.Acts

/-!
# The store's invariant

Per owner: events and messages are numbered without gaps by the owner's
counters, every message was announced once, and later events name announced
messages. Across owners: a 1:1 message has its mirror, and the copies of one
chat message belong to one chat.
-/

namespace TelegramServer.Store

open Tx Tx.Table List
open Message (frozen isAt peerID peerType)

variable {u : Int} {p' : DB} {e : Event} {a : Act} {as : List Act} {d : DB} {os : List Write}
  {p : DB}

structure LogOk (u : Int) (p : DB) : Prop where
  pts_nonneg : 0 ≤ p.ptsOf u
  next_pos : 1 ≤ p.nextOf u
  events : Numbered (·.pts) p.events (p.ptsOf u)
  messages : Numbered (·.localID) p.messages (p.nextOf u - 1)
  announced : (p.events.filter (·.type = .newMessage)).map (·.localID) = p.messages.map (·.localID)
  later : ∀ e ∈ p.events, e.type = .edit ∨ e.type = .delete →
    ∃ e' ∈ p.events, e'.type = .newMessage ∧ e'.localID = e.localID ∧ e'.pts < e.pts
  deleted : ∀ m ∈ p.messages,
    m.deleted = true ↔ ∃ e ∈ p.events, e.type = .delete ∧ e.localID = m.localID
  kinds : ∀ m ∈ p.messages, m.kindOk
  randomIDs : Keyed (·.randomID) (·.localID) p.messages
  fanoutIDs : Keyed (·.fanoutID) (·.localID) p.messages

theorem ofOwner_replay (h : ∀ o ∈ os, o.owner = some u ∧ o.chat = none) (d : DB) :
    (locking.replay os d).ofOwner u = locking.replay os (d.ofOwner u) := by
  induction os generalizing d with
  | nil => rfl
  | cons o os ih =>
    rw [Rows.replay_cons, Rows.replay_cons, ih fun o' ho' => h o' (by simp [ho'])]
    congr 1
    exact ofOwner_apply (h o (by simp)).1 (h o (by simp)).2 d

theorem ofOwner_replay_of_ne (h : ∀ o ∈ os, o.owner ≠ some u) (d : DB) :
    (locking.replay os d).ofOwner u = d.ofOwner u :=
  Rows.replay_frame (f := (·.ofOwner u)) (fun o ho => ofOwner_apply_of_ne (h o ho)) d

@[simp] theorem DB.getState_ofOwner (d : DB) (u : Int) :
    (d.ofOwner u).getState u = d.getState u := by
  simp only [DB.getState, DB.ofOwner, find?_filter]
  congr 1
  funext s
  simp

@[simp] theorem DB.ptsOf_ofOwner (d : DB) (u : Int) : (d.ofOwner u).ptsOf u = d.ptsOf u := by
  simp [DB.ptsOf]

@[simp] theorem DB.nextOf_ofOwner (d : DB) (u : Int) : (d.ofOwner u).nextOf u = d.nextOf u := by
  simp [DB.nextOf]

theorem Act.writes_ofOwner (h : a.owner = some u) (d : DB) :
    a.writes (d.ofOwner u) = a.writes d := by
  cases a <;> simp_all [Act.owner, Act.writes]

theorem Act.writes_owner (h : a.owner = some u) (d : DB) :
    ∀ o ∈ a.writes d, o.owner = some u ∧ o.chat = none := by
  cases a with
  | side o =>
    simp only [Act.owner, Option.ite_none_right_eq_some] at h
    simp [Act.writes, h.1, h.2]
  | _ => simp_all [Act.owner, Act.writes, Write.owner, Write.chat]

theorem ofOwner_act (h : a.owner = some u) (d : DB) :
    (a.apply d).ofOwner u = a.apply (d.ofOwner u) := by
  rw [Act.apply, Act.apply, ofOwner_replay (a.writes_owner h d), a.writes_ofOwner h]

theorem ofOwner_act_of_ne (h : a.owner ≠ some u) (d : DB) :
    (a.apply d).ofOwner u = d.ofOwner u := by
  cases a with
  | side o =>
    change (o.apply d).ofOwner u = d.ofOwner u
    by_cases hc : o.chat = none
    · exact ofOwner_apply_of_ne (by simpa [Act.owner, hc] using h) d
    · exact ofOwner_apply_of_chat hc d u
  | _ =>
    refine ofOwner_replay_of_ne ?_ d
    simp_all [Act.owner, Act.writes, Write.owner]

/-! ## The acts keep the log -/

theorem getState_ensureUpdateState (u now : Int) (p : DB) :
    ((Write.ensureUpdateState u now).apply p).getState u =
      some ((p.getState u).getD { userID := u, date := now }) := by
  simp only [DB.getState, Write.apply, insertAbsent]
  cases hs : p.updateStates.find? (·.userID = u) with
  | none =>
    have hany : p.updateStates.any (·.userID = u) = false := by simpa using hs
    simp [hany, find?_append, hs]
  | some s =>
    have hany : p.updateStates.any (·.userID = u) = true :=
      any_eq_true.mpr ⟨s, mem_of_find?_eq_some hs, by simpa using find?_some hs⟩
    simp [hany, hs]

theorem getState_bumpState (u now : Int) (p : DB) :
    ((Write.bumpState u now).apply p).getState u = (p.getState u).map fun s =>
      { s with pts := s.pts + 1, nextLocalID := s.nextLocalID + 1, date := now } :=
  find?_updateWhere fun _ hs => hs

theorem getState_bumpPtsOnly (u now : Int) (p : DB) :
    ((Write.bumpPtsOnly u now).apply p).getState u =
      (p.getState u).map fun s => { s with pts := s.pts + 1, date := now } :=
  find?_updateWhere fun _ hs => hs

theorem LogOk.empty (hpts : p.ptsOf u = 0) (hnext : p.nextOf u = 1) (hevents : p.events = [])
    (hmessages : p.messages = []) : LogOk u p := by
  constructor <;> simp [hpts, hnext, hevents, hmessages, Numbered, upto, Keyed]

theorem LogOk.congr (h : LogOk u p) (hpts : p'.ptsOf u = p.ptsOf u)
    (hnext : p'.nextOf u = p.nextOf u) (hevents : p'.events = p.events)
    (hmessages : p'.messages = p.messages) : LogOk u p' := by
  obtain ⟨h1, h2, h3, h4, h5, h6, h7, h8, h9, h10⟩ := h
  constructor <;> (try rw [hpts]) <;> (try rw [hnext]) <;> (try rw [hevents]) <;>
    (try rw [hmessages]) <;> assumption

theorem LogOk.event (h : LogOk u p) (hpts : p'.ptsOf u = p.ptsOf u + 1)
    (hnext : p'.nextOf u = p.nextOf u) (hevents : p'.events = p.events ++ [e])
    (he : e.pts = p.ptsOf u + 1) (htype : e.type ≠ .newMessage)
    (hnames : e.type = .edit ∨ e.type = .delete → ∃ m ∈ p.messages, m.localID = e.localID)
    (hrows : p'.messages.map (fun m => (m.frozen, m.deleted)) = p.messages.map fun m =>
      (m.frozen, m.deleted || decide (e.type = .delete ∧ e.localID = m.localID))) :
    LogOk u p' := by
  have hfrozen : p'.messages.map frozen = p.messages.map frozen := by
    simpa [Function.comp_def] using congrArg (List.map Prod.fst) hrows
  have hcol : ∀ {β : Type} (k : Message → β), (∀ m, k m.frozen = k m) →
      p'.messages.map k = p.messages.map k := by
    intro β k hk
    simpa [Function.comp_def, hk] using congrArg (List.map k) hfrozen
  have hids : p'.messages.map (·.localID) = p.messages.map (·.localID) := hcol _ fun _ => rfl
  have hmem : ∀ m' ∈ p'.messages, ∃ m ∈ p.messages, m.frozen = m'.frozen ∧
      m'.deleted = (m.deleted || decide (e.type = .delete ∧ e.localID = m.localID)) := by
    intro m' hm'
    have : (m'.frozen, m'.deleted) ∈ p'.messages.map (fun m => (m.frozen, m.deleted)) :=
      mem_map_of_mem hm'
    rw [hrows] at this
    obtain ⟨m, hm, heq⟩ := mem_map.mp this
    exact ⟨m, hm, congrArg Prod.fst heq, (congrArg Prod.snd heq).symm⟩
  have hlast := fun m hm => (h.events.num_mem (x := m) hm).2
  constructor
  · rw [hpts]; have := h.pts_nonneg; omega
  · rw [hnext]; exact h.next_pos
  · rw [hpts, hevents]
    exact h.events.snoc h.pts_nonneg he
  · rw [Numbered, hids, hnext]
    exact h.messages
  · rw [hevents, hids, filter_append]
    simpa [htype] using h.announced
  · intro x hx hxt
    rw [hevents] at hx ⊢
    rcases mem_append.mp hx with hx | hx
    · obtain ⟨y, hy, hyt, hyl, hyp⟩ := h.later x hx hxt
      exact ⟨y, mem_append_left _ hy, hyt, hyl, hyp⟩
    · obtain rfl := mem_singleton.mp hx
      obtain ⟨m, hm, hml⟩ := hnames hxt
      -- The row was announced, at a pts that is not the new one.
      have : m.localID ∈ (p.events.filter (·.type = .newMessage)).map (·.localID) := by
        rw [h.announced]
        exact mem_map_of_mem hm
      obtain ⟨y, hy, hyl⟩ := mem_map.mp this
      obtain ⟨hy, hyt⟩ := mem_filter.mp hy
      have := hlast y hy
      exact ⟨y, mem_append_left _ hy, by simpa using hyt, hyl.trans hml, by omega⟩
  · intro m' hm'
    obtain ⟨m, hm, hf, hd⟩ := hmem m' hm'
    have hl : m.frozen.localID = m'.frozen.localID := congrArg Message.localID hf
    change m.localID = m'.localID at hl
    rw [hd, Bool.or_eq_true, h.deleted m hm, hevents]
    simp only [mem_append, mem_singleton, or_and_right, exists_or, exists_eq_left,
      decide_eq_true_eq, hl]
  · intro m' hm'
    obtain ⟨m, hm, hf, -⟩ := hmem m' hm'
    have : m.frozen.kindOk := h.kinds m hm
    rw [hf] at this
    exact this
  · exact h.randomIDs.congr (hcol _ fun _ => rfl)
  · exact h.fanoutIDs.congr (hcol _ fun _ => rfl)

theorem LogOk.post (h : LogOk u p) {m : Message}
    (hpts : p'.ptsOf u = p.ptsOf u + 1) (hnext : p'.nextOf u = p.nextOf u + 1)
    (hevents : p'.events = p.events ++ [e]) (hmessages : p'.messages = p.messages ++ [m])
    (he : e.pts = p.ptsOf u + 1) (htype : e.type = .newMessage) (hel : e.localID = m.localID)
    (hm : m.localID = p.nextOf u) (hdel : m.deleted = false) (hkind : m.kindOk)
    (hrandom : m.randomID ≠ 0 → ∀ m' ∈ p.messages, m'.randomID ≠ m.randomID)
    (hfanout : m.fanoutID ≠ 0 → ∀ m' ∈ p.messages, m'.fanoutID ≠ m.fanoutID) :
    LogOk u p' := by
  have hpos := h.next_pos
  -- Earlier events name earlier rows.
  have hold : ∀ x ∈ p.events, x.type = .delete → x.localID ≠ m.localID := by
    intro x hx hxt heq
    obtain ⟨y, hy, hyt, hyl, -⟩ := h.later x hx (.inr hxt)
    have : y.localID ∈ p.messages.map (·.localID) := by
      rw [← h.announced]
      exact mem_map_of_mem (mem_filter.mpr ⟨hy, by simpa using hyt⟩)
    obtain ⟨m', hm', hml⟩ := mem_map.mp this
    have := (h.messages.num_mem hm').2
    omega
  constructor
  · rw [hpts]; have := h.pts_nonneg; omega
  · rw [hnext]; omega
  · rw [hpts, hevents]
    exact h.events.snoc h.pts_nonneg he
  · rw [hnext, hmessages, show p.nextOf u + 1 - 1 = p.nextOf u - 1 + 1 by omega]
    exact h.messages.snoc (by omega) (by omega)
  · rw [hevents, hmessages, filter_append, map_append, map_append, h.announced]
    simp [htype, hel]
  · intro x hx hxt
    rw [hevents] at hx ⊢
    rcases mem_append.mp hx with hx | hx
    · obtain ⟨y, hy, hyt, hyl, hyp⟩ := h.later x hx hxt
      exact ⟨y, mem_append_left _ hy, hyt, hyl, hyp⟩
    · obtain rfl := mem_singleton.mp hx
      simp [htype] at hxt
  · intro m' hm'
    rw [hmessages] at hm'
    rw [hevents]
    simp only [mem_append, mem_singleton, or_and_right, exists_or, exists_eq_left, htype,
      reduceCtorEq, false_and, or_false]
    rcases mem_append.mp hm' with hm' | hm'
    · exact h.deleted m' hm'
    · obtain rfl := mem_singleton.mp hm'
      simp only [hdel, Bool.false_eq_true, false_iff, not_exists, not_and]
      exact fun x hx hxt => hold x hx hxt
  · intro m' hm'
    rw [hmessages] at hm'
    rcases mem_append.mp hm' with hm' | hm'
    · exact h.kinds m' hm'
    · rwa [mem_singleton.mp hm']
  · rw [hmessages]
    exact h.randomIDs.snoc hrandom
  · rw [hmessages]
    exact h.fanoutIDs.snoc hfanout

variable {now : Int} {p : DB}

theorem DB.ptsOf_congr (h : p'.updateStates = p.updateStates) : p'.ptsOf u = p.ptsOf u := by
  simp only [DB.ptsOf, DB.getState, h]

theorem DB.nextOf_congr (h : p'.updateStates = p.updateStates) : p'.nextOf u = p.nextOf u := by
  simp only [DB.nextOf, DB.getState, h]

theorem ptsOf_ensureUpdateState :
    ((Write.ensureUpdateState u now).apply p).ptsOf u = p.ptsOf u := by
  simp only [DB.ptsOf, getState_ensureUpdateState]
  cases p.getState u <;> rfl

theorem nextOf_ensureUpdateState :
    ((Write.ensureUpdateState u now).apply p).nextOf u = p.nextOf u := by
  simp only [DB.nextOf, getState_ensureUpdateState]
  cases p.getState u <;> rfl

theorem ptsOf_bumpState (h : (p.getState u).isSome) :
    ((Write.bumpState u now).apply p).ptsOf u = p.ptsOf u + 1 := by
  obtain ⟨s, hs⟩ := Option.isSome_iff_exists.mp h
  simp [DB.ptsOf, getState_bumpState, hs]

theorem nextOf_bumpState (h : (p.getState u).isSome) :
    ((Write.bumpState u now).apply p).nextOf u = p.nextOf u + 1 := by
  obtain ⟨s, hs⟩ := Option.isSome_iff_exists.mp h
  simp [DB.nextOf, getState_bumpState, hs]

theorem ptsOf_bumpPtsOnly (h : (p.getState u).isSome) :
    ((Write.bumpPtsOnly u now).apply p).ptsOf u = p.ptsOf u + 1 := by
  obtain ⟨s, hs⟩ := Option.isSome_iff_exists.mp h
  simp [DB.ptsOf, getState_bumpPtsOnly, hs]

theorem nextOf_bumpPtsOnly : ((Write.bumpPtsOnly u now).apply p).nextOf u = p.nextOf u := by
  simp only [DB.nextOf, getState_bumpPtsOnly]
  cases p.getState u <;> rfl

def Act.LogReady (p : DB) : Act → Prop
  | .post m _ _ =>
    (p.getState m.ownerID).isSome ∧ m.localID = p.nextOf m.ownerID ∧ m.deleted = false ∧ m.kindOk ∧
      (m.randomID ≠ 0 → ∀ m' ∈ p.messages, m'.ownerID = m.ownerID → m'.randomID ≠ m.randomID) ∧
      (m.fanoutID ≠ 0 → ∀ m' ∈ p.messages, m'.fanoutID = m.fanoutID → m'.ownerID ≠ m.ownerID)
  | .edit owner localID _ _ =>
    (p.getState owner).isSome ∧ ∃ m ∈ p.messages, m.localID = localID
  | .delete owner localID _ =>
    (p.getState owner).isSome ∧ ∃ m ∈ p.messages, m.localID = localID
  | .mark owner type _ _ => (p.getState owner).isSome ∧ (type = .readIn ∨ type = .readOut)
  | .side o => o.isSide
  | .ensure _ _ => True

theorem Act.Ok.ofOwner (h : a.Ok d) (ha : a.owner = some u) : a.LogReady (d.ofOwner u) := by
  cases a with
  | ensure => trivial
  | post m unread now =>
    obtain rfl : m.ownerID = u := by simpa [Act.owner] using ha
    obtain ⟨h, -⟩ := h
    exact ⟨by simpa using h.state, by simpa using h.next, h.live, h.kind,
      fun h0 m' hm' => h.randomID h0 m' (mem_filter.mp hm').1,
      fun h0 m' hm' heq => (h.fanoutID h0 m' (mem_filter.mp hm').1 heq).1⟩
  | edit owner | delete owner =>
    obtain rfl : owner = u := by simpa [Act.owner] using ha
    obtain ⟨hs, m, hm, hat⟩ := h
    simp only [isAt, Bool.decide_and, Bool.and_eq_true, decide_eq_true_eq] at hat
    exact ⟨by simpa using hs, m, mem_filter.mpr ⟨hm, by simp [hat.1]⟩, hat.2⟩
  | mark owner type marker now =>
    obtain rfl : owner = u := by simpa [Act.owner] using ha
    exact ⟨by simpa using h.1, h.2⟩
  | side o => cases o <;> first | exact h | rfl

theorem LogOk.act (h : LogOk u p) (hown : ∀ m ∈ p.messages, m.ownerID = u)
    (hok : a.LogReady p) (ha : a.owner = some u) : LogOk u (a.apply p) := by
  cases a with
  | ensure user now =>
    obtain rfl : user = u := by simpa [Act.owner] using ha
    exact h.congr ptsOf_ensureUpdateState nextOf_ensureUpdateState rfl rfl
  | post m unread now =>
    obtain rfl : m.ownerID = u := by simpa [Act.owner] using ha
    obtain ⟨hs, hl, hd, hk, hr, hf⟩ := hok
    exact h.post (m := m) (e := ⟨m.ownerID, p.ptsOf m.ownerID + 1, .newMessage, m.localID⟩)
      ((DB.ptsOf_congr rfl).trans (ptsOf_bumpState hs))
      ((DB.nextOf_congr rfl).trans (nextOf_bumpState hs)) rfl rfl rfl rfl rfl hl hd hk
      (fun h0 m' hm' => hr h0 m' hm' (hown m' hm'))
      (fun h0 m' hm' heq => hf h0 m' hm' heq (hown m' hm'))
  | edit owner localID text now =>
    obtain rfl : owner = u := by simpa [Act.owner] using ha
    obtain ⟨hs, m, hm, hat⟩ := hok
    refine h.event (e := ⟨owner, p.ptsOf owner + 1, .edit, localID⟩)
      ((DB.ptsOf_congr rfl).trans (ptsOf_bumpPtsOnly hs))
      ((DB.nextOf_congr rfl).trans nextOf_bumpPtsOnly) rfl rfl (by simp)
      (fun _ => ⟨m, hm, hat⟩) ?_
    simp only [reduceCtorEq, false_and, decide_false, Bool.or_false]
    exact map_updateWhere (l := p.messages) fun _ _ => rfl
  | delete owner localID now =>
    obtain rfl : owner = u := by simpa [Act.owner] using ha
    obtain ⟨hs, m, hm, hat⟩ := hok
    refine h.event (e := ⟨owner, p.ptsOf owner + 1, .delete, localID⟩)
      ((DB.ptsOf_congr rfl).trans (ptsOf_bumpPtsOnly hs))
      ((DB.nextOf_congr rfl).trans nextOf_bumpPtsOnly) rfl rfl (by simp)
      (fun _ => ⟨m, hm, hat⟩) ?_
    change (updateWhere (isAt owner localID) _ p.messages).map _ = _
    rw [updateWhere, map_map]
    refine map_congr_left fun m' hm' => ?_
    have hown' := hown m' hm'
    by_cases hl : localID = m'.localID
    · simp [isAt, hown', hl, frozen]
    · simp [isAt, hown', hl, Ne.symm hl]
  | mark owner type marker now =>
    obtain rfl : owner = u := by simpa [Act.owner] using ha
    obtain ⟨hs, ht⟩ := hok
    have hne : type ≠ .newMessage ∧ type ≠ .edit ∧ type ≠ .delete := by
      rcases ht with rfl | rfl <;> decide
    refine h.event (e := ⟨owner, p.ptsOf owner + 1, type, marker⟩)
      ((DB.ptsOf_congr rfl).trans (ptsOf_bumpPtsOnly hs))
      ((DB.nextOf_congr rfl).trans nextOf_bumpPtsOnly) rfl rfl hne.1
      (fun h' => absurd h' (by simp [hne.2.1, hne.2.2])) ?_
    simp only [hne.2.2, false_and, decide_false, Bool.or_false]
    rfl
  | side o =>
    obtain ⟨hs, hm, he⟩ := Write.isSide.log_unchanged (o := o) hok p
    exact h.congr (DB.ptsOf_congr hs) (DB.nextOf_congr hs) he hm

/-! ## The whole store -/

/-- `m'` is the other side's copy of the 1:1 message `m`. -/
structure Mirror (m m' : Message) : Prop where
  owner : m'.ownerID = m.peerID
  localID : m'.localID = m.peerLocalID
  peerType : m'.peerType = .user
  peer : m'.peerID = m.ownerID
  peerLocalID : m'.peerLocalID = m.localID

/-- Every 1:1 message between two users has its mirror among the rows, inbound where it is
outbound. -/
def Mirrored (ms : List Message) : Prop :=
  ∀ m ∈ ms, m.peerType = .user → m.peerID ≠ m.ownerID → ∃ m' ∈ ms, Mirror m m' ∧ m'.out = !m.out

/-- The copies that share a fan-out id belong to one chat. -/
def OneChat (ms : List Message) : Prop :=
  ∀ m ∈ ms, ∀ m' ∈ ms, m.fanoutID ≠ 0 → m'.fanoutID = m.fanoutID → m'.peerID = m.peerID

structure Inv (d : DB) : Prop where
  logs : ∀ u, LogOk u (d.ofOwner u)
  mirrors : Mirrored d.messages
  fanouts : OneChat d.messages
  chats : ∀ m ∈ d.messages, m.peerType = .chat → d.hasChat m.peerID
  participants : (d.participants.map fun p => (p.chatID, p.userID)).Nodup

theorem logs_runActs (h : ∀ u, LogOk u (d.ofOwner u)) (hok : ActsOk as d) (u : Int) :
    LogOk u ((runActs as d).ofOwner u) := by
  induction as generalizing d with
  | nil => exact h u
  | cons a as ih =>
    refine ih (fun v => ?_) hok.2
    by_cases hv : a.owner = some v
    · rw [ofOwner_act hv]
      exact (h v).act (fun m hm => by simpa using (mem_filter.mp hm).2) (hok.1.ofOwner hv) hv
    · rw [ofOwner_act_of_ne hv]
      exact h v

theorem mirrored_frozen {ms : List Message} : Mirrored (ms.map frozen) ↔ Mirrored ms := by
  constructor
  · intro h m hm ht hne
    obtain ⟨x, hx, hmir, hout⟩ := h m.frozen (mem_map_of_mem hm) ht hne
    obtain ⟨m', hm', rfl⟩ := mem_map.mp hx
    exact ⟨m', hm', ⟨hmir.owner, hmir.localID, hmir.peerType, hmir.peer, hmir.peerLocalID⟩, hout⟩
  · intro h x hx ht hne
    obtain ⟨m, hm, rfl⟩ := mem_map.mp hx
    obtain ⟨m', hm', hmir, hout⟩ := h m hm ht hne
    exact ⟨m'.frozen, mem_map_of_mem hm',
      ⟨hmir.owner, hmir.localID, hmir.peerType, hmir.peer, hmir.peerLocalID⟩, hout⟩

theorem Mirrored.append {ms ns : List Message} (h : Mirrored ms) (h' : Mirrored ns) :
    Mirrored (ms ++ ns) := by
  intro m hm ht hne
  rcases mem_append.mp hm with hm | hm
  · obtain ⟨m', hm', hmir⟩ := h m hm ht hne
    exact ⟨m', mem_append_left _ hm', hmir⟩
  · obtain ⟨m', hm', hmir⟩ := h' m hm ht hne
    exact ⟨m', mem_append_right _ hm', hmir⟩

theorem Mirrored.runActs (h : Mirrored d.messages) (hnew : Mirrored (newRows as))
    (hok : ActsOk as d) : Mirrored (runActs as d).messages := by
  rw [← mirrored_frozen, hok.frozen_messages]
  exact (mirrored_frozen.mpr h).append (mirrored_frozen.mpr hnew)

theorem oneChat_runActs (h : OneChat d.messages) (hok : ActsOk as d) :
    OneChat (runActs as d).messages := by
  induction as generalizing d with
  | nil => exact h
  | cons a as ih =>
    refine ih ?_ hok.2
    have hrow := fun m => (show ActsOk [a] d from ⟨hok.1, trivial⟩).mem_messages (m := m)
    have hcol : ∀ {β : Type} (k : Message → β) {x y : Message}, x.frozen = y.frozen →
        k x.frozen = k y.frozen := fun k _ _ h => congrArg k h
    -- Only a post adds a row, and its fan-out is either new or one of the same chat.
    have hnew : ∀ m ∈ a.newMessages, m.fanoutID ≠ 0 → ∀ m' ∈ d.messages,
        m'.fanoutID = m.fanoutID → m'.peerID = m.peerID := by
      cases a with
      | post x unread now =>
        intro m hm h0 m' hm' heq
        obtain rfl := mem_singleton.mp hm
        exact (PostOk.fanoutID hok.1.1 h0 m' hm' heq).2
      | _ => simp [Act.newMessages]
    have hone : ∀ m ∈ a.newMessages, ∀ m' ∈ a.newMessages, m'.peerID = m.peerID := by
      cases a with
      | post x unread now => simp [Act.newMessages]
      | _ => simp [Act.newMessages]
    simp only [newRows, flatMap_cons, flatMap_nil, append_nil] at hrow
    intro m hm m' hm' h0 heq
    obtain ⟨n, hn, hf⟩ | ⟨n, hn, hf⟩ := hrow m hm <;>
      obtain ⟨n', hn', hf'⟩ | ⟨n', hn', hf'⟩ := hrow m' hm' <;>
      have h0n : n.fanoutID ≠ 0 := (hcol (·.fanoutID) hf).trans_ne h0 <;>
      have heqn : n'.fanoutID = n.fanoutID :=
        (hcol (·.fanoutID) hf').trans (heq.trans (hcol (·.fanoutID) hf).symm) <;>
      refine (hcol (·.peerID) hf').symm.trans (Eq.trans ?_ (hcol (·.peerID) hf))
    · exact h n hn n' hn' h0n heqn
    · exact (hnew n' hn' (heqn.trans_ne h0n) n hn heqn.symm).symm
    · exact hnew n hn h0n n' hn' heqn
    · exact hone n hn n' hn'

theorem hasChat_runActs (as : List Act) {c : Int} (h : d.hasChat c) : (runActs as d).hasChat c :=
  runActs_invariant (P := fun d => d.hasChat c) h fun _ _ _ hd =>
    Rows.replay_invariant (P := fun d : DB => d.hasChat c) hd fun o _ _ => hasChat_apply o

theorem chats_runActs (h : ∀ m ∈ d.messages, m.peerType = .chat → d.hasChat m.peerID)
    (hok : ActsOk as d) :
    ∀ m ∈ (runActs as d).messages, m.peerType = .chat → (runActs as d).hasChat m.peerID := by
  induction as generalizing d with
  | nil => exact h
  | cons a as ih =>
    refine ih (fun m hm ht => ?_) hok.2
    refine hasChat_runActs [a] ?_
    obtain ⟨n, hn, hf⟩ | ⟨n, hn, hf⟩ :=
      (show ActsOk [a] d from ⟨hok.1, trivial⟩).mem_messages hm
    · exact congrArg peerID hf ▸ h n hn ((congrArg peerType hf).trans ht)
    · cases a with
      | post x unread now =>
        obtain rfl : n = x := by simpa [newRows, Act.newMessages] using hn
        have hc : d.hasChat n.peerID :=
          PostOk.chat hok.1.1 ((congrArg peerType hf).trans ht)
        exact congrArg peerID hf ▸ hc
      | _ => simp [newRows, Act.newMessages] at hn

theorem participants_apply {o : Write} (h : o.chat = none) (d : DB) :
    (o.apply d).participants = d.participants := by
  cases o <;> first | rfl | exact absurd h (by simp [Write.chat])

theorem participants_replay (h : ∀ o ∈ os, o.chat = none) (d : DB) :
    (locking.replay os d).participants = d.participants :=
  Rows.replay_frame (fun o ho => participants_apply (h o ho)) d

theorem participants_runActs_eq (h : ∀ a ∈ as, ∀ o, a = .side o → o.chat = none) (d : DB) :
    (runActs as d).participants = d.participants := by
  refine runActs_frame (fun a ha d => participants_replay ?_ d) d
  cases a with
  | side o => simpa [Act.writes] using h _ ha o rfl
  | _ => simp [Act.writes, Write.chat]

theorem participants_act (h : (d.participants.map fun p => (p.chatID, p.userID)).Nodup)
    (hok : a.Ok d) : ((a.apply d).participants.map fun p => (p.chatID, p.userID)).Nodup := by
  cases a with
  | side o =>
    change ((o.apply d).participants.map fun p => (p.chatID, p.userID)).Nodup
    cases o
    case insertChat c members =>
      obtain ⟨hmem, hfresh⟩ := hok
      simp only [Write.apply]
      split
      · exact h
      · rw [map_append, nodup_append]
        refine ⟨h, ?_, ?_⟩
        · rw [map_map]
          exact hmem.map fun a b hab => by simpa using hab
        · simp only [mem_map]
          rintro _ ⟨p, hp, rfl⟩ _ ⟨q, ⟨u, -, rfl⟩, rfl⟩ heq
          exact hfresh p hp (congrArg Prod.fst heq)
    case insertChatParticipantIfAbsent p =>
      simp only [Write.apply, insertAbsent]
      split
      · exact h
      · rename_i hany
        rw [map_append, nodup_append]
        refine ⟨h, by simp, ?_⟩
        simp only [mem_map, map_cons, map_nil, mem_singleton]
        rintro _ ⟨q, hq, rfl⟩ _ rfl heq
        refine hany (any_eq_true.mpr ⟨q, hq, ?_⟩)
        simpa [Participant.isFor] using heq
    case deleteChatParticipant chat user =>
      exact h.sublist (filter_sublist.map _)
    case setChatParticipantAdmin chat user admin =>
      have heq : ((Write.setChatParticipantAdmin chat user admin).apply d).participants.map
          (fun p => (p.chatID, p.userID)) = d.participants.map fun p => (p.chatID, p.userID) :=
        map_updateWhere (l := d.participants) fun _ _ => rfl
      rwa [heq]
    all_goals exact h
  | _ =>
    rw [Act.apply, participants_replay (by simp [Act.writes, Write.chat])]
    exact h

theorem participants_runActs (h : (d.participants.map fun p => (p.chatID, p.userID)).Nodup)
    (hok : ActsOk as d) : ((runActs as d).participants.map fun p => (p.chatID, p.userID)).Nodup :=
  hok.invariant (P := fun d => (d.participants.map _).Nodup) h fun _ _ _ hok h =>
    participants_act h hok

/-- Acts that may be done keep the invariant, once every new 1:1 row has its mirror. -/
theorem Inv.runActs (h : Inv d) (hok : ActsOk as d) (hnew : Mirrored (newRows as)) :
    Inv (runActs as d) where
  logs := logs_runActs h.logs hok
  mirrors := h.mirrors.runActs hnew hok
  fanouts := oneChat_runActs h.fanouts hok
  chats := chats_runActs h.chats hok
  participants := participants_runActs h.participants hok

/-- Tables before the first message: the state rows of the users that signed up, and files. -/
def DB.initial (states : Owned) (files : List File) : DB where
  updateStates := states.map fun s => { userID := s.1, date := s.2 }
  files := files

theorem Inv.initial (states : Owned) (files : List File) : Inv (.initial states files) where
  logs u := by
    have hs : ∀ s, (DB.initial states files).getState u = some s →
        s.pts = 0 ∧ s.nextLocalID = 1 := by
      intro s hs
      obtain ⟨x, -, rfl⟩ := mem_map.mp (mem_of_find?_eq_some hs)
      exact ⟨rfl, rfl⟩
    have hpts : ((DB.initial states files).ofOwner u).ptsOf u = 0 := by
      rw [DB.ptsOf_ofOwner, DB.ptsOf]
      cases hst : (DB.initial states files).getState u with
      | none => rfl
      | some s => exact (hs s hst).1
    have hnext : ((DB.initial states files).ofOwner u).nextOf u = 1 := by
      rw [DB.nextOf_ofOwner, DB.nextOf]
      cases hst : (DB.initial states files).getState u with
      | none => rfl
      | some s => exact (hs s hst).2
    exact .empty hpts hnext rfl rfl
  mirrors m hm := by simp [DB.initial] at hm
  fanouts m hm := by simp [DB.initial] at hm
  chats m hm := by simp [DB.initial] at hm
  participants := by simp [DB.initial]

end TelegramServer.Store
