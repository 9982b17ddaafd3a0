import TelegramServer.Channels.Publicness
import TelegramServer.Tx.Numbered

/-!
# Sends to a channel

A channel's posts and events are numbered without gaps, and a random id is used once in a
channel. The random ids of a channel are shared by its members: a send whose random id another
member has used is answered with that member's post.
-/

namespace TelegramServer.Channels

open Tx Tx.Locking List

variable {caps : Caps} {t : Call} {d w : DB} {lead : Nat} {p : Post} {q : Posted}
  {times : PostTimes} {vs : List DB} {m : ChannelMessage} {e : ChannelEvent}

/-- The channel's events and posts are numbered as its counters say, with one event for each
post. -/
structure DB.Stream (d : DB) (c : Int) : Prop where
  pts_nonneg : 0 ≤ (d.stateOf c).pts
  local_pos : 1 ≤ (d.stateOf c).nextLocalID
  events : Numbered (·.pts) (d.events.filter (·.channelID = c)) (d.stateOf c).pts
  posts : Numbered (·.localID) (d.messages.filter (·.channelID = c)) ((d.stateOf c).nextLocalID - 1)
  postEvents : Numbered (·.localID)
    (d.events.filter fun e => e.channelID = c ∧ e.type = .newMessage)
    ((d.stateOf c).nextLocalID - 1)

structure DB.Streams (d : DB) : Prop where
  stream : ∀ c, d.Stream c
  random : ∀ c r, r ≠ 0 → (d.messages.filter fun m => m.channelID = c ∧ m.randomID = r).length ≤ 1

/-! ## A stream grows -/

structure Grown (d w : DB) (m : ChannelMessage) (e : ChannelEvent) : Prop where
  messages : w.messages = d.messages ++ [m]
  events : w.events = d.events ++ [e]
  state : ∀ c, w.stateOf c = if m.channelID = c then
    { d.stateOf c with pts := (d.stateOf c).pts + 1, nextLocalID := (d.stateOf c).nextLocalID + 1 }
    else d.stateOf c
  localID : m.localID = (d.stateOf m.channelID).nextLocalID
  event : e = ⟨m.channelID, (d.stateOf m.channelID).pts + 1, .newMessage, m.localID⟩
  random : m.randomID ≠ 0 → d.channelMessageByRandomID m.channelID m.randomID = none

theorem Grown.stream (h : Grown d w m e) {c : Int} (hd : d.Stream c) : w.Stream c := by
  by_cases hc : m.channelID = c
  · have hstate := h.state c
    rw [if_pos hc] at hstate
    have hevent := h.event
    have hlocal := h.localID
    rw [hc] at hevent hlocal
    have hpos := hd.local_pos
    have hnext : (w.stateOf c).nextLocalID - 1 = (d.stateOf c).nextLocalID - 1 + 1 := by
      rw [hstate]
      dsimp only
      omega
    refine ⟨?_, ?_, ?_, ?_, ?_⟩
    · rw [hstate]
      have := hd.pts_nonneg
      dsimp only
      omega
    · rw [hstate]
      dsimp only
      omega
    · rw [h.events, hstate, filter_append]
      simpa [hevent] using hd.events.snoc hd.pts_nonneg (x := e) (by rw [hevent])
    · rw [h.messages, hnext, filter_append]
      simpa [hc] using hd.posts.snoc (by omega) (x := m) (by omega)
    · rw [h.events, hnext, filter_append]
      have hlocal' : e.localID = (d.stateOf c).nextLocalID - 1 + 1 := by
        rw [hevent]
        dsimp only
        omega
      simpa [hevent] using hd.postEvents.snoc (by omega) (x := e) hlocal'
  · have hstate := h.state c
    rw [if_neg hc] at hstate
    have hevent : e.channelID ≠ c := by
      rw [h.event]
      exact hc
    refine ⟨hstate ▸ hd.pts_nonneg, hstate ▸ hd.local_pos, ?_, ?_, ?_⟩
    · simpa [h.events, hevent, hstate] using hd.events
    · simpa [h.messages, hc, hstate] using hd.posts
    · simpa [h.events, hevent, hstate] using hd.postEvents

theorem Grown.streams (h : Grown d w m e) (hd : d.Streams) : w.Streams := by
  refine ⟨fun c => h.stream (hd.stream c), fun c r hr => ?_⟩
  rw [h.messages, filter_append, length_append]
  by_cases hm : m.channelID = c ∧ m.randomID = r
  · obtain ⟨rfl, rfl⟩ := hm
    have hnone : d.messages.filter (fun m' => m'.channelID = m.channelID ∧
        m'.randomID = m.randomID) = [] := by
      refine filter_eq_nil_iff.mpr fun m' hm' hkey => ?_
      have hfresh := find?_eq_none.mp (h.random hr) m' hm'
      simp only [decide_eq_true_eq] at hkey hfresh
      exact hfresh ⟨hkey.1, hkey.2, hkey.2 ▸ hr⟩
    rw [hnone]
    simp
  · simpa [hm] using hd.random c r hr

theorem Grown.last (h : Grown d w m e) (hd : d.Stream m.channelID) :
    w.channelMessageByLocal m.channelID m.localID = some m := by
  rw [DB.channelMessageByLocal, h.messages, find?_append]
  have hnone : d.messages.find? (fun m' => m'.channelID = m.channelID ∧ m'.localID = m.localID) =
      none := by
    refine find?_eq_none.mpr fun m' hm' hkey => ?_
    simp only [decide_eq_true_eq] at hkey
    have hmem : m' ∈ d.messages.filter (·.channelID = m.channelID) := by simp [hm', hkey.1]
    have hle := (hd.posts.num_mem hmem).2
    have := h.localID
    omega
  rw [hnone]
  simp

theorem stateOf_bump (d : DB) (channel c : Int) : ((Write.bumpChannelState channel).apply
      ((Write.ensureChannelState channel).apply d)).stateOf c = if channel = c then
        { d.stateOf c with
          pts := (d.stateOf c).pts + 1, nextLocalID := (d.stateOf c).nextLocalID + 1 }
      else d.stateOf c := by
  simp only [DB.stateOf, DB.channelState, Write.apply]
  rw [Table.find?_updateWhere_key (k := (·.channelID)) (a := channel) (b := c) (by simp) (by simp)
    (by simp), Table.find?_insertAbsent_key (k := (·.channelID)) (a := channel) (b := c) (by simp)
    (by simp) rfl]
  split
  · rename_i h
    subst h
    rfl
  · rfl

theorem Stored.grown (h : Stored times p lead d q vs w) :
    Grown d w (postMessage times p (d.stateOf p.channelID).nextLocalID)
      (postEvent p (d.stateOf p.channelID)) := by
  refine ⟨?_, ?_, fun c => ?_, rfl, rfl, h.fresh⟩
  · rw [h.eq]
    rfl
  · rw [h.eq]
    rfl
  · rw [h.eq]
    exact stateOf_bump d p.channelID c

theorem grown_create {now creator : Int} {title : String} {megagroup : Bool} {id : Int}
    (hnew : d.channelState id = none) :
    ∃ m e, Grown d (locking.replay (createWrites now creator title megagroup id) d) m e := by
  have hstate : d.stateOf id = { channelID := id } := by
    rw [DB.stateOf, hnew]
    rfl
  refine ⟨_, _, rfl, rfl, fun c => ?_, ?_, ?_, fun hno => absurd rfl hno⟩
  · exact stateOf_bump ((Write.insertChannel _).apply d) id c
  · simp [hstate]
  · simp [hstate]

/-! ## Calls -/

theorem DB.Streams.effect {r : Reply} (hd : d.Streams)
    (h : Effect caps t d r vs w) : w.Streams := by
  obtain ⟨times, p, lead, q, -, -, hstored⟩ | ⟨_, _, _, _, id, hnew, rfl⟩ | hsame := h.stream
  · exact hstored.grown.streams hd
  · obtain ⟨m, e, hgrown⟩ := grown_create hnew
    exact hgrown.streams hd
  · have hstate (c : Int) : w.stateOf c = d.stateOf c := by
      rw [DB.stateOf, DB.channelState, hsame.states]
      rfl
    refine ⟨fun c => ?_, fun c r hr => ?_⟩
    · obtain ⟨hpts, hlocal, hevents, hposts, hpostEvents⟩ := hd.stream c
      rw [← hstate c] at hpts hlocal hevents hposts hpostEvents
      rw [← hsame.events] at hevents hpostEvents
      rw [← hsame.messages] at hposts
      exact ⟨hpts, hlocal, hevents, hposts, hpostEvents⟩
    · rw [hsame.messages]
      exact hd.random c r hr

def Post.TakenByOther (p : Post) (d : DB) : Prop :=
  p.randomID ≠ 0 ∧ ∃ m ∈ d.messages, m.channelID = p.channelID ∧ m.randomID = p.randomID ∧
    m.fromID ≠ p.fromID

/-- The answer is a post of the channel at the pts of its event. -/
structure Answered (p : Post) (d : DB) (q : Posted) : Prop where
  stored : q.message ∈ d.messages
  channel : q.message.channelID = p.channelID
  event : ∃ e ∈ d.events, e.channelID = p.channelID ∧ e.localID = q.message.localID ∧
    e.type = .newMessage ∧ e.pts = q.pts

theorem Stored.answered (h : Stored times p lead d q vs w) (hd : d.Streams) :
    Answered p w q ∧ q.message.fromID = p.fromID := by
  have hlast : w.channelMessageByLocal p.channelID (d.stateOf p.channelID).nextLocalID = some _ :=
    h.grown.last (hd.stream _)
  have hq : q.message = postMessage times p (d.stateOf p.channelID).nextLocalID :=
    Option.some.inj (h.message.symm.trans hlast)
  refine ⟨⟨?_, ?_, ?_⟩, ?_⟩
  · rw [hq, h.grown.messages]
    simp
  · rw [hq]
    rfl
  · refine ⟨postEvent p (d.stateOf p.channelID), ?_, rfl, ?_, rfl, h.pts.symm⟩
    · rw [h.grown.events]
      simp
    · rw [hq]
      rfl
  · rw [hq]
    rfl

theorem DB.Streams.eq_of_random (hd : d.Streams) {c r : Int} (hr : r ≠ 0)
    {m' : ChannelMessage} (hm : m ∈ d.messages) (hm' : m' ∈ d.messages)
    (hkey : m.channelID = c ∧ m.randomID = r) (hkey' : m'.channelID = c ∧ m'.randomID = r) :
    m = m' := by
  have hlen := hd.random c r hr
  have hmem : m ∈ d.messages.filter fun m => m.channelID = c ∧ m.randomID = r := by simp [hm, hkey]
  have hmem' : m' ∈ d.messages.filter fun m => m.channelID = c ∧ m.randomID = r := by
    simp [hm', hkey']
  generalize d.messages.filter (fun m => m.channelID = c ∧ m.randomID = r) = l at hlen hmem hmem'
  cases l with
  | nil => cases hmem
  | cons x l =>
    obtain rfl : l = [] := by simpa using hlen
    rw [mem_singleton.mp hmem, mem_singleton.mp hmem']

/-- The answer is the caller's own exactly if nobody else has used the random id. -/
theorem answered_of_effect (hd : d.Streams)
    (ht : t.posting = some (times, p, lead)) (h : Effect caps t d (.posted q) vs w) :
    Answered p w q ∧ (q.message.fromID = p.fromID ↔ ¬ p.TakenByOther d) := by
  obtain ⟨q', heq, h⟩ := h.posted ht
  obtain rfl := Reply.posted.inj heq
  obtain hstored | ⟨hfound, rfl⟩ := h
  · obtain ⟨hanswered, hown⟩ := hstored.answered hd
    refine ⟨hanswered, fun _ => ?_, fun _ => hown⟩
    rintro ⟨hid, m, hm, hchannel, hrandom, -⟩
    have hfresh := find?_eq_none.mp (hstored.fresh hid) m hm
    simp only [decide_eq_true_eq] at hfresh
    exact hfresh ⟨hchannel, hrandom, hrandom ▸ hid⟩
  · refine ⟨⟨hfound.stored, hfound.channel, hfound.event⟩, fun hown => ?_, fun hfree => ?_⟩
    · rintro ⟨hid, m, hm, hchannel, hrandom, hother⟩
      refine hother ?_
      rw [hd.eq_of_random hid hm hfound.stored ⟨hchannel, hrandom⟩ ⟨hfound.channel, hfound.random⟩]
      exact hown
    · by_contra hother
      exact hfree ⟨hfound.id, q.message, hfound.stored, hfound.channel, hfound.random, hother⟩

/-- A random id of a sender stands for one post of theirs, streams stay numbered with one event for
each post, every answer is a stored post at the pts of its event, and it is the caller's own post
exactly if no other member's post has the random id. -/
theorem channel_sends_own_iff {caps : Caps} {d₀ : DB} (h₀ : d₀.Streams) {c : ChannelConfig}
    (hc : Reachable locking.toRows (code caps) d₀ c) :
    (∀ channel sender randomID, randomID ≠ 0 → (c.db.messages.filter fun m =>
      m.channelID = channel ∧ m.fromID = sender ∧ m.randomID = randomID).length ≤ 1) ∧
    (∀ channel, c.db.Stream channel) ∧
    ∀ r ∈ c.log, ∀ times limited p q, r.call = .send times limited p →
      r.outcome.answer = some (.posted q) →
      Answered p r.post q ∧ (q.message.fromID = p.fromID ↔ ¬ p.TakenByOther r.pre) := by
  obtain ⟨hleads, hmeets⟩ := records_meet (code_effect caps) hc
  have hstep : ∀ r ∈ c.log, r.pre.Streams → r.post.Streams := by
    intro r hr hpre
    obtain ⟨reply, vs, -, heffect⟩ | ⟨hsame, -⟩ := effect_of_meets (hmeets r hr)
    · exact hpre.effect heffect
    · exact hsame ▸ hpre
  have hstreams : c.db.Streams := hleads.invariant hstep h₀
  refine ⟨fun channel sender randomID hid => ?_, hstreams.stream, ?_⟩
  · refine le_trans (List.Sublist.length_le ?_) (hstreams.random channel randomID hid)
    refine monotone_filter_right _ fun m hm => ?_
    simp only [decide_eq_true_eq] at hm ⊢
    exact ⟨hm.1, hm.2.2⟩
  · intro r hr times limited p q hcall hanswer
    obtain ⟨vs, heffect⟩ := effect_of_answer (hmeets r hr) hanswer
    exact answered_of_effect (hleads.invariant_pre hstep h₀ hr) (by rw [hcall]; rfl) heffect

def postAs (user randomID : Int) (text : String) : Post :=
  { channelID := 7, fromID := user, text, randomID }

def sendAs (user randomID : Int) (text : String) : Call :=
  .send ⟨0, 0, 0, 0, 0⟩ false (postAs user randomID text)

def sentAs (user randomID localID : Int) (text : String) (dup : Bool) : Reply :=
  .posted {
    message := { channelID := 7, localID, fromID := user, date := 0, message := text, randomID }
    pts := localID, dup }

def sendTwice (first second : Call) (n : Nat) : List (Move Call) :=
  [Move.begin 0 first] ++ replicate 15 (Move.run 0) ++ [Move.begin 0 second] ++
    replicate n (Move.run 0)

/-- The second member's send is answered with the first one's post, and not stored. -/
theorem send_answered_with_foreign_post : ∃ c, Reachable locking.toRows (code {}) twoMembers c ∧
      c.log.map (fun r => (r.call, r.outcome.answer, r.post.messages.length)) =
        [(sendAs 1 5 "one", some (sentAs 1 5 1 "one" false), 1),
          (sendAs 2 5 "two", some (sentAs 1 5 1 "one" true), 1)] :=
  Board.exists_run 1 (sendTwice (sendAs 1 5 "one") (sendAs 2 5 "two") 3) (by decide +kernel)

theorem streams_twoMembers : twoMembers.Streams := by
  have hstate (c : Int) : twoMembers.stateOf c = { channelID := c } := by
    by_cases hc : 7 = c
    · subst hc
      rfl
    · simp [DB.stateOf, DB.channelState, twoMembers, hc]
  refine ⟨fun c => ?_, fun c r _ => by simp [twoMembers]⟩
  have hnil : Numbered (fun e : ChannelEvent => e.pts) [] 0 := rfl
  rw [← show (twoMembers.stateOf c).pts = 0 by rw [hstate]] at hnil
  have hposts : Numbered (fun m : ChannelMessage => m.localID) [] 0 := rfl
  have hevents : Numbered (fun e : ChannelEvent => e.localID) [] 0 := rfl
  rw [← show (twoMembers.stateOf c).nextLocalID - 1 = 0 by rw [hstate]; rfl] at hposts hevents
  exact ⟨by rw [hstate], by rw [hstate], hnil, hposts, hevents⟩

theorem channel_sends_own_iff_apart : ∃ c, Reachable locking.toRows (code {}) twoMembers c ∧
    c.db.Stream 7 ∧ ∃ r ∈ c.log, r.call = sendAs 2 6 "two" ∧
      ∃ q, r.outcome.answer = some (.posted q) ∧ Answered (postAs 2 6 "two") r.post q ∧
        q.message.fromID = 2 := by
  obtain ⟨c, hc, hlog⟩ : ∃ c, Reachable locking.toRows (code {}) twoMembers c ∧
      c.log.map (fun r => (r.call, r.outcome.answer, r.pre.messages.map (·.randomID))) =
        [(sendAs 1 5 "one", some (sentAs 1 5 1 "one" false), []),
          (sendAs 2 6 "two", some (sentAs 2 6 2 "two" false), [5])] :=
    Board.exists_run 1 (sendTwice (sendAs 1 5 "one") (sendAs 2 6 "two") 16) (by decide +kernel)
  obtain ⟨-, hstream, hown⟩ := channel_sends_own_iff streams_twoMembers hc
  obtain ⟨r, rest, hlog', -, hrest⟩ := map_eq_cons_iff.mp hlog
  obtain ⟨r', rest, rfl, hr', -⟩ := map_eq_cons_iff.mp hrest
  simp only [Prod.mk.injEq] at hr'
  obtain ⟨hcall, hanswer, hids⟩ := hr'
  have hmem : r' ∈ c.log := by simp [hlog']
  obtain ⟨hanswered, hiff⟩ := hown r' hmem _ _ _ _ hcall hanswer
  refine ⟨c, hc, hstream 7, r', hmem, hcall, _, hanswer, hanswered, hiff.mpr ?_⟩
  rintro ⟨-, m, hm, -, hrandom, -⟩
  have hm' := mem_map_of_mem (f := (·.randomID)) hm
  rw [hids, mem_singleton, hrandom] at hm'
  cases hm'

end TelegramServer.Channels
