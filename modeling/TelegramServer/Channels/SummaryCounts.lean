import Mathlib.Algebra.BigOperators.Ring.Finset
import TelegramServer.Channels.PostSummaries

/-!
# The summaries count the live posts

In a channel whose summaries are ready, every node counts the live posts under it, whatever
statements were run; so the suffix query counts the live posts above its marker.
-/

namespace TelegramServer.Channels

open Tx.Table Radix List
open SummaryTables (summaryState setSummaryState livePosts suffixKeys suffixSum)

variable {d : SummaryTables} {ms : List ChannelMessage} {scope : SummaryScope} {marker : Int}
  {k : NodeKey}

def SummaryScope.has (m : ChannelMessage) : SummaryScope → Bool
  | .channel => true
  | .author id => m.fromID = id

def NodeKey.above (k : NodeKey) (m : ChannelMessage) : Bool :=
  m.channelID = k.channelID ∧ k.scope.has m ∧ k.depth ≤ 63 ∧ m.localID >>> (63 - k.depth) = k.stem

/-- At one depth a post has one node in each of its two trees. -/
theorem count_nodeKeys_depth (m : ChannelMessage) (k : NodeKey) (depth : Nat) :
    [(⟨m.channelID, .channel, depth, m.localID >>> (63 - depth)⟩ : NodeKey),
      ⟨m.channelID, .author m.fromID, depth, m.localID >>> (63 - depth)⟩].count k =
      if m.channelID = k.channelID ∧ k.scope.has m ∧ depth = k.depth ∧
        m.localID >>> (63 - depth) = k.stem then 1 else 0 := by
  obtain ⟨channel, scope, d, stem⟩ := k
  cases scope <;> simp [count_cons, SummaryScope.has]

theorem count_nodeKeys (m : ChannelMessage) (k : NodeKey) :
    (nodeKeys m).count k = if k.above m then 1 else 0 := by
  have hdepths : ∀ n : Nat, (((List.range n).flatMap fun depth =>
      [(⟨m.channelID, .channel, depth, m.localID >>> (63 - depth)⟩ : NodeKey),
        ⟨m.channelID, .author m.fromID, depth, m.localID >>> (63 - depth)⟩]).count k) =
      if m.channelID = k.channelID ∧ k.scope.has m ∧ k.depth < n ∧
        m.localID >>> (63 - k.depth) = k.stem then 1 else 0 := by
    intro n
    induction n with
    | zero => simp
    | succ n ih =>
      rw [range_succ, flatMap_append, count_append, ih, flatMap_singleton, count_nodeKeys_depth]
      by_cases hd : n = k.depth
      · subst hd
        simp
      · have hlt : k.depth < n + 1 ↔ k.depth < n := by omega
        simp [hd, hlt]
  rw [nodeKeys, hdepths 64]
  simp [NodeKey.above, Nat.lt_succ_iff]

theorem count_flatMap_nodeKeys (ms : List ChannelMessage) (k : NodeKey) :
    (ms.flatMap nodeKeys).count k = ms.countP k.above := by
  induction ms with
  | nil => simp
  | cons m ms ih =>
    rw [flatMap_cons, count_append, ih, count_nodeKeys, countP_cons, Nat.add_comm]

def under (k : NodeKey) (m : ChannelMessage) : Bool :=
  m.live && k.above m

def share (k : NodeKey) (m : Option ChannelMessage) : Int :=
  ((m.map (under k)).getD false).toInt

theorem nodeDelta_sourceChanges (old new : Option ChannelMessage) (k : NodeKey) :
    nodeDelta (sourceChanges old new) k = share k new - share k old := by
  have hcount : ∀ m : ChannelMessage, ((nodeKeys m).count k : Int) = (k.above m).toInt := by
    intro m
    rw [count_nodeKeys]
    cases k.above m <;> rfl
  have hside : ∀ (m : Option ChannelMessage) (n : Int),
      (((m.filter (·.live)).map (·, n)).toList.map fun c =>
        c.2 * ((nodeKeys c.1).count k : Int)).sum = n * share k m := by
    intro m n
    cases m with
    | none => simp [share]
    | some m => cases hl : m.live <;> simp [Option.filter, share, under, hl, hcount]
  rw [nodeDelta, sourceChanges, map_append, sum_append, hside, hside]
  omega

theorem mem_nodeChanges {changes : List (ChannelMessage × Int)} :
    k ∈ nodeChanges changes ↔ nodeDelta changes k ≠ 0 := by
  rw [nodeChanges, mem_filter, mem_dedup, decide_eq_true_eq, and_iff_right_iff_imp]
  intro hne
  by_contra hnot
  refine hne (sum_eq_zero ?_)
  intro x hx
  obtain ⟨c, hc, rfl⟩ := mem_map.mp hx
  have hno : k ∉ nodeKeys c.1 := fun hk => hnot (mem_flatMap.mpr ⟨c, hc, hk⟩)
  simp [count_eq_zero.mpr hno]

namespace SummaryTables

variable {d' : SummaryTables} {old new : Option ChannelMessage}

/-- The trigger moves the nodes of the ready channels by what the row counts for them, and it
touches nothing else. -/
theorem maintainSource_spec (h : d.maintainSource old new = some d') :
    ∃ nodes, d' = { d with nodes } ∧ ∀ k,
      (d.ready k.channelID = true → (nodes k).getD 0 =
        d.liveCount k + (share k new - share k old)) ∧
          (d.ready k.channelID = false → nodes k = d.nodes k) := by
  have hdelta := nodeDelta_sourceChanges old new
  -- Without a difference the nodes stay as they are.
  have hsame : ∀ k, share k new - share k old = 0 →
      (d.nodes k).getD 0 = d.liveCount k + (share k new - share k old) := by
    intro k hzero
    rw [hzero, Int.add_zero]
    rfl
  rw [maintainSource] at h
  split at h
  · rename_i hnil
    cases h
    refine ⟨d.nodes, rfl, fun k => ⟨fun _ => hsame k ?_, fun _ => rfl⟩⟩
    rw [← hdelta k, hnil]
    rfl
  · split at h
    · rename_i hunmoved
      cases h
      refine ⟨d.nodes, rfl, fun k => ⟨fun _ => hsame k ?_, fun _ => rfl⟩⟩
      cases old with
      | none => exact absurd hunmoved Bool.false_ne_true
      | some o =>
        cases new with
        | none => exact absurd hunmoved Bool.false_ne_true
        | some n =>
          simp only [unmoved, Bool.and_eq_true, decide_eq_true_eq] at hunmoved
          obtain ⟨⟨⟨⟨⟨ho, hn⟩, hchannel⟩, hlocal⟩, hfrom⟩, -⟩ := hunmoved
          have hscope : k.scope.has o = k.scope.has n := by
            cases k.scope <;> simp [SummaryScope.has, hfrom]
          simp [share, under, NodeKey.above, ho, hn, hchannel, hlocal, hscope]
    · split at h
      · simp only [writeNodes, Option.ite_none_right_eq_some] at h
        obtain ⟨-, h⟩ := h
        refine ⟨_, (Option.some.inj h).symm, fun k => ⟨fun hready => ?_, fun hready => ?_⟩⟩
        · rw [← hdelta k]
          by_cases hmoved : nodeDelta (sourceChanges old new) k = 0
          · simp [mem_filter, mem_nodeChanges, hmoved, liveCount]
          · simp [mem_filter, mem_nodeChanges, hmoved, hready]
        · simp [mem_filter, hready]
      · exact nomatch h

end SummaryTables

/-! ## The invariant -/

structure SummaryInv (d : SummaryTables) : Prop where
  posts : ∀ m ∈ d.messages, (d.channelByID m.channelID).isSome ∧ m.localID ≤ bigintMax
  states : ∀ s ∈ d.states, (d.channelByID s.channelID).isSome
  ready : ∀ c, d.ready c = true → (d.channelByID c).isSome
  nodes : ∀ k : NodeKey, d.channelByID k.channelID = none → d.nodes k = none
  positive : ∀ m ∈ d.messages, d.ready m.channelID = true → 0 < m.localID ∧ 0 < m.fromID
  counts : ∀ k : NodeKey, d.ready k.channelID = true → d.liveCount k = d.messages.countP (under k)

variable {channel localID : Int} {m : ChannelMessage}

namespace SummaryInv

variable {d' : SummaryTables}

theorem countP_append_row (k : NodeKey) (ms : List ChannelMessage) (m : ChannelMessage) :
    ((ms ++ [m]).countP (under k) : Int) = ms.countP (under k) + share k (some m) := by
  rw [countP_append, countP_singleton]
  cases hm : under k m <;> simp [share, hm]

theorem countP_erase_row (k : NodeKey) (hm : m ∈ ms) :
    ((ms.erase m).countP (under k) : Int) = ms.countP (under k) - share k (some m) := by
  rw [(perm_cons_erase hm).countP_eq, countP_cons]
  cases hm : under k m <;> simp [share, hm]

theorem mem_of_local (h : d.channelMessageByLocal channel localID = some m) : m ∈ d.messages :=
  mem_of_find?_eq_some h

theorem valid (h : d.validSource m = true) :
    (d.channelByID m.channelID).isSome ∧ m.localID ≤ bigintMax ∧ 0 < m.localID ∧ 0 < m.fromID := by
  simp only [SummaryTables.validSource, Bool.and_eq_true, decide_eq_true_eq] at h
  exact ⟨h.2, h.1.1.2, h.1.1.1, h.1.2⟩

theorem ready_setSummaryState (d : SummaryTables) (channel id : Int) (b : Bool) :
    (d.setSummaryState channel b).ready id = if id = channel then b else d.ready id := by
  rw [SummaryTables.ready, summaryState, setSummaryState,
    find?_upsertWhere_key (k := (·.channelID)) (b := id) (by simp) (by simp) (by simp) rfl]
  simp only [eq_comm (a := id)]
  split
  · cases d.summaryStates.find? (fun s => s.channelID = id) <;> simp
  · rfl

variable (hd : SummaryInv d)

include hd

theorem maintain (hposts : ∀ m ∈ ms, m ∈ d.messages ∨
      (d.channelByID m.channelID).isSome ∧ m.localID ≤ bigintMax ∧ 0 < m.localID ∧ 0 < m.fromID)
    (hcount : ∀ k, (ms.countP (under k) : Int) =
      d.messages.countP (under k) + (share k new - share k old))
    (h : { d with messages := ms }.maintainSource old new = some d') : SummaryInv d' := by
  obtain ⟨nodes, rfl, hnodes⟩ := SummaryTables.maintainSource_spec h
  exact
    { posts := fun m hm => (hposts m hm).elim (hd.posts m) fun hnew => ⟨hnew.1, hnew.2.1⟩
      states := hd.states
      ready := hd.ready
      nodes := fun k hk => by
        have hnot : d.ready k.channelID = false := by
          by_contra hready
          have hsome := hd.ready k.channelID (by simpa using hready)
          exact nomatch hsome.symm.trans (congrArg Option.isSome hk)
        exact ((hnodes k).2 hnot).trans (hd.nodes k hk)
      positive := fun m hm hready => (hposts m hm).elim (fun hold => hd.positive m hold hready)
        fun hnew => hnew.2.2
      counts := fun k hready => by
        have hold : d.liveCount k = d.messages.countP (under k) := hd.counts k hready
        calc (nodes k).getD 0 = d.liveCount k + (share k new - share k old) := (hnodes k).1 hready
          _ = d.messages.countP (under k) + (share k new - share k old) := by rw [hold]
          _ = ms.countP (under k) := (hcount k).symm }

theorem insertPost (h : d.insertPost m = some d') : SummaryInv d' := by
  simp only [SummaryTables.insertPost, Option.ite_none_right_eq_some, Bool.and_eq_true] at h
  obtain ⟨⟨hvalid, -⟩, h⟩ := h
  refine hd.maintain (fun x hx => ?_) (fun k => ?_) h
  · rcases mem_append.mp hx with hx | hx
    · exact .inl hx
    · obtain rfl := mem_singleton.mp hx
      exact .inr (valid hvalid)
  · rw [countP_append_row]
    simp [share]

theorem updatePost (h : d.updatePost channel localID m = some d') : SummaryInv d' := by
  rw [SummaryTables.updatePost] at h
  split at h
  · exact Option.some.inj h ▸ hd
  · rename_i o ho
    simp only [Option.ite_none_right_eq_some, Bool.and_eq_true] at h
    obtain ⟨⟨hvalid, -⟩, h⟩ := h
    refine hd.maintain (fun x hx => ?_) (fun k => ?_) h
    · rcases mem_append.mp hx with hx | hx
      · exact .inl (mem_of_mem_erase hx)
      · obtain rfl := mem_singleton.mp hx
        exact .inr (valid hvalid)
    · rw [countP_append_row, countP_erase_row k (mem_of_local ho)]
      omega

theorem deletePost (h : d.deletePost channel localID = some d') : SummaryInv d' := by
  rw [SummaryTables.deletePost] at h
  split at h
  · exact Option.some.inj h ▸ hd
  · rename_i o ho
    simp only [Option.ite_none_right_eq_some] at h
    refine hd.maintain (fun x hx => .inl (mem_of_mem_erase hx)) (fun k => ?_) h.2
    rw [countP_erase_row k (mem_of_local ho)]
    simp [share, Int.sub_eq_add_neg]

/-- No count gets below zero, so the trigger lets every post of a supported channel be deleted. -/
theorem exists_deletePost (ho : d.channelMessageByLocal channel localID = some m)
    (hpositive : 0 < m.localID ∧ 0 < m.fromID) (hs : d.supported m.channelID = true) : ∃ nodes,
      d.deletePost channel localID = some { d with messages := d.messages.erase m, nodes } := by
  have hkept : ∀ k, d.ready k.channelID = true →
      0 ≤ d.liveCount k + nodeDelta (sourceChanges (some m) none) k := by
    intro k hready
    have herase := countP_erase_row k (mem_of_local ho)
    rw [nodeDelta_sourceChanges, hd.counts k hready, show share k none = 0 from rfl]
    omega
  obtain ⟨d', h⟩ : ∃ d', { d with messages := d.messages.erase m }.maintainSource (some m) none =
      some d' := by
    rw [SummaryTables.maintainSource]
    split
    · exact ⟨_, rfl⟩
    · rw [if_neg (by simp [unmoved]), if_pos, SummaryTables.writeNodes, if_pos]
      · exact ⟨_, rfl⟩
      · exact all_eq_true.mpr fun k hk => decide_eq_true (hkept k (mem_filter.mp hk).2)
      · cases hlive : m.live <;> simp [sourceChanges, Option.filter, hlive]
        exact hs
  obtain ⟨nodes, rfl, -⟩ := SummaryTables.maintainSource_spec h
  exact ⟨nodes, by simpa [SummaryTables.deletePost, ho, hpositive] using h⟩

theorem countP_of_absent (hk : d.channelByID k.channelID = none) :
    d.messages.countP (under k) = 0 := by
  refine countP_eq_zero.mpr fun m hm hunder => ?_
  simp only [under, NodeKey.above, Bool.and_eq_true, decide_eq_true_eq] at hunder
  simpa [hunder.2.1, hk] using (hd.posts m hm).1

theorem insertChannel {c : Channel} (h : d.insertChannel c = some d') : SummaryInv d' := by
  simp only [SummaryTables.insertChannel, Option.ite_none_left_eq_some] at h
  obtain ⟨habsent, h⟩ := h
  cases h
  have hnone : d.channelByID c.id = none := by simpa using habsent
  have hgrows : ∀ id, (d.channelByID id).isSome →
      ((d.channels ++ [c]).find? fun x => x.id = id).isSome := by
    intro id hid
    rw [find?_append, Option.isSome_or, Bool.or_eq_true]
    exact .inl hid
  have hready : ∀ id, id ≠ c.id → ∀ b, ((insertAbsent (fun x : SummaryState => x.channelID = c.id)
      ⟨c.id, 1, true⟩ d.summaryStates).find? fun x => x.channelID = id).any
        (fun s => s.version = 1 && s.ready) = b → d.ready id = b := by
    intro id hid b hb
    rwa [find?_insertAbsent_key (k := (·.channelID)) (a := c.id) (b := id) (by simp) (by simp) rfl,
      if_neg (Ne.symm hid)] at hb
  exact
    { posts := fun m hm => ⟨hgrows _ (hd.posts m hm).1, (hd.posts m hm).2⟩
      states := fun s hs => hgrows _ (hd.states s hs)
      ready := fun id hid => by
        by_cases hnew : id = c.id
        · exact find?_isSome.mpr ⟨c, by simp, by simp [hnew]⟩
        · exact hgrows _ (hd.ready id (hready id hnew true hid))
      nodes := fun k hk => by
        refine hd.nodes k (Option.not_isSome_iff_eq_none.mp fun hsome => ?_)
        exact nomatch (hgrows k.channelID hsome).symm.trans (congrArg Option.isSome hk)
      positive := fun m hm hid => by
        refine hd.positive m hm (hready m.channelID ?_ true hid)
        intro hnew
        simpa [hnew, hnone] using (hd.posts m hm).1
      counts := fun k hid => by
        by_cases hnew : k.channelID = c.id
        · have hk : d.channelByID k.channelID = none := hnew ▸ hnone
          have hzero : d.messages.countP (under k) = 0 := hd.countP_of_absent hk
          change (d.nodes k).getD 0 = d.messages.countP (under k)
          rw [hd.nodes k hk, hzero]
          rfl
        · exact hd.counts k (hready k.channelID hnew true hid) }

theorem ensureChannelState (h : d.ensureChannelState channel = some d') : SummaryInv d' := by
  simp only [SummaryTables.ensureChannelState, Option.ite_none_right_eq_some] at h
  obtain ⟨hsome, h⟩ := h
  cases h
  refine ⟨hd.posts, fun s hs => ?_, hd.ready, hd.nodes, hd.positive, hd.counts⟩
  change s ∈ insertAbsent _ _ d.states at hs
  rw [insertAbsent] at hs
  split at hs
  · exact hd.states s hs
  · rcases mem_append.mp hs with hs | hs
    · exact hd.states s hs
    · obtain rfl := mem_singleton.mp hs
      exact hsome

theorem channel_of_state (h : (d.channelState channel).isSome) :
    (d.channelByID channel).isSome := by
  obtain ⟨s, hs⟩ := Option.isSome_iff_exists.mp h
  have hid : s.channelID = channel := by simpa using find?_some hs
  exact hid ▸ hd.states s (mem_of_find?_eq_some hs)

theorem rebuild {b : Bool} {nodes : NodeKey → Option Int} (hstate : (d.channelState channel).isSome)
    (hothers : ∀ k : NodeKey, k.channelID ≠ channel → nodes k = d.nodes k)
    (hpositive : b = true → ∀ m ∈ d.messages, m.channelID = channel → 0 < m.localID ∧ 0 < m.fromID)
    (hcounts : b = true → ∀ k : NodeKey, k.channelID = channel →
      (nodes k).getD 0 = d.messages.countP (under k)) :
    SummaryInv ({ d with nodes }.setSummaryState channel b) := by
  have hready : ∀ id, ({ d with nodes }.setSummaryState channel b).ready id =
      if id = channel then b else d.ready id := fun id => ready_setSummaryState _ channel id b
  have hchannel := hd.channel_of_state hstate
  exact
    { posts := hd.posts
      states := hd.states
      ready := fun id hid => by
        by_cases hc : id = channel
        · exact hc ▸ hchannel
        · exact hd.ready id (by simpa [hready, hc] using hid)
      nodes := fun k hk => by
        have hc : k.channelID ≠ channel := by
          intro hc
          exact nomatch (hc ▸ hchannel).symm.trans (congrArg Option.isSome hk)
        exact (hothers k hc).trans (hd.nodes k hk)
      positive := fun m hm hid => by
        rw [hready] at hid
        by_cases hc : m.channelID = channel
        · exact hpositive (by simpa [hc] using hid) m hm hc
        · exact hd.positive m hm (by simpa [hc] using hid)
      counts := fun k hid => by
        rw [hready] at hid
        by_cases hc : k.channelID = channel
        · exact hcounts (by simpa [hc] using hid) k hc
        · have hold := hd.counts k (by simpa [hc] using hid)
          change (nodes k).getD 0 = _
          rw [hothers k hc]
          exact hold }

theorem markNotReady (h : d.markNotReady channel = some d') : SummaryInv d' := by
  simp only [SummaryTables.markNotReady, Option.ite_none_right_eq_some] at h
  obtain ⟨hstate, h⟩ := h
  cases h
  exact hd.rebuild hstate (fun _ _ => rfl) nofun nofun

theorem initializeSummaries (h : d.initializeChannelPostSummaries channel = some d') :
    SummaryInv d' := by
  simp only [SummaryTables.initializeChannelPostSummaries, Option.ite_none_left_eq_some] at h
  obtain ⟨-, hstate, hvalid, h⟩ := h
  cases h
  refine hd.rebuild (by simpa [Option.isSome_iff_ne_none] using hstate) (fun k hk => if_neg hk)
    (fun _ m hm hc => ?_) (fun _ k hk => ?_)
  · by_contra hnot
    refine hvalid (any_eq_true.mpr ⟨m, hm, ?_⟩)
    simp only [decide_eq_true_eq]
    exact ⟨hc, by omega⟩
  · have hlive : ((d.livePosts channel).flatMap nodeKeys).count k =
        d.messages.countP (under k) := by
      rw [count_flatMap_nodeKeys, livePosts, countP_filter]
      refine countP_congr fun m _ => ?_
      simp only [under, NodeKey.above, hk, Bool.and_eq_true, decide_eq_true_eq]
      tauto
    rw [if_pos hk, SummaryTables.rebuilt, hlive]
    by_cases hzero : d.messages.countP (under k) = 0 <;> simp [hzero]

theorem step {o : SummaryOp} (h : summaryMachine.step d o = some d') : SummaryInv d' := by
  cases o with
  | insertPost m => exact hd.insertPost h
  | updatePost channel localID m => exact hd.updatePost h
  | deletePost channel localID => exact hd.deletePost h
  | insertChannel c => exact hd.insertChannel h
  | ensureChannelState channel => exact hd.ensureChannelState h
  | markNotReady channel => exact hd.markNotReady h
  | initializeSummaries channel => exact hd.initializeSummaries h

end SummaryInv

/-- The tables as the migration leaves them: posts and states of channels that are there, and no
summaries. -/
structure SummaryTables.Migrated (d : SummaryTables) : Prop where
  posts : ∀ m ∈ d.messages, (d.channelByID m.channelID).isSome ∧ m.localID ≤ bigintMax
  states : ∀ s ∈ d.states, (d.channelByID s.channelID).isSome
  summaryStates : d.summaryStates = []
  nodes : ∀ k, d.nodes k = none

theorem SummaryTables.Migrated.inv (h : d.Migrated) : SummaryInv d := by
  have hready : ∀ c, d.ready c = false := by
    intro c
    simp [SummaryTables.ready, summaryState, h.summaryStates]
  have hnever : ∀ {c : Int} {p : Prop}, d.ready c = true → p := by
    intro c p hc
    rw [hready c] at hc
    exact absurd hc Bool.false_ne_true
  exact ⟨h.posts, h.states, fun _ hc => hnever hc, fun k _ => h.nodes k, fun _ _ hc => hnever hc,
    fun _ hc => hnever hc⟩

/-- What the statements reach, in any order and number. -/
def SummaryReached (d₀ d : SummaryTables) : Prop :=
  summaryMachine.Reach (fun _ _ => True) d₀ d

theorem SummaryReached.inv {d₀ : SummaryTables} (h : SummaryReached d₀ d) (h₀ : d₀.Migrated) :
    SummaryInv d :=
  h.invariant h₀.inv fun _ _ _ hd _ hs => hd.step hs

/-! ## The suffix query -/

def SummaryTables.scopePosts (d : SummaryTables) (channel : Int) (scope : SummaryScope) :
    List ChannelMessage :=
  (d.livePosts channel).filter scope.has

theorem SummaryTables.mem_scopePosts
    (h : m ∈ d.scopePosts channel scope) : m ∈ d.messages ∧ m.channelID = channel := by
  have hlive := mem_of_mem_filter h
  have hchannel : m.channelID = channel ∧ m.live = true := by
    simpa using (mem_filter.mp hlive).2
  exact ⟨mem_of_mem_filter hlive, hchannel.1⟩

/-- The keys of the suffix of a positive marker, by the bit that each of them sets. -/
theorem sum_suffixKeys (hpos : 0 < marker) (f : Nat × Int → Int) : ((suffixKeys marker).map f).sum =
      ∑ b ∈ Finset.range 63, if marker / 2 ^ b % 2 = 0 then f (63 - b, branch marker b) else 0 := by
  have hlist : ∀ n : Nat, ((((List.range n).map (· + 1)).filterMap fun depth : Nat =>
      if 0 < marker ∧ marker >>> (63 - depth) % 2 = 0 then
        some (depth, 2 * (marker >>> (64 - depth)) + 1)
      else none).map f).sum =
      ∑ i ∈ Finset.range n, if marker >>> (63 - (i + 1)) % 2 = 0 then
        f (i + 1, 2 * (marker >>> (64 - (i + 1))) + 1) else 0 := by
    intro n
    induction n with
    | zero => simp
    | succ n ih =>
      rw [range_succ, map_append, filterMap_append, map_append,
        sum_append, ih, Finset.sum_range_succ]
      congr 1
      rw [map_singleton, filterMap_cons, filterMap_nil]
      by_cases hbit : marker >>> (63 - (n + 1)) % 2 = 0
      · rw [if_pos ⟨hpos, hbit⟩, if_pos hbit]
        exact sum_singleton
      · rw [if_neg (fun h => hbit h.2), if_neg hbit]
        rfl
  rw [suffixKeys, if_neg (by omega), nil_append, hlist 63, ← Finset.sum_range_reflect]
  refine Finset.sum_congr rfl fun b hb => ?_
  have hb : b < 63 := Finset.mem_range.mp hb
  have hdepth : 63 - 1 - b + 1 = 63 - b := by omega
  have hbit : 63 - (63 - b) = b := by omega
  have hnext : 64 - (63 - b) = b + 1 := by omega
  simp only [hdepth, hbit, hnext, Int.shiftRight_eq_div_pow, branch]
  push_cast
  rfl

namespace SummaryInv

theorem liveCount_eq (hd : SummaryInv d) (hready : d.ready channel = true) (scope : SummaryScope)
    {depth : Nat} (hdepth : depth ≤ 63) (stem : Int) :
    d.liveCount ⟨channel, scope, depth, stem⟩ =
      (d.scopePosts channel scope).countP fun m : ChannelMessage =>
        m.localID >>> (63 - depth) = stem := by
  rw [hd.counts ⟨channel, scope, depth, stem⟩ hready, SummaryTables.scopePosts, countP_filter,
    livePosts, countP_filter]
  congr 1
  refine countP_congr fun m _ => ?_
  simp only [under, NodeKey.above, Bool.and_eq_true, decide_eq_true_eq]
  tauto

theorem scopePosts_bounds (hd : SummaryInv d) (hready : d.ready channel = true)
    (hm : m ∈ d.scopePosts channel scope) : 0 < m.localID ∧ m.localID < 2 ^ 63 := by
  obtain ⟨hmem, rfl⟩ := SummaryTables.mem_scopePosts hm
  have hle := (hd.posts m hmem).2
  rw [bigintMax] at hle
  exact ⟨(hd.positive m hmem hready).1, by omega⟩

/-- The suffix sum counts the posts of its scope above the marker. -/
theorem suffixSum_eq (hd : SummaryInv d) (hready : d.ready channel = true) (scope : SummaryScope)
    (h₀ : 0 ≤ marker) (h₁ : marker < 2 ^ 63) :
    d.suffixSum channel scope marker =
      (d.scopePosts channel scope).countP fun m => marker < m.localID := by
  have hbounds := fun m (hm : m ∈ d.scopePosts channel scope) => hd.scopePosts_bounds hready hm
  have hdiv : ∀ x : Int, 0 ≤ x → x < 2 ^ 63 → x / 2 ^ 63 = 0 := fun x => Int.ediv_eq_zero_of_lt
  rcases h₀.lt_or_eq with hpos | rfl
  · have hagree : ∀ m ∈ d.scopePosts channel scope, m.localID / 2 ^ 63 = marker / 2 ^ 63 := by
      intro m hm
      rw [hdiv _ (hbounds m hm).1.le (hbounds m hm).2, hdiv _ h₀ h₁]
    rw [suffixSum, sum_suffixKeys hpos, countP_above hagree]
    rw [Nat.cast_sum]
    refine Finset.sum_congr rfl fun b hb => ?_
    have hb : b < 63 := Finset.mem_range.mp hb
    have hbit : 63 - (63 - b) = b := by omega
    rw [hd.liveCount_eq hready scope (Nat.sub_le 63 b), hbit, Nat.cast_ite, Nat.cast_zero]
    simp only [Int.shiftRight_eq_div_pow]
    rfl
  · -- The node at the root counts all.
    have hroot : suffixKeys 0 = [(0, 0)] := by decide
    rw [suffixSum, hroot, map_singleton, sum_singleton,
      hd.liveCount_eq hready scope (Nat.zero_le 63)]
    congr 1
    refine countP_congr fun m hm => ?_
    have hshift : m.localID >>> (63 - 0 : Nat) = 0 := by
      rw [Int.shiftRight_eq_div_pow]
      exact hdiv _ (hbounds m hm).1.le (hbounds m hm).2
    simp [hshift, (hbounds m hm).1]

end SummaryInv

/-- In a channel whose summaries are ready every node counts the live posts under it, and the
suffix query counts the live posts above its marker, all of them and the viewer's own. -/
theorem channelPostSummaries_exact {d₀ d : SummaryTables} (h₀ : d₀.Migrated)
    (h : SummaryReached d₀ d) {channel : Int} (hready : d.ready channel = true) :
    (∀ (scope : SummaryScope) (depth : Nat) (stem : Int), depth ≤ 63 →
      d.liveCount ⟨channel, scope, depth, stem⟩ =
        (d.scopePosts channel scope).countP fun m : ChannelMessage =>
        m.localID >>> (63 - depth) = stem) ∧
    (∀ now viewer marker : Int, d.entitled now channel viewer = true → 0 ≤ marker →
      marker < 2 ^ 63 →
      d.channelPostUnreadSuffixCounts now channel viewer marker = ⟨true, true, 1, true,
          (d.livePosts channel).countP fun m => marker < m.localID,
          (d.livePosts channel).countP fun m => m.fromID = viewer ∧ marker < m.localID⟩) := by
  have hd := h.inv h₀
  refine ⟨fun scope depth stem hdepth => hd.liveCount_eq hready scope hdepth stem, ?_⟩
  intro now viewer marker hentitled hmin hmax
  have hscope : d.scopePosts channel .channel = d.livePosts channel := by
    simp [SummaryTables.scopePosts, SummaryScope.has]
  have hown : (d.scopePosts channel (.author viewer)).countP (fun m => marker < m.localID) =
      (d.livePosts channel).countP fun m => m.fromID = viewer ∧ marker < m.localID := by
    rw [SummaryTables.scopePosts, countP_filter]
    refine countP_congr fun m _ => ?_
    simp [SummaryScope.has, and_comm]
  obtain ⟨s, hs, hversion, hs'⟩ : ∃ s, d.summaryState channel = some s ∧ s.version = 1 ∧
      s.ready = true := by
    simpa [SummaryTables.ready, Option.any_eq_true] using hready
  rw [SummaryTables.channelPostUnreadSuffixCounts, if_pos ⟨hentitled, hready⟩,
    if_pos ⟨hentitled, hready⟩, hd.suffixSum_eq hready _ hmin hmax,
    hd.suffixSum_eq hready _ hmin hmax, hscope, hown, hentitled, hs]
  simp [hversion, hs']

def oldChannel : SummaryTables :=
  { channels := [{ id := 7, creatorID := 2 }]
    states := [{ channelID := 7 }]
    participants := [{ channelID := 7, userID := 2 }]
    messages := [{ channelID := 7, localID := 3, fromID := 2, date := 0, message := "" },
      { channelID := 7, localID := 4, fromID := 9, date := 0, message := "" }] }

def newPost : ChannelMessage :=
  { channelID := 7, localID := 4, fromID := 9, date := 0, message := "new" }

/-- The posts are counted, one of them is edited, and that one is deleted. -/
theorem channelPostSummaries_exact_oldChannel :
    ∃ d, SummaryReached oldChannel d ∧ d.ready 7 = true ∧ d.entitled 0 7 2 = true ∧
      d.channelPostUnreadSuffixCounts 0 7 2 2 = ⟨true, true, 1, true, 1, 1⟩ := by
  obtain ⟨d, hrun, hready, hmember, hpost, hs, hkept⟩ : ∃ d, SummaryReached oldChannel d ∧
      d.ready 7 ∧ d.entitled 0 7 2 ∧ d.channelMessageByLocal 7 4 = some newPost ∧
        d.supported 7 ∧ d.messages.erase newPost = oldChannel.messages.take 1 :=
    Conc.Machine.exists_reach [.initializeSummaries 7, .updatePost 7 4 newPost] (by decide +kernel)
  have hold : oldChannel.Migrated :=
    ⟨by decide +kernel, by decide +kernel, rfl, fun _ => rfl⟩
  obtain ⟨nodes, hdelete⟩ := (hrun.inv hold).exists_deletePost hpost (by decide) hs
  have hrun' : SummaryReached oldChannel { d with messages := _, nodes } :=
    hrun.step (a := .deletePost 7 4) trivial hdelete
  refine ⟨_, hrun', hready, hmember, ?_⟩
  rw [(channelPostSummaries_exact hold hrun' hready).2 0 2 2 hmember (by decide) (by decide),
    livePosts, hkept]
  rfl

end TelegramServer.Channels
