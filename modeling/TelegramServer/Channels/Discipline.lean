import TelegramServer.Channels.Transactions
import TelegramServer.Tx.Schedule

/-!
# What the channel transactions lock and write

Every write stands under its locks, and every lock that is asked for by name comes after
all that are held: invites, then the `channels` row, `channel_state`, the accounts in
ascending order, and a participant. `EditChannelUsername` begins with the advisory lock of
the channel's number, which is an account's too if an account has that number; `user` says
which numbers are accounts.
-/

namespace TelegramServer.Channels

open Tx Tx.Rows Tx.Locking List

variable {held : List Lock} {user : Int → Bool} {row : DB → Option A} {owner : HandleOwner}
  {targets : List Int} {channelID now : Int} {p : Post} {B : Type} {A : Type}
  {Q : Unit → List Lock → Prop} {channel u : Int} {l : Lock} {o : Write} {q : DB → Option A}
  {state : ChannelState} {f : A → Body B}

/-- The lock is that of a row which is there, or an advisory one. A row that a statement is about to
insert is not asked for by name. -/
def DB.explicit (d : DB) : Lock → Bool
  | .channel c => (d.channelByID c).isSome
  | .state c => (d.channelState c).isSome
  | .participant c u => d.isChannelMember c u
  | .invite _ => true
  | .account _ => true
  | .username _ => false

def Lock.rank (user : Int → Bool) : Lock → Nat
  | .account key => if user key then 4 else 0
  | .invite _ => 1
  | .channel _ => 2
  | .state _ => 3
  | .participant _ _ => 5
  | .username _ => 6

def Lock.number : Lock → Int
  | .account key => key
  | _ => 0

def Lock.below (user : Int → Bool) (l l' : Lock) : Prop :=
  l.rank user < l'.rank user ∨ l.rank user = l'.rank user ∧ l.number < l'.number

theorem Lock.not_below_self (user : Int → Bool) (l : Lock) : ¬ l.below user l := by
  unfold Lock.below
  omega

theorem Lock.below.trans {l₁ l₂ l₃ : Lock} (h : l₁.below user l₂)
    (h' : l₂.below user l₃) : l₁.below user l₃ := by
  unfold Lock.below at *
  omega

structure Disciplined (user : Int → Bool) (v : DB) (held need : List Lock) (write : List Write) :
    Prop where
  covered : locking.Covered write {l | l ∈ need ++ held}
  ascends : Config.Ascending (Lock.below user) (fun d l => d.explicit l) v held need

abbrev Keeps (user : Int → Bool) {A : Type} (p : Body A) (held : List Lock)
    (Q : A → List Lock → Prop) : Prop :=
  locking.toRows.each (Disciplined user) p held Q

theorem Keeps.covers {p : Body A} {Q : A → List Lock → Prop}
    (h : Keeps user p held Q) : locking.covers p held Q :=
  each_mono h (fun _ _ _ _ hd => hd.covered) fun _ _ hQ => hQ

theorem disciplined_nil (v : DB) : Disciplined user v held [] [] :=
  ⟨covered_nil _, by simp [Config.Ascending]⟩

def InOrder (user : Int → Bool) (held : List Lock) (l : Lock) : Prop :=
  (∀ d : DB, d.explicit l = false) ∨ l ∈ held ∨ ∀ l' ∈ held, l'.below user l

theorem inOrder_username (h : String) : InOrder user held (.username h) := .inl fun _ => rfl

theorem inOrder_of_held (h : l ∈ held) : InOrder user held l := .inr (.inl h)

theorem inOrder_of_rank (h : ∀ l' ∈ held, l'.rank user < l.rank user) : InOrder user held l :=
  .inr (.inr fun l' hl' => .inl (h l' hl'))

theorem InOrder.ascending (h : InOrder user held l) (v : DB) :
    Config.Ascending (Lock.below user) (fun d l => d.explicit l) v held [l] := by
  intro l' hl' hexp
  obtain rfl := mem_singleton.mp hl'
  obtain hno | h := h
  · simp [hno v] at hexp
  · exact h

theorem covered_singleton {H : List Lock} (ho : ∀ g ∈ o.guards, g ∈ H) :
    locking.Covered [o] {l | l ∈ H} := by
  intro o' ho' g hg
  rw [mem_singleton.mp ho'] at hg
  exact ho g hg

theorem keeps_query {q : DB → A} {Q : A → List Lock → Prop} (h : ∀ a, Q a held) :
    Keeps user (.query q) held Q :=
  each_query disciplined_nil h

theorem keeps_exec_ (ho : ∀ g ∈ o.guards, g ∈ held) (h : Q () held) :
    Keeps user (.exec_ o) held Q :=
  each_exec (fun _ => ⟨covered_singleton ho, by simp [Config.Ascending]⟩) fun _ => h

theorem keeps_rowForUpdate {Q : Option A → List Lock → Prop}
    (hl : InOrder user held l) (hnone : Q none held) (hsome : ∀ a, Q (some a) (l :: held)) :
    Keeps user (rowForUpdate l q) held Q := by
  intro v
  cases hq : q v with
  | none => exact ⟨by simpa [hq] using disciplined_nil v, by simpa [hq, each] using hnone⟩
  | some a =>
    refine ⟨?_, by simpa [hq, each] using hsome a⟩
    simpa [hq] using ⟨covered_nil _, hl.ascending v⟩

theorem keeps_queryOrFail {e : ChannelErr}
    {Q : B → List Lock → Prop} (h : ∀ a, Keeps user (f a) held Q) :
    Keeps user (.query q >>= fun x => .orFail e x >>= f) held Q :=
  each_bind (keeps_query fun _ => each_bind (each_orFail fun a _ => h a))

theorem keeps_rowOrFail {e : ChannelErr}
    {Q : B → List Lock → Prop} (hl : InOrder user held l)
    (h : ∀ a, Keeps user (f a) (l :: held) Q) :
    Keeps user (rowForUpdate l q >>= fun x => .orFail e x >>= f) held Q :=
  each_bind (keeps_rowForUpdate hl trivial fun a => h a)

theorem keeps_updateRow {q : DB → B} {Q : B → List Lock → Prop}
    (hl : InOrder user held l) (ho : ∀ g ∈ o.guards, g ∈ l :: held)
    (hnone : ∀ v, row v = none → Q (q v) held) (hsome : ∀ v, Q (q v) (l :: held)) :
    Keeps user (updateRow l row o q) held Q := by
  intro v
  cases hrow : (row v).isSome with
  | false =>
    refine ⟨by simpa [hrow] using disciplined_nil v, ?_⟩
    simpa [hrow, each] using hnone v (Option.not_isSome_iff_eq_none.mp (by simp [hrow]))
  | true =>
    refine ⟨?_, by simpa [hrow, each] using hsome v⟩
    simpa only [hrow] using ⟨covered_singleton ho, hl.ascending v⟩

theorem keeps_insert {q : DB → B} {Q : B → List Lock → Prop}
    (hl : ∀ v : DB, (row v).isSome = false → v.explicit l = false)
    (ho : ∀ g ∈ o.guards, g ∈ l :: held)
    (hnone : ∀ v, (row v).isSome → Q (q v) held)
    (hsome : ∀ v, (row v).isSome = false → Q (q v) (l :: held)) :
    Keeps user (.stmt (fun d => if (row d).isSome then [] else [l])
      (fun d => if (row d).isSome then [] else [o]) fun d => .ret (q d)) held Q := by
  intro v
  cases hrow : (row v).isSome with
  | true => exact ⟨by simpa [hrow]
    using disciplined_nil v, by simpa [hrow, each] using hnone v hrow⟩
  | false =>
    refine ⟨?_, by simpa [hrow, each] using hsome v hrow⟩
    refine ⟨?_, fun l' hl' hexp => ?_⟩
    · simpa only [hrow, Bool.false_eq_true, if_false, singleton_append] using covered_singleton ho
    obtain rfl : l' = l := by simpa [hrow] using hl'
    simp [hl v hrow] at hexp

theorem keeps_insertRow
    (hl : ∀ v : DB, (row v).isSome = false → v.explicit l = false)
    (ho : ∀ g ∈ o.guards, g ∈ l :: held)
    (h : Q () (l :: held)) : Keeps user (insertRow l row o) held Q := by
  refine each_bind (keeps_insert hl ho (fun v hv => ?_) fun v hv => ?_)
  · simp [Option.isNone_eq_false_iff.mpr hv, each]
  · have hnone : (row v).isNone = true := by simpa using hv
    rw [hnone]
    exact h

theorem keeps_lockOwners {ids : List Int} (hids : ∀ u ∈ ids, user u)
    (hrank : ∀ l ∈ held, l.rank user < 4)
    (h : ∀ held', (∀ u ∈ ids, .account u ∈ held') → (∀ g ∈ held, g ∈ held') →
      (∀ g ∈ held', g.rank user < 5) → Q () held') : Keeps user (lockOwners ids) held Q := by
  have hmem : ∀ {u}, u ∈ Store.ascendingUnique ids ↔ u ∈ ids := Store.mem_ascendingUnique
  refine each_lockAll (fun v done l rest hls => ?_) (h _ (fun u hu => ?_) (fun g hg => ?_) ?_)
  · obtain ⟨done', rest', hsplit, rfl, hrest⟩ := map_eq_append_iff.mp hls
    obtain ⟨u, rest'', rfl, rfl, rfl⟩ := map_eq_cons_iff.mp hrest
    have hu : user u := hids u (hmem.mp (by simp [hsplit]))
    have hsorted := Store.ascendingUnique_pairwise ids
    rw [hsplit, pairwise_append] at hsorted
    refine ⟨covered_nil _, InOrder.ascending (.inr (.inr fun l' hl' => ?_)) v⟩
    obtain hl' | hl' := mem_append.mp hl'
    · obtain ⟨k, hk, rfl⟩ := mem_map.mp (mem_reverse.mp hl')
      have hk' : user k := hids k (hmem.mp (by simp [hsplit, hk]))
      exact .inr ⟨by simp [Lock.rank, hk', hu], hsorted.2.2 k hk u (by simp)⟩
    · exact .inl (by simpa [Lock.rank, hu] using hrank l' hl')
  · exact mem_append_left _ (mem_reverse.mpr (mem_map_of_mem (hmem.mpr hu)))
  · simp [hg]
  · intro g hg
    obtain hg | hg := mem_append.mp hg
    · obtain ⟨k, hk, rfl⟩ := mem_map.mp (mem_reverse.mp hg)
      simp [Lock.rank, hids k (hmem.mp hk)]
    · exact (hrank g hg).trans (by decide)

theorem keeps_beginChannelMutation {caller target : Int}
    {Q : ChannelParticipant × ChannelParticipant → List Lock → Prop}
    (h : ∀ r, Q r [.channel channel]) :
    Keeps user (beginChannelMutation now channel caller target) [] Q := by
  unfold beginChannelMutation
  split
  · trivial
  refine each_bind (keeps_query fun member => ?_)
  split
  · trivial
  refine keeps_rowOrFail (inOrder_of_rank (by simp)) fun _ => ?_
  refine keeps_queryOrFail fun _ => ?_
  split
  · trivial
  exact keeps_queryOrFail fun _ => h _

theorem inOrder_participant_of_channel {c : Int} : InOrder user [.channel channel]
    (.participant c u) :=
  inOrder_of_rank (by simp [Lock.rank])

theorem keeps_setChannelRole (now channel caller target role : Int) :
    Keeps user (setChannelRole now channel caller target role) [] fun _ _ => True := by
  unfold setChannelRole
  split
  · trivial
  refine each_bind (keeps_beginChannelMutation fun r => ?_)
  obtain ⟨callerRow, targetRow⟩ := r
  simp only
  split
  · trivial
  refine each_bind (keeps_updateRow inOrder_participant_of_channel (by simp) (fun v _ => ?_)
    fun v => ?_)
  all_goals split <;> trivial

theorem keeps_setChannelBan (now channel caller target : Int) (until_ : Option Int)
    (forever : Bool) :
    Keeps user (setChannelBan now channel caller target until_ forever) [] fun _ _ => True := by
  unfold setChannelBan
  refine each_bind (keeps_beginChannelMutation fun r => ?_)
  obtain ⟨callerRow, targetRow⟩ := r
  simp only
  split
  · trivial
  refine each_bind (keeps_updateRow inOrder_participant_of_channel (by simp) (fun v _ => ?_)
    fun v => ?_)
  all_goals split <;> trivial

theorem keeps_leaveChannel (now channel user_ : Int) :
    Keeps user (leaveChannel now channel user_) [] fun _ _ => True := by
  unfold leaveChannel
  refine each_bind (keeps_rowForUpdate (inOrder_of_rank (by simp)) trivial fun _ => ?_)
  refine each_bind (keeps_query fun row => ?_)
  split
  · trivial
  split
  · refine each_bind (each_bind (keeps_updateRow inOrder_participant_of_channel (by simp)
      (fun v _ => ?_) fun v => ?_))
    all_goals trivial
  · trivial

theorem keeps_setChannelSlowMode (now channel caller seconds : Int) :
    Keeps user (setChannelSlowMode now channel caller seconds) [] fun _ _ => True := by
  unfold setChannelSlowMode
  refine each_bind (keeps_query fun member => ?_)
  split
  · trivial
  refine keeps_rowOrFail (inOrder_of_rank (by simp)) fun _ => ?_
  refine keeps_queryOrFail fun _ => ?_
  split
  · trivial
  split
  · trivial
  refine each_bind (keeps_updateRow (inOrder_of_held (by simp)) (by simp) (fun v _ => ?_)
    fun v => ?_)
  all_goals exact each_bind (each_orFail fun _ _ => trivial)

theorem keeps_insertChannelParticipantIfAbsent {p : ChannelParticipant}
    {Q : Nat → List Lock → Prop} (hstate : .state p.channelID ∈ held)
    (haccount : .account p.userID ∈ held) (h : ∀ n held', (∀ g ∈ held, g ∈ held') → Q n held') :
    Keeps user (insertChannelParticipantIfAbsent p) held Q := by
  refine keeps_insert (fun v hv => hv) (fun g hg => ?_) (fun v _ => h _ held fun _ hg => hg)
    fun v _ => h _ _ fun g hg => mem_cons_of_mem _ hg
  obtain rfl | rfl | rfl : g = .participant p.channelID p.userID ∨ g = .state p.channelID ∨
      g = .account p.userID := by simpa using hg
  · simp
  · simp [hstate]
  · simp [haccount]

theorem keeps_admitUser {caps : Caps} {Q : ChannelParticipant → List Lock → Prop}
    (hu : user u) (hstate : .state channelID ∈ held) (hrank : ∀ l ∈ held, l.rank user < 4)
    (h : ∀ r held', Q r held') : Keeps user (admitUser caps channelID state u) held Q := by
  unfold admitUser
  refine each_bind (keeps_query fun seats => ?_)
  split
  · trivial
  refine each_bind (keeps_lockOwners (by simpa using hu) hrank fun held' haccount hheld _ => ?_)
  refine each_bind (keeps_query fun joined => ?_)
  split
  · trivial
  refine each_bind (keeps_insertChannelParticipantIfAbsent (hheld _ hstate)
    (haccount u (by simp)) fun n _ _ => ?_)
  split
  · exact each_bind (keeps_query fun _ => each_orFail fun _ _ => h _ _)
  · exact h _ _

theorem keeps_joinChannelByInvite (caps : Caps) (hash : String) (hu : user u) :
    Keeps user (joinChannelByInvite caps hash u) [] fun _ _ => True := by
  unfold joinChannelByInvite
  refine keeps_rowOrFail (inOrder_of_rank (by simp)) fun invite => ?_
  refine keeps_rowOrFail (inOrder_of_rank (by simp [Lock.rank])) fun state => ?_
  refine keeps_queryOrFail fun _ => ?_
  refine each_bind (keeps_query fun row => ?_)
  split
  · trivial
  · exact each_bind (keeps_admitUser hu (by simp) (by simp [Lock.rank]) fun _ _ => trivial)

theorem keeps_joinChannelByUsername (caps : Caps) (now channelID : Int) (hu : user u) :
    Keeps user (joinChannelByUsername caps now channelID u) [] fun _ _ => True := by
  unfold joinChannelByUsername
  refine keeps_rowOrFail (inOrder_of_rank (by simp)) fun state => ?_
  refine keeps_queryOrFail fun _ => ?_
  split
  · trivial
  refine each_bind (keeps_query fun row => ?_)
  split
  · split <;> trivial
  · exact each_bind (keeps_admitUser hu (by simp) (by simp [Lock.rank]) fun _ _ => trivial)

theorem keeps_addTargets {caps : Caps} {seen added : List Int} {seats : Nat}
    {Q : List Int → List Lock → Prop} (hstate : .state channelID ∈ held)
    (haccount : ∀ u ∈ targets, .account u ∈ held) (h : ∀ r held', Q r held') :
    Keeps user (addTargets caps channelID state targets seen seats added) held Q := by
  induction targets generalizing seen seats added held with
  | nil => exact h _ _
  | cons target targets ih =>
    have hrest : ∀ u ∈ targets, .account u ∈ held := fun u hu => haccount u (by simp [hu])
    unfold addTargets
    split
    · exact ih hstate hrest
    refine each_bind (keeps_query fun row => ?_)
    split
    · exact ih hstate hrest
    refine each_bind (keeps_query fun joined => ?_)
    split
    · exact ih hstate hrest
    refine each_bind (keeps_insertChannelParticipantIfAbsent hstate
      (haccount target (by simp)) fun n held' hheld => ?_)
    split
    · exact ih (hheld _ hstate) fun u hu => hheld _ (hrest u hu)
    · exact ih (hheld _ hstate) fun u hu => hheld _ (hrest u hu)

theorem keeps_addChannelMembers (caps : Caps) (now channelID caller : Int)
    (htargets : ∀ u ∈ targets, user u) :
    Keeps user (addChannelMembers caps now channelID caller targets) [] fun _ _ => True := by
  unfold addChannelMembers
  refine each_bind (keeps_query fun member => ?_)
  split
  · trivial
  refine keeps_rowOrFail (inOrder_of_rank (by simp)) fun _ => ?_
  refine keeps_queryOrFail fun _ => ?_
  split
  · trivial
  refine keeps_rowOrFail (inOrder_of_rank (by simp [Lock.rank])) fun state => ?_
  split
  · trivial
  refine each_bind (keeps_lockOwners htargets (by simp [Lock.rank])
    fun held' haccount hheld _ => ?_)
  refine each_bind (keeps_query fun seats => ?_)
  exact each_bind (keeps_addTargets (hheld _ (by simp)) haccount fun _ _ => trivial)

/-! ### Creation and posting -/

theorem keeps_bumpChannelState {Q : Int × Int → List Lock → Prop}
    (hstate : .state channel ∈ held) (h : ∀ r, Q r (.state channel :: held)) :
    Keeps user (bumpChannelState channel) held Q := by
  refine each_bind (keeps_updateRow (inOrder_of_held hstate) (by simp) (fun v hv => ?_) fun v => ?_)
  · rw [hv]
    trivial
  · exact each_bind (each_orFail fun s _ => h _)

theorem keeps_insertChannel {Q : Channel → List Lock → Prop}
    (h : ∀ c, Q c (.channel c.id :: held)) (c : Channel) (draws : List Int) :
    Keeps user (insertChannel c draws) held Q := by
  induction draws with
  | nil => trivial
  | cons draw draws ih =>
    refine each_bind (keeps_insert (fun v hv => hv) (by simp) (fun v hv => ?_) fun v hv => ?_)
    · rw [if_neg (by simpa using Option.isSome_iff_ne_none.mp hv)]
      exact ih
    · rw [if_pos (by simpa using hv)]
      exact h { c with id := randomChannelID draw }

theorem keeps_createChannel (caps : Caps) (now : Int) {creator : Int} (title : String)
    (megagroup : Bool) (draws : List Int) (hu : user creator) :
    Keeps user (createChannel caps now creator title megagroup draws) [] fun _ _ => True := by
  unfold createChannel
  refine each_bind (keeps_lockOwners (by simpa using hu) (by simp) fun held haccount _ _ => ?_)
  refine each_bind (keeps_query fun joined => ?_)
  split
  · trivial
  refine each_bind (keeps_insertChannel (fun channel => ?_) _ _)
  refine each_bind (keeps_insertRow (fun v hv => hv) (by simp) ?_)
  refine each_bind (keeps_insertRow (fun v hv => hv) ?_ ?_)
  · simp [haccount creator (by simp)]
  refine each_bind (keeps_bumpChannelState (by simp) fun r => ?_)
  obtain ⟨pts, localID⟩ := r
  refine each_bind (keeps_exec_ (by simp) (each_bind (keeps_exec_ (by simp) ?_)))
  exact keeps_queryOrFail fun _ => trivial

theorem keeps_checkPostRights {Q : Int → List Lock → Prop}
    (h : ∀ role, Q role held) : Keeps user (checkPostRights channel u now) held Q := by
  unfold checkPostRights
  refine keeps_queryOrFail fun row => ?_
  split
  · trivial
  refine keeps_queryOrFail fun m => ?_
  split
  · trivial
  · exact h row.role

theorem keeps_checkPostLimits {times : PostTimes} {role : Int}
    (h : Q () held) : Keeps user (checkPostLimits times p role) held Q := by
  unfold checkPostLimits
  refine keeps_queryOrFail fun channel => ?_
  split
  · split
    · trivial
    · split
      · refine keeps_queryOrFail fun r => ?_
        obtain ⟨slowmodeSeconds, last⟩ := r
        simp only
        split
        · split
          · trivial
          · exact h
        · exact h
      · exact h
  · exact h

theorem keeps_checkReply (h : Q () held) : Keeps user (checkReply p) held Q := by
  unfold checkReply
  split
  · refine each_bind (keeps_query fun found => ?_)
    split
    · exact h
    · trivial
  · exact h

theorem keeps_storePost (times : PostTimes) (p : Post) (role : Int)
    (hstate : .state p.channelID ∈ held) (hrank : ∀ l ∈ held, l.rank user < 5) :
    Keeps user (storePost times p true role) held fun _ _ => True := by
  unfold storePost
  refine each_bind (keeps_checkPostLimits (each_bind (keeps_checkReply (each_bind ?_))))
  unfold insertPost
  refine each_bind (keeps_bumpChannelState hstate fun r => ?_)
  obtain ⟨pts, localID⟩ := r
  refine each_bind (keeps_exec_ (by simp) (each_bind (keeps_exec_ (by simp) ?_)))
  have hrank' : ∀ l ∈ Lock.state p.channelID :: held, l.rank user < 5 := by
    simpa [Lock.rank] using hrank
  refine each_bind (each_bind (keeps_updateRow (inOrder_of_rank hrank') (by simp)
    (fun v hv => ?_) fun v => ?_))
  · simp [hv, rowCount, each]
  · split
    · exact keeps_queryOrFail fun _ => trivial
    · trivial

theorem keeps_newChannelPostPts {localID : Int} {Q : Int → List Lock → Prop}
    (h : ∀ pts, Q pts held) : Keeps user (newChannelPostPts channel localID) held Q :=
  each_bind (keeps_query fun _ => each_orFail fun pts _ => h pts)

theorem keeps_postChannelMessageAs (times : PostTimes) (p : Post) :
    Keeps user (postChannelMessageAs times p) [] fun _ _ => True := by
  unfold postChannelMessageAs postChannelMessage
  split
  · trivial
  refine each_bind (keeps_checkPostRights fun _ => ?_)
  -- The row of `channel_state` may be new, and locked by its insertion.
  have hlocked : ∀ held : List Lock, (held = [] ∨ held = [.state p.channelID]) →
      InOrder user held (.state p.channelID) := by
    rintro held (rfl | rfl)
    · exact inOrder_of_rank (by simp)
    · exact inOrder_of_held (by simp)
  refine each_bind (keeps_insert (fun v hv => hv) (by simp) (fun v _ => ?_) fun v _ => ?_)
  all_goals
    refine keeps_rowOrFail (hlocked _ (by simp)) fun _ =>
      each_bind (keeps_checkPostRights fun role => ?_)
    split
    · refine each_bind (keeps_query fun existing => ?_)
      cases existing with
      | none => exact keeps_storePost times p role (by simp) (by simp [Lock.rank])
      | some m => exact each_bind (keeps_newChannelPostPts fun _ => trivial)
    · exact keeps_storePost times p role (by simp) (by simp [Lock.rank])

theorem keeps_sendChannelMessage (times : PostTimes) (limited : Bool) (p : Post) :
    Keeps user (sendChannelMessage times limited p) [] fun _ _ => True := by
  have hpost : Keeps user (if limited then .fail .floodWait else postChannelMessageAs times p) []
      fun _ _ => True := by
    split
    · trivial
    · exact keeps_postChannelMessageAs times p
  unfold sendChannelMessage
  by_cases hid : p.randomID ≠ 0
  · rw [if_pos hid]
    refine each_bind (keeps_query fun existing => ?_)
    cases existing with
    | none => exact hpost
    | some m => exact each_bind (keeps_newChannelPostPts fun _ => trivial)
  · rw [if_neg hid]
    exact hpost

theorem keeps_releaseUsernames
    (h : ∀ held', (∀ g ∈ held, g ∈ held') → Q () held') (handles : List String) :
    Keeps user (releaseUsernames owner handles) held Q := by
  induction handles generalizing held with
  | nil => exact h held fun _ hg => hg
  | cons handle handles ih =>
    refine each_bind (keeps_updateRow (inOrder_username _) (by simp) (fun v _ => ih h) fun v => ?_)
    exact ih fun held' hheld => h held' fun g hg => hheld g (mem_cons_of_mem _ hg)

theorem keeps_claimUsername {handle : String}
    (h : Q () (.username handle :: held)) : Keeps user (claimUsername handle owner) held Q := by
  refine each_bind fun v => ⟨⟨?_, (inOrder_username handle).ascending v⟩, ?_⟩
  · dsimp only
    split
    · exact covered_nil _
    · exact covered_singleton (by simp)
  · change Keeps user (if (v.usernameByHandle handle).isNone then _ else _) _ _
    split
    · exact h
    · trivial

theorem keeps_setChannelUsername {username : Option String}
    (hchannel : .channel channel ∈ held) (h : ∀ held', (∀ g ∈ held, g ∈ held') → Q () held') :
    Keeps user (do let _ ← setChannelUsername channel username) held Q :=
  each_bind (keeps_updateRow (inOrder_of_held hchannel) (by simp) (fun _ _ => h _ fun _ hg => hg)
    fun _ => h _ fun _ hg => mem_cons_of_mem _ hg)

theorem keeps_replaceChannelUsername {username : String}
    (hchannel : .channel channel ∈ held) (h : ∀ held', .channel channel ∈ held' → Q () held') :
    Keeps user (replaceChannelUsername channel username) held Q := by
  unfold replaceChannelUsername releaseUsernameByOwner
  refine each_bind (each_bind (keeps_query fun handles => keeps_releaseUsernames
    (fun held' hheld => ?_) handles))
  have hchannel' := hheld _ hchannel
  split
  · exact keeps_setChannelUsername hchannel' fun _ hheld => h _ (hheld _ hchannel')
  · refine each_bind (keeps_claimUsername (keeps_setChannelUsername (by simp [hchannel'])
      fun _ hheld => h _ (hheld _ (by simp [hchannel']))))

/-- The advisory lock of a number that no account has comes before the `channels` row. -/
theorem keeps_editChannelUsername (times : EditTimes) (caller : Int) (username : String)
    (hkey : user channel = false) :
    Keeps user (editChannelUsername times channel caller username) [] fun _ _ => True := by
  unfold editChannelUsername
  refine each_bind fun v => ⟨⟨covered_nil _, by simp [Config.Ascending]⟩, ?_⟩
  refine keeps_rowOrFail (inOrder_of_rank (by simp [Lock.rank, hkey])) fun _ => ?_
  refine keeps_queryOrFail fun _ => ?_
  split
  · trivial
  refine each_bind (keeps_exec_ (by simp) ?_)
  refine each_bind (keeps_replaceChannelUsername (by simp) fun held hchannel => ?_)
  refine each_bind (keeps_exec_ (by simpa using hchannel) (each_bind (keeps_query fun count => ?_)))
  split <;> trivial

def Call.Fits (user : Int → Bool) : Call → Prop
  | .joinByInvite _ u => user u
  | .joinByUsername _ _ u => user u
  | .addMembers _ _ _ targets => ∀ u ∈ targets, user u
  | .create _ creator _ _ _ => user creator
  | .editUsername _ channel _ _ => user channel = false
  | _ => True

theorem keeps_answer (f : A → Reply) {p : Body (Finish A)} (h : Keeps user p [] fun _ _ => True) :
    Keeps user (answer f p) [] fun _ _ => True :=
  each_bind (each_mono h (fun _ _ _ _ hd => hd) fun r _ _ => by cases r <;> trivial)

theorem keeps_code (caps : Caps) {t : Call} (h : t.Fits user) :
    Keeps user (code caps t) [] fun _ _ => True := by
  cases t with
  | post times p => exact keeps_answer _ (keeps_postChannelMessageAs _ _)
  | setRole now channel caller target role => exact keeps_answer _ (keeps_setChannelRole _ _ _ _ _)
  | setBan now channel caller target until_ forever =>
    exact keeps_answer _ (keeps_setChannelBan _ _ _ _ _ _)
  | leave now channel u => exact keeps_answer _ (keeps_leaveChannel _ _ _)
  | joinByInvite hash u => exact keeps_answer _ (keeps_joinChannelByInvite _ _ h)
  | joinByUsername now channel u => exact keeps_answer _ (keeps_joinChannelByUsername _ _ _ h)
  | addMembers now channel caller targets =>
    exact keeps_answer _ (keeps_addChannelMembers _ _ _ _ h)
  | create now creator title megagroup draws =>
    exact keeps_answer _ (keeps_createChannel _ _ _ _ _ h)
  | setSlowMode now channel caller seconds =>
    exact keeps_answer _ (keeps_setChannelSlowMode _ _ _ _)
  | editUsername times channel caller username =>
    exact keeps_answer _ (keeps_editChannelUsername _ _ _ h)
  | send times limited p => exact keeps_answer _ (keeps_sendChannelMessage _ _ _)

theorem covers_code (caps : Caps) (t : Call) : locking.covers (code caps t) [] fun _ _ => True := by
  cases t with
  | editUsername times channel caller username =>
    have h : (Call.editUsername times channel caller username).Fits fun _ => false := rfl
    exact (keeps_code caps h).covers
  | _ =>
    refine Keeps.covers (keeps_code caps (show Call.Fits (fun _ => true) _ from ?_))
    simp [Call.Fits]

/-! ## When channel transactions deadlock

Advisory locks are keyed by one flat space of numbers. `AddChannelMembers` takes those of its
targets behind the `channels` row, `EditChannelUsername` that of its channel's number before
it. Where a target has the channel's number, the two orders meet. -/

abbrev ChannelConfig := Config DB Lock Write Empty ChannelErr Reply Call

def Call.accounts : Call → List Int
  | .joinByInvite _ user => [user]
  | .joinByUsername _ _ user => [user]
  | .addMembers _ _ _ targets => targets
  | .create _ creator _ _ _ => [creator]
  | _ => []

def Call.numbered : Call → Option Int
  | .editUsername _ channel _ _ => some channel
  | _ => none

theorem fits_of_accounts {user : Int → Bool} {t : Call} (haccounts : ∀ u ∈ t.accounts, user u)
    (hnumber : ∀ k, t.numbered = some k → user k = false) : t.Fits user := by
  cases t with
  | editUsername times channel caller username => exact hnumber channel rfl
  | addMembers now channel caller targets => exact haccounts
  | joinByInvite hash u | joinByUsername now channel u =>
    exact haccounts u (by simp [Call.accounts])
  | create now creator title megagroup draws => exact haccounts creator (by simp [Call.accounts])
  | _ => trivial

/-- No open call locks an account whose number is that of a channel which an open call edits. -/
def NumbersApart (c : ChannelConfig) : Prop :=
  ∀ i j s s' k, c.open_ i = some s → c.open_ j = some s' → s.call.numbered = some k →
    k ∉ s'.call.accounts

open Classical in
/-- Where the numbers are apart, no circle of transactions wait for each other's named locks. -/
theorem channel_lock_waits_acyclic {caps : Caps} {d₀ : DB} {c : ChannelConfig}
    (hc : Reachable locking.toRows (code caps) d₀ c) (h : NumbersApart c) (i : Nat) :
    ¬ Relation.TransGen (c.WaitsOn locking.toRows fun d l => d.explicit l) i i := by
  -- An account is any number that is not that of a channel being edited.
  let user : Int → Bool := fun k => ¬ ∃ i s, c.open_ i = some s ∧ s.call.numbered = some k
  have hfits : ∀ i s, c.open_ i = some s → s.call.Fits user := by
    intro j s hs
    refine fits_of_accounts (fun u hu => ?_) fun k hk => ?_
    · simp only [user, decide_eq_true_eq]
      rintro ⟨i, s', hs', hk⟩
      exact h i j s' s u hs' hs hk hu
    · simp only [user, decide_eq_false_iff_not, not_not]
      exact ⟨j, s, hs, hk⟩
  refine Config.waitsOn_acyclic (fun t ht => ?_) (Lock.not_below_self user)
    (fun _ _ _ => Lock.below.trans) (fun _ _ hl => hl) hc hfits i
  exact Rows.each_mono (keeps_code caps ht) (fun _ _ _ _ hd => hd.ascends) fun _ _ hQ => hQ

def oneChannel : DB where
  channels := [{ id := 7, creatorID := 1 }]
  states := [{ channelID := 7 }]
  participants := [{ channelID := 7, userID := 1, role := 2 }]

/-- The edit has the advisory lock of 7 and comes to the channel; the admission of user 7 has the
channel and comes to the advisory lock. -/
def editBesideAdmission : List (Move Call) :=
  [Move.begin 0 (Call.addMembers 0 7 1 [7]), .begin 1 (Call.editUsername ⟨0, 0, 0⟩ 7 1 "")] ++
    List.replicate 4 (Move.run 0) ++ [Move.run 1]

theorem edit_admission_circle : ∃ c : ChannelConfig,
    Reachable locking.toRows (code {}) oneChannel c ∧
      Relation.TransGen (c.WaitsOn locking.toRows fun d l => d.explicit l) 0 0 := by
  obtain ⟨b, hb, hwait⟩ := Board.exists_board (R := locking.toRows) (fun _ _ _ => rfl)
    (P := fun b => b.waits locking.toRows DB.explicit 0 1 && b.waits locking.toRows DB.explicit 1 0)
    (show ((Board.start oneChannel 2).play locking.toRows (code {}) (fun _ _ _ _ => true)
      editBesideAdmission).any _ by decide +kernel)
  obtain ⟨h01, h10⟩ := Bool.and_eq_true_iff.mp hwait
  exact ⟨b.config, hb.reachable,
    .tail (.single (Board.waitsOn_of_waits h01)) (Board.waitsOn_of_waits h10)⟩

/-- The edit waits for the admission of a user with another number. -/
def editBehindAdmission : List (Move Call) :=
  [Move.begin 0 (Call.addMembers 0 7 1 [2]), .begin 1 (Call.editUsername ⟨0, 0, 0⟩ 7 1 "")] ++
    List.replicate 5 (Move.run 0) ++ [Move.run 1]

theorem channel_lock_waits_acyclic_edit : ∃ c : ChannelConfig,
    Reachable locking.toRows (code {}) oneChannel c ∧ NumbersApart c ∧
      c.WaitsOn locking.toRows (fun d l => d.explicit l) 1 0 ∧
      ¬ Relation.TransGen (c.WaitsOn locking.toRows fun d l => d.explicit l) 1 1 := by
  obtain ⟨b, hb, hwait⟩ := Board.exists_board (R := locking.toRows) (fun _ _ _ => rfl)
    (P := fun b => b.waits locking.toRows DB.explicit 1 0 &&
      (b.sessions.filterMap id).map (·.call) ==
        [.addMembers 0 7 1 [2], .editUsername ⟨0, 0, 0⟩ 7 1 ""])
    (show ((Board.start oneChannel 2).play locking.toRows (code {}) (fun _ _ _ _ => true)
      editBehindAdmission).any _ by decide +kernel)
  obtain ⟨h10, hcalls⟩ := Bool.and_eq_true_iff.mp hwait
  have hcall : ∀ i s, b.config.open_ i = some s →
      s.call = .addMembers 0 7 1 [2] ∨ s.call = .editUsername ⟨0, 0, 0⟩ 7 1 "" := by
    intro i s hs
    have hmem : s.call ∈ (b.sessions.filterMap id).map (·.call) :=
      List.mem_map_of_mem (List.mem_filterMap.mpr
        ⟨some s, List.mem_of_getElem? (Option.join_eq_some_iff.mp hs), rfl⟩)
    rw [eq_of_beq hcalls] at hmem
    simpa using hmem
  have hapart : NumbersApart b.config := by
    intro i j s s' k hs hs' hk
    rcases hcall i s hs with h | h <;> rcases hcall j s' hs' with h' | h' <;>
      simp_all [Call.numbered, Call.accounts]
    omega
  exact ⟨b.config, hb.reachable, hapart, Board.waitsOn_of_waits h10,
    channel_lock_waits_acyclic hb.reachable hapart 1⟩

end TelegramServer.Channels
