import TelegramServer.Channels.Transactions
import TelegramServer.Tx.Watch

/-!
# What the channel transactions do

One relation says, for every call, how the database a transaction commits on differs from the
one it leaves, what was true there, and what the transaction had observed. The invariants of
channels are read off it.
-/

namespace TelegramServer.Channels

open Tx Tx.Locking

variable {vs : List DB} {w : DB} {B : Type} {Q : After DB Lock Unit} {channel pts : Int}
  {lead : Nat} {p : Post} {r : Reply} {row : DB → Option A} {t : Call} {A : Type} {caps : Caps}
  {d : DB} {ids : List Int} {l : Lock} {o : Write}

/-! ## Effects -/

/-- The row of `channel_state`, or the one that the first post puts there. -/
def DB.stateOf (d : DB) (channel : Int) : ChannelState :=
  (d.channelState channel).getD { channelID := channel }

def newMember (channel user pts : Int) : ChannelParticipant :=
  { channelID := channel, userID := user, joinPts := pts }

structure Admits (caps : Caps) (channel user : Int) (d : DB) : Prop where
  absent : d.isChannelMember channel user = false
  seats : d.countChannelParticipants channel < caps.maxChannelParticipants
  joined : d.countChannelsForUser user < caps.maxChannelsPerUser

inductive Admissions (caps : Caps) (channel pts : Int) (d : DB) : List Int → DB → Prop where
  | nil : Admissions caps channel pts d [] d
  | snoc {ids : List Int} {d' : DB} (h : Admissions caps channel pts d ids d') {user : Int}
      (hadmits : Admits caps channel user d') :
      Admissions caps channel pts d (ids ++ [user])
        ((Write.insertChannelParticipantIfAbsent (newMember channel user pts)).apply d')

/-- Why an admission passed the user over: in a view of the transaction they were a member, the
channel was full, or they were in too many channels. -/
def Skipped (caps : Caps) (channel user : Int) (vs : List DB) : Prop :=
  ∃ v ∈ vs, v.isChannelMember channel user = true ∨
    caps.maxChannelParticipants ≤ v.countChannelParticipants channel ∨
    caps.maxChannelsPerUser ≤ v.countChannelsForUser user

def DB.callerIs (d : DB) (channel caller now : Int) (P : Int → Prop) : Prop :=
  ∃ q, d.channelParticipantByUser channel caller = some q ∧ q.banned now = false ∧ P q.role

def postMessage (times : PostTimes) (p : Post) (localID : Int) : ChannelMessage where
  channelID := p.channelID
  localID := localID
  fromID := p.fromID
  date := times.now
  message := p.text
  randomID := p.randomID
  fileID := p.fileID
  replyToMsgID := if 0 < p.replyToMsgID then some (Store.int32 p.replyToMsgID) else none

def postEvent (p : Post) (s : ChannelState) : ChannelEvent :=
  { channelID := p.channelID, pts := s.pts + 1, type := .newMessage, localID := s.nextLocalID }

def postWrites (times : PostTimes) (p : Post) (s : ChannelState) : List Write :=
  [.ensureChannelState p.channelID, .bumpChannelState p.channelID,
    .insertChannelMessage (postMessage times p s.nextLocalID), .insertChannelEvent (postEvent p s),
    .updateChannelPostMarker p.channelID p.fromID times.marked]

/-- Among the views of a post, the one in which it reads the channel. The next one is that of the
slow-mode check. -/
def Post.channelIndex (p : Post) : Nat := if p.randomID ≠ 0 then 7 else 6

/-- The interval that a post of a plain member to a megagroup has read, where its transaction begins
at the view `lead`. -/
def Post.interval (p : Post) (lead : Nat) (vs : List DB) : Option Int := do
  let row ← vs[lead + 4]?.bind (·.channelParticipantByUser p.channelID p.fromID)
  let c ← vs[lead + p.channelIndex]?.bind (·.channelByID p.channelID)
  let state ← vs[lead + p.channelIndex + 1]?.bind (·.slowModePostState p.channelID p.fromID)
  if row.role = channelRoleMember ∧ c.megagroup then some state.1 else none

theorem Post.interval_eq_some {s : Int} :
    p.interval lead vs = some s ↔ ∃ v row v' c v'' last, vs[lead + 4]? = some v ∧
      v.channelParticipantByUser p.channelID p.fromID = some row ∧ row.role = channelRoleMember ∧
      vs[lead + p.channelIndex]? = some v' ∧ v'.channelByID p.channelID = some c ∧
      c.megagroup = true ∧ vs[lead + p.channelIndex + 1]? = some v'' ∧
      v''.slowModePostState p.channelID p.fromID = some (s, last) := by
  simp only [Post.interval, Option.bind_eq_bind, Option.bind_eq_some_iff,
    Option.ite_none_right_eq_some, Option.some.injEq]
  constructor
  · rintro ⟨row, ⟨v, hv, hrow⟩, c, ⟨v', hv', hc⟩, ⟨s', last⟩, ⟨v'', hv'', hs⟩, ⟨hrole, hmega⟩, rfl⟩
    exact ⟨v, row, v', c, v'', last, hv, hrow, hrole, hv', hc, hmega, hv'', hs⟩
  · rintro ⟨v, row, v', c, v'', last, hv, hrow, hrole, hv', hc, hmega, hv'', hs⟩
    exact ⟨row, ⟨v, hv, hrow⟩, c, ⟨v', hv', hc⟩, (s, last), ⟨v'', hv'', hs⟩, ⟨hrole, hmega⟩, rfl⟩

structure Stored (times : PostTimes) (p : Post) (lead : Nat) (d : DB) (q : Posted) (vs : List DB)
    (w : DB) : Prop where
  fresh : p.randomID ≠ 0 → d.channelMessageByRandomID p.channelID p.randomID = none
  member : d.isChannelMember p.channelID p.fromID = true
  eq : w = locking.replay (postWrites times p (d.stateOf p.channelID)) d
  message : w.channelMessageByLocal p.channelID (d.stateOf p.channelID).nextLocalID = some q.message
  pts : q.pts = (d.stateOf p.channelID).pts + 1
  dup : q.dup = false
  slow : ∀ s, 0 < s → p.interval lead vs = some s →
    ∀ m, d.postMarker p.channelID p.fromID = some m → m + s * second ≤ times.slow

structure Found (p : Post) (d : DB) (q : Posted) : Prop where
  dup : q.dup = true
  id : p.randomID ≠ 0
  stored : q.message ∈ d.messages
  channel : q.message.channelID = p.channelID
  random : q.message.randomID = p.randomID
  event : ∃ e ∈ d.events, e.channelID = p.channelID ∧ e.localID = q.message.localID ∧
    e.type = .newMessage ∧ e.pts = q.pts

def createWrites (now creator : Int) (title : String) (megagroup : Bool) (id : Int) : List Write :=
  [.insertChannel { id, title, creatorID := creator, date := now, megagroup },
    .ensureChannelState id,
    .insertChannelParticipantIfAbsent
      { channelID := id, userID := creator, role := channelRoleCreator },
    .bumpChannelState id,
    .insertChannelMessage {
      channelID := id, localID := 1, fromID := creator, date := now, message := title
      action := .create },
    .insertChannelEvent { channelID := id, pts := 1, type := .newMessage, localID := 1 }]

def editedUsername (username : String) : Option String :=
  if username = "" then none else some username.toLower

def DB.SameButHandles (d d' : DB) : Prop :=
  ∃ names changes, d' = { d with usernames := names, usernameChanges := changes }

/-- What a call that ended with this reply did to the database that it committed on, with `vs` as
what it had observed. -/
def Effect (caps : Caps) : Call → DB → Reply → List DB → DB → Prop
  | .post times p, d, r, vs, w =>
    ∃ q, r = .posted q ∧ (Stored times p 0 d q vs w ∨ Found p d q ∧ w = d)
  | .setRole now channel caller target role, d, _, _, w =>
    d.callerIs channel caller now (· = channelRoleCreator) ∧
      (role = channelRoleMember ∨ role = channelRoleAdmin) ∧
      (∃ p, d.channelParticipantByUser channel target = some p ∧
        p.role ≠ channelRoleCreator ∧ p.role ≠ role) ∧
      w = (Write.updateChannelParticipantRole channel target role).apply d
  | .setBan now channel caller target until_ forever, d, _, _, w =>
    (∃ p, d.channelParticipantByUser channel target = some p ∧
      d.callerIs channel caller now (mayBan · p.role = true)) ∧
      w = (Write.updateChannelParticipantBan channel target (banValue until_ forever)).apply d
  | .leave now channel user, d, _, _, w =>
    w = d ∨ (∃ p, d.channelParticipantByUser channel user = some p ∧ p.banned now = false) ∧
      w = (Write.deleteChannelParticipant channel user).apply d
  | .joinByInvite hash user, d, _, _, w =>
    w = d ∨ ∃ i pts, d.channelInviteByHash hash = some i ∧
      (d.channelByID i.channelID).isSome = true ∧ Admissions caps i.channelID pts d [user] w
  | .joinByUsername _ channel user, d, _, _, w =>
    w = d ∨ ∃ pts, (d.channelByID channel).isSome = true ∧ Admissions caps channel pts d [user] w
  | .addMembers now channel caller targets, d, r, vs, w =>
    d.callerIs channel caller now (channelRoleAdmin ≤ ·) ∧ (d.channelByID channel).isSome = true ∧
      ∃ ids pts, r = .added ids ∧ Admissions caps channel pts d ids w ∧
        ∀ u ∈ targets, u ∈ ids ∨ Skipped caps channel u vs
  | .create now creator title megagroup _, d, _, _, w =>
    ∃ id, d.channelByID id = none ∧ d.channelState id = none ∧
      d.isChannelMember id creator = false ∧
      d.countChannelsForUser creator < caps.maxChannelsPerUser ∧
      w = locking.replay (createWrites now creator title megagroup id) d
  | .setSlowMode now channel caller seconds, d, _, _, w =>
    d.callerIs channel caller now (channelRoleAdmin ≤ ·) ∧
      (w = d ∨ w = (Write.setChannelSlowMode channel seconds).apply d)
  | .editUsername times channel caller username, d, _, _, w =>
    d.callerIs channel caller times.checked (channelRoleAdmin ≤ ·) ∧
      ((Write.setChannelUsername channel (editedUsername username)).apply d).SameButHandles w
  | .send times _ p, d, r, vs, w =>
    ∃ q, r = .posted q ∧
      (Stored times p (if p.randomID ≠ 0 then 1 else 0) d q vs w ∨ Found p d q ∧ w = d)

/-- What a post had observed that was refused for slow mode. -/
def Post.Refused (times : PostTimes) (p : Post) : ChannelErr → List DB → Prop
  | .slowModeWait n, vs =>
    ∃ v s last, vs.getLast? = some v ∧
      v.slowModePostState p.channelID p.fromID = some (s, some last) ∧ 0 < s ∧
      slowModeWait s times.slow last = some n
  | .channelFull, _ | .tooManyChannels, _ => False
  | _, _ => True

def Refusal (caps : Caps) : Call → ChannelErr → List DB → Prop
  | .post times p, e, vs | .send times _ p, e, vs => p.Refused times e vs
  | .joinByInvite hash _, .channelFull, vs =>
    ∃ v ∈ vs, ∃ i, v.channelInviteByHash hash = some i ∧
      ∃ v' ∈ vs, caps.maxChannelParticipants ≤ v'.countChannelParticipants i.channelID
  | .joinByUsername _ channel _, .channelFull, vs =>
    ∃ v ∈ vs, caps.maxChannelParticipants ≤ v.countChannelParticipants channel
  | .joinByInvite _ user, .tooManyChannels, vs | .joinByUsername _ _ user, .tooManyChannels, vs
  | .create _ user _ _ _, .tooManyChannels, vs =>
    ∃ v ∈ vs, caps.maxChannelsPerUser ≤ v.countChannelsForUser user
  | _, .channelFull, _ | _, .tooManyChannels, _ | _, .slowModeWait _, _ => False
  | _, _, _ => True

/-! ## The stream of a channel -/

/-- The post of a call, with its clocks and the view at which its transaction begins. -/
def Call.posting : Call → Option (PostTimes × Post × Nat)
  | .post times p => some (times, p, 0)
  | .send times _ p => some (times, p, if p.randomID ≠ 0 then 1 else 0)
  | _ => none

structure DB.SameStream (d w : DB) : Prop where
  states : w.states = d.states
  messages : w.messages = d.messages
  events : w.events = d.events
  markers : w.markers = d.markers

theorem DB.SameStream.refl (d : DB) : d.SameStream d := ⟨rfl, rfl, rfl, rfl⟩

theorem Admissions.participants (h : Admissions caps channel pts d ids w) :
    ∃ members, w = { d with participants := members } := by
  induction h with
  | nil => exact ⟨_, rfl⟩
  | snoc _ _ ih =>
    obtain ⟨members, rfl⟩ := ih
    exact ⟨_, rfl⟩

theorem Admissions.sameStream (h : Admissions caps channel pts d ids w) : d.SameStream w := by
  obtain ⟨members, rfl⟩ := h.participants
  exact ⟨rfl, rfl, rfl, rfl⟩

theorem Effect.posted {times : PostTimes} (h : Effect caps t d r vs w)
    (ht : t.posting = some (times, p, lead)) :
    ∃ q, r = .posted q ∧ (Stored times p lead d q vs w ∨ Found p d q ∧ w = d) := by
  cases t with
  | post | send =>
    simp only [Call.posting, Option.some.injEq, Prod.mk.injEq] at ht
    obtain ⟨rfl, rfl, rfl⟩ := ht
    exact h
  | _ => cases ht

theorem Effect.stream (h : Effect caps t d r vs w) :
    (∃ times p lead q, t.posting = some (times, p, lead) ∧ r = .posted q ∧
      Stored times p lead d q vs w) ∨
    (∃ now creator title megagroup id, d.channelState id = none ∧
      w = locking.replay (createWrites now creator title megagroup id) d) ∨ d.SameStream w := by
  cases t with
  | post times p | send times limited p =>
    obtain ⟨q, hr, hstored | ⟨-, rfl⟩⟩ := h
    · exact .inl ⟨times, p, _, q, rfl, hr, hstored⟩
    · exact .inr (.inr (.refl _))
  | setRole =>
    obtain ⟨-, -, -, rfl⟩ := h
    exact .inr (.inr ⟨rfl, rfl, rfl, rfl⟩)
  | setBan =>
    obtain ⟨-, rfl⟩ := h
    exact .inr (.inr ⟨rfl, rfl, rfl, rfl⟩)
  | leave =>
    obtain rfl | ⟨-, rfl⟩ := h
    · exact .inr (.inr (.refl _))
    · exact .inr (.inr ⟨rfl, rfl, rfl, rfl⟩)
  | joinByInvite =>
    obtain rfl | ⟨i, pts, -, -, hadd⟩ := h
    · exact .inr (.inr (.refl _))
    · exact .inr (.inr hadd.sameStream)
  | joinByUsername =>
    obtain rfl | ⟨pts, -, hadd⟩ := h
    · exact .inr (.inr (.refl _))
    · exact .inr (.inr hadd.sameStream)
  | addMembers =>
    obtain ⟨-, -, ids, pts, -, hadd, -⟩ := h
    exact .inr (.inr hadd.sameStream)
  | create now creator title megagroup draws =>
    obtain ⟨id, -, hnew, -, -, rfl⟩ := h
    exact .inr (.inl ⟨now, creator, title, megagroup, id, hnew, rfl⟩)
  | setSlowMode =>
    obtain ⟨-, rfl | rfl⟩ := h
    · exact .inr (.inr (.refl _))
    · exact .inr (.inr ⟨rfl, rfl, rfl, rfl⟩)
  | editUsername =>
    obtain ⟨-, names, changes, rfl⟩ := h
    exact .inr (.inr ⟨rfl, rfl, rfl, rfl⟩)

section Statements

variable {H : Set Lock} {F : ChannelErr → List DB → Prop} {q : DB → Option A}

theorem ascends_singleton (l : Lock) : locking.Ascends H [l] :=
  ⟨by simp, fun _ _ => .inr fun _ _ => trivial, fun _ _ h => h⟩

theorem mem_singleton_eq (l : Lock) : {l' | l' ∈ [l]} = ({l} : Set Lock) := by
  ext
  simp

theorem mem_nil_eq : {l : Lock | l ∈ ([] : List Lock)} = ∅ := by simp

theorem wpw_rowForUpdate {Q : After DB Lock (Option A)}
    (hnone : ∀ v, locking.Viewed H v w → q v = none → Q none (vs ++ [v]) H w)
    (hsome : ∀ v a, locking.Viewed (H ∪ {l}) v w → q v = some a →
      Q (some a) (vs ++ [v]) (H ∪ {l}) w) :
    locking.wpw (rowForUpdate l q) vs H w Q F := by
  refine wpw_stmt fun v hv => ?_
  cases hq : q v with
  | none =>
    simp only [hq, Option.isSome_none, Bool.false_eq_true, if_false, mem_nil_eq,
      Set.union_empty] at hv ⊢
    exact ⟨locking.ascends_nil _, covered_nil _, hnone v hv hq⟩
  | some a =>
    simp only [hq, Option.isSome_some, if_true, mem_singleton_eq] at hv ⊢
    exact ⟨ascends_singleton l, covered_nil _, hsome v a hv hq⟩

theorem wpw_rowOrFail {e : ChannelErr} {rest : A → Body B} {Q : After DB Lock B}
    (h : ∀ v a, locking.Viewed (H ∪ {l}) v w → q v = some a →
      locking.wpw (rest a) (vs ++ [v]) (H ∪ {l}) w Q F)
    (hF : ∀ vs, F e vs := by first | assumption | exact fun _ => trivial) :
    locking.wpw (rowForUpdate l q >>= fun x => .orFail e x >>= rest) vs H w Q F := by
  refine wpw_bind (wpw_rowForUpdate (fun v _ _ => ?_) fun v a hv ha => ?_)
  · exact wpw_fail (hF _)
  · exact h v a hv ha

section

variable (ho : ∀ g ∈ o.guards, g = l ∨ g ∈ H)

include ho

theorem covered_of_guards : locking.Covered [o] (H ∪ {l}) := by
  intro x hx g hg
  rw [List.mem_singleton.mp hx] at hg
  obtain rfl | hg := ho g hg
  · exact .inr rfl
  · exact .inl hg

theorem wpw_updateRow {q : DB → B} {Q : After DB Lock B}
    (hnone : ∀ v, locking.Viewed H v w → row v = none → Q (q v) (vs ++ [v]) H w)
    (hsome : ∀ v a, locking.Viewed (H ∪ {l}) v w → row v = some a →
      Q (q v) (vs ++ [v]) (H ∪ {l}) (o.apply w)) :
    locking.wpw (updateRow l row o q) vs H w Q F := by
  refine wpw_stmt fun v hv => ?_
  cases hrow : row v with
  | none =>
    simp only [hrow, Option.isSome_none, Bool.false_eq_true, if_false, mem_nil_eq,
      Set.union_empty] at hv ⊢
    exact ⟨locking.ascends_nil _, covered_nil _, hnone v hv hrow⟩
  | some a =>
    simp only [hrow, Option.isSome_some, if_true, mem_singleton_eq] at hv ⊢
    exact ⟨ascends_singleton l, covered_of_guards ho, hsome v a hv hrow⟩

theorem wpw_insert {q : DB → B} {Q : After DB Lock B}
    (hsome : ∀ v a, locking.Viewed H v w → row v = some a → Q (q v) (vs ++ [v]) H w)
    (hnone : ∀ v, locking.Viewed (H ∪ {l}) v w → row v = none →
      Q (q v) (vs ++ [v]) (H ∪ {l}) (o.apply w)) :
    locking.wpw (.stmt (fun d => if (row d).isSome then [] else [l])
      (fun d => if (row d).isSome then [] else [o]) fun d => .ret (q d)) vs H w Q F := by
  refine wpw_stmt fun v hv => ?_
  cases hrow : row v with
  | none =>
    simp only [hrow, Option.isSome_none, Bool.false_eq_true, if_false, mem_singleton_eq] at hv ⊢
    exact ⟨ascends_singleton l, covered_of_guards ho, hnone v hv hrow⟩
  | some a =>
    simp only [hrow, Option.isSome_some, if_true, mem_nil_eq, Set.union_empty] at hv ⊢
    exact ⟨locking.ascends_nil _, covered_nil _, hsome v a hv hrow⟩

theorem wpw_insertRow (hF : ∀ vs, F .uniqueViolation vs)
    (h : ∀ v, locking.Viewed (H ∪ {l}) v w → row v = none → Q () (vs ++ [v]) (H ∪ {l}) (o.apply w)) :
    locking.wpw (insertRow l row o) vs H w Q F := by
  refine wpw_bind (wpw_insert ho (fun v a _ hrow => ?_) fun v hv hrow => ?_)
  · simpa [hrow] using wpw_fail (hF _)
  · simpa [hrow] using wpw_pure (h v hv hrow)

end

theorem wpw_lockOwners (h : ∀ vs' H', H ⊆ H' → (∀ u ∈ ids, .account u ∈ H') → Q () vs' H' w) :
    locking.wpw (lockOwners ids) vs H w Q F := by
  have hls : ((Store.ascendingUnique ids).map Lock.account).Pairwise locking.below :=
    List.pairwise_iff_forall_sublist.mpr fun _ => trivial
  refine wpw_lockAll hls (fun _ _ => not_false) (fun _ _ => .inr fun _ _ => trivial) fun vs' => ?_
  refine h vs' _ Set.subset_union_left fun u hu => .inr ?_
  exact List.mem_map_of_mem (Store.mem_ascendingUnique.mpr hu)

end Statements

section Views

variable {H : Set Lock} {v : DB} {c u : Int} (hv : locking.Viewed H v w)

include hv

theorem channelByID_viewed (hl : .channel c ∈ H) : v.channelByID c = w.channelByID c :=
  (hv.stable _ hl).1

variable {p : ChannelParticipant}

theorem row_viewed (hl : .channel c ∈ H) (hp : v.channelParticipantByUser c u = some p) :
    ∃ p', w.channelParticipantByUser c u = some p' ∧ p'.role = p.role ∧
      p'.bannedUntil = p.bannedUntil :=
  (hv.stable _ hl).2.1 u p hp

theorem callerIs_viewed (hl : .channel c ∈ H)
    {now : Int} {P : Int → Prop} (hp : v.channelParticipantByUser c u = some p)
    (hban : ¬ p.banned now = true) (hrole : P p.role) : w.callerIs c u now P := by
  obtain ⟨p', hp', hr, hb⟩ := row_viewed hv hl hp
  exact ⟨p', hp', by simpa [ChannelParticipant.banned, hb] using hban, hr ▸ hrole⟩

theorem participant_viewed (hl : .participant c u ∈ H) :
    v.channelParticipantByUser c u = w.channelParticipantByUser c u :=
  hv.stable _ hl

theorem ofState_viewed (hl : .state c ∈ H) : v.ofState c = w.ofState c :=
  (hv.stable _ hl).1

theorem count_le_viewed (hl : .state c ∈ H) :
    w.countChannelParticipants c ≤ v.countChannelParticipants c := by
  rw [countChannelParticipants_eq, countChannelParticipants_eq]
  exact (hv.stable _ hl).2.length_le

theorem le_count_viewed (hl : .channel c ∈ H) :
    v.countChannelParticipants c ≤ w.countChannelParticipants c := by
  rw [countChannelParticipants_eq, countChannelParticipants_eq]
  exact (hv.stable _ hl).2.2.length_le

theorem joined_le_viewed (hl : .account u ∈ H) :
    w.countChannelsForUser u ≤ v.countChannelsForUser u := by
  rw [countChannelsForUser_eq, countChannelsForUser_eq]
  exact (hv.stable _ hl).length_le

theorem channel_isSome_viewed {x : Channel}
    (hx : v.channelByID c = some x) : (w.channelByID c).isSome = true := by
  have hm : w.channelMegagroup c = some x.megagroup :=
    hv.grows.megagroup c _ (by rw [DB.channelMegagroup, hx]; rfl)
  obtain ⟨y, hy, -⟩ := Option.map_eq_some_iff.mp hm
  simp [hy]

theorem ofState_congr {q : DB → A}
    (hq : ∀ d : DB, q (d.ofState c) = q d) (hl : .state c ∈ H) : q v = q w := by
  rw [← hq v, ofState_viewed hv hl, hq w]

theorem channelState_viewed (hl : .state c ∈ H) : v.channelState c = w.channelState c :=
  ofState_congr hv (q := (·.channelState c)) (fun _ => Table.find?_filter_of fun _ hx => hx) hl

theorem postMarker_viewed (hl : .state c ∈ H) : v.postMarker c u = w.postMarker c u :=
  ofState_congr hv (q := (·.postMarker c u)) (fun _ => congrArg (Option.map _)
    (Table.find?_filter_of fun x hx => by simp_all [ChannelPostMarker.isFor])) hl

theorem channelMessageByRandomID_viewed (hl : .state c ∈ H) (r : Int) :
    v.channelMessageByRandomID c r = w.channelMessageByRandomID c r :=
  ofState_congr hv (q := (·.channelMessageByRandomID c r))
    (fun _ => Table.find?_filter_of fun x hx => by simp_all) hl

theorem channelMessageByLocal_viewed (hl : .state c ∈ H) (i : Int) :
    v.channelMessageByLocal c i = w.channelMessageByLocal c i :=
  ofState_congr hv (q := (·.channelMessageByLocal c i))
    (fun _ => Table.find?_filter_of fun x hx => by simp_all) hl

end Views

end TelegramServer.Channels
