import TelegramServer.Channels.Schema

/-!
# Which lock guards which rows of a channel

Posts and admissions serialise on the `channel_state` row, rights mutations on the
`channels` row; the row lock of a participant is taken only by the statement that changes the
participant. So a reader of `channel_state` knows that nobody joins, a reader of `channels`
that no role and no ban changes, and neither knows both.
-/

namespace TelegramServer.Channels

open Tx Tx.Table List
open ChannelParticipant (isFor)
open Write (apply)

variable {c u : Int} {f : ChannelParticipant → ChannelParticipant} {d' d₁ d₂ d₃ : DB} {d : DB}
  {h : String} {o : Write} {p : ChannelParticipant} {q : ChannelParticipant → Bool}
  {k j : ChannelParticipant → Int} {x : Int} {joined joined' : Int → Bool} {ids ids' : List Int}
  {side : Int → Int → Int × Int}

inductive Lock where
  /-- The `channels` row, `FOR NO KEY UPDATE`. -/
  | channel (id : Int)
  | state (channel : Int)
  | participant (channel user : Int)
  | invite (hash : String)
  /-- The advisory lock of a number: an account's, and a channel's in `EditChannelUsername`. -/
  | account (key : Int)
  /-- The `usernames` row of a handle. -/
  | username (handle : String)
  deriving DecidableEq

def Write.participant : Write → Option (Int × Int)
  | .updateChannelPostMarker channel user _ => some (channel, user)
  | .insertChannelParticipantIfAbsent p => some (p.channelID, p.userID)
  | .updateChannelParticipantRole channel user _ => some (channel, user)
  | .updateChannelParticipantBan channel user _ => some (channel, user)
  | .deleteChannelParticipant channel user => some (channel, user)
  | _ => none

def Write.state : Write → Option Int
  | .ensureChannelState channel => some channel
  | .bumpChannelState channel => some channel
  | .insertChannelMessage m => some m.channelID
  | .insertChannelEvent e => some e.channelID
  | .updateChannelPostMarker channel _ _ => some channel
  | .insertChannelParticipantIfAbsent p => some p.channelID
  | _ => none

def Write.channel : Write → Option Int
  | .updateChannelParticipantRole channel _ _ => some channel
  | .updateChannelParticipantBan channel _ _ => some channel
  | .deleteChannelParticipant channel _ => some channel
  | .insertChannel c => some c.id
  | .setChannelUsername channel _ => some channel
  | .setChannelSlowMode channel _ => some channel
  | .insertChannelUsernameChange channel _ => some channel
  | .deleteExpiredChannelUsernameChanges channel _ => some channel
  | _ => none

def Write.account : Write → Option Int
  | .insertChannelParticipantIfAbsent p => some p.userID
  | _ => none

def Write.handle : Write → Option String
  | .claimUsername u => some u.handle
  | .releaseUsername handle => some handle
  | _ => none

def Write.guards (o : Write) : List Lock :=
  (o.participant.map fun k => Lock.participant k.1 k.2).toList ++ (o.state.map Lock.state).toList ++
    (o.channel.map Lock.channel).toList ++ (o.account.map Lock.account).toList ++
    (o.handle.map Lock.username).toList

@[simp] theorem Write.participant_mem_guards :
    Lock.participant c u ∈ o.guards ↔ o.participant = some (c, u) := by
  simp [Write.guards]

@[simp] theorem Write.state_mem_guards : Lock.state c ∈ o.guards ↔ o.state = some c := by
  simp [Write.guards]

@[simp] theorem Write.channel_mem_guards : Lock.channel c ∈ o.guards ↔ o.channel = some c := by
  simp [Write.guards]

@[simp] theorem Write.account_mem_guards : Lock.account u ∈ o.guards ↔ o.account = some u := by
  simp [Write.guards]

@[simp] theorem Write.username_mem_guards : Lock.username h ∈ o.guards ↔ o.handle = some h := by
  simp [Write.guards]

attribute [simp] Write.guards Write.participant Write.state Write.channel Write.account Write.handle

def DB.ofState (d : DB) (channel : Int) : DB where
  states := d.states.filter (·.channelID = channel)
  messages := d.messages.filter (·.channelID = channel)
  events := d.events.filter (·.channelID = channel)
  markers := d.markers.filter (·.channelID = channel)

def DB.memberIDs (d : DB) (channel : Int) : List Int :=
  (d.participants.filter (·.channelID = channel)).map (·.userID)

def DB.channelIDs (d : DB) (user : Int) : List Int :=
  (d.participants.filter (·.userID = user)).map (·.channelID)

def DB.KeepsRights (d d' : DB) (channel : Int) : Prop :=
  ∀ u p, d.channelParticipantByUser channel u = some p →
    ∃ p', d'.channelParticipantByUser channel u = some p' ∧ p'.role = p.role ∧
      p'.bannedUntil = p.bannedUntil

def Stable : Lock → DB → DB → Prop
  | .channel c, d, d' => d.channelByID c = d'.channelByID c ∧ d.KeepsRights d' c ∧
      (d.memberIDs c).Sublist (d'.memberIDs c)
  | .state c, d, d' => d.ofState c = d'.ofState c ∧ (d'.memberIDs c).Sublist (d.memberIDs c)
  | .participant c u, d, d' => d.channelParticipantByUser c u = d'.channelParticipantByUser c u
  | .invite hash, d, d' => d.channelInviteByHash hash = d'.channelInviteByHash hash
  | .account u, d, d' => (d'.channelIDs u).Sublist (d.channelIDs u)
  | .username h, d, d' => d.usernameByHandle h = d'.usernameByHandle h

structure Grows (d d' : DB) : Prop where
  megagroup : ∀ c m, d.channelMegagroup c = some m → d'.channelMegagroup c = some m
  messages : d.messages.Sublist d'.messages
  events : d.events.Sublist d'.events

/-! ## What a write does to a row -/

def Write.onParticipant : Write → Option ChannelParticipant → Option ChannelParticipant
  | .updateChannelPostMarker _ _ at_, r => r.map fun p => { p with lastPostAt := some at_ }
  | .insertChannelParticipantIfAbsent p, r => some (r.getD p)
  | .updateChannelParticipantRole _ _ role, r => r.map fun p => { p with role }
  | .updateChannelParticipantBan _ _ bannedUntil, r => r.map fun p => { p with bannedUntil }
  | .deleteChannelParticipant _ _, _ => none
  | _, r => r

theorem isFor_iff : isFor c u p ↔ p.channelID = c ∧ p.userID = u := by
  simp [isFor]

theorem isFor_iff_key (c u : Int) (p : ChannelParticipant) :
    isFor c u p ↔ (p.channelID, p.userID) = (c, u) := by
  simp [isFor]

theorem participant_apply (o : Write) (d : DB) (c u : Int) :
    (o.apply d).channelParticipantByUser c u =
      if o.participant = some (c, u) then o.onParticipant (d.channelParticipantByUser c u)
      else d.channelParticipantByUser c u := by
  cases o with
  | updateChannelPostMarker | updateChannelParticipantRole | updateChannelParticipantBan =>
    simp only [apply, Write.participant, DB.channelParticipantByUser, Option.some.injEq]
    exact find?_updateWhere_key (isFor_iff_key _ _) (isFor_iff_key c u) fun _ => rfl
  | insertChannelParticipantIfAbsent p =>
    simp only [apply, Write.participant, DB.channelParticipantByUser, Option.some.injEq]
    exact find?_insertAbsent_key (isFor_iff_key _ _) (isFor_iff_key c u) rfl
  | deleteChannelParticipant channel user =>
    simp only [apply, Write.participant, DB.channelParticipantByUser, Option.some.injEq]
    exact find?_filter_key (isFor_iff_key _ _) (isFor_iff_key c u)
  | _ => simp [apply, DB.channelParticipantByUser]

def Write.onChannel : Write → Option Channel → Option Channel
  | .insertChannel c, r => some (r.getD c)
  | .setChannelUsername _ username, r => r.map fun c => { c with username }
  | .setChannelSlowMode _ seconds, r => r.map fun c => { c with slowmodeSeconds := seconds }
  | _, r => r

theorem channelByID_apply (o : Write) (d : DB) (c : Int) : (o.apply d).channelByID c =
      if o.channel = some c then o.onChannel (d.channelByID c) else d.channelByID c := by
  cases o with
  | setChannelUsername | setChannelSlowMode =>
    simp only [apply, Write.channel, DB.channelByID, Option.some.injEq]
    exact find?_updateWhere_key (fun _ => decide_eq_true_iff)
      (fun _ => decide_eq_true_iff) fun _ => rfl
  | insertChannel x =>
    simp only [apply, Write.channel, DB.channelByID, Option.some.injEq]
    exact find?_insertAbsent_key (fun _ => decide_eq_true_iff) (fun _ => decide_eq_true_iff) rfl
  | _ => simp [apply, Write.onChannel, DB.channelByID]

theorem channelByID_apply_of_ne (h : o.channel ≠ some c) (d : DB) :
    (o.apply d).channelByID c = d.channelByID c := by
  rw [channelByID_apply, if_neg h]

theorem megagroup_apply {m : Bool} (h : d.channelMegagroup c = some m) :
    (o.apply d).channelMegagroup c = some m := by
  obtain ⟨x, hx, rfl⟩ := Option.map_eq_some_iff.mp h
  rw [DB.channelMegagroup, channelByID_apply, hx]
  split
  · cases o <;> rfl
  · rfl

theorem usernameByHandle_apply_of_ne (ho : o.handle ≠ some h) (d : DB) :
    (o.apply d).usernameByHandle h = d.usernameByHandle h := by
  cases o with
  | claimUsername u =>
    have hu : u.handle ≠ h := fun hu => ho (congrArg some hu)
    simp [apply, DB.usernameByHandle, find?_append, hu]
  | releaseUsername handle =>
    refine find?_filter_of fun u hu => ?_
    have hne : handle ≠ h := fun hh => ho (congrArg some hh)
    simpa [of_decide_eq_true hu] using Ne.symm hne
  | _ => rfl

theorem usernameByHandle_apply_congr (heq : d.usernameByHandle h = d'.usernameByHandle h) :
    (o.apply d).usernameByHandle h = (o.apply d').usernameByHandle h := by
  by_cases ho : o.handle = some h
  · cases o with
    | claimUsername u =>
      simp only [DB.usernameByHandle] at heq
      simp only [apply, DB.usernameByHandle, find?_append, heq]
    | releaseUsername handle =>
      obtain rfl : handle = h := Option.some.inj ho
      have hgone : ∀ l : List Username,
          (l.filter fun u => u.handle ≠ handle).find? (·.handle = handle) = none := by simp
      simp only [apply, DB.usernameByHandle, hgone]
    | _ => cases ho
  · rw [usernameByHandle_apply_of_ne ho, usernameByHandle_apply_of_ne ho, heq]

theorem ofState_apply_of_ne (h : o.state ≠ some c) (d : DB) :
    (o.apply d).ofState c = d.ofState c := by
  cases o <;> simp only [Write.state, ne_eq, Option.some.injEq, reduceCtorEq,
    not_false_eq_true] at h
  case ensureChannelState =>
    simp only [apply, DB.ofState]
    congr 1
    exact filter_insertAbsent_of_ne h
  case bumpChannelState =>
    simp only [apply, DB.ofState]
    congr 1
    exact filter_updateWhere_of_ne (by rintro x hx rfl; simp_all) (fun _ => rfl)
  case insertChannelMessage | insertChannelEvent => simp [apply, DB.ofState, h]
  case updateChannelPostMarker =>
    simp only [apply, DB.ofState]
    congr 1
    exact filter_upsertWhere_of_ne h (by rintro x hx rfl; simp_all [ChannelPostMarker.isFor])
      (fun _ => rfl)
  all_goals rfl

theorem ofState_apply (h : o.state = some c) (d : DB) :
    (o.apply d).ofState c = (o.apply (d.ofState c)).ofState c := by
  cases o <;> simp only [Write.state, Option.some.injEq, reduceCtorEq] at h <;> subst h
  case ensureChannelState =>
    simp [apply, DB.ofState, filter_insertAbsent, filter_filter]
  case bumpChannelState => simp [apply, DB.ofState, filter_updateWhere, filter_filter]
  case insertChannelMessage | insertChannelEvent =>
    simp [apply, DB.ofState, filter_filter]
  case updateChannelPostMarker =>
    simp +contextual [apply, DB.ofState, filter_upsertWhere, filter_filter, ChannelPostMarker.isFor]
  case insertChannelParticipantIfAbsent => simp [apply, DB.ofState, filter_filter]

theorem ofState_apply_congr (h : d.ofState c = d'.ofState c) :
    (o.apply d).ofState c = (o.apply d').ofState c := by
  by_cases hc : o.state = some c
  · rw [ofState_apply hc, ofState_apply hc d', h]
  · rw [ofState_apply_of_ne hc, ofState_apply_of_ne hc, h]

theorem invites_apply (o : Write) (d : DB) : (o.apply d).invites = d.invites := by
  cases o <;> rfl

def Write.newMessages : Write → List ChannelMessage
  | .insertChannelMessage m => [m]
  | _ => []

def Write.newEvents : Write → List ChannelEvent
  | .insertChannelEvent e => [e]
  | _ => []

theorem messages_apply (o : Write) (d : DB) :
    (o.apply d).messages = d.messages ++ o.newMessages := by
  cases o <;> simp [apply, Write.newMessages]

theorem events_apply (o : Write) (d : DB) : (o.apply d).events = d.events ++ o.newEvents := by
  cases o <;> simp [apply, Write.newEvents]

/-! ## Members -/

theorem isChannelMember_iff :
    d.isChannelMember c u ↔ ∃ p ∈ d.participants, p.channelID = c ∧ p.userID = u := by
  simp [DB.isChannelMember, DB.channelParticipantByUser, find?_isSome, isFor_iff]

theorem mem_memberIDs : u ∈ d.memberIDs c ↔ d.isChannelMember c u := by
  simp [DB.memberIDs, isChannelMember_iff, and_assoc]

theorem countChannelParticipants_eq (d : DB) (c : Int) :
    d.countChannelParticipants c = (d.memberIDs c).length := by
  simp [DB.countChannelParticipants, DB.memberIDs]

theorem countChannelsForUser_eq (d : DB) (u : Int) :
    d.countChannelsForUser u = (d.channelIDs u).length := by
  simp [DB.countChannelsForUser, DB.channelIDs]

/-- The other keys of the rows that have `x` on one side of the key: members or channels. -/
def DB.keys (d : DB) (side : Int → Int → Int × Int) (x : Int) : List Int :=
  (d.participants.filter fun p => (side p.channelID p.userID).1 = x).map
    fun p => (side p.channelID p.userID).2

/-- What a write makes of these keys, of which `joined` says whether one is there already. -/
def Write.onKeys (o : Write) (side : Int → Int → Int × Int) (x : Int) (joined : Int → Bool)
    (ids : List Int) : List Int :=
  match o with
  | .insertChannelParticipantIfAbsent p =>
    let key := side p.channelID p.userID
    if key.1 = x ∧ joined key.2 = false then ids ++ [key.2] else ids
  | .deleteChannelParticipant channel user =>
    if (side channel user).1 = x then ids.filter (· ≠ (side channel user).2) else ids
  | _ => ids

theorem keys_updateWhere
    (hk : ∀ p, k (f p) = k p) (hj : ∀ p, j (f p) = j p) (l : List ChannelParticipant) :
    ((updateWhere q f l).filter (k · = x)).map j = (l.filter (k · = x)).map j := by
  rw [filter_updateWhere fun p _ => by rw [hk]]
  exact map_updateWhere fun p _ => hj p

theorem keys_insertAbsent (p : ChannelParticipant) (l : List ChannelParticipant) :
    ((insertAbsent q p l).filter (k · = x)).map j =
      if k p = x ∧ l.any q = false then (l.filter (k · = x)).map j ++ [j p]
      else (l.filter (k · = x)).map j := by
  unfold insertAbsent
  cases l.any q with
  | true => simp
  | false => by_cases hk : k p = x <;> simp [hk]

theorem keys_filter_not {a b : Int} (hq : ∀ p, q p ↔ k p = a ∧ j p = b)
    (l : List ChannelParticipant) :
    ((l.filter fun p => !q p).filter (k · = x)).map j =
      if a = x then ((l.filter (k · = x)).map j).filter (· ≠ b)
        else (l.filter (k · = x)).map j := by
  have hq (p) : q p = decide (k p = a ∧ j p = b) := by
    rw [Bool.eq_iff_iff, hq, decide_eq_true_iff]
  simp only [hq, filter_filter, filter_map]
  split
  all_goals
    congr 1
    refine filter_congr fun p _ => ?_
    by_cases hp : k p = x <;> simp_all [Ne.symm]

theorem any_isFor (d : DB) (c u : Int) :
    d.participants.any (isFor c u) = d.isChannelMember c u := by
  rw [Bool.eq_iff_iff, isChannelMember_iff]
  simp [isFor_iff]

theorem keys_apply (side : Int → Int → Int × Int) (hside : ∀ {c u c' u'}, c = c' ∧ u = u' ↔
      (side c u).1 = (side c' u').1 ∧ (side c u).2 = (side c' u').2)
    (hjoined : ∀ {c u}, (side c u).1 = x → joined (side c u).2 = d.isChannelMember c u) :
    (o.apply d).keys side x = o.onKeys side x joined (d.keys side x) := by
  cases o with
  | updateChannelPostMarker | updateChannelParticipantRole | updateChannelParticipantBan =>
    simp only [apply, DB.keys, Write.onKeys]
    rw [keys_updateWhere]
    · exact fun _ => rfl
    · exact fun _ => rfl
  | insertChannelParticipantIfAbsent p =>
    refine (keys_insertAbsent p _).trans ?_
    rw [any_isFor]
    simp only [Write.onKeys]
    congr 1
    simp only [eq_iff_iff]
    exact and_congr_right fun h => by rw [hjoined h]
  | deleteChannelParticipant channel user =>
    exact keys_filter_not (fun _ => isFor_iff.trans hside) _
  | _ => rfl

theorem memberIDs_apply (o : Write) (d : DB) (c : Int) :
    (o.apply d).memberIDs c = o.onKeys Prod.mk c (d.isChannelMember c) (d.memberIDs c) :=
  keys_apply Prod.mk .rfl fun h => by rw [← h]

theorem channelIDs_apply (o : Write) (d : DB) (u : Int) : (o.apply d).channelIDs u =
      o.onKeys (fun c u => (u, c)) u (d.isChannelMember · u) (d.channelIDs u) :=
  keys_apply (fun c u => (u, c)) and_comm fun h => by rw [← h]

theorem onKeys_sublist_self
    (h : ∀ p, o = .insertChannelParticipantIfAbsent p → (side p.channelID p.userID).1 ≠ x) :
    (o.onKeys side x joined ids).Sublist ids := by
  cases o with
  | insertChannelParticipantIfAbsent p => simp [Write.onKeys, h p rfl]
  | deleteChannelParticipant =>
    simp only [Write.onKeys]
    split
    · exact filter_sublist
    · exact .refl _
  | _ => exact .refl _

theorem memberIDs_apply_sublist (h : o.account = none ∨ o.state ≠ some c) (d : DB) :
    ((o.apply d).memberIDs c).Sublist (d.memberIDs c) := by
  rw [memberIDs_apply]
  exact onKeys_sublist_self fun p hp => by simpa [hp] using h

theorem channelIDs_apply_sublist (h : o.account ≠ some u) (d : DB) :
    ((o.apply d).channelIDs u).Sublist (d.channelIDs u) := by
  rw [channelIDs_apply]
  exact onKeys_sublist_self fun p hp => by simpa [hp] using h

/-! ## The discipline -/

theorem Grows.refl (d : DB) : Grows d d :=
  ⟨fun _ _ h => h, .refl _, .refl _⟩

theorem Grows.trans (h : Grows d₁ d₂) (h' : Grows d₂ d₃) : Grows d₁ d₃ :=
  ⟨fun c m hm => h'.megagroup c m (h.megagroup c m hm), h.messages.trans h'.messages,
    h.events.trans h'.events⟩

theorem grows_apply (o : Write) (d : DB) : Grows d (o.apply d) where
  megagroup c m h := megagroup_apply h
  messages := by
    rw [messages_apply]
    exact sublist_append_left _ _
  events := by
    rw [events_apply]
    exact sublist_append_left _ _

theorem apply_grows (o : Write) (d d' : DB) (h : Grows d d') (hg : ∀ l ∈ o.guards, Stable l d d') :
    Grows (o.apply d) (o.apply d') where
  megagroup c m hm := by
    simp only [DB.channelMegagroup, channelByID_apply] at hm ⊢
    split
    · rename_i hc
      rw [if_pos hc] at hm
      rwa [← (hg (.channel c) (Write.channel_mem_guards.mpr hc)).1]
    · rename_i hc
      rw [if_neg hc] at hm
      exact h.megagroup c m hm
  messages := by
    rw [messages_apply, messages_apply]
    exact h.messages.append_right _
  events := by
    rw [events_apply, events_apply]
    exact h.events.append_right _

theorem DB.KeepsRights.refl (d : DB) (c : Int) : d.KeepsRights d c :=
  fun _ p hp => ⟨p, hp, rfl, rfl⟩

theorem DB.KeepsRights.trans (h : d₁.KeepsRights d₂ c)
    (h' : d₂.KeepsRights d₃ c) : d₁.KeepsRights d₃ c := by
  intro u p hp
  obtain ⟨p', hp', hrole, hban⟩ := h u p hp
  obtain ⟨p'', hp'', hrole', hban'⟩ := h' u p' hp'
  exact ⟨p'', hp'', hrole'.trans hrole, hban'.trans hban⟩

theorem stable_refl (l : Lock) (d : DB) : Stable l d d := by
  cases l with
  | channel c => exact ⟨rfl, .refl d c, .refl _⟩
  | state c => exact ⟨rfl, .refl _⟩
  | participant | invite => exact rfl
  | account u => exact List.Sublist.refl _
  | username h => exact rfl

theorem stable_trans (l : Lock) (d₁ d₂ d₃ : DB) (h : Stable l d₁ d₂) (h' : Stable l d₂ d₃) :
    Stable l d₁ d₃ := by
  cases l with
  | channel c => exact ⟨h.1.trans h'.1, h.2.1.trans h'.2.1, h.2.2.trans h'.2.2⟩
  | state c => exact ⟨h.1.trans h'.1, h'.2.trans h.2⟩
  | participant | invite => exact Eq.trans h h'
  | account u => exact List.Sublist.trans h' h
  | username handle => exact Eq.trans h h'

/-- A participant keeps role and ban under a write that does not stand under the `channels` row. -/
theorem keepsRights_apply_of_ne (h : o.channel ≠ some c) (d : DB) :
    d.KeepsRights (o.apply d) c := by
  intro u p hp
  rw [participant_apply]
  split
  · rename_i hkey
    rw [hp]
    cases o <;> simp_all [Write.onParticipant]
  · exact ⟨p, hp, rfl, rfl⟩

theorem stable_apply (l : Lock) (o : Write) (d : DB) (h : l ∉ o.guards) :
    Stable l d (o.apply d) := by
  cases l with
  | channel c =>
    have hc : o.channel ≠ some c := fun hc => h (Write.channel_mem_guards.mpr hc)
    refine ⟨(channelByID_apply_of_ne hc d).symm, keepsRights_apply_of_ne hc d, ?_⟩
    rw [memberIDs_apply]
    cases o with
    | insertChannelParticipantIfAbsent p =>
      simp only [Write.onKeys]
      split
      · exact sublist_append_left _ _
      · exact .refl _
    | deleteChannelParticipant channel user =>
      have hne : channel ≠ c := fun heq => hc (congrArg some heq)
      simp [Write.onKeys, hne]
    | _ => exact .refl _
  | state c =>
    have hc : o.state ≠ some c := fun hc => h (Write.state_mem_guards.mpr hc)
    exact ⟨(ofState_apply_of_ne hc d).symm, memberIDs_apply_sublist (.inr hc) d⟩
  | participant c u =>
    have hu : o.participant ≠ some (c, u) := fun hu => h (Write.participant_mem_guards.mpr hu)
    simp only [Stable, participant_apply, if_neg hu]
  | invite hash =>
    simp only [Stable, DB.channelInviteByHash, invites_apply]
  | account u =>
    exact channelIDs_apply_sublist (fun hu => h (Write.account_mem_guards.mpr hu)) d
  | username handle =>
    exact (usernameByHandle_apply_of_ne (fun hh => h (Write.username_mem_guards.mpr hh)) d).symm

/-- A write does the same to two lists of keys that agree on the row that the write names. -/
theorem onKeys_sublist (h : ids.Sublist ids')
    (hj : ∀ c u, o.participant = some (c, u) → (side c u).1 = x →
      joined (side c u).2 = joined' (side c u).2) :
    (o.onKeys side x joined ids).Sublist (o.onKeys side x joined' ids') := by
  cases o with
  | insertChannelParticipantIfAbsent p =>
    by_cases hp : (side p.channelID p.userID).1 = x
    · simp only [Write.onKeys, hj _ _ rfl hp]
      split
      · exact h.append_right _
      · exact h
    · simpa [Write.onKeys, hp] using h
  | deleteChannelParticipant channel user =>
    simp only [Write.onKeys]
    split
    · exact h.filter _
    · exact h
  | _ => exact h

theorem apply_stable (l : Lock) (o : Write) (d d' : DB) (hs : Stable l d d')
    (hg : ∀ l ∈ o.guards, Stable l d d') : Stable l (o.apply d) (o.apply d') := by
  -- On the row that the write names the two states agree.
  have hold : ∀ c u, o.participant = some (c, u) →
      d.channelParticipantByUser c u = d'.channelParticipantByUser c u :=
    fun c u hkey => hg _ (Write.participant_mem_guards.mpr hkey)
  have hjoined : ∀ c u, o.participant = some (c, u) →
      d.isChannelMember c u = d'.isChannelMember c u :=
    fun c u hkey => congrArg Option.isSome (hold c u hkey)
  cases l with
  | channel c =>
    refine ⟨?_, fun u p hp => ?_, ?_⟩
    · rw [channelByID_apply, channelByID_apply, hs.1]
    · by_cases hkey : o.participant = some (c, u)
      · refine ⟨p, ?_, rfl, rfl⟩
        rwa [participant_apply, ← hold c u hkey, ← participant_apply]
      · rw [participant_apply, if_neg hkey] at hp ⊢
        exact hs.2.1 u p hp
    · rw [memberIDs_apply, memberIDs_apply]
      exact onKeys_sublist hs.2.2 fun c u hkey hc => hc ▸ hjoined c u hkey
  | state c =>
    refine ⟨ofState_apply_congr hs.1, ?_⟩
    rw [memberIDs_apply, memberIDs_apply]
    exact onKeys_sublist hs.2 fun c u hkey hc => hc ▸ (hjoined c u hkey).symm
  | participant c u =>
    have heq : d.channelParticipantByUser c u = d'.channelParticipantByUser c u := hs
    simp only [Stable, participant_apply, heq]
  | invite hash =>
    simpa only [Stable, DB.channelInviteByHash, invites_apply] using hs
  | account u =>
    simp only [Stable, channelIDs_apply]
    exact onKeys_sublist hs fun c u hkey hu => hu ▸ (hjoined c u hkey).symm
  | username h => exact usernameByHandle_apply_congr hs

def locking : Locking DB Lock Write Empty where
  apply := apply
  drawn := Empty.elim
  pick := Empty.elim
  pick_pos s := s.elim
  pick_unused s := s.elim
  unused _ _ := False
  guards := Write.guards
  conflicts_guards _ _ _ := rfl
  stable := Stable
  grows := Grows
  stable_refl := stable_refl
  stable_trans := stable_trans
  grows_refl := Grows.refl
  grows_trans _ _ _ := Grows.trans
  grows_apply := grows_apply
  stable_apply := stable_apply
  unused_stable _ _ _ h _ := h
  apply_grows := apply_grows
  apply_stable l o d d' hs _ hg := apply_stable l o d d' hs hg

instance : DecidableRel locking.toRows.conflicts := instDecidableEqLock

theorem locking_apply (o : Write) (d : DB) : locking.apply o d = o.apply d := rfl

end TelegramServer.Channels
