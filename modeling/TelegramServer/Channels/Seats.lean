import TelegramServer.Channels.Publicness

/-!
# The caps on memberships

Seats in a channel are counted under `channel_state` and the channels of an account under its
advisory lock. Every admission holds both, so neither count is ever over its cap, and a
refusal has seen the cap reached.
-/

namespace TelegramServer.Channels

open Tx Tx.Locking List

variable {vs : List DB} {w : DB} {t : Call}

/-- No channel and no account is over its cap, and members are members of channels. -/
structure Within (caps : Caps) (d : DB) : Prop where
  seats : ∀ c, d.countChannelParticipants c ≤ caps.maxChannelParticipants
  joined : ∀ u, d.countChannelsForUser u ≤ caps.maxChannelsPerUser
  channels : ∀ c u, d.isChannelMember c u → (d.channelByID c).isSome

namespace Within

variable {caps : Caps} {d : DB} (h : Within caps d)

include h

theorem apply {o : Write} (ho : o.account = none) : Within caps (o.apply d) := by
  have hmembers (c : Int) := memberIDs_apply_sublist (o := o) (c := c) (.inl ho) d
  have hchannels (u : Int) := channelIDs_apply_sublist (o := o) (u := u) (by rw [ho]; nofun) d
  refine ⟨fun c => ?_, fun u => ?_, fun c u hcu => ?_⟩
  · rw [countChannelParticipants_eq]
    exact (hmembers c).length_le.trans (countChannelParticipants_eq d c ▸ h.seats c)
  · rw [countChannelsForUser_eq]
    exact (hchannels u).length_le.trans (countChannelsForUser_eq d u ▸ h.joined u)
  · have hd : d.isChannelMember c u :=
      mem_memberIDs.mp ((hmembers c).subset (mem_memberIDs.mpr hcu))
    obtain ⟨x, hx⟩ := Option.isSome_iff_exists.mp (h.channels c u hd)
    rw [channelByID_apply, hx]
    split
    · cases o <;> rfl
    · rfl

theorem replay {os : List Write} (hos : ∀ o ∈ os, o.account = none) :
    Within caps (locking.replay os d) :=
  Rows.replay_invariant h fun o ho _ hd => hd.apply (hos o ho)

theorem insert {p : ChannelParticipant}
    (hseats : d.countChannelParticipants p.channelID < caps.maxChannelParticipants)
    (hjoined : d.countChannelsForUser p.userID < caps.maxChannelsPerUser)
    (hchannel : (d.channelByID p.channelID).isSome) :
    Within caps ((Write.insertChannelParticipantIfAbsent p).apply d) := by
  refine ⟨fun c => ?_, fun u => ?_, fun c u hcu => ?_⟩
  · have hc := h.seats c
    rw [countChannelParticipants_eq] at hc hseats ⊢
    rw [memberIDs_apply, Write.onKeys]
    split
    · rename_i hp
      obtain rfl := hp.1
      rw [length_append]
      exact hseats
    · exact hc
  · have hu := h.joined u
    rw [countChannelsForUser_eq] at hu hjoined ⊢
    rw [channelIDs_apply, Write.onKeys]
    split
    · rename_i hp
      obtain rfl := hp.1
      rw [length_append]
      exact hjoined
    · exact hu
  · rw [channelByID_apply_of_ne (by simp)]
    rw [DB.isChannelMember, participant_apply] at hcu
    split at hcu
    · rename_i hp
      obtain ⟨rfl, rfl⟩ := Prod.mk.inj (Option.some.inj hp)
      exact hchannel
    · exact h.channels c u hcu

theorem admissions {channel pts : Int} {ids : List Int}
    (hchannel : (d.channelByID channel).isSome) (hadd : Admissions caps channel pts d ids w) :
    Within caps w ∧ (w.channelByID channel).isSome := by
  induction hadd with
  | nil => exact ⟨h, hchannel⟩
  | snoc _ hadmits ih =>
    refine ⟨ih.1.insert hadmits.seats hadmits.joined ih.2, ?_⟩
    rw [channelByID_apply_of_ne (by simp)]
    exact ih.2

theorem count_eq_zero {c : Int} (hc : d.channelByID c = none) :
    d.countChannelParticipants c = 0 := by
  rw [countChannelParticipants_eq, length_eq_zero_iff, eq_nil_iff_forall_not_mem]
  intro u hu
  have hsome := h.channels c u (mem_memberIDs.mp hu)
  rw [hc] at hsome
  cases hsome

theorem create (hcap : 1 ≤ caps.maxChannelParticipants) {now creator id : Int}
    {title : String} {megagroup : Bool} (hfree : d.channelByID id = none)
    (hjoined : d.countChannelsForUser creator < caps.maxChannelsPerUser) :
    Within caps (locking.replay (createWrites now creator title megagroup id) d) := by
  have hnew :
      Within caps (locking.replay ((createWrites now creator title megagroup id).take 2) d) :=
    h.replay (by simp [createWrites])
  have hchannel : ((locking.replay ((createWrites now creator title megagroup id).take 2)
      d).channelByID id).isSome := by
    change (((Write.insertChannel _).apply d).channelByID id).isSome
    rw [channelByID_apply]
    simp [Write.onChannel]
  have hrow := hnew.insert (p := { channelID := id, userID := creator, role := channelRoleCreator })
    ((h.count_eq_zero hfree).trans_lt hcap) hjoined hchannel
  have hrest : ∀ o ∈ (createWrites now creator title megagroup id).drop 3, o.account = none := by
    simp [createWrites]
  exact hrow.replay hrest

theorem effect (hcap : 1 ≤ caps.maxChannelParticipants) {r : Reply}
    (he : Effect caps t d r vs w) : Within caps w := by
  cases t with
  | post times p | send times limited p =>
    obtain ⟨q, -, hstored | ⟨-, rfl⟩⟩ := he
    · rw [hstored.eq]
      exact h.replay (by simp [postWrites])
    · exact h
  | setRole =>
    obtain ⟨-, -, -, rfl⟩ := he
    exact h.apply rfl
  | setBan =>
    obtain ⟨-, rfl⟩ := he
    exact h.apply rfl
  | leave =>
    obtain rfl | ⟨-, rfl⟩ := he
    · exact h
    · exact h.apply rfl
  | joinByInvite =>
    obtain rfl | ⟨i, pts, -, hchannel, hadd⟩ := he
    · exact h
    · exact (h.admissions hchannel hadd).1
  | joinByUsername =>
    obtain rfl | ⟨pts, hchannel, hadd⟩ := he
    · exact h
    · exact (h.admissions hchannel hadd).1
  | addMembers =>
    obtain ⟨-, hchannel, ids, pts, -, hadd, -⟩ := he
    exact (h.admissions hchannel hadd).1
  | create =>
    obtain ⟨id, hfree, -, -, hjoined, rfl⟩ := he
    exact h.create hcap hfree hjoined
  | setSlowMode =>
    obtain ⟨-, rfl | rfl⟩ := he
    · exact h
    · exact h.apply rfl
  | editUsername times channel caller username =>
    obtain ⟨-, names, changes, rfl⟩ := he
    have hset :
        Within caps ((Write.setChannelUsername channel (editedUsername username)).apply d) :=
      h.apply rfl
    exact ⟨hset.seats, hset.joined, hset.channels⟩

end Within

/-- A call that was refused for a cap, or that passed a target over, saw the reason in one of its
views. -/
def CapSeen (caps : Caps) (t : Call) (x : Except ChannelErr Reply) (vs : List DB) : Prop :=
  match t, x with
  | _, .error e => Refusal caps t e vs
  | .addMembers _ channel _ targets, .ok (.added ids) =>
    ∀ u ∈ targets, u ∉ ids → Skipped caps channel u vs
  | _, _ => True

theorem Spec.capSeen {caps : Caps} {d : DB} {x : Except ChannelErr Reply}
    (h : Spec caps t d x vs w) : CapSeen caps t x vs := by
  cases x with
  | error e => cases t <;> exact h
  | ok r =>
    cases t with
    | addMembers =>
      obtain ⟨-, -, ids, pts, rfl, -, hskipped⟩ := h
      exact fun u hu hno => (hskipped u hu).resolve_left hno
    | _ => cases r <;> trivial

/-- Every committed state is within the caps, and an admission is refused or skipped for a cap only
where its transaction has observed it reached. -/
theorem admission_caps_exact {caps : Caps} (hseats : 1 ≤ caps.maxChannelParticipants) {d₀ : DB}
    (h₀ : Within caps d₀) :
    (∀ c : ChannelConfig, Reachable locking.toRows (code caps) d₀ c →
      (∀ channel, c.db.countChannelParticipants channel ≤ caps.maxChannelParticipants) ∧
      ∀ user, c.db.countChannelsForUser user ≤ caps.maxChannelsPerUser) ∧
    ∀ c : Config DB Lock Write Empty Empty (Except ChannelErr Reply × List DB) Call,
      Reachable locking.toRows (fun t => (code caps t).watched) d₀ c →
      ∀ r ∈ c.log, ∀ x vs, r.outcome.answer = some (x, vs) → CapSeen caps r.call x vs := by
  refine ⟨fun c hc => ?_, fun c hc r hr x vs hx => ?_⟩
  · obtain ⟨hleads, hmeets⟩ := records_meet (code_effect caps) hc
    have hwithin : Within caps c.db := by
      refine hleads.invariant (fun r hr hpre => ?_) h₀
      obtain ⟨reply, vs, -, heffect⟩ | ⟨hsame, -⟩ := effect_of_meets (hmeets r hr)
      · exact hpre.effect hseats heffect
      · exact hsame ▸ hpre
    exact ⟨hwithin.seats, hwithin.joined⟩
  · exact (watched_answer (code_effect caps) hc hr hx).capSeen

def twoSeats : Caps := ⟨2, 5⟩

theorem within_publicChannel : Within twoSeats publicChannel := by
  refine ⟨fun c => ?_, fun u => ?_, fun c u hcu => ?_⟩
  · exact (length_filter_le _ _).trans (by decide)
  · exact (length_filter_le _ _).trans (by decide)
  · obtain ⟨p, hp, rfl, rfl⟩ := isChannelMember_iff.mp hcu
    obtain rfl := mem_singleton.mp hp
    decide

def joinTwice : List (Move Call) :=
  [Move.begin 0 (joinClub 2)] ++ replicate 8 (Move.run 0) ++ [Move.begin 0 (joinClub 3)] ++
    replicate 5 (Move.run 0)

def resultLog (log : List (Record DB (Except ChannelErr Reply × List DB) Empty Call)) :
    List (Call × Option (Except ChannelErr Reply)) :=
  log.map fun r => (r.call, r.outcome.answer.map Prod.fst)

theorem admission_caps_exact_full :
    ∃ c, Reachable locking.toRows (fun t => (code twoSeats t).watched) publicChannel c ∧
      ∃ r ∈ c.log, r.call = joinClub 3 ∧ ∃ vs, r.outcome.answer = some (.error .channelFull, vs) ∧
        ∃ v ∈ vs, 2 ≤ v.countChannelParticipants 7 := by
  obtain ⟨c, hc, hlog⟩ : ∃ c,
      Reachable locking.toRows (fun t => (code twoSeats t).watched) publicChannel c ∧
        resultLog c.log = [(joinClub 2, some (.ok (.joined club (newMember 7 2 0)))),
          (joinClub 3, some (.error .channelFull))] :=
    Board.exists_run 1 joinTwice (by decide +kernel)
  have hseats : 1 ≤ twoSeats.maxChannelParticipants := by decide
  obtain ⟨-, hseen⟩ := admission_caps_exact hseats within_publicChannel
  obtain ⟨r, rest, hlog', -, hrest⟩ := map_eq_cons_iff.mp hlog
  obtain ⟨r', rest, rfl, hr', hrest⟩ := map_eq_cons_iff.mp hrest
  obtain ⟨hcall, hanswer⟩ := Prod.mk.inj hr'
  obtain ⟨⟨x, vs⟩, hx, rfl⟩ := Option.map_eq_some_iff.mp hanswer
  have hmem : r' ∈ c.log := by simp [hlog']
  have hfull := hseen c hc r' hmem _ _ hx
  rw [hcall] at hfull
  exact ⟨c, hc, r', hmem, hcall, vs, hx, hfull⟩

end TelegramServer.Channels
