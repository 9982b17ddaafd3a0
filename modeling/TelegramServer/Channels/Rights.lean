import TelegramServer.Channels.Publicness

/-!
# How rights evolve

One participant row changes by a few rules only: a role by its creator's call, a ban by a call
of someone above, a row disappears with the user who leaves, and comes with role 0 or with the
channel.
-/

namespace TelegramServer.Channels

open Tx Tx.Locking

variable {t : Call} {ids : List Int} {caps : Caps} {d w : DB} {c u : Int} {channel pts : Int}

def Call.admits : Call → Bool
  | .joinByInvite .. | .joinByUsername .. | .addMembers .. => true
  | _ => false

/-- How a call that commits on `d` may change the row of the user in the channel. -/
inductive RowChange (d : DB) : Call → Int → Int → Option ChannelParticipant →
    Option ChannelParticipant → Prop where
  | same {t : Call} {c u : Int} (row : Option ChannelParticipant) : RowChange d t c u row row
  | posted {t : Call} {c u : Int} (p : ChannelParticipant) (at_ : Int) :
      RowChange d t c u (some p) (some { p with lastPostAt := some at_ })
  | role {now c caller u role : Int} {p : ChannelParticipant}
      (hcaller : d.callerIs c caller now (· = channelRoleCreator))
      (hrole : p.role = channelRoleMember ∧ role = channelRoleAdmin ∨
        p.role = channelRoleAdmin ∧ role = channelRoleMember) :
      RowChange d (.setRole now c caller u role) c u (some p) (some { p with role })
  | ban {now c caller u : Int} {until_ : Option Int} {forever : Bool} {p : ChannelParticipant}
      (hcaller : d.callerIs c caller now (· = channelRoleCreator) ∧ p.role < channelRoleCreator ∨
        d.callerIs c caller now (· = channelRoleAdmin) ∧ p.role = channelRoleMember) :
      RowChange d (.setBan now c caller u until_ forever) c u (some p)
        (some { p with bannedUntil := banValue until_ forever })
  | left {now c u : Int} {p : ChannelParticipant} (hban : p.banned now = false) :
      RowChange d (.leave now c u) c u (some p) none
  | joined {t : Call} {c u : Int} (ht : t.admits) (pts : Int) :
      RowChange d t c u none (some (newMember c u pts))
  | created {now u : Int} {title : String} {megagroup : Bool} {draws : List Int} {c : Int}
      (hnew : d.channelByID c = none) :
      RowChange d (.create now u title megagroup draws) c u none
        (some { channelID := c, userID := u, role := channelRoleCreator })

/-- Roles are the three there are, and creators are not banned. -/
structure DB.SoundRights (d : DB) : Prop where
  roles : ∀ c u p, d.channelParticipantByUser c u = some p →
    p.role = channelRoleMember ∨ p.role = channelRoleAdmin ∨ p.role = channelRoleCreator
  creators : ∀ c u p, d.channelParticipantByUser c u = some p → p.role = channelRoleCreator →
    p.bannedUntil = none

theorem participant_post (times : PostTimes) (p : Post) (s : ChannelState) (d : DB) (c u : Int) :
    (locking.replay (postWrites times p s) d).channelParticipantByUser c u =
      if (p.channelID, p.fromID) = (c, u) then
        (d.channelParticipantByUser c u).map fun q => { q with lastPostAt := some times.marked }
      else d.channelParticipantByUser c u := by
  have hquiet : Quiet ((postWrites times p s).take 4) := by
    simp [Quiet, postWrites]
  change ((Write.updateChannelPostMarker p.channelID p.fromID times.marked).apply
    (locking.replay ((postWrites times p s).take 4) d)).channelParticipantByUser c u = _
  rw [participant_apply, hquiet.participant]
  simp [Write.onParticipant]

theorem participant_create (now creator : Int) (title : String) (megagroup : Bool) (id : Int)
    (d : DB) (c u : Int) :
    (locking.replay (createWrites now creator title megagroup id) d).channelParticipantByUser c u =
      if (id, creator) = (c, u) then
        some ((d.channelParticipantByUser c u).getD
          { channelID := id, userID := creator, role := channelRoleCreator })
      else d.channelParticipantByUser c u := by
  simp [createWrites, locking_apply, participant_apply, Write.onParticipant]

theorem Admissions.participant (h : Admissions caps channel pts d ids w) (c u : Int) :
    w.channelParticipantByUser c u = d.channelParticipantByUser c u ∨
      d.channelParticipantByUser c u = none ∧
        w.channelParticipantByUser c u = some (newMember c u pts) := by
  induction h with
  | nil => exact .inl rfl
  | @snoc ids d' _ user hadmits ih =>
    rw [participant_apply]
    split
    · rename_i hkey
      have hkey : (channel, user) = (c, u) := Option.some.inj hkey
      obtain ⟨rfl, rfl⟩ := Prod.mk.inj hkey
      have habsent : d'.channelParticipantByUser channel user = none :=
        Option.not_isSome_iff_eq_none.mp (by simpa [DB.isChannelMember] using hadmits.absent)
      obtain hsame | ⟨hnone, -⟩ := ih
      · exact .inr ⟨hsame ▸ habsent, by rw [habsent]; rfl⟩
      · exact .inr ⟨hnone, by rw [habsent]; rfl⟩
    · exact ih

theorem RowChange.of_admissions (ht : t.admits)
    (h : Admissions caps channel pts d ids w) (c u : Int) :
    RowChange d t c u (d.channelParticipantByUser c u) (w.channelParticipantByUser c u) := by
  obtain hsame | ⟨hnone, hnew⟩ := h.participant c u
  · rw [hsame]
    exact .same _
  · rw [hnone, hnew]
    exact .joined ht pts

theorem callerIs_of_mayBan {now caller role : Int} (hrole : role = channelRoleMember ∨
      role = channelRoleAdmin ∨ role = channelRoleCreator)
    (h : d.callerIs c caller now (mayBan · role = true)) :
    d.callerIs c caller now (· = channelRoleCreator) ∧ role < channelRoleCreator ∨
      d.callerIs c caller now (· = channelRoleAdmin) ∧ role = channelRoleMember := by
  obtain ⟨q, hq, hban, hmay⟩ := h
  simp only [mayBan] at hmay
  split at hmay
  · cases hmay
  rename_i hnot
  simp only [decide_eq_true_eq] at hmay
  obtain hcreator | ⟨hadmin, hmember⟩ := hmay
  · refine .inl ⟨⟨q, hq, hban, hcreator⟩, ?_⟩
    unfold channelRoleMember channelRoleAdmin channelRoleCreator at *
    omega
  · exact .inr ⟨⟨q, hq, hban, hadmin⟩, hmember⟩

theorem Effect.rowChange {r : Reply} {vs : List DB} (hd : d.SoundRights)
    (h : Effect caps t d r vs w) (c u : Int) :
    RowChange d t c u (d.channelParticipantByUser c u) (w.channelParticipantByUser c u) := by
  cases t with
  | post times p | send times limited p =>
    obtain ⟨q, -, hstored | ⟨-, rfl⟩⟩ := h
    · rw [hstored.eq, participant_post]
      split
      · cases d.channelParticipantByUser c u with
        | none => exact .same _
        | some p => exact .posted p _
      · exact .same _
    · exact .same _
  | setRole now channel caller target role =>
    obtain ⟨hcaller, hrole, ⟨p, hp, hcreator, hchange⟩, rfl⟩ := h
    rw [participant_apply]
    split
    · rename_i hkey
      obtain ⟨rfl, rfl⟩ := Prod.mk.inj (Option.some.inj hkey)
      rw [hp]
      refine .role hcaller ?_
      have := hd.roles _ _ p hp
      omega
    · exact .same _
  | setBan now channel caller target until_ forever =>
    obtain ⟨⟨p, hp, hcaller⟩, rfl⟩ := h
    rw [participant_apply]
    split
    · rename_i hkey
      obtain ⟨rfl, rfl⟩ := Prod.mk.inj (Option.some.inj hkey)
      rw [hp]
      exact .ban (callerIs_of_mayBan (hd.roles _ _ p hp) hcaller)
    · exact .same _
  | leave now channel user =>
    obtain rfl | ⟨⟨p, hp, hban⟩, rfl⟩ := h
    · exact .same _
    · rw [participant_apply]
      split
      · rename_i hkey
        obtain ⟨rfl, rfl⟩ := Prod.mk.inj (Option.some.inj hkey)
        rw [hp]
        exact .left hban
      · exact .same _
  | joinByInvite =>
    obtain rfl | ⟨i, pts, -, -, hadd⟩ := h
    · exact .same _
    · exact .of_admissions rfl hadd c u
  | joinByUsername =>
    obtain rfl | ⟨pts, -, hadd⟩ := h
    · exact .same _
    · exact .of_admissions rfl hadd c u
  | addMembers =>
    obtain ⟨-, -, ids, pts, -, hadd, -⟩ := h
    exact .of_admissions rfl hadd c u
  | create now creator title megagroup draws =>
    obtain ⟨id, hfree, -, habsent, -, rfl⟩ := h
    rw [participant_create]
    split
    · rename_i hkey
      obtain ⟨rfl, rfl⟩ := Prod.mk.inj hkey
      have hnone : d.channelParticipantByUser id creator = none :=
        Option.not_isSome_iff_eq_none.mp (by simpa [DB.isChannelMember] using habsent)
      rw [hnone]
      exact .created hfree
    · exact .same _
  | setSlowMode =>
    obtain ⟨-, rfl | rfl⟩ := h
    · exact .same _
    · exact .same _
  | editUsername =>
    obtain ⟨-, names, changes, rfl⟩ := h
    exact .same _

theorem DB.SoundRights.step (hd : d.SoundRights)
    (h : ∀ c u, RowChange d t c u (d.channelParticipantByUser c u)
      (w.channelParticipantByUser c u)) :
    w.SoundRights := by
  have hrow (c u : Int) (p' : ChannelParticipant) (hp' : w.channelParticipantByUser c u = some p') :
      (p'.role = channelRoleMember ∨ p'.role = channelRoleAdmin ∨ p'.role = channelRoleCreator) ∧
        (p'.role = channelRoleCreator → p'.bannedUntil = none) := by
    have hchange := h c u
    rw [hp'] at hchange
    generalize hrow : d.channelParticipantByUser c u = row at hchange
    generalize hnew : some p' = row' at hchange
    cases hchange with
    | same =>
      rw [← hnew] at hrow
      exact ⟨hd.roles c u p' hrow, hd.creators c u p' hrow⟩
    | posted p at_ =>
      cases hnew
      exact ⟨hd.roles c u p hrow, hd.creators c u p hrow⟩
    | role hcaller hrole =>
      cases hnew
      unfold channelRoleMember channelRoleAdmin channelRoleCreator at *
      exact ⟨by dsimp only; omega, fun hno => by dsimp only at hno; omega⟩
    | @ban _ _ _ _ _ _ p hcaller =>
      cases hnew
      refine ⟨hd.roles c u p hrow, fun hcreator => ?_⟩
      unfold channelRoleMember channelRoleAdmin channelRoleCreator at *
      obtain ⟨-, hlt⟩ | ⟨-, hmember⟩ := hcaller
      · exact absurd hcreator (by dsimp only; omega)
      · exact absurd hcreator (by dsimp only; omega)
    | left => cases hnew
    | joined ht pts =>
      cases hnew
      exact ⟨.inl rfl, fun hno => absurd hno (by simp [newMember, channelRoleCreator])⟩
    | created =>
      cases hnew
      exact ⟨.inr (.inr rfl), fun _ => rfl⟩
  exact ⟨fun c u p hp => (hrow c u p hp).1, fun c u p hp => (hrow c u p hp).2⟩

/-! ## The rules, one by one -/

structure RightsStep (t : Call) (d w : DB) : Prop where
  /-- A role changes between member and admin, by an unbanned creator. -/
  role : ∀ c u p p', d.channelParticipantByUser c u = some p →
    w.channelParticipantByUser c u = some p' → p'.role ≠ p.role →
    (p.role = channelRoleMember ∧ p'.role = channelRoleAdmin ∨
      p.role = channelRoleAdmin ∧ p'.role = channelRoleMember) ∧
    ∃ now caller, t = .setRole now c caller u p'.role ∧
      d.callerIs c caller now (· = channelRoleCreator)
  /-- A ban changes below an unbanned creator, or for a member by an unbanned admin. -/
  ban : ∀ c u p p', d.channelParticipantByUser c u = some p →
    w.channelParticipantByUser c u = some p' → p'.bannedUntil ≠ p.bannedUntil →
    ∃ now caller until_ forever, t = .setBan now c caller u until_ forever ∧
      (d.callerIs c caller now (· = channelRoleCreator) ∧ p.role < channelRoleCreator ∨
        d.callerIs c caller now (· = channelRoleAdmin) ∧ p.role = channelRoleMember)
  /-- Creators come with their channel. -/
  creator : ∀ c u p', w.channelParticipantByUser c u = some p' → p'.role = channelRoleCreator →
    (∃ p, d.channelParticipantByUser c u = some p ∧ p.role = channelRoleCreator) ∨
      d.channelByID c = none ∧ ∃ now title megagroup draws, t = .create now u title megagroup draws
  /-- A row goes with a user who leaves and carries no ban that runs. -/
  gone : ∀ c u p, d.channelParticipantByUser c u = some p →
    w.channelParticipantByUser c u = none → ∃ now, t = .leave now c u ∧ p.banned now = false
  /-- Neither leaving nor joining again takes a ban away that runs. -/
  kept : ∀ c u p, d.channelParticipantByUser c u = some p →
    (t.admits = true ∨ ∃ now, t = .leave now c u ∧ p.banned now = true) →
    ∃ p', w.channelParticipantByUser c u = some p' ∧ p'.bannedUntil = p.bannedUntil
  /-- Who joins has no role. -/
  joined : ∀ c u p', t.admits → d.channelParticipantByUser c u = none →
    w.channelParticipantByUser c u = some p' → p'.role = channelRoleMember
  joinPts : ∀ c u p p', d.channelParticipantByUser c u = some p →
    w.channelParticipantByUser c u = some p' → p'.joinPts = p.joinPts

theorem rightsStep_of_rowChange
    (h : ∀ c u, RowChange d t c u (d.channelParticipantByUser c u)
      (w.channelParticipantByUser c u)) :
    RightsStep t d w where
  role c u p p' hp hp' hne := by
    have hchange := h c u
    rw [hp, hp'] at hchange
    cases hchange with
    | same | posted | ban => exact absurd rfl hne
    | role hcaller hrole => exact ⟨hrole, _, _, rfl, hcaller⟩
  ban c u p p' hp hp' hne := by
    have hchange := h c u
    rw [hp, hp'] at hchange
    cases hchange with
    | same | posted | role => exact absurd rfl hne
    | ban hcaller => exact ⟨_, _, _, _, rfl, hcaller⟩
  creator c u p' hp' hcreator := by
    have hchange := h c u
    rw [hp'] at hchange
    generalize hrow : d.channelParticipantByUser c u = row at hchange
    cases hchange with
    | same => exact .inl ⟨p', rfl, hcreator⟩
    | posted p at_ => exact .inl ⟨p, rfl, hcreator⟩
    | role hcaller hrole =>
      unfold channelRoleMember channelRoleAdmin channelRoleCreator at *
      dsimp only at hcreator
      omega
    | ban => exact .inl ⟨_, rfl, hcreator⟩
    | joined => exact absurd hcreator (by simp [newMember, channelRoleCreator])
    | created hnew => exact .inr ⟨hnew, _, _, _, _, rfl⟩
  gone c u p hp hgone := by
    have hchange := h c u
    rw [hp, hgone] at hchange
    cases hchange with
    | left hban => exact ⟨_, rfl, hban⟩
  kept c u p hp ht := by
    have hchange := h c u
    rw [hp] at hchange
    generalize w.channelParticipantByUser c u = row at hchange
    cases hchange with
    | same => exact ⟨p, rfl, rfl⟩
    | posted | role => exact ⟨_, rfl, rfl⟩
    | ban => obtain ht | ⟨now, ht, -⟩ := ht <;> cases ht
    | left hban =>
      obtain ht | ⟨now, ht, hbanned⟩ := ht
      · cases ht
      · cases ht
        rw [hban] at hbanned
        cases hbanned
  joined c u p' ht hnone hp' := by
    have hchange := h c u
    rw [hnone, hp'] at hchange
    cases hchange with
    | joined => rfl
    | created => cases ht
  joinPts c u p p' hp hp' := by
    have hchange := h c u
    rw [hp, hp'] at hchange
    cases hchange with
    | same | posted | role | ban => rfl

/-- From sound rights on, every call of a run that changes a role, a ban or a membership does so by
the rules, and rights stay sound. -/
theorem channel_rights_evolve_by_rules {caps : Caps} {d₀ : DB} (h₀ : d₀.SoundRights)
    {c : ChannelConfig} (hc : Reachable locking.toRows (code caps) d₀ c) :
    c.db.SoundRights ∧ ∀ r ∈ c.log, RightsStep r.call r.pre r.post := by
  obtain ⟨hleads, hmeets⟩ := records_meet (code_effect caps) hc
  have hrow : ∀ r ∈ c.log, r.pre.SoundRights → ∀ c u, RowChange r.pre r.call c u
      (r.pre.channelParticipantByUser c u) (r.post.channelParticipantByUser c u) := by
    intro r hr hpre c u
    obtain ⟨reply, vs, -, heffect⟩ | ⟨hsame, -⟩ := effect_of_meets (hmeets r hr)
    · exact heffect.rowChange hpre c u
    · rw [hsame]
      exact .same _
  have hstep : ∀ r ∈ c.log, r.pre.SoundRights → r.post.SoundRights :=
    fun r hr hpre => hpre.step (hrow r hr hpre)
  refine ⟨hleads.invariant hstep h₀, fun r hr => ?_⟩
  exact rightsStep_of_rowChange (hrow r hr (hleads.invariant_pre hstep h₀ hr))

theorem soundRights_publicChannel : publicChannel.SoundRights := by
  have hrow : ∀ c u p, publicChannel.channelParticipantByUser c u = some p →
      p.role = channelRoleCreator ∧ p.bannedUntil = none := by
    intro c u p hp
    obtain rfl := List.mem_singleton.mp (List.mem_of_find?_eq_some hp)
    exact ⟨rfl, rfl⟩
  exact ⟨fun c u p hp => .inr (.inr (hrow c u p hp).1), fun c u p hp _ => (hrow c u p hp).2⟩

def banThenLeave : List (Move Call) :=
  [Move.begin 0 (joinClub 2)] ++ List.replicate 8 (Move.run 0) ++
    [Move.begin 1 (Call.setBan 0 7 1 2 none true)] ++ List.replicate 6 (Move.run 1) ++
    [Move.begin 0 (Call.leave 5 7 2)] ++ List.replicate 3 (Move.run 0)

theorem channel_rights_evolve_by_rules_ban :
    ∃ c, Reachable locking.toRows (code {}) publicChannel c ∧
      c.log.map (·.call) = [joinClub 2, .setBan 0 7 1 2 none true, .leave 5 7 2] ∧
    c.db.SoundRights ∧ ∀ r ∈ c.log, RightsStep r.call r.pre r.post := by
  obtain ⟨c, hc, hcalls, -⟩ : ∃ c, Reachable locking.toRows (code {}) publicChannel c ∧
      c.log.map (·.call) = [joinClub 2, .setBan 0 7 1 2 none true, .leave 5 7 2] ∧
      c.log.map (·.outcome) = [clubJoined 2, .done (.commit .done), .done (.commit (.left true))] :=
    Board.exists_run 2 banThenLeave (by decide +kernel)
  exact ⟨c, hc, hcalls, channel_rights_evolve_by_rules soundRights_publicChannel hc⟩

end TelegramServer.Channels
