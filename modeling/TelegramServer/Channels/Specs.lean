import TelegramServer.Channels.Effects

/-!
# The effect of every channel transaction

One lemma per transaction: whatever happens beside it, the body has its effect on the database
that it commits on.
-/

namespace TelegramServer.Channels

open Tx Tx.Locking List
open ChannelParticipant (banned)

variable {r : Record DB Reply ChannelErr Call} {row : ChannelParticipant} {state : ChannelState}
  {owner : HandleOwner} {x : Channel} {now role : Int} {A : Type} {d v' : DB} {caps : Caps} {w : DB}
  {H : Set Lock} {vs : List DB} {F : ChannelErr → List DB → Prop} {Q : After DB Lock Unit}
  {c channel pts user : Int} {lead : Nat} {p : Post} {s : ChannelState} {times : PostTimes} {v : DB}

def Leaves {A : Type} (d : DB) (P : A → List DB → DB → Prop) :
    Finish A → List DB → Set Lock → DB → Prop
  | .commit a, vs, _, w => P a vs w
  | .rollback a, vs, _, _ => P a vs d

def Spec (caps : Caps) (t : Call) (d : DB) : Except ChannelErr Reply → List DB → DB → Prop
  | .ok r, vs, w => Effect caps t d r vs w
  | .error e, vs, _ => Refusal caps t e vs

/-- A call that answers `f` of what `p` returns has its effect, or its refusal. -/
abbrev Does (caps : Caps) (t : Call) (d : DB) (f : A → Reply) (p : Body (Finish A)) : Prop :=
  locking.wpw p [] ∅ d (Leaves d fun a => Effect caps t d (f a)) (Refusal caps t)

theorem wpw_answer {t : Call} {f : A → Reply} {p : Body (Finish A)} (h : Does caps t d f p) :
    locking.wpw (answer f p) [] ∅ d (Ended (Spec caps) t d) fun e vs =>
      Spec caps t d (.error e) vs d := by
  refine wpw_bind (wpw_mono h (fun r vs H w _ hr => ?_))
  cases r with
  | commit | rollback => exact wpw_pure hr

/-! ## Rights -/

theorem wpw_beginChannelMutation {caller target : Int}
    {Q : After DB Lock (ChannelParticipant × ChannelParticipant)}
    (hF : ∀ vs, F .notMember vs)
    (h : ∀ p q vs H', .channel channel ∈ H' → w.callerIs channel caller now (· = p.role) →
      (∃ q', w.channelParticipantByUser channel target = some q' ∧ q'.role = q.role) →
      Q (p, q) vs H' w) :
    locking.wpw (beginChannelMutation now channel caller target) vs H w Q F := by
  unfold beginChannelMutation
  split
  · exact wpw_fail (hF _)
  refine wpw_bind (wpw_query fun v₀ _ => ?_)
  split
  · exact wpw_fail (hF _)
  refine wpw_rowOrFail fun v x hv hx => ?_
  refine wpw_queryOrFail fun v₁ p hv₁ hp => ?_
  split
  · exact wpw_fail (hF _)
  rename_i hban
  refine wpw_queryOrFail fun v₂ q hv₂ hq => wpw_pure ?_
  obtain ⟨q', hq', hqrole, -⟩ := row_viewed hv₂ (.inr rfl) hq
  exact h p q _ _ (.inr rfl) (callerIs_viewed hv₁ (.inr rfl) hp hban rfl) ⟨q', hq', hqrole⟩

theorem setChannelRole_spec (now channel caller target role : Int) :
    Does caps (.setRole now channel caller target role) d (fun _ => .done)
      (setChannelRole now channel caller target role) := by
  unfold setChannelRole
  split
  · exact wpw_fail trivial
  rename_i hrole
  refine wpw_bind (wpw_beginChannelMutation (fun _ => trivial) fun p q vs H' hl hp hq => ?_)
  dsimp only
  split
  · exact wpw_fail trivial
  rename_i hrights
  refine wpw_bind (wpw_updateRow (by simp [hl]) (fun v _ hrow => ?_) fun v a hv hrow => ?_)
  · simpa [rowCount, hrow] using wpw_fail trivial
  · simp only [rowCount, hrow, Option.isSome_some, if_true, Nat.one_ne_zero, if_false]
    push Not at hrights
    obtain ⟨p', hp', hban, hprole⟩ := hp
    obtain ⟨q', hq', hqrole⟩ := hq
    refine wpw_pure ⟨⟨p', hp', hban, hprole.trans hrights.1⟩, by omega, ⟨q', hq', ?_, ?_⟩, rfl⟩
    · rw [hqrole]
      exact hrights.2.1
    · rw [hqrole]
      exact hrights.2.2

theorem setChannelBan_spec (now channel caller target : Int) (until_ : Option Int)
    (forever : Bool) : Does caps (.setBan now channel caller target until_ forever) d
      (fun _ => .done) (setChannelBan now channel caller target until_ forever) := by
  unfold setChannelBan
  refine wpw_bind (wpw_beginChannelMutation (fun _ => trivial) fun p q vs H' hl hp hq => ?_)
  dsimp only
  split
  · exact wpw_fail trivial
  rename_i hmay
  refine wpw_bind (wpw_updateRow (by simp [hl]) (fun v _ hrow => ?_) fun v a hv hrow => ?_)
  · simpa [rowCount, hrow] using wpw_fail trivial
  · simp only [rowCount, hrow, Option.isSome_some, if_true, Nat.one_ne_zero, if_false]
    obtain ⟨p', hp', hban, hprole⟩ := hp
    obtain ⟨q', hq', hqrole⟩ := hq
    refine wpw_pure ⟨⟨q', hq', p', hp', hban, ?_⟩, rfl⟩
    rw [hprole, hqrole]
    simpa using hmay

theorem leaveChannel_spec (now channel user : Int) :
    Does caps (.leave now channel user) d .left (leaveChannel now channel user) := by
  unfold leaveChannel
  refine wpw_bind (wpw_rowForUpdate (fun v _ _ => ?_) fun v x hv hx => ?_)
  · exact wpw_pure (.inl rfl)
  refine wpw_bind (wpw_query fun v₁ hv₁ => ?_)
  cases hrow : v₁.channelParticipantByUser channel user with
  | none => exact wpw_pure (.inl rfl)
  | some row =>
    dsimp only
    split
    · rename_i hban
      obtain ⟨p, hp, -, hpban⟩ := row_viewed hv₁ (.inr rfl) hrow
      have hgone : Effect caps (.leave now channel user) d (.left true) []
          ((Write.deleteChannelParticipant channel user).apply d) :=
        .inr ⟨⟨p, hp, by simpa [banned, hpban] using hban⟩, rfl⟩
      refine wpw_bind (wpw_updateRow (by simp) (fun v _ _ => ?_) fun v a hv hrow => ?_)
      · exact wpw_pure (.inl rfl)
      · exact wpw_pure hgone
    · exact wpw_pure (.inl rfl)

theorem setChannelSlowMode_spec (now channel caller seconds : Int) :
    Does caps (.setSlowMode now channel caller seconds) d (fun r => .slowMode r.1 r.2)
      (setChannelSlowMode now channel caller seconds) := by
  unfold setChannelSlowMode
  refine wpw_bind (wpw_query fun v₀ _ => ?_)
  split
  · exact wpw_fail trivial
  refine wpw_rowOrFail fun v locked hv hx => ?_
  refine wpw_queryOrFail fun v₁ row hv₁ hrow => ?_
  split
  · exact wpw_fail trivial
  rename_i hrights
  push Not at hrights
  have hcaller : d.callerIs channel caller now (channelRoleAdmin ≤ ·) :=
    callerIs_viewed hv₁ (.inr rfl) hrow (by simpa using hrights.2.2) hrights.2.1
  split
  · exact wpw_pure ⟨hcaller, .inl rfl⟩
  refine wpw_bind (wpw_updateRow (by simp) (fun v _ hrow => ?_) fun v a hv hrow => ?_)
  · rw [hrow]
    exact wpw_fail trivial
  · refine wpw_bind (wpw_orFail (fun _ => trivial) fun _ _ => ?_)
    exact wpw_pure ⟨hcaller, .inr rfl⟩

theorem DB.SameButHandles.trans {d₁ d₂ d₃ : DB} (h : d₁.SameButHandles d₂)
    (h' : d₂.SameButHandles d₃) : d₁.SameButHandles d₃ := by
  obtain ⟨names, changes, rfl⟩ := h
  obtain ⟨names', changes', rfl⟩ := h'
  exact ⟨names', changes', rfl⟩

theorem DB.SameButHandles.channelByID {d' : DB} (h : d.SameButHandles d') (c : Int) :
    d'.channelByID c = d.channelByID c := by
  obtain ⟨names, changes, rfl⟩ := h
  rfl

theorem DB.SameButHandles.setChannelUsername {d' : DB} (h : d.SameButHandles d') (c : Int)
    (username : Option String) :
    ((Write.setChannelUsername c username).apply d).SameButHandles
      ((Write.setChannelUsername c username).apply d') := by
  obtain ⟨names, changes, rfl⟩ := h
  exact ⟨names, changes, rfl⟩

theorem wpw_releaseUsernames {handles : List String} (hw : d.SameButHandles w)
    (h : ∀ vs H' w', H ⊆ H' → d.SameButHandles w' → Q () vs H' w') :
    locking.wpw (releaseUsernames owner handles) vs H w Q F := by
  induction handles generalizing H vs w with
  | nil => exact wpw_pure (h _ _ _ subset_rfl hw)
  | cons handle handles ih =>
    refine wpw_bind (wpw_updateRow (by simp) (fun v _ _ => ?_) fun v a _ _ => ?_)
    · exact ih hw h
    · refine ih (hw.trans ⟨_, _, rfl⟩) fun vs H' w' hsub => ?_
      exact h vs H' w' (Set.subset_union_left.trans hsub)

theorem wpw_claimUsername {handle : String} (hF : ∀ vs, F .usernameOccupied vs)
    (hw : d.SameButHandles w) (h : ∀ vs H' w', H ⊆ H' → d.SameButHandles w' → Q () vs H' w') :
    locking.wpw (claimUsername handle owner) vs H w Q F := by
  refine wpw_bind (wpw_stmt fun v hv => ⟨ascends_singleton _, ?_, ?_⟩)
  · split
    · exact covered_nil _
    · rintro o ho l hl
      rw [mem_singleton.mp ho] at hl
      exact .inr hl
  · cases hrow : v.usernameByHandle handle with
    | none =>
      have hsame : d.SameButHandles ((Write.claimUsername ⟨handle, owner⟩).apply w) :=
        hw.trans ⟨_, _, rfl⟩
      exact h _ _ _ Set.subset_union_left hsame
    | some u => exact hF _

theorem wpw_setChannelUsername {username : Option String}
    {Q : After DB Lock Nat} (hl : .channel channel ∈ H)
    (hx : w.channelByID channel = some x)
    (h : ∀ n vs H', H ⊆ H' → Q n vs H' ((Write.setChannelUsername channel username).apply w)) :
    locking.wpw (setChannelUsername channel username) vs H w Q F := by
  refine wpw_updateRow (by simp) (fun v hv hrow => ?_) fun v a _ _ =>
    h _ _ _ Set.subset_union_left
  rw [channelByID_viewed hv hl, hx] at hrow
  cases hrow

theorem wpw_replaceChannelUsername {username : String} (hF : ∀ vs, F .usernameOccupied vs)
    (hl : .channel channel ∈ H) (hx : d.channelByID channel = some x) (hw : d.SameButHandles w)
    (h : ∀ vs H' w', H ⊆ H' →
      ((Write.setChannelUsername channel (editedUsername username)).apply d).SameButHandles w' →
      Q () vs H' w') : locking.wpw (replaceChannelUsername channel username) vs H w Q F := by
  unfold replaceChannelUsername releaseUsernameByOwner
  refine wpw_bind (wpw_bind (wpw_query fun v _ =>
    wpw_releaseUsernames hw fun vs H₁ w₁ hsub hw₁ => ?_))
  have hx₁ : w₁.channelByID channel = some x := by rw [hw₁.channelByID, hx]
  split
  · rename_i hclear
    refine wpw_bind (wpw_setChannelUsername (hsub hl) hx₁ fun n vs H₂ hsub₂ => wpw_pure ?_)
    refine h _ _ _ (hsub.trans hsub₂) ?_
    rw [editedUsername, if_pos hclear]
    exact hw₁.setChannelUsername _ _
  · rename_i hset
    refine wpw_bind (wpw_claimUsername hF hw₁ fun vs H₂ w₂ hsub₂ hw₂ => ?_)
    have hx₂ : w₂.channelByID channel = some x := by rw [hw₂.channelByID, hx]
    refine wpw_bind (wpw_setChannelUsername (hsub₂ (hsub hl)) hx₂ fun n vs H₃ hsub₃ => wpw_pure ?_)
    refine h _ _ _ ((hsub.trans hsub₂).trans hsub₃) ?_
    rw [editedUsername, if_neg hset]
    exact hw₂.setChannelUsername _ _

theorem editChannelUsername_spec (times : EditTimes) (channel caller : Int) (username : String) :
    Does caps (.editUsername times channel caller username) d (fun _ => .done)
      (editChannelUsername times channel caller username) := by
  unfold editChannelUsername
  refine wpw_bind (wpw_lock not_false (.inr fun _ _ => trivial) fun v₀ _ => ?_)
  refine wpw_rowOrFail fun v x hv hx => ?_
  refine wpw_queryOrFail fun v₁ row hv₁ hrow => ?_
  split
  · exact wpw_fail trivial
  rename_i hrights
  push Not at hrights
  have hcaller : d.callerIs channel caller times.checked (channelRoleAdmin ≤ ·) :=
    callerIs_viewed hv₁ (.inr rfl) hrow (by simpa using hrights.2) hrights.1
  rw [channelByID_viewed hv (.inr rfl)] at hx
  refine wpw_bind (wpw_exec_ (by simp [locking]) fun v₂ _ => ?_)
  refine wpw_bind (wpw_replaceChannelUsername (fun _ => trivial) (.inr rfl) hx ⟨_, _, rfl⟩
    fun vs H' w' hsub hw' => ?_)
  have hheld : ∀ l ∈ (Write.insertChannelUsernameChange channel times.now).guards, l ∈ H' := by
    simpa using hsub (.inr rfl)
  refine wpw_bind (wpw_exec_ hheld fun v₃ _ => ?_)
  refine wpw_bind (wpw_query fun v₄ _ => ?_)
  split
  · exact wpw_fail trivial
  · exact wpw_pure ⟨hcaller, hw'.trans ⟨_, _, rfl⟩⟩

/-! ## Admission -/

theorem wpw_admitUser {Q : After DB Lock ChannelParticipant}
    (hl : .state channel ∈ H) (hno : ∀ vs, F .noRows vs)
    (hfull : ∀ v, caps.maxChannelParticipants ≤ v.countChannelParticipants channel →
      F .channelFull (vs ++ [v]))
    (hmany : ∀ vs, ∀ v ∈ vs, caps.maxChannelsPerUser ≤ v.countChannelsForUser user →
      F .tooManyChannels vs) (hkeep : ∀ p vs H', Q p vs H' w)
    (hjoin : ∀ p vs H', Admits caps channel user w →
      Q p vs H'
        ((Write.insertChannelParticipantIfAbsent (newMember channel user state.pts)).apply w)) :
    locking.wpw (admitUser caps channel state user) vs H w Q F := by
  unfold admitUser
  refine wpw_bind (wpw_query fun v₀ hv₀ => ?_)
  split
  · rename_i hseats
    exact wpw_fail (hfull v₀ hseats)
  rename_i hseats
  refine wpw_bind (wpw_lockOwners fun vs H' hsub haccount => ?_)
  have hu : .account user ∈ H' := haccount user (by simp)
  refine wpw_bind (wpw_query fun v₁ hv₁ => ?_)
  split
  · rename_i hjoined
    exact wpw_fail (hmany _ v₁ (by simp) hjoined)
  rename_i hjoined
  refine wpw_bind (wpw_insert (by simp [hsub hl, hu]) (fun v a _ hrow => ?_) fun v hv hrow => ?_)
  · simp only [DB.isChannelMember, hrow, Option.isSome_some, if_true]
    refine wpw_bind (wpw_query fun v₂ _ => ?_)
    exact wpw_orFail (fun _ => hno _) fun _ _ => hkeep _ _ _
  · simp only [DB.isChannelMember, hrow, Option.isSome_none, Bool.false_eq_true, if_false,
      Nat.one_ne_zero]
    refine wpw_pure (hjoin _ _ _ ⟨?_, ?_, ?_⟩)
    · rw [DB.isChannelMember, ← participant_viewed hv (.inr rfl), hrow]
      rfl
    · exact (count_le_viewed hv₀ hl).trans_lt (not_le.mp hseats)
    · exact (joined_le_viewed hv₁ hu).trans_lt (not_le.mp hjoined)

theorem admissions_one (h : Admits caps channel user d) : Admissions caps channel pts d [user]
      ((Write.insertChannelParticipantIfAbsent (newMember channel user pts)).apply d) :=
  .snoc .nil h

theorem joinChannelByInvite_spec (hash : String) (user : Int) :
    Does caps (.joinByInvite hash user) d (fun r => .joined r.1 r.2)
      (joinChannelByInvite caps hash user) := by
  unfold joinChannelByInvite
  refine wpw_rowOrFail fun v i hv hi => ?_
  have hinvite : d.channelInviteByHash hash = some i := by
    rw [← hi]
    exact (hv.stable (.invite hash) (.inr rfl)).symm
  refine wpw_rowOrFail fun v₁ state _ _ => ?_
  refine wpw_queryOrFail fun v₂ x hv₂ hx => ?_
  refine wpw_bind (wpw_query fun v₃ _ => ?_)
  cases v₃.channelParticipantByUser i.channelID user with
  | some row => exact wpw_pure (.inl rfl)
  | none =>
    refine wpw_bind (wpw_admitUser (.inr rfl) (fun _ => trivial) (fun v' hfull => ?_)
      (fun vs v' hmem hmany => ⟨v', hmem, hmany⟩) (fun _ _ _ => wpw_pure (.inl rfl))
      fun p vs H' hadmits => wpw_pure ?_)
    · exact ⟨v, by simp, i, hi, v', by simp, hfull⟩
    · exact .inr ⟨i, state.pts, hinvite, channel_isSome_viewed hv₂ hx, admissions_one hadmits⟩

theorem joinChannelByUsername_spec (now channel user : Int) :
    Does caps (.joinByUsername now channel user) d (fun r => .joined r.1 r.2)
      (joinChannelByUsername caps now channel user) := by
  unfold joinChannelByUsername
  refine wpw_rowOrFail fun v₁ state _ _ => ?_
  refine wpw_queryOrFail fun v₂ x hv₂ hx => ?_
  split
  · exact wpw_fail trivial
  refine wpw_bind (wpw_query fun v₃ _ => ?_)
  cases v₃.channelParticipantByUser channel user with
  | some row =>
    dsimp only
    split
    · exact wpw_fail trivial
    · exact wpw_pure (.inl rfl)
  | none =>
    refine wpw_bind (wpw_admitUser (.inr rfl) (fun _ => trivial) (fun v hfull => ?_)
      (fun vs v hmem hmany => ⟨v, hmem, hmany⟩) (fun _ _ _ => wpw_pure (.inl rfl))
      fun p vs H' hadmits => wpw_pure ?_)
    · exact ⟨v, by simp, hfull⟩
    · exact .inr ⟨state.pts, channel_isSome_viewed hv₂ hx, admissions_one hadmits⟩

theorem Skipped.append (h : Skipped caps channel user vs) (vs' : List DB) :
    Skipped caps channel user (vs ++ vs') := by
  obtain ⟨v, hv, hreason⟩ := h
  exact ⟨v, mem_append_left _ hv, hreason⟩

theorem skipped_last (h : v.isChannelMember channel user = true ∨
      caps.maxChannelParticipants ≤ v.countChannelParticipants channel ∨
      caps.maxChannelsPerUser ≤ v.countChannelsForUser user) : Skipped caps channel user
        (vs ++ [v]) :=
  ⟨v, by simp, h⟩

theorem count_insert (h : w.isChannelMember channel user = false) :
    ((Write.insertChannelParticipantIfAbsent (newMember channel user pts)).apply
      w).countChannelParticipants channel = w.countChannelParticipants channel + 1 := by
  simp [countChannelParticipants_eq, memberIDs_apply, Write.onKeys, newMember, h]

/-- The loop keeps the running count equal to the one that will be committed. -/
theorem wpw_addTargets {targets seen added : List Int} {seats : Nat}
    (hstate : .state channel ∈ H) (haccount : ∀ u ∈ targets, .account u ∈ H)
    (hseats : seats = w.countChannelParticipants channel)
    (hadded : Admissions caps channel state.pts d added w)
    (hseen : ∀ u ∈ seen, u ∈ added ∨ Skipped caps channel u vs) :
    locking.wpw (addTargets caps channel state targets seen seats added) vs H w
      (fun ids vs' _ w' => Admissions caps channel state.pts d ids w' ∧
        ∀ u, u ∈ seen ∨ u ∈ targets → u ∈ ids ∨ Skipped caps channel u vs') F := by
  induction targets generalizing H vs w seen added seats with
  | nil => exact wpw_pure ⟨hadded, fun u hu => hseen u (by simpa using hu)⟩
  | cons target targets ih =>
    have hrest : ∀ u ∈ targets, .account u ∈ H := fun u hu => haccount u (by simp [hu])
    -- Either way the target is accounted for, and the loop goes on.
    have hskip {vs' : List DB} {H' : Set Lock} (hsub : H ⊆ H') (hvs : vs <+: vs')
        (ht : Skipped caps channel target vs') :
        locking.wpw (addTargets caps channel state targets (target :: seen) seats added) vs' H' w
          (fun ids vs' _ w' => Admissions caps channel state.pts d ids w' ∧
            ∀ u, u ∈ seen ∨ u ∈ target :: targets → u ∈ ids ∨ Skipped caps channel u vs') F := by
      refine wpw_mono (ih (hsub hstate) (fun u hu => hsub (hrest u hu)) hseats hadded ?_)
        (fun ids vs'' _ w' _ h => ⟨h.1, fun u hu => h.2 u ?_⟩)
      · intro u hu
        obtain rfl | hu := mem_cons.mp hu
        · exact .inr ht
        · obtain ⟨more, rfl⟩ := hvs
          exact (hseen u hu).imp id fun h => h.append more
      · simp only [mem_cons] at hu ⊢
        tauto
    unfold addTargets
    split
    · rename_i hmem
      refine wpw_mono (ih hstate hrest hseats hadded hseen)
        (fun ids vs' _ w' _ h => ⟨h.1, fun u hu => h.2 u ?_⟩)
      obtain hu | hu := hu
      · exact .inl hu
      · obtain rfl | hu := mem_cons.mp hu
        · exact .inl hmem
        · exact .inr hu
    refine wpw_bind (wpw_query fun v₁ hv₁ => ?_)
    split
    · rename_i hfull
      refine hskip subset_rfl (prefix_append _ _) (skipped_last ?_)
      refine hfull.imp id fun hfull => .inl ?_
      exact (hseats ▸ hfull).trans (count_le_viewed hv₁ hstate)
    rename_i hfull
    push Not at hfull
    refine wpw_bind (wpw_query fun v₂ hv₂ => ?_)
    split
    · rename_i hmany
      refine hskip subset_rfl ?_ (skipped_last (.inr (.inr hmany)))
      exact (prefix_append _ _).trans (prefix_append _ _)
    rename_i hmany
    have htarget : .account target ∈ H := haccount target (by simp)
    refine wpw_bind (wpw_insert (by simp [hstate, htarget]) (fun v a _ hrow => ?_)
      fun v hv hrow => ?_)
    · simp only [DB.isChannelMember, hrow, Option.isSome_some, if_true]
      refine hskip subset_rfl ?_ (skipped_last (.inl (by simp [DB.isChannelMember, hrow])))
      exact ((prefix_append _ _).trans (prefix_append _ _)).trans (prefix_append _ _)
    · simp only [DB.isChannelMember, hrow, Option.isSome_none, Bool.false_eq_true, if_false,
        Nat.one_ne_zero]
      have habsent : w.isChannelMember channel target = false := by
        rw [DB.isChannelMember, ← participant_viewed hv (.inr rfl), hrow]
        rfl
      have hadmits : Admits caps channel target w :=
        ⟨habsent, hseats ▸ hfull.2, (joined_le_viewed hv₂ htarget).trans_lt (not_le.mp hmany)⟩
      refine wpw_mono (ih (.inl hstate) (fun u hu => .inl (hrest u hu)) ?_ (hadded.snoc hadmits) ?_)
        (fun ids vs'' _ w' _ h => ⟨h.1, fun u hu => h.2 u ?_⟩)
      · rw [hseats]
        exact (count_insert habsent).symm
      · intro u hu
        obtain rfl | hu := mem_cons.mp hu
        · exact .inl (by simp)
        · refine (hseen u hu).imp (fun h => by simp [h]) fun h => ?_
          exact ((h.append _).append _).append _
      · simp only [mem_cons] at hu ⊢
        tauto

theorem addChannelMembers_spec (now channel caller : Int) (targets : List Int) :
    Does caps (.addMembers now channel caller targets) d .added
      (addChannelMembers caps now channel caller targets) := by
  unfold addChannelMembers
  refine wpw_bind (wpw_query fun v₀ _ => ?_)
  split
  · exact wpw_fail trivial
  refine wpw_rowOrFail fun v x hv hx => ?_
  refine wpw_queryOrFail fun v₁ row hv₁ hrow => ?_
  split
  · exact wpw_fail trivial
  rename_i hrights
  push Not at hrights
  have hcaller : d.callerIs channel caller now (channelRoleAdmin ≤ ·) :=
    callerIs_viewed hv₁ (.inr rfl) hrow (by simpa using hrights.2) hrights.1
  refine wpw_rowOrFail fun v₂ state _ _ => ?_
  split
  · exact wpw_fail trivial
  refine wpw_bind (wpw_lockOwners fun vs H' hsub haccount => ?_)
  have hstate : .state channel ∈ H' := hsub (.inr rfl)
  have hchannel : .channel channel ∈ H' := hsub (.inl (.inr rfl))
  refine wpw_bind (wpw_query fun v₃ hv₃ => ?_)
  have hseats : v₃.countChannelParticipants channel = d.countChannelParticipants channel :=
    Nat.le_antisymm (le_count_viewed hv₃ hchannel) (count_le_viewed hv₃ hstate)
  refine wpw_bind (wpw_mono (wpw_addTargets hstate haccount hseats .nil (by simp))
    (fun ids vs' _ w' _ h => wpw_pure ?_))
  exact ⟨hcaller, channel_isSome_viewed hv hx, ids, _, rfl, h.1, fun u hu => h.2 u (.inr hu)⟩

theorem channelState_ensure (d : DB) (c : Int) :
    ((Write.ensureChannelState c).apply d).channelState c = some (d.stateOf c) := by
  refine (Table.find?_insertAbsent_key (k := (·.channelID)) (b := c) ?_ ?_ rfl).trans
    (if_pos rfl) <;> simp

theorem ensure_apply (h : w.channelState c = some s) :
    (Write.ensureChannelState c).apply w = w := by
  have hany : w.states.any (·.channelID = c) := by
    rw [any_eq_true, ← find?_isSome]
    exact Option.isSome_iff_exists.mpr ⟨s, h⟩
  simp [Write.apply, Table.insertAbsent, hany]

theorem wpw_bumpChannelState {Q : After DB Lock (Int × Int)}
    (hl : .state c ∈ H) (hs : w.channelState c = some s) (h : ∀ v H', H ⊆ H' →
      Q (s.pts + 1, s.nextLocalID) (vs ++ [v]) H' ((Write.bumpChannelState c).apply w))
    (hF : ∀ vs, F .noRows vs := by first | assumption | exact fun _ => trivial) :
    locking.wpw (bumpChannelState c) vs H w Q F := by
  refine wpw_bind (wpw_updateRow (by simp) (fun v _ hrow => ?_) fun v a hv hrow => ?_)
  · rw [hrow]
    exact wpw_fail (hF _)
  · obtain rfl : a = s := by
      rw [channelState_viewed hv (.inl hl), hs] at hrow
      exact (Option.some.inj hrow).symm
    rw [hrow]
    exact wpw_pure (h v _ Set.subset_union_left)

theorem wpw_insertChannel {c : Channel} {draws : List Int} {Q : After DB Lock Channel}
    (hF : ∀ vs, F .channelID vs)
    (h : ∀ id vs H', H ⊆ H' → .channel id ∈ H' → w.channelByID id = none →
      Q { c with id } vs H' ((Write.insertChannel { c with id }).apply w)) :
    locking.wpw (insertChannel c draws) vs H w Q F := by
  induction draws generalizing vs with
  | nil => exact wpw_fail (hF _)
  | cons draw draws ih =>
    refine wpw_bind (wpw_insert (by simp) (fun v a _ hrow => ?_) fun v hv hrow => ?_)
    · rw [hrow]
      exact ih
    · rw [hrow]
      refine wpw_pure (h _ _ _ Set.subset_union_left (.inr rfl) ?_)
      rw [← channelByID_viewed hv (.inr rfl)]
      exact hrow

theorem createChannel_spec (now creator : Int) (title : String) (megagroup : Bool)
    (draws : List Int) :
    Does caps (.create now creator title megagroup draws) d .created
      (createChannel caps now creator title megagroup draws) := by
  unfold createChannel
  refine wpw_bind (wpw_lockOwners fun vs H₀ _ haccount => ?_)
  have hu₀ : .account creator ∈ H₀ := haccount creator (by simp)
  refine wpw_bind (wpw_query fun v₀ hv₀ => ?_)
  split
  · rename_i hmany
    exact wpw_fail ⟨v₀, by simp, hmany⟩
  rename_i hmany
  have hjoined : d.countChannelsForUser creator < caps.maxChannelsPerUser :=
    (joined_le_viewed hv₀ hu₀).trans_lt (not_le.mp hmany)
  refine wpw_bind (wpw_insertChannel (fun _ => trivial) fun id vs H₁ hsub₁ hchannel hfree => ?_)
  refine wpw_bind (wpw_insertRow (by simp) (fun _ => trivial) fun v₁ hv₁ hstate => ?_)
  have hnew : d.channelState id = none := by
    rw [channelState_viewed hv₁ (.inr rfl)] at hstate
    exact hstate
  refine wpw_bind (wpw_insertRow (by simp [hsub₁ hu₀]) (fun _ => trivial) fun v₂ hv₂ hrow => ?_)
  have habsent : d.isChannelMember id creator = false := by
    rw [participant_viewed hv₂ (.inr rfl)] at hrow
    exact congrArg Option.isSome hrow
  have hstateOf (x : Channel) :
      ((Write.insertChannel x).apply d).stateOf id = { channelID := id } :=
    congrArg (Option.getD · _) hnew
  refine wpw_bind (wpw_bumpChannelState (.inl (.inr rfl))
    (channelState_ensure ((Write.insertChannel _).apply d) id) fun v₃ H₂ hsub₂ => ?_)
  have hl : .state id ∈ H₂ := hsub₂ (.inl (.inr rfl))
  refine wpw_bind (wpw_exec_ (by simpa [locking] using hl) fun v₄ _ => ?_)
  refine wpw_bind (wpw_exec_ (by simpa [locking] using hl) fun v₅ _ => ?_)
  refine wpw_queryOrFail fun v₆ stored _ _ => wpw_pure ?_
  refine ⟨id, hfree, hnew, habsent, hjoined, ?_⟩
  simp only [hstateOf]
  rfl

/-! ## Posting -/

theorem wpw_lockState {rest : ChannelState → Body A} {Q : After DB Lock A}
    (hF : ∀ vs, F .noRows vs)
    (h : ∀ s v v' H', .state c ∈ H' →
      locking.wpw (rest s) (vs ++ [v] ++ [v']) H' ((Write.ensureChannelState c).apply w) Q F) :
    locking.wpw (do
      ensureChannelState c
      let state ← channelStateForUpdate c
      let state ← .orFail .noRows state
      rest state) vs H w Q F := by
  refine wpw_bind (wpw_insert (by simp) (fun v a _ _ => ?_) fun v hv hrow => ?_)
  · refine wpw_rowOrFail fun v' s hv' hs => ?_
    rw [channelState_viewed hv' (.inr rfl)] at hs
    have hrest := h s v v' (H ∪ {.state c}) (.inr rfl)
    rwa [ensure_apply hs] at hrest
  · exact wpw_rowOrFail fun v' s _ _ => h s v v' _ (.inr rfl)

theorem wpw_checkPostRights {Q : After DB Lock Int}
    (hF : ∀ vs, F .notMember vs)
    (h : ∀ v v' row, v.channelParticipantByUser channel user = some row →
      Q row.role (vs ++ [v] ++ [v']) H w) :
    locking.wpw (checkPostRights channel user now) vs H w Q F := by
  unfold checkPostRights
  refine wpw_queryOrFail fun v row _ hrow => ?_
  split
  · exact wpw_fail (hF _)
  refine wpw_queryOrFail fun v' _ _ _ => ?_
  split
  · exact wpw_fail (hF _)
  · exact wpw_pure (h v v' row hrow)

/-- Whatever the post observes from here on, its check was in time for the marker in `w`. -/
def Post.Spaced (times : PostTimes) (p : Post) (lead : Nat) (vs : List DB) (w : DB) : Prop :=
  ∀ vs', vs <+: vs' → ∀ s, 0 < s → p.interval lead vs' = some s →
    ∀ m, w.postMarker p.channelID p.fromID = some m → m + s * second ≤ times.slow

theorem le_lastPostAt {m s : Int} {last : Option Int} (hm : v.postMarker channel user = some m)
    (hs : v.slowModePostState channel user = some (s, last)) : ∃ l, last = some l ∧ m ≤ l := by
  simp only [DB.slowModePostState, Option.bind_eq_bind, Option.bind_eq_some_iff,
    Option.pure_def, Option.some.injEq, Prod.mk.injEq] at hs
  obtain ⟨x, -, q, hq, -, rfl⟩ := hs
  obtain ⟨rfl, rfl⟩ := isFor_iff.mp (find?_some hq)
  rw [DB.lastPostAt, hm]
  cases q.lastPostAt with
  | none => exact ⟨m, rfl, le_rfl⟩
  | some a => exact ⟨max a m, rfl, le_max_right _ _⟩

theorem le_of_slowModeWait {s at_ last : Int} (h : slowModeWait s at_ last = none) :
    last + s * second ≤ at_ := by
  simp only [slowModeWait] at h
  split at h
  · cases h
  · omega

theorem getElem?_of_prefix {vs' : List DB} {n : Nat} (h : vs ++ [v] <+: vs')
    (hn : vs.length = n) (hv' : vs'[n]? = some v') : v' = v := by
  obtain ⟨more, rfl⟩ := h
  subst hn
  simpa using hv'.symm

theorem wpw_checkSlowMode (hl : .state p.channelID ∈ H)
    (hlen : vs.length = lead + p.channelIndex + 1) :
    locking.wpw (checkSlowMode p.channelID p.fromID times.slow) vs H w
      (fun _ vs' H' w' => H' = H ∧ w' = w ∧ vs <+: vs' ∧ p.Spaced times lead vs' w)
      (p.Refused times) := by
  unfold checkSlowMode
  refine wpw_queryOrFail fun v x hv hx => ?_
  obtain ⟨s, last⟩ := x
  have hdone (h : 0 < s → last.bind (slowModeWait s times.slow) = none) :
      H = H ∧ w = w ∧ vs <+: vs ++ [v] ∧ p.Spaced times lead (vs ++ [v]) w := by
    refine ⟨rfl, rfl, prefix_append _ _, fun vs' hvs' s' hs' hreads m hm => ?_⟩
    obtain ⟨-, -, -, -, v'', last', -, -, -, -, -, -, hv'', hstate⟩ :=
      Post.interval_eq_some.mp hreads
    obtain rfl := getElem?_of_prefix hvs' hlen hv''
    obtain ⟨rfl, rfl⟩ := Prod.mk.inj (Option.some.inj (hstate.symm.trans hx))
    rw [← postMarker_viewed hv hl] at hm
    obtain ⟨l, rfl, hle⟩ := le_lastPostAt hm hx
    have := le_of_slowModeWait (h hs')
    omega
  dsimp only
  split
  · rename_i hs
    cases hwait : last.bind (slowModeWait s times.slow) with
    | none => exact wpw_pure (hdone fun _ => hwait)
    | some n =>
      obtain ⟨l, rfl, hn⟩ := Option.bind_eq_some_iff.mp hwait
      exact wpw_fail ⟨v, s, l, by simp, hx, hs, hn⟩
  · rename_i hs
    exact wpw_pure (hdone fun h => absurd h hs)

theorem wpw_checkPostLimits (hl : .state p.channelID ∈ H)
    (hlen : vs.length = lead + p.channelIndex) (hv : vs[lead + 4]? = some v)
    (hrow : v.channelParticipantByUser p.channelID p.fromID = some row) (hrole : row.role = role) :
    locking.wpw (checkPostLimits times p role) vs H w
      (fun _ vs' H' w' => H' = H ∧ w' = w ∧ vs <+: vs' ∧ p.Spaced times lead vs' w)
      (p.Refused times) := by
  unfold checkPostLimits
  refine wpw_queryOrFail fun v₁ x hv₁ hx => ?_
  have hvs : vs <+: vs ++ [v₁] := prefix_append _ _
  have hlen₁ : (vs ++ [v₁]).length = lead + p.channelIndex + 1 := by simp [hlen]
  split
  · split
    · exact wpw_fail trivial
    split
    · refine wpw_mono (wpw_checkSlowMode hl hlen₁) (fun _ vs' H' w' _ h => ?_)
      exact ⟨h.1, h.2.1, hvs.trans h.2.2.1, h.2.2.2⟩
    · rename_i hnot
      refine wpw_pure ⟨rfl, rfl, hvs, fun vs' hvs' s _ hreads => ?_⟩
      obtain ⟨v', row', -, -, -, -, hv', hrow', hmember, -⟩ := Post.interval_eq_some.mp hreads
      obtain ⟨more, rfl⟩ := hvs.trans hvs'
      rw [getElem?_append_left (List.getElem?_eq_some_iff.mp hv).1, hv] at hv'
      cases hv'
      obtain rfl := Option.some.inj (hrow.symm.trans hrow')
      exact absurd (hrole.symm.trans hmember) hnot
  · rename_i hnot
    refine wpw_pure ⟨rfl, rfl, hvs, fun vs' hvs' s _ hreads => ?_⟩
    obtain ⟨-, -, v', x', -, -, -, -, -, hv', hx', hmega, -⟩ := Post.interval_eq_some.mp hreads
    obtain rfl := getElem?_of_prefix hvs' hlen hv'
    obtain rfl := Option.some.inj (hx.symm.trans hx')
    exact absurd hmega hnot

theorem wpw_insertPost {Q : After DB Lock (Int × Int)} (hl : .state p.channelID ∈ H)
    (hs : w.channelState p.channelID = some s) (hF : ∀ vs, F .noRows vs)
    (h : ∀ vs' H', vs <+: vs' → .state p.channelID ∈ H' →
      Q (s.pts + 1, s.nextLocalID) vs' H' (locking.replay
        [.bumpChannelState p.channelID, .insertChannelMessage (postMessage times p s.nextLocalID),
          .insertChannelEvent (postEvent p s)] w)) :
    locking.wpw (insertPost times p) vs H w Q F := by
  unfold insertPost
  refine wpw_bind (wpw_bumpChannelState hl hs fun v H' hsub => ?_)
  have hl' : .state p.channelID ∈ H' := hsub hl
  refine wpw_bind (wpw_exec_ (by simpa [locking] using hl') fun v₁ _ => ?_)
  refine wpw_bind (wpw_exec_ (by simpa [locking] using hl') fun v₂ _ => wpw_pure ?_)
  refine h _ H' ?_ hl'
  exact ((prefix_append _ _).trans (prefix_append _ _)).trans (prefix_append _ _)

theorem wpw_markPost (hl : .state p.channelID ∈ H)
    (hF : ∀ vs, F .notMember vs)
    (h : ∀ v H', .state p.channelID ∈ H' → w.isChannelMember p.channelID p.fromID = true →
      Q () (vs ++ [v]) H'
        ((Write.updateChannelPostMarker p.channelID p.fromID times.marked).apply w)) :
    locking.wpw (markPost times p) vs H w Q F := by
  refine wpw_bind (wpw_updateRow (by simp [hl]) (fun v _ hrow => ?_) fun v a hv hrow => ?_)
  · simpa [rowCount, hrow] using wpw_fail (hF _)
  · simp only [rowCount, hrow, Option.isSome_some, if_true]
    refine wpw_pure (h v _ (.inl hl) ?_)
    rw [DB.isChannelMember, ← participant_viewed hv (.inr rfl), hrow]
    rfl

theorem wpw_storePost (hl : .state p.channelID ∈ H)
    (hw : w = (Write.ensureChannelState p.channelID).apply d)
    (hfresh : p.randomID ≠ 0 → d.channelMessageByRandomID p.channelID p.randomID = none)
    (hlen : vs.length = lead + p.channelIndex) (hv : vs[lead + 4]? = some v)
    (hrow : v.channelParticipantByUser p.channelID p.fromID = some row) (hrole : row.role = role) :
    locking.wpw (storePost times p true role) vs H w
      (Leaves d fun q vs w => Stored times p lead d q vs w ∨ Found p d q ∧ w = d)
      (p.Refused times) := by
  unfold storePost
  refine wpw_bind (wpw_mono (wpw_checkPostLimits hl hlen hv hrow hrole) (fun _ vs₁ H₁ w₁ _ h => ?_))
  obtain ⟨rfl, rfl, -, hspaced⟩ := h
  have hstate : w₁.channelState p.channelID = some (d.stateOf p.channelID) := by
    rw [hw]
    exact channelState_ensure d _
  -- The rest, behind the check of the reply.
  have hrest (vs₂ : List DB) (hvs : vs₁ <+: vs₂) : locking.wpw (do
      let r ← insertPost times p
      markPost times p
      let stored ← .query (·.channelMessageByLocal p.channelID r.2)
      let stored ← .orFail .noRows stored
      pure (.commit { message := stored, pts := r.1, dup := false })) vs₂ H₁ w₁
      (Leaves d fun q vs w => Stored times p lead d q vs w ∨ Found p d q ∧ w = d)
      (p.Refused times) := by
    refine wpw_bind (wpw_insertPost hl hstate (fun _ => trivial) fun vs₃ H₂ hvs₃ hl₂ => ?_)
    refine wpw_bind (wpw_markPost hl₂ (fun _ => trivial) fun v₁ H₃ hl₃ hmember => ?_)
    refine wpw_queryOrFail fun v₂ stored hv₂ hstored => wpw_pure (.inl ?_)
    have hvs₄ : vs₁ <+: vs₃ ++ [v₁] ++ [v₂] :=
      ((hvs.trans hvs₃).trans (prefix_append _ _)).trans (prefix_append _ _)
    rw [channelMessageByLocal_viewed hv₂ hl₃] at hstored
    subst hw
    exact ⟨hfresh, hmember, rfl, hstored, rfl, rfl,
      fun s hs hreads m hm => hspaced _ hvs₄ s hs hreads m hm⟩
  unfold checkReply
  split
  · refine wpw_bind (wpw_bind (wpw_query fun v₀ _ => ?_))
    split
    · exact wpw_pure (hrest _ (prefix_append _ _))
    · exact wpw_fail trivial
  · exact wpw_bind (wpw_pure (hrest _ prefix_rfl))

theorem found_viewed {m : ChannelMessage} (hid : p.randomID ≠ 0)
    (hv : v.messages.Sublist d.messages)
    (hm : v.channelMessageByRandomID p.channelID p.randomID = some m)
    (hv' : v'.events.Sublist d.events)
    (hpts : v'.newChannelPostPts p.channelID m.localID = some pts) :
    Found p d { message := m, pts, dup := true } := by
  obtain ⟨e, he, rfl⟩ := Option.map_eq_some_iff.mp hpts
  have hm' := find?_some hm
  have he' := find?_some he
  simp only [decide_eq_true_eq] at hm' he'
  exact ⟨rfl, hid, hv.subset (mem_of_find?_eq_some hm), hm'.1, hm'.2.1, e,
    hv'.subset (mem_of_find?_eq_some he), he'.1, he'.2.1, he'.2.2, rfl⟩

theorem wpw_newChannelPostPts {i : Int} {Q : After DB Lock Int}
    (hF : ∀ vs, F .ptsUnknown vs)
    (h : ∀ v pts, Grows v w → v.newChannelPostPts c i = some pts → Q pts (vs ++ [v]) H w) :
    locking.wpw (newChannelPostPts c i) vs H w Q F := by
  refine wpw_bind (wpw_query fun v hv => ?_)
  exact wpw_orFail (fun _ => hF _) fun pts hpts => h v pts hv.grows hpts

theorem postChannelMessageAs_spec (times : PostTimes) (p : Post) (vs : List DB) :
    locking.wpw (postChannelMessageAs times p) vs ∅ d
      (Leaves d fun q vs' w => Stored times p vs.length d q vs' w ∨ Found p d q ∧ w = d)
      (p.Refused times) := by
  unfold postChannelMessageAs postChannelMessage
  split
  · exact wpw_fail trivial
  refine wpw_bind (wpw_checkPostRights (fun _ => trivial) fun v₀ v₁ _ _ => ?_)
  refine wpw_lockState (fun _ => trivial) fun s v₂ v₃ H hl => ?_
  refine wpw_bind (wpw_checkPostRights (fun _ => trivial) fun v₄ v₅ row hrow => ?_)
  split
  · rename_i hid
    refine wpw_bind (wpw_query fun v₆ hv₆ => ?_)
    cases hm : v₆.channelMessageByRandomID p.channelID p.randomID with
    | some m =>
      refine wpw_bind (wpw_newChannelPostPts (fun _ => trivial) fun v₇ pts hv₇ hpts => ?_)
      have hfound : Found p d { message := m, pts, dup := true } :=
        found_viewed hid hv₆.grows.messages hm hv₇.events hpts
      exact wpw_pure (.inr ⟨hfound, rfl⟩)
    | none =>
      rw [channelMessageByRandomID_viewed hv₆ hl] at hm
      exact wpw_storePost hl rfl (fun _ => hm) (by simp [Post.channelIndex, hid]) (by simp) hrow rfl
  · rename_i hid
    exact wpw_bind (wpw_pure (wpw_storePost hl rfl (fun h => absurd h hid)
      (by simp [Post.channelIndex, hid]) (by simp) hrow rfl))

theorem sendChannelMessage_spec (times : PostTimes) (limited : Bool) (p : Post) :
    Does caps (.send times limited p) d .posted (sendChannelMessage times limited p) := by
  have hpost (vs : List DB) (hvs : vs.length = if p.randomID ≠ 0 then 1 else 0) :
      locking.wpw (if limited then .fail .floodWait else postChannelMessageAs times p) vs ∅ d
        (Leaves d fun q => Effect caps (.send times limited p) d (.posted q))
        (Refusal caps (.send times limited p)) := by
    split
    · exact wpw_fail trivial
    · refine wpw_mono (postChannelMessageAs_spec times p vs) (fun r vs' _ w _ h => ?_)
      cases r with
      | commit q | rollback q => exact ⟨q, rfl, hvs ▸ h⟩
  unfold sendChannelMessage
  by_cases hid : p.randomID ≠ 0
  · rw [if_pos hid]
    refine wpw_bind (wpw_query fun v hv => ?_)
    cases hm : v.channelMessageByRandomID p.channelID p.randomID with
    | none => exact hpost _ (by simp [hid])
    | some m =>
      refine wpw_bind (wpw_newChannelPostPts (fun _ => trivial) fun v' pts hv' hpts => ?_)
      exact wpw_pure ⟨_, rfl, .inr ⟨found_viewed hid hv.grows.messages hm hv'.events hpts, rfl⟩⟩
  · rw [if_neg hid]
    exact wpw_bind (wpw_pure (hpost _ (by simp [hid])))

/-- Whatever runs beside it, a call ends with its effect or with its refusal. -/
theorem code_effect (caps : Caps) (t : Call) (d : DB) :
    locking.wpw (code caps t) [] ∅ d (Ended (Spec caps) t d)
      fun e vs => Spec caps t d (.error e) vs d := by
  cases t with
  | post times p =>
    refine wpw_answer (wpw_mono (postChannelMessageAs_spec times p []) (fun r vs _ w _ h => ?_))
    cases r with
    | commit q | rollback q => exact ⟨q, rfl, h⟩
  | setRole => exact wpw_answer (setChannelRole_spec _ _ _ _ _)
  | setBan => exact wpw_answer (setChannelBan_spec _ _ _ _ _ _)
  | leave => exact wpw_answer (leaveChannel_spec _ _ _)
  | joinByInvite => exact wpw_answer (joinChannelByInvite_spec _ _)
  | joinByUsername => exact wpw_answer (joinChannelByUsername_spec _ _ _)
  | addMembers => exact wpw_answer (addChannelMembers_spec _ _ _ _)
  | create => exact wpw_answer (createChannel_spec _ _ _ _ _)
  | setSlowMode => exact wpw_answer (setChannelSlowMode_spec _ _ _ _)
  | editUsername => exact wpw_answer (editChannelUsername_spec _ _ _ _)
  | send => exact wpw_answer (sendChannelMessage_spec _ _ _)

theorem effect_of_answer (h : RecordMeets (Spec caps) r)
    {reply : Reply} (hr : r.outcome.answer = some reply) :
    ∃ vs, Effect caps r.call r.pre reply vs r.post := by
  obtain ⟨t, pre, outcome, post⟩ := r
  match outcome, hr, h with
  | .done (.commit _), hr, ⟨vs, h⟩ =>
    cases hr
    exact ⟨vs, h⟩
  | .done (.rollback _), hr, ⟨hpost, vs, h⟩ =>
    cases hr
    have hpost : post = pre := hpost
    exact ⟨vs, hpost ▸ h⟩

/-- A call that committed had its effect, and every other one changed nothing. -/
theorem effect_of_meets (h : RecordMeets (Spec caps) r) :
    (∃ reply vs, r.outcome = .done (.commit reply) ∧ Effect caps r.call r.pre reply vs r.post) ∨
      r.post = r.pre ∧ ∀ reply, r.outcome ≠ .done (.commit reply) := by
  obtain ⟨t, pre, outcome, post⟩ := r
  match outcome, h with
  | .done (.commit reply), ⟨vs, h⟩ => exact .inl ⟨reply, vs, rfl, h⟩
  | .done (.rollback _), h => exact .inr ⟨h.1, by simp⟩
  | .failed _, h => exact .inr ⟨h.1, by simp⟩
  | .aborted, h => exact .inr ⟨h, by simp⟩

end TelegramServer.Channels
