import TelegramServer.Sessions.FolderCoverage

/-!
# Claimed pushes

Claim ids come from a counter of the connection, and a push writes only while the record
still holds its claim. So a push that lost its claim, by a fetch that covered everything
or by a new binding, can neither write nor disturb the claim that came after it.
-/

namespace TelegramServer.Sessions

open Conc DialogFilterRecovery List
open Option (ite_none_right_eq_some map_eq_some_iff ite_some_none_eq_some)

def FolderAction.isClaim : FolderAction → Bool
  | .claim .. => true
  | _ => false

variable {captured : Capture} {clock drawn : DialogFilterClock} {owner session : Int}
  {recovery : DialogFilterRecovery}

namespace Folder

variable {s t : Folder} {a : FolderAction} {c c' : Claim}

def Holds (s : Folder) (c : Claim) : Prop :=
  s.recovery.inFlight ∧ s.recovery.claimID = c.claimID

/-! ## What an action does to the record's claim -/

structure Granted (s t : Folder) : Prop where
  free : s.recovery.inFlight = false
  pushes : s.recovery.attempts < 3
  attempts : t.recovery.attempts = s.recovery.attempts + 1
  fresh : s.claimCounter < t.recovery.claimID
  counter : t.claimCounter = t.recovery.claimID

structure Passed (s : Folder) (a : FolderAction) (t : Folder) : Prop where
  counter : t.claimCounter = s.claimCounter
  claim : t.recovery.inFlight → s.recovery.inFlight ∧ t.recovery.claimID = s.recovery.claimID
  attempts_le : t.recovery.attempts ≤ s.recovery.attempts
  attempts : ¬ s.Restarts a → t.recovery.attempts = s.recovery.attempts
  holds : ¬ s.Restarts a → ∀ c, s.Holds c →
    t.Holds c ∨ ∃ c', a = .finish c' ∧ c'.claimID = c.claimID

theorem Passed.of_same (hcounter : t.claimCounter = s.claimCounter)
    (hfl : t.recovery.inFlight = s.recovery.inFlight)
    (hid : t.recovery.claimID = s.recovery.claimID)
    (hattempts : t.recovery.attempts = s.recovery.attempts) : Passed s a t where
  counter := hcounter
  claim h := ⟨hfl ▸ h, hid⟩
  attempts_le := Nat.le_of_eq hattempts
  attempts _ := hattempts
  holds _ _ h := .inl ⟨hfl ▸ h.1, hid ▸ h.2⟩

theorem Passed.of_restart (hcounter : t.claimCounter = s.claimCounter) (hrestart : s.Restarts a)
    (hfl : t.recovery.inFlight = false) (hattempts : t.recovery.attempts = 0) : Passed s a t where
  counter := hcounter
  claim h := absurd h (by simp [hfl])
  attempts_le := hattempts ▸ Nat.zero_le _
  attempts h := absurd hrestart h
  holds h := absurd hrestart h

theorem step_mark (hstep : s.step (.mark drawn owner session) = some t) :
    Passed s (.mark drawn owner session) t := by
  obtain ⟨-, hstep⟩ := ite_none_right_eq_some.mp hstep
  obtain ⟨recovery, hmark, rfl⟩ := map_eq_some_iff.mp hstep
  cases hinit : s.recovery.initialized with
  | true =>
    obtain ⟨-, -, -, -, -, hfl, hid, hle, hsame⟩ :=
      mark_initialized hmark hinit
    refine ⟨rfl, fun h => ⟨hfl ▸ h, hid⟩, hle, fun hno => hsame ?_, fun _ c h => .inl ?_⟩
    · simpa [Restarts, hinit] using hno
    · exact ⟨hfl ▸ h.1, hid ▸ h.2⟩
  | false =>
    obtain ⟨-, -, -, hfl, hattempts⟩ := mark_uninitialized hmark hinit
    exact .of_restart rfl (.inl hinit) hfl hattempts

theorem step_acknowledgeFetch (hstep : s.step (.acknowledgeFetch captured clock owner session) =
    some t) : Passed s (.acknowledgeFetch captured clock owner session) t := by
  obtain ⟨-, rfl⟩ := ite_some_none_eq_some.mp hstep
  by_cases hb : s.recovery.binds owner session
  · obtain ⟨-, -, -, hsome, hnone⟩ := acknowledgeFetch_binds
      captured.generation clock.globalEpoch hb
    cases hp : (s.recovery.acknowledgeFetch owner session captured.generation
        clock.globalEpoch).pending clock.globalEpoch with
    | true =>
      obtain ⟨hfl, hid, hattempts⟩ := hsome hp
      exact .of_same rfl hfl hid hattempts
    | false => exact .of_restart rfl ⟨hb, hp⟩ (hnone hp).1 (hnone hp).2
  · simp only [acknowledgeFetch, hb]
    exact .of_same rfl rfl rfl rfl

theorem step_finish (hstep : s.step (.finish c) = some t) : Passed s (.finish c) t := by
  obtain ⟨-, rfl⟩ := ite_some_none_eq_some.mp hstep
  by_cases hheld : s.recovery.claimed c.owner c.session c.claimID
  · simp only [finishAttempt, hheld, if_true]
    simp only [claimed, decide_eq_true_eq] at hheld
    exact ⟨rfl, by simp, Nat.le_refl _, fun _ => rfl,
      fun _ c' hc' => .inr ⟨c, rfl, hheld.2.2.2.symm.trans hc'.2⟩⟩
  · simp only [finishAttempt, hheld]
    exact .of_same rfl rfl rfl rfl

/-- Every action either is a grant, or passes without taking up a claim. -/
theorem step_claim (hstep : s.step a = some t) :
    a.isClaim = true ∧ Granted s t ∨ a.isClaim = false ∧ Passed s a t := by
  cases a with
  | load | draw | listenerReconnected =>
    cases hstep
    exact .inr ⟨rfl, .of_same rfl rfl rfl rfl⟩
  | ensureBinding clock owner session =>
    obtain ⟨-, rfl⟩ := ite_some_none_eq_some.mp hstep
    by_cases hb : s.recovery.binds owner session
    · rw [ensureBinding_of_binds hb]
      exact .inr ⟨rfl, .of_same rfl rfl rfl rfl⟩
    · simp only [ensureBinding, hb]
      exact .inr ⟨rfl, .of_restart rfl (Bool.eq_false_iff.mpr hb) rfl rfl⟩
  | mark drawn owner session => exact .inr ⟨rfl, step_mark hstep⟩
  | acknowledgeFetch captured clock owner session => exact .inr ⟨rfl, step_acknowledgeFetch hstep⟩
  | acknowledgeDifference owner session consumeFirst =>
    cases hstep
    simp only [acknowledgeDifference]
    split
    · exact .inr ⟨rfl, .of_same rfl rfl rfl rfl⟩
    · exact .inr ⟨rfl, .of_same rfl rfl rfl rfl⟩
  | claim clock owner session now lost =>
    obtain ⟨-, hstep⟩ := ite_none_right_eq_some.mp hstep
    obtain ⟨recovery, hclaim, rfl⟩ := map_eq_some_iff.mp hstep
    obtain ⟨-, hfree, -, hlt, -, -, -, -, hid, hattempts⟩ :=
      claimAttempt_eq_some hclaim
    exact .inl ⟨rfl, hfree, hlt, hattempts, by simp only [hid]; omega, hid.symm⟩
  | push c =>
    obtain ⟨-, rfl⟩ := ite_some_none_eq_some.mp hstep
    split
    · exact .inr ⟨rfl, .of_same rfl rfl rfl rfl⟩
    · exact .inr ⟨rfl, .of_same rfl rfl rfl rfl⟩
  | pushed =>
    simp only [Folder.step] at hstep
    split at hstep
    · cases hstep
      exact .inr ⟨rfl, .of_same rfl rfl rfl rfl⟩
    · cases hstep
  | finish c => exact .inr ⟨rfl, step_finish hstep⟩
  | capture | setOwner | setSession | setKey =>
    obtain ⟨-, rfl⟩ := ite_some_none_eq_some.mp hstep
    exact .inr ⟨rfl, .of_same rfl rfl rfl rfl⟩
  | reset =>
    obtain ⟨-, rfl⟩ := ite_some_none_eq_some.mp hstep
    exact .inr ⟨rfl, .of_restart rfl trivial rfl rfl⟩

/-! ## What holds of the claims -/

structure Exclusive (s : Folder) : Prop where
  issued : ∀ c ∈ s.claims, c.claimID ≤ s.claimCounter
  distinct : (s.claims.map Claim.claimID).Nodup
  current : s.recovery.inFlight → s.recovery.claimID ≤ s.claimCounter
  attempts : s.recovery.attempts ≤ 3
  /-- No binding has changed since the record's claim was granted. -/
  bound : s.lock ≠ .rebinding → ∀ c ∈ s.claims, s.Holds c → c.binding = s.bindings
  writing : ∀ c, s.lock = .writing c →
    s.owner = c.owner ∧ s.sessionID = c.session ∧ c.binding = s.bindings
  written : ∀ w ∈ s.written, w.1.binding = w.2

namespace Exclusive

variable (h : s.Exclusive)

include h

theorem eq_of_holds (hc : c ∈ s.claims) (hc' : c' ∈ s.claims)
    (hid : c.claimID = c'.claimID) : c = c' :=
  inj_on_of_nodup_map h.distinct hc hc' hid

theorem claim (hid : s.claimCounter < c.claimID)
    (hrecovery : recovery.claimID = c.claimID) (hattempts : recovery.attempts ≤ 3)
    (hbinding : c.binding = s.bindings) :
    Exclusive { s with recovery, claimCounter := c.claimID, claims := c :: s.claims } where
  issued c' hc' := by
    obtain rfl | hc' := mem_cons.mp hc'
    · exact Nat.le_refl _
    · exact Nat.le_trans (h.issued c' hc') (Nat.le_of_lt hid)
  distinct := by
    refine nodup_cons.mpr ⟨fun hmem => ?_, h.distinct⟩
    obtain ⟨c', hc', heq⟩ := mem_map.mp hmem
    have := h.issued c' hc'
    omega
  current _ := Nat.le_of_eq hrecovery
  attempts := hattempts
  bound _ c' hc' hholds := by
    obtain rfl | hc' := mem_cons.mp hc'
    · exact hbinding
    · have hle := h.issued c' hc'
      have heq : c.claimID = c'.claimID := hrecovery.symm.trans hholds.2
      omega
  writing := h.writing
  written := h.written

theorem finish (c : Claim) : Exclusive { s with claims := s.claims.erase c } where
  issued c' hc' := h.issued c' (mem_of_mem_erase hc')
  distinct := h.distinct.sublist (erase_sublist.map _)
  current := h.current
  attempts := h.attempts
  bound hlock c' hc' := h.bound hlock c' (mem_of_mem_erase hc')
  writing := h.writing
  written := h.written

/-- Binding anew: nothing is written and no claim counts until the record is reset. -/
theorem rebind {sessionID authKeyID : Int} {bindings : Nat} :
    Exclusive { s with owner, sessionID, authKeyID, bindings, lock := .rebinding } where
  issued := h.issued
  distinct := h.distinct
  current := h.current
  attempts := h.attempts
  bound hlock := absurd rfl hlock
  writing _ hlock := WriteLock.noConfusion hlock
  written := h.written

theorem passed (hpassed : Passed s a { s with recovery }) : Exclusive { s with recovery } where
  issued := h.issued
  distinct := h.distinct
  current hfl := (hpassed.claim hfl).2 ▸ h.current (hpassed.claim hfl).1
  attempts := Nat.le_trans hpassed.attempts_le h.attempts
  bound hlock c hc hholds :=
    h.bound hlock c hc ⟨(hpassed.claim hholds.1).1, (hpassed.claim hholds.1).2 ▸ hholds.2⟩
  writing := h.writing
  written := h.written

theorem push (hc : c ∈ s.claims) (hfree : s.lock = .free) (hcurrent : s.current c) :
    Exclusive { s with lock := .writing c, written := (c, s.bindings) :: s.written } := by
  simp only [Folder.current, claimed, decide_eq_true_eq] at hcurrent
  obtain ⟨howner, hsession, -, -, -, hholds⟩ := hcurrent
  have hbinding := h.bound (by simp [hfree]) c hc hholds
  refine { h with bound := fun _ => h.bound (by simp [hfree]), writing := ?_, written := ?_ }
  · rintro c' ⟨⟩
    exact ⟨howner, hsession, hbinding⟩
  · intro w hw
    obtain rfl | hw := mem_cons.mp hw
    · exact hbinding
    · exact h.written w hw

theorem step (hstep : s.step a = some t) : t.Exclusive := by
  have hpassed : a.isClaim = false → Passed s a t := fun hno =>
    (step_claim hstep).elim (fun h => absurd h.1 (by simp [hno])) (·.2)
  cases a with
  | load | draw | listenerReconnected =>
    cases hstep
    exact { h with }
  | acknowledgeDifference owner session consumeFirst =>
    cases hstep
    exact h.passed (hpassed rfl)
  | ensureBinding clock owner session | acknowledgeFetch captured clock owner session =>
    obtain ⟨-, rfl⟩ := ite_some_none_eq_some.mp hstep
    exact h.passed (hpassed rfl)
  | capture clock owner session =>
    obtain ⟨-, rfl⟩ := ite_some_none_eq_some.mp hstep
    exact { h with }
  | mark drawn owner session =>
    obtain ⟨-, hstep⟩ := ite_none_right_eq_some.mp hstep
    obtain ⟨recovery, -, rfl⟩ := map_eq_some_iff.mp hstep
    exact h.passed (hpassed rfl)
  | claim clock owner session now lost =>
    obtain ⟨-, hstep⟩ := ite_none_right_eq_some.mp hstep
    obtain ⟨recovery, hgranted, rfl⟩ := map_eq_some_iff.mp hstep
    obtain ⟨-, -, -, hlt, -, -, -, -, hid, hattempts⟩ :=
      claimAttempt_eq_some hgranted
    exact h.claim (c := ⟨owner, session, s.claimCounter + lost + 1, s.bindings⟩)
      (show _ < s.claimCounter + lost + 1 by omega) hid (by omega) rfl
  | push c =>
    obtain ⟨⟨hc, hfree⟩, rfl⟩ := ite_some_none_eq_some.mp hstep
    split
    · exact h.push hc hfree ‹_›
    · exact h
  | pushed =>
    simp only [Folder.step] at hstep
    split at hstep
    · rename_i hlock
      cases hstep
      refine { h with bound := fun _ => h.bound (by simp [hlock]), writing := ?_ }
      intro c' hc'
      cases hc'
    · cases hstep
  | finish c =>
    obtain ⟨-, rfl⟩ := ite_some_none_eq_some.mp hstep
    have hrecord : Passed s (.finish c) { s with
        recovery := s.recovery.finishAttempt c.owner c.session c.claimID } := { hpassed rfl with }
    exact (h.passed hrecord).finish c
  | setOwner userID | setSession id | setKey keyID =>
    obtain ⟨-, rfl⟩ := ite_some_none_eq_some.mp hstep
    exact h.rebind
  | reset =>
    obtain ⟨-, rfl⟩ := ite_some_none_eq_some.mp hstep
    refine ⟨h.issued, h.distinct, fun hfl => ?_, Nat.zero_le _, fun _ c _ hholds => ?_,
      fun _ hlock => ?_, h.written⟩
    · cases hfl
    · cases hholds.1
    · cases hlock

omit h in
theorem of_reached (h : FolderReached s) : s.Exclusive :=
  h.invariant ⟨by simp, by simp, by simp [reset], Nat.zero_le _, by simp,
    by simp, by simp⟩ fun _ _ _ hs _ hstep => hs.step hstep

end Exclusive

/-- The push has been granted its claim and does not hold it any more. -/
def Lost (s : Folder) (c : Claim) : Prop := c.claimID ≤ s.claimCounter ∧ ¬ s.Holds c

theorem Lost.step (h : s.Lost c) (hstep : s.step a = some t) : t.Lost c := by
  obtain ⟨hid, hlost⟩ := h
  obtain ⟨-, hgranted⟩ | ⟨-, hpassed⟩ := step_claim hstep
  · have hfresh := hgranted.fresh
    have hcounter := hgranted.counter
    refine ⟨by omega, fun hholds => ?_⟩
    have heq := hholds.2
    omega
  · refine ⟨hpassed.counter ▸ hid, fun hholds => hlost ?_⟩
    obtain ⟨hfl, heq⟩ := hpassed.claim hholds.1
    exact ⟨hfl, heq ▸ hholds.2⟩

theorem Lost.run (h : s.Lost c) (hrun : folderMachine.Reach free s t) : t.Lost c :=
  hrun.invariant (I := fun u => u.Lost c) h fun _ _ _ hu _ hstep => hu.step hstep

/-- Between restarts every grant uses up one of the attempts. -/
theorem countP_isClaim_le {as : List FolderAction}
    (hrun : folderMachine.run (fun u a => ¬ u.Restarts a) s as = some t)
    (hattempts : s.recovery.attempts ≤ 3) :
    s.recovery.attempts + as.countP FolderAction.isClaim ≤ 3 := by
  induction as generalizing s with
  | nil => simpa using hattempts
  | cons a as ih =>
    obtain ⟨u, hno, hstep, hrun⟩ := Machine.run_cons.mp hrun
    obtain ⟨hclaim, hgranted⟩ | ⟨hclaim, hpassed⟩ := step_claim hstep
    · have hu := hgranted.attempts
      have hlt := hgranted.pushes
      have := ih hrun (by omega)
      simp only [countP_cons, hclaim, if_true]
      omega
    · have hu := hpassed.attempts hno
      have := ih hrun (by omega)
      simp only [countP_cons, hclaim, Bool.false_eq_true, if_false]
      omega

theorem finish_of_not_holds (h : ¬ s.Holds c) (hstep : s.step (.finish c) = some t) :
    t = { s with claims := s.claims.erase c } := by
  obtain ⟨-, rfl⟩ := ite_some_none_eq_some.mp hstep
  have hno : ¬ s.recovery.claimed c.owner c.session c.claimID := fun hheld => by
    simp only [claimed, decide_eq_true_eq] at hheld
    exact h hheld.2.2
  simp only [finishAttempt, hno, Bool.false_eq_true, if_false]

theorem push_of_not_holds (h : ¬ s.Holds c) (hstep : s.step (.push c) = some t) : t = s := by
  obtain ⟨-, rfl⟩ := ite_some_none_eq_some.mp hstep
  have hno : ¬ s.current c := fun hcurrent => by
    simp only [Folder.current, claimed, decide_eq_true_eq] at hcurrent
    exact h hcurrent.2.2.2.2.2
  exact if_neg hno

theorem not_pending_of_mark (hinit : s.recovery.initialized)
    (hepoch : drawn.globalEpoch = s.clock.globalEpoch)
    (h : s.Restarts (.mark drawn owner session)) :
    ¬ s.Pending := by
  obtain hno | hno := h
  · simp [hinit] at hno
  · simp [Pending, ← hepoch, hno]

theorem not_pending_of_acknowledgeFetch (hepoch : clock.globalEpoch = s.clock.globalEpoch)
    (h : s.Restarts (.acknowledgeFetch captured clock owner session))
    (hstep : s.step (.acknowledgeFetch captured clock owner session) = some t) : ¬ t.Pending := by
  obtain ⟨-, rfl⟩ := ite_some_none_eq_some.mp hstep
  simp [Pending, ← hepoch, h.2]

end Folder

/-! ## Bounded and exclusive pushes -/

/-- The pushes of one connection, from any state it can be in. -/
theorem claimed_pushes_exclusive {s : Folder} (hs : FolderReached s) :
    -- at most one unfinished push holds the claim, and none does where one is granted
    (∀ c ∈ s.claims, ∀ c' ∈ s.claims, s.Holds c → s.Holds c' → c = c') ∧
    (∀ a t, a.isClaim → s.step a = some t → ∀ c ∈ s.claims, ¬ s.Holds c ∧ ¬ t.Holds c) ∧
    -- a claim ends with its push or by a restart, and it does not come back
    (∀ c ∈ s.claims, s.Holds c → ∀ a t, s.step a = some t →
      t.Holds c ∨ a = .finish c ∨ s.Restarts a) ∧
    (∀ c ∈ s.claims, ¬ s.Holds c → ∀ t, folderMachine.Reach free s t → ¬ t.Holds c) ∧
    -- three claims between restarts
    (∀ as t, folderMachine.run (fun u a => ¬ u.Restarts a) s as = some t →
      as.countP FolderAction.isClaim ≤ 3) ∧
    -- what a restart found, where its epoch is the replica's
    (∀ drawn owner session, s.recovery.initialized → drawn.globalEpoch = s.clock.globalEpoch →
      s.Restarts (.mark drawn owner session) → ¬ s.Pending) ∧
    (∀ captured clock owner session t, clock.globalEpoch = s.clock.globalEpoch →
      s.Restarts (.acknowledgeFetch captured clock owner session) →
      s.step (.acknowledgeFetch captured clock owner session) = some t → ¬ t.Pending) ∧
    -- without the claim, finishing changes nothing and pushing writes nothing
    (∀ c, ¬ s.Holds c → ∀ t,
      (s.step (.finish c) = some t → t = { s with claims := s.claims.erase c }) ∧
      (s.step (.push c) = some t → t = s)) ∧
    -- what is written was claimed for this owner and session, in this binding
    (∀ c, s.lock = .writing c →
      s.owner = c.owner ∧ s.sessionID = c.session ∧ c.binding = s.bindings) ∧
    (∀ w ∈ s.written, w.1.binding = w.2) := by
  have h := Folder.Exclusive.of_reached hs
  refine ⟨fun c hc c' hc' hh hh' => ?_, fun a t ha hstep c hc => ?_, fun c hc hh a t hstep => ?_,
    fun c hc hlost t hrun => ?_, fun as t hrun => ?_,
    fun _ _ _ => Folder.not_pending_of_mark,
    fun _ _ _ _ _ => Folder.not_pending_of_acknowledgeFetch,
    fun c hno t => ⟨Folder.finish_of_not_holds hno, Folder.push_of_not_holds hno⟩,
    h.writing, h.written⟩
  · exact h.eq_of_holds hc hc' (hh.2.symm.trans hh'.2)
  · obtain ⟨-, hgranted⟩ | ⟨hno, -⟩ := Folder.step_claim hstep
    · have hlost : s.Lost c := ⟨h.issued c hc, fun hh => absurd hh.1 (by simp [hgranted.free])⟩
      exact ⟨hlost.2, (hlost.step hstep).2⟩
    · simp [ha] at hno
  · obtain ⟨-, hgranted⟩ | ⟨-, hpassed⟩ := Folder.step_claim hstep
    · exact absurd hh.1 (by simp [hgranted.free])
    · by_cases hrestart : s.Restarts a
      · exact .inr (.inr hrestart)
      · obtain hkept | ⟨c', rfl, hid⟩ := hpassed.holds hrestart c hh
        · exact .inl hkept
        · have hc' : c' ∈ s.claims := (ite_none_right_eq_some.mp hstep).1
          exact .inr (.inl (by rw [h.eq_of_holds hc' hc hid]))
  · have hl : s.Lost c := ⟨h.issued c hc, hlost⟩
    exact (hl.run hrun).2
  · have := Folder.countP_isClaim_le hrun h.attempts
    omega

/-- A connection of user 1 in session 5 that an invalidation has marked. -/
def markedFolder : Folder :=
  { clock := ⟨1, 0⟩, owner := 1, sessionID := 5, bindings := 2
    recovery :=
      { owner := 1, session := 5, generation := 1, initialized := true, pushEligible := true }
    loads := [{}], drawn := [⟨1, 0⟩] }

theorem reached_markedFolder : FolderReached markedFolder := by
  have hrun : folderMachine.run free {} [.setOwner 1, .reset, .setSession 5, .reset,
      .load, .ensureBinding {} 1 5, .acknowledgeDifference 1 5 true, .draw, .mark ⟨1, 0⟩ 1 5] =
        some markedFolder := by
    decide +kernel
  exact Machine.reach_of_run hrun

/-- The first push lost its claim to a fetch, and after the next invalidation a second was
claimed. -/
def twicePushed : Folder :=
  { markedFolder with
    clock := ⟨2, 0⟩
    recovery := { markedFolder.recovery with
      generation := 2, covered := 1, cycle := true, attempts := 1, nextAttempt := some 23
      inFlight := true, claimID := 2 }
    claimCounter := 2
    loads := [⟨2, 0⟩, ⟨1, 0⟩, {}], drawn := [⟨2, 0⟩, ⟨1, 0⟩]
    captures := [⟨1, 5, 1, false, true⟩]
    claims := [⟨1, 5, 2, 2⟩, ⟨1, 5, 1, 2⟩] }

/-- The stale push writes nothing; the current one is written. -/
theorem claimed_pushes_exclusive_stale : FolderReached twicePushed ∧
    (∀ t, twicePushed.step (.push ⟨1, 5, 1, 2⟩) = some t → t = twicePushed) ∧
    ∃ t, twicePushed.step (.push ⟨1, 5, 2, 2⟩) = some t ∧ t.written = [(⟨1, 5, 2, 2⟩, 2)] := by
  have hrun : folderMachine.run free markedFolder [.load, .claim ⟨1, 0⟩ 1 5 0 0,
      .capture ⟨1, 0⟩ 1 5, .acknowledgeFetch ⟨1, 5, 1, false, true⟩ ⟨1, 0⟩ 1 5, .draw,
      .mark ⟨2, 0⟩ 1 5, .load, .claim ⟨2, 0⟩ 1 5 3 0] = some twicePushed := by
    decide +kernel
  have hs : FolderReached twicePushed := reached_markedFolder.trans (Machine.reach_of_run hrun)
  have hlost : ¬ twicePushed.Holds ⟨1, 5, 1, 2⟩ := fun h => absurd h.2 (by decide)
  obtain ⟨-, -, -, -, -, -, -, hstale, -⟩ := claimed_pushes_exclusive hs
  exact ⟨hs, fun t => (hstale _ hlost t).2, _, rfl, rfl⟩

/-- The listener reconnects between an acknowledgement's read of the clock and its swap: the fetch
renews the budget although the connection is pending all along. -/
theorem fourth_claim_while_pending : ∃ (s t : Folder) (as : List FolderAction), FolderReached s ∧
    folderMachine.run (fun u a => u.Pending ∧ a.Keeps 1 5) s as = some t ∧ t.Pending ∧
    as.countP FolderAction.isClaim = 4 := by
  have hrun : (folderMachine.run (fun u a => u.Pending ∧ a.Keeps 1 5) markedFolder
      [.load, .claim ⟨1, 0⟩ 1 5 0 0, .finish ⟨1, 5, 1, 2⟩, .claim ⟨1, 0⟩ 1 5 20 0,
        .finish ⟨1, 5, 2, 2⟩, .claim ⟨1, 0⟩ 1 5 60 0, .finish ⟨1, 5, 3, 2⟩, .capture ⟨1, 0⟩ 1 5,
        .listenerReconnected, .acknowledgeFetch ⟨1, 5, 1, false, true⟩ ⟨1, 0⟩ 1 5, .load,
        .claim ⟨2, 2⟩ 1 5 61 0]).map (fun t => decide t.Pending) = some true := by
    decide +kernel
  obtain ⟨t, hrun, hpending⟩ := map_eq_some_iff.mp hrun
  exact ⟨markedFolder, t, _, reached_markedFolder, hrun, of_decide_eq_true hpending, rfl⟩

end TelegramServer.Sessions
