import TelegramServer.Sessions.FolderSync

/-!
# Fetches cover only what they could have seen

Generations come from one counter, and a capture takes the counter's value. So whatever
was captured before an invalidation drew its generation lies below it, and the record's
coverage only ever rises to a captured value.
-/

namespace TelegramServer.Sessions

open Conc DialogFilterRecovery
open Option (ite_some_none_eq_some ite_none_right_eq_some map_eq_some_iff)

/-! ## Nothing is ahead of the clock -/

structure Folder.Ordered (s : Folder) : Prop where
  epoch : s.clock.globalEpoch ≤ s.clock.sequence
  loads : ∀ clock ∈ s.loads, clock.sequence ≤ s.clock.sequence ∧ clock.globalEpoch ≤ clock.sequence
  drawn : ∀ clock ∈ s.drawn, clock.sequence ≤ s.clock.sequence ∧ clock.globalEpoch ≤ clock.sequence
  captures : ∀ captured ∈ s.captures, captured.generation ≤ s.clock.sequence
  covered : s.recovery.covered ≤ s.clock.sequence

namespace Folder.Ordered

variable {s t : Folder} {a : FolderAction}

theorem advance (h : s.Ordered) (clock : DialogFilterClock)
    (hseq : s.clock.sequence ≤ clock.sequence) (hepoch : clock.globalEpoch ≤ clock.sequence) :
    Ordered { s with clock } where
  epoch := hepoch
  loads c hc := ⟨Nat.le_trans (h.loads c hc).1 hseq, (h.loads c hc).2⟩
  drawn c hc := ⟨Nat.le_trans (h.drawn c hc).1 hseq, (h.drawn c hc).2⟩
  captures k hk := Nat.le_trans (h.captures k hk) hseq
  covered := Nat.le_trans h.covered hseq

theorem of_covered (h : s.Ordered) (hclock : t.clock = s.clock) (hloads : t.loads = s.loads)
    (hdrawn : t.drawn = s.drawn) (hcaptures : t.captures = s.captures)
    (hcovered : t.recovery.covered ≤ s.clock.sequence) : t.Ordered where
  epoch := hclock ▸ h.epoch
  loads := by rw [hloads, hclock]; exact h.loads
  drawn := by rw [hdrawn, hclock]; exact h.drawn
  captures := by rw [hcaptures, hclock]; exact h.captures
  covered := hclock ▸ hcovered

theorem captured_le (h : s.Ordered) {clock : DialogFilterClock} (hclock : clock ∈ s.loads)
    (owner session : Int) : (s.captured clock owner session).generation ≤ s.clock.sequence := by
  have := h.loads clock hclock
  unfold Folder.captured
  split
  · simp only
    omega
  · exact Nat.zero_le _

theorem step (h : s.Ordered) (hstep : s.step a = some t) : t.Ordered := by
  cases a with
  | load =>
    cases hstep
    refine { h with loads := fun clock hclock => ?_ }
    obtain rfl | hclock := List.mem_cons.mp hclock
    · exact ⟨Nat.le_refl _, h.epoch⟩
    · exact h.loads clock hclock
  | draw =>
    cases hstep
    have hnext := h.advance s.clock.next (Nat.le_succ _) (Nat.le_trans h.epoch (Nat.le_succ _))
    refine { hnext with drawn := fun clock hclock => ?_ }
    obtain rfl | hclock := List.mem_cons.mp hclock
    · exact ⟨Nat.le_refl _, hnext.epoch⟩
    · exact hnext.drawn clock hclock
  | listenerReconnected =>
    cases hstep
    exact h.advance _ (Nat.le_succ _) (Nat.le_refl _)
  | ensureBinding clock owner session =>
    obtain ⟨⟨hclock, -⟩, rfl⟩ := ite_some_none_eq_some.mp hstep
    refine h.of_covered rfl rfl rfl rfl ?_
    by_cases hb : s.recovery.binds owner session
    · simpa only [ensureBinding, hb, if_true] using h.covered
    · simpa [ensureBinding, hb] using (h.loads clock hclock).1
  | capture clock owner session =>
    obtain ⟨⟨hclock, -⟩, rfl⟩ := ite_some_none_eq_some.mp hstep
    refine { h with captures := fun k hk => ?_ }
    obtain rfl | hk := List.mem_cons.mp hk
    · exact h.captured_le hclock owner session
    · exact h.captures k hk
  | mark drawn owner session =>
    obtain ⟨⟨hdrawn, -⟩, hstep⟩ := ite_none_right_eq_some.mp hstep
    obtain ⟨recovery, hmark, rfl⟩ := map_eq_some_iff.mp hstep
    refine h.of_covered rfl rfl rfl rfl ?_
    have := h.drawn drawn hdrawn
    cases hinit : s.recovery.initialized with
    | true =>
      obtain ⟨-, -, -, hcovered, -⟩ := mark_initialized hmark hinit
      exact hcovered ▸ h.covered
    | false =>
      obtain ⟨-, hcovered, -⟩ := mark_uninitialized hmark hinit
      simp only [hcovered]
      omega
  | acknowledgeFetch captured clock owner session =>
    obtain ⟨⟨hk, -⟩, rfl⟩ := ite_some_none_eq_some.mp hstep
    refine h.of_covered rfl rfl rfl rfl ?_
    by_cases hb : s.recovery.binds owner session
    · rw [(acknowledgeFetch_binds _ _ hb).2.1]
      exact Nat.max_le.mpr ⟨h.covered, h.captures captured hk⟩
    · simpa [acknowledgeFetch, hb] using h.covered
  | acknowledgeDifference owner session consumeFirst =>
    cases hstep
    refine h.of_covered rfl rfl rfl rfl ?_
    simp only [acknowledgeDifference]
    split <;> exact h.covered
  | claim clock owner session now lost =>
    obtain ⟨-, hstep⟩ := ite_none_right_eq_some.mp hstep
    obtain ⟨recovery, hclaim, rfl⟩ := map_eq_some_iff.mp hstep
    obtain ⟨-, -, -, -, -, hcovered, -⟩ := claimAttempt_eq_some hclaim
    exact h.of_covered rfl rfl rfl rfl (hcovered ▸ h.covered)
  | push c =>
    obtain ⟨-, rfl⟩ := ite_some_none_eq_some.mp hstep
    split
    · exact h.of_covered rfl rfl rfl rfl h.covered
    · exact h
  | pushed =>
    simp only [Folder.step] at hstep
    split at hstep
    · cases hstep
      exact h.of_covered rfl rfl rfl rfl h.covered
    · cases hstep
  | finish c =>
    obtain ⟨-, rfl⟩ := ite_some_none_eq_some.mp hstep
    refine h.of_covered rfl rfl rfl rfl ?_
    simp only [finishAttempt]
    split <;> exact h.covered
  | setOwner userID | setSession id | setKey keyID =>
    obtain ⟨-, rfl⟩ := ite_some_none_eq_some.mp hstep
    exact h.of_covered rfl rfl rfl rfl h.covered
  | reset =>
    obtain ⟨-, rfl⟩ := ite_some_none_eq_some.mp hstep
    exact h.of_covered rfl rfl rfl rfl (Nat.zero_le _)

theorem of_reached (h : FolderReached s) : s.Ordered :=
  h.invariant ⟨Nat.le_refl _, by simp, by simp, by simp, Nat.le_refl _⟩
    fun _ _ _ hs _ hstep => hs.step hstep

end Folder.Ordered

/-! ## One binding -/

namespace FolderAction

/-- The action belongs to this binding of the connection: nothing is bound anew. -/
def Keeps (owner session : Int) : FolderAction → Prop
  | .ensureBinding _ o ss | .capture _ o ss | .mark _ o ss | .acknowledgeFetch _ _ o ss
  | .acknowledgeDifference o ss _ | .claim _ o ss _ _ => o = owner ∧ ss = session
  | .setOwner _ | .setSession _ | .setKey _ | .reset => False
  | .load | .draw | .listenerReconnected | .push _ | .pushed | .finish _ => True

instance (owner session : Int) (a : FolderAction) : Decidable (a.Keeps owner session) := by
  unfold Keeps
  split <;> infer_instance

/-- The action acknowledges a capture that took generation `g` or a later one. -/
def Fetches (g : Nat) : FolderAction → Prop
  | .acknowledgeFetch captured _ _ _ => g ≤ captured.generation
  | _ => False

instance (g : Nat) (a : FolderAction) : Decidable (a.Fetches g) := by
  unfold Fetches
  split <;> infer_instance

end FolderAction

namespace Folder

variable {s t u : Folder} {a : FolderAction} {owner session : Int} {g : Nat}

/-- The connection knows of generation `g`, by a mark or by the replica's epoch. -/
def Told (s : Folder) (g : Nat) : Prop :=
  g ≤ max s.recovery.generation s.clock.globalEpoch

def Pending (s : Folder) : Prop := s.recovery.pending s.clock.globalEpoch = true

instance (s : Folder) : Decidable s.Pending := inferInstanceAs (Decidable (_ = true))

/-- The operation starts the retry budget anew: it bound the record, or it found nothing pending at
the epoch that it had read. -/
def Restarts (s : Folder) : FolderAction → Prop
  | .ensureBinding _ owner session => s.recovery.binds owner session = false
  | .mark drawn _ _ =>
    s.recovery.initialized = false ∨ s.recovery.pending drawn.globalEpoch = false
  | .acknowledgeFetch captured clock owner session =>
    s.recovery.binds owner session ∧ (s.recovery.acknowledgeFetch owner session
      captured.generation clock.globalEpoch).pending clock.globalEpoch = false
  | .reset => True
  | _ => False

instance (s : Folder) (a : FolderAction) : Decidable (s.Restarts a) := by
  unfold Restarts
  split <;> infer_instance

theorem Told.pending (h : s.Told g) (hcovered : s.recovery.covered < g) : s.Pending :=
  pending_iff.mpr (Nat.lt_of_lt_of_le hcovered h)

/-- What an action of the binding does to generation, epoch and coverage. -/
structure Follows (owner session : Int) (s : Folder) (a : FolderAction) (t : Folder) : Prop where
  binds : t.recovery.binds owner session
  generation : s.recovery.generation ≤ t.recovery.generation
  epoch : s.clock.globalEpoch ≤ t.clock.globalEpoch
  covered : t.recovery.covered = s.recovery.covered ∨ ∃ captured clock,
    a = .acknowledgeFetch captured clock owner session ∧ captured ∈ s.captures ∧
      t.recovery.covered = max s.recovery.covered captured.generation

theorem Follows.of_recovery (hclock : t.clock = s.clock) (hrecovery : t.recovery = s.recovery)
    (hb : s.recovery.binds owner session) : Follows owner session s a t where
  binds := hrecovery ▸ hb
  generation := hrecovery ▸ Nat.le_refl _
  epoch := hclock ▸ Nat.le_refl _
  covered := .inl (by rw [hrecovery])

theorem Ordered.follows (h : s.Ordered) (hb : s.recovery.binds owner session)
    (ha : a.Keeps owner session) (hstep : s.step a = some t) : Follows owner session s a t := by
  cases a with
  | load =>
    cases hstep
    exact .of_recovery rfl rfl hb
  | draw =>
    cases hstep
    exact ⟨hb, Nat.le_refl _, Nat.le_refl _, .inl rfl⟩
  | listenerReconnected =>
    cases hstep
    exact ⟨hb, Nat.le_refl _, Nat.le_trans h.epoch (Nat.le_succ _), .inl rfl⟩
  | ensureBinding clock o ss =>
    obtain ⟨rfl, rfl⟩ := ha
    obtain ⟨-, rfl⟩ := ite_some_none_eq_some.mp hstep
    exact .of_recovery rfl (ensureBinding_of_binds hb) hb
  | capture clock o ss =>
    obtain ⟨-, rfl⟩ := ite_some_none_eq_some.mp hstep
    exact .of_recovery rfl rfl hb
  | mark drawn o ss =>
    obtain ⟨-, hstep⟩ := ite_none_right_eq_some.mp hstep
    obtain ⟨recovery, hmark, rfl⟩ := map_eq_some_iff.mp hstep
    obtain ⟨howner, hsession, hinit⟩ := binds_iff.mp hb
    obtain ⟨howner', hsession', hinit', hcovered, hgeneration, -⟩ :=
      mark_initialized hmark hinit
    refine ⟨?_, ?_, Nat.le_refl _, .inl hcovered⟩
    · exact binds_iff.mpr ⟨howner'.trans howner, hsession'.trans hsession, hinit'⟩
    · exact hgeneration ▸ Nat.le_max_left _ _
  | acknowledgeFetch captured clock o ss =>
    obtain ⟨rfl, rfl⟩ := ha
    obtain ⟨⟨hk, -⟩, rfl⟩ := ite_some_none_eq_some.mp hstep
    obtain ⟨hb', hcovered, hgeneration, -⟩ :=
      acknowledgeFetch_binds captured.generation clock.globalEpoch hb
    exact ⟨hb', Nat.le_of_eq hgeneration.symm, Nat.le_refl _,
      .inr ⟨captured, clock, rfl, hk, hcovered⟩⟩
  | acknowledgeDifference o ss consumeFirst =>
    cases hstep
    simp only [acknowledgeDifference]
    split
    · exact ⟨hb, Nat.le_refl _, Nat.le_refl _, .inl rfl⟩
    · exact .of_recovery rfl rfl hb
  | claim clock o ss now lost =>
    obtain ⟨rfl, rfl⟩ := ha
    obtain ⟨-, hstep⟩ := ite_none_right_eq_some.mp hstep
    obtain ⟨recovery, hclaim, rfl⟩ := map_eq_some_iff.mp hstep
    obtain ⟨-, -, -, -, hb', hcovered, hgeneration, -⟩ :=
      claimAttempt_eq_some hclaim
    exact ⟨hb', Nat.le_of_eq hgeneration.symm, Nat.le_refl _, .inl hcovered⟩
  | push c =>
    obtain ⟨-, rfl⟩ := ite_some_none_eq_some.mp hstep
    split
    · exact .of_recovery rfl rfl hb
    · exact .of_recovery rfl rfl hb
  | pushed =>
    simp only [Folder.step] at hstep
    split at hstep
    · cases hstep
      exact .of_recovery rfl rfl hb
    · cases hstep
  | finish c =>
    obtain ⟨-, rfl⟩ := ite_some_none_eq_some.mp hstep
    simp only [finishAttempt]
    split
    · exact ⟨hb, Nat.le_refl _, Nat.le_refl _, .inl rfl⟩
    · exact .of_recovery rfl rfl hb
  | setOwner userID | setSession id | setKey keyID | reset => exact ha.elim

theorem Follows.told (h : Follows owner session s a t) (hg : s.Told g) : t.Told g := by
  have := h.generation
  have := h.epoch
  unfold Told at *
  omega

theorem Follows.covered_lt (h : Follows owner session s a t) (hcovered : s.recovery.covered < g) :
    t.recovery.covered < g ∨ ∃ captured clock,
      a = .acknowledgeFetch captured clock owner session ∧ captured ∈ s.captures ∧
        g ≤ captured.generation := by
  obtain heq | ⟨captured, clock, ha, hk, heq⟩ := h.covered
  · exact .inl (heq ▸ hcovered)
  · by_cases hg : g ≤ captured.generation
    · exact .inr ⟨captured, clock, ha, hk, hg⟩
    · exact .inl (heq ▸ Nat.max_lt.mpr ⟨hcovered, Nat.lt_of_not_le hg⟩)

def PendingFor (s : Folder) (g : Nat) : Prop := s.Told g ∧ s.recovery.covered < g

/-- A run of the binding from `s` to `t`. -/
structure Leads (owner session : Int) (s t : Folder) : Prop where
  ordered : t.Ordered
  binds : t.recovery.binds owner session
  told : ∀ g, s.Told g → t.Told g

theorem Ordered.leads (h : s.Ordered) (hb : s.recovery.binds owner session)
    (hrun : folderMachine.Reach (fun _ a => a.Keeps owner session) s t) :
    Leads owner session s t :=
  have hinit : Leads owner session s s := ⟨h, hb, fun _ hg => hg⟩
  hrun.invariant hinit fun _ _ _ ht ha hstep =>
    have hfollows := ht.ordered.follows ht.binds ha hstep
    ⟨ht.ordered.step hstep, hfollows.binds, fun g hg => hfollows.told (ht.told g hg)⟩

theorem Ordered.covered_lt (h : s.Ordered) (hb : s.recovery.binds owner session)
    (hcovered : s.recovery.covered < g)
    (hrun : folderMachine.Reach (fun _ a => a.Keeps owner session ∧ ¬ a.Fetches g) s t) :
    t.recovery.covered < g := by
  have hall : t.Ordered ∧ t.recovery.binds owner session ∧ t.recovery.covered < g := by
    refine hrun.invariant (I := fun u => u.Ordered ∧ u.recovery.binds owner session ∧
      u.recovery.covered < g) ⟨h, hb, hcovered⟩ fun u a v hu ha hstep => ?_
    have hfollows := hu.1.follows hu.2.1 ha.1 hstep
    refine ⟨hu.1.step hstep, hfollows.binds, ?_⟩
    obtain hlt | ⟨captured, clock, rfl, -, hg⟩ := hfollows.covered_lt hu.2.2
    · exact hlt
    · exact (ha.2 hg).elim
  exact hall.2.2

theorem told_of_mark (hb : s.recovery.binds owner session) {drawn : DialogFilterClock}
    (hstep : s.step (.mark drawn owner session) = some t) : t.Told drawn.sequence := by
  obtain ⟨-, hstep⟩ := ite_none_right_eq_some.mp hstep
  obtain ⟨recovery, hmark, rfl⟩ := map_eq_some_iff.mp hstep
  have hinit := (binds_iff.mp hb).2.2
  have hgeneration := (mark_initialized hmark hinit).2.2.2.2.1
  simp only [Told, hgeneration]
  omega

end Folder

/-- An invalidation or a reconnect takes the next generation of an initialized binding. Every
earlier capture lies below it; the connection knows of it from the reconnect or the mark on, and
until a capture as new is acknowledged it stays pending. It stops being pending for it only by
such an acknowledgement, of a capture that was not there before. -/
theorem earlier_fetch_leaves_pending {s₁ s₂ : Folder} {a : FolderAction} {owner session : Int}
    (hs : FolderReached s₁) (hb : s₁.recovery.binds owner session)
    (ha : a = .draw ∨ a = .listenerReconnected) (hstep : s₁.step a = some s₂) :
    let g := s₂.clock.sequence
    let kept := fun (_ : Folder) (b : FolderAction) => b.Keeps owner session
    (∀ captured ∈ s₁.captures, captured.generation < g) ∧
    (a = .listenerReconnected → ∀ t, folderMachine.Reach kept s₂ t → t.Told g) ∧
    (∀ s drawn t u, folderMachine.Reach kept s₂ s → drawn.sequence = g →
      s.step (.mark drawn owner session) = some t → folderMachine.Reach kept t u → u.Told g) ∧
    (∀ t, folderMachine.Reach (fun _ b => b.Keeps owner session ∧ ¬ b.Fetches g) s₂ t →
      t.recovery.covered < g ∧ (t.Told g → t.Pending)) ∧
    (∀ s b t, folderMachine.Reach kept s₂ s → b.Keeps owner session → s.step b = some t →
      s.PendingFor g → t.PendingFor g ∨ ∃ captured clock,
        b = .acknowledgeFetch captured clock owner session ∧ g ≤ captured.generation ∧
          captured ∉ s₁.captures) := by
  intro g kept
  have h₁ := Folder.Ordered.of_reached hs
  have h₂ := h₁.step hstep
  have hkeeps : a.Keeps owner session := by
    obtain rfl | rfl := ha <;> trivial
  have hfollows := h₁.follows hb hkeeps hstep
  have hseq : g = s₁.clock.sequence + 1 := by
    obtain rfl | rfl := ha <;> obtain rfl := Option.some.inj hstep <;> rfl
  have hcaptures : ∀ captured ∈ s₁.captures, captured.generation < g := fun captured hk =>
    hseq ▸ Nat.lt_succ_of_le (h₁.captures captured hk)
  have hcovered : s₂.recovery.covered < g := by
    have hsame : s₂.recovery = s₁.recovery := by
      obtain rfl | rfl := ha <;> obtain rfl := Option.some.inj hstep <;> rfl
    rw [hsame, hseq]
    exact Nat.lt_succ_of_le h₁.covered
  refine ⟨hcaptures, fun hreconnect t ht => ?_, fun s drawn t u hrun hdrawn hmark hu => ?_,
    fun t ht => ?_, fun s b t hrun hkeeps hb' hpending => ?_⟩
  · refine (h₂.leads hfollows.binds ht).told g ?_
    subst hreconnect
    cases hstep
    exact Nat.le_max_right _ _
  · have hs := h₂.leads hfollows.binds hrun
    have ht := hs.ordered.follows (a := .mark drawn owner session) hs.binds ⟨rfl, rfl⟩ hmark
    exact ((hs.ordered.step hmark).leads ht.binds hu).told g
      (hdrawn ▸ Folder.told_of_mark hs.binds hmark)
  · have hlt := h₂.covered_lt hfollows.binds hcovered ht
    exact ⟨hlt, fun htold => htold.pending hlt⟩
  · have hs := h₂.leads hfollows.binds hrun
    have ht := hs.ordered.follows hs.binds hkeeps hb'
    obtain hlt | ⟨captured, clock, hack, -, hg⟩ := ht.covered_lt hpending.2
    · exact .inl ⟨ht.told hpending.1, hlt⟩
    · exact .inr ⟨captured, clock, hack, hg, fun hk => Nat.not_le.mpr (hcaptures captured hk) hg⟩

/-- A connection of user 1 in session 5 that has captured and not yet read. -/
def capturedFolder : Folder :=
  { owner := 1, sessionID := 5, bindings := 2
    recovery := { owner := 1, session := 5, initialized := true, firstDifference := true }
    loads := [{}]
    captures := [{ owner := 1, session := 5, firstDifference := true }] }

def drawnFolder : Folder :=
  { capturedFolder with clock := ⟨1, 0⟩, drawn := [⟨1, 0⟩] }

/-- The invalidation is marked, then the fetch that was under way is acknowledged. -/
theorem earlier_fetch_leaves_pending_marked : ∃ t : Folder, FolderReached capturedFolder ∧
    capturedFolder.recovery.binds 1 5 ∧ capturedFolder.step .draw = some drawnFolder ∧
    folderMachine.run (fun _ b => b.Keeps 1 5 ∧ ¬ b.Fetches 1) drawnFolder
      [.mark ⟨1, 0⟩ 1 5, .acknowledgeFetch ⟨1, 5, 0, true, false⟩ {} 1 5] = some t ∧
    t.Pending := by
  have hcapture : folderMachine.run free {} [.setOwner 1, .reset, .setSession 5,
      .reset, .load, .ensureBinding {} 1 5, .capture {} 1 5] = some capturedFolder := by
    decide +kernel
  have hs : FolderReached capturedFolder := Machine.reach_of_run hcapture
  have hb : capturedFolder.recovery.binds 1 5 := by decide
  have hrun : folderMachine.run (fun _ b => b.Keeps 1 5 ∧ ¬ b.Fetches 1) drawnFolder
      [.mark ⟨1, 0⟩ 1 5, .acknowledgeFetch ⟨1, 5, 0, true, false⟩ {} 1 5] =
        some { drawnFolder with
          recovery := { capturedFolder.recovery with generation := 1, pushEligible := true } } := by
    decide +kernel
  obtain ⟨-, -, -, hpending, -⟩ := earlier_fetch_leaves_pending hs hb (.inl rfl) rfl
  exact ⟨_, hs, hb, rfl, hrun, (hpending _ (Machine.reach_of_run hrun)).2 (Nat.le_refl _)⟩

end TelegramServer.Sessions
