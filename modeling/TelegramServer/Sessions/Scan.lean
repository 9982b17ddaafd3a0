import TelegramServer.Sessions.Presence

/-!
# The scan after a reconnect

When the listener was down, the sweep hands over every connection that is registered,
a batch per tick, by walking the recovery list from wherever the cursor is. Its budget is
the number of connections at the start. A connection that is added goes to the end of the
list, between the cursor and the connections in front of it, and so takes the budget of one
of those.
-/

namespace TelegramServer.Sessions

open Conc List

variable {w : World} {u : Int} {c : Nat}

theorem Steady.prompt {a : Action} (h : Steady w a) : Prompt w a := by
  cases a with
  | evict u c => exact h
  | _ => trivial

/-- What the scan still owes is within what it has left of its round. -/
structure Scanned (w : World) : Prop where
  nodup : w.scan.began.Nodup
  live : ∀ c ∈ w.scan.began, c ∈ w.registry.registered
  owed : ∀ c ∈ w.scan.began, c ∈ w.scan.handed ∨ c ∈ w.registry.upcoming.take w.scan.remaining

theorem mem_take_erase {l : List Nat} {n a b : Nat} (h : a ∈ l.take n) (hne : a ≠ b) :
    a ∈ (l.erase b).take n := by
  induction l generalizing n with
  | nil => simp at h
  | cons x l ih =>
    cases n with
    | zero => simp at h
    | succ n =>
      by_cases hx : x = b
      · subst hx
        rw [erase_cons_head]
        rw [take_succ_cons, mem_cons] at h
        exact take_subset_take_left _ (Nat.le_succ n) (h.resolve_left hne)
      · rw [erase_cons_tail (by simpa using hx), take_succ_cons, mem_cons] at *
        exact h.imp id fun h => ih h

namespace Scanned

theorem initial : Scanned {} where
  nodup := nodup_nil
  live c h := by simp at h
  owed c h := by simp at h

theorem tick (h : Scanned w) (hc : w.registry.Consistent) : Scanned w.tick := by
  unfold World.tick
  split
  · refine
      { nodup := hc.exact.nodup_iff.mp hc.once
        live := fun c hmem => hmem
        owed := fun c hmem => .inr ?_ }
    have hlen : w.registry.totalConns.toNat = w.registry.upcoming.length := by
      rw [hc.total, Int.toNat_natCast, ← hc.exact.length_eq]
      exact (length_rotate ..).symm
    simp only [hlen, take_length]
    exact mem_rotate.mpr (hc.exact.mem_iff.mpr hmem)
  · exact ⟨h.nodup, h.live, h.owed⟩

theorem registered_candidates (r : SessionRegistry) (limit : Nat) :
    (r.dialogFilterRecoveryCandidates limit).2.registered = r.registered := by
  simp only [SessionRegistry.dialogFilterRecoveryCandidates]
  split <;> rfl

theorem mem_take_append {l l' : List Nat} {n a : Nat} (h : a ∈ l.take n) :
    a ∈ (l ++ l').take n := by
  rw [take_append]
  exact mem_append_left _ h

theorem sweep (h : Scanned w) : Scanned w.sweep := by
  unfold World.sweep
  split
  · have hle := Nat.min_le_right dialogFilterRecoveryBatch w.scan.remaining
    generalize min dialogFilterRecoveryBatch w.scan.remaining = limit at *
    obtain ⟨hout, hnext⟩ := w.registry.candidates_eq limit
    refine
      { nodup := h.nodup
        live := fun c hmem => (registered_candidates _ limit).symm ▸ h.live c hmem
        owed := fun c hmem => ?_ }
    simp only [hout, hnext]
    rcases h.owed c hmem with hdone | hin
    · exact .inl (mem_append_left _ hdone)
    by_cases hnow : c ∈ w.registry.upcoming.take limit
    · exact .inl (mem_append_right _ hnow)
    -- the whole list would have been handed over if it were shorter than the batch
    have hlen : limit ≤ w.registry.upcoming.length := by
      by_contra hlt
      rw [take_of_length_le (Nat.le_of_not_le hlt)] at hnow
      exact hnow (mem_of_mem_take hin)
    have hrec : w.registry.recoveryConns.length = w.registry.upcoming.length :=
      (length_rotate ..).symm
    rw [length_take_of_le hlen, if_neg (Nat.lt_irrefl _), hrec, Nat.min_eq_left hlen,
      rotate_eq_drop_append_take hlen]
    right
    rw [← Nat.add_sub_cancel' hle, take_add] at hin
    exact mem_take_append ((mem_append.mp hin).resolve_left hnow)
  · exact ⟨h.nodup, h.live, h.owed⟩

theorem removeConn (h : Scanned w) (hw : w.registry.Consistent)
    (hc : c ∈ w.registry.conns u ∨ c ∉ w.registry.registered) : Scanned (w.removeConn u c) := by
  have hsub : (w.removeConn u c).scan.began ⊆ w.scan.began := fun d hd => by
    simp only [World.removeConn] at hd
    split at hd
    · exact mem_of_mem_erase hd
    · exact hd
  have hne : ∀ d ∈ (w.removeConn u c).scan.began, d ≠ c := fun d hd e => by
    subst e
    simp only [World.removeConn] at hd
    split at hd
    · exact h.nodup.not_mem_erase hd
    · exact (hc.resolve_left ‹_›) (h.live d hd)
  refine
    { nodup := ?_
      live := fun d hd => ?_
      owed := fun d hd => ?_ }
  · simp only [World.removeConn]
    split
    · exact h.nodup.erase c
    · exact h.nodup
  · obtain ⟨v, hv⟩ := SessionRegistry.mem_registered.mp (h.live d (hsub hd))
    refine SessionRegistry.mem_registered.mpr ⟨v, ?_⟩
    change d ∈ (w.registry.remove u c).conns v
    rw [SessionRegistry.conns_remove]
    split
    · rename_i hvu
      exact (mem_erase_of_ne (hne d hd)).mpr (hvu ▸ hv)
    · exact hv
  · refine (h.owed d (hsub hd)).imp id fun hin => ?_
    change d ∈ (w.registry.remove u c).upcoming.take w.scan.remaining
    rw [SessionRegistry.upcoming_remove hw]
    exact mem_take_erase hin (hne d hd)

theorem add {registry : SessionRegistry} (h : Scanned w)
    (hw : w.registry.Consistent) (hadd : w.registry.add u c = (true, registry))
    (hs : Steady w (.add c)) : Scanned { w with registry } := by
  have hcap : (w.registry.conns u).length < maxUserConns := by
    by_contra hle
    rw [SessionRegistry.add, if_pos (Nat.le_of_not_lt hle)] at hadd
    simp at hadd
  obtain rfl : (w.registry.add u c).2 = registry := by rw [hadd]
  refine
    { nodup := h.nodup
      live := fun d hd => ?_
      owed := fun d hd => ?_ }
  · exact (SessionRegistry.registered_add hcap).mem_iff.mpr (mem_append_left _ (h.live d hd))
  · rcases h.owed d hd with hdone | hin
    · exact .inl hdone
    have hcursor : w.registry.recoveryCursor ≤ w.registry.recoveryConns.length := by
      rcases hw.cursor with hlt | ⟨hnil, hzero⟩
      · exact Nat.le_of_lt hlt
      · simp [hnil, hzero]
    have hold : w.registry.upcoming = w.registry.recoveryConns.drop w.registry.recoveryCursor ++
        w.registry.recoveryConns.take w.registry.recoveryCursor :=
      rotate_eq_drop_append_take hcursor
    have hnew : (w.registry.add u c).2.upcoming =
        w.registry.recoveryConns.drop w.registry.recoveryCursor ++
          c :: w.registry.recoveryConns.take w.registry.recoveryCursor := by
      rw [SessionRegistry.add_eq hcap, SessionRegistry.upcoming]
      simp only
      rw [rotate_eq_drop_append_take (by simp; omega), drop_append_of_le_length hcursor,
        take_append_of_le_length hcursor, append_assoc, singleton_append]
    rcases hs with hzero | hfront
    · simp [hzero] at hin
    rcases hfront d hd with hdone | hout
    · exact .inl hdone
    right
    simp only [hnew]
    rw [hold, take_append] at hin
    exact mem_take_append ((mem_append.mp hin).resolve_right fun hin' =>
      hout (mem_of_mem_take hin'))

end Scanned

theorem Scanned.step {w' : World} {a : Action} (hw : Held w) (h : Scanned w) (ha : Steady w a)
    (hs : w.step a = some w') : Scanned w' := by
  cases World.steps_of_step hs with
  | remove hc =>
    have hrem := h.removeConn hw.consistent (hw.owned_or_unregistered hc)
    exact ⟨hrem.nodup, hrem.live, hrem.owed⟩
  | added hc hne hadd =>
    have hadd := h.add hw.consistent hadd ha
    exact ⟨hadd.nodup, hadd.live, hadd.owed⟩
  | evict u c =>
    have hrem := h.removeConn hw.consistent ha
    exact ⟨hrem.nodup, hrem.live, hrem.owed⟩
  | candidates => exact ha.elim
  | tick => exact h.tick hw.consistent
  | sweep => exact h.sweep
  | _ => exact ⟨h.nodup, h.live, h.owed⟩

/-- In every run that is steady while a scan is on, the scan has handed over every connection that
was registered when it began and has been ever since, once nothing of it remains. -/
theorem scan_complete {w : World} (h : machine.Reach Steady {} w) (hdone : w.scan.remaining = 0) :
    ∀ c ∈ w.scan.began, c ∈ w.scan.handed := by
  obtain ⟨-, hscan⟩ := h.invariant (I := fun w => Held w ∧ Scanned w) ⟨.initial, .initial⟩
    fun _ _ _ hi ha hs => ⟨hi.1.step ha.prompt hs, hi.2.step hi.1 ha hs⟩
  intro c hc
  have howed := hscan.owed c hc
  rw [hdone, take_zero] at howed
  exact howed.resolve_right (by simp)

def register (c : Nat) : List Action :=
  [.bind c (c / 20 + 1), .add c, .goOnline c]

theorem scan_complete_three : ∃ w : World, machine.Reach Steady {} w ∧ w.scan.remaining = 0 ∧
    w.scan.began = [0, 2] ∧ (∀ c ∈ w.scan.began, c ∈ w.scan.handed) := by
  obtain ⟨w, hreach, hdone, hbegan⟩ : ∃ w, machine.Reach Steady {} w ∧ w.scan.remaining = 0 ∧
      w.scan.began = [0, 2] :=
    Machine.exists_reach ((List.range 3).flatMap register ++
      [.listenerReconnected, .tick, .bind 1 0, .remove 1, .sweep]) (by decide +kernel)
  exact ⟨w, hreach, hdone, hbegan, scan_complete hreach hdone⟩

/-- The second reconnect finds the cursor at 64 of 129 connections; the one that is added after the
first batch of the new scan takes the place of connection 63, which is never handed over. -/
theorem added_connection_cuts_scan : ∃ w : World, machine.Reach free {} w ∧
    w.scan.epoch = w.clock.globalEpoch ∧ w.scan.remaining = 0 ∧ 63 ∈ w.scan.began ∧
    63 ∉ w.scan.handed :=
  Machine.exists_reach ((List.range 129).flatMap register ++
    [.listenerReconnected, .tick, .sweep, .listenerReconnected, .tick, .sweep] ++ register 129 ++
    [.tick, .sweep, .tick, .sweep]) (by decide +kernel)

end TelegramServer.Sessions
