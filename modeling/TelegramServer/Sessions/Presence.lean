import TelegramServer.Sessions.Serve

/-!
# Who is registered, and who is told

A connection is registered under at most the user that its serve loop has in
`registeredUser`. While no delivery removes it in another user's name, the registry's three
representations agree, and the last status callback of a user agrees with the registry once
no `bind` is running, unless an offline callback comes after the user's next connection was
announced.
-/

namespace TelegramServer.Sessions

open Conc List
open SessionRegistry (conns mem_registered conns_remove conns_add)

variable {w : World} {ok : World → Action → Prop} {c : Nat} {registry : SessionRegistry}
  {as : List Action} {a : Action} {p : Phase} {reg userID : Int} {w' : World}

def Phase.registered : Phase → Option Int
  | .bound reg | .owned reg _ => some reg
  | .added userID => some userID
  | .removed _ _ | .offline _ _ | .cleared _ | .refused => none

/-- A registered connection is known to its serve loop as such. -/
structure Held (w : World) : Prop where
  consistent : w.registry.Consistent
  holder : ∀ c u, c ∈ w.registry.conns u → (w.phase c).registered = some u ∧ u ≠ 0

/-- A delivery that drops a connection names the user who has it, unless nobody has. -/
def Prompt (w : World) : Action → Prop
  | .evict u c => c ∈ w.registry.conns u ∨ c ∉ w.registry.registered
  | _ => True

/-- While a scan is on, connections are added only when those of the scan that lie in front of the
cursor have been handed over; evictions are prompt; and nobody else moves the cursor. -/
def Steady (w : World) : Action → Prop
  | .add _ => w.scan.remaining = 0 ∨ ∀ c ∈ w.scan.began,
      c ∈ w.scan.handed ∨ c ∉ w.registry.recoveryConns.take w.registry.recoveryCursor
  | .evict u c => c ∈ w.registry.conns u ∨ c ∉ w.registry.registered
  | .candidates _ => False
  | _ => True

theorem consistent_empty : ({} : SessionRegistry).Consistent where
  total := rfl
  nonempty u := by simp
  cap u := by simp [conns]
  once := nodup_nil
  exact := List.Perm.refl _
  cursor := .inr ⟨rfl, rfl⟩

theorem SessionRegistry.Consistent.nodup_conns {r : SessionRegistry} (h : r.Consistent) (u : Int) :
    (r.conns u).Nodup :=
  (nodup_append.mp ((r.registered_perm u).nodup_iff.mp (h.exact.nodup_iff.mp h.once))).1

theorem conns_candidates (r : SessionRegistry) (limit : Nat) (u : Int) :
    (r.dialogFilterRecoveryCandidates limit).2.conns u = r.conns u := by
  simp only [SessionRegistry.dialogFilterRecoveryCandidates]
  split <;> rfl

namespace Held

theorem initial : Held {} where
  consistent := consistent_empty
  holder c u h := by simp [conns] at h

variable (h : Held w)

include h

theorem not_mem_registered (hc : (w.phase c).registered = none) : c ∉ w.registry.registered := by
  intro hmem
  obtain ⟨u, hu⟩ := mem_registered.mp hmem
  have := (h.holder c u hu).1
  simp [hc] at this

theorem setPhase (hp : ∀ u, u ≠ 0 → (w.phase c).registered = some u → p.registered = some u) :
    Held (w.setPhase c p) where
  consistent := h.consistent
  holder d u hd := by
    obtain ⟨hreg, hne⟩ := h.holder d u hd
    refine ⟨?_, hne⟩
    by_cases hdc : d = c
    · subst hdc
      simpa [World.setPhase] using hp u hne hreg
    · simpa [World.setPhase, hdc] using hreg

theorem removeConn {u : Int} (hc : c ∈ w.registry.conns u ∨ c ∉ w.registry.registered) :
    Held (w.removeConn u c) where
  consistent := h.consistent.remove hc
  holder d v hd := by
    refine h.holder d v ?_
    rw [World.removeConn, conns_remove] at hd
    split at hd
    · rename_i hv
      rw [hv]
      exact mem_of_mem_erase hd
    · exact hd

theorem candidates (limit : Nat) :
    Held { w with registry := (w.registry.dialogFilterRecoveryCandidates limit).2 } where
  consistent := h.consistent.candidates limit
  holder d u hd := h.holder d u (conns_candidates .. ▸ hd)

theorem setOwner (u : Int) : Held (w.setOwner c u) := ⟨h.consistent, h.holder⟩

theorem setStatus (u : Int) (online : Bool) : Held (w.setStatus u online) :=
  ⟨h.consistent, h.holder⟩

/-- A connection that its serve loop is about to deregister is where the loop has it, or nowhere. -/
theorem owned_or_unregistered (hc : w.phase c = .owned reg userID) :
    c ∈ w.registry.conns reg ∨ c ∉ w.registry.registered := by
  refine or_iff_not_imp_right.mpr fun hmem => ?_
  obtain ⟨u, hu⟩ := mem_registered.mp (not_not.mp hmem)
  have hreg := (h.holder c u hu).1
  rw [hc] at hreg
  exact Option.some.inj hreg ▸ hu

theorem remove (hc : w.phase c = .owned reg userID) :
    Held ((w.removeConn reg c).setPhase c (.removed reg userID)) := by
  have hout : ∀ v, c ∉ (w.registry.remove reg c).conns v := fun v hmem => by
    rw [conns_remove] at hmem
    split at hmem
    · exact (h.consistent.nodup_conns reg).not_mem_erase hmem
    · rename_i hv
      have hreg := (h.holder c v hmem).1
      rw [hc] at hreg
      exact hv (Option.some.inj hreg).symm
  have hrem := h.removeConn (h.owned_or_unregistered hc)
  refine ⟨hrem.consistent, fun d v hd => ?_⟩
  obtain ⟨hreg, hne⟩ := hrem.holder d v hd
  have hdc : d ≠ c := fun e => hout v (e ▸ hd)
  exact ⟨by simpa [World.setPhase, hdc] using hreg, hne⟩

theorem add (hc : w.phase c = .cleared userID) (hne : userID ≠ 0)
    (hadd : w.registry.add userID c = (true, registry)) :
    Held ({ w with registry }.setPhase c (.added userID)) := by
  have hout : c ∉ w.registry.registered := h.not_mem_registered (by rw [hc]; rfl)
  have hcap : (w.registry.conns userID).length < maxUserConns := by
    by_contra hle
    rw [SessionRegistry.add, if_pos (Nat.le_of_not_lt hle)] at hadd
    simp at hadd
  obtain rfl : (w.registry.add userID c).2 = registry := by rw [hadd]
  refine ⟨h.consistent.add hout, fun d v hd => ?_⟩
  have hconns := conns_add (c := c) hcap v
  change d ∈ (w.registry.add userID c).2.conns v at hd
  rw [hconns] at hd
  by_cases hdc : d = c
  · subst hdc
    split at hd
    · rename_i hv
      exact ⟨by simp [World.setPhase, Phase.registered, hv], hv ▸ hne⟩
    · exact absurd (mem_registered.mpr ⟨v, hd⟩) hout
  · have hold : d ∈ w.registry.conns v := by
      split at hd
      · rename_i hv
        rw [hv]
        simpa [hdc] using hd
      · exact hd
    obtain ⟨hreg, hv⟩ := h.holder d v hold
    exact ⟨by simpa [World.setPhase, hdc] using hreg, hv⟩

end Held

theorem Held.step (h : Held w) (ha : Prompt w a) (hs : w.step a = some w') : Held w' := by
  cases World.steps_of_step hs with
  | @bind c reg userID hc =>
    refine (h.setOwner userID).setPhase fun u hne hu => ?_
    have hreg : reg = u := by simpa [World.setOwner, hc, Phase.registered] using hu
    simp [hreg, hne, Phase.registered]
  | remove hc => exact h.remove hc
  | check hc => exact h.setPhase fun u _ hu => by simp [hc, Phase.registered] at hu
  | goOffline hc =>
    exact (h.setStatus _ false).setPhase fun u _ hu => by
      simp [World.setStatus, hc, Phase.registered] at hu
  | added hc hne hadd => exact h.add hc hne hadd
  | unbound hc | refused hc => exact h.setPhase fun u _ hu => by simp [hc, Phase.registered] at hu
  | disown hc =>
    exact (h.setOwner 0).setPhase fun u _ hu => by simp [World.setOwner, hc, Phase.registered] at hu
  | goOnline hc =>
    exact (h.setStatus _ true).setPhase fun u _ hu => by
      simpa [World.setStatus, hc, Phase.registered] using hu
  | evict u c =>
    have hrem := h.removeConn ha
    exact ⟨hrem.consistent, hrem.holder⟩
  | candidates limit => exact h.candidates limit
  | snapshot | fail | invalidate | listenerReconnected => exact ⟨h.consistent, h.holder⟩
  | tick =>
    unfold World.tick
    split <;> exact ⟨h.consistent, h.holder⟩
  | sweep =>
    unfold World.sweep
    split
    · have hcand := h.candidates (min dialogFilterRecoveryBatch w.scan.remaining)
      exact ⟨hcand.consistent, hcand.holder⟩
    · exact ⟨h.consistent, h.holder⟩

theorem held_of_reach (h : machine.Reach Prompt {} w) : Held w :=
  h.invariant .initial fun _ _ _ hi ha hs => hi.step ha hs

/-- In every run whose evictions name the user who has the connection, or come when nobody has,
the map, the recovery list, its cursor and the counter agree; and an eviction keeps them so
exactly if it does that. -/
theorem registry_consistent {w : World} (h : machine.Reach Prompt {} w) : w.registry.Consistent ∧
      ∀ u c w', w.step (.evict u c) = some w' →
        (w'.registry.Consistent ↔ c ∈ w.registry.conns u ∨ c ∉ w.registry.registered) := by
  have hheld := held_of_reach h
  refine ⟨hheld.consistent, fun u c w' hs => ⟨fun hcons => ?_, fun hc =>
    (hheld.step (a := .evict u c) hc hs).consistent⟩⟩
  by_contra hneg
  obtain ⟨hin, hreg⟩ := not_or.mp hneg
  cases World.steps_of_step hs
  exact hheld.consistent.not_remove hin (not_not.mp hreg) hcons

instance (w : World) (a : Action) : Decidable (Prompt w a) := by
  unfold Prompt
  split <;> infer_instance

instance (w : World) (a : Action) : Decidable (Steady w a) := by
  unfold Steady
  split <;> infer_instance

def failedPush : List Action :=
  [.bind 1 1, .add 1, .goOnline 1, .snapshot 1, .fail 1 1]

theorem registry_consistent_evicted : ∃ w : World, machine.Reach Prompt {} w ∧
    w.registry.conns 1 = [] ∧ w.registry.Consistent := by
  obtain ⟨w, hreach, hconns⟩ : ∃ w, machine.Reach Prompt {} w ∧ w.registry.conns 1 = [] :=
    Machine.exists_reach (failedPush ++ [.evict 1 1]) (by decide +kernel)
  exact ⟨w, hreach, hconns, (registry_consistent hreach).1⟩

/-- The connection is bound to user 2 before the delivery for user 1 removes it: it stays in the
map without being in the recovery list. -/
theorem stale_eviction_loses_recovery : ∃ w : World, machine.Reach free {} w ∧
    w.registry.conns 2 = [1] ∧ w.registry.recoveryConns = [] ∧ w.registry.totalConns = 1 :=
  Machine.exists_reach (failedPush ++
    [.bind 1 2, .remove 1, .check 1, .goOffline 1, .add 1, .goOnline 1, .evict 1 1]) (by
    decide +kernel)

/-! ## Presence -/

/-- An offline callback comes while the user has no connection, or before the online callback of
the connection that came in between; and no delivery removes a connection. -/
def Timely (w : World) : Action → Prop
  | .goOffline c => ∀ reg userID, w.phase c = .offline reg userID →
      w.registry.conns reg = [] ∨ ∃ d, w.phase d = .added reg
  | .evict _ _ => False
  | _ => True

/-- What the users were told last, against the registry and the callbacks still to come. -/
structure Announced (w : World) : Prop where
  member : ∀ c u, (w.phase c).registered = some u → u ≠ 0 → c ∈ w.registry.conns u
  named : ∀ c u, w.phase c = .added u → u ≠ 0
  online : ∀ u, w.registry.conns u ≠ [] → w.status u = some true ∨ ∃ c, w.phase c = .added u
  offline : ∀ u, w.status u = some true → w.registry.conns u ≠ [] ∨
    ∃ c userID, w.phase c = .removed u userID ∨ w.phase c = .offline u userID

namespace Announced

theorem initial : Announced {} where
  member c u h hne := by
    have : (0 : Int) = u := by simpa [Phase.registered] using h
    exact absurd this.symm hne
  named c u h := by simp at h
  online u h := by simp [conns] at h
  offline u h := by simp at h

theorem status_setStatus_of_ne {u v : Int} {online : Bool} (h : u ≠ v) :
    (w.setStatus v online).status u = w.status u :=
  Function.update_of_ne h ..

variable (h : Announced w)

include h

theorem congr (v : World) (hphase : v.phase = w.phase) (hstatus : v.status = w.status)
    (hconns : ∀ u, v.registry.conns u = w.registry.conns u) : Announced v where
  member := by simpa only [hphase, hconns] using h.member
  named := by simpa only [hphase] using h.named
  online := by simpa only [hphase, hstatus, hconns] using h.online
  offline := by simpa only [hphase, hstatus, hconns] using h.offline

/-- One serve loop moves on to `p`, after the registry and the callbacks came to `v`. -/
theorem move (v : World) (hphase : v.phase = w.phase)
    (hconns : ∀ d u, d ≠ c → d ∈ w.registry.conns u → d ∈ v.registry.conns u)
    (hself : ∀ u, p.registered = some u → u ≠ 0 → c ∈ v.registry.conns u)
    (hnamed : ∀ u, p = .added u → u ≠ 0)
    (honline : ∀ u, v.registry.conns u ≠ [] → v.status u = some true ∨ p = .added u ∨
      w.phase c ≠ .added u ∧ ∃ d, w.phase d = .added u)
    (hoffline : ∀ u, v.status u = some true → v.registry.conns u ≠ [] ∨
      (∃ x, p = .removed u x ∨ p = .offline u x) ∨
      (∀ x, w.phase c ≠ .removed u x ∧ w.phase c ≠ .offline u x) ∧
        ∃ d x, w.phase d = .removed u x ∨ w.phase d = .offline u x) : Announced
          (v.setPhase c p) := by
  have hself' : (v.setPhase c p).phase c = p := Function.update_self ..
  have hother : ∀ d, d ≠ c → (v.setPhase c p).phase d = w.phase d := fun d hdc =>
    (Function.update_of_ne hdc ..).trans (congrFun hphase d)
  refine ⟨fun d u hd hne => ?_, fun d u hd => ?_, fun u hu => ?_, fun u hu => ?_⟩
  · by_cases hdc : d = c
    · rw [hdc, hself'] at hd
      exact hdc ▸ hself u hd hne
    · exact hconns d u hdc (h.member d u (hother d hdc ▸ hd) hne)
  · by_cases hdc : d = c
    · rw [hdc, hself'] at hd
      exact hnamed u hd
    · exact h.named d u (hother d hdc ▸ hd)
  · rcases honline u hu with hs | hp | ⟨hc, d, hd⟩
    · exact .inl hs
    · exact .inr ⟨c, hself'.trans hp⟩
    · exact .inr ⟨d, (hother d fun e => hc (e ▸ hd)).trans hd⟩
  · rcases hoffline u hu with hs | ⟨x, hp⟩ | ⟨hc, d, x, hd⟩
    · exact .inl hs
    · exact .inr ⟨c, x, hself'.symm ▸ hp⟩
    · have hdc : d ≠ c := fun e => not_or.mpr (hc x) (e ▸ hd)
      exact .inr ⟨d, x, (hother d hdc).symm ▸ hd⟩

theorem setPhase (hreg : ∀ u, u ≠ 0 → p.registered = some u → (w.phase c).registered = some u)
    (hp : ∀ u, p ≠ .added u) (hon : ∀ u, w.phase c ≠ .added u)
    (hoff : ∀ u v, w.phase c ≠ .removed u v ∧ w.phase c ≠ .offline u v) :
    Announced (w.setPhase c p) :=
  h.move w rfl (fun _ _ _ hd => hd) (fun u hu hne => h.member c u (hreg u hne hu) hne)
    (fun u hu => absurd hu (hp u))
    (fun u hu => (h.online u hu).imp_right fun hd => .inr ⟨hon u, hd⟩)
    fun u hu => (h.offline u hu).imp_right fun hd => .inr ⟨hoff u, hd⟩

theorem remove (hc : w.phase c = .owned reg userID) :
    Announced ((w.removeConn reg c).setPhase c (.removed reg userID)) := by
  have hconns : ∀ u, (w.removeConn reg c).registry.conns u =
      if u = reg then (w.registry.conns reg).erase c else w.registry.conns u := fun u =>
    conns_remove ..
  refine h.move (w.removeConn reg c) rfl (fun d u hdc hd => ?_) nofun nofun (fun u hu => ?_)
    fun u hu => ?_
  · rw [hconns]
    split
    · rename_i hu
      exact (mem_erase_of_ne hdc).mpr (hu ▸ hd)
    · exact hd
  · have hold : w.registry.conns u ≠ [] := fun hnil => hu (by
      rw [hconns]
      split
      · rename_i hur
        simp [← hur, hnil]
      · exact hnil)
    exact (h.online u hold).imp_right fun hd => .inr ⟨by simp [hc], hd⟩
  · by_cases hur : u = reg
    · exact .inr (.inl ⟨userID, .inl (by rw [hur])⟩)
    · rw [hconns, if_neg hur]
      exact (h.offline u hu).imp_right fun hd => .inr ⟨by simp [hc], hd⟩

theorem check (hc : w.phase c = .removed reg userID) : Announced (w.setPhase c
      (if w.registry.conns reg = [] then .offline reg userID else .cleared userID)) := by
  refine h.move w rfl (fun _ _ _ hd => hd) (fun u hu => ?_) (fun u hu => ?_)
    (fun u hu => (h.online u hu).imp_right fun hd => .inr ⟨by simp [hc], hd⟩) fun u hu => ?_
  · split at hu <;> cases hu
  · split at hu <;> cases hu
  · by_cases hur : u = reg
    · by_cases hnil : w.registry.conns reg = []
      · exact .inr (.inl ⟨userID, .inr (by rw [if_pos hnil, hur])⟩)
      · exact .inl (hur ▸ hnil)
    · exact (h.offline u hu).imp_right fun hd => .inr ⟨by simp [hc, Ne.symm hur], hd⟩

theorem goOffline (hc : w.phase c = .offline reg userID)
    (ht : w.registry.conns reg = [] ∨ ∃ d, w.phase d = .added reg) :
    Announced ((w.setStatus reg false).setPhase c (.cleared userID)) := by
  refine h.move (w.setStatus reg false) rfl (fun _ _ _ hd => hd) nofun nofun (fun u hu => ?_)
    fun u hu => ?_
  · by_cases hur : u = reg
    · exact .inr (.inr ⟨by simp [hc], hur ▸ ht.resolve_left (hur ▸ hu)⟩)
    · rw [status_setStatus_of_ne hur]
      exact (h.online u hu).imp_right fun hd => .inr ⟨by simp [hc], hd⟩
  · have hur : u ≠ reg := by
      rintro rfl
      simp [World.setStatus] at hu
    rw [status_setStatus_of_ne hur] at hu
    exact (h.offline u hu).imp_right fun hd => .inr ⟨by simp [hc, Ne.symm hur], hd⟩

theorem add (hc : w.phase c = .cleared userID) (hne : userID ≠ 0)
    (hadd : w.registry.add userID c = (true, registry)) :
    Announced ({ w with registry }.setPhase c (.added userID)) := by
  have hconns : ∀ u, registry.conns u =
      if u = userID then w.registry.conns userID ++ [c] else w.registry.conns u := fun u => by
    have hcap : (w.registry.conns userID).length < maxUserConns := by
      by_contra hle
      rw [SessionRegistry.add, if_pos (Nat.le_of_not_lt hle)] at hadd
      simp at hadd
    rw [← conns_add hcap, hadd]
  refine h.move { w with registry } rfl (fun d u _ hd => ?_) (fun u hu _ => ?_) (fun u hu => ?_)
    (fun u hu => ?_) fun u hu => ?_ <;> simp only [hconns] at *
  · split
    · rename_i hur
      exact mem_append_left _ (hur ▸ hd)
    · exact hd
  · cases hu
    simp
  · cases hu
    exact hne
  · by_cases hur : u = userID
    · exact .inr (.inl (by rw [hur]))
    · rw [if_neg hur] at hu
      exact (h.online u hu).imp_right fun hd => .inr ⟨by simp [hc], hd⟩
  · refine (h.offline u hu).imp (fun hs => ?_) fun hd => .inr ⟨by simp [hc], hd⟩
    split <;> simp [hs]

theorem goOnline (hc : w.phase c = .added userID) :
    Announced ((w.setStatus userID true).setPhase c (.bound userID)) := by
  have hmem : ∀ u, some userID = some u → u ≠ 0 → c ∈ w.registry.conns u := fun u hu =>
    h.member c u (by rw [hc, ← hu]; rfl)
  refine h.move (w.setStatus userID true) rfl (fun _ _ _ hd => hd) hmem nofun (fun u hu => ?_)
    fun u hu => ?_
  · by_cases hur : u = userID
    · exact .inl (by simp [World.setStatus, hur])
    · rw [status_setStatus_of_ne hur]
      exact (h.online u hu).imp_right fun hd => .inr ⟨by simp [hc, Ne.symm hur], hd⟩
  · by_cases hur : u = userID
    · exact .inl (ne_nil_of_mem (hmem u (by rw [hur]) (hur ▸ h.named c _ hc)))
    · rw [status_setStatus_of_ne hur] at hu
      exact (h.offline u hu).imp_right fun hd => .inr ⟨by simp [hc], hd⟩

end Announced

theorem Announced.step (h : Announced w) (ha : Timely w a) (hs : w.step a = some w') :
    Announced w' := by
  cases World.steps_of_step hs with
  | @bind c reg userID hc =>
    refine (h.congr (w.setOwner c userID) rfl rfl fun _ => rfl).setPhase (fun u _ hu => ?_)
      (fun u => ?_) (fun u => ?_) fun u v => ?_
    · split at hu
      · simp [Phase.registered] at hu
      · simpa [World.setOwner, hc, Phase.registered] using hu
    · split <;> nofun
    · simp [World.setOwner, hc]
    · simp [World.setOwner, hc]
  | remove hc => exact h.remove hc
  | check hc => exact h.check hc
  | goOffline hc => exact h.goOffline hc (ha _ _ hc)
  | unbound hc =>
    refine h.setPhase (fun u hne hu => ?_) nofun (by simp [hc]) (by simp [hc])
    exact absurd (by simpa [Phase.registered] using hu.symm) hne
  | added hc hne hadd => exact h.add hc hne hadd
  | refused hc =>
    exact h.setPhase (fun u _ hu => by simp [Phase.registered] at hu) nofun (by simp [hc])
      (by simp [hc])
  | @disown c hc =>
    refine (h.congr (w.setOwner c 0) rfl rfl fun _ => rfl).setPhase (fun u hne hu => ?_)
      nofun (by simp [World.setOwner, hc]) (by simp [World.setOwner, hc])
    exact absurd (by simpa [Phase.registered] using hu.symm) hne
  | goOnline hc => exact h.goOnline hc
  | evict => exact ha.elim
  | candidates limit => exact h.congr _ rfl rfl (conns_candidates _ _)
  | snapshot | fail | invalidate | listenerReconnected => exact h.congr _ rfl rfl fun _ => rfl
  | tick =>
    unfold World.tick
    split <;> exact h.congr _ rfl rfl fun _ => rfl
  | sweep =>
    unfold World.sweep
    split
    · exact h.congr _ rfl rfl (conns_candidates _ _)
    · exact h.congr _ rfl rfl fun _ => rfl

/-- In every run whose offline callbacks come in time, once no `bind` is running, a user was last
reported online exactly if the registry holds a connection of that user. -/
theorem presence_agrees {w : World} (h : machine.Reach Timely {} w)
    (hdone : ∀ c, ∃ reg, w.phase c = .bound reg) (u : Int) :
    w.status u = some true ↔ w.registry.conns u ≠ [] := by
  have ha : Announced w := h.invariant .initial fun _ _ _ hi ha hs => hi.step ha hs
  constructor
  · intro hs
    rcases ha.offline u hs with hconns | ⟨c, v, hc⟩
    · exact hconns
    · obtain ⟨reg, hreg⟩ := hdone c
      simp [hreg] at hc
  · intro hconns
    rcases ha.online u hconns with hs | ⟨c, hc⟩
    · exact hs
    · obtain ⟨reg, hreg⟩ := hdone c
      simp [hreg] at hc

def Action.loop : Action → Option Nat
  | .bind c _ | .remove c | .check c | .goOffline c | .add c | .disown c | .goOnline c => some c
  | _ => none

theorem phase_step (hs : w.step a = some w') (hc : a.loop ≠ some c) : w'.phase c = w.phase c := by
  have hset : ∀ (v : World) (d : Nat) (p : Phase), some d ≠ some c →
      (v.setPhase d p).phase c = v.phase c := fun v d p hne =>
    Function.update_of_ne (fun e => hne (congrArg some e.symm)) ..
  cases World.steps_of_step hs with
  | bind | remove | check | goOffline | unbound | added | refused | disown | goOnline =>
    exact hset _ _ _ hc
  | snapshot | fail | evict | candidates | invalidate | listenerReconnected => rfl
  | tick =>
    unfold World.tick
    split <;> rfl
  | sweep =>
    unfold World.sweep
    split <;> rfl

theorem phase_run [∀ w a, Decidable (ok w a)]
    (hrun : machine.run ok w as = some w') (hc : ∀ a ∈ as, a.loop ≠ some c) :
    w'.phase c = w.phase c := by
  induction as generalizing w with
  | nil =>
    obtain rfl : w = w' := by simpa [Machine.run] using hrun
    rfl
  | cons a as ih =>
    obtain ⟨v, -, hs, hrest⟩ := Machine.run_cons.mp hrun
    rw [ih hrest fun b hb => hc b (mem_cons_of_mem _ hb), phase_step hs (hc a mem_cons_self)]

def Action.quiet : Action → Bool
  | .goOffline _ | .evict _ _ => false
  | _ => true

theorem timely_of_quiet (h : a.quiet = true) : Timely w a := by
  cases a with
  | goOffline | evict => simp [Action.quiet] at h
  | _ => trivial

def handover : List Action :=
  [.bind 1 1, .add 1, .goOnline 1, .bind 1 0, .remove 1, .check 1, .bind 2 1, .add 2]

theorem bound_of_handover [∀ w a, Decidable (ok w a)]
    (has : ∀ a ∈ as, a.loop = some 1 ∨ a.loop = some 2)
    (hrun : machine.run ok {} as = some w) (h1 : w.phase 1 = .bound 0) (h2 : w.phase 2 = .bound 1)
    (c : Nat) : ∃ reg, w.phase c = .bound reg := by
  by_cases hc1 : c = 1
  · exact ⟨0, hc1 ▸ h1⟩
  by_cases hc2 : c = 2
  · exact ⟨1, hc2 ▸ h2⟩
  refine ⟨0, phase_run hrun fun a ha => ?_⟩
  rcases has a ha with hl | hl <;> simp [hl, Ne.symm hc1, Ne.symm hc2]

/-- Told in time: the old connection's callback comes before the new one's. -/
theorem presence_agrees_handover : ∃ w : World, machine.Reach Timely {} w ∧
    (∀ c, ∃ reg, w.phase c = .bound reg) ∧
    (w.status 1 = some true ↔ w.registry.conns 1 ≠ []) ∧ w.registry.conns 1 = [2] := by
  have hrun : (machine.run (fun w a => a.quiet ∨ a = .goOffline 1 ∧ w.phase 1 = .offline 1 0 ∧
      w.phase 2 = .added 1) {} (handover ++ [Action.goOffline 1, .goOnline 2, .add 1])).map
        (fun w => (w.phase 1, w.phase 2, w.registry.conns 1)) = some (.bound 0, .bound 1, [2]) := by
    decide +kernel
  obtain ⟨w, hw, heq⟩ := Option.map_eq_some_iff.mp hrun
  simp only [Prod.mk.injEq] at heq
  obtain ⟨h1, h2, hconns⟩ := heq
  have hbound := bound_of_handover (by decide) hw h1 h2
  have hreach : machine.Reach Timely {} w := (Machine.reach_of_run hw).mono fun v a ha => by
    rcases ha with hq | ⟨rfl, hv1, hv2⟩
    · exact timely_of_quiet hq
    · intro reg userID hreg
      obtain ⟨rfl, -⟩ : (1 : Int) = reg ∧ (0 : Int) = userID := by simpa [hv1] using hreg
      exact .inr ⟨2, hv2⟩
  exact ⟨w, hreach, hbound, presence_agrees hreach hbound 1, hconns⟩

/-- The old connection found the user gone and reports it after the new one was announced. -/
theorem late_offline_callback : ∃ w : World, machine.Reach free {} w ∧
    (∀ c, ∃ reg, w.phase c = .bound reg) ∧ w.registry.conns 1 = [2] ∧ w.status 1 = some false := by
  have hrun : (machine.run free {} (handover ++ [Action.goOnline 2, .goOffline 1, .add 1])).map
      (fun w => (w.phase 1, w.phase 2, w.registry.conns 1, w.status 1)) =
        some (.bound 0, .bound 1, [2], some false) := by
    decide +kernel
  obtain ⟨w, hw, heq⟩ := Option.map_eq_some_iff.mp hrun
  simp only [Prod.mk.injEq] at heq
  obtain ⟨h1, h2, hconns, hstatus⟩ := heq
  exact ⟨w, Machine.reach_of_run hw, bound_of_handover (by decide) hw h1 h2, hconns, hstatus⟩

end TelegramServer.Sessions
