import TelegramServer.Notify.Scheduler
import Mathlib.Data.List.Nodup
import Mathlib.Data.List.Perm.Subperm

/-!
# What holds of the scheduler at every moment

The flags of a lane say who has it: a queued lane is in `ready`, on its way there or just
out of it, exactly once; a running lane is with exactly one worker; and a lane with neither
flag has left the map with nothing waiting in it.
-/

namespace TelegramServer.Notify

open Conc List
open Function (update update_self update_of_ne)
open Worker (sends receives works)
open Scheduler (finish enqueue submit)

variable {K C R : Type} {s s' : Scheduler K C R} {i p : Nat} {lane : Lane K C R} {w' : Worker C R}

section Heap

variable {q : Nat}

@[simp] theorem heap_setLane : (s.setLane p lane).heap = update s.heap p lane := rfl

@[simp] theorem lanes_setLane : (s.setLane p lane).lanes = s.lanes := rfl

@[simp] theorem ready_setLane : (s.setLane p lane).ready = s.ready := rfl

@[simp] theorem pending_setLane : (s.setLane p lane).pending = s.pending := rfl

theorem update_field {α : Type} (f : Lane K C R → α) (heap : Nat → Lane K C R) :
    (fun q => f (update heap p lane q)) = update (fun q => f (heap q)) p (f lane) :=
  Function.comp_update f heap p lane

theorem update_key {heap : Nat → Lane K C R} (h : lane.key = (heap p).key) :
    (fun q => (update heap p lane q).key) = fun q => (heap q).key := by
  rw [update_field Lane.key, h, Function.update_eq_self]

theorem sum_map_update {f : Nat → Nat} {l : List Nat} (hl : l.Nodup) (hp : p ∈ l) (n : Nat) :
    (l.map (update f p n)).sum + f p = (l.map f).sum + n := by
  have hne : ∀ r ∈ l.erase p, update f p n r = f r := fun r hr => by
    have : r ≠ p := fun h => hl.not_mem_erase (h ▸ hr)
    simp [this]
  have hnew := sum_map_erase (update f p n) hp
  have hold := sum_map_erase f hp
  rw [map_congr_left hne] at hnew
  simp only [update_self] at hnew
  omega

end Heap

variable {key : K} {o : Outcome} {ready : List Nat} {task : Task C R} {w : Worker C R}

section Map

variable [DecidableEq K]

@[simp] theorem heap_delete (s : Scheduler K C R) (key : K) : (s.delete key).heap = s.heap := rfl

@[simp] theorem ready_delete (s : Scheduler K C R) (key : K) : (s.delete key).ready = s.ready := rfl

@[simp] theorem pending_delete (s : Scheduler K C R) (key : K) :
    (s.delete key).pending = s.pending := rfl

theorem lookup_eq_some (h : s.lookup key = some p) : p ∈ s.lanes ∧ (s.heap p).key = key :=
  ⟨mem_of_find?_eq_some h, by simpa using find?_some h⟩

theorem lookup_eq_none : s.lookup key = none ↔ ∀ p ∈ s.lanes, (s.heap p).key ≠ key := by
  simp [Scheduler.lookup, find?_eq_none]

theorem lookup_of_mem (hk : (s.lanes.map fun p => (s.heap p).key).Nodup)
    (hp : p ∈ s.lanes) : s.lookup (s.heap p).key = some p := by
  cases h : s.lookup (s.heap p).key with
  | none => exact absurd rfl (lookup_eq_none.mp h p hp)
  | some q =>
    obtain ⟨hq, hkey⟩ := lookup_eq_some h
    rw [inj_on_of_nodup_map hk hq hp hkey]

theorem lanes_delete (hk : (s.lanes.map fun p => (s.heap p).key).Nodup)
    (hp : p ∈ s.lanes) : (s.delete (s.heap p).key).lanes = s.lanes.erase p := by
  rw [(List.Nodup.of_map _ hk).erase_eq_filter p, Scheduler.delete]
  refine filter_congr fun q hq => ?_
  have hiff : (s.heap q).key = (s.heap p).key ↔ q = p :=
    ⟨fun h => inj_on_of_nodup_map hk hq hp h, fun h => h ▸ rfl⟩
  by_cases h : q = p <;> simp [hiff, h]

end Map

/-! ## The invariant -/

structure Consistent (s : Scheduler K C R) (ws : List (Worker C R)) : Prop where
  alive : s.cancelled = false
  staffed : ws.length = notificationWorkerCount ∧ .exited ∉ ws
  held : ∀ p, s.ready.count p + ws.countP (·.sends p) + ws.countP (·.receives p) =
    (s.heap p).queued.toNat
  busy : ∀ p, ws.countP (·.works p) = (s.heap p).running.toNat
  exclusive : ∀ p, ¬((s.heap p).queued = true ∧ (s.heap p).running = true)
  mapped : ∀ p, p ∈ s.lanes ↔ (s.heap p).queued = true ∨ (s.heap p).running = true
  waiting : ∀ p, (s.heap p).queued = true → (s.heap p).pending ≠ []
  empty : ∀ p, p ∉ s.lanes → (s.heap p).pending = []
  keys : (s.lanes.map fun p => (s.heap p).key).Nodup
  total : s.pending = ((s.lanes.map fun p => (s.heap p).pending.length).sum : Nat)
  lanes_le : s.lanes.length ≤ notificationQueueLimit
  pending_le : ∀ p, (s.heap p).pending.length ≤ notificationLanePendingLimit
  old : ∀ p ∈ s.lanes, p < s.fresh

namespace Consistent

variable {ws : List (Worker C R)}

theorem new [Inhabited K] (ctx : C) : Consistent (newNotificationScheduler (K := K) (R := R) ctx)
    (replicate notificationWorkerCount .idle) where
  alive := rfl
  staffed := by simp
  held p := by simp [newNotificationScheduler, sends, receives]
  busy p := by simp [newNotificationScheduler, works]
  exclusive p := by simp [newNotificationScheduler]
  mapped p := by simp [newNotificationScheduler]
  waiting p := by simp [newNotificationScheduler]
  empty p := by simp [newNotificationScheduler]
  keys := by simp [newNotificationScheduler]
  total := by simp [newNotificationScheduler]
  lanes_le := by simp [newNotificationScheduler]
  pending_le p := by simp [newNotificationScheduler]
  old p := by simp [newNotificationScheduler]

variable (h : Consistent s ws)

include h

theorem nodup : s.lanes.Nodup :=
  List.Nodup.of_map _ h.keys

theorem queued_of_held (hp : 0 < s.ready.count p + ws.countP (·.sends p) +
    ws.countP (·.receives p)) : (s.heap p).queued = true := by
  rw [h.held p] at hp
  cases hq : (s.heap p).queued with
  | true => rfl
  | false => simp [hq] at hp

theorem nodup_ready : s.ready.Nodup :=
  nodup_iff_count_le_one.mpr fun p => by
    have := h.held p
    have := Bool.toNat_le (s.heap p).queued
    omega

theorem ready_subset : s.ready ⊆ s.lanes := fun p hp => by
  have := count_pos_iff.mpr hp
  exact (h.mapped p).mpr (.inl (h.queued_of_held (by omega)))

theorem ready_le : s.ready.length ≤ s.lanes.length :=
  (h.nodup_ready.subperm h.ready_subset).length_le

theorem ready_lt (hp : p ∈ s.lanes) (hr : p ∉ s.ready) :
    s.ready.length < notificationQueueLimit := by
  have hsub : p :: s.ready ⊆ s.lanes := cons_subset.mpr ⟨hp, h.ready_subset⟩
  have hlen := ((nodup_cons.mpr ⟨hr, h.nodup_ready⟩).subperm hsub).length_le
  have := h.lanes_le
  simp only [length_cons] at hlen
  omega

theorem ready_lt_of_sending (hw : ws[i]? = some (.sending p)) :
    s.ready.length < notificationQueueLimit := by
  have hpos : 0 < ws.countP (·.sends p) :=
    countP_pos_iff.mpr ⟨_, mem_of_getElem? hw, by simp [sends]⟩
  have hq := h.queued_of_held (p := p) (by omega)
  have hheld := h.held p
  rw [hq, Bool.toNat_true] at hheld
  exact h.ready_lt ((h.mapped p).mpr (.inl hq)) (count_eq_zero.mp (by omega))

theorem staffed_set (hw : w ≠ .exited) :
    (ws.set i w).length = notificationWorkerCount ∧ .exited ∉ ws.set i w := by
  refine ⟨by rw [length_set, h.staffed.1], fun hmem => ?_⟩
  rcases mem_or_eq_of_mem_set hmem with hold | heq
  · exact h.staffed.2 hold
  · exact hw heq.symm

theorem of_ready (hw : ws[i]? = some w) (hne : w' ≠ .exited) (hworks : ∀ p, w'.works p = w.works p)
    (hheld : ∀ p, ready.count p + (w'.sends p).toNat + (w'.receives p).toNat =
      s.ready.count p + (w.sends p).toNat + (w.receives p).toNat) :
    Consistent { s with ready } (ws.set i w') where
  alive := h.alive
  staffed := h.staffed_set hne
  held p := by
    have hs := countP_set_add (·.sends p) hw w' rfl rfl
    have hr := countP_set_add (·.receives p) hw w' rfl rfl
    have := hheld p
    have := h.held p
    simp only
    omega
  busy p := by
    have := countP_set_add (·.works p) hw w' rfl (hworks p)
    have := h.busy p
    simp only
    omega
  exclusive := h.exclusive
  mapped := h.mapped
  waiting := h.waiting
  empty := h.empty
  keys := h.keys
  total := h.total
  lanes_le := h.lanes_le
  pending_le := h.pending_le
  old := h.old

theorem receive (hw : ws[i]? = some .idle) (hready : s.ready = p :: ready) :
    Consistent { s with ready } (ws.set i (.received p)) := by
  refine h.of_ready hw nofun (fun _ => rfl) fun q => ?_
  rw [hready, count_cons]
  by_cases hq : p = q <;> simp [sends, receives, hq]

theorem complete {t : Task C R} (hw : ws[i]? = some (.running p t)) :
    Consistent s (ws.set i (.returned p)) :=
  h.of_ready hw nofun (fun _ => rfl) fun _ => rfl

theorem send (hw : ws[i]? = some (.sending p)) :
    Consistent { s with ready := s.ready ++ [p] } (ws.set i .idle) := by
  refine h.of_ready hw nofun (fun _ => rfl) fun q => ?_
  by_cases hq : p = q <;> simp [sends, receives, hq]

/-- The lane that a worker has received is queued with work in it. -/
theorem next_eq (hw : ws[i]? = some (.received p)) :
    ∃ task rest, (s.heap p).pending = task :: rest ∧ (s.heap p).queued = true ∧
      s.next p = (some task, { s.setLane p { s.heap p with
        pending := rest, queued := false, running := true } with pending := s.pending - 1 }) := by
  have hpos : 0 < ws.countP (·.receives p) :=
    countP_pos_iff.mpr ⟨_, mem_of_getElem? hw, by simp [receives]⟩
  have hq := h.queued_of_held (p := p) (by omega)
  obtain ⟨task, rest, hpend⟩ := exists_cons_of_ne_nil (h.waiting p hq)
  refine ⟨task, rest, hpend, hq, ?_⟩
  simp [Scheduler.next, h.alive, hq, hpend]

/-- A worker moves on with the lane `p`, whose flags change with where it is. -/
theorem held_set (hw : ws[i]? = some w)
    (hne : ∀ q, q ≠ p → (w.sends q || w.receives q || w'.sends q || w'.receives q) = false)
    (hp : (w'.sends p).toNat + (w'.receives p).toNat + (s.heap p).queued.toNat =
      (w.sends p).toNat + (w.receives p).toNat + lane.queued.toNat) (q : Nat) :
    s.ready.count q + (ws.set i w').countP (·.sends q) + (ws.set i w').countP (·.receives q) =
      (update s.heap p lane q).queued.toNat := by
  have hs := countP_set_add (·.sends q) hw w' rfl rfl
  have hr := countP_set_add (·.receives q) hw w' rfl rfl
  have hold := h.held q
  by_cases hqp : q = p
  · subst hqp
    rw [update_self]
    omega
  · have hq := hne q hqp
    simp only [Bool.or_eq_false_iff] at hq
    simp only [hq] at hs hr
    rw [update_of_ne hqp]
    omega

theorem busy_set (hw : ws[i]? = some w) (hne : ∀ q, q ≠ p → w'.works q = w.works q)
    (hp : (w'.works p).toNat + (s.heap p).running.toNat = (w.works p).toNat + lane.running.toNat)
    (q : Nat) :
    (ws.set i w').countP (·.works q) = (update s.heap p lane q).running.toNat := by
  have hb := countP_set_add (·.works q) hw w' rfl rfl
  have hold := h.busy q
  by_cases hqp : q = p
  · subst hqp
    rw [update_self]
    omega
  · rw [hne q hqp] at hb
    rw [update_of_ne hqp]
    omega

theorem of_lane (p : Nat) (lane : Lane K C R) {pending : Int} {ws' : List (Worker C R)}
    (hp : p ∈ s.lanes) (hkey : lane.key = (s.heap p).key)
    (hstaff : ws'.length = notificationWorkerCount ∧ .exited ∉ ws')
    (hheld : ∀ q, ready.count q + ws'.countP (·.sends q) + ws'.countP (·.receives q) =
      (update s.heap p lane q).queued.toNat)
    (hbusy : ∀ q, ws'.countP (·.works q) = (update s.heap p lane q).running.toNat)
    (hflags : lane.queued = !lane.running) (hwait : lane.queued = true → lane.pending ≠ [])
    (hlen : lane.pending.length ≤ notificationLanePendingLimit)
    (htotal : pending + (s.heap p).pending.length = s.pending + lane.pending.length) :
    Consistent { s.setLane p lane with ready, pending } ws' where
  alive := h.alive
  staffed := hstaff
  held := hheld
  busy := hbusy
  exclusive q := by
    by_cases hq : q = p
    · simp [hq, hflags]
    · simpa [hq] using h.exclusive q
  mapped q := by
    by_cases hq : q = p
    · cases hr : lane.running <;> simp [hq, hp, hflags, hr]
    · simpa [hq] using h.mapped q
  waiting q := by
    by_cases hq : q = p
    · simpa [hq] using hwait
    · simpa [hq] using h.waiting q
  empty q hn := by
    have hq : q ≠ p := fun e => hn (e ▸ hp)
    simpa [hq] using h.empty q hn
  keys := by
    rw [heap_setLane, lanes_setLane, update_key hkey]
    exact h.keys
  total := by
    have hsum := sum_map_update h.nodup hp lane.pending.length
      (f := fun q => (s.heap q).pending.length)
    have := h.total
    rw [heap_setLane, lanes_setLane, update_field fun l => l.pending.length]
    change pending = _
    omega
  lanes_le := h.lanes_le
  pending_le q := by
    by_cases hq : q = p
    · simpa [hq] using hlen
    · simpa [hq] using h.pending_le q
  old := h.old

theorem next (hw : ws[i]? = some (.received p))
    (hnext : s.next p = (some task, s')) : Consistent s' (ws.set i (.running p task)) := by
  obtain ⟨task', rest, hpend, hq, heq⟩ := h.next_eq hw
  obtain ⟨rfl, rfl⟩ : task' = task ∧ _ = s' := by simpa [heq] using hnext
  have hrun : (s.heap p).running = false := by
    simpa [hq] using h.exclusive p
  have hlen := h.pending_le p
  rw [hpend, length_cons] at hlen
  refine h.of_lane p { s.heap p with pending := rest, queued := false, running := true }
    ((h.mapped p).mpr (.inl hq)) rfl (h.staffed_set (w := .running p task') nofun)
    (h.held_set hw (fun q hqp => ?_) ?_) (h.busy_set hw (fun q hqp => ?_) ?_) rfl nofun
    (Nat.le_of_succ_le hlen) ?_
  · simp [sends, receives, Ne.symm hqp]
  · simp [sends, receives, hq]
  · simp [works, Ne.symm hqp]
  · simp [works, hrun]
  · simp only [hpend, length_cons]
    omega

theorem running_of_works (hw : ws[i]? = some w) (hp : w.works p = true) :
    (s.heap p).running = true ∧ (s.heap p).queued = false := by
  have hpos : 0 < ws.countP (·.works p) :=
    countP_pos_iff.mpr ⟨_, mem_of_getElem? hw, hp⟩
  rw [h.busy p] at hpos
  have hrun : (s.heap p).running = true := by
    cases hr : (s.heap p).running with
    | true => rfl
    | false => simp [hr] at hpos
  exact ⟨hrun, by simpa [hrun] using h.exclusive p⟩

theorem of_pending {pending : List (Task C R)} {n : Int} (hp : p ∈ s.lanes)
    (hne : pending ≠ []) (hlen : pending.length ≤ notificationLanePendingLimit)
    (htotal : n + (s.heap p).pending.length = s.pending + pending.length) :
    Consistent { s.setLane p { s.heap p with pending } with pending := n } ws := by
  have hflag : (s.heap p).queued = !(s.heap p).running := by
    have hor := (h.mapped p).mp hp
    have hand := h.exclusive p
    cases hq : (s.heap p).queued <;> cases hr : (s.heap p).running <;> simp_all
  refine h.of_lane p { s.heap p with pending } hp rfl h.staffed (fun q => ?_) (fun q => ?_) hflag
    (fun _ => hne) hlen htotal
  · rw [ready_setLane, h.held q]
    by_cases hqp : q = p <;> simp [hqp]
  · rw [h.busy q]
    by_cases hqp : q = p <;> simp [hqp]

section Finish

variable [DecidableEq K] (hw : ws[i]? = some (.returned p))

include hw

theorem finish_true (hfin : s.finish p = (true, s')) : Consistent s' (ws.set i (.sending p)) := by
  obtain ⟨hrun, hq⟩ := h.running_of_works hw (p := p) (by simp [works])
  have hne : (s.heap p).pending ≠ [] := by
    intro he
    simp [finish, he] at hfin
  obtain rfl : s.setLane p { s.heap p with running := false, queued := true } = s' := by
    simpa [finish, h.alive, hne] using hfin
  refine h.of_lane p { s.heap p with running := false, queued := true }
    ((h.mapped p).mpr (.inr hrun)) rfl (h.staffed_set (w := .sending p) nofun)
    (h.held_set hw (fun q hqp => ?_) ?_) (h.busy_set hw (fun q hqp => ?_) ?_) rfl (fun _ => hne)
    (h.pending_le p) rfl
  · simp [sends, receives, Ne.symm hqp]
  · simp [sends, receives, hq]
  · simp [works, Ne.symm hqp]
  · simp [works, hrun]

theorem finish_false (hfin : s.finish p = (false, s')) : Consistent s' (ws.set i .idle) := by
  obtain ⟨hrun, hq⟩ := h.running_of_works hw (p := p) (by simp [works])
  have hmem := (h.mapped p).mpr (.inr hrun)
  have hpend : (s.heap p).pending = [] := by
    by_contra hne
    simp [finish, h.alive, hne] at hfin
  obtain ⟨lane, hlane⟩ : ∃ lane, lane = { s.heap p with running := false } := ⟨_, rfl⟩
  obtain ⟨hkey, hqueued, hrunning, hnil⟩ : lane.key = (s.heap p).key ∧ lane.queued = false ∧
      lane.running = false ∧ lane.pending = [] := by
    simp [hlane, hq, hpend]
  obtain rfl : (s.setLane p lane).delete lane.key = s' := by
    simpa [finish, h.alive, hpend, hlane] using hfin
  have hkeys : (s.lanes.map fun q => (update s.heap p lane q).key).Nodup := by
    rw [update_key hkey]
    exact h.keys
  have hlanes : ((s.setLane p lane).delete lane.key).lanes = s.lanes.erase p := by
    simpa using lanes_delete (s := s.setLane p lane) hkeys (p := p) hmem
  have hsum := sum_map_update h.nodup hmem lane.pending.length
    (f := fun q => (s.heap q).pending.length)
  refine
    { alive := h.alive
      staffed := h.staffed_set nofun
      held := fun q => ?_
      busy := fun q => ?_
      exclusive := fun q => ?_
      mapped := fun q => ?_
      waiting := fun q => ?_
      empty := fun q hn => ?_
      keys := hlanes ▸ (hkeys.sublist (erase_sublist.map _))
      total := ?_
      lanes_le := hlanes ▸ Nat.le_trans length_erase_le h.lanes_le
      pending_le := fun q => ?_
      old := fun q hq => h.old q (mem_of_mem_erase (hlanes ▸ hq)) }
  all_goals simp only [hlanes, heap_delete, ready_delete, pending_delete, heap_setLane,
    ready_setLane, pending_setLane]
  · refine h.held_set hw (fun q hqp => ?_) ?_ q
    · simp [sends, receives]
    · simp [sends, receives, hq, hqueued]
  · refine h.busy_set hw (fun q hqp => ?_) ?_ q
    · simp [works, Ne.symm hqp]
    · simp [works, hrun, hrunning]
  · by_cases hqp : q = p
    · simp [hqp, hqueued]
    · simpa [hqp] using h.exclusive q
  · rw [h.nodup.mem_erase_iff]
    by_cases hqp : q = p
    · simp [hqp, hqueued, hrunning]
    · simpa [hqp] using h.mapped q
  · by_cases hqp : q = p
    · simp [hqp, hqueued]
    · simpa [hqp] using h.waiting q
  · by_cases hqp : q = p
    · simp [hqp, hnil]
    · simpa [hqp] using h.empty q fun hin => hn (hlanes ▸ (mem_erase_of_ne hqp).mpr hin)
  · have herase := sum_map_erase (fun q => (update s.heap p lane q).pending.length) hmem
    have htotal := h.total
    rw [update_field fun l => l.pending.length] at herase ⊢
    simp only [update_self, hpend, hnil, length_nil] at herase hsum ⊢
    omega
  · by_cases hqp : q = p
    · simp [hqp, hnil]
    · simpa [hqp] using h.pending_le q

end Finish

end Consistent

/-! ## Submitting -/

/-- All that `submit` can do to a consistent scheduler. -/
inductive Submitted [DecidableEq K] (s : Scheduler K C R) (key : K) (task : Task C R) :
    Outcome → Scheduler K C R → Prop where
  | refused : Submitted s key task .refused s
  | coalesced {p : Nat} {init : List (Task C R)} {last : Task C R} (hp : s.lookup key = some p)
      (hpend : (s.heap p).pending = init ++ [last])
      (hboth : last.coalesce = true ∧ task.coalesce = true) {s' : Scheduler K C R}
      (hs' : s' = s.setLane p { s.heap p with pending := init ++ [task.inContext s.ctx] }) :
      Submitted s key task .coalesced s'
  | appended {p : Nat} (hp : s.lookup key = some p)
      (hlt : (s.heap p).pending.length < notificationLanePendingLimit) {s' : Scheduler K C R}
      (hs' : s' = { s.setLane p { s.heap p with
        pending := (s.heap p).pending ++ [task.inContext s.ctx] } with pending := s.pending + 1 }) :
      Submitted s key task .appended s'
  | queued (hp : s.lookup key = none) (hlt : s.lanes.length < notificationQueueLimit)
      {s' : Scheduler K C R}
      (hs' : s' = { s with
        heap := update s.heap s.fresh { key, queued := true, pending := [task.inContext s.ctx] }
        fresh := s.fresh + 1
        lanes := s.lanes ++ [s.fresh]
        pending := s.pending + 1
        ready := s.ready ++ [s.fresh] }) :
      Submitted s key task .queued s'

theorem Submitted.ne_overflow [DecidableEq K] (h : Submitted s key task o s') : o ≠ .overflow := by
  cases h <;> nofun

theorem Submitted.sched_of_refused [DecidableEq K]
    (h : Submitted s key task o s') (ho : o.accepted = false) : s' = s := by
  cases h with
  | refused => rfl
  | coalesced | appended | queued => simp [Outcome.accepted] at ho

theorem coalesced_eq_some {last : Task C R} (h : lane.coalesced task = some last) :
    lane.pending = lane.pending.dropLast ++ [last] ∧ last.coalesce = true ∧
      task.coalesce = true := by
  unfold Lane.coalesced at h
  split at h
  · obtain ⟨hlast, hc⟩ := Option.filter_eq_some_iff.mp h
    exact ⟨(dropLast_append_getLast? last hlast).symm, hc, ‹_›⟩
  · simp at h

/-- A new lane is empty and neither flag is set, so its task goes straight to `ready`. -/
theorem enqueue_addLane [DecidableEq K] (hready : s.ready.length < notificationQueueLimit) :
    (s.addLane key).enqueue s.fresh true task = (.queued, { s with
      heap := update s.heap s.fresh { key, queued := true, pending := [task] }
      fresh := s.fresh + 1
      lanes := s.lanes ++ [s.fresh]
      pending := s.pending + 1
      ready := s.ready ++ [s.fresh] }) := by
  have hheap : (s.addLane key).heap s.fresh = { key } := update_self ..
  have hnone : (({ key } : Lane K C R).coalesced task).isSome = false := by
    cases hc : task.coalesce <;> simp [Lane.coalesced, hc]
  simp only [enqueue, hheap, hnone]
  rw [if_neg (by simp), if_neg (by simp [notificationLanePendingLimit]), if_neg (by simp),
    if_neg (by simp), if_pos (show (s.addLane key).ready.length < _ from hready)]
  simp [Scheduler.setLane, Scheduler.addLane]

namespace Consistent

variable {ws : List (Worker C R)} (h : Consistent s ws) [DecidableEq K]

include h

theorem submitted (key : K) (task : Task C R) :
    Submitted s key task (s.submit key task).1 (s.submit key task).2 := by
  by_cases hrun : (task.inContext s.ctx).run.isNone
  · simp only [submit, hrun, or_true, if_true]
    exact .refused
  simp only [submit, h.alive, hrun, Bool.false_eq_true, or_self, if_false]
  cases hp : s.lookup key with
  | some p =>
    obtain ⟨hmem, hkey⟩ := lookup_eq_some hp
    have hflags := (h.mapped p).mp hmem
    simp only [enqueue]
    cases hlast : (s.heap p).coalesced (task.inContext s.ctx) with
    | some last =>
      obtain ⟨hpend, hboth⟩ : (s.heap p).pending = (s.heap p).pending.dropLast ++ [last] ∧
        last.coalesce = true ∧ task.coalesce = true := coalesced_eq_some hlast
      simp only [Option.isSome_some, if_true]
      exact .coalesced hp hpend hboth rfl
    | none =>
      simp only [Option.isSome_none, Bool.false_eq_true, if_false]
      by_cases hlen : (s.heap p).pending.length ≥ notificationLanePendingLimit
      · rw [if_pos hlen]
        exact .refused
      rw [if_neg hlen]
      by_cases hfull : s.pending ≥ notificationQueueLimit
      · rw [if_pos ⟨hfull, trivial⟩, if_neg (by rintro ⟨-, hr, hq⟩; simp [hr, hq] at hflags)]
        exact .refused
      · rw [if_neg (by rintro ⟨hc, -⟩; exact hfull hc), if_pos hflags.symm]
        exact .appended hp (Nat.lt_of_not_le hlen) rfl
  | none =>
    by_cases hlanes : s.lanes.length ≥ notificationQueueLimit
    · simp only [hlanes, if_true]
      exact .refused
    have hlt := Nat.lt_of_not_le hlanes
    have hready := Nat.lt_of_le_of_lt h.ready_le hlt
    simp only [hlanes, if_false, enqueue_addLane hready]
    exact .queued hp hlt rfl

theorem of_added (hkey : s.lookup key = none) (hlt : s.lanes.length < notificationQueueLimit)
    (task : Task C R) :
    Consistent { s with
      heap := update s.heap s.fresh { key, queued := true, pending := [task] }
      fresh := s.fresh + 1
      lanes := s.lanes ++ [s.fresh]
      pending := s.pending + 1
      ready := s.ready ++ [s.fresh] } ws := by
  obtain ⟨lane, hlane⟩ : ∃ lane : Lane K C R, lane = { key, queued := true, pending := [task] } :=
    ⟨_, rfl⟩
  have hfresh : s.fresh ∉ s.lanes := fun hin => Nat.lt_irrefl _ (h.old _ hin)
  obtain ⟨hq, hr⟩ : (s.heap s.fresh).queued = false ∧ (s.heap s.fresh).running = false := by
    simpa using (not_congr (h.mapped s.fresh)).mp hfresh
  have hold : ∀ q ∈ s.lanes, update s.heap s.fresh lane q = s.heap q := fun q hin => by
    have hne : q ≠ s.fresh := fun e => hfresh (e ▸ hin)
    simp [hne]
  rw [← hlane]
  refine
    { alive := h.alive
      staffed := h.staffed
      held := fun q => ?_
      busy := fun q => ?_
      exclusive := fun q => ?_
      mapped := fun q => ?_
      waiting := fun q => ?_
      empty := fun q hn => ?_
      keys := ?_
      total := ?_
      lanes_le := ?_
      pending_le := fun q => ?_
      old := fun q hin => ?_ }
  all_goals simp only
  · have hheld := h.held q
    rw [count_append]
    by_cases hqp : q = s.fresh
    · subst hqp
      rw [hq] at hheld
      simp only [update_self, hlane, count_singleton_self, Bool.toNat_true,
        Bool.toNat_false] at hheld ⊢
      omega
    · simp only [update_of_ne hqp, count_singleton, beq_eq_false_iff_ne.mpr (Ne.symm hqp)]
      simpa using hheld
  · have hbusy := h.busy q
    by_cases hqp : q = s.fresh
    · subst hqp
      simpa [hlane, hr] using hbusy
    · simpa [hqp] using hbusy
  · by_cases hqp : q = s.fresh
    · simp [hqp, hlane]
    · simpa [hqp] using h.exclusive q
  · by_cases hqp : q = s.fresh
    · simp [hqp, hlane]
    · simpa [hqp] using h.mapped q
  · by_cases hqp : q = s.fresh
    · simp [hqp, hlane]
    · simpa [hqp] using h.waiting q
  · obtain ⟨hin, hqp⟩ : q ∉ s.lanes ∧ q ≠ s.fresh := by simpa using hn
    simpa [hqp] using h.empty q hin
  · have hkeys : s.lanes.map (fun q => (update s.heap s.fresh lane q).key) =
        s.lanes.map fun q => (s.heap q).key :=
      map_congr_left fun q hin => congrArg Lane.key (hold q hin)
    rw [map_append, hkeys, nodup_append]
    refine ⟨h.keys, by simp, ?_⟩
    simpa [hlane] using lookup_eq_none.mp hkey
  · have hsum : s.lanes.map (fun q => (update s.heap s.fresh lane q).pending.length) =
        s.lanes.map fun q => (s.heap q).pending.length :=
      map_congr_left fun q hin => congrArg (fun l => l.pending.length) (hold q hin)
    rw [map_append, hsum, h.total]
    simp [hlane]
  · simpa using Nat.succ_le_of_lt hlt
  · by_cases hqp : q = s.fresh
    · simp [hqp, hlane, notificationLanePendingLimit]
    · simpa [hqp] using h.pending_le q
  · rcases mem_append.mp hin with hin | hin
    · exact Nat.lt_succ_of_lt (h.old q hin)
    · rw [mem_singleton.mp hin]
      exact Nat.lt_succ_self _

theorem of_submitted (hs : Submitted s key task o s') : Consistent s' ws := by
  cases hs with
  | refused => exact h
  | @coalesced p init last hp hpend _ _ hs' =>
    subst hs'
    have hlen := h.pending_le p
    rw [hpend] at hlen
    exact h.of_pending (lookup_eq_some hp).1 (by simp) (by simpa using hlen) (by simp [hpend])
  | appended hp hlt hs' =>
    subst hs'
    refine h.of_pending (lookup_eq_some hp).1 (by simp) (by simpa using Nat.succ_le_of_lt hlt) ?_
    simp only [length_append, length_singleton]
    omega
  | queued hp hlt hs' =>
    subst hs'
    exact h.of_added hp hlt _

end Consistent

variable [DecidableEq K] {s s' : Service K C R} {a : Action K C R}

/-- All that a live move can do to a consistent service. -/
inductive Moved (s : Service K C R) : Action K C R → Service K C R → Prop where
  | submit (key : K) (task : Task C R) : Moved s (.submit key task) (s.submit key task)
  | receive {i p : Nat} {ready : List Nat} (hw : s.workers[i]? = some .idle)
      (hready : s.sched.ready = p :: ready) :
      Moved s (.receive i) { s.setWorker i (.received p) with sched := { s.sched with ready } }
  | next {i p : Nat} {task : Task C R} {sched : Scheduler K C R}
      (hw : s.workers[i]? = some (.received p))
      (hnext : s.sched.next p = (some task, sched)) :
      Moved s (.next i) { s.setWorker i (.running p task) with
        sched
        started := update s.started (s.sched.heap p).key
          (s.started (s.sched.heap p).key ++ [task.ticket]) }
  | complete {i p : Nat} {task : Task C R} (hw : s.workers[i]? = some (.running p task)) :
      Moved s (.complete i) (s.setWorker i (.returned p))
  | finish {i p : Nat} {sched : Scheduler K C R} (b : Bool)
      (hw : s.workers[i]? = some (.returned p)) (hfin : s.sched.finish p = (b, sched)) :
      Moved s (.finish i) { s.setWorker i (if b then .sending p else .idle) with sched }
  | send {i p : Nat} (hw : s.workers[i]? = some (.sending p)) :
      Moved s (.send i) { s.setWorker i .idle with
        sched := { s.sched with ready := s.sched.ready ++ [p] } }

theorem Consistent.moved (h : Consistent s.sched s.workers)
    (ha : a.live = true) (hs : s.step a = some s') : Moved s a s' := by
  cases a with simp only [Service.step] at hs
  | submit key task =>
    cases hs
    exact .submit key task
  | receive i =>
    split at hs <;> cases hs
    exact .receive ‹_› ‹_›
  | next i =>
    split at hs <;> cases hs
    obtain ⟨task, rest, -, -, heq⟩ := h.next_eq ‹_›
    rw [Service.next, heq]
    exact .next ‹_› heq
  | complete i =>
    split at hs <;> cases hs
    exact .complete ‹_›
  | finish i =>
    split at hs <;> cases hs
    rw [Service.finish]
    split
    · exact .finish true ‹_› ‹_›
    · exact .finish false ‹_› ‹_›
  | send i =>
    split at hs
    · split at hs <;> cases hs
      exact .send ‹_›
    · cases hs
  | quit i => simp [h.alive] at hs
  | stop => simp [Action.live] at ha

theorem Consistent.step (ha : a.live = true)
    (h : Consistent s.sched s.workers) (hs : s.step a = some s') :
    Consistent s'.sched s'.workers := by
  cases h.moved ha hs with
  | submit key task => exact h.of_submitted (h.submitted key _)
  | receive hw hready => exact h.receive hw hready
  | next hw hnext => exact h.next hw hnext
  | complete hw => exact h.complete hw
  | finish b hw hfin =>
    cases b with
    | true => exact h.finish_true hw hfin
    | false => exact h.finish_false hw hfin
  | send hw => exact h.send hw

theorem Reached.consistent [Inhabited K] {ctx : C} (h : Reached ctx s) :
    Consistent s.sched s.workers :=
  Machine.Reach.invariant (I := fun s => Consistent s.sched s.workers) h (.new ctx)
    fun _ _ _ hi ha hs => hi.step ha hs

/-- A lane is in `ready`, being sent there or just received from there at most once, and exactly
while it is queued; the flags, the map, the counter and the limits agree; so `ready` never
overflows, no send to it blocks, and every received lane has a task. -/
theorem lanes_consistent [Inhabited K] {ctx : C} {s : Service K C R} (h : Reached ctx s) :
    (∀ p, s.sched.ready.count p + s.workers.countP (·.sends p) + s.workers.countP (·.receives p) =
      (s.sched.heap p).queued.toNat) ∧
    (∀ p, ¬((s.sched.heap p).queued = true ∧ (s.sched.heap p).running = true)) ∧
    (∀ p ∈ s.sched.lanes, (s.sched.heap p).queued = true ∨ (s.sched.heap p).running = true) ∧
    (∀ p, (s.sched.heap p).queued = true → (s.sched.heap p).pending ≠ []) ∧
    s.sched.pending = ((s.sched.lanes.map fun p => (s.sched.heap p).pending.length).sum : Nat) ∧
    s.sched.lanes.length ≤ notificationQueueLimit ∧
    (∀ p ∈ s.sched.lanes, (s.sched.heap p).pending.length ≤ notificationLanePendingLimit) ∧
    s.sched.ready.length ≤ notificationQueueLimit ∧
    (∀ key task, (s.sched.submit key task).1 ≠ .overflow) ∧
    (∀ i p : Nat, s.workers[i]? = some (.sending p) →
      s.sched.ready.length < notificationQueueLimit) ∧
    (∀ i p : Nat, s.workers[i]? = some (.received p) → (s.sched.next p).1.isSome = true) := by
  have hc := h.consistent
  refine ⟨hc.held, hc.exclusive, fun p hp => (hc.mapped p).mp hp, hc.waiting, hc.total, hc.lanes_le,
    fun p _ => hc.pending_le p, Nat.le_trans hc.ready_le hc.lanes_le, fun key task => ?_,
    fun i p hw => ?_, fun i p hw => ?_⟩
  · exact (hc.submitted key task).ne_overflow
  · exact hc.ready_lt_of_sending hw
  · obtain ⟨task, rest, -, -, heq⟩ := hc.next_eq hw
    rw [heq]
    rfl

/-- One key's lane, through a worker: its second task waits while the first one runs, and is then
on its way back to `ready`. -/
def twoTasks : List (Action String Unit Unit) :=
  [.submit "u1" ⟨none, some (), false, 0⟩, .receive 0, .next 0,
    .submit "u1" ⟨none, some (), false, 0⟩, .complete 0, .finish 0]

theorem lanes_consistent_sending : ∃ s : Service String Unit Unit, Reached () s ∧
    s.workers[0]? = some (.sending 0) ∧ s.sched.ready.length < notificationQueueLimit := by
  obtain ⟨s, hreach, hw⟩ : ∃ s : Service String Unit Unit, Reached () s ∧
      s.workers[0]? = some (.sending 0) := Machine.exists_reach twoTasks (by decide +kernel)
  obtain ⟨-, -, -, -, -, -, -, -, -, hsend, -⟩ := lanes_consistent hreach
  exact ⟨s, hreach, hw, hsend 0 0 hw⟩

/-- Between a worker's receive and its `next`, the lane is queued and nowhere in the channel. -/
theorem received_lane_outside_ready : ∃ s : Service String Unit Unit, Reached () s ∧
    (s.sched.heap 0).queued = true ∧ s.sched.ready = [] ∧ s.workers.countP (·.sends 0) = 0 :=
  Machine.exists_reach (twoTasks.take 2) (by decide +kernel)

end TelegramServer.Notify
