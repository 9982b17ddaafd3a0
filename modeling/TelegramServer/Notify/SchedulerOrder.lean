import TelegramServer.Notify.SchedulerInvariant

/-!
# What happens to a task

An accepted task is waiting in its key's lane, or was started, or was replaced there by a
later one: always exactly one of the three. Waiting tasks follow the started ones in the
order of their tickets, and the workers' moves use up what waits.
-/

namespace TelegramServer.Notify

open Conc List
open Service (finish setWorker)
open Function (update update_self update_of_ne)

variable {p : Nat} {K C R : Type} [DecidableEq K] {a : Action K C R} {b : Bool} {i n : Nat} {k : K}
  {lane : Lane K C R} {task : Task C R} {ws : List (Worker C R)}

def Scheduler.waiting (s : Scheduler K C R) (key : K) : List (Task C R) :=
  match s.lookup key with
  | some p => (s.heap p).pending
  | none => []

def Scheduler.Keyed (s : Scheduler K C R) : Prop :=
  (s.lanes.map fun p => (s.heap p).key).Nodup

section Waiting

variable {s s' : Scheduler K C R} {key : K}

theorem waiting_of_mem (hk : s.Keyed) (hp : p ∈ s.lanes) (hkey : (s.heap p).key = key) :
    s.waiting key = (s.heap p).pending := by
  simp only [Scheduler.waiting, ← hkey, lookup_of_mem hk hp]

theorem waiting_of_forall_ne (h : ∀ p ∈ s.lanes, (s.heap p).key ≠ key) : s.waiting key = [] := by
  simp only [Scheduler.waiting, lookup_eq_none.mpr h]

theorem waiting_congr (hk : s.Keyed) (hk' : s'.Keyed)
    (hmem : ∀ p, p ∈ s'.lanes ∧ (s'.heap p).key = key ↔ p ∈ s.lanes ∧ (s.heap p).key = key)
    (hpend : ∀ p ∈ s.lanes, (s.heap p).key = key → (s'.heap p).pending = (s.heap p).pending) :
    s'.waiting key = s.waiting key := by
  by_cases h : ∃ p ∈ s.lanes, (s.heap p).key = key
  · obtain ⟨p, hp, hkey⟩ := h
    obtain ⟨hp', hkey'⟩ := (hmem p).mpr ⟨hp, hkey⟩
    rw [waiting_of_mem hk hp hkey, waiting_of_mem hk' hp' hkey', hpend p hp hkey]
  · rw [waiting_of_forall_ne fun p hp hkey => h ⟨p, hp, hkey⟩,
      waiting_of_forall_ne fun p hp hkey => h ⟨p, ((hmem p).mp ⟨hp, hkey⟩)⟩]

theorem waiting_update (hk : s.Keyed) (hk' : s'.Keyed) (hp : p ∈ s.lanes)
    (hheap : s'.heap = update s.heap p lane) (hlanes : s'.lanes = s.lanes)
    (hkey : lane.key = (s.heap p).key) :
    s'.waiting (s.heap p).key = lane.pending ∧
      ∀ k, k ≠ (s.heap p).key → s'.waiting k = s.waiting k := by
  have hself : s'.heap p = lane := by rw [hheap, update_self]
  have hsame : ∀ q, (s'.heap q).key = (s.heap q).key := fun q => by
    rw [hheap]
    exact congrFun (update_key hkey) q
  refine ⟨?_, fun k hne => waiting_congr hk hk' (fun q => by rw [hlanes, hsame]) fun q _ hq => ?_⟩
  · rw [waiting_of_mem hk' (hlanes ▸ hp) (hsame p), hself]
  · have hqp : q ≠ p := fun e => hne (by rw [← hq, e])
    rw [hheap, update_of_ne hqp]

theorem waiting_added (hk : s.Keyed) (hk' : s'.Keyed) (hp : p ∉ s.lanes)
    (hheap : s'.heap = update s.heap p lane) (hlanes : s'.lanes = s.lanes ++ [p]) :
    s'.waiting lane.key = lane.pending ∧ ∀ k, k ≠ lane.key → s'.waiting k = s.waiting k := by
  have hself : s'.heap p = lane := by rw [hheap, update_self]
  have hold : ∀ q ∈ s.lanes, s'.heap q = s.heap q := fun q hq => by
    have hqp : q ≠ p := fun e => hp (e ▸ hq)
    rw [hheap, update_of_ne hqp]
  refine ⟨?_, fun k hne => waiting_congr hk hk' (fun q => ?_) fun q hq _ => by rw [hold q hq]⟩
  · rw [waiting_of_mem hk' (by simp [hlanes]) (congrArg Lane.key hself), hself]
  · rw [hlanes, mem_append, mem_singleton]
    constructor
    · rintro ⟨hq | rfl, hkey⟩
      · exact ⟨hq, hold q hq ▸ hkey⟩
      · exact absurd (hself ▸ hkey).symm hne
    · rintro ⟨hq, hkey⟩
      exact ⟨.inl hq, (hold q hq).symm ▸ hkey⟩

end Waiting

/-! ## The history -/

/-- What the history says of the state. -/
structure Accounted (s : Service K C R) : Prop where
  once : ∀ n k, (s.started k ++ (s.sched.waiting k).map (·.ticket) ++
    (s.replaced k).map (·.1.ticket)).count n = if s.calls[n]? = some (k, true) then 1 else 0
  ordered : ∀ k, (s.started k ++ (s.sched.waiting k).map (·.ticket)).Pairwise (· < ·)
  later : ∀ k, ∀ r ∈ s.replaced k, r.1.coalesce = true ∧ r.2.coalesce = true ∧
    r.1.ticket < r.2.ticket ∧ s.calls[r.2.ticket]? = some (k, true)

namespace Accounted

variable {s s' : Service K C R} {key : K}

theorem new [Inhabited K] (ctx : C) : Accounted (Service.new (K := K) (R := R) ctx) where
  once n k := by simp [Service.new, newNotificationScheduler, Scheduler.waiting, Scheduler.lookup]
  ordered k := by simp [Service.new, newNotificationScheduler, Scheduler.waiting, Scheduler.lookup]
  later k := by simp [Service.new]

theorem of_work (h : Accounted s) (hcalls : s'.calls = s.calls) (hrep : s'.replaced = s.replaced)
    (hline : ∀ k, s'.started k ++ (s'.sched.waiting k).map (·.ticket) =
      s.started k ++ (s.sched.waiting k).map (·.ticket)) : Accounted s' where
  once n k := by
    rw [hline, hcalls, hrep]
    exact h.once n k
  ordered k := by
    rw [hline]
    exact h.ordered k
  later k := by
    rw [hcalls, hrep]
    exact h.later k

theorem lt_calls (h : Accounted s) (hn : n ∈ s.started k ++ (s.sched.waiting k).map (·.ticket)) :
    n < s.calls.length := by
  have hpos := count_pos_iff.mpr (mem_append_left ((s.replaced k).map (·.1.ticket)) hn)
  rw [h.once n k] at hpos
  split at hpos
  · exact (List.getElem?_eq_some_iff.mp ‹_›).1
  · simp at hpos

omit [DecidableEq K] in
theorem getElem?_calls {calls : List (K × Bool)} : (calls ++ [(key, b)])[n]? = some (k, true) ↔
      calls[n]? = some (k, true) ∨ n = calls.length ∧ key = k ∧ b = true := by
  rcases Nat.lt_trichotomy n calls.length with hlt | rfl | hgt
  · rw [getElem?_append_left hlt]
    simp [Nat.ne_of_lt hlt]
  · simp
  · rw [getElem?_eq_none (by simpa using Nat.succ_le_of_lt hgt),
      getElem?_eq_none (Nat.le_of_lt hgt)]
    simp [Nat.ne_of_gt hgt]

theorem of_refused (h : Accounted s) (hcalls : s'.calls = s.calls ++ [(key, false)])
    (hrep : s'.replaced = s.replaced) (hstart : s'.started = s.started)
    (hsched : s'.sched = s.sched) :
    Accounted s' where
  once n k := by
    rw [hstart, hsched, hrep, h.once n k, hcalls]
    exact if_congr (by simp [getElem?_calls]) rfl rfl
  ordered k := by
    rw [hstart, hsched]
    exact h.ordered k
  later k r hr := by
    obtain ⟨hold, hnew, hlt, hcall⟩ := h.later k r (hrep ▸ hr)
    exact ⟨hold, hnew, hlt, by simp [hcalls, getElem?_calls, hcall]⟩

/-- An accepted task is the last one to wait under its key; what it replaces leaves the lane. -/
theorem of_accepted (h : Accounted s) (task : Task C R) (init : List Nat)
    (dropped : List (Task C R)) (hcalls : s'.calls = s.calls ++ [(key, true)])
    (hstart : s'.started = s.started)
    (hrep : s'.replaced = update s.replaced key
      (s.replaced key ++ dropped.map fun old => (old, task)))
    (hother : ∀ k, k ≠ key → s'.sched.waiting k = s.sched.waiting k)
    (hold : (s.sched.waiting key).map (·.ticket) = init ++ dropped.map (·.ticket))
    (hnew : (s'.sched.waiting key).map (·.ticket) = init ++ [s.calls.length])
    (htask : task.ticket = s.calls.length)
    (hboth : ∀ old ∈ dropped, old.coalesce = true ∧ task.coalesce = true) : Accounted s' where
  once n k := by
    have honce := h.once n k
    have hiff : (if s'.calls[n]? = some (k, true) then 1 else 0) =
        (if s.calls[n]? = some (k, true) then 1 else 0) +
          if n = s.calls.length ∧ key = k then 1 else 0 := by
      by_cases hn : n = s.calls.length ∧ key = k
      · simp [hcalls, hn]
      · simp [hcalls, getElem?_calls, hn]
    rw [hiff, ← honce, hstart, hrep]
    by_cases hk : k = key
    · subst hk
      have hone : [s.calls.length].count n = if n = s.calls.length ∧ k = k then 1 else 0 := by
        by_cases hn : n = s.calls.length
        · simp [hn]
        · simp [hn, Ne.symm hn]
      rw [hnew, hold, ← hone]
      simp only [update_self, map_append, map_map, count_append, Function.comp_def]
      omega
    · rw [hother k hk]
      simp [hk, Ne.symm hk]
  ordered k := by
    rw [hstart]
    by_cases hk : k = key
    · subst hk
      have hord := h.ordered k
      rw [hold, ← append_assoc] at hord
      rw [hnew, ← append_assoc, pairwise_append]
      refine ⟨(pairwise_append.mp hord).1, pairwise_singleton .., fun a ha b hb => ?_⟩
      rw [mem_singleton.mp hb]
      refine h.lt_calls (k := k) ?_
      rw [hold, ← append_assoc]
      exact mem_append_left _ ha
    · rw [hother k hk]
      exact h.ordered k
  later k r hr := by
    rw [hrep] at hr
    by_cases hk : k = key
    · subst hk
      rw [update_self] at hr
      rcases mem_append.mp hr with hr | hr
      · obtain ⟨h1, h2, hlt, hcall⟩ := h.later k r hr
        exact ⟨h1, h2, hlt, by simp [hcalls, getElem?_calls, hcall]⟩
      · obtain ⟨old, hmem, rfl⟩ := mem_map.mp hr
        obtain ⟨h1, h2⟩ := hboth old hmem
        refine ⟨h1, h2, ?_, by simp [hcalls, htask]⟩
        rw [htask]
        refine h.lt_calls (k := k) ?_
        rw [hold]
        exact mem_append_right _ (mem_append_right _ (mem_map_of_mem hmem))
    · rw [update_of_ne hk] at hr
      obtain ⟨h1, h2, hlt, hcall⟩ := h.later k r hr
      exact ⟨h1, h2, hlt, by simp [hcalls, getElem?_calls, hcall]⟩

end Accounted

/-! ## Every move keeps the account -/

abbrev ticketed (s : Service K C R) (task : Task C R) : Task C R :=
  { task with ticket := s.calls.length }

theorem submit_sched (s : Service K C R) (key : K) (task : Task C R) :
    (s.submit key task).sched = (s.sched.submit key (ticketed s task)).2 := rfl

theorem submit_calls (s : Service K C R) (key : K) (task : Task C R) :
    (s.submit key task).calls = s.calls ++
      [(key, (s.sched.submit key (ticketed s task)).1.accepted)] := rfl

theorem submit_replaced (s : Service K C R) (key : K) (task : Task C R) :
    (s.submit key task).replaced =
      if (s.sched.submit key (ticketed s task)).1 = .coalesced then
        update s.replaced key (s.replaced key ++ (s.replacing key (ticketed s task)).toList.map
            fun old => (old, ticketed s task))
      else s.replaced := rfl

omit [DecidableEq K] in
theorem coalesced_of_append {init : List (Task C R)} {last : Task C R}
    (hpend : lane.pending = init ++ [last]) (hlast : last.coalesce = true)
    (htask : task.coalesce = true) :
    lane.coalesced task = some last := by
  simp [Lane.coalesced, hpend, htask, hlast, Option.filter]

theorem Accounted.submit {s : Service K C R} (hc : Consistent s.sched s.workers) (h : Accounted s)
    (key : K) (task : Task C R) : Accounted (s.submit key task) := by
  have hsub := hc.submitted key (ticketed s task)
  have hkeys := (hc.of_submitted hsub).keys
  have hsched := submit_sched s key task
  have hcalls := submit_calls s key task
  have hrep := submit_replaced s key task
  generalize (s.sched.submit key (ticketed s task)).1 = o at *
  generalize (s.sched.submit key (ticketed s task)).2 = sched at *
  rw [← hsched] at hkeys
  cases hsub with
  | refused => exact h.of_refused hcalls (by simpa using hrep) rfl hsched
  | @coalesced p init last hp hpend hboth _ hs' =>
    obtain ⟨hmem, rfl⟩ := lookup_eq_some hp
    have hlast : s.replacing (s.sched.heap p).key (ticketed s task) = some last := by
      simp [Service.replacing, hp, coalesced_of_append hpend hboth.1 hboth.2]
    obtain ⟨hself, hother⟩ := waiting_update hc.keys hkeys hmem
      (congrArg Scheduler.heap (hsched.trans hs')) (by rw [hsched, hs']; rfl) rfl
    refine h.of_accepted (ticketed s task) (init.map (·.ticket)) [last] hcalls rfl
      (by simpa [hlast] using hrep) hother ?_ ?_ rfl (by simpa using hboth)
    · rw [waiting_of_mem hc.keys hmem rfl, hpend, map_append]
    · rw [hself, map_append]
      rfl
  | @appended p hp hlt _ hs' =>
    obtain ⟨hmem, rfl⟩ := lookup_eq_some hp
    obtain ⟨hself, hother⟩ := waiting_update hc.keys hkeys hmem
      (congrArg Scheduler.heap (hsched.trans hs')) (by rw [hsched, hs']; rfl) rfl
    refine h.of_accepted (ticketed s task)
      ((s.sched.heap p).pending.map (·.ticket)) [] hcalls rfl (by simpa using hrep) hother ?_ ?_ rfl
      (by simp)
    · rw [waiting_of_mem hc.keys hmem rfl, map_nil, append_nil]
    · rw [hself, map_append]
      rfl
  | queued hp hlt hs' =>
    have hfresh : s.sched.fresh ∉ s.sched.lanes := fun hin => Nat.lt_irrefl _ (hc.old _ hin)
    obtain ⟨hself, hother⟩ := waiting_added hc.keys hkeys hfresh
      (congrArg Scheduler.heap (hsched.trans hs')) (congrArg Scheduler.lanes (hsched.trans hs'))
    refine h.of_accepted (ticketed s task) [] [] hcalls rfl (by simpa using hrep)
      hother ?_ ?_ rfl (by simp)
    · rw [waiting_of_forall_ne (lookup_eq_none.mp hp)]
      rfl
    · rw [hself]
      rfl

variable {s s' : Scheduler K C R}

theorem waiting_next (hc : Consistent s ws)
    (hw : ws[i]? = some (.received p)) (hnext : s.next p = (some task, s')) :
    s.waiting (s.heap p).key = task :: s'.waiting (s.heap p).key ∧
      ∀ k, k ≠ (s.heap p).key → s'.waiting k = s.waiting k := by
  have hkeys := (hc.next hw hnext).keys
  obtain ⟨task', rest, hpend, hq, heq⟩ := hc.next_eq hw
  obtain ⟨rfl, rfl⟩ : task' = task ∧ _ = s' := by simpa [heq] using hnext
  have hmem := (hc.mapped p).mpr (.inl hq)
  obtain ⟨hself, hother⟩ := waiting_update hc.keys hkeys hmem rfl rfl rfl
  exact ⟨by rw [waiting_of_mem hc.keys hmem rfl, hpend, hself], hother⟩

/-- `finish` takes a lane out of the map only when nothing waits in it. -/
theorem waiting_finish (hc : Consistent s ws)
    (hw : ws[i]? = some (.returned p)) (hfin : s.finish p = (b, s')) (k : K) :
    s'.waiting k = s.waiting k := by
  have hmem := (hc.mapped p).mpr (.inr (hc.running_of_works hw (p := p) (by simp [Worker.works])).1)
  by_cases hpend : (s.heap p).pending = []
  · obtain ⟨rfl, rfl⟩ : false = b ∧ (s.setLane p { s.heap p with running := false }).delete
        (s.heap p).key = s' := by
      simpa [Scheduler.finish, hpend] using hfin
    have hkeys := (hc.finish_false hw hfin).keys
    have hsame : ∀ q, (update s.heap p { s.heap p with running := false } q).key =
        (s.heap q).key := congrFun (update_key rfl)
    have hin : ∀ q, q ∈ ((s.setLane p { s.heap p with running := false }).delete
        (s.heap p).key).lanes ↔ q ∈ s.lanes ∧ (s.heap q).key ≠ (s.heap p).key := fun q => by
      simp only [Scheduler.delete, mem_filter, lanes_setLane, heap_setLane, hsame,
        decide_eq_true_eq]
    by_cases hk : k = (s.heap p).key
    · subst hk
      rw [waiting_of_mem hc.keys hmem rfl, hpend]
      exact waiting_of_forall_ne fun q hq => by
        rw [heap_delete, heap_setLane, hsame]
        exact ((hin q).mp hq).2
    · refine waiting_congr hc.keys hkeys (fun q => ?_) fun q _ hq => ?_
      · rw [hin, heap_delete, heap_setLane, hsame]
        constructor
        · rintro ⟨⟨hq, -⟩, hkey⟩
          exact ⟨hq, hkey⟩
        · rintro ⟨hq, hkey⟩
          exact ⟨⟨hq, fun e => hk (hkey.symm.trans e)⟩, hkey⟩
      · have hqp : q ≠ p := fun e => hk (by rw [← hq, e])
        rw [heap_delete, heap_setLane, update_of_ne hqp]
  · obtain ⟨rfl, rfl⟩ : true = b ∧
        s.setLane p { s.heap p with running := false, queued := true } = s' := by
      simpa [Scheduler.finish, hc.alive, hpend] using hfin
    have hkeys := (hc.finish_true hw hfin).keys
    obtain ⟨hself, hother⟩ := waiting_update hc.keys hkeys hmem rfl rfl rfl
    by_cases hk : k = (s.heap p).key
    · rw [hk, hself, waiting_of_mem hc.keys hmem rfl]
    · exact hother k hk

theorem Accounted.step {s s' : Service K C R} (hc : Consistent s.sched s.workers) (h : Accounted s)
    (ha : a.live = true) (hs : s.step a = some s') : Accounted s' := by
  cases hc.moved ha hs with
  | submit key task => exact h.submit hc key task
  | receive | complete | send => exact h.of_work rfl rfl fun k => rfl
  | @next i p task sched hw heq =>
    obtain ⟨hfirst, hother⟩ := waiting_next hc hw heq
    refine h.of_work rfl rfl fun k => ?_
    by_cases hk : k = (s.sched.heap p).key
    · subst hk
      simp [hfirst]
    · simp [hk, hother k hk]
  | finish b hw heq => exact h.of_work rfl rfl fun k => by simp only [waiting_finish hc hw heq]; rfl

theorem Reached.accounted [Inhabited K] {ctx : C} {s : Service K C R} (h : Reached ctx s) :
    Accounted s :=
  (Machine.Reach.invariant (I := fun s => Consistent s.sched s.workers ∧ Accounted s) h
    ⟨.new ctx, .new ctx⟩ fun _ _ _ hi ha hs => ⟨hi.1.step ha hs, hi.2.step hi.1 ha hs⟩).2

/-! ## The workers use up what waits -/

/-- The moves that a worker has left with the lane that it has. -/
def Worker.left : Worker C R → Nat
  | .idle | .exited => 0
  | .received _ => 1
  | .sending _ => 3
  | .returned _ => 4
  | .running _ _ => 5

/-- The workers' moves that are left if nothing more is submitted. -/
def Service.left (s : Service K C R) : Nat :=
  5 * s.sched.pending.toNat + 2 * s.sched.ready.length + (s.workers.map Worker.left).sum

omit [DecidableEq K] in
theorem Consistent.pending_pos (h : Consistent s ws) (hp : p ∈ s.lanes)
    (hne : (s.heap p).pending ≠ []) : 0 < s.pending := by
  have hsum := sum_map_erase (fun q => (s.heap q).pending.length) hp
  have hlen := length_pos_iff.mpr hne
  have := h.total
  omega

theorem finish_counts (h : s.finish p = (b, s')) : s'.pending = s.pending ∧ s'.ready = s.ready := by
  simp only [Scheduler.finish] at h
  split at h <;> obtain ⟨-, rfl⟩ := Prod.mk.inj h <;> exact ⟨rfl, rfl⟩

omit [DecidableEq K] in
theorem Action.live_of_work (h : a.work = true) : a.live = true := by
  cases a <;> simp_all [Action.work, Action.live]

theorem Service.left_lt {s s' : Service K C R} (h : Consistent s.sched s.workers)
    (ha : a.work = true) (hs : s.step a = some s') : s'.left < s.left := by
  cases h.moved (Action.live_of_work ha) hs with
  | submit key task => simp [Action.work] at ha
  | @receive i p ready hw hready =>
    have hsum : _ + 0 = _ + 1 := sum_map_set_add Worker.left hw (.received p)
    simp only [Service.left, setWorker, hready, length_cons]
    omega
  | @next i p task sched hw heq =>
    obtain ⟨task', rest, hpend, hq, heq'⟩ := h.next_eq hw
    cases heq.symm.trans heq'
    have hpos := h.pending_pos ((h.mapped p).mpr (.inl hq)) (h.waiting p hq)
    have hsum : _ + 1 = _ + 5 := sum_map_set_add Worker.left hw (.running p task)
    simp only [Service.left, setWorker, ready_setLane]
    omega
  | @complete i p task hw =>
    have hsum : _ + 5 = _ + 4 := sum_map_set_add Worker.left hw (.returned p)
    simp only [Service.left, setWorker]
    omega
  | @finish i p sched b hw heq =>
    obtain ⟨hpend, hready⟩ := finish_counts heq
    have hsum := sum_map_set_add Worker.left hw (if b then .sending p else .idle)
    simp only [Service.left, setWorker, hpend, hready]
    cases b <;> simp only [Worker.left, if_true, if_false, Bool.false_eq_true] at hsum ⊢ <;> omega
  | @send i p hw =>
    have hsum : _ + 3 = _ + 0 := sum_map_set_add Worker.left hw .idle
    simp only [Service.left, setWorker, length_append, length_singleton]
    omega

/-- Workers that cannot move are all waiting at an empty channel, and no lane is left. -/
theorem Consistent.lanes_of_stuck {s : Service K C R} (h : Consistent s.sched s.workers)
    (hstuck : ∀ a : Action K C R, a.work = true → s.step a = none) : s.sched.lanes = [] := by
  have hidle : ∀ (i : Nat) (w : Worker C R), s.workers[i]? = some w → w = .idle := fun i w hw => by
    cases w with
    | idle => rfl
    | received p => simpa [Service.step, hw] using hstuck (.next i) rfl
    | running p task => simpa [Service.step, hw] using hstuck (.complete i) rfl
    | returned p => simpa [Service.step, hw] using hstuck (.finish i) rfl
    | sending p => simpa [Service.step, hw, h.ready_lt_of_sending hw] using hstuck (.send i) rfl
    | exited => exact absurd (mem_of_getElem? hw) h.staffed.2
  have hall : ∀ q : Worker C R → Bool, q .idle = false → s.workers.countP q = 0 := fun q hq => by
    refine countP_eq_zero.mpr fun w hw => ?_
    obtain ⟨i, hi⟩ := getElem?_of_mem hw
    simp [hidle i w hi, hq]
  have hready : s.sched.ready = [] := by
    have hlen : 0 < s.workers.length := by
      rw [h.staffed.1]
      decide
    have hw : s.workers[0]? = some .idle := by
      rw [getElem?_eq_getElem hlen, hidle 0 _ (getElem?_eq_getElem hlen)]
    cases hr : s.sched.ready with
    | nil => rfl
    | cons p ready => simpa [Service.step, hw, hr] using hstuck (.receive 0) rfl
  refine eq_nil_iff_forall_not_mem.mpr fun p hp => ?_
  have hheld := h.held p
  have hbusy := h.busy p
  rw [hready, hall _ rfl, hall _ rfl] at hheld
  rw [hall _ rfl] at hbusy
  rcases (h.mapped p).mp hp with hq | hr
  · simp [hq] at hheld
  · simp [hr] at hbusy

/-- Tasks of a key start in the order of their calls and one at a time; every accepted call's task
is in exactly one of three places: started, waiting, or replaced by a later one of its key while
it was the last to wait; a refused call changes nothing and its task is never started; and when
only the workers go on, they come to an end, where nothing waits any more. -/
theorem tasks_run_once_in_order [Inhabited K] {ctx : C} {s : Service K C R} (h : Reached ctx s) :
    (∀ k, (s.started k).Pairwise (· < ·)) ∧
    (∀ (i j p q : Nat) (t u : Task C R), s.workers[i]? = some (.running p t) →
      s.workers[j]? = some (.running q u) → (s.sched.heap p).key = (s.sched.heap q).key → i = j) ∧
    (∀ n k, (s.started k ++ (s.sched.waiting k).map (·.ticket) ++
      (s.replaced k).map (·.1.ticket)).count n = if s.calls[n]? = some (k, true) then 1 else 0) ∧
    (∀ k, ∀ r ∈ s.replaced k, r.1.coalesce = true ∧ r.2.coalesce = true ∧
      r.1.ticket < r.2.ticket ∧ s.calls[r.2.ticket]? = some (k, true)) ∧
    (∀ key task old, s.replacing key task = some old →
      s.sched.waiting key = (s.sched.waiting key).dropLast ++ [old]) ∧
    (∀ key task, (s.sched.submit key task).1.accepted = false →
      (s.sched.submit key task).2 = s.sched) ∧
    (∀ (as : List (Action K C R)) (t : Service K C R),
      (machine K C R).run (fun _ a => a.work) s as = some t → as.length ≤ s.left ∧
        ((∀ a : Action K C R, a.work = true → t.step a = none) →
          ∀ n k, t.calls[n]? = some (k, true) →
            (t.started k).count n + ((t.replaced k).map (·.1.ticket)).count n = 1)) := by
  have hc := h.consistent
  have ha := h.accounted
  refine ⟨fun k => (pairwise_append.mp (ha.ordered k)).1, fun i j p q t u hi hj hkey => ?_, ha.once,
    ha.later, fun key task old hold => ?_, fun key task href => ?_, fun as t hrun => ⟨?_, ?_⟩⟩
  · have hp := (hc.running_of_works hi (p := p) (by simp [Worker.works])).1
    have hq := (hc.running_of_works hj (p := q) (by simp [Worker.works])).1
    obtain rfl := inj_on_of_nodup_map hc.keys ((hc.mapped p).mpr (.inr hp))
      ((hc.mapped q).mpr (.inr hq)) hkey
    have hone : s.workers.countP (·.works p) ≤ 1 := hc.busy p ▸ Bool.toNat_le _
    exact eq_of_countP_le_one hone hi hj (by simp [Worker.works]) (by simp [Worker.works])
  · obtain ⟨p, hp, hlast⟩ := Option.bind_eq_some_iff.mp hold
    obtain ⟨hmem, rfl⟩ := lookup_eq_some hp
    rw [waiting_of_mem hc.keys hmem rfl]
    exact (coalesced_eq_some hlast).1
  · exact (hc.submitted key task).sched_of_refused href
  · exact Machine.run_length_le (I := fun s => Consistent s.sched s.workers) (μ := Service.left)
      (fun _ a _ hi hw hs => ⟨hi.step (Action.live_of_work hw) hs, Service.left_lt hi hw hs⟩) hc
      hrun
  · intro hstuck n k hcall
    have ht : Reached ctx t :=
      h.trans ((Machine.reach_of_run hrun).mono fun _ _ => Action.live_of_work)
    have honce := ht.accounted.once n k
    have hlanes := ht.consistent.lanes_of_stuck hstuck
    rw [waiting_of_forall_ne (by simp [hlanes]), if_pos hcall] at honce
    simpa using honce

/-- The second of three calls for one key is replaced while the first one's task runs. -/
theorem tasks_run_once_in_order_coalesced : ∃ s : Service String Unit Unit, Reached () s ∧
    s.started "u1" = [0, 2] ∧ (s.replaced "u1").map (·.1.ticket) = [1] ∧
    (s.started "u1" ++ (s.sched.waiting "u1").map (·.ticket) ++
      (s.replaced "u1").map (·.1.ticket)).count 2 = 1 := by
  obtain ⟨s, hreach, hstarted, hreplaced, hcall⟩ : ∃ s : Service String Unit Unit, Reached () s ∧
      s.started "u1" = [0, 2] ∧ (s.replaced "u1").map (·.1.ticket) = [1] ∧
      s.calls[2]? = some ("u1", true) :=
    Machine.exists_reach [.submit "u1" ⟨none, some (), true, 0⟩, .receive 0, .next 0,
      .submit "u1" ⟨none, some (), true, 0⟩, .submit "u1" ⟨none, some (), true, 0⟩, .complete 0,
      .finish 0, .send 0, .receive 1, .next 1] (by decide +kernel)
  obtain ⟨-, -, honce, -⟩ := tasks_run_once_in_order hreach
  exact ⟨s, hreach, hstarted, hreplaced, by rw [honce 2 "u1", if_pos hcall]⟩

end TelegramServer.Notify
