import TelegramServer.Api.Hydrate
import TelegramServer.Store.Runs

/-!
# Batches of an account's log

On a log without gaps a batch takes the next events in order: none is left out below
the pts it advertises. Events that announce or edit a message always hydrate.
-/

namespace TelegramServer.Api

open Tx TelegramServer.Store List

/-! ## Prefixes of ascending lists -/

theorem mem_take_of_le {α : Type} {f : α → Int} {xs : List α} (h : xs.Pairwise (f · < f ·))
    {k : Nat} {x y : α} (hx : x ∈ xs) (hy : y ∈ xs.take k) (hle : f x ≤ f y) : x ∈ xs.take k := by
  rw [← take_append_drop k xs, pairwise_append] at h
  rw [← take_append_drop k xs] at hx
  rcases mem_append.mp hx with hx | hx
  · exact hx
  · have := h.2.2 y hy x hx
    omega

theorem le_getLast {α : Type} {f : α → Int} {xs : List α} (h : xs.Pairwise (f · < f ·)) {x y : α}
    (hx : x ∈ xs) (hy : xs.getLast? = some y) : f x ≤ f y := by
  obtain ⟨ys, rfl⟩ := getLast?_eq_some_iff.mp hy
  rcases mem_append.mp hx with hx | hx
  · have := (pairwise_append.mp h).2.2 x hx y (by simp)
    omega
  · rw [mem_singleton.mp hx]

section Window

variable {s : State} {u : Int}

theorem stateOf_pts (withUnread : Bool) : (stateOf s u withUnread).pts = s.store.ptsOf u := by
  simp only [stateOf, DB.ptsOf]
  cases s.store.getState u <;> rfl

theorem numbered_eventLog (hlog : LogOk u (s.store.ofOwner u)) :
    Numbered (·.pts) (s.store.eventLog u) (s.store.ptsOf u) := by
  rw [← s.store.ptsOf_ofOwner u]
  exact hlog.events

variable (hlog : Numbered (·.pts) (s.store.eventLog u) (s.store.ptsOf u))

include hlog

omit hlog in
theorem filter_events (fromPts toPts : Int) :
    (s.store.events.filter fun e => e.ownerID = u ∧ fromPts < e.pts ∧ e.pts ≤ toPts) =
      (s.store.eventLog u).filter fun e => fromPts < e.pts ∧ e.pts ≤ toPts := by
  simp only [DB.eventLog, filter_filter]
  congr 1
  funext e
  simp [Bool.and_comm]

theorem eventsWindow_eq (fromPts toPts : Int) (limit : Nat) : eventsWindow s u fromPts toPts limit =
      ((s.store.eventLog u).filter fun e => fromPts < e.pts ∧ e.pts ≤ toPts).take limit := by
  have hsorted : ((s.store.eventLog u).filter fun e => fromPts < e.pts ∧ e.pts ≤ toPts).Pairwise
      (·.pts ≤ ·.pts) :=
    (hlog.pairwise.imp fun h => h.le).filter _
  rw [eventsWindow, filter_events, hsorted.insertionSort_eq]

omit hlog in
def newer (s : State) (u fromPts : Int) : List Event :=
  (s.store.eventLog u).filter (fromPts < ·.pts)

omit hlog in
abbrev page (s : State) (u fromPts : Int) : List Event := (newer s u fromPts).take maxDiffEvents

theorem pairwise_newer (fromPts : Int) : (newer s u fromPts).Pairwise (·.pts < ·.pts) :=
  hlog.pairwise.filter _

theorem batchEvents_eq (fromPts : Int) : batchEvents s u fromPts (s.store.ptsOf u) =
      (page s u fromPts, decide (maxDiffEvents < (newer s u fromPts).length)) := by
  have hnewer : ((s.store.eventLog u).filter fun e => fromPts < e.pts ∧ e.pts ≤ s.store.ptsOf u) =
      newer s u fromPts := by
    refine filter_congr fun e he => ?_
    simp [(hlog.num_mem he).2]
  simp only [batchEvents, eventsWindow_eq hlog, hnewer, take_take, length_take]
  congr 1
  simp

end Window

section Batch

variable {env : Env} {s : State} {u fromPts : Int} {withUnread : Bool}
  (hlog : Numbered (·.pts) (s.store.eventLog u) (s.store.ptsOf u))

include hlog

theorem buildUpdates_state : (buildUpdates env s u fromPts withUnread).state =
      clampState (stateOf s u withUnread) (page s u fromPts)
        (decide (maxDiffEvents < (newer s u fromPts).length)) := by
  simp only [buildUpdates, stateOf_pts, batchEvents_eq hlog]

theorem buildUpdates_more : (buildUpdates env s u fromPts withUnread).more =
      decide (maxDiffEvents < (newer s u fromPts).length) := by
  simp only [buildUpdates, stateOf_pts, batchEvents_eq hlog]

theorem buildUpdates_ups : (buildUpdates env s u fromPts withUnread).ups =
      (renderEvents env s u (page s u fromPts)).map fun r => (r.1.pts, r.2.update) := by
  simp only [buildUpdates, stateOf_pts, batchEvents_eq hlog]

omit hlog in
@[simp] theorem buildUpdates_head :
    (buildUpdates env s u fromPts withUnread).head = s.store.ptsOf u := by
  simp only [buildUpdates, stateOf_pts]

theorem state_pts_cases : (maxDiffEvents < (newer s u fromPts).length ∧
      ∃ e, (page s u fromPts).getLast? = some e ∧
        (buildUpdates env s u fromPts withUnread).state.pts = e.pts) ∨
      ((newer s u fromPts).length ≤ maxDiffEvents ∧
        (buildUpdates env s u fromPts withUnread).state.pts = s.store.ptsOf u) := by
  rw [buildUpdates_state hlog]
  by_cases hmore : maxDiffEvents < (newer s u fromPts).length
  · have hne : page s u fromPts ≠ [] := by
      intro hnil
      have := congrArg List.length hnil
      simp [maxDiffEvents] at this hmore
      simp [this] at hmore
    obtain ⟨e, he⟩ := Option.isSome_iff_exists.mp (getLast?_isSome.mpr hne)
    exact .inl ⟨hmore, e, he, by simp [clampState, hmore, he]⟩
  · exact .inr ⟨Nat.le_of_not_lt hmore, by simp [clampState, hmore, stateOf_pts]⟩

theorem newer_pts (h0 : 0 ≤ fromPts) :
    (newer s u fromPts).map (·.pts) = (upto (s.store.ptsOf u)).drop fromPts.toNat := by
  have hfilter : (newer s u fromPts).map (·.pts) =
      ((s.store.eventLog u).map (·.pts)).filter (fromPts < ·) := by
    rw [filter_map]
    rfl
  rw [hfilter, show (s.store.eventLog u).map (·.pts) = upto (s.store.ptsOf u) from hlog]
  exact filter_upto h0

theorem window_end (h0 : 0 ≤ fromPts) :
    (buildUpdates env s u fromPts withUnread).more =
      decide (fromPts + maxDiffEvents < s.store.ptsOf u) ∧
        (buildUpdates env s u fromPts withUnread).state.pts =
        if fromPts + maxDiffEvents < s.store.ptsOf u then fromPts + maxDiffEvents
          else s.store.ptsOf u := by
  have hlen : maxDiffEvents < (newer s u fromPts).length ↔
      fromPts + maxDiffEvents < s.store.ptsOf u := by
    rw [← length_map (f := (·.pts)), newer_pts hlog h0, length_drop]
    simp only [upto, length_map, length_range]
    omega
  refine ⟨by rw [buildUpdates_more hlog, decide_eq_decide]; exact hlen, ?_⟩
  rcases @state_pts_cases env s u fromPts withUnread hlog with ⟨hmore, e, he, hpts⟩ | ⟨hwhole, hpts⟩
  · rw [if_pos (hlen.mp hmore), hpts]
    have hlast : (((newer s u fromPts).map (·.pts)).take maxDiffEvents).getLast? = some e.pts := by
      rw [← map_take, getLast?_map, he]
      rfl
    have hlength : (((newer s u fromPts).map (·.pts)).take maxDiffEvents).length =
        maxDiffEvents := by
      rw [length_take, length_map]
      omega
    rw [getLast?_eq_getElem?, hlength, getElem?_take, newer_pts hlog h0, getElem?_drop] at hlast
    split at hlast
    · have := getElem?_upto hlast
      simp only [maxDiffEvents] at this ⊢
      omega
    · cases hlast
  · rw [if_neg (by omega), hpts]

theorem state_pts_le : (buildUpdates env s u fromPts withUnread).state.pts ≤ s.store.ptsOf u := by
  rcases state_pts_cases hlog with ⟨-, e, he, hpts⟩ | ⟨-, hpts⟩
  · rw [hpts]
    have hmem := mem_of_mem_take (mem_of_getLast? he)
    exact (hlog.num_mem (mem_filter.mp hmem).1).2
  · exact hpts.le

variable {e : Event}

theorem mem_batch (he : e ∈ s.store.eventLog u) (hlt : fromPts < e.pts)
    (hle : e.pts ≤ (buildUpdates env s u fromPts withUnread).state.pts) :
    e ∈ page s u fromPts := by
  have hmem : e ∈ newer s u fromPts := mem_filter.mpr ⟨he, by simpa using hlt⟩
  rcases state_pts_cases hlog with ⟨-, l, hl, hpts⟩ | ⟨hlen, -⟩
  · exact mem_take_of_le (pairwise_newer hlog fromPts) hmem (mem_of_getLast? hl) (hpts ▸ hle)
  · rwa [page, take_of_length_le hlen]

theorem batch_bounds (he : e ∈ page s u fromPts) : e ∈ s.store.eventLog u ∧ fromPts < e.pts ∧
      e.pts ≤ (buildUpdates env s u fromPts withUnread).state.pts := by
  obtain ⟨hmem, hlt⟩ := mem_filter.mp (mem_of_mem_take he)
  refine ⟨hmem, by simpa using hlt, ?_⟩
  rcases state_pts_cases hlog with ⟨-, l, hl, hpts⟩ | ⟨-, hpts⟩
  · rw [hpts]
    exact le_getLast ((pairwise_newer hlog fromPts).take) he hl
  · rw [hpts]
    exact (hlog.num_mem hmem).2

omit hlog in
theorem map_renderEvents_sublist (env : Env) (s : State) (u : Int) (events : List Event) :
    ((renderEvents env s u events).map (·.1)).Sublist events := by
  simp only [renderEvents, map_filterMap]
  generalize hf : (fun ev => Option.map _ _) = f
  have hsome : ∀ ev x, f ev = some x → x = ev := by
    subst hf
    intro ev x hx
    simp only [Option.map_map, Option.map_eq_some_iff, Function.comp_apply] at hx
    obtain ⟨_, -, rfl⟩ := hx
    rfl
  clear hf
  induction events with
  | nil => simp
  | cons ev events ih =>
    cases hev : f ev with
    | none =>
      rw [filterMap_cons_none hev]
      exact ih.cons ev
    | some x =>
      rw [filterMap_cons_some hev, hsome ev x hev]
      exact ih.cons_cons ev

section Ascending

omit hlog

variable (hkey : ((s.store.eventLog u).map (·.pts)).Nodup)

include hkey

theorem pairwise_eventsWindow (toPts : Int) (limit : Nat) :
    (eventsWindow s u fromPts toPts limit).Pairwise (·.pts < ·.pts) := by
  rw [eventsWindow, filter_events]
  set window := (s.store.eventLog u).filter fun e => fromPts < e.pts ∧ e.pts ≤ toPts
  have hle : (window.insertionSort (·.pts ≤ ·.pts)).Pairwise (·.pts ≤ ·.pts) :=
    pairwise_insertionSort _ _
  have hne : (window.insertionSort (·.pts ≤ ·.pts)).Pairwise (·.pts ≠ ·.pts) := by
    rw [← pairwise_map]
    exact (((perm_insertionSort _ window).map _).nodup_iff).mpr
      (hkey.sublist (filter_sublist.map _))
  exact ((hle.and hne).imp fun h => lt_of_le_of_ne h.1 h.2).take

theorem ascending_ups : ((buildUpdates env s u fromPts withUnread).ups.map (·.1)).Pairwise
    (· < ·) := by
  have hwindow : ((batchEvents s u fromPts (stateOf s u withUnread).pts).1.map (·.pts)).Pairwise
      (· < ·) :=
    pairwise_map.mpr (pairwise_eventsWindow hkey _ _).take
  have hsub := (map_renderEvents_sublist env s u
    (batchEvents s u fromPts (stateOf s u withUnread).pts).1).map (·.pts)
  refine hwindow.sublist ?_
  simpa [buildUpdates, Function.comp_def] using hsub

end Ascending

theorem ups_sublist : ((buildUpdates env s u fromPts withUnread).ups.map (·.1)).Sublist
      ((page s u fromPts).map (·.pts)) := by
  have h := (map_renderEvents_sublist env s u (page s u fromPts)).map (·.pts)
  rw [buildUpdates_ups hlog]
  simpa [Function.comp_def] using h

theorem ups_bounds {x : Int × Wire.Update}
    (hx : x ∈ (buildUpdates env s u fromPts withUnread).ups) :
    0 < x.1 ∧ fromPts < x.1 ∧ x.1 ≤ (buildUpdates env s u fromPts withUnread).state.pts := by
  obtain ⟨e, he, hpts⟩ := mem_map.mp ((ups_sublist hlog).mem (mem_map_of_mem hx))
  obtain ⟨hmem, hlt, hle⟩ := @batch_bounds env s u fromPts withUnread hlog e he
  rw [← hpts]
  exact ⟨(hlog.num_mem hmem).1, hlt, hle⟩

/-- The event still has something to show: a deletion names its id, the others need the row. -/
def Hydrates (s : State) (u : Int) (e : Event) : Prop :=
  e.type = .delete ∨ e.localID ≠ 0 ∧ (s.store.messageByOwnerLocal u e.localID).isSome

omit hlog in
theorem eventToUpdate_isSome {events : List Event} (he : e ∈ events)
    (docs : Int → Option Wire.Document) :
    (eventToUpdate s u e (batchMessages s u events) docs).isSome ↔ Hydrates s u e := by
  have hmsgs : e.type ≠ .delete → batchMessages s u events e.localID =
      if e.localID ≠ 0 then s.store.messageByOwnerLocal u e.localID else none := by
    intro hdelete
    have hany : events.any (fun x => x.type ≠ .delete ∧ x.localID = e.localID) = true :=
      any_eq_true.mpr ⟨e, he, by simpa using hdelete⟩
    simp only [batchMessages, hany, and_true]
  unfold Hydrates
  cases htype : e.type with
  | delete => simp [eventToUpdate, htype]
  | _ =>
    have hrow := hmsgs (by simp [htype])
    by_cases h0 : e.localID = 0
    · rw [h0] at hrow
      simp [eventToUpdate, htype, hrow, h0]
    · simp [eventToUpdate, htype, hrow, h0]

/-- The batch has the updates of the events up to the pts it advertises that hydrate. -/
theorem mem_ups_iff (he : e ∈ s.store.eventLog u) :
    e.pts ∈ (buildUpdates env s u fromPts withUnread).ups.map (·.1) ↔
      fromPts < e.pts ∧ e.pts ≤ (buildUpdates env s u fromPts withUnread).state.pts ∧
        Hydrates s u e := by
  set batch := page s u fromPts with hbatch
  have hin : ∀ {y}, y ∈ batch → y ∈ s.store.eventLog u := fun hy =>
    (mem_filter.mp (mem_of_mem_take hy)).1
  rw [buildUpdates_ups hlog, map_map, ← hbatch, renderEvents]
  set docs := loadFiles env s ((batch.map (·.localID)).dedup.filterMap (batchMessages s u batch))
  constructor
  · intro hmem
    obtain ⟨r, hr, hpts⟩ := mem_map.mp hmem
    obtain ⟨e', he', hsome⟩ := mem_filterMap.mp hr
    obtain ⟨x, hx, rfl⟩ := Option.map_eq_some_iff.mp hsome
    obtain rfl := hlog.eq_of_num (hin he') he hpts
    obtain ⟨-, hlt, hle⟩ := @batch_bounds env s u fromPts withUnread hlog e' he'
    exact ⟨hlt, hle, (eventToUpdate_isSome he' docs).mp (by simp [hx])⟩
  · rintro ⟨hlt, hle, hhydrates⟩
    have he' : e ∈ batch := mem_batch hlog he hlt hle
    obtain ⟨x, hx⟩ := Option.isSome_iff_exists.mp ((eventToUpdate_isSome he' docs).mpr hhydrates)
    exact mem_map.mpr ⟨(e, x), mem_filterMap.mpr ⟨e, he', by simp [hx]⟩, rfl⟩

end Batch

end TelegramServer.Api
