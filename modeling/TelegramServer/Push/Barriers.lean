import TelegramServer.Api.Batch
import TelegramServer.Push.Deliver

/-!
# Ready barriers

The results behind the barriers are out, nothing else moves, and every push succeeds. Then a
delivery releases the first barrier when the watermark stands right before its event, or when the
event right before it has an update that the delivery can push. It stops at the first barrier for
which neither holds.
-/

namespace TelegramServer.Push

open Conc TelegramServer.Api TelegramServer.Store List

section Window

variable {p : Int} {up : Wire.Update} {i : Nat} {b : UpdateBatch}

theorem holdsResult_iff :
    holdsResult b i p = true ↔ ∃ up, b.ups[i]? = some (p, up) ∧ isRPCResultUpdate up = true := by
  rw [holdsResult]
  cases b.ups[i]? with
  | none => simp
  | some x =>
    obtain ⟨q, up⟩ := x
    simp only [Option.any_some, Bool.and_eq_true, decide_eq_true_eq, Option.some.injEq,
      Prod.mk.injEq]
    constructor
    · rintro ⟨rfl, hup⟩
      exact ⟨up, ⟨rfl, rfl⟩, hup⟩
    · rintro ⟨up', ⟨rfl, rfl⟩, hup⟩
      exact ⟨rfl, hup⟩

theorem ptsAt_lt (h : i < b.search p) : ptsAt b i < p := by
  have hlen : i < b.ups.length := h.trans_le findIdx_le_length
  have hnot := not_of_lt_findIdx h
  rw [ptsAt, getElem?_eq_getElem hlen]
  simpa using hnot

section Sorted

variable {b : UpdateBatch} (hsorted : (b.ups.map (·.1)).Pairwise (· < ·))

include hsorted

theorem pts_lt_of_lt {j : Nat} {x y : Int × Wire.Update} (hx : b.ups[i]? = some x)
    (hy : b.ups[j]? = some y) (hij : i < j) : x.1 < y.1 := by
  obtain ⟨hi, rfl⟩ := List.getElem?_eq_some_iff.mp hx
  obtain ⟨hj, rfl⟩ := List.getElem?_eq_some_iff.mp hy
  exact pairwise_iff_getElem.mp (pairwise_map.mp hsorted) i j hi hj hij

theorem search_le_iff {k : Nat} {x : Int × Wire.Update} (hx : b.ups[k]? = some x) :
    b.search p ≤ k ↔ p ≤ x.1 := by
  obtain ⟨hk, rfl⟩ := List.getElem?_eq_some_iff.mp hx
  constructor
  · intro hle
    by_contra hlt
    refine absurd hle (not_le.mpr (lt_findIdx_of_not hk fun j hj => ?_))
    rcases hj.eq_or_lt with rfl | hj
    · simpa using hlt
    · have := pts_lt_of_lt hsorted (getElem?_eq_getElem (hj.trans hk)) hx hj
      simp only [decide_eq_true_eq, not_le]
      omega
  · intro hle
    by_contra hlt
    have := not_of_lt_findIdx (not_le.mp hlt)
    simp [hle] at this

theorem search_mono {q : Int} (hpq : p ≤ q) : b.search p ≤ b.search q := by
  by_contra hlt
  have hlen : b.search q < b.ups.length := (not_le.mp hlt).trans_le findIdx_le_length
  have hget := getElem?_eq_getElem hlen
  have hq := (search_le_iff hsorted hget).mp le_rfl
  exact hlt ((search_le_iff hsorted hget).mpr (hpq.trans hq))

theorem getElem?_search (hmem : (p, up) ∈ b.ups) : b.ups[b.search p]? = some (p, up) := by
  obtain ⟨k, hk⟩ := mem_iff_getElem?.mp hmem
  have hle : b.search p ≤ k := (search_le_iff hsorted hk).mpr le_rfl
  have hlen : b.search p < b.ups.length := hle.trans_lt (List.getElem?_eq_some_iff.mp hk).1
  have hget := getElem?_eq_getElem hlen
  have hge := (search_le_iff hsorted hget).mp le_rfl
  rcases hle.eq_or_lt with heq | hlt
  · rw [heq, hk]
  · exact absurd (pts_lt_of_lt hsorted hget hk hlt) (not_lt.mpr hge)

theorem search_succ (hget : b.ups[b.search p]? = some (p, up)) :
    b.search (p + 1) = b.search p + 1 := by
  refine le_antisymm ?_ ?_
  · rcases Nat.lt_or_ge (b.search p + 1) b.ups.length with hlen | hlen
    · have hnext := getElem?_eq_getElem hlen
      rw [search_le_iff hsorted hnext]
      have := pts_lt_of_lt hsorted hget hnext (Nat.lt_succ_self _)
      exact this
    · exact findIdx_le_length.trans hlen
  · by_contra hlt
    have hle : b.search (p + 1) ≤ b.search p := by omega
    have := (search_le_iff hsorted hget).mp hle
    omega

end Sorted

end Window

variable {key u : Int} {s : Shared}

def Shared.pushed (s : Shared) (pts : Int) (sent : List Int) : Shared :=
  { s with
    conn := s.conn.pushedUpTo pts
    pushes := s.pushes ++ [⟨sent, s.attempt.event, s.results⟩] }

def Conn.queue (c : Conn) : List Pending :=
  c.pendingRPC ++ c.pendingRPCOverflow

/-- The connection serves `u` under an auth key, and the barriers are `u`'s. -/
structure Conn.Serves (c : Conn) (u : Int) : Prop where
  owner : c.owner = u
  authKey : c.authKeyID ≠ 0
  pending : c.pendingRPC ≠ [] → c.pendingRPCOwner = u
  open_ : c.pendingRPCOverflowSaturated = false

namespace Conn.Serves

variable {c : Conn} {e : Pending} {es : List Pending}

theorem pendingRPCUpdate (h : c.Serves u) : c.pendingRPCUpdate u = c.queue.head?.map (·.pts) := by
  unfold Conn.pendingRPCUpdate Conn.queue
  cases hp : c.pendingRPC with
  | cons x xs => simp [h.pending (by simp [hp])]
  | nil => cases ho : c.pendingRPCOverflow <;> simp [h.owner, h.open_]

theorem pendingRPCUpdateReady (h : c.Serves u) :
    c.pendingRPCUpdateReady u = c.queue.head?.any (·.ready) := by
  unfold Conn.pendingRPCUpdateReady Conn.queue
  cases hp : c.pendingRPC with
  | cons x xs => simp [h.pending (by simp [hp])]
  | nil => simp [h.owner]

theorem pushedUpTo (h : c.Serves u) (pts : Int) : (c.pushedUpTo pts).Serves u :=
  ⟨h.owner, h.authKey, h.pending, h.open_⟩

theorem mark (h : c.Serves u) (hq : c.queue = e :: es) (he : 0 < e.pts) :
    ∃ c', c.markRPCUpdate u c.authKeyID e.pts = (true, c') ∧ c'.Serves u ∧ c'.queue = es ∧
      c'.lastPushedPts = max c.lastPushedPts e.pts ∧ c'.authKeyID = c.authKeyID := by
  have hkey : ¬(c.authKeyID = 0 ∨ e.pts ≤ 0) := by
    have := h.authKey
    omega
  have hsame : ¬(c.owner ≠ u ∨ c.authKeyID ≠ c.authKeyID) := by simp [h.owner]
  unfold Conn.queue at hq
  unfold Conn.markRPCUpdate
  rw [if_neg hkey, if_neg hsame]
  cases hp : c.pendingRPC with
  | cons x xs =>
    rw [hp, cons_append] at hq
    obtain ⟨rfl, rfl⟩ := List.cons.inj hq
    dsimp only
    rw [if_neg he.ne', if_neg (by simp)]
    refine ⟨_, rfl, ⟨h.owner, h.authKey, fun hne => ?_, h.open_⟩, ?_, rfl, rfl⟩
    · simp only [removePendingRPCAt, Conn.pushedUpTo, hp, eraseIdx_zero, tail_cons] at hne ⊢
      rw [if_neg hne]
      exact h.pending (by simp [hp])
    · simp [Conn.queue, removePendingRPCAt, Conn.pushedUpTo, hp]
  | nil =>
    rw [hp, nil_append] at hq
    rw [hq]
    dsimp only
    rw [if_neg he.ne', if_neg (by simp)]
    refine ⟨_, rfl, ⟨h.owner, h.authKey, fun hne => absurd hp hne, h.open_⟩, ?_, rfl, rfl⟩
    simp [Conn.queue, removePendingRPCOverflowAt, Conn.pushedUpTo, hp, hq]

end Conn.Serves

section Sorted

variable {b : UpdateBatch} (hsorted : (b.ups.map (·.1)).Pairwise (· < ·)) {w p : Int}

include hsorted

theorem ptsAt_of_mem (hw : w + 1 < p) (hmem : p - 1 ∈ b.ups.map (·.1)) :
    b.search (w + 1) < b.search p ∧ ptsAt b (b.search p - 1) = p - 1 := by
  obtain ⟨⟨q, up⟩, hq, rfl⟩ := mem_map.mp hmem
  have hget := getElem?_search hsorted hq
  have hnext : b.search p = b.search (p - 1) + 1 := by
    have := search_succ hsorted hget
    rwa [sub_add_cancel] at this
  have hle : b.search (w + 1) ≤ b.search (p - 1) := search_mono hsorted (by omega)
  refine ⟨by omega, ?_⟩
  rw [hnext, Nat.add_sub_cancel, ptsAt, hget]
  rfl

/-- What stands before the barrier in the batch is the last event with an update before it. -/
theorem ptsAt_before (h : b.search (w + 1) < b.search p) :
    ptsAt b (b.search p - 1) ∈ b.ups.map (·.1) ∧ w < ptsAt b (b.search p - 1) ∧
      ptsAt b (b.search p - 1) < p ∧ b.search p ≤ b.search (ptsAt b (b.search p - 1) + 1) := by
  have hlen : b.search p - 1 < b.ups.length := by
    have : b.search p ≤ b.ups.length := findIdx_le_length
    omega
  have hget := getElem?_eq_getElem hlen
  generalize b.ups[b.search p - 1] = y at hget
  have hpts : ptsAt b (b.search p - 1) = y.1 := by simp [ptsAt, hget]
  rw [hpts]
  refine ⟨mem_map_of_mem (mem_of_getElem? hget), ?_, ?_, ?_⟩
  · exact (search_le_iff hsorted hget).mp (by omega)
  · rw [← hpts]
    exact ptsAt_lt (by omega)
  · have hy : (y.1, y.2) ∈ b.ups := mem_of_getElem? hget
    have hat := getElem?_search hsorted hy
    have hle : b.search y.1 ≤ b.search p - 1 := (search_le_iff hsorted hget).mpr le_rfl
    rw [search_succ hsorted hat]
    by_contra hlt
    exact absurd (pts_lt_of_lt hsorted hat hget (by omega)) (lt_irrefl _)

end Sorted

/-! ## The loop over the barriers -/

/-- Each barrier is behind the watermark or next to it, or the event right before it has an update;
the released ones move the watermark. -/
def Linked (b : UpdateBatch) : Int → List Int → Prop
  | _, [] => True
  | w, p :: ps => (p ≤ w + 1 ∨ p - 1 ∈ b.ups.map (·.1)) ∧ Linked b (max w p) ps

def Ready (b : UpdateBatch) (es : List Pending) : Prop :=
  ∀ e ∈ es, e.ready = true ∧ 0 < e.pts ∧ e.pts ≤ b.state.pts ∧
    ∃ up, (e.pts, up) ∈ b.ups ∧ isRPCResultUpdate up = true

def waitAt (c : Conn) : Wait :=
  ⟨c.lastPushedPts, c.queue.head?.map (·.pts), true⟩

section Loop

variable {b : UpdateBatch} {e : Pending} {es : List Pending}

theorem solo_lookAgain (hs : s.conn.Serves u) (hready : Ready b s.conn.queue) :
    (lookAgain u s.conn.lastPushedPts true).solo {} s = some (waitAt s.conn, s) := by
  unfold lookAgain pendingRPCUpdate pendingRPCUpdateReady waitAt
  rw [Prog.solo_bind, Prog.solo_read, Option.bind_some, hs.pendingRPCUpdate]
  cases hq : s.conn.queue with
  | nil => rfl
  | cons e es =>
    have he := (hready e (by simp [hq])).1
    simp [hs.pendingRPCUpdateReady, hq, he]

theorem solo_pushOrdered {ups : List (Int × Wire.Update)} {pts : Int} (howner : s.conn.owner = u)
    (hpts : 0 < pts) :
    (pushOrdered u s.conn.lastPushedPts ups pts).solo {} s =
      some (.pushed, s.pushed pts (ups.map (·.1))) := by
  simp [pushOrdered, pushToAtWatermark, howner, hpts, Shared.pushed]

theorem pendingLoop_succ {w p : Int} (hpos : 0 < p) (hle : p ≤ b.state.pts) (n : Nat) :
    pendingLoop u key b {} (n + 1) ⟨w, some p, true⟩ = do
      match ← accountPendingRPCUpdate u key b w p with
      | some next => do
          let w' ← lookAgain u next true
          pendingLoop u key b {} n w'
      | none =>
        if w < p ∧ holdsResult b (b.search p) p then do
          if ← deliverBeforePendingRPC u b w (b.search p) then return none
          else do
            let next ← lastPushedPts
            if w < next then do
              let w' ← lookAgain u next true
              pendingLoop u key b {} n w'
            else return some ⟨w, some p, true⟩
        else return some ⟨w, some p, true⟩ := by
  have hgo : ¬(keyedPending key {} w p = true ∨ true = false ∨ p = 0 ∨ b.state.pts < p) := by
    simp only [keyedPending, decide_eq_true_eq]
    rintro (h | h | h | h)
    · exact h.2.1 rfl
    · exact nomatch h
    · omega
    · omega
  rw [pendingLoop]
  dsimp only
  exact if_neg hgo

variable (hsorted : (b.ups.map (·.1)).Pairwise (· < ·)) (hs : s.conn.Serves u)
  (hready : Ready b s.conn.queue) (hq : s.conn.queue = e :: es)

include hsorted hs hready hq

theorem solo_pendingLoop_account (hle : e.pts ≤ s.conn.lastPushedPts + 1) (n : Nat) :
    ∃ c' : Conn, c'.Serves u ∧ c'.queue = es ∧ c'.lastPushedPts = max s.conn.lastPushedPts e.pts ∧
      c'.authKeyID = s.conn.authKeyID ∧
      (pendingLoop u s.conn.authKeyID b {} (n + 1) (waitAt s.conn)).solo {} s =
        (pendingLoop u s.conn.authKeyID b {} n (waitAt c')).solo {} { s with conn := c' } := by
  obtain ⟨-, hpos, hstate, up, hup, hres⟩ := hready e (by simp [hq])
  obtain ⟨c', hmark, hserves, hqueue, hlast, hkey⟩ := hs.mark hq hpos
  refine ⟨c', hserves, hqueue, hlast, hkey, ?_⟩
  have hwait : waitAt s.conn = ⟨s.conn.lastPushedPts, some e.pts, true⟩ := by simp [waitAt, hq]
  have haccount :
    (accountPendingRPCUpdate u s.conn.authKeyID b s.conn.lastPushedPts e.pts).solo {} s =
      some (some c'.lastPushedPts, { s with conn := c' }) := by
    have hholds : holdsResult b (b.search e.pts) e.pts = true :=
      holdsResult_iff.mpr ⟨up, getElem?_search hsorted hup, hres⟩
    have hnext : ¬(s.conn.lastPushedPts < e.pts ∧ (e.pts ≠ s.conn.lastPushedPts + 1 ∨
        b.search e.pts < b.search (s.conn.lastPushedPts + 1) ∨
        holdsResult b (b.search e.pts) e.pts = false)) := by
      rintro ⟨hlt, hne | hlt' | hfalse⟩
      · omega
      · rw [show e.pts = s.conn.lastPushedPts + 1 by omega] at hlt'
        exact lt_irrefl _ hlt'
      · exact absurd hholds (by simp [hfalse])
    unfold accountPendingRPCUpdate
    rw [if_neg (by omega), if_neg hnext]
    simp [markRPCUpdate, lastPushedPts, hmark]
  have hready' : Ready b c'.queue := fun x hx => hready x (by rw [hq]; exact .tail _ (hqueue ▸ hx))
  have hlook := solo_lookAgain (s := { s with conn := c' }) hserves hready'
  rw [hwait, pendingLoop_succ hpos hstate, Prog.solo_bind, haccount, Option.bind_some]
  dsimp only
  rw [Prog.solo_bind, hlook, Option.bind_some]

omit hs hready hq in
theorem solo_pendingLoop_ahead {w p : Int} {up : Wire.Update} (hlt : w + 1 < p) (hpos : 0 < p)
    (hstate : p ≤ b.state.pts) (hup : (p, up) ∈ b.ups) (hres : isRPCResultUpdate up = true)
    (n : Nat) :
    (pendingLoop u key b {} (n + 1) ⟨w, some p, true⟩).solo {} s =
      ((deliverBeforePendingRPC u b w (b.search p)).solo {} s).bind fun x =>
        if x.1 then some (none, x.2)
        else if w < x.2.conn.lastPushedPts then
          ((lookAgain u x.2.conn.lastPushedPts true).solo {} x.2).bind fun y =>
            (pendingLoop u key b {} n y.1).solo {} y.2
        else some (some ⟨w, some p, true⟩, x.2) := by
  have haccount : (accountPendingRPCUpdate u key b w p).solo {} s = some (none, s) := by
    unfold accountPendingRPCUpdate
    rw [if_neg (by omega), if_pos ⟨by omega, .inl (by omega)⟩]
    rfl
  have hholds : w < p ∧ holdsResult b (b.search p) p = true :=
    ⟨by omega, holdsResult_iff.mpr ⟨up, getElem?_search hsorted hup, hres⟩⟩
  rw [pendingLoop_succ hpos hstate, Prog.solo_bind, haccount, Option.bind_some]
  dsimp only
  rw [if_pos hholds, Prog.solo_bind]
  congr 1
  funext ⟨r, s'⟩
  cases r with
  | true => rfl
  | false =>
    simp only [Bool.false_eq_true, ↓reduceIte, Prog.solo_bind, lastPushedPts, Prog.solo_read,
      Option.bind_some]
    split
    · rw [Prog.solo_bind]
    · rfl

theorem solo_pendingLoop_push (hw : 0 ≤ s.conn.lastPushedPts)
    (hlt : s.conn.lastPushedPts + 1 < e.pts)
    (hstart : b.search (s.conn.lastPushedPts + 1) < b.search e.pts) (n : Nat) :
    ∃ s' : Shared, s'.conn = s.conn.pushedUpTo (ptsAt b (b.search e.pts - 1)) ∧
      (pendingLoop u s.conn.authKeyID b {} (n + 1) (waitAt s.conn)).solo {} s =
        (pendingLoop u s.conn.authKeyID b {} n (waitAt s'.conn)).solo {} s' := by
  obtain ⟨-, hpos, hstate, up, hup, hres⟩ := hready e (by simp [hq])
  obtain ⟨-, hgt, -, -⟩ := ptsAt_before hsorted hstart
  have hwait : waitAt s.conn = ⟨s.conn.lastPushedPts, some e.pts, true⟩ := by simp [waitAt, hq]
  set sent := slice b (b.search (s.conn.lastPushedPts + 1)) (b.search e.pts) with hsent
  refine ⟨s.pushed (ptsAt b (b.search e.pts - 1)) (sent.map (·.1)), rfl, ?_⟩
  have hbefore : (deliverBeforePendingRPC u b s.conn.lastPushedPts (b.search e.pts)).solo {} s =
      some (false, s.pushed (ptsAt b (b.search e.pts - 1)) (sent.map (·.1))) := by
    unfold deliverBeforePendingRPC
    dsimp only
    rw [if_neg (by omega), Prog.solo_bind, solo_pushOrdered hs.owner (by omega)]
    rfl
  have hlook := solo_lookAgain (b := b)
    (s := s.pushed (ptsAt b (b.search e.pts - 1)) (sent.map (·.1))) (hs.pushedUpTo _) hready
  have hmoved : s.conn.lastPushedPts <
      (s.pushed (ptsAt b (b.search e.pts - 1)) (sent.map (·.1))).conn.lastPushedPts :=
    lt_max_of_lt_right hgt
  rw [hwait, solo_pendingLoop_ahead hsorted hlt hpos hstate hup hres, hbefore, Option.bind_some]
  dsimp only
  rw [if_neg (by simp), if_pos hmoved, hlook, Option.bind_some]

omit hs in
theorem solo_pendingLoop_stop (hlt : s.conn.lastPushedPts + 1 < e.pts)
    (hstart : b.search e.pts ≤ b.search (s.conn.lastPushedPts + 1)) (n : Nat) :
    (pendingLoop u s.conn.authKeyID b {} (n + 1) (waitAt s.conn)).solo {} s =
      some (some (waitAt s.conn), s) := by
  obtain ⟨-, hpos, hstate, up, hup, hres⟩ := hready e (by simp [hq])
  have hwait : waitAt s.conn = ⟨s.conn.lastPushedPts, some e.pts, true⟩ := by simp [waitAt, hq]
  have hbefore : (deliverBeforePendingRPC u b s.conn.lastPushedPts (b.search e.pts)).solo {} s =
      some (false, s) := by
    unfold deliverBeforePendingRPC
    dsimp only
    rw [if_pos hstart]
    rfl
  rw [hwait, solo_pendingLoop_ahead hsorted hlt hpos hstate hup hres, hbefore, Option.bind_some]
  dsimp only
  rw [if_neg (by simp), if_neg (lt_irrefl _)]

end Loop

structure Settled (b : UpdateBatch) (c c' : Conn) : Prop where
  rest : c'.queue <:+ c.queue
  empty_iff : c'.queue = [] ↔ Linked b c.lastPushedPts (c.queue.map (·.pts))
  released : ∀ e ∈ c.queue, e ∈ c'.queue ∨ e.pts ≤ c'.lastPushedPts
  watermark : c.lastPushedPts ≤ c'.lastPushedPts

variable {b : UpdateBatch} {c c' c'' : Conn} {e : Pending} {es : List Pending}

theorem Settled.release (hq : c.queue = e :: es)
    (hlink : e.pts ≤ c.lastPushedPts + 1 ∨ e.pts - 1 ∈ b.ups.map (·.1)) (hq' : c'.queue = es)
    (hlast : c'.lastPushedPts = max c.lastPushedPts e.pts) (h : Settled b c' c'') :
    Settled b c c'' := by
  have hle : max c.lastPushedPts e.pts ≤ c''.lastPushedPts := hlast ▸ h.watermark
  refine ⟨?_, ?_, fun x hx => ?_, (le_max_left _ _).trans hle⟩
  · rw [hq, ← hq']
    exact h.rest.trans (suffix_cons _ _)
  · rw [h.empty_iff, hq', hlast, hq]
    exact ⟨fun hl => ⟨hlink, hl⟩, And.right⟩
  · rw [hq] at hx
    rcases mem_cons.mp hx with rfl | hx
    · exact .inr ((le_max_right _ _).trans hle)
    · exact h.released x (hq' ▸ hx)

theorem Settled.stop (hq : c.queue = e :: es)
    (hlink : ¬(e.pts ≤ c.lastPushedPts + 1 ∨ e.pts - 1 ∈ b.ups.map (·.1)))
    (hq' : c'.queue = c.queue)
    (hle : c.lastPushedPts ≤ c'.lastPushedPts) : Settled b c c' := by
  refine ⟨hq' ▸ suffix_rfl, ?_, fun x hx => .inl (hq' ▸ hx), hle⟩
  rw [hq', hq]
  exact ⟨fun h => absurd h (cons_ne_nil _ _), fun h => absurd h.1 hlink⟩

variable {b : UpdateBatch}

theorem solo_pendingLoop (hsorted : (b.ups.map (·.1)).Pairwise (· < ·))
    (es : List Pending) (hs : s.conn.Serves u) (hw : 0 ≤ s.conn.lastPushedPts)
    (hready : Ready b s.conn.queue) (hq : s.conn.queue = es) {n : Nat} (hn : 2 * es.length < n) :
    ∃ s' : Shared, (pendingLoop u s.conn.authKeyID b {} n (waitAt s.conn)).solo {} s =
        some (some (waitAt s'.conn), s') ∧ s'.conn.Serves u ∧ Settled b s.conn s'.conn := by
  obtain ⟨n, rfl⟩ : ∃ m, n = m + 1 := ⟨n - 1, by omega⟩
  induction es generalizing s n with
  | nil =>
    refine ⟨s, ?_, hs, suffix_rfl, by simp [hq, Linked], by simp [hq], le_rfl⟩
    rw [pendingLoop]
    simp [waitAt, hq]
  | cons e es ih =>
    obtain ⟨n, rfl⟩ : ∃ m, n = m + 1 := ⟨n - 1, by simp at hn; omega⟩
    have hrest : ∀ {c' : Conn}, c'.queue = es → Ready b c'.queue := fun hq' x hx =>
      hready x (by rw [hq]; exact .tail _ (hq' ▸ hx))
    by_cases hnear : e.pts ≤ s.conn.lastPushedPts + 1
    · obtain ⟨c', hserves, hqueue, hlast, hkey, hloop⟩ :=
        solo_pendingLoop_account hsorted hs hready hq hnear (n + 1)
      obtain ⟨s', hsolo, hserves', hsettled⟩ := ih (s := { s with conn := c' }) hserves
        (hlast ▸ le_max_of_le_left hw) (hrest hqueue) hqueue n (by simp at hn; omega)
      rw [hkey] at hsolo
      exact ⟨s', hloop.trans hsolo, hserves', hsettled.release hq (.inl hnear) hqueue hlast⟩
    have hfar : s.conn.lastPushedPts + 1 < e.pts := by omega
    by_cases hmem : e.pts - 1 ∈ b.ups.map (·.1)
    -- The push reaches the event right before the barrier, which is released then.
    · obtain ⟨hstart, hpts⟩ := ptsAt_of_mem hsorted hfar hmem
      obtain ⟨s₁, hconn, hpush⟩ := solo_pendingLoop_push hsorted hs hready hq hw hfar hstart (n + 1)
      have hs₁ : s₁.conn.Serves u := hconn ▸ hs.pushedUpTo _
      have hq₁ : s₁.conn.queue = e :: es := hconn ▸ hq
      have hlast₁ : s₁.conn.lastPushedPts = e.pts - 1 := by
        rw [hconn, hpts]
        exact max_eq_right (by omega)
      obtain ⟨c', hserves, hqueue, hlast, hkey, hloop⟩ :=
        solo_pendingLoop_account (s := s₁) hsorted hs₁
        (hq₁ ▸ hq ▸ hready) hq₁ (by omega) n
      obtain ⟨n, rfl⟩ : ∃ m, n = m + 1 := ⟨n - 1, by simp at hn; omega⟩
      have hlast' : c'.lastPushedPts = max s.conn.lastPushedPts e.pts := by
        rw [hlast, hlast₁]
        omega
      obtain ⟨s', hsolo, hserves', hsettled⟩ := ih (s := { s₁ with conn := c' }) hserves
        (hlast' ▸ le_max_of_le_left hw) (hrest hqueue) hqueue n (by simp at hn; omega)
      have hkey₁ : s₁.conn.authKeyID = s.conn.authKeyID := by rw [hconn]; rfl
      rw [hkey] at hsolo
      rw [hkey₁] at hsolo hloop
      exact ⟨s', hpush.trans (hloop.trans hsolo), hserves',
        hsettled.release hq (.inr hmem) hqueue hlast'⟩
    have hlink : ¬(e.pts ≤ s.conn.lastPushedPts + 1 ∨ e.pts - 1 ∈ b.ups.map (·.1)) := by
      rintro (h | h)
      · exact hnear h
      · exact hmem h
    by_cases hstart : b.search (s.conn.lastPushedPts + 1) < b.search e.pts
    -- The push ends before a gap, and there is nothing left to push.
    · obtain ⟨s₁, hconn, hpush⟩ := solo_pendingLoop_push hsorted hs hready hq hw hfar hstart (n + 1)
      obtain ⟨hin, hgt, hlt, hnext⟩ := ptsAt_before hsorted hstart
      have hlast₁ : s₁.conn.lastPushedPts = ptsAt b (b.search e.pts - 1) := by
        rw [hconn]
        exact max_eq_right hgt.le
      have hne : ptsAt b (b.search e.pts - 1) ≠ e.pts - 1 := fun heq => hmem (heq ▸ hin)
      have hs₁ : s₁.conn.Serves u := hconn ▸ hs.pushedUpTo _
      have hq₁ : s₁.conn.queue = e :: es := hconn ▸ hq
      have hkey₁ : s₁.conn.authKeyID = s.conn.authKeyID := by rw [hconn]; rfl
      have hstop := solo_pendingLoop_stop (u := u) (s := s₁) hsorted (hq₁ ▸ hq ▸ hready) hq₁
        (by omega) (hlast₁ ▸ hnext) n
      rw [hkey₁] at hstop
      refine ⟨s₁, hpush.trans hstop, hs₁, .stop hq hlink (hq₁.trans hq.symm) ?_⟩
      omega
    · refine ⟨s, solo_pendingLoop_stop hsorted hready hq hfar (by omega) (n + 1), hs, ?_⟩
      exact .stop hq hlink rfl le_rfl

/-! ## One connection -/

/-- A delivery without a suppressed update to a connection with nothing in its way. -/
theorem solo_deliverUpdates (howner : s.conn.owner = u) (hstate : 0 < b.state.pts) (key : Int) :
    (deliverUpdates u key b {} s.conn.lastPushedPts).solo {} s =
      some (if b.above s.conn.lastPushedPts = [] then
        ({ ahead := b.more && s.conn.lastPushedPts < b.state.pts }, s)
        else ({}, s.pushed b.state.pts ((b.above s.conn.lastPushedPts).map (·.1)))) := by
  unfold deliverUpdates
  split
  · rfl
  · dsimp only
    rw [if_neg (by simp), Prog.solo_bind, solo_pushOrdered howner hstate]
    rfl

theorem solo_deliverUpdates_kept (howner : s.conn.owner = u)
    (hstate : 0 < b.state.pts) (key : Int) :
    ∃ r s', (deliverUpdates u key b {} s.conn.lastPushedPts).solo {} s = some (r, s') ∧
      s'.conn.queue = s.conn.queue ∧ s.conn.lastPushedPts ≤ s'.conn.lastPushedPts := by
  rw [solo_deliverUpdates howner hstate]
  split
  · exact ⟨_, s, rfl, rfl, le_rfl⟩
  · exact ⟨_, _, rfl, rfl, le_max_left _ _⟩

/-- One delivery, alone, of the batch after the watermark to a connection whose barriers are ready
and in the batch: it releases all of them exactly when they are linked. -/
theorem deliverConn_releases_iff (env : Env) {u : Int} {s : Shared} (hs : s.conn.Serves u)
    (hkey : ((s.db.store.eventLog u).map (·.pts)).Nodup) (hw : 0 ≤ s.conn.lastPushedPts)
    {b : UpdateBatch} (hb : b = buildUpdates env s.db u s.conn.lastPushedPts false)
    (hready : ∀ e ∈ s.conn.queue, e.ready = true ∧ s.conn.lastPushedPts < e.pts ∧
      e.pts ≤ b.state.pts ∧ ∃ x ∈ b.ups, x.1 = e.pts ∧ isRPCResultUpdate x.2 = true)
    {bound : Nat} (hbound : 2 * s.conn.queue.length < bound) :
    ∃ r s', (deliverConn u s.conn.authKeyID s.conn.lastPushedPts b {} bound).solo {} s =
      some (r, s') ∧
        ((s'.conn.queue = [] ∧ ∀ e ∈ s.conn.queue.getLast?, e.pts ≤ s'.conn.lastPushedPts) ↔
        Linked b s.conn.lastPushedPts (s.conn.queue.map (·.pts))) := by
  have hsorted : (b.ups.map (·.1)).Pairwise (· < ·) := hb ▸ ascending_ups hkey
  have hready' : Ready b s.conn.queue := by
    intro e he
    obtain ⟨hout, hlt, hle, ⟨p, up⟩, hx, rfl, hres⟩ := hready e he
    exact ⟨hout, hw.trans_lt hlt, hle, up, hx, hres⟩
  unfold deliverConn
  rw [Prog.solo_bind, lastPushedPts, Prog.solo_read, Option.bind_some]
  dsimp only
  rw [if_neg (lt_irrefl _)]
  by_cases hdone : b.state.pts ≤ s.conn.lastPushedPts
  · have hnil : s.conn.queue = [] := by
      refine eq_nil_iff_forall_not_mem.mpr fun e he => ?_
      have := hready e he
      omega
    rw [if_pos hdone]
    exact ⟨_, s, rfl, by simp [hnil, Linked]⟩
  have hstate : 0 < b.state.pts := by omega
  rw [if_neg hdone, Prog.solo_bind, pendingRPCUpdate, Prog.solo_read, Option.bind_some,
    hs.pendingRPCUpdate]
  dsimp only
  cases hq : s.conn.queue with
  | nil =>
    obtain ⟨r, s', hsolo, hqueue, -⟩ := solo_deliverUpdates_kept hs.owner hstate s.conn.authKeyID
    exact ⟨r, s', hsolo, by simp [hqueue, hq, Linked]⟩
  | cons e es =>
    obtain ⟨s₁, hloop, hs₁, hsettled⟩ := solo_pendingLoop hsorted _ hs hw hready' rfl hbound
    have hwait : waitAt s.conn = ⟨s.conn.lastPushedPts, some e.pts,
        s.conn.pendingRPCUpdateReady u⟩ := by
      have he := (hready e (by simp [hq])).1
      simp [waitAt, hq, hs.pendingRPCUpdateReady, he]
    rw [hwait] at hloop
    rw [head?_cons, Option.map_some, if_pos Option.isSome_some, Prog.solo_bind,
      pendingRPCUpdateReady, Prog.solo_read, Option.bind_some, Prog.solo_bind, hloop,
        Option.bind_some]
    dsimp only
    cases hq₁ : s₁.conn.queue with
    | nil =>
      obtain ⟨r, s', hsolo, hqueue, hle⟩ :=
        solo_deliverUpdates_kept hs₁.owner hstate s.conn.authKeyID
      have hnone : (waitAt s₁.conn).pending = none := by simp [waitAt, hq₁]
      refine ⟨r, s', ?_, fun _ => ?_, fun _ => ⟨hqueue.trans hq₁, fun x hx => ?_⟩⟩
      · rw [hnone]
        exact hsolo
      · rw [← hq]
        exact hsettled.empty_iff.mp hq₁
      · have hx' : x ∈ s.conn.queue := hq ▸ mem_of_getLast? hx
        refine ((hsettled.released x hx').resolve_left ?_).trans hle
        simp [hq₁]
    | cons x xs =>
      have hx : x ∈ s.conn.queue := hsettled.rest.subset (by simp [hq₁])
      have hheld : (waitAt s₁.conn).pending.any (fun p => decide (keyedPending s.conn.authKeyID {}
          (waitAt s₁.conn).watermark p = false ∧ (p = 0 ∨ p ≤ b.state.pts))) = true := by
        simp [waitAt, hq₁, keyedPending, (hready x hx).2.2.1]
      refine ⟨_, s₁, by rw [if_pos hheld]; rfl, fun h => ?_, fun h => ?_⟩
      · exact absurd (hq₁.symm.trans h.1) (cons_ne_nil _ _)
      · rw [← hq] at h
        exact absurd (hq₁.symm.trans (hsettled.empty_iff.mpr h)) (cons_ne_nil _ _)

/-- The watermark is before the messages of 1 and of 2, and the barrier at the second. -/
theorem deliverConn_releases_iff_reply : ∃ c, Reached two [] c ∧ ∃ s : Shared, s.db.store = c.db ∧
      s.conn.queue = [⟨1, 2, true⟩] ∧ ∃ r s',
        (deliverConn 2 5 0 (buildUpdates ⟨0, 0, 1, fun _ _ _ => 0⟩ s.db 2 0 false) {} 3).solo {} s =
          some (r, s') ∧ s'.conn.queue = [] := by
  have hreached : Reached two [] (afterHi [.send 11 ⟨2, 1, "hello", 8, 0, 0⟩]) :=
    reached_serialRun
  obtain ⟨r, s', hsolo, hiff⟩ := deliverConn_releases_iff ⟨0, 0, 1, fun _ _ _ => 0⟩ (u := 2)
    (s := { db := { store := (afterHi [.send 11 ⟨2, 1, "hello", 8, 0, 0⟩]).db },
            conn := {
              owner := 2, authKeyID := 5, lastPushedPts := 0, pendingRPCOwner := 2,
              pendingRPCAuthKey := 5, pendingRPC := [⟨1, 2, true⟩] } })
    ⟨rfl, by decide, fun _ => rfl, rfl⟩ (by decide +kernel) (by decide) rfl (by decide +kernel)
    (by decide : 2 * 1 < 3)
  exact ⟨_, hreached, _, rfl, rfl, r, s', hsolo, (hiff.mpr ⟨.inr (by decide +kernel), trivial⟩).1⟩

/-- 2 reads its dialog with 1 beyond the last message, and answers. The read hydrates to nothing, so
the barrier of the answer stays. -/
theorem ready_barrier_wedges :
    ∃ c, Reached two [] c ∧ ∃ s : Shared, s.db.store = c.db ∧ s.conn.Serves 2 ∧
      s.conn.queue = [⟨1, 3, true⟩] ∧ s.conn.lastPushedPts = 1 ∧ ∃ b,
        b = buildUpdates ⟨0, 0, 1, fun _ _ _ => 0⟩ s.db 2 1 false ∧ b.state.pts = 3 ∧
        b.ups.map (fun x => (x.1, isRPCResultUpdate x.2)) = [(3, true)] ∧
        ((deliverConn 2 5 1 b {} 3).solo {} s).map (fun x => x.2.conn.queue) =
        some [⟨1, 3, true⟩] := by
  have hreached : Reached two []
      (afterHi [.readHistory 11 2 1 5, .send 12 ⟨2, 1, "hello", 8, 0, 0⟩]) :=
    reached_serialRun
  refine ⟨_, hreached,
    { db := { store := (afterHi [.readHistory 11 2 1 5, .send 12 ⟨2, 1, "hello", 8, 0, 0⟩]).db },
      conn := {
        owner := 2, authKeyID := 5, lastPushedPts := 1, pendingRPCOwner := 2,
        pendingRPCAuthKey := 5, pendingRPC := [⟨1, 3, true⟩] } },
    rfl, ⟨rfl, by decide, fun _ => rfl, rfl⟩, rfl, rfl, _, rfl, ?_, ?_, ?_⟩
  · decide +kernel
  · decide +kernel
  · decide +kernel

end TelegramServer.Push
