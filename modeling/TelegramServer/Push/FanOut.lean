import TelegramServer.Push.Barriers

/-!
# The fan-out over an owner's connections

One delivery serves all connections of an owner in at most two windows: the first starts at the
lowest watermark, the second within one batch of the head, for the connections that the first left
ahead of it. Here nothing else moves and every push succeeds, so the connections' parts of a window
are independent of each other and their order does not matter.
-/

namespace TelegramServer.Push

open Conc Tx TelegramServer.Api TelegramServer.Store List

/-- A batch that was pushed: where its window starts, and where the connection stood. -/
structure PushedWindow where
  fromPts : Int
  watermark : Int
  sent : List Int

/-- One of the connections, what was pushed to it, and whether the next round is for it. -/
structure Socket where
  conn : Conn
  pushes : List PushedWindow := []
  listed : Bool := true

variable {ks : List Socket} {ws : List Int} {head : Int} {b : UpdateBatch} {fromPts : Int}
  {k : Socket}

namespace FanOut

def deliver (db : State) (u fromPts : Int) (b : UpdateBatch) (bound : Nat) (k : Socket) :
    Option (ConnResult × Socket) :=
  if k.listed then
    ((deliverConn u k.conn.authKeyID fromPts b {} bound).solo {} { db := db, conn := k.conn }).map
      fun x => (x.1, { k with
        conn := x.2.conn
        pushes := k.pushes ++ x.2.pushes.map fun w => ⟨fromPts, k.conn.lastPushedPts, w.sent⟩ })
  else some ({}, k)

/-- The rounds of a delivery to all connections; the starts of the windows that were built, and the
connections in the end. -/
def deliverRounds (env : Env) (db : State) (u : Int) (bound : Nat) :
    Nat → (round retries : Nat) → (head : Int) → List Socket → Option (List Int × List Socket)
  | 0, _, _, _, _ => none
  | n + 1, round, retries, head, ks =>
    match (ks.filter (·.listed)).map (·.conn.lastPushedPts) with
    | [] => some ([], ks)
    | w :: ws =>
      if maxDeliveryRounds ≤ round then some ([], ks)
      else
        let fromPts := windowStart round head w ws
        let b := buildUpdates env db u fromPts false
        if b.ups = [] ∧ b.more = false then some ([fromPts], ks)
        else do
          let rs ← ks.mapM (deliver db u fromPts b bound)
          if rs.any (·.1.retry) then
            if maxDeliveryRetries < retries + 1 then some ([fromPts], rs.map (·.2))
            else
              let x ← deliverRounds env db u bound n round (retries + 1) b.head (rs.map (·.2))
              some (fromPts :: x.1, x.2)
          else
            let x ← deliverRounds env db u bound n (round + 1) 0 b.head
              (rs.map fun r => { r.2 with listed := r.2.listed && r.1.ahead })
            some (fromPts :: x.1, x.2)

def deliverAtSuppressed (env : Env) (db : State) (u : Int) (bound : Nat) (conns : List Conn) :
    Option (List Int × List Socket) :=
  deliverRounds env db u bound bound 0 0 0 (conns.map fun c => { conn := c })

structure Free (u : Int) (c : Conn) : Prop where
  owner : c.owner = u
  pending : c.pendingRPC = []
  overflow : c.pendingRPCOverflow = []
  open_ : c.pendingRPCOverflowSaturated = false
  nonneg : 0 ≤ c.lastPushedPts

variable {u : Int}

theorem Free.pendingRPCUpdate {c : Conn} (h : Free u c) : c.pendingRPCUpdate u = none := by
  simp [Conn.pendingRPCUpdate, h.pending, h.overflow, h.open_]

theorem Free.pushedUpTo {c : Conn} (h : Free u c) (pts : Int) : Free u (c.pushedUpTo pts) :=
  ⟨h.owner, h.pending, h.overflow, h.open_, le_max_of_le_left h.nonneg⟩

def Gets (fromPts : Int) (b : UpdateBatch) (c : Conn) : Prop :=
  fromPts ≤ c.lastPushedPts ∧ c.lastPushedPts < b.state.pts ∧ b.above c.lastPushedPts ≠ []

instance (fromPts : Int) (b : UpdateBatch) (c : Conn) : Decidable (Gets fromPts b c) :=
  inferInstanceAs (Decidable (_ ∧ _))

def serve (fromPts : Int) (b : UpdateBatch) (k : Socket) : Socket :=
  if Gets fromPts b k.conn then
    { conn := k.conn.pushedUpTo b.state.pts
      pushes :=
    k.pushes ++ [⟨fromPts, k.conn.lastPushedPts, (b.above k.conn.lastPushedPts).map (·.1)⟩]
      listed := false }
  else { k with listed := b.more && decide (fromPts ≤ k.conn.lastPushedPts) }

theorem solo_deliverConn {key : Int} {s : Shared} {bound : Nat} (hs : Free u s.conn)
    (hpos : b.above s.conn.lastPushedPts ≠ [] → 0 < b.state.pts) :
    (deliverConn u key fromPts b {} bound).solo {} s = some (if Gets fromPts b s.conn then
      ({}, s.pushed b.state.pts ((b.above s.conn.lastPushedPts).map (·.1)))
      else ({ ahead := b.more && decide (fromPts ≤ s.conn.lastPushedPts) }, s)) := by
  unfold deliverConn
  rw [Prog.solo_bind, lastPushedPts, Prog.solo_read, Option.bind_some]
  dsimp only
  by_cases hfrom : s.conn.lastPushedPts < fromPts
  · have hnot : ¬fromPts ≤ s.conn.lastPushedPts := by omega
    have hno : ¬Gets fromPts b s.conn := fun h => hnot h.1
    rw [if_pos hfrom, if_neg hno]
    simp [hnot]
  have hfrom' : fromPts ≤ s.conn.lastPushedPts := by omega
  rw [if_neg hfrom]
  by_cases hdone : b.state.pts ≤ s.conn.lastPushedPts
  · have hno : ¬Gets fromPts b s.conn := fun h => absurd h.2.1 (by omega)
    rw [if_pos hdone, if_neg hno]
    simp [hfrom']
  rw [if_neg hdone, Prog.solo_bind, Push.pendingRPCUpdate, Prog.solo_read, Option.bind_some,
    hs.pendingRPCUpdate]
  dsimp only
  rw [if_neg (by simp)]
  by_cases hnil : b.above s.conn.lastPushedPts = []
  · have hahead : (deliverUpdates u key b {} s.conn.lastPushedPts).solo {} s =
        some ({ ahead := b.more && s.conn.lastPushedPts < b.state.pts }, s) := by
      unfold deliverUpdates
      rw [if_pos hnil]
      rfl
    have hno : ¬Gets fromPts b s.conn := fun h => h.2.2 hnil
    rw [hahead, if_neg hno]
    simp [hfrom', not_le.mp hdone]
  · have hgets : Gets fromPts b s.conn := ⟨hfrom', by omega, hnil⟩
    rw [solo_deliverUpdates hs.owner (hpos hnil), if_neg hnil, if_pos hgets]

theorem deliver_eq (db : State) (fromPts : Int) (bound : Nat) (hk : Free u k.conn)
    (hpos : b.ups ≠ [] → 0 < b.state.pts) :
    ∃ r k', deliver db u fromPts b bound k = some (r, k') ∧ r.retry = false ∧
      { k' with listed := k'.listed && r.ahead } = if k.listed then serve fromPts b k else k := by
  unfold deliver
  by_cases hl : k.listed = true
  · have hpos' : b.above k.conn.lastPushedPts ≠ [] → 0 < b.state.pts := fun hne =>
      hpos fun hnil => hne (by simp [UpdateBatch.above, hnil])
    rw [if_pos hl, solo_deliverConn (s := { db := db, conn := k.conn }) hk hpos', if_pos hl]
    by_cases hgets : Gets fromPts b k.conn
    · rw [if_pos hgets]
      refine ⟨_, _, rfl, rfl, ?_⟩
      simp [serve, hgets, Shared.pushed]
    · rw [if_neg hgets]
      refine ⟨_, _, rfl, rfl, ?_⟩
      simp [serve, hgets, hl]
  · rw [if_neg hl, if_neg hl]
    refine ⟨_, _, rfl, rfl, ?_⟩
    cases k
    simp_all

/-! ## One round -/

def window (fromPts : Int) (b : UpdateBatch) (ks : List Socket) : List Socket :=
  ks.map fun k => if k.listed then serve fromPts b k else k

theorem mapM_deliver (db : State) (fromPts : Int) (bound : Nat)
    (hks : ∀ k ∈ ks, Free u k.conn) (hpos : b.ups ≠ [] → 0 < b.state.pts) :
    ∃ rs, ks.mapM (deliver db u fromPts b bound) = some rs ∧ (∀ r ∈ rs, r.1.retry = false) ∧
      rs.map (fun r => { r.2 with listed := r.2.listed && r.1.ahead }) = window fromPts b ks := by
  induction ks with
  | nil => exact ⟨[], rfl, by simp, rfl⟩
  | cons k ks ih =>
    obtain ⟨r, k', hk, hretry, hserve⟩ :=
      deliver_eq db fromPts bound (hks k (by simp)) hpos
    obtain ⟨rs, hrs, hretries, hmap⟩ := ih fun k hk => hks k (by simp [hk])
    refine ⟨(r, k') :: rs, by simp [mapM_cons, hk, hrs], fun x hx => ?_, ?_⟩
    · rcases mem_cons.mp hx with rfl | hx
      · exact hretry
      · exact hretries x hx
    · rw [map_cons, hmap, hserve]
      rfl

theorem serve_free (hk : Free u k.conn) : Free u (serve fromPts b k).conn := by
  unfold serve
  split
  · exact hk.pushedUpTo _
  · exact hk

theorem window_free (fromPts : Int) (b : UpdateBatch)
    (hks : ∀ k ∈ ks, Free u k.conn) : ∀ k ∈ window fromPts b ks, Free u k.conn := by
  intro k hk
  obtain ⟨k', hk', rfl⟩ := mem_map.mp hk
  split
  · exact serve_free (hks k' hk')
  · exact hks k' hk'

variable {env : Env} {db : State} {u : Int} {bound n round retries : Nat} {w : Int}

theorem deliverRounds_done (hlisted : (ks.filter (·.listed)).map (·.conn.lastPushedPts) = []) :
    deliverRounds env db u bound (n + 1) round retries head ks = some ([], ks) := by
  rw [deliverRounds, hlisted]

theorem deliverRounds_cap (hround : maxDeliveryRounds ≤ round) :
    deliverRounds env db u bound (n + 1) round retries head ks = some ([], ks) := by
  rw [deliverRounds]
  split
  · rfl
  · rw [if_pos hround]

theorem deliverRounds_quit (hlisted : (ks.filter (·.listed)).map (·.conn.lastPushedPts) = w :: ws)
    (hround : round < maxDeliveryRounds)
    (hb : b = buildUpdates env db u (windowStart round head w ws) false)
    (hquit : b.ups = [] ∧ b.more = false) :
    deliverRounds env db u bound (n + 1) round retries head ks =
      some ([windowStart round head w ws], ks) := by
  subst hb
  rw [deliverRounds, hlisted]
  dsimp only
  rw [if_neg (by omega), if_pos hquit]

theorem deliverRounds_next (hlog : Numbered (·.pts) (db.store.eventLog u) (db.store.ptsOf u))
    (hks : ∀ k ∈ ks, Free u k.conn)
    (hlisted : (ks.filter (·.listed)).map (·.conn.lastPushedPts) = w :: ws)
    (hround : round < maxDeliveryRounds)
    (hb : b = buildUpdates env db u (windowStart round head w ws) false)
    (hquit : ¬(b.ups = [] ∧ b.more = false)) :
    deliverRounds env db u bound (n + 1) round retries head ks =
      (deliverRounds env db u bound n (round + 1) 0 (db.store.ptsOf u)
        (window (windowStart round head w ws) b ks)).map
          fun x => (windowStart round head w ws :: x.1, x.2) := by
  subst hb
  have hpos : (buildUpdates env db u (windowStart round head w ws) false).ups ≠ [] →
      0 < (buildUpdates env db u (windowStart round head w ws) false).state.pts := by
    intro hne
    obtain ⟨x, hx⟩ := exists_mem_of_ne_nil _ hne
    have := ups_bounds hlog hx
    omega
  obtain ⟨rs, hrs, hretries, hmap⟩ := mapM_deliver db (windowStart round head w ws) bound hks hpos
  have hany : ¬(rs.any (·.1.retry)) = true := by
    simpa using fun r k hr => hretries (r, k) hr
  rw [deliverRounds, hlisted]
  dsimp only
  rw [if_neg (by omega), if_neg hquit, hrs]
  change (if rs.any (·.1.retry) = true then _ else _) = _
  rw [if_neg hany, hmap, buildUpdates_head]
  cases deliverRounds env db u bound n (round + 1) 0 (db.store.ptsOf u) _ <;> rfl

/-- Some event after `w` and up to `last` has an update. -/
def Unpushed (db : State) (u w last : Int) : Prop :=
  ∃ e ∈ db.store.eventLog u, w < e.pts ∧ e.pts ≤ last ∧ Hydrates db u e

section Windows

variable {env : Env} {db : State} {u : Int}
  (hlog : Numbered (·.pts) (db.store.eventLog u) (db.store.ptsOf u)) {fromPts : Int} {c : Conn}

include hlog

theorem gets_iff : Gets fromPts (buildUpdates env db u fromPts false) c ↔
    fromPts ≤ c.lastPushedPts ∧
      Unpushed db u c.lastPushedPts (buildUpdates env db u fromPts false).state.pts := by
  set b := buildUpdates env db u fromPts false with hb
  have habove : b.above c.lastPushedPts ≠ [] ↔ ∃ x ∈ b.ups, c.lastPushedPts < x.1 := by
    rw [UpdateBatch.above, Ne, drop_eq_nil_iff, not_le, UpdateBatch.search, findIdx_lt_length]
    simp only [decide_eq_true_eq]
    rfl
  unfold Gets Unpushed
  rw [habove]
  constructor
  · rintro ⟨hfrom, -, x, hx, hlt⟩
    obtain ⟨hpos, -, hle⟩ := ups_bounds hlog hx
    obtain ⟨e, he, heq⟩ := hlog.exists_num hpos (hle.trans (state_pts_le hlog))
    have hin : e.pts ∈ b.ups.map (·.1) := mem_map.mpr ⟨x, hx, heq.symm⟩
    have hmem := (mem_ups_iff hlog he).mp hin
    exact ⟨hfrom, e, he, by omega, hmem.2.1, hmem.2.2⟩
  · rintro ⟨hfrom, e, he, hlt, hle, hhydrates⟩
    have hmem : e.pts ∈ b.ups.map (·.1) :=
      (mem_ups_iff hlog he).mpr ⟨hfrom.trans_lt hlt, hle, hhydrates⟩
    obtain ⟨x, hx, heq⟩ := mem_map.mp hmem
    exact ⟨hfrom, by omega, x, hx, by omega⟩

theorem not_unpushed_of_empty (hfrom : fromPts ≤ c.lastPushedPts)
    (hempty : (buildUpdates env db u fromPts false).ups = []) :
    ¬Unpushed db u c.lastPushedPts (buildUpdates env db u fromPts false).state.pts := by
  intro hun
  have hgets : Gets fromPts (buildUpdates env db u fromPts false) c :=
    (gets_iff hlog).mpr ⟨hfrom, hun⟩
  exact hgets.2.2 (by simp [UpdateBatch.above, hempty])

end Windows

theorem le_foldl_min {xs : List Int} {a b : Int} :
    b ≤ xs.foldl min a ↔ b ≤ a ∧ ∀ x ∈ xs, b ≤ x := by
  induction xs generalizing a with
  | nil => simp
  | cons x xs ih =>
    rw [foldl_cons, ih, le_min_iff, forall_mem_cons, and_assoc]

theorem windowStart_zero {lo : Int} (hlo : IsLeast {x | x ∈ w :: ws} lo) :
    windowStart 0 head w ws = lo := by
  have hall : ∀ x ∈ w :: ws, lo ≤ x := fun x hx => hlo.2 hx
  refine le_antisymm ?_ (le_foldl_min.mpr ⟨hall w (by simp), fun x hx => hall x (by simp [hx])⟩)
  have hmin := le_foldl_min.mp (le_refl (ws.foldl min w))
  rcases mem_cons.mp hlo.1 with heq | hmem
  · exact heq ▸ hmin.1
  · exact hmin.2 lo hmem

/-- With a connection near the head, the second window reaches from the head to every such one. -/
theorem windowStart_one {x : Int} (hx : x ∈ w :: ws) (hnear : head - maxDiffEvents ≤ x)
    (hnonneg : ∀ y ∈ w :: ws, 0 ≤ y) :
    head - maxDiffEvents ≤ windowStart 1 head w ws ∧ windowStart 1 head w ws ≤ x ∧
      0 ≤ windowStart 1 head w ws := by
  have hmax : x ≤ ws.foldl max w := by
    have hle := foldl_max_le.mp (le_refl (ws.foldl max w))
    rcases mem_cons.mp hx with rfl | hx
    · exact hle.1
    · exact hle.2 x hx
  have hmin : ws.foldl min w ≤ x := by
    have hle := le_foldl_min.mp (le_refl (ws.foldl min w))
    rcases mem_cons.mp hx with rfl | hx
    · exact hle.1
    · exact hle.2 x hx
  have hzero : 0 ≤ ws.foldl min w :=
    le_foldl_min.mpr ⟨hnonneg w (by simp), fun y hy => hnonneg y (by simp [hy])⟩
  unfold windowStart
  rw [if_neg Nat.one_ne_zero, if_neg (by omega)]
  omega

/-! ## The delivery -/

/-- A connection with something above its watermark comes to the head; one without stays. -/
def CatchesUp (db : State) (u : Int) (c c' : Conn) : Prop :=
  (Unpushed db u c.lastPushedPts (db.store.ptsOf u) → c'.lastPushedPts = db.store.ptsOf u) ∧
    (¬Unpushed db u c.lastPushedPts (db.store.ptsOf u) → c'.lastPushedPts = c.lastPushedPts)

theorem serve_catchesUp (hlog : Numbered (·.pts) (db.store.eventLog u) (db.store.ptsOf u))
    (hfrom : fromPts ≤ k.conn.lastPushedPts)
    (hstate : (buildUpdates env db u fromPts false).state.pts = db.store.ptsOf u) :
    CatchesUp db u k.conn (serve fromPts (buildUpdates env db u fromPts false) k).conn := by
  have hgets := @gets_iff env db u hlog fromPts k.conn
  unfold CatchesUp serve
  rw [← hstate]
  constructor
  · intro hun
    have h := hgets.mpr ⟨hfrom, hun⟩
    rw [if_pos h]
    exact max_eq_right h.2.1.le
  · intro hun
    rw [if_neg fun h => hun (hgets.mp h).2]

/-- Every batch that was pushed starts at or below the connection's watermark. -/
def StartsBelow (ks : List Socket) : Prop :=
  ∀ k ∈ ks, ∀ p ∈ k.pushes, p.fromPts ≤ p.watermark

theorem StartsBelow.window (h : StartsBelow ks) : StartsBelow (window fromPts b ks) := by
  intro k hk p hp
  obtain ⟨k', hk', rfl⟩ := mem_map.mp hk
  split at hp
  · unfold serve at hp
    split at hp
    · rename_i hgets
      rcases mem_append.mp hp with hp | hp
      · exact h k' hk' p hp
      · obtain rfl := mem_singleton.mp hp
        exact hgets.1
    · exact h k' hk' p hp
  · exact h k' hk' p hp

theorem deliverRounds_one (env : Env) (bound n : Nat)
    (hlog : Numbered (·.pts) (db.store.eventLog u) (db.store.ptsOf u))
    (hks : ∀ k ∈ ks, Free u k.conn) (hstarts : StartsBelow ks) :
    ∃ builds ks', deliverRounds env db u bound (n + 2) 1 0 (db.store.ptsOf u) ks =
      some (builds, ks') ∧ builds.length ≤ 1 ∧ ks'.length = ks.length ∧ StartsBelow ks' ∧
      ∀ (i : Nat) (k k' : Socket), ks[i]? = some k → ks'[i]? = some k' →
        (k.listed = false → k'.conn = k.conn) ∧
        (k.listed = true → db.store.ptsOf u - maxDiffEvents ≤ k.conn.lastPushedPts →
          CatchesUp db u k.conn k'.conn) := by
  cases hlisted : (ks.filter (·.listed)).map (·.conn.lastPushedPts) with
  | nil =>
    refine ⟨[], ks, deliverRounds_done hlisted, by simp, rfl, hstarts, fun i k k' hk hk' => ?_⟩
    obtain rfl := Option.some.inj (hk.symm.trans hk')
    refine ⟨fun _ => rfl, fun hl => ?_⟩
    have hmem : k ∈ ks.filter (·.listed) := mem_filter.mpr ⟨mem_of_getElem? hk, hl⟩
    rw [map_eq_nil_iff.mp hlisted] at hmem
    exact absurd hmem not_mem_nil
  | cons w ws =>
    have hmem : ∀ {k}, k ∈ ks → k.listed = true → k.conn.lastPushedPts ∈ w :: ws := fun hk hl =>
      hlisted ▸ mem_map_of_mem (f := fun k : Socket => k.conn.lastPushedPts)
        (mem_filter.mpr ⟨hk, hl⟩)
    have hnonneg : ∀ x ∈ w :: ws, 0 ≤ x := by
      rw [← hlisted]
      intro x hx
      obtain ⟨k, hk, rfl⟩ := mem_map.mp hx
      exact (hks k (mem_filter.mp hk).1).nonneg
    set start := windowStart 1 (db.store.ptsOf u) w ws with hstart
    set b := buildUpdates env db u start false with hb
    -- A connection near the head is one that the window is for.
    have hnear : ∀ {k}, k ∈ ks → k.listed = true →
        db.store.ptsOf u - maxDiffEvents ≤ k.conn.lastPushedPts →
        start ≤ k.conn.lastPushedPts ∧ b.state.pts = db.store.ptsOf u := by
      intro k hk hl hge
      obtain ⟨htail, hle, hzero⟩ := windowStart_one (hmem hk hl) hge hnonneg
      have hreach : ¬start + maxDiffEvents < db.store.ptsOf u := by omega
      exact ⟨hle, by rw [hb, (window_end hlog hzero).2, if_neg hreach]⟩
    by_cases hquit : b.ups = [] ∧ b.more = false
    · refine ⟨_, ks, deliverRounds_quit hlisted (by decide) hb hquit, by simp, rfl, hstarts,
        fun i k k' hk hk' => ?_⟩
      obtain rfl := Option.some.inj (hk.symm.trans hk')
      refine ⟨fun _ => rfl, fun hl hge => ?_⟩
      obtain ⟨hfrom, hstate⟩ := hnear (mem_of_getElem? hk) hl hge
      have hnone := not_unpushed_of_empty hlog hfrom hquit.1
      rw [← hb, hstate] at hnone
      exact ⟨fun hun => absurd hun hnone, fun _ => rfl⟩
    · refine ⟨[start], window start b ks, ?_, by simp, by simp [window], hstarts.window,
        fun i k k' hk hk' => ?_⟩
      · rw [deliverRounds_next hlog hks hlisted (by decide) hb hquit, deliverRounds_cap (by decide)]
        rfl
      · have hmap : k' = if k.listed then serve start b k else k := by
          rw [window, getElem?_map, hk] at hk'
          exact (Option.some.inj hk').symm
        subst hmap
        refine ⟨fun hl => by rw [if_neg (by simp [hl])], fun hl hge => ?_⟩
        obtain ⟨hfrom, hstate⟩ := hnear (mem_of_getElem? hk) hl hge
        rw [if_pos hl]
        exact serve_catchesUp hlog hfrom hstate

/-- One delivery to all connections of an owner, alone, with every push succeeding: it builds at
most two windows, pushes none that starts above a connection's watermark, and brings every
connection within one batch of the head there that has something above its watermark, unless the
first window ended before the head and had something for the connection. -/
theorem deliverAtSuppressed_near_head (env : Env) {db : State} {u : Int}
    (hlog : Numbered (·.pts) (db.store.eventLog u) (db.store.ptsOf u)) (conns : List Conn)
    (hconns : ∀ c ∈ conns, Free u c) (lo : Int)
    (hlo : IsLeast {w | w ∈ conns.map (·.lastPushedPts)} lo) {bound : Nat} (hbound : 3 ≤ bound) :
    ∃ builds ks, deliverAtSuppressed env db u bound conns = some (builds, ks) ∧
      builds.length ≤ maxDeliveryRounds ∧ ks.length = conns.length ∧ StartsBelow ks ∧
      ∀ (i : Nat) (c : Conn) (k : Socket), conns[i]? = some c → ks[i]? = some k →
        db.store.ptsOf u - maxDiffEvents ≤ c.lastPushedPts →
        (db.store.ptsOf u ≤ lo + maxDiffEvents ∨
          ¬Unpushed db u c.lastPushedPts (lo + maxDiffEvents)) →
        CatchesUp db u c k.conn := by
  obtain ⟨n, rfl⟩ : ∃ n, bound = n + 3 := ⟨bound - 3, by omega⟩
  set ks₀ : List Socket := conns.map fun c => { conn := c } with hks₀
  have hwatermarks : (ks₀.filter (·.listed)).map (·.conn.lastPushedPts) =
      conns.map (·.lastPushedPts) := by
    have hall : ks₀.filter (·.listed) = ks₀ := by
      refine filter_eq_self.mpr fun k hk => ?_
      obtain ⟨c, -, rfl⟩ := mem_map.mp hk
      rfl
    rw [hall, hks₀, map_map]
    rfl
  have hks : ∀ k ∈ ks₀, Free u k.conn := by
    intro k hk
    obtain ⟨c, hc, rfl⟩ := mem_map.mp hk
    exact hconns c hc
  have hstarts : StartsBelow ks₀ := by
    intro k hk p hp
    obtain ⟨c, -, rfl⟩ := mem_map.mp hk
    exact absurd hp not_mem_nil
  have hget : ∀ {i : Nat} {c : Conn}, conns[i]? = some c → ks₀[i]? = some { conn := c } := by
    intro i c hc
    rw [hks₀, getElem?_map, hc]
    rfl
  have hle : ∀ {i : Nat} {c : Conn}, conns[i]? = some c → lo ≤ c.lastPushedPts := fun hc =>
    hlo.2 (mem_map_of_mem (mem_of_getElem? hc))
  obtain ⟨w, ws, hcons⟩ : ∃ w ws, conns.map (·.lastPushedPts) = w :: ws :=
    exists_cons_of_ne_nil (ne_nil_of_mem hlo.1)
  have hlisted := hwatermarks.trans hcons
  have hzero : 0 ≤ lo := by
    obtain ⟨c, hc, rfl⟩ := mem_map.mp hlo.1
    exact (hconns c hc).nonneg
  have hstart : windowStart 0 0 w ws = lo := windowStart_zero (hcons ▸ hlo)
  set b := buildUpdates env db u lo false with hb
  obtain ⟨hmore, hstate⟩ := @window_end env db u lo false hlog hzero
  unfold deliverAtSuppressed
  by_cases hquit : b.ups = [] ∧ b.more = false
  · refine ⟨_, ks₀, deliverRounds_quit hlisted (by decide)
      (hstart ▸ hb) hquit, by
    simp [maxDeliveryRounds], by simp [hks₀], hstarts, fun i c k hc hk hnear _ => ?_⟩
    obtain rfl := Option.some.inj ((hget hc).symm.trans hk)
    have hnone := not_unpushed_of_empty hlog (hle hc) hquit.1
    have hreach : ¬lo + maxDiffEvents < db.store.ptsOf u :=
      of_decide_eq_false (hmore.symm.trans hquit.2)
    rw [hstate, if_neg hreach] at hnone
    exact ⟨fun hun => absurd hun hnone, fun _ => rfl⟩
  -- The second round sees what the first left.
  obtain ⟨builds, ks, hrounds, hbuilds, hlength, hstarts', hsecond⟩ :=
    deliverRounds_one env (n + 3) n hlog (window_free lo b hks) hstarts.window
  refine ⟨lo :: builds, ks, ?_, Nat.succ_le_succ hbuilds, ?_, hstarts',
    fun i c k hc hk hnear hfirst => ?_⟩
  · rw [deliverRounds_next hlog hks hlisted (by decide) (hstart ▸ hb) hquit, hstart, hrounds]
    rfl
  · rw [hlength, window, length_map, hks₀, length_map]
  have hget' : (window lo b ks₀)[i]? = some (serve lo b { conn := c }) := by
    rw [window, getElem?_map, hget hc]
    rfl
  obtain ⟨hunlisted, hlisted'⟩ := hsecond i _ k hget' hk
  by_cases hreach : lo + maxDiffEvents < db.store.ptsOf u
  · have hgets : ¬Gets lo b c := by
      intro hgets
      have hun := ((gets_iff hlog).mp hgets).2
      rw [hstate, if_pos hreach] at hun
      exact hfirst.elim (fun h => absurd h (by omega)) fun h => h hun
    have hserve : serve lo b { conn := c } = { conn := c, listed := true } := by
      have hmore' : b.more = true := hmore.trans (decide_eq_true hreach)
      simp [serve, hgets, hmore', hle hc]
    rw [hserve] at hlisted'
    exact hlisted' rfl hnear
  · have hserve : (serve lo b { conn := c }).listed = false := by
      have hmore' : b.more = false := hmore.trans (decide_eq_false hreach)
      unfold serve
      split
      · rfl
      · simp [hmore']
    rw [hunlisted hserve]
    exact serve_catchesUp (k := { conn := c }) hlog (hle hc) (hstate.trans (if_neg hreach))

/-- Two connections of 2, of which one has the first message already. -/
theorem deliverAtSuppressed_near_head_two : ∃ c, Reached two [] c ∧ ∃ builds k k',
      deliverAtSuppressed ⟨0, 0, 1, fun _ _ _ => 0⟩ { store := c.db } 2 3
        [{ owner := 2, authKeyID := 5, lastPushedPts := 0 },
          { owner := 2, authKeyID := 6, lastPushedPts := 1 }] = some (builds, [k, k']) ∧
      c.db.ptsOf 2 = 2 ∧ k.conn.lastPushedPts = 2 ∧ k'.conn.lastPushedPts = 2 := by
  have hreached : Reached two [] (afterHi [.send 11 ⟨1, 2, "hello", 8, 0, 0⟩]) :=
    reached_serialRun
  obtain ⟨builds, ks, hsome, -, hlength, -, hall⟩ := deliverAtSuppressed_near_head
    ⟨0, 0, 1, fun _ _ _ => 0⟩ (u := 2)
      (numbered_eventLog (s := { store := _ }) (hreached.ok.inv.logs 2))
    [{ owner := 2, authKeyID := 5, lastPushedPts := 0 },
      { owner := 2, authKeyID := 6, lastPushedPts := 1 }]
    (by
      intro c hc
      rcases mem_cons.mp hc with rfl | hc
      · exact ⟨rfl, rfl, rfl, rfl, by decide⟩
      · obtain rfl := mem_singleton.mp hc
        exact ⟨rfl, rfl, rfl, rfl, by decide⟩)
    0 ⟨by simp, by simp [lowerBounds]⟩ (le_refl 3)
  obtain ⟨k, k', rfl⟩ := length_eq_two.mp hlength
  have hhead : (afterHi [.send 11 ⟨1, 2, "hello", 8, 0, 0⟩]).db.ptsOf 2 = 2 := by
    decide +kernel
  have hevent :
      ⟨2, 2, .newMessage, 2⟩ ∈ (afterHi [.send 11 ⟨1, 2, "hello", 8, 0, 0⟩]).db.eventLog 2 := by
    decide +kernel
  have hrow :
      ((afterHi [.send 11 ⟨1, 2, "hello", 8, 0, 0⟩]).db.messageByOwnerLocal 2 2).isSome := by
    decide +kernel
  have hwhole : (afterHi [.send 11 ⟨1, 2, "hello", 8, 0, 0⟩]).db.ptsOf 2 ≤ 0 + maxDiffEvents := by
    rw [hhead]
    decide
  have htail : ∀ w : Int, 0 ≤ w →
      (afterHi [.send 11 ⟨1, 2, "hello", 8, 0, 0⟩]).db.ptsOf 2 - maxDiffEvents ≤ w := by
    intro w hw
    omega
  refine ⟨_, hreached, builds, k, k', hsome, hhead, hhead ▸ ?_, hhead ▸ ?_⟩
  · exact (hall 0 _ k rfl rfl (htail 0 le_rfl) (.inl hwhole)).1
      ⟨_, hevent, by decide, hhead.ge, .inr ⟨by decide, hrow⟩⟩
  · exact (hall 1 _ k' rfl rfl (htail 1 (by decide)) (.inl hwhole)).1
      ⟨_, hevent, by decide, hhead.ge, .inr ⟨by decide, hrow⟩⟩

/-- 2 reads its dialog with 1 beyond the last message. The read hydrates to nothing, so a connection
that has the message stays below the head. -/
theorem near_head_stays_below : ∃ c, Reached two [] c ∧ c.db.ptsOf 2 = 2 ∧
      (deliverAtSuppressed ⟨0, 0, 1, fun _ _ _ => 0⟩ { store := c.db } 2 3
        [{ owner := 2, authKeyID := 5, lastPushedPts := 1 }]).map
          (fun x => x.2.map (·.conn.lastPushedPts)) =
        some [1] := by
  refine ⟨afterHi [.readHistory 11 2 1 5], reached_serialRun, ?_, ?_⟩
  · decide +kernel
  · decide +kernel

end FanOut

end TelegramServer.Push
