import Mathlib.Data.Finset.Card
import Mathlib.Algebra.Order.Ring.Int

/-!
# Erasure walks

`MediaErasureSummary` and `SweepMediaErasure` go through `files` by id, one page at a time, up to
the highest id there was at the start, while rows come and go.
-/

namespace TelegramServer.Erasure

open List

/-- A row of `files`, with what the scan finds in `messages` and `channel_messages`. -/
structure FileRow where
  id : Int
  size : Int
  stored : Bool
  date : Int
  messageRef : Bool
  channelRef : Bool

structure Files where
  rows : List FileRow
  sorted : rows.Pairwise (·.id < ·.id)
  positive : ∀ r ∈ rows, 0 < r.id

def Files.ids (t : Files) : Finset Int := (t.rows.map (·.id)).toFinset

def Files.maxFileID (t : Files) : Int := (t.rows.getLast?.map (·.id)).getD 0

/-- `WHERE id > after AND id <= through ORDER BY id LIMIT batch`. -/
def Files.page (t : Files) (after through batch : Int) : List FileRow :=
  (t.rows.filter fun r => after < r.id ∧ r.id ≤ through).take batch.toNat

structure EraseTx where
  opened : Except String Unit := .ok ()
  /-- Whether the row was there and nobody held it. -/
  lock : Except String Bool := .ok true
  claim : Except String Bool := .ok true
  clear : Except String Unit := .ok ()
  /-- How many rows `DeleteUnreferencedFile` or, for `false`, `DeleteUnassembledFile` deletes. -/
  delete : Bool → Except String Nat := fun _ => .ok 1
  commit : Except String Unit := .ok ()

/-- What a walk meets at one scan: the table, and what becomes of the candidates that it names. -/
structure Moment where
  files : Files
  failure : Option String := none
  erase : Int → EraseTx := fun _ => {}
  remove : Int → Option String := fun _ => none

structure ErasureCandidate where
  id : Int
  size : Int

structure ErasureCounts where
  scanned : Nat := 0
  unreferenced : Nat := 0
  unreferencedBytes : Int := 0
  unassembled : Nat := 0
  unassembledBytes : Int := 0
  skippedMessageRef : Nat := 0
  skippedChannelRef : Nat := 0
  skippedTooNew : Nat := 0

def ErasureCounts.add (c o : ErasureCounts) : ErasureCounts where
  scanned := c.scanned + o.scanned
  unreferenced := c.unreferenced + o.unreferenced
  unreferencedBytes := c.unreferencedBytes + o.unreferencedBytes
  unassembled := c.unassembled + o.unassembled
  unassembledBytes := c.unassembledBytes + o.unassembledBytes
  skippedMessageRef := c.skippedMessageRef + o.skippedMessageRef
  skippedChannelRef := c.skippedChannelRef + o.skippedChannelRef
  skippedTooNew := c.skippedTooNew + o.skippedTooNew

structure ErasureScan where
  unreferenced : List ErasureCandidate := []
  unassembled : List ErasureCandidate := []
  counts : ErasureCounts := {}
  lastID : Int := 0
  done : Bool

/-- One turn of the loop over the rows. -/
def ErasureScan.read (olderThan : Int) (scan : ErasureScan) (r : FileRow) : ErasureScan :=
  let scan := { scan with counts.scanned := scan.counts.scanned + 1, lastID := r.id }
  let c : ErasureCandidate := ⟨r.id, r.size⟩
  if r.messageRef then { scan with counts.skippedMessageRef := scan.counts.skippedMessageRef + 1 }
  else if r.channelRef then { scan
    with counts.skippedChannelRef := scan.counts.skippedChannelRef + 1 }
  else if ¬ r.date < olderThan then { scan
    with counts.skippedTooNew := scan.counts.skippedTooNew + 1 }
  else if r.stored then
    { scan with
      unreferenced := scan.unreferenced ++ [c]
      counts.unreferenced := scan.counts.unreferenced + 1
      counts.unreferencedBytes := scan.counts.unreferencedBytes + c.size }
  else
    { scan with
      unassembled := scan.unassembled ++ [c]
      counts.unassembled := scan.counts.unassembled + 1
      counts.unassembledBytes := scan.counts.unassembledBytes + c.size }

def maxInt32 : Int := 2 ^ 31 - 1

def outOfRange (batch : Int) : Prop := batch ≤ 0 ∨ batch > maxInt32

instance (batch : Int) : Decidable (outOfRange batch) := instDecidableOr

def mediaErasureScan (m : Moment) (olderThan afterID throughID batch : Int) :
    Except String ErasureScan :=
  if outOfRange batch then .error s!"media erasure scan: batch {batch} out of range"
  else
    match m.failure with
    | some e => .error s!"media erasure scan: {e}"
    | none =>
      let throughID := if throughID ≤ 0 then 2 ^ 63 - 1 else throughID
      let rows := m.files.page afterID throughID batch
      .ok (rows.foldl (.read olderThan) { done := rows.length < batch })

/-! ## The walks -/

structure Walked (C : Type) where
  counts : C
  failed : Option String := none
  log : List (List FileRow) := []

/-- The loop of both walks, over what its scans meet; `use` is the part that differs. There is no
result if more is asked for than `ms` has. -/
def walk {C : Type} (use : C → Moment → ErasureScan → C × Option String)
    (olderThan through batch : Int) : List Moment → Int → C → Option (Walked C)
  | ms, after, counts =>
    if through ≤ after then some { counts }
    else
      match ms with
      | [] => none
      | m :: ms =>
        match mediaErasureScan m olderThan after through batch with
        | .error e => some { counts, failed := some e }
        | .ok scan =>
          let next := use counts m scan
          let rest :=
            if next.2.isSome ∨ scan.done then some { counts := next.1, failed := next.2 }
            else walk use olderThan through batch ms scan.lastID next.1
          rest.map fun w => { w with log := m.files.page after through batch :: w.log }

/-- `MediaErasureSummary`; the highest id is read at the first moment. -/
def mediaErasureSummary (olderThan batch : Int) (start : Moment) (ms : List Moment) :
    Option (Walked ErasureCounts) :=
  if outOfRange batch then
    some { counts := {}, failed := some s!"media erasure summary: batch {batch} out of range" }
  else
    match start.failure with
    | some e => some { counts := {}, failed := some s!"media erasure summary: max file id: {e}" }
    | none =>
      walk (fun counts _ scan => (counts.add scan.counts, none)) olderThan
        start.files.maxFileID batch ms 0 {}

inductive EraseOutcome where
  | erased
  | contended
  | retained

def eraseCandidate (tx : EraseTx) (id : Int) (stored : Bool) : Except String EraseOutcome := do
  tx.opened.mapError fun e => s!"erase file {id}: begin: {e}"
  if !(← tx.lock.mapError fun e => s!"erase file {id}: lock: {e}") then
    return .contended
  if !(← tx.claim.mapError fun e => s!"erase file {id}: assembly claim: {e}") then
    tx.commit.mapError fun e => s!"erase file {id}: contended commit: {e}"
    return .contended
  tx.clear.mapError fun e => s!"erase file {id}: clear channel refs: {e}"
  if (← (tx.delete stored).mapError fun e => s!"erase file {id}: delete: {e}") = 0 then
    return .retained
  tx.commit.mapError fun e => s!"erase file {id}: commit: {e}"
  return .erased

/-- The fields of `EraseCounts` for one reclaim class. -/
structure EraseTally where
  considered : Nat := 0
  erased : Nat := 0
  erasedBytes : Int := 0
  contended : Nat := 0
  retained : Nat := 0
  unlinkFailed : Nat := 0

structure EraseCounts where
  unreferenced : EraseTally := {}
  unassembled : EraseTally := {}
  unlinkErr : Option String := none

/-- The loop over the candidates of one class, with the first failure to unlink; an error ends the
sweep. -/
def considerAll (m : Moment) (stored : Bool) (unlink : Int → String → String) :
    List ErasureCandidate → EraseTally → Option String →
      (EraseTally × Option String) × Option String
  | [], t, unlinkErr => ((t, unlinkErr), none)
  | c :: cs, t, unlinkErr =>
    let t := { t with considered := t.considered + 1 }
    match eraseCandidate (m.erase c.id) c.id stored with
    | .error e => ((t, unlinkErr), some e)
    | .ok .contended => considerAll m stored unlink cs { t with contended := t.contended + 1 }
      unlinkErr
    | .ok .retained => considerAll m stored unlink cs { t with retained := t.retained + 1 }
      unlinkErr
    | .ok .erased =>
      let t := { t with erased := t.erased + 1, erasedBytes := t.erasedBytes + c.size }
      match m.remove c.id with
      | none => considerAll m stored unlink cs t unlinkErr
      | some e =>
        considerAll m stored unlink cs { t with unlinkFailed := t.unlinkFailed + 1 }
          (unlinkErr.or (some (unlink c.id e)))

def sweepScan (counts : EraseCounts) (m : Moment) (scan : ErasureScan) :
    EraseCounts × Option String :=
  let first := considerAll m true (fun id e => s!"media erasure sweep: unlink file {id}: {e}")
    scan.unreferenced counts.unreferenced counts.unlinkErr
  let counts := { counts with unreferenced := first.1.1, unlinkErr := first.1.2 }
  if first.2.isSome then (counts, first.2)
  else
    let second :=
      considerAll m false (fun id e => s!"media erasure sweep: unlink unassembled file {id}: {e}")
      scan.unassembled counts.unassembled counts.unlinkErr
    ({ counts with unassembled := second.1.1, unlinkErr := second.1.2 }, second.2)

/-- `SweepMediaErasure`, whose error is what made it fail or else the first failure to unlink. -/
def sweepMediaErasure (olderThan batch : Int) (start : Moment) (ms : List Moment) :
    Option (Walked EraseCounts) :=
  if outOfRange batch then
    some { counts := {}, failed := some s!"media erasure sweep: batch {batch} out of range" }
  else
    match start.failure with
    | some e => some { counts := {}, failed := some s!"media erasure sweep: max file id: {e}" }
    | none => walk sweepScan olderThan start.files.maxFileID batch ms 0 {}

/-- New rows lie above the highest id that `t` had. -/
def Files.Later (t t' : Files) : Prop := ∀ id ∈ t'.ids, id ≤ t.maxFileID → id ∈ t.ids

variable {m : Moment} {scan : ErasureScan} {r : FileRow} {id : Int} {t : Files}
  {after through batch olderThan : Int}

theorem Files.mem_ids : id ∈ t.ids ↔ ∃ r ∈ t.rows, r.id = id := by
  simp [Files.ids]

theorem Files.page_sublist : (t.page after through batch).Sublist t.rows :=
  (take_sublist _ _).trans filter_sublist

theorem Files.of_mem_page (h : r ∈ t.page after through batch) :
    r.id ∈ t.ids ∧ after < r.id ∧ r.id ≤ through := by
  refine ⟨Files.mem_ids.mpr ⟨r, Files.page_sublist.subset h, rfl⟩, ?_⟩
  simpa using (mem_filter.mp (mem_of_mem_take h)).2

/-- A page has the rows of its window up to its last one, and a short page has them all. -/
theorem Files.mem_page (hr : r ∈ t.rows) (ha : after < r.id) (hn : r.id ≤ through)
    (hpage : (t.page after through batch).length < batch.toNat ∨
      ∃ x ∈ t.page after through batch, r.id ≤ x.id) : r ∈ t.page after through batch := by
  set window := t.rows.filter fun r => after < r.id ∧ r.id ≤ through with hwindow
  have hmem : r ∈ window.take batch.toNat ++ window.drop batch.toNat := by
    rw [take_append_drop, hwindow, mem_filter]
    exact ⟨hr, by simp [ha, hn]⟩
  have hsorted : (window.take batch.toNat ++ window.drop batch.toNat).Pairwise (·.id < ·.id) := by
    rw [take_append_drop]
    exact t.sorted.sublist filter_sublist
  refine (mem_append.mp hmem).resolve_right fun hdrop => ?_
  obtain hshort | ⟨x, hx, hle⟩ := hpage
  · have hlen : window.length ≤ batch.toNat := by
      rw [Files.page, ← hwindow, length_take] at hshort
      omega
    rw [drop_eq_nil_of_le hlen] at hdrop
    cases hdrop
  · exact absurd ((pairwise_append.mp hsorted).2.2 x hx r hdrop) (by omega)

theorem le_of_getLast? {rows : List FileRow} (hrows : rows.Pairwise (·.id < ·.id)) {x : FileRow}
    (hx : rows.getLast? = some x) (hr : r ∈ rows) : r.id ≤ x.id := by
  obtain ⟨front, rfl⟩ := getLast?_eq_some_iff.mp hx
  rcases mem_append.mp hr with hfront | heq
  · exact ((pairwise_append.mp hrows).2.2 r hfront x (by simp)).le
  · rw [mem_singleton.mp heq]

theorem Files.le_maxFileID (h : id ∈ t.ids) : id ≤ t.maxFileID := by
  obtain ⟨r, hr, rfl⟩ := Files.mem_ids.mp h
  have hx := getLast?_eq_some_getLast (ne_nil_of_mem hr)
  rw [Files.maxFileID, hx]
  exact le_of_getLast? t.sorted hx hr

/-- Every row that was read is in one of the five classes. -/
def ErasureCounts.Partitioned (c : ErasureCounts) : Prop :=
  c.scanned = c.skippedMessageRef + c.skippedChannelRef + c.skippedTooNew + c.unreferenced +
    c.unassembled

theorem ErasureScan.read_spec (olderThan : Int) (s : ErasureScan) (r : FileRow) :
    (s.read olderThan r).done = s.done ∧ (s.read olderThan r).lastID = r.id ∧
      (s.read olderThan r).counts.scanned = s.counts.scanned + 1 ∧
      (s.counts.Partitioned → (s.read olderThan r).counts.Partitioned) := by
  unfold read ErasureCounts.Partitioned
  split_ifs <;> refine ⟨rfl, rfl, rfl, fun h => ?_⟩ <;> dsimp only <;> omega

theorem foldl_read (olderThan : Int) (rows : List FileRow) (s : ErasureScan) :
    (rows.foldl (.read olderThan) s).done = s.done ∧
      (rows.foldl (.read olderThan) s).lastID = (rows.getLast?.map (·.id)).getD s.lastID ∧
      (rows.foldl (.read olderThan) s).counts.scanned = s.counts.scanned + rows.length ∧
      (s.counts.Partitioned → (rows.foldl (.read olderThan) s).counts.Partitioned) := by
  induction rows generalizing s with
  | nil => exact ⟨rfl, rfl, rfl, id⟩
  | cons r rows ih =>
    obtain ⟨hdone, hlast, hscanned, hparts⟩ := s.read_spec olderThan r
    obtain ⟨ihdone, ihlast, ihscanned, ihparts⟩ := ih (s.read olderThan r)
    rw [foldl_cons]
    refine ⟨ihdone.trans hdone, ihlast.trans ?_, ?_, ihparts ∘ hparts⟩
    · rw [hlast, getLast?_cons]
      cases rows.getLast? <;> rfl
    · rw [ihscanned, hscanned, length_cons]
      omega

/-- A scan that is not the last one ends at a row of its page, behind all the others. -/
theorem mediaErasureScan_spec (hthrough : 0 < through)
    (h : mediaErasureScan m olderThan after through batch = .ok scan) :
    scan.counts.scanned = (m.files.page after through batch).length ∧ scan.counts.Partitioned ∧
      (scan.done = true → (m.files.page after through batch).length < batch.toNat) ∧
      (scan.done = false → ∃ x ∈ m.files.page after through batch, x.id = scan.lastID ∧
        ∀ r ∈ m.files.page after through batch, r.id ≤ x.id) := by
  unfold mediaErasureScan at h
  split at h
  · cases h
  rename_i hbatch
  split at h
  · cases h
  rw [if_neg (by omega)] at h
  obtain rfl := Except.ok.inj h
  set page := m.files.page after through batch with hpage
  obtain ⟨hdone, hlast, hscanned, hparts⟩ :=
    foldl_read olderThan page { done := page.length < batch }
  rw [hdone, hlast, hscanned, decide_eq_true_eq, decide_eq_false_iff_not]
  refine ⟨Nat.zero_add _, hparts rfl, fun hlt => by omega, fun hlt => ?_⟩
  have hne : page ≠ [] := by
    rintro hnil
    rw [hnil] at hlt
    exact hbatch (.inl (not_lt.mp hlt))
  have hx := getLast?_eq_some_getLast hne
  rw [hx]
  exact ⟨_, mem_of_getLast? hx, rfl,
    fun r => le_of_getLast? (m.files.sorted.sublist Files.page_sublist) hx⟩

variable {C : Type} {use : C → Moment → ErasureScan → C × Option String} {ms : List Moment}

/-- What the scans of a walk behind the row `after` have read. -/
structure Reads (t : Files) (ms : List Moment) (after : Int) (w : Walked C) : Prop where
  once : (w.log.flatten.map (·.id)).Pairwise (· < ·)
  within : ∀ r ∈ w.log.flatten, after < r.id ∧ r.id ≤ t.maxFileID
  /-- A row that is there all the time is read. -/
  all : w.failed = none → ∀ id ∈ t.ids, after < id →
    (∀ m ∈ ms.take w.log.length, id ∈ m.files.ids) → id ∈ w.log.flatten.map (·.id)

theorem Reads.nil {w : Walked C} (hw : w.log = []) (h : w.failed = none → t.maxFileID ≤ after) :
    Reads t ms after w := by
  refine ⟨by simp [hw], by simp [hw], fun hf id hid hlt => ?_⟩
  exact absurd (Files.le_maxFileID hid) (by have := h hf; omega)

/-- One page, and then the rest of the walk behind its last row. -/
theorem Reads.cons {w : Walked C} (last : Int)
    (hlast : ∀ r ∈ m.files.page after t.maxFileID batch, r.id ≤ last)
    (hall : w.failed = none → ∀ r ∈ m.files.rows, after < r.id → r.id ≤ t.maxFileID → r.id ≤ last →
      r ∈ m.files.page after t.maxFileID batch) (hle : after ≤ last) (h : Reads t ms last w) :
    Reads t (m :: ms) after { w with log := m.files.page after t.maxFileID batch :: w.log } where
  once := by
    rw [flatten_cons, map_append, pairwise_append]
    refine ⟨pairwise_map.mpr (m.files.sorted.sublist Files.page_sublist), h.once, ?_⟩
    simp only [forall_mem_map]
    exact fun r hr r' hr' => (hlast r hr).trans_lt (h.within r' hr').1
  within := by
    simp only [flatten_cons, forall_mem_append]
    exact ⟨fun r hr => (Files.of_mem_page hr).2, fun r hr => (h.within r hr).imp_left hle.trans_lt⟩
  all hf id hid hlt hthere := by
    simp only [length_cons, take_succ_cons, forall_mem_cons] at hthere
    rw [flatten_cons, map_append, mem_append]
    by_cases hbehind : last < id
    · exact .inr (h.all hf id hid hbehind hthere.2)
    · obtain ⟨r, hr, rfl⟩ := Files.mem_ids.mp hthere.1
      exact .inl (mem_map_of_mem (hall hf r hr hlt (Files.le_maxFileID hid) (not_lt.mp hbehind)))

/-- Every scan but the last one goes past a row that was there at the start. `P` is what `use` makes
of the rows so far. -/
theorem walk_spec (use) (olderThan batch : Int) {P : C → Option String → Nat → Prop}
    (hP : ∀ c n e, P c none n → P c (some e) n)
    (huse : ∀ c n, ∀ m ∈ ms, ∀ scan, scan.counts.Partitioned → P c none n →
      P (use c m scan).1 (use c m scan).2 (n + scan.counts.scanned))
    (hms : ∀ m ∈ ms, t.Later m.files) (ha : 0 ≤ after) {c : C} {n : Nat} (hc : P c none n)
    (hlen : (t.ids.filter (after < ·)).card < ms.length) :
    ∃ w, walk use olderThan t.maxFileID batch ms after c = some w ∧
      w.log.length ≤ (t.ids.filter (after < ·)).card + 1 ∧ Reads t ms after w ∧
      P w.counts w.failed (n + w.log.flatten.length) := by
  induction ms generalizing after c n with
  | nil => simp at hlen
  | cons m ms ih =>
    obtain ⟨hm, hms⟩ := forall_mem_cons.mp hms
    have huse' := fun c n m hm => huse c n m (mem_cons_of_mem _ hm)
    rw [walk]
    by_cases hend : t.maxFileID ≤ after
    · rw [if_pos hend]
      exact ⟨_, rfl, by simp, .nil rfl fun _ => hend, hc⟩
    rw [if_neg hend]
    dsimp only
    cases hscan : mediaErasureScan m olderThan after t.maxFileID batch with
    | error e => exact ⟨_, rfl, by simp, .nil rfl fun hf => (by cases hf), hP c n _ hc⟩
    | ok scan =>
      obtain ⟨hscanned, hparts, hdone, hlast⟩ := mediaErasureScan_spec (by omega) hscan
      have hnext := huse c n m mem_cons_self scan hparts hc
      rw [hscanned] at hnext
      dsimp only
      split
      · rename_i hstop
        refine ⟨_, rfl, by simp, Reads.cons t.maxFileID (fun r hr => (Files.of_mem_page hr).2.2)
          (fun hf r hr hlt hle _ => ?_) (by omega) (.nil rfl fun _ => le_rfl), by simpa using hnext⟩
        have hnone : (use c m scan).2 = none := hf
        exact Files.mem_page hr hlt hle (.inl (hdone (hstop.resolve_left (by simp [hnone]))))
      · rename_i hgo
        rw [not_or, Option.not_isSome_iff_eq_none, Bool.not_eq_true] at hgo
        obtain ⟨x, hx, hxlast, hmax⟩ := hlast hgo.2
        obtain ⟨hxid, hlt, hle⟩ := Files.of_mem_page hx
        have hcard : (t.ids.filter (x.id < ·)).card < (t.ids.filter (after < ·)).card := by
          refine Finset.card_lt_card ⟨fun id hid => ?_, fun hsub => ?_⟩
          · rw [Finset.mem_filter] at hid ⊢
            exact ⟨hid.1, hlt.trans hid.2⟩
          · have hmem := hsub (Finset.mem_filter.mpr ⟨hm x.id hxid hle, hlt⟩)
            exact lt_irrefl _ (Finset.mem_filter.mp hmem).2
        rw [length_cons] at hlen
        rw [hgo.1] at hnext
        obtain ⟨w, hw, hscans, hreads, hcounts⟩ := ih huse' hms (ha.trans hlt.le) hnext (by omega)
        rw [← hxlast, hw]
        refine ⟨_,
          rfl, by simp; omega, hreads.cons x.id hmax (fun _ r hr hra hrn hrx => ?_) hlt.le, ?_⟩
        · exact Files.mem_page hr hra hrn (.inr ⟨x, hx, hrx⟩)
        · rwa [flatten_cons, length_append, ← Nat.add_assoc]

/-! ## The two walks -/

/-- Each candidate that was considered has its outcome, up to those whose transactions failed. -/
def EraseTally.Balanced (t : EraseTally) (failed : Nat) : Prop :=
  t.considered = t.erased + t.contended + t.retained + failed ∧ t.unlinkFailed ≤ t.erased

theorem considerAll_balanced {stored : Bool} {unlink : Int → String → String}
    (cs : List ErasureCandidate) {t : EraseTally} (ht : t.Balanced 0) (unlinkErr : Option String) :
    (considerAll m stored unlink cs t unlinkErr).1.1.Balanced
      (considerAll m stored unlink cs t unlinkErr).2.toList.length := by
  induction cs generalizing t unlinkErr with
  | nil => exact ht
  | cons c cs ih =>
    unfold EraseTally.Balanced at ht ih
    rw [considerAll]
    dsimp only
    split
    · exact ⟨congrArg (· + 1) ht.1, ht.2⟩
    · exact ih (by dsimp only; omega) _
    · exact ih (by dsimp only; omega) _
    · split
      · exact ih (by dsimp only; omega) _
      · exact ih (by dsimp only; omega) _

/-- The two tallies of a sweep; at most one transaction has failed, and then the sweep has. -/
def EraseCounts.Balanced (c : EraseCounts) (failed : Option String) : Prop :=
  ∃ n n', c.unreferenced.Balanced n ∧ c.unassembled.Balanced n' ∧ n + n' ≤ failed.toList.length

theorem sweepScan_balanced {c : EraseCounts} (hc : c.Balanced none) :
    (sweepScan c m scan).1.Balanced (sweepScan c m scan).2 := by
  obtain ⟨n, n', hstored, hrest, hsum⟩ := hc
  obtain ⟨rfl, rfl⟩ := Nat.add_eq_zero_iff.mp (Nat.le_zero.mp hsum)
  unfold sweepScan
  extract_lets first counts second
  have hfirst : first.1.1.Balanced first.2.toList.length := considerAll_balanced _ hstored _
  split
  · exact ⟨_, 0, hfirst, hrest, le_rfl⟩
  · rename_i hnone
    rw [Option.not_isSome_iff_eq_none.mp hnone] at hfirst
    exact ⟨0, _, hfirst, considerAll_balanced _ hrest _, (Nat.zero_add _).le⟩

/-- No erase transaction of a candidate fails. -/
def Moment.Erases (m : Moment) : Prop :=
  ∀ id stored, ∃ out, eraseCandidate (m.erase id) id stored = .ok out

theorem Moment.Erases.considerAll (h : m.Erases) {stored : Bool} {unlink : Int → String → String}
    (cs : List ErasureCandidate) (t : EraseTally) (unlinkErr : Option String) :
    (considerAll m stored unlink cs t unlinkErr).2 = none := by
  induction cs generalizing t unlinkErr with
  | nil => rfl
  | cons c cs ih =>
    obtain ⟨out, hout⟩ := h c.id stored
    rw [Erasure.considerAll, hout]
    cases out <;> dsimp only
    case erased => split <;> exact ih _ _
    all_goals exact ih _ _

theorem Moment.Erases.sweepScan (h : m.Erases) (c : EraseCounts) :
    (sweepScan c m scan).2 = none := by
  unfold Erasure.sweepScan
  dsimp only
  rw [h.considerAll, if_neg (by simp)]
  exact h.considerAll _ _ _

theorem ErasureCounts.partitioned_add {c o : ErasureCounts} (hc : c.Partitioned)
    (ho : o.Partitioned) : (c.add o).Partitioned := by
  unfold ErasureCounts.Partitioned ErasureCounts.add at *
  dsimp only
  omega

/-- Two old files that nothing refers to, the second without its bytes, and a file in use. -/
def threeFiles : Files :=
  ⟨[⟨1, 5, true, 0, false, false⟩, ⟨2, 7, false, 0, false, false⟩, ⟨3, 9, true, 0, true, false⟩],
    by decide, by decide⟩

/-- One old file that nothing refers to. -/
def oneFile : Files := ⟨[⟨1, 5, true, 0, false, false⟩], by simp, by simp⟩

end TelegramServer.Erasure
