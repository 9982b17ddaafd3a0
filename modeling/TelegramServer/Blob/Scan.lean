import TelegramServer.Blob.Keys

/-!
# A scan of the blob tree

Every path under the root is classified against the files table. Blobs are held back and looked up
in batches, while other paths are counted at once; the report comes out as if each path had been
looked up when it was met.
-/

namespace TelegramServer.Blob

open List

inductive Kind where
  | dir
  | regular (size : Int)
  | other

structure Entry where
  key : Bytes
  kind : Kind
  modTime : Int

def Kind.size : Kind → Int
  | .regular size => size
  | _ => 0

structure Candidate where
  key : Bytes
  id : Int := 0
  size : Int := 0

structure Class where
  count : Nat := 0
  bytes : Int := 0
  paths : List Candidate := []

def maxSample : Nat := 64

def idBatch : Nat := 1000

def int64 (x : Int) : Int := x.bmod (2 ^ 64)

def Class.add (c : Class) (e : Candidate) : Class where
  count := c.count + 1
  bytes := int64 (c.bytes + e.size)
  paths := if c.paths.length < maxSample then c.paths ++ [e] else c.paths

structure Report where
  through : Int
  walked : Nat := 0
  orphans : Class := {}
  temps : Class := {}
  parts : Class := {}
  unexplained : Class := {}
  accounted : Nat := 0
  aboveSnapshot : Nat := 0
  tempsInFlight : Nat := 0

/-- The seven classes, and the directories of the layout. -/
inductive Outcome where
  | layout | orphan | temp | part | unexplained | accounted | above | inFlight
  deriving DecidableEq

def Report.record (rep : Report) (c : Candidate) : Outcome → Report
  | .layout => rep
  | .orphan => { rep with orphans := rep.orphans.add c }
  | .temp => { rep with temps := rep.temps.add c }
  | .part => { rep with parts := rep.parts.add c }
  | .unexplained => { rep with unexplained := rep.unexplained.add c }
  | .accounted => { rep with accounted := rep.accounted + 1 }
  | .above => { rep with aboveSnapshot := rep.aboveSnapshot + 1 }
  | .inFlight => { rep with tempsInFlight := rep.tempsInFlight + 1 }

/-- What is said of a path at once; a blob at or below the snapshot is held back. -/
inductive Verdict where
  | decided (o : Outcome) (c : Candidate)
  | held (c : Candidate)

def cutTemp (s : Bytes) : Bytes × Bool :=
  if tempSuffix.isSuffixOf s then (s.take (s.length - tempSuffix.length), true) else (s, false)

def isLayoutDir (key : Bytes) : Bool :=
  isShard key || key = partsPrefix.dropLast || isPartShardDir key

def tempVerdict (cutoff : Int) (e : Entry) (c : Candidate) : Verdict :=
  if e.modTime < cutoff then .decided .temp c else .decided .inFlight c

def judge (through cutoff : Int) (e : Entry) : Verdict :=
  match e.kind with
  | .dir => .decided (if isLayoutDir e.key then .layout else .unexplained) { key := e.key }
  | .other => .decided .unexplained { key := e.key }
  | .regular size =>
    let (key, temp) := cutTemp e.key
    if partsPrefix.isPrefixOf e.key then
      if !parsePartKey key then .decided .unexplained { key := e.key, size }
      else if temp then tempVerdict cutoff e { key := e.key, size }
      else .decided .part { key := e.key, size }
    else
      match parseKey key with
      | none => .decided .unexplained { key := e.key, size }
      | some id =>
        if through < id then .decided .above { key := e.key, id, size }
        else if temp then tempVerdict cutoff e { key := e.key, id, size }
        else .held { key := e.key, id, size }

/-- The scan in progress: the batches that were resolved, and the blobs held back. -/
structure Scan where
  rep : Report
  pending : List Candidate := []
  batches : Nat := 0

-- Which ids have a row when a batch is resolved; the query may fail.
variable (rows : Nat → Option (Int → Bool)) {c : Candidate} {e : Entry} {es : List Entry} {j : Nat}
  {k o : Outcome} {s s' : Scan}

def found (present : Int → Bool) (id : Int) : Outcome := if present id then .accounted else .orphan

def resolve (s : Scan) : Option Scan :=
  if s.pending = [] then some s
  else (rows s.batches).map fun present =>
    { rep := s.pending.foldl (fun rep c => rep.record c (found present c.id)) s.rep
      batches := s.batches + 1 }

def visit (through cutoff : Int) (s : Scan) (e : Entry) : Option Scan :=
  let rep := { s.rep with walked := s.rep.walked + 1 }
  match judge through cutoff e with
  | .decided o c => some { s with rep := rep.record c o }
  | .held c =>
    let s := { s with rep, pending := s.pending ++ [c] }
    if s.pending.length < idBatch then some s else resolve rows s

/-- The snapshot is read before the walk, which may fail. -/
def scan (through cutoff : Int) (entries : List Entry) (walkErr : Bool) : Option Report := do
  let s ← entries.foldlM (visit rows through cutoff) { rep := { through } }
  if walkErr then none else do
    let s ← resolve rows s
    pure s.rep

/-! ## One path after the other -/

/-- What becomes of a blob in the given batch, if that is resolved. -/
def status (batch : Nat) (id : Int) : Outcome := found ((rows batch).getD fun _ => true) id

def Verdict.outcome (batch : Nat) : Verdict → Outcome
  | .decided o _ => o
  | .held c => status rows batch c.id

def Verdict.blobs : Verdict → Nat
  | .decided _ _ => 0
  | .held _ => 1

def outcomes (through cutoff : Int) : Nat → List Entry → List Outcome
  | _, [] => []
  | j, e :: es => (judge through cutoff e).outcome rows (j / idBatch) ::
      outcomes through cutoff (j + (judge through cutoff e).blobs) es

def Report.next (rep : Report) (x : Candidate × Outcome) : Report :=
  { rep with walked := rep.walked + 1 }.record x.1 x.2

def Verdict.candidate : Verdict → Candidate
  | .decided _ c => c
  | .held c => c

def Scan.virtual (s : Scan) : Report :=
  s.pending.foldl (fun rep c => rep.record c (status rows s.batches c.id)) s.rep

variable {rows : Nat → Option (Int → Bool)} {through cutoff : Int}

theorem judge_decided (h : judge through cutoff e = .decided o c) :
    o ≠ .orphan ∧ o ≠ .accounted := by
  unfold judge tempVerdict at h
  dsimp only at h
  split at h
  · cases h
    split <;> simp
  · cases h
    simp
  · split at h
    · split at h
      · cases h; simp
      · split at h
        · split at h <;> cases h <;> simp
        · cases h; simp
    · split at h
      · cases h; simp
      · split at h
        · cases h; simp
        · split at h
          · split at h <;> cases h <;> simp
          · cases h

/-- A blob is a regular file whose whole name is a key at or below the snapshot. -/
theorem judge_held (h : judge through cutoff e = .held c) :
    c.id ≤ through ∧ parseKey e.key = some c.id := by
  unfold judge tempVerdict at h
  dsimp only at h
  split at h
  · cases h
  · cases h
  split at h
  · split at h
    · cases h
    · split at h
      · split at h <;> cases h
      · cases h
  split at h
  · cases h
  rename_i id hid
  split at h
  · cases h
  split at h
  · split at h <;> cases h
  rename_i hle htemp
  cases h
  have hcut : (cutTemp e.key).1 = e.key := by
    unfold cutTemp at htemp ⊢
    split at htemp
    · exact absurd rfl htemp
    · rename_i hno
      rw [if_neg hno]
  exact ⟨Int.not_lt.mp hle, by rwa [hcut] at hid⟩

theorem candidate_judge (e : Entry) : (judge through cutoff e).candidate.key = e.key ∧
    (judge through cutoff e).candidate.size = e.kind.size := by
  unfold judge tempVerdict
  dsimp only
  split <;> rename_i hkind <;> rw [hkind]
  · exact ⟨rfl, rfl⟩
  · exact ⟨rfl, rfl⟩
  · repeat' split
    all_goals exact ⟨rfl, rfl⟩

theorem record_comm (rep : Report) (c c' : Candidate) (ho : o ≠ .orphan) (present : Int → Bool)
    (id : Int) :
    (rep.record c o).record c' (found present id) =
    (rep.record c' (found present id)).record c o := by
  unfold found
  split <;> cases o <;> first | rfl | exact absurd rfl ho

theorem foldl_next (rep : Report) (cs : List Candidate) (c : Candidate) (ho : o ≠ .orphan)
    (n : Nat) : cs.foldl (fun rep c => rep.record c (status rows n c.id)) (rep.next (c, o)) =
      (cs.foldl (fun rep c => rep.record c (status rows n c.id)) rep).next (c, o) := by
  induction cs generalizing rep with
  | nil => rfl
  | cons c' cs ih =>
    rw [foldl_cons, foldl_cons, ← ih]
    congr 1
    refine (record_comm _ c c' ho _ _).trans (congrArg (Report.record · c o) ?_)
    unfold status found
    split <;> rfl

theorem foldl_walked (rep : Report) (cs : List Candidate) (n : Nat) :
    cs.foldl (fun rep c => rep.record c (status rows n c.id))
      { rep with walked := rep.walked + 1 } =
      { cs.foldl (fun rep c => rep.record c (status rows n c.id)) rep with
        walked := (cs.foldl (fun rep c => rep.record c (status rows n c.id)) rep).walked + 1 } :=
  foldl_next rep cs { key := [] } (o := .layout) (by simp) n

theorem virtual_resolve (h : resolve rows s = some s') :
    s'.virtual rows = s.virtual rows ∧ s'.pending = [] ∧
      s'.batches = s.batches + if s.pending = [] then 0 else 1 := by
  unfold resolve at h
  split at h
  · cases h
    exact ⟨rfl, ‹_›, by simp [*]⟩
  · obtain ⟨present, hrows, rfl⟩ := Option.map_eq_some_iff.mp h
    refine ⟨?_, rfl, by simp [*]⟩
    simp only [Scan.virtual, status, hrows, Option.getD_some, foldl_nil]

/-- How far the scan is: `j` blobs were met, in batches that are full but for the last one. -/
def Scan.At (s : Scan) (j : Nat) : Prop :=
  j = s.batches * idBatch + s.pending.length ∧ s.pending.length < idBatch

theorem Scan.At.batch (h : s.At j) : j / idBatch = s.batches := by
  obtain ⟨rfl, hlt⟩ := h
  unfold idBatch at *
  omega

theorem virtual_foldlM (hj : s.At j) (h : es.foldlM (visit rows through cutoff) s = some s') :
    s'.virtual rows = ((es.map fun e => (judge through cutoff e).candidate).zip
      (outcomes rows through cutoff j es)).foldl Report.next (s.virtual rows) := by
  induction es generalizing s j with
  | nil =>
    cases h
    rfl
  | cons e es ih =>
    obtain ⟨t, ht, h⟩ := Option.bind_eq_some_iff.mp (foldlM_cons.symm.trans h)
    unfold visit at ht
    rw [map_cons, outcomes]
    cases hv : judge through cutoff e with
    | decided o c =>
      rw [hv] at ht
      cases ht
      refine (ih (j := j) ?_ h).trans ?_
      · exact hj
      · exact congrArg (List.foldl Report.next · _)
          (foldl_next s.rep s.pending c (judge_decided hv).1 s.batches)
    | held c =>
      rw [hv] at ht
      dsimp only at ht
      have hone :
        ({ s with rep := { s.rep with walked := s.rep.walked + 1 }, pending := s.pending ++ [c] } :
          Scan).virtual rows = (s.virtual rows).next (c, status rows (j / idBatch) c.id) := by
        rw [Scan.virtual, foldl_append, foldl_cons, foldl_nil, foldl_walked, hj.batch]
        rfl
      split at ht
      · cases ht
        rw [ih (j := j + 1) ⟨by simp [hj.1, Nat.add_assoc], ‹_›⟩ h, hone]
        rfl
      · obtain ⟨hvirt, hnil, hbatches⟩ := virtual_resolve ht
        have hat : t.At (j + 1) := by
          rename_i hfull
          obtain ⟨h1, h2⟩ := hj
          rw [length_append, length_singleton] at hfull
          rw [if_neg (by simp)] at hbatches
          refine ⟨?_, by rw [hnil]; decide⟩
          rw [hbatches, hnil, length_nil]
          dsimp only
          unfold idBatch at *
          omega
        rw [ih hat h, hvirt, hone]
        rfl

/-! ## What a report says -/

/-- A class of the report; those that only count have no bytes and no paths. -/
def Report.classOf (rep : Report) : Outcome → Class
  | .layout => {}
  | .orphan => rep.orphans
  | .temp => rep.temps
  | .part => rep.parts
  | .unexplained => rep.unexplained
  | .accounted => { count := rep.accounted }
  | .above => { count := rep.aboveSnapshot }
  | .inFlight => { count := rep.tempsInFlight }

def Outcome.hasBytes : Outcome → Bool
  | .orphan | .temp | .part | .unexplained => true
  | _ => false

theorem count_foldl (xs : List (Candidate × Outcome)) (rep : Report) (hk : k ≠ .layout) :
    ((xs.foldl Report.next rep).classOf k).count =
    (rep.classOf k).count + (xs.map Prod.snd).count k := by
  induction xs generalizing rep with
  | nil => rfl
  | cons x xs ih =>
    rw [foldl_cons, ih, map_cons, count_cons]
    obtain ⟨c, o⟩ := x
    have hone : ((rep.next (c, o)).classOf k).count =
        (rep.classOf k).count + if o == k then 1 else 0 := by
      cases o <;> cases k <;> first | rfl | exact absurd rfl hk
    rw [hone]
    dsimp only
    omega

/-- A class is filled with its own candidates, in their order. -/
theorem classOf_foldl (xs : List (Candidate × Outcome)) (rep : Report) (hk : k.hasBytes = true) :
    (xs.foldl Report.next rep).classOf k =
      ((xs.filter (·.2 = k)).map Prod.fst).foldl Class.add (rep.classOf k) := by
  induction xs generalizing rep with
  | nil => rfl
  | cons x xs ih =>
    rw [foldl_cons, ih, filter_cons]
    obtain ⟨c, o⟩ := x
    have hone : (rep.next (c, o)).classOf k = if o = k then (rep.classOf k).add c
        else rep.classOf k := by
      cases o <;> cases k <;> first | rfl | cases hk
    rw [hone]
    by_cases ho : o = k <;> simp [ho]

theorem bytes_foldl_add (cs : List Candidate) (c : Class) (hc : int64 c.bytes = c.bytes) :
    (cs.foldl Class.add c).bytes = int64 (c.bytes + (cs.map (·.size)).sum) := by
  induction cs generalizing c with
  | nil => simp [hc]
  | cons e cs ih =>
    rw [foldl_cons, ih (c.add e) Int.bmod_bmod, map_cons, sum_cons, ← Int.add_assoc]
    exact Int.bmod_add_bmod

theorem paths_foldl_add (cs : List Candidate) (c : Class) :
    (cs.foldl Class.add c).paths = c.paths ++ cs.take (maxSample - c.paths.length) := by
  induction cs generalizing c with
  | nil => simp
  | cons e cs ih =>
    rw [foldl_cons, ih, Class.add]
    dsimp only
    split
    · rename_i hlt
      rw [length_append, length_singleton, append_assoc, Nat.sub_add_eq,
        show maxSample - c.paths.length = maxSample - c.paths.length - 1 + 1 by
          omega, take_succ_cons]
      rfl
    · rename_i hfull
      rw [Nat.sub_eq_zero_of_le (not_lt.mp hfull), take_zero, take_zero]

/-- The class has these entries: their number, their bytes as an `int64`, and the first of their
paths. -/
structure Class.Holds (c : Class) (es : List Entry) : Prop where
  count : c.count = es.length
  bytes : c.bytes = int64 (es.map (·.kind.size)).sum
  paths : c.paths.map (·.key) = (es.take maxSample).map (·.key)

/-- The entries that `out` puts into one class. -/
def among (k : Outcome) (es : List Entry) (out : List Outcome) : List Entry :=
  ((es.zip out).filter (·.2 = k)).map Prod.fst

theorem length_among (k : Outcome) {out : List Outcome} (h : out.length = es.length) :
    (among k es out).length = out.count k := by
  have hcount : out.count k = ((es.zip out).map Prod.snd).count k := by rw [map_snd_zip h.le]
  rw [hcount, List.count, countP_map, countP_eq_length_filter, among, length_map]
  simp only [Function.comp_def, Bool.beq_eq_decide_eq]

theorem walked_foldl (xs : List (Candidate × Outcome)) (rep : Report) :
    (xs.foldl Report.next rep).walked = rep.walked + xs.length := by
  induction xs generalizing rep with
  | nil => rfl
  | cons x xs ih =>
    have hone : (rep.next x).walked = rep.walked + 1 := by
      obtain ⟨c, o⟩ := x
      cases o <;> rfl
    rw [foldl_cons, ih, hone, length_cons]
    omega

theorem length_outcomes : (outcomes rows through cutoff j es).length = es.length := by
  induction es generalizing j with
  | nil => rfl
  | cons e es ih =>
    rw [outcomes, length_cons, ih, length_cons]

def blobsAmong (through cutoff : Int) (es : List Entry) : Nat :=
  (es.map fun e => (judge through cutoff e).blobs).sum

theorem outcomes_getElem? {i : Nat} (he : es[i]? = some e) :
    (outcomes rows through cutoff j es)[i]? = some ((judge through cutoff e).outcome rows
      ((j + blobsAmong through cutoff (es.take i)) / idBatch)) := by
  induction es generalizing j i with
  | nil => cases he
  | cons x es ih =>
    cases i with
    | zero =>
      cases he
      rfl
    | succ i =>
      rw [outcomes, take_succ_cons, blobsAmong, map_cons, sum_cons, ← Nat.add_assoc]
      exact ih he

/-- The path at `i` is an orphan: its name is the key of an id at or below the snapshot that has no
row at the moment its batch is resolved. -/
def OrphanAt (rows : Nat → Option (Int → Bool)) (through cutoff : Int) (es : List Entry) (i : Nat)
    (e : Entry) (id : Int) : Prop :=
  0 < id ∧ id ≤ through ∧ e.key = key id ∧ ∃ present,
    rows (blobsAmong through cutoff (es.take i) / idBatch) = some present ∧ present id = false

theorem orphanAt_candidate {i : Nat}
    (he : es[i]? = some e) (ho : (outcomes rows through cutoff 0 es)[i]? = some .orphan) :
    parseKey e.key = some (judge through cutoff e).candidate.id ∧
      OrphanAt rows through cutoff es i e (judge through cutoff e).candidate.id := by
  rw [outcomes_getElem? he, Nat.zero_add, Option.some.injEq] at ho
  cases hv : judge through cutoff e with
  | decided o c =>
    rw [hv] at ho
    exact absurd ho (judge_decided hv).1
  | held c =>
    rw [hv] at ho
    obtain ⟨hle, hid⟩ := judge_held hv
    obtain ⟨hpos, -, hkey⟩ := key_of_parseKey hid
    refine ⟨hid, hpos, hle, hkey, ?_⟩
    unfold Verdict.outcome status found at ho
    cases hrows : rows (blobsAmong through cutoff (es.take i) / idBatch) with
    | none => simp [hrows] at ho
    | some present => exact ⟨present, rfl, by simpa [hrows, Verdict.candidate] using ho⟩

theorem orphanAt_of_mem (h : e ∈ among .orphan es (outcomes rows through cutoff 0 es)) :
    ∃ i, es[i]? = some e ∧
      OrphanAt rows through cutoff es i e (judge through cutoff e).candidate.id := by
  obtain ⟨⟨_, o⟩, hx, rfl⟩ := mem_map.mp h
  obtain ⟨hx, ho⟩ := mem_filter.mp hx
  obtain ⟨i, hi⟩ := mem_iff_getElem?.mp hx
  obtain ⟨he, hout⟩ := getElem?_zip_eq_some.mp hi
  rw [show o = .orphan from of_decide_eq_true ho] at hout
  exact ⟨i, he, (orphanAt_candidate he hout).2⟩

theorem judge_layout {n : Nat} :
    (judge through cutoff e).outcome rows n = .layout ↔
    e.kind = .dir ∧ isLayoutDir e.key = true := by
  unfold judge tempVerdict
  dsimp only
  split <;> rename_i hkind <;> rw [hkind]
  · by_cases h : isLayoutDir e.key = true <;> simp [Verdict.outcome, h]
  · simp [Verdict.outcome]
  · repeat' split
    all_goals simp [Verdict.outcome, status, found]
    all_goals split <;> simp

theorem length_eq_counts (os : List Outcome) : os.length = os.count .orphan + os.count .temp +
    os.count .part + os.count .unexplained + os.count .accounted + os.count .above +
    os.count .inFlight + os.count .layout := by
  induction os with
  | nil => rfl
  | cons o os ih =>
    simp only [length_cons, count_cons, ih]
    cases o <;> simp <;> omega

/-- A scan that succeeds reports its candidates one after the other, as if none had waited. -/
theorem rep_of_scan {walkErr : Bool} {rep : Report}
    (h : scan rows through cutoff es walkErr = some rep) :
    rep = ((es.map fun e => (judge through cutoff e).candidate).zip
      (outcomes rows through cutoff 0 es)).foldl Report.next { through } := by
  obtain ⟨s, hfold, h⟩ := Option.bind_eq_some_iff.mp h
  split at h
  · cases h
  obtain ⟨t, hresolve, ht⟩ := Option.bind_eq_some_iff.mp h
  cases ht
  obtain ⟨hvirt, hnil, -⟩ := virtual_resolve hresolve
  rw [virtual_foldlM (j := 0) ⟨by simp, by simp [idBatch]⟩ hfold, Scan.virtual, hnil] at hvirt
  exact hvirt

/-- A scan that succeeds puts every path into one class. The classes have the paths that are put
into them, with their bytes as an `int64`; the layout directories are the rest; and an orphan is
what it should be, also where the report names it. -/
theorem scan_partitions {rows : Nat → Option (Int → Bool)} {through cutoff : Int}
    {entries : List Entry} {walkErr : Bool} {rep : Report}
    (h : scan rows through cutoff entries walkErr = some rep) :
    let out := outcomes rows through cutoff 0 entries
    out.length = entries.length ∧ rep.walked = entries.length ∧
      rep.orphans.Holds (among .orphan entries out) ∧ rep.temps.Holds (among .temp entries out) ∧
      rep.parts.Holds (among .part entries out) ∧
      rep.unexplained.Holds (among .unexplained entries out) ∧
      rep.accounted = out.count .accounted ∧ rep.aboveSnapshot = out.count .above ∧
      rep.tempsInFlight = out.count .inFlight ∧
      rep.walked = rep.orphans.count + rep.temps.count + rep.parts.count + rep.unexplained.count +
        rep.accounted + rep.aboveSnapshot + rep.tempsInFlight + out.count .layout ∧
      (∀ c ∈ rep.orphans.paths, ∃ i e, entries[i]? = some e ∧ e.key = c.key ∧
        OrphanAt rows through cutoff entries i e c.id) ∧
      ∀ i e, entries[i]? = some e →
        (out[i]? = some .layout ↔ e.kind = .dir ∧ isLayoutDir e.key = true) ∧
        (out[i]? = some .orphan → ∃ id, OrphanAt rows through cutoff entries i e id) ∧
        (parseKey e.key = none → out[i]? ≠ some .orphan) := by
  intro out
  have hlen : out.length = entries.length := length_outcomes
  have hrep := rep_of_scan h
  generalize hxs : (entries.map fun e => (judge through cutoff e).candidate).zip _ = xs at hrep
  have hsnd : xs.map Prod.snd = out := by
    rw [← hxs, map_snd_zip (by simp [length_outcomes])]
  have hcount : ∀ k, k ≠ .layout → (rep.classOf k).count = out.count k := by
    intro k hk
    rw [hrep, count_foldl xs _ hk, hsnd]
    cases k <;> exact Nat.zero_add _
  have hwalked : rep.walked = entries.length := by
    rw [hrep, walked_foldl, ← length_map Prod.snd, hsnd, hlen]
    exact Nat.zero_add _
  -- A class with bytes is filled by the candidates of its entries.
  have hclass : ∀ k : Outcome, k.hasBytes = true → rep.classOf k =
      ((among k entries out).map fun e => (judge through cutoff e).candidate).foldl
      Class.add {} := by
    intro k hk
    have hzero : ({ through } : Report).classOf k = {} := by cases k <;> rfl
    rw [hrep, classOf_foldl xs _ hk, hzero, ← hxs, zip_map_left, filter_map, among,
      map_map, map_map]
    rfl
  have hholds : ∀ k : Outcome, k.hasBytes = true →
      (rep.classOf k).Holds (among k entries out) := by
    intro k hk
    refine ⟨?_, ?_, ?_⟩
    · rw [hcount k (by rintro rfl; cases hk), length_among k hlen]
    · rw [hclass k hk, bytes_foldl_add _ _ rfl, map_map, Int.zero_add]
      exact congrArg (int64 ·.sum) (map_congr_left fun e _ => (candidate_judge e).2)
    · rw [hclass k hk, paths_foldl_add, nil_append, ← map_take, map_map]
      exact map_congr_left fun e _ => (candidate_judge e).1
  refine ⟨hlen, hwalked, hholds .orphan rfl, hholds .temp rfl, hholds .part rfl,
    hholds .unexplained rfl, hcount .accounted nofun, hcount .above nofun,
    hcount .inFlight nofun, ?_, ?_, fun i e he => ?_⟩
  · rw [hwalked, ← hlen, length_eq_counts, ← hcount .orphan nofun, ← hcount .temp nofun,
      ← hcount .part nofun, ← hcount .unexplained nofun, ← hcount .accounted nofun,
      ← hcount .above nofun, ← hcount .inFlight nofun]
    rfl
  · intro c hc
    rw [show rep.orphans = _ from hclass .orphan rfl, paths_foldl_add, nil_append] at hc
    obtain ⟨e, he, rfl⟩ := mem_map.mp (mem_of_mem_take hc)
    obtain ⟨i, he, horphan⟩ := orphanAt_of_mem he
    exact ⟨i, e, he, (candidate_judge e).1.symm, horphan⟩
  · refine ⟨?_, fun ho => ⟨_, (orphanAt_candidate he ho).2⟩, fun hno ho => ?_⟩
    · rw [outcomes_getElem? he, Option.some.injEq]
      exact judge_layout
    · rw [(orphanAt_candidate he ho).1] at hno
      cases hno

/-- A stored file, a stray directory, a blob without a row, a fresh temporary file and an old
one. -/
def fiveEntries : List Entry :=
  [⟨key 1, .regular 3, 0⟩, ⟨[46], .dir, 0⟩, ⟨key 2, .regular 4, 0⟩,
    ⟨key 3 ++ tempSuffix, .regular 5, 9⟩, ⟨key 4 ++ tempSuffix, .regular 6, 1⟩]

theorem scan_partitions_five :
    ∃ rep, scan (fun _ => some (· = 1)) 5 2 fiveEntries false = some rep ∧
    rep.orphans.paths.map (·.id) = [2] ∧ rep.temps.Holds [⟨key 4 ++ tempSuffix, .regular 6, 1⟩] ∧
    rep.tempsInFlight = 1 ∧ ∀ c ∈ rep.orphans.paths, ∃ i e, fiveEntries[i]? = some e ∧
      e.key = c.key ∧ OrphanAt (fun _ => some (· = 1)) 5 2 fiveEntries i e c.id := by
  have h : scan (fun _ => some (· = 1)) 5 2 fiveEntries false = some _ := rfl
  obtain ⟨-, -, -, htemps, -, -, -, -, hfresh, -, hpaths, -⟩ := scan_partitions h
  exact ⟨_, h, by decide +kernel, htemps, hfresh, hpaths⟩

/-- Two orphans whose sizes together do not fit the total. -/
theorem scan_bytes_wrap : (scan (fun _ => some fun _ => false) 5 0
    [⟨key 1, .regular (2 ^ 62), 0⟩, ⟨key 2, .regular (2 ^ 62), 0⟩] false).map (·.orphans.bytes) =
      some (-2 ^ 63) := by
  decide +kernel

end TelegramServer.Blob
