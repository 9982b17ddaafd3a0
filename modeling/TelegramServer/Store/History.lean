import TelegramServer.Store.Runs
import Mathlib.Algebra.Order.Ring.Int

/-!
# Pages of a dialog

The two statements that page through a dialog newest first: one starts below an id, the other at the
position that the id has in the whole list. Both cut the same list.
-/

namespace TelegramServer.Store

open List

variable {offsetID : Int} {p : Message → Bool} {m : Message} {α : Type} {f : α → Int} {l : List α}

theorem filter_lt_eq_drop (h : l.Pairwise fun a b => f b < f a) (x : Int) :
    l.filter (f · < x) = l.drop (l.countP (x ≤ f ·)) := by
  induction l with
  | nil => rfl
  | cons a l ih =>
    obtain ⟨ha, hl⟩ := pairwise_cons.mp h
    by_cases hx : x ≤ f a
    · rw [filter_cons_of_neg (by simpa using hx), countP_cons_of_pos (by simpa using hx),
        drop_succ_cons, ih hl]
    · have hall : ∀ b ∈ a :: l, f b < x := by
        intro b hb
        rcases mem_cons.mp hb with rfl | hb
        · omega
        · have := ha b hb
          omega
      have hnone : (a :: l).countP (x ≤ f ·) = 0 := by
        rw [countP_eq_zero]
        intro b hb
        have := hall b hb
        simp only [decide_eq_true_eq]
        omega
      rw [hnone, drop_zero, filter_eq_self]
      exact fun b hb => decide_eq_true (hall b hb)

theorem filter_lt_last (h : l.Pairwise fun a b => f b < f a) {n : Nat} {m : α}
    (hm : (l.take n).getLast? = some m) : l.filter (f · < f m) = l.drop n := by
  have hsplit := pairwise_append.mp ((take_append_drop n l).symm ▸ h)
  obtain ⟨hpage, -, hcross⟩ := hsplit
  obtain ⟨front, hfront⟩ := getLast?_eq_some_iff.mp hm
  have hlast : m ∈ l.take n := by simp [hfront]
  have habove : (l.take n).filter (f · < f m) = [] := by
    rw [filter_eq_nil_iff]
    intro a ha
    rw [hfront] at ha hpage
    rcases mem_append.mp ha with ha | ha
    · have := (pairwise_append.mp hpage).2.2 a ha m (mem_singleton.mpr rfl)
      simp only [decide_eq_true_eq]
      omega
    · obtain rfl := mem_singleton.mp ha
      simp
  have hbelow : (l.drop n).filter (f · < f m) = l.drop n :=
    filter_eq_self.mpr fun b hb => decide_eq_true (hcross m hlast b hb)
  nth_rewrite 1 [← take_append_drop n l]
  rw [filter_append, habove, hbelow, nil_append]

/-- The rows of `messages`: an owner has an id once, and ids count from one. -/
structure MessageTable where
  rows : List Message
  keyed : (rows.map (·.key)).Nodup
  positive : ∀ m ∈ rows, 0 < m.localID

structure DialogKey where
  ownerID : Int
  peerType : PeerType
  peerID : Int

def DialogKey.has (k : DialogKey) (m : Message) : Bool :=
  m.ownerID = k.ownerID ∧ m.peerType = k.peerType ∧ m.peerID = k.peerID ∧ m.deleted = false

/-- `LIMIT must not be negative`. -/
inductive HistoryErr where
  | negativeLimit
  deriving DecidableEq

namespace MessageTable

variable (t : MessageTable) (k : DialogKey)

def newestFirst (p : Message → Bool) : List Message :=
  (t.rows.filter p).insertionSort fun a b => b.localID ≤ a.localID

def slice (rows : List Message) (skip lim : Int) : Except HistoryErr (List Message) :=
  if lim < 0 then .error .negativeLimit else .ok ((rows.drop skip.toNat).take lim.toNat)

def queryHistoryPage (offsetID lim addOffset : Int) : Except HistoryErr (List Message) :=
  slice (t.newestFirst fun m => k.has m && decide (offsetID = 0 ∨ m.localID < offsetID))
    (max 0 addOffset) lim

def queryHistoryPageAround (offsetID lim addOffset : Int) : Except HistoryErr (List Message) :=
  let count := t.rows.countP fun m => k.has m && decide (offsetID ≤ m.localID)
  slice (t.newestFirst k.has) (max 0 (count + addOffset)) lim

def historyWithOffset (offsetID addOffset limit : Int) : Except HistoryErr (List Message) :=
  if offsetID < 0 then .ok []
  else if 0 < offsetID ∧ addOffset < 0 then
    t.queryHistoryPageAround k offsetID (int32 limit) addOffset
  else t.queryHistoryPage k offsetID (int32 limit) addOffset

/-- A client that follows the pages, each from the last id of the one before, until one is empty. -/
def followPages (offsetID : Int) : List Int → Except HistoryErr (List (List Message))
  | [] => .ok []
  | limit :: limits => do
      let page ← t.historyWithOffset k offsetID 0 limit
      match page.getLast? with
      | none => .ok []
      | some m => do
          let pages ← followPages m.localID limits
          .ok (page :: pages)

def dialog : List Message := t.newestFirst k.has

/-- How many rows of the dialog the anchor leaves out. -/
def anchor (offsetID : Int) : Nat :=
  if offsetID = 0 then 0 else (t.dialog k).countP (offsetID ≤ ·.localID)

variable {t k}

theorem mem_newestFirst : m ∈ t.newestFirst p ↔ m ∈ t.rows ∧ p m = true := by
  rw [newestFirst, (perm_insertionSort _ _).mem_iff, mem_filter]

theorem pairwise_newestFirst (hp : ∀ m, p m = true → m.ownerID = k.ownerID) :
    (t.newestFirst p).Pairwise fun a b => b.localID < a.localID := by
  have hle : (t.newestFirst p).Pairwise fun a b => b.localID ≤ a.localID :=
    pairwise_insertionSort _ _
  have hkeys : ((t.newestFirst p).map (·.key)).Nodup :=
    (((perm_insertionSort _ _).map _).nodup_iff).mpr (t.keyed.sublist (filter_sublist.map _))
  have hne : (t.newestFirst p).Pairwise fun a b => a.key ≠ b.key := pairwise_map.mp hkeys
  refine (hle.and hne).imp_of_mem ?_
  intro a b ha hb hab
  have howner : a.ownerID = b.ownerID :=
    (hp a (mem_newestFirst.mp ha).2).trans (hp b (mem_newestFirst.mp hb).2).symm
  have hid : a.localID ≠ b.localID := fun heq => hab.2 (Prod.ext howner heq)
  have := hab.1
  omega

theorem owner_of_has (h : k.has m = true) : m.ownerID = k.ownerID := by
  simp only [DialogKey.has, decide_eq_true_eq] at h
  exact h.1

theorem pairwise_dialog : (t.dialog k).Pairwise fun a b => b.localID < a.localID :=
  pairwise_newestFirst fun _ => owner_of_has

theorem newestFirst_and (q : Message → Bool) :
    (t.newestFirst fun m => k.has m && q m) = (t.dialog k).filter q := by
  have hleft : (t.newestFirst fun m => k.has m && q m).Pairwise fun a b => b.localID < a.localID :=
    pairwise_newestFirst fun m hm => owner_of_has (Bool.and_eq_true_iff.mp hm).1
  refine List.Perm.eq_of_pairwise (fun a b _ _ hab hba => ?_) hleft (pairwise_dialog.filter q) ?_
  · exact absurd hab (by omega)
  · have hsorted := (perm_insertionSort (fun a b : Message => b.localID ≤ a.localID)
      (t.rows.filter k.has)).filter q
    rw [filter_filter] at hsorted
    refine (perm_insertionSort _ _).trans (.trans (.of_eq ?_) hsorted.symm)
    exact congrArg (t.rows.filter ·) (funext fun m => Bool.and_comm _ _)

theorem filter_dialog :
    ((t.dialog k).filter fun m => decide (offsetID = 0 ∨ m.localID < offsetID)) =
      (t.dialog k).drop (t.anchor k offsetID) := by
  unfold anchor
  by_cases h : offsetID = 0
  · rw [if_pos h, drop_zero, filter_eq_self]
    exact fun m _ => decide_eq_true (.inl h)
  · rw [if_neg h, ← filter_lt_eq_drop pairwise_dialog]
    exact congrArg (List.filter · _) (funext fun m => by simp [h])

theorem count_rows (h : offsetID ≠ 0) :
    (t.rows.countP fun m => k.has m && decide (offsetID ≤ m.localID)) = t.anchor k offsetID := by
  rw [anchor, if_neg h, dialog, newestFirst, (perm_insertionSort _ _).countP_eq, countP_filter]
  exact congrArg (t.rows.countP ·) (funext fun m => Bool.and_comm _ _)

/-- A page is the part of the dialog at the anchor's position, moved by `addOffset`. -/
theorem historyWithOffset_eq {limit : Int} (addOffset : Int) (ho : 0 ≤ offsetID) (hl : 0 ≤ limit)
    (hmax : limit < 2 ^ 31) :
    t.historyWithOffset k offsetID addOffset limit =
      .ok (((t.dialog k).drop (max 0 (t.anchor k offsetID + addOffset)).toNat).take
        limit.toNat) := by
  have hlim : ¬ int32 limit < 0 := by
    rw [int32_of_lt hl hmax]
    omega
  rw [historyWithOffset, if_neg (by omega)]
  by_cases haround : 0 < offsetID ∧ addOffset < 0
  · rw [if_pos haround, queryHistoryPageAround, slice, if_neg hlim, count_rows (by omega),
      int32_of_lt hl hmax]
    rfl
  · rw [if_neg haround, queryHistoryPage, slice, if_neg hlim, newestFirst_and, filter_dialog,
      int32_of_lt hl hmax, drop_drop]
    have hskip : t.anchor k offsetID + (max 0 addOffset).toNat =
        (max 0 (t.anchor k offsetID + addOffset)).toNat := by
      by_cases h0 : offsetID = 0
      · rw [anchor, if_pos h0]
        omega
      · omega
    rw [hskip]

theorem followPages_eq {limits : List Int} (h : ∀ l ∈ limits, 0 < l ∧ l < 2 ^ 31)
    (ho : 0 ≤ offsetID) :
    ∃ pages, t.followPages k offsetID limits = .ok pages ∧ pages.flatten =
      ((t.dialog k).drop (t.anchor k offsetID)).take (limits.map Int.toNat).sum := by
  induction limits generalizing offsetID with
  | nil => exact ⟨[], rfl, by simp⟩
  | cons limit limits ih =>
    obtain ⟨⟨hpos, hmax⟩, hrest⟩ := forall_mem_cons.mp h
    have hpage := historyWithOffset_eq (t := t) (k := k) 0 ho hpos.le hmax
    have hskip : (max 0 ((t.anchor k offsetID : Int) + 0)).toNat = t.anchor k offsetID := by omega
    rw [hskip] at hpage
    set below := (t.dialog k).drop (t.anchor k offsetID) with hbelow
    cases hlast : (below.take limit.toNat).getLast? with
    | none =>
      have hempty : below = [] := by
        rcases take_eq_nil_iff.mp (getLast?_eq_none_iff.mp hlast) with h0 | hnil
        · omega
        · exact hnil
      refine ⟨[], ?_, by simp [hempty]⟩
      simp only [followPages, hpage, bind, Except.bind, hlast]
    | some m =>
      have hmem : m ∈ t.dialog k :=
        mem_of_mem_drop (mem_of_mem_take (mem_of_getLast? hlast))
      have hid := t.positive m (mem_newestFirst.mp hmem).1
      -- The next page starts where this one ends.
      have hnext : (t.dialog k).drop (t.anchor k m.localID) = below.drop limit.toNat := by
        have hwhole : ((t.dialog k).take (t.anchor k offsetID + limit.toNat)).getLast? =
            some m := by
          rw [take_add, getLast?_append, hlast]
          rfl
        have hdrop := filter_lt_last pairwise_dialog hwhole
        rw [filter_lt_eq_drop pairwise_dialog] at hdrop
        rw [anchor, if_neg hid.ne', hdrop, hbelow, drop_drop]
      obtain ⟨pages, hpages, hflat⟩ := ih hrest hid.le
      refine ⟨below.take limit.toNat :: pages, ?_, ?_⟩
      · simp only [followPages, hpage, bind, Except.bind, hlast, hpages]
      · rw [flatten_cons, hflat, hnext, map_cons, sum_cons, take_add]

/-- Every page is cut out of the dialog at the anchor's position moved by `addOffset`, and pages
that each start at the last id of the one before cut the dialog into consecutive pieces. -/
theorem history_slices (t : MessageTable) (k : DialogKey) :
    (∀ offsetID addOffset limit : Int, 0 ≤ offsetID → 0 ≤ limit → limit < 2 ^ 31 →
      t.historyWithOffset k offsetID addOffset limit =
        .ok (((t.dialog k).drop (max 0 (t.anchor k offsetID + addOffset)).toNat).take
          limit.toNat)) ∧
    (∀ limits : List Int, (∀ l ∈ limits, 0 < l ∧ l < 2 ^ 31) →
      ∃ pages, t.followPages k 0 limits = .ok pages ∧
        pages.flatten = (t.dialog k).take (limits.map Int.toNat).sum) ∧
    (t.dialog k).Pairwise (fun a b => b.localID < a.localID) ∧
    ∀ m, m ∈ t.dialog k ↔ m ∈ t.rows ∧ k.has m = true := by
  refine ⟨fun _ addOffset _ => historyWithOffset_eq addOffset, fun limits h => ?_, pairwise_dialog,
    fun _ => mem_newestFirst⟩
  obtain ⟨pages, hpages, hflat⟩ := followPages_eq (t := t) (k := k) h (Int.le_refl 0)
  exact ⟨pages, hpages, by rwa [anchor, if_pos rfl, drop_zero] at hflat⟩

end MessageTable

def Inv.messageTable {d : DB} (h : Inv d) : MessageTable where
  rows := d.messages
  keyed := List.Nodup.map_on (fun _ hx _ hy heq => h.row_of_key hx hy heq) h.nodup_messages
  positive m hm := (h.logs m.ownerID).messages.num_mem (mem_filter.mpr ⟨hm, by simp⟩) |>.1

theorem Inv.dialog_messageTable {d : DB} (h : Inv d) (k : DialogKey) : h.messageTable.dialog k =
      (d.messages.filter k.has).insertionSort fun a b => b.localID ≤ a.localID := rfl

/-- Three messages in pages of two. -/
theorem history_slices_three :
    ∃ (c : StoreConfig) (h : Reached two [] c) (pages : List (List Message)),
      h.ok.inv.messageTable.followPages ⟨1, .user, 2⟩ 0 [2, 2] = .ok pages ∧
        pages.flatten.map (·.localID) = [3, 2, 1] := by
  have hreached : Reached two [] (serialRun two []
      [.send 10 ⟨1, 2, "one", 0, 0, 0⟩, .send 11 ⟨2, 1, "two", 0, 0, 0⟩,
        .send 12 ⟨1, 2, "three", 0, 0, 0⟩]) := reached_serialRun
  obtain ⟨pages, hpages, hflat⟩ :=
    (MessageTable.history_slices hreached.ok.inv.messageTable ⟨1, .user, 2⟩).2.1 [2, 2] (by decide)
  refine ⟨_, hreached, pages, hpages, ?_⟩
  rw [hflat, Inv.dialog_messageTable]
  decide +kernel

/-- A limit of 2^32 comes out as zero, one of 2^31 below it. -/
theorem history_limit_wraps : ∃ (t : MessageTable) (k : DialogKey), (t.dialog k).length = 1 ∧
      t.historyWithOffset k 0 0 (2 ^ 32) = .ok [] ∧
      t.historyWithOffset k 0 0 (2 ^ 31) = .error .negativeLimit := by
  refine ⟨⟨[⟨1, 1, .user, 2, 1, 0, "one", true, none, false, 0, 0, 0, 0, .none, 0, 0, 0,
    none, 0, 0⟩], by simp, by simp⟩, ⟨1, .user, 2⟩, ?_⟩
  decide +kernel

end TelegramServer.Store
