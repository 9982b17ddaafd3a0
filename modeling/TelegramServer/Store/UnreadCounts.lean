import TelegramServer.Store.Membership

/-!
# Dialogs and their counters

Every dialog names its newest row. Its unread count is that of its rows, as long as inbound rows
arrive above its read marker and no deletion takes a row that is unread.
-/

namespace TelegramServer.Store

open Tx Tx.Table List
open Message (frozen isAt unread isAt_iff)

variable {m : Message} {d : DB} {g : Dialog} {r : StoreRecord} {a : Act}
  {unread now : Int} {as : List Act} {v w : DB} {base : Int → Int}

def Dialog.has (g : Dialog) (m : Message) : Bool :=
  Dialog.isFor m.ownerID m.peerType m.peerID g

def Dialog.counts (g : Dialog) (m : Message) : Bool :=
  g.has m && !m.out && !m.deleted && decide (g.readInboxMaxID < m.localID)

/-- The top message is a row of the dialog, and no row of the dialog is newer. -/
structure Dialog.Topped (g : Dialog) (ms : List Message) : Prop where
  row : ∃ m ∈ ms, g.has m ∧ m.localID = g.topMessage
  newest : ∀ m ∈ ms, g.has m → m.localID ≤ g.topMessage

structure DialogsOk (d : DB) : Prop where
  rows : ∀ m ∈ d.messages, ∃ g ∈ d.dialogs, g.has m
  tops : ∀ g ∈ d.dialogs, g.Topped d.messages

def Counted (d : DB) : Prop :=
  ∀ g ∈ d.dialogs, g.unreadCount = d.unreadAbove g.ownerID g.peerType g.peerID g.readInboxMaxID

theorem Dialog.has_iff :
    g.has m ↔ g.ownerID = m.ownerID ∧ g.peerType = m.peerType ∧ g.peerID = m.peerID := by
  simp [Dialog.has, Dialog.isFor]

theorem Dialog.counts_iff :
    g.counts m ↔ g.has m ∧ m.out = false ∧ m.deleted = false ∧ g.readInboxMaxID < m.localID := by
  simp [Dialog.counts, and_assoc]

theorem Dialog.unreadAbove_eq (g : Dialog) (d : DB) :
    d.unreadAbove g.ownerID g.peerType g.peerID g.readInboxMaxID = d.messages.countP g.counts := by
  rw [DB.unreadAbove, countP_eq_length_filter]
  congr 3
  funext m
  refine Bool.eq_iff_iff.mpr ?_
  rw [Dialog.counts_iff, Dialog.has_iff, decide_eq_true_eq]
  constructor
  · rintro ⟨ho, ht, hp, hrest⟩
    exact ⟨⟨ho.symm, ht.symm, hp.symm⟩, hrest⟩
  · rintro ⟨⟨ho, ht, hp⟩, hrest⟩
    exact ⟨ho.symm, ht.symm, hp.symm, hrest⟩

theorem counted_iff : Counted d ↔ ∀ g ∈ d.dialogs, g.unreadCount = d.messages.countP g.counts := by
  simp only [Counted, Dialog.unreadAbove_eq]

theorem dialogs_post : ((Act.post m unread now).apply d).dialogs = upsertWhere (fun g => g.has m)
      (fun g => { g with topMessage := m.localID, unreadCount := g.unreadCount + unread })
      { ownerID := m.ownerID, peerType := m.peerType, peerID := m.peerID, topMessage := m.localID,
        unreadCount := unread } d.dialogs :=
  rfl

theorem messages_post : ((Act.post m unread now).apply d).messages = d.messages ++ [m] :=
  rfl

theorem mem_dialogs_post (hg : g ∈ ((Act.post m unread now).apply d).dialogs) :
    (g ∈ d.dialogs ∧ g.has m = false) ∨ (∃ g' ∈ d.dialogs, g'.has m = true ∧
        g = { g' with topMessage := m.localID, unreadCount := g'.unreadCount + unread }) ∨
      ((∀ g' ∈ d.dialogs, g'.has m = false) ∧
        g = { ownerID := m.ownerID, peerType := m.peerType, peerID := m.peerID,
              topMessage := m.localID, unreadCount := unread }) :=
  mem_upsertWhere.mp hg

theorem exists_dialog_post {x : Message} (hx : x = m ∨ ∃ g ∈ d.dialogs, g.has x) :
    ∃ g ∈ ((Act.post m unread now).apply d).dialogs, g.has x := by
  simp only [dialogs_post, mem_upsertWhere]
  obtain ⟨g, hg, hhas⟩ | hno : (∃ g ∈ d.dialogs, g.has x) ∨ x = m ∧ ∀ g ∈ d.dialogs,
      g.has m = false := by
    by_cases hin : ∃ g ∈ d.dialogs, g.has x
    · exact .inl hin
    · obtain rfl := hx.resolve_right hin
      exact .inr ⟨rfl, by simpa using hin⟩
  · cases hm : g.has m
    · exact ⟨g, .inl ⟨hg, hm⟩, hhas⟩
    · exact ⟨_, .inr (.inl ⟨g, hg, hm, rfl⟩), hhas⟩
  · exact ⟨_, .inr (.inr ⟨hno.2, rfl⟩), hno.1 ▸ Dialog.has_iff.mpr ⟨rfl, rfl, rfl⟩⟩

theorem DialogsOk.post (h : DialogsOk d) (hlogs : ∀ u, LogOk u (d.ofOwner u)) (hm : PostOk d m) :
    DialogsOk ((Act.post m unread now).apply d) := by
  have htop : ∀ g : Dialog, g.ownerID = m.ownerID → g.has m → g.topMessage = m.localID →
      g.Topped (d.messages ++ [m]) := by
    intro g howner hhas htop
    refine ⟨⟨m, by simp, hhas, htop.symm⟩, fun x hx hxg => ?_⟩
    rcases mem_append.mp hx with hx | hx
    · have hlt := (localID_lt_nextOf hlogs hx).2
      have hnext := hm.next
      rw [← (Dialog.has_iff.mp hxg).1, howner, ← hnext] at hlt
      omega
    · rw [mem_singleton.mp hx, htop]
  refine ⟨fun x hx => ?_, fun g hg => ?_⟩
  · rw [messages_post] at hx
    refine exists_dialog_post ?_
    rcases mem_append.mp hx with hx | hx
    · exact .inr (h.rows x hx)
    · exact .inl (mem_singleton.mp hx)
  · rw [messages_post]
    rcases mem_dialogs_post hg with ⟨hg, hno⟩ | ⟨g', hg', hhas, rfl⟩ | ⟨-, rfl⟩
    · obtain ⟨⟨x, hx, hxg, hxl⟩, hnew⟩ := h.tops g hg
      refine ⟨⟨x, mem_append_left _ hx, hxg, hxl⟩, fun y hy hyg => ?_⟩
      rcases mem_append.mp hy with hy | hy
      · exact hnew y hy hyg
      · rw [mem_singleton.mp hy, hno] at hyg
        exact absurd hyg Bool.false_ne_true
    · exact htop _ (Dialog.has_iff.mp hhas).1 hhas rfl
    · exact htop _ rfl (Dialog.has_iff.mpr ⟨rfl, rfl, rfl⟩) rfl

def Dialog.head (g : Dialog) : Int × PeerType × Int × Int :=
  (g.ownerID, g.peerType, g.peerID, g.topMessage)

theorem exists_mem_of_map_eq {α β : Type} {k : α → β} {l l' : List α}
    (h : l'.map k = l.map k) {x : α} (hx : x ∈ l) : ∃ y ∈ l', k y = k x := by
  have hmem : k x ∈ l.map k := mem_map_of_mem hx
  rw [← h] at hmem
  exact mem_map.mp hmem

theorem Dialog.has_congr {g' : Dialog} {m' : Message} (hg : g'.head = g.head)
    (hm : m'.frozen = m.frozen) : g'.has m' = g.has m := by
  have hg' : g'.has m' = g.has m' := by
    simp only [Dialog.head, Prod.mk.injEq] at hg
    simp [Dialog.has, Dialog.isFor, hg]
  have hm' : g.has m'.frozen = g.has m.frozen := by rw [hm]
  exact hg'.trans hm'

theorem DialogsOk.congr (h : DialogsOk d) (hm : w.messages.map frozen = d.messages.map frozen)
    (hg : w.dialogs.map Dialog.head = d.dialogs.map Dialog.head) : DialogsOk w := by
  have hid : ∀ {x y : Message}, x.frozen = y.frozen → x.localID = y.localID := by
    intro x y hxy
    exact (Message.kept hxy).localID
  have htop : ∀ {x y : Dialog}, x.head = y.head → x.topMessage = y.topMessage := by
    intro x y hxy
    exact congrArg (·.2.2.2) hxy
  refine ⟨fun m hmem => ?_, fun g hmem => ?_⟩
  · obtain ⟨m', hm', hfm⟩ := exists_mem_of_map_eq hm.symm hmem
    obtain ⟨g', hg', hhas⟩ := h.rows m' hm'
    obtain ⟨g, hgmem, hhead⟩ := exists_mem_of_map_eq hg hg'
    exact ⟨g, hgmem, (Dialog.has_congr hhead hfm.symm).trans hhas⟩
  · obtain ⟨g', hg', hhead⟩ := exists_mem_of_map_eq hg.symm hmem
    obtain ⟨⟨m', hm', hhas, hl⟩, hnew⟩ := h.tops g' hg'
    constructor
    · obtain ⟨m, hmmem, hfm⟩ := exists_mem_of_map_eq hm hm'
      exact ⟨m, hmmem, (Dialog.has_congr hhead.symm hfm).trans hhas,
        (hid hfm).trans (hl.trans (htop hhead))⟩
    · intro m hmmem hmg
      obtain ⟨m', hm', hfm⟩ := exists_mem_of_map_eq hm.symm hmmem
      have hle := hnew m' hm' ((Dialog.has_congr hhead hfm).trans hmg)
      rwa [hid hfm, htop hhead] at hle

theorem head_dialogs_act (hok : a.Ok d) (ha : a.newMessages = []) :
    (a.apply d).dialogs.map Dialog.head = d.dialogs.map Dialog.head := by
  cases a with
  | post m unread now => exact absurd ha (by simp [Act.newMessages])
  | side o =>
    cases o
    case advanceReadInbox => exact map_updateWhere fun _ _ => rfl
    case advanceChatReadInbox => exact map_updateWhere fun _ _ => rfl
    case advanceReadOutbox => exact map_updateWhere fun _ _ => rfl
    all_goals first | rfl | exact absurd hok Bool.false_ne_true
  | _ => rfl

theorem DialogsOk.runActs (h : DialogsOk d)
    (hlogs : ∀ u, LogOk u (d.ofOwner u)) (hok : ActsOk as d) : DialogsOk (runActs as d) := by
  induction as generalizing d with
  | nil => exact h
  | cons a as ih =>
    have hone : ActsOk [a] d := ⟨hok.1, trivial⟩
    refine ih ?_ (fun u => logs_runActs hlogs hone u) hok.2
    cases a with
    | post m unread now => exact h.post hlogs hok.1.1
    | _ =>
      refine h.congr ?_ (head_dialogs_act hok.1 rfl)
      have hrows := hone.frozen_messages
      simpa [newRows, Act.newMessages] using hrows

/-! ## Deliveries -/

/-- The row is an inbound one from `base` on that the read marker covered when it arrived. -/
def Dialog.misses (g : Dialog) (base : Int → Int) (m : Message) : Bool :=
  g.has m && !m.out && decide (base m.ownerID ≤ m.localID) && decide (m.localID ≤ g.readInboxMaxID)

/-- The dialogs count their unread rows, and with them the rows from `base` on that they miss. -/
structure Tally (base : Int → Int) (d : DB) : Prop where
  next : ∀ u, base u ≤ d.nextOf u
  count : ∀ g ∈ d.dialogs,
    g.unreadCount = d.messages.countP g.counts + d.messages.countP (g.misses base)

def Message.unworded (m : Message) : Message :=
  { m with text := "", editDate := none }

theorem countP_unworded {p : Message → Bool} (hp : ∀ m, p m.unworded = p m) {ms ms' : List Message}
    (h : ms'.map Message.unworded = ms.map Message.unworded) : ms'.countP p = ms.countP p := by
  have hcount : ∀ l : List Message, (l.map Message.unworded).countP p = l.countP p := by
    intro l
    rw [countP_map]
    exact countP_congr fun m _ => by rw [Function.comp_apply, hp]
  rw [← hcount, h, hcount]

theorem nextOf_le_act (hok : a.Ok d) (u : Int) : d.nextOf u ≤ (a.apply d).nextOf u := by
  by_cases ha : a.owner = some u
  · cases a with
    | ensure user now =>
      obtain rfl : user = u := by simpa [Act.owner] using ha
      exact le_of_eq nextOf_ensureUpdateState.symm
    | post m unread now =>
      obtain rfl : m.ownerID = u := by simpa [Act.owner] using ha
      have hnext : ((Act.post m unread now).apply d).nextOf m.ownerID = d.nextOf m.ownerID + 1 :=
        (DB.nextOf_congr rfl).trans (nextOf_bumpState hok.1.state)
      omega
    | side o =>
      have hside : o.isSide := by cases o <;> first | rfl | exact hok
      exact le_of_eq (DB.nextOf_congr (Write.isSide.log_unchanged hside d).1).symm
    | edit owner | delete owner | mark owner =>
      obtain rfl : owner = u := by simpa [Act.owner] using ha
      exact le_of_eq ((DB.nextOf_congr rfl).trans nextOf_bumpPtsOnly).symm
  · exact le_of_eq (nextOf_act_of_ne ha d).symm

theorem unworded_messages_careful (hok : a.Ok d) (hc : a.careful v w) :
    (a.apply d).messages.map Message.unworded =
      d.messages.map Message.unworded ++ a.newMessages.map Message.unworded := by
  cases a with
  | post m unread now => exact map_append
  | edit owner localID text now =>
    have hrows : (updateWhere (isAt owner localID)
        (fun m => { m with text, editDate := some now }) d.messages).map Message.unworded =
          d.messages.map Message.unworded := map_updateWhere fun _ _ => rfl
    rw [show (Act.edit owner localID text now).newMessages = [] from rfl, map_nil, append_nil]
    exact hrows
  | side o =>
    cases o <;>
      first | exact hc.elim | exact absurd hok Bool.false_ne_true | exact (append_nil _).symm
  | delete | mark => exact hc.elim
  | ensure user now => exact (append_nil _).symm

theorem dialogs_careful (hok : a.Ok d) (hc : a.careful v w) (ha : a.newMessages = []) :
    (a.apply d).dialogs = d.dialogs := by
  cases a with
  | post m unread now => exact absurd ha (by simp [Act.newMessages])
  | side o => cases o <;> first | exact hc.elim | exact absurd hok Bool.false_ne_true | rfl
  | delete | mark => exact hc.elim
  | _ => rfl

/-- A row from `base` on is counted, by its dialog only: as unread or as missed. -/
theorem Dialog.counts_add_misses (g : Dialog) (hlive : m.deleted = false)
    (hbase : base m.ownerID ≤ m.localID) :
    ((if g.counts m then 1 else 0 : Nat) + (if g.misses base m then 1 else 0 : Nat) : Int) =
      if g.has m then m.unread else 0 := by
  by_cases hhas : g.has m = true
  · by_cases hout : m.out = true
    · simp [Dialog.counts, Dialog.misses, unread, hhas, hout]
    · by_cases hlt : g.readInboxMaxID < m.localID
      · have hle : ¬ m.localID ≤ g.readInboxMaxID := by omega
        simp [Dialog.counts, Dialog.misses, unread, hhas, hout, hlt, hlive, hle]
      · have hle : m.localID ≤ g.readInboxMaxID := by omega
        simp [Dialog.counts, Dialog.misses, unread, hhas, hout, hlt, hbase, hle]
  · simp [Dialog.counts, Dialog.misses, hhas]

theorem Tally.post (h : Tally base d) (hdialogs : DialogsOk d) (hm : PostOk d m) :
    ∀ g ∈ ((Act.post m m.unread now).apply d).dialogs, g.unreadCount =
      (d.messages ++ [m]).countP g.counts + (d.messages ++ [m]).countP (g.misses base) := by
  have hbase : base m.ownerID ≤ m.localID := hm.next ▸ h.next m.ownerID
  intro g hg
  have hdelta := g.counts_add_misses hm.live hbase
  rw [countP_append, countP_append, countP_singleton, countP_singleton]
  rcases mem_dialogs_post hg with ⟨hg, hno⟩ | ⟨g', hg', hhas, hgg⟩ | ⟨hnone, hgg⟩
  · have hcount := h.count g hg
    rw [hno, if_neg Bool.false_ne_true] at hdelta
    omega
  · have hcount : g'.unreadCount = d.messages.countP g.counts + d.messages.countP
        (g.misses base) := by
      rw [hgg]
      exact h.count g' hg'
    have hhas' : g.has m = true := hgg ▸ hhas
    have hunread : g.unreadCount = g'.unreadCount + m.unread := by rw [hgg]
    rw [if_pos hhas'] at hdelta
    omega
  · -- A dialog that comes into being has no rows yet.
    have hrows : ∀ x ∈ d.messages, g.has x = false := by
      intro x hx
      obtain ⟨g', hg', hhas⟩ := hdialogs.rows x hx
      refine Bool.eq_false_iff.mpr fun hgx => ?_
      have hkey := Dialog.has_iff.mp hgx
      have hkey' := Dialog.has_iff.mp hhas
      rw [← hkey.1, ← hkey.2.1, ← hkey.2.2, hgg] at hkey'
      exact Bool.false_ne_true ((hnone g' hg').symm.trans (Dialog.has_iff.mpr hkey'))
    have hcount : d.messages.countP g.counts = 0 :=
      countP_eq_zero.mpr fun x hx => by simp [Dialog.counts, hrows x hx]
    have hmiss : d.messages.countP (g.misses base) = 0 :=
      countP_eq_zero.mpr fun x hx => by simp [Dialog.misses, hrows x hx]
    have hhas' : g.has m = true := by
      rw [hgg]
      exact Dialog.has_iff.mpr ⟨rfl, rfl, rfl⟩
    have hunread : g.unreadCount = m.unread := by rw [hgg]
    rw [if_pos hhas'] at hdelta
    omega

theorem Tally.act (h : Tally base d) (hdialogs : DialogsOk d) (hok : a.Ok d) (hc : a.careful v w) :
    Tally base (a.apply d) := by
  refine ⟨fun u => (h.next u).trans (nextOf_le_act hok u), ?_⟩
  cases a with
  | post m unread now =>
    obtain ⟨hm, rfl⟩ := hok
    exact h.post hdialogs hm
  | _ =>
    have hrows := unworded_messages_careful hok hc
    rw [show List.map Message.unworded (Act.newMessages _) = [] from rfl, append_nil] at hrows
    rw [dialogs_careful hok hc rfl]
    intro g hg
    rw [countP_unworded (fun _ => rfl) hrows, countP_unworded (fun _ => rfl) hrows]
    exact h.count g hg

theorem Tally.runActs (h : Tally base d) (hdialogs : DialogsOk d)
    (hlogs : ∀ u, LogOk u (d.ofOwner u)) (hok : ActsOk as d) (hc : Careful as v w) :
    Tally base (runActs as d) := by
  induction as generalizing d with
  | nil => exact h
  | cons a as ih =>
    have hone : ActsOk [a] d := ⟨hok.1, trivial⟩
    exact ih (h.act hdialogs hok.1 (hc a (by simp))) (hdialogs.runActs hlogs hone)
      (fun u => logs_runActs hlogs hone u) hok.2 fun a' ha' => hc a' (by simp [ha'])

theorem unworded_messages_runActs (hok : ActsOk as d) (hc : Careful as v w) :
    (runActs as d).messages.map Message.unworded =
      d.messages.map Message.unworded ++ (newRows as).map Message.unworded := by
  induction as generalizing d with
  | nil => simp [newRows]
  | cons a as ih =>
    rw [runActs_cons, ih hok.2 fun a' ha' => hc a' (by simp [ha']),
      unworded_messages_careful hok.1 (hc a (by simp))]
    simp [newRows]

/-! ## What keeps the counters -/

/-- From `d` to `w`, inbound rows arrived above the read marker of their dialog, and no row was
deleted while it was unread. -/
structure CountsKept (d w : DB) : Prop where
  arrivals : ∀ g ∈ w.dialogs, ∀ m ∈ w.messages, g.has m → m.out = false →
    d.nextOf m.ownerID ≤ m.localID → g.readInboxMaxID < m.localID
  deletions : ∀ g ∈ d.dialogs, ∀ m ∈ d.messages, g.counts m →
    ∀ m' ∈ w.messages, isAt m.ownerID m.localID m' → m'.deleted = false

variable {as : List Act} {w : DB} {states : Owned} {files : List File} {c : StoreConfig}

theorem Inv.live_of_counts (h : Inv d) {m' : Message} (hm : m ∈ d.messages)
    (hg : g.counts m) (hm' : m' ∈ d.messages) (hat : isAt m.ownerID m.localID m') :
    m'.deleted = false := by
  obtain ⟨howner, hid⟩ := isAt_iff.mp hat
  rw [row_unique h.logs hm' hm howner hid]
  exact (Dialog.counts_iff.mp hg).2.2.1

theorem Tally.start (h : Counted d) (hd : Inv d) : Tally d.nextOf d := by
  refine ⟨fun u => le_rfl, fun g hg => ?_⟩
  have hmiss : d.messages.countP (g.misses d.nextOf) = 0 := by
    refine countP_eq_zero.mpr fun m hm => ?_
    have hlt := (localID_lt_nextOf hd.logs hm).2
    have hle : ¬ d.nextOf m.ownerID ≤ m.localID := by omega
    simp [Dialog.misses, hle]
  rw [hmiss, counted_iff.mp h g hg]
  simp

theorem Inv.live_of_careful (hd : Inv d) (hdid : Did as d w) (hc : Careful as d w)
    (hm : m ∈ d.messages) (hcounts : g.counts m) {m' : Message} (hm' : m' ∈ w.messages)
    (hat : isAt m.ownerID m.localID m') : m'.deleted = false := by
  -- The row is still there, and only its wording may have changed.
  have hmem : m.unworded ∈ w.messages.map Message.unworded := by
    rw [hdid.eq, unworded_messages_runActs hdid.ok hc]
    exact mem_append_left _ (mem_map_of_mem hm)
  obtain ⟨x, hx, hxm⟩ := mem_map.mp hmem
  have hcounts' : g.counts x := (congrArg g.counts hxm).trans hcounts
  have hkey := congrArg (fun y : Message => (y.ownerID, y.localID)) hxm
  obtain ⟨howner, hid⟩ : x.ownerID = m.ownerID ∧ x.localID = m.localID := Prod.mk.inj hkey
  rw [← howner, ← hid] at hat
  exact (hdid.inv hd).live_of_counts hx hcounts' hm' hat

/-- Deliveries and edits keep the counters when nothing arrives below a marker. -/
theorem Counted.careful (h : Counted d) (hd : Inv d) (hdialogs : DialogsOk d) (hdid : Did as d w)
    (hc : Careful as d w) : Counted w ↔ CountsKept d w := by
  have htally : Tally d.nextOf w := by
    rw [hdid.eq]
    exact (Tally.start h hd).runActs hdialogs hd.logs hdid.ok hc
  constructor
  · intro hw
    refine ⟨fun g hg m hm hhas hout hnew => ?_, fun g _ m hm hcounts m' hm' hat =>
      hd.live_of_careful hdid hc hm hcounts hm' hat⟩
    have hmiss : w.messages.countP (g.misses d.nextOf) = 0 := by
      have hcount := htally.count g hg
      have hexact := counted_iff.mp hw g hg
      omega
    have hno := countP_eq_zero.mp hmiss m hm
    simp only [Dialog.misses, hhas, hout, hnew, Bool.not_false, Bool.and_self, decide_true,
      Bool.true_and, decide_eq_true_eq] at hno
    omega
  · intro hkept
    refine counted_iff.mpr fun g hg => ?_
    have hmiss : w.messages.countP (g.misses d.nextOf) = 0 := by
      refine countP_eq_zero.mpr fun m hm hmiss => ?_
      simp only [Dialog.misses, Bool.and_eq_true, Bool.not_eq_true', decide_eq_true_eq] at hmiss
      obtain ⟨⟨⟨hhas, hout⟩, hnew⟩, hle⟩ := hmiss
      have hlt := hkept.arrivals g hg m hm hhas hout hnew
      omega
    have hcount := htally.count g hg
    omega

theorem deletes_runActs (hok : ActsOk as d) (hdel : ∀ a ∈ as, a.deletes) :
    (runActs as d).dialogs = d.dialogs ∧ (∀ u, (runActs as d).nextOf u = d.nextOf u) ∧
      ∃ dead : Int → Int → Bool, (runActs as d).messages = d.messages.map fun m =>
        { m with deleted := m.deleted || dead m.ownerID m.localID } := by
  induction as generalizing d with
  | nil => exact ⟨rfl, fun _ => rfl, fun _ _ => false, by simp⟩
  | cons a as ih =>
    obtain ⟨hdialogs, hnext, dead, hrows⟩ := ih hok.2 fun a' ha' => hdel a' (by simp [ha'])
    have hone := hdel a (by simp)
    rw [runActs_cons, hdialogs, hrows]
    cases a with
    | delete owner localID now =>
      refine ⟨rfl, fun u => ?_, fun o l => dead o l || decide (o = owner ∧ l = localID), ?_⟩
      · rw [hnext]
        by_cases hu : u = owner
        · subst hu
          exact (DB.nextOf_congr rfl).trans nextOf_bumpPtsOnly
        · exact nextOf_act_of_ne (by simpa [Act.owner, eq_comm] using hu) d
      · change (updateWhere (isAt owner localID) (fun m => { m with deleted := true })
          d.messages).map _ = _
        rw [updateWhere, map_map]
        refine map_congr_left fun m _ => ?_
        by_cases hat : m.ownerID = owner ∧ m.localID = localID
        · simp [isAt, hat]
        · simp [isAt, hat]
    | side o =>
      cases o
      case unlinkPoll => exact ⟨rfl, hnext, dead, rfl⟩
      case deleteUnlinkedPoll => exact ⟨rfl, hnext, dead, rfl⟩
      all_goals exact hone.elim
    | _ => exact hone.elim

theorem countP_and_not {α : Type} {p q : α → Bool} {l : List α} :
    (l.countP fun x => p x && !q x) = l.countP p ↔ ∀ x ∈ l, p x → q x = false := by
  have hfilter : (l.countP fun x => p x && !q x) = (l.filter p).countP fun x => !q x := by
    rw [countP_filter]
    exact countP_congr fun x _ => by rw [Bool.and_comm]
  rw [hfilter, countP_eq_length_filter, countP_eq_length_filter, length_filter_eq_length_iff]
  simp

/-- Deletions keep the counters when they take no unread row. -/
theorem Counted.deletes (h : Counted d) (hd : Inv d) (hdid : Did as d w)
    (hdel : ∀ a ∈ as, a.deletes) : Counted w ↔ CountsKept d w := by
  obtain ⟨hdialogs, hnext, dead, hrows⟩ := deletes_runActs hdid.ok hdel
  rw [← hdid.eq] at hdialogs hnext hrows
  have hcount : ∀ g ∈ d.dialogs, (g.unreadCount = w.messages.countP g.counts ↔
      ∀ m ∈ d.messages, g.counts m → dead m.ownerID m.localID = false) := by
    intro g hg
    have hflag : w.messages.countP g.counts =
        d.messages.countP fun m => g.counts m && !dead m.ownerID m.localID := by
      rw [hrows, countP_map]
      refine countP_congr fun m _ => ?_
      cases hdead : dead m.ownerID m.localID <;> simp [Dialog.counts, Dialog.has, hdead]
    rw [counted_iff.mp h g hg, Int.natCast_inj, eq_comm, hflag]
    exact countP_and_not
  rw [counted_iff, hdialogs]
  constructor
  · intro hw
    refine ⟨fun g hg m hm _ _ hnew => ?_, fun g hg m hm hcounts m' hm' hat => ?_⟩
    · have hlt := (localID_lt_nextOf (hdid.inv hd).logs hm).2
      rw [hnext] at hlt
      omega
    · rw [hrows] at hm'
      obtain ⟨x, hx, rfl⟩ := mem_map.mp hm'
      have hlive := hd.live_of_counts hm hcounts hx hat
      obtain ⟨howner, hid⟩ := isAt_iff.mp hat
      have hdead := (hcount g hg).mp (hw g hg) m hm hcounts
      dsimp only at howner hid ⊢
      rw [hlive, howner, hid, hdead]
      rfl
  · intro hkept g hg
    refine (hcount g hg).mpr fun m hm hcounts => ?_
    have hmem := mem_map_of_mem (f := fun m : Message =>
      { m with deleted := m.deleted || dead m.ownerID m.localID }) hm
    rw [← hrows] at hmem
    have hflag := hkept.deletions g hg m hm hcounts _ hmem (isAt_iff.mpr ⟨rfl, rfl⟩)
    exact (Bool.or_eq_false_iff.mp hflag).2

theorem counted_updateWhere {f : Dialog → Dialog} {q : Dialog → Bool} (h : Counted d)
    (hf : ∀ g, g.unreadCount = d.unreadAbove g.ownerID g.peerType g.peerID g.readInboxMaxID →
      (f g).unreadCount =
        d.unreadAbove (f g).ownerID (f g).peerType (f g).peerID (f g).readInboxMaxID) :
    Counted { d with dialogs := updateWhere q f d.dialogs } := by
  intro g hg
  obtain ⟨g', hg', rfl⟩ := mem_map.mp hg
  by_cases hq : q g' = true
  · rw [if_pos hq]
    exact hf g' (h g' hg')
  · rw [if_neg hq]
    exact h g' hg'

theorem Counted.reads_runActs (h : Counted d) (hreads : ∀ a ∈ as, a.reads) :
    Counted (runActs as d) := by
  refine runActs_invariant h fun a ha d h => ?_
  have hone := hreads a ha
  cases a with
  | mark owner type marker now => exact h
  | side o =>
    cases o
    case advanceReadInbox => exact counted_updateWhere h fun _ _ => rfl
    case advanceChatReadInbox => exact counted_updateWhere h fun _ _ => rfl
    case advanceReadOutbox => exact counted_updateWhere h fun _ hg => hg
    all_goals exact hone.elim
  | _ => exact hone.elim

theorem messages_reads (hreads : ∀ a ∈ as, a.reads) : (runActs as d).messages = d.messages := by
  refine runActs_frame (fun a ha d => ?_) d
  have hone := hreads a ha
  cases a with
  | mark owner type marker now => rfl
  | side o => cases o <;> first | rfl | exact hone.elim
  | _ => exact hone.elim

theorem Counted.reads (h : Counted d) (hd : Inv d) (hdid : Did as d w)
    (hreads : ∀ a ∈ as, a.reads) : Counted w ↔ CountsKept d w := by
  have hw : Counted w := hdid.eq ▸ h.reads_runActs hreads
  have hrows : w.messages = d.messages := hdid.eq ▸ messages_reads hreads
  refine ⟨fun _ => ⟨fun g _ m hm _ _ hnew => ?_, fun g _ m hm hcounts m' hm' hat => ?_⟩,
    fun _ => hw⟩
  · rw [hrows] at hm
    have hlt := (localID_lt_nextOf hd.logs hm).2
    omega
  · rw [hrows] at hm'
    exact hd.live_of_counts hm hcounts hm' hat

/-- Exactly these calls keep the counters. -/
theorem Spec.counted {t : Call} {a : Reply} (h : Spec t d a w) (hd : Inv d) (hdialogs : DialogsOk d)
    (hcounted : Counted d) : Counted w ↔ CountsKept d w := by
  by_cases ht : t.actsInChats = true
  · obtain ⟨as, hdid, hcareful⟩ := h.careful hd ht
    exact hcounted.careful hd hdialogs hdid hcareful
  · obtain ⟨as, hdid, ⟨hdel, -⟩ | hreads⟩ := h.outside (Bool.eq_false_iff.mpr ht)
    · exact hcounted.deletes hd hdid hdel
    · exact hcounted.reads hd hdid hreads

/-! ## What a call may do to keep them -/

/-- On `d` the call is asked to delete no row that is unread, and delivers only where no read marker
is beyond the rows of its owner. -/
def Call.KeepsCounts (d : DB) : Call → Prop
  | .delete _ owner ids revoke =>
    ∀ g ∈ d.dialogs, ∀ m ∈ d.messages, g.counts m → ¬ d.requested owner ids revoke m
  | t => t.actsInChats = true → ∀ g ∈ d.dialogs, g.readInboxMaxID < d.nextOf g.ownerID

instance (d : DB) (t : Call) : Decidable (t.KeepsCounts d) := by
  unfold Call.KeepsCounts DB.requested
  split <;> infer_instance

theorem markers_runActs (h : ∀ g ∈ d.dialogs, g.readInboxMaxID < base g.ownerID)
    (hbase : ∀ u, 0 < base u) (hok : ActsOk as d) (hc : Careful as v w) :
    ∀ g ∈ (runActs as d).dialogs, g.readInboxMaxID < base g.ownerID := by
  induction as generalizing d with
  | nil => exact h
  | cons a as ih =>
    refine ih (fun g hg => ?_) hok.2 fun a' ha' => hc a' (.tail _ ha')
    cases a with
    | post m unread now =>
      rcases mem_dialogs_post hg with ⟨hg, -⟩ | ⟨g', hg', -, rfl⟩ | ⟨-, rfl⟩
      · exact h g hg
      · exact h g' hg'
      · exact hbase m.ownerID
    | _ => exact h g (dialogs_careful hok.1 (hc _ (.head _)) rfl ▸ hg)

theorem Counted.delivers (h : Counted d) (hd : Inv d) (hdialogs : DialogsOk d) (hdid : Did as d w)
    (hc : Careful as d w) (hk : ∀ g ∈ d.dialogs, g.readInboxMaxID < d.nextOf g.ownerID) :
    Counted w := by
  refine (h.careful hd hdialogs hdid hc).mpr ⟨fun g hg m hm hhas _ hnew => ?_,
    fun g _ m hm hcounts m' hm' hat => hd.live_of_careful hdid hc hm hcounts hm' hat⟩
  rw [hdid.eq] at hg
  have hlt := markers_runActs hk (fun u => by have := (hd.logs u).next_pos; simp at this; omega)
    hdid.ok hc g hg
  rw [(Dialog.has_iff.mp hhas).1] at hlt
  omega

theorem Counted.drops {owner : Int} {ids : List Int} {revoke : Bool} {po : Owned} (h : Counted d)
    (hd : Inv d) (he : DeleteEffect now owner ids revoke d po w)
    (hk : ∀ g ∈ d.dialogs, ∀ m ∈ d.messages, g.counts m → ¬ d.requested owner ids revoke m) :
    Counted w := by
  obtain ⟨ks, hdel, hks⟩ := he.deleted
  refine (h.deletes hd hdel.did fun a => deletes_of_mem_deleteKeys).mpr
    ⟨fun g _ m hm _ _ hnew => ?_, fun g hg m hm hcounts m' hm' hat => ?_⟩
  · rw [hdel.messages] at hm
    obtain ⟨x, hx, rfl⟩ := mem_map.mp hm
    have hlt := (localID_lt_nextOf hd.logs hx).2
    split at hnew <;> exact absurd hlt (not_lt.mpr hnew)
  · rw [hdel.messages] at hm'
    obtain ⟨x, hx, rfl⟩ := mem_map.mp hm'
    have hkey : x.key = m.key := by
      split at hat <;> exact Message.key_eq_iff.mpr hat
    obtain rfl := hd.row_of_key hx hm hkey
    rw [if_neg fun hin => ?_]
    · exact (Dialog.counts_iff.mp hcounts).2.2.1
    · obtain ⟨y, hy, hykey, -, hreq⟩ := (hks _).mp hin
      exact hk g hg x hx hcounts (hd.row_of_key hy hx hykey ▸ hreq)

/-- Such a call keeps the counters. -/
theorem Spec.counted_of_keeps {t : Call} {a : Reply} (h : Spec t d a w) (he : Effect t d a w)
    (hd : Inv d) (hdialogs : DialogsOk d) (hcounted : Counted d) (hk : t.KeepsCounts d) :
    Counted w := by
  by_cases ht : t.actsInChats = true
  · obtain ⟨as, hdid, hcareful⟩ := h.careful hd ht
    refine hcounted.delivers hd hdialogs hdid hcareful ?_
    cases t <;> first | exact hk ht | cases ht
  · cases t <;> cases a <;> first | exact h.elim | exact absurd rfl ht | skip
    case delete.perOwner => exact hcounted.drops hd he hk
    case readHistory.read =>
      obtain rfl | ⟨g, -, hdid⟩ := h
      · exact hcounted
      · exact hdid.eq ▸ hcounted.reads_runActs reads_readActs
    case readChat.chatRead =>
      obtain ⟨rfl, -⟩ | ⟨g, members, hreads, -⟩ := h
      · exact hcounted
      · exact hreads.did.eq ▸ hcounted.reads_runActs reads_chatReadActs

theorem dialogsOk_initial (states : Owned) (files : List File) :
    DialogsOk (.initial states files) :=
  ⟨fun _ hm => absurd hm not_mem_nil, fun _ hg => absurd hg not_mem_nil⟩

theorem counted_initial (states : Owned) (files : List File) : Counted (.initial states files) :=
  fun _ hg => absurd hg not_mem_nil

theorem Reached.dialogsOk_step (h : Reached states files c)
    (hr : r ∈ c.log) (hpre : DialogsOk r.pre) : DialogsOk r.post := by
  have hok := h.ok.records r hr
  cases ha : r.outcome.answer with
  | none => rwa [hok.unchanged ha]
  | some a =>
    obtain ⟨as, hdid⟩ := (hok.spec ha).did
    rw [hdid.eq]
    exact hpre.runActs hok.1.logs hdid.ok

theorem Reached.dialogsOk_pre (h : Reached states files c) (hr : r ∈ c.log) : DialogsOk r.pre :=
  h.ok.leads.invariant_pre (fun _ hr' => h.dialogsOk_step hr') (dialogsOk_initial states files) hr

theorem Reached.counted_step (h : Reached states files c)
    (hr : r ∈ c.log) (hcounted : Counted r.pre) : Counted r.post ↔ CountsKept r.pre r.post := by
  have hok := h.ok.records r hr
  cases ha : r.outcome.answer with
  | none =>
    rw [hok.unchanged ha]
    exact hcounted.reads hok.1 (.nil r.pre) (by simp)
  | some a => exact (hok.spec ha).counted hok.1 (h.dialogsOk_pre hr) hcounted

theorem Reached.counted_of_keeps (h : Reached states files c) (hr : r ∈ c.log)
    (hcounted : Counted r.pre) (hk : r.call.KeepsCounts r.pre) : Counted r.post := by
  have hok := h.ok.records r hr
  cases ha : r.outcome.answer with
  | none => rwa [hok.unchanged ha]
  | some a =>
    exact (hok.spec ha).counted_of_keeps (h.effect hr ha) hok.1 (h.dialogsOk_pre hr) hcounted hk

/-- In every interleaving each dialog names its newest row. Its unread count is exact for as long
as no call is asked to delete an unread row or runs where a read marker is beyond the rows; exactly,
as inbound rows arrive above the read marker and no unread row is deleted, and the first call that
does otherwise makes it wrong. -/
theorem unreadCount_exact_iff (h : Reached states files c) :
    (∀ g ∈ c.db.dialogs, g.Topped c.db.messages) ∧
      ((∀ r ∈ c.log, r.call.KeepsCounts r.pre) → Counted c.db) ∧
      ((∀ r ∈ c.log, CountsKept r.pre r.post) → Counted c.db) ∧
      ∀ r ∈ c.log, Counted r.pre → (Counted r.post ↔ CountsKept r.pre r.post) := by
  refine ⟨?_, fun hkeeps => ?_, fun hkept => ?_, fun r hr => h.counted_step hr⟩
  · exact (h.ok.leads.invariant (fun r hr => h.dialogsOk_step hr)
      (dialogsOk_initial states files)).tops
  · exact h.ok.leads.invariant (fun r hr hpre => h.counted_of_keeps hr hpre (hkeeps r hr))
      (counted_initial states files)
  · exact h.ok.leads.invariant (fun r hr hpre => (h.counted_step hr hpre).mpr (hkept r hr))
      (counted_initial states files)

/-- Two messages arrive, the first is read and then deleted: one is unread. -/
theorem unreadCount_exact_iff_read : Counted (afterHi [.readHistory 11 2 1 1,
      .send 12 ⟨1, 2, "ho", 8, 0, 0⟩, .delete 13 1 [1] true]).db ∧
    (afterHi [.readHistory 11 2 1 1,
      .send 12 ⟨1, 2, "ho", 8, 0, 0⟩, .delete 13 1 [1] true]).db.dialogs.map (·.unreadCount) =
        [0, 1] :=
  ⟨(unreadCount_exact_iff reached_serialRun).2.1 (by decide +kernel), by decide +kernel⟩

/-- A message that is revoked before it is read stays in the count, and so does one that arrives
below a read marker set beyond the rows there were. -/
theorem unreadCount_not_exact : (∃ c, Reached two [] c ∧ ∃ g ∈ c.db.dialogs, g.ownerID = 2 ∧
      g.unreadCount = 1 ∧ c.db.unreadAbove 2 .user 1 g.readInboxMaxID = 0 ∧
        ∀ m ∈ c.db.messages, m.deleted = true) ∧
    ∃ c, Reached two [] c ∧ ∃ g ∈ c.db.dialogs, g.ownerID = 2 ∧
      g.unreadCount = 1 ∧ c.db.unreadAbove 2 .user 1 g.readInboxMaxID = 0 ∧ g.readInboxMaxID = 100 ∧
        ∀ m ∈ c.db.messages, m.deleted = false :=
  ⟨⟨afterHi [.delete 11 1 [1] true], reached_serialRun, by decide +kernel⟩,
    ⟨afterHi [.readHistory 11 2 1 100, .send 12 ⟨1, 2, "ho", 8, 0, 0⟩],
      reached_serialRun, by decide +kernel⟩⟩

end TelegramServer.Store
