import TelegramServer.Store.UnreadCounts

/-!
# Read receipts

A read moves the reader's marker and tells the senders, in their own local ids, how far they were
read. In a chat the receipts rise and name what was read. A read of a 1:1 history sends its
receipt also when there is nothing new to tell.
-/

namespace TelegramServer.Store

open Tx Tx.Table List
open Message (isAt isAt_iff kept)
open Dialog (isFor has readInbox)

variable {d w : DB} {g : Dialog} {ts : Owned} {l maxID now o owner : Int} {a : Act}
  {as : List Act} {f : Dialog → Dialog} {m : Message} {p u v : Int} {pt qt : PeerType}
  {r : StoreRecord} {t : Int × Int} {chat : Int}

/-- Every read receipt so far: whose log it is in, and the local id it names. -/
def DB.readOuts (d : DB) : Owned :=
  (d.events.filter (·.type = .readOut)).map fun e => (e.ownerID, e.localID)

def DB.shows (d : DB) (owner : Int) (peerType : PeerType) (peer localID : Int) : Bool :=
  d.messages.any fun m => isAt owner localID m && m.peerType = peerType && m.peerID = peer

/-- The ids of the receipts in the owner's log for one dialog, oldest first. -/
def DB.receipts (d : DB) (owner : Int) (peerType : PeerType) (peer : Int) : List Int :=
  (d.readOuts.filter fun t => t.1 = owner && d.shows owner peerType peer t.2).map Prod.snd

def DB.markers (d : DB) (owner : Int) (peerType : PeerType) (peer : Int) : Option (Int × Int) :=
  (d.dialog owner peerType peer).map fun g => (g.readInboxMaxID, g.readOutboxMaxID)

def DB.outboxOf (d : DB) (owner : Int) (peerType : PeerType) (peer : Int) : Int :=
  ((d.dialog owner peerType peer).map (·.readOutboxMaxID)).getD 0

/-- The inbound row `x` is the copy of the outgoing row `m`. -/
structure Counterpart (m x : Message) : Prop where
  inbound : x.out = false
  copy : Mirror m x ∨ m.peerType = .chat ∧ x.peerType = .chat ∧ x.peerID = m.peerID ∧
    m.fanoutID ≠ 0 ∧ x.fanoutID = m.fanoutID

/-- What a receipt tells: an outgoing row of its owner, up to which the dialog's outbox marker
now is, and of which the reader has a copy at or below their own marker. -/
structure Receipt (w : DB) (reader : Int) (t : Int × Int) (m : Message) : Prop where
  row : m ∈ w.messages ∧ isAt t.1 t.2 m
  out : m.out = true
  marker : ∃ g, w.dialog t.1 m.peerType m.peerID = some g ∧ g.readOutboxMaxID = t.2
  read : ∃ x ∈ w.messages, x.ownerID = reader ∧ Counterpart m x ∧
    ∃ g, w.dialog reader x.peerType x.peerID = some g ∧ x.localID ≤ g.readInboxMaxID

/-! ## What an act does to receipts and markers -/

def Act.receipts : Act → Owned
  | .mark owner type marker _ => if type = .readOut then [(owner, marker)] else []
  | _ => []

theorem readOuts_act (hok : a.Ok d) : (a.apply d).readOuts = d.readOuts ++ a.receipts := by
  have happend : ∀ (es : List Event) (e : Event),
      ((es ++ [e]).filter (·.type = .readOut)).map (fun e => (e.ownerID, e.localID)) =
        (es.filter (·.type = .readOut)).map (fun e => (e.ownerID, e.localID)) ++
          if e.type = .readOut then [(e.ownerID, e.localID)] else [] := by
    intro es e
    by_cases he : e.type = .readOut <;> simp [filter_append, he]
  cases a with
  | ensure user now => exact (append_nil _).symm
  | post | edit | delete | mark => exact happend _ _
  | side o =>
    have hside : o.isSide := by cases o <;> first | rfl | exact hok
    have hevents := (Write.isSide.log_unchanged hside d).2.2
    change ((o.apply d).events.filter _).map _ = _
    rw [hevents]
    exact (append_nil _).symm

theorem readOuts_runActs (hok : ActsOk as d) :
    (runActs as d).readOuts = d.readOuts ++ as.flatMap Act.receipts := by
  induction as generalizing d with
  | nil => simp
  | cons a as ih => rw [runActs_cons, ih hok.2, readOuts_act hok.1, flatMap_cons, append_assoc]

theorem dialog_updateWhere
    (hf : ∀ g : Dialog, (f g).ownerID = g.ownerID ∧ (f g).peerType = g.peerType ∧
      (f g).peerID = g.peerID) :
    { d with dialogs := updateWhere (isFor o pt p) f d.dialogs }.dialog u qt v =
      (d.dialog u qt v).map fun g => if u = o ∧ qt = pt ∧ v = p then f g else g := by
  have hkey : ∀ g, isFor o pt p g → isFor u qt v (f g) = isFor u qt v g := by
    intro g _
    simp only [isFor, hf g]
  change (updateWhere (isFor o pt p) f d.dialogs).find? (isFor u qt v) = _
  rw [find?_updateWhere_of hkey]
  change Option.map _ (d.dialog u qt v) = _
  cases hg : d.dialog u qt v with
  | none => rfl
  | some g =>
    have hfor := find?_some hg
    simp only [isFor, decide_eq_true_eq] at hfor
    simp only [Option.map_some, isFor, hfor, decide_eq_true_eq]

theorem dialog_advanceReadInbox (d : DB) (o p k u v : Int) (pt qt : PeerType) :
    ((Write.advanceReadInbox o pt p k).apply d).dialog u qt v =
      (d.dialog u qt v).map fun g => if u = o ∧ qt = pt ∧ v = p then
        { g.readInbox d k with readOutboxMaxID :=
            if g.ownerID = g.peerID then max g.readOutboxMaxID k else g.readOutboxMaxID } else g :=
  dialog_updateWhere fun _ => ⟨rfl, rfl, rfl⟩

theorem dialog_advanceChatReadInbox (d : DB) (o p k u v : Int) (pt qt : PeerType) :
    ((Write.advanceChatReadInbox o pt p k).apply d).dialog u qt v =
      (d.dialog u qt v).map fun g => if u = o ∧ qt = pt ∧ v = p then g.readInbox d k else g :=
  dialog_updateWhere fun _ => ⟨rfl, rfl, rfl⟩

theorem dialog_advanceReadOutbox (d : DB) (o p k u v : Int) (pt qt : PeerType) :
    ((Write.advanceReadOutbox o pt p k).apply d).dialog u qt v =
      (d.dialog u qt v).map fun g => if u = o ∧ qt = pt ∧ v = p then
        { g with readOutboxMaxID := max g.readOutboxMaxID k } else g :=
  dialog_updateWhere fun _ => ⟨rfl, rfl, rfl⟩

theorem outboxOf_le_updateWhere
    (hf : ∀ g : Dialog, (f g).ownerID = g.ownerID ∧ (f g).peerType = g.peerType ∧
      (f g).peerID = g.peerID)
    (hle : ∀ g : Dialog, g.readOutboxMaxID ≤ (f g).readOutboxMaxID) :
    d.outboxOf u qt v ≤
      { d with dialogs := updateWhere (isFor o pt p) f d.dialogs }.outboxOf u qt v := by
  rw [DB.outboxOf, DB.outboxOf, dialog_updateWhere hf]
  cases hg : d.dialog u qt v with
  | none => exact le_rfl
  | some g =>
    by_cases hkey : u = o ∧ qt = pt ∧ v = p
    · simpa [hkey] using hle g
    · simp [hkey]

theorem outboxOf_le_post {unread : Int} :
    d.outboxOf u qt v ≤ ((Act.post m unread now).apply d).outboxOf u qt v := by
  rw [DB.outboxOf, DB.outboxOf, DB.dialog, DB.dialog, dialogs_post,
    find?_upsertWhere_key (k := fun g : Dialog => (g.ownerID, g.peerType, g.peerID))
      (a := (m.ownerID, m.peerType, m.peerID)) (b := (u, qt, v)) (by simp [Dialog.has_iff])
      (by simp [isFor]) (by simp) rfl]
  split
  · cases d.dialogs.find? (isFor u qt v) <;> simp
  · exact le_rfl

theorem outboxOf_le_act (hok : a.Ok d) (u v : Int) (qt : PeerType) :
    d.outboxOf u qt v ≤ (a.apply d).outboxOf u qt v := by
  cases a with
  | post m unread now => exact outboxOf_le_post
  | side o =>
    cases o
    case advanceReadInbox =>
      refine outboxOf_le_updateWhere (fun _ => ⟨rfl, rfl, rfl⟩) fun g => ?_
      dsimp only [readInbox]
      split <;> omega
    case advanceChatReadInbox =>
      exact outboxOf_le_updateWhere (fun _ => ⟨rfl, rfl, rfl⟩) fun g => le_rfl
    case advanceReadOutbox =>
      exact outboxOf_le_updateWhere (fun _ => ⟨rfl, rfl, rfl⟩) fun g => by dsimp only; omega
    all_goals first | exact le_rfl | exact absurd hok Bool.false_ne_true
  | _ => exact le_rfl

theorem outboxOf_le_runActs (hok : ActsOk as d) (u v : Int) (qt : PeerType) :
    d.outboxOf u qt v ≤ (runActs as d).outboxOf u qt v :=
  hok.invariant (P := fun w => d.outboxOf u qt v ≤ w.outboxOf u qt v) le_rfl
    fun _ _ _ hok h => h.trans (outboxOf_le_act hok u v qt)

def InboxesOk (d : DB) : Prop :=
  ∀ g ∈ d.dialogs, 0 ≤ g.readInboxMaxID

theorem inboxes_updateWhere {gs : List Dialog} (h : ∀ g ∈ gs, 0 ≤ g.readInboxMaxID)
    {p : Dialog → Bool} (hf : ∀ g : Dialog, g.readInboxMaxID ≤ (f g).readInboxMaxID) :
    ∀ g ∈ updateWhere p f gs, 0 ≤ g.readInboxMaxID := by
  intro g hg
  obtain ⟨x, hx, rfl⟩ := mem_map.mp hg
  split
  · exact (h x hx).trans (hf x)
  · exact h x hx

theorem InboxesOk.act (h : InboxesOk d) (hok : a.Ok d) : InboxesOk (a.apply d) := by
  cases a with
  | post m unread now =>
    intro g hg
    rw [dialogs_post, upsertWhere] at hg
    split at hg
    · exact inboxes_updateWhere h (fun x => by exact le_rfl) g hg
    · rcases mem_append.mp hg with hg | hg
      · exact h g hg
      · rw [mem_singleton.mp hg]
  | side o =>
    cases o
    case advanceReadInbox => exact inboxes_updateWhere h fun g => le_max_left _ _
    case advanceChatReadInbox => exact inboxes_updateWhere h fun g => le_max_left _ _
    case advanceReadOutbox => exact inboxes_updateWhere h fun g => by exact le_rfl
    all_goals first | exact h | exact absurd hok Bool.false_ne_true
  | _ => exact h

theorem InboxesOk.runActs (h : InboxesOk d) (hok : ActsOk as d) : InboxesOk (runActs as d) :=
  hok.invariant h fun _ _ _ hok h => h.act hok

/-- Every receipt names a row at or below the outbox marker of its dialog, and for each dialog the
receipts rise. -/
structure ReceiptsOk (d : DB) : Prop where
  named : ∀ t ∈ d.readOuts, ∃ m ∈ d.messages, isAt t.1 t.2 m ∧
    t.2 ≤ d.outboxOf t.1 m.peerType m.peerID
  rising : ∀ u pt p, (d.receipts u pt p).Pairwise (· < ·)

structure NewReceipts (d w : DB) (news : Owned) : Prop where
  events : w.readOuts = d.readOuts ++ news
  owners : (news.map Prod.fst).Nodup
  above : ∀ t ∈ news, ∃ m ∈ d.messages, isAt t.1 t.2 m ∧
    d.outboxOf t.1 m.peerType m.peerID < t.2 ∧ t.2 ≤ w.outboxOf t.1 m.peerType m.peerID

theorem shows_iff (hlogs : ∀ u, LogOk u (d.ofOwner u)) (hm : m ∈ d.messages)
    (hat : isAt u l m) : d.shows u pt p l ↔ m.peerType = pt ∧ m.peerID = p := by
  obtain ⟨hu, hl⟩ := isAt_iff.mp hat
  constructor
  · intro h
    obtain ⟨x, hx, hkey⟩ := any_eq_true.mp h
    simp only [Bool.and_eq_true, decide_eq_true_eq] at hkey
    obtain ⟨hxu, hxl⟩ := isAt_iff.mp hkey.1.1
    obtain rfl := row_unique hlogs hx hm (hxu.trans hu.symm) (hxl.trans hl.symm)
    exact ⟨hkey.1.2, hkey.2⟩
  · intro h
    exact any_eq_true.mpr ⟨m, hm, by simp [hat, h]⟩

theorem shows_congr (hlogs : ∀ u, LogOk u (d.ofOwner u)) (hlogs' : ∀ u, LogOk u (w.ofOwner u))
    (hgrows : Grows d w) (hm : m ∈ d.messages) (hat : isAt u l m) (pt : PeerType)
    (p : Int) : w.shows u pt p l = d.shows u pt p l := by
  obtain ⟨m', hm', hf⟩ := hgrows.row hm
  have hat' : isAt u l m' := (congrArg (isAt u l) hf).trans hat
  have hkept := kept hf
  have hpeer : m'.peerID = m.peerID := hkept.peerID
  rw [Bool.eq_iff_iff, shows_iff hlogs hm hat, shows_iff hlogs' hm' hat', hkept.peerType, hpeer]

theorem ReceiptsOk.step {news : Owned} (h : ReceiptsOk d) (hd : Inv d)
    (hdid : Did as d w) (hnew : NewReceipts d w news) : ReceiptsOk w := by
  have hgrows : Grows d w := hdid.eq ▸ grows_runActs as d
  have hlogs' := (hdid.inv hd).logs
  have hle : ∀ u v qt, d.outboxOf u qt v ≤ w.outboxOf u qt v := by
    intro u v qt
    rw [hdid.eq]
    exact outboxOf_le_runActs hdid.ok u v qt
  constructor
  · intro t ht
    have hrow : ∃ m ∈ d.messages, isAt t.1 t.2 m ∧ t.2 ≤ w.outboxOf t.1 m.peerType m.peerID := by
      rw [hnew.events] at ht
      rcases mem_append.mp ht with ht | ht
      · obtain ⟨m, hm, hat, hbelow⟩ := h.named t ht
        exact ⟨m, hm, hat, hbelow.trans (hle ..)⟩
      · obtain ⟨m, hm, hat, -, hbelow⟩ := hnew.above t ht
        exact ⟨m, hm, hat, hbelow⟩
    obtain ⟨m, hm, hat, hbelow⟩ := hrow
    obtain ⟨m', hm', hf⟩ := hgrows.row hm
    have hkept := kept hf
    have hpeer : m'.peerID = m.peerID := hkept.peerID
    exact ⟨m', hm', (congrArg (isAt t.1 t.2) hf).trans hat, by rwa [hkept.peerType, hpeer]⟩
  · intro u pt p
    have hold : d.readOuts.filter (fun t => t.1 = u && w.shows u pt p t.2) =
        d.readOuts.filter fun t => t.1 = u && d.shows u pt p t.2 := by
      refine filter_congr fun t ht => ?_
      obtain ⟨m, hm, hat, -⟩ := h.named t ht
      by_cases hu : t.1 = u
      · rw [hu] at hat
        rw [shows_congr hd.logs hlogs' hgrows hm hat]
      · simp [hu]
    rw [DB.receipts, hnew.events, filter_append, map_append, hold]
    refine pairwise_append.mpr ⟨h.rising u pt p, ?_, ?_⟩
    · -- One call sends an owner at most one receipt.
      have hone : (news.filter fun t => t.1 = u && w.shows u pt p t.2).Pairwise fun t t' =>
          t.1 ≠ t'.1 :=
        (pairwise_map.mp hnew.owners).filter _
      have howner : ∀ t ∈ news.filter (fun t => t.1 = u && w.shows u pt p t.2), t.1 = u := by
        intro t ht
        have hkey := (mem_filter.mp ht).2
        simp only [Bool.and_eq_true, decide_eq_true_eq] at hkey
        exact hkey.1
      exact pairwise_map.mpr (hone.imp_of_mem fun ht ht' hne =>
        absurd ((howner _ ht).trans (howner _ ht').symm) hne)
    · intro k hk k' hk'
      obtain ⟨t, ht, rfl⟩ := mem_map.mp hk
      obtain ⟨t', ht', rfl⟩ := mem_map.mp hk'
      obtain ⟨ht, hkey⟩ := mem_filter.mp ht
      obtain ⟨ht', hkey'⟩ := mem_filter.mp ht'
      simp only [Bool.and_eq_true, decide_eq_true_eq] at hkey hkey'
      obtain ⟨m, hm, hat, hbelow⟩ := h.named t ht
      obtain ⟨m', hm', hat', habove, -⟩ := hnew.above t' ht'
      rw [hkey.1] at hat hbelow
      rw [hkey'.1] at hat' habove
      obtain ⟨rfl, rfl⟩ := (shows_iff hd.logs hm hat).mp hkey.2
      rw [shows_congr hd.logs hlogs' hgrows hm' hat'] at hkey'
      obtain ⟨hkept.peerType, hpeer⟩ := (shows_iff hd.logs hm' hat').mp hkey'.2
      rw [hkept.peerType, hpeer] at habove
      omega

/-- The read has something to tell: it moves the marker of the self dialog, or the newest row it
covers is one that the peer sent and has no receipt for. -/
def ReadMoves (d : DB) (owner peer maxID : Int) : Prop :=
  ∀ g ∈ d.dialog owner .user peer,
    if owner = peer then g.readInboxMaxID < maxID
    else d.outboxOf peer .user owner < d.maxPeerLocalID owner peer maxID ∧
      ∃ x ∈ d.messages, x.ownerID = owner ∧ x.peerType = .user ∧ x.peerID = peer ∧ x.out = false ∧
        x.localID ≤ maxID ∧ x.peerLocalID = d.maxPeerLocalID owner peer maxID

instance (d : DB) (owner peer maxID : Int) : Decidable (ReadMoves d owner peer maxID) := by
  unfold ReadMoves
  infer_instance

structure Tells (reader : Int) (d w : DB) (news : Owned) : Prop where
  new : NewReceipts d w news
  each : ∀ t ∈ news, ∃ m, Receipt w reader t m
  moves : (∀ u pt p, w.markers u pt p = d.markers u pt p) → w = d

theorem Tells.refl (reader : Int) (d : DB) : Tells reader d d [] where
  new := ⟨(append_nil _).symm, nodup_nil, by simp⟩
  each := by simp
  moves _ := rfl

theorem DialogsOk.dialog_isSome (h : DialogsOk d) (hm : m ∈ d.messages) :
    ∃ g, d.dialog m.ownerID m.peerType m.peerID = some g := by
  obtain ⟨g, hg, hhas⟩ := h.rows m hm
  exact Option.isSome_iff_exists.mp (find?_isSome.mpr ⟨g, hg, hhas⟩)

theorem tells_readSelf
    (hg : d.dialog owner .user owner = some g) (hmoves : ReadMoves d owner owner maxID)
    (hdid : Did (readActs now owner owner maxID g d) d w) : Tells owner d w [] := by
  have hmove := hmoves g hg
  rw [if_pos rfl] at hmove
  rw [readActs, if_pos rfl] at hdid
  have hmarkers : w.markers owner .user owner ≠ d.markers owner .user owner := by
    have hdialog : w.dialog owner .user owner =
        ((Write.advanceReadInbox owner .user owner maxID).apply d).dialog owner .user owner := by
      rw [hdid.eq]
      rfl
    rw [DB.markers, DB.markers, hdialog, dialog_advanceReadInbox, hg]
    simp only [and_self, if_true, Option.map_some, readInbox]
    intro heq
    have hin := congrArg Prod.fst (Option.some.inj heq)
    dsimp only at hin
    omega
  refine ⟨⟨?_, nodup_nil, by simp⟩, by simp, fun h => absurd (h _ _ _) hmarkers⟩
  rw [hdid.eq, readOuts_runActs hdid.ok]
  rfl

theorem tells_readPeer {peer : Int} (hd : Inv d)
    (hdialogs : DialogsOk d) (hne : owner ≠ peer) (hg : d.dialog owner .user peer = some g)
    (hmoves : ReadMoves d owner peer maxID)
    (hdid : Did (readActs now owner peer maxID g d) d w) :
    Tells owner d w [(peer, d.maxPeerLocalID owner peer maxID)] := by
  obtain ⟨hlt, x, hx, hxo, hxt, hxp, hxout, hxle, hxl⟩ := (if_neg hne ▸ hmoves g hg :)
  obtain ⟨m, hm, hmirror, hmout⟩ := hd.mirrors x hx hxt (by rw [hxp, hxo]; exact hne.symm)
  rw [readActs, if_neg hne] at hdid
  set k := d.maxPeerLocalID owner peer maxID with hk
  have hmo : m.ownerID = peer := hmirror.owner.trans hxp
  have hml : m.localID = k := hmirror.localID.trans hxl
  have hmt : m.peerType = .user := hmirror.peerType
  have hmp : m.peerID = owner := hmirror.peer.trans hxo
  obtain ⟨gp, hgp⟩ := hdialogs.dialog_isSome hm
  rw [hmo, hmt, hmp] at hgp
  have hdialog : ∀ u v, w.dialog u .user v = ((Write.advanceReadOutbox peer .user owner k).apply
        ((Write.advanceReadInbox owner .user peer maxID).apply d)).dialog u .user v := by
    intro u v
    rw [hdid.eq]
    rfl
  have hout : d.outboxOf peer .user owner = gp.readOutboxMaxID := by rw [DB.outboxOf, hgp]; rfl
  have hwp : w.dialog peer .user owner = some { gp with readOutboxMaxID := k } := by
    rw [hdialog, dialog_advanceReadOutbox, dialog_advanceReadInbox, hgp]
    simp only [Option.map_some, hne.symm, false_and, if_false, and_self, if_true]
    rw [max_eq_right (by omega)]
  have hwo : ∃ go, w.dialog owner .user peer = some go ∧ maxID ≤ go.readInboxMaxID := by
    rw [hdialog, dialog_advanceReadOutbox, dialog_advanceReadInbox, hg]
    simp only [Option.map_some, hne, false_and, if_false, and_self, if_true]
    exact ⟨_, rfl, le_max_right _ _⟩
  have hrows : w.messages = d.messages := by
    rw [hdid.eq]
    rfl
  have hat : isAt peer k m := isAt_iff.mpr ⟨hmo, hml⟩
  refine ⟨⟨?_, by simp, ?_⟩, ?_, fun h => ?_⟩
  · rw [hdid.eq, readOuts_runActs hdid.ok]
    rfl
  · intro t ht
    obtain rfl := mem_singleton.mp ht
    refine ⟨m, hm, hat, ?_⟩
    rw [hmt, hmp, DB.outboxOf.eq_1 w, hwp]
    exact ⟨hlt, le_rfl⟩
  · intro t ht
    obtain rfl := mem_singleton.mp ht
    obtain ⟨go, hgo, hle⟩ := hwo
    refine ⟨m, ⟨hrows ▸ hm, hat⟩, by simp [hmout, hxout], ⟨_, by rw [hmt, hmp]; exact hwp, rfl⟩, ?_⟩
    refine ⟨x, hrows ▸ hx, hxo, ⟨hxout, .inl (hmirror.symm hxt)⟩,
      go, by rw [hxt, hxp]; exact hgo, ?_⟩
    omega
  · have hmark := h peer .user owner
    rw [DB.markers, DB.markers, hwp, hgp] at hmark
    have hmark' := congrArg Prod.snd (Option.some.inj hmark)
    dsimp only at hmark'
    omega

/-! ## The read of a chat -/

theorem foldl_max_eq_or_mem (l : List Int) (a : Int) : l.foldl max a = a ∨ l.foldl max a ∈ l := by
  induction l generalizing a with
  | nil => exact .inl rfl
  | cons x xs ih =>
    rw [foldl_cons]
    rcases ih (max a x) with h | h
    · rw [h]
      rcases le_total a x with hle | hle
      · exact .inr (by simp [max_eq_right hle])
      · exact .inl (max_eq_left hle)
    · exact .inr (mem_cons_of_mem _ h)

theorem foldl_max_mem {l : List Int} {a : Int} (hne : l ≠ []) (hle : ∀ x ∈ l, a ≤ x) :
    l.foldl max a ∈ l := by
  cases l with
  | nil => exact absurd rfl hne
  | cons x xs =>
    rw [foldl_cons, max_eq_right (hle x (by simp))]
    rcases foldl_max_eq_or_mem xs x with h | h
    · rw [h]
      exact mem_cons_self
    · exact mem_cons_of_mem _ h

theorem mem_chatReceipts (hlogs : ∀ u, LogOk u (d.ofOwner u)) {bound : Int}
    {members : List Int} (ht : t ∈ d.chatReceipts owner chat bound g members) :
    d.outboxOf t.1 .chat chat < t.2 ∧
      ∃ m ∈ d.messages, isAt t.1 t.2 m ∧ m.out = true ∧ m.peerType = .chat ∧
        m.peerID = chat ∧ ∃ x ∈ d.messages, x.ownerID = owner ∧ x.peerType = .chat ∧
          x.peerID = chat ∧ x.localID ≤ bound ∧ Counterpart m x := by
  obtain ⟨ht, hlt⟩ := mem_filter.mp ht
  refine ⟨of_decide_eq_true hlt, ?_⟩
  obtain ⟨sender, -, hsome⟩ := mem_filterMap.mp ht
  dsimp only at hsome
  split at hsome
  · cases hsome
  rename_i hne
  cases hsome
  have hpos : ∀ (q : Message → Bool), ∀ l ∈ (d.messages.filter q).map (·.localID), 0 ≤ l := by
    intro q l hl
    obtain ⟨m, hm, rfl⟩ := mem_map.mp hl
    have hone := (localID_lt_nextOf hlogs (mem_filter.mp hm).1).1
    omega
  have hmax := foldl_max_mem (fun hnil => hne (map_eq_nil_iff.mp hnil)) (hpos _)
  obtain ⟨m, hm, hid⟩ := mem_map.mp hmax
  obtain ⟨hm, hkey⟩ := mem_filter.mp hm
  simp only [decide_eq_true_eq] at hkey
  obtain ⟨hmo, hmf, hmout, hmt, hmp, hcovered⟩ := hkey
  obtain ⟨x, hx, hfan⟩ := any_eq_true.mp hcovered
  obtain ⟨hx, hcov⟩ := mem_filter.mp hx
  simp only [decide_eq_true_eq] at hcov hfan
  obtain ⟨hxo, hxt, hxp, hxout, -, -, -, hxle, -⟩ := hcov
  refine ⟨m, hm, isAt_iff.mpr ⟨hmo, hid⟩, hmout, hmt, hmp, x, hx, hxo, hxt, hxp, hxle, hxout, ?_⟩
  exact .inr ⟨hmt, hxt, hxp.trans hmp.symm, hmf, hfan.2⟩

theorem dialog_receipts_of_notMem (hu : u ∉ ts.map Prod.fst) (d : DB) :
    (runActs (ts.flatMap (receiptActs now chat)) d).dialog u .chat chat =
      d.dialog u .chat chat := by
  induction ts generalizing d with
  | nil => rfl
  | cons s ss ih =>
    simp only [map_cons, mem_cons, not_or] at hu
    rw [flatMap_cons, runActs_append, ih hu.2, dialog_receiptActs (Ne.symm hu.1)]

theorem dialog_receipts (hnodup : (ts.map Prod.fst).Nodup) (ht : t ∈ ts) (d : DB) :
    (runActs (ts.flatMap (receiptActs now chat)) d).dialog t.1 .chat chat =
      (d.dialog t.1 .chat chat).map fun g =>
      { g with readOutboxMaxID := max g.readOutboxMaxID t.2 } := by
  induction ts generalizing d with
  | nil => simp at ht
  | cons s ss ih =>
    obtain ⟨hfresh, hrest⟩ := nodup_cons.mp hnodup
    rw [flatMap_cons, runActs_append]
    rcases mem_cons.mp ht with rfl | ht
    · have hone : (runActs (receiptActs now chat t) d).dialog t.1 .chat chat =
          ((Write.advanceReadOutbox t.1 .chat chat t.2).apply d).dialog t.1 .chat chat := rfl
      rw [dialog_receipts_of_notMem hfresh, hone, dialog_advanceReadOutbox]
      simp only [and_self, if_true]
    · have hne : s.1 ≠ t.1 := fun heq => hfresh (heq ▸ mem_map_of_mem ht)
      rw [ih hrest ht, dialog_receiptActs hne]

theorem inbox_receipts (now chat : Int) (ts : Owned) (u : Int) (d : DB) :
    ((runActs (ts.flatMap (receiptActs now chat)) d).dialog u .chat chat).map (·.readInboxMaxID) =
      (d.dialog u .chat chat).map (·.readInboxMaxID) := by
  induction ts generalizing d with
  | nil => rfl
  | cons s ss ih =>
    rw [flatMap_cons, runActs_append, ih]
    have hone : (runActs (receiptActs now chat s) d).dialog u .chat chat =
        ((Write.advanceReadOutbox s.1 .chat chat s.2).apply d).dialog u .chat chat := rfl
    rw [hone, dialog_advanceReadOutbox, Option.map_map]
    congr 1
    funext g
    dsimp only [Function.comp_apply]
    split <;> rfl

section ChatReads

variable {chat bound : Int} {members : List Int}

theorem nodup_chatReceipts : ((d.chatReceipts owner chat bound g members).map Prod.fst).Nodup := by
  refine (nodup_chatReadReceiptTargets d owner chat g.readInboxMaxID bound members).sublist ?_
  exact List.Sublist.map _ filter_sublist

variable (h : ChatReads now owner chat bound d g members w)

include h

theorem ChatReads.messages : w.messages = d.messages :=
  h.did.eq ▸ messages_reads reads_chatReadActs

/-- The receipts find the dialogs as the reader's marker leaves them. -/
theorem ChatReads.marked : ∃ v : DB, (∀ u, w.dialog u .chat chat =
      (runActs ((d.chatReceipts owner chat bound g members).flatMap (receiptActs now chat))
        v).dialog u .chat chat) ∧
    ∀ u, v.dialog u .chat chat =
      ((Write.advanceChatReadInbox owner .chat chat bound).apply d).dialog u .chat chat := by
  refine ⟨(Act.mark owner .readIn (max g.readInboxMaxID bound) now).apply
    ((Write.advanceChatReadInbox owner .chat chat bound).apply d), fun u => ?_, fun _ => rfl⟩
  rw [h.did.eq]
  rfl

theorem ChatReads.reader :
    ∃ go, w.dialog owner .chat chat = some go ∧ go.readInboxMaxID = bound := by
  obtain ⟨v, hw, hv⟩ := h.marked
  have hin := inbox_receipts now chat (d.chatReceipts owner chat bound g members) owner v
  rw [← hw, hv, dialog_advanceChatReadInbox, h.dialog] at hin
  obtain ⟨go, hgo, hid⟩ := Option.map_eq_some_iff.mp hin
  have hmoves := h.moves
  refine ⟨go, hgo, hid.trans ?_⟩
  simp only [and_self, if_true, readInbox]
  omega

theorem ChatReads.sender (hd : Inv d) (ht : t ∈ d.chatReceipts owner chat bound g members) :
    ∃ gs, w.dialog t.1 .chat chat = some gs ∧ gs.readOutboxMaxID = t.2 := by
  obtain ⟨gs, hgs⟩ := Option.isSome_iff_exists.mp (h.senders t ht)
  have hlt := (mem_chatReceipts hd.logs ht).1
  rw [DB.outboxOf, hgs] at hlt
  obtain ⟨v, hw, hv⟩ := h.marked
  rw [hw, dialog_receipts nodup_chatReceipts ht, hv, dialog_advanceChatReadInbox, hgs]
  refine ⟨_, rfl, ?_⟩
  dsimp only [Option.map_some, Option.getD_some] at hlt ⊢
  split
  · dsimp only [readInbox]
    omega
  · omega

theorem tells_readChat (hd : Inv d) :
    Tells owner d w (d.chatReceipts owner chat bound g members) := by
  have hdid := h.did
  have hsender := fun t => h.sender hd (t := t)
  have hrows := h.messages
  set ts := d.chatReceipts owner chat bound g members with hts
  have hnodup : (ts.map Prod.fst).Nodup := nodup_chatReceipts
  refine ⟨⟨?_, hnodup, fun t ht => ?_⟩, fun t ht => ?_, fun hsame => ?_⟩
  · have hacts : (chatReadActs now owner chat bound g ts).flatMap Act.receipts = ts := by
      change (ts.flatMap (receiptActs now chat)).flatMap Act.receipts = ts
      rw [flatMap_assoc]
      exact flatMap_singleton' ts
    rw [hdid.eq, readOuts_runActs hdid.ok, hacts]
  · obtain ⟨hlt, m, hm, hat, -, hmt, hmp, -⟩ := mem_chatReceipts hd.logs ht
    obtain ⟨gs, hgs, hout⟩ := hsender t ht
    refine ⟨m, hm, hat, ?_⟩
    rw [hmt, hmp, DB.outboxOf.eq_1 w, hgs]
    exact ⟨hlt, hout.ge⟩
  · obtain ⟨-, m, hm, hat, hmout, hmt, hmp, x, hx, hxo, hxt, hxp, hxle, hcopy⟩ :=
      mem_chatReceipts hd.logs ht
    obtain ⟨gs, hgs, hout⟩ := hsender t ht
    obtain ⟨go, hgo, hin⟩ := h.reader
    refine ⟨m, ⟨hrows ▸ hm, hat⟩, hmout, ⟨gs, by rw [hmt, hmp]; exact hgs, hout⟩, ?_⟩
    exact ⟨x, hrows ▸ hx, hxo, hcopy, go, by rw [hxt, hxp]; exact hgo, hin ▸ hxle⟩
  · obtain ⟨go, hgo, hin⟩ := h.reader
    have hmarkers := hsame owner .chat chat
    rw [DB.markers, DB.markers, hgo, h.dialog] at hmarkers
    have hsame' := congrArg Prod.fst (Option.some.inj hmarkers)
    have hmoves := h.moves
    dsimp only at hsame'
    omega

end ChatReads

/-! ## Every interleaving -/

def Call.reader : Call → Option Int
  | .readHistory _ owner _ _ => some owner
  | .readChat _ owner _ _ _ => some owner
  | _ => none

def Call.readMoves (d : DB) : Call → Prop
  | .readHistory _ owner peer maxID => ReadMoves d owner peer maxID
  | _ => True

instance (d : DB) (t : Call) : Decidable (t.readMoves d) := by
  unfold Call.readMoves
  split <;> infer_instance

theorem receipts_careful {v : DB} (hc : Careful as v w) : as.flatMap Act.receipts = [] := by
  refine flatMap_eq_nil_iff.mpr fun a ha => ?_
  have hone := hc a ha
  cases a <;> first | rfl | exact hone.elim

theorem receipts_deletes (hdel : ∀ a ∈ as, a.deletes) : as.flatMap Act.receipts = [] := by
  refine flatMap_eq_nil_iff.mpr fun a ha => ?_
  have hone := hdel a ha
  cases a <;> first | rfl | exact hone.elim

theorem NewReceipts.none (hdid : Did as d w) (has : as.flatMap Act.receipts = []) :
    NewReceipts d w [] := by
  refine ⟨?_, nodup_nil, by simp⟩
  rw [hdid.eq, readOuts_runActs hdid.ok, has]

/-- A call that reads nobody's messages sends no receipt, and a read sends those it should. -/
theorem Spec.receipts {t : Call} {a : Reply} (h : Spec t d a w) (hd : Inv d)
    (hdialogs : DialogsOk d) (hmoves : t.readMoves d) : ∃ news, NewReceipts d w news ∧
      match t.reader with
      | none => news = []
      | some reader => Tells reader d w news := by
  by_cases ht : t.actsInChats = true
  · obtain ⟨as, hdid, hcareful⟩ := h.careful hd ht
    refine ⟨[], .none hdid (receipts_careful hcareful), ?_⟩
    cases t <;> first | rfl | exact absurd ht Bool.false_ne_true
  · cases t <;> first | exact absurd rfl ht | skip
    all_goals cases a <;> first | exact h.elim | skip
    case neg.delete.perOwner =>
      obtain ⟨as, hdid, -, hdel, -⟩ := h
      exact ⟨[], .none hdid (receipts_deletes hdel), rfl⟩
    case neg.readHistory.read owner peer _ _ _ =>
      rcases h with rfl | ⟨g, hg, hdid⟩
      · exact ⟨[], .none (.nil w) rfl, .refl _ w⟩
      · by_cases hself : owner = peer
        · subst hself
          have htells := tells_readSelf hg hmoves hdid
          exact ⟨_, htells.new, htells⟩
        · have htells := tells_readPeer hd hdialogs hself hg hmoves hdid
          exact ⟨_, htells.new, htells⟩
    case neg.readChat.chatRead =>
      rcases h with ⟨rfl, -⟩ | ⟨g, members, hread, -⟩
      · exact ⟨[], .none (.nil w) rfl, .refl _ w⟩
      · have htells := tells_readChat hread hd
        exact ⟨_, htells.new, htells⟩

variable {states : Owned} {files : List File} {c : StoreConfig}

theorem Reached.inboxesOk_pre (h : Reached states files c) (hr : r ∈ c.log) : InboxesOk r.pre := by
  refine h.ok.leads.invariant_pre (fun r' hr' hpre => ?_) (fun g hg => absurd hg not_mem_nil) hr
  have hok := h.ok.records r' hr'
  cases ha : r'.outcome.answer with
  | none => rwa [hok.unchanged ha]
  | some a =>
    obtain ⟨as, hdid⟩ := (hok.spec ha).did
    exact hdid.eq ▸ hpre.runActs hdid.ok

theorem Reached.receipts_step (h : Reached states files c) (hr : r ∈ c.log)
    (hmoves : r.outcome.answer.isSome → r.call.readMoves r.pre) :
    ∃ as news, Did as r.pre r.post ∧ NewReceipts r.pre r.post news ∧
      match r.call.reader with
      | none => news = []
      | some reader => Tells reader r.pre r.post news := by
  have hok := h.ok.records r hr
  cases ha : r.outcome.answer with
  | none =>
    rw [hok.unchanged ha]
    refine ⟨[], [], .nil _, .none (.nil _) rfl, ?_⟩
    cases r.call.reader with
    | none => rfl
    | some reader => exact .refl reader r.pre
  | some a =>
    obtain ⟨as, hdid⟩ := (hok.spec ha).did
    obtain ⟨news, hnew, htells⟩ :=
      (hok.spec ha).receipts hok.1 (h.dialogsOk_pre hr) (hmoves (by rw [ha]; rfl))
    exact ⟨as, news, hdid, hnew, htells⟩

/-- In every interleaving whose reads of 1:1 histories each have something to tell, the receipts of
a dialog rise; each is the outbox marker it leaves, and names an outgoing row that the reader has a
copy of at or below their own marker; and a read that moves no marker appends nothing. -/
theorem readReceipts_rise (h : Reached states files c)
    (hmoves : ∀ r ∈ c.log, r.outcome.answer.isSome → r.call.readMoves r.pre) :
    (∀ u pt p, (c.db.receipts u pt p).Pairwise (· < ·)) ∧ ∀ r ∈ c.log,
        (∃ news, r.post.readOuts = r.pre.readOuts ++ news ∧ ∀ t ∈ news, ∃ reader m,
          r.call.reader = some reader ∧ Receipt r.post reader t m) ∧
        (r.call.reader.isSome → (∀ u pt p, r.post.markers u pt p = r.pre.markers u pt p) →
          r.post.events = r.pre.events) := by
  have hinitial : ReceiptsOk (.initial states files) :=
    ⟨fun t ht => absurd ht not_mem_nil, fun u pt p => List.Pairwise.nil⟩
  have hrun : ReceiptsOk c.db := by
    refine h.ok.leads.invariant (fun r hr hpre => ?_) hinitial
    obtain ⟨as, news, hdid, hnew, -⟩ := h.receipts_step hr (hmoves r hr)
    exact hpre.step (h.ok.records r hr).1 hdid hnew
  refine ⟨hrun.rising, fun r hr => ?_⟩
  obtain ⟨as, news, -, hnew, htells⟩ := h.receipts_step hr (hmoves r hr)
  cases hreader : r.call.reader with
  | none =>
    rw [hreader] at htells
    obtain rfl : news = [] := htells
    exact ⟨⟨[], hnew.events, by simp⟩, fun h => absurd h Bool.false_ne_true⟩
  | some reader =>
    rw [hreader] at htells
    have htells : Tells reader r.pre r.post news := htells
    refine ⟨⟨news, hnew.events, fun t ht => ?_⟩, fun _ hsame => by rw [htells.moves hsame]⟩
    obtain ⟨m, hm⟩ := htells.each t ht
    exact ⟨reader, m, rfl, hm⟩

/-- Two messages, read one after the other. -/
theorem readReceipts_rise_twice : ((afterHi [.readHistory 11 2 1 1,
        .send 12 ⟨1, 2, "ho", 8, 0, 0⟩, .readHistory 13 2 1 2]).db.receipts 1 .user 2).Pairwise
          (· < ·) ∧
      (afterHi [.readHistory 11 2 1 1,
        .send 12 ⟨1, 2, "ho", 8, 0, 0⟩, .readHistory 13 2 1 2]).db.receipts 1 .user 2 = [1, 2] :=
  ⟨(readReceipts_rise reached_serialRun (by decide +kernel)).1 1 .user 2, by decide +kernel⟩

/-- A later read of less sends a lower receipt, and a read of the same sends it again without moving
a marker. When the reader has answered, the receipt names the answer, which its owner received. -/
theorem readReceipts_regress : (∃ c, Reached two [] c ∧ c.db.receipts 1 .user 2 = [2, 1]) ∧
    (∃ c, Reached two [] c ∧ ∃ r ∈ c.log, r.call = .readHistory 12 2 1 1 ∧
      r.post.dialogs = r.pre.dialogs ∧ r.pre.readOuts = [(1, 1)] ∧
        r.post.readOuts = [(1, 1), (1, 1)]) ∧
    ∃ c, Reached two [] c ∧ c.db.readOuts = [(1, 2)] ∧
      ∀ m ∈ c.db.messages, isAt 1 2 m → m.out = false :=
  ⟨⟨afterHi [.send 11 ⟨1, 2, "ho", 8, 0, 0⟩, .readHistory 12 2 1 2, .readHistory 13 2 1 1],
      reached_serialRun, by decide +kernel⟩,
    ⟨afterHi [.readHistory 11 2 1 1, .readHistory 12 2 1 1], reached_serialRun, by decide +kernel⟩,
    ⟨afterHi [.send 11 ⟨2, 1, "ho", 8, 0, 0⟩, .readHistory 12 2 1 2],
      reached_serialRun, by decide +kernel⟩⟩

end TelegramServer.Store
