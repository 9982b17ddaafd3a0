import TelegramServer.Store.Changes
import TelegramServer.Store.ReadReceipts

/-!
# The pts that deletes and reads answer with

`messages.deleteMessages` and `messages.readHistory` answer with a pts and with the
number of events the caller has to account for. A client that takes them at their word
misses nothing exactly when the one is the caller's new pts and the other the number of
events the call appended to the caller's log.
-/

namespace TelegramServer.Api

open Tx TelegramServer.Store List

variable {states : Owned} {files : List File} {c : StoreConfig}
  {r : StoreRecord} {d w : DB} {as : List Act} {bound chat now owner : Int}
  {ids : List Int} {revoke : Bool} {x : Message}

structure AffectedMessages where
  pts : Int
  ptsCount : Int

def handleDeleteMessages (userID : Int) (ids : List Int) (perOwner : Owned) :
    AffectedMessages :=
  ⟨(ptsOf perOwner userID).getD 0, ids.length⟩

def handleReadHistory (readerPts : Int) : AffectedMessages :=
  ⟨readerPts, 1⟩

def handleReadChatHistory (result : ChatReadHistoryResult) : AffectedMessages :=
  ⟨result.pts, result.ptsCount⟩

def affected : Call → Reply → Option AffectedMessages
  | .delete _ owner ids _, .perOwner po => some (handleDeleteMessages owner ids po)
  | .readHistory .., .read readerPts _ => some (handleReadHistory readerPts)
  | .readChat .., .chatRead (some result) => some (handleReadChatHistory result)
  | _, _ => none

/-- The reply accounts for what the call did to the caller's log. -/
structure AffectedMessages.Accounts (a : AffectedMessages) (userID : Int) (d w : DB) : Prop where
  pts : a.pts = w.ptsOf userID
  count : a.ptsCount = ((w.eventLog userID).length : Int) - (d.eventLog userID).length

theorem length_eventLog (hd : Inv d) (u : Int) : ((d.eventLog u).length : Int) = d.ptsOf u := by
  have hnum : (d.eventLog u).map (·.pts) = upto (d.ptsOf u) := by
    have := (hd.logs u).events
    rwa [DB.ptsOf_ofOwner] at this
  have hnonneg : 0 ≤ d.ptsOf u := by
    have := (hd.logs u).pts_nonneg
    rwa [DB.ptsOf_ofOwner] at this
  rw [← length_map (f := (·.pts)), hnum, length_upto hnonneg]

/-- With gapless logs the count says how far the pts moved. -/
theorem accounts_iff (hd : Inv d) (hw : Inv w) {a : AffectedMessages} {u : Int} :
    a.Accounts u d w ↔ a.pts = w.ptsOf u ∧ a.ptsCount = w.ptsOf u - d.ptsOf u := by
  constructor
  · rintro ⟨hpts, hcount⟩
    rw [length_eventLog hd, length_eventLog hw] at hcount
    exact ⟨hpts, hcount⟩
  · rintro ⟨hpts, hcount⟩
    refine ⟨hpts, ?_⟩
    rw [length_eventLog hd, length_eventLog hw, hcount]

theorem length_eventLog_runActs (h : ActsOk as d) (u : Int) :
    ((runActs as d).eventLog u).length = (d.eventLog u).length + (announced as).count u := by
  obtain ⟨new, heq, hentries⟩ := h.events
  have howners : announced as = new.map (·.ownerID) := by
    have hevent : ∀ a : Act, a.announces = a.event.map Prod.fst := by
      intro a
      cases a <;> rfl
    rw [announced, funext hevent, ← map_filterMap, ← hentries, map_map]
    rfl
  rw [DB.eventLog, heq, filter_append, length_append, howners, List.count,
    countP_map, countP_eq_length_filter]
  simp [DB.eventLog, Function.comp_def, Bool.beq_eq_decide_eq]

theorem ptsOf_did (h : Did as d w) (hd : Inv d) (hw : Inv w) (u : Int) :
    w.ptsOf u = d.ptsOf u + (announced as).count u := by
  rw [← length_eventLog hd, ← length_eventLog hw, h.eq, length_eventLog_runActs h.ok]
  push_cast
  rfl

/-! ## Deletions -/

theorem requested_own (hd : Inv d) (hx : x ∈ d.messages) (howner : x.ownerID = owner) :
    d.requested owner ids revoke x ↔ x.localID ∈ ids := by
  constructor
  · rintro ⟨m, hm, hmo, hid, hx'⟩
    suffices heq : x.key = m.key by
      rw [hd.row_of_key hx hm heq]
      exact hid
    by_cases hrev : revoke = true
    · rw [if_pos hrev, DB.reaches, Bool.or_eq_true] at hx'
      rcases hx' with hat | hcopy
      · exact Message.key_eq_iff.mpr hat
      · by_cases hchat : m.peerType = .chat
        · rw [if_pos hchat] at hcopy
          simp only [ne_eq, Bool.and_eq_true, decide_eq_true_eq] at hcopy
          have hsame := (hd.logs owner).fanoutIDs m (mem_filter.mpr ⟨hm, by simpa using hmo⟩) x
            (mem_filter.mpr ⟨hx, by simpa using howner⟩) hcopy.1.1 hcopy.1.2
          exact Prod.ext (howner.trans hmo.symm) hsame
        · rw [if_neg hchat] at hcopy
          simp only [ne_eq, Bool.and_eq_true, decide_eq_true_eq, Message.isAt_iff] at hcopy
          exact absurd (hcopy.2.1.symm.trans (howner.trans hmo.symm)) hcopy.1
    · rwa [if_neg hrev] at hx'
  · intro hid
    refine ⟨x, hx, howner, hid, ?_⟩
    split
    · simp [DB.reaches, Message.isAt_iff]
    · rfl

theorem mem_droppedRows_own (hd : Inv d) : x ∈ d.droppedRows owner ids revoke owner ↔
      x ∈ d.messages ∧ x.ownerID = owner ∧ x.deleted = false ∧ x.localID ∈ ids := by
  simp only [DB.droppedRows, DB.messageRows, mem_filter, decide_eq_true_eq]
  constructor
  · rintro ⟨⟨hx, hu⟩, hlive, hreq⟩
    exact ⟨hx, hu, hlive, (requested_own hd hx hu).mp hreq⟩
  · rintro ⟨hx, hu, hlive, hid⟩
    exact ⟨⟨hx, hu⟩, hlive, (requested_own hd hx hu).mpr hid⟩

theorem length_droppedRows_iff (hd : Inv d) (revoke : Bool)
    (hpresent : ∀ id ∈ ids, ∃ m ∈ d.messages, m.key = (owner, id)) :
    (d.droppedRows owner ids revoke owner).length = ids.length ↔
      ids.Nodup ∧ ∀ m ∈ d.messages, m.ownerID = owner → m.localID ∈ ids → m.deleted = false := by
  set rows := d.droppedRows owner ids revoke owner with hrows
  have hnodup : (rows.map (·.localID)).Nodup := by
    refine List.Nodup.map_on (fun x hx y hy heq => ?_) ((hd.nodup_messages.filter _).filter _)
    obtain ⟨hxm, hxo, -⟩ := (mem_droppedRows_own hd).mp hx
    obtain ⟨hym, hyo, -⟩ := (mem_droppedRows_own hd).mp hy
    exact hd.row_of_key hxm hym (Prod.ext (hxo.trans hyo.symm) heq)
  have hsub : rows.map (·.localID) ⊆ ids := by
    intro id hid
    obtain ⟨x, hx, rfl⟩ := mem_map.mp hid
    exact ((mem_droppedRows_own hd).mp hx).2.2.2
  constructor
  · intro hlen
    have hperm : (rows.map (·.localID)).Perm ids :=
      (hnodup.subperm hsub).perm_of_length_le (by rw [length_map, hlen])
    refine ⟨hperm.nodup_iff.mp hnodup, fun m hm hu hid => ?_⟩
    obtain ⟨x, hx, hxid⟩ := mem_map.mp (hperm.mem_iff.mpr hid)
    obtain ⟨hxm, hxo, hlive, -⟩ := (mem_droppedRows_own hd).mp hx
    rwa [hd.row_of_key hm hxm (Prod.ext (hu.trans hxo.symm) hxid.symm)]
  · rintro ⟨hids, hlive⟩
    have hback : ids ⊆ rows.map (·.localID) := by
      intro id hid
      obtain ⟨m, hm, hkey⟩ := hpresent id hid
      obtain ⟨hu, rfl⟩ := Prod.ext_iff.mp hkey
      exact mem_map.mpr ⟨m, (mem_droppedRows_own hd).mpr ⟨hm, hu, hlive m hm hu hid, hid⟩, rfl⟩
    rw [← length_map (f := (·.localID))]
    exact ((perm_ext_iff_of_nodup hnodup hids).mpr fun id => ⟨@hsub id, @hback id⟩).length_eq

/-- No id is asked for twice, and each is of a live row of the caller's; or there is none at all,
and nothing to account for. -/
def DeleteAccounted (owner : Int) (ids : List Int) (d : DB) : Prop :=
  ids = [] ∧ d.ptsOf owner = 0 ∨ ids ≠ [] ∧ ids.Nodup ∧
    ∀ m ∈ d.messages, m.ownerID = owner → m.localID ∈ ids → m.deleted = false

theorem delete_accounts_iff (hd : Inv d) (hw : Inv w) {po : Owned}
    (h : DeleteEffect now owner ids revoke d po w) :
    (handleDeleteMessages owner ids po).Accounts owner d w ↔ DeleteAccounted owner ids d := by
  have hdropped := h.dropped hd
  have hpresent : ∀ id ∈ ids, ∃ m ∈ d.messages, m.key = (owner, id) := by
    intro id hid
    obtain ⟨m, hm, hkey, -⟩ := h.present id hid
    exact ⟨m, hm, hkey⟩
  have hlength := length_droppedRows_iff hd revoke hpresent
  have hmoved : w.ptsOf owner = d.ptsOf owner + (d.droppedRows owner ids revoke owner).length := by
    obtain ⟨new, hnew, -, hperm⟩ := hdropped.events owner
    have hlen := hperm.length_eq
    rw [length_map, length_map] at hlen
    rw [← length_eventLog hd, ← length_eventLog hw, hnew, length_append, hlen]
    push_cast
    rfl
  have hanswer : (ptsOf po owner).getD 0 =
      if d.droppedRows owner ids revoke owner = [] then 0 else w.ptsOf owner := by
    rw [hdropped.answer owner]
    split <;> rfl
  rw [accounts_iff hd hw, handleDeleteMessages, hanswer, DeleteAccounted]
  dsimp only
  by_cases hids : ids = []
  · have hnone : d.droppedRows owner ids revoke owner = [] := by
      refine eq_nil_iff_forall_not_mem.mpr fun x hx => ?_
      have hid := ((mem_droppedRows_own hd).mp hx).2.2.2
      simp [hids] at hid
    rw [hnone] at hmoved ⊢
    simp only [hids, length_nil] at hmoved ⊢
    simp
    omega
  · rw [← hlength]
    have hpos : 0 < ids.length := length_pos_iff.mpr hids
    constructor
    · rintro ⟨-, hcount⟩
      exact .inr ⟨hids, by omega⟩
    · rintro (⟨hnil, -⟩ | ⟨-, hlen⟩)
      · exact absurd hnil hids
      · rw [if_neg (ne_nil_of_length_pos (by omega))]
        exact ⟨rfl, by omega⟩

theorem announced_readActs (now owner peer maxID : Int) (g : Dialog) (d : DB) :
    announced (readActs now owner peer maxID g d) = if owner = peer then [owner]
      else [owner, peer] := by
  unfold readActs
  split <;> rfl

theorem read_accounts_iff (hd : Inv d) (hw : Inv w) {peer maxID : Int} {pts : Int × Int}
    (h : ReadEffect now owner peer maxID d pts w) :
    (handleReadHistory pts.1).Accounts owner d w ↔ (d.dialog owner .user peer).isSome := by
  obtain ⟨rfl, hdone⟩ := h
  rw [accounts_iff hd hw, handleReadHistory]
  dsimp only
  cases hg : d.dialog owner .user peer with
  | none =>
    rw [hg] at hdone
    have : w = d := hdone
    subst this
    simp
  | some g =>
    rw [hg] at hdone
    have hone : (announced (readActs now owner peer maxID g d)).count owner = 1 := by
      rw [announced_readActs]
      split
      · simp
      · next hself => simp [Ne.symm hself]
    have hmoved := ptsOf_did hdone hd hw owner
    rw [hone] at hmoved
    simp only [Option.isSome_some, iff_true]
    exact ⟨trivial, by omega⟩

theorem reader_notMem_chatReceipts (hd : Inv d) {g : Dialog} {members : List Int} :
    owner ∉ (d.chatReceipts owner chat bound g members).map Prod.fst := by
  intro hmem
  obtain ⟨t, ht, hto⟩ := mem_map.mp hmem
  obtain ⟨-, m, hm, hat, hout, -, -, x, hx, hxo, hchat, -, -, hin, hcopy⟩ :=
    mem_chatReceipts hd.logs ht
  obtain ⟨hmo, -⟩ := Message.isAt_iff.mp hat
  rcases hcopy with hcopy | ⟨-, -, -, h0, hfan⟩
  · exact absurd (hcopy.peerType.symm.trans hchat) (by decide)
  · have hsame := (hd.logs owner).fanoutIDs m (mem_filter.mpr ⟨hm, by simpa using hmo.trans hto⟩) x
      (mem_filter.mpr ⟨hx, by simpa using hxo⟩) h0 hfan
    have hrow := hd.row_of_key hx hm (Prod.ext (hxo.trans (hmo.trans hto).symm) hsame)
    rw [hrow, hout] at hin
    cases hin

theorem announced_chatReadActs (now owner chat bound : Int) (g : Dialog) (ts : Owned) :
    announced (chatReadActs now owner chat bound g ts) = owner :: ts.map Prod.fst := by
  have hts : announced (ts.flatMap (receiptActs now chat)) = ts.map Prod.fst := by
    induction ts with
    | nil => rfl
    | cons t ts ih =>
      rw [flatMap_cons, announced_append, ih]
      rfl
  exact congrArg (owner :: ·) hts

theorem readChat_accounts (hd : Inv d) (hw : Inv w) {res : ChatReadHistoryResult}
    (h : ChatReadEffect now owner chat bound d (some res) w) :
    (handleReadChatHistory res).Accounts owner d w := by
  rw [accounts_iff hd hw]
  rcases h res rfl with ⟨rfl, hpts, hcount⟩ | ⟨g, members, hreads, hpts, hcount⟩
  · exact ⟨hpts, by rw [handleReadChatHistory, hcount]; simp⟩
  · have hmoved := ptsOf_did hreads.did hd hw owner
    rw [announced_chatReadActs, count_cons_self,
      count_eq_zero_of_not_mem (reader_notMem_chatReceipts hd)] at hmoved
    refine ⟨?_, ?_⟩
    · rw [handleReadChatHistory, hpts, hmoved]
      rfl
    · rw [handleReadChatHistory, hcount, hmoved]
      simp

def caller : Call → Int
  | .delete _ owner _ _ => owner
  | .readHistory _ owner _ _ => owner
  | .readChat _ owner _ _ _ => owner
  | _ => 0

/-- A delete asks once for each of some live rows, a 1:1 read finds the dialog. -/
def Accounted (d : DB) : Call → Prop
  | .delete _ owner ids _ => DeleteAccounted owner ids d
  | .readHistory _ owner peer _ => (d.dialog owner .user peer).isSome
  | _ => True

/-- In every interleaving the reply of a delete or a read accounts for the caller's log exactly when
a delete asks once for each of some live rows, and a 1:1 read is of a dialog that exists; a chat
read always does. -/
theorem affected_accounts_iff (h : Reached states files c) (hr : r ∈ c.log) {a : Reply}
    {m : AffectedMessages} (ha : r.outcome.answer = some a) (hm : affected r.call a = some m) :
    m.Accounts (caller r.call) r.pre r.post ↔ Accounted r.pre r.call := by
  have hok := h.ok.records r hr
  have heffect := h.effect hr ha
  generalize r.call = t at hm heffect
  cases t <;> cases a <;> try (cases hm; done)
  case delete.perOwner now owner ids revoke po =>
    cases hm
    exact delete_accounts_iff hok.1 hok.2.1 heffect
  case readHistory.read now owner peer maxID readerPts peerPts =>
    cases hm
    exact read_accounts_iff hok.1 hok.2.1 heffect
  case readChat.chatRead now owner chat bound memberIDs res =>
    cases res with
    | none => exact nomatch hm
    | some res =>
      cases hm
      exact iff_of_true (readChat_accounts hok.1 hok.2.1 heffect) trivial

/-- Two live messages, deleted together. -/
theorem affected_accounts_iff_two : ∃ r ∈ (afterHi [.send 11 ⟨1, 2, "ho", 8, 0, 0⟩,
        .delete 12 1 [1, 2] true]).log, ∃ a, r.outcome.answer = some a ∧
      affected r.call a = some ⟨4, 2⟩ ∧
      (⟨4, 2⟩ : AffectedMessages).Accounts (caller r.call) r.pre r.post := by
  refine ⟨_, getElem_mem (n := 2) (by decide), _, rfl, rfl, ?_⟩
  refine (affected_accounts_iff reached_serialRun (getElem_mem (by decide)) rfl
    rfl).mpr (.inr ⟨by simp, by decide, ?_⟩)
  decide +kernel

/-- A delete without ids answers with pts 0 to a user whose pts is 1; and a read of a dialog that
does not exist answers with one event, though there is none. -/
theorem affected_of_nothing : ∃ c, Reached three [] c ∧
      (∃ r ∈ c.log, r.call = .delete 11 1 [] false ∧ affected r.call (.perOwner []) = some ⟨0, 0⟩ ∧
        r.outcome.answer = some (.perOwner []) ∧
        ¬ (⟨0, 0⟩ : AffectedMessages).Accounts 1 r.pre r.post) ∧
      ∃ r ∈ c.log, r.call = .readHistory 12 1 3 1 ∧ affected r.call (.read 1 0) = some ⟨1, 1⟩ ∧
        r.outcome.answer = some (.read 1 0) ∧
        ¬ (⟨1, 1⟩ : AffectedMessages).Accounts 1 r.pre r.post := by
  refine ⟨serialRun three [] [.send 10 ⟨1, 2, "hi", 7, 0, 0⟩,
    .delete 11 1 [] false, .readHistory 12 1 3 1], reached_serialRun, ?_, ?_⟩
  · refine ⟨_, getElem_mem (n := 1) (by decide), rfl, rfl, rfl, fun haccounts => ?_⟩
    exact absurd haccounts.pts (by decide)
  · refine ⟨_, getElem_mem (n := 2) (by decide), rfl, rfl, rfl, fun haccounts => ?_⟩
    exact absurd haccounts.count (by decide +kernel)

end TelegramServer.Api
