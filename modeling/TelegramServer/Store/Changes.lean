import TelegramServer.Store.Runs

/-!
# What edits and deletions leave

An edit changes the text of one message on the rows that carry it, and a deletion
marks the rows it was asked for; each is announced once in the log of the row's owner,
and nothing else moves.
-/

namespace TelegramServer.Store

open Tx Tx.Table List

variable {states : Owned} {files : List File} {c : StoreConfig}
  {r : StoreRecord} {d w : DB} {keys : Owned} {m : Message} {now : Int}
  {text : String}

/-! ## Edits -/

theorem length_filter_owner_le_one (h : (keys.map Prod.fst).Nodup) (u : Int) :
    (keys.filter (·.1 = u)).length ≤ 1 := by
  have hcount := nodup_iff_count_le_one.mp h u
  rw [List.count, countP_map, countP_eq_length_filter] at hcount
  simpa [Function.comp_def, Bool.beq_eq_decide_eq] using hcount

theorem eq_of_perm_of_length_le_one {α : Type} {l l' : List α} (h : l.Perm l') (hl : l.length ≤ 1) :
    l = l' := by
  match l, hl with
  | [], _ => exact (nil_perm.mp h).symm
  | [a], _ => exact singleton_perm.mp h

/-- The owner's row among those that a change of `m` reaches. -/
def DB.reachedRows (d : DB) (m : Message) (u : Int) : List Message :=
  (d.messageRows u).filter (d.reaches m)

theorem Reach.filter_owner (h : Reach d m keys) (hd : Inv d) (u : Int) :
    keys.filter (·.1 = u) = (d.reachedRows m u).map Message.key := by
  refine eq_of_perm_of_length_le_one ?_ (length_filter_owner_le_one h.owners u)
  have hrows : ((d.reachedRows m u).map Message.key).Nodup := by
    refine List.Nodup.map_on (fun x hx y hy heq => ?_) ?_
    · have hmem : ∀ {z}, z ∈ d.reachedRows m u → z ∈ d.messages := fun hz =>
        (mem_filter.mp (mem_filter.mp hz).1).1
      exact hd.row_of_key (hmem hx) (hmem hy) heq
    · exact (hd.nodup_messages.filter _).filter _
  refine (perm_ext_iff_of_nodup ((List.Nodup.of_map _ h.owners).filter _) hrows).mpr fun k => ?_
  simp only [mem_filter, h.mem, decide_eq_true_eq, mem_map, DB.reachedRows, DB.messageRows]
  constructor
  · rintro ⟨⟨x, hx, hr, rfl⟩, hu⟩
    exact ⟨x, ⟨⟨hx, hu⟩, hr⟩, rfl⟩
  · rintro ⟨x, ⟨⟨hx, hu⟩, hr⟩, rfl⟩
    exact ⟨⟨x, hx, hr, rfl⟩, hu⟩

/-- `w` is `d` after an edit of `m`: the rows that carry the message have the text and the date,
each of their owners has one new event, and the rest is as it was. -/
structure Edited (now : Int) (text : String) (d : DB) (m : Message) (w : DB) : Prop where
  messages : w.messages = d.messages.map fun x =>
    if d.reaches m x then { x with text, editDate := some now } else x
  events : ∀ u, w.eventLog u = d.eventLog u ++
    (d.reachedRows m u).map fun x => ⟨u, d.ptsOf u + 1, .edit, x.localID⟩
  once : ∀ u, (d.reachedRows m u).length ≤ 1
  states : ∀ u, d.reachedRows m u = [] → w.getState u = d.getState u
  tables : w = { d with messages := w.messages, events := w.events, updateStates := w.updateStates }

theorem getState_editKeys {u : Int} (hu : ∀ k ∈ keys, k.1 ≠ u) (d : DB) :
    (runActs (editKeys now text keys) d).getState u = d.getState u := by
  induction keys generalizing d with
  | nil => rfl
  | cons k ks ih =>
    change (runActs (editKeys now text ks) ((Act.edit k.1 k.2 text now).apply d)).getState u = _
    rw [ih fun k' hk' => hu k' (by simp [hk'])]
    exact getState_act_of_ne (by simpa [Act.owner] using hu k (by simp)) d

theorem Reach.edited (h : Reach d m keys) (hd : Inv d) (hdid : Did (editKeys now text keys) d w) :
    Edited now text d m w := by
  have howner := h.filter_owner hd
  refine ⟨?_, fun u => ?_, fun u => ?_, fun u hnone => ?_, ?_⟩
  · rw [hdid.eq, messages_editKeys]
    refine map_congr_left fun x hx => ?_
    simp only [h.mem_key hd hx]
  · rw [DB.eventLog, hdid.eq, events_editKeys now text h.owners, filter_append, filter_map]
    have hrow : ((d.reachedRows m u).map fun x => (⟨u, d.ptsOf u + 1, .edit, x.localID⟩ : Event)) =
        (keys.filter (·.1 = u)).map fun k => ⟨k.1, d.ptsOf k.1 + 1, .edit, k.2⟩ := by
      rw [howner, map_map]
      refine map_congr_left fun x hx => ?_
      obtain ⟨-, hu⟩ := mem_filter.mp (mem_filter.mp hx).1
      rw [decide_eq_true_eq] at hu
      simp [Message.key, hu]
    rw [hrow]
    rfl
  · rw [← length_map (f := Message.key), ← howner]
    exact length_filter_owner_le_one h.owners u
  · rw [hdid.eq]
    refine getState_editKeys (fun k hk hu => ?_) d
    have hmem : k ∈ keys.filter (·.1 = u) := mem_filter.mpr ⟨hk, by simpa using hu⟩
    rw [howner, hnone] at hmem
    simp at hmem
  · rw [hdid.eq]
    exact tables_editKeys now text keys d

theorem Edited.own {owner localID : Int} (h : Edited now text d m w)
    (hm : Editable d owner localID m) :
    w.eventLog owner = d.eventLog owner ++ [⟨owner, d.ptsOf owner + 1, .edit, localID⟩] := by
  obtain ⟨hu, hl⟩ := Message.isAt_iff.mp hm.own
  have hmem : m ∈ d.reachedRows m owner := by
    refine mem_filter.mpr ⟨mem_filter.mpr ⟨hm.mem, by simpa using hu⟩, ?_⟩
    simp [DB.reaches, Message.isAt_iff]
  obtain ⟨x, hx⟩ := length_eq_one_iff.mp (le_antisymm (h.once owner) (length_pos_of_mem hmem))
  rw [hx, mem_singleton] at hmem
  rw [h.events owner, hx, ← hmem, map_singleton, hl]

/-- In every interleaving, an edit that succeeds changes the message of the caller's own row,
wherever it is carried, and answers with the pts of the caller's event; one that fails changes
nothing. -/
theorem edit_exact (h : Reached states files c) (hr : r ∈ c.log) {now owner localID : Int}
    {text : String} (hcall : r.call = .edit now owner localID text) :
    (∀ a, r.outcome.answer = some a → ∃ m pts, a = .edited m.peerID pts ∧
      Editable r.pre owner localID m ∧ Edited now text r.pre m r.post ∧
      r.post.eventLog owner = r.pre.eventLog owner ++ [⟨owner, pts, .edit, localID⟩]) ∧
      (r.outcome.answer = none → r.post = r.pre) := by
  have hok := h.ok.records r hr
  refine ⟨fun a ha => ?_, hok.unchanged⟩
  have heffect := h.effect hr ha
  have hspec := hok.spec ha
  rw [hcall] at heffect hspec
  cases a <;> try exact hspec.elim
  case edited peer pts =>
    obtain ⟨m, keys, hedit, heq, hreach, hdid⟩ := heffect
    obtain ⟨rfl, rfl⟩ := Prod.ext_iff.mp heq
    have hedited := hreach.edited hok.1 hdid
    exact ⟨m, _, rfl, hedit, hedited, hedited.own hedit⟩

/-- In a chat that 3 has left, 1's message is edited on the copies of 1 and 2. -/
theorem edit_exact_left : ∃ r ∈ (inChat [2, 3] [.removeChatUser 11 1 3 3, .edit 12 1 1 "ho"]).log,
      r.outcome = .done (.commit (.edited 1 3)) ∧ r.pre.ptsOf 3 = 2 ∧
        r.post.messages.map (fun x => (x.ownerID, x.text)) =
          [(1, "ho"), (2, "ho"), (3, "hi"), (1, ""), (2, ""), (3, "")] ∧
        ∃ m pts, Reply.edited 1 3 = .edited m.peerID pts ∧ Editable r.pre 1 1 m ∧
          Edited 12 "ho" r.pre m r.post ∧
          r.post.eventLog 1 = r.pre.eventLog 1 ++ [⟨1, pts, .edit, 1⟩] := by
  refine ⟨_, getElem_mem (n := 3) (by decide), rfl, rfl, by decide +kernel, ?_⟩
  exact (edit_exact reached_serialRun (getElem_mem (by decide)) rfl).1 _ rfl

/-! ## Deletions -/

instance (d : DB) (owner : Int) (ids : List Int) (revoke : Bool) :
    DecidablePred (d.requested owner ids revoke) :=
  fun _ => inferInstanceAs (Decidable (∃ m ∈ d.messages, _))

/-- The rows of `u` that a delete of the caller's `ids` marks: those it is about that are live. -/
def DB.droppedRows (d : DB) (owner : Int) (ids : List Int) (revoke : Bool) (u : Int) :
    List Message :=
  (d.messageRows u).filter fun x => x.deleted = false ∧ d.requested owner ids revoke x

/-- `w` is `d` after the delete: the live rows it is about are marked, each is announced once in the
log of its owner, and `po` has the pts of these owners and no other. -/
structure Dropped (owner : Int) (ids : List Int) (revoke : Bool) (d : DB) (po : Owned)
    (w : DB) : Prop where
  messages : w.messages = d.messages.map fun x =>
    if x.deleted = false ∧ d.requested owner ids revoke x then { x with deleted := true } else x
  events : ∀ u, ∃ new, w.eventLog u = d.eventLog u ++ new ∧ (∀ e ∈ new, e.type = .delete) ∧
    (new.map (·.localID)).Perm ((d.droppedRows owner ids revoke u).map (·.localID))
  answer : ∀ u, ptsOf po u =
    if d.droppedRows owner ids revoke u = [] then none else some (w.ptsOf u)

theorem events_deleteKeys (now : Int) (ks : Owned) (d : DB) :
    ∃ new, (runActs (deleteKeys now ks d) d).events = d.events ++ new ∧
      (∀ e ∈ new, e.type = .delete) ∧ new.map (fun e => (e.ownerID, e.localID)) = ks := by
  induction ks generalizing d with
  | nil => exact ⟨[], by simp [deleteKeys], by simp, rfl⟩
  | cons k ks ih =>
    obtain ⟨new, heq, htype, hkeys⟩ := ih (runActs (deleteKey now k d) d)
    refine ⟨⟨k.1, d.ptsOf k.1 + 1, .delete, k.2⟩ :: new, ?_, ?_, ?_⟩
    · rw [deleteKeys, runActs_append, heq, (log_deleteKey now k d).2.1, append_assoc,
        singleton_append]
    · simpa using htype
    · rw [map_cons, hkeys]

theorem DeleteEffect.dropped {owner : Int} {ids : List Int} {revoke : Bool} {po : Owned}
    (h : DeleteEffect now owner ids revoke d po w) (hd : Inv d) :
    Dropped owner ids revoke d po w := by
  obtain ⟨ks, hdel, hks⟩ := h.deleted
  have hkey : ∀ x ∈ d.messages, x.key ∈ ks ↔
      x.deleted = false ∧ d.requested owner ids revoke x := by
    intro x hx
    rw [hks]
    constructor
    · rintro ⟨y, hy, hk, hdrop⟩
      exact hd.row_of_key hy hx hk ▸ hdrop
    · exact fun hdrop => ⟨x, hx, rfl, hdrop⟩
  -- The owner's keys are those of the owner's rows.
  have howner : ∀ u k, k ∈ ks ∧ k.1 = u ↔ ∃ x ∈ d.droppedRows owner ids revoke u, x.key = k := by
    intro u k
    simp only [DB.droppedRows, DB.messageRows, mem_filter, decide_eq_true_eq]
    constructor
    · rintro ⟨hk, rfl⟩
      obtain ⟨x, hx, rfl, hdrop⟩ := (hks k).mp hk
      exact ⟨x, ⟨⟨hx, rfl⟩, hdrop⟩, rfl⟩
    · rintro ⟨x, ⟨⟨hx, hu⟩, hdrop⟩, rfl⟩
      exact ⟨(hks _).mpr ⟨x, hx, rfl, hdrop⟩, hu⟩
  refine ⟨?_, fun u => ?_, fun u => ?_⟩
  · rw [hdel.messages]
    refine map_congr_left fun x hx => ?_
    simp only [hkey x hx]
  · obtain ⟨new, hnew, htype, hkeys⟩ := events_deleteKeys now ks d
    refine ⟨new.filter (·.ownerID = u), ?_, fun e he => htype e (mem_filter.mp he).1, ?_⟩
    · rw [DB.eventLog, hdel.did.eq, hnew, filter_append]
      rfl
    · have hids : (new.filter (·.ownerID = u)).map (·.localID) =
          (ks.filter (·.1 = u)).map Prod.snd := by
        rw [← hkeys, filter_map, map_map]
        rfl
      have hrows : (d.droppedRows owner ids revoke u).map (·.localID) =
          ((d.droppedRows owner ids revoke u).map Message.key).map Prod.snd := by
        rw [map_map]
        rfl
      rw [hids, hrows]
      refine List.Perm.map _ ((perm_ext_iff_of_nodup (hdel.nodup.filter _) ?_).mpr fun k => ?_)
      · refine List.Nodup.map_on (fun x hx y hy heq => ?_) ((hd.nodup_messages.filter _).filter _)
        have hmem : ∀ {z}, z ∈ d.droppedRows owner ids revoke u → z ∈ d.messages := fun hz =>
          (mem_filter.mp (mem_filter.mp hz).1).1
        exact hd.row_of_key (hmem hx) (hmem hy) heq
      · rw [mem_filter, decide_eq_true_eq, howner, mem_map]
  · rw [hdel.pts]
    by_cases hnone : d.droppedRows owner ids revoke u = []
    · rw [if_pos hnone, if_neg fun hu => ?_]
      obtain ⟨k, hk, hku⟩ := mem_map.mp hu
      obtain ⟨x, hx, -⟩ := (howner u k).mp ⟨hk, hku⟩
      simp [hnone] at hx
    · rw [if_neg hnone, if_pos]
      obtain ⟨x, hx⟩ := exists_mem_of_ne_nil _ hnone
      obtain ⟨hk, hu⟩ := (howner u x.key).mpr ⟨x, hx, rfl⟩
      exact hu ▸ mem_map_of_mem hk

/-- The delete fails closed: with an id that the owner has no live row for it fails and changes
nothing, and else what succeeds marks the rows it is about. -/
structure FailsClosed (owner : Int) (ids : List Int) (revoke : Bool)
    (r : StoreRecord) : Prop where
  closed : (∃ id ∈ ids, ∀ m ∈ r.pre.messages, m.key = (owner, id) → m.deleted = true) →
    (r.outcome = .failed .messageInvalid ∨ r.outcome = .aborted) ∧ r.post = r.pre
  marked : (∀ id ∈ ids, ∃ m ∈ r.pre.messages, m.key = (owner, id) ∧ m.deleted = false) →
    ∀ a, r.outcome.answer = some a → ∃ po, a = .perOwner po ∧
      Dropped owner ids revoke r.pre po r.post

end TelegramServer.Store
