import TelegramServer.Store.MessageSpecs
import TelegramServer.Tx.Watch

/-!
# Deletions meet their specification

`DeleteMessages` loads the requested rows, locks their owners and walks over the copies. A copy that
is already gone is skipped, except for the caller's own row of a message that is not walked: then
the whole call fails.
-/

namespace TelegramServer.Store

open Tx Tx.Table Tx.Locking List
open Locking (wpf_bind wpf_of_wp wpf_mono)
open Message (isAt key_eq_iff key kept)
open DeleteTarget (pollRefs owners)

variable {G : Ctx DB Lock} {w : DB} {localID : Int} {Q : Post Unit} {c : PollCopy} {a : Act}
  {F : StoreErr → Prop} {d : DB} {done ks po refs : Owned} {ids : List Int}
  {k : Int × Int} {l now owner u : Int} {members : List (Int × List Int)} {revoke : Bool}
  {t : DeleteTarget}

/-! ## The requested rows -/

structure TargetOk (w : DB) (owner : Int) (revoke : Bool) (localID : Int) (t : DeleteTarget) :
    Prop where
  row : ∃ m ∈ w.messages, m.frozen = t.message.frozen
  own : t.message.key = (owner, localID)
  alone : ¬ (revoke = true ∧ t.message.peerType = .chat) → t.copies = []
  walked : revoke = true → t.message.peerType = .chat → AllCopies w t.message t.copies

structure TargetsOk (w : DB) (owner : Int) (revoke : Bool) (ids : List Int)
    (ts : List DeleteTarget) : Prop where
  target : ∀ id ∈ ids, ∃ t ∈ ts, TargetOk w owner revoke id t
  id : ∀ t ∈ ts, ∃ id ∈ ids, TargetOk w owner revoke id t

def Knows (G : Ctx DB Lock) (ts : List DeleteTarget) : Prop :=
  ∀ x, G.seen x → Inv x ∧ ∀ t ∈ ts, ∃ m ∈ x.messages, m.frozen = t.message.frozen

theorem fails_chatCopies (pre : Message) : (chatCopies pre).Fails (· = .messageInvalid) := by
  unfold chatCopies
  split
  · rfl
  · refine .bind (.query _) fun copies => ?_
    split
    · rfl
    · trivial

theorem fails_messageOrFail (owner localID : Int) :
    (messageOrFail .messageInvalid owner localID).Fails (· = .messageInvalid) := by
  refine .bind (.query _) fun m => .orFail ?_ m
  rfl

theorem fails_deleteTarget (owner : Int) (revoke : Bool) (localID : Int) :
    (deleteTarget owner revoke localID).Fails (· = .messageInvalid) := by
  refine .bind (fails_messageOrFail owner localID) fun m => ?_
  have hcopies : Prog.Fails (· = .messageInvalid) (do
      let copies ← chatCopies m
      pure ⟨m, copies⟩ : Body DeleteTarget) :=
    .bind (fails_chatCopies m) fun _ => trivial
  split
  · split
    · rfl
    split
    · trivial
    dsimp only
    split
    · refine .bind trivial fun chat => ?_
      split
      · rfl
      · exact hcopies
    · refine .bind (.query _) fun chat => ?_
      split
      · rfl
      · exact hcopies
  · trivial

theorem wp_deleteTarget {Q : Post DeleteTarget}
    (hG : Knows G []) (h : ∀ t G', G'.held = G.held → (∀ x, G'.seen x → G.seen x) → Knows G' [t] →
      TargetOk w owner revoke localID t → Q t G' w) :
    locking.wp (deleteTarget owner revoke localID) G w Q := by
  refine wp_bind (wp_messageOrFail_saw fun v m hv hm => ?_)
  obtain ⟨hmem, rfl, rfl⟩ := DB.messageByOwnerLocal_some hm
  have hrow := (show Grows v w from hv.grows).row hmem
  have hlater : ∀ x, (G.saw Grows v).seen x → Inv x ∧ ∃ y ∈ x.messages, y.frozen = m.frozen :=
    fun x hx => ⟨(hG x hx.1).1, (show Grows v x from hx.2).row hmem⟩
  have hend : ∀ t : DeleteTarget, t.message = m → TargetOk w m.ownerID revoke m.localID t →
      Q t (G.saw Grows v) w := fun t ht htarget =>
    h t _ rfl (fun x hx => hx.1)
      (fun x hx => ⟨(hlater x hx).1, fun t' ht' => mem_singleton.mp ht' ▸ ht ▸ (hlater x hx).2⟩)
      htarget
  have hcopies : revoke = true → m.peerType = .chat → locking.wp (do
      let copies ← chatCopies m
      pure (⟨m, copies⟩ : DeleteTarget)) (G.saw Grows v) w Q := fun hrev hchat =>
    wp_bind (wp_chatCopies hlater fun copies hall =>
      hend _ rfl ⟨hrow, rfl, fun hnot => absurd ⟨hrev, hchat⟩ hnot, fun _ _ => hall⟩)
  split
  · rename_i hchat
    split
    · trivial
    split
    · rename_i hrev
      have hrev : revoke = false := by simpa using hrev
      exact hend _ rfl ⟨hrow, rfl, fun _ => rfl,
        fun h => absurd (hrev.symm.trans h) Bool.false_ne_true⟩
    · rename_i hrev
      have hrev : revoke = true := by simpa using hrev
      dsimp only
      split
      · refine wp_bind ?_
        rw [locking.wp_pure]
        split
        · trivial
        · exact hcopies hrev hchat
      · refine wp_bind (wp_query fun v _ => ?_)
        split
        · trivial
        · exact hcopies hrev hchat
  · rename_i hchat
    exact hend _ rfl ⟨hrow, rfl, fun _ => rfl, fun _ h => absurd h hchat⟩

theorem fails_deleteTargets (owner : Int) (revoke : Bool) (ids : List Int) :
    (deleteTargets owner revoke ids).Fails (· = .messageInvalid) := by
  induction ids with
  | nil => trivial
  | cons id ids ih =>
    exact .bind (fails_deleteTarget owner revoke id) fun _ => .bind ih fun _ => trivial

theorem wp_deleteTargets {Q : Post (List DeleteTarget)} (hG : Knows G [])
    (h : ∀ ts G', G'.held = G.held → (∀ x, G'.seen x → G.seen x) → Knows G' ts →
      TargetsOk w owner revoke ids ts → Q ts G' w) :
    locking.wp (deleteTargets owner revoke ids) G w Q := by
  induction ids generalizing G Q with
  | nil => exact h [] G rfl (fun _ hx => hx) hG ⟨by simp, by simp⟩
  | cons id ids ih =>
    refine wp_bind (wp_deleteTarget hG fun t G₁ hheld hsub hknows ht => ?_)
    refine wp_bind (ih (fun x hx => ⟨(hknows x hx).1, by simp⟩)
      fun ts G₂ hheld₂ hsub₂ hknows₂ hts => ?_)
    refine h _ G₂ (hheld₂.trans hheld) (fun x hx => hsub x (hsub₂ x hx))
      (fun x hx => ⟨(hknows₂ x hx).1, fun t' ht' => ?_⟩) ⟨fun id' hid' => ?_, fun t' ht' => ?_⟩
    · rcases mem_cons.mp ht' with rfl | ht'
      · exact (hknows x (hsub₂ x hx)).2 t' (by simp)
      · exact (hknows₂ x hx).2 t' ht'
    · rcases mem_cons.mp hid' with rfl | hid'
      · exact ⟨t, by simp, ht⟩
      · obtain ⟨t', ht', hok⟩ := hts.target id' hid'
        exact ⟨t', by simp [ht'], hok⟩
    · rcases mem_cons.mp ht' with rfl | ht'
      · exact ⟨id, by simp, ht⟩
      · obtain ⟨id', hid', hok⟩ := hts.id t' ht'
        exact ⟨id', by simp [hid'], hok⟩

theorem fails_deleteMembers (owner : Int) (chats : List Int) :
    (deleteMembers owner chats).Fails (· = .messageInvalid) := by
  induction chats with
  | nil => trivial
  | cons c cs ih =>
    refine .bind (.query _) fun members => ?_
    split
    · rfl
    · exact .bind ih fun _ => trivial

/-- The member sets are right about the owners that are locked, and the caller is in all of them. -/
structure MembersOk (G : Ctx DB Lock) (w : DB) (owner : Int) (chats : List Int)
    (members : List (Int × List Int)) : Prop where
  iff : ∀ c ∈ chats, ∀ u, Lock.owner u ∈ G.held → (u ∈ membersOf members c ↔ w.isChatMember c u)
  caller : ∀ c ∈ chats, owner ∈ membersOf members c

theorem wp_deleteMembers {chats : List Int} {Q : Post (List (Int × List Int))}
    (hG : ∀ x, G.seen x → ∀ c ∈ chats, x.hasChat c)
    (h : ∀ ms, MembersOk G w owner chats ms → Q ms G w) :
    locking.wp (deleteMembers owner chats) G w Q := by
  induction chats generalizing Q with
  | nil => exact h [] ⟨by simp, by simp⟩
  | cons c cs ih =>
    refine wp_bind (wp_chatMembers_locked (fun x hx => hG x hx c (by simp)) fun members hmem => ?_)
    split
    · trivial
    rename_i hin
    refine wp_bind (ih (fun x hx c' hc' => hG x hx c' (by simp [hc'])) fun ms hms => h _ ?_)
    have hfirst : ∀ c', membersOf ((c, members) :: ms) c' =
        if c' = c then members else membersOf ms c' := by
      intro c'
      by_cases hc : c' = c
      · simp [membersOf, hc]
      · simp [membersOf, hc, Ne.symm hc]
    refine ⟨fun c' hc' u hu => ?_, fun c' hc' => ?_⟩
    · rw [hfirst]
      split
      · rename_i heq
        rw [heq]
        exact hmem u hu
      · rename_i hne
        exact hms.iff c' ((mem_cons.mp hc').resolve_left hne) u hu
    · rw [hfirst]
      split
      · exact not_not.mp hin
      · rename_i hne
        exact hms.caller c' ((mem_cons.mp hc').resolve_left hne)

theorem setDeleted_of_none (h : w.undeleted u l = 0) : (Write.setDeleted u l).apply w = w := by
  have heq : updateWhere (isAt u l) (fun m => { m with deleted := true }) w.messages =
      w.messages := by
    conv_rhs => rw [← map_id w.messages]
    refine map_congr_left fun m hm => ?_
    have hdel := filter_eq_nil_iff.mp (length_eq_zero_iff.mp h) m hm
    by_cases hat : isAt u l m
    · have hmd : m.deleted = true := by simpa [hat] using hdel
      simp only [hat, if_true, id_eq]
      rw [← hmd]
    · simp [hat]
  simp only [Write.apply, heq]

theorem DB.undeleted_ofOwner (d : DB) (u l : Int) :
    (d.ofOwner u).undeleted u l = d.undeleted u l := by
  simp only [DB.undeleted, DB.ofOwner, filter_filter]
  congr 2
  funext m
  by_cases h : m.ownerID = u <;> simp [isAt, h]

theorem DB.pollCopy_ofOwner (d : DB) (u l : Int) : (d.ofOwner u).pollCopy u l = d.pollCopy u l := by
  simp only [DB.pollCopy, DB.ofOwner, find?_filter]
  congr 2
  funext c
  by_cases h : c.ownerID = u <;> simp [PollCopy.isAt, h]

theorem DB.pollCopy_some {p : Int} (h : d.pollCopy u l = some p) :
    ∃ c ∈ d.pollCopies, PollCopy.isAt u l c ∧ c.pollID = p := by
  obtain ⟨c, hc, hp⟩ := Option.map_eq_some_iff.mp h
  exact ⟨c, mem_of_find?_eq_some hc, find?_some hc, hp⟩

theorem PollCopy.isAt_iff : PollCopy.isAt u l c ↔ c.ownerID = u ∧ c.localID = l := by
  simp [PollCopy.isAt]

/-- The poll that the trigger cleans up is settled under the owner's lock. -/
theorem reads_cleanedPoll (u l : Int) : locking.Reads (·.cleanedPoll u l) {Lock.owner u} := by
  intro v w _ h
  have hs : OwnerStable u v w := h _ rfl
  have hn : v.undeleted u l = w.undeleted u l := by
    rw [← v.undeleted_ofOwner, hs.rows, w.undeleted_ofOwner]
  have hc : v.pollCopy u l = w.pollCopy u l := by
    rw [← v.pollCopy_ofOwner, hs.rows, w.pollCopy_ofOwner]
  simp only [DB.cleanedPoll, hn, ← hc]
  cases hp : v.pollCopy u l with
  | none => rfl
  | some p =>
    obtain ⟨c, hmem, hat, rfl⟩ := DB.pollCopy_some hp
    simp only [Option.filter_some, hs.poll c hmem (PollCopy.isAt_iff.mp hat).1]

theorem wp_setDeleted {Q : Post Nat} (hu : Lock.owner u ∈ G.held)
    (hpoll : ∀ p, w.cleanedPoll u l = some p → Lock.poll p ∈ G.held)
    (h : Q (w.undeleted u l) G.wrote (locking.replay
      (pollMessageCopyCleanup u l (w.cleanedPoll u l) ++ [Write.setDeleted u l]) w)) :
    locking.wp (setDeleted u l) G w Q := by
  refine wp_stmt_of_reads (fun v w hg hs => ?_) ?_ (fun l' hl' => ?_) (fun o ho l' hl' => ?_) h
  · have hs : ∀ l' ∈ ({Lock.owner u} : Set Lock), locking.stable l' v w := by
      rintro l' rfl
      exact hs _ hu
    have hclean : v.cleanedPoll u l = w.cleanedPoll u l := reads_cleanedPoll u l v w hg hs
    have hn : locking.Reads (·.undeleted u l) {Lock.owner u} :=
      reads_ofOwner fun d => d.undeleted_ofOwner u l
    simp only [hclean, show v.undeleted u l = w.undeleted u l from hn v w hg hs]
  · cases w.cleanedPoll u l <;> simp
  · obtain ⟨p, hp, rfl⟩ : ∃ p, w.cleanedPoll u l = some p ∧ Lock.poll p = l' := by simpa using hl'
    exact ⟨hpoll p hp, not_false⟩
  · cases hp : w.cleanedPoll u l with
    | none =>
      obtain rfl : o = .setDeleted u l := by simpa [hp, pollMessageCopyCleanup] using ho
      obtain rfl : l' = .owner u := by
        simpa [locking, Write.guards, Write.owner, Write.chat, Write.fanout, Write.poll] using hl'
      exact hu
    | some p =>
      have ho : o = .unlinkPoll u l p ∨ o = .deleteUnlinkedPoll p ∨ o = .setDeleted u l := by
        simpa [hp, pollMessageCopyCleanup] using ho
      have hl' : l' = .owner u ∨ l' = .poll p := by
        rcases ho with rfl | rfl | rfl <;>
          simp [locking, Write.guards, Write.owner, Write.chat, Write.fanout, Write.poll] at hl' <;>
          simp [hl']
      rcases hl' with rfl | rfl
      · exact hu
      · exact hpoll p hp

theorem Did.cleanup (poll : Option Int) (w : DB) :
    Did ((pollMessageCopyCleanup u l poll).map .side) w
      (locking.replay (pollMessageCopyCleanup u l poll) w) := by
  cases poll with
  | none => exact Did.nil w
  | some p =>
    refine ⟨⟨rfl, rfl, trivial⟩, fun x hx => ?_, rfl⟩
    simp [pollMessageCopyCleanup, newRows, Act.newMessages] at hx

/-! ## The rows that are deleted -/

def DB.liveKey (d : DB) (k : Int × Int) : Prop :=
  ∃ m ∈ d.messages, m.key = k ∧ m.deleted = false

theorem DB.liveKey_iff : d.liveKey (u, l) ↔ d.undeleted u l ≠ 0 := by
  rw [DB.undeleted, Ne, length_eq_zero_iff, filter_eq_nil_iff]
  simp only [DB.liveKey, key_eq_iff, not_forall]
  constructor
  · rintro ⟨m, hm, hat, hlive⟩
    exact ⟨m, hm, by simp [hat, hlive]⟩
  · rintro ⟨m, hm, hat⟩
    obtain ⟨hat, hlive⟩ : isAt u l m ∧ m.deleted = false := by simpa using hat
    exact ⟨m, hm, hat, hlive⟩

/-- What deletes the row at `k`: its link to a poll, a poll without links, and the row. -/
def deleteKey (now : Int) (k : Int × Int) (d : DB) : List Act :=
  (pollMessageCopyCleanup k.1 k.2 (d.cleanedPoll k.1 k.2)).map .side ++ [Act.delete k.1 k.2 now]

def deleteKeys (now : Int) : Owned → DB → List Act
  | [], _ => []
  | k :: ks, d => deleteKey now k d ++ deleteKeys now ks (runActs (deleteKey now k d) d)

theorem deleteKeys_append (now : Int) (ks ls : Owned) (d : DB) : deleteKeys now (ks ++ ls) d =
      deleteKeys now ks d ++ deleteKeys now ls (runActs (deleteKeys now ks d) d) := by
  induction ks generalizing d with
  | nil => rfl
  | cons k ks ih => rw [cons_append, deleteKeys, deleteKeys, ih, runActs_append, append_assoc]

theorem mem_deleteKey (ha : a ∈ deleteKey now k d) :
    a = .delete k.1 k.2 now ∨ ∃ p, a = .side (.unlinkPoll k.1 k.2 p) ∨
      a = .side (.deleteUnlinkedPoll p) := by
  rw [deleteKey, mem_append, mem_singleton] at ha
  rcases ha with ha | rfl
  · obtain ⟨o, ho, rfl⟩ := mem_map.mp ha
    cases hp : d.cleanedPoll k.1 k.2 with
    | none => simp [hp, pollMessageCopyCleanup] at ho
    | some p =>
      rw [hp, pollMessageCopyCleanup] at ho
      obtain rfl | rfl : o = .unlinkPoll k.1 k.2 p ∨ o = .deleteUnlinkedPoll p := by simpa using ho
      · exact .inr ⟨p, .inl rfl⟩
      · exact .inr ⟨p, .inr rfl⟩
  · exact .inl rfl

theorem log_cleanup (u l : Int) (poll : Option Int) (d : DB) :
    (locking.replay (pollMessageCopyCleanup u l poll) d).messages = d.messages ∧
      (locking.replay (pollMessageCopyCleanup u l poll) d).events = d.events ∧
      (locking.replay (pollMessageCopyCleanup u l poll) d).updateStates = d.updateStates := by
  cases poll <;> exact ⟨rfl, rfl, rfl⟩

theorem runActs_sides (os : List Write) (d : DB) :
    runActs (os.map .side) d = locking.replay os d := by
  induction os generalizing d with
  | nil => rfl
  | cons o os ih => exact ih _

theorem log_deleteKey (now : Int) (k : Int × Int) (d : DB) :
    (runActs (deleteKey now k d) d).messages =
        (d.messages.map fun x => if x.key = k then { x with deleted := true } else x) ∧
      (runActs (deleteKey now k d) d).events = d.events ++ [⟨k.1, d.ptsOf k.1 + 1, .delete, k.2⟩] ∧
      (runActs (deleteKey now k d) d).updateStates =
        ((Write.bumpPtsOnly k.1 now).apply d).updateStates := by
  obtain ⟨hm, he, hs⟩ := log_cleanup k.1 k.2 (d.cleanedPoll k.1 k.2) d
  have hrun : runActs (deleteKey now k d) d = (Act.delete k.1 k.2 now).apply
      (locking.replay (pollMessageCopyCleanup k.1 k.2 (d.cleanedPoll k.1 k.2)) d) := by
    rw [deleteKey, runActs_append, runActs_sides]
    rfl
  rw [hrun]
  set v := locking.replay (pollMessageCopyCleanup k.1 k.2 (d.cleanedPoll k.1 k.2)) d
  refine ⟨?_, ?_, ?_⟩
  · change updateWhere _ _ v.messages = _
    rw [hm]
    refine map_congr_left fun x _ => ?_
    simp only [key_eq_iff]
  · change v.events ++ [_] = _
    rw [he, DB.ptsOf_congr hs]
  · change updateWhere _ _ v.updateStates = updateWhere _ _ d.updateStates
    rw [hs]

theorem ptsOf_deleteKey (hs : (d.getState k.1).isSome) (u : Int) :
    (runActs (deleteKey now k d) d).ptsOf u = if u = k.1 then d.ptsOf u + 1 else d.ptsOf u := by
  rw [DB.ptsOf_congr (log_deleteKey now k d).2.2]
  split
  · rename_i hu
    rw [hu]
    exact ptsOf_bumpPtsOnly hs
  · rename_i hu
    have hstate : ((Write.bumpPtsOnly k.1 now).apply d).getState u = d.getState u := by
      rw [← DB.getState_ofOwner, ofOwner_apply_of_ne (by simpa [Write.owner] using Ne.symm hu),
        DB.getState_ofOwner]
    rw [DB.ptsOf, hstate, DB.ptsOf]

theorem did_deleteKey (hd : Inv d) (hlive : d.liveKey k) :
    Did (deleteKey now k d) d (runActs (deleteKey now k d) d) := by
  obtain ⟨m, hm, hk, -⟩ := hlive
  have hs : (d.getState k.1).isSome := by
    rw [← congrArg Prod.fst hk]
    exact hd.state_of_row hm
  have hclean := Did.cleanup (u := k.1) (l := k.2) (d.cleanedPoll k.1 k.2) d
  obtain ⟨hcm, -, hcs⟩ := log_cleanup k.1 k.2 (d.cleanedPoll k.1 k.2) d
  set v := locking.replay (pollMessageCopyCleanup k.1 k.2 (d.cleanedPoll k.1 k.2)) d
  have hone : Did [.delete k.1 k.2 now] v ((Act.delete k.1 k.2 now).apply v) := by
    refine ⟨⟨⟨?_, m, hcm ▸ hm, key_eq_iff.mp hk⟩, trivial⟩, (fun _ hx => nomatch hx), rfl⟩
    rw [DB.getState, hcs]
    exact hs
  have hboth := hclean.append hone
  exact hboth.eq ▸ hboth

theorem ptsOf_setPts (po : Owned) (u pts v : Int) :
    ptsOf (setPts po u pts) v = if v = u then some pts else ptsOf po v := by
  by_cases hv : v = u
  · simp [ptsOf, setPts, hv]
  · simp only [ptsOf, setPts, hv, if_false]
    rw [find?_cons_of_neg (by simpa using Ne.symm hv), find?_filter_of fun x hx => ?_]
    have hx : x.1 = v := by simpa using hx
    simpa [hx] using hv

structure Deleted (now : Int) (d : DB) (ks po : Owned) (w : DB) : Prop where
  did : Did (deleteKeys now ks d) d w
  deletes : Deletes (deleteKeys now ks d) d
  live : ∀ k ∈ ks, d.liveKey k
  nodup : ks.Nodup
  pts : ∀ u, ptsOf po u = if u ∈ ks.map Prod.fst then some (w.ptsOf u) else none

theorem Deleted.nil (now : Int) (d : DB) : Deleted now d [] [] d :=
  ⟨Did.nil d, .nil d, by simp, by simp, fun _ => rfl⟩

theorem messages_deleteKeys (now : Int) (ks : Owned) (d : DB) :
    (runActs (deleteKeys now ks d) d).messages = d.messages.map fun x =>
      if x.key ∈ ks then { x with deleted := true } else x := by
  induction ks generalizing d with
  | nil => simp [deleteKeys]
  | cons k ks ih =>
    rw [deleteKeys, runActs_append, ih, (log_deleteKey now k d).1, map_map]
    refine map_congr_left fun x _ => ?_
    simp only [Function.comp_apply, mem_cons]
    by_cases hk : x.key = k
    · simp only [hk, if_true, true_or]
      split <;> rfl
    · simp [hk]

theorem Deleted.messages (h : Deleted now d ks po w) :
    w.messages = d.messages.map fun x => if x.key ∈ ks then { x with deleted := true } else x := by
  rw [h.did.eq, messages_deleteKeys]

theorem Deleted.live_iff (h : Deleted now d ks po w) (k : Int × Int) :
    w.liveKey k ↔ d.liveKey k ∧ k ∉ ks := by
  simp only [DB.liveKey, h.messages, mem_map]
  constructor
  · rintro ⟨_, ⟨x, hx, rfl⟩, hk, hlive⟩
    by_cases hin : x.key ∈ ks
    · simp [hin] at hlive
    · rw [if_neg hin] at hk hlive
      exact ⟨⟨x, hx, hk, hlive⟩, hk ▸ hin⟩
  · rintro ⟨⟨x, hx, rfl, hlive⟩, hin⟩
    exact ⟨x, ⟨x, hx, if_neg hin⟩, rfl, hlive⟩

theorem Deleted.snoc (h : Deleted now d ks po w) (hd : Inv d) (hlive : w.liveKey k) :
    Deleted now d (ks ++ [k]) (setPts po k.1 (w.ptsOf k.1 + 1))
      (runActs (deleteKey now k w) w) := by
  obtain ⟨holdlive, hfresh⟩ := (h.live_iff k).mp hlive
  have hw := h.did.inv hd
  have hs : (w.getState k.1).isSome := by
    obtain ⟨m, hm, hk, -⟩ := hlive
    rw [← congrArg Prod.fst hk]
    exact hw.state_of_row hm
  have hacts : deleteKeys now (ks ++ [k]) d = deleteKeys now ks d ++ deleteKey now k w := by
    rw [deleteKeys_append, ← h.did.eq, deleteKeys, deleteKeys, append_nil]
  refine ⟨hacts ▸ h.did.append (did_deleteKey hw hlive), ?_, fun k' hk' => ?_, ?_, fun u => ?_⟩
  · obtain ⟨m, hm, hk, hmlive⟩ := hlive
    rw [hacts, h.did.eq]
    exact h.deletes.snoc k.1 k.2 now ⟨m, h.did.eq ▸ hm, key_eq_iff.mp hk, hmlive⟩
  · rcases mem_append.mp hk' with hk' | hk'
    · exact h.live k' hk'
    · exact mem_singleton.mp hk' ▸ holdlive
  · refine nodup_append.mpr ⟨h.nodup, by simp, fun a ha b hb heq => ?_⟩
    rw [mem_singleton] at hb
    exact hfresh (hb ▸ heq ▸ ha)
  · rw [ptsOf_setPts, h.pts, ptsOf_deleteKey hs]
    by_cases hu : u = k.1
    · simp [hu]
    · have hmem : u ∈ (ks ++ [k]).map Prod.fst ↔ u ∈ ks.map Prod.fst := by simp [hu]
      simp only [hmem, hu, if_false]

theorem announced_deleteKeys : u ∈ announced (deleteKeys now ks d) ↔ u ∈ ks.map Prod.fst := by
  induction ks generalizing d with
  | nil => simp [deleteKeys, announced]
  | cons k ks ih =>
    have hone : announced (deleteKey now k d) = [k.1] := by
      unfold deleteKey
      cases d.cleanedPoll k.1 k.2 <;> rfl
    rw [deleteKeys, announced_append, hone, mem_append, ih, mem_singleton, map_cons, mem_cons]

theorem deletes_of_mem_deleteKeys (ha : a ∈ deleteKeys now ks d) : a.deletes := by
  induction ks generalizing d with
  | nil => simp [deleteKeys] at ha
  | cons k ks ih =>
    rw [deleteKeys, mem_append] at ha
    rcases ha with ha | ha
    · rcases mem_deleteKey ha with rfl | ⟨p, rfl | rfl⟩ <;> trivial
    · exact ih ha

theorem mem_keys_iff_ptsOf : u ∈ po.map Prod.fst ↔ (ptsOf po u).isSome := by
  simp [ptsOf, find?_isSome]

theorem Deleted.spec (h : Deleted now d ks po w) : DeleteSpec d po w := by
  refine ⟨_, h.did, fun u => ?_, fun a ha => deletes_of_mem_deleteKeys ha, h.deletes⟩
  have hkeys : u ∈ po.map Prod.fst ↔ (ptsOf po u).isSome := mem_keys_iff_ptsOf
  rw [announced_deleteKeys, hkeys, h.pts]
  split <;> simp_all

/-! ## The polls of the copies -/

def PollsLocked (refs : Owned) (G : Ctx DB Lock) (w : DB) : Prop :=
  ∀ r ∈ refs, ∀ c ∈ w.pollCopies, PollCopy.isAt r.1 r.2 c → w.hasPoll c.pollID →
    Lock.poll c.pollID ∈ G.held

theorem PollsLocked.mono {G' : Ctx DB Lock} {os : List Write} (h : PollsLocked refs G w)
    (hG : G.held ⊆ G'.held) (hos : ∀ o ∈ os, ∀ u l p, o ≠ .insertPollMessageCopy u l p) :
    PollsLocked refs G' (locking.replay os w) := by
  induction os generalizing w with
  | nil => exact fun r hr c hc hat hp => hG (h r hr c hc hat hp)
  | cons o os ih =>
    refine ih (fun r hr c hc hat hp => ?_) fun o' ho' => hos o' (mem_cons_of_mem _ ho')
    have hold := (mem_pollCopies_apply hc).resolve_right (hos o (by simp) _ _ _)
    exact h r hr c hold hat ((hasPoll_apply hold).symm.trans hp)

theorem OwnerStable.hasPoll {v : DB} (h : OwnerStable u v w) (hc : c ∈ w.pollCopies)
    (hu : c.ownerID = u) : v.hasPoll c.pollID = w.hasPoll c.pollID :=
  (h.poll c (mem_pollCopies_of_ofOwner h.rows.symm hc hu) hu).symm

theorem wp_lockPolls (hids : ids.Pairwise (· < ·))
    (ha : ∀ l ∈ G.held, ∀ id ∈ ids, l.below (.poll id))
    (hlink : ∀ id ∈ ids, ∃ c ∈ w.pollCopies, c.pollID = id ∧ Lock.owner c.ownerID ∈ G.held)
    (h : ∀ ps : List Int, (∀ id ∈ ids, w.hasPoll id → id ∈ ps) →
      Q () (G.lock {l | ∃ id ∈ ps, l = .poll id}) w) : locking.wp (lockPolls ids) G w Q := by
  induction ids generalizing G with
  | nil => simpa [lockPolls] using h []
  | cons id ids ih =>
    obtain ⟨hid, hrest⟩ := pairwise_cons.mp hids
    refine wp_bind (wp_queryForUpdate (fun v => ?_) fun v hv => ?_)
    · exact ascends_row not_false (.inr fun l hl => ha l hl id (by simp))
    obtain ⟨c, hc, rfl, hu⟩ := hlink id (by simp)
    have hpoll : v.hasPoll c.pollID = w.hasPoll c.pollID :=
      OwnerStable.hasPoll (hv.stable _ (.inl hu)) hc rfl
    refine ih hrest ?_ (fun id hid => ?_) fun ps hps => ?_
    · rintro l (hl | hl) id' hid'
      · exact ha l hl id' (by simp [hid'])
      · obtain rfl : l = .poll c.pollID := by
          have hl : l ∈ if v.hasPoll c.pollID then [Lock.poll c.pollID] else [] := hl
          split at hl
          · simpa using hl
          · simp at hl
        exact .inr ⟨rfl, hid id' hid'⟩
    · obtain ⟨c', hc', heq, hu'⟩ := hlink id (by simp [hid])
      exact ⟨c', hc', heq, .inl hu'⟩
    · rw [Ctx.lock_lock]
      cases hhas : w.hasPoll c.pollID with
      | true =>
        have hset : {l | l ∈ if v.hasPoll c.pollID then [Lock.poll c.pollID] else []} ∪
            {l | ∃ id ∈ ps, l = .poll id} = {l | ∃ id ∈ c.pollID :: ps, l = .poll id} := by
          ext l
          simp [hpoll, hhas]
        rw [hset]
        refine h _ fun id' hid' hp => ?_
        rcases mem_cons.mp hid' with rfl | hid'
        · simp
        · exact mem_cons_of_mem _ (hps id' hid' hp)
      | false =>
        have hset : {l | l ∈ if v.hasPoll c.pollID then [Lock.poll c.pollID] else []} ∪
            {l | ∃ id ∈ ps, l = .poll id} = {l | ∃ id ∈ ps, l = .poll id} := by
          simp [hpoll, hhas]
        rw [hset]
        refine h _ fun id' hid' hp => ?_
        rcases mem_cons.mp hid' with rfl | hid'
        · simp [hhas] at hp
        · exact hps id' hid' hp

theorem wp_lockPollsForDeletedMessageCopies
    (ha : ∀ l ∈ G.held, l.tier < 3) (hrefs : ∀ r ∈ refs, Lock.owner r.1 ∈ G.held)
    (h : ∀ ls, PollsLocked refs (G.lock ls) w → Q () (G.lock ls) w) :
    locking.wp (lockPollsForDeletedMessageCopies refs) G w Q := by
  unfold lockPollsForDeletedMessageCopies
  split
  · rename_i hnil
    have := h ∅ (by simp [PollsLocked, hnil])
    simpa using this
  refine wp_bind (wp_query fun v hv => ?_)
  -- The copies' links are the same in every view while their owners are locked.
  have hrows : ∀ r ∈ refs, v.ofOwner r.1 = w.ofOwner r.1 :=
    fun r hr => (show OwnerStable r.1 v w from hv.stable _ (.inl (hrefs r hr))).rows
  have hmem : ∀ {id}, id ∈ ascendingUnique (v.pollIDsForMessageCopies refs) ↔
      ∃ r ∈ refs, ∃ c ∈ v.pollCopies, PollCopy.isAt r.1 r.2 c ∧ c.pollID = id := by
    simp [DB.pollIDsForMessageCopies, and_assoc]
  refine wp_lockPolls (ascendingUnique_pairwise _) (fun l hl _ _ => .inl (ha l hl))
    (fun id hid => ?_) fun ps hps => h _ fun r hr c hc hat hp => ?_
  · obtain ⟨r, hr, c, hc, hat, rfl⟩ := hmem.mp hid
    have hu := (PollCopy.isAt_iff.mp hat).1
    exact ⟨c, mem_pollCopies_of_ofOwner (hrows r hr) hc hu, rfl, hu ▸ hrefs r hr⟩
  · have hu := (PollCopy.isAt_iff.mp hat).1
    have hold := mem_pollCopies_of_ofOwner (hrows r hr).symm hc hu
    exact .inr ⟨c.pollID, hps _ (hmem.mpr ⟨r, hr, c, hold, hat, rfl⟩) hp, rfl⟩

theorem DeleteTarget.owner_of_pollRefs {r : Int × Int} (h : r ∈ t.pollRefs owner revoke members) :
    r.1 = owner ∨ r.1 ∈ t.owners := by
  unfold pollRefs at h
  unfold owners
  split at h
  · rw [if_pos ‹_›]
    split at h
    · simp_all
    · obtain ⟨c, hc, rfl⟩ := mem_map.mp h
      exact .inr (mem_map_of_mem (mem_filter.mp hc).1)
  · rw [if_neg ‹_›]
    split at h <;> simp_all
    rcases h with rfl | rfl <;> simp

theorem fails_lockPollsForDeletedMessageCopies (refs : Owned) :
    (lockPollsForDeletedMessageCopies refs).Fails F := by
  have hpolls : ∀ ids, (lockPolls ids).Fails F := by
    intro ids
    induction ids with
    | nil => trivial
    | cons id ids ih => exact .bind (.queryForUpdate _ _) fun _ => ih
  unfold lockPollsForDeletedMessageCopies
  split
  · trivial
  · exact .bind (.query _) fun _ => hpolls _

/-! ## The walk -/

/-- The state of the walk: the keys seen so far are dealt with, and the polls to come are locked. -/
structure Walk (now : Int) (d : DB) (refs done ks po : Owned) (G : Ctx DB Lock)
    (w : DB) : Prop where
  deleted : Deleted now d ks po w
  keys : ∀ k, k ∈ ks ↔ k ∈ done ∧ d.liveKey k
  polls : PollsLocked refs G w

theorem wpf_deleteEvent {Q : Post Owned}
    (hu : Lock.owner k.1 ∈ G.held) (hs : (w.getState k.1).isSome)
    (h : Q (setPts po k.1 (w.ptsOf k.1 + 1)) G.wrote
      ((Write.insertEvent ⟨k.1, w.ptsOf k.1 + 1, .delete, k.2⟩).apply
        ((Write.bumpPtsOnly k.1 now).apply w))) :
    locking.wpf (deleteEvent now k.1 k.2 po) G w Q F := by
  refine wpf_bind (wpf_bind (wpf_of_wp (fun _ => trivial)
    (wp_exec_owner (u := k.1) (fun d => d.getState_ofOwner k.1) hu rfl ?_)))
  refine wpf_bind (wpf_orFail (fun hnone => ?_) fun s hss => ?_)
  · simp [hnone] at hs
  have hpts : w.ptsOf k.1 = s.pts := by rw [DB.ptsOf, hss]; rfl
  rw [hpts] at h
  exact wpf_bind (wpf_of_wp (fun _ => trivial) (wp_insertEvent hu h))

/-- One row of the walk; `e` is what to do when nothing was there to delete. -/
theorem wpf_delete {e : Body Owned} {Q : Post Owned}
    (hd : Inv d) (hu : Lock.owner k.1 ∈ G.held) (hwalk : Walk now d refs done ks po G w)
    (href : k ∈ refs)
    (hnone : ¬ w.liveKey k → locking.wpf e G.wrote w Q F)
    (hsome : w.liveKey k → ∀ po' w', Walk now d refs (done ++ [k]) (ks ++ [k]) po' G.wrote w' →
      Q po' G.wrote w') :
    locking.wpf (do
      let n ← setDeleted k.1 k.2
      if n = 0 then e else deleteEvent now k.1 k.2 po) G w Q F := by
  refine wpf_bind (wpf_of_wp (fun _ => trivial) (wp_setDeleted hu (fun p hp => ?_) ?_))
  · obtain ⟨hcopy, hhas⟩ : w.pollCopy k.1 k.2 = some p ∧ w.hasPoll p := by
      by_cases h0 : w.undeleted k.1 k.2 = 0
      · simp [DB.cleanedPoll, h0] at hp
      · simpa [DB.cleanedPoll, h0, Option.filter_eq_some_iff] using hp
    obtain ⟨c, hc, hat, rfl⟩ := DB.pollCopy_some hcopy
    exact hwalk.polls _ href c hc hat hhas
  split
  · rename_i h0
    have hclean : w.cleanedPoll k.1 k.2 = none := if_pos h0
    have hsame :
        locking.replay (pollMessageCopyCleanup k.1 k.2 none ++ [Write.setDeleted k.1 k.2]) w = w :=
      setDeleted_of_none h0
    rw [hclean, hsame]
    exact hnone fun hlive => DB.liveKey_iff.mp hlive h0
  rename_i hn
  have hlive : w.liveKey k := DB.liveKey_iff.mpr hn
  have hw := hwalk.deleted.did.inv hd
  obtain ⟨holdlive, hfresh⟩ := (hwalk.deleted.live_iff k).mp hlive
  rw [locking.replay_append]
  set v := locking.replay (pollMessageCopyCleanup k.1 k.2 (w.cleanedPoll k.1 k.2)) w with hv
  have hstates : v.updateStates = w.updateStates := (log_cleanup k.1 k.2 _ w).2.2
  refine wpf_deleteEvent hu ?_ ?_
  · change (v.updateStates.find? _).isSome
    rw [hstates]
    obtain ⟨m, hm, rfl, -⟩ := hlive
    exact hw.state_of_row hm
  · have hpts : ((Write.setDeleted k.1 k.2).apply v).ptsOf k.1 = w.ptsOf k.1 :=
      DB.ptsOf_congr hstates
    have hend : (Write.insertEvent ⟨k.1, w.ptsOf k.1 + 1, .delete, k.2⟩).apply
        ((Write.bumpPtsOnly k.1 now).apply ((Write.setDeleted k.1 k.2).apply v)) =
        runActs (deleteKey now k w) w := by
      rw [deleteKey, runActs_append, runActs_sides, ← hv]
      change _ = locking.replay ((Act.delete k.1 k.2 now).writes v) v
      rw [Act.writes, DB.ptsOf_congr (p := w) hstates]
      rfl
    change Q (setPts po k.1 (((Write.setDeleted k.1 k.2).apply v).ptsOf k.1 + 1)) _ _
    rw [hpts]
    change Q
      _ _ ((Write.insertEvent ⟨k.1, ((Write.setDeleted k.1 k.2).apply v).ptsOf k.1 + 1, .delete,
      k.2⟩).apply ((Write.bumpPtsOnly k.1 now).apply ((Write.setDeleted k.1 k.2).apply v)))
    rw [hpts, hend]
    refine hsome hlive _ _ ⟨hwalk.deleted.snoc hd hlive, fun k' => ?_, ?_⟩
    · simp only [mem_append, mem_singleton, hwalk.keys]
      constructor
      · rintro (hk' | rfl)
        · exact ⟨.inl hk'.1, hk'.2⟩
        · exact ⟨.inr rfl, holdlive⟩
      · rintro ⟨hk' | rfl, hl⟩
        · exact .inl ⟨hk', hl⟩
        · exact .inr rfl
    · rw [← hend]
      have hcleaned : PollsLocked refs G.wrote v := by
        refine hwalk.polls.mono (le_refl _) ?_
        cases w.cleanedPoll k.1 k.2 <;> simp [pollMessageCopyCleanup]
      have hothers : ∀ o ∈ [Write.setDeleted k.1 k.2, .bumpPtsOnly k.1 now,
          .insertEvent ⟨k.1, w.ptsOf k.1 + 1, .delete, k.2⟩], ∀ u l p,
            o ≠ .insertPollMessageCopy u l p := by
        simp
      exact hcleaned.mono (le_refl _) hothers

theorem Walk.skip (h : Walk now d refs done ks po G w) (hk : ¬ w.liveKey k) :
    Walk now d refs (done ++ [k]) ks po G w where
  deleted := h.deleted
  keys k' := by
    rw [h.keys, mem_append, mem_singleton]
    refine ⟨fun hk' => ⟨.inl hk'.1, hk'.2⟩, ?_⟩
    rintro ⟨hk' | rfl, hl⟩
    · exact ⟨hk', hl⟩
    · refine (h.keys k').mp ?_
      by_contra hnot
      exact hk ((h.deleted.live_iff k').mpr ⟨hl, hnot⟩)
  polls := h.polls

def Walked (now : Int) (d : DB) (refs done : Owned) (po : Owned)
    (G : Ctx DB Lock) (w : DB) : Prop :=
  ∃ ks, Walk now d refs done ks po G w

theorem wpf_deleteCopy (hd : Inv d) (hu : Lock.owner k.1 ∈ G.held)
    (hwalk : Walked now d refs done po G w) (href : k ∈ refs) :
    locking.wpf (deleteCopy now k.1 k.2 po) G w (Walked now d refs (done ++ [k])) F := by
  obtain ⟨ks, hwalk⟩ := hwalk
  exact wpf_delete hd hu hwalk href
    (fun hgone => ⟨ks, (hwalk.skip hgone).deleted, (hwalk.skip hgone).keys, hwalk.polls⟩)
    fun _ po' w' h => ⟨_, h⟩

theorem wpf_deleteOwn (hd : Inv d) (hu : Lock.owner k.1 ∈ G.held)
    (hwalk : Walked now d refs done po G w) (href : k ∈ refs) :
    locking.wpf (deleteOwn now k.1 k.2 po) G w
      (fun po' G' w' => Walked now d refs (done ++ [k]) po' G' w' ∧ d.liveKey k)
      (· = .messageInvalid) := by
  obtain ⟨ks, hwalk⟩ := hwalk
  exact wpf_delete hd hu hwalk href (fun _ => rfl)
    fun hlive po' w' h => ⟨⟨_, h⟩, ((hwalk.deleted.live_iff k).mp hlive).1⟩

theorem wpf_deleteCopies {members : List Int} {copies : List Message} (hd : Inv d)
    (hlock : ∀ c ∈ copies, Lock.owner c.ownerID ∈ G.held)
    (href : ∀ k ∈ (copies.filter (·.ownerID ∈ members)).map key, k ∈ refs)
    (hwalk : Walked now d refs done po G w) :
    locking.wpf (deleteCopies now members copies po) G w
      (Walked now d refs (done ++ (copies.filter (·.ownerID ∈ members)).map key)) F := by
  induction copies generalizing G w po done with
  | nil =>
    rw [filter_nil, map_nil, append_nil]
    exact hwalk
  | cons c cs ih =>
    unfold deleteCopies
    split
    · rename_i hin
      have hkeys : ((c :: cs).filter (·.ownerID ∈ members)).map key =
          c.key :: (cs.filter (·.ownerID ∈ members)).map key := by
        simp [hin]
      rw [hkeys] at href ⊢
      refine wpf_bind (wpf_mono (wpf_deleteCopy (k := c.key) hd (hlock c (by simp))
        hwalk (href _ (by simp))) (fun po' G' w' hG h => ?_) fun _ h => h)
      have hrest := ih (fun c' hc' => hG (hlock c' (by simp [hc'])))
        (fun k hk => href k (by simp [hk])) h
      rwa [append_assoc, singleton_append] at hrest
    · rename_i hin
      have hkeys : ((c :: cs).filter (·.ownerID ∈ members)).map key =
          (cs.filter (·.ownerID ∈ members)).map key := by
        simp [hin]
      rw [hkeys] at href ⊢
      exact ih (fun c' hc' => hlock c' (by simp [hc'])) href hwalk

/-- One requested message: the keys of its rows are walked, and without a walk over copies the
caller's row was live. -/
theorem wpf_deleteOne (hd : Inv d) (ho : Lock.owner owner ∈ G.held)
    (hlock : ∀ u ∈ t.owners, Lock.owner u ∈ G.held)
    (href : ∀ r ∈ t.pollRefs owner revoke members, r ∈ refs)
    (hwalk : Walked now d refs done po G w) :
    locking.wpf (deleteOne now owner revoke members t po) G w
      (fun po' G' w' => Walked now d refs (done ++ t.pollRefs owner revoke members) po' G' w' ∧
        (t.message.peerType = .chat ∧ t.copies ≠ [] ∨ d.liveKey (owner, t.message.localID)))
      (· = .messageInvalid) := by
  unfold deleteOne
  unfold owners at hlock
  unfold pollRefs at href ⊢
  split
  · rename_i ht
    simp only [ht, if_true] at hlock href ⊢
    split
    · rename_i hnone
      simp only [hnone, if_true] at href ⊢
      refine wpf_mono (wpf_deleteOwn (k := (owner, t.message.localID)) hd ho hwalk
        (href _ (by simp))) (fun po' G' w' _ h => ⟨h.1, .inr h.2⟩) fun _ h => h
    · rename_i hsome
      simp only [hsome, if_false] at href ⊢
      refine wpf_mono (wpf_deleteCopies hd (fun c hc => hlock _ (mem_map_of_mem hc)) href hwalk)
        (fun po' G' w' _ h => ⟨h, .inl ⟨trivial, hsome⟩⟩) fun _ h => h
  · rename_i ht
    simp only [ht, if_false] at hlock href ⊢
    refine wpf_bind (wpf_mono (wpf_deleteOwn (k := (owner, t.message.localID)) hd ho
      hwalk (href _ (by simp))) (fun po' G' w' hG h => ?_) fun _ h => h)
    split
    · rename_i hstop
      have hstop : (revoke && decide (t.message.peerID ≠ owner)) = false := by
        cases revoke <;> simp_all
      simp only [hstop]
      exact ⟨h.1, .inr h.2⟩
    · rename_i hgo
      have hgo : (revoke && decide (t.message.peerID ≠ owner)) = true := by
        cases revoke <;> simp_all
      simp only [hgo, if_true] at href ⊢
      have hcopy := wpf_deleteCopy (k := (t.message.peerID, t.message.peerLocalID))
        (F := (· = .messageInvalid)) hd (hG (hlock _ (by simp))) h.1 (href _ (by simp))
      rw [append_assoc] at hcopy
      exact wpf_mono hcopy (fun po'' G'' w'' _ h' => ⟨h', .inr h.2⟩) fun _ h => h

theorem wpf_deleteAll {ts : List DeleteTarget} (hd : Inv d) (ho : Lock.owner owner ∈ G.held)
    (hlock : ∀ t ∈ ts, ∀ u ∈ t.owners, Lock.owner u ∈ G.held)
    (href : ∀ t ∈ ts, ∀ r ∈ t.pollRefs owner revoke members, r ∈ refs)
    (hwalk : Walked now d refs done po G w) :
    locking.wpf (deleteAll now owner revoke members ts po) G w
      (fun po' G' w' =>
        Walked now d refs (done ++ ts.flatMap (·.pollRefs owner revoke members)) po' G' w' ∧
        ∀ t ∈ ts, t.message.peerType = .chat ∧ t.copies ≠ [] ∨ d.liveKey (owner, t.message.localID))
      (· = .messageInvalid) := by
  induction ts generalizing G w po done with
  | nil =>
    rw [flatMap_nil, append_nil]
    exact ⟨hwalk, by simp⟩
  | cons t ts ih =>
    refine wpf_bind (wpf_mono (wpf_deleteOne hd ho (hlock t (by simp))
      (href t (by simp)) hwalk) (fun po' G' w' hG h => ?_) fun _ h => h)
    have hrest := ih (hG ho) (fun t' ht' u hu => hG (hlock t' (by simp [ht']) u hu))
      (fun t' ht' => href t' (by simp [ht'])) h.1
    rw [append_assoc] at hrest
    refine wpf_mono hrest (fun po'' G'' w'' _ h' => ⟨h'.1, fun t' ht' => ?_⟩) fun _ h => h
    rcases mem_cons.mp ht' with rfl | ht'
    · exact h.2
    · exact h'.2 t' ht'

/-! ## DeleteMessages -/

def DB.requested (d : DB) (owner : Int) (ids : List Int) (revoke : Bool) (x : Message) : Prop :=
  ∃ m ∈ d.messages, m.ownerID = owner ∧ m.localID ∈ ids ∧
    if revoke = true then d.reaches m x = true else x.key = m.key

/-- A delete that ends well: every id was there, live unless the copies of a chat message were
walked; the live rows it is about are deleted, and the answer has the pts of their owners. -/
structure DeleteEffect (now owner : Int) (ids : List Int) (revoke : Bool) (d : DB)
    (po : Owned) (w : DB) : Prop where
  present : ∀ id ∈ ids, ∃ m ∈ d.messages, m.key = (owner, id) ∧
    (m.deleted = true → revoke = true ∧ m.peerType = .chat)
  deleted : ∃ ks, Deleted now d ks po w ∧
    ∀ k, k ∈ ks ↔ ∃ x ∈ d.messages, x.key = k ∧ x.deleted = false ∧ d.requested owner ids revoke x

/-- The keys that one target's walk sees are those of the rows it is about. -/
theorem TargetOk.mem_pollRefs (h : TargetOk d owner revoke localID t) (hd : Inv d)
    {m : Message} (hm : m ∈ d.messages) (hf : m.frozen = t.message.frozen)
    (hmem : revoke = true → t.message.peerType = .chat →
      d.isChatMember t.message.peerID owner ∧ ∀ c ∈ t.copies,
        (c.ownerID ∈ membersOf members t.message.peerID ↔
          d.isChatMember t.message.peerID c.ownerID)) :
    k ∈ t.pollRefs owner revoke members ↔ ∃ x ∈ d.messages, x.key = k ∧
      if revoke = true then d.reaches m x = true else x.key = m.key := by
  have hown : t.message.ownerID = owner := congrArg Prod.fst h.own
  have hkept := kept hf
  have htype : m.peerType = t.message.peerType := hkept.peerType
  have hpeer : m.peerID = t.message.peerID := hkept.peerID
  have hpl : m.peerLocalID = t.message.peerLocalID := hkept.peerLocalID
  have hmo : m.ownerID = owner := (congrArg Prod.fst hkept.key).trans hown
  have hml : m.localID = t.message.localID := congrArg Prod.snd hkept.key
  have hself : (∃ x ∈ d.messages, x.key = k ∧ x.key = m.key) ↔ k = (owner, t.message.localID) := by
    have hmk : m.key = (owner, t.message.localID) := Prod.ext hmo hml
    constructor
    · rintro ⟨x, -, rfl, hx⟩
      exact hx.trans hmk
    · rintro rfl
      exact ⟨m, hm, hmk, rfl⟩
  have hreach : ∀ {keys}, Reach d m keys →
      (k ∈ keys ↔ ∃ x ∈ d.messages, x.key = k ∧ d.reaches m x) := by
    intro keys hkeys
    rw [hkeys.mem]
    exact exists_congr fun x => and_congr_right fun _ => and_comm
  unfold pollRefs
  cases revoke with
  | false =>
    simp only [Bool.false_eq_true, if_false, Bool.false_and, hself, h.alone (by simp), if_true]
    split
    · exact mem_singleton
    · exact mem_singleton
  | true =>
    simp only [if_true, Bool.true_and]
    by_cases hchat : t.message.peerType = .chat
    · have hall := h.walked rfl hchat
      obtain ⟨hin, hiff⟩ := hmem rfl hchat
      have hne : t.copies ≠ [] := by
        obtain ⟨c, hc, -⟩ := hall.own
        exact ne_nil_of_mem hc
      rw [if_pos hchat, if_neg hne]
      exact hreach (hall.reach hd hm hf hchat (by rw [hown]; exact hin) hiff)
    · rw [if_neg hchat]
      have hmchat : m.peerType ≠ .chat := htype.trans_ne hchat
      by_cases hsame : t.message.peerID = owner
      · have hr := hreach (reach_self hm hmchat (by rw [hmo, hpeer, hsame]))
        rw [hmo, hml] at hr
        simpa [hsame] using hr
      · have hr := hreach (hd.reach_pair hm hmchat (by rw [hmo, hpeer]; exact Ne.symm hsame))
        rw [hmo, hml, hpeer, hpl] at hr
        simpa [hsame] using hr

theorem wpf_deleteMessages (now owner : Int) (localIDs : List Int) (revoke : Bool) (hd : Inv d) :
    locking.wpf (deleteMessages now owner localIDs revoke) (.start Inv) d
      (fun r _ w => Ends (DeleteEffect now owner localIDs revoke) d r w) (· = .messageInvalid) := by
  unfold deleteMessages
  split
  · rename_i hnil
    refine ⟨by simp [hnil], [], .nil now d, fun k => ?_⟩
    simp [DB.requested, hnil]
  refine wpf_bind (wpf_of_wp (fails_deleteTargets owner revoke localIDs)
    (wp_deleteTargets (fun x hx => ⟨hx, by simp⟩) fun targets G hheld _ hknows htargets => ?_))
  refine wpf_bind (wpf_of_wp (.lockAll _) (wp_lockOwners (.inr (by simp [hheld])) ?_))
  set H := G.lock {l | ∃ u ∈ owner :: targets.flatMap owners, l = Lock.owner u} with hH
  have hlock : ∀ t ∈ targets, ∀ u ∈ t.owners, Lock.owner u ∈ H.held :=
    fun t ht u hu => .inr ⟨u, by simpa using .inr ⟨t, ht, hu⟩, rfl⟩
  have ho : Lock.owner owner ∈ H.held := .inr ⟨owner, by simp, rfl⟩
  have hchats : ∀ {c}, c ∈ deleteChats targets ↔
      ∃ t ∈ targets, t.message.peerType = .chat ∧ t.copies ≠ [] ∧ t.message.peerID = c := by
    simp [deleteChats, and_assoc]
  refine wpf_bind (wpf_of_wp (fails_deleteMembers owner _)
    (wp_deleteMembers (fun x hx c hc => ?_) fun members hmembers => ?_))
  · obtain ⟨t, ht, hchat, -, rfl⟩ := hchats.mp hc
    obtain ⟨hinv, hrows⟩ := hknows x hx
    exact hasChat_of_row ⟨hinv, hrows t ht⟩ hchat
  refine wpf_bind (wpf_of_wp (fails_lockPollsForDeletedMessageCopies _)
    (wp_lockPollsForDeletedMessageCopies ?_ (fun r hr => ?_) fun ls hpolls => ?_))
  · rintro l (hl | ⟨u, -, rfl⟩)
    · exact absurd hl (by simp [hheld])
    · simp [Lock.tier]
  · obtain ⟨t, ht, hr⟩ := mem_flatMap.mp hr
    rcases t.owner_of_pollRefs hr with heq | hmem
    · exact heq ▸ ho
    · exact hlock t ht _ hmem
  have hstart : Walked now d (targets.flatMap (·.pollRefs owner revoke members)) [] []
      (H.lock ls) d :=
    ⟨[], .nil now d, by simp, hpolls⟩
  refine wpf_bind (wpf_mono (wpf_deleteAll hd (.inl ho)
    (fun t ht u hu => .inl (hlock t ht u hu)) (fun t ht r hr => mem_flatMap.mpr ⟨t, ht, hr⟩) hstart)
    (fun po G' w _ hend => ?_) fun _ h => h)
  obtain ⟨⟨ks, hwalk⟩, hown⟩ := hend
  rw [nil_append] at hwalk
  -- What is known of the target and of the row for one id.
  have hrefs : ∀ id t, TargetOk d owner revoke id t → t ∈ targets → ∀ m ∈ d.messages,
      m.frozen = t.message.frozen → ∀ k, k ∈ t.pollRefs owner revoke members ↔
        ∃ x ∈ d.messages, x.key = k ∧
          if revoke = true then d.reaches m x = true else x.key = m.key := by
    intro id t htarget ht m hm hf k
    refine htarget.mem_pollRefs hd hm hf fun hrev hchat => ?_
    have hne : t.copies ≠ [] := by
      obtain ⟨c, hc, -⟩ := (htarget.walked hrev hchat).own
      exact ne_nil_of_mem hc
    have hc := hchats.mpr ⟨t, ht, hchat, hne, rfl⟩
    refine ⟨(hmembers.iff _ hc owner ho).mp (hmembers.caller _ hc), fun c hcopy => ?_⟩
    refine hmembers.iff _ hc _ (hlock t ht _ ?_)
    rw [owners, if_pos hchat]
    exact mem_map_of_mem hcopy
  refine ⟨fun id hin => ?_, ks, hwalk.deleted, fun k => ?_⟩
  · obtain ⟨t, ht, hok⟩ := htargets.target id hin
    obtain ⟨m, hm, hf⟩ := hok.row
    have hkey : m.key = (owner, id) := ((kept hf).key).trans hok.own
    refine ⟨m, hm, hkey, fun hdel => ?_⟩
    rcases hown t ht with ⟨hchat, hne⟩ | ⟨x, hx, hxk, hlive⟩
    · refine ⟨by_contra fun hrev => hne (hok.alone fun h => hrev h.1), ?_⟩
      exact (kept hf).peerType.trans hchat
    · rw [show t.message.localID = id from congrArg Prod.snd hok.own, ← hkey] at hxk
      rw [hd.row_of_key hx hm hxk, hdel] at hlive
      exact absurd hlive (by simp)
  · rw [hwalk.keys, mem_flatMap]
    constructor
    · rintro ⟨⟨t, ht, hr⟩, hlive⟩
      obtain ⟨id, hin, hok⟩ := htargets.id t ht
      obtain ⟨m, hm, hf⟩ := hok.row
      have hkey : m.key = (owner, id) := ((kept hf).key).trans hok.own
      obtain ⟨x, hx, hxk, hreq⟩ := (hrefs id t hok ht m hm hf k).mp hr
      obtain ⟨y, hy, hyk, hylive⟩ := hlive
      obtain rfl := hd.row_of_key hx hy (hxk.trans hyk.symm)
      refine ⟨x, hx, hxk, hylive, m, hm, congrArg Prod.fst hkey, ?_, hreq⟩
      rw [show m.localID = id from congrArg Prod.snd hkey]
      exact hin
    · rintro ⟨x, hx, rfl, hlive, m, hm, hmo, hml, hreq⟩
      obtain ⟨t, ht, hok⟩ := htargets.target m.localID hml
      obtain ⟨m', hm', hf⟩ := hok.row
      have hkey : m'.key = (owner, m.localID) :=
        ((kept hf).key).trans hok.own
      obtain rfl : m' = m := hd.row_of_key hm' hm (hkey.trans (by rw [key, hmo]))
      exact ⟨⟨t, ht, (hrefs _ t hok ht m' hm' hf _).mpr ⟨x, hx, rfl, hreq⟩⟩, x, hx, rfl, hlive⟩

theorem DeleteEffect.spec (h : DeleteEffect now owner ids revoke d po w) : DeleteSpec d po w := by
  obtain ⟨ks, hdel, -⟩ := h.deleted
  exact hdel.spec

end TelegramServer.Store
