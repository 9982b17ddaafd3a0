import Mathlib.Data.List.AList
import Mathlib.Data.List.Rotate

/-!
# The session registry

`mtproto/sessions.go`: the live connections of each user, kept three times over: per user
in a map, flat with a round-robin cursor for the folder recovery, and as a count.
-/

namespace TelegramServer.Sessions

open List

def maxUserConns : Nat := 20

structure SessionRegistry where
  m : AList (fun _ : Int => List Nat) := ∅
  recoveryConns : List Nat := []
  recoveryCursor : Nat := 0
  totalConns : Int := 0

namespace SessionRegistry

/-- `r.m[userID]`; also the method `Conns`, which copies it. -/
def conns (r : SessionRegistry) (userID : Int) : List Nat :=
  (r.m.lookup userID).getD []

def add (r : SessionRegistry) (userID : Int) (c : Nat) : Bool × SessionRegistry :=
  if (r.conns userID).length ≥ maxUserConns then (false, r)
  else (true, { r with
    m := r.m.insert userID (r.conns userID ++ [c])
    recoveryConns := r.recoveryConns ++ [c]
    totalConns := r.totalConns + 1 })

def removeEntry (r : SessionRegistry) (userID : Int) (c : Nat) : SessionRegistry :=
  if c ∈ r.conns userID then
    { r with m := r.m.insert userID ((r.conns userID).erase c), totalConns := r.totalConns - 1 }
  else r

def removeRecovery (r : SessionRegistry) (c : Nat) : SessionRegistry :=
  if c ∈ r.recoveryConns then
    let i := r.recoveryConns.idxOf c
    let conns := r.recoveryConns.eraseIdx i
    { r with
      recoveryConns := conns
      recoveryCursor := if conns.length = 0 then 0
        else (if i < r.recoveryCursor then r.recoveryCursor - 1
          else r.recoveryCursor) % conns.length }
  else r

/-- The end of `Remove`: an empty entry is deleted. -/
def prune (r : SessionRegistry) (userID : Int) : SessionRegistry :=
  if r.conns userID = [] then { r with m := r.m.erase userID } else r

def remove (r : SessionRegistry) (userID : Int) (c : Nat) : SessionRegistry :=
  ((r.removeEntry userID c).removeRecovery c).prune userID

def dialogFilterRecoveryCandidates (r : SessionRegistry) (limit : Nat) :
    List Nat × SessionRegistry :=
  let count := min limit r.recoveryConns.length
  if count = 0 then ([], r)
  else
    let start := r.recoveryCursor % r.recoveryConns.length
    let out := (List.range count).filterMap fun i =>
      r.recoveryConns[(start + i) % r.recoveryConns.length]?
    (out, { r with recoveryCursor := (start + count) % r.recoveryConns.length })

def registered (r : SessionRegistry) : List Nat :=
  r.m.entries.flatMap (·.2)

/-- The recovery list in the order in which the cursor will come to it. -/
def upcoming (r : SessionRegistry) : List Nat :=
  r.recoveryConns.rotate r.recoveryCursor

end SessionRegistry

structure SessionRegistry.Consistent (r : SessionRegistry) : Prop where
  total : r.totalConns = r.registered.length
  nonempty : ∀ u, r.m.lookup u ≠ some []
  cap : ∀ u, (r.conns u).length ≤ maxUserConns
  once : r.recoveryConns.Nodup
  exact : r.recoveryConns.Perm r.registered
  cursor : r.recoveryCursor < r.recoveryConns.length ∨ r.recoveryConns = [] ∧ r.recoveryCursor = 0

variable {m : AList fun _ : Int => List Nat} {u v : Int}

theorem entries_perm {l : List Nat} (h : m.lookup u = some l) :
    m.entries.Perm (⟨u, l⟩ :: (m.erase u).entries) := by
  have hmem : u ∈ m.entries.keys := mem_keys.mpr ⟨l, AList.mem_lookup_iff.mp h⟩
  obtain ⟨b, l₁, l₂, -, heq, herase⟩ := exists_of_kerase hmem
  have hb : m.lookup u = some b := AList.mem_lookup_iff.mpr (by simp [heq])
  obtain rfl : l = b := Option.some.inj (h.symm.trans hb)
  have he : (m.erase u).entries = l₁ ++ l₂ := herase
  rw [he, heq]
  exact perm_middle

theorem flatMap_erase_perm :
    (m.entries.flatMap (·.2)).Perm ((m.lookup u).getD [] ++ (m.erase u).entries.flatMap (·.2)) := by
  cases h : m.lookup u with
  | none =>
    have he : (m.erase u).entries = m.entries :=
      kerase_of_notMem_keys (AList.lookup_eq_none.mp h)
    rw [he]
    rfl
  | some l => exact (entries_perm h).flatMap_right _

theorem getD_lookup_insert (l : List Nat) :
    ((m.insert u l).lookup v).getD [] = if v = u then l else (m.lookup v).getD [] := by
  by_cases h : v = u
  · rw [h, AList.lookup_insert, if_pos rfl, Option.getD_some]
  · rw [AList.lookup_insert_ne h, if_neg h]

theorem getD_lookup_erase :
    ((m.erase u).lookup v).getD [] = if v = u then [] else (m.lookup v).getD [] := by
  by_cases h : v = u
  · rw [h, AList.lookup_erase, if_pos rfl, Option.getD_none]
  · rw [AList.lookup_erase_ne h, if_neg h]

namespace SessionRegistry

variable {r : SessionRegistry} {u v : Int} {c : Nat}

theorem registered_perm (r : SessionRegistry) (u : Int) :
    r.registered.Perm (r.conns u ++ (r.m.erase u).entries.flatMap (·.2)) :=
  flatMap_erase_perm

theorem mem_registered : c ∈ r.registered ↔ ∃ u, c ∈ r.conns u := by
  constructor
  · intro h
    obtain ⟨⟨u, l⟩, hmem, hc⟩ := mem_flatMap.mp h
    exact ⟨u, by rwa [conns, AList.mem_lookup_iff.mpr hmem]⟩
  · rintro ⟨u, h⟩
    exact (r.registered_perm u).mem_iff.mpr (mem_append_left _ h)

theorem add_eq (h : (r.conns u).length < maxUserConns) : r.add u c = (true, { r with
    m := r.m.insert u (r.conns u ++ [c])
    recoveryConns := r.recoveryConns ++ [c]
    totalConns := r.totalConns + 1 }) :=
  if_neg (Nat.not_le_of_lt h)

theorem conns_add (h : (r.conns u).length < maxUserConns) (v : Int) :
    (r.add u c).2.conns v = if v = u then r.conns u ++ [c] else r.conns v := by
  rw [add_eq h]
  exact getD_lookup_insert _

theorem registered_add (h : (r.conns u).length < maxUserConns) :
    (r.add u c).2.registered.Perm (r.registered ++ [c]) := by
  rw [add_eq h]
  calc (r.m.insert u (r.conns u ++ [c])).entries.flatMap (·.2)
      = r.conns u ++ [c] ++ (r.m.erase u).entries.flatMap (·.2) := rfl
    List.Perm _ (r.conns u ++ (r.m.erase u).entries.flatMap (·.2) ++ [c]) := by
        rw [append_assoc, append_assoc]
        exact perm_append_comm.append_left _
    List.Perm _ (r.registered ++ [c]) := (r.registered_perm u).symm.append_right _

theorem Consistent.add (h : r.Consistent) (hc : c ∉ r.registered) : (r.add u c).2.Consistent := by
  by_cases hcap : (r.conns u).length < maxUserConns
  · have hperm := registered_add (c := c) hcap
    have heq := add_eq (c := c) hcap
    have hconns : (r.add u c).2.recoveryConns = r.recoveryConns ++ [c] := by rw [heq]
    refine
      { total := ?_
        nonempty := fun v hv => ?_
        cap := fun v => ?_
        once := ?_
        exact := ?_
        cursor := ?_ }
    · rw [hperm.length_eq, heq, h.total]
      simp
    · have hlookup : (r.add u c).2.conns v = [] := by rw [conns, hv]; rfl
      rw [conns_add hcap] at hlookup
      split at hlookup
      · simp at hlookup
      · rename_i hne
        rw [heq, AList.lookup_insert_ne hne] at hv
        exact h.nonempty v hv
    · rw [conns_add hcap]
      split
      · simpa using Nat.succ_le_of_lt hcap
      · exact h.cap v
    · rw [hconns, nodup_append]
      refine ⟨h.once, by simp, ?_⟩
      rintro a ha b hb rfl
      rw [mem_singleton.mp hb, h.exact.mem_iff] at ha
      exact hc ha
    · rw [hconns]
      exact (h.exact.append_right _).trans hperm.symm
    · rw [hconns, heq]
      rcases h.cursor with hlt | ⟨hnil, hzero⟩
      · left
        simpa using Nat.lt_succ_of_lt hlt
      · left
        simp [hnil, hzero]
  · have heq : r.add u c = (false, r) := if_pos (Nat.le_of_not_lt hcap)
    rw [heq]
    exact h

/-! ## Removing -/

theorem conns_removeEntry : (r.removeEntry u c).conns v =
    if v = u then (r.conns u).erase c else r.conns v := by
  unfold removeEntry
  split
  · exact getD_lookup_insert _
  · rename_i hc
    by_cases hv : v = u
    · rw [if_pos hv, hv, erase_of_not_mem hc]
    · rw [if_neg hv]

theorem conns_removeRecovery : (r.removeRecovery c).conns v = r.conns v := by
  unfold removeRecovery
  split <;> rfl

theorem conns_prune : (r.prune u).conns v = r.conns v := by
  unfold prune
  split
  · rename_i hnil
    refine getD_lookup_erase.trans ?_
    split
    · rename_i hv
      rw [hv, hnil]
    · rfl
  · rfl

theorem conns_remove : (r.remove u c).conns v =
    if v = u then (r.conns u).erase c else r.conns v := by
  rw [remove, conns_prune, conns_removeRecovery, conns_removeEntry]

theorem recovery_prune : (r.prune u).recoveryConns = r.recoveryConns ∧
    (r.prune u).recoveryCursor = r.recoveryCursor := by
  unfold prune
  split <;> exact ⟨rfl, rfl⟩

theorem recovery_removeEntry : (r.removeEntry u c).recoveryConns = r.recoveryConns ∧
    (r.removeEntry u c).recoveryCursor = r.recoveryCursor := by
  unfold removeEntry
  split <;> exact ⟨rfl, rfl⟩

theorem recoveryConns_remove : (r.remove u c).recoveryConns = r.recoveryConns.erase c := by
  rw [remove, recovery_prune.1, removeRecovery, recovery_removeEntry.1]
  split
  · exact eraseIdx_idxOf_eq_erase c _
  · rename_i hc
    rw [recovery_removeEntry.1, erase_of_not_mem hc]

theorem registered_removeRecovery : (r.removeRecovery c).registered = r.registered := by
  unfold removeRecovery
  split <;> rfl

theorem registered_prune : (r.prune u).registered.Perm r.registered := by
  unfold prune
  split
  · rename_i hnil
    have hperm := r.registered_perm u
    rw [hnil] at hperm
    exact hperm.symm
  · rfl

theorem registered_removeEntry (hc : c ∈ r.conns u) :
    r.registered.Perm (c :: (r.removeEntry u c).registered) := by
  have heq : (r.removeEntry u c).registered =
      (r.conns u).erase c ++ (r.m.erase u).entries.flatMap (·.2) := by
    rw [removeEntry, if_pos hc]
    rfl
  rw [heq, ← cons_append]
  exact (r.registered_perm u).trans ((perm_cons_erase hc).append_right _)

theorem registered_remove (hc : c ∈ r.conns u) :
    r.registered.Perm (c :: (r.remove u c).registered) := by
  refine (registered_removeEntry hc).trans (List.Perm.cons c ?_)
  rw [← registered_removeRecovery (c := c)]
  exact registered_prune.symm

theorem registered_remove_of_not_mem (hc : c ∉ r.conns u) :
    (r.remove u c).registered.Perm r.registered := by
  refine registered_prune.trans ?_
  rw [registered_removeRecovery, removeEntry, if_neg hc]

theorem totalConns_remove : (r.remove u c).totalConns =
    if c ∈ r.conns u then r.totalConns - 1 else r.totalConns := by
  have hprune : ∀ r' : SessionRegistry, (r'.prune u).totalConns = r'.totalConns := fun r' => by
    unfold prune
    split <;> rfl
  have hrec : ∀ r' : SessionRegistry, (r'.removeRecovery c).totalConns = r'.totalConns :=
    fun r' => by
    unfold removeRecovery
    split <;> rfl
  rw [remove, hprune, hrec, removeEntry]
  split <;> rfl

theorem lookup_removeEntry_of_ne (hv : v ≠ u) : (r.removeEntry u c).m.lookup v = r.m.lookup v := by
  unfold removeEntry
  split
  · exact AList.lookup_insert_ne hv
  · rfl

theorem lookup_remove_ne_nil (h : ∀ v, r.m.lookup v ≠ some []) (v : Int) :
    (r.remove u c).m.lookup v ≠ some [] := by
  have hm : ((r.removeEntry u c).removeRecovery c).m = (r.removeEntry u c).m := by
    unfold removeRecovery
    split <;> rfl
  rw [remove, prune]
  by_cases hv : v = u
  · subst hv
    split
    · simp [AList.lookup_erase]
    · rename_i hne
      intro hnil
      exact hne (by rw [conns, hnil]; rfl)
  · have hother := lookup_removeEntry_of_ne (r := r) (c := c) hv
    split
    · rw [AList.lookup_erase_ne hv, hm, hother]
      exact h v
    · rw [hm, hother]
      exact h v

theorem recovery_remove (hc : c ∈ r.recoveryConns) : (r.remove u c).recoveryCursor =
    if (r.recoveryConns.erase c).length = 0 then 0
    else (if r.recoveryConns.idxOf c < r.recoveryCursor then r.recoveryCursor - 1
      else r.recoveryCursor) % (r.recoveryConns.erase c).length := by
  rw [remove, recovery_prune.2, removeRecovery, recovery_removeEntry.1, recovery_removeEntry.2,
    if_pos hc]
  simp only [eraseIdx_idxOf_eq_erase]

theorem recoveryCursor_remove_of_not_mem (hc : c ∉ r.recoveryConns) :
    (r.remove u c).recoveryCursor = r.recoveryCursor := by
  rw [remove, recovery_prune.2, removeRecovery, recovery_removeEntry.1, if_neg hc,
    recovery_removeEntry.2]

theorem cursor_remove (h : r.recoveryCursor < r.recoveryConns.length ∨
    r.recoveryConns = [] ∧ r.recoveryCursor = 0) :
    (r.remove u c).recoveryCursor < (r.remove u c).recoveryConns.length ∨
      (r.remove u c).recoveryConns = [] ∧ (r.remove u c).recoveryCursor = 0 := by
  rw [recoveryConns_remove]
  by_cases hc : c ∈ r.recoveryConns
  · rw [recovery_remove hc]
    by_cases hlen : (r.recoveryConns.erase c).length = 0
    · exact .inr ⟨length_eq_zero_iff.mp hlen, if_pos hlen⟩
    · left
      rw [if_neg hlen]
      exact Nat.mod_lt _ (Nat.pos_of_ne_zero hlen)
  · rwa [recoveryCursor_remove_of_not_mem hc, erase_of_not_mem hc]

/-- Where the caller's user has the connection, or nobody does, all three representations follow. -/
theorem Consistent.remove (h : r.Consistent) (hc : c ∈ r.conns u ∨ c ∉ r.registered) :
    (r.remove u c).Consistent where
  total := by
    rw [totalConns_remove]
    by_cases hin : c ∈ r.conns u
    · have hlen := (registered_remove hin).length_eq
      rw [if_pos hin, h.total, hlen]
      simp
    · rw [if_neg hin, h.total, (registered_remove_of_not_mem hin).length_eq]
  nonempty := lookup_remove_ne_nil h.nonempty
  cap v := by
    rw [conns_remove]
    split
    · exact Nat.le_trans length_erase_le (h.cap u)
    · exact h.cap v
  once := by
    rw [recoveryConns_remove]
    exact h.once.erase c
  exact := by
    rw [recoveryConns_remove]
    by_cases hin : c ∈ r.conns u
    · have hperm := (h.exact.trans (registered_remove hin)).erase c
      rwa [erase_cons_head] at hperm
    · have hout : c ∉ r.recoveryConns := fun hmem =>
        (hc.resolve_left hin) (h.exact.mem_iff.mp hmem)
      rw [erase_of_not_mem hout]
      exact h.exact.trans (registered_remove_of_not_mem hin).symm
  cursor := cursor_remove h.cursor

/-- A removal in the name of a user who does not have the connection while another one does
takes it out of the recovery list alone. -/
theorem Consistent.not_remove (h : r.Consistent) (hin : c ∉ r.conns u) (hreg : c ∈ r.registered) :
    ¬(r.remove u c).Consistent := fun h' => by
  have hgone : c ∉ (r.remove u c).recoveryConns := by
    rw [recoveryConns_remove]
    exact h.once.not_mem_erase
  exact hgone (h'.exact.mem_iff.mpr ((registered_remove_of_not_mem hin).mem_iff.mpr hreg))

theorem filterMap_range_getElem? {l : List Nat} (s : Nat) {count : Nat} (h : count ≤ l.length) :
    (List.range count).filterMap (fun i => l[(s + i) % l.length]?) = (l.rotate s).take count := by
  induction count with
  | zero => rfl
  | succ count ih =>
    rw [range_succ, filterMap_append, ih (Nat.le_of_succ_le h), take_add_one,
      getElem?_rotate (Nat.lt_of_succ_le h), Nat.add_comm count s]
    cases hx : l[(s + count) % l.length]? <;> simp [hx]

theorem candidates_eq (r : SessionRegistry) (limit : Nat) :
    (r.dialogFilterRecoveryCandidates limit).1 = r.upcoming.take limit ∧
      (r.dialogFilterRecoveryCandidates limit).2.upcoming =
        r.upcoming.rotate (min limit r.recoveryConns.length) := by
  have hlen : r.upcoming.length = r.recoveryConns.length := length_rotate ..
  simp only [dialogFilterRecoveryCandidates]
  split
  · rename_i hzero
    rw [hzero, rotate_zero]
    refine ⟨(take_eq_nil_iff.mpr ?_).symm, rfl⟩
    rw [← length_eq_zero_iff, hlen]
    omega
  · rw [filterMap_range_getElem? _ (Nat.min_le_right ..), rotate_mod]
    constructor
    · change r.upcoming.take _ = _
      rw [← hlen, ← take_take, take_length]
    · simp only [upcoming]
      rw [rotate_mod, rotate_rotate, ← rotate_mod _ (_ % _ + _), Nat.mod_add_mod, rotate_mod]

theorem Consistent.candidates (h : r.Consistent) (limit : Nat) :
    (r.dialogFilterRecoveryCandidates limit).2.Consistent := by
  simp only [dialogFilterRecoveryCandidates]
  split
  · exact h
  · rename_i hne
    exact { h with cursor := .inl (Nat.mod_lt _ (by omega)) }

/-- The round goes on as it would have, without the connection that left it: behind the cursor. -/
theorem rotate_erase_of_lt {A B : List Nat} {k : Nat} (hA : c ∉ A) (hB : c ∉ B) (hk : A.length < k)
    (hlen : k ≤ A.length + 1 + B.length) :
    (A ++ B).rotate (k - 1) = ((A ++ c :: B).rotate k).erase c := by
  obtain ⟨j, rfl⟩ : ∃ j, k = A.length + (j + 1) := ⟨k - A.length - 1, by omega⟩
  have hdrop : (A ++ c :: B).drop (A.length + (j + 1)) = B.drop j := by
    rw [drop_length_add_append]
    rfl
  have htake : (A ++ c :: B).take (A.length + (j + 1)) = A ++ c :: B.take j := by
    rw [take_length_add_append]
    rfl
  have hout : c ∉ B.drop j := fun hin => hB (mem_of_mem_drop hin)
  rw [rotate_eq_drop_append_take (l := A ++ c :: B) (by simp; omega), hdrop, htake,
    erase_append_right _ hout, erase_append_right _ hA, erase_cons_head,
    rotate_eq_drop_append_take (by simp; omega)]
  rw [show A.length + (j + 1) - 1 = A.length + j by omega, drop_length_add_append,
    take_length_add_append]

theorem rotate_erase_of_le {A B : List Nat} {k : Nat} (hA : c ∉ A) (hk : k ≤ A.length) :
    (A ++ B).rotate k = ((A ++ c :: B).rotate k).erase c := by
  have hout : c ∉ A.drop k := fun hin => hA (mem_of_mem_drop hin)
  rw [rotate_eq_drop_append_take (by simp; omega),
    rotate_eq_drop_append_take (by simp; omega), drop_append_of_le_length hk,
    take_append_of_le_length hk, drop_append_of_le_length hk,
    take_append_of_le_length hk, append_assoc, append_assoc,
    erase_append_right _ hout, cons_append, erase_cons_head]

theorem upcoming_remove (h : r.Consistent) : (r.remove u c).upcoming = r.upcoming.erase c := by
  rw [upcoming, upcoming, recoveryConns_remove]
  by_cases hc : c ∈ r.recoveryConns
  · have hlt : r.recoveryCursor < r.recoveryConns.length :=
      h.cursor.resolve_right fun hnil => by simp [hnil.1] at hc
    obtain ⟨A, B, heq⟩ := append_of_mem hc
    have hnodup := h.once
    rw [heq, nodup_middle, nodup_cons, mem_append, not_or] at hnodup
    obtain ⟨⟨hA, hB⟩, -⟩ := hnodup
    have herase : r.recoveryConns.erase c = A ++ B := by
      rw [heq, erase_append_right _ hA, erase_cons_head]
    have hidx : r.recoveryConns.idxOf c = A.length := by
      rw [heq, idxOf_append_of_notMem hA]
      simp
    have hcount : r.recoveryConns.length = A.length + 1 + B.length := by
      rw [heq]
      simp
      omega
    rw [recovery_remove hc, herase, hidx]
    by_cases hnil : (A ++ B).length = 0
    · have hAB : A = [] ∧ B = [] := by simpa using hnil
      simp [hAB.1, hAB.2, heq]
    · rw [if_neg hnil, rotate_mod, heq]
      split
      · exact rotate_erase_of_lt hA hB ‹_› (by omega)
      · exact rotate_erase_of_le hA (by omega)
  · rw [recoveryCursor_remove_of_not_mem hc, erase_of_not_mem hc, erase_of_not_mem]
    simpa using hc

end SessionRegistry

end TelegramServer.Sessions
