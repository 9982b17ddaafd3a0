import Mathlib.Data.List.AList
import TelegramServer.Srp.Protocol

/-!
# Outstanding challenges

A challenge is used once, for a limited time and by the auth key that it was issued to. One key
has one challenge per user: the entries by id, and the ids by key and user, are two maps that are
changed together, except where an id cannot be drawn.
-/

namespace TelegramServer.Srp

open List

/-- The two halves of a challenge, and the user it was issued for. -/
structure Pending where
  bSecret : Bytes
  bPublic : Bytes
  userID : Int

structure Entry where
  pending : Pending
  expiresAt : Int
  authKeyID : Int

structure ChallengeStore where
  entries : AList fun _ : Int => Entry := ∅
  byUser : AList fun _ : Int => AList fun _ : Int => Int := ∅

namespace ChallengeStore

variable (s : ChallengeStore)

def ref (authKeyID userID : Int) : Option Int :=
  (s.byUser.lookup authKeyID).bind fun keyMap => keyMap.lookup userID

/-- Drop the back reference, unless a newer challenge has replaced it; an absent one reads as 0. -/
def forgetUser (authKeyID userID srpID : Int) : ChallengeStore :=
  match s.byUser.lookup authKeyID with
  | none => s
  | some keyMap =>
    if (keyMap.lookup userID).getD 0 = srpID then
      { s with
        byUser := if (keyMap.erase userID).entries = [] then s.byUser.erase authKeyID
          else s.byUser.insert authKeyID (keyMap.erase userID) }
    else s

def delete (srpID : Int) : ChallengeStore :=
  { s with entries := s.entries.erase srpID }

def drop (srpID : Int) (e : Entry) : ChallengeStore :=
  (s.delete srpID).forgetUser e.authKeyID e.pending.userID srpID

def sweepOne (now : Int) (s : ChallengeStore) (x : Sigma fun _ : Int => Entry) : ChallengeStore :=
  if x.2.expiresAt < now then s.drop x.1 x.2 else s

def sweep (now : Int) : ChallengeStore :=
  s.entries.entries.foldl (sweepOne now) s

/-- Evict the prior challenge of the pair; the reference to it stays. -/
def evict (authKeyID userID : Int) : ChallengeStore :=
  match s.ref authKeyID userID with
  | some prev => s.delete prev
  | none => s

/-- The first drawn id that is not zero and not in use, unless a draw fails before. -/
def freeIDAux : List (Option Int) → Option Int
  | [] => none
  | none :: _ => none
  | some id :: draws => if id ≠ 0 ∧ s.entries.lookup id = none then some id else freeIDAux draws

def freeID (draws : List (Option Int)) : Option Int :=
  s.freeIDAux (draws.take 100)

def insert (id : Int) (e : Entry) : ChallengeStore where
  entries := s.entries.insert id e
  byUser := s.byUser.insert e.authKeyID
    (((s.byUser.lookup e.authKeyID).getD ∅).insert e.pending.userID id)

def ready (sweepNow authKeyID userID : Int) : ChallengeStore :=
  (s.sweep sweepNow).evict authKeyID userID

/-- A challenge `x` for the key; the clock is read for the sweep and again for the expiry. -/
def issue (ttl sweepNow now : Int) (draws : List (Option Int)) (authKeyID : Int) (x : Pending) :
    Option Int × ChallengeStore :=
  let s := s.ready sweepNow authKeyID x.userID
  match s.freeID draws with
  | none => (none, s)
  | some id => (some id, s.insert id ⟨x, now + ttl, authKeyID⟩)

def consume (now srpID authKeyID : Int) : Option Pending × ChallengeStore :=
  match s.entries.lookup srpID with
  | none => (none, s)
  | some e =>
    if e.authKeyID ≠ authKeyID then (none, s)
    else if e.expiresAt < now then (none, s.drop srpID e)
    else (some e.pending, s.drop srpID e)

end ChallengeStore

inductive Op where
  | issue (sweepNow now : Int) (draws : List (Option Int)) (authKeyID : Int) (x : Pending)
  | consume (now srpID authKeyID : Int)

inductive Event where
  | issued (id authKeyID userID expiresAt : Int)
  | returned (id authKeyID userID now : Int)
  deriving DecidableEq

def Event.id : Event → Int
  | .issued id _ _ _ => id
  | .returned id _ _ _ => id

structure State where
  store : ChallengeStore := {}
  given : List Event := []

def step (ttl : Int) (s : State) : Op → State
  | .issue sweepNow now draws authKeyID x =>
    let r := s.store.issue ttl sweepNow now draws authKeyID x
    ⟨r.2, s.given ++ r.1.toList.map fun id => .issued id authKeyID x.userID (now + ttl)⟩
  | .consume now srpID authKeyID =>
    let r := s.store.consume now srpID authKeyID
    ⟨r.2, s.given ++ r.1.toList.map fun x => .returned srpID authKeyID x.userID now⟩

/-- An issue without a free id leaves no prior challenge of its pair behind. -/
def Clean (s : ChallengeStore) : Op → Prop
  | .issue sweepNow _ draws authKeyID x =>
      (s.ready sweepNow authKeyID x.userID).freeID draws = none →
      (s.sweep sweepNow).ref authKeyID x.userID = none
  | .consume _ _ _ => True

/-- The states of the runs; `clean` when every step is. -/
inductive Reaches (ttl : Int) : (clean : Prop) → State → Prop where
  | start : Reaches ttl True {}
  | step {clean : Prop} {s : State} (h : Reaches ttl clean s) (op : Op) :
      Reaches ttl (clean ∧ Clean s.store op) (step ttl s op)

/-! ## The two maps -/

namespace ChallengeStore

variable {s : ChallengeStore} {k k' u u' id : Int} {e : Entry}

structure Ok (s : ChallengeStore) : Prop where
  nonzero : s.entries.lookup 0 = none
  live : ∀ id e, s.entries.lookup id = some e → s.ref e.authKeyID e.pending.userID = some id
  nonempty : ∀ k keyMap, s.byUser.lookup k = some keyMap → keyMap.entries ≠ []

def Recorded (s : ChallengeStore) : Prop :=
  ∀ k u id, s.ref k u = some id →
    ∃ e, s.entries.lookup id = some e ∧ e.authKeyID = k ∧ e.pending.userID = u

theorem lookup_delete (id i : Int) :
    (s.delete id).entries.lookup i = if i = id then none else s.entries.lookup i := by
  split
  · subst i
    exact AList.lookup_erase _ _
  · exact AList.lookup_erase_ne ‹_›

theorem lookup_insert (e : Entry) (i : Int) :
    (s.insert id e).entries.lookup i = if i = id then some e else s.entries.lookup i := by
  split
  · subst i
    exact AList.lookup_insert _
  · exact AList.lookup_insert_ne ‹_›

theorem entries_forgetUser (k u id : Int) : (s.forgetUser k u id).entries = s.entries := by
  unfold forgetUser
  split
  · rfl
  · split <;> rfl

theorem lookup_eq_none_of_entries {m : AList fun _ : Int => Int} (h : m.entries = []) (u : Int) :
    m.lookup u = none := by
  rw [AList.lookup, h, dlookup_nil]

theorem ref_forgetUser (hk : s.ref k u = some id) (k' u' : Int) :
    (s.forgetUser k u id).ref k' u' = if k' = k ∧ u' = u then none else s.ref k' u' := by
  obtain ⟨keyMap, hmap, hu⟩ := Option.bind_eq_some_iff.mp hk
  simp only [forgetUser, ref, hmap, hu, Option.getD_some, if_true]
  by_cases hkk : k' = k
  · subst k'
    by_cases huu : u' = u
    · subst u'
      split <;> simp
    · have hne : (keyMap.erase u).lookup u' = keyMap.lookup u' := AList.lookup_erase_ne huu
      split
      · rename_i hnil
        rw [AList.lookup_erase, if_neg (by simp [huu]), hmap, Option.bind_some, ← hne,
          lookup_eq_none_of_entries hnil, Option.bind_none]
      · rw [AList.lookup_insert, if_neg (by simp [huu]), hmap, Option.bind_some,
          Option.bind_some, hne]
  · have hno : ¬ (k' = k ∧ u' = u) := fun h => hkk h.1
    rw [if_neg hno]
    split
    · rw [AList.lookup_erase_ne hkk]
    · rw [AList.lookup_insert_ne hkk]

theorem nonempty_forgetUser (h : ∀ k keyMap, s.byUser.lookup k = some keyMap → keyMap.entries ≠ [])
    (k u id k' : Int) (keyMap : AList fun _ : Int => Int)
    (hk : (s.forgetUser k u id).byUser.lookup k' = some keyMap) : keyMap.entries ≠ [] := by
  unfold forgetUser at hk
  split at hk
  · exact h k' keyMap hk
  split at hk
  · by_cases hkk : k' = k
    · subst k'
      dsimp only at hk
      split at hk
      · rw [AList.lookup_erase] at hk
        cases hk
      · rw [AList.lookup_insert, Option.some.injEq] at hk
        subst hk
        assumption
    · dsimp only at hk
      split at hk
      · exact h k' keyMap (by rwa [AList.lookup_erase_ne hkk] at hk)
      · exact h k' keyMap (by rwa [AList.lookup_insert_ne hkk] at hk)
  · exact h k' keyMap hk

theorem ref_insert (e : Entry) (k' u' : Int) : (s.insert id e).ref k' u' =
    if k' = e.authKeyID ∧ u' = e.pending.userID then some id else s.ref k' u' := by
  simp only [insert, ref]
  by_cases hk : k' = e.authKeyID
  · subst k'
    rw [AList.lookup_insert, Option.bind_some]
    by_cases hu : u' = e.pending.userID
    · subst u'
      simp
    · rw [AList.lookup_insert_ne hu, if_neg (by simp [hu])]
      cases s.byUser.lookup e.authKeyID <;> rfl
  · rw [AList.lookup_insert_ne hk, if_neg (by simp [hk])]

theorem Ok.drop (h : s.Ok) (he : s.entries.lookup id = some e) :
    (s.drop id e).Ok ∧ (s.Recorded → (s.drop id e).Recorded) ∧
      ∀ i, (s.drop id e).entries.lookup i = if i = id then none else s.entries.lookup i := by
  have hentries : ∀ i, (s.drop id e).entries.lookup i = if i = id
      then none else s.entries.lookup i :=
    fun i => by rw [ChallengeStore.drop, entries_forgetUser, lookup_delete]
  have href : ∀ k u, (s.drop id e).ref k u = if k = e.authKeyID ∧ u = e.pending.userID then none
      else s.ref k u := ref_forgetUser (s := s.delete id) (h.live id e he)
  refine ⟨⟨?_, fun i e' hi => ?_, fun k keyMap hk => ?_⟩, fun hrec k u i hi => ?_, hentries⟩
  · rw [hentries, h.nonzero, ite_self]
  · rw [hentries] at hi
    split at hi
    · cases hi
    rw [href, h.live i e' hi, if_neg]
    rintro ⟨hk, hu⟩
    have := h.live i e' hi
    rw [hk, hu, h.live id e he, Option.some.injEq] at this
    exact absurd this.symm ‹_›
  · exact nonempty_forgetUser (s := s.delete id) h.nonempty _ _ _ k keyMap hk
  · rw [href] at hi
    split at hi
    · cases hi
    rename_i hpair
    obtain ⟨e', he', rfl, rfl⟩ := hrec k u i hi
    refine ⟨e', ?_, rfl, rfl⟩
    rw [hentries, if_neg, he']
    rintro rfl
    rw [he, Option.some.injEq] at he'
    subst he'
    exact hpair ⟨rfl, rfl⟩

theorem Ok.sweep (h : s.Ok) (now : Int) : (s.sweep now).Ok ∧ (s.Recorded → (s.sweep now).Recorded) ∧
      ∀ i e, (s.sweep now).entries.lookup i = some e → s.entries.lookup i = some e := by
  -- What is still to be visited is in the store as it was when the sweep began.
  have hfold : ∀ (xs : List (Sigma fun _ : Int => Entry))
      (t : ChallengeStore), xs.NodupKeys → t.Ok → (∀ x ∈ xs, t.entries.lookup x.1 = some x.2) →
      (xs.foldl (sweepOne now) t).Ok ∧ (t.Recorded → (xs.foldl (sweepOne now) t).Recorded) ∧
        ∀ i e, (xs.foldl (sweepOne now) t).entries.lookup i = some e →
          t.entries.lookup i = some e := by
    intro xs
    induction xs with
    | nil => exact fun t _ ht _ => ⟨ht, id, fun _ _ hi => hi⟩
    | cons x xs ih =>
      intro t hnodup ht hxs
      obtain ⟨hx, hnodup⟩ := nodupKeys_cons.mp hnodup
      rw [foldl_cons, sweepOne]
      split
      · obtain ⟨hok, hrec, hlook⟩ := ht.drop (hxs x (by simp))
        have hrest : ∀ y ∈ xs, (t.drop x.1 x.2).entries.lookup y.1 = some y.2 := fun y hy => by
          rw [hlook, if_neg, hxs y (by simp [hy])]
          exact fun heq => hx (heq ▸ mem_keys_of_mem hy)
        obtain ⟨hok', hrec', hlook'⟩ := ih _ hnodup hok hrest
        refine ⟨hok', hrec' ∘ hrec, fun i e hi => ?_⟩
        have := hlook' i e hi
        rw [hlook] at this
        split at this
        · cases this
        · exact this
      · exact ih t hnodup ht fun y hy => hxs y (by simp [hy])
  exact hfold _ s s.entries.nodupKeys h fun x hx => AList.mem_lookup_iff.mpr hx

theorem Ok.ready (h : s.Ok) (now k u : Int) :
    (s.ready now k u).Ok ∧ (∀ i e, (s.ready now k u).entries.lookup i = some e →
      s.entries.lookup i = some e ∧ ¬ (e.authKeyID = k ∧ e.pending.userID = u)) ∧
    (s.Recorded → ∀ k' u' i, ¬ (k' = k ∧ u' = u) ∨ (s.sweep now).ref k u = none →
      (s.ready now k u).ref k' u' = some i →
      ∃ e, (s.ready now k u).entries.lookup i = some e ∧ e.authKeyID = k' ∧
        e.pending.userID = u') := by
  obtain ⟨hok, hrec, hlook⟩ := h.sweep now
  unfold ChallengeStore.ready evict
  split
  · rename_i prev hprev
    refine ⟨⟨?_, fun i e hi => ?_, hok.nonempty⟩, fun i e hi => ?_, fun hs k' u' i hpair hi => ?_⟩
    · rw [lookup_delete, hok.nonzero, ite_self]
    · rw [lookup_delete] at hi
      split at hi
      · cases hi
      · exact hok.live i e hi
    · rw [lookup_delete] at hi
      split at hi
      · cases hi
      refine ⟨hlook i e hi, ?_⟩
      rintro ⟨rfl, rfl⟩
      rw [hok.live i e hi, Option.some.injEq] at hprev
      exact absurd hprev ‹_›
    · obtain ⟨e, he, hk, hu⟩ := hrec hs k' u' i hi
      refine ⟨e, ?_, hk, hu⟩
      rw [lookup_delete, if_neg, he]
      rintro rfl
      obtain ⟨e', he', hk', hu'⟩ := hrec hs k u i hprev
      rw [he, Option.some.injEq] at he'
      subst he'
      exact hpair.elim (· ⟨hk.symm.trans hk', hu.symm.trans hu'⟩) fun hno => by
        rw [hno] at hprev; cases hprev
  · rename_i hnone
    refine ⟨hok, fun i e hi => ⟨hlook i e hi, ?_⟩, fun hs k' u' i _ hi => hrec hs k' u' i hi⟩
    rintro ⟨rfl, rfl⟩
    rw [hok.live i e hi] at hnone
    cases hnone

theorem freeID_eq_some {draws : List (Option Int)} (h : s.freeID draws = some id) :
    id ≠ 0 ∧ s.entries.lookup id = none := by
  unfold freeID at h
  generalize draws.take 100 = ds at h
  fun_induction freeIDAux s ds with
  | case1 | case2 => cases h
  | case3 id' draws hfree => exact Option.some.inj h ▸ hfree
  | case4 id' draws hno ih => exact ih h

theorem Ok.insert (h : s.Ok) (hid : id ≠ 0) (hfree : s.entries.lookup id = none)
    (hpair : ∀ i e', s.entries.lookup i = some e' →
      ¬ (e'.authKeyID = e.authKeyID ∧ e'.pending.userID = e.pending.userID)) :
    (s.insert id e).Ok ∧
    ((∀ k u i, ¬ (k = e.authKeyID ∧ u = e.pending.userID) → s.ref k u = some i →
        ∃ e', s.entries.lookup i = some e' ∧ e'.authKeyID = k ∧ e'.pending.userID = u) →
      (s.insert id e).Recorded) := by
  refine ⟨⟨?_, fun i e' hi => ?_, fun k keyMap hk => ?_⟩, fun hrec k u i hi => ?_⟩
  · rw [lookup_insert, if_neg hid.symm, h.nonzero]
  · rw [lookup_insert] at hi
    rw [ref_insert]
    split at hi
    · cases hi
      rw [if_pos ⟨rfl, rfl⟩]
      subst i
      rfl
    · rw [if_neg (hpair i e' hi), h.live i e' hi]
  · by_cases hk' : k = e.authKeyID
    · subst hk'
      rw [ChallengeStore.insert, AList.lookup_insert, Option.some.injEq] at hk
      rw [← hk, AList.entries_insert]
      exact cons_ne_nil _ _
    · rw [ChallengeStore.insert, AList.lookup_insert_ne hk'] at hk
      exact h.nonempty k keyMap hk
  · rw [ref_insert] at hi
    split at hi
    · rename_i heq
      cases hi
      exact ⟨e, by rw [lookup_insert, if_pos rfl], heq.1.symm, heq.2.symm⟩
    · rename_i hne
      obtain ⟨e', he', hk⟩ := hrec k u i hne hi
      refine ⟨e', ?_, hk⟩
      rw [lookup_insert, if_neg, he']
      rintro rfl
      rw [hfree] at he'
      cases he'

end ChallengeStore

/-! ## What callers are given -/

variable {given : List Event} {id k u exp : Int} {xs : List Event}

def Current (given : List Event) (id k u exp : Int) : Prop :=
  ∃ a b, given = a ++ .issued id k u exp :: b ∧ ∀ x ∈ b, x.id ≠ id ∧ ∀ i t, x ≠ .issued i k u t

theorem Current.append (h : Current given id k u exp)
    (hxs : ∀ x ∈ xs, x.id ≠ id ∧ ∀ i t, x ≠ .issued i k u t) :
    Current (given ++ xs) id k u exp := by
  obtain ⟨a, b, rfl, hb⟩ := h
  refine ⟨a, b ++ xs, by rw [append_assoc, cons_append], fun x hx => ?_⟩
  exact (mem_append.mp hx).elim (hb x) (hxs x)

theorem current_issued : Current (given ++ [Event.issued id k u exp]) id k u exp :=
  ⟨given, [], rfl, by simp⟩

/-- A challenge is returned to the key it was issued to, in time, before any other return of it and
any other challenge of the pair. -/
def ReturnsRight (given : List Event) : Prop :=
  ∀ pre id k u now, pre ++ [Event.returned id k u now] <+: given → ∃ exp, now ≤ exp ∧
    Current pre id k u exp

theorem ReturnsRight.append (h : ReturnsRight given) (hxs : xs.length ≤ 1)
    (hnew : ∀ id k u now, xs = [.returned id k u now] → ∃ exp, now ≤ exp ∧
      Current given id k u exp) :
    ReturnsRight (given ++ xs) := by
  intro pre id k u now hpre
  match xs, hxs with
  | [], _ => exact h pre id k u now (by simpa using hpre)
  | [x], _ =>
    rcases prefix_concat_iff.mp hpre with heq | hpre
    · obtain ⟨rfl, hx⟩ := append_inj' heq rfl
      exact hnew id k u now hx.symm
    · exact h pre id k u now hpre

structure StateOk (s : State) : Prop where
  store : s.store.Ok
  current : ∀ id e, s.store.entries.lookup id = some e →
    Current s.given id e.authKeyID e.pending.userID e.expiresAt
  returns : ReturnsRight s.given

theorem StateOk.step {ttl : Int} {s : State} (h : StateOk s) (op : Op) :
    StateOk (step ttl s op) ∧ (s.store.Recorded → Clean s.store op →
      (step ttl s op).store.Recorded) := by
  cases op with
  | issue sweepNow now draws k x =>
    obtain ⟨hok, hlook, hrec⟩ := h.store.ready sweepNow k x.userID
    unfold Srp.step ChallengeStore.issue
    dsimp only
    split
    · rename_i hnone
      rw [Option.toList_none, map_nil, append_nil]
      refine ⟨⟨hok, fun i e hi => h.current i e (hlook i e hi).1, h.returns⟩,
        fun hs hclean k' u' i => ?_⟩
      exact hrec hs k' u' i (.inr (hclean hnone))
    · rename_i id hid
      obtain ⟨h0, hfree⟩ := ChallengeStore.freeID_eq_some hid
      obtain ⟨hok', hrec'⟩ := hok.insert (e := ⟨x, now + ttl, k⟩) h0 hfree fun i e hi =>
        (hlook i e hi).2
      rw [Option.toList_some, map_singleton]
      refine ⟨⟨hok', fun i e hi => ?_, ?_⟩,
        fun hs _ => hrec' fun k' u' i hne => hrec hs k' u' i (.inl hne)⟩
      · rw [ChallengeStore.lookup_insert] at hi
        split at hi
        · cases hi
          subst i
          exact current_issued
        · rename_i hne
          refine (h.current i e (hlook i e hi).1).append fun y hy => ?_
          rw [mem_singleton.mp hy]
          refine ⟨Ne.symm hne, fun i' t heq => ?_⟩
          obtain ⟨-, hk, hu, -⟩ := Event.issued.inj heq
          exact (hlook i e hi).2 ⟨hk.symm, hu.symm⟩
      · exact h.returns.append (by simp) fun _ _ _ _ heq => by cases heq
  | consume now id k =>
    unfold Srp.step ChallengeStore.consume
    dsimp only
    split
    · exact ⟨⟨h.store, by simpa using h.current, by simpa using h.returns⟩, fun hs _ => hs⟩
    rename_i e he
    obtain ⟨hok, hrec, hlook⟩ := h.store.drop he
    have hlive : ∀ i e', (s.store.drop id e).entries.lookup i = some e' →
        i ≠ id ∧ s.store.entries.lookup i = some e' := fun i e' hi => by
      rw [hlook] at hi
      split at hi
      · cases hi
      · exact ⟨‹_›, hi⟩
    split
    · exact ⟨⟨h.store, by simpa using h.current, by simpa using h.returns⟩, fun hs _ => hs⟩
    rename_i hkey
    split
    · rw [Option.toList_none, map_nil, append_nil]
      exact ⟨⟨hok, fun i e' hi => h.current i e' (hlive i e' hi).2, h.returns⟩, fun hs _ => hrec hs⟩
    · rename_i hexp
      rw [Option.toList_some, map_singleton]
      refine ⟨⟨hok, fun i e' hi => ?_, ?_⟩, fun hs _ => hrec hs⟩
      · refine (h.current i e' (hlive i e' hi).2).append fun y hy => ?_
        rw [mem_singleton.mp hy]
        exact ⟨(hlive i e' hi).1.symm, fun _ _ heq => by cases heq⟩
      · refine h.returns.append (by simp) fun id' k' u now' heq => ?_
        obtain ⟨rfl, rfl, rfl, rfl⟩ := Event.returned.inj (singleton_inj.mp heq)
        exact ⟨e.expiresAt, by omega, not_not.mp hkey ▸ h.current id e he⟩

theorem Reaches.ok {ttl : Int} {clean : Prop} {s : State} (h : Reaches ttl clean s) :
    StateOk s ∧ (clean → s.store.Recorded) := by
  induction h with
  | start =>
    have hnone : ∀ (id : Int) (e : Entry), ({} : ChallengeStore).entries.lookup id ≠ some e := by
      simp
    refine ⟨⟨⟨rfl, fun id e he => absurd he (hnone id e), by simp⟩,
      fun id e he => absurd he (hnone id e), fun pre id k u now hpre => absurd (prefix_nil.mp hpre)
        (by simp)⟩, fun _ k u id hid => ?_⟩
    simp [ChallengeStore.ref] at hid
  | step h op ih =>
    obtain ⟨hok, hrec⟩ := ih.1.step op
    exact ⟨hok, fun hclean => hrec (ih.2 hclean.1) hclean.2⟩

/-- In every state of every run whose issues without a free id leave no prior challenge behind, the
two maps are inverse to each other, a key and a user have at most one challenge, no key has an empty
map, and challenges were returned as they should. -/
theorem challengeStore_consistent {ttl : Int} {clean : Prop} {s : State} (h : Reaches ttl clean s)
    (hclean : clean) :
    (∀ k u id, s.store.ref k u = some id ↔
      ∃ e, s.store.entries.lookup id = some e ∧ e.authKeyID = k ∧ e.pending.userID = u) ∧
    (∀ id id' e e', s.store.entries.lookup id = some e → s.store.entries.lookup id' = some e' →
      e.authKeyID = e'.authKeyID → e.pending.userID = e'.pending.userID → id = id') ∧
    (∀ k keyMap, s.store.byUser.lookup k = some keyMap → keyMap.entries ≠ []) ∧
    ReturnsRight s.given := by
  obtain ⟨hok, hrec⟩ := h.ok
  refine ⟨fun k u id => ⟨hrec hclean k u id, ?_⟩, fun id id' e e' he he' hk hu => ?_,
    hok.store.nonempty, hok.returns⟩
  · rintro ⟨e, he, rfl, rfl⟩
    exact hok.store.live id e he
  · have hid := hok.store.live id e he
    rw [hk, hu, hok.store.live id' e' he', Option.some.injEq] at hid
    exact hid.symm

/-- Two challenges for one user; the second is returned. -/
theorem challengeStore_consistent_two : ∃ clean s, Reaches 10 clean s ∧ clean ∧
    s.given = [.issued 7 5 1 10, .issued 8 5 1 11, .returned 8 5 1 3] ∧ ReturnsRight s.given := by
  have h : Reaches 10 _ _ := ((Reaches.start.step (.issue 0 0 [some 7] 5 ⟨[], [], 1⟩)).step
    (.issue 1 1 [some 8] 5 ⟨[], [], 1⟩)).step (.consume 3 8 5)
  have hfirst : Clean {} (.issue 0 0 [some 7] 5 ⟨[], [], 1⟩) :=
    fun hnone => absurd hnone (by decide)
  refine ⟨_, _, h, ⟨⟨⟨trivial, hfirst⟩, ?_⟩, trivial⟩, by decide,
    (challengeStore_consistent h ⟨⟨⟨trivial, hfirst⟩, ?_⟩, trivial⟩).2.2.2⟩
  · exact fun hnone => absurd hnone (by decide)
  · exact fun hnone => absurd hnone (by decide)

/-- The second issue evicts the first challenge and draws a zero id each time: 7 stays recorded and
is not live. -/
theorem failed_draw_keeps_reference : ∃ clean s, Reaches 10 clean s ∧ s.store.ref 5 1 = some 7 ∧
    s.store.entries.lookup 7 = none := by
  have h : Reaches 10 _ _ := (Reaches.start.step (.issue 0 0 [some 7] 5 ⟨[], [], 1⟩)).step
    (.issue 1 1 (replicate 100 (some 0)) 5 ⟨[], [], 1⟩)
  exact ⟨_, _, h, by decide, by decide⟩

end TelegramServer.Srp
