import TelegramServer.Tx.Program
import Mathlib.Data.Set.Insert
import Mathlib.Tactic.Common

/-!
# Proof rules for lock-disciplined transactions

A transaction that writes only rows whose locks it holds can be verified as if
it ran alone at its commit point: the state its reads talk about is the one it
commits on, except that a read outside its locks may be stale. `wp` states
that obligation for one body, and `Locking.sound` turns it into a statement
about every interleaving.
-/

namespace Tx

open List

variable {i : Nat}

/-- A locking discipline over a database. `stable l d d'` says that the part
guarded by the lock `l` is the same in both states; `grows d d'` is what no
transaction ever undoes. A lock that guards writes is held by one transaction at a
time. `below` is the order in which locks are taken, where there is one. A lock that is
`drawnOnly` comes with a new number of a sequence and in no other way, so that what it
guards is settled once the number is in use. -/
structure Locking (DB L O S : Type) extends Rows DB L O S where
  guards : O → List L
  conflicts_guards : ∀ o, ∀ l ∈ guards o, conflicts l l
  below : L → L → Prop := fun _ _ => True
  drawnOnly : L → Prop := fun _ => False
  stable : L → DB → DB → Prop
  grows : DB → DB → Prop
  stable_refl : ∀ l d, stable l d d
  stable_trans : ∀ l d₁ d₂ d₃, stable l d₁ d₂ → stable l d₂ d₃ → stable l d₁ d₃
  grows_refl : ∀ d, grows d d
  grows_trans : ∀ d₁ d₂ d₃, grows d₁ d₂ → grows d₂ d₃ → grows d₁ d₃
  grows_apply : ∀ o d, grows d (apply o d)
  stable_apply : ∀ l o d, l ∉ guards o → stable l d (apply o d)
  unused_stable : ∀ l d d', unused l d → stable l d d' → unused l d'
  used_stable : ∀ l d d', drawnOnly l → unused l d' → stable l d d' → unused l d := by simp
  pick_pos : ∀ s d, 0 < pick s d
  pick_unused : ∀ s d, unused (drawn s (pick s d)) d
  /-- A write does the same to two states that agree on what it touches. -/
  apply_grows : ∀ o d d', grows d d' → (∀ l ∈ guards o, stable l d d') →
    grows (apply o d) (apply o d')
  apply_stable : ∀ l o d d', stable l d d' → grows d d' → (∀ l ∈ guards o, stable l d d') →
    stable l (apply o d) (apply o d')

/-! ## Open sessions -/

/-- No two sessions hold locks that conflict. -/
def Config.Exclusive {DB L O S E A T : Type} (R : Rows DB L O S)
    (c : Config DB L O S E A T) : Prop :=
  ∀ i j s s', i ≠ j → c.open_ i = some s → c.open_ j = some s' →
    ∀ l ∈ s.held, ∀ l' ∈ s'.held, ¬ R.conflicts l l'

namespace Config

variable {DB L O S E A T : Type} {R : Rows DB L O S} {c : Config DB L O S E A T} {j : Nat}
  {s : Session DB L O S E A T} {o : Outcome A E}

theorem Exclusive.setSession (h : c.Exclusive R)
    (hfree : ∀ l ∈ s.held, c.Free R i l) : (c.setSession i s).Exclusive R := by
  intro j k s₁ s₂ hjk hj hk l hl l' hl'
  by_cases hji : j = i
  · subst hji
    have hs₁ : s = s₁ := by simpa [Config.setSession] using hj
    have hk' : c.open_ k = some s₂ := by simpa [Config.setSession, hjk.symm] using hk
    exact hfree l (hs₁ ▸ hl) k s₂ hjk.symm hk' l' hl'
  · have hj' : c.open_ j = some s₁ := by simpa [Config.setSession, hji] using hj
    by_cases hki : k = i
    · subst hki
      have hs₂ : s = s₂ := by simpa [Config.setSession] using hk
      exact fun hc => hfree l' (hs₂ ▸ hl') j s₁ hji hj' l hl (R.conflicts_symm _ _ hc)
    · exact h j k s₁ s₂ hjk hj' (by simpa [Config.setSession, hki] using hk) l hl l' hl'

theorem open_of_close {t : T} {d : DB}
    (h : (c.close i t o d).open_ j = some s) : j ≠ i ∧ c.open_ j = some s := by
  have hji : j ≠ i := by
    rintro rfl
    simp [close] at h
  exact ⟨hji, by simpa [close, hji] using h⟩

theorem Exclusive.close (h : c.Exclusive R) (t : T) (o : Outcome A E) (d : DB) :
    (c.close i t o d).Exclusive R :=
  fun j k s₁ s₂ hjk hj hk => h j k s₁ s₂ hjk (open_of_close hj).2 (open_of_close hk).2

theorem Exclusive.step {code : T → Prog DB L O S E (Finish A)} {c' : Config DB L O S E A T}
    (h : c.Exclusive R) (hs : Step R code c c') : c'.Exclusive R := by
  -- The locks from before are free of the others because the sessions were exclusive.
  have hold : ∀ {i s}, c.open_ i = some s → ∀ l ∈ s.held, c.Free R i l :=
    fun hi l hl j s' hj hs' => h _ j _ s' hj.symm hi hs' l hl
  cases hs with
  | begin i t hi => exact h.setSession (by simp)
  | stmt i t held redo need write next hi hfree =>
    exact h.setSession fun l hl => (mem_append.mp hl).elim (hfree l) (hold hi l)
  | draw i t held redo seq next n hi hpos hnew hown hfree =>
    refine h.setSession fun l hl => ?_
    rcases mem_cons.mp hl with rfl | hl
    · exact hfree
    · exact hold hi l hl
  | commit | rollback | fail | abort => exact h.close _ _ _

end Config

theorem Reachable.exclusive {DB L O S E A T : Type} {R : Rows DB L O S}
    {code : T → Prog DB L O S E (Finish A)} {d₀ : DB} {c : Config DB L O S E A T}
    (hc : Reachable R code d₀ c) : c.Exclusive R := by
  induction hc with
  | start => simp [Config.Exclusive, Config.start]
  | step _ hs ih => exact ih.step hs

/-- The errors with which the body can fail. -/
def Prog.Fails (F : E → Prop) : Prog DB L O S E A → Prop
  | .ret _ => True
  | .fail e => F e
  | .stmt _ _ next => ∀ v, (next v).Fails F
  | .draw _ next => ∀ n, (next n).Fails F

namespace Prog.Fails

variable {F : E → Prop} {f : A → Prog DB L O S E B}

theorem bind {p : Prog DB L O S E A} (hp : p.Fails F)
    (hf : ∀ a, (f a).Fails F) : (p >>= f).Fails F := by
  change (p.bind f).Fails F
  induction p with
  | ret a => exact hf a
  | fail e => exact hp
  | stmt need write next ih => exact fun v => ih v (hp v)
  | draw seq next ih => exact fun n => ih n (hp n)

theorem any (p : Prog DB L O S E A) : p.Fails fun _ => True := by
  induction p with
  | ret | fail => trivial
  | stmt need write next ih | draw seq next ih => exact ih

theorem query (q : DB → A) : (.query q : Prog DB L O S E A).Fails F :=
  fun _ => trivial

theorem queryForUpdate (need : DB → List L) (q : DB → A) :
    (.queryForUpdate need q : Prog DB L O S E A).Fails F :=
  fun _ => trivial

theorem orFail {e : E} (he : F e) (x : Option A) : (.orFail e x : Prog DB L O S E A).Fails F := by
  cases x with
  | none => exact he
  | some a => trivial

theorem lockAll (ls : List L) : (.lockAll ls : Prog DB L O S E Unit).Fails F := by
  induction ls with
  | nil => trivial
  | cons l ls ih => exact .bind (fun _ => trivial) fun _ => ih

end Prog.Fails

namespace Locking

variable {DB L O S E A B T : Type} (K : Locking DB L O S) {H : Set L}

/-- Every row the redo list writes is guarded by a lock of `H`. -/
def Covered (os : List O) (H : Set L) : Prop :=
  ∀ o ∈ os, ∀ l ∈ K.guards o, l ∈ H

theorem grows_replay (os : List O) (d : DB) : K.grows d (K.replay os d) :=
  Rows.replay_invariant (K.grows_refl d) fun o _ w hw => K.grows_trans _ _ _ hw (K.grows_apply o w)

theorem stable_replay {os : List O} (hos : K.Covered os H) {l : L}
    (hl : l ∈ H → ¬ K.conflicts l l) (d : DB) : K.stable l d (K.replay os d) := by
  refine Rows.replay_invariant (K.stable_refl l d) fun o ho w hw => ?_
  have hout : l ∉ K.guards o := fun h => hl (hos o ho l h) (K.conflicts_guards o l h)
  exact K.stable_trans _ _ _ _ hw (K.stable_apply l o w hout)

/-- A redo list keeps two states together that agree on the locks it is covered by. -/
theorem replay_agree {os : List O} (hos : K.Covered os H) {d d' : DB}
    (hg : K.grows d d') (hH : ∀ l ∈ H, K.stable l d d') :
    K.grows (K.replay os d) (K.replay os d') ∧
      ∀ l, K.stable l d d' → K.stable l (K.replay os d) (K.replay os d') := by
  induction os generalizing d d' with
  | nil => exact ⟨hg, fun _ h => h⟩
  | cons o os ih =>
    have ho : ∀ l ∈ K.guards o, K.stable l d d' := fun l hl => hH l (hos o (by simp) l hl)
    have hstep := ih (fun o' ho' => hos o' (by simp [ho'])) (K.apply_grows o d d' hg ho)
      (fun l hl => K.apply_stable l o d d' (hH l hl) hg ho)
    exact ⟨hstep.1, fun l hl => hstep.2 l (K.apply_stable l o d d' hl hg ho)⟩

/-! ## Weakest preconditions -/

/-- What a transaction can rely on between two statements: the locks it holds,
and a fact about every view its next statement may run on. -/
structure Ctx (DB L : Type) where
  held : Set L
  seen : DB → Prop

namespace Ctx

def start (Inv : DB → Prop) : Ctx DB L := ⟨∅, Inv⟩

def lock (G : Ctx DB L) (ls : Set L) : Ctx DB L := ⟨G.held ∪ ls, G.seen⟩

def wrote (G : Ctx DB L) : Ctx DB L := ⟨G.held, fun _ => True⟩

@[simp] theorem held_start (Inv : DB → Prop) : (start Inv : Ctx DB L).held = ∅ := rfl
@[simp] theorem seen_start (Inv : DB → Prop) : (start Inv : Ctx DB L).seen = Inv := rfl
@[simp] theorem held_lock (G : Ctx DB L) (ls : Set L) : (G.lock ls).held = G.held ∪ ls := rfl
@[simp] theorem held_wrote (G : Ctx DB L) : G.wrote.held = G.held := rfl
@[simp] theorem lock_empty (G : Ctx DB L) : G.lock ∅ = G := by simp [lock]

theorem lock_lock (G : Ctx DB L) (ls ls' : Set L) : (G.lock ls).lock ls' = G.lock (ls ∪ ls') := by
  simp [lock, Set.union_assoc]

def saw (G : Ctx DB L) (grows : DB → DB → Prop) (v : DB) : Ctx DB L :=
  ⟨G.held, fun x => G.seen x ∧ grows v x⟩

@[simp] theorem held_saw (G : Ctx DB L) (grows : DB → DB → Prop) (v : DB) :
    (G.saw grows v).held = G.held := rfl

end Ctx

structure View (G : Ctx DB L) (ls : Set L) (v w : DB) : Prop where
  seen : G.seen v
  grows : K.grows v w
  stable : ∀ l ∈ G.held ∪ ls, K.stable l v w
  settled : ∀ l, K.drawnOnly l → ¬ K.unused l v → K.stable l v w

/-- What is known of the views behind a statement that ran on `v` with the writes `os`. -/
def Later (G : Ctx DB L) (v : DB) (os : List O) (x : DB) : Prop :=
  (os = [] → G.seen x) ∧ K.grows v x

structure Ascends (held : Set L) (ls : List L) : Prop where
  one : ∀ l ∈ ls, ∀ l' ∈ ls, l = l'
  above : ∀ l ∈ ls, l ∈ held ∨ ∀ l' ∈ held, K.below l' l
  lockable : ∀ l ∈ ls, ¬ K.drawnOnly l

theorem ascends_nil (held : Set L) : K.Ascends held [] := ⟨by simp, by simp, by simp⟩

def wp : Prog DB L O S E A → Ctx DB L → DB → (A → Ctx DB L → DB → Prop) → Prop
  | .ret a, G, w, Q => Q a G w
  | .fail _, _, _, _ => True
  | .stmt need write next, G, w, Q =>
    ∀ v, K.View G {l | l ∈ need v} v w →
      K.Ascends G.held (need v) ∧ K.Covered (write v) (G.held ∪ {l | l ∈ need v}) ∧
        ∃ seen : DB → Prop, (∀ x, K.Later G v (write v) x → seen x) ∧
          wp (next v) ⟨G.held ∪ {l | l ∈ need v}, seen⟩ (K.replay (write v) w) Q
  | .draw seq next, G, w, Q =>
    ∀ n, 0 < n → K.unused (K.drawn seq n) w → wp (next n) (G.lock {K.drawn seq n}) w Q

@[simp] theorem wp_pure (a : A) (G : Ctx DB L) (w : DB) (Q : A → Ctx DB L → DB → Prop) :
    K.wp (pure a : Prog DB L O S E A) G w Q ↔ Q a G w := Iff.rfl

/-- `wpf p G w Q F`: the rest `p` of a transaction ends in `Q`, or fails with an error of `F`. -/
def wpf : Prog DB L O S E A → Ctx DB L → DB → (A → Ctx DB L → DB → Prop) → (E → Prop) → Prop
  | .ret a, G, w, Q, _ => Q a G w
  | .fail e, _, _, _, F => F e
  | .stmt need write next, G, w, Q, F =>
    ∀ v, K.View G {l | l ∈ need v} v w →
      K.Ascends G.held (need v) ∧ K.Covered (write v) (G.held ∪ {l | l ∈ need v}) ∧
        ∃ seen : DB → Prop, (∀ x, K.Later G v (write v) x → seen x) ∧
          wpf (next v) ⟨G.held ∪ {l | l ∈ need v}, seen⟩ (K.replay (write v) w) Q F
  | .draw seq next, G, w, Q, F =>
    ∀ n, 0 < n → K.unused (K.drawn seq n) w → wpf (next n) (G.lock {K.drawn seq n}) w Q F

variable {G : Ctx DB L} {Q : A → Ctx DB L → DB → Prop} {code : T → Prog DB L O S E (Finish A)}
  {d d' w : DB} {held : List L} {need : DB → List L} {p : Prog DB L O S E A} {q : DB → A}
  {r : Record DB A E T} {redo : List O} {rs : List (Record DB A E T)} {s : Session DB L O S E A T}
  {t : T} {write : DB → List O}

section Rules

variable {K} {F : E → Prop} {Q' : A → Ctx DB L → DB → Prop}

theorem wpf_bind {Q : B → Ctx DB L → DB → Prop}
    (h : K.wpf p G w (fun a G' w' => K.wpf (f a) G' w' Q F) F) :
    K.wpf (p >>= f) G w Q F := by
  suffices hiff : K.wpf (p.bind f) G w Q F ↔ _ from hiff.mpr h
  clear h
  induction p generalizing G w with
  | ret | fail => rfl
  | stmt need write next ih | draw seq next ih => simp only [Prog.bind, wpf, ih]

theorem wpf_mono {F' : E → Prop} (h : K.wpf p G w Q F)
    (hQ : ∀ a G' w', G.held ⊆ G'.held → Q a G' w' → Q' a G' w') (hF : ∀ e, F e → F' e) :
    K.wpf p G w Q' F' := by
  induction p generalizing G w with
  | ret a => exact hQ a G w (le_refl _) h
  | fail e => exact hF e h
  | stmt need write next ih =>
    intro v hv
    obtain ⟨ha, hc, seen, hseen, hn⟩ := h v hv
    exact ⟨ha, hc, seen, hseen, ih v hn fun a G' w' hG =>
      hQ a G' w' (Set.subset_union_left.trans hG)⟩
  | draw seq next ih =>
    exact fun n hn hu =>
      ih n (h n hn hu) fun a G' w' hG => hQ a G' w' (Set.subset_union_left.trans hG)

theorem wpf_of_wp (hF : p.Fails F) (h : K.wp p G w Q) : K.wpf p G w Q F := by
  induction p generalizing G w with
  | ret a => exact h
  | fail e => exact hF
  | stmt need write next ih =>
    intro v hv
    obtain ⟨ha, hc, seen, hseen, hn⟩ := h v hv
    exact ⟨ha, hc, seen, hseen, ih v (hF v) hn⟩
  | draw seq next ih => exact fun n hn hu => ih n (hF n) (h n hn hu)

theorem wp_of_wpf (h : K.wpf p G w Q F) : K.wp p G w Q := by
  induction p generalizing G w with
  | ret a => exact h
  | fail e => trivial
  | stmt need write next ih =>
    intro v hv
    obtain ⟨ha, hc, seen, hseen, hn⟩ := h v hv
    exact ⟨ha, hc, seen, hseen, ih v hn⟩
  | draw seq next ih => exact fun n hn hu => ih n (h n hn hu)

theorem wp_mono (h : K.wp p G w Q)
    (hQ : ∀ a G' w', G.held ⊆ G'.held → Q a G' w' → Q' a G' w') : K.wp p G w Q' :=
  wp_of_wpf (wpf_mono (wpf_of_wp (.any p) h) hQ fun _ he => he)

theorem wp_bind {Q : B → Ctx DB L → DB → Prop}
    (h : K.wp p G w fun a G' w' => K.wp (f a) G' w' Q) : K.wp (p >>= f) G w Q :=
  wp_of_wpf (wpf_bind (wpf_mono (wpf_of_wp (.any p) h) (fun a _ _ _ => wpf_of_wp (.any (f a)))
    fun _ he => he))

theorem wp_seen {seen seen' : DB → Prop} {Q : A → Set L → DB → Prop}
    (h : K.wp p ⟨H, seen⟩ w fun a G w => Q a G.held w) (hs : ∀ x, seen' x → seen x) :
    K.wp p ⟨H, seen'⟩ w fun a G w => Q a G.held w := by
  induction p generalizing H seen seen' w with
  | ret a => exact h
  | fail e => trivial
  | stmt need write next ih =>
    intro v hv
    obtain ⟨ha, hc, known, hknown, hn⟩ := h v ⟨hs v hv.seen, hv.grows, hv.stable, hv.settled⟩
    exact ⟨ha, hc, known, fun x hx => hknown x ⟨fun hw => hs x (hx.1 hw), hx.2⟩, hn⟩
  | draw seq next ih =>
    intro n hn hu
    exact ih n (h n hn hu) hs

/-! ## One rule per kind of statement -/

theorem covered_nil (H : Set L) : K.Covered [] H := fun _ ho => absurd ho (by simp)

theorem wp_lock {l : L} {Q : Unit → Ctx DB L → DB → Prop} (hl : ¬ K.drawnOnly l)
    (ha : l ∈ G.held ∨ ∀ l' ∈ G.held, K.below l' l) (h : Q () (G.lock {l}) w) :
    K.wp (.lock l : Prog DB L O S E Unit) G w Q := by
  intro v _
  have hset : {l' | l' ∈ [l]} = ({l} : Set L) := by ext; simp
  refine ⟨⟨by simp, by simpa using ha, by simpa using hl⟩, covered_nil _, G.seen,
    fun x hx => hx.1 rfl, ?_⟩
  rw [hset]
  exact h

/-- A read outside the locks: whatever it saw, the later views and the commit state have
grown from it. -/
theorem wp_query_saw (h : ∀ v, K.View G ∅ v w → Q (q v) (G.saw K.grows v) w) :
    K.wp (.query q : Prog DB L O S E A) G w Q := by
  intro v hv
  have hnil : {l : L | l ∈ ([] : List L)} = ∅ := by simp
  rw [hnil] at hv ⊢
  refine ⟨K.ascends_nil _, covered_nil _, (G.saw K.grows v).seen, fun x hx => ⟨hx.1 rfl, hx.2⟩, ?_⟩
  rw [Set.union_empty]
  exact h v hv

theorem wp_query (h : ∀ v, K.View G ∅ v w → Q (q v) G w) :
    K.wp (.query q : Prog DB L O S E A) G w Q := by
  intro v hv
  have hnil : {l : L | l ∈ ([] : List L)} = ∅ := by simp
  rw [hnil] at hv ⊢
  refine ⟨K.ascends_nil _, covered_nil _, G.seen, fun x hx => hx.1 rfl, ?_⟩
  rw [Set.union_empty]
  exact h v hv

variable (K) in

/-- The value of `q` depends only on what the locks `ls` guard. -/
def Reads (q : DB → A) (ls : Set L) : Prop :=
  ∀ v w, K.grows v w → (∀ l ∈ ls, K.stable l v w) → q v = q w

/-- A read under its locks sees the commit state. -/
theorem wp_query_of_reads {ls : Set L} (hq : K.Reads q ls) (hls : ls ⊆ G.held) (h : Q (q w) G w) :
    K.wp (.query q : Prog DB L O S E A) G w Q := by
  refine wp_query fun v hv => ?_
  rw [hq v w hv.grows fun l hl => hv.stable l (Or.inl (hls hl))]
  exact h

theorem wp_queryForUpdate (ha : ∀ v, K.Ascends G.held (need v))
    (h : ∀ v, K.View G {l | l ∈ need v} v w → Q (q v) (G.lock {l | l ∈ need v}) w) :
    K.wp (.queryForUpdate need q : Prog DB L O S E A) G w Q := by
  intro v hv
  exact ⟨ha v, covered_nil _, G.seen, fun x hx => hx.1 rfl, h v hv⟩

theorem wp_exec {o : O} {ls : Set L} (hq : K.Reads q ls) (hls : ls ⊆ G.held)
    (ho : ∀ l ∈ K.guards o, l ∈ G.held) (h : Q (q w) G.wrote (K.apply o w)) :
    K.wp (.exec o q : Prog DB L O S E A) G w Q := by
  intro v hv
  have hnil : {l : L | l ∈ ([] : List L)} = ∅ := by simp
  rw [hnil] at hv ⊢
  refine ⟨K.ascends_nil _, fun o' ho' l hl => ?_, fun _ => True, fun _ _ => trivial, ?_⟩
  · rw [mem_singleton] at ho'
    subst ho'
    exact Or.inl (ho l hl)
  · rw [Set.union_empty]
    change Q (q v) _ _
    rw [hq v w hv.grows fun l hl => hv.stable l (Or.inl (hls hl))]
    exact h

theorem wp_stmt_of_reads (hq : K.Reads (fun d => (need d, write d, q d)) G.held)
    (hone : ∀ l ∈ need w, ∀ l' ∈ need w, l = l')
    (hneed : ∀ l ∈ need w, l ∈ G.held ∧ ¬ K.drawnOnly l)
    (hwrite : K.Covered (write w) G.held) (h : Q (q w) G.wrote (K.replay (write w) w)) :
    K.wp (.stmt need write fun d => .ret (q d) : Prog DB L O S E A) G w Q := by
  intro v hv
  have heq := hq v w hv.grows fun l hl => hv.stable l (Or.inl hl)
  simp only [Prod.mk.injEq] at heq
  obtain ⟨hn, hw, hqv⟩ := heq
  have hheld : G.held ∪ {l | l ∈ need w} = G.held :=
    Set.union_eq_self_of_subset_right fun l hl => (hneed l hl).1
  simp only [hn, hw, hqv, hheld]
  exact ⟨⟨hone, fun l hl => .inl (hneed l hl).1, fun l hl => (hneed l hl).2⟩, hwrite,
    fun _ => True, fun _ _ => trivial, h⟩

theorem wp_exec_ {o : O} {Q : Unit → Ctx DB L → DB → Prop} (ho : ∀ l ∈ K.guards o, l ∈ G.held)
    (h : Q () G.wrote (K.apply o w)) : K.wp (.exec_ o : Prog DB L O S E Unit) G w Q :=
  wp_exec (fun _ _ _ _ => rfl) (Set.empty_subset _) ho h

theorem wp_nextval {seq : S} {Q : Int → Ctx DB L → DB → Prop}
    (h : ∀ n, 0 < n → K.unused (K.drawn seq n) w → Q n (G.lock {K.drawn seq n}) w) :
    K.wp (.nextval seq : Prog DB L O S E Int) G w Q := h

/-- Locks taken in ascending order, each of them new and above all that was held, or held. -/
theorem wp_lockAll {ls : List L} {Q : Unit → Ctx DB L → DB → Prop} (hls : ls.Pairwise K.below)
    (hd : ∀ l ∈ ls, ¬ K.drawnOnly l) (ha : ∀ l ∈ ls, l ∈ G.held ∨ ∀ l' ∈ G.held, K.below l' l)
    (h : Q () (G.lock {l | l ∈ ls}) w) : K.wp (.lockAll ls : Prog DB L O S E Unit) G w Q := by
  induction ls generalizing G with
  | nil => simpa [Prog.lockAll] using h
  | cons l ls ih =>
    obtain ⟨hl, hls⟩ := pairwise_cons.mp hls
    refine wp_bind (wp_lock (hd l (by simp)) (ha l (by simp))
      (ih hls (fun l' hl' => hd l' (by simp [hl'])) (fun l' hl' => ?_) ?_))
    · rcases ha l' (by simp [hl']) with hheld | hnew
      · exact .inl (.inl hheld)
      · refine .inr fun l'' hl'' => ?_
        rcases hl'' with hl'' | rfl
        · exact hnew l'' hl''
        · exact hl l' hl'
    · have hset : ({l} ∪ {l' | l' ∈ ls} : Set L) = {l' | l' ∈ l :: ls} := by
        ext
        simp
      rwa [Ctx.lock_lock, hset]

theorem wp_orFail {e : E} {x : Option A} (h : ∀ a, x = some a → Q a G w) :
    K.wp (.orFail e x : Prog DB L O S E A) G w Q := by
  cases x with
  | none => trivial
  | some a => exact h a rfl

end Rules

/-! ## Soundness over interleavings -/

def Good (Inv : DB → Prop) (P : T → DB → A → DB → Prop) (t : T) (d : DB) (w : DB) : Finish A → Prop
  | .commit a => Inv w ∧ P t d a w
  | .rollback a => P t d a d

def Agrees (past : Set (DB × Set L)) (d : DB) : Prop :=
  ∀ e ∈ past, K.grows e.1 d ∧ ∀ l ∈ e.2, K.stable l e.1 d

/-- The locks whose numbers are in use: nobody holds them, and nobody will. -/
def settled (d : DB) : Set L := {l | K.drawnOnly l ∧ ¬ K.unused l d}

def SessionOk (Inv : DB → Prop) (P : T → DB → A → DB → Prop) (d : DB)
    (s : Session DB L O S E A T) : Prop :=
  (∀ l ∈ s.held, l ∉ K.settled d) ∧ ∃ past : Set (DB × Set L),
    (∀ e ∈ past, e.2 ⊆ {l | l ∈ s.held} ∪ K.settled d) ∧ K.Agrees past d ∧
      K.Covered s.redo {l | l ∈ s.held} ∧
      ∃ seen : DB → Prop, (∀ d', Inv d' → K.Agrees past d' → seen (K.replay s.redo d')) ∧
        ∀ d', Inv d' → K.Agrees past d' → K.wp s.body ⟨{l | l ∈ s.held}, seen⟩ (K.replay s.redo d')
            fun r _ w => Good Inv P s.call d' w r

def RecordOk (Inv : DB → Prop) (P : T → DB → A → DB → Prop) (r : Record DB A E T) : Prop :=
  Inv r.pre ∧ Inv r.post ∧ K.grows r.pre r.post ∧
    match r.outcome with
    | .done (.commit a) => P r.call r.pre a r.post
    | .done (.rollback a) => P r.call r.pre a r.pre ∧ r.post = r.pre
    | .failed _ => r.post = r.pre
    | .aborted => r.post = r.pre

/-- The records lead from `d` to `d'`, each starting where the last one ended. -/
def Leads : List (Record DB A E T) → DB → DB → Prop
  | [], d, d' => d' = d
  | r :: rs, d, d' => r.pre = d ∧ Leads rs r.post d'

theorem Leads.snoc (h : Leads rs d d') (hr : r.pre = d') : Leads (rs ++ [r]) d r.post := by
  induction rs generalizing d with
  | nil => exact ⟨hr.trans h, rfl⟩
  | cons x xs ih => exact ⟨h.1, ih h.2⟩

theorem leads_append {rs' : List (Record DB A E T)} :
    Leads (rs ++ rs') d d' ↔ ∃ m, Leads rs d m ∧ Leads rs' m d' := by
  induction rs generalizing d with
  | nil => exact ⟨fun h => ⟨d, rfl, h⟩, fun ⟨_, hm, h⟩ => hm ▸ h⟩
  | cons r rs ih =>
    simp only [cons_append, Leads, ih]
    exact ⟨fun ⟨hr, m, hm, h⟩ => ⟨m, ⟨hr, hm⟩, h⟩, fun ⟨m, ⟨hr, hm⟩, h⟩ => ⟨hr, m, hm, h⟩⟩

theorem Leads.unique {m m' : DB} (h : Leads rs d m) (h' : Leads rs d m') : m = m' := by
  induction rs generalizing d with
  | nil => exact h.trans h'.symm
  | cons r rs ih => exact ih h.2 h'.2

variable {P : DB → Prop}

/-- What every call of the log preserves, the log preserves. -/
theorem Leads.invariant (h : Leads rs d d') (hstep : ∀ r ∈ rs, P r.pre → P r.post)
    (hd : P d) : P d' := by
  induction rs generalizing d with
  | nil => exact h ▸ hd
  | cons r rs ih =>
    obtain ⟨rfl, hrest⟩ := h
    exact ih hrest (fun r' hr' => hstep r' (by simp [hr'])) (hstep r (by simp) hd)

theorem Leads.invariant_pre (h : Leads rs d d') (hstep : ∀ r ∈ rs, P r.pre → P r.post)
    (hd : P d) (hr : r ∈ rs) : P r.pre := by
  obtain ⟨before, after, rfl⟩ := append_of_mem hr
  obtain ⟨m, hbefore, hm, -⟩ := leads_append.mp h
  rw [hm]
  exact hbefore.invariant (fun r' hr' => hstep r' (by simp [hr'])) hd

theorem Leads.grows (h : Leads rs d d') (hg : ∀ r ∈ rs, K.grows r.pre r.post) : K.grows d d' := by
  induction rs generalizing d with
  | nil => exact h ▸ K.grows_refl d
  | cons r rs ih =>
    obtain ⟨rfl, hrest⟩ := h
    exact K.grows_trans _ _ _ (hg r (by simp)) (ih hrest fun r' hr' => hg r' (by simp [hr']))

theorem Leads.grows_post (h : Leads rs d d') (hg : ∀ r ∈ rs, K.grows r.pre r.post) (hr : r ∈ rs) :
    K.grows r.post d' := by
  obtain ⟨before, after, rfl⟩ := append_of_mem hr
  obtain ⟨m, -, -, hafter⟩ := leads_append.mp h
  exact hafter.grows K fun r' hr' => hg r' (by simp [hr'])

/-- What is never undone comes about in at most one of the records. -/
theorem Leads.once (h : Leads rs d d') {P : DB → Bool}
    (hP : ∀ r ∈ rs, P r.pre = true → P r.post = true) :
    (rs.filter fun r => !P r.pre && P r.post).length ≤ if P d = true then 0 else 1 := by
  induction rs generalizing d with
  | nil => simp
  | cons r rs ih =>
    obtain ⟨rfl, hrest⟩ := h
    have hlen := ih hrest fun r' hr' => hP r' (by simp [hr'])
    have hr := hP r (by simp)
    cases hpre : P r.pre <;> cases hpost : P r.post <;> simp_all

structure ConfigOk (Inv : DB → Prop) (P : T → DB → A → DB → Prop) (d₀ : DB)
    (c : Config DB L O S E A T) : Prop where
  inv : Inv c.db
  sessions : ∀ i s, c.open_ i = some s → K.SessionOk Inv P c.db s
  records : ∀ r ∈ c.log, K.RecordOk Inv P r
  leads : Leads c.log d₀ c.db

variable {K} {Inv : DB → Prop} {P : T → DB → A → DB → Prop} {d₀ : DB}
  {next : DB → Prog DB L O S E (Finish A)}

theorem Agrees.mono {past : Set (DB × Set L)} (h : K.Agrees past d) (hH : ∀ e ∈ past, e.2 ⊆ H)
    (hg : K.grows d d') (hs : ∀ l ∈ H, K.stable l d d') : K.Agrees past d' := by
  intro e he
  obtain ⟨heg, hes⟩ := h e he
  exact ⟨K.grows_trans _ _ _ heg hg,
    fun l hl => K.stable_trans _ _ _ _ (hes l hl) (hs l (hH e he hl))⟩

theorem settled_stable {l : L} (h : l ∈ K.settled d) (hs : K.stable l d d') : l ∈ K.settled d' :=
  ⟨h.1, fun hu => h.2 (K.used_stable l d d' h.1 hu hs)⟩

/-- A session does not notice a commit that leaves alone what its locks guard and what
is settled. -/
theorem SessionOk.mono (h : K.SessionOk Inv P d s) (hg : K.grows d d')
    (hs : ∀ l ∈ s.held, K.stable l d d') (hset : ∀ l ∈ K.settled d, K.stable l d d') :
    K.SessionOk Inv P d' s := by
  obtain ⟨hown, past, hheld, hagree, hcov, hwp⟩ := h
  have hboth : ∀ l ∈ {l | l ∈ s.held} ∪ K.settled d, K.stable l d d' :=
    fun l hl => hl.elim (hs l) (hset l)
  refine ⟨fun l hl hl' => hown l hl ⟨hl'.1, fun hu => hl'.2 (K.unused_stable _ _ _ hu (hs l hl))⟩,
    past, fun e he l hl => ?_, hagree.mono hheld hg hboth, hcov, hwp⟩
  exact (hheld e he hl).imp_right fun h => settled_stable h (hset l h)

theorem SessionOk.begin
    (hcode : ∀ t d, Inv d → K.wp (code t) (.start Inv) d fun r _ w => Good Inv P t d w r) (d : DB)
    (t : T) :
    K.SessionOk Inv P d ⟨t, code t, [], []⟩ := by
  refine ⟨by simp, ∅, by simp, by simp [Agrees], covered_nil _, Inv, fun d' hd' _ => hd',
    fun d' hd' _ => ?_⟩
  simpa [Ctx.start] using hcode t d' hd'

theorem SessionOk.ascends (hinv : Inv d)
    (h : K.SessionOk Inv P d ⟨t, .stmt need write next, held, redo⟩) :
    K.Ascends {l | l ∈ held} (need (K.replay redo d)) := by
  obtain ⟨-, past, -, hagree, -, seen, hseen, hwp⟩ := h
  exact (hwp d hinv hagree _ ⟨hseen d hinv hagree, K.grows_refl _, fun l _ => K.stable_refl l _,
    fun l _ _ => K.stable_refl l _⟩).1

theorem SessionOk.stmt (hinv : Inv d)
    (h : K.SessionOk Inv P d ⟨t, .stmt need write next, held, redo⟩) :
    K.SessionOk Inv P d ⟨t, next (K.replay redo d), need (K.replay redo d) ++ held,
      redo ++ write (K.replay redo d)⟩ := by
  have hlockable := h.ascends hinv
  obtain ⟨hown, past, hheld, hagree, hcov, seen, hseen, hwp⟩ := h
  set v := K.replay redo d with hv
  have hunion : {l | l ∈ need v ++ held} = {l | l ∈ held} ∪ {l | l ∈ need v} := by
    ext l
    simp [or_comm]
  set G : Ctx DB L := ⟨{l | l ∈ held}, seen⟩
  set locks : Set L := {l | l ∈ need v ++ held} ∪ K.settled d
  -- The statement ran on `d`: later states have to agree with `d` on the locks held from now on,
  -- and on what was settled in `d`.
  have hview : ∀ d', K.grows d d' → (∀ l ∈ locks, K.stable l d d') →
      K.View G {l | l ∈ need v} v (K.replay redo d') := by
    intro d' hg hs
    have hboth := K.replay_agree hcov hg fun l hl => hs l (.inl (mem_append_right _ hl))
    refine ⟨hseen d hinv hagree, hboth.1,
      fun l hl => hboth.2 l (hs l (.inl (by rw [← hunion] at hl; exact hl))), fun l hl hu => ?_⟩
    by_cases hmem : l ∈ held
    · exact hboth.2 l (hs l (.inl (mem_append_right _ hmem)))
    · refine hboth.2 l (hs l (.inr ⟨hl, fun hud => hu ?_⟩))
      exact K.unused_stable _ _ _ hud (K.stable_replay hcov (fun h => absurd h hmem) d)
  have hrun : ∀ d', Inv d' → K.Agrees past d' → K.grows d d' → (∀ l ∈ locks, K.stable l d d') →
      K.Covered (write v) {l | l ∈ need v ++ held} ∧
        K.wp (next v) ⟨{l | l ∈ need v ++ held}, K.Later G v (write v)⟩
          (K.replay (redo ++ write v) d') fun r _ w => Good Inv P t d' w r := by
    intro d' hd' hp hg hs
    obtain ⟨-, hc, known, hknown, hn⟩ := hwp d' hd' hp v (hview d' hg hs)
    rw [hunion, K.replay_append]
    exact ⟨hc, wp_seen (Q := fun r _ w => Good Inv P t d' w r) hn hknown⟩
  refine ⟨fun l hl => ?_, insert (d, locks) past, ?_, ?_, ?_, K.Later G v (write v), ?_, ?_⟩
  · rcases mem_append.mp hl with hl | hl
    · exact fun hset => hlockable.lockable l hl hset.1
    · exact hown l hl
  · rintro e (rfl | he)
    · exact le_refl _
    · exact (hheld e he).trans (Set.union_subset_union_left _ fun l hl => mem_append_right _ hl)
  · rintro e (rfl | he)
    · exact ⟨K.grows_refl d, fun l _ => K.stable_refl l d⟩
    · exact hagree e he
  · intro o ho l hl
    rcases mem_append.mp ho with ho | ho
    · exact mem_append_right _ (hcov o ho l hl)
    · exact (hrun d hinv hagree (K.grows_refl d) fun l _ => K.stable_refl l d).1 o ho l hl
  · intro d' hd' hp
    have hhere := hp _ (Set.mem_insert _ _)
    rw [K.replay_append]
    refine ⟨fun hw => ?_, ?_⟩
    · rw [hw]
      exact hseen d' hd' fun e he => hp e (Set.mem_insert_of_mem _ he)
    · exact K.grows_trans _ _ _ (hview d' hhere.1 hhere.2).grows (K.grows_replay _ _)
  · intro d' hd' hp
    have hhere := hp _ (Set.mem_insert _ _)
    exact (hrun d' hd' (fun e he => hp e (Set.mem_insert_of_mem _ he)) hhere.1 hhere.2).2

theorem SessionOk.draw {seq : S} {next : Int → Prog DB L O S E (Finish A)} {n : Int}
    (h : K.SessionOk Inv P d ⟨t, .draw seq next, held, redo⟩) (hpos : 0 < n)
    (hnew : K.unused (K.drawn seq n) d) (hown : K.drawn seq n ∉ held) :
    K.SessionOk Inv P d ⟨t, next n, K.drawn seq n :: held, redo⟩ := by
  obtain ⟨hfresh, past, hheld, hagree, hcov, seen, hseen, hwp⟩ := h
  have hcons : {l | l ∈ K.drawn seq n :: held} = {l | l ∈ held} ∪ {K.drawn seq n} := by
    ext l
    simp
  refine ⟨fun l hl => ?_, insert (d, {K.drawn seq n}) past, ?_, ?_, ?_, ?_⟩
  · rcases mem_cons.mp hl with rfl | hl
    · exact fun hset => hset.2 hnew
    · exact hfresh l hl
  · rintro e (rfl | he)
    · rintro l rfl
      simp
    · exact (hheld e he).trans (Set.union_subset_union_left _ fun l hl => mem_cons_of_mem _ hl)
  · rintro e (rfl | he)
    · exact ⟨K.grows_refl d, fun l _ => K.stable_refl l d⟩
    · exact hagree e he
  · exact fun o ho l hl => mem_cons_of_mem _ (hcov o ho l hl)
  · refine ⟨seen, fun d' hd' hp => hseen d' hd' fun e he => hp e (Set.mem_insert_of_mem _ he),
      fun d' hd' hp => ?_⟩
    have hd : K.stable (K.drawn seq n) d d' := (hp _ (Set.mem_insert _ _)).2 _ rfl
    -- The number is still new in `d'`, and the session's own writes do not use it.
    have hview : K.unused (K.drawn seq n) (K.replay redo d') :=
      K.unused_stable _ _ _ (K.unused_stable _ _ _ hnew hd)
        (K.stable_replay hcov (fun hl => absurd hl hown) d')
    have := hwp d' hd' (fun e he => hp e (Set.mem_insert_of_mem _ he)) n hpos hview
    rw [Ctx.lock, ← hcons] at this
    exact this

theorem ConfigOk.setSession {c : Config DB L O S E A T} (h : K.ConfigOk Inv P d₀ c)
    (hs : K.SessionOk Inv P c.db s) : K.ConfigOk Inv P d₀ (c.setSession i s) where
  inv := h.inv
  sessions j s' hj := by
    by_cases hij : j = i
    · subst hij
      simp only [Config.setSession, Function.update_self, Option.some.injEq] at hj
      exact hj ▸ hs
    · exact h.sessions j s' (by simpa [Config.setSession, hij] using hj)
  records := h.records
  leads := h.leads

theorem ConfigOk.close {c : Config DB L O S E A T} (h : K.ConfigOk Inv P d₀ c)
    (hx : c.Exclusive K.toRows) (hi : c.open_ i = some s)
    (hr : K.RecordOk Inv P ⟨s.call, c.db, o, d⟩)
    (hd : ∀ l, (l ∈ s.held → ¬ K.conflicts l l) → K.stable l c.db d) :
    K.ConfigOk Inv P d₀ (c.close i s.call o d) where
  inv := hr.2.1
  sessions j s' hj := by
    obtain ⟨hji, hj'⟩ := Config.open_of_close hj
    exact (h.sessions j s' hj').mono hr.2.2.1 (fun l hl => hd l (hx j i s' s hji hj' hi l hl l))
      fun l hl => hd l fun hheld => absurd hl ((h.sessions i s hi).1 l hheld)
  records r hmem := by
    rcases mem_append.mp hmem with hmem | hmem
    · exact h.records r hmem
    · rw [mem_singleton.mp hmem]
      exact hr
  leads := h.leads.snoc rfl

theorem ConfigOk.close_unchanged {c : Config DB L O S E A T} (h : K.ConfigOk Inv P d₀ c)
    (hx : c.Exclusive K.toRows) (hi : c.open_ i = some s) (ho : match o with
      | .done (.commit _) => False
      | .done (.rollback a) => P s.call c.db a c.db
      | .failed _ => True
      | .aborted => True) : K.ConfigOk Inv P d₀ (c.close i s.call o c.db) := by
  refine h.close hx hi ⟨h.inv, h.inv, K.grows_refl _, ?_⟩ fun l _ => K.stable_refl l _
  rcases o with (⟨a⟩ | ⟨a⟩) | ⟨e⟩ | _
  · exact ho.elim
  · exact ⟨ho, rfl⟩
  · rfl
  · rfl

theorem ConfigOk.step
    (hcode : ∀ t d, Inv d → K.wp (code t) (.start Inv) d fun r _ w => Good Inv P t d w r)
    {c c' : Config DB L O S E A T} (h : K.ConfigOk Inv P d₀ c) (hx : c.Exclusive K.toRows)
    (hs : Step K.toRows code c c') : K.ConfigOk Inv P d₀ c' := by
  cases hs with
  | begin i t hi => exact h.setSession (.begin hcode c.db t)
  | stmt i t held redo need write next hi hfree =>
    exact h.setSession ((h.sessions i _ hi).stmt h.inv)
  | draw i t held redo seq next n hi hpos hnew hown hfree =>
    exact h.setSession ((h.sessions i _ hi).draw hpos hnew hown)
  | commit i t held redo a hi =>
    obtain ⟨-, past, -, hagree, hcov, seen, -, hwp⟩ := h.sessions i _ hi
    obtain ⟨hinv, hpost⟩ := hwp c.db h.inv hagree
    exact h.close hx hi ⟨h.inv, hinv, K.grows_replay redo c.db, hpost⟩
      fun l hl => K.stable_replay hcov hl c.db
  | rollback i t held redo a hi =>
    obtain ⟨-, past, -, hagree, -, seen, -, hwp⟩ := h.sessions i _ hi
    exact h.close_unchanged hx hi (hwp c.db h.inv hagree)
  | fail i t held redo e hi | abort i s hi => exact h.close_unchanged hx hi trivial

theorem RecordOk.spec (h : K.RecordOk Inv P r) {a : A} (ha : r.outcome.answer = some a) :
    P r.call r.pre a r.post := by
  obtain ⟨-, -, -, hout⟩ := h
  split at hout <;> simp_all [Outcome.answer, Finish.value]

theorem RecordOk.unchanged (h : K.RecordOk Inv P r) (ha : r.outcome.answer = none) :
    r.post = r.pre := by
  obtain ⟨-, -, -, hout⟩ := h
  split at hout <;> simp_all [Outcome.answer]

theorem ConfigOk.grows_post {c : Config DB L O S E A T} (h : K.ConfigOk Inv P d₀ c)
    (hr : r ∈ c.log) : K.grows r.post c.db :=
  Leads.grows_post K h.leads (fun r' hr' => (h.records r' hr').2.2.1) hr

/-- Every interleaving of transactions whose bodies are verified one by one keeps
the invariant, and every finished call answered as its specification says. -/
theorem sound (hcode : ∀ t d, Inv d → K.wp (code t) (.start Inv) d fun r _ w => Good Inv P t d w r)
    (h₀ : Inv d₀) {c : Config DB L O S E A T} (hc : Reachable K.toRows code d₀ c) :
    K.ConfigOk Inv P d₀ c := by
  induction hc with
  | start =>
    exact ⟨h₀, by simp [Config.start], by simp [Config.start], rfl⟩
  | step hc hs ih => exact ih.step hcode hc.exclusive hs

end Locking

end Tx
