import TelegramServer.Tx.Rules
import Mathlib.Data.Set.Finite.Basic
import Mathlib.Order.WellFounded

/-!
# Who waits for whom

A session waits for another one when the statement it has come to asks for a lock that
conflicts with one the other holds. Sessions that take their locks in one common order
never wait in a circle.

`each I p held Q` follows a body from lock to lock without asking what the database holds:
on any view, every statement of `p` meets `I`, and the end comes with locks that satisfy `Q`.
-/

namespace Tx

open List

variable {DB L O S E A B T : Type} {Q : A → List L → Prop} {p : Prog DB L O S E A} {q : DB → A}

namespace Rows

variable (R : Rows DB L O S) (I : DB → List L → List L → List O → Prop)

def each : Prog DB L O S E A → List L → (A → List L → Prop) → Prop
  | .ret a, held, Q => Q a held
  | .fail _, _, _ => True
  | .stmt need write next, held, Q =>
    ∀ v, I v held (need v) (write v) ∧ each (next v) (need v ++ held) Q
  | .draw seq next, held, Q => ∀ n, each (next n) (R.drawn seq n :: held) Q

variable {R I} {held : List L} {code : T → Prog DB L O S E (Finish A)}

theorem each_mono {I' : DB → List L → List L → List O → Prop}
    {Q' : A → List L → Prop} (h : R.each I p held Q)
    (hI : ∀ v held need write, I v held need write → I' v held need write)
    (hQ : ∀ a held', Q a held' → Q' a held') : R.each I' p held Q' := by
  induction p generalizing held with
  | ret a => exact hQ a held h
  | fail e => trivial
  | stmt need write next ih => exact fun v => ⟨hI _ _ _ _ (h v).1, ih v (h v).2⟩
  | draw seq next ih => exact fun n => ih n (h n)

theorem each_bind {f : A → Prog DB L O S E B} {Q : B → List L → Prop}
    (h : R.each I p held fun a held' => R.each I (f a) held' Q) : R.each I (p >>= f) held Q := by
  change R.each I (p.bind f) held Q
  induction p generalizing held with
  | ret a => exact h
  | fail e => trivial
  | stmt need write next ih => exact fun v => ⟨(h v).1, ih v (h v).2⟩
  | draw seq next ih => exact fun n => ih n (h n)

theorem each_query (hI : ∀ v, I v held [] [])
    (h : ∀ a, Q a held) : R.each I (.query q : Prog DB L O S E A) held Q :=
  fun v => ⟨hI v, h (q v)⟩

theorem each_exec {o : O} (hI : ∀ v, I v held [] [o])
    (h : ∀ a, Q a held) : R.each I (.exec o q : Prog DB L O S E A) held Q :=
  fun v => ⟨hI v, h (q v)⟩

theorem each_orFail {e : E} {x : Option A}
    (h : ∀ a, x = some a → Q a held) : R.each I (.orFail e x : Prog DB L O S E A) held Q := by
  cases x with
  | none => trivial
  | some a => exact h a rfl

theorem each_lockAll {ls : List L} {Q : Unit → List L → Prop}
    (hI : ∀ v done l rest, ls = done ++ l :: rest → I v (done.reverse ++ held) [l] [])
    (h : Q () (ls.reverse ++ held)) : R.each I (.lockAll ls : Prog DB L O S E Unit) held Q := by
  induction ls generalizing held with
  | nil => exact h
  | cons l ls ih =>
    refine each_bind fun v => ⟨hI v [] l ls rfl, ih (fun v done l' rest hls => ?_) ?_⟩
    · have hstep := hI v (l :: done) l' rest (by rw [hls, cons_append])
      rw [reverse_cons, append_assoc] at hstep
      exact hstep
    · rw [reverse_cons, append_assoc] at h
      exact h

/-- What the bodies of the calls in `P` meet, their open sessions go on to meet. -/
theorem each_sound {P : T → Prop}
    (hcode : ∀ t, P t → R.each I (code t) [] fun _ _ => True) {d₀ : DB}
    {c : Config DB L O S E A T} (hc : Reachable R code d₀ c) :
    ∀ i s, c.open_ i = some s → P s.call → R.each I s.body s.held fun _ _ => True := by
  have hset : ∀ {c : Config DB L O S E A T} {i : Nat} {s' : Session DB L O S E A T},
      (∀ i s, c.open_ i = some s → P s.call → R.each I s.body s.held fun _ _ => True) →
      (P s'.call → R.each I s'.body s'.held fun _ _ => True) →
      ∀ j s, (c.setSession i s').open_ j = some s → P s.call →
        R.each I s.body s.held fun _ _ => True := by
    intro c i s' ih hs' j s hj
    by_cases hji : j = i
    · subst hji
      simp only [Config.setSession, Function.update_self, Option.some.injEq] at hj
      exact hj ▸ hs'
    · exact ih j s (by simpa [Config.setSession, hji] using hj)
  induction hc with
  | start => simp [Config.start]
  | step hc hs ih =>
    cases hs with
    | begin i t hi => exact hset ih (hcode t)
    | stmt i t held redo need write next hi hfree => exact hset ih fun ht => (ih i _ hi ht _).2
    | draw i t held redo seq next n hi hpos hnew hown hfree =>
      exact hset ih fun ht => ih i _ hi ht n
    | commit | rollback | fail | abort => exact fun j s hj => ih j s (Config.open_of_close hj).2

end Rows

variable {d₀ : DB}

namespace Config

variable (R : Rows DB L O S) (c : Config DB L O S E A T)

/-- The statement that session `i` has come to asks for the lock `l`. -/
inductive Wants (i : Nat) (l : L) : Prop where
  | stmt {t : T} {held : List L} {redo : List O} {need : DB → List L} {write : DB → List O}
      {next : DB → Prog DB L O S E (Finish A)}
      (hi : c.open_ i = some ⟨t, .stmt need write next, held, redo⟩)
      (hl : l ∈ need (R.replay redo c.db)) : Wants i l

def Blocks (j : Nat) (l : L) : Prop :=
  ∃ s, c.open_ j = some s ∧ ∃ l' ∈ s.held, R.conflicts l l'

def WaitsFor (i j : Nat) : Prop :=
  i ≠ j ∧ ∃ l, c.Wants R i l ∧ c.Blocks R j l

inductive Asks (counts : DB → L → Prop) (i : Nat) (l : L) : Prop where
  | stmt {t : T} {held : List L} {redo : List O} {need : DB → List L} {write : DB → List O}
      {next : DB → Prog DB L O S E (Finish A)}
      (hi : c.open_ i = some ⟨t, .stmt need write next, held, redo⟩)
      (hl : l ∈ need (R.replay redo c.db)) (hcounts : counts (R.replay redo c.db) l) :
      Asks counts i l

/-- Session `i` waits for session `j` over a lock that counts. -/
def WaitsOn (counts : DB → L → Prop) (i j : Nat) : Prop :=
  i ≠ j ∧ ∃ l, c.Asks R counts i l ∧ c.Blocks R j l

variable {R c} {below : L → L → Prop}

theorem acyclic_of_below (c : Config DB L O S E A T)
    {wants : Nat → L → Prop} (hself : ∀ l, ¬ below l l)
    (htrans : ∀ l₁ l₂ l₃, below l₁ l₂ → below l₂ l₃ → below l₁ l₃)
    (hconf : ∀ l l', R.conflicts l l' → l = l')
    (h : ∀ i j l s, i ≠ j → wants i l → c.Blocks R j l → c.open_ i = some s →
      ∀ l' ∈ s.held, below l' l) (i : Nat) :
    ¬ Relation.TransGen (fun i j => i ≠ j ∧ ∃ l, wants i l ∧ c.Blocks R j l) i i := by
  -- Along a chain of waits the locks waited for ascend.
  have hchain : ∀ {j}, Relation.TransGen (fun i j => i ≠ j ∧ ∃ l, wants i l ∧ c.Blocks R j l) i j →
      ∃ l, (∃ k, i ≠ k ∧ wants i l ∧ c.Blocks R k l) ∧
        ∀ k l', j ≠ k → wants j l' → c.Blocks R k l' → below l l' := by
    intro j hj
    induction hj with
    | single hw =>
      rename_i j
      obtain ⟨hne, l, hl, hb⟩ := hw
      refine ⟨l, ⟨j, hne, hl, hb⟩, fun k l' hjk hl' hb' => ?_⟩
      obtain ⟨s, hs, l'', hl'', hc⟩ := hb
      exact hconf l l'' hc ▸ h j k l' s hjk hl' hb' hs l'' hl''
    | tail _ hw ih =>
      obtain ⟨l, hi, hl⟩ := ih
      obtain ⟨hne, l', hl', hb⟩ := hw
      refine ⟨l, hi, fun m l'' hkm hl'' hb'' => ?_⟩
      obtain ⟨s, hs, x, hxs, hc⟩ := id hb
      have hstep : below l' l'' := hconf l' x hc ▸ h _ m l'' s hkm hl'' hb'' hs x hxs
      exact htrans _ _ _ (hl _ l' hne hl' hb) hstep
  intro hi
  obtain ⟨l, ⟨k, hne, hl, hb⟩, hbelow⟩ := hchain hi
  exact hself l (hbelow k l hne hl hb)

def Ascending (below : L → L → Prop) (counts : DB → L → Prop) (v : DB)
    (held need : List L) : Prop :=
  ∀ l ∈ need, counts v l → l ∈ held ∨ ∀ l' ∈ held, below l' l

/-- If all that is open asks for what counts in one order, nobody waits for it in a circle. -/
theorem waitsOn_acyclic {counts : DB → L → Prop} {P : T → Prop}
    (hcode : ∀ t, P t → R.each (fun v held need _ => Ascending below counts v held need) (code t) []
      fun _ _ => True)
    (hself : ∀ l, ¬ below l l)
    (htrans : ∀ l₁ l₂ l₃, below l₁ l₂ → below l₂ l₃ → below l₁ l₃)
    (hconf : ∀ l l', R.conflicts l l' → l = l') (hc : Reachable R code d₀ c)
    (hopen : ∀ i s, c.open_ i = some s → P s.call) (i : Nat) :
    ¬ Relation.TransGen (c.WaitsOn R counts) i i := by
  refine c.acyclic_of_below hself htrans hconf (fun i j l s hij hw hb hs => ?_) i
  obtain ⟨hi, hl, hcounts⟩ := hw
  obtain rfl := Option.some.inj (hs.symm.trans hi)
  rcases (Rows.each_sound hcode hc i _ hi (hopen i _ hi) _).1 l hl hcounts with hheld | habove
  · obtain ⟨s', hs', l', hl', hconf⟩ := hb
    exact absurd hconf (hc.exclusive i j _ s' hij hi hs' l hheld l' hl')
  · exact habove

theorem finite_open (hc : Reachable R code d₀ c) : {i | c.open_ i ≠ none}.Finite := by
  induction hc with
  | start => simp [start]
  | @step c _ _ hs ih =>
    have hset (i : Nat) (x : Option (Session DB L O S E A T)) :
        {j | Function.update c.open_ i x j ≠ none}.Finite := by
      refine (ih.insert i).subset fun j hj => ?_
      by_cases hji : j = i
      · exact .inl hji
      · exact .inr (by simpa [hji] using hj)
    cases hs <;> exact hset _ _

/-- Where finitely many sessions wait in no circle, the locks that one of them asks for are free. -/
theorem exists_free (hfin : {i | c.open_ i ≠ none}.Finite)
    (hacyclic : ∀ i, ¬ Relation.TransGen (c.WaitsFor R) i i) {i : Nat} (hi : c.open_ i ≠ none) :
    ∃ j, c.open_ j ≠ none ∧ ∀ l, c.Wants R j l → c.Free R j l := by
  let after (a b : {i | c.open_ i ≠ none}) : Prop := Relation.TransGen (c.WaitsFor R) b a
  have := hfin.to_subtype
  have : IsTrans _ after := ⟨fun _ _ _ h h' => h'.trans h⟩
  have : Std.Irrefl after := ⟨fun j => hacyclic j⟩
  obtain ⟨j, -, hj⟩ :=
    (Finite.wellFounded_of_trans_of_irrefl after).has_min .univ ⟨⟨i, hi⟩, trivial⟩
  refine ⟨j, j.2, fun l hl k s hk hs l' hl' hconf => ?_⟩
  have hwaits : c.WaitsFor R j k := ⟨hk.symm, l, hl, s, hs, l', hl', hconf⟩
  exact hj ⟨k, by simp [hs]⟩ trivial (.single hwaits)
end Config

namespace Locking

variable {K : Locking DB L O S} {c : Config DB L O S E A T}

def AllAscend (K : Locking DB L O S) (c : Config DB L O S E A T) : Prop :=
  ∀ i t held redo need write next, c.open_ i = some ⟨t, .stmt need write next, held, redo⟩ →
      K.Ascends {l | l ∈ held} (need (K.replay redo c.db))

theorem AllAscend.below (h : K.AllAscend c) (hx : c.Exclusive K.toRows) {i j : Nat} (hij : i ≠ j)
    {l : L} (hw : c.Wants K.toRows i l) (hb : c.Blocks K.toRows j l) {s : Session DB L O S E A T}
    (hs : c.open_ i = some s) : ∀ l' ∈ s.held, K.below l' l := by
  obtain ⟨hi, hl⟩ := hw
  obtain rfl := Option.some.inj (hs.symm.trans hi)
  rcases (h i _ _ _ _ _ _ hi).above l hl with hheld | habove
  · obtain ⟨s', hs', l', hl', hconf⟩ := hb
    exact absurd hconf (hx i j _ s' hij hi hs' l hheld l' hl')
  · exact habove

theorem AllAscend.wants_unique (h : K.AllAscend c) {i : Nat} {l l' : L}
    (hl : c.Wants K.toRows i l) (hl' : c.Wants K.toRows i l') : l = l' := by
  obtain ⟨hi, hl⟩ := hl
  obtain ⟨hi', hl'⟩ := hl'
  cases Option.some.inj (hi.symm.trans hi')
  exact (h i _ _ _ _ _ _ hi).one l hl l' hl'

/-- Sessions that ask in order do not wait in a circle. -/
theorem AllAscend.acyclic (h : K.AllAscend c) (hx : c.Exclusive K.toRows)
    (hself : ∀ l, ¬ K.below l l)
    (htrans : ∀ l₁ l₂ l₃, K.below l₁ l₂ → K.below l₂ l₃ → K.below l₁ l₃)
    (hconf : ∀ l l', K.conflicts l l' → l = l') (i : Nat) :
    ¬ Relation.TransGen (c.WaitsFor K.toRows) i i :=
  c.acyclic_of_below hself htrans hconf (fun _ _ _ _ hij hw hb hs => h.below hx hij hw hb hs) i

/-- Verified bodies ask in order, whatever runs beside them. -/
theorem ConfigOk.allAscend {Inv : DB → Prop} {P : T → DB → A → DB → Prop}
    (h : K.ConfigOk Inv P d₀ c) : K.AllAscend c :=
  fun i _ _ _ _ _ _ hi => (h.sessions i _ hi).ascends h.inv

end Locking

end Tx
