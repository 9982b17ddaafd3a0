import TelegramServer.Tx.Rules

/-!
# Calls one at a time

A call that runs while no other transaction is open is one way to interleave,
and a body verified for every interleaving is verified for this one.
-/

namespace Tx

variable {DB L O S E A T : Type} {c : Config DB L O S E A T} {R : Rows DB L O S}
  {code : T → Prog DB L O S E (Finish A)} {d₀ : DB}

def Outcome.ofExcept : Except E (Finish A) → Outcome A E
  | .ok r => .done r
  | .error e => .failed e

def committed (d : DB) : Except E (Finish A) × DB → DB
  | (.ok (.commit _), d') => d'
  | _ => d

def Record.alone (R : Rows DB L O S) (code : T → Prog DB L O S E (Finish A)) (d : DB) (t : T) :
    Record DB A E T :=
  ⟨t, d, .ofExcept ((code t).alone R d).1, committed d ((code t).alone R d)⟩

def Config.serial (R : Rows DB L O S) (code : T → Prog DB L O S E (Finish A)) :
    List T → Config DB L O S E A T → Config DB L O S E A T
  | [], c => c
  | t :: ts, c =>
    Config.serial R code ts
      ⟨(Record.alone R code c.db t).post, c.open_, c.log ++ [Record.alone R code c.db t]⟩

def Prog.DrawsNew (R : Rows DB L O S) (d : DB) : Prog DB L O S E A → List L → List O → Prop
  | .ret _, _, _ => True
  | .fail _, _, _ => True
  | .stmt need write next, held, redo =>
    (next (R.replay redo d)).DrawsNew R d (need (R.replay redo d) ++ held)
      (redo ++ write (R.replay redo d))
  | .draw seq next, held, redo =>
    let n := R.pick seq (R.replay redo d)
    0 < n ∧ R.unused (R.drawn seq n) d ∧ R.drawn seq n ∉ held ∧
      (next n).DrawsNew R d (R.drawn seq n :: held) redo

instance Prog.decidableDrawsNew (R : Rows DB L O S) [∀ l d, Decidable (R.unused l d)]
    [DecidableEq L] (d : DB) : (p : Prog DB L O S E A) → (held : List L) → (redo : List O) →
      Decidable (p.DrawsNew R d held redo)
  | .ret _, _, _ => .isTrue trivial
  | .fail _, _, _ => .isTrue trivial
  | .stmt _ _ next, _, _ => Prog.decidableDrawsNew R d (next _) _ _
  | .draw seq next, held, redo => by
    unfold Prog.DrawsNew
    have := Prog.decidableDrawsNew R d (next (R.pick seq (R.replay redo d)))
      (R.drawn seq (R.pick seq (R.replay redo d)) :: held) redo
    infer_instance

def SerialDrawsNew (R : Rows DB L O S) (code : T → Prog DB L O S E (Finish A)) : List T → DB → Prop
  | [], _ => True
  | t :: ts, d =>
    (code t).DrawsNew R d [] [] ∧ SerialDrawsNew R code ts (Record.alone R code d t).post

instance decidableSerialDrawsNew (R : Rows DB L O S) [∀ l d, Decidable (R.unused l d)]
    [DecidableEq L] (code : T → Prog DB L O S E (Finish A)) : (ts : List T) → (d : DB) →
      Decidable (SerialDrawsNew R code ts d)
  | [], _ => .isTrue trivial
  | t :: ts, d => by
    unfold SerialDrawsNew
    have := decidableSerialDrawsNew R code ts (Record.alone R code d t).post
    infer_instance

theorem Reachable.finish {p : Prog DB L O S E (Finish A)} {t : T} {held : List L} {redo : List O}
    (hc : Reachable R code d₀ (c.setSession 0 ⟨t, p, held, redo⟩))
    (hidle : c.open_ = fun _ => none) (hnew : p.DrawsNew R c.db held redo) :
    Reachable R code d₀ ⟨committed c.db (p.alone R (R.replay redo c.db)), c.open_,
        c.log ++ [⟨t, c.db, .ofExcept (p.alone R (R.replay redo c.db)).1,
          committed c.db (p.alone R (R.replay redo c.db))⟩]⟩ := by
  have hopen (s : Session DB L O S E A T) : (c.setSession 0 s).open_ 0 = some s := by
    simp [Config.setSession]
  have hfree (s : Session DB L O S E A T) (l : L) : (c.setSession 0 s).Free R 0 l := by
    intro j s' hj hs'
    simp [Config.setSession, hj, hidle] at hs'
  have hset (s s' : Session DB L O S E A T) :
      (c.setSession 0 s).setSession 0 s' = c.setSession 0 s' := by
    simp [Config.setSession]
  have hclose (s : Session DB L O S E A T) (o : Outcome A E) (d : DB) :
      (c.setSession 0 s).close 0 t o d = ⟨d, c.open_, c.log ++ [⟨t, c.db, o, d⟩]⟩ := by
    simp [Config.setSession, Config.close, hidle]
  induction p generalizing held redo with
  | ret r =>
    cases r with
    | commit a =>
      have := hc.step (.commit _ 0 t held redo a (hopen _))
      rwa [hclose] at this
    | rollback a =>
      have := hc.step (.rollback _ 0 t held redo a (hopen _))
      rwa [hclose] at this
  | fail e =>
    have := hc.step (.fail _ 0 t held redo e (hopen _))
    rwa [hclose] at this
  | stmt need write next ih =>
    have hstep := hc.step (.stmt _ 0 t held redo need write next (hopen _) fun l _ => hfree _ l)
    rw [hset] at hstep
    have := ih _ hstep hnew
    rwa [Rows.replay_append] at this
  | draw seq next ih =>
    obtain ⟨hpos, hunused, hown, hrest⟩ := hnew
    have hstep := hc.step (.draw _ 0 t held redo seq next _ (hopen _) hpos hunused hown (hfree _ _))
    rw [hset] at hstep
    exact ih _ hstep hrest

theorem Reachable.serial (hc : Reachable R code d₀ c)
    (hidle : c.open_ = fun _ => none) {ts : List T} (hnew : SerialDrawsNew R code ts c.db) :
    Reachable R code d₀ (c.serial R code ts) := by
  induction ts generalizing c with
  | nil => exact hc
  | cons t ts ih =>
    have hbegin := hc.step (.begin c 0 t (by rw [hidle]))
    exact ih (hbegin.finish hidle hnew.1) hidle hnew.2

/-! ## Two runs side by side

Rules for what two bodies, each run alone on a database of its own, have to do with each other.
They fail together and with the same error, or end with results and databases that are related. -/

variable {DB L O S E A B A' B' : Type} {q' : DB → A'} {q : DB → A}

namespace Prog

variable (R : Rows DB L O S)

def Alike (Q : A → DB → A' → DB → Prop) (p : Prog DB L O S E A) (p' : Prog DB L O S E A')
    (d d' : DB) : Prop :=
  match p.alone R d, p'.alone R d' with
  | (.ok a, w), (.ok a', w') => Q a w a' w'
  | (.error e, _), (.error e', _) => e = e'
  | _, _ => False

variable {R} {Q : A → DB → A' → DB → Prop} {p : Prog DB L O S E A} {p' : Prog DB L O S E A'}
    {d d' : DB}

theorem alone_bind (p : Prog DB L O S E A) (f : A → Prog DB L O S E B) (d : DB) :
    (p >>= f).alone R d =
      match p.alone R d with
      | (.ok a, w) => (f a).alone R w
      | (.error e, w) => (.error e, w) := by
  change (p.bind f).alone R d = _
  induction p generalizing d with
  | ret | fail => rfl
  | stmt need write next ih | draw seq next ih => exact ih _ _

theorem alike_fail (e : E) : Alike R Q (.fail e : Prog DB L O S E A) (.fail e) d d' := rfl

theorem Alike.mono {Q' : A → DB → A' → DB → Prop} (h : Alike R Q p p' d d')
    (hQ : ∀ a w a' w', Q a w a' w' → Q' a w a' w') : Alike R Q' p p' d d' := by
  unfold Alike at h ⊢
  split at h
  · exact hQ _ _ _ _ h
  · exact h
  · exact h.elim

theorem alike_bind {f : A → Prog DB L O S E B} {f' : A' → Prog DB L O S E B'}
    {Q : B → DB → B' → DB → Prop}
    (h : Alike R (fun a w a' w' => Alike R Q (f a) (f' a') w w') p p' d d') :
    Alike R Q (p >>= f) (p' >>= f') d d' := by
  unfold Alike at h ⊢
  rw [alone_bind, alone_bind]
  generalize p.alone R d = r at h ⊢
  generalize p'.alone R d' = r' at h ⊢
  obtain ⟨_ | a, w⟩ := r <;> obtain ⟨_ | a', w'⟩ := r'
  · exact h
  · exact h.elim
  · exact h.elim
  · exact h

theorem alike_query (h : Q (q d) d (q' d') d') :
    Alike R Q (.query q : Prog DB L O S E A) (.query q') d d' := h

theorem alike_queryForUpdate {need : DB → List L} (h : Q (q d) d (q' d') d') :
    Alike R Q (.queryForUpdate need q : Prog DB L O S E A) (.queryForUpdate need q') d d' := h

theorem alike_exec_ {o : O} {Q : Unit → DB → Unit → DB → Prop}
    (h : Q () (R.apply o d) () (R.apply o d')) : Alike R Q (.exec_ o : Prog DB L O S E Unit)
    (.exec_ o) d d' := h

theorem alike_orFail {e : E} {x : Option A} {x' : Option A'} (hsome : x.isSome = x'.isSome)
    (h : ∀ a a', x = some a → x' = some a' → Q a d a' d') :
    Alike R Q (.orFail e x : Prog DB L O S E A) (.orFail e x') d d' := by
  cases x with
  | none =>
    cases x' with
    | none => exact alike_fail e
    | some a' => exact nomatch hsome
  | some a =>
    cases x' with
    | none => exact nomatch hsome
    | some a' => exact h a a' rfl rfl

theorem alike_orFail_same {e : E} {x : Option A} {Q : A → DB → A → DB → Prop}
    (h : ∀ a, x = some a → Q a d a d') :
    Alike R Q (.orFail e x : Prog DB L O S E A) (.orFail e x) d d' := by
  refine alike_orFail rfl fun a a' ha ha' => ?_
  cases ha.symm.trans ha'
  exact h a ha

theorem alike_lockAll {ls : List L} {Q : Unit → DB → Unit → DB → Prop} (h : Q () d () d') :
    Alike R Q (.lockAll ls : Prog DB L O S E Unit) (.lockAll ls) d d' := by
  induction ls with
  | nil => exact h
  | cons l ls ih => exact alike_bind ih

theorem Alike.record {code : T → Prog DB L O S E (Finish A)} {t : T}
    {Q : Finish A → DB → Finish A → DB → Prop} (h : Alike R Q (code t) (code t) d d') :
    (∃ r r' w w', Q r w r' w' ∧
      Record.alone R code d t = ⟨t, d, .done r, committed d ((.ok r : Except E (Finish A)), w)⟩ ∧
      Record.alone R code d' t = ⟨t, d', .done r',
        committed d' ((.ok r' : Except E (Finish A)), w')⟩) ∨
    ∃ e, Record.alone R code d t = ⟨t, d, .failed e, d⟩ ∧
      Record.alone R code d' t = ⟨t, d', .failed e, d'⟩ := by
  unfold Alike at h
  unfold Record.alone
  generalize (code t).alone R d = r at h ⊢
  generalize (code t).alone R d' = r' at h ⊢
  obtain ⟨e | a, w⟩ := r <;> obtain ⟨e' | a', w'⟩ := r'
  · obtain rfl : e = e' := h
    exact .inr ⟨e, rfl, rfl⟩
  · exact h.elim
  · exact h.elim
  · exact .inl ⟨a, a', w, w', h, rfl, rfl⟩

end Prog

variable {T : Type} {R : Rows DB L O S} {code : T → Prog DB L O S E (Finish A)}

def records (R : Rows DB L O S) (code : T → Prog DB L O S E (Finish A)) :
    List T → DB → List (Record DB A E T)
  | [], _ => []
  | t :: ts, d => .alone R code d t :: records R code ts (Record.alone R code d t).post

theorem Config.serial_append (ts ts' : List T) (c : Config DB L O S E A T) :
    c.serial R code (ts ++ ts') = (c.serial R code ts).serial R code ts' := by
  induction ts generalizing c with
  | nil => rfl
  | cons t ts ih => exact ih _

theorem Config.serial_log (ts : List T) (c : Config DB L O S E A T) :
    (c.serial R code ts).log = c.log ++ records R code ts c.db := by
  induction ts generalizing c with
  | nil => simp [Config.serial, records]
  | cons t ts ih => simp [Config.serial, records, ih]

/-- What holds between the records of each call in turn holds along two runs. -/
theorem records_forall₂ {I : DB → DB → Prop} {J : Record DB A E T → Record DB A E T → Prop}
    {ts : List T} (hstep : ∀ t ∈ ts, ∀ d d', I d d' → J (.alone R code d t) (.alone R code d' t) ∧
        I (Record.alone R code d t).post (Record.alone R code d' t).post)
    {d d' : DB} (h : I d d') : List.Forall₂ J (records R code ts d) (records R code ts d') := by
  induction ts generalizing d d' with
  | nil => exact .nil
  | cons t ts ih =>
    obtain ⟨hJ, hI⟩ := hstep t (by simp) d d' h
    exact .cons hJ (ih (fun t' ht' => hstep t' (by simp [ht'])) hI)

theorem Config.serial_invariant {I : DB → Prop} {ts : List T}
    (hstep : ∀ t ∈ ts, ∀ d, I d → I (Record.alone R code d t).post) {c : Config DB L O S E A T}
    (h : I c.db) :
    I (c.serial R code ts).db := by
  induction ts generalizing c with
  | nil => exact h
  | cons t ts ih => exact ih (fun t' ht' => hstep t' (by simp [ht'])) (hstep t (by simp) c.db h)

end Tx
