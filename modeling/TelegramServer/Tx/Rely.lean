import TelegramServer.Tx.Waits

/-!
# Facts that other transactions may touch

`wp` follows what a transaction reads under its locks. Some facts hold without a lock,
because of what the other transactions of a run are known to do: `ok held d d'` says what a
commit from `d` to `d'` may do beside a transaction that holds `held`. Here a transaction
carries one assertion about the committed database from statement to statement, and the
assertion has to survive such commits.
-/

namespace Tx

open List

variable {DB L O S E A B T : Type} {redo : List O} {held : List L} {P : DB → Prop}
  {f : A → Prog DB L O S E B} {c' : Config DB L O S E A T} {need : DB → List L} {d₀ : DB} {i : Nat}
  {t : T} {c : Config DB L O S E A T} {code : T → Prog DB L O S E (Finish A)} {d : DB}
  {p : Prog DB L O S E A} {q : DB → A} {s : Session DB L O S E A T}

def Config.Beside (ok : T → List L → DB → DB → Prop) (c c' : Config DB L O S E A T) : Prop :=
  ∀ j s, c.open_ j = some s → c'.open_ j = some s → ok s.call s.held c.db c'.db

/-- The configurations of the runs whose steps all do what `ok` allows. -/
inductive ReachableBeside (R : Rows DB L O S) (code : T → Prog DB L O S E (Finish A))
    (ok : T → List L → DB → DB → Prop) (d₀ : DB) : Config DB L O S E A T → Prop where
  | start : ReachableBeside R code ok d₀ (Config.start d₀)
  | step {c c' : Config DB L O S E A T} (h : ReachableBeside R code ok d₀ c)
      (hs : Step R code c c') (hok : c.Beside ok c') : ReachableBeside R code ok d₀ c'

theorem ReachableBeside.reachable {R : Rows DB L O S} {ok : T → List L → DB → DB → Prop}
    (h : ReachableBeside R code ok d₀ c) : Reachable R code d₀ c := by
  induction h with
  | start => exact .start
  | step _ hs _ ih => exact ih.step hs

namespace Prog

def Reads : Prog DB L O S E A → Prop
  | .ret _ => True
  | .fail _ => True
  | .stmt need write next => (∀ v, need v = [] ∧ write v = []) ∧ ∀ v, (next v).Reads
  | .draw _ _ => False

theorem reads_query (q : DB → A) : (.query q : Prog DB L O S E A).Reads :=
  ⟨fun _ => ⟨rfl, rfl⟩, fun _ => trivial⟩

theorem reads_orFail (e : E) (x : Option A) : (.orFail e x : Prog DB L O S E A).Reads := by
  cases x <;> trivial

theorem reads_bind (hp : p.Reads) (hf : ∀ a, (f a).Reads) : (p >>= f).Reads := by
  change (p.bind f).Reads
  induction p with
  | ret a => exact hf a
  | fail e => trivial
  | stmt need write next ih => exact ⟨hp.1, fun v => ih v (hp.2 v)⟩
  | draw seq next => exact hp.elim

theorem reads_queryOrFail {q : DB → Option A} {e : E} (hf : ∀ a, (f a).Reads) :
    (.query q >>= fun x => .orFail e x >>= f : Prog DB L O S E B).Reads :=
  reads_bind (reads_query q) fun x => reads_bind (reads_orFail e x) hf

end Prog

namespace Locking

variable (K : Locking DB L O S) (ok : List L → DB → DB → Prop)

def Kept (held : List L) (P : DB → Prop) : Prop :=
  ∀ d d', P d → K.grows d d' → (∀ l ∈ held, K.stable l d d') → ok held d d' → P d'

/-- `rely p held redo P Q`: a transaction with these locks and writes, of which `P` is known to
hold of the committed database, goes on as `p` to an end in `Q`. -/
def rely : Prog DB L O S E A → List L → List O → (DB → Prop) →
    (A → List L → List O → (DB → Prop) → Prop) → Prop
  | .ret a, held, redo, P, Q => Q a held redo P
  | .fail _, _, _, _, _ => True
  | .stmt need write next, held, redo, P, Q =>
    ∀ d, P d → K.Covered (write (K.replay redo d)) {l | l ∈ need (K.replay redo d) ++ held} ∧
        ∃ P' : DB → Prop, P' d ∧ K.Kept ok (need (K.replay redo d) ++ held) P' ∧
          rely (next (K.replay redo d)) (need (K.replay redo d) ++ held)
            (redo ++ write (K.replay redo d)) P' Q
  | .draw seq next, held, redo, P, Q =>
    ∀ d, P d → ∀ n, 0 < n → K.unused (K.drawn seq n) d →
      ∃ P' : DB → Prop, P' d ∧ K.Kept ok (K.drawn seq n :: held) P' ∧
        rely (next n) (K.drawn seq n :: held) redo P' Q

variable {K ok} {Q : A → List L → List O → (DB → Prop) → Prop}

theorem kept_true (held : List L) : K.Kept ok held fun _ => True := fun _ _ _ _ _ _ => trivial

/-- Nothing is known from here on. -/
theorem forget {T : (DB → Prop) → Prop} (h : T fun _ => True) :
    ∃ P' : DB → Prop, P' d ∧ K.Kept ok held P' ∧ T P' :=
  ⟨fun _ => True, trivial, kept_true _, h⟩

theorem rely_mono {Q' : A → List L → List O → (DB → Prop) → Prop} (h : K.rely ok p held redo P Q)
    (hQ : ∀ a held' redo' P', Q a held' redo' P' → Q' a held' redo' P') :
    K.rely ok p held redo P Q' := by
  induction p generalizing held redo P with
  | ret a => exact hQ a held redo P h
  | fail e => trivial
  | stmt need write next ih =>
    intro d hd
    obtain ⟨hcov, P', hP', hkept, hnext⟩ := h d hd
    exact ⟨hcov, P', hP', hkept, ih _ hnext⟩
  | draw seq next ih =>
    intro d hd n hn hu
    obtain ⟨P', hP', hkept, hnext⟩ := h d hd n hn hu
    exact ⟨P', hP', hkept, ih n hnext⟩

theorem rely_bind {Q : B → List L → List O → (DB → Prop) → Prop}
    (h : K.rely ok p held redo P fun a held' redo' P' => K.rely ok (f a) held' redo' P' Q) :
    K.rely ok (p >>= f) held redo P Q := by
  suffices hiff : K.rely ok (p.bind f) held redo P Q ↔ _ from hiff.mpr h
  clear h
  induction p generalizing held redo P with
  | ret | fail => rfl
  | stmt need write next ih | draw seq next ih => simp only [Prog.bind, rely, ih]

theorem rely_queryForUpdate
    (h : ∀ d, P d → ∃ P' : DB → Prop, P' d ∧ K.Kept ok (need (K.replay redo d) ++ held) P' ∧
      Q (q (K.replay redo d)) (need (K.replay redo d) ++ held) redo P') :
    K.rely ok (.queryForUpdate need q : Prog DB L O S E A) held redo P Q := by
  intro d hd
  obtain ⟨P', hP', hkept, hQ⟩ := h d hd
  refine ⟨covered_nil _, P', hP', hkept, ?_⟩
  rw [append_nil]
  exact hQ

theorem rely_query_learn
    (h : ∀ d, P d → ∃ P' : DB → Prop, P' d ∧ K.Kept ok held P' ∧
      Q (q (K.replay redo d)) held redo P') :
    K.rely ok (.query q : Prog DB L O S E A) held redo P Q :=
  rely_queryForUpdate h

theorem rely_query (hkept : K.Kept ok held P) (h : ∀ d, P d → Q (q (K.replay redo d)) held redo P) :
    K.rely ok (.query q : Prog DB L O S E A) held redo P Q :=
  rely_query_learn fun d hd => ⟨P, hd, hkept, h d hd⟩

theorem rely_orFail {e : E} {x : Option A} (h : ∀ a, x = some a → Q a held redo P) :
    K.rely ok (.orFail e x : Prog DB L O S E A) held redo P Q := by
  cases x with
  | none => trivial
  | some a => exact h a rfl

theorem rely_exec {o : O} (hkept : K.Kept ok held P)
    (ho : ∀ l ∈ K.guards o, l ∈ held)
    (h : ∀ d, P d → Q (q (K.replay redo d)) held (redo ++ [o]) P) :
    K.rely ok (.exec o q : Prog DB L O S E A) held redo P Q := by
  intro d hd
  refine ⟨fun o' ho' l hl => ?_, P, hd, hkept, h d hd⟩
  rw [mem_singleton.mp ho'] at hl
  exact ho l hl

theorem rely_of_reads (hp : p.Reads) (hkept : K.Kept ok held P)
    (h : ∀ a, Q a held redo P) : K.rely ok p held redo P Q := by
  induction p with
  | ret a => exact h a
  | fail e => trivial
  | stmt need write next ih =>
    intro d hd
    obtain ⟨hneed, hwrite⟩ := hp.1 (K.replay redo d)
    rw [hneed, hwrite, append_nil, nil_append]
    exact ⟨covered_nil _, P, hd, hkept, ih _ (hp.2 _)⟩
  | draw seq next => exact hp.elim

/-! ## Nothing to learn -/

variable (K) in

/-- `p` writes only under its locks, and comes to its end with locks that satisfy `Q`. -/
def covers (p : Prog DB L O S E A) (held : List L) (Q : A → List L → Prop) : Prop :=
  K.toRows.each (fun _ held need write => K.Covered write {l | l ∈ need ++ held}) p held Q

/-- An assertion that more locks keep, too, stands to the end of the body. -/
theorem rely_of_covers {R : A → List L → Prop} (h : K.covers p held R)
    (hkept : ∀ more, K.Kept ok (more ++ held) P)
    (hQ : ∀ a held' redo', R a held' → Q a held' redo' P) :
    K.rely ok p held redo P Q := by
  induction p generalizing held redo with
  | ret a => exact hQ a held redo h
  | fail e => trivial
  | stmt need write next ih =>
    refine fun d hd => ⟨(h _).1, P, hd, hkept _, ih _ (h _).2 fun more => ?_⟩
    rw [← append_assoc]
    exact hkept _
  | draw seq next ih =>
    refine fun d hd n _ _ => ⟨P, hd, hkept [_], ih n (h n) fun more => ?_⟩
    rw [append_cons]
    exact hkept _

variable {ok : T → List L → DB → DB → Prop} {Q : T → Finish A → DB → DB → Prop}

variable (K ok Q) in

def SessionRelies (d : DB) (s : Session DB L O S E A T) : Prop :=
  K.Covered s.redo {l | l ∈ s.held} ∧ ∃ P : DB → Prop, P d ∧ K.Kept (ok s.call) s.held P ∧
      K.rely (ok s.call) s.body s.held s.redo P fun r _ redo P' =>
        ∀ d', P' d' → Q s.call r d' (K.replay redo d')

variable (K ok Q) in

structure ConfigRelies (c : Config DB L O S E A T) : Prop where
  sessions : ∀ i s, c.open_ i = some s → K.SessionRelies ok Q c.db s
  records : ∀ r ∈ c.log, ∀ x, r.outcome = .done x → ∃ w, Q r.call x r.pre w ∧
    (∀ a, x = .commit a → r.post = w)

theorem SessionRelies.stmt {write : DB → List O} {next : DB → Prog DB L O S E (Finish A)}
    (h : K.SessionRelies ok Q d ⟨t, .stmt need write next, held, redo⟩) :
    K.SessionRelies ok Q d ⟨t, next (K.replay redo d), need (K.replay redo d) ++ held,
      redo ++ write (K.replay redo d)⟩ := by
  obtain ⟨hcov, P, hP, -, hrely⟩ := h
  obtain ⟨hcov', P', hP', hkept, hnext⟩ := hrely d hP
  refine ⟨fun o ho l hl => ?_, P', hP', hkept, hnext⟩
  obtain ho | ho := mem_append.mp ho
  · exact mem_append_right _ (hcov o ho l hl)
  · exact hcov' o ho l hl

theorem SessionRelies.draw {seq : S}
    {next : Int → Prog DB L O S E (Finish A)} {n : Int} (hpos : 0 < n)
    (hnew : K.unused (K.drawn seq n) d)
    (h : K.SessionRelies ok Q d ⟨t, .draw seq next, held, redo⟩) :
    K.SessionRelies ok Q d ⟨t, next n, K.drawn seq n :: held, redo⟩ := by
  obtain ⟨hcov, P, hP, -, hrely⟩ := h
  obtain ⟨P', hP', hkept, hnext⟩ := hrely d hP n hpos hnew
  exact ⟨fun o ho l hl => mem_cons_of_mem _ (hcov o ho l hl), P', hP', hkept, hnext⟩

theorem SessionRelies.mono {d' : DB} (h : K.SessionRelies ok Q d s) (hg : K.grows d d')
    (hs : ∀ l ∈ s.held, K.stable l d d') (hok : ok s.call s.held d d') :
    K.SessionRelies ok Q d' s := by
  obtain ⟨hcov, P, hP, hkept, hrely⟩ := h
  exact ⟨hcov, P, hkept d d' hP hg hs hok, hkept, hrely⟩

theorem ConfigRelies.setSession (h : K.ConfigRelies ok Q c) (hs : K.SessionRelies ok Q c.db s) :
    K.ConfigRelies ok Q (c.setSession i s) where
  sessions j s' hj := by
    by_cases hij : j = i
    · subst hij
      simp only [Config.setSession, Function.update_self, Option.some.injEq] at hj
      exact hj ▸ hs
    · exact h.sessions j s' (by simpa [Config.setSession, hij] using hj)
  records := h.records

theorem ConfigRelies.close (h : K.ConfigRelies ok Q c)
    (hx : c.Exclusive K.toRows) (hi : c.open_ i = some s) {o : Outcome A E}
    (hc' : c' = c.close i s.call o d) (hok : c.Beside ok c')
    (hr : ∀ x, o = .done x → ∃ w, Q s.call x c.db w ∧ ∀ a, x = .commit a → d = w)
    (hg : K.grows c.db d)
    (hd : ∀ l, (l ∈ s.held → ¬ K.conflicts l l) → K.stable l c.db d) : K.ConfigRelies ok Q c' where
  sessions j s' hj := by
    subst hc'
    obtain ⟨hji, hj'⟩ := Config.open_of_close hj
    exact (h.sessions j s' hj').mono hg
      (fun l hl => hd l (hx j i s' s hji hj' hi l hl l)) (hok j s' hj' hj)
  records r hmem := by
    subst hc'
    obtain hmem | hmem := mem_append.mp hmem
    · exact h.records r hmem
    · rw [mem_singleton.mp hmem]
      exact hr

theorem ConfigRelies.step (hcode : ∀ t,
    K.rely (ok t) (code t) [] [] (fun _ => True) fun r _ redo P =>
      ∀ d, P d → Q t r d (K.replay redo d)) (h : K.ConfigRelies ok Q c)
    (hx : c.Exclusive K.toRows) (hs : Step K.toRows code c c') (hok : c.Beside ok c') :
    K.ConfigRelies ok Q c' := by
  cases hs with
  | begin i t hi =>
    exact h.setSession ⟨covered_nil _, fun _ => True, trivial, kept_true _, hcode t⟩
  | stmt i t held redo need write next hi hfree =>
    exact h.setSession (h.sessions i _ hi).stmt
  | draw i t held redo seq next n hi hpos hnew hown hfree =>
    exact h.setSession ((h.sessions i _ hi).draw hpos hnew)
  | commit i t held redo a hi =>
    obtain ⟨hcov, P, hP, -, hQ⟩ := h.sessions i _ hi
    refine h.close hx hi rfl hok (fun x hx => ?_) (K.grows_replay redo c.db)
      fun l hl => K.stable_replay hcov hl c.db
    obtain rfl : Finish.commit a = x := Outcome.done.inj hx
    exact ⟨_, hQ c.db hP, fun _ _ => rfl⟩
  | rollback i t held redo a hi =>
    obtain ⟨-, P, hP, -, hQ⟩ := h.sessions i _ hi
    refine h.close hx hi rfl hok (fun x hx => ?_) (K.grows_refl _) fun l _ => K.stable_refl l _
    obtain rfl : Finish.rollback a = x := Outcome.done.inj hx
    exact ⟨_, hQ c.db hP, fun _ hno => by cases hno⟩
  | fail i t held redo e hi | abort i s hi =>
    exact h.close hx hi rfl hok (fun x hx => by cases hx)
      (K.grows_refl _) fun l _ => K.stable_refl l _

/-- Over the runs whose commits do what `ok` allows, every call that ended well ended in `Q`. -/
theorem rely_sound (hcode : ∀ t, K.rely (ok t) (code t) [] [] (fun _ => True) fun r _ redo P =>
      ∀ d, P d → Q t r d (K.replay redo d)) (hc : ReachableBeside K.toRows code ok d₀ c) :
    K.ConfigRelies ok Q c := by
  induction hc with
  | start => exact ⟨by simp [Config.start], by simp [Config.start]⟩
  | step hc hs hok ih => exact ih.step hcode hc.reachable.exclusive hs hok

end Locking

end Tx
