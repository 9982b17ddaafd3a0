import TelegramServer.Tx.Rules

/-!
# Watched transactions

A watched body does what the body does and returns, with its result or its error, the views
that its statements ran on. So a specification can speak of what a transaction observed, and
of why it failed. `wpw` is `wp` for watched bodies: `Q` is said of a result and `F` of an
error.
-/

namespace Tx

open List

variable {DB L O S E A B T : Type} {p : Prog DB L O S E A} {l : L} {e : E}

namespace Prog

/-- The body with the views of its statements, `vs` from before. It does not fail any more. -/
def watch : List DB → Prog DB L O S E A → Prog DB L O S Empty (Except E A × List DB)
  | vs, .ret a => .ret (.ok a, vs)
  | vs, .fail e => .ret (.error e, vs)
  | vs, .stmt need write next => .stmt need write fun v => (next v).watch (vs ++ [v])
  | vs, .draw seq next => .draw seq fun n => (next n).watch vs

def watchedEnd : Except E (Finish A) × List DB → Finish (Except E A × List DB)
  | (.ok (.commit a), vs) => .commit (.ok a, vs)
  | (.ok (.rollback a), vs) => .rollback (.ok a, vs)
  | (.error e, vs) => .rollback (.error e, vs)

/-- The whole body of a call, watched. -/
def watched (p : Prog DB L O S E (Finish A)) :
    Prog DB L O S Empty (Finish (Except E A × List DB)) :=
  p.watch [] >>= fun x => .ret (watchedEnd x)

theorem watch_bind (vs : List DB) (p : Prog DB L O S E A) (f : A → Prog DB L O S E B) :
    (p.bind f).watch vs = p.watch vs >>= fun x =>
      match x with
      | (.ok a, vs) => (f a).watch vs
      | (.error e, vs) => .ret (.error e, vs) := by
  change _ = Prog.bind _ _
  induction p generalizing vs with
  | ret | fail => rfl
  | stmt need write next ih | draw seq next ih => simp only [bind, watch, ih]

end Prog

/-! ## Every run can be watched -/

def Outcome.unwatched : Outcome (Except E A × List DB) Empty → Outcome A E
  | .done (.commit (.ok a, _)) => .done (.commit a)
  | .done (.rollback (.ok a, _)) => .done (.rollback a)
  | .done (.commit (.error e, _)) => .failed e
  | .done (.rollback (.error e, _)) => .failed e
  | .aborted => .aborted

def Record.unwatched (r : Record DB (Except E A × List DB) Empty T) : Record DB A E T :=
  ⟨r.call, r.pre, r.outcome.unwatched, r.post⟩

/-- The session, watched from the views `vs` on. -/
def Session.watchFrom (vs : List DB) (s : Session DB L O S E A T) :
    Session DB L O S Empty (Except E A × List DB) T :=
  ⟨s.call, s.body.watch vs >>= fun x => .ret (Prog.watchedEnd x), s.held, s.redo⟩

structure Config.Watches (c' : Config DB L O S Empty (Except E A × List DB) T)
    (c : Config DB L O S E A T) : Prop where
  db : c'.db = c.db
  none_ : ∀ i, c.open_ i = none → c'.open_ i = none
  some_ : ∀ i s, c.open_ i = some s → ∃ vs, c'.open_ i = some (s.watchFrom vs)
  log : c'.log.map Record.unwatched = c.log

/-- An assertion of a result, the views before it, the locks and the own state. -/
abbrev After (DB L A : Type) := A → List DB → Set L → DB → Prop

variable {Q : After DB L A} {R : Rows DB L O S}

namespace Config.Watches

variable {c' : Config DB L O S Empty (Except E A × List DB) T} {c : Config DB L O S E A T}
  {code : T → Prog DB L O S E (Finish A)}

theorem setSession (h : c'.Watches c) (i : Nat) (s : Session DB L O S E A T) (vs : List DB) :
    (c'.setSession i (s.watchFrom vs)).Watches (c.setSession i s) where
  db := h.db
  none_ j hj := by
    by_cases hji : j = i
    · subst hji
      simp [Config.setSession] at hj
    · have := h.none_ j (by simpa [Config.setSession, hji] using hj)
      simpa [Config.setSession, hji] using this
  some_ j s' hj := by
    by_cases hji : j = i
    · subst hji
      obtain rfl : s = s' := by simpa [Config.setSession] using hj
      exact ⟨vs, by simp [Config.setSession]⟩
    · have := h.some_ j s' (by simpa [Config.setSession, hji] using hj)
      simpa [Config.setSession, hji] using this
  log := h.log

theorem close (h : c'.Watches c) (i : Nat) (t : T) (o : Outcome (Except E A × List DB) Empty)
    (d : DB) : (c'.close i t o d).Watches (c.close i t o.unwatched d) where
  db := rfl
  none_ j hj := by
    by_cases hji : j = i
    · subst hji
      simp [Config.close]
    · have := h.none_ j (by simpa [Config.close, hji] using hj)
      simpa [Config.close, hji] using this
  some_ j s' hj := by
    obtain ⟨hji, hj'⟩ := Config.open_of_close hj
    simpa [Config.close, hji] using h.some_ j s' hj'
  log := by simp [Config.close, Record.unwatched, h.log, h.db]

theorem free (h : c'.Watches c) {i : Nat} (hf : c.Free R i l) : c'.Free R i l := by
  intro j s hj hs
  cases ho : c.open_ j with
  | none =>
    rw [h.none_ j ho] at hs
    cases hs
  | some s' =>
    obtain ⟨vs, hvs⟩ := h.some_ j s' ho
    obtain rfl := Option.some.inj (hvs.symm.trans hs)
    exact hf j s' hj ho

theorem step (h : c'.Watches c) {c₁ : Config DB L O S E A T}
    (hs : Step R code c c₁) : ∃ c₁', Step R (fun t => (code t).watched) c' c₁' ∧
    c₁'.Watches c₁ := by
  cases hs with
  | begin i t hi =>
    exact ⟨_, .begin c' i t (h.none_ i hi), h.setSession i ⟨t, code t, [], []⟩ []⟩
  | stmt i t held redo need write next hi hfree =>
    obtain ⟨vs, hvs⟩ := h.some_ i _ hi
    have hfree' : ∀ l ∈ need (R.replay redo c'.db), c'.Free R i l :=
      fun l hl => h.free (hfree l (h.db ▸ hl))
    refine ⟨_, .stmt c' i t held redo need write _ hvs hfree', ?_⟩
    rw [h.db]
    exact h.setSession i ⟨t, _, _, _⟩ _
  | draw i t held redo seq next n hi hpos hnew hown hfree =>
    obtain ⟨vs, hvs⟩ := h.some_ i _ hi
    exact ⟨_, .draw c' i t held redo seq _ n hvs hpos (h.db ▸ hnew) hown (h.free hfree),
      h.setSession i ⟨t, next n, _, redo⟩ vs⟩
  | commit i t held redo a hi =>
    obtain ⟨vs, hvs⟩ := h.some_ i _ hi
    exact ⟨_, .commit c' i t held redo _ hvs, h.db ▸ h.close i t (.done (.commit (.ok a, vs))) _⟩
  | rollback i t held redo a hi =>
    obtain ⟨vs, hvs⟩ := h.some_ i _ hi
    exact ⟨_, .rollback c' i t held redo _ hvs,
      h.db ▸ h.close i t (.done (.rollback (.ok a, vs))) _⟩
  | fail i t held redo e hi =>
    obtain ⟨vs, hvs⟩ := h.some_ i _ hi
    exact ⟨_, .rollback c' i t held redo _ hvs,
      h.db ▸ h.close i t (.done (.rollback (.error e, vs))) _⟩
  | abort i s hi =>
    obtain ⟨vs, hvs⟩ := h.some_ i _ hi
    exact ⟨_, .abort c' i _ hvs, h.db ▸ h.close i s.call .aborted _⟩

end Config.Watches

variable {c : Config DB L O S E A T}

/-- Watching does not keep a run from happening. -/
theorem Reachable.exists_watched {d₀ : DB} (hc : Reachable R code d₀ c) :
    ∃ c', Reachable R (fun t => (code t).watched) d₀ c' ∧ c'.Watches c := by
  induction hc with
  | start => exact ⟨_, .start, ⟨rfl, fun _ _ => rfl, (fun _ _ hs => nomatch hs), rfl⟩⟩
  | step _ hs ih =>
    obtain ⟨c', hc', hw⟩ := ih
    obtain ⟨c₁', hs', hw'⟩ := hw.step hs
    exact ⟨c₁', hc'.step hs', hw'⟩

namespace Locking

variable (K : Locking DB L O S)

/-- What the end of a watched body has to satisfy. -/
def Ends (Q : A → List DB → Set L → DB → Prop) (F : E → List DB → Prop) :
    Except E A × List DB → Set L → DB → Prop
  | (.ok a, vs), H, w => Q a vs H w
  | (.error e, vs), _, _ => F e vs

def wpw (p : Prog DB L O S E A) (vs : List DB) (H : Set L) (w : DB)
    (Q : A → List DB → Set L → DB → Prop) (F : E → List DB → Prop) : Prop :=
  K.wp (p.watch vs) ⟨H, fun _ => True⟩ w fun x G w => Ends Q F x G.held w

variable {K} {H : Set L} {vs : List DB} {w : DB} {F : E → List DB → Prop}
  {f : A → Prog DB L O S E B}

structure Viewed (K : Locking DB L O S) (H : Set L) (v w : DB) : Prop where
  grows : K.grows v w
  stable : ∀ l ∈ H, K.stable l v w

theorem wpw_pure {a : A} (h : Q a vs H w) : K.wpw (pure a) vs H w Q F := h

theorem wpw_fail (h : F e vs) : K.wpw (.fail e) vs H w Q F := h

theorem wpw_stmt {need : DB → List L} {write : DB → List O} {next : DB → Prog DB L O S E A}
    (h : ∀ v, K.Viewed (H ∪ {l | l ∈ need v}) v w →
      K.Ascends H (need v) ∧ K.Covered (write v) (H ∪ {l | l ∈ need v}) ∧
        K.wpw (next v) (vs ++ [v]) (H ∪ {l | l ∈ need v}) (K.replay (write v) w) Q F) :
    K.wpw (.stmt need write next) vs H w Q F := by
  intro v hv
  obtain ⟨ha, hcov, hnext⟩ := h v ⟨hv.grows, hv.stable⟩
  exact ⟨ha, hcov, fun _ => True, fun _ _ => trivial, hnext⟩

theorem wpw_mono {Q' : After DB L A} {F' : E → List DB → Prop}
    (h : K.wpw p vs H w Q F) (hQ : ∀ a vs' H' w', H ⊆ H' → Q a vs' H' w' → Q' a vs' H' w')
    (hF : ∀ e vs', F e vs' → F' e vs' := by exact fun _ _ h => h) : K.wpw p vs H w Q' F' := by
  refine wp_mono h fun x G' w' hsub hx => ?_
  obtain ⟨r, vs'⟩ := x
  cases r with
  | ok a => exact hQ a vs' _ w' hsub hx
  | error e => exact hF e vs' hx

theorem wpw_bind {Q : After DB L B}
    (h : K.wpw p vs H w (fun a vs' H' w' => K.wpw (f a) vs' H' w' Q F) F) :
    K.wpw (p >>= f) vs H w Q F := by
  change K.wp ((p.bind f).watch vs) _ w _
  rw [Prog.watch_bind]
  refine wp_bind (wp_mono h fun x G w' _ hx => ?_)
  obtain ⟨r, vs'⟩ := x
  cases r with
  | ok a =>
    have hf : K.wpw (f a) vs' G.held w' Q F := hx
    exact wp_seen (Q := Ends Q F) hf fun _ _ => trivial
  | error e => exact hx

theorem wpw_query {q : DB → A} (h : ∀ v, K.Viewed H v w → Q (q v) (vs ++ [v]) H w) :
    K.wpw (.query q : Prog DB L O S E A) vs H w Q F := by
  refine wpw_stmt fun v hv => ?_
  have hnil : {l : L | l ∈ ([] : List L)} = ∅ := by simp
  rw [hnil, Set.union_empty] at hv ⊢
  exact ⟨K.ascends_nil _, covered_nil _, h v hv⟩

theorem wpw_exec_ {o : O} {Q : After DB L Unit}
    (ho : ∀ l ∈ K.guards o, l ∈ H) (h : ∀ v, K.Viewed H v w → Q () (vs ++ [v]) H (K.apply o w)) :
    K.wpw (.exec_ o : Prog DB L O S E Unit) vs H w Q F := by
  refine wpw_stmt fun v hv => ?_
  have hnil : {l : L | l ∈ ([] : List L)} = ∅ := by simp
  rw [hnil, Set.union_empty] at hv ⊢
  refine ⟨K.ascends_nil _, fun o' ho' l hl => ?_, h v hv⟩
  rw [mem_singleton.mp ho'] at hl
  exact ho l hl

theorem wpw_orFail {x : Option A} (hnone : x = none → F e vs) (h : ∀ a, x = some a → Q a vs H w) :
    K.wpw (.orFail e x : Prog DB L O S E A) vs H w Q F := by
  cases x with
  | none => exact hnone rfl
  | some a => exact h a rfl

theorem wpw_queryOrFail {q : DB → Option A} {Q : After DB L B}
    (h : ∀ v a, K.Viewed H v w → q v = some a → K.wpw (f a) (vs ++ [v]) H w Q F)
    (hF : ∀ vs, F e vs := by first | assumption | exact fun _ => trivial) :
    K.wpw (.query q >>= fun x => .orFail e x >>= f) vs H w Q F :=
  wpw_bind (wpw_query fun v hv => wpw_bind (wpw_orFail (fun _ => hF _) fun a ha => h v a hv ha))

theorem wpw_lock {Q : After DB L Unit} (hl : ¬ K.drawnOnly l) (ha : l ∈ H ∨ ∀ l' ∈ H, K.below l' l)
    (h : ∀ v, K.Viewed (H ∪ {l}) v w → Q () (vs ++ [v]) (H ∪ {l}) w) :
    K.wpw (.lock l : Prog DB L O S E Unit) vs H w Q F := by
  refine wpw_stmt fun v hv => ?_
  have hset : {l' | l' ∈ [l]} = ({l} : Set L) := by ext; simp
  rw [hset] at hv ⊢
  exact ⟨⟨by simp, by simpa using ha, by simpa using hl⟩, covered_nil _, h v hv⟩

theorem wpw_lockAll {ls : List L} {Q : After DB L Unit}
    (hls : ls.Pairwise K.below) (hd : ∀ l ∈ ls, ¬ K.drawnOnly l)
    (ha : ∀ l ∈ ls, l ∈ H ∨ ∀ l' ∈ H, K.below l' l) (h : ∀ vs', Q () vs' (H ∪ {l | l ∈ ls}) w) :
    K.wpw (.lockAll ls : Prog DB L O S E Unit) vs H w Q F := by
  induction ls generalizing H vs with
  | nil =>
    have hnil : {l : L | l ∈ ([] : List L)} = ∅ := by simp
    rw [hnil, Set.union_empty] at h
    exact h vs
  | cons l ls ih =>
    obtain ⟨hl, hls⟩ := pairwise_cons.mp hls
    refine wpw_bind (wpw_lock (hd l (by simp)) (ha l (by simp)) fun v _ =>
      ih hls (fun l' hl' => hd l' (by simp [hl'])) (fun l' hl' => ?_) fun vs' => ?_)
    · rcases ha l' (by simp [hl']) with hheld | hnew
      · exact .inl (.inl hheld)
      · refine .inr fun l'' hl'' => ?_
        rcases hl'' with hl'' | rfl
        · exact hnew l'' hl''
        · exact hl l' hl'
    · have hset : H ∪ {l} ∪ {l' | l' ∈ ls} = H ∪ {l' | l' ∈ l :: ls} := by
        ext
        simp only [Set.mem_union, Set.mem_singleton_iff, Set.mem_ofPred_eq, mem_cons, or_assoc]
      rw [hset]
      exact h vs'

def Ended (P : T → DB → Except E A → List DB → DB → Prop) (t : T) (d : DB) :
    Finish A → List DB → Set L → DB → Prop
  | .commit a, vs, _, w => P t d (.ok a) vs w
  | .rollback a, vs, _, _ => P t d (.ok a) vs d

def RecordMeets (P : T → DB → Except E A → List DB → DB → Prop) (r : Record DB A E T) : Prop :=
  match r.outcome with
  | .done (.commit a) => ∃ vs, P r.call r.pre (.ok a) vs r.post
  | .done (.rollback a) => r.post = r.pre ∧ ∃ vs, P r.call r.pre (.ok a) vs r.pre
  | .failed e => r.post = r.pre ∧ ∃ vs, P r.call r.pre (.error e) vs r.pre
  | .aborted => r.post = r.pre

section Soundness

variable {P : T → DB → Except E A → List DB → DB → Prop} {code : T → Prog DB L O S E (Finish A)}
  {d₀ : DB}

omit K in
theorem leads_unwatched {rs : List (Record DB (Except E A × List DB) Empty T)} {d d' : DB}
    (h : Leads rs d d') : Leads (rs.map Record.unwatched) d d' := by
  induction rs generalizing d with
  | nil => exact h
  | cons r rs ih => exact ⟨h.1, ih h.2⟩

variable (hcode : ∀ t d, K.wpw (code t) [] ∅ d (Ended P t d) fun e vs => P t d (.error e) vs d)

include hcode

section

variable {c : Config DB L O S Empty (Except E A × List DB) T}
  (hc : Reachable K.toRows (fun t => (code t).watched) d₀ c)

include hc

theorem watched_sound :
    K.ConfigOk (fun _ => True) (fun t d x w => P t d x.1 x.2 w ∧ ∀ e, x.1 = .error e →
      w = d) d₀ c := by
  refine sound (fun t d _ => wp_bind (wp_mono (hcode t d) fun x G w _ hx => ?_)) trivial hc
  obtain ⟨r, vs⟩ := x
  match r, hx with
  | .ok (.commit a), hx => exact ⟨trivial, hx, fun _ h => nomatch h⟩
  | .ok (.rollback a), hx => exact ⟨hx, fun _ _ => rfl⟩
  | .error e, hx => exact ⟨hx, fun _ _ => rfl⟩

/-- What a watched call of a run returns is what `P` says. -/
theorem watched_answer {r : Record DB (Except E A × List DB) Empty T} (hr : r ∈ c.log)
    {x : Except E A} (hx : r.outcome.answer = some (x, vs)) : P r.call r.pre x vs r.post := by
  obtain ⟨-, -, -, hout⟩ := (watched_sound hcode hc).records r hr
  obtain ⟨t, pre, outcome, post⟩ := r
  match outcome, hx, hout with
  | .done (.commit y), hx, hout =>
    cases hx
    exact hout.1
  | .done (.rollback y), hx, hout =>
    cases hx
    have hpost : post = pre := hout.2
    exact hpost ▸ hout.1.1

/-- A watched call that committed a result did what `P` says, and every other one changed
nothing. -/
theorem watched_records : Leads c.log d₀ c.db ∧ ∀ r ∈ c.log,
      (∃ a vs, r.outcome = .done (.commit (.ok a, vs)) ∧ P r.call r.pre (.ok a) vs r.post) ∨
        r.post = r.pre := by
  have hok := watched_sound hcode hc
  refine ⟨hok.leads, fun r hr => ?_⟩
  obtain ⟨-, -, -, hout⟩ := hok.records r hr
  obtain ⟨t, pre, outcome, post⟩ := r
  match outcome, hout with
  | .done (.commit (.ok a, vs)), hout => exact .inl ⟨a, vs, rfl, hout.1⟩
  | .done (.commit (.error e, vs)), hout => exact .inr (hout.2 e rfl)
  | .done (.rollback _), hout => exact .inr hout.2
  | .aborted, hout => exact .inr hout

end

/-- What watched calls are known to do, the calls of every run do. -/
theorem records_meet (hc : Reachable K.toRows code d₀ c) :
    Leads c.log d₀ c.db ∧ ∀ r ∈ c.log, RecordMeets P r := by
  obtain ⟨c', hc', hw⟩ := hc.exists_watched
  have hok := watched_sound hcode hc'
  rw [← hw.db, ← hw.log]
  refine ⟨leads_unwatched hok.leads, fun r hr => ?_⟩
  obtain ⟨r', hr', rfl⟩ := mem_map.mp hr
  obtain ⟨-, -, -, hout⟩ := hok.records r' hr'
  obtain ⟨t, pre, outcome, post⟩ := r'
  match outcome, hout with
  | .done (.commit (.ok a, vs)), hout => exact ⟨vs, hout.1⟩
  | .done (.rollback (.ok a, vs)), hout => exact ⟨hout.2, vs, hout.1.1⟩
  | .done (.commit (.error e, vs)), hout =>
    have hpost : post = pre := hout.2 e rfl
    exact ⟨hpost, vs, hpost ▸ hout.1⟩
  | .done (.rollback (.error e, vs)), hout => exact ⟨hout.2, vs, hout.1.1⟩
  | .aborted, hout => exact hout

end Soundness

/-! ## Why calls fail -/

variable {G : Ctx DB L} {F : E → Prop}

theorem wpf_orFail {x : Option A} {Q : A → Ctx DB L → DB → Prop} (hnone : x = none → F e)
    (h : ∀ a, x = some a → Q a G w) : K.wpf (.orFail e x : Prog DB L O S E A) G w Q F := by
  cases x with
  | none => exact hnone rfl
  | some a => exact h a rfl

theorem wp_watch_of_wpf {Q : A → DB → Prop} (h : K.wpf p G w (fun a _ w => Q a w) F)
    (vs : List DB) :
    K.wp (p.watch vs) G w fun x _ w => Ends (fun a _ (_ : Set L) w => Q a w)
      (fun e _ => F e) x ∅ w := by
  induction p generalizing G w vs with
  | ret | fail => exact h
  | stmt need write next ih =>
    intro v hv
    obtain ⟨ha, hc, seen, hseen, hn⟩ := h v hv
    exact ⟨ha, hc, seen, hseen, ih v hn (vs ++ [v])⟩
  | draw seq next ih => exact fun n hn hu => ih n (h n hn hu) vs

variable {Inv : DB → Prop} {P : T → DB → A → DB → Prop} {F : T → DB → E → Prop}
  {code : T → Prog DB L O S E (Finish A)} {d₀ : DB}

/-- What a watched call returns: a result with the invariant kept, or an error that changes
nothing. -/
def Faulty (P : T → DB → A → DB → Prop) (F : T → DB → E → Prop) (t : T) (d : DB)
    (x : Except E A × List DB) (w : DB) : Prop :=
  match x.1 with
  | .ok a => P t d a w
  | .error e => F t d e ∧ w = d

/-- Every failed call failed for one of its reasons. -/
theorem faults_sound
    (hcode : ∀ t d, Inv d → K.wpf (code t) (.start Inv) d (fun r _ w => Good Inv P t d w r) (F t d))
    (h₀ : Inv d₀) (hc : Reachable K.toRows code d₀ c)
    {r : Record DB A E T} (hr : r ∈ c.log) (he : r.outcome = .failed e) :
    F r.call r.pre e := by
  obtain ⟨c', hc', hw⟩ := hc.exists_watched
  have hok : K.ConfigOk Inv (Faulty P F) d₀ c' := by
    refine sound (fun t d hd => wp_bind (wp_mono (wp_watch_of_wpf (hcode t d hd) []) ?_)) h₀ hc'
    rintro ⟨x, vs⟩ G w - hx
    match x, hx with
    | .ok (.commit a), hx => exact hx
    | .ok (.rollback a), hx => exact hx
    | .error e, hx => exact ⟨hx, rfl⟩
  rw [← hw.log] at hr
  obtain ⟨r', hr', rfl⟩ := List.mem_map.mp hr
  obtain ⟨-, -, -, hout⟩ := hok.records r' hr'
  obtain ⟨t, pre, outcome, post⟩ := r'
  match outcome, he, hout with
  | .done (.commit (.error e, vs)), he, hout =>
    obtain rfl := Outcome.failed.inj he
    exact hout.1
  | .done (.rollback (.error e, vs)), he, hout =>
    obtain rfl := Outcome.failed.inj he
    exact hout.1.1

end Locking

end Tx
