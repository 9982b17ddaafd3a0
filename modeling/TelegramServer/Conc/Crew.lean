import TelegramServer.Conc.Machine
import TelegramServer.Conc.Program

/-!
# Calls that own something

Calls run at the same time on one shared state, and each of them is told its number. So the state
can say what belongs to which call, and a call keeps what it knows as long as the others leave alone
what is not theirs. Each call keeps a trace of its sections, with the state that each of them found
and the one that it left.
-/

namespace Conc

open List

variable {S L A B C E : Type} {c : C} {s : S}

structure Section (S L : Type) where
  label : L
  pre : S
  post : S

abbrev Trace (S L : Type) := List (Section S L)

structure Running (S L A C : Type) where
  call : C
  past : Trace S L
  rest : Prog S L Empty A

structure Pool (S L A C : Type) where
  shared : S
  calls : List (Running S L A C) := []

def Prog.alone : Prog S L Empty A → S → Option (A × S)
  | .ret a, s => some (a, s)
  | .step _ run next, s => (next s).alone (run s)
  | _, _ => none

def Running.answer (r : Running S L A C) : Option A :=
  match r.rest with
  | .ret a => some a
  | _ => none

variable {Q : A → Trace S L → (S → Prop) → Prop} {a : A} {i : Nat} {l : L}
  {next : S → Prog S L Empty A} {r : Running S L A C}

theorem Running.rest_of_answer (h : r.answer = some a) : r.rest = .ret a := by
  unfold answer at h
  split at h
  · rename_i hrest
    rw [hrest, Option.some.inj h]
  · cases h

/-- The code of a call with its number, and the moves of the environment. -/
structure Crew (S L A C E : Type) where
  code : Nat → C → Prog S L Empty A
  env : S → E → Option S

namespace Crew

inductive Move (C E : Type) : Type where
  | env (e : E)
  | start (c : C)
  | run (i : Nat)

variable (K : Crew S L A C E)

def turn (p : Pool S L A C) : Move C E → Option (Pool S L A C)
  | .env e => (K.env p.shared e).map fun s => ⟨s, p.calls⟩
  | .start c => some ⟨p.shared, p.calls ++ [⟨c, [], K.code p.calls.length c⟩]⟩
  | .run i =>
    match p.calls[i]? with
    | some ⟨c, past, .step l run next⟩ =>
      some ⟨run p.shared, p.calls.set i ⟨c, past ++ [⟨l, p.shared, run p.shared⟩], next p.shared⟩⟩
    | _ => none

def machine : Machine (Pool S L A C) (Move C E) := ⟨K.turn⟩

def AllowedNext (ok : L → S → Prop) (s : S) : Option (Running S L A C) → Prop
  | some ⟨_, _, .step l _ _⟩ => ok l s
  | _ => True

instance (ok : L → S → Prop) [∀ l s, Decidable (ok l s)] (s : S) :
    (r : Option (Running S L A C)) → Decidable (AllowedNext ok s r)
  | some ⟨_, _, .step l _ _⟩ => inferInstanceAs (Decidable (ok l s))
  | some ⟨_, _, .ret _⟩ => isTrue trivial
  | some ⟨_, _, .halt⟩ => isTrue trivial
  | some ⟨_, _, .input _⟩ => isTrue trivial
  | none => isTrue trivial

def Allowed (ok : L → S → Prop) (p : Pool S L A C) : Move C E → Prop
  | .run i => AllowedNext ok p.shared p.calls[i]?
  | _ => True

instance (ok : L → S → Prop) [∀ l s, Decidable (ok l s)] (p : Pool S L A C) :
    (m : Move C E) → Decidable (Allowed ok p m)
  | .run i => inferInstanceAs (Decidable (AllowedNext ok p.shared p.calls[i]?))
  | .env _ => isTrue trivial
  | .start _ => isTrue trivial

/-- What the runs reach whose sections all run where `ok` allows it. -/
def Reach (ok : L → S → Prop) (s₀ : S) : Pool S L A C → Prop :=
  K.machine.Reach (Allowed ok) ⟨s₀, []⟩

def play (ok : L → S → Prop) [∀ l s, Decidable (ok l s)] (s₀ : S) (ms : List (Move C E)) :
    Option (Pool S L A C) :=
  K.machine.run (Allowed ok) ⟨s₀, []⟩ ms

variable {K} {p p' : Pool S L A C} {s₀ : S} {ok ok' : L → S → Prop} {ms : List (Move C E)}

theorem Allowed.run (h : Allowed ok p (.run i : Move C E)) {past : Trace S L} {run : S → S}
    (hi : p.calls[i]? = some ⟨c, past, .step l run next⟩) : ok l p.shared := by
  simpa [Allowed, AllowedNext, hi] using h

theorem allowed_of_forall (h : ∀ l s, ok l s) (m : Move C E) : Allowed ok p m := by
  cases m with
  | run i =>
    cases hi : p.calls[i]? with
    | none => simp [Allowed, AllowedNext, hi]
    | some r =>
      obtain ⟨c, past, rest⟩ := r
      cases rest <;> simp [Allowed, AllowedNext, hi, h]
  | _ => trivial

theorem exists_play [∀ l s, Decidable (ok l s)] {P : Pool S L A C → Prop} [DecidablePred P]
    (ms : List (Move C E)) (h : (K.play ok s₀ ms).any P) : ∃ p, K.Reach ok s₀ p ∧ P p :=
  Machine.exists_reach ms h

theorem turn_env {e : E} (h : K.turn p (.env e) = some p') :
    ∃ s, K.env p.shared e = some s ∧ p' = ⟨s, p.calls⟩ := by
  obtain ⟨s, hs, rfl⟩ := Option.map_eq_some_iff.mp h
  exact ⟨s, hs, rfl⟩

theorem turn_run (h : K.turn p (.run i) = some p') :
    ∃ c past l run next, p.calls[i]? = some ⟨c, past, .step l run next⟩ ∧ p' = ⟨run p.shared,
        p.calls.set i ⟨c, past ++ [⟨l, p.shared, run p.shared⟩], next p.shared⟩⟩ := by
  simp only [turn] at h
  split at h
  · rename_i c past l run next hi
    exact ⟨c, past, l, run, next, hi, (Option.some.inj h).symm⟩
  · cases h

theorem turn_call {m : Move C E} (h : K.turn p m = some p') (hr : p.calls[i]? = some r) :
    ∃ r', p'.calls[i]? = some r' ∧ r'.call = r.call := by
  cases m with
  | env e =>
    obtain ⟨s, -, rfl⟩ := turn_env h
    exact ⟨r, hr, rfl⟩
  | start c =>
    cases h
    refine ⟨r, ?_, rfl⟩
    rw [getElem?_append_left (List.getElem?_eq_some_iff.mp hr).1, hr]
  | run j =>
    obtain ⟨c, past, l, run, next, hj, rfl⟩ := turn_run h
    by_cases hij : j = i
    · subst hij
      obtain rfl := Option.some.inj (hj.symm.trans hr)
      exact ⟨⟨c, _, _⟩, getElem?_set_self (List.getElem?_eq_some_iff.mp hr).1, rfl⟩
    · exact ⟨r, by rw [getElem?_set_ne hij, hr], rfl⟩

/-- The program comes to `q` by the given sections. -/
def Leads : Trace S L → Prog S L Empty A → Prog S L Empty A → Prop
  | [], p, q => p = q
  | x :: xs, .step l run next, q => x.label = l ∧ x.post = run x.pre ∧ Leads xs (next x.pre) q
  | _ :: _, _, _ => False

theorem Leads.snoc {q : Prog S L Empty A} {xs : Trace S L} {run : S → S}
    (h : Leads xs q (.step l run next)) (s : S) : Leads (xs ++ [⟨l, s, run s⟩]) q (next s) := by
  induction xs generalizing q with
  | nil =>
    obtain rfl : q = .step l run next := h
    exact ⟨rfl, rfl, rfl⟩
  | cons x xs ih =>
    cases q with
    | step l' run' next' => exact ⟨h.1, h.2.1, ih h.2.2⟩
    | _ => exact h.elim

theorem leads_past (hp : K.Reach ok s₀ p) (hr : p.calls[i]? = some r) :
    Leads r.past (K.code i r.call) r.rest := by
  refine Machine.Reach.invariant (I := fun q : Pool S L A C => ∀ (i : Nat) (r : Running S L A C),
    q.calls[i]? = some r → Leads r.past (K.code i r.call) r.rest) hp (by simp) ?_ i r hr
  intro q m q' ih _ ht j r hr
  change K.turn q m = some q' at ht
  cases m with
  | env e =>
    obtain ⟨s, -, rfl⟩ := turn_env ht
    exact ih j r hr
  | start c =>
    cases ht
    rw [getElem?_append] at hr
    split at hr
    · exact ih j r hr
    · rename_i hge
      cases hj : j - q.calls.length with
      | zero =>
        obtain rfl : ⟨c, [], K.code q.calls.length c⟩ = r := by simpa [hj] using hr
        obtain rfl : j = q.calls.length := by omega
        rfl
      | succ k => simp [hj] at hr
  | run k =>
    obtain ⟨c, past, l, run, next, hk, rfl⟩ := turn_run ht
    by_cases hkj : k = j
    · subst hkj
      have hlt := (List.getElem?_eq_some_iff.mp hk).1
      obtain rfl : ⟨c, past ++ [⟨l, q.shared, run q.shared⟩], next q.shared⟩ = r := by
        simpa [hlt] using hr
      exact (ih k _ hk).snoc q.shared
    · rw [getElem?_set_ne hkj] at hr
      exact ih j r hr

end Crew

/-- What always holds, where sections are looked at, what the environment and the calls do to the
state, and what is known of a number that no call has yet. -/
structure Rules (S L C : Type) where
  inv : S → Prop
  ok : L → S → Prop
  env : S → S → Prop
  may : Nat → C → Trace S L → L → S → S → Prop
  fresh : Nat → S → Prop

namespace Rules

variable (R : Rules S L C)

def Beside (me : Nat) (s s' : S) : Prop :=
  R.env s s' ∨ ∃ n c past l, n ≠ me ∧ R.may n c past l s s'

def Kept (me : Nat) (P : S → Prop) : Prop :=
  ∀ s s', R.inv s → R.inv s' → R.Beside me s s' → P s → P s'

/-- `rely me c p past P Q`: the call `c` with this past, of which `P` is known to hold of the state,
goes on as `p` to an end in `Q`, and does only what it may. -/
def rely (me : Nat) (c : C) :
    Prog S L Empty A → Trace S L → (S → Prop) → (A → Trace S L → (S → Prop) → Prop) → Prop
  | .ret a, past, P, Q => Q a past P
  | .halt, _, _, _ => True
  | .step l run next, past, P, Q =>
    ∀ s, R.inv s → P s → R.ok l s → R.may me c past l s (run s) ∧
      ∃ P' : S → Prop, P' (run s) ∧ R.Kept me P' ∧ rely me c (next s) (past ++ [⟨l, s, run s⟩]) P' Q
  | .input next, past, P, Q => ∀ i, rely me c (next i) past P Q

variable {R} {me : Nat} {past : Trace S L} {P P' : S → Prop} {p : Prog S L Empty A}

theorem kept_true : R.Kept me fun _ => True := fun _ _ _ _ _ _ => trivial

/-- Nothing is known from here on. -/
theorem forget {T : (S → Prop) → Prop} (h : T fun _ => True) :
    ∃ P' : S → Prop, P' s ∧ R.Kept me P' ∧ T P' :=
  ⟨fun _ => True, trivial, kept_true, h⟩

theorem Kept.and (h : R.Kept me P) (h' : R.Kept me P') : R.Kept me fun s => P s ∧ P' s :=
  fun s s' hi hi' hb hp => ⟨h s s' hi hi' hb hp.1, h' s s' hi hi' hb hp.2⟩

theorem rely_pure (h : Q a past P) : R.rely me c (pure a) past P Q := h

theorem rely_bind {f : A → Prog S L Empty B} {Q : B → Trace S L → (S → Prop) → Prop}
    (h : R.rely me c p past P fun a past' P' => R.rely me c (f a) past' P' Q) :
    R.rely me c (p >>= f) past P Q := by
  suffices hiff : R.rely me c (p.bind f) past P Q ↔ _ from hiff.mpr h
  clear h
  induction p generalizing past P with
  | ret | halt => rfl
  | step l run next ih | input next ih => simp only [Prog.bind, rely, ih]

theorem rely_mono {Q' : A → Trace S L → (S → Prop) → Prop}
    (h : R.rely me c p past P Q) (hQ : ∀ a past' P', Q a past' P' → Q' a past' P') :
    R.rely me c p past P Q' := by
  induction p generalizing past P with
  | ret a => exact hQ a past P h
  | halt => trivial
  | step l run next ih =>
    intro s hi hs hok
    obtain ⟨hmay, P', hP', hkept, hnext⟩ := h s hi hs hok
    exact ⟨hmay, P', hP', hkept, ih s hnext⟩
  | input next ih => exact fun i => ih i (h i)

theorem rely_atomic {f : S → A × S}
    (h : ∀ s, R.inv s → P s → R.ok l s → R.may me c past l s (f s).2 ∧
      ∃ P' : S → Prop, P' (f s).2 ∧ R.Kept me P' ∧ Q (f s).1 (past ++ [⟨l, s, (f s).2⟩]) P') :
    R.rely me c (.atomic l f) past P Q :=
  h

end Rules

/-! ## Soundness over the runs -/

/-- The crew keeps to the rules, and a call `c` with the number `n` ends in `Q n c`. -/
structure Rules.Sound (R : Rules S L C) (K : Crew S L A C E) (s₀ : S)
    (Q : Nat → C → A → Trace S L → (S → Prop) → Prop) : Prop where
  init : R.inv s₀
  init_fresh : ∀ n, R.fresh n s₀
  env : ∀ s e s', R.inv s → K.env s e = some s' → R.env s s' ∧ R.inv s'
  may : ∀ n c past l s s', R.inv s → R.may n c past l s s' → R.inv s'
  fresh : ∀ n, R.Kept n (R.fresh n)
  code : ∀ n c, R.rely n c (K.code n c) [] (R.fresh n) (Q n c)

namespace Rules.Sound

variable {R : Rules S L C} {K : Crew S L A C E} {s₀ : S}
  {Q : Nat → C → A → Trace S L → (S → Prop) → Prop} {p p' : Pool S L A C}

def Relies (R : Rules S L C) (Q : Nat → C → A → Trace S L → (S → Prop) → Prop) (i : Nat) (s : S)
    (r : Running S L A C) : Prop :=
  (∀ before x after, r.past = before ++ x :: after →
      R.inv x.pre ∧ R.ok x.label x.pre ∧ R.may i r.call before x.label x.pre x.post) ∧
    ∃ P : S → Prop, P s ∧ R.Kept i P ∧ R.rely i r.call r.rest r.past P (Q i r.call)

/-- What is known of the pool: the invariant, the numbers that are not taken, and every call. -/
structure Fine (R : Rules S L C) (Q : Nat → C → A → Trace S L → (S → Prop) → Prop)
    (p : Pool S L A C) : Prop where
  inv : R.inv p.shared
  fresh : ∀ n, p.calls.length ≤ n → R.fresh n p.shared
  calls : ∀ (i : Nat) (r : Running S L A C), p.calls[i]? = some r → Relies R Q i p.shared r

theorem Relies.beside {s' : S} (h : Relies R Q i s r) (hi : R.inv s) (hi' : R.inv s')
    (hb : R.Beside i s s') : Relies R Q i s' r := by
  obtain ⟨hpast, P, hP, hkept, hrely⟩ := h
  exact ⟨hpast, P, hkept s s' hi hi' hb hP, hkept, hrely⟩

theorem Relies.run {past : Trace S L} {run : S → S}
    (h : Relies R Q i s ⟨c, past, .step l run next⟩) (hi : R.inv s) (hok : R.ok l s) :
    R.may i c past l s (run s) ∧ Relies R Q i (run s) ⟨c, past ++ [⟨l, s, run s⟩], next s⟩ := by
  obtain ⟨hpast, P, hP, -, hrely⟩ := h
  obtain ⟨hmay, P', hP', hkept, hnext⟩ := hrely s hi hP hok
  refine ⟨hmay, ?_, P', hP', hkept, hnext⟩
  intro before x after heq
  rcases append_eq_append_iff.mp heq with ⟨mid, hbefore, hafter⟩ | ⟨mid, hold, hrest⟩
  · cases mid with
    | nil =>
      obtain ⟨rfl, -⟩ := List.cons.inj hafter
      rw [append_nil] at hbefore
      subst hbefore
      exact ⟨hi, hok, hmay⟩
    | cons y mid => simp at hafter
  · cases mid with
    | nil =>
      obtain ⟨rfl, -⟩ := List.cons.inj hrest
      rw [append_nil] at hold
      subst hold
      exact ⟨hi, hok, hmay⟩
    | cons y mid =>
      obtain ⟨rfl, -⟩ := List.cons.inj hrest
      exact hpast _ _ _ hold

variable (hR : R.Sound K s₀ Q)

include hR

variable {m : Crew.Move C E}

theorem Fine.turn (hp : Fine R Q p)
    (ht : K.turn p m = some p') (hok : Crew.Allowed R.ok p m) : Fine R Q p' := by
  cases m with
  | env e =>
    obtain ⟨s, hs, rfl⟩ := Crew.turn_env ht
    obtain ⟨henv, hi⟩ := hR.env _ _ _ hp.inv hs
    exact ⟨hi, fun n hn => hR.fresh n _ _ hp.inv hi (.inl henv) (hp.fresh n hn),
      fun i r hr => (hp.calls i r hr).beside hp.inv hi (.inl henv)⟩
  | start c =>
    cases ht
    refine ⟨hp.inv, fun n hn => hp.fresh n ?_, fun i r hr => ?_⟩
    · rw [length_append] at hn
      omega
    · rw [getElem?_append] at hr
      split at hr
      · exact hp.calls i r hr
      · rename_i hge
        obtain ⟨hi, rfl⟩ : i = p.calls.length ∧ ⟨c, [], K.code p.calls.length c⟩ = r := by
          cases hi : i - p.calls.length with
          | zero => exact ⟨by omega, by simpa [hi] using hr⟩
          | succ k => simp [hi] at hr
        subst hi
        exact ⟨fun before x after heq => by simp at heq, R.fresh _, hp.fresh _ (Nat.le_refl _),
          hR.fresh _, hR.code _ c⟩
  | run i =>
    obtain ⟨c, past, l, run, next, hi, rfl⟩ := Crew.turn_run ht
    obtain ⟨hmay, hrun⟩ := (hp.calls i _ hi).run hp.inv (hok.run hi)
    have hinv := hR.may _ _ _ _ _ _ hp.inv hmay
    have hbeside : ∀ j, j ≠ i → R.Beside j p.shared (run p.shared) := fun j hj =>
      .inr ⟨i, c, past, l, Ne.symm hj, hmay⟩
    have hlt : i < p.calls.length := (List.getElem?_eq_some_iff.mp hi).1
    refine ⟨hinv, fun n hn => ?_, fun j r hr => ?_⟩
    · rw [length_set] at hn
      exact hR.fresh n _ _ hp.inv hinv (hbeside n (by omega)) (hp.fresh n hn)
    · by_cases hji : j = i
      · subst hji
        obtain rfl : ⟨c, past ++ [⟨l, p.shared, run p.shared⟩], next p.shared⟩ = r := by
          simpa [hlt] using hr
        exact hrun
      · rw [getElem?_set_ne (Ne.symm hji)] at hr
        exact (hp.calls j r hr).beside hp.inv hinv (hbeside j hji)

theorem fine (hp : K.Reach R.ok s₀ p) : Fine R Q p := by
  refine Machine.Reach.invariant hp ⟨hR.init, fun n _ => hR.init_fresh n, by simp⟩ ?_
  intro q m q' hq hok ht
  exact hq.turn hR ht hok

variable (hp : K.Reach R.ok s₀ p)

include hp

theorem inv : R.inv p.shared :=
  (hR.fine hp).inv

theorem past (hr : p.calls[i]? = some r)
    {before after : Trace S L} {x : Section S L} (hx : r.past = before ++ x :: after) :
    R.inv x.pre ∧ R.ok x.label x.pre ∧ R.may i r.call before x.label x.pre x.post :=
  ((hR.fine hp).calls i r hr).1 before x after hx

theorem returned (hr : p.calls[i]? = some r)
    (ha : r.rest = .ret a) : ∃ P : S → Prop, P p.shared ∧ Q i r.call a r.past P := by
  obtain ⟨-, P, hP, -, hrely⟩ := (hR.fine hp).calls i r hr
  rw [ha] at hrely
  exact ⟨P, hP, hrely⟩

theorem turn (ht : K.turn p m = some p') (hok : Crew.Allowed R.ok p m) :
    p'.shared = p.shared ∨ R.env p.shared p'.shared ∨
      ∃ (i : Nat) (r : Running S L A C) (l : L), m = .run i ∧ p.calls[i]? = some r ∧
        R.may i r.call r.past l p.shared p'.shared := by
  have hfine := hR.fine hp
  cases m with
  | env e =>
    obtain ⟨s, hs, rfl⟩ := Crew.turn_env ht
    exact .inr (.inl (hR.env _ _ _ hfine.inv hs).1)
  | start c =>
    cases ht
    exact .inl rfl
  | run i =>
    obtain ⟨c, past, l, run, next, hi, rfl⟩ := Crew.turn_run ht
    exact .inr (.inr ⟨i, _, l, rfl, hi, ((hfine.calls i _ hi).run hfine.inv (hok.run hi)).1⟩)

end Rules.Sound

end Conc
