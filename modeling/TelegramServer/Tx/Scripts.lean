import TelegramServer.Tx.Rules

/-!
# Scripts: what runs beside the transactions

A caller of the database reads committed states and calls transactions, each in a moment of
its own; between two of its steps the others go on. A play of a script follows the log of a
run, and `wp` is the rule for what every play calls and returns.

Nothing here depends on what the database holds: the databases, calls, answers and errors are
parameters.
-/

namespace Tx

variable {DB A E T F R R' : Type} {r : R} {d' e : DB} {os : List (Record DB A E T)}

/-- A caller of transactions `T`, with the errors `F` and the result `R`. -/
inductive Script (DB A E T F R : Type) : Type where
  | done (r : R)
  | fail (e : F)
  /-- Read a committed state. -/
  | read (k : DB → Script DB A E T F R)
  /-- Call a transaction and go on with how it ended. -/
  | call (t : T) (k : Outcome A E → Script DB A E T F R)

namespace Script

def bind : Script DB A E T F R → (R → Script DB A E T F R') → Script DB A E T F R'
  | done r, f => f r
  | fail e, _ => fail e
  | read k, f => read fun d => (k d).bind f
  | call t k, f => call t fun o => (k o).bind f

instance : Monad (Script DB A E T F) where
  pure := done
  bind := bind

def query (q : DB → R) : Script DB A E T F R :=
  read fun d => done (q d)

def exec (t : T) : Script DB A E T F (Outcome A E) :=
  call t done

def orFail (e : F) : Option R → Script DB A E T F R
  | some r => done r
  | none => fail e

/-! ## Plays -/

inductive Plays : Script DB A E T F R → DB → List (Record DB A E T) →
    List (Record DB A E T) → R → DB → Prop where
  | done {r : R} {d : DB} {rs : List (Record DB A E T)} : Plays (.done r) d rs [] r d
  | read {k : DB → Script DB A E T F R} {d d' : DB} {rs os : List (Record DB A E T)} {r : R}
      (h : Plays (k d) d rs os r d') : Plays (.read k) d rs os r d'
  | call {k : Outcome A E → Script DB A E T F R} {d d' : DB} {x : Record DB A E T}
      {rs os : List (Record DB A E T)} {r : R} (h : Plays (k x.outcome) x.post rs os r d') :
      Plays (.call x.call k) d (x :: rs) os r d'
  /-- Somebody else's call comes to its end. -/
  | wait {s : Script DB A E T F R} {d d' : DB} {x : Record DB A E T}
      {rs os : List (Record DB A E T)} {r : R} (h : Plays s x.post rs os r d') :
      Plays s d (x :: rs) (x :: os) r d'

def play [DecidableEq T] : List Bool → Script DB A E T F R → DB → List (Record DB A E T) →
    Option (List (Record DB A E T) × R × DB)
  | [], .done r, d, _ => some ([], r, d)
  | true :: bs, s, _, x :: rs => (play bs s x.post rs).map fun y => (x :: y.1, y.2)
  | false :: bs, .read k, d, rs => play bs (k d) d rs
  | false :: bs, .call t k, _, x :: rs => if x.call = t then play bs (k x.outcome) x.post rs
    else none
  | _, _, _, _ => none

theorem plays_of_play [DecidableEq T] (bs : List Bool) (s : Script DB A E T F R) (d : DB)
    (rs : List (Record DB A E T))
    (h : play bs s d rs = some (os, r, d')) : Plays s d rs os r d' := by
  fun_induction play bs s d rs generalizing os with
  | case1 r d rs =>
    obtain ⟨rfl, rfl, rfl⟩ : [] = os ∧ r = _ ∧ d = _ := by simpa using h
    exact .done
  | case2 s d bs x rs ih =>
    obtain ⟨⟨os', r', e⟩, hy, heq⟩ := Option.map_eq_some_iff.mp h
    obtain ⟨rfl, rfl, rfl⟩ : x :: os' = os ∧ r' = r ∧ e = d' := by simpa using heq
    exact .wait (ih hy)
  | case3 d rs bs k ih => exact .read (ih h)
  | case4 d bs k x rs ih => exact .call (ih h)
  | case5 | case6 => exact nomatch h

variable {rs : List (Record DB A E T)}

/-- The state in which a script returns is one of the run's, from which its end is reached. -/
theorem Plays.leads {s : Script DB A E T F R} {d : DB}
    (hplay : Plays s d rs os r d') (hleads : Locking.Leads rs d e) :
    ∃ rs', rs' <:+ rs ∧ Locking.Leads rs' d' e := by
  induction hplay with
  | @done r d rs => exact ⟨rs, List.suffix_rfl, hleads⟩
  | read _ ih => exact ih hleads
  | call _ ih | wait _ ih =>
    obtain ⟨rs', hrs', h⟩ := ih hleads.2
    exact ⟨rs', hrs'.trans (List.suffix_cons _ _), h⟩

/-- Begun in `d`, with the rest `rs` of the log to come, the script comes to be `s'` in `d'`, with
`rs'` to come. It may wait before each of its steps, and is over with its last one. -/
inductive Comes : Script DB A E T F R → DB → List (Record DB A E T) → Script DB A E T F R → DB →
    List (Record DB A E T) → Prop where
  | here {s : Script DB A E T F R} {d : DB} {rs : List (Record DB A E T)} : Comes s d rs s d rs
  | read {k : DB → Script DB A E T F R} {s' : Script DB A E T F R} {d d' : DB}
      {rs rs' : List (Record DB A E T)} (h : Comes (k d) d rs s' d' rs') :
      Comes (.read k) d rs s' d' rs'
  | call {k : Outcome A E → Script DB A E T F R} {s' : Script DB A E T F R} {d d' : DB}
      {x : Record DB A E T} {rs rs' : List (Record DB A E T)}
      (h : Comes (k x.outcome) x.post rs s' d' rs') :
      Comes (.call x.call k) d (x :: rs) s' d' rs'
  | waitRead {k : DB → Script DB A E T F R} {s' : Script DB A E T F R} {d d' : DB}
      {x : Record DB A E T} {rs rs' : List (Record DB A E T)}
      (h : Comes (.read k) x.post rs s' d' rs') :
      Comes (.read k) d (x :: rs) s' d' rs'
  | waitCall {t : T} {k : Outcome A E → Script DB A E T F R} {s' : Script DB A E T F R} {d d' : DB}
      {x : Record DB A E T} {rs rs' : List (Record DB A E T)}
      (h : Comes (.call t k) x.post rs s' d' rs') :
      Comes (.call t k) d (x :: rs) s' d' rs'

/-- The script's way to its end, when it waits where the schedule says so. -/
def arrive [DecidableEq T] : List Bool → Script DB A E T F R → DB → List (Record DB A E T) →
    Option (R × DB × List (Record DB A E T))
  | [], .done r, d, rs => some (r, d, rs)
  | false :: bs, .read k, d, rs => arrive bs (k d) d rs
  | false :: bs, .call t k, _, x :: rs => if x.call = t then arrive bs (k x.outcome) x.post rs
    else none
  | true :: bs, .read k, _, x :: rs => arrive bs (.read k) x.post rs
  | true :: bs, .call t k, _, x :: rs => arrive bs (.call t k) x.post rs
  | _, _, _, _ => none

theorem comes_of_arrive [DecidableEq T] (bs : List Bool) (s : Script DB A E T F R) (d : DB)
    (rs : List (Record DB A E T)) {rs' : List (Record DB A E T)}
    (h : arrive bs s d rs = some (r, d', rs')) : Comes s d rs (.done r) d' rs' := by
  fun_induction arrive bs s d rs with
  | case1 r d rs =>
    obtain ⟨rfl, rfl, rfl⟩ : r = _ ∧ d = _ ∧ rs = _ := by simpa using h
    exact .here
  | case2 d rs bs k ih => exact .read (ih h)
  | case3 d bs k x rs ih => exact .call (ih h)
  | case4 => cases h
  | case5 d bs k x rs ih => exact .waitRead (ih h)
  | case6 d bs t k x rs ih => exact .waitCall (ih h)
  | case7 => cases h

variable {s s' : Script DB A E T F R} {d : DB} {rs rs' : List (Record DB A E T)}
  (later : DB → DB → Prop) (guar : T → Prop) (ok : Record DB A E T → Prop)

theorem Comes.of_read {k : DB → Script DB A E T F R} (h : Comes (.read k) d rs s' d' rs')
    (hs' : s' ≠ .read k) (hleads : Locking.Leads rs d e) :
    ∃ ws d₁ rs₁, ws ++ rs₁ = rs ∧ Locking.Leads ws d d₁ ∧ Locking.Leads rs₁ d₁ e ∧
      Comes (k d₁) d₁ rs₁ s' d' rs' := by
  generalize hs : Script.read k = s at h
  induction h with
  | here => exact absurd hs.symm hs'
  | read h _ =>
    obtain rfl := Script.read.inj hs
    exact ⟨[], _, _, rfl, rfl, hleads, h⟩
  | @waitRead k s' d d' x rs rs' _ ih =>
    obtain ⟨ws, d₁, rs₁, rfl, hws, h₁⟩ := ih hs' hleads.2 hs
    exact ⟨x :: ws, d₁, rs₁, rfl, ⟨hleads.1, hws⟩, h₁⟩
  | call | waitCall => cases hs

theorem Comes.of_call {t : T} {k : Outcome A E → Script DB A E T F R}
    (h : Comes (.call t k) d rs s' d' rs') (hleads : Locking.Leads rs d e) :
    ∃ ws d₁ rs₁, ws ++ rs₁ = rs ∧ Locking.Leads ws d d₁ ∧ Locking.Leads rs₁ d₁ e ∧
      (s' = .call t k ∧ d' = d₁ ∧ rs' = rs₁ ∨
        ∃ x xs, x.call = t ∧ rs₁ = x :: xs ∧ Comes (k x.outcome) x.post xs s' d' rs') := by
  generalize hs : Script.call t k = s at h
  induction h with
  | here => exact ⟨[], _, _, rfl, rfl, hleads, .inl ⟨rfl, rfl, rfl⟩⟩
  | @call k s' d d' x rs rs' h _ =>
    obtain ⟨rfl, rfl⟩ := Script.call.inj hs
    exact ⟨[], _, _, rfl, rfl, hleads, .inr ⟨x, rs, rfl, rfl, h⟩⟩
  | @waitCall t k s' d d' x rs rs' _ ih =>
    obtain ⟨ws, d₁, rs₁, rfl, hws, h₁⟩ := ih hleads.2 hs
    exact ⟨x :: ws, d₁, rs₁, rfl, ⟨hleads.1, hws⟩, h₁⟩
  | read | waitRead => cases hs

def wp : Script DB A E T F R → DB → (R → DB → Prop) → Prop
  | .done r, d, Q => ∀ d', later d d' → Q r d'
  | .fail _, _, _ => True
  | .read k, d, Q => ∀ d', later d d' → wp (k d') d' Q
  | .call t k, d, Q => guar t ∧ ∀ x : Record DB A E T, ok x → x.call = t → later d x.pre →
      wp (k x.outcome) x.post Q

variable {later guar ok} {s : Script DB A E T F R} {d : DB} {Q Q' : R → DB → Prop}

theorem wp_mono (hQ : ∀ r d, Q r d → Q' r d) (h : wp later guar ok s d Q) :
    wp later guar ok s d Q' := by
  induction s generalizing d with
  | done r => exact fun d' hd' => hQ r d' (h d' hd')
  | fail e => trivial
  | read k ih => exact fun d' hd' => ih d' (h d' hd')
  | call t k ih => exact ⟨h.1, fun x hx ht hd' => ih x.outcome (h.2 x hx ht hd')⟩

theorem wp_later (htrans : ∀ a b c, later a b → later b c → later a c) (hd : later d d')
    (h : wp later guar ok s d Q) : wp later guar ok s d' Q := by
  cases s with
  | done r => exact fun c hc => h c (htrans _ _ _ hd hc)
  | fail e => trivial
  | read k => exact fun c hc => h c (htrans _ _ _ hd hc)
  | call t k => exact ⟨h.1, fun x hx ht hc => h.2 x hx ht (htrans _ _ _ hd hc)⟩

theorem wp_bind (hrefl : ∀ d, later d d) {f : R → Script DB A E T F R'} {Q : R' → DB → Prop}
    (h : wp later guar ok s d fun r d' => wp later guar ok (f r) d' Q) :
    wp later guar ok (s >>= f) d Q := by
  induction s generalizing d with
  | done r => exact h d (hrefl d)
  | fail e => trivial
  | read k ih => exact fun d' hd' => ih d' (h d' hd')
  | call t k ih => exact ⟨h.1, fun x hx ht hd' => ih x.outcome (h.2 x hx ht hd')⟩

theorem wp_framed (htrans : ∀ a b c, later a b → later b c → later a c)
    (hok : ∀ x, ok x → later x.pre x.post) (he : later e d) (h : wp later guar ok s d Q) :
    wp later guar ok s d fun r d' => later e d' ∧ Q r d' := by
  induction s generalizing d with
  | done r => exact fun d' hd' => ⟨htrans _ _ _ he hd', h d' hd'⟩
  | fail e => trivial
  | read k ih => exact fun d' hd' => ih d' (htrans _ _ _ he hd') (h d' hd')
  | call t k ih =>
    exact ⟨h.1, fun x hx ht hd' => ih x.outcome
      (htrans _ _ _ (htrans _ _ _ he hd') (hok x hx)) (h.2 x hx ht hd')⟩

/-- What the rule gives holds of every play along a log; and a property is kept that the calls of
others keep and the calls of `guar` do. -/
theorem wp_sound (hrefl : ∀ d, later d d) (htrans : ∀ a b c, later a b → later b c → later a c)
    (hplay : Plays s d rs os r d')
    (hleads : Locking.Leads rs d e) (hok : ∀ x ∈ rs, ok x) (hlater : ∀ x ∈ rs, later x.pre x.post)
    (h : wp later guar ok s d Q) :
    Q r d' ∧ ∀ J : DB → Prop, (∀ x, ok x → guar x.call → J x.pre → J x.post) →
      (∀ x ∈ os, ok x → J x.pre → J x.post) → J d → J d' := by
  induction hplay with
  | done => exact ⟨h _ (hrefl _), fun J _ _ hd => hd⟩
  | read _ ih => exact ih hleads hok hlater (h _ (hrefl _))
  | @call k d d' x rs os r _ ih =>
    obtain ⟨rfl, hrest⟩ := hleads
    obtain ⟨hQ, hkept⟩ := ih hrest (fun y hy => hok y (by simp [hy]))
      (fun y hy => hlater y (by simp [hy])) (h.2 x (hok x (by simp)) rfl (hrefl _))
    refine ⟨hQ, fun J hown hothers hd => ?_⟩
    exact hkept J hown hothers (hown x (hok x (by simp)) h.1 hd)
  | @wait s d d' x rs os r _ ih =>
    obtain ⟨rfl, hrest⟩ := hleads
    obtain ⟨hQ, hkept⟩ := ih hrest (fun y hy => hok y (by simp [hy]))
      (fun y hy => hlater y (by simp [hy])) (wp_later htrans (hlater x (by simp)) h)
    refine ⟨hQ, fun J hown hothers hd => ?_⟩
    exact hkept J hown (fun y hy => hothers y (by simp [hy]))
      (hothers x (by simp) (hok x (by simp)) hd)

end Script

end Tx
