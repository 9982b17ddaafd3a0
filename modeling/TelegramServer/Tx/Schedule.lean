import TelegramServer.Tx.Rely

/-!
# Schedules

An interleaving of finitely many sessions, given as the list of who moves when, can be
played out. What is played is a run.
-/

namespace Tx

open List

variable {DB L O S E A T : Type} {s : Session DB L O S E A T} {n : Nat}

/-- A configuration whose open transactions sit in finitely many places. -/
structure Board (DB L O S E A T : Type) where
  db : DB
  sessions : List (Option (Session DB L O S E A T))
  log : List (Record DB A E T) := []

inductive Move (T : Type) : Type where
  | begin (i : Nat) (t : T)
  | run (i : Nat)

namespace Board

def config (b : Board DB L O S E A T) : Config DB L O S E A T :=
  ⟨b.db, fun i => b.sessions[i]?.join, b.log⟩

def start (d : DB) (n : Nat) : Board DB L O S E A T := ⟨d, replicate n none, []⟩

def set (b : Board DB L O S E A T) (i : Nat) (s : Session DB L O S E A T) : Board DB L O S E A T :=
  { b with sessions := b.sessions.set i (some s) }

def close (b : Board DB L O S E A T) (i : Nat) (t : T) (o : Outcome A E) (d : DB) :
    Board DB L O S E A T :=
  ⟨d, b.sessions.set i none, b.log ++ [⟨t, b.db, o, d⟩]⟩

def others (b : Board DB L O S E A T) (i : Nat) (p : Session DB L O S E A T → Bool) : Bool :=
  b.sessions.zipIdx.all fun x => x.2 = i || x.1.all p

variable (R : Rows DB L O S) [DecidableRel R.conflicts] (code : T → Prog DB L O S E (Finish A))
  (ok : T → List L → DB → DB → Bool)

def finish (b : Board DB L O S E A T) (i : Nat) (t : T) (o : Outcome A E) (d : DB) :
    Option (Board DB L O S E A T) :=
  if b.others i (fun s => ok s.call s.held b.db d) then some (b.close i t o d) else none

def move (b : Board DB L O S E A T) : Move T → Option (Board DB L O S E A T)
  | .begin i t =>
    match b.sessions[i]? with
    | some none => some (b.set i ⟨t, code t, [], []⟩)
    | _ => none
  | .run i =>
    match b.sessions[i]?.join with
    | some ⟨t, .stmt need write next, held, redo⟩ =>
      let v := R.replay redo b.db
      if (need v).all fun l => b.others i fun s => s.held.all fun l' => ¬ R.conflicts l l' then
        some (b.set i ⟨t, next v, need v ++ held, redo ++ write v⟩)
      else none
    | some ⟨t, .ret (.commit a), _, redo⟩ =>
      b.finish ok i t (.done (.commit a)) (R.replay redo b.db)
    | some ⟨t, .ret (.rollback a), _, _⟩ => b.finish ok i t (.done (.rollback a)) b.db
    | some ⟨t, .fail e, _, _⟩ => b.finish ok i t (.failed e) b.db
    | some ⟨_, .draw _ _, _, _⟩ => none
    | none => none

/-- Session `i` waits for session `j` over a lock that counts. -/
def waits (counts : DB → L → Bool) (b : Board DB L O S E A T) (i j : Nat) : Bool :=
  match b.sessions[i]?.join, b.sessions[j]?.join with
  | some ⟨_, .stmt need _ _, _, redo⟩, some s =>
    i ≠ j && (need (R.replay redo b.db)).any fun l =>
      counts (R.replay redo b.db) l && s.held.any fun l' => R.conflicts l l'
  | _, _ => false

def play (b : Board DB L O S E A T) (ms : List (Move T)) : Option (Board DB L O S E A T) :=
  ms.foldlM (fun b m => b.move R code ok m) b

abbrev Legal (d₀ : DB) (b : Board DB L O S E A T) : Prop :=
  ReachableBeside R code (fun t held d d' => ok t held d d') d₀ b.config

section Runs

variable {R : Rows DB L O S} [DecidableRel R.conflicts] {code : T → Prog DB L O S E (Finish A)}
  {ok : T → List L → DB → DB → Bool} {d₀ : DB} {b b' : Board DB L O S E A T} {i : Nat}

theorem others_iff {p : Session DB L O S E A T → Bool} :
    b.others i p = true ↔ ∀ j s, j ≠ i → b.config.open_ j = some s → p s = true := by
  simp only [others, all_eq_true, Bool.or_eq_true, decide_eq_true_eq, Prod.forall,
    mem_zipIdx_iff_getElem?]
  constructor
  · intro h j s hj hs
    have hmem := h (some s) j (Option.join_eq_some_iff.mp hs)
    simpa [hj] using hmem
  · intro h x j hx
    by_cases hj : j = i
    · exact .inl hj
    · cases x with
      | none => simp
      | some s => exact .inr (h j s hj (by simp [config, hx]))

theorem open_set {x : Option (Session DB L O S E A T)} (hi : i < b.sessions.length) :
    (fun j => (b.sessions.set i x)[j]?.join) = Function.update b.config.open_ i x := by
  funext j
  by_cases hj : j = i
  · subst hj
    simp [hi]
  · simp [config, hj, getElem?_set_ne (Ne.symm hj)]

theorem lt_of_open (h : b.sessions[i]?.join = some s) : i < b.sessions.length := by
  have := Option.join_eq_some_iff.mp h
  exact (List.getElem?_eq_some_iff.mp this).1

theorem config_set (hi : i < b.sessions.length) (s : Session DB L O S E A T) :
    (b.set i s).config = b.config.setSession i s := by
  simp only [set, Config.setSession, ← open_set hi]
  rfl

theorem config_close (hi : i < b.sessions.length) (t : T) (o : Outcome A E) (d : DB) :
    (b.close i t o d).config = b.config.close i t o d := by
  simp only [close, Config.close, ← open_set hi]
  rfl

theorem beside_set (hrefl : ∀ t held d, ok t held d d) (s : Session DB L O S E A T) :
    b.config.Beside (fun t held d d' => ok t held d d') (b.config.setSession i s) :=
  fun _ _ _ _ => hrefl _ _ _

omit [DecidableRel R.conflicts] in
theorem reachable_finish {o : Outcome A E} {d : DB} (hb : b.Legal R code ok d₀)
    (hi : b.config.open_ i = some s) (hstep : Step R code b.config (b.config.close i s.call o d))
    (hf : b.finish ok i s.call o d = some b') : b'.Legal R code ok d₀ := by
  obtain ⟨hothers, hb'⟩ := Option.ite_none_right_eq_some.mp hf
  cases hb'
  rw [Legal, config_close (lt_of_open hi)]
  refine hb.step hstep fun j s' hj hj' => ?_
  exact others_iff.mp hothers j s' (Config.open_of_close hj').1 hj

section

variable (hrefl : ∀ t held d, ok t held d d)

include hrefl

theorem reachable_move {m : Move T} (hb : b.Legal R code ok d₀)
    (hm : b.move R code ok m = some b') : b'.Legal R code ok d₀ := by
  cases m with
  | begin i t =>
    simp only [move] at hm
    split at hm
    · rename_i hi
      cases hm
      rw [Legal, config_set (List.getElem?_eq_some_iff.mp hi).1]
      exact hb.step (.begin _ i t (by simp [config, hi])) (beside_set hrefl _)
    · cases hm
  | run i =>
    simp only [move] at hm
    split at hm
    · rename_i t need write next held redo hi
      obtain ⟨hfree, rfl⟩ := Option.ite_some_none_eq_some.mp hm
      rw [Legal, config_set (lt_of_open hi)]
      refine hb.step (.stmt _ i t held redo need write next hi fun l hl j s hj hs => ?_)
        (beside_set hrefl _)
      have hothers := all_eq_true.mp hfree l hl
      simpa using others_iff.mp hothers j s hj hs
    · rename_i t a held redo hi
      exact reachable_finish hb hi (.commit _ i t held redo a hi) hm
    · rename_i t a held redo hi
      exact reachable_finish hb hi (.rollback _ i t held redo a hi) hm
    · rename_i t e held redo hi
      exact reachable_finish hb hi (.fail _ i t held redo e hi) hm
    · cases hm
    · cases hm

variable {ms : List (Move T)}

theorem reachable_moves (hb : b.Legal R code ok d₀)
    (h : b.play R code ok ms = some b') : b'.Legal R code ok d₀ := by
  induction ms generalizing b with
  | nil =>
    obtain rfl : b = b' := by simpa [play] using h
    exact hb
  | cons m ms ih =>
    obtain ⟨x, hx, hrest⟩ : ∃ x, b.move R code ok m = some x ∧ x.play R code ok ms = some b' := by
      simpa [play, foldlM_cons, Option.bind_eq_some_iff] using h
    exact ih (reachable_move hrefl hb hx) hrest

theorem reachable_play (h : (start d₀ n).play R code ok ms = some b) : b.Legal R code ok d₀ := by
  have hnone : (fun i : Nat => (replicate n (none : Option (Session DB L O S E A T)))[i]?.join) =
      fun _ => none := by
    funext i
    simp only [getElem?_replicate]
    split <;> rfl
  have hstart : (start d₀ n : Board DB L O S E A T).config = .start d₀ := by
    simp only [start, config, hnone, Config.start]
  exact reachable_moves hrefl (by rw [Legal, hstart]; exact .start) h

theorem exists_board
    {P : Board DB L O S E A T → Bool} (h : ((start d₀ n).play R code ok ms).any P) :
    ∃ b : Board DB L O S E A T, b.Legal R code ok d₀ ∧ P b = true := by
  obtain ⟨b, hb, hP⟩ := (Option.any_eq_true _ _).mp h
  exact ⟨b, reachable_play hrefl hb, hP⟩

end

section

variable {P : Config DB L O S E A T → Prop}
  [∀ b : Board DB L O S E A T, Decidable (P b.config)]

theorem exists_beside {ok : T → List L → DB → DB → Prop}
    [∀ t held d d', Decidable (ok t held d d')] (hrefl : ∀ t held d, ok t held d d) (n : Nat)
    (ms : List (Move T)) (h : ((start d₀ n).play R code (fun t held d d' => ok t held d d') ms).any
      fun b => P b.config) : ∃ c, ReachableBeside R code ok d₀ c ∧ P c := by
  obtain ⟨b, hb, hP⟩ := exists_board (by simpa using hrefl) h
  exact ⟨b.config, by simpa [Legal] using hb, of_decide_eq_true hP⟩

theorem exists_run (n : Nat) (ms : List (Move T))
    (h : ((start d₀ n).play R code (fun _ _ _ _ => true) ms).any fun b => P b.config) :
    ∃ c, Reachable R code d₀ c ∧ P c := by
  obtain ⟨c, hc, hP⟩ : ∃ c, ReachableBeside R code (fun _ _ _ _ => True) d₀ c ∧ P c :=
    exists_beside (fun _ _ _ => trivial) n ms h
  exact ⟨c, hc.reachable, hP⟩

end

theorem waitsOn_of_waits {counts : DB → L → Bool} {j : Nat} (h : b.waits R counts i j = true) :
    b.config.WaitsOn R (fun d l => counts d l) i j := by
  simp only [waits] at h
  split at h
  · rename_i t need write next held redo s hi hj
    simp only [Bool.and_eq_true, decide_eq_true_eq, any_eq_true] at h
    obtain ⟨hij, l, hl, hcounts, l', hl', hconf⟩ := h
    exact ⟨hij, l, .stmt hi hl hcounts, s, hj, l', hl', hconf⟩
  · cases h

end Runs

end Board

end Tx
