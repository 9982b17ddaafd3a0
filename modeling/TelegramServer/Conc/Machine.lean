import Mathlib.Algebra.BigOperators.Group.List.Basic
import Mathlib.Algebra.Ring.Nat

/-!
# Machines

A machine takes one action at a time; several parties are one machine whose actions say
who moves. Invariants are proved once per action, and a measure that every action of a
kind lowers bounds how long the machine can go on with that kind alone.
-/

namespace Conc

open List

/-- Every action is allowed. -/
abbrev free {S A : Type} (_ : S) (_ : A) : Prop := True

/-- What each action does to the state; `none` where it is not enabled. -/
structure Machine (S A : Type) where
  step : S → A → Option S

namespace Machine

variable {S A : Type} {M : Machine S A} {ok ok' : S → A → Prop} {s t u : S} {as : List A}

/-- What `s` can become by actions that are all taken where `ok` allows them. -/
inductive Reach (M : Machine S A) (ok : S → A → Prop) (s : S) : S → Prop where
  | refl : Reach M ok s s
  | step {t u : S} {a : A} (h : Reach M ok s t) (ha : ok t a) (hs : M.step t a = some u) :
      Reach M ok s u

theorem Reach.mono (hle : ∀ t a, ok t a → ok' t a) (h : Reach M ok s t) : Reach M ok' s t := by
  induction h with
  | refl => exact .refl
  | step _ ha hs ih => exact ih.step (hle _ _ ha) hs

theorem Reach.trans (h : Reach M ok s t) (h' : Reach M ok t u) : Reach M ok s u := by
  induction h' with
  | refl => exact h
  | step _ ha hs ih => exact ih.step ha hs

/-- What holds at first and is kept by every allowed action holds wherever the machine gets. -/
theorem Reach.invariant {I : S → Prop} (h : Reach M ok s t) (hinit : I s)
    (hstep : ∀ t a u, I t → ok t a → M.step t a = some u → I u) : I t := by
  induction h with
  | refl => exact hinit
  | step _ ha hs ih => exact hstep _ _ _ ih ha hs

def run (M : Machine S A) (ok : S → A → Prop) [∀ s a, Decidable (ok s a)] (s : S) (as : List A) :
    Option S :=
  as.foldlM (fun t a => if ok t a then M.step t a else none) s

theorem run_cons [∀ s a, Decidable (ok s a)] {a : A} :
    M.run ok s (a :: as) = some t ↔ ∃ u, ok s a ∧ M.step s a = some u ∧ M.run ok u as = some t := by
  simp only [run, foldlM_cons]
  by_cases ha : ok s a
  · simp [ha, Option.bind_eq_some_iff]
  · simp [ha]

theorem reach_of_run [∀ s a, Decidable (ok s a)] (h : M.run ok s as = some t) : Reach M ok s t := by
  induction as generalizing s with
  | nil =>
    obtain rfl : s = t := by simpa [run] using h
    exact .refl
  | cons a as ih =>
    obtain ⟨u, ha, hs, hrun⟩ := run_cons.mp h
    exact (Reach.refl.step ha hs).trans (ih hrun)

theorem exists_reach [∀ s a, Decidable (ok s a)] {P : S → Prop} [DecidablePred P] (as : List A)
    (h : (M.run ok s as).any P) : ∃ t, Reach M ok s t ∧ P t := by
  obtain ⟨t, ht, hP⟩ := (Option.any_eq_true _ _).mp h
  exact ⟨t, reach_of_run ht, of_decide_eq_true hP⟩

theorem run_length_le [∀ s a, Decidable (ok s a)] {I : S → Prop} {μ : S → Nat}
    (hstep : ∀ t a u, I t → ok t a → M.step t a = some u → I u ∧ μ u < μ t)
    (hs : I s) (h : M.run ok s as = some t) : as.length ≤ μ s := by
  induction as generalizing s with
  | nil => exact Nat.zero_le _
  | cons a as ih =>
    obtain ⟨u, ha, hu, hrun⟩ := run_cons.mp h
    obtain ⟨hi, hlt⟩ := hstep s a u hs ha hu
    have := ih hi hrun
    simp only [length_cons]
    omega

end Machine

/-! ## A pool of parties

The parties are a list; one of them moves at a time, and what they are doing is counted. -/

variable {W : Type} {ws : List W} {i : Nat} {w : W}

theorem sum_map_set_add {M : Type} [AddCommMonoid M] (f : W → M) (h : ws[i]? = some w) (w' : W) :
    ((ws.set i w').map f).sum + f w = (ws.map f).sum + f w' := by
  induction ws generalizing i with
  | nil => simp at h
  | cons x ws ih =>
    cases i with
    | zero =>
      obtain rfl : x = w := by simpa using h
      simp only [set_cons_zero, map_cons, sum_cons]
      ac_rfl
    | succ i =>
      have hrest := ih (i := i) (by simpa using h)
      simp only [set_cons_succ, map_cons, sum_cons]
      rw [add_assoc, hrest, add_assoc]

theorem countP_eq_sum_map (q : W → Bool) (ws : List W) :
    ws.countP q = (ws.map fun w => (q w).toNat).sum := by
  induction ws with
  | nil => rfl
  | cons w ws ih =>
    rw [countP_cons, ih, map_cons, sum_cons, Nat.add_comm]
    cases q w <;> rfl

theorem countP_set_add (q : W → Bool) (h : ws[i]? = some w) (w' : W) {b c : Bool} (hb : q w = b)
    (hc : q w' = c) : (ws.set i w').countP q + b.toNat = ws.countP q + c.toNat := by
  rw [countP_eq_sum_map, countP_eq_sum_map, ← hb, ← hc]
  exact sum_map_set_add _ h w'

theorem eq_of_countP_le_one {q : W → Bool} (h : ws.countP q ≤ 1) {j : Nat} {w' : W}
    (hi : ws[i]? = some w) (hj : ws[j]? = some w') (hw : q w = true) (hw' : q w' = true) :
    i = j := by
  induction ws generalizing i j with
  | nil => simp at hi
  | cons x ws ih =>
    have htail : ∀ {k : Nat} {v : W}, ws[k]? = some v → q v = true → 0 < ws.countP q := fun hk hv =>
      countP_pos_iff.mpr ⟨_, mem_of_getElem? hk, hv⟩
    rw [countP_cons] at h
    cases i with
    | zero =>
      obtain rfl : x = w := by simpa using hi
      cases j with
      | zero => rfl
      | succ j =>
        have := htail (k := j) (by simpa using hj) hw'
        rw [if_pos hw] at h
        omega
    | succ i =>
      have hi' : ws[i]? = some w := by simpa using hi
      cases j with
      | zero =>
        obtain rfl : x = w' := by simpa using hj
        have := htail hi' hw
        rw [if_pos hw'] at h
        omega
      | succ j => rw [ih (by omega) hi' (by simpa using hj)]

end Conc
