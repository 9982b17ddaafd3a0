import Mathlib.Algebra.BigOperators.Intervals
import Mathlib.Tactic.Positivity

/-!
# Counting by leading bits

The numbers above a marker are those that first differ from it in a bit where the marker has a
zero. So they are counted by the groups of numbers that share their leading bits, one group for
each zero of the marker.
-/

namespace Radix

open Finset

/-- The leading bits of the numbers that leave the marker `m` upwards at bit `b`. -/
def branch (m : Int) (b : Nat) : Int := 2 * (m / 2 ^ (b + 1)) + 1

def Leaves (m x : Int) (b : Nat) : Prop := m / 2 ^ b % 2 = 0 ∧ x / 2 ^ b = branch m b

instance (m x : Int) (b : Nat) : Decidable (Leaves m x b) :=
  inferInstanceAs (Decidable (_ ∧ _))

theorem ediv_two_pow_succ (x : Int) (b : Nat) : x / 2 ^ (b + 1) = x / 2 ^ b / 2 := by
  rw [pow_succ, Int.ediv_ediv_of_nonneg (by positivity)]

theorem ediv_two_pow_congr {x m : Int} {b : Nat} (h : x / 2 ^ b = m / 2 ^ b) (k : Nat) :
    x / 2 ^ (b + k) = m / 2 ^ (b + k) := by
  rw [pow_add, ← Int.ediv_ediv_of_nonneg (by positivity),
    ← Int.ediv_ediv_of_nonneg (by positivity), h]

theorem Leaves.agree {m x : Int} {b w : Nat} (h : Leaves m x b) (hb : b < w) :
    x / 2 ^ w = m / 2 ^ w := by
  have habove : x / 2 ^ (b + 1) = m / 2 ^ (b + 1) := by
    rw [ediv_two_pow_succ, h.2, branch]
    omega
  obtain ⟨k, rfl⟩ : ∃ k, w = b + 1 + k := ⟨w - (b + 1), by omega⟩
  exact ediv_two_pow_congr habove k

theorem lt_of_ediv_lt {x m : Int} {b : Nat} (h : m / 2 ^ b < x / 2 ^ b) : m < x := by
  by_contra hle
  exact absurd (Int.ediv_le_ediv (by positivity) (not_lt.mp hle)) (not_le.mpr h)

/-- A number that agrees with the marker from bit `w` on is above it if and only if it leaves it
upwards at one of the bits below `w`, and then it does so at one of them only. -/
theorem sum_leaves {m x : Int} {w : Nat} (h : x / 2 ^ w = m / 2 ^ w) :
    (∑ b ∈ range w, if Leaves m x b then 1 else 0) = if m < x then 1 else 0 := by
  induction w with
  | zero =>
    obtain rfl : x = m := by simpa using h
    simp
  | succ w ih =>
    rw [sum_range_succ]
    have hx := ediv_two_pow_succ x w
    have hm := ediv_two_pow_succ m w
    by_cases heq : x / 2 ^ w = m / 2 ^ w
    · have hno : ¬ Leaves m x w := by
        rintro ⟨hbit, hxb⟩
        rw [branch] at hxb
        omega
      rw [ih heq, if_neg hno, Nat.add_zero]
    · -- The numbers part at bit `w`, so neither leaves the other further down.
      have hlow : (∑ b ∈ range w, if Leaves m x b then 1 else 0) = 0 := by
        refine sum_eq_zero fun b hb => if_neg fun hleaves => heq ?_
        exact hleaves.agree (mem_range.mp hb)
      rw [hlow, Nat.zero_add]
      rcases lt_or_gt_of_ne heq with hlt | hgt
      · have hno : ¬ Leaves m x w := by
          rintro ⟨hbit, hxb⟩
          rw [branch] at hxb
          omega
        have hnlt : ¬ m < x := not_lt.mpr (le_of_lt (lt_of_ediv_lt hlt))
        rw [if_neg hno, if_neg hnlt]
      · have hyes : Leaves m x w := by
          refine ⟨?_, ?_⟩
          · omega
          · rw [branch]
            omega
        rw [if_pos hyes, if_pos (lt_of_ediv_lt hgt)]

theorem countP_above {α : Type} {xs : List α} {f : α → Int} {m : Int} {w : Nat}
    (h : ∀ x ∈ xs, f x / 2 ^ w = m / 2 ^ w) :
    xs.countP (fun x => m < f x) =
      ∑ b ∈ range w, if m / 2 ^ b % 2 = 0 then xs.countP (fun x => f x / 2 ^ b = branch m b)
        else 0 := by
  induction xs with
  | nil => simp
  | cons x xs ih =>
    have hrest := ih fun y hy => h y (List.mem_cons_of_mem _ hy)
    have hx := sum_leaves (h x List.mem_cons_self)
    rw [List.countP_cons, hrest]
    simp only [decide_eq_true_eq, ← hx, ← sum_add_distrib]
    refine sum_congr rfl fun b _ => ?_
    by_cases hbit : m / 2 ^ b % 2 = 0
    · simp [hbit, Leaves, List.countP_cons]
    · simp [hbit, Leaves]

end Radix
