import Mathlib.Data.List.Range
import Mathlib.Data.List.Sort
import Mathlib.Algebra.Order.Group.Int

/-!
# Lists numbered without gaps

An append-only log whose entries carry the numbers `1, 2, ..., n` in order: the
shape of every per-owner sequence that a counter column hands out.
-/

namespace Tx

open List

variable {i n : Int}

/-- The numbers `1, ..., n`; empty for `n ≤ 0`. -/
def upto (n : Int) : List Int :=
  (List.range n.toNat).map fun i : Nat => (i : Int) + 1

theorem mem_upto : i ∈ upto n ↔ 1 ≤ i ∧ i ≤ n := by
  simp only [upto, mem_map, mem_range]
  constructor
  · rintro ⟨a, ha, rfl⟩
    omega
  · rintro ⟨h1, hn⟩
    exact ⟨(i - 1).toNat, by omega, by omega⟩

theorem upto_succ (h : 0 ≤ n) : upto (n + 1) = upto n ++ [n + 1] := by
  have hn : (n + 1).toNat = n.toNat + 1 := by omega
  rw [upto, hn, range_succ, map_append, ← upto]
  simp [h]

theorem nodup_upto (n : Int) : (upto n).Nodup := by
  refine nodup_range.map fun a b h => ?_
  have h' : (a : Int) + 1 = b + 1 := h
  omega

theorem pairwise_upto (n : Int) : (upto n).Pairwise (· < ·) := by
  rw [upto, pairwise_map]
  exact pairwise_lt_range.imp fun h => by omega

theorem length_upto (h : 0 ≤ n) : ((upto n).length : Int) = n := by
  simp [upto, h]

theorem getElem?_upto {i : Nat} {x : Int} (h : (upto n)[i]? = some x) : x = (i : Int) + 1 := by
  simp only [upto, getElem?_map, Option.map_eq_some_iff] at h
  obtain ⟨j, hj, rfl⟩ := h
  obtain ⟨hi, rfl⟩ := List.getElem?_eq_some_iff.mp hj
  simp

theorem filter_upto {k : Int} (hk : 0 ≤ k) : (upto n).filter (k < ·) = (upto n).drop k.toNat := by
  have htake : ((upto n).take k.toNat).filter (k < ·) = [] := by
    refine filter_eq_nil_iff.mpr fun x hx => ?_
    obtain ⟨i, hi⟩ := mem_iff_getElem?.mp hx
    rw [getElem?_take] at hi
    split at hi
    · have := getElem?_upto hi
      simp only [decide_eq_true_eq]
      omega
    · exact nomatch hi
  have hdrop : ((upto n).drop k.toNat).filter (k < ·) = (upto n).drop k.toNat := by
    refine filter_eq_self.mpr fun x hx => ?_
    obtain ⟨i, hi⟩ := mem_iff_getElem?.mp hx
    rw [getElem?_drop] at hi
    have := getElem?_upto hi
    simp only [decide_eq_true_eq]
    omega
  conv_lhs => rw [← take_append_drop k.toNat (upto n), filter_append, htake, hdrop]
  rfl

/-- Two numberings that both increase along a list order its entries alike. -/
theorem lt_of_pairwise_lt {α : Type} {f g : α → Int} {xs : List α}
    (hf : xs.Pairwise (f · < f ·)) (hg : xs.Pairwise (g · < g ·)) {x y : α} (hx : x ∈ xs)
    (hy : y ∈ xs) (h : f x < f y) : g x < g y := by
  induction xs with
  | nil => simp at hx
  | cons z zs ih =>
    rw [pairwise_cons] at hf hg
    rcases mem_cons.mp hx with rfl | hx' <;> rcases mem_cons.mp hy with rfl | hy'
    · omega
    · exact hg.1 y hy'
    · have := hf.1 x hx'
      omega
    · exact ih hf.2 hg.2 hx' hy'

/-- The entries of `xs` carry the numbers `1, ..., n` in order. -/
def Numbered {α : Type} (num : α → Int) (xs : List α) (n : Int) : Prop :=
  xs.map num = upto n

namespace Numbered

variable {α : Type} {num : α → Int} {xs : List α} (h : Numbered num xs n)

include h

variable {x : α}

theorem snoc (hn : 0 ≤ n) (hx : num x = n + 1) : Numbered num (xs ++ [x]) (n + 1) := by
  rw [Numbered, map_append, h, upto_succ hn]
  simp [hx]

theorem num_mem (hx : x ∈ xs) : 1 ≤ num x ∧ num x ≤ n := by
  rw [← mem_upto, ← show xs.map num = upto n from h]
  exact mem_map_of_mem hx

theorem exists_num (h1 : 1 ≤ i) (hi : i ≤ n) : ∃ x ∈ xs, num x = i := by
  have : i ∈ xs.map num := by
    rw [show xs.map num = upto n from h]
    exact mem_upto.mpr ⟨h1, hi⟩
  simpa using this

theorem nodup : (xs.map num).Nodup := by
  rw [show xs.map num = upto n from h]
  exact nodup_upto n

theorem eq_of_num {y : α} (hx : x ∈ xs) (hy : y ∈ xs) (hxy : num x = num y) : x = y :=
  inj_on_of_nodup_map h.nodup hx hy hxy

theorem pairwise : xs.Pairwise fun x y => num x < num y := by
  have := pairwise_upto n
  rwa [← show xs.map num = upto n from h, pairwise_map] at this

end Numbered

/-- Entries that share a key other than zero carry the same number. -/
def Keyed {α : Type} (key num : α → Int) (xs : List α) : Prop :=
  ∀ x ∈ xs, ∀ y ∈ xs, key x ≠ 0 → key y = key x → num y = num x

namespace Keyed

variable {α : Type} {key num : α → Int} {xs ys : List α}

theorem snoc (h : Keyed key num xs) (hx : key x ≠ 0 → ∀ y ∈ xs, key y ≠ key x) :
    Keyed key num (xs ++ [x]) := by
  intro a ha b hb h0 heq
  rcases mem_append.mp ha with ha | ha <;> rcases mem_append.mp hb with hb | hb
  · exact h a ha b hb h0 heq
  · rw [mem_singleton.mp hb] at heq
    exact absurd heq.symm (hx (heq.trans_ne h0) a ha)
  · rw [mem_singleton.mp ha] at heq h0
    exact absurd heq (hx h0 b hb)
  · rw [mem_singleton.mp ha, mem_singleton.mp hb]

theorem congr (h : Keyed key num xs)
    (hys : ys.map (fun y => (key y, num y)) = xs.map fun x => (key x, num x)) :
    Keyed key num ys := by
  have hmem : ∀ y ∈ ys, ∃ x ∈ xs, key x = key y ∧ num x = num y := by
    intro y hy
    have : (key y, num y) ∈ xs.map fun x => (key x, num x) := hys ▸ mem_map_of_mem hy
    obtain ⟨x, hx, heq⟩ := mem_map.mp this
    exact ⟨x, hx, congrArg Prod.fst heq, congrArg Prod.snd heq⟩
  intro a ha b hb h0 heq
  obtain ⟨a', ha', hak, han⟩ := hmem a ha
  obtain ⟨b', hb', hbk, hbn⟩ := hmem b hb
  rw [← han, ← hbn]
  exact h a' ha' b' hb' (hak.trans_ne h0) (hbk.trans (heq.trans hak.symm))

end Keyed

end Tx
