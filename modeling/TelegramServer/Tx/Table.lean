import Mathlib.Data.List.Basic

/-!
# Tables as lists of rows

The list operations behind `UPDATE`, `INSERT ... ON CONFLICT` and `DELETE`, and
how each of them looks through a filter that keeps the rows of one key.
-/

namespace Tx.Table

open List

/-- `UPDATE ... SET f WHERE p`. -/
def updateWhere {α : Type} (p : α → Bool) (f : α → α) (rows : List α) : List α :=
  rows.map fun r => if p r then f r else r

/-- `INSERT ... ON CONFLICT (p) DO UPDATE SET f`. -/
def upsertWhere {α : Type} (p : α → Bool) (f : α → α) (row : α) (rows : List α) : List α :=
  if rows.any p then updateWhere p f rows else rows ++ [row]

/-- `INSERT ... ON CONFLICT (p) DO NOTHING`. -/
def insertAbsent {α : Type} (p : α → Bool) (row : α) (rows : List α) : List α :=
  if rows.any p then rows else rows ++ [row]

variable {α β : Type} {p q : α → Bool} {f g : α → α} {l : List α}

theorem filter_updateWhere (h : ∀ x, q x → p (f x) = p x) :
    (updateWhere q f l).filter p = updateWhere q f (l.filter p) := by
  induction l with
  | nil => rfl
  | cons x xs ih =>
    have hx : p (if q x then f x else x) = p x := by
      split
      · exact h x ‹_›
      · rfl
    by_cases hp : p x <;> simp_all [updateWhere]

theorem updateWhere_congr (h : ∀ x ∈ l, q x → f x = g x) :
    updateWhere q f l = updateWhere q g l := by
  refine map_congr_left fun x hx => ?_
  by_cases hq : q x
  · simp [hq, h x hx hq]
  · simp [hq]

theorem updateWhere_of_forall_not (h : ∀ x ∈ l, q x = false) : updateWhere q f l = l := by
  conv_rhs => rw [← map_id l]
  refine map_congr_left fun x hx => ?_
  simp [h x hx]

theorem map_updateWhere {k : α → β} (h : ∀ x, q x → k (f x) = k x) :
    (updateWhere q f l).map k = l.map k := by
  rw [updateWhere, map_map]
  refine map_congr_left fun x _ => ?_
  by_cases hq : q x
  · simp [hq, h x hq]
  · simp [hq]

theorem find?_updateWhere (h : ∀ x, q x → q (f x)) :
    (updateWhere q f l).find? q = (l.find? q).map f := by
  induction l with
  | nil => rfl
  | cons x xs ih =>
    by_cases hq : q x
    · simp [updateWhere, hq, h x hq]
    · simpa [updateWhere, hq] using ih

theorem find?_updateWhere_of (h : ∀ x, q x → p (f x) = p x) :
    (updateWhere q f l).find? p = (l.find? p).map fun x => if q x then f x else x := by
  have hp : p ∘ (fun x => if q x then f x else x) = p := by
    funext x
    by_cases hq : q x
    · simp [hq, h x hq]
    · simp [hq]
  rw [updateWhere, find?_map, hp]

theorem mem_upsertWhere {row x : α} : x ∈ upsertWhere q f row l ↔
    x ∈ l ∧ q x = false ∨ (∃ y ∈ l, q y = true ∧ x = f y) ∨ (∀ y ∈ l, q y = false) ∧ x = row := by
  unfold upsertWhere updateWhere
  split <;> grind

theorem find?_filter_of (h : ∀ x, p x → q x) : (l.filter q).find? p = l.find? p := by
  rw [find?_filter]
  congr 1
  funext x
  by_cases hp : p x
  · simp [hp, h x hp]
  · simp [hp]

section Keys

variable {κ : Type} [DecidableEq κ] {k : α → κ} {a b : κ}
  (hq : ∀ x, q x ↔ k x = a) (hp : ∀ x, p x ↔ k x = b)

include hq hp

theorem find?_updateWhere_key (hf : ∀ x, k (f x) = k x) :
    (updateWhere q f l).find? p = if a = b then (l.find? p).map f else l.find? p := by
  rw [find?_updateWhere_of fun x _ => by rw [Bool.eq_iff_iff, hp, hp, hf]]
  cases hx : l.find? p with
  | none => simp
  | some x =>
    simp only [Option.map_some, hq, (hp x).mp (find?_some hx), eq_comm]
    split <;> rfl

variable {row : α}

theorem find?_upsertWhere_key (hf : ∀ x, k (f x) = k x) (hrow : k row = a) :
    (upsertWhere q f row l).find? p =
      if a = b then some (((l.find? p).map f).getD row) else l.find? p := by
  have hprow : p row = decide (a = b) := by rw [Bool.eq_iff_iff, hp, hrow, decide_eq_true_iff]
  unfold upsertWhere
  split
  · rename_i hany
    rw [find?_updateWhere_key hq hp hf]
    split
    · rename_i hab
      obtain ⟨x, hx, hqx⟩ := any_eq_true.mp hany
      have hsome : (l.find? p).isSome :=
        find?_isSome.mpr ⟨x, hx, (hp x).mpr (hab ▸ (hq x).mp hqx)⟩
      obtain ⟨y, hy⟩ := Option.isSome_iff_exists.mp hsome
      simp [hy]
    · rfl
  · rename_i hany
    rw [find?_append]
    split
    · rename_i hab
      have hnone : l.find? p = none := find?_eq_none.mpr fun x hx hpx =>
        hany (any_eq_true.mpr ⟨x, hx, (hq x).mpr (hab ▸ (hp x).mp hpx)⟩)
      simp [hnone, hprow, hab]
    · simp [*]

theorem find?_insertAbsent_key (hrow : k row = a) :
    (insertAbsent q row l).find? p = if a = b then some ((l.find? p).getD row) else l.find? p := by
  have hid : insertAbsent q row l = upsertWhere q (fun x => x) row l := by
    simp [insertAbsent, upsertWhere, updateWhere]
  rw [hid, find?_upsertWhere_key hq hp (fun _ => rfl) hrow, Option.map_id']

theorem find?_filter_key : (l.filter (!q ·)).find? p = if a = b then none else l.find? p := by
  split
  · simp only [find?_eq_none, mem_filter]
    grind
  · exact find?_filter_of (by grind)

end Keys

variable {κ : Type} {u : κ}

theorem filter_updateWhere_of_ne [DecidableEq κ] {k : α → κ}
    (hq : ∀ x, q x → k x ≠ u) (hf : ∀ x, k (f x) = k x) :
    (updateWhere q f l).filter (fun x => k x = u) = l.filter (fun x => k x = u) := by
  rw [filter_updateWhere (fun x _ => by rw [hf x])]
  refine updateWhere_of_forall_not fun x hx => ?_
  by_contra hqx
  exact hq x (by simpa using hqx) (by simpa using (mem_filter.mp hx).2)

theorem filter_filter_of_ne [DecidableEq κ] {k : α → κ} (hq : ∀ x, k x = u → q x) :
    (l.filter q).filter (fun x => k x = u) = l.filter (fun x => k x = u) := by
  rw [filter_filter]
  refine filter_congr fun x _ => ?_
  by_cases h : k x = u
  · simp [h, hq x h]
  · simp [h]

theorem filter_insertAbsent_of_ne {k : α → Int} {u : Int} (hrow : k row ≠ u) :
    (insertAbsent q row l).filter (fun x => k x = u) = l.filter (fun x => k x = u) := by
  unfold insertAbsent
  split
  · rfl
  · simp [hrow]

theorem filter_upsertWhere_of_ne [DecidableEq κ] {k : α → κ} (hrow : k row ≠ u)
    (hq : ∀ x, q x → k x ≠ u) (hf : ∀ x, k (f x) = k x) :
    (upsertWhere q f row l).filter (fun x => k x = u) = l.filter (fun x => k x = u) := by
  unfold upsertWhere
  split
  · exact filter_updateWhere_of_ne hq hf
  · simp [hrow]

theorem any_filter_of_imp (h : ∀ x, q x → p x) : (l.filter p).any q = l.any q := by
  rw [any_filter]
  congr 1
  funext x
  by_cases hq : q x
  · simp [hq, h x hq]
  · simp [hq]

theorem filter_insertAbsent (hrow : p row) (h : ∀ x, q x → p x) :
    (insertAbsent q row l).filter p = insertAbsent q row (l.filter p) := by
  unfold insertAbsent
  rw [any_filter_of_imp h]
  split
  · rfl
  · simp [hrow]

theorem filter_upsertWhere (hrow : p row) (h : ∀ x, q x → p x) (hf : ∀ x, q x → p (f x) = p x) :
    (upsertWhere q f row l).filter p = upsertWhere q f row (l.filter p) := by
  unfold upsertWhere
  rw [any_filter_of_imp h]
  split
  · exact filter_updateWhere hf
  · simp [hrow]

theorem filter_filter_filter (l : List α) :
    ((l.filter p).filter q).filter p = (l.filter q).filter p := by
  rw [filter_filter, filter_filter, filter_filter]
  refine filter_congr fun x _ => ?_
  cases p x <;> simp

end Tx.Table
