import Mathlib.Data.List.Induction
import Mathlib.Tactic.Ring

/-!
# Bytes on the wire

Big-endian numbers of a fixed width, readers that deliver a stream in chunks of any size, and
what it means that a parser succeeds.
-/

namespace TelegramServer.Edge

open List

abbrev Bytes := List UInt8

variable {chunks : List Bytes} {n : Nat} {ε α β : Type} {x : Except ε α} {f : α → Except ε β}
  {a : α} {b : β}

def ofBE (bs : Bytes) : Nat :=
  bs.foldl (fun n b => 256 * n + b.toNat) 0

def toBE : Nat → Nat → Bytes
  | 0, _ => []
  | w + 1, n => toBE w (n / 256) ++ [UInt8.ofNat n]

@[simp] theorem length_toBE (w n : Nat) : (toBE w n).length = w := by
  induction w generalizing n with
  | zero => rfl
  | succ w ih => simp [toBE, ih]

@[simp] theorem take_toBE (w n : Nat) (bs : Bytes) : (toBE w n ++ bs).take w = toBE w n :=
  take_left' (length_toBE w n)

@[simp] theorem ofBE_concat (bs : Bytes) (b : UInt8) :
    ofBE (bs ++ [b]) = 256 * ofBE bs + b.toNat := by
  simp [ofBE]

theorem ofBE_toBE {w : Nat} (h : n < 256 ^ w) : ofBE (toBE w n) = n := by
  induction w generalizing n with
  | zero =>
    obtain rfl : n = 0 := by simpa using h
    rfl
  | succ w ih =>
    rw [pow_succ] at h
    rw [toBE, ofBE_concat, ih (by omega), UInt8.toNat_ofNat']
    omega

theorem toBE_ofBE (bs : Bytes) : toBE bs.length (ofBE bs) = bs := by
  induction bs using List.reverseRecOn with
  | nil => rfl
  | append_singleton bs b ih =>
    have hdiv : (256 * ofBE bs + b.toNat) / 256 = ofBE bs := by
      have := b.toNat_lt
      omega
    rw [length_append, length_singleton, toBE, ofBE_concat, hdiv, ih]
    congr 2
    apply UInt8.toNat_inj.mp
    rw [UInt8.toNat_ofNat']
    have := b.toNat_lt
    omega

theorem ofBE_lt (bs : Bytes) : ofBE bs < 256 ^ bs.length := by
  induction bs using List.reverseRecOn with
  | nil => simp [ofBE]
  | append_singleton bs b ih =>
    have := b.toNat_lt
    rw [ofBE_concat, length_append, length_singleton, pow_succ]
    omega

/-- `io.ReadFull` of `n` bytes from a reader that delivers these chunks; `none` where they end. -/
def readFull : Nat → List Bytes → Option (Bytes × List Bytes)
  | 0, chunks => some ([], chunks)
  | _ + 1, [] => none
  | n + 1, c :: chunks =>
    if n + 1 ≤ c.length then some (c.take (n + 1), c.drop (n + 1) :: chunks)
    else (readFull (n + 1 - c.length) chunks).map fun r => (c ++ r.1, r.2)

theorem readFull_some {r : Bytes × List Bytes}
    (h : readFull n chunks = some r) : r.1.length = n ∧ chunks.flatten = r.1 ++ r.2.flatten := by
  induction chunks generalizing n r with
  | nil =>
    cases n with
    | zero =>
      cases h
      simp
    | succ n => cases h
  | cons c chunks ih =>
    cases n with
    | zero =>
      cases h
      simp
    | succ n =>
      rw [readFull] at h
      split at h
      · cases h
        simpa [← append_assoc]
      · obtain ⟨r, hr, rfl⟩ := Option.map_eq_some_iff.mp h
        obtain ⟨hlen, hflat⟩ := ih hr
        simp only [length_append, flatten_cons, hflat, append_assoc, and_true]
        omega

theorem readFull_eq_none : readFull n chunks = none ↔ chunks.flatten.length < n := by
  induction chunks generalizing n with
  | nil => cases n <;> simp [readFull]
  | cons c chunks ih =>
    cases n with
    | zero => simp [readFull]
    | succ n =>
      rw [readFull, flatten_cons, length_append]
      split
      · simp
        omega
      · rw [Option.map_eq_none_iff, ih]
        omega

theorem readFull_append {bs p : Bytes} (h : chunks.flatten = bs ++ p) :
    ∃ rest, readFull bs.length chunks = some (bs, rest) ∧ rest.flatten = p := by
  cases hr : readFull bs.length chunks with
  | none =>
    rw [readFull_eq_none, h, length_append] at hr
    omega
  | some r =>
    obtain ⟨hlen, hflat⟩ := readFull_some hr
    obtain ⟨heq, hrest⟩ := append_inj (hflat.symm.trans h) hlen
    exact ⟨r.2, by rw [← heq], hrest⟩

theorem bind_eq_ok : x >>= f = .ok b ↔ ∃ a, x = .ok a ∧ f a = .ok b := by
  cases x with
  | error e => exact ⟨nofun, nofun⟩
  | ok a => exact ⟨fun h => ⟨a, rfl, h⟩, fun ⟨_, rfl, h⟩ => h⟩

theorem ite_error_eq_ok {p : Prop} [Decidable p] {e : ε} :
    (if p then .error e else x) = .ok a ↔ ¬p ∧ x = .ok a := by
  split <;> simp_all

theorem mapError_eq_ok {δ : Type} {g : ε → δ} : x.mapError g = .ok a ↔ x = .ok a := by
  cases x <;> simp [Except.mapError]

end TelegramServer.Edge
