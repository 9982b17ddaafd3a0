import TelegramServer.Blob.Queries

/-!
# Runes

The runes that a string starts and ends with, as `unicode/utf8` reads them, and the characters of a
valid string.
-/

namespace TelegramServer.Text

open Blob List

variable {n : Nat} {bs c s : Bytes} {cs : List Bytes} {b : UInt8}

def runeError : Nat := 0xFFFD

/-- `utf8.DecodeRuneInString`: the rune and its bytes. -/
def decodeRune : Bytes → Nat × Nat
  | [] => (runeError, 0)
  | b :: bs =>
    match runeTail (b :: bs) with
    | 0 => (if b < 0x80 then b.toNat else runeError, 1)
    | n + 1 =>
      ((bs.take (n + 1)).foldl (fun r c => 64 * r + c.toNat % 64) (b.toNat % 2 ^ (5 - n)), n + 2)

def runeStart (b : UInt8) : Bool := b &&& 0xC0 ≠ 0x80

def decodeLastRune (s : Bytes) : Nat × Nat :=
  match s.reverse with
  | [] => (runeError, 0)
  | last :: before =>
    if last < 0x80 then (last.toNat, 1)
    else
      let start := s.length - 2 - (before.take 3).findIdx runeStart
      let (r, size) := decodeRune (s.drop start)
      if start + size ≠ s.length then (runeError, 1) else (r, size)

theorem accept_bounds {lo hi : UInt8} (h : accept b = some (lo, hi, n)) :
    0x80 ≤ lo.toNat ∧ hi.toNat ≤ 0xBF ∧ (n = 0 ∧ 0xC2 ≤ b.toNat ∧ b.toNat ≤ 0xDF ∨
      n = 1 ∧ 0xE0 ≤ b.toNat ∧ b.toNat ≤ 0xEF ∧ (b.toNat = 0xED → hi.toNat ≤ 0x9F) ∨
      n = 2 ∧ 0xF0 ≤ b.toNat ∧ b.toNat ≤ 0xF4 ∧ (b.toNat = 0xF0 → 0x90 ≤ lo.toNat) ∧
        (b.toNat = 0xF4 → hi.toNat ≤ 0x8F)) := by
  unfold accept at h
  simp only [UInt8.le_iff_toNat_le, ← UInt8.toNat_inj, UInt8.reduceToNat] at h
  split_ifs at h <;> cases h <;> simp only [UInt8.reduceToNat, true_and] <;> omega

theorem runeTail_eq_succ :
    runeTail (b :: bs) = n + 1 ↔ ∃ lo hi c cs, accept b = some (lo, hi, n) ∧ bs = c :: cs ∧
      lo ≤ c ∧ c ≤ hi ∧ n ≤ cs.length ∧ ∀ x ∈ cs.take n, 0x80 ≤ x ∧ x ≤ 0xBF := by
  unfold runeTail
  split
  · grind
  · grind

/-- A longer rune is a scalar value, and U+FFFD for its own three bytes only. -/
theorem decodeRune_of_tail (h : runeTail (b :: bs) = n + 1) : ((decodeRune (b :: bs)).1 < 0xD800 ∨
      0xE000 ≤ (decodeRune (b :: bs)).1 ∧ (decodeRune (b :: bs)).1 ≤ 0x10FFFF) ∧
    ((decodeRune (b :: bs)).1 = runeError ↔ (b :: bs).take (n + 2) = [0xEF, 0xBF, 0xBD]) := by
  rw [decodeRune, h]
  obtain ⟨lo, hi, c, cs, ha, rfl, hlo, hhi, hlen, hall⟩ := runeTail_eq_succ.mp h
  simp only [UInt8.le_iff_toNat_le, UInt8.reduceToNat] at hlo hhi hall
  obtain ⟨hlo', hhi', ⟨rfl, hb⟩ | ⟨rfl, hb⟩ | ⟨rfl, hb⟩⟩ := accept_bounds ha
  · simp only [take_succ_cons, take_zero, foldl_cons, foldl_nil, runeError, cons.injEq,
      reduceCtorEq, and_false, iff_false]
    omega
  · obtain ⟨d, cs, rfl⟩ := exists_cons_of_length_pos (by omega : 0 < cs.length)
    have hd := hall d (by simp)
    simp only [take_succ_cons, take_zero, foldl_cons, foldl_nil, runeError, cons.injEq,
      ← UInt8.toNat_inj, UInt8.reduceToNat, and_true]
    omega
  · obtain ⟨d, e, cs, rfl⟩ : ∃ d e cs', cs = d :: e :: cs' := by
      match cs, hlen with
      | d :: e :: cs, _ => exact ⟨d, e, cs, rfl⟩
    simp only [take_succ_cons, take_zero, foldl_cons, foldl_nil, runeError, cons.injEq,
      reduceCtorEq, and_false, iff_false]
    omega

theorem decodeRune_size (b : UInt8) (bs : Bytes) :
    (decodeRune (b :: bs)).2 = runeTail (b :: bs) + 1 := by
  rw [decodeRune]
  cases runeTail (b :: bs) <;> rfl

/-! ## Characters -/

def IsChar (c : Bytes) : Prop := validUTF8 0 c ∧ c.length = runeTail c + 1

theorem validUTF8_drop (h : n ≤ s.length) : validUTF8 n s = validUTF8 0 (s.drop n) := by
  induction n generalizing s with
  | zero => rfl
  | succ n ih =>
    obtain ⟨b, bs, rfl⟩ := exists_cons_of_length_pos (by omega : 0 < s.length)
    exact ih (by simpa using h)

theorem runeTail_le (s : Bytes) : runeTail s ≤ s.length - 1 := by
  cases s with
  | nil => simp [runeTail]
  | cons b bs =>
    cases h : runeTail (b :: bs) with
    | zero => simp
    | succ n =>
      obtain ⟨lo, hi, c, cs, -, rfl, -, -, hlen, -⟩ := runeTail_eq_succ.mp h
      simpa using hlen

theorem runeTail_take (b : UInt8) (bs : Bytes) :
    runeTail (b :: bs.take (runeTail (b :: bs))) = runeTail (b :: bs) := by
  cases h : runeTail (b :: bs) with
  | zero => cases ha : accept b <;> simp [runeTail, ha]
  | succ n =>
    obtain ⟨lo, hi, c, cs, ha, rfl, hlo, hhi, hlen, hall⟩ := runeTail_eq_succ.mp h
    exact runeTail_eq_succ.mpr ⟨lo, hi, c, cs.take n, ha, rfl, hlo, hhi, by simp [hlen],
      by rwa [take_take, Nat.min_self]⟩

/-- A character is one byte below `0x80`, or a first byte and all that it announces. -/
theorem IsChar.cases (hc : IsChar c) : (∃ b < 0x80, c = [b]) ∨
    ∃ b bs n, c = b :: bs ∧ runeTail (b :: bs) = n + 1 ∧ bs.length = n + 1 := by
  obtain ⟨hvalid, hlen⟩ := hc
  obtain ⟨b, bs, rfl⟩ := exists_cons_of_length_pos (by omega : 0 < c.length)
  cases h : runeTail (b :: bs) with
  | zero =>
    obtain rfl : bs = [] := by simpa [h] using hlen
    exact .inl ⟨b, by simpa [validUTF8, h] using hvalid, rfl⟩
  | succ n => exact .inr ⟨b, bs, n, rfl, h, by simpa [h] using hlen⟩

theorem IsChar.runeTail_append (hc : IsChar c) (rest : Bytes) :
    runeTail (c ++ rest) = runeTail c := by
  rcases hc.cases with ⟨b, hb, rfl⟩ | ⟨b, bs, n, rfl, h, -⟩
  · have hlt : b < 0xC2 := UInt8.lt_trans hb (by decide)
    rw [runeTail_of_lt hlt, cons_append, runeTail_of_lt hlt]
  · obtain ⟨lo, hi, c, cs, ha, rfl, hlo, hhi, hn, hall⟩ := runeTail_eq_succ.mp h
    rw [h]
    refine runeTail_eq_succ.mpr ⟨lo, hi, c, cs ++ rest, ha, rfl, hlo, hhi, by simp; omega, ?_⟩
    rwa [take_append_of_le_length hn]

/-- What is left of a character that was cut is no rune. -/
theorem IsChar.runeTail_cut (hc : IsChar c) {k : Nat} (hk : k < c.length) :
    runeTail (c.take k) = 0 := by
  rcases hc.cases with ⟨b, -, rfl⟩ | ⟨b, bs, m, rfl, hm, hbs⟩
  · simp_all [runeTail]
  cases k with
  | zero => rfl
  | succ k =>
    by_contra hne
    obtain ⟨n, hn⟩ := Nat.exists_eq_succ_of_ne_zero hne
    obtain ⟨lo, hi, c, cs, ha, hcs, -, -, hlen, -⟩ := runeTail_eq_succ.mp hn
    obtain ⟨lo', hi', c', cs', ha', -⟩ := runeTail_eq_succ.mp hm
    obtain ⟨-, -, rfl⟩ : lo = lo' ∧ hi = hi' ∧ n = m := by simpa [ha] using ha'
    have hlen' := congrArg length hcs
    simp at hlen' hk
    omega

theorem IsChar.validUTF8_append (hc : IsChar c) (rest : Bytes) :
    validUTF8 0 (c ++ rest) = validUTF8 0 rest := by
  have htail := hc.runeTail_append rest
  obtain ⟨hvalid, hlen⟩ := hc
  obtain ⟨b, bs, rfl⟩ := exists_cons_of_length_pos (by omega : 0 < c.length)
  have hbs : bs.length = runeTail (b :: bs) := by simpa using hlen
  simp only [validUTF8, Bool.and_eq_true] at hvalid
  rw [cons_append] at htail ⊢
  rw [validUTF8, htail, hvalid.1, Bool.true_and, ← hbs, validUTF8_drop (by simp), drop_left]

/-- A valid string is its characters one after the other. -/
theorem exists_chars (h : validUTF8 0 s) :
    ∃ cs : List Bytes, (∀ c ∈ cs, IsChar c) ∧ s = cs.flatten := by
  induction hn : s.length using Nat.strong_induction_on generalizing s with
  | h n ih =>
    cases s with
    | nil => exact ⟨[], by simp, rfl⟩
    | cons b bs =>
      have hle : runeTail (b :: bs) ≤ bs.length := runeTail_le (b :: bs)
      simp only [validUTF8, Bool.and_eq_true] at h
      rw [validUTF8_drop hle] at h
      obtain ⟨cs, hcs, hrest⟩ := ih _ (by simp at hn ⊢; omega) h.2 rfl
      refine ⟨(b :: bs.take (runeTail (b :: bs))) :: cs, forall_mem_cons.mpr ⟨⟨?_, ?_⟩, hcs⟩, ?_⟩
      · rw [validUTF8, runeTail_take, validUTF8_drop (by simp [hle])]
        simpa [drop_of_length_le, validUTF8] using h.1
      · rw [runeTail_take]
        simp [hle]
      · rw [flatten_cons, ← hrest, cons_append, take_append_drop]

theorem validUTF8_flatten (h : ∀ c ∈ cs, IsChar c) (rest : Bytes) :
    validUTF8 0 (cs.flatten ++ rest) = validUTF8 0 rest := by
  induction cs with
  | nil => rfl
  | cons c cs ih =>
    rw [flatten_cons, append_assoc, (h c (by simp)).validUTF8_append,
      ih fun c hc => h c (by simp [hc])]

/-- A cut of a valid string ends after a character or inside one. -/
theorem exists_cut (h : ∀ c ∈ cs, IsChar c) (hn : n < cs.flatten.length) :
    ∃ as c k, (∀ a ∈ as, IsChar a) ∧ IsChar c ∧ k < c.length ∧
      cs.flatten.take n = flatten as ++ c.take k := by
  induction cs generalizing n with
  | nil => simp at hn
  | cons c cs ih =>
    obtain ⟨hc, hcs⟩ := forall_mem_cons.mp h
    rw [flatten_cons, length_append] at hn
    by_cases hlt : n < c.length
    · exact ⟨[], c, n, by simp, hc, hlt, by simp [take_append_of_le_length hlt.le]⟩
    · obtain ⟨as, d, k, has, hd, hk, htake⟩ := ih hcs (n := n - c.length) (by omega)
      refine ⟨c :: as, d, k, forall_mem_cons.mpr ⟨hc, has⟩, hd, hk, ?_⟩
      rw [flatten_cons, take_append, take_of_length_le (by omega), htake, flatten_cons,
        append_assoc]

end TelegramServer.Text
