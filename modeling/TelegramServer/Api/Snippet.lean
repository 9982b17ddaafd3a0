import TelegramServer.Text.Runes

/-!
# Reply snippets

`replySnippet` cuts the quoted text after 25 bytes and looks at the last rune of what is left.
-/

namespace TelegramServer.Api

open Blob Text List

variable {a c : Bytes} {k : Nat} {s : Bytes}

def replySnippet (s : Bytes) : Bytes :=
  if s.length ≤ 25 then s
  else
    let trunc := s.take 25
    let (r, size) := decodeLastRune trunc
    if r = runeError ∧ size = 1 then trunc.take (trunc.length - 1)
    else if r = runeError then trunc.take (trunc.length - size)
    else trunc

/-! ## The last rune -/

theorem runeStart_eq (b : UInt8) : runeStart b = !(0x80 ≤ b && b ≤ 0xBF) := by
  have hall : ∀ n < 256, runeStart (.ofNat n) =
      !(0x80 ≤ UInt8.ofNat n && UInt8.ofNat n ≤ 0xBF) := by
    decide +kernel
  simpa using hall b.toNat b.toNat_lt

/-- A character is a first byte and at most three that continue it. -/
theorem isChar_shape (hc : IsChar c) : ∃ b conts, c = b :: conts ∧ runeStart b ∧
    conts.length ≤ 3 ∧ (∀ x ∈ conts, runeStart x = false) ∧ (conts ≠ [] → 0x80 ≤ b) := by
  rcases hc.cases with ⟨b, hb, rfl⟩ | ⟨b, bs, n, rfl, h, hlen⟩
  · refine ⟨b, [], rfl, ?_⟩
    simp only [runeStart_eq]
    grind
  · obtain ⟨lo, hi, c, cs, ha, rfl, hlo, hhi, -, hall⟩ := runeTail_eq_succ.mp h
    have hcs : cs.length = n := by simpa using hlen
    refine ⟨b, c :: cs, rfl, ?_⟩
    rw [take_of_length_le hcs.le] at hall
    have hbounds := accept_bounds ha
    simp only [UInt8.le_iff_toNat_le, runeStart_eq, UInt8.reduceToNat] at *
    refine ⟨?_, ?_, ?_, ?_⟩
    · simp; omega
    · simp; omega
    · intro x hx
      rcases mem_cons.mp hx with rfl | hx
      · simp; omega
      · simpa using hall x hx
    · omega

/-- The search from the end stops at the first byte of the character before the last byte. -/
theorem decodeLastRune_append {conts : Bytes} {b z : UInt8} (u : Bytes) (hb : runeStart b)
    (hconts : ∀ x ∈ conts, runeStart x = false) (hlen : conts.length ≤ 3) (hz : 0x80 ≤ z) :
    decodeLastRune (u ++ (b :: conts ++ [z])) =
      if (decodeRune (b :: conts ++ [z])).2 ≠ conts.length + 2 then (runeError, 1)
      else decodeRune (b :: conts ++ [z]) := by
  have hrev : (u ++ (b :: conts ++ [z])).reverse = z :: (conts.reverse ++ b :: u.reverse) := by simp
  have hfind : ((conts.reverse ++ b :: u.reverse).take 3).findIdx runeStart = conts.length := by
    have hnone : conts.reverse.findIdx runeStart = conts.reverse.length :=
      findIdx_eq_length.mpr (by simpa using hconts)
    rw [take_append, take_of_length_le (by simpa using hlen), findIdx_append, hnone,
      if_neg (Nat.lt_irrefl _)]
    cases 3 - conts.reverse.length with
    | zero => simp
    | succ k => simp [findIdx_cons, hb]
  have hstart : (u ++ (b :: conts ++ [z])).length - 2 - conts.length = u.length := by
    simp
    omega
  unfold decodeLastRune
  rw [hrev]
  dsimp only
  rw [if_neg (UInt8.not_lt.mpr hz), hfind, hstart, drop_left]
  congr 1
  simp

/-- The last rune of a string that ends after a character. -/
theorem decodeLastRune_char (hc : IsChar c) (u : Bytes) :
    decodeLastRune (u ++ c) = decodeRune c := by
  obtain ⟨b, conts, rfl, hb, hlen, hconts, hfirst⟩ := isChar_shape hc
  have htail : runeTail (b :: conts) = conts.length := by simpa using hc.2.symm
  rcases eq_nil_or_concat' conts with rfl | ⟨conts', z, rfl⟩
  · have hascii : b < 0x80 := by simpa [validUTF8, runeTail] using hc.1
    simp [decodeLastRune, decodeRune, htail, hascii]
  · have hz := hconts z (by simp)
    rw [runeStart_eq] at hz
    rw [← cons_append, decodeLastRune_append u hb (fun x hx => hconts x (by simp [hx]))
      (by simp at hlen; omega) (by grind), cons_append, decodeRune_size, htail, if_neg (by simp)]

/-- The last rune of a string that ends inside a character. -/
theorem decodeLastRune_cut {as : List Bytes} (has : ∀ a ∈ as, IsChar a)
    (hne : as ≠ []) (hc : IsChar c) (hk : k < c.length) (hpos : 0 < k) :
    decodeLastRune (as.flatten ++ c.take k) = (runeError, 1) := by
  obtain ⟨b, conts, rfl, hb, hlen, hconts, hfirst⟩ := isChar_shape hc
  have hcut := hc.runeTail_cut hk
  obtain ⟨k, rfl⟩ := Nat.exists_eq_succ_of_ne_zero hpos.ne'
  rw [length_cons, Nat.succ_lt_succ_iff] at hk
  rw [take_succ_cons] at hcut ⊢
  cases k with
  | zero =>
    -- The last byte starts the character, and the search finds the one before it.
    obtain ⟨as, a, rfl⟩ := (eq_nil_or_concat' as).resolve_left hne
    have ha := has a (by simp)
    have htail := ha.runeTail_append [b]
    have hsize := ha.2
    obtain ⟨b', conts', rfl, hb', hlen', hconts', -⟩ := isChar_shape ha
    rw [take_zero, flatten_append, flatten_singleton, append_assoc,
      decodeLastRune_append _ hb' hconts' hlen' (hfirst (ne_nil_of_length_pos hk)), cons_append,
      decodeRune_size, ← cons_append, htail, if_pos]
    simp at hsize
    omega
  | succ k =>
    have hz := hconts (conts.get ⟨k, by omega⟩) (get_mem ..)
    rw [runeStart_eq] at hz
    rw [← take_concat_get' conts k (by omega), ← cons_append] at hcut ⊢
    rw [decodeLastRune_append _ hb (fun x hx => hconts x (mem_of_mem_take hx)) (by simp; omega)
      (by grind), cons_append, decodeRune_size, ← cons_append, hcut, if_pos (by simp)]

theorem validUTF8_cut (hc : IsChar c) (hk : k < c.length) (hpos : 0 < k) :
    validUTF8 0 (c.take k) = false := by
  obtain ⟨b, conts, rfl, -, -, -, hfirst⟩ := isChar_shape hc
  have hcut := hc.runeTail_cut hk
  obtain ⟨k, rfl⟩ := Nat.exists_eq_succ_of_ne_zero hpos.ne'
  have hb : 0x80 ≤ b := hfirst (ne_nil_of_length_pos (by simp at hk; omega))
  rw [take_succ_cons] at hcut ⊢
  simp [validUTF8, hcut, hb]

def replacement : Bytes := [0xEF, 0xBF, 0xBD]

theorem decodeRune_eq_runeError (ha : IsChar a) :
    (decodeRune a).1 = runeError ↔ a = replacement := by
  rcases ha.cases with ⟨b, hb, rfl⟩ | ⟨b, bs, n, rfl, h, hlen⟩
  · have := b.toNat_lt
    simp [decodeRune, runeTail_of_lt (UInt8.lt_trans hb (by decide)), hb, runeError, replacement]
    omega
  · rw [(decodeRune_of_tail h).2, take_of_length_le (by simp [hlen])]
    rfl

/-- The last of the characters is U+FFFD where the string ends in its bytes. -/
theorem suffix_iff {u : Bytes} (ha : IsChar a) : replacement <:+ u ++ a ↔ a = replacement := by
  refine ⟨fun ⟨v, hv⟩ => ?_, fun h => h ▸ suffix_append u _⟩
  rw [← decodeRune_eq_runeError ha, ← decodeLastRune_char ha u, ← hv,
    decodeLastRune_char ⟨rfl, rfl⟩]
  rfl

/-- The longest start of the text that is at most 25 bytes of whole characters. -/
def IsSnippet (s p : Bytes) : Prop :=
  p <+: s ∧ p.length ≤ 25 ∧ validUTF8 0 p ∧
    ∀ q, q <+: s → q.length ≤ 25 → validUTF8 0 q → q.length ≤ p.length

theorem isSnippet_take (hs : 25 < s.length) (h : validUTF8 0 (s.take 25)) :
    IsSnippet s (s.take 25) :=
  ⟨ take_prefix .., by simp, h, fun q _ hq _ => by simp; omega⟩

theorem isSnippet_take_pred (hs : 25 < s.length) (h : validUTF8 0 (s.take 25) = false) :
    IsSnippet s (s.take 24) ↔ validUTF8 0 (s.take 24) := by
  refine ⟨fun hp => hp.2.2.1, fun hp => ⟨ take_prefix .., by simp, hp, fun q hq hlen hvalid => ?_⟩⟩
  rw [length_take]
  by_contra hgt
  rw [prefix_iff_eq_take.mp hq, show q.length = 25 by omega, h] at hvalid
  cases hvalid

/-- The snippet of a valid text is the longest one exactly if the text is short, the cut falls after
a character that is not U+FFFD, or it falls one byte into a character. -/
theorem replySnippet_whole_iff (hs : validUTF8 0 s) : IsSnippet s (replySnippet s) ↔ s.length ≤ 25 ∨
      if validUTF8 0 (s.take 25) then ¬ replacement <:+ s.take 25 else validUTF8 0 (s.take 24) := by
  unfold replySnippet
  by_cases hshort : s.length ≤ 25
  · rw [if_pos hshort]
    exact iff_of_true ⟨prefix_rfl, hshort, hs, fun q hq _ _ => hq.length_le⟩ (.inl hshort)
  rw [if_neg hshort]
  have hlong : 25 < s.length := by omega
  obtain ⟨cs, hcs, hflat⟩ := exists_chars hs
  obtain ⟨as, c, k, has, hc, hk, hcut⟩ := exists_cut hcs (hflat ▸ hlong)
  rw [← hflat] at hcut
  have htrunc : (s.take 25).length = 25 := by simp; omega
  obtain ⟨b, conts, hshape, -, hlen, -⟩ := isChar_shape hc
  have hne : as ≠ [] := by
    rintro rfl
    have := congrArg length hcut
    simp [hshape] at this hk
    omega
  cases Nat.eq_zero_or_pos k with
  | inl hzero =>
    subst hzero
    rw [take_zero, append_nil] at hcut
    have hvalid : validUTF8 0 (s.take 25) := by
      simpa [hcut, validUTF8] using validUTF8_flatten has []
    obtain ⟨as, a, rfl⟩ := (eq_nil_or_concat' as).resolve_left hne
    have ha := has a (by simp)
    rw [flatten_append, flatten_singleton] at hcut
    have hlast : decodeLastRune (s.take 25) = decodeRune a := hcut ▸ decodeLastRune_char ha _
    have hsuffix : replacement <:+ s.take 25 ↔ (decodeRune a).1 = runeError := by
      rw [hcut, suffix_iff ha, decodeRune_eq_runeError ha]
    -- A shorter result is not the longest: the cut text is valid.
    have hloses : ∀ n < 25, ¬ IsSnippet s ((s.take 25).take n) := fun n hn hp => by
      have := hp.2.2.2 _ ( take_prefix ..) htrunc.le hvalid
      simp at this
      omega
    simp only [hshort, hvalid, hsuffix, hlast, htrunc, if_true, false_or]
    have hpos : 0 < (decodeRune a).2 := by
      obtain ⟨b, bs, rfl⟩ := exists_cons_of_length_pos (by have := ha.2; omega : 0 < a.length)
      simp [decodeRune_size]
    by_cases herr : (decodeRune a).1 = runeError
    · simp only [herr, true_and, if_true, not_true_eq_false, iff_false]
      split
      · exact hloses _ (by omega)
      · exact hloses _ (by omega)
    · simpa [herr] using isSnippet_take hlong hvalid
  | inr hpos =>
    have hinvalid : validUTF8 0 (s.take 25) = false := by
      rw [hcut, validUTF8_flatten has, validUTF8_cut hc hk hpos]
    have hlast : decodeLastRune (s.take 25) = (runeError, 1) :=
      hcut ▸ decodeLastRune_cut has hne hc hk hpos
    simp only [hshort, hinvalid, hlast, htrunc, and_self, if_true, false_or, Bool.false_eq_true,
      if_false]
    rw [take_take]
    exact isSnippet_take_pred hlong hinvalid

def euroSign : Bytes := [0xE2, 0x82, 0xAC]

theorem replySnippet_whole_iff_euro :
    IsSnippet (replicate 24 97 ++ euroSign) (replySnippet (replicate 24 97 ++ euroSign)) :=
  (replySnippet_whole_iff (by decide)).mpr (by decide)

/-- Two of the three bytes of a character are left after the cut, and one of them is dropped. -/
theorem snippet_ends_inside_character : ∃ s, validUTF8 0 s ∧ ¬ validUTF8 0 (replySnippet s) ∧
    ¬ IsSnippet s (replySnippet s) := by
  have hinvalid : ¬ validUTF8 0 (replySnippet (replicate 23 97 ++ euroSign)) := by decide
  exact ⟨_, by decide, hinvalid, fun h => hinvalid h.2.2.1⟩

end TelegramServer.Api
