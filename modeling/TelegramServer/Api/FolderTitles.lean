import TelegramServer.Text.Runes

/-!
# Entities of folder titles

`validateDialogFilterEntities` counts a title in UTF-16 units twice: it encodes the runes, and it
adds up their lengths at every rune that `range` visits.
-/

namespace TelegramServer.Api

open Blob Text List

/-- The runes of a string, when the first `skip` bytes belong to a rune before. -/
def runes : Nat → Bytes → List Nat
  | _, [] => []
  | 0, b :: bs => (decodeRune (b :: bs)).1 :: runes (runeTail (b :: bs)) bs
  | skip + 1, _ :: bs => runes skip bs

def runeLen (r : Nat) : Int :=
  if r < 0xD800 ∨ 0xE000 ≤ r ∧ r < 0x10000 then 1
  else if 0x10000 ≤ r ∧ r ≤ 0x10FFFF then 2
  else -1

def encodeRune (r : Nat) : List Nat :=
  if runeLen r = 1 then [r]
  else if runeLen r = 2 then [0xD800 + (r - 0x10000) / 1024, 0xDC00 + (r - 0x10000) % 1024]
  else [runeError]

def encode (s : List Nat) : List Nat := s.flatMap encodeRune

inductive MessageEntity where
  | customEmoji (offset length documentID : Int64)
  | other

structure DialogFilterEntity where
  offset : Int64
  length : Int64
  documentID : Int64
  deriving DecidableEq

/-- The keys of `boundaries`, from a position on. -/
def boundaries : Int64 → List Nat → List Int64
  | position, [] => [position]
  | position, r :: rs => position :: boundaries (position + .ofInt (runeLen r)) rs

def validateEntity (units : Int64) (marks : List Int64) : MessageEntity → Option DialogFilterEntity
  | .customEmoji offset length documentID =>
    if offset < 0 ∨ length ≤ 0 ∨ length > units ∨ offset > units - length ∨ documentID ≤ 0 then none
    else if offset ∉ marks then none
    else if offset + length ∉ marks then none
    else some ⟨offset, length, documentID⟩
  | .other => none

/-- None for `errEntityBoundsInvalid`. -/
def validateDialogFilterEntities (text : Bytes) (entities : List MessageEntity) :
    Option (List DialogFilterEntity) :=
  entities.mapM (validateEntity (.ofNat (encode (runes 0 text)).length)
    (boundaries 0 (runes 0 text)))

theorem decodeRune_scalar (s : Bytes) :
    (decodeRune s).1 < 0xD800 ∨ 0xE000 ≤ (decodeRune s).1 ∧ (decodeRune s).1 ≤ 0x10FFFF := by
  cases s with
  | nil => simp [decodeRune, runeError]
  | cons b bs =>
    cases h : runeTail (b :: bs) with
    | zero =>
      have := b.toNat_lt
      simp only [decodeRune, h, runeError]
      split <;> omega
    | succ n => exact (decodeRune_of_tail h).1

/-- A rune is one unit or two, and two only if it is longer than a byte. -/
theorem runeLen_decodeRune (b : UInt8) (bs : Bytes) :
    runeLen (decodeRune (b :: bs)).1 = (encodeRune (decodeRune (b :: bs)).1).length ∧
      (encodeRune (decodeRune (b :: bs)).1).length ≤ runeTail (b :: bs) + 1 := by
  have hscalar := decodeRune_scalar (b :: bs)
  have hone : runeTail (b :: bs) = 0 → (decodeRune (b :: bs)).1 < 0x10000 := by
    intro h
    have := b.toNat_lt
    simp only [decodeRune, h, runeError]
    split <;> omega
  generalize (decodeRune (b :: bs)).1 = r at *
  by_cases hsmall : r < 0x10000
  · have hlen : runeLen r = 1 := if_pos (by omega)
    simp [encodeRune, hlen]
  · have hlen : runeLen r = 2 := by rw [runeLen, if_neg (by omega), if_pos (by omega)]
    have htail := mt hone hsmall
    simp [encodeRune, hlen]
    omega

theorem runeLen_of_mem {n r : Nat} {s : Bytes} (h : r ∈ runes n s) :
    runeLen r = (encodeRune r).length := by
  fun_induction runes n s with
  | case1 => simp at h
  | case2 b bs ih =>
    rcases mem_cons.mp h with rfl | h
    · exact (runeLen_decodeRune b bs).1
    · exact ih h
  | case3 n b bs ih => exact ih h

theorem length_encode_runes (n : Nat) (s : Bytes) (hn : n ≤ s.length) :
    (encode (runes n s)).length + n ≤ s.length := by
  fun_induction runes n s with
  | case1 => simpa [encode] using hn
  | case2 b bs ih =>
    have hle : runeTail (b :: bs) ≤ bs.length := runeTail_le (b :: bs)
    have hrest := ih hle
    have hfirst := (runeLen_decodeRune b bs).2
    simp only [encode, flatMap_cons, length_append, length_cons] at hrest ⊢
    omega
  | case3 n b bs ih =>
    have hrest := ih (by simpa using hn)
    rw [length_cons]
    omega

/-- The position is between two characters of the text, or at one of its ends. -/
def Boundary (text : Bytes) (k : Int) : Prop :=
  ∃ before after, runes 0 text = before ++ after ∧ k = (encode before).length

theorem mem_boundaries {position x : Int64} {rs : List Nat}
    (h : ∀ r ∈ rs, runeLen r = (encodeRune r).length) : x ∈ boundaries position rs ↔
      ∃ before after, rs = before ++ after ∧ x = position + .ofInt (encode before).length := by
  induction rs generalizing position with
  | nil => simp [boundaries, encode]
  | cons r rs ih =>
    rw [boundaries, mem_cons, ih fun r hr => h r (by simp [hr]), h r (by simp)]
    constructor
    · rintro (rfl | ⟨before, after, rfl, rfl⟩)
      · exact ⟨[], r :: rs, rfl, by simp [encode]⟩
      · refine ⟨r :: before, after, rfl, ?_⟩
        simp [encode, Int64.ofInt_add, Int64.add_assoc]
    · rintro ⟨before, after, hsplit, rfl⟩
      cases before with
      | nil => exact .inl (by simp [encode])
      | cons r' before =>
        obtain ⟨rfl, rfl⟩ := cons.inj hsplit
        refine .inr ⟨before, after, rfl, ?_⟩
        simp [encode, Int64.ofInt_add, Int64.add_assoc]

/-! ## What is accepted -/

variable {text : Bytes} {e : DialogFilterEntity}

theorem boundary_bounds {k : Int} (h : Boundary text k) :
    0 ≤ k ∧ k ≤ (encode (runes 0 text)).length := by
  obtain ⟨before, after, hsplit, rfl⟩ := h
  rw [hsplit, encode.eq_1 (before ++ after), flatMap_append, length_append]
  exact ⟨Int.natCast_nonneg _, Int.ofNat_le.mpr (Nat.le_add_right ..)⟩

/-- No position wraps: the title has no more units than bytes. -/
theorem mem_boundaries_iff (htext : text.length < 2 ^ 63) {x : Int64} :
    x ∈ boundaries 0 (runes 0 text) ↔ Boundary text x.toInt := by
  have hunits := length_encode_runes 0 text (Nat.zero_le _)
  rw [mem_boundaries fun r => runeLen_of_mem]
  constructor
  · rintro ⟨before, after, hsplit, rfl⟩
    refine ⟨before, after, hsplit, ?_⟩
    have hle := (boundary_bounds ⟨before, after, hsplit, rfl⟩).2
    rw [Int64.zero_add, Int64.toInt_ofInt_of_le] <;> omega
  · rintro ⟨before, after, hsplit, hx⟩
    exact ⟨before, after, hsplit, by rw [Int64.zero_add, ← hx, Int64.ofInt_toInt]⟩

/-- The entity covers whole characters of the title. -/
def Covers (text : Bytes) (e : DialogFilterEntity) : Prop :=
  0 < e.documentID ∧ 0 < e.length ∧ Boundary text e.offset.toInt ∧
    Boundary text (e.offset.toInt + e.length.toInt)

def DialogFilterEntity.raw (e : DialogFilterEntity) : MessageEntity :=
  .customEmoji e.offset e.length e.documentID

/-- The checks are made in 64-bit arithmetic, and none of their sums and differences wraps. -/
theorem covers_iff (htext : text.length < 2 ^ 63) {units : Int64}
    (hunits : units = .ofNat (encode (runes 0 text)).length) :
    (¬ (e.offset < 0 ∨ e.length ≤ 0 ∨ e.length > units ∨ e.offset > units - e.length ∨
        e.documentID ≤ 0) ∧ e.offset ∈ boundaries 0 (runes 0 text) ∧
      e.offset + e.length ∈ boundaries 0 (runes 0 text)) ↔ Covers text e := by
  have hlen := length_encode_runes 0 text (Nat.zero_le _)
  have htotal : units.toInt = (encode (runes 0 text)).length :=
    hunits ▸ Int64.toInt_ofNat_of_lt (by omega)
  have hsub : 0 < e.length.toInt → e.length.toInt ≤ units.toInt →
      (units - e.length).toInt = units.toInt - e.length.toInt := fun _ _ => by
    rw [Int64.toInt_sub, Int.bmod_eq_of_le] <;> omega
  have hadd : 0 ≤ e.offset.toInt + e.length.toInt → e.offset.toInt + e.length.toInt ≤ units.toInt →
      (e.offset + e.length).toInt = e.offset.toInt + e.length.toInt := fun _ _ => by
    rw [Int64.toInt_add, Int.bmod_eq_of_le] <;> omega
  simp only [Covers, mem_boundaries_iff htext, Int64.lt_iff_toInt_lt, Int64.le_iff_toInt_le,
    gt_iff_lt, Int64.toInt_zero]
  constructor
  · rintro ⟨hok, hstart, hend⟩
    rw [hadd (by omega) (by omega)] at hend
    exact ⟨by omega, by omega, hstart, hend⟩
  · rintro ⟨hdocument, hpos, hstart, hend⟩
    have hfrom := boundary_bounds hstart
    have hto := boundary_bounds hend
    rw [hsub (by omega) (by omega), hadd (by omega) (by omega)]
    exact ⟨by omega, hstart, hend⟩

theorem validateEntity_eq_some (htext : text.length < 2 ^ 63) {raw : MessageEntity} :
    validateEntity (.ofNat (encode (runes 0 text)).length) (boundaries 0 (runes 0 text)) raw =
      some e ↔ raw = e.raw ∧ Covers text e := by
  cases raw with
  | other => simp [validateEntity, DialogFilterEntity.raw]
  | customEmoji offset length documentID =>
    rw [validateEntity]
    constructor
    · intro h
      split_ifs at h with hbad hstart hend
      obtain rfl := Option.some.inj h
      exact ⟨rfl, (covers_iff htext rfl).mp ⟨hbad, hstart, hend⟩⟩
    · rintro ⟨heq, hcovers⟩
      obtain ⟨rfl, rfl, rfl⟩ := MessageEntity.customEmoji.inj heq
      obtain ⟨hbad, hstart, hend⟩ := (covers_iff htext rfl).mpr hcovers
      rw [if_neg hbad, if_neg (not_not.mpr hstart), if_neg (not_not.mpr hend)]

/-- Entities are accepted, and returned as they are, exactly if each of them is a custom emoji with
a document and covers whole characters of the title. -/
theorem entities_accepted_iff (htext : text.length < 2 ^ 63) (entities : List MessageEntity)
    (accepted : List DialogFilterEntity) :
    validateDialogFilterEntities text entities = some accepted ↔
      entities = accepted.map DialogFilterEntity.raw ∧ ∀ e ∈ accepted, Covers text e := by
  unfold validateDialogFilterEntities
  induction entities generalizing accepted with
  | nil => cases accepted <;> simp
  | cons raw entities ih =>
    rw [mapM_cons]
    cases accepted with
    | nil => simp [Option.bind_eq_some_iff]
    | cons e accepted =>
      simp only [Option.bind_eq_bind, Option.bind_eq_some_iff, validateEntity_eq_some htext, ih,
        Option.pure_def, Option.some.injEq, cons.injEq, map_cons, forall_mem_cons]
      constructor
      · rintro ⟨_, ⟨rfl, he⟩, _, ⟨rfl, hall⟩, rfl, rfl⟩
        exact ⟨⟨rfl, rfl⟩, he, hall⟩
      · rintro ⟨⟨rfl, rfl⟩, he, hall⟩
        exact ⟨e, ⟨rfl, he⟩, accepted, ⟨rfl, hall⟩, rfl, rfl⟩

/-- A title of one invalid byte and a character of two units. -/
def emojiTitle : Bytes := [0xFF, 0xF0, 0x9F, 0x98, 0x80]

theorem entities_accepted_iff_emoji :
    Covers emojiTitle ⟨1, 2, 7⟩ ∧ ¬ Covers emojiTitle ⟨1, 1, 7⟩ := by
  constructor
  · exact ((entities_accepted_iff (by decide) [.customEmoji 1 2 7] [⟨1, 2, 7⟩]).mp (by decide)).2
      _ (by simp)
  · intro h
    have haccepted : validateDialogFilterEntities emojiTitle [.customEmoji 1 1 7] =
        some [⟨1, 1, 7⟩] :=
      (entities_accepted_iff (by decide) _ _).mpr ⟨rfl, by simpa using h⟩
    exact absurd haccepted (by decide)

end TelegramServer.Api
