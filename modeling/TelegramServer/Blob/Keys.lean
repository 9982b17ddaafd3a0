import Mathlib.Data.Nat.Digits.Lemmas

/-!
# Blob keys

Strings are byte strings. A stored file lives at `xx/<id>`, sharded on the low byte of the id, an
upload part at `parts/xx/<30 hex digits>`; a write in progress carries a suffix. The parsers accept
what the writers produce and no more.
-/

namespace TelegramServer.Blob

open List

abbrev Bytes := List UInt8

def ascii (cs : List Char) : Bytes := cs.map fun c => UInt8.ofNat c.toNat

def slash : UInt8 := 47

def cut (sep : UInt8) : Bytes → Option (Bytes × Bytes)
  | [] => none
  | c :: cs => if c = sep then some ([], cs) else (cut sep cs).map fun r => (c :: r.1, r.2)

def cutPrefix (pre s : Bytes) : Option Bytes :=
  if pre.isPrefixOf s then some (s.drop pre.length) else none

/-- `strings.Split` at the slashes. -/
def segments : Bytes → List Bytes
  | [] => [[]]
  | c :: cs => if c = slash then [] :: segments cs else (segments cs).modifyHead (c :: ·)

def isDigit (c : UInt8) : Bool := 48 ≤ c ∧ c ≤ 57

def isLowerHexDigit (c : UInt8) : Bool := isDigit c || (97 ≤ c && c ≤ 102)

def isLowerHex (s : Bytes) : Bool := s.all isLowerHexDigit

def digit (d : Nat) : UInt8 := UInt8.ofNat (if d < 10 then 48 + d else 87 + d)

def decimal (n : Nat) : Bytes :=
  if n = 0 then [48] else ((Nat.digits 10 n).map digit).reverse

def hex2 (b : UInt8) : Bytes := [digit (b.toNat / 16), digit (b.toNat % 16)]

def parseDigits (s : Bytes) : Option Nat :=
  if s ≠ [] ∧ s.all isDigit then some (Nat.ofDigits 10 (s.reverse.map fun c => c.toNat - 48))
    else none

def parseInt (s : Bytes) : Option Int :=
  match s with
  | 45 :: ds => (parseDigits ds).bind fun n => if n ≤ 2 ^ 63 then some (-n) else none
  | 43 :: ds => (parseDigits ds).bind fun n => if n < 2 ^ 63 then some n else none
  | ds => (parseDigits ds).bind fun n => if n < 2 ^ 63 then some n else none

def maxKeyBytes : Nat := 1024

/-- A byte outside ASCII is seen before any that belongs to the same rune. -/
def allowed (c : UInt8) : Bool :=
  (97 ≤ c && c ≤ 122) || (65 ≤ c && c ≤ 90) || isDigit c || c = 46 || c = 95 || c = 45

def validSegment (s : Bytes) : Bool :=
  s ≠ [] && s ≠ [46] && s ≠ [46, 46] && s.all allowed

def validateKey (key : Bytes) : Bool :=
  key.length ≠ 0 && key.length ≤ maxKeyBytes && (segments key).all validSegment

def tempSuffix : Bytes := ascii ['.', 't', 'm', 'p']

def key (id : Int) : Bytes :=
  hex2 (UInt8.ofNat (id % 256).toNat) ++ slash ::
    if id < 0 then 45 :: decimal (-id).toNat else decimal id.toNat

def parseKey (s : Bytes) : Option Int := do
  let (_, num) ← cut slash s
  let id ← parseInt num
  if id ≤ 0 ∨ key id ≠ s then none else some id

def hexValue (c : UInt8) : Option Nat :=
  if isDigit c then some (c.toNat - 48)
  else if 97 ≤ c ∧ c ≤ 102 then some (c.toNat - 87)
  else if 65 ≤ c ∧ c ≤ 70 then some (c.toNat - 55)
  else none

def parseUint (s : Bytes) : Option Nat := do
  let ds ← s.mapM hexValue
  if s ≠ [] ∧ Nat.ofDigits 16 ds.reverse < 256 then some (Nat.ofDigits 16 ds.reverse) else none

def isShard (name : Bytes) : Bool :=
  match parseUint name with
  | some b => hex2 (UInt8.ofNat b) = name
  | none => false

def partsPrefix : Bytes := ascii ['p', 'a', 'r', 't', 's', '/']

def partKeySuffixBytes : Nat := 15

/-- The random bytes of a part key: its name, and the byte it is sharded on. -/
structure Draw where
  name : Bytes
  shard : UInt8
  length_name : name.length = partKeySuffixBytes

def newPartKey (draw : Draw) : Bytes :=
  partsPrefix ++ (hex2 draw.shard ++ slash :: draw.name.flatMap hex2)

def isPartShardDir (key : Bytes) : Bool :=
  match cutPrefix partsPrefix key with
  | none => false
  | some rest => !rest.contains slash && isShard rest

def parsePartKey (key : Bytes) : Bool :=
  match cutPrefix partsPrefix key with
  | none => false
  | some suffix =>
    match cut slash suffix with
    | some (shard, rest) =>
      !(shard.length ≠ 2 || rest.length ≠ partKeySuffixBytes * 2 || !isShard shard) &&
        isLowerHex rest
    | none => suffix.length = (partKeySuffixBytes + 1) * 2 && isLowerHex suffix

inductive Produced : Bytes → Prop where
  | file (id : Int) (hpos : 0 < id) (hlt : id < 2 ^ 63) : Produced (key id)
  | part (draw : Draw) : Produced (newPartKey draw)

/-- Lexical resolution of a path, segment by segment. -/
def clean (path : List Bytes) : List Bytes :=
  path.foldl (fun acc s => if s = [] ∨ s = [46] then acc else if s = [46, 46] then acc.dropLast
    else acc ++ [s]) []

/-! ## What the strings are made of -/

variable {a s t : Bytes} {id : Int}

theorem cut_append {sep : UInt8} {b : Bytes} (h : sep ∉ a) :
    cut sep (a ++ sep :: b) = some (a, b) := by
  induction a with
  | nil => simp [cut]
  | cons c cs ih =>
    rw [mem_cons, not_or] at h
    rw [cons_append, cut, if_neg (Ne.symm h.1), ih h.2]
    rfl

theorem segments_of_notMem (h : slash ∉ a) : segments a = [a] := by
  induction a with
  | nil => rfl
  | cons c cs ih =>
    rw [mem_cons, not_or] at h
    rw [segments, if_neg (Ne.symm h.1), ih h.2]
    rfl

theorem segments_append {b : Bytes} (h : slash ∉ a) :
    segments (a ++ slash :: b) = a :: segments b := by
  induction a with
  | nil => simp [segments]
  | cons c cs ih =>
    rw [mem_cons, not_or] at h
    rw [cons_append, segments, if_neg (Ne.symm h.1), ih h.2]
    rfl

theorem isLowerHexDigit_digit : ∀ d < 16, isLowerHexDigit (digit d) = true := by decide

theorem isDigit_digit : ∀ d < 10, isDigit (digit d) = true ∧ (digit d).toNat - 48 = d := by decide

theorem isLowerHex_hex2 (b : UInt8) : isLowerHex (hex2 b) = true := by
  have hb := b.toNat_lt
  simp only [isLowerHex, hex2, all_cons, all_nil, Bool.and_true, Bool.and_eq_true]
  exact ⟨isLowerHexDigit_digit _ (by omega), isLowerHexDigit_digit _ (by omega)⟩

theorem isLowerHex_flatMap_hex2 (bs : Bytes) : isLowerHex (bs.flatMap hex2) = true := by
  rw [isLowerHex, all_flatMap, all_eq_true]
  exact fun b _ => isLowerHex_hex2 b

theorem length_flatMap_hex2 (bs : Bytes) : (bs.flatMap hex2).length = bs.length * 2 := by
  induction bs with
  | nil => rfl
  | cons b bs ih =>
    rw [flatMap_cons, length_append, ih, length_cons, hex2]
    simp only [length_cons, length_nil]
    omega

theorem isDigit_decimal (n : Nat) : (decimal n).all isDigit = true := by
  unfold decimal
  split
  · rfl
  · rw [all_reverse, all_map, all_eq_true]
    exact fun d hd => (isDigit_digit d (Nat.digits_lt_base (by norm_num) hd)).1

theorem decimal_ne_nil (n : Nat) : decimal n ≠ [] := by
  unfold decimal
  split
  · simp
  · simpa using Nat.digits_ne_nil_iff_ne_zero.mpr ‹_›

theorem parseDigits_decimal (n : Nat) : parseDigits (decimal n) = some n := by
  rw [parseDigits, if_pos ⟨decimal_ne_nil n, isDigit_decimal n⟩]
  unfold decimal
  split
  · subst n
    rfl
  · rw [reverse_reverse, map_map]
    have hdigits : (Nat.digits 10 n).map ((fun c => c.toNat - 48) ∘ digit) = Nat.digits 10 n :=
      (map_congr_left fun d hd => (isDigit_digit d (Nat.digits_lt_base (by norm_num) hd)).2).trans
        (map_id _)
    rw [hdigits, Nat.ofDigits_digits]

theorem parseInt_of_digits (h : s.all isDigit = true) :
    parseInt s = (parseDigits s).bind fun n => if n < 2 ^ 63 then some (n : Int) else none := by
  unfold parseInt
  split
  · simp [isDigit] at h
  · simp [isDigit] at h
  · rfl

theorem isShard_hex2 (b : UInt8) : isShard (hex2 b) = true := by
  have hall : ∀ n < 256, isShard (hex2 (UInt8.ofNat n)) = true := by decide +kernel
  have hb := hall b.toNat b.toNat_lt
  rwa [UInt8.ofNat_toNat] at hb

theorem slash_notMem_of_all {p : UInt8 → Bool} (h : s.all p = true) (hp : p slash = false) :
    slash ∉ s := fun hmem => by
  have := all_eq_true.mp h slash hmem
  rw [hp] at this
  cases this

theorem slash_notMem_hex (h : isLowerHex s = true) : slash ∉ s :=
  slash_notMem_of_all h (by decide)

theorem key_of_pos (h : 0 < id) : ∃ b, key id = hex2 b ++ slash :: decimal id.toNat :=
  ⟨_, by rw [key, if_neg (by omega)]⟩

theorem parseKey_key (hpos : 0 < id) (hlt : id < 2 ^ 63) : parseKey (key id) = some id := by
  obtain ⟨b, hb⟩ := key_of_pos hpos
  have hnum : parseInt (decimal id.toNat) = some id := by
    rw [parseInt_of_digits (isDigit_decimal _), parseDigits_decimal, Option.bind_some,
      if_pos (by omega), Int.toNat_of_nonneg hpos.le]
  have hcut : cut slash (key id) = some (hex2 b, decimal id.toNat) := by
    rw [hb, cut_append (slash_notMem_hex (isLowerHex_hex2 b))]
  rw [parseKey, hcut]
  simp [hnum, hpos]

theorem key_of_parseKey (h : parseKey s = some id) : 0 < id ∧ id < 2 ^ 63 ∧ s = key id := by
  unfold parseKey at h
  obtain ⟨⟨pre, num⟩, -, h⟩ := Option.bind_eq_some_iff.mp h
  obtain ⟨n, hn, h⟩ := Option.bind_eq_some_iff.mp h
  split at h
  · cases h
  rename_i hno
  cases h
  rw [not_or, not_not, not_le] at hno
  refine ⟨hno.1, ?_, hno.2.symm⟩
  unfold parseInt at hn
  split at hn
  all_goals
    obtain ⟨v, -, hv⟩ := Option.bind_eq_some_iff.mp hn
    split at hv
    · have := Option.some.inj hv
      omega
    · cases hv

theorem cutPrefix_append (pre s : Bytes) : cutPrefix pre (pre ++ s) = some s := by
  rw [cutPrefix, if_pos (by simp), drop_left]

theorem parsePartKey_newPartKey (draw : Draw) : parsePartKey (newPartKey draw) = true := by
  have hlen : (draw.name.flatMap hex2).length = partKeySuffixBytes * 2 := by
    rw [length_flatMap_hex2, draw.length_name]
  rw [parsePartKey, newPartKey, cutPrefix_append]
  simp only [cut_append (slash_notMem_hex (isLowerHex_hex2 draw.shard)), hlen, isShard_hex2,
    isLowerHex_flatMap_hex2]
  rfl

/-- A file's key has its slash where a part's key has a letter. -/
theorem cutPrefix_key (hpos : 0 < id) (s : Bytes) : cutPrefix partsPrefix (key id ++ s) = none := by
  obtain ⟨b, hb⟩ := key_of_pos hpos
  rw [cutPrefix, if_neg]
  rw [hb, hex2]
  simp [partsPrefix, ascii, List.isPrefixOf, slash]

theorem dot_notMem_key (hpos : 0 < id) : 46 ∉ key id := by
  obtain ⟨b, hb⟩ := key_of_pos hpos
  have hdot : ∀ {p : UInt8 → Bool} {s : Bytes}, s.all p = true → p 46 = false → 46 ∉ s :=
    fun h hp hmem => by rw [all_eq_true.mp h 46 hmem] at hp; cases hp
  rw [hb, mem_append, mem_cons]
  rintro (hmem | hmem | hmem)
  · exact hdot (isLowerHex_hex2 b) (by decide) hmem
  · exact absurd hmem (by decide)
  · exact hdot (isDigit_decimal _) (by decide) hmem

theorem tempName_not_key (h : Produced s) :
    parseKey (s ++ tempSuffix) = none ∧ parsePartKey (s ++ tempSuffix) = false := by
  constructor
  · rw [Option.eq_none_iff_forall_ne_some]
    intro id hid
    obtain ⟨hpos, -, heq⟩ := key_of_parseKey hid
    exact dot_notMem_key hpos (heq ▸ mem_append_right s (by decide))
  · cases h with
    | file id hpos hlt => rw [parsePartKey, cutPrefix_key hpos]
    | part draw =>
      have hlen : (draw.name.flatMap hex2 ++ tempSuffix).length = 34 := by
        rw [length_append, length_flatMap_hex2, draw.length_name]
        rfl
      rw [parsePartKey, newPartKey, append_assoc, cutPrefix_append, append_assoc, cons_append]
      simp only [cut_append (slash_notMem_hex (isLowerHex_hex2 draw.shard)), hlen]
      rfl

/-! ## Valid keys -/

theorem allowed_of_hex (h : isLowerHex s = true) : s.all allowed = true := by
  rw [isLowerHex, all_eq_true] at h
  refine all_eq_true.mpr fun c hc => ?_
  have := h c hc
  simp only [isLowerHexDigit, Bool.or_eq_true, Bool.and_eq_true, decide_eq_true_eq] at this
  simp only [allowed, Bool.or_eq_true, Bool.and_eq_true, decide_eq_true_eq]
  rcases this with hdigit | ⟨h97, h102⟩
  · exact .inl (.inl (.inl (.inr hdigit)))
  · exact .inl (.inl (.inl (.inl (.inl ⟨h97, UInt8.le_trans h102 (by decide)⟩))))

theorem validSegment_append {c : UInt8} (hc : c ≠ 46) (hs : (c :: s).all allowed = true)
    (ht : t.all allowed = true) : validSegment (c :: s ++ t) = true := by
  have hall : (c :: s ++ t).all allowed = true := by rw [all_append, hs, ht]; rfl
  rw [validSegment, hall]
  simp [hc]

theorem validSegment_hex (hne : s ≠ []) (hs : isLowerHex s = true) (ht : t.all allowed = true) :
    validSegment (s ++ t) = true := by
  cases s with
  | nil => exact absurd rfl hne
  | cons c s =>
    refine validSegment_append ?_ (allowed_of_hex hs) ht
    rintro rfl
    simp [isLowerHex, isLowerHexDigit, isDigit] at hs

theorem isLowerHex_decimal (n : Nat) : isLowerHex (decimal n) = true := by
  rw [isLowerHex, all_eq_true]
  intro c hc
  rw [isLowerHexDigit, all_eq_true.mp (isDigit_decimal n) c hc, Bool.true_or]

theorem length_decimal_le {n : Nat} (h : n < 2 ^ 63) : (decimal n).length ≤ 19 := by
  unfold decimal
  split
  · simp
  · rw [length_reverse, length_map]
    exact (Nat.digits_length_le_iff (by norm_num) n).mpr (h.trans (by norm_num))

/-- A key that is written is valid, with a few letters more behind it, too. -/
theorem validateKey_append (h : Produced s) (ht : t.all allowed = true) (hlen : t.length ≤ 4) :
    validateKey (s ++ t) = true := by
  have hslash : slash ∉ t := slash_notMem_of_all ht (by decide)
  have hhex : ∀ b, validSegment (hex2 b) = true := fun b => by
    have := validSegment_hex (t := []) (cons_ne_nil _ _) (isLowerHex_hex2 b) rfl
    rwa [append_nil] at this
  have hmem : ∀ {x : Bytes}, isLowerHex x = true → slash ∉ x ++ t := fun hx => by
    rw [mem_append, not_or]
    exact ⟨slash_notMem_hex hx, hslash⟩
  have hlast : ∀ {x : Bytes} {b}, x ≠ [] → isLowerHex x = true →
      (segments (hex2 b ++ slash :: (x ++ t))).all validSegment = true := fun {x b} hne hx => by
    rw [segments_append (slash_notMem_hex (isLowerHex_hex2 b)), segments_of_notMem (hmem hx)]
    simp only [all_cons, all_nil, hhex, validSegment_hex hne hx ht, Bool.and_true]
  cases h with
  | file id hpos hlt =>
    obtain ⟨b, hb⟩ := key_of_pos hpos
    have hdec := length_decimal_le (n := id.toNat) (by omega)
    rw [hb, append_assoc, cons_append, validateKey, hlast (decimal_ne_nil _) (isLowerHex_decimal _)]
    simp only [hex2, maxKeyBytes, length_append, length_cons, length_nil]
    simp only [Bool.and_true, Bool.and_eq_true, decide_eq_true_eq]
    omega
  | part draw =>
    have hname : (draw.name.flatMap hex2).length = 30 := by
      rw [length_flatMap_hex2, draw.length_name]; rfl
    have hne : draw.name.flatMap hex2 ≠ [] := fun hnil => by simp [hnil] at hname
    have hparts : segments (newPartKey draw ++ t) = ascii ['p', 'a', 'r', 't', 's'] ::
        segments (hex2 draw.shard ++ slash :: (draw.name.flatMap hex2 ++ t)) := by
      rw [newPartKey, append_assoc, append_assoc, cons_append]
      exact segments_append (a := ascii ['p', 'a', 'r', 't', 's']) (by decide)
    rw [validateKey, hparts, all_cons, hlast hne (isLowerHex_flatMap_hex2 _), newPartKey]
    simp only [hex2, maxKeyBytes, length_append, length_cons, length_nil, hname,
      partsPrefix, ascii, length_map]
    simp only [Bool.and_true, Bool.and_eq_true, decide_eq_true_eq]
    exact ⟨by omega, by decide⟩

theorem clean_append (dir : List Bytes) {ss : List Bytes} (h : ss.all validSegment = true) :
    clean (dir ++ ss) = clean dir ++ ss := by
  rw [clean, foldl_append]
  change ss.foldl _ (clean dir) = _
  generalize clean dir = acc
  induction ss generalizing acc with
  | nil => simp
  | cons s ss ih =>
    rw [all_cons, Bool.and_eq_true] at h
    have hs : ¬ (s = [] ∨ s = [46]) ∧ s ≠ [46, 46] := by
      have := h.1
      simp only [validSegment, Bool.and_eq_true, decide_eq_true_eq] at this
      exact ⟨not_or.mpr ⟨this.1.1.1, this.1.1.2⟩, this.1.2⟩
    rw [foldl_cons, if_neg hs.1, if_neg hs.2, ih h.2, append_assoc]
    rfl

/-- The parsers accept exactly what is written, files, parts and temporary names are told apart, all
of them are valid keys, and no valid key leads out of the directory it is joined to. -/
theorem keySpace_unambiguous : (∀ id : Int, 0 < id → id < 2 ^ 63 → parseKey (key id) = some id) ∧
    (∀ s id, parseKey s = some id → 0 < id ∧ id < 2 ^ 63 ∧ s = key id) ∧
    (∀ draw, parsePartKey (newPartKey draw) = true) ∧
    (∀ s, parseKey s = none ∨ parsePartKey s = false) ∧
    (∀ s, Produced s → parseKey (s ++ tempSuffix) = none ∧ parsePartKey (s ++ tempSuffix) = false) ∧
    (∀ s, Produced s → validateKey s = true ∧ validateKey (s ++ tempSuffix) = true) ∧
    ∀ s dir, validateKey s = true → clean (dir ++ segments s) = clean dir ++ segments s := by
  refine ⟨fun _ => parseKey_key, fun _ _ => key_of_parseKey, parsePartKey_newPartKey, fun s => ?_,
    fun _ => tempName_not_key, fun s hs => ⟨?_, validateKey_append hs (by decide) (by decide)⟩,
    fun s dir hs => ?_⟩
  · rw [or_iff_not_imp_left, ← ne_eq, Option.ne_none_iff_exists']
    rintro ⟨id, hid⟩
    obtain ⟨hpos, -, rfl⟩ := key_of_parseKey hid
    have hnone := cutPrefix_key hpos []
    rw [append_nil] at hnone
    rw [parsePartKey, hnone]
  · have := validateKey_append (t := []) hs rfl (by decide)
    rwa [append_nil] at this
  · rw [validateKey, Bool.and_eq_true] at hs
    exact clean_append dir hs.2

theorem keySpace_unambiguous_max :
    parseKey (key (2 ^ 63 - 1)) = some (2 ^ 63 - 1) ∧
      validateKey (key (2 ^ 63 - 1) ++ tempSuffix) = true :=
  ⟨keySpace_unambiguous.1 _ (by decide) (by decide),
    (keySpace_unambiguous.2.2.2.2.2.1 _ (.file _ (by decide) (by decide))).2⟩

end TelegramServer.Blob
