import TelegramServer.Blob.Keys
import Mathlib.Algebra.Order.BigOperators.Group.List
import Mathlib.Data.Prod.Lex

/-!
# Signed query strings

The query of an S3 request is encoded, sorted and signed; the signer decodes it and encodes it once
more. The encoder ranges over the string, so it visits the first byte of every rune and no other.
-/

namespace TelegramServer.Blob

open List

/-- For the first byte of a longer rune: the bounds of the second byte, and how many follow that. -/
def accept (b : UInt8) : Option (UInt8 × UInt8 × Nat) :=
  if 0xC2 ≤ b ∧ b ≤ 0xDF then some (0x80, 0xBF, 0)
  else if b = 0xE0 then some (0xA0, 0xBF, 1)
  else if b = 0xED then some (0x80, 0x9F, 1)
  else if 0xE1 ≤ b ∧ b ≤ 0xEF then some (0x80, 0xBF, 1)
  else if b = 0xF0 then some (0x90, 0xBF, 2)
  else if 0xF1 ≤ b ∧ b ≤ 0xF3 then some (0x80, 0xBF, 2)
  else if b = 0xF4 then some (0x80, 0x8F, 2)
  else none

/-- The bytes after the first of the rune that starts a string; none after a byte that starts
none. -/
def runeTail : Bytes → Nat
  | [] => 0
  | b :: bs =>
    match accept b, bs with
    | some (lo, hi, n), c :: cs =>
      if lo ≤ c ∧ c ≤ hi ∧ n ≤ cs.length ∧ (cs.take n).all fun c => 0x80 ≤ c ∧
        c ≤ 0xBF then n + 1 else 0
    | _, _ => 0

/-- The bytes that `range` over a string stops at, when the first `skip` belong to a rune before. -/
def runeStarts : Nat → Bytes → Bytes
  | _, [] => []
  | 0, b :: bs => b :: runeStarts (runeTail (b :: bs)) bs
  | skip + 1, _ :: bs => runeStarts skip bs

/-- `utf8.ValidString`, when the first `skip` bytes belong to a rune before. -/
def validUTF8 : Nat → Bytes → Bool
  | _, [] => true
  | 0, b :: bs => (b < 0x80 || runeTail (b :: bs) ≠ 0) && validUTF8 (runeTail (b :: bs)) bs
  | skip + 1, _ :: bs => validUTF8 skip bs

def isASCII (s : Bytes) : Prop := ∀ b ∈ s, b < 0x80

instance (s : Bytes) : Decidable (isASCII s) := List.decidableBAll (· < 0x80) s

def hexDigits (n : Nat) : UInt8 := UInt8.ofNat (if n < 10 then 48 + n else 55 + n)

def unreserved (preserveSlash : Bool) (c : UInt8) : Bool :=
  (97 ≤ c && c ≤ 122) || (65 ≤ c && c ≤ 90) || isDigit c || c = 45 || c = 95 || c = 46 || c = 126 ||
    (preserveSlash && c = slash)

def encodeByte (preserveSlash : Bool) (c : UInt8) : Bytes :=
  if unreserved preserveSlash c then [c]
    else [37, hexDigits (c.toNat / 16), hexDigits (c.toNat % 16)]

def awsURIEncode (value : Bytes) (preserveSlash : Bool) : Bytes :=
  (runeStarts 0 value).flatMap (encodeByte preserveSlash)

structure S3Query where
  key : Bytes
  value : Bytes
deriving DecidableEq

variable {s : Bytes} {b : UInt8} {p : S3Query} {n : Nat}

def continuationToken : Bytes :=
  ascii ['c', 'o', 'n', 't', 'i', 'n', 'u', 'a', 't', 'i', 'o', 'n', '-', 't', 'o', 'k', 'e', 'n']

def sent (params : List S3Query) : List S3Query :=
  params.filter fun p => !(p.value = [] && p.key = continuationToken)

def sortKey (p : Bytes × Bytes) : List Nat ×ₗ List Nat :=
  toLex (p.1.map UInt8.toNat, p.2.map UInt8.toNat)

def sortParts (parts : List (Bytes × Bytes)) : List (Bytes × Bytes) :=
  parts.insertionSort fun p q => sortKey p ≤ sortKey q

def encodePair (p : S3Query) : Bytes × Bytes :=
  (awsURIEncode p.key false, awsURIEncode p.value false)

def joinPair (p : Bytes × Bytes) : Bytes := p.1 ++ 61 :: p.2

def encodeS3Query (params : List S3Query) : Bytes :=
  [38].intercalate ((sortParts ((sent params).map encodePair)).map joinPair)

/-- `url.QueryUnescape`, and with `plus` false `url.PathUnescape`. -/
def unescape (plus : Bool) : Bytes → Option Bytes
  | [] => some []
  | c :: cs =>
    if c = 37 then
      match cs with
      | h :: l :: cs => do
          let hi ← hexValue h
          let lo ← hexValue l
          let rest ← unescape plus cs
          some (UInt8.ofNat (16 * hi + lo) :: rest)
      | _ => none
    else (unescape plus cs).map ((if plus && c = 43 then 32 else c) :: ·)

def parsePair (segment : Bytes) : Option S3Query := do
  if 59 ∈ segment then none
  let (key, value) := (cut 61 segment).getD (segment, [])
  let key ← unescape true key
  let value ← unescape true value
  some ⟨key, value⟩

/-- The pairs `url.ParseQuery` reads, in their order; none when it reports an error. -/
def parsePairs (query : Bytes) : Option (List S3Query) :=
  ((query.splitOn 38).filter (· ≠ [])).mapM parsePair

def addValue : List (Bytes × List Bytes) → S3Query → List (Bytes × List Bytes)
  | [], p => [(p.key, [p.value])]
  | (k, vs) :: m, p => if k = p.key then (k, vs ++ [p.value]) :: m else (k, vs) :: addValue m p

def listed (m : List (Bytes × List Bytes)) : List S3Query :=
  m.flatMap fun e => e.2.map fun v => ⟨e.1, v⟩

/-- `order` is the order in which the map of the parsed values is ranged over. -/
def canonicalS3Query (order : List (Bytes × List Bytes) → List (Bytes × List Bytes))
    (raw : Bytes) : Bytes :=
  match parsePairs raw with
  | none => raw
  | some pairs => encodeS3Query (listed (order (pairs.foldl addValue [])))

/-! ## What the encoder visits -/

theorem accept_of_lt (h : b < 0xC2) : accept b = none := by
  grind [accept]

theorem runeTail_of_lt (h : b < 0xC2) (bs : Bytes) : runeTail (b :: bs) = 0 := by
  simp only [runeTail, accept_of_lt h]

theorem runeTail_of_not_lt {c : UInt8} {cs : Bytes} (h : ¬(0x80 ≤ c ∧ c < 0xC2)) :
    runeTail (b :: c :: cs) = 0 := by
  cases ha : accept b with
  | none => simp [runeTail, ha]
  | some r =>
    have hbounds : 0x80 ≤ r.1 ∧ r.2.1 ≤ 0xBF := by grind [accept]
    simp only [runeTail, ha]
    exact if_neg fun hin => h (by grind)

theorem runeStarts_sublist (n : Nat) (s : Bytes) : (runeStarts n s).Sublist s := by
  fun_induction runeStarts n s with
  | case1 => exact .refl _
  | case2 b bs ih => exact ih.cons_cons b
  | case3 n b bs ih => exact ih.cons b

theorem eq_nil_of_runeStarts_succ (h : runeStarts (n + 1) s = s) : s = [] := by
  cases s with
  | nil => rfl
  | cons b bs =>
    have hle := (runeStarts_sublist n bs).length_le
    rw [runeStarts] at h
    rw [h, length_cons] at hle
    omega

theorem runeStarts_eq_self (h : ∀ c ∈ s, ¬(0x80 ≤ c ∧ c < 0xC2)) : runeStarts 0 s = s := by
  induction s with
  | nil => rfl
  | cons b bs ih =>
    have htail : runeTail (b :: bs) = 0 := by
      cases bs with
      | nil => cases ha : accept b <;> simp [runeTail, ha]
      | cons c cs => exact runeTail_of_not_lt (h c (by simp))
    rw [runeStarts, htail, ih fun c hc => h c (by simp [hc])]

theorem runeStarts_of_isASCII (h : isASCII s) : runeStarts 0 s = s :=
  runeStarts_eq_self fun c hc => by
    have := h c hc
    grind

theorem runeStarts_of_isASCII_starts (h : isASCII (runeStarts 0 s)) : runeStarts 0 s = s := by
  induction s with
  | nil => rfl
  | cons b bs ih =>
    rw [runeStarts] at h ⊢
    have hb : b < 0x80 := h b (by simp)
    have htail : runeTail (b :: bs) = 0 := runeTail_of_lt (UInt8.lt_trans hb (by decide)) bs
    rw [htail] at h ⊢
    rw [ih fun c hc => h c (by simp [hc])]

theorem isASCII_of_runeStarts (hs : validUTF8 0 s) (h : runeStarts 0 s = s) : isASCII s := by
  induction s with
  | nil => simp [isASCII]
  | cons b bs ih =>
    simp only [validUTF8, Bool.and_eq_true, Bool.or_eq_true, decide_eq_true_eq] at hs
    rw [runeStarts] at h
    have hbs := (List.cons.inj h).2
    cases ht : runeTail (b :: bs) with
    | zero =>
      rw [ht] at hs hbs
      refine forall_mem_cons.mpr ⟨hs.1.resolve_right (by simp), ih hs.2 hbs⟩
    | succ n =>
      rw [ht] at hbs
      obtain rfl := eq_nil_of_runeStarts_succ hbs
      cases ha : accept b <;> simp [runeTail, ha] at ht

theorem not_continuation_of_mem_runeStarts (hs : validUTF8 n s) :
    ∀ c ∈ runeStarts n s, ¬(0x80 ≤ c ∧ c < 0xC2) := by
  fun_induction runeStarts n s with
  | case1 => simp
  | case2 b bs ih =>
    simp only [validUTF8, Bool.and_eq_true, Bool.or_eq_true, decide_eq_true_eq] at hs
    refine forall_mem_cons.mpr ⟨fun hb => ?_, ih hs.2⟩
    have := hs.1.resolve_right (not_not.mpr (runeTail_of_lt hb.2 bs))
    grind
  | case3 n b bs ih => exact ih hs

theorem runeStarts_idem (hs : validUTF8 0 s) : runeStarts 0 (runeStarts 0 s) = runeStarts 0 s :=
  runeStarts_eq_self (not_continuation_of_mem_runeStarts hs)

theorem unescape_encodeByte (plus preserveSlash : Bool) (c : UInt8) (s : Bytes) :
    unescape plus (encodeByte preserveSlash c ++ s) = (unescape plus s).map (c :: ·) := by
  unfold encodeByte
  split
  · rename_i h
    have h37 : c ≠ 37 := by grind [unreserved, isDigit, slash]
    have h43 : c ≠ 43 := by grind [unreserved, isDigit, slash]
    rw [singleton_append, unescape.eq_def]
    simp [h37, h43]
  · have hhex : ∀ n < 16, hexValue (hexDigits n) = some n := by decide
    have hc : c.toNat < 256 := c.toNat_lt
    have hval : UInt8.ofNat (16 * (c.toNat / 16) + c.toNat % 16) = c := by
      rw [Nat.div_add_mod, UInt8.ofNat_toNat]
    simp only [cons_append, nil_append, unescape, if_true, hhex _ (show c.toNat / 16 < 16 by omega),
      hhex _ (show c.toNat % 16 < 16 by omega), Option.bind_eq_bind, Option.bind_some, hval]
    cases unescape plus s <;> rfl

theorem unescape_awsURIEncode (plus preserveSlash : Bool) (s : Bytes) :
    unescape plus (awsURIEncode s preserveSlash) = some (runeStarts 0 s) := by
  unfold awsURIEncode
  induction runeStarts 0 s with
  | nil => rfl
  | cons c cs ih => rw [flatMap_cons, unescape_encodeByte, ih]; rfl

theorem awsURIEncode_congr {t : Bytes} {preserveSlash : Bool}
    (h : awsURIEncode s preserveSlash = awsURIEncode t preserveSlash) :
    runeStarts 0 s = runeStarts 0 t := by
  have hs := unescape_awsURIEncode false preserveSlash s
  rw [h, unescape_awsURIEncode] at hs
  exact (Option.some.inj hs).symm

theorem separator_notMem (hb : b = 38 ∨ b = 59 ∨ b = 61) (s : Bytes) (preserveSlash : Bool) :
    b ∉ awsURIEncode s preserveSlash := by
  have hhex : ∀ n < 16, hexDigits n ≠ 38 ∧ hexDigits n ≠ 59 ∧ hexDigits n ≠ 61 := by decide
  simp only [awsURIEncode, mem_flatMap, not_exists, not_and]
  intro c _
  have hhi := hhex (c.toNat / 16) (by have := c.toNat_lt; omega)
  have hlo := hhex (c.toNat % 16) (by omega)
  unfold encodeByte
  split <;> grind [unreserved, isDigit, slash]

def visited (p : S3Query) : S3Query := ⟨runeStarts 0 p.key, runeStarts 0 p.value⟩

theorem parsePair_encodePair (p : S3Query) :
    parsePair (joinPair (encodePair p)) = some (visited p) := by
  have h59 : 59 ∉ joinPair (encodePair p) := by
    simp [joinPair, encodePair, separator_notMem]
  have hcut : cut 61 (joinPair (encodePair p)) = some (encodePair p) :=
    cut_append (separator_notMem (by simp) _ _)
  simp only [parsePair, h59, if_false, hcut, Option.getD_some]
  simp [encodePair, unescape_awsURIEncode, visited]

theorem sortKey_injective : Function.Injective sortKey := by
  intro p q h
  have hmap : Function.Injective (List.map UInt8.toNat) :=
    map_injective_iff.mpr fun _ _ => UInt8.toNat_inj.mp
  obtain ⟨hk, hv⟩ := Prod.mk.inj (toLex.injective h)
  exact Prod.ext (hmap hk) (hmap hv)

/-- There is one sorted list of any parts, so it does not matter how they are sorted. -/
theorem sortParts_eq_of_perm {ps qs : List (Bytes × Bytes)} (h : ps.Perm qs) :
    sortParts ps = sortParts qs := by
  have hsorted : ∀ l, (sortParts l).Pairwise fun p q => sortKey p ≤ sortKey q := fun l =>
    haveI : Std.Total fun p q : Bytes × Bytes => sortKey p ≤ sortKey q := ⟨fun p q => le_total _ _⟩
    haveI : IsTrans (Bytes × Bytes) fun p q => sortKey p ≤ sortKey q := ⟨fun p q r => le_trans⟩
    pairwise_insertionSort _ l
  refine List.Perm.eq_of_pairwise (fun p q _ _ hpq hqp => sortKey_injective (le_antisymm hpq hqp))
    (hsorted ps) (hsorted qs) ?_
  exact (perm_insertionSort _ ps).trans (h.trans (perm_insertionSort _ qs).symm)

theorem encodeS3Query_eq_of_perm {ps qs : List S3Query} (h : ps.Perm qs) :
    encodeS3Query ps = encodeS3Query qs := by
  have hsent : (sent ps).Perm (sent qs) := h.filter _
  rw [encodeS3Query, encodeS3Query, sortParts_eq_of_perm (hsent.map encodePair)]

/-! ## Whole queries -/

theorem mapM_eq_some_map {α β : Type} {f : α → Option β} {g : α → β} {l : List α}
    (h : ∀ x ∈ l, f x = some (g x)) : l.mapM f = some (l.map g) := by
  induction l with
  | nil => rfl
  | cons x xs ih =>
    simp [mapM_cons, h x (by simp), ih fun y hy => h y (by simp [hy])]

theorem parsePairs_encodeS3Query (params : List S3Query) :
    ∃ pairs, parsePairs (encodeS3Query params) = some pairs ∧
      pairs.Perm ((sent params).map visited) := by
  let parts := sortParts ((sent params).map encodePair)
  let read (part : Bytes × Bytes) : S3Query := (parsePair (joinPair part)).getD ⟨[], []⟩
  have hperm : parts.Perm ((sent params).map encodePair) := perm_insertionSort _ _
  have hpart : ∀ part ∈ parts, ∃ p, encodePair p = part := fun part hpart => by
    obtain ⟨p, -, hp⟩ := mem_map.mp (hperm.mem_iff.mp hpart)
    exact ⟨p, hp⟩
  have hread : ∀ p, read (encodePair p) = visited p := fun p => by
    simp only [read, parsePair_encodePair, Option.getD_some]
  refine ⟨parts.map read, ?_, ?_⟩
  · have htext : ∀ s ∈ parts.map joinPair, 38 ∉ s ∧ s ≠ [] := fun s hs => by
      obtain ⟨part, hmem, rfl⟩ := mem_map.mp hs
      obtain ⟨p, rfl⟩ := hpart part hmem
      simp [joinPair, encodePair, separator_notMem]
    have hsplit : ((encodeS3Query params).splitOn 38).filter (· ≠ []) = parts.map joinPair := by
      by_cases hnil : parts = []
      · rw [encodeS3Query, show sortParts ((sent params).map encodePair) = [] from hnil, hnil]
        rfl
      · rw [encodeS3Query, splitOn_intercalate 38 (fun s hs => (htext s hs).1)
          (by simpa using hnil)]
        exact filter_eq_self.mpr fun s hs => by simpa using (htext s hs).2
    rw [parsePairs, hsplit, mapM_map]
    refine mapM_eq_some_map fun part hmem => ?_
    obtain ⟨p, rfl⟩ := hpart part hmem
    rw [hread, ← parsePair_encodePair]
    rfl
  · refine (hperm.map read).trans (.of_eq ?_)
    rw [map_map]
    exact map_congr_left fun p _ => hread p

theorem listed_addValue (m : List (Bytes × List Bytes)) (p : S3Query) :
    (listed (addValue m p)).Perm (p :: listed m) := by
  fun_induction addValue m p with
  | case1 p => exact .refl _
  | case2 p vs m =>
    simp only [listed, flatMap_cons, map_append, map_cons, map_nil, append_assoc]
    exact perm_middle
  | case3 k vs m p hne ih =>
    rw [listed, flatMap_cons] at *
    exact (ih.append_left _).trans perm_middle

theorem listed_foldl_addValue (pairs : List S3Query) (m : List (Bytes × List Bytes)) :
    (listed (pairs.foldl addValue m)).Perm (listed m ++ pairs) := by
  induction pairs generalizing m with
  | nil => simp
  | cons p ps ih =>
    refine (ih (addValue m p)).trans (((listed_addValue m p).append_right ps).trans ?_)
    exact perm_middle.symm

theorem encodePair_visited (hp : validUTF8 0 p.key ∧ validUTF8 0 p.value) :
    encodePair (visited p) = encodePair p := by
  simp only [encodePair, visited, awsURIEncode, runeStarts_idem hp.1, runeStarts_idem hp.2]

theorem sent_map_visited (params : List S3Query) :
    sent ((sent params).map visited) = (sent params).map visited := by
  refine filter_eq_self.mpr fun q hq => ?_
  obtain ⟨p, hp, rfl⟩ := mem_map.mp hq
  have hsent := (mem_filter.mp hp).2
  simp only [Bool.not_eq_true', Bool.and_eq_false_iff, decide_eq_false_iff_not] at hsent ⊢
  refine hsent.imp (fun hvalue hnil => hvalue ?_) fun hkey heq => hkey ?_
  · cases hv : p.value with
    | nil => rfl
    | cons b bs => simp [visited, hv, runeStarts] at hnil
  · have hascii : isASCII (runeStarts 0 p.key) := by
      rw [show runeStarts 0 p.key = continuationToken from heq]
      decide
    exact (runeStarts_of_isASCII_starts hascii).symm.trans heq

theorem canonicalS3Query_encodeS3Query {order : List (Bytes × List Bytes) →
    List (Bytes × List Bytes)} (horder : ∀ m, (order m).Perm m) {params : List S3Query}
    (hparams : ∀ p ∈ params, validUTF8 0 p.key ∧ validUTF8 0 p.value) :
    canonicalS3Query order (encodeS3Query params) = encodeS3Query params := by
  obtain ⟨pairs, hparse, hpairs⟩ := parsePairs_encodeS3Query params
  have hlisted : (listed (order (pairs.foldl addValue []))).Perm ((sent params).map visited) :=
    ((horder _).flatMap_right _).trans ((listed_foldl_addValue pairs []).trans hpairs)
  simp only [canonicalS3Query, hparse]
  rw [encodeS3Query_eq_of_perm hlisted, encodeS3Query, sent_map_visited, map_map]
  have hmap : (sent params).map (encodePair ∘ visited) = (sent params).map encodePair :=
    map_congr_left fun p hp => encodePair_visited (hparams p (mem_filter.mp hp).1)
  rw [hmap]
  rfl

/-- A list that loses bytes is no reordering of what it was. -/
theorem visited_eq_of_perm {ps : List S3Query} (h : (ps.map visited).Perm ps) :
    ∀ p ∈ ps, visited p = p := by
  let size (p : S3Query) : Nat := p.key.length + p.value.length
  have hle : ∀ p : S3Query, (visited p).key.length ≤ p.key.length ∧
      (visited p).value.length ≤ p.value.length :=
    fun p => ⟨(runeStarts_sublist 0 p.key).length_le, (runeStarts_sublist 0 p.value).length_le⟩
  have hsum : (ps.map fun p => size (visited p)).sum = (ps.map size).sum := by
    have := (h.map size).sum_eq
    rwa [map_map] at this
  intro p hp
  by_contra hne
  refine absurd hsum (sum_lt_sum _ _ (fun q _ => Nat.add_le_add (hle q).1 (hle q).2) ⟨p, hp, ?_⟩).ne
  obtain ⟨hk, hv⟩ := hle p
  refine Nat.lt_of_not_le fun hge => hne ?_
  have hkey : (runeStarts 0 p.key) = p.key :=
    (runeStarts_sublist 0 p.key).eq_of_length (by simp only [visited, size] at *; omega)
  have hvalue : (runeStarts 0 p.value) = p.value :=
    (runeStarts_sublist 0 p.value).eq_of_length (by simp only [visited, size] at *; omega)
  simp only [visited, hkey, hvalue]

/-- A query decodes to its parameters exactly when the encoder visits all their bytes. -/
theorem decodes_iff (params : List S3Query) :
    (∃ pairs, parsePairs (encodeS3Query params) = some pairs ∧ pairs.Perm (sent params)) ↔
      ∀ p ∈ sent params, visited p = p := by
  obtain ⟨pairs, hparse, hperm⟩ := parsePairs_encodeS3Query params
  constructor
  · rintro ⟨pairs', hparse', hperm'⟩
    obtain rfl := Option.some.inj (hparse.symm.trans hparse')
    exact visited_eq_of_perm (hperm.symm.trans hperm')
  · intro h
    rw [map_congr_left h, map_id'] at hperm
    exact ⟨pairs, hparse, hperm⟩

theorem visited_eq_iff (hp : validUTF8 0 p.key ∧ validUTF8 0 p.value) :
    visited p = p ↔ isASCII p.key ∧ isASCII p.value := by
  refine ⟨fun h => ⟨isASCII_of_runeStarts hp.1 (congrArg S3Query.key h),
    isASCII_of_runeStarts hp.2 (congrArg S3Query.value h)⟩, fun h => ?_⟩
  simp only [visited, runeStarts_of_isASCII h.1, runeStarts_of_isASCII h.2]

/-- The query decodes to the parameters, is its own canonical form, and is that of any order of
them. -/
structure SignedAsSent (order : List (Bytes × List Bytes) → List (Bytes × List Bytes))
    (params : List S3Query) : Prop where
  decodes : ∃ pairs, parsePairs (encodeS3Query params) = some pairs ∧ pairs.Perm (sent params)
  canonical : canonicalS3Query order (encodeS3Query params) = encodeS3Query params
  unordered : ∀ params', params'.Perm params → encodeS3Query params' = encodeS3Query params

/-- The encoder loses the rest of every rune that is longer than a byte: what is signed is what was
asked for exactly where all is ASCII. -/
theorem signedAsSent_iff_ascii (order : List (Bytes × List Bytes) → List (Bytes × List Bytes))
    (params : List S3Query) (s : Bytes) (preserveSlash : Bool) (horder : ∀ m, (order m).Perm m)
    (hparams : ∀ p ∈ params, validUTF8 0 p.key ∧ validUTF8 0 p.value) (hs : validUTF8 0 s) :
    (SignedAsSent order params ↔ ∀ p ∈ sent params, isASCII p.key ∧ isASCII p.value) ∧
      ((∀ plus, unescape plus (awsURIEncode s preserveSlash) = some s) ↔ isASCII s) ∧
      (isASCII s → ∀ t, awsURIEncode t preserveSlash = awsURIEncode s preserveSlash → t = s) := by
  refine ⟨?_, ⟨fun h => ?_, fun h plus => ?_⟩, fun h t ht => ?_⟩
  · have hascii : (∀ p ∈ sent params, visited p = p) ↔ ∀ p ∈ sent params, isASCII p.key ∧
        isASCII p.value :=
      forall₂_congr fun p hp => visited_eq_iff (hparams p (mem_filter.mp hp).1)
    rw [← hascii, ← decodes_iff]
    exact ⟨fun h => h.decodes, fun h => ⟨h, canonicalS3Query_encodeS3Query horder hparams,
      fun _ => encodeS3Query_eq_of_perm⟩⟩
  · have hstarts := h true
    rw [unescape_awsURIEncode] at hstarts
    exact isASCII_of_runeStarts hs (Option.some.inj hstarts)
  · rw [unescape_awsURIEncode, runeStarts_of_isASCII h]
  · have hstarts := awsURIEncode_congr ht
    rw [runeStarts_of_isASCII h] at hstarts
    rw [← hstarts]
    exact (runeStarts_of_isASCII_starts (hstarts ▸ h)).symm

theorem signedAsSent_iff_ascii_token :
    SignedAsSent List.reverse [⟨ascii ['a'], ascii ['=', '/']⟩, ⟨continuationToken, []⟩] ∧
      unescape true (awsURIEncode (ascii ['+', '/']) true) = some (ascii ['+', '/']) := by
  obtain ⟨hsigned, hdecodes, -⟩ := signedAsSent_iff_ascii List.reverse
    [⟨ascii ['a'], ascii ['=', '/']⟩, ⟨continuationToken, []⟩] (ascii ['+', '/']) true
    (fun _ => reverse_perm _) (by decide) (by decide)
  exact ⟨hsigned.mpr (by decide), hdecodes.mpr (by decide) true⟩

/-- Two strings of one character each have one encoding, and a query for one of them asks for
neither. -/
theorem accents_encode_alike : validUTF8 0 [0xC3, 0xA9] ∧ validUTF8 0 [0xC3, 0xA8] ∧
      awsURIEncode [0xC3, 0xA9] false = awsURIEncode [0xC3, 0xA8] false ∧
      parsePairs (encodeS3Query [⟨ascii ['p'], [0xC3, 0xA9]⟩]) = some [⟨ascii ['p'], [0xC3]⟩] := by
  decide

end TelegramServer.Blob
