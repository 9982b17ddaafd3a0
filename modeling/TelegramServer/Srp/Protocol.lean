import Mathlib.Data.Nat.Digits.Lemmas

/-!
# The server's side of SRP

The client sends `A` and the proof `M1`; the server knows the verifier `v` and the secret `b` of
the challenge that it issued. All numbers travel as 256 bytes, big-endian. The hash is a
parameter.
-/

namespace TelegramServer.Srp

open List

abbrev Bytes := List UInt8

def g : Nat := 3

/-- Telegram's 2048-bit safe prime. -/
def p : Nat :=
  0xC71CAEB9C6B1C9048E6C522F70F13F73980D40238E3E21C14934D037563D930F48198A0AA7C14058229493D22530F4DBFA336F6E0AC925139543AED44CCE7C3720FD51F69458705AC68CD4FE6B6B13ABDC9746512969328454F18FAF8C595F642477FE96BB2A941D5BCD1D4AC8CC49880708FA9B378E3C4F3A9060BEE67CF9A4A4A695811051907E162753B56B0F6B410DBA74D8A84B2A14B3144E0EF1284754FD17ED950D5965B4B9DD46582DB1178D169C6BC465B0D6FF9CA3928FEF5B9AE4E418FC15E83EBEA0F87FA9FF5EED70050DED2849F47BF959D956850CE929851F0D8115F635B105EE2E4E15D04B2454BF6F4FADF034B10403119CD8E3B92FCC5B

def padLen : Nat := 256

def hashLen : Nat := 32

abbrev Digest := { bs : Bytes // bs.length = hashLen }

def setBytes (bs : Bytes) : Nat :=
  Nat.ofDigits 256 (bs.reverse.map UInt8.toNat)

/-- `Bytes`: big-endian, without leading zeros. -/
def bytes (n : Nat) : Bytes :=
  ((Nat.digits 256 n).map UInt8.ofNat).reverse

/-- Pad on the left to 256 bytes, or keep the low 256. -/
def pad (bs : Bytes) : Bytes :=
  if padLen ≤ bs.length then bs.drop (bs.length - padLen)
  else replicate (padLen - bs.length) 0 ++ bs

def xor (a b : Bytes) : Bytes := List.zipWith (· ^^^ ·) a b

theorem setBytes_bytes (n : Nat) : setBytes (bytes n) = n := by
  have hdigits : (Nat.digits 256 n).map (UInt8.toNat ∘ UInt8.ofNat) = Nat.digits 256 n := by
    refine (map_congr_left fun d hd => ?_).trans (map_id _)
    exact Nat.mod_eq_of_lt (Nat.digits_lt_base (by norm_num) hd)
  rw [setBytes, bytes, reverse_reverse, map_map, hdigits, Nat.ofDigits_digits]

theorem length_bytes_le {n : Nat} (h : n < 256 ^ padLen) : (bytes n).length ≤ padLen := by
  rw [bytes, length_reverse, length_map]
  exact (Nat.digits_length_le_iff (by norm_num) n).mpr h

theorem setBytes_lt (bs : Bytes) : setBytes bs < 256 ^ bs.length := by
  have hlt := Nat.ofDigits_lt_base_pow_length (b := 256) (l := bs.reverse.map UInt8.toNat)
    (by norm_num) fun d hd => by
      obtain ⟨b, -, rfl⟩ := mem_map.mp hd
      exact b.toNat_lt
  rwa [length_map, length_reverse] at hlt

theorem length_pad (bs : Bytes) : (pad bs).length = padLen := by
  unfold pad
  split
  · rw [length_drop]
    omega
  · rw [length_append, length_replicate]
    omega

theorem pad_of_length {bs : Bytes} (h : bs.length = padLen) : pad bs = bs := by
  rw [pad, if_pos h.ge, h, Nat.sub_self, drop_zero]

theorem setBytes_pad {bs : Bytes} (h : bs.length ≤ padLen) : setBytes (pad bs) = setBytes bs := by
  rcases h.eq_or_lt with heq | hlt
  · rw [pad_of_length heq]
  · rw [pad, if_neg (by omega), setBytes, reverse_append, reverse_replicate, map_append,
      map_replicate]
    exact Nat.ofDigits_append_replicate_zero _

theorem setBytes_pad_bytes {n : Nat} (h : n < 256 ^ padLen) : setBytes (pad (bytes n)) = n := by
  rw [setBytes_pad (length_bytes_le h), setBytes_bytes]

/-! ## The protocol -/

variable (sha256 : Bytes → Digest)

def hash (parts : List Bytes) : Bytes := (sha256 parts.flatten).1

def pBytes : Bytes := pad (bytes p)

def gBytes : Bytes := pad (bytes g)

def k : Nat := setBytes (hash sha256 [pBytes, gBytes])

def hpXorHg : Bytes := xor (hash sha256 [pBytes]) (hash sha256 [gBytes])

/-- `B` and `b` for the drawn scalar, unless `B` is degenerate. -/
def challenge (scalar verifier : Bytes) : Option (Bytes × Bytes) :=
  let b := setBytes scalar
  let B := (k sha256 * setBytes verifier + g ^ b % p) % p
  if B = 0 then none else some (pad (bytes B), pad (bytes b))

/-- The client's proof against the verifier and the challenge. -/
def verify (verifier salt1 salt2 aPub m1 bPub bSecret : Bytes) : Bool :=
  if aPub.length ≠ padLen ∨ m1.length ≠ hashLen then false
  else
    let A := setBytes aPub
    if A % p = 0 then false
    else
      let padA := pad aPub
      let padB := pad bPub
      let u := setBytes (hash sha256 [padA, padB])
      if u = 0 then false
      else
        let base := A * (setBytes verifier ^ u % p) % p
        let S := base ^ setBytes bSecret % p
        let kSess := hash sha256 [pad (bytes S)]
        let expected := hash sha256 [hpXorHg sha256, hash sha256 [salt1], hash sha256 [salt2], padA,
          padB, kSess]
        expected = m1

def clientA (a : Nat) : Bytes := pad (bytes (g ^ a % p))

/-- `M1` of a client that knows the hash `x` of the password, as the protocol has it. -/
def clientM1 (a x : Nat) (salt1 salt2 bPub : Bytes) : Bytes :=
  let padP := pad (bytes p)
  let padG := pad (bytes g)
  let k := setBytes (hash sha256 [padP, padG])
  let u := setBytes (hash sha256 [clientA a, pad bPub])
  let t := (((setBytes bPub : Int) - k * (g ^ x % p : Nat)) % p).toNat
  let S := t ^ (a + u * x) % p
  hash sha256 [xor (hash sha256 [padP]) (hash sha256 [padG]), hash sha256 [salt1],
    hash sha256 [salt2], clientA a, pad bPub, hash sha256 [pad (bytes S)]]

theorem p_lt : p < 256 ^ padLen := by
  norm_num [p, padLen]

theorem p_pos : 0 < p := by
  norm_num [p]

theorem pow_g_mod_ne (a : Nat) : g ^ a % p ≠ 0 := by
  have hcoprime : Nat.Coprime (g ^ a) p := Nat.Coprime.pow_left a (by decide)
  intro h
  have hone : p = 1 := hcoprime.symm.eq_one_of_dvd (Nat.dvd_of_mod_eq_zero h)
  norm_num [p] at hone

theorem setBytes_clientA (a : Nat) : setBytes (clientA a) = g ^ a % p :=
  setBytes_pad_bytes ((Nat.mod_lt _ p_pos).trans p_lt)

/-- What the client takes out of `B` is the server's half. -/
theorem sub_kv (k v b : Nat) :
    ((((k * v + g ^ b % p) % p : Nat) : Int) - k * v) % p = (g ^ b % p : Nat) := by
  push_cast
  rw [Int.emod_sub_emod]
  rw [show (k * v + g ^ b % p - k * v : Int) = g ^ b % p by ring, Int.emod_emod_of_dvd _ dvd_rfl]

theorem shared_secret (a b u x : Nat) :
    ((g ^ a % p) * ((g ^ x % p) ^ u % p) % p) ^ b % p = (g ^ b % p) ^ (a + u * x) % p := by
  have hserver : (g ^ a % p) * ((g ^ x % p) ^ u % p) % p ≡ g ^ a * (g ^ x) ^ u [MOD p] := by
    refine (Nat.mod_modEq _ _).trans ((Nat.mod_modEq _ _).mul ((Nat.mod_modEq _ _).trans ?_))
    exact (Nat.mod_modEq _ _).pow u
  have hclient : (g ^ b % p) ^ (a + u * x) ≡ (g ^ b) ^ (a + u * x) [MOD p] :=
    (Nat.mod_modEq _ _).pow _
  refine (hserver.pow b).trans (Nat.ModEq.trans ?_ hclient.symm)
  rw [← pow_mul, ← pow_add, ← pow_mul, ← pow_mul, Nat.mul_comm x u, Nat.mul_comm b]

/-- An honest client's proof is accepted, whatever leading zeros the numbers have; and no proof goes
with an `A` that is zero in the group or not 256 bytes long. -/
theorem verify_complete (sha256 : Bytes → Digest) :
    (∀ (verifier scalar salt1 salt2 bPub bSecret : Bytes) (a x : Nat),
      setBytes verifier = g ^ x % p → scalar.length = padLen →
        challenge sha256 scalar verifier = some (bPub, bSecret) →
      setBytes (hash sha256 [clientA a, pad bPub]) ≠ 0 →
      verify sha256 verifier salt1 salt2 (clientA a) (clientM1 sha256 a x salt1 salt2 bPub) bPub
        bSecret = true) ∧
    ∀ verifier salt1 salt2 aPub m1 bPub bSecret : Bytes,
      setBytes aPub % p = 0 ∨ aPub.length ≠ padLen →
      verify sha256 verifier salt1 salt2 aPub m1 bPub bSecret = false := by
  refine ⟨fun verifier scalar salt1 salt2 bPub bSecret a x hv hscalar hB hu => ?_,
    fun verifier salt1 salt2 aPub m1 bPub bSecret hA => ?_⟩
  · have hA : (clientA a).length = padLen := length_pad _
    have hm1 : (clientM1 sha256 a x salt1 salt2 bPub).length = hashLen := (sha256 _).2
    have hne : setBytes (clientA a) % p ≠ 0 := by
      rw [setBytes_clientA, Nat.mod_mod]
      exact pow_g_mod_ne a
    unfold challenge at hB
    dsimp only at hB
    split at hB
    · cases hB
    obtain ⟨rfl, rfl⟩ := Prod.mk.inj (Option.some.inj hB)
    have hb : setBytes scalar < 256 ^ padLen := hscalar ▸ setBytes_lt scalar
    unfold verify
    rw [if_neg (not_or.mpr ⟨not_not.mpr hA, not_not.mpr hm1⟩), if_neg hne, pad_of_length hA,
      if_neg hu]
    rw [decide_eq_true_eq, setBytes_clientA, hv, setBytes_pad_bytes hb, shared_secret]
    unfold clientM1
    rw [setBytes_pad_bytes ((Nat.mod_lt _ p_pos).trans p_lt)]
    have ht := sub_kv (setBytes (hash sha256 [pad (bytes p), pad (bytes g)])) (g ^ x % p)
      (setBytes scalar)
    unfold k pBytes gBytes
    dsimp only
    rw [ht, Int.toNat_natCast]
    rfl
  · unfold verify
    split
    · rfl
    · rename_i hlen
      rw [if_pos (hA.resolve_right fun h => hlen (.inl h))]

/-- A large digest whose last byte depends on the input. -/
def mixDigest (bs : Bytes) : Digest :=
  ⟨replicate 31 200 ++ [bs.foldl (fun h b => 31 * h + b) 7], rfl⟩

theorem setBytes_mixDigest_ne (bs : Bytes) : setBytes (mixDigest bs).1 ≠ 0 := by
  simp only [mixDigest, setBytes, reverse_append, reverse_singleton, singleton_append, map_cons,
    Nat.ofDigits_cons]
  have : 0 < Nat.ofDigits 256 ((replicate 31 200).reverse.map UInt8.toNat) := by decide +kernel
  omega

/-- The powers of `x = 1300` and `b = 1400` are reduced, `v` and `A` have leading zeros, and the
client's `B - k v` is negative. -/
theorem verify_complete_reduced : ∃ bPub bSecret,
    challenge mixDigest (replicate 254 0 ++ [5, 120])
      (0 :: bytes (g ^ 1300 % p)) = some (bPub, bSecret) ∧
    p < g ^ 1300 ∧ setBytes bPub < k mixDigest * (g ^ 1300 % p) ∧
    verify mixDigest (0 :: bytes (g ^ 1300 % p)) [1, 2] [3] (clientA 5)
      (clientM1 mixDigest 5 1300 [1, 2] [3] bPub) bPub bSecret = true := by
  have hsome : (challenge mixDigest (replicate 254 0 ++ [5, 120]) (0 :: bytes (g ^ 1300 % p))).any
      fun q => setBytes q.1 < k mixDigest * (g ^ 1300 % p) := by decide +kernel
  cases hB : challenge mixDigest (replicate 254 0 ++ [5, 120]) (0 :: bytes (g ^ 1300 % p)) with
  | none =>
    rw [hB] at hsome
    cases hsome
  | some q =>
    rw [hB, Option.any_some, decide_eq_true_eq] at hsome
    exact ⟨q.1, q.2, rfl, by decide +kernel, hsome, (verify_complete _).1 _ _ _ _ _ _ 5
      1300 (by decide +kernel) (by decide +kernel) hB (setBytes_mixDigest_ne _)⟩

end TelegramServer.Srp
