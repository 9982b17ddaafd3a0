import TelegramServer.Edge.Bytes

/-!
# Discovery responses

`internal/discovery`: the response of the key preflight and its strict parser. The encoding of
keys by `crypto/x509` is a parameter.
-/

namespace TelegramServer.Edge

open List

def responseMagic : Bytes := "telegramd-key-r1".toUTF8.data.toList
def nonceSize : Nat := 32
def maxSPKILength : Nat := 4096
def maxInt32 : Int := 2 ^ 31 - 1

structure PublicKey where
  N : Option Int
  E : Int
deriving DecidableEq

/-- `MarshalPKIXPublicKey` and `ParsePKIXPublicKey`, which gives `none` for another kind of key. -/
structure X509 where
  marshal : PublicKey → Except String Bytes
  parse : Bytes → Except String (Option PublicKey)

def validateDCID (dcID : Int) : Except String Unit :=
  if dcID ≤ 0 ∨ dcID > maxInt32 then .error s!"DC id {dcID} must be positive and fit int32"
  else .ok ()

def validatePublicKey : Option PublicKey → Except String Unit
  | none | some ⟨none, _⟩ => .error "RSA public key is nil"
  | some ⟨some n, e⟩ =>
    if n ≤ 0 ∨ n.toNat.log2 + 1 ≠ 2048 ∨ n % 2 = 0 then
      .error "RSA public key must have a positive odd 2048-bit modulus"
    else if e < 3 ∨ e % 2 = 0 ∨ e > maxInt32 then
      .error "RSA public key exponent must be an odd value at least 3"
    else .ok ()

def checkSPKILength (der : Bytes) : Except String Unit :=
  if der.length < 1 ∨ der.length > maxSPKILength then
    .error s!"SPKI length is {der.length}, want 1..{maxSPKILength}"
  else .ok ()

variable (x : X509)

/-- A valid key that is marshalled is parsed again. -/
def X509.Inverse : Prop := ∀ key der, validatePublicKey (some key) = .ok () →
  x.marshal key = .ok der → x.parse der = .ok (some key)

def marshalSPKI (pub : Option PublicKey) : Except String Bytes :=
  validatePublicKey pub >>= fun _ =>
    match pub with
    | none => .error "RSA public key is nil"
    | some key => (x.marshal key).mapError ("marshal SubjectPublicKeyInfo: " ++ ·)

def parseSPKI (der : Bytes) : Except String PublicKey :=
  checkSPKILength der >>= fun _ =>
  (x.parse der).mapError ("parse SubjectPublicKeyInfo: " ++ ·) >>= fun key =>
    match key with
    | none => .error "discovery key is not RSA"
    | some pub =>
      validatePublicKey (some pub) >>= fun _ =>
      (x.marshal pub).mapError ("marshal parsed SubjectPublicKeyInfo: " ++ ·) >>= fun canonical =>
        if canonical ≠ der then .error "SubjectPublicKeyInfo is not canonical DER" else .ok pub

/-- The response of `BuildPreflightResponse`, with its two length fields. -/
def frame (nonce : Bytes) (dcID : Int) (der : Bytes) : Bytes :=
  responseMagic ++ (nonce ++ (toBE 4 (6 + der.length) ++ (toBE 4 (dcID % 2 ^ 32).toNat ++
    (toBE 2 der.length ++ der))))

def buildPreflightResponse (dcID : Int) (pub : Option PublicKey) (nonce : Bytes) :
    Except String Bytes :=
  if nonce.length ≠ nonceSize then
    .error s!"preflight nonce is {nonce.length} bytes, want {nonceSize}"
  else
    validateDCID dcID >>= fun _ => marshalSPKI x pub >>= fun der => checkSPKILength der >>= fun _ =>
      .ok (frame nonce dcID der)

def slice (bs : Bytes) (offset n : Nat) : Bytes := (bs.drop offset).take n

def int32 (n : Nat) : Int := if n < 2 ^ 31 then n else n - 2 ^ 32

def parsePreflightResponse (response nonce : Bytes) : Except String (Int × PublicKey) :=
  let bodyLen := ofBE (slice response 48 4)
  let dcID := int32 (ofBE (slice response 52 4))
  let spkiLen := ofBE (slice response 56 2)
  if response.length < 58 then
    .error s!"preflight response is {response.length} bytes, want at least 58"
  else if slice response 0 16 ≠ responseMagic then .error "invalid preflight response magic"
  else if nonce.length ≠ nonceSize ∨ slice response 16 nonceSize ≠ nonce then
    .error "preflight response nonce does not match request"
  else if bodyLen < 6 ∨ bodyLen > maxSPKILength + 6 then
    .error s!"invalid preflight body length {bodyLen}"
  else if response.length - 52 ≠ bodyLen then
    .error "preflight response has truncated or trailing body"
  else
    validateDCID dcID >>= fun _ =>
      if spkiLen < 1 ∨ spkiLen > maxSPKILength ∨ bodyLen ≠ 6 + spkiLen then
        .error s!"invalid preflight SPKI length {spkiLen}"
      else parseSPKI x (slice response 58 spkiLen) >>= fun pub => .ok (dcID, pub)

variable {x : X509} {dcID : Int} {key : PublicKey} {r nonce der : Bytes}

theorem validateDCID_eq_ok : validateDCID dcID = .ok () ↔ 0 < dcID ∧ dcID ≤ maxInt32 := by
  rw [validateDCID, ite_error_eq_ok]
  simp

theorem checkSPKILength_eq_ok :
    checkSPKILength der = .ok () ↔ 1 ≤ der.length ∧ der.length ≤ maxSPKILength := by
  rw [checkSPKILength, ite_error_eq_ok, not_or, not_lt, not_lt, and_iff_left rfl]

/-- Only the canonical encoding of a valid key is parsed. -/
theorem parseSPKI_eq_ok (hx : x.Inverse) :
    parseSPKI x der = .ok key ↔ checkSPKILength der = .ok () ∧
      marshalSPKI x (some key) = .ok der := by
  simp only [parseSPKI, marshalSPKI, bind_eq_ok, mapError_eq_ok]
  constructor
  · rintro ⟨_, hlen, pub, -, h⟩
    cases pub with
    | none => cases h
    | some pub =>
      simp only [bind_eq_ok, mapError_eq_ok, ite_error_eq_ok, not_not] at h
      obtain ⟨_, hvalid, canonical, hmarshal, rfl, hkey⟩ := h
      cases hkey
      exact ⟨hlen, (), hvalid, hmarshal⟩
  · rintro ⟨hlen, _, hvalid, hmarshal⟩
    refine ⟨(), hlen, some key, hx key der hvalid hmarshal, ?_⟩
    simp only [bind_eq_ok, mapError_eq_ok, ite_error_eq_ok]
    exact ⟨(), hvalid, der, hmarshal, not_not.mpr rfl, trivial⟩

/-! ## The frame -/

theorem length_slice {offset n : Nat} (h : offset + n ≤ r.length) :
    (slice r offset n).length = n := by
  rw [slice, length_take, length_drop]
  omega

theorem slice_append_drop (offset n : Nat) :
    slice r offset n ++ r.drop (offset + n) = r.drop offset := by
  rw [slice, ← drop_drop, take_append_drop]

theorem toBE_slice {offset n : Nat} (h : offset + n ≤ r.length) :
    toBE n (ofBE (slice r offset n)) = slice r offset n := by
  have hbytes := toBE_ofBE (slice r offset n)
  rwa [length_slice h] at hbytes

theorem int32_eq {n : Nat} (hn : n < 2 ^ 32) (h : validateDCID (int32 n) = .ok ()) :
    int32 n = n := by
  have hpos := (validateDCID_eq_ok.mp h).1
  by_cases hlt : n < 2 ^ 31
  · exact if_pos hlt
  · rw [int32, if_neg hlt] at hpos
    omega

theorem slices_frame (dcID : Int) (der : Bytes) (hn : nonce.length = 32) :
    slice (frame nonce dcID der) 0 16 = responseMagic ∧ slice (frame nonce dcID der) 16 32 = nonce ∧
      slice (frame nonce dcID der) 48 4 = toBE 4 (6 + der.length) ∧
      slice (frame nonce dcID der) 52 4 = toBE 4 (dcID % 2 ^ 32).toNat ∧
      slice (frame nonce dcID der) 56 2 = toBE 2 der.length ∧
      slice (frame nonce dcID der) 58 der.length = der := by
  have hm : responseMagic.length = 16 := by decide
  refine ⟨?_, ?_, ?_, ?_, ?_, ?_⟩ <;> simp [slice, frame, drop_append, hm, hn, drop_of_length_le]

/-- A response is parsed exactly if it is what is built for the result. -/
theorem parse_eq_ok_iff (hx : x.Inverse) : parsePreflightResponse x r nonce = .ok (dcID, key) ↔
      buildPreflightResponse x dcID (some key) nonce = .ok r := by
  simp only [parsePreflightResponse, buildPreflightResponse, ite_error_eq_ok, bind_eq_ok,
    parseSPKI_eq_ok hx]
  constructor
  · rintro ⟨hlen, hmagic, hnonce, hbody, htotal, _, hdc, hspki, pub, ⟨hder, hmarshal⟩, heq⟩
    push Not at hlen hmagic hnonce htotal hspki
    cases heq
    have hsize : (slice r 58 (ofBE (slice r 56 2))).length = ofBE (slice r 56 2) :=
      length_slice (by omega)
    refine ⟨not_not.mpr hnonce.1, (), hdc, _, hmarshal, (), hder, congrArg _ ?_⟩
    have hrest : slice r 58 (ofBE (slice r 56 2)) = r.drop 58 := by
      rw [slice, take_of_length_le]
      rw [length_drop]
      omega
    have hlt : ofBE (slice r 52 4) < 2 ^ 32 := by
      have := ofBE_lt (slice r 52 4)
      rw [length_slice (by omega)] at this
      omega
    have hw : ((ofBE (slice r 52 4) : Int) % 2 ^ 32).toNat = ofBE (slice r 52 4) := by omega
    rw [frame, hsize, ← hspki.2.2, int32_eq hlt hdc, hw, toBE_slice (by omega),
      toBE_slice (by omega), toBE_slice (by omega), hrest, slice_append_drop 56,
        slice_append_drop 52,
      slice_append_drop 48, ← hnonce.2, nonceSize, slice_append_drop 16, ← hmagic,
        slice_append_drop 0]
    rfl
  · rintro ⟨hnonce, _, hdc, der, hmarshal, _, hder, heq⟩
    cases heq
    obtain ⟨hpos, hmax⟩ := checkSPKILength_eq_ok.mp hder
    obtain ⟨hdcPos, hdcMax⟩ := validateDCID_eq_ok.mp hdc
    obtain ⟨hmagic, hn, hbody, hid, hlen, hkey⟩ :=
      slices_frame dcID der (not_not.mp hnonce)
    have hint : int32 (dcID % 2 ^ 32).toNat = dcID := by
      unfold int32 maxInt32 at *
      omega
    have hmagicLen : responseMagic.length = 16 := by decide
    unfold maxSPKILength maxInt32 nonceSize at *
    rw [hbody, hlen, hid, ofBE_toBE (by omega), ofBE_toBE (by omega), ofBE_toBE (by omega),
      hint, hkey]
    refine ⟨?_, not_not.mpr hmagic, ?_, by omega, ?_, (), hdc, by omega, key, ⟨hder, hmarshal⟩, rfl⟩
    · simp [frame, hmagicLen]
      omega
    · exact not_or.mpr ⟨hnonce, not_not.mpr hn⟩
    · simp [frame, hmagicLen]
      omega

/-- The length of an accepted response stands in it. -/
theorem length_of_parse {p : Int × PublicKey} (h : parsePreflightResponse x r nonce = .ok p) :
    58 ≤ r.length ∧ r.length - 52 = ofBE (slice r 48 4) := by
  simp only [parsePreflightResponse, ite_error_eq_ok, not_lt] at h
  exact ⟨h.1, not_not.mp h.2.2.2.2.1⟩

/-- There is one encoding of every result, and no accepted response begins another one. -/
theorem discovery_responses_canonical (x : X509) (hx : x.Inverse) (nonce : Bytes) :
    (∀ r dcID key, parsePreflightResponse x r nonce = .ok (dcID, key) ↔
      buildPreflightResponse x dcID (some key) nonce = .ok r) ∧
    (∀ r r' p, parsePreflightResponse x r nonce = .ok p →
      parsePreflightResponse x r' nonce = .ok p → r = r') ∧
    ∀ r t p p', parsePreflightResponse x r nonce = .ok p →
      parsePreflightResponse x (r ++ t) nonce = .ok p' → t = [] := by
  refine ⟨fun r dcID key => parse_eq_ok_iff hx, fun r r' p h h' => ?_, fun r t p p' h h' => ?_⟩
  · have hbuild := ((parse_eq_ok_iff hx).mp h).symm.trans ((parse_eq_ok_iff hx).mp h')
    exact Except.ok.inj hbuild
  · obtain ⟨hmin, hlen⟩ := length_of_parse h
    have hlen' := (length_of_parse h').2
    have hslice : slice (r ++ t) 48 4 = slice r 48 4 := by
      rw [slice, slice, drop_append_of_le_length (by omega),
        take_append_of_le_length (by rw [length_drop]; omega)]
    rw [hslice, length_append] at hlen'
    exact length_eq_zero_iff.mp (by omega)

def oneKey : PublicKey := ⟨some (2 ^ 2047 + 1), 65537⟩

/-- The SubjectPublicKeyInfo of `oneKey`: the algorithm, then the modulus and the exponent. -/
def oneKeyDER : Bytes :=
  [0x30, 0x82, 0x01, 0x22, 0x30, 0x0d, 0x06, 0x09, 0x2a, 0x86, 0x48, 0x86, 0xf7, 0x0d, 0x01, 0x01,
    0x01, 0x05, 0x00, 0x03, 0x82, 0x01, 0x0f, 0x00, 0x30, 0x82, 0x01, 0x0a, 0x02, 0x82, 0x01, 0x01,
    0x00, 0x80] ++ replicate 254 0 ++ [0x01, 0x02, 0x03, 0x01, 0x00, 0x01]

def oneKeyX509 : X509 where
  marshal key := if key = oneKey then .ok oneKeyDER else .error "unknown"
  parse der := if der = oneKeyDER then .ok (some oneKey) else .error "unknown"

theorem discovery_responses_canonical_oneKey :
    parsePreflightResponse oneKeyX509 (frame (.replicate 32 0) 2 oneKeyDER) (.replicate 32 0) =
      .ok (2, oneKey) := by
  refine ((discovery_responses_canonical oneKeyX509 (fun key der _ h => ?_) _).1 _ _ _).mpr ?_
  · by_cases hk : key = oneKey <;> simp_all [oneKeyX509]
  · decide +kernel

end TelegramServer.Edge
