import TelegramServer.Edge.Bytes
import Mathlib.Data.List.GetD

/-!
# The PROXY header

`readProxyV2` of `mtproto/proxyproto.go`, from a reader that delivers the stream in any chunks.
-/

namespace TelegramServer.Edge

open List

/-- A `netip.Addr` other than the zero one. -/
inductive Addr where
  | v4 (a : BitVec 32)
  | v6 (a : BitVec 128)

def Addr.unmap : Addr → Addr
  | .v4 a => .v4 a
  | .v6 a => if a >>> 32 = 0xffff then .v4 (a.setWidth 32) else .v6 a

inductive ProxyError where
  | header | signature | version (v : Nat) | block | command (cmd : Nat)
  | inetLen (n : Nat) | inet6Len (n : Nat) | unsupported (family proto : Nat)

def proxyV2Signature : Bytes :=
  [0x0D, 0x0A, 0x0D, 0x0A, 0x00, 0x0D, 0x0A, 0x51, 0x55, 0x49, 0x54, 0x0A]

/-- `b >> 4` and `b & 0x0f`. -/
def hi (b : UInt8) : Nat := b.toNat / 16
def lo (b : UInt8) : Nat := b.toNat % 16

/-- What the header says, once its address block is read. -/
def proxySource (verCmd famProto : UInt8) (block : Bytes) : Except ProxyError (Option Addr) :=
  if lo verCmd = 0 then .ok none
  else if lo verCmd ≠ 1 then .error (.command (lo verCmd))
  else if hi famProto = 1 ∧ lo famProto = 1 then
    if block.length < 12 then .error (.inetLen block.length)
    else .ok (some (.v4 (.ofNat 32 (ofBE (block.take 4)))))
  else if hi famProto = 2 ∧ lo famProto = 1 then
    if block.length < 36 then .error (.inet6Len block.length)
    else .ok (some (Addr.v6 (.ofNat 128 (ofBE (block.take 16)))).unmap)
  else if hi famProto = 0 ∧ lo famProto = 0 then .ok none
  else .error (.unsupported (hi famProto) (lo famProto))

/-- The address, and what the reader has left. -/
def readProxyV2 (r : List Bytes) : Except ProxyError (Option Addr × List Bytes) :=
  match readFull 16 r with
  | none => .error .header
  | some (fixed, r) =>
    let verCmd := fixed.getD 12 0
    if fixed.take 12 ≠ proxyV2Signature then .error .signature
    else if hi verCmd ≠ 2 then .error (.version (hi verCmd))
    else
      -- the block is read whatever the command is
      match readFull (ofBE (fixed.drop 14)) r with
      | none => .error .block
      | some (block, r) => proxySource verCmd (fixed.getD 13 0) block >>= fun a => .ok (a, r)

def header (verCmd famProto : UInt8) (block : Bytes) : Bytes :=
  proxyV2Signature ++ verCmd :: famProto :: (toBE 2 block.length ++ block)

/-- What a header with these bytes says. -/
inductive Says (vc fp : UInt8) (block : Bytes) : Option Addr → Prop where
  | localCommand (hc : lo vc = 0) : Says vc fp block none
  | unspec (hc : lo vc = 1) (hf : hi fp = 0) (hp : lo fp = 0) : Says vc fp block none
  | inet (hc : lo vc = 1) (hf : hi fp = 1) (hp : lo fp = 1) (hlen : 12 ≤ block.length) :
    Says vc fp block (some (.v4 (.ofNat 32 (ofBE (block.take 4)))))
  | inet6 (hc : lo vc = 1) (hf : hi fp = 2) (hp : lo fp = 1) (hlen : 36 ≤ block.length) :
    Says vc fp block (some (Addr.v6 (.ofNat 128 (ofBE (block.take 16)))).unmap)

/-- The bytes `h` are a header that names the address `a`, or none. -/
def Names (h : Bytes) (a : Option Addr) : Prop :=
  ∃ vc fp block, h = header vc fp block ∧ block.length < 2 ^ 16 ∧ hi vc = 2 ∧ Says vc fp block a

variable {a : Option Addr} {h : Bytes} {r : List Bytes}

theorem says_iff {vc fp : UInt8} {block : Bytes} :
    Says vc fp block a ↔ proxySource vc fp block = .ok a := by
  constructor
  · rintro (hc | ⟨hc, hf, hp⟩ | ⟨hc, hf, hp, hlen⟩ | ⟨hc, hf, hp, hlen⟩) <;> simp [proxySource, *]
  · intro hs
    unfold proxySource at hs
    split at hs
    · cases hs
      exact .localCommand ‹_›
    split at hs
    · cases hs
    have hc : lo vc = 1 := not_not.mp ‹_›
    split at hs
    · obtain ⟨hlen, hs⟩ := ite_error_eq_ok.mp hs
      cases hs
      exact .inet hc (And.left ‹_›) (And.right ‹_›) (not_lt.mp hlen)
    split at hs
    · obtain ⟨hlen, hs⟩ := ite_error_eq_ok.mp hs
      cases hs
      exact .inet6 hc (And.left ‹_›) (And.right ‹_›) (not_lt.mp hlen)
    split at hs
    · cases hs
      exact .unspec hc (And.left ‹_›) (And.right ‹_›)
    · cases hs

/-- A header for the address, with the rest of the addresses and ports, and extensions. -/
def Addr.header (a : Addr) (others t : Bytes) : Bytes :=
  match a with
  | .v4 x => Edge.header 0x21 0x11 (toBE 4 x.toNat ++ (others ++ t))
  | .v6 x => Edge.header 0x21 0x21 (toBE 16 x.toNat ++ (others ++ t))

def Addr.othersLen : Addr → Nat
  | .v4 _ => 8
  | .v6 _ => 20

theorem Addr.names_header (a : Addr) {others t : Bytes} (ho : others.length = a.othersLen)
    (hlen : (a.header others t).length < 16 + 2 ^ 16) : Names (a.header others t)
    (some a.unmap) := by
  cases a with
  | v4 x | v6 x =>
    refine ⟨_, _, _, rfl, ?_, rfl, says_iff.mpr ?_⟩
    · simp [Addr.header, Edge.header, proxyV2Signature] at hlen ⊢
      omega
    · have hx := x.isLt
      simp only [Addr.othersLen] at ho
      simp (disch := omega) only [proxySource, take_toBE, ofBE_toBE, length_append, length_toBE, ho,
        BitVec.ofNat_toNat, BitVec.setWidth_eq]
      simp [hi, lo, Addr.unmap]
      omega

/-! ## What is read -/

/-- What a caller of `readProxyV2` can tell. -/
def told (x : Except ProxyError (Option Addr × List Bytes)) :
    Except ProxyError (Option Addr × Bytes) :=
  x.map fun (a, r) => (a, r.flatten)

theorem readProxyV2_of_names {p : Bytes} (hn : Names h a) (hr : r.flatten = h ++ p) :
    told (readProxyV2 r) = .ok (a, p) := by
  obtain ⟨vc, fp, block, rfl, hb, hv, hs⟩ := hn
  obtain ⟨x, y, hxy⟩ : ∃ x y, toBE 2 block.length = [x, y] := ⟨_, _, rfl⟩
  have hlen : ofBE [x, y] = block.length := by rw [← hxy, ofBE_toBE hb]
  have hflat : r.flatten = (proxyV2Signature ++ [vc, fp, x, y]) ++ (block ++ p) := by
    simpa [header, hxy] using hr
  obtain ⟨r₁, hr₁, hp₁⟩ := readFull_append hflat
  obtain ⟨r₂, hr₂, hp₂⟩ := readFull_append hp₁
  have hfixed : (proxyV2Signature ++ [vc, fp, x, y]).length = 16 := rfl
  rw [hfixed] at hr₁
  rw [← hlen] at hr₂
  have hread : readProxyV2 r = .ok (a, r₂) := by
    simp [readProxyV2, hr₁, hr₂, proxyV2Signature, hv, says_iff.mp hs, bind_eq_ok]
  rw [hread, ← hp₂]
  rfl

theorem names_of_readProxyV2 {rest : List Bytes} (hr : readProxyV2 r = .ok (a, rest)) :
    ∃ h, Names h a ∧ r.flatten = h ++ rest.flatten := by
  unfold readProxyV2 at hr
  split at hr
  · cases hr
  rename_i fixed r₁ hr₁
  obtain ⟨hlen, hflat⟩ : fixed.length = 16 ∧ r.flatten = fixed ++ r₁.flatten := readFull_some hr₁
  obtain ⟨hsig, hr⟩ := ite_error_eq_ok.mp hr
  obtain ⟨hv, hr⟩ := ite_error_eq_ok.mp hr
  split at hr
  · cases hr
  rename_i block r₂ hr₂
  obtain ⟨hblock, hflat₂⟩ : block.length = ofBE (fixed.drop 14) ∧
      r₁.flatten = block ++ r₂.flatten :=
    readFull_some hr₂
  have hfixed : proxyV2Signature ++ fixed.getD 12 0 :: fixed.getD 13 0 :: fixed.drop 14 =
      fixed := by
    rw [← not_not.mp hsig, getD_eq_getElem _ _ (by omega), getD_eq_getElem _ _ (by omega),
      getElem_cons_drop, getElem_cons_drop, take_append_drop]
  have hdeclared : toBE 2 block.length = fixed.drop 14 := by
    have hbytes := toBE_ofBE (fixed.drop 14)
    rwa [length_drop, hlen, ← hblock] at hbytes
  have hb : block.length < 2 ^ 16 := by
    have := ofBE_lt (fixed.drop 14)
    rw [length_drop, hlen] at this
    omega
  obtain ⟨a', hs, heq⟩ := bind_eq_ok.mp hr
  cases heq
  refine ⟨_, ⟨_, _, block, rfl, hb, not_not.mp hv, says_iff.mpr hs⟩, ?_⟩
  rw [hflat, hflat₂, header, hdeclared]
  conv_lhs => rw [← hfixed]
  simp

theorem readProxyV2_congr {r' : List Bytes} (h : r.flatten = r'.flatten) :
    told (readProxyV2 r) = told (readProxyV2 r') := by
  have hread : ∀ n {r r' : List Bytes}, r.flatten = r'.flatten → ∀ x, readFull n r = some x →
      ∃ rest, readFull n r' = some (x.1, rest) ∧ x.2.flatten = rest.flatten := by
    intro n r r' h x hx
    obtain ⟨rfl, hflat⟩ := readFull_some hx
    obtain ⟨rest, hrest, heq⟩ := readFull_append (h.symm.trans hflat)
    exact ⟨rest, hrest, heq.symm⟩
  have hnone : ∀ n {r r' : List Bytes}, r.flatten = r'.flatten → readFull n r = none →
      readFull n r' = none := by
    intro n r r' h hn
    rwa [readFull_eq_none, ← h, ← readFull_eq_none]
  cases hfixed : readFull 16 r with
  | none => simp only [readProxyV2, hfixed, hnone 16 h hfixed]
  | some x =>
    obtain ⟨r₁, hfixed', h₁⟩ := hread 16 h x hfixed
    cases hblock : readFull (ofBE (x.1.drop 14)) x.2 with
    | none => simp only [readProxyV2, hfixed, hfixed', hblock, hnone _ h₁ hblock]
    | some y =>
      obtain ⟨r₂, hblock', h₂⟩ := hread _ h₁ y hblock
      simp only [readProxyV2, hfixed, hfixed', hblock, hblock', told]
      split
      · rfl
      split
      · rfl
      cases proxySource (x.1.getD 12 0) (x.1.getD 13 0) y.1 with
      | error e => rfl
      | ok a => exact congrArg (fun p => Except.ok (a, p)) h₂

/-- The reader takes exactly the header from the stream, however that is delivered, and finds
the address that it names; it fails where the stream does not begin with a header. -/
theorem readProxyV2_exact :
    (∀ r r' : List Bytes, r.flatten = r'.flatten → told (readProxyV2 r) = told (readProxyV2 r')) ∧
    (∀ (r : List Bytes) (a : Option Addr) (p : Bytes), told (readProxyV2 r) = .ok (a, p) ↔
      ∃ h, Names h a ∧ r.flatten = h ++ p) ∧
    (∀ (h : Bytes) (a : Option Addr), Names h a → h.length = 16 + ofBE ((h.drop 14).take 2)) ∧
    ∀ (a : Addr) (others t p : Bytes) (r : List Bytes), others.length = a.othersLen →
      (a.header others t).length < 16 + 2 ^ 16 → r.flatten = a.header others t ++ p →
      told (readProxyV2 r) = .ok (some a.unmap, p) := by
  refine ⟨fun r r' => readProxyV2_congr, fun r a p => ⟨fun htold => ?_, ?_⟩, fun h a hn => ?_,
    fun a others t p r ho hlen hr => readProxyV2_of_names (a.names_header ho hlen) hr⟩
  · cases hr : readProxyV2 r with
    | error e => simp [hr, told, Except.map] at htold
    | ok x =>
      obtain ⟨rfl, rfl⟩ : x.1 = a ∧ x.2.flatten = p := by simpa [hr, told, Except.map] using htold
      exact names_of_readProxyV2 hr
  · rintro ⟨h, hn, hr⟩
    exact readProxyV2_of_names hn hr
  · obtain ⟨vc, fp, block, rfl, hb, -⟩ := hn
    have hdeclared : ((header vc fp block).drop 14).take 2 = toBE 2 block.length :=
      take_left' (length_toBE ..)
    rw [hdeclared, ofBE_toBE hb]
    simp [header, proxyV2Signature]
    omega

/-- 10.0.0.7 with an extension, in chunks that cut the header twice. -/
theorem readProxyV2_exact_inet :
    told (readProxyV2 [proxyV2Signature.take 5, proxyV2Signature.drop 5 ++ [0x21, 0x11, 0, 13, 10],
      [0, 0, 7, 10, 0, 0, 1, 0, 80, 1, 187, 4, 0xef, 1]]) =
        .ok (some (.v4 0x0a000007), [0xef, 1]) :=
  readProxyV2_exact.2.2.2 (.v4 0x0a000007) [10, 0, 0, 1, 0, 80, 1, 187] [4]
    [0xef, 1] _ rfl (by decide) (by decide)

end TelegramServer.Edge
