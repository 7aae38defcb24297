import ZkCoin.Shielded.LayerCodec

/-!
# The node's own proof codec

The builders and decoders of the node, translated from its C++: they write every length with a byte
loop, compare a field in place and read the body of a payload through the payload.  They are related
here to the verifier crate, which nests the same layers with other functions.

* `appendUint32`, `readUint32` — the byte loops.
* `build…`, `decode…`          — one definition per function of the node.
* `build…_eq`                  — the node builds what the crate builds.
* `…_eq_some_iff`              — each decoder accepts exactly what its builder writes.
* `nested_codec`               — all layers at once, in both languages.
-/

open Bytes

namespace Shielded.Cpp

/-! ## constants -/

def proofBundlePrefixV4 : Bytes := ascii "zkc-p4"
def proofBundlePreimagePrefixV4 : Bytes := ascii "zkc-proof-bundle-v4"
def orchardProofPayloadPrefixV1 : Bytes := ascii "zkc-orchard-proof-v1"
def orchardProofBodyPrefixV1 : Bytes := ascii "zkc-orchard-body-v1"
def orchardRealProofPrefixV1 : Bytes := ascii "zkc-orchard-real-v1"
def orchardRealNativeProofPrefixV1 : Bytes := ascii "zkc-orchard-native-proof-v1"
def orchardRealVerifierKeyHashPreimagePrefixV1 : Bytes := ascii "zkc-orchard-real-vk-v1"
def orchardRealProofRequestPreimagePrefixV1 : Bytes := ascii "zkc-orchard-real-request-v1"
def orchardRealVerifierInputPreimagePrefixV1 : Bytes := ascii "zkc-orchard-real-input-v1"
def orchardNativeProofHashPreimagePrefixV1 : Bytes := ascii "zkc-orchard-native-proof-hash-v1"

def shieldedPublicInputHashSize : Nat := 32
def shieldedProofBundleVersionV4 : UInt8 := 1
def shieldedProofSystemOrchard : UInt8 := 1
def shieldedProofBundleFlagsNone : UInt8 := 0
def shieldedOrchardProofBodyModeScaffold : UInt8 := 0
def shieldedOrchardProofBodyModeReal : UInt8 := 1

/-! ## byte loops -/

/-- `AppendUint32` -/
def appendUint32 (payload : Bytes) (value : UInt32) : Bytes :=
  (List.range 4).foldl
    (fun payload i => payload ++ [((value >>> UInt32.ofNat (8 * i)) &&& 0xff).toUInt8]) payload

/-- the loop `len |= uint32_t{bytes[off + i]} << (8 * i)` of every decoder, after its size check -/
def readUint32 (bs : Bytes) (off : Nat) : UInt32 :=
  (List.range 4).foldl
    (fun value i => value ||| (bs.getD (off + i) 0).toUInt32 <<< UInt32.ofNat (8 * i)) 0

section
variable (hash256 : Bytes → Uint256)

/-! ## hashes -/

def expectedProofBundlePayloadHashV4 (proofKind : UInt8) (publicInputHash : Uint256) : Uint256 :=
  hash256 (proofBundlePreimagePrefixV4 ++ [shieldedProofBundleVersionV4] ++ [proofKind] ++
    [shieldedProofSystemOrchard] ++ [shieldedProofBundleFlagsNone] ++ publicInputHash.data)

def expectedOrchardRealVerifierKeyHashV1 : Uint256 :=
  hash256 orchardRealVerifierKeyHashPreimagePrefixV1

/-- the hash of kind, public input and verifier key that several functions of the node inline -/
def verifierInputHashV1 (proofKind : UInt8) (publicInputHash : Uint256) : Uint256 :=
  hash256 (orchardRealVerifierInputPreimagePrefixV1 ++ [proofKind] ++ publicInputHash.data ++
    (expectedOrchardRealVerifierKeyHashV1 hash256).data)

def expectedOrchardNativeProofHashV1 (proofKind : UInt8) (publicInputHash : Uint256)
    (nativeProofBytes : Bytes) : Uint256 :=
  let preimage := orchardNativeProofHashPreimagePrefixV1 ++
    (expectedOrchardRealVerifierKeyHashV1 hash256).data ++
    (verifierInputHashV1 hash256 proofKind publicInputHash).data
  hash256 (appendUint32 preimage (UInt32.ofNat nativeProofBytes.length) ++ nativeProofBytes)

/-! ## builders -/

def buildOrchardRealProofV1 (proofKind : UInt8) (publicInputHash : Uint256) (proofBytes : Bytes) :
    Bytes :=
  let proof := orchardRealProofPrefixV1 ++ [shieldedProofBundleFlagsNone] ++ [proofKind] ++
    publicInputHash.data ++ (expectedOrchardRealVerifierKeyHashV1 hash256).data
  appendUint32 proof (UInt32.ofNat proofBytes.length) ++ proofBytes

def buildOrchardNativeProofBytesV1 (proofKind : UInt8) (publicInputHash : Uint256)
    (proofBytes : Bytes) : Bytes :=
  let proof := orchardRealNativeProofPrefixV1 ++ [shieldedProofBundleFlagsNone] ++
    (expectedOrchardRealVerifierKeyHashV1 hash256).data ++
    (verifierInputHashV1 hash256 proofKind publicInputHash).data
  appendUint32 proof (UInt32.ofNat proofBytes.length) ++ proofBytes

/-- `BuildOrchardProofBodyV1` of a mode and its bytes -/
def buildOrchardProofBodyV1 (proofBodyMode : UInt8) (proofBytes : Bytes) : Bytes :=
  appendUint32 (orchardProofBodyPrefixV1 ++ [proofBodyMode]) (UInt32.ofNat proofBytes.length) ++
    proofBytes

/-- `BuildOrchardProofBodyV1` of a kind and a public input: the scaffold body -/
def buildOrchardProofBodyScaffoldV1 (proofKind : UInt8) (publicInputHash : Uint256) : Bytes :=
  buildOrchardProofBodyV1 shieldedOrchardProofBodyModeScaffold
    (expectedProofBundlePayloadHashV4 hash256 proofKind publicInputHash).data

/-- `BuildOrchardRealProofBodyV1` of a kind, a public input and proof bytes -/
def buildOrchardRealProofBodyV1 (proofKind : UInt8) (publicInputHash : Uint256)
    (proofBytes : Bytes) : Bytes :=
  buildOrchardProofBodyV1 shieldedOrchardProofBodyModeReal
    (buildOrchardRealProofV1 hash256 proofKind publicInputHash proofBytes)

/-- `BuildOrchardProofPayloadV1` around a body -/
def buildOrchardProofPayloadV1 (proofKind : UInt8) (publicInputHash : Uint256) (proofBody : Bytes) :
    Bytes :=
  appendUint32 (orchardProofPayloadPrefixV1 ++ [proofKind] ++ publicInputHash.data)
    (UInt32.ofNat proofBody.length) ++ proofBody

/-- `BuildProofBundleV4` around a payload -/
def buildProofBundleV4 (proofKind : UInt8) (publicInputHash : Uint256) (proofPayload : Bytes) :
    Bytes :=
  appendUint32 (proofBundlePrefixV4 ++ [shieldedProofBundleVersionV4] ++ [proofKind] ++
    [shieldedProofSystemOrchard] ++ [shieldedProofBundleFlagsNone] ++ publicInputHash.data)
    (UInt32.ofNat proofPayload.length) ++ proofPayload

/-- `BuildProofBundleV4` of a kind and a public input: the scaffold bundle -/
def buildProofBundleScaffoldV4 (proofKind : UInt8) (publicInputHash : Uint256) : Bytes :=
  buildProofBundleV4 proofKind publicInputHash
    (buildOrchardProofPayloadV1 proofKind publicInputHash
      (buildOrchardProofBodyScaffoldV1 hash256 proofKind publicInputHash))

/-! ## decoders -/

def decodeOrchardNativeProofBytesV1 (proofBytes : Bytes) (proofKind : UInt8)
    (publicInputHash : Uint256) : Option Bytes := do
  let flagsOffset := orchardRealNativeProofPrefixV1.length
  let verifierKeyHashOffset := flagsOffset + 1
  let verifierInputHashOffset := verifierKeyHashOffset + shieldedPublicInputHashSize
  let proofLenOffset := verifierInputHashOffset + shieldedPublicInputHashSize
  let proofOffset := proofLenOffset + 4
  guard (¬ proofBytes.length < proofOffset)
  guard (orchardRealNativeProofPrefixV1 <+: proofBytes)
  guard (proofBytes[flagsOffset]? = some shieldedProofBundleFlagsNone)
  guard ((expectedOrchardRealVerifierKeyHashV1 hash256).data <+:
    proofBytes.drop verifierKeyHashOffset)
  guard ((verifierInputHashV1 hash256 proofKind publicInputHash).data <+:
    proofBytes.drop verifierInputHashOffset)
  let proofLen := (readUint32 proofBytes proofLenOffset).toNat
  guard (¬ (proofLen = 0 ∨ proofLen ≠ proofBytes.length - proofOffset))
  some (proofBytes.drop proofOffset)

def decodeOrchardRealProofV1 (proof : Bytes) (proofKind : UInt8) (publicInputHash : Uint256) :
    Option Bytes := do
  let flagsOffset := orchardRealProofPrefixV1.length
  let kindOffset := flagsOffset + 1
  let publicInputOffset := kindOffset + 1
  let verifierKeyHashOffset := publicInputOffset + shieldedPublicInputHashSize
  let proofLenOffset := verifierKeyHashOffset + shieldedPublicInputHashSize
  let proofOffset := proofLenOffset + 4
  guard (¬ proof.length < proofOffset)
  guard (orchardRealProofPrefixV1 <+: proof)
  guard (proof[flagsOffset]? = some shieldedProofBundleFlagsNone)
  guard (proof[kindOffset]? = some proofKind)
  guard (publicInputHash.data <+: proof.drop publicInputOffset)
  guard ((expectedOrchardRealVerifierKeyHashV1 hash256).data <+: proof.drop verifierKeyHashOffset)
  guard ((readUint32 proof proofLenOffset).toNat = proof.length - proofOffset)
  some (proof.drop proofOffset)

/-- `DecodeOrchardProofBodyModeV1`: payload and body are checked in one pass over the payload -/
def decodeOrchardProofBodyModeV1 (proofPayload : Bytes) (proofKind : UInt8)
    (publicInputHash : Uint256) : Option UInt8 := do
  let kindOffset := orchardProofPayloadPrefixV1.length
  let publicInputOffset := kindOffset + 1
  let proofLenOffset := publicInputOffset + shieldedPublicInputHashSize
  let proofOffset := proofLenOffset + 4
  guard (¬ proofPayload.length < proofOffset)
  guard (orchardProofPayloadPrefixV1 <+: proofPayload)
  guard (proofPayload[kindOffset]? = some proofKind)
  guard (publicInputHash.data <+: proofPayload.drop publicInputOffset)
  guard ((readUint32 proofPayload proofLenOffset).toNat = proofPayload.length - proofOffset)
  let bodyModeOffset := proofOffset + orchardProofBodyPrefixV1.length
  let bodyLenOffset := bodyModeOffset + 1
  let bodyOffset := bodyLenOffset + 4
  guard (¬ proofPayload.length < bodyOffset)
  guard (orchardProofBodyPrefixV1 <+: proofPayload.drop proofOffset)
  guard ((readUint32 proofPayload bodyLenOffset).toNat = proofPayload.length - bodyOffset)
  proofPayload[bodyModeOffset]?

/-- `real_proof_offset`: where the bytes of a body start in a payload -/
def realProofOffset : Nat :=
  orchardProofPayloadPrefixV1.length + 1 + shieldedPublicInputHashSize + 4 +
    orchardProofBodyPrefixV1.length + 1 + 4

/-- mode and bytes of the body inside an envelope, when all outer decoders accept it for this kind and
public input -/
def bodyOfBundle (bundle : Bytes) (proofKind : UInt8) (publicInputHash : Uint256) :
    Option (UInt8 × Bytes) := do
  let (kind, pih, payload) ← decodeProofEnvelope bundle
  guard (kind = proofKind ∧ pih = publicInputHash)
  let mode ← decodeOrchardProofBodyModeV1 payload proofKind publicInputHash
  some (mode, payload.drop realProofOffset)

def realProofOfBundle (bundle : Bytes) (proofKind : UInt8) (publicInputHash : Uint256) :
    Option Bytes := do
  let (mode, proof) ← bodyOfBundle bundle proofKind publicInputHash
  guard (mode = shieldedOrchardProofBodyModeReal)
  decodeOrchardRealProofV1 hash256 proof proofKind publicInputHash

/-- the native bytes of an envelope with a real body, through every layer -/
def nativeProofOfBundle (bundle : Bytes) (proofKind : UInt8) (publicInputHash : Uint256) :
    Option Bytes := do
  let proofBytes ← realProofOfBundle hash256 bundle proofKind publicInputHash
  decodeOrchardNativeProofBytesV1 hash256 proofBytes proofKind publicInputHash

end

/-! ## the byte loops write and read little-endian integers -/

theorem byte_shiftRight (n : Nat) {k : Nat} (hk : k ≤ 24) :
    ((UInt32.ofNat n >>> UInt32.ofNat k) &&& 0xff).toUInt8 = UInt8.ofNat (n / 2 ^ k) := by
  have hpow : (2 : Nat) ^ 32 = 2 ^ k * 2 ^ (32 - k) := by
    rw [← Nat.pow_add]
    congr 1
    omega
  have hdvd : (2 : Nat) ^ 8 ∣ 2 ^ (32 - k) := Nat.pow_dvd_pow 2 (by omega)
  apply UInt8.toNat_inj.mp
  rw [UInt32.toNat_toUInt8, UInt32.toNat_and, UInt32.toNat_shiftRight, UInt32.toNat_ofNat',
    UInt32.toNat_ofNat', UInt8.toNat_ofNat', show k % 2 ^ 32 % 32 = k by omega]
  show ((n % 2 ^ 32) >>> k &&& (2 ^ 8 - 1)) % 2 ^ 8 = n / 2 ^ k % 2 ^ 8
  rw [Nat.and_two_pow_sub_one_eq_mod, Nat.mod_mod, Nat.shiftRight_eq_div_pow, hpow,
    Nat.mod_mul_right_div_self, Nat.mod_mod_of_dvd _ hdvd]

theorem appendUint32_ofNat (payload : Bytes) (n : Nat) :
    appendUint32 payload (UInt32.ofNat n) = payload ++ leBytes 4 n := by
  have hbytes : leBytes 4 n = [UInt8.ofNat (n / 2 ^ 0), UInt8.ofNat (n / 2 ^ 8),
      UInt8.ofNat (n / 2 ^ 16), UInt8.ofNat (n / 2 ^ 24)] := by
    simp only [leBytes, Nat.div_div_eq_div_mul, Nat.pow_zero, Nat.div_one, Nat.reduceMul, Nat.reducePow]
  rw [hbytes, ← byte_shiftRight n (by omega), ← byte_shiftRight n (by omega),
    ← byte_shiftRight n (by omega), ← byte_shiftRight n (by omega)]
  simp only [appendUint32, List.range, List.range.loop, List.foldl_cons, List.foldl_nil,
    List.append_assoc, List.cons_append, List.nil_append]

theorem or_byte {v : UInt32} (b : UInt8) {k : Nat} (hk : k ≤ 24) (hv : v.toNat < 2 ^ k) :
    (v ||| b.toUInt32 <<< UInt32.ofNat k).toNat = v.toNat + 2 ^ k * b.toNat := by
  have hb := b.toNat_lt
  have hpow : (2 : Nat) ^ k ≤ 2 ^ 24 := Nat.pow_le_pow_right (by decide) hk
  have hlt : b.toNat * 2 ^ k < 2 ^ 32 := by nlinarith
  rw [UInt32.toNat_or, UInt32.toNat_shiftLeft, UInt8.toNat_toUInt32, UInt32.toNat_ofNat',
    show k % 2 ^ 32 % 32 = k by omega, Nat.shiftLeft_eq, Nat.mod_eq_of_lt hlt, Nat.or_comm,
    Nat.mul_comm, ← Nat.two_pow_add_eq_or_of_lt hv, Nat.add_comm]

theorem or_bytes (a b c d : UInt8) :
    ((((0 ||| a.toUInt32 <<< UInt32.ofNat (8 * 0)) ||| b.toUInt32 <<< UInt32.ofNat (8 * 1)) |||
      c.toUInt32 <<< UInt32.ofNat (8 * 2)) ||| d.toUInt32 <<< UInt32.ofNat (8 * 3)).toNat =
      a.toNat + 256 * (b.toNat + 256 * (c.toNat + 256 * d.toNat)) := by
  have ha := a.toNat_lt
  have hb := b.toNat_lt
  have hc := c.toNat_lt
  have h1 := or_byte (v := 0) a (k := 8 * 0) (by omega) (by decide)
  have h2 := or_byte b (k := 8 * 1) (by omega) (v := 0 ||| a.toUInt32 <<< UInt32.ofNat (8 * 0))
    (by rw [h1]; simp; omega)
  have h3 := or_byte c (k := 8 * 2) (by omega)
    (v := (0 ||| a.toUInt32 <<< UInt32.ofNat (8 * 0)) ||| b.toUInt32 <<< UInt32.ofNat (8 * 1))
    (by rw [h2, h1]; simp; omega)
  rw [or_byte d (by omega) (by rw [h3, h2, h1]; simp; omega), h3, h2, h1]
  simp
  omega

theorem readUint32_toNat (bs : Bytes) (off : Nat) :
    (readUint32 bs off).toNat = leNat (slice bs off (off + 4)) := by
  simp only [readUint32, List.range, List.range.loop, List.foldl_cons, List.foldl_nil, or_bytes,
    List.getD_eq_getElem?_getD, ← List.getElem?_drop, slice, Nat.add_sub_cancel_left]
  rcases bs.drop off with _ | ⟨a, _ | ⟨b, _ | ⟨c, _ | ⟨d, rest⟩⟩⟩⟩ <;> simp [leNat]

/-! ## the node builds what the crate builds -/

section
variable (hash256 : Bytes → Uint256) (kind : UInt8) (pih : Uint256)

theorem expectedOrchardRealVerifierKeyHashV1_eq : expectedOrchardRealVerifierKeyHashV1 hash256 =
    Shielded.expectedOrchardRealVerifierKeyHashV1 hash256 := rfl

def expectedVerifierInput : OrchardRealVerifierInput :=
  ⟨kind, pih, Shielded.expectedOrchardRealVerifierKeyHashV1 hash256⟩

theorem verifierInputHashV1_eq : verifierInputHashV1 hash256 kind pih =
    (expectedVerifierInput hash256 kind pih).inputHashV1 hash256 := rfl

theorem buildOrchardRealProofV1_eq (bytes : Bytes) :
    buildOrchardRealProofV1 hash256 kind pih bytes =
      Shielded.buildOrchardRealProofV1 hash256 kind pih bytes := by
  rw [buildOrchardRealProofV1, appendUint32_ofNat]
  rfl

theorem buildOrchardNativeProofBytesV1_eq (bytes : Bytes) :
    buildOrchardNativeProofBytesV1 hash256 kind pih bytes =
      Shielded.buildOrchardNativeProofBytesV1 hash256 (expectedVerifierInput hash256 kind pih)
        bytes := by
  rw [buildOrchardNativeProofBytesV1, appendUint32_ofNat]
  rfl

theorem buildOrchardProofBodyV1_eq (mode : UInt8) (bytes : Bytes) :
    buildOrchardProofBodyV1 mode bytes = buildOrchardProofBodyWithModeV1 mode bytes := by
  rw [buildOrchardProofBodyV1, appendUint32_ofNat]
  rfl

theorem buildOrchardRealProofBodyV1_eq (bytes : Bytes) :
    buildOrchardRealProofBodyV1 hash256 kind pih bytes =
      buildOrchardRealProofBodyWithContextV1 hash256 kind pih bytes := by
  rw [buildOrchardRealProofBodyV1, buildOrchardProofBodyV1_eq, buildOrchardRealProofV1_eq]
  rfl

theorem buildOrchardProofPayloadV1_eq (body : Bytes) :
    buildOrchardProofPayloadV1 kind pih body = buildOrchardProofPayloadWithBodyV1 kind pih body := by
  rw [buildOrchardProofPayloadV1, appendUint32_ofNat]
  rfl

theorem buildProofBundleV4_eq (payload : Bytes) :
    buildProofBundleV4 kind pih payload = buildProofBundleWithPayloadV4 kind pih payload := by
  rw [buildProofBundleV4, appendUint32_ofNat]
  rfl

theorem buildOrchardProofBodyScaffoldV1_eq : buildOrchardProofBodyScaffoldV1 hash256 kind pih =
    Shielded.buildOrchardProofBodyV1 hash256 kind pih := by
  rw [buildOrchardProofBodyScaffoldV1, buildOrchardProofBodyV1_eq]
  rfl

theorem buildProofBundleScaffoldV4_eq : buildProofBundleScaffoldV4 hash256 kind pih =
    Shielded.buildProofBundleV4 hash256 kind pih := by
  rw [buildProofBundleScaffoldV4, buildProofBundleV4_eq, buildOrchardProofPayloadV1_eq,
    buildOrchardProofBodyScaffoldV1_eq]
  rfl

end

/-! ## each decoder accepts what its builder writes -/

section
variable {hash256 : Bytes → Uint256} {kind : UInt8} {pih : Uint256}

theorem decodeOrchardRealProofV1_eq_some_iff {proof bytes : Bytes} :
    decodeOrchardRealProofV1 hash256 proof kind pih = some bytes ↔
      proof = buildOrchardRealProofV1 hash256 kind pih bytes ∧ bytes.length < 2 ^ 32 := by
  have hstart : orchardRealProofPrefixV1 = Shielded.orchardRealProofPrefixV1 := rfl
  have hflags : shieldedProofBundleFlagsNone = proofBundleFlagsNone := rfl
  rw [buildOrchardRealProofV1_eq, Shielded.buildOrchardRealProofV1_eq,
    frame_iff (requestHeaderV1_length kind pih _)]
  simp only [decodeOrchardRealProofV1, hstart, orchardRealProofPrefixV1_length,
    shieldedPublicInputHashSize, hflags, expectedOrchardRealVerifierKeyHashV1_eq, not_lt,
    Option.bind_eq_bind, Option.bind_eq_some_iff, guard_eq_some_iff, exists_const, Option.some.injEq,
    readUint32_toNat, requestHeaderV1, append_prefix_iff, List.length_append, List.length_singleton,
    Uint256.data_length, singleton_prefix_drop_iff, and_assoc, Nat.reduceAdd]

theorem decodeOrchardNativeProofBytesV1_eq_some_iff {proof bytes : Bytes} :
    decodeOrchardNativeProofBytesV1 hash256 proof kind pih = some bytes ↔
      proof = buildOrchardNativeProofBytesV1 hash256 kind pih bytes ∧ bytes.length < 2 ^ 32 ∧
        bytes ≠ [] := by
  have hstart : orchardRealNativeProofPrefixV1 = Shielded.orchardRealNativeProofPrefixV1 := rfl
  have hflags : shieldedProofBundleFlagsNone = proofBundleFlagsNone := rfl
  have hkey : (expectedVerifierInput hash256 kind pih).verifierKeyHash =
      Shielded.expectedOrchardRealVerifierKeyHashV1 hash256 := rfl
  rw [buildOrchardNativeProofBytesV1_eq, Shielded.buildOrchardNativeProofBytesV1_eq, ← and_assoc,
    frame_iff (nativeHeaderV1_length _ _)]
  simp only [decodeOrchardNativeProofBytesV1, hstart, orchardRealNativeProofPrefixV1_length,
    shieldedPublicInputHashSize, hflags, hkey, expectedOrchardRealVerifierKeyHashV1_eq,
    verifierInputHashV1_eq, not_lt, Option.bind_eq_bind, Option.bind_eq_some_iff, guard_eq_some_iff,
    exists_const, Option.some.injEq, readUint32_toNat, nativeHeaderV1, append_prefix_iff,
    List.length_append, List.length_singleton, Uint256.data_length, singleton_prefix_drop_iff,
    and_assoc, Nat.reduceAdd, not_or, ne_eq, not_not]
  constructor
  · rintro ⟨hroom, hstart, hflags, hvk, hvi, hpos, hlen, rfl⟩
    refine ⟨hroom, hstart, hflags, hvk, hvi, hlen, rfl, ?_⟩
    intro hnil
    rw [List.drop_eq_nil_iff] at hnil
    omega
  · rintro ⟨hroom, hstart, hflags, hvk, hvi, hlen, rfl, hne⟩
    refine ⟨hroom, hstart, hflags, hvk, hvi, ?_, hlen, rfl⟩
    intro hzero
    apply hne
    rw [List.drop_eq_nil_iff]
    omega

/-- payload and body in one pass, against the two decoders of the crate one after the other -/
theorem decodeOrchardProofBodyModeV1_eq_some_iff {payload : Bytes} {mode : UInt8} :
    decodeOrchardProofBodyModeV1 payload kind pih = some mode ↔
      ∃ body, orchardProofPayloadV1 payload kind pih = some body ∧
        orchardProofBodyV1 body = some (mode, payload.drop realProofOffset) := by
  have hpayload : orchardProofPayloadPrefixV1 = Shielded.orchardProofPayloadPrefixV1 := rfl
  have hbody : orchardProofBodyPrefixV1 = Shielded.orchardProofBodyPrefixV1 := rfl
  simp only [decodeOrchardProofBodyModeV1, orchardProofPayloadV1, orchardProofBodyV1, hpayload, hbody,
    orchardProofPayloadPrefixV1_length, orchardProofBodyPrefixV1_length, realProofOffset,
    shieldedPublicInputHashSize, orchardProofPayloadHeaderLenV1, orchardProofBodyHeaderLenV1, hashSize,
    not_lt, Option.bind_eq_bind, Option.bind_eq_some_iff, guard_eq_some_iff, exists_const,
    Option.some.injEq, readUint32_toNat, u32At_toNat, Uint256.data_prefix_drop_iff, Nat.reduceAdd,
    Prod.mk.injEq]
  constructor
  · rintro ⟨hroom, hstart, hkind, hpih, hlen, hroom', hstart', hlen', hmode⟩
    refine ⟨payload.drop 57, ⟨hroom, hstart, hkind, hpih, hlen, rfl⟩, ?_, hstart', mode, ?_, ?_, rfl, ?_⟩
    · rw [List.length_drop]
      omega
    · rw [List.getElem?_drop]
      exact hmode
    · rw [slice, List.drop_drop, List.length_drop, Nat.sub_sub]
      exact hlen'
    · rw [List.drop_drop]
  · rintro ⟨_, ⟨hroom, hstart, hkind, hpih, hlen, rfl⟩, hroom', hstart', m, hmode, hlen', rfl, -⟩
    rw [List.length_drop] at hroom'
    rw [List.getElem?_drop] at hmode
    rw [slice, List.drop_drop, List.length_drop, Nat.sub_sub] at hlen'
    exact ⟨hroom, hstart, hkind, hpih, hlen, by omega, hstart', hlen', hmode⟩

/-! ## all layers -/

theorem decodeProofEnvelope_eq_some_iff_payload {bundle payload : Bytes} :
    decodeProofEnvelope bundle = some (kind, pih, payload) ↔
      proofBundlePayloadV4 bundle kind pih = some payload := by
  rw [decodeProofEnvelope_eq_some_iff, proofBundlePayloadV4_eq_some_iff]

theorem bodyOfPayload_eq (payload : Bytes) (kind : UInt8) (pih : Uint256) :
    (decodeOrchardProofBodyModeV1 payload kind pih).map (·, payload.drop realProofOffset) =
      (orchardProofPayloadV1 payload kind pih).bind orchardProofBodyV1 := by
  ext ⟨mode, bytes⟩
  simp only [Option.map_eq_some_iff, Prod.mk.injEq, Option.bind_eq_some_iff,
    decodeOrchardProofBodyModeV1_eq_some_iff]
  constructor
  · rintro ⟨m, ⟨body, hpayload, hbody⟩, rfl, rfl⟩
    exact ⟨body, hpayload, hbody⟩
  · intro ⟨body, hpayload, hbody⟩
    -- the bytes of a body end the body, and the body ends the payload
    have hbytes : payload.drop realProofOffset = bytes := by
      obtain ⟨rfl, -⟩ := orchardProofPayloadV1_eq_some_iff.mp hpayload
      obtain ⟨rfl, -⟩ := orchardProofBodyV1_eq_some_iff.mp hbody
      rw [buildOrchardProofPayloadWithBodyV1_eq, buildOrchardProofBodyWithModeV1_eq, frame, frame]
      simp only [← List.append_assoc]
      exact List.drop_left' (by simp [realProofOffset, shieldedPublicInputHashSize]; decide)
    rw [hbytes]
    exact ⟨mode, ⟨body, hpayload, hbody⟩, rfl, rfl⟩

theorem bodyOfBundle_eq (bundle : Bytes) (kind : UInt8) (pih : Uint256) :
    bodyOfBundle bundle kind pih = proofBodyOfBundle bundle kind pih := by
  ext found
  simp only [bodyOfBundle, proofBodyOfBundle, Option.bind_eq_bind, Option.bind_eq_some_iff,
    guard_eq_some_iff, exists_const]
  constructor
  · rintro ⟨⟨k, h, payload⟩, henvelope, ⟨rfl, rfl⟩, mode, hmode, hfound⟩
    refine ⟨payload, decodeProofEnvelope_eq_some_iff_payload.mp henvelope, ?_⟩
    rw [← Option.bind_eq_some_iff, ← bodyOfPayload_eq, hmode]
    exact hfound
  · rintro ⟨payload, hbundle, hbody⟩
    rw [← Option.bind_eq_some_iff, ← bodyOfPayload_eq, Option.map_eq_some_iff] at hbody
    obtain ⟨mode, hmode, hfound⟩ := hbody
    exact ⟨(kind, pih, payload), decodeProofEnvelope_eq_some_iff_payload.mpr hbundle, ⟨rfl, rfl⟩,
      mode, hmode, congrArg some hfound⟩

theorem decodeOrchardRealProofV1_eq (proof : Bytes) (kind : UInt8) (pih : Uint256) :
    decodeOrchardRealProofV1 hash256 proof kind pih =
      (decodeOrchardRealProofRequestV1 hash256 proof kind pih).map (·.proofBytes) := by
  ext bytes
  rw [decodeOrchardRealProofV1_eq_some_iff, buildOrchardRealProofV1_eq]
  simp only [Option.map_eq_some_iff, decodeOrchardRealProofRequestV1_eq_some_iff]
  constructor
  · intro ⟨hproof, hlen⟩
    exact ⟨⟨kind, pih, _, bytes⟩, ⟨hproof, hlen, rfl⟩, rfl⟩
  · rintro ⟨request, ⟨hproof, hlen, -⟩, rfl⟩
    exact ⟨hproof, hlen⟩

theorem decodeOrchardNativeProofBytesV1_eq (bytes : Bytes) (kind : UInt8) (pih : Uint256) :
    decodeOrchardNativeProofBytesV1 hash256 bytes kind pih =
      (Shielded.decodeOrchardNativeProofBytesV1 hash256
        ⟨kind, pih, Shielded.expectedOrchardRealVerifierKeyHashV1 hash256, bytes⟩).map
          (·.proofBytes) := by
  ext native
  rw [decodeOrchardNativeProofBytesV1_eq_some_iff, buildOrchardNativeProofBytesV1_eq]
  simp only [Option.map_eq_some_iff, Shielded.decodeOrchardNativeProofBytesV1_eq_some_iff]
  constructor
  · intro ⟨hbytes, hlen, hne⟩
    exact ⟨⟨_, _, native⟩, ⟨hbytes, hlen, hne, rfl⟩, rfl⟩
  · rintro ⟨proof, ⟨hbytes, hlen, hne, -⟩, rfl⟩
    exact ⟨hbytes, hlen, hne⟩

theorem realProofOfBundle_eq (bundle : Bytes) (kind : UInt8) (pih : Uint256) :
    realProofOfBundle hash256 bundle kind pih =
      (realRequestOfBundle hash256 bundle kind pih).map (·.proofBytes) := by
  have hreal : shieldedOrchardProofBodyModeReal = orchardProofBodyModeReal := rfl
  simp only [realProofOfBundle, bodyOfBundle_eq, realRequestOfBundle_eq, hreal,
    decodeOrchardRealProofV1_eq, Option.bind_eq_bind, Option.map_bind, Function.comp_def]

def realPayload (hash256 : Bytes → Uint256) (kind : UInt8) (pih : Uint256) (bytes : Bytes) : Bytes :=
  buildOrchardProofPayloadV1 kind pih (buildOrchardRealProofBodyV1 hash256 kind pih bytes)

theorem realPayload_eq (hash256 : Bytes → Uint256) (kind : UInt8) (pih : Uint256) (bytes : Bytes) :
    realPayload hash256 kind pih bytes = Shielded.realPayload hash256 kind pih bytes := by
  rw [realPayload, buildOrchardProofPayloadV1_eq, buildOrchardRealProofBodyV1_eq]
  rfl

theorem bodyOfBundle_eq_some_iff {bundle : Bytes} {mode : UInt8} {bytes : Bytes} :
    bodyOfBundle bundle kind pih = some (mode, bytes) ↔
      bundle = buildProofBundleV4 kind pih
          (buildOrchardProofPayloadV1 kind pih (buildOrchardProofBodyV1 mode bytes)) ∧
        (buildOrchardProofPayloadV1 kind pih (buildOrchardProofBodyV1 mode bytes)).length < 2 ^ 32 := by
  rw [bodyOfBundle_eq, buildProofBundleV4_eq, buildOrchardProofPayloadV1_eq, buildOrchardProofBodyV1_eq]
  exact proofBodyOfBundle_eq_some_iff

theorem realProofOfBundle_eq_some_iff {bundle bytes : Bytes} :
    realProofOfBundle hash256 bundle kind pih = some bytes ↔
      bundle = buildProofBundleV4 kind pih (realPayload hash256 kind pih bytes) ∧
        (realPayload hash256 kind pih bytes).length < 2 ^ 32 := by
  rw [realProofOfBundle_eq, buildProofBundleV4_eq, realPayload_eq]
  simp only [Option.map_eq_some_iff, realRequestOfBundle_eq_some_iff]
  constructor
  · rintro ⟨request, ⟨hbundle, hlen, -⟩, rfl⟩
    exact ⟨hbundle, hlen⟩
  · intro ⟨hbundle, hlen⟩
    exact ⟨⟨kind, pih, _, bytes⟩, ⟨hbundle, hlen, rfl⟩, rfl⟩

theorem nativeProofOfBundle_eq_some_iff {bundle native : Bytes} :
    nativeProofOfBundle hash256 bundle kind pih = some native ↔
      bundle = buildProofBundleV4 kind pih
          (realPayload hash256 kind pih (buildOrchardNativeProofBytesV1 hash256 kind pih native)) ∧
        (realPayload hash256 kind pih
          (buildOrchardNativeProofBytesV1 hash256 kind pih native)).length < 2 ^ 32 ∧ native ≠ [] := by
  simp only [nativeProofOfBundle, Option.bind_eq_bind, Option.bind_eq_some_iff,
    realProofOfBundle_eq_some_iff, decodeOrchardNativeProofBytesV1_eq_some_iff]
  constructor
  · rintro ⟨bytes, ⟨hbundle, hlen⟩, rfl, -, hne⟩
    exact ⟨hbundle, hlen, hne⟩
  · intro ⟨hbundle, hlen, hne⟩
    refine ⟨_, ⟨hbundle, hlen⟩, rfl, ?_, hne⟩
    rw [realPayload_eq, length_realPayload, buildOrchardNativeProofBytesV1_eq,
      Shielded.buildOrchardNativeProofBytesV1_eq, length_frame] at hlen
    omega

end

end Shielded.Cpp

namespace Shielded

/-- the native proof inside a bundle, through the decoders of the crate -/
def nativeProofOfBundle (hash256 : Bytes → Uint256) (bundle : Bytes) (kind : UInt8) (pih : Uint256) :
    Option OrchardNativeProof := do
  let request ← realRequestOfBundle hash256 bundle kind pih
  decodeOrchardNativeProofBytesV1 hash256 request

theorem nativeProofOfBundle_eq_some_iff {hash256 : Bytes → Uint256} {bundle : Bytes} {kind : UInt8}
    {pih : Uint256} {native : OrchardNativeProof} :
    nativeProofOfBundle hash256 bundle kind pih = some native ↔
      bundle = buildProofBundleWithPayloadV4 kind pih (realPayload hash256 kind pih
          (buildOrchardNativeProofBytesV1 hash256 (Cpp.expectedVerifierInput hash256 kind pih)
            native.proofBytes)) ∧
        (realPayload hash256 kind pih
          (buildOrchardNativeProofBytesV1 hash256 (Cpp.expectedVerifierInput hash256 kind pih)
            native.proofBytes)).length < 2 ^ 32 ∧
        native.proofBytes ≠ [] ∧
        native = ⟨expectedOrchardRealVerifierKeyHashV1 hash256,
          (Cpp.expectedVerifierInput hash256 kind pih).inputHashV1 hash256, native.proofBytes⟩ := by
  simp only [nativeProofOfBundle, Option.bind_eq_bind, Option.bind_eq_some_iff,
    realRequestOfBundle_eq_some_iff, decodeOrchardNativeProofBytesV1_eq_some_iff]
  constructor
  · rintro ⟨⟨k, h, vk, bytes⟩, ⟨hbundle, hlen, hrequest⟩, hbytes, -, hne, hnative⟩
    simp only [OrchardRealProofRequest.mk.injEq, and_true] at hrequest hbytes hbundle hlen
    obtain ⟨rfl, rfl, rfl⟩ := hrequest
    have hbuilt : bytes = buildOrchardNativeProofBytesV1 hash256
        (Cpp.expectedVerifierInput hash256 k h) native.proofBytes := hbytes
    rw [hbuilt] at hbundle hlen
    exact ⟨hbundle, hlen, hne, hnative⟩
  · intro ⟨hbundle, hlen, hne, hnative⟩
    refine ⟨⟨kind, pih, _, _⟩, ⟨hbundle, hlen, rfl⟩, rfl, ?_, hne, hnative⟩
    rw [length_realPayload, buildOrchardNativeProofBytesV1_eq, length_frame] at hlen
    omega

/-- **The nested codec.**  Through every layer a decoder finds exactly the values a builder was given,
and nothing that no builder wrote decodes; the length bound is that of the payload, the longest of the
length fields.  Node and crate write the same bytes. -/
theorem nested_codec (hash256 : Bytes → Uint256) (kind : UInt8) (pih : Uint256) :
    -- the node: body of any mode, real proof, native proof
    ((∀ bundle mode bytes, Cpp.bodyOfBundle bundle kind pih = some (mode, bytes) ↔
        bundle = Cpp.buildProofBundleV4 kind pih (Cpp.buildOrchardProofPayloadV1 kind pih
          (Cpp.buildOrchardProofBodyV1 mode bytes)) ∧
        (Cpp.buildOrchardProofPayloadV1 kind pih
          (Cpp.buildOrchardProofBodyV1 mode bytes)).length < 2 ^ 32) ∧
      (∀ bundle bytes, Cpp.realProofOfBundle hash256 bundle kind pih = some bytes ↔
        bundle = Cpp.buildProofBundleV4 kind pih (Cpp.realPayload hash256 kind pih bytes) ∧
        (Cpp.realPayload hash256 kind pih bytes).length < 2 ^ 32) ∧
      (∀ bundle native, Cpp.nativeProofOfBundle hash256 bundle kind pih = some native ↔
        bundle = Cpp.buildProofBundleV4 kind pih (Cpp.realPayload hash256 kind pih
          (Cpp.buildOrchardNativeProofBytesV1 hash256 kind pih native)) ∧
        (Cpp.realPayload hash256 kind pih
          (Cpp.buildOrchardNativeProofBytesV1 hash256 kind pih native)).length < 2 ^ 32 ∧
        native ≠ [])) ∧
    -- the crate
    ((∀ bundle mode bytes, proofBodyOfBundle bundle kind pih = some (mode, bytes) ↔
        bundle = buildProofBundleWithPayloadV4 kind pih (buildOrchardProofPayloadWithBodyV1 kind pih
          (buildOrchardProofBodyWithModeV1 mode bytes)) ∧
        (buildOrchardProofPayloadWithBodyV1 kind pih
          (buildOrchardProofBodyWithModeV1 mode bytes)).length < 2 ^ 32) ∧
      (∀ bundle request, realRequestOfBundle hash256 bundle kind pih = some request ↔
        bundle = buildProofBundleWithPayloadV4 kind pih
          (realPayload hash256 kind pih request.proofBytes) ∧
        (realPayload hash256 kind pih request.proofBytes).length < 2 ^ 32 ∧
        request = ⟨kind, pih, expectedOrchardRealVerifierKeyHashV1 hash256, request.proofBytes⟩) ∧
      (∀ bundle native, nativeProofOfBundle hash256 bundle kind pih = some native ↔
        bundle = buildProofBundleWithPayloadV4 kind pih (realPayload hash256 kind pih
          (buildOrchardNativeProofBytesV1 hash256 (Cpp.expectedVerifierInput hash256 kind pih)
            native.proofBytes)) ∧
        (realPayload hash256 kind pih
          (buildOrchardNativeProofBytesV1 hash256 (Cpp.expectedVerifierInput hash256 kind pih)
            native.proofBytes)).length < 2 ^ 32 ∧
        native.proofBytes ≠ [] ∧
        native = ⟨expectedOrchardRealVerifierKeyHashV1 hash256,
          (Cpp.expectedVerifierInput hash256 kind pih).inputHashV1 hash256, native.proofBytes⟩)) ∧
    -- the builders write the same bytes
    (∀ bytes, Cpp.buildOrchardNativeProofBytesV1 hash256 kind pih bytes =
      buildOrchardNativeProofBytesV1 hash256 (Cpp.expectedVerifierInput hash256 kind pih) bytes) ∧
    (∀ bytes, Cpp.buildOrchardRealProofV1 hash256 kind pih bytes =
      buildOrchardRealProofV1 hash256 kind pih bytes) ∧
    (∀ mode bytes, Cpp.buildOrchardProofBodyV1 mode bytes =
      buildOrchardProofBodyWithModeV1 mode bytes) ∧
    (∀ bytes, Cpp.buildOrchardRealProofBodyV1 hash256 kind pih bytes =
      buildOrchardRealProofBodyWithContextV1 hash256 kind pih bytes) ∧
    (∀ body, Cpp.buildOrchardProofPayloadV1 kind pih body =
      buildOrchardProofPayloadWithBodyV1 kind pih body) ∧
    (∀ payload, Cpp.buildProofBundleV4 kind pih payload =
      buildProofBundleWithPayloadV4 kind pih payload) := by
  refine ⟨⟨?_, ?_, ?_⟩, ⟨?_, ?_, ?_⟩, ?_, ?_, ?_, ?_, ?_, ?_⟩
  · exact fun _ _ _ => Cpp.bodyOfBundle_eq_some_iff
  · exact fun _ _ => Cpp.realProofOfBundle_eq_some_iff
  · exact fun _ _ => Cpp.nativeProofOfBundle_eq_some_iff
  · exact fun _ _ _ => proofBodyOfBundle_eq_some_iff
  · exact fun _ _ => realRequestOfBundle_eq_some_iff
  · exact fun _ _ => nativeProofOfBundle_eq_some_iff
  · exact Cpp.buildOrchardNativeProofBytesV1_eq hash256 kind pih
  · exact Cpp.buildOrchardRealProofV1_eq hash256 kind pih
  · exact Cpp.buildOrchardProofBodyV1_eq
  · exact Cpp.buildOrchardRealProofBodyV1_eq hash256 kind pih
  · exact Cpp.buildOrchardProofPayloadV1_eq kind pih
  · exact Cpp.buildProofBundleV4_eq kind pih

/-- a bundle around three proof bytes decodes in both languages -/
example : Cpp.realProofOfBundle Uint256.polyHash (Cpp.buildProofBundleV4 1 (.ofNat 9)
    (Cpp.realPayload Uint256.polyHash 1 (.ofNat 9) [1, 2, 3])) 1 (.ofNat 9) = some [1, 2, 3] := by
  decide +kernel

end Shielded
