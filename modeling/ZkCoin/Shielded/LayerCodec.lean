import ZkCoin.Shielded.Envelope
import ZkCoin.Shielded.RealProofCodec

/-!
# The layers of a proof envelope

Bundle, payload, body, request and native bytes are frames inside each other: a header with the kind
and the public input, a length, the next layer.  Each decoder accepts exactly what its builder writes,
for contents shorter than `2 ^ 32`.

* `bundleHeaderV4`, `payloadHeaderV1`, … — the headers.
* `proofBundlePayloadV4_eq_some_iff`, `decodeOrchardRealProofRequestV1_eq_some_iff`, … — one
  equivalence per layer.
-/

open Bytes

namespace Shielded

/-! ## headers -/

@[simp] theorem proofBundlePrefixV4_length : proofBundlePrefixV4.length = 6 := by decide

@[simp] theorem orchardProofPayloadPrefixV1_length : orchardProofPayloadPrefixV1.length = 20 := by
  decide

@[simp] theorem orchardProofBodyPrefixV1_length : orchardProofBodyPrefixV1.length = 19 := by decide

def bundleHeaderV4 (kind : UInt8) (pih : Uint256) : Bytes :=
  proofBundlePrefixV4 ++ [proofBundleVersionV4] ++ [kind] ++ [proofSystemOrchard] ++
    [proofBundleFlagsNone] ++ pih.data

def payloadHeaderV1 (kind : UInt8) (pih : Uint256) : Bytes :=
  orchardProofPayloadPrefixV1 ++ [kind] ++ pih.data

def bodyHeaderV1 (mode : UInt8) : Bytes := orchardProofBodyPrefixV1 ++ [mode]

@[simp] theorem bundleHeaderV4_length (kind : UInt8) (pih : Uint256) :
    (bundleHeaderV4 kind pih).length = 42 := by
  simp [bundleHeaderV4]

@[simp] theorem payloadHeaderV1_length (kind : UInt8) (pih : Uint256) :
    (payloadHeaderV1 kind pih).length = 53 := by
  simp [payloadHeaderV1]

@[simp] theorem bodyHeaderV1_length (mode : UInt8) : (bodyHeaderV1 mode).length = 20 := by
  simp [bodyHeaderV1]

/-! ## builders -/

theorem buildProofBundleWithPayloadV4_eq (kind : UInt8) (pih : Uint256) (payload : Bytes) :
    buildProofBundleWithPayloadV4 kind pih payload = frame (bundleHeaderV4 kind pih) payload := by
  simp only [buildProofBundleWithPayloadV4, frame, bundleHeaderV4, List.append_assoc]

theorem buildOrchardProofPayloadWithBodyV1_eq (kind : UInt8) (pih : Uint256) (body : Bytes) :
    buildOrchardProofPayloadWithBodyV1 kind pih body = frame (payloadHeaderV1 kind pih) body := by
  simp only [buildOrchardProofPayloadWithBodyV1, frame, payloadHeaderV1, List.append_assoc]

theorem buildOrchardProofBodyWithModeV1_eq (mode : UInt8) (bytes : Bytes) :
    buildOrchardProofBodyWithModeV1 mode bytes = frame (bodyHeaderV1 mode) bytes := by
  simp only [buildOrchardProofBodyWithModeV1, frame, bodyHeaderV1, List.append_assoc]

/-! ## decoders -/

variable {kind : UInt8} {pih : Uint256} {payload : Bytes}

theorem proofBundlePayloadV4_eq_some_iff {bundle : Bytes} :
    proofBundlePayloadV4 bundle kind pih = some payload ↔
      bundle = buildProofBundleWithPayloadV4 kind pih payload ∧ payload.length < 2 ^ 32 := by
  rw [buildProofBundleWithPayloadV4_eq, frame_iff (bundleHeaderV4_length kind pih)]
  simp only [proofBundlePayloadV4, Option.bind_eq_bind, Option.bind_eq_some_iff, guard_eq_some_iff,
    exists_const, Option.some.injEq]
  simp only [proofBundleHeaderLenV4, hashSize, proofBundlePrefixV4_length, u32At_toNat,
    bundleHeaderV4, append_prefix_iff, List.length_append, List.length_singleton,
    singleton_prefix_drop_iff, Uint256.data_prefix_drop_iff, and_assoc, Nat.reduceAdd]

theorem decodeProofEnvelope_eq_some_iff {item : Bytes} :
    decodeProofEnvelope item = some (kind, pih, payload) ↔
      item = buildProofBundleWithPayloadV4 kind pih payload ∧ payload.length < 2 ^ 32 := by
  have hstart : proofEnvelopePrefix = proofBundlePrefixV4 := rfl
  rw [buildProofBundleWithPayloadV4_eq, frame_iff (bundleHeaderV4_length kind pih)]
  simp only [decodeProofEnvelope, hasProofEnvelopePrefix, hstart, decide_eq_true_eq, not_lt,
    proofBundlePrefixV4_length,
    Option.bind_eq_bind, Option.bind_eq_some_iff, guard_eq_some_iff, exists_const, Option.some.injEq,
    u32At_toNat, bundleHeaderV4, append_prefix_iff, List.length_append, List.length_singleton,
    singleton_prefix_drop_iff, Uint256.data_prefix_drop_iff, and_assoc, Nat.reduceAdd, Prod.mk.injEq]
  constructor
  · rintro ⟨hstart, hroom, hversion, hsystem, hflags, hlen, k, hkind, p, hpih, rfl, rfl, hdrop⟩
    exact ⟨hroom, hstart, hversion, hkind, hsystem, hflags, hpih, hlen, hdrop⟩
  · rintro ⟨hroom, hstart, hversion, hkind, hsystem, hflags, hpih, hlen, hdrop⟩
    exact ⟨hstart, hroom, hversion, hsystem, hflags, hlen, kind, hkind, pih, hpih, rfl, rfl, hdrop⟩

theorem decodeProofEnvelope_payload {item : Bytes}
    (h : decodeProofEnvelope item = some (kind, pih, payload)) : payload = item.drop 46 := by
  obtain ⟨hitem, hlen⟩ := decodeProofEnvelope_eq_some_iff.mp h
  rw [buildProofBundleWithPayloadV4_eq] at hitem
  obtain ⟨-, -, -, hdrop⟩ := (frame_iff (bundleHeaderV4_length kind pih)).mp ⟨hitem, hlen⟩
  exact hdrop.symm

theorem decodeProofEnvelope_of_isPrefix {item item' : Bytes} (hstart : item <+: item')
    (h : (decodeProofEnvelope item).isSome = true) (h' : (decodeProofEnvelope item').isSome = true) :
    item = item' := by
  obtain ⟨⟨kind, pih, payload⟩, hdecode⟩ := Option.isSome_iff_exists.mp h
  obtain ⟨⟨kind', pih', payload'⟩, hdecode'⟩ := Option.isSome_iff_exists.mp h'
  obtain ⟨rfl, hlen⟩ := decodeProofEnvelope_eq_some_iff.mp hdecode
  obtain ⟨rfl, hlen'⟩ := decodeProofEnvelope_eq_some_iff.mp hdecode'
  rw [buildProofBundleWithPayloadV4_eq, buildProofBundleWithPayloadV4_eq] at hstart ⊢
  exact frame_prefix (by simp) hlen hlen' hstart

theorem orchardProofPayloadV1_eq_some_iff {body : Bytes} :
    orchardProofPayloadV1 payload kind pih = some body ↔
      payload = buildOrchardProofPayloadWithBodyV1 kind pih body ∧ body.length < 2 ^ 32 := by
  rw [buildOrchardProofPayloadWithBodyV1_eq, frame_iff (payloadHeaderV1_length kind pih)]
  simp only [orchardProofPayloadV1, orchardProofPayloadHeaderLenV1, hashSize,
    orchardProofPayloadPrefixV1_length, Option.bind_eq_bind, Option.bind_eq_some_iff, guard_eq_some_iff,
    exists_const, Option.some.injEq, u32At_toNat, payloadHeaderV1, append_prefix_iff,
    List.length_append, List.length_singleton, singleton_prefix_drop_iff,
    Uint256.data_prefix_drop_iff, and_assoc, Nat.reduceAdd]

theorem orchardProofBodyV1_eq_some_iff {body : Bytes} {mode : UInt8} {bytes : Bytes} :
    orchardProofBodyV1 body = some (mode, bytes) ↔
      body = buildOrchardProofBodyWithModeV1 mode bytes ∧ bytes.length < 2 ^ 32 := by
  rw [buildOrchardProofBodyWithModeV1_eq, frame_iff (bodyHeaderV1_length mode)]
  simp only [orchardProofBodyV1, orchardProofBodyHeaderLenV1, orchardProofBodyPrefixV1_length,
    Option.bind_eq_bind, Option.bind_eq_some_iff, guard_eq_some_iff, exists_const, Option.some.injEq,
    u32At_toNat, bodyHeaderV1, append_prefix_iff, singleton_prefix_drop_iff, and_assoc, Nat.reduceAdd,
    Prod.mk.injEq]
  constructor
  · rintro ⟨hroom, hstart, m, hmode, hlen, rfl, hdrop⟩
    exact ⟨hroom, hstart, hmode, hlen, hdrop⟩
  · rintro ⟨hroom, hstart, hmode, hlen, hdrop⟩
    exact ⟨hroom, hstart, mode, hmode, hlen, rfl, hdrop⟩

/-- mode and bytes of the body inside a bundle, through the decoders of the three outer layers -/
def proofBodyOfBundle (bundle : Bytes) (kind : UInt8) (pih : Uint256) : Option (UInt8 × Bytes) := do
  let payload ← proofBundlePayloadV4 bundle kind pih
  let body ← orchardProofPayloadV1 payload kind pih
  orchardProofBodyV1 body

/-- **The outer layers.**  The longest of the three length fields is the one of the payload. -/
theorem proofBodyOfBundle_eq_some_iff {bundle : Bytes} {mode : UInt8} {bytes : Bytes} :
    proofBodyOfBundle bundle kind pih = some (mode, bytes) ↔
      bundle = buildProofBundleWithPayloadV4 kind pih (buildOrchardProofPayloadWithBodyV1 kind pih
          (buildOrchardProofBodyWithModeV1 mode bytes)) ∧
        (buildOrchardProofPayloadWithBodyV1 kind pih
          (buildOrchardProofBodyWithModeV1 mode bytes)).length < 2 ^ 32 := by
  simp only [proofBodyOfBundle, Option.bind_eq_bind, Option.bind_eq_some_iff,
    proofBundlePayloadV4_eq_some_iff, orchardProofPayloadV1_eq_some_iff, orchardProofBodyV1_eq_some_iff]
  constructor
  · rintro ⟨payload, ⟨hbundle, hlen⟩, body, ⟨rfl, -⟩, rfl, -⟩
    exact ⟨hbundle, hlen⟩
  · rintro ⟨hbundle, hlen⟩
    refine ⟨_, ⟨hbundle, hlen⟩, _, ⟨rfl, ?_⟩, rfl, ?_⟩
    · rw [buildOrchardProofPayloadWithBodyV1_eq, length_frame] at hlen
      omega
    · rw [buildOrchardProofPayloadWithBodyV1_eq, buildOrchardProofBodyWithModeV1_eq, length_frame,
        length_frame] at hlen
      omega

section
variable {hash256 : Bytes → Uint256}

def realPayload (hash256 : Bytes → Uint256) (kind : UInt8) (pih : Uint256) (bytes : Bytes) : Bytes :=
  buildOrchardProofPayloadWithBodyV1 kind pih
    (buildOrchardRealProofBodyWithContextV1 hash256 kind pih bytes)

theorem length_realPayload (kind : UInt8) (pih : Uint256) (bytes : Bytes) :
    (realPayload hash256 kind pih bytes).length = bytes.length + 170 := by
  rw [realPayload, buildOrchardRealProofBodyWithContextV1, buildOrchardProofPayloadWithBodyV1_eq,
    buildOrchardProofBodyWithModeV1_eq, buildOrchardRealProofV1_eq, length_frame, length_frame,
    length_frame, payloadHeaderV1_length, bodyHeaderV1_length, requestHeaderV1_length]
  omega

theorem realRequestOfBundle_eq (bundle : Bytes) (kind : UInt8) (pih : Uint256) :
    realRequestOfBundle hash256 bundle kind pih = (do
      let (mode, body) ← proofBodyOfBundle bundle kind pih
      guard (mode = orchardProofBodyModeReal)
      decodeOrchardRealProofRequestV1 hash256 body kind pih) := by
  simp only [realRequestOfBundle, proofBodyOfBundle, Option.bind_eq_bind, Option.bind_assoc]

/-- **The request inside a bundle**, through four layers -/
theorem realRequestOfBundle_eq_some_iff {bundle : Bytes} {kind : UInt8} {pih : Uint256}
    {request : OrchardRealProofRequest} :
    realRequestOfBundle hash256 bundle kind pih = some request ↔
      bundle = buildProofBundleWithPayloadV4 kind pih
          (realPayload hash256 kind pih request.proofBytes) ∧
        (realPayload hash256 kind pih request.proofBytes).length < 2 ^ 32 ∧
        request = ⟨kind, pih, expectedOrchardRealVerifierKeyHashV1 hash256, request.proofBytes⟩ := by
  simp only [realRequestOfBundle_eq, Option.bind_eq_bind, Option.bind_eq_some_iff, guard_eq_some_iff,
    exists_const, decodeOrchardRealProofRequestV1_eq_some_iff]
  constructor
  · rintro ⟨⟨mode, bytes⟩, hbody, rfl, rfl, -, hrequest⟩
    obtain ⟨hbundle, hlen⟩ := proofBodyOfBundle_eq_some_iff.mp hbody
    exact ⟨hbundle, hlen, hrequest⟩
  · rintro ⟨hbundle, hlen, hrequest⟩
    have hbytes : (realPayload hash256 kind pih request.proofBytes).length = _ :=
      length_realPayload kind pih request.proofBytes
    exact ⟨_, proofBodyOfBundle_eq_some_iff.mpr ⟨hbundle, hlen⟩, rfl, rfl, by omega, hrequest⟩

end

end Shielded
