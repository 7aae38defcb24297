import ZkCoin.Shielded.VerifierAbi

/-!
# The fallback and the crate agree

A node built without the verifier crate answers every call as a node linked with it, and the three
versions of the bundle check tell the same story.  Both follow from one normal form: past its pointer
tests every export is a function of the body that all decoders find in a bundle.

* `withInputs_cases`       — the pointer tests fail, or there are bytes and a hash.
* `Cpp.…_eq`               — one equation per exported function.
* `fallback_eq_crate`      — all of them.
* `checkProofBundle_eq`    — the crate's check as a function of mode and bytes of the body.
* `bundle_check_versions`  — versions four, five and six.
-/

open Bytes

namespace Shielded

/-! ## outputs and inputs -/

namespace Buffer

@[simp] theorem bytes_isNull (data : Bytes) : (bytes data).isNull = false := rfl

@[simp] theorem bytes_data (data : Bytes) : (bytes data).data = data := rfl

@[simp] theorem null_isNull (n : Nat) : (null n).isNull = true := rfl

def ofHash (h : Uint256) : Buffer := .bytes h.data

variable (h : Uint256)

@[simp] theorem ofHash_isNull : (ofHash h).isNull = false := rfl

@[simp] theorem ofHash_data : (ofHash h).data = h.data := rfl

@[simp] theorem ofHash_len : (ofHash h).len = 32 := h.data_length

@[simp] theorem ofHash_isHashOut : (ofHash h).isHashOut = true := by
  simp [isHashOut, hashSize]

@[simp] theorem ofHash_fill : (ofHash h).fill = ofHash .null := by
  simp [ofHash, fill, Uint256.null]

@[simp] theorem ofHash_writeZeros : (ofHash h).writeZeros = ofHash .null := by
  simp [ofHash, writeZeros, hashSize, Uint256.null]

@[simp] theorem ofHash_copy (h' : Uint256) : (ofHash h).copy h' = ofHash h' := by
  simp [ofHash, copy]

@[simp] theorem ofHash_copySome (o : Option Uint256) :
    (ofHash h).copySome o = ofHash (o.getD h) := by
  cases o <;> simp [copySome]

theorem exists_ofHash {b : Buffer} (hnull : b.isNull = false) (hlen : b.len = 32) :
    ∃ h, b = ofHash h := by
  cases b with
  | null n => simp [isNull] at hnull
  | bytes data => exact ⟨⟨data, hlen⟩, rfl⟩

theorem isHashOut_iff {b : Buffer} : b.isHashOut = true ↔ ∃ h, b = ofHash h := by
  constructor
  · intro hout
    have hboth : b.isNull = false ∧ b.len = hashSize := by simpa [isHashOut] using hout
    exact exists_ofHash hboth.1 hboth.2
  · intro ⟨h, hb⟩
    rw [hb, ofHash_isHashOut]

theorem hashOut_of_good {c : Bool} {out : Buffer} (hgood : ¬ (c || !out.isHashOut) = true) :
    ¬ c = true ∧ ∃ h, out = ofHash h := by
  simpa [isHashOut_iff] using hgood

end Buffer

open Buffer

@[simp] theorem readHash_ofHash (h : Uint256) : readHash (ofHash h) = some h := by
  have hread := Uint256.readAt_append_self h []
  rw [List.append_nil] at hread
  simp [readHash, hashSize, hread]

theorem readHash_eq_none {b : Buffer} (hb : ∀ h, b ≠ ofHash h) : readHash b = none := by
  rw [readHash, if_pos]
  by_contra hout
  simp only [Bool.or_eq_true, decide_eq_true_eq, not_or, Bool.not_eq_true, ne_eq, not_not] at hout
  obtain ⟨h, rfl⟩ := exists_ofHash hout.1 hout.2
  exact hb h rfl

@[simp] theorem withInputs_bytes {α : Type} (input : Bytes) (h : Uint256) (failed : α)
    (f : Bytes → Uint256 → α) : withInputs (.bytes input) (ofHash h) failed f = f input h := by
  simp [withInputs, Buffer.isNull, Buffer.data]

theorem withInputs_cases (input pih : Buffer) :
    (∀ {α : Type} (failed : α) (f : Bytes → Uint256 → α), withInputs input pih failed f = failed) ∨
      ∃ bytes h, input = .bytes bytes ∧ pih = ofHash h := by
  cases input with
  | null n => exact .inl fun failed f => by simp [withInputs, Buffer.isNull]
  | bytes data =>
    by_cases hpih : ∃ h, pih = ofHash h
    · obtain ⟨h, rfl⟩ := hpih
      exact .inr ⟨data, h, rfl, rfl⟩
    · left
      intro α failed f
      rw [withInputs, readHash_eq_none (not_exists.mp hpih), if_neg (by simp [Buffer.isNull])]

@[simp] theorem hashResult_ofHash_snd (h : Uint256) (o : Option Uint256) :
    (hashResult (ofHash h) o).2 = ofHash (o.getD h) := by
  cases o <;> simp [hashResult]

namespace Cpp

theorem withInputs_eq {α : Type} (input pih : Buffer) (failed : α) (f : Bytes → Uint256 → α) :
    withInputs input pih failed f = Shielded.withInputs input pih failed f := by
  cases input with
  | null n => simp [withInputs, Shielded.withInputs]
  | bytes data =>
    by_cases hpih : ∃ h, pih = ofHash h
    · obtain ⟨h, rfl⟩ := hpih
      have hof : uint256Of h.data = h := by simp [uint256Of]
      simp [withInputs, shieldedPublicInputHashSize, hof]
    · rw [Shielded.withInputs, readHash_eq_none (not_exists.mp hpih), if_neg (by simp), withInputs]
      split_ifs with hnull hlen
      · rfl
      · rfl
      · simp only [bytes_isNull, Bool.false_or, Bool.not_eq_true, ne_eq, not_not] at hnull hlen
        exact absurd (exists_ofHash hnull hlen) hpih

/-! ## the hashes of a proof -/

variable {hash256 : Bytes → Uint256}

section
variable (proof : Buffer) (kind : UInt8) (pih : Buffer) (h : Uint256)

theorem requestHash_ofHash :
    Shielded.zkcShieldedOrchardRealProofRequestHashV1 hash256 proof kind pih (ofHash h) =
      Shielded.withInputs proof pih (0, ofHash h) fun proof pih =>
        hashResult (ofHash h) (orchardRealProofRequestHashV1 hash256 proof kind pih) := by
  rw [Shielded.zkcShieldedOrchardRealProofRequestHashV1, Shielded.withInputs]
  simp

theorem verifierInputHash_ofHash :
    Shielded.zkcShieldedOrchardRealVerifierInputHashV1 hash256 proof kind pih (ofHash h) =
      Shielded.withInputs proof pih (0, ofHash .null) fun proof pih =>
        hashResult (ofHash .null) (orchardRealVerifierInputHashV1 hash256 proof kind pih) := by
  simp [Shielded.zkcShieldedOrchardRealVerifierInputHashV1]

theorem nativeProofHash_ofHash :
    Shielded.zkcShieldedOrchardRealNativeProofHashV1 hash256 proof kind pih (ofHash h) =
      Shielded.withInputs proof pih (0, ofHash .null) fun proof pih =>
        hashResult (ofHash .null) (orchardRealNativeProofHashV1 hash256 proof kind pih) := by
  simp [Shielded.zkcShieldedOrchardRealNativeProofHashV1]

end

variable {kind : UInt8} {pih : Uint256}

theorem request_eq {proof : Bytes} {request : OrchardRealProofRequest}
    (h : decodeOrchardRealProofRequestV1 hash256 proof kind pih = some request) :
    request = ⟨kind, pih, Shielded.expectedOrchardRealVerifierKeyHashV1 hash256,
      request.proofBytes⟩ :=
  (decodeOrchardRealProofRequestV1_eq_some_iff.mp h).2.2

theorem requestHash_eq : zkcShieldedOrchardRealProofRequestHashV1 hash256 =
    Shielded.zkcShieldedOrchardRealProofRequestHashV1 hash256 := by
  funext proof kind pih out
  by_cases hout : out.isHashOut = true
  · obtain ⟨h, rfl⟩ := isHashOut_iff.mp hout
    rw [requestHash_ofHash, ← withInputs_eq, withInputs, zkcShieldedOrchardRealProofRequestHashV1]
    simp only [ofHash_isNull, Bool.or_false, ofHash_len, shieldedProofHashSize, ne_eq,
      not_true_eq_false, if_false]
    refine if_congr Iff.rfl rfl (if_congr Iff.rfl rfl ?_)
    rw [decodeOrchardRealProofV1_eq, orchardRealProofRequestHashV1]
    cases hdecode : decodeOrchardRealProofRequestV1 hash256 proof.data kind (uint256Of pih.data) with
    | none => rfl
    | some request =>
      rw [request_eq hdecode]
      simp only [Option.map_some, hashResult, appendUint32_ofNat]
      rfl
  · have hcrate : Shielded.zkcShieldedOrchardRealProofRequestHashV1 hash256 proof kind pih out =
        (0, out) := by
      simp [Shielded.zkcShieldedOrchardRealProofRequestHashV1, hout]
    rw [hcrate, zkcShieldedOrchardRealProofRequestHashV1]
    split_ifs with hnull hpih hlen
    · rfl
    · rfl
    · rfl
    · simp only [Bool.or_eq_true, not_or, Bool.not_eq_true, ne_eq, not_not] at hnull hlen
      exact absurd (isHashOut_iff.mpr (exists_ofHash hnull.2 hlen)) hout

theorem verifierInputHash_eq : zkcShieldedOrchardRealVerifierInputHashV1 hash256 =
    Shielded.zkcShieldedOrchardRealVerifierInputHashV1 hash256 := by
  funext proof kind pih out
  refine ite_congr rfl (fun _ => rfl) fun hgood => ?_
  obtain ⟨-, h, rfl⟩ := hashOut_of_good (c := false) hgood
  rw [withInputs_eq, ofHash_fill, ofHash_writeZeros]
  congr 1
  funext proof pih
  rw [decodeOrchardRealProofV1_eq, orchardRealVerifierInputHashV1]
  cases hdecode : decodeOrchardRealProofRequestV1 hash256 proof kind pih with
  | none => rfl
  | some request =>
    rw [request_eq hdecode]
    rfl

theorem nativeProofHash_eq : zkcShieldedOrchardRealNativeProofHashV1 hash256 =
    Shielded.zkcShieldedOrchardRealNativeProofHashV1 hash256 := by
  funext proof kind pih out
  refine ite_congr rfl (fun _ => rfl) fun hgood => ?_
  obtain ⟨-, h, rfl⟩ := hashOut_of_good (c := false) hgood
  rw [withInputs_eq, ofHash_fill, ofHash_writeZeros]
  congr 1
  funext proof pih
  rw [decodeOrchardRealProofV1_eq, orchardRealNativeProofHashV1]
  cases hdecode : decodeOrchardRealProofRequestV1 hash256 proof kind pih with
  | none => rfl
  | some request =>
    simp only [Option.map_some, decodeOrchardNativeProofBytesV1_eq, Option.bind_eq_bind,
      Option.bind_some]
    rw [← request_eq hdecode]
    cases hnative : Shielded.decodeOrchardNativeProofBytesV1 hash256 request with
    | none => rfl
    | some native =>
      obtain ⟨-, -, -, hfields⟩ := Shielded.decodeOrchardNativeProofBytesV1_eq_some_iff.mp hnative
      rw [request_eq hdecode] at hfields
      rw [hfields]
      simp only [Option.map_some, hashResult, expectedOrchardNativeProofHashV1, appendUint32_ofNat]
      rfl

/-! ## the checks of a proof -/

theorem realProofStatus_eq : zkcShieldedVerifyOrchardRealProofStatusV1 hash256 =
    Shielded.zkcShieldedVerifyOrchardRealProofStatusV1 hash256 (unsupportedBackend hash256) := by
  funext proof kind pih
  rw [zkcShieldedVerifyOrchardRealProofStatusV1, Shielded.zkcShieldedVerifyOrchardRealProofStatusV1,
    withInputs_eq]
  congr 1
  funext proof pih
  rw [decodeOrchardRealProofV1_eq, orchardRealProofStatusV1, orchardRealProofCheckV1,
    orchardRealProofCheckV2, orchardRealProofCheckWithBackendV3]
  cases hdecode : decodeOrchardRealProofRequestV1 hash256 proof kind pih with
  | none => rfl
  | some request =>
    simp only [Option.map_some, decodeOrchardNativeProofBytesV1_eq]
    rw [← request_eq hdecode, Option.isSome_map]
    simp only [OrchardRealProofCheckV3.into, OrchardRealProofCheckV2.into, unsupportedBackend]
    split <;> rfl

theorem realProof_eq : zkcShieldedVerifyOrchardRealProofV1 hash256 =
    Shielded.zkcShieldedVerifyOrchardRealProofV1 hash256 (unsupportedBackend hash256) := by
  funext proof kind pih
  rw [zkcShieldedVerifyOrchardRealProofV1, realProofStatus_eq,
    Shielded.zkcShieldedVerifyOrchardRealProofStatusV1, Shielded.zkcShieldedVerifyOrchardRealProofV1]
  rcases withInputs_cases proof pih with hfail | ⟨bytes, h, rfl, rfl⟩
  · rw [hfail, hfail]
    rfl
  · simp only [withInputs_bytes]
    cases orchardRealProofStatusV1 hash256 (unsupportedBackend hash256) bytes kind h <;> rfl

/-- the unsupported backend has a verdict, never malformed and never valid -/
theorem unsupportedBackend_verify_ne (request : OrchardRealProofRequest) :
    ((unsupportedBackend hash256).verify request).asFfiCode ≠ shieldedOrchardRealProofStatusMalformed ∧
      (unsupportedBackend hash256).verify request ≠ .valid := by
  rw [unsupportedBackend]
  dsimp only
  split <;> decide

theorem proofCheckV1_eq : zkcShieldedOrchardRealProofCheckV1 hash256 =
    Shielded.zkcShieldedOrchardRealProofCheckV1 hash256 (unsupportedBackend hash256) := by
  funext proof kind pih out
  refine ite_congr rfl (fun _ => rfl) fun hgood => ?_
  obtain ⟨-, h, rfl⟩ := hashOut_of_good (c := false) hgood
  simp only [requestHash_eq, requestHash_ofHash, realProofStatus_eq,
    Shielded.zkcShieldedVerifyOrchardRealProofStatusV1, ofHash_fill, ofHash_writeZeros,
    ofHash_copySome]
  rcases withInputs_cases proof pih with hfail | ⟨bytes, h', rfl, rfl⟩
  · simp only [hfail]
    rfl
  · simp only [withInputs_bytes, orchardRealProofRequestHashV1, orchardRealProofStatusV1,
      orchardRealProofCheckV1, orchardRealProofCheckV2, orchardRealProofCheckWithBackendV3]
    cases decodeOrchardRealProofRequestV1 hash256 bytes kind h' with
    | none => rfl
    | some request => simp [hashResult, OrchardRealProofCheckV3.into, OrchardRealProofCheckV2.into]

theorem proofCheckV2_eq : zkcShieldedOrchardRealProofCheckV2 hash256 =
    Shielded.zkcShieldedOrchardRealProofCheckV2 hash256 (unsupportedBackend hash256) := by
  funext proof kind pih out out'
  refine ite_congr rfl (fun _ => rfl) fun hgood => ?_
  obtain ⟨hgood₁, h', rfl⟩ := hashOut_of_good hgood
  obtain ⟨-, h, rfl⟩ := hashOut_of_good (c := false) hgood₁
  simp only [requestHash_eq, requestHash_ofHash, verifierInputHash_eq, verifierInputHash_ofHash,
    realProofStatus_eq, Shielded.zkcShieldedVerifyOrchardRealProofStatusV1, ofHash_fill,
    ofHash_writeZeros, ofHash_copySome]
  rcases withInputs_cases proof pih with hfail | ⟨bytes, h', rfl, rfl⟩
  · simp only [hfail, ofHash_fill]
    rfl
  · simp only [withInputs_bytes, orchardRealProofRequestHashV1, orchardRealVerifierInputHashV1,
      orchardRealProofStatusV1, orchardRealProofCheckV1, orchardRealProofCheckV2,
      orchardRealProofCheckWithBackendV3]
    cases decodeOrchardRealProofRequestV1 hash256 bytes kind h' with
    | none =>
      simp only [Option.map_none, hashResult, ofHash_fill]
      rfl
    | some request => simp [hashResult, OrchardRealProofCheckV3.into, OrchardRealProofCheckV2.into]

theorem proofCheckV3_eq : zkcShieldedOrchardRealProofCheckV3 hash256 =
    Shielded.zkcShieldedOrchardRealProofCheckV3 hash256 (unsupportedBackend hash256) := by
  funext proof kind pih out out' out''
  refine ite_congr rfl (fun _ => rfl) fun hgood => ?_
  obtain ⟨hgood₁, h'', rfl⟩ := hashOut_of_good hgood
  obtain ⟨hgood₂, h', rfl⟩ := hashOut_of_good hgood₁
  obtain ⟨-, h, rfl⟩ := hashOut_of_good (c := false) hgood₂
  simp only [proofCheckV2_eq, Shielded.zkcShieldedOrchardRealProofCheckV2, nativeProofHash_eq,
    nativeProofHash_ofHash, ofHash_isHashOut, ofHash_fill, ofHash_writeZeros, ofHash_copySome]
  rcases withInputs_cases proof pih with hfail | ⟨bytes, h', rfl, rfl⟩
  · simp only [hfail]
    rfl
  · simp only [withInputs_bytes, orchardRealNativeProofHashV1, orchardRealProofCheckV2,
      orchardRealProofCheckWithBackendV3]
    cases decodeOrchardRealProofRequestV1 hash256 bytes kind h' with
    | none => rfl
    | some request =>
      simp [OrchardRealProofCheckV3.into, (unsupportedBackend_verify_ne request).1]

/-! ## bundles -/

variable {bundle body payload : Bytes}

theorem proofPayloadOfBundleV4_eq :
    proofPayloadOfBundleV4 bundle kind pih = proofBundlePayloadV4 bundle kind pih := by
  have hstart : proofBundlePrefixV4 = Shielded.proofBundlePrefixV4 := rfl
  have hversion : shieldedProofBundleVersionV4 = proofBundleVersionV4 := rfl
  have hsystem : shieldedProofSystemOrchard = proofSystemOrchard := rfl
  have hflags : shieldedProofBundleFlagsNone = proofBundleFlagsNone := rfl
  ext payload
  rw [proofBundlePayloadV4_eq_some_iff, buildProofBundleWithPayloadV4_eq,
    frame_iff (bundleHeaderV4_length kind pih)]
  simp only [proofPayloadOfBundleV4, hstart, hversion, hsystem, hflags, proofBundlePrefixV4_length,
    shieldedPublicInputHashSize, not_lt, Option.bind_eq_bind, Option.bind_eq_some_iff,
    guard_eq_some_iff, exists_const, Option.some.injEq, readUint32_toNat, bundleHeaderV4,
    append_prefix_iff, List.length_append, List.length_singleton, singleton_prefix_drop_iff, and_assoc,
    Nat.reduceAdd]

variable (hash256) in
/-- the verdict on a body whose header is right, the match of the crate on its mode -/
def bodyCheck (backend : OrchardRealProofBackend) (kind : UInt8) (pih : Uint256) (mode : UInt8)
    (body : Bytes) : ProofBundleCheckV3 :=
  if mode = orchardProofBodyModeScaffold then
    .withMode (if body = (expectedProofPayloadV4 hash256 kind pih).data then .valid else .invalid)
      orchardProofBodyModeScaffold
  else if mode = orchardProofBodyModeReal then
    let check := orchardRealProofCheckWithBackendV3 hash256 backend body kind pih
    ⟨check.status, some orchardProofBodyModeReal, check.requestHash, check.verifierInputHash,
      check.nativeProofHash⟩
  else .withMode .malformed mode

variable {backend : OrchardRealProofBackend} {mode : UInt8}

theorem bodyCheck_scaffold : bodyCheck hash256 backend kind pih orchardProofBodyModeScaffold body =
    .withMode (if body = (expectedProofPayloadV4 hash256 kind pih).data then .valid else .invalid)
      orchardProofBodyModeScaffold := by
  rw [bodyCheck, if_pos rfl]

theorem bodyCheck_real : bodyCheck hash256 backend kind pih orchardProofBodyModeReal body =
    let check := orchardRealProofCheckWithBackendV3 hash256 backend body kind pih
    ⟨check.status, some orchardProofBodyModeReal, check.requestHash, check.verifierInputHash,
      check.nativeProofHash⟩ := by
  rw [bodyCheck, if_neg (by decide), if_pos rfl]

theorem bodyCheck_other (hscaffold : mode ≠ orchardProofBodyModeScaffold)
    (hreal : mode ≠ orchardProofBodyModeReal) :
    bodyCheck hash256 backend kind pih mode body = .withMode .malformed mode := by
  rw [bodyCheck, if_neg hscaffold, if_neg hreal]

@[simp] theorem bodyCheck_proofBodyMode :
    (bodyCheck hash256 backend kind pih mode body).proofBodyMode = some mode := by
  rw [bodyCheck]
  split_ifs with hscaffold hbody hreal
  · rw [hscaffold]
    rfl
  · rw [hscaffold]
    rfl
  · rw [hreal]
  · rfl

theorem bodyCheck_hashes_of_ne_real (hreal : mode ≠ orchardProofBodyModeReal) :
    (bodyCheck hash256 backend kind pih mode body).realRequestHash = none ∧
      (bodyCheck hash256 backend kind pih mode body).realVerifierInputHash = none ∧
      (bodyCheck hash256 backend kind pih mode body).realNativeProofHash = none := by
  rw [bodyCheck, if_neg hreal]
  split <;> exact ⟨rfl, rfl, rfl⟩

theorem checkOrchardProofPayload_eq :
    checkOrchardProofPayloadWithBackendV3 hash256 backend payload kind pih =
      match decodeOrchardProofBodyModeV1 payload kind pih with
      | none => .malformed
      | some mode => bodyCheck hash256 backend kind pih mode (payload.drop realProofOffset) := by
  have hbody := bodyOfPayload_eq payload kind pih
  rw [checkOrchardProofPayloadWithBackendV3]
  cases hpayload : orchardProofPayloadV1 payload kind pih with
  | none =>
    rw [hpayload, Option.bind_none, Option.map_eq_none_iff] at hbody
    rw [hbody]
  | some body =>
    rw [hpayload, Option.bind_some] at hbody
    dsimp only
    rw [checkOrchardProofBodyWithBackendV3, ← hbody]
    cases decodeOrchardProofBodyModeV1 payload kind pih <;> rfl

theorem realProofOffset_le (h : decodeOrchardProofBodyModeV1 payload kind pih = some mode) :
    realProofOffset ≤ payload.length := by
  obtain ⟨body, hpayload, hbody⟩ := decodeOrchardProofBodyModeV1_eq_some_iff.mp h
  obtain ⟨rfl, -⟩ := orchardProofPayloadV1_eq_some_iff.mp hpayload
  obtain ⟨hbuilt, -⟩ := orchardProofBodyV1_eq_some_iff.mp hbody
  rw [buildOrchardProofBodyWithModeV1_eq] at hbuilt
  have hlen := congrArg List.length hbuilt
  have hoffset : realProofOffset = 81 := by decide
  rw [length_frame, bodyHeaderV1_length] at hlen
  rw [hoffset, buildOrchardProofPayloadWithBodyV1_eq, length_frame, payloadHeaderV1_length]
  omega

theorem length_eq_and_isPrefix_iff {expected bytes : Bytes} :
    expected.length = bytes.length ∧ expected <+: bytes ↔ bytes = expected := by
  constructor
  · intro ⟨hlen, hstart⟩
    exact (hstart.eq_of_length hlen).symm
  · intro h
    exact ⟨congrArg List.length h.symm, h ▸ List.prefix_refl _⟩

theorem verifyProofBundleV4_iff :
    verifyProofBundleV4 hash256 bundle kind pih = true ↔
      bundle = Shielded.buildProofBundleV4 hash256 kind pih := by
  have hpih : (Buffer.bytes pih.data) = ofHash pih := rfl
  rw [verifyProofBundleV4, zkcShieldedVerifyBundleV4, withInputs_eq, hpih, withInputs_bytes,
    buildProofBundleScaffoldV4_eq]
  simp [length_eq_and_isPrefix_iff]

theorem proofBodyOfBundle_scaffold :
    proofBodyOfBundle (Shielded.buildProofBundleV4 hash256 kind pih) kind pih =
      some (orchardProofBodyModeScaffold, (expectedProofPayloadV4 hash256 kind pih).data) := by
  refine proofBodyOfBundle_eq_some_iff.mpr ⟨rfl, ?_⟩
  rw [buildOrchardProofPayloadWithBodyV1_eq, buildOrchardProofBodyWithModeV1_eq, length_frame,
    length_frame]
  simp

/-- a scaffold bundle is exactly a scaffold body that holds the expected hash -/
theorem eq_buildProofBundleV4_iff
    (h : proofBodyOfBundle bundle kind pih = some (orchardProofBodyModeScaffold, body)) :
    bundle = Shielded.buildProofBundleV4 hash256 kind pih ↔
      body = (expectedProofPayloadV4 hash256 kind pih).data := by
  constructor
  · intro hscaffold
    rw [hscaffold, proofBodyOfBundle_scaffold] at h
    simpa [eq_comm] using h
  · intro hbody
    rw [(proofBodyOfBundle_eq_some_iff.mp h).1, hbody]
    rfl

theorem proofBodyOfBundle_of_mode
    (hpayload : proofBundlePayloadV4 bundle kind pih = some payload)
    (hmode : decodeOrchardProofBodyModeV1 payload kind pih = some mode) :
    proofBodyOfBundle bundle kind pih = some (mode, payload.drop realProofOffset) := by
  rw [proofBodyOfBundle, hpayload]
  show (orchardProofPayloadV1 payload kind pih).bind orchardProofBodyV1 = _
  rw [← bodyOfPayload_eq, hmode, Option.map_some]

theorem checkProofBundle_eq :
    checkProofBundleWithBackendV6 hash256 backend bundle kind pih =
      match proofBodyOfBundle bundle kind pih with
      | none => .malformed
      | some (mode, body) => bodyCheck hash256 backend kind pih mode body := by
  rw [checkProofBundleWithBackendV6, proofBodyOfBundle]
  cases proofBundlePayloadV4 bundle kind pih with
  | none => rfl
  | some payload =>
    show checkOrchardProofPayloadWithBackendV3 hash256 backend payload kind pih =
      match (orchardProofPayloadV1 payload kind pih).bind orchardProofBodyV1 with
      | none => .malformed
      | some (mode, body) => bodyCheck hash256 backend kind pih mode body
    rw [checkOrchardProofPayload_eq, ← bodyOfPayload_eq]
    cases decodeOrchardProofBodyModeV1 payload kind pih <;> rfl

theorem bodyCheck_unsupported_valid_iff :
    (bodyCheck hash256 (unsupportedBackend hash256) kind pih mode body).status = .valid ↔
      mode = orchardProofBodyModeScaffold ∧ body = (expectedProofPayloadV4 hash256 kind pih).data := by
  rw [bodyCheck]
  split_ifs with hscaffold hbody hreal
  · simp [ProofBundleCheckV3.withMode, hscaffold, hbody]
  · simp [ProofBundleCheckV3.withMode, hscaffold, hbody]
  · simp only [orchardRealProofCheckWithBackendV3, hscaffold, false_and, iff_false]
    cases decodeOrchardRealProofRequestV1 hash256 body kind pih with
    | none => simp
    | some request => exact (unsupportedBackend_verify_ne request).2
  · simp [ProofBundleCheckV3.withMode, hscaffold]

theorem checkProofBundle_unsupported_valid_iff :
    (checkProofBundleWithBackendV6 hash256 (unsupportedBackend hash256) bundle kind pih).status =
      .valid ↔ bundle = Shielded.buildProofBundleV4 hash256 kind pih := by
  rw [checkProofBundle_eq]
  constructor
  · intro h
    cases hbody : proofBodyOfBundle bundle kind pih with
    | none => simp [hbody, ProofBundleCheckV3.malformed] at h
    | some found =>
      obtain ⟨mode, body⟩ := found
      rw [hbody] at h
      obtain ⟨rfl, hexpected⟩ := bodyCheck_unsupported_valid_iff.mp h
      exact (eq_buildProofBundleV4_iff hbody).mpr hexpected
  · intro h
    rw [h, proofBodyOfBundle_scaffold]
    exact bodyCheck_unsupported_valid_iff.mpr ⟨rfl, rfl⟩

theorem verifyBundle_eq : zkcShieldedVerifyBundleV4 hash256 =
    Shielded.zkcShieldedVerifyBundleV4 hash256 (unsupportedBackend hash256) := by
  funext bundle kind pih
  rw [zkcShieldedVerifyBundleV4, Shielded.zkcShieldedVerifyBundleV4, withInputs_eq]
  congr 1
  funext bundle pih
  simp only [buildProofBundleScaffoldV4_eq, length_eq_and_isPrefix_iff, boolCode,
    Shielded.verifyProofBundleV4, checkProofBundleV4, checkProofBundleV5, ProofBundleCheckV3.into,
    ProofBundleCheckV2.into, beq_iff_eq, checkProofBundle_unsupported_valid_iff]

theorem checkBundleV4_eq : zkcShieldedCheckBundleV4 hash256 =
    Shielded.zkcShieldedCheckBundleV4 hash256 (unsupportedBackend hash256) := by
  funext bundle kind pih modeOut out
  refine ite_congr rfl (fun _ => rfl) fun hgood => ?_
  obtain ⟨-, h, rfl⟩ := hashOut_of_good hgood
  rcases withInputs_cases bundle pih with hfail | ⟨bytes, h', rfl, rfl⟩
  · simp only [withInputs_eq, hfail, ofHash_fill, ofHash_writeZeros]
    rfl
  · simp only [withInputs_eq, withInputs_bytes, ofHash_fill, ofHash_writeZeros, ofHash_copySome,
      proofPayloadOfBundleV4_eq, proofCheckV1_eq, Shielded.zkcShieldedOrchardRealProofCheckV1,
      checkProofBundleV4, checkProofBundleV5, checkProofBundleWithBackendV6]
    cases hpayload : proofBundlePayloadV4 bytes kind h' with
    | none => rfl
    | some payload =>
      simp only [checkOrchardProofPayload_eq]
      cases hmode : decodeOrchardProofBodyModeV1 payload kind h' with
      | none => rfl
      | some mode =>
        have hroom := realProofOffset_le hmode
        have hbody := proofBodyOfBundle_of_mode hpayload hmode
        dsimp only
        by_cases hscaffold : mode = orchardProofBodyModeScaffold
        · subst hscaffold
          simp only [bodyCheck_scaffold, verifyProofBundleV4_iff, eq_buildProofBundleV4_iff hbody]
          rw [if_pos (show orchardProofBodyModeScaffold = shieldedOrchardProofBodyModeScaffold from rfl)]
          split <;> rfl
        · rw [if_neg (show ¬ mode = shieldedOrchardProofBodyModeScaffold from hscaffold)]
          by_cases hreal : mode = orchardProofBodyModeReal
          · subst hreal
            rw [if_neg (by decide), if_neg (not_lt.mpr hroom), bodyCheck_real]
            simp only [ofHash_isHashOut, Bool.not_true, Bool.false_eq_true, if_false]
            rfl
          · rw [if_pos (show mode ≠ shieldedOrchardProofBodyModeReal from hreal),
              bodyCheck_other hscaffold hreal]
            rfl

theorem drop_of_proofBodyOfBundle
    (h : proofBodyOfBundle bundle kind pih = some (mode, body)) :
    bundleProofOffset ≤ bundle.length ∧
      realProofOffset ≤ (bundle.drop bundleProofOffset).length ∧
      (bundle.drop bundleProofOffset).drop realProofOffset = body := by
  have hoffset : bundleProofOffset = 46 := by decide
  rw [proofBodyOfBundle, Option.bind_eq_bind, Option.bind_eq_some_iff] at h
  obtain ⟨payload, hpayload, hbody⟩ := h
  change (orchardProofPayloadV1 payload kind pih).bind orchardProofBodyV1 = some (mode, body) at hbody
  rw [← bodyOfPayload_eq, Option.map_eq_some_iff] at hbody
  obtain ⟨m, hmode, hfound⟩ := hbody
  rw [proofBundlePayloadV4_eq_some_iff, buildProofBundleWithPayloadV4_eq,
    frame_iff (bundleHeaderV4_length kind pih)] at hpayload
  obtain ⟨hroom, -, -, hdrop⟩ := hpayload
  rw [hoffset, hdrop]
  exact ⟨hroom, realProofOffset_le hmode, congrArg Prod.snd hfound⟩

theorem checkBundleV5_eq : zkcShieldedCheckBundleV5 hash256 =
    Shielded.zkcShieldedCheckBundleV5 hash256 (unsupportedBackend hash256) := by
  funext bundle kind pih modeOut out out'
  have hmode : shieldedOrchardProofBodyModeReal = orchardProofBodyModeReal := rfl
  refine ite_congr rfl (fun _ => rfl) fun hgood => ?_
  obtain ⟨hgood₁, h', rfl⟩ := hashOut_of_good hgood
  obtain ⟨-, h, rfl⟩ := hashOut_of_good hgood₁
  simp only [checkBundleV4_eq, Shielded.zkcShieldedCheckBundleV4, verifierInputHash_eq,
    verifierInputHash_ofHash, ofHash_isHashOut, ofHash_fill, ofHash_writeZeros, ofHash_copySome,
    Option.isNone_some, Bool.not_true, Bool.or_false, Bool.false_eq_true, if_false]
  rcases withInputs_cases bundle pih with hfail | ⟨bytes, h', rfl, rfl⟩
  · simp only [hfail]
    rfl
  · simp only [withInputs_bytes, checkProofBundleV4, checkProofBundleV5, checkProofBundle_eq,
      bytes_isNull, bytes_data]
    cases hbody : proofBodyOfBundle bytes kind h' with
    | none => rfl
    | some found =>
      obtain ⟨mode, body⟩ := found
      dsimp only
      by_cases hreal : mode = orchardProofBodyModeReal
      · subst hreal
        obtain ⟨hroom, hroom', hdrop⟩ := drop_of_proofBodyOfBundle hbody
        rw [if_neg (not_lt.mpr hroom), if_neg (not_lt.mpr hroom'), hdrop]
        simp only [bodyCheck_real, orchardRealProofCheckWithBackendV3, orchardRealVerifierInputHashV1]
        cases decodeOrchardRealProofRequestV1 hash256 body kind h' with
        | none => rfl
        | some request =>
          simp [hashResult, ProofBundleCheckV3.into, ProofBundleCheckV2.into, hmode]
      · simp [ProofBundleCheckV3.into, ProofBundleCheckV2.into, hmode, hreal,
          bodyCheck_hashes_of_ne_real hreal]

theorem checkBundleV6_eq : zkcShieldedCheckBundleV6 hash256 =
    Shielded.zkcShieldedCheckBundleV6 hash256 (unsupportedBackend hash256) := by
  funext bundle kind pih modeOut out out' out''
  have hmode : shieldedOrchardProofBodyModeReal = orchardProofBodyModeReal := rfl
  refine ite_congr rfl (fun _ => rfl) fun hgood => ?_
  obtain ⟨hgood₁, h'', rfl⟩ := hashOut_of_good hgood
  obtain ⟨hgood₂, h', rfl⟩ := hashOut_of_good hgood₁
  obtain ⟨-, h, rfl⟩ := hashOut_of_good hgood₂
  simp only [checkBundleV5_eq, Shielded.zkcShieldedCheckBundleV5, nativeProofHash_eq,
    nativeProofHash_ofHash, ofHash_isHashOut, ofHash_fill, ofHash_writeZeros, ofHash_copySome,
    Option.isNone_some, Bool.not_true, Bool.or_false, Bool.false_eq_true, if_false]
  rcases withInputs_cases bundle pih with hfail | ⟨bytes, h', rfl, rfl⟩
  · simp only [hfail]
    rfl
  · simp only [withInputs_bytes, checkProofBundleV5, checkProofBundle_eq, bytes_isNull, bytes_data]
    cases hbody : proofBodyOfBundle bytes kind h' with
    | none => rfl
    | some found =>
      obtain ⟨mode, body⟩ := found
      dsimp only
      by_cases hreal : mode = orchardProofBodyModeReal
      · subst hreal
        obtain ⟨hroom, hroom', hdrop⟩ := drop_of_proofBodyOfBundle hbody
        rw [if_neg (not_lt.mpr hroom), if_neg (not_lt.mpr hroom'), hdrop]
        simp only [bodyCheck_real, orchardRealProofCheckWithBackendV3, orchardRealNativeProofHashV1]
        cases decodeOrchardRealProofRequestV1 hash256 body kind h' with
        | none => rfl
        | some request => simp [ProofBundleCheckV3.into, hmode]
      · simp [ProofBundleCheckV3.into, hmode, hreal, bodyCheck_hashes_of_ne_real hreal]

theorem orchardProof_eq : zkcShieldedVerifyOrchardProofV1 hash256 =
    Shielded.zkcShieldedVerifyOrchardProofV1 hash256 (unsupportedBackend hash256) := by
  funext proofBody kind pih
  rw [zkcShieldedVerifyOrchardProofV1, Shielded.zkcShieldedVerifyOrchardProofV1, withInputs_eq]
  congr 1
  funext proofBody pih
  simp only [buildOrchardProofBodyScaffoldV1_eq, length_eq_and_isPrefix_iff, boolCode,
    verifyOrchardProofBodyV1, beq_iff_eq]
  refine if_congr ?_ rfl rfl
  -- a body that decodes is what its builder writes, so the two comparisons are the same
  have hcheck : checkOrchardProofBodyWithBackendV3 hash256 (unsupportedBackend hash256) proofBody kind
      pih = match orchardProofBodyV1 proofBody with
        | none => .malformed
        | some (mode, body) => bodyCheck hash256 (unsupportedBackend hash256) kind pih mode body := rfl
  rw [hcheck]
  constructor
  · intro h
    have hdecode : orchardProofBodyV1 proofBody =
        some (orchardProofBodyModeScaffold, (expectedProofPayloadV4 hash256 kind pih).data) :=
      orchardProofBodyV1_eq_some_iff.mpr ⟨h, by simp⟩
    rw [hdecode]
    exact bodyCheck_unsupported_valid_iff.mpr ⟨rfl, rfl⟩
  · intro h
    cases hdecode : orchardProofBodyV1 proofBody with
    | none => simp [hdecode, ProofBundleCheckV3.malformed] at h
    | some found =>
      obtain ⟨mode, body⟩ := found
      rw [hdecode] at h
      obtain ⟨rfl, rfl⟩ := bodyCheck_unsupported_valid_iff.mp h
      exact (orchardProofBodyV1_eq_some_iff.mp hdecode).1

theorem commitmentRoot_eq :
    zkcShieldedOrchardCommitmentRootV1 = Shielded.zkcShieldedOrchardCommitmentRootV1 := by
  funext commitments out
  by_cases hout : out.isHashOut = true
  · obtain ⟨h, rfl⟩ := isHashOut_iff.mp hout
    simp [zkcShieldedOrchardCommitmentRootV1, Shielded.zkcShieldedOrchardCommitmentRootV1,
      shieldedProofHashSize]
  · have hbad : (out.isNull || out.len ≠ hashSize) = true := by
      simpa only [Buffer.isHashOut, Bool.not_eq_true', Bool.not_eq_false] using hout
    rw [zkcShieldedOrchardCommitmentRootV1, Shielded.zkcShieldedOrchardCommitmentRootV1,
      if_pos (show (out.isNull || out.len ≠ shieldedProofHashSize) = true from hbad),
      if_pos (by simpa using hout)]

end Cpp

/-- **The fallback is the crate without a backend.**  Every exported function of the C++ fallback returns
what the crate with its default features returns and leaves the same bytes in every output, whatever
pointers and lengths it is called with. -/
theorem fallback_eq_crate (hash256 : Bytes → Uint256) :
    (∀ bundle kind pih, Cpp.zkcShieldedVerifyBundleV4 hash256 bundle kind pih =
      zkcShieldedVerifyBundleV4 hash256 (unsupportedBackend hash256) bundle kind pih) ∧
    (∀ bundle kind pih mode out, Cpp.zkcShieldedCheckBundleV4 hash256 bundle kind pih mode out =
      zkcShieldedCheckBundleV4 hash256 (unsupportedBackend hash256) bundle kind pih mode out) ∧
    (∀ bundle kind pih mode out out', Cpp.zkcShieldedCheckBundleV5 hash256 bundle kind pih mode out out' =
      zkcShieldedCheckBundleV5 hash256 (unsupportedBackend hash256) bundle kind pih mode out out') ∧
    (∀ bundle kind pih mode out out' out'',
      Cpp.zkcShieldedCheckBundleV6 hash256 bundle kind pih mode out out' out'' =
        zkcShieldedCheckBundleV6 hash256 (unsupportedBackend hash256) bundle kind pih mode out out'
          out'') ∧
    (∀ body kind pih, Cpp.zkcShieldedVerifyOrchardProofV1 hash256 body kind pih =
      zkcShieldedVerifyOrchardProofV1 hash256 (unsupportedBackend hash256) body kind pih) ∧
    (∀ proof kind pih, Cpp.zkcShieldedVerifyOrchardRealProofV1 hash256 proof kind pih =
      zkcShieldedVerifyOrchardRealProofV1 hash256 (unsupportedBackend hash256) proof kind pih) ∧
    (∀ proof kind pih, Cpp.zkcShieldedVerifyOrchardRealProofStatusV1 hash256 proof kind pih =
      zkcShieldedVerifyOrchardRealProofStatusV1 hash256 (unsupportedBackend hash256) proof kind pih) ∧
    (∀ proof kind pih out, Cpp.zkcShieldedOrchardRealProofRequestHashV1 hash256 proof kind pih out =
      zkcShieldedOrchardRealProofRequestHashV1 hash256 proof kind pih out) ∧
    (∀ proof kind pih out, Cpp.zkcShieldedOrchardRealVerifierInputHashV1 hash256 proof kind pih out =
      zkcShieldedOrchardRealVerifierInputHashV1 hash256 proof kind pih out) ∧
    (∀ proof kind pih out, Cpp.zkcShieldedOrchardRealNativeProofHashV1 hash256 proof kind pih out =
      zkcShieldedOrchardRealNativeProofHashV1 hash256 proof kind pih out) ∧
    (∀ proof kind pih out, Cpp.zkcShieldedOrchardRealProofCheckV1 hash256 proof kind pih out =
      zkcShieldedOrchardRealProofCheckV1 hash256 (unsupportedBackend hash256) proof kind pih out) ∧
    (∀ proof kind pih out out', Cpp.zkcShieldedOrchardRealProofCheckV2 hash256 proof kind pih out out' =
      zkcShieldedOrchardRealProofCheckV2 hash256 (unsupportedBackend hash256) proof kind pih out out') ∧
    (∀ proof kind pih out out' out'',
      Cpp.zkcShieldedOrchardRealProofCheckV3 hash256 proof kind pih out out' out'' =
        zkcShieldedOrchardRealProofCheckV3 hash256 (unsupportedBackend hash256) proof kind pih out out'
          out'') ∧
    (∀ commitments out, Cpp.zkcShieldedOrchardCommitmentRootV1 commitments out =
      zkcShieldedOrchardCommitmentRootV1 commitments out) := by
  simp only [Cpp.verifyBundle_eq, Cpp.checkBundleV4_eq, Cpp.checkBundleV5_eq, Cpp.checkBundleV6_eq,
    Cpp.orchardProof_eq, Cpp.realProof_eq, Cpp.realProofStatus_eq, Cpp.requestHash_eq,
    Cpp.verifierInputHash_eq, Cpp.nativeProofHash_eq, Cpp.proofCheckV1_eq, Cpp.proofCheckV2_eq,
    Cpp.proofCheckV3_eq, Cpp.commitmentRoot_eq, implies_true, and_self]

/-! ## the three versions of the bundle check -/

section
variable (hash256 : Bytes → Uint256) (backend : OrchardRealProofBackend)

theorem checkProofBundle_hashes (bundle : Bytes) (kind : UInt8) (pih : Uint256) :
    let check := checkProofBundleWithBackendV6 hash256 backend bundle kind pih
    let request := realRequestOfBundle hash256 bundle kind pih
    check.realRequestHash = request.map (OrchardRealProofRequest.requestHashV1 hash256) ∧
      check.realVerifierInputHash =
        request.map (OrchardRealProofRequest.verifierInputHashV1 hash256) ∧
      check.realNativeProofHash = request.bind fun request =>
        (decodeOrchardNativeProofBytesV1 hash256 request).map
          (OrchardNativeProof.proofHashV1 hash256) := by
  dsimp only
  rw [Cpp.checkProofBundle_eq, realRequestOfBundle_eq]
  cases proofBodyOfBundle bundle kind pih with
  | none => exact ⟨rfl, rfl, rfl⟩
  | some found =>
    obtain ⟨mode, body⟩ := found
    by_cases hreal : mode = orchardProofBodyModeReal
    · subst hreal
      simp only [Cpp.bodyCheck_real, orchardRealProofCheckWithBackendV3, Option.bind_eq_bind,
        Option.bind_some, guard_true, Option.pure_def]
      cases decodeOrchardRealProofRequestV1 hash256 body kind pih <;> exact ⟨rfl, rfl, rfl⟩
    · simp [Cpp.bodyCheck_hashes_of_ne_real hreal, hreal]

/-- what versions four, five and six of a bundle check have in common, next to `verify_bundle_v4` and
the real request that the bundle contains: each result is status, mode and hash outputs -/
structure VersionsAgree (verify : Int) (v4 : Int × Option UInt8 × Buffer)
    (v5 : Int × Option UInt8 × Buffer × Buffer) (v6 : Int × Option UInt8 × Buffer × Buffer × Buffer)
    (request : Option OrchardRealProofRequest) : Prop where
  status_eq : v4.1 = v5.1 ∧ v5.1 = v6.1
  mode_eq : v4.2.1 = v5.2.1 ∧ v5.2.1 = v6.2.1
  requestHash_eq : v4.2.2 = v5.2.2.1 ∧ v5.2.2.1 = v6.2.2.1
  verifierInputHash_eq : v5.2.2.2 = v6.2.2.2.1
  valid_iff : v4.1 = orchardRealProofStatusValid ↔ verify = 1
  /-- with a request both hashes are written -/
  hashes_of_request : ∀ r, request = some r → v6.2.1 = some orchardProofBodyModeReal ∧
    v6.2.2.1 = ofHash (r.requestHashV1 hash256) ∧
    v6.2.2.2.1 = ofHash (r.verifierInputHashV1 hash256)
  /-- without one none is -/
  hashes_of_none : request = none → v6.2.2 = (ofHash .null, ofHash .null, ofHash .null)
  hashes_of_mode : v6.2.1 ≠ some orchardProofBodyModeReal →
    v6.2.2 = (ofHash .null, ofHash .null, ofHash .null)

theorem asFfiCode_eq_valid_iff (status : OrchardRealProofStatus) :
    status.asFfiCode = orchardRealProofStatusValid ↔ status = .valid := by
  cases status <;> decide

theorem crate_versionsAgree (bundle : Bytes) (kind : UInt8) (pih : Uint256) (mode : UInt8)
    (h h' h'' : Uint256) :
    VersionsAgree hash256
      (zkcShieldedVerifyBundleV4 hash256 backend (.bytes bundle) kind (ofHash pih))
      (zkcShieldedCheckBundleV4 hash256 backend (.bytes bundle) kind (ofHash pih) (some mode) (ofHash h))
      (zkcShieldedCheckBundleV5 hash256 backend (.bytes bundle) kind (ofHash pih) (some mode) (ofHash h)
        (ofHash h'))
      (zkcShieldedCheckBundleV6 hash256 backend (.bytes bundle) kind (ofHash pih) (some mode) (ofHash h)
        (ofHash h') (ofHash h''))
      (realRequestOfBundle hash256 bundle kind pih) := by
  obtain ⟨hrequest, hinput, hnative⟩ := checkProofBundle_hashes hash256 backend bundle kind pih
  simp only [zkcShieldedVerifyBundleV4, zkcShieldedCheckBundleV4, zkcShieldedCheckBundleV5,
    zkcShieldedCheckBundleV6, withInputs_bytes, ofHash_isHashOut, ofHash_writeZeros, ofHash_copySome,
    Option.isNone_some, Bool.not_true, Bool.or_false, Bool.false_eq_true, if_false,
    checkProofBundleV4, checkProofBundleV5, ProofBundleCheckV3.into, ProofBundleCheckV2.into,
    verifyProofBundleV4]
  refine ⟨⟨rfl, rfl⟩, ⟨rfl, rfl⟩, ⟨rfl, rfl⟩, rfl, ?_, ?_, ?_, ?_⟩
  · rw [asFfiCode_eq_valid_iff]
    simp [boolCode]
  · intro r hr
    rw [hrequest, hinput, hr]
    exact ⟨congrArg (fun o => some (o.getD orchardProofBodyModeUnknown))
      (checkProofBundleWithBackendV6_real backend hr).2, rfl, rfl⟩
  · intro hnone
    rw [hrequest, hinput, hnative, hnone]
    rfl
  · intro hmode
    have hnone : realRequestOfBundle hash256 bundle kind pih = none := by
      by_contra hsome
      obtain ⟨r, hr⟩ := Option.ne_none_iff_exists'.mp hsome
      rw [(checkProofBundleWithBackendV6_real backend hr).2] at hmode
      exact hmode rfl
    rw [hrequest, hinput, hnative, hnone]
    rfl

/-- **The versions of the bundle check agree**, in the crate over any backend and in the fallback; and
the branches of the fallback's versions five and six that would turn a successful check into a malformed
one are never taken. -/
theorem bundle_check_versions (bundle : Bytes) (kind : UInt8) (pih : Uint256) (mode : UInt8)
    (h h' h'' : Uint256) :
    VersionsAgree hash256
      (zkcShieldedVerifyBundleV4 hash256 backend (.bytes bundle) kind (ofHash pih))
      (zkcShieldedCheckBundleV4 hash256 backend (.bytes bundle) kind (ofHash pih) (some mode) (ofHash h))
      (zkcShieldedCheckBundleV5 hash256 backend (.bytes bundle) kind (ofHash pih) (some mode) (ofHash h)
        (ofHash h'))
      (zkcShieldedCheckBundleV6 hash256 backend (.bytes bundle) kind (ofHash pih) (some mode) (ofHash h)
        (ofHash h') (ofHash h''))
      (realRequestOfBundle hash256 bundle kind pih) ∧
    (checkProofBundleWithBackendV6 hash256 backend bundle kind pih).realVerifierInputHash.isSome =
      (checkProofBundleWithBackendV6 hash256 backend bundle kind pih).realRequestHash.isSome ∧
    VersionsAgree hash256
      (Cpp.zkcShieldedVerifyBundleV4 hash256 (.bytes bundle) kind (ofHash pih))
      (Cpp.zkcShieldedCheckBundleV4 hash256 (.bytes bundle) kind (ofHash pih) (some mode) (ofHash h))
      (Cpp.zkcShieldedCheckBundleV5 hash256 (.bytes bundle) kind (ofHash pih) (some mode) (ofHash h)
        (ofHash h'))
      (Cpp.zkcShieldedCheckBundleV6 hash256 (.bytes bundle) kind (ofHash pih) (some mode) (ofHash h)
        (ofHash h') (ofHash h''))
      (realRequestOfBundle hash256 bundle kind pih) ∧
    (∀ check, check = Cpp.zkcShieldedCheckBundleV4 hash256 (.bytes bundle) kind (ofHash pih) (some mode)
        (ofHash h) →
      check.1 ≠ Cpp.shieldedOrchardRealProofStatusMalformed →
      check.2.1 = some Cpp.shieldedOrchardProofBodyModeReal →
      ¬ bundle.length < Cpp.bundleProofOffset ∧
        ¬ (bundle.drop Cpp.bundleProofOffset).length < Cpp.realProofOffset ∧
        (Cpp.zkcShieldedOrchardRealVerifierInputHashV1 hash256
          (.bytes ((bundle.drop Cpp.bundleProofOffset).drop Cpp.realProofOffset)) kind (ofHash pih)
          (ofHash .null)).1 = 1) := by
  refine ⟨crate_versionsAgree hash256 backend bundle kind pih mode h h' h'', ?_, ?_, ?_⟩
  · obtain ⟨hrequest, hinput, -⟩ := checkProofBundle_hashes hash256 backend bundle kind pih
    rw [hrequest, hinput, Option.isSome_map, Option.isSome_map]
  · rw [Cpp.verifyBundle_eq, Cpp.checkBundleV4_eq, Cpp.checkBundleV5_eq, Cpp.checkBundleV6_eq]
    exact crate_versionsAgree hash256 _ bundle kind pih mode h h' h''
  · intro check hcheck hstatus hmode
    rw [Cpp.checkBundleV4_eq] at hcheck
    simp only [zkcShieldedCheckBundleV4, withInputs_bytes, ofHash_isHashOut, ofHash_writeZeros,
      ofHash_copySome, Option.isNone_some, Bool.not_true, Bool.or_false, Bool.false_eq_true, if_false,
      checkProofBundleV4, checkProofBundleV5, ProofBundleCheckV3.into, ProofBundleCheckV2.into,
      Cpp.checkProofBundle_eq] at hcheck
    subst hcheck
    cases hbody : proofBodyOfBundle bundle kind pih with
    | none =>
      rw [hbody] at hstatus
      exact absurd rfl hstatus
    | some found =>
      obtain ⟨m, body⟩ := found
      rw [hbody] at hstatus hmode
      dsimp only at hstatus hmode
      rw [Cpp.bodyCheck_proofBodyMode, Option.getD_some, Option.some.injEq] at hmode
      have hreal : m = orchardProofBodyModeReal := hmode
      subst hreal
      obtain ⟨hroom, hroom', hdrop⟩ := Cpp.drop_of_proofBodyOfBundle hbody
      refine ⟨not_lt.mpr hroom, not_lt.mpr hroom', ?_⟩
      rw [Cpp.verifierInputHash_eq, Cpp.verifierInputHash_ofHash, hdrop, withInputs_bytes,
        orchardRealVerifierInputHashV1]
      rw [Cpp.bodyCheck_real, orchardRealProofCheckWithBackendV3] at hstatus
      cases hdecode : decodeOrchardRealProofRequestV1 hash256 body kind pih with
      | none =>
        rw [hdecode] at hstatus
        exact absurd rfl hstatus
      | some request => rfl

end

/-- a bundle around native proof bytes, well formed and without a backend to verify it -/
def sampleRealBundle : Bytes :=
  Cpp.buildProofBundleV4 1 (.ofNat 9) (Cpp.realPayload Uint256.polyHash 1 (.ofNat 9)
    (Cpp.buildOrchardNativeProofBytesV1 Uint256.polyHash 1 (.ofNat 9) [1, 2, 3]))

/-- the check of a real bundle succeeds past the header and reports a missing backend -/
theorem bundle_check_versions_real :
    (Cpp.zkcShieldedCheckBundleV4 Uint256.polyHash (.bytes sampleRealBundle) 1 (ofHash (.ofNat 9))
        (some 0) (ofHash .null)).1 = Cpp.shieldedOrchardRealProofStatusUnsupported ∧
      ¬ sampleRealBundle.length < Cpp.bundleProofOffset := by
  have hstatus : (Cpp.zkcShieldedCheckBundleV4 Uint256.polyHash (.bytes sampleRealBundle) 1
      (ofHash (.ofNat 9)) (some 0) (ofHash .null)).1 =
        Cpp.shieldedOrchardRealProofStatusUnsupported := by decide +kernel
  refine ⟨hstatus, ?_⟩
  obtain ⟨-, -, -, hbranches⟩ := bundle_check_versions Uint256.polyHash
    (unsupportedBackend Uint256.polyHash) sampleRealBundle 1 (.ofNat 9) 0 .null .null .null
  exact (hbranches _ rfl (by rw [hstatus]; decide) (by decide +kernel)).1

end Shielded
