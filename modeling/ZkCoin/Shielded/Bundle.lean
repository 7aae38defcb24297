import ZkCoin.Shielded.RealProof

/-!
# The shielded verifier crate: proof bundles

The three outer layers of a proof envelope: bundle, payload and body.  A body is either a scaffold
hash or a real-proof request that is handed to the backend.

* `checkProofBundleWithBackendV6` — the check behind `zkc_shielded_check_bundle_v6`.
* `orchardBackend`, `unsupportedBackend` — the two backends a node can link.
-/

open Bytes

namespace Shielded

def proofBundlePrefixV4 : Bytes := ascii "zkc-p4"
def proofBundlePreimagePrefixV4 : Bytes := ascii "zkc-proof-bundle-v4"
def orchardProofPayloadPrefixV1 : Bytes := ascii "zkc-orchard-proof-v1"
def orchardProofBodyPrefixV1 : Bytes := ascii "zkc-orchard-body-v1"

def proofBundleVersionV4 : UInt8 := 1
def proofSystemOrchard : UInt8 := 1
def orchardProofBodyModeScaffold : UInt8 := 0
def orchardProofBodyModeReal : UInt8 := 1

def proofBundleHeaderLenV4 : Nat := 6 + 1 + 1 + 1 + 1 + hashSize + 4
def orchardProofPayloadHeaderLenV1 : Nat := orchardProofPayloadPrefixV1.length + 1 + hashSize + 4
def orchardProofBodyHeaderLenV1 : Nat := orchardProofBodyPrefixV1.length + 1 + 4

inductive OrchardRealVerifierBackend
  | unsupported
  | orchardV1
  deriving DecidableEq, Repr

def OrchardRealVerifierBackend.supportsRealProofs : OrchardRealVerifierBackend → Bool
  | .unsupported => false
  | .orchardV1 => true

structure OrchardRealProofBackend where
  backend : OrchardRealVerifierBackend
  verify : OrchardRealProofRequest → OrchardRealProofStatus

structure OrchardRealProofCheckV3 where
  status : OrchardRealProofStatus
  requestHash : Option Uint256
  verifierInputHash : Option Uint256
  nativeProofHash : Option Uint256
  deriving DecidableEq

structure ProofBundleCheckV3 where
  status : OrchardRealProofStatus
  proofBodyMode : Option UInt8
  realRequestHash : Option Uint256
  realVerifierInputHash : Option Uint256
  realNativeProofHash : Option Uint256
  deriving DecidableEq

def ProofBundleCheckV3.malformed : ProofBundleCheckV3 := ⟨.malformed, none, none, none, none⟩

def ProofBundleCheckV3.withMode (status : OrchardRealProofStatus) (mode : UInt8) :
    ProofBundleCheckV3 := ⟨status, some mode, none, none, none⟩

section
variable (hash256 : Bytes → Uint256)

def unsupportedBackend : OrchardRealProofBackend where
  backend := .unsupported
  verify request :=
    if (decodeOrchardNativeProofBytesV1 hash256 request).isSome then .unsupported else .invalid

def orchardBackend (orchard : OrchardCrate) : OrchardRealProofBackend where
  backend := .orchardV1
  verify := verifyOrchardHalo2ActionProofV1 hash256 orchard

def expectedProofPayloadV4 (proofKind : UInt8) (publicInputHash : Uint256) : Uint256 :=
  hash256 (proofBundlePreimagePrefixV4 ++ [proofBundleVersionV4] ++ [proofKind] ++
    [proofSystemOrchard] ++ [proofBundleFlagsNone] ++ publicInputHash.data)

variable (backend : OrchardRealProofBackend)

def orchardRealProofCheckWithBackendV3 (proof : Bytes) (proofKind : UInt8)
    (publicInputHash : Uint256) : OrchardRealProofCheckV3 :=
  match decodeOrchardRealProofRequestV1 hash256 proof proofKind publicInputHash with
  | none => ⟨.malformed, none, none, none⟩
  | some request =>
    ⟨backend.verify request, some (request.requestHashV1 hash256),
      some (request.verifierInputHashV1 hash256),
      (decodeOrchardNativeProofBytesV1 hash256 request).map (OrchardNativeProof.proofHashV1 hash256)⟩

/-- the bytes of a body and its mode, when the header and the length are right -/
def orchardProofBodyV1 (proofBody : Bytes) : Option (UInt8 × Bytes) := do
  guard (orchardProofBodyHeaderLenV1 ≤ proofBody.length)
  guard (orchardProofBodyPrefixV1 <+: proofBody)
  let modeOffset := orchardProofBodyPrefixV1.length
  let bodyLenOffset := modeOffset + 1
  let bodyOffset := bodyLenOffset + 4
  let bodyMode ← proofBody[modeOffset]?
  guard ((u32At proofBody bodyLenOffset).toNat = proofBody.length - bodyOffset)
  some (bodyMode, proofBody.drop bodyOffset)

def checkOrchardProofBodyWithBackendV3 (proofBody : Bytes) (proofKind : UInt8)
    (publicInputHash : Uint256) : ProofBundleCheckV3 :=
  match orchardProofBodyV1 proofBody with
  | none => .malformed
  | some (bodyMode, body) =>
    if bodyMode = orchardProofBodyModeScaffold then
      .withMode
        (if body = (expectedProofPayloadV4 hash256 proofKind publicInputHash).data then .valid
          else .invalid)
        orchardProofBodyModeScaffold
    else if bodyMode = orchardProofBodyModeReal then
      let check := orchardRealProofCheckWithBackendV3 hash256 backend body proofKind publicInputHash
      ⟨check.status, some orchardProofBodyModeReal, check.requestHash, check.verifierInputHash,
        check.nativeProofHash⟩
    else .withMode .malformed bodyMode

/-- the body of a payload, when kind, public input and length are right -/
def orchardProofPayloadV1 (proofPayload : Bytes) (proofKind : UInt8) (publicInputHash : Uint256) :
    Option Bytes := do
  guard (orchardProofPayloadHeaderLenV1 ≤ proofPayload.length)
  guard (orchardProofPayloadPrefixV1 <+: proofPayload)
  let kindOffset := orchardProofPayloadPrefixV1.length
  let publicInputOffset := kindOffset + 1
  let proofLenOffset := publicInputOffset + hashSize
  let proofOffset := proofLenOffset + 4
  guard (proofPayload[kindOffset]? = some proofKind)
  guard (Uint256.readAt proofPayload publicInputOffset = some publicInputHash)
  guard ((u32At proofPayload proofLenOffset).toNat = proofPayload.length - proofOffset)
  some (proofPayload.drop proofOffset)

def checkOrchardProofPayloadWithBackendV3 (proofPayload : Bytes) (proofKind : UInt8)
    (publicInputHash : Uint256) : ProofBundleCheckV3 :=
  match orchardProofPayloadV1 proofPayload proofKind publicInputHash with
  | none => .malformed
  | some proofBody =>
    checkOrchardProofBodyWithBackendV3 hash256 backend proofBody proofKind publicInputHash

def proofBundlePayloadV4 (bundle : Bytes) (proofKind : UInt8) (publicInputHash : Uint256) :
    Option Bytes := do
  guard (proofBundleHeaderLenV4 ≤ bundle.length)
  guard (proofBundlePrefixV4 <+: bundle)
  let versionOffset := proofBundlePrefixV4.length
  let kindOffset := versionOffset + 1
  let proofSystemOffset := kindOffset + 1
  let flagsOffset := proofSystemOffset + 1
  let publicInputOffset := flagsOffset + 1
  let proofLenOffset := publicInputOffset + hashSize
  let proofOffset := proofLenOffset + 4
  guard (bundle[versionOffset]? = some proofBundleVersionV4)
  guard (bundle[kindOffset]? = some proofKind)
  guard (bundle[proofSystemOffset]? = some proofSystemOrchard)
  guard (bundle[flagsOffset]? = some proofBundleFlagsNone)
  guard (Uint256.readAt bundle publicInputOffset = some publicInputHash)
  guard ((u32At bundle proofLenOffset).toNat = bundle.length - proofOffset)
  some (bundle.drop proofOffset)

def checkProofBundleWithBackendV6 (bundle : Bytes) (proofKind : UInt8)
    (publicInputHash : Uint256) : ProofBundleCheckV3 :=
  match proofBundlePayloadV4 bundle proofKind publicInputHash with
  | none => .malformed
  | some proofPayload =>
    checkOrchardProofPayloadWithBackendV3 hash256 backend proofPayload proofKind publicInputHash

end

/-! ## what a valid bundle with a real body contains -/

/-- the request inside a bundle: payload, body in real mode, request -/
def realRequestOfBundle (hash256 : Bytes → Uint256) (bundle : Bytes) (proofKind : UInt8)
    (publicInputHash : Uint256) : Option OrchardRealProofRequest := do
  let proofPayload ← proofBundlePayloadV4 bundle proofKind publicInputHash
  let proofBody ← orchardProofPayloadV1 proofPayload proofKind publicInputHash
  let (bodyMode, body) ← orchardProofBodyV1 proofBody
  guard (bodyMode = orchardProofBodyModeReal)
  decodeOrchardRealProofRequestV1 hash256 body proofKind publicInputHash

variable {hash256 : Bytes → Uint256} {kind : UInt8} {pih : Uint256}
  {request : OrchardRealProofRequest}

theorem decodeOrchardRealProofRequestV1_fields {proof : Bytes}
    (h : decodeOrchardRealProofRequestV1 hash256 proof kind pih = some request) :
    request.proofKind = kind ∧ request.publicInputHash = pih := by
  simp only [decodeOrchardRealProofRequestV1, Option.bind_eq_bind, Option.bind_eq_some_iff,
    guard_eq_some_iff, exists_const, Option.some.injEq] at h
  obtain ⟨-, -, -, -, -, vk, -, -, -, rfl⟩ := h
  exact ⟨rfl, rfl⟩

theorem realRequestOfBundle_fields {bundle : Bytes}
    (h : realRequestOfBundle hash256 bundle kind pih = some request) :
    request.proofKind = kind ∧ request.publicInputHash = pih := by
  simp only [realRequestOfBundle, Option.bind_eq_bind, Option.bind_eq_some_iff,
    guard_eq_some_iff, exists_const] at h
  obtain ⟨_, -, _, -, _, -, -, h⟩ := h
  exact decodeOrchardRealProofRequestV1_fields h

theorem checkProofBundleWithBackendV6_real (backend : OrchardRealProofBackend) {bundle : Bytes}
    (h : realRequestOfBundle hash256 bundle kind pih = some request) :
    (checkProofBundleWithBackendV6 hash256 backend bundle kind pih).status = backend.verify request ∧
    (checkProofBundleWithBackendV6 hash256 backend bundle kind pih).proofBodyMode =
      some orchardProofBodyModeReal := by
  simp only [realRequestOfBundle, Option.bind_eq_bind, Option.bind_eq_some_iff,
    guard_eq_some_iff, exists_const] at h
  obtain ⟨payload, hpayload, body, hbody, ⟨mode, proof⟩, hproof, hmode, hreq⟩ := h
  have hreal : orchardProofBodyModeReal ≠ orchardProofBodyModeScaffold := by decide
  simp only at hmode
  subst hmode
  simp [checkProofBundleWithBackendV6, hpayload, checkOrchardProofPayloadWithBackendV3, hbody,
    checkOrchardProofBodyWithBackendV3, hproof, orchardRealProofCheckWithBackendV3, hreq, hreal]

/-- a valid bundle that is no scaffold holds a request the backend found valid -/
theorem exists_request_of_valid {backend : OrchardRealProofBackend} {bundle : Bytes}
    (hstatus : (checkProofBundleWithBackendV6 hash256 backend bundle kind pih).status = .valid)
    (hmode : (checkProofBundleWithBackendV6 hash256 backend bundle kind pih).proofBodyMode ≠ some
      orchardProofBodyModeScaffold) :
    ∃ request, realRequestOfBundle hash256 bundle kind pih = some request ∧
      backend.verify request = .valid := by
  cases hrequest : realRequestOfBundle hash256 bundle kind pih with
  | some request =>
    rw [(checkProofBundleWithBackendV6_real backend hrequest).1] at hstatus
    exact ⟨request, rfl, hstatus⟩
  | none =>
    -- some layer fails to decode, and then the status is not `valid` or the mode is the scaffold's
    exfalso
    rw [checkProofBundleWithBackendV6] at hstatus hmode
    cases hpayload : proofBundlePayloadV4 bundle kind pih with
    | none =>
      rw [hpayload] at hstatus
      cases hstatus
    | some payload =>
      rw [hpayload] at hstatus hmode
      dsimp only at hstatus hmode
      rw [checkOrchardProofPayloadWithBackendV3] at hstatus hmode
      cases hbody : orchardProofPayloadV1 payload kind pih with
      | none =>
        rw [hbody] at hstatus
        cases hstatus
      | some body =>
        rw [hbody] at hstatus hmode
        dsimp only at hstatus hmode
        rw [checkOrchardProofBodyWithBackendV3] at hstatus hmode
        cases hproof : orchardProofBodyV1 body with
        | none =>
          rw [hproof] at hstatus
          cases hstatus
        | some found =>
          obtain ⟨mode, proof⟩ := found
          rw [hproof] at hstatus hmode
          dsimp only at hstatus hmode
          by_cases hscaffold : mode = orchardProofBodyModeScaffold
          · rw [if_pos hscaffold] at hmode
            exact hmode rfl
          rw [if_neg hscaffold] at hstatus
          by_cases hreal : mode = orchardProofBodyModeReal
          · have hnone : decodeOrchardRealProofRequestV1 hash256 proof kind pih = none := by
              simpa [realRequestOfBundle, hpayload, hbody, hproof, hreal] using hrequest
            rw [if_pos hreal, orchardRealProofCheckWithBackendV3, hnone] at hstatus
            cases hstatus
          · rw [if_neg hreal] at hstatus
            cases hstatus

/-- **What a selected action proves.**  A bundle payload that decodes has a marker action inside its
action list, and the public input is the hash of that action's fields, the value and the binding. -/
theorem decodeOrchardHalo2BundleProofBytesV1_markerAction {proof : Bytes}
    {bundle : OrchardHalo2BundleProof}
    (h : decodeOrchardHalo2BundleProofBytesV1 hash256 proof kind pih = some bundle) :
    ∃ a, bundle.actions[bundle.markerActionIndex.toNat]? = some a ∧
      orchardHalo2ActionPublicInputHashV1 hash256 kind bundle.shieldedValue bundle.txBindingHash a
        bundle.enableSpend bundle.enableOutput = some pih := by
  simp only [decodeOrchardHalo2BundleProofBytesV1, Option.bind_eq_bind, Option.bind_eq_some_iff,
    guard_eq_some_iff, exists_const, Option.some.injEq] at h
  obtain ⟨-, -, -, -, -, binding, -, spend, -, output, -, -, -, actions, -, a, ha, hash, hhash,
    rfl, -, rfl⟩ := h
  exact ⟨a, ha, hhash⟩

end Shielded
