import ZkCoin.Shielded.CppVerifier

/-!
# The exported functions of the shielded verifier

A node calls its verifier through a C interface: pointers with lengths, output buffers that are
written in place, integer status codes.  There are two implementations behind it, the verifier crate
and the fallback that the node compiles in when it is not linked with the crate.

* `Buffer`                  — a pointer with its length, or the memory of an output.
* `zkcShielded…`            — the exports of the crate, over any backend.
* `Cpp.zkcShielded…`        — the exports of the fallback.

An exported function returns its status together with what it leaves in its outputs.  Distinct
arguments are distinct memory.
-/

open Bytes

namespace Shielded

/-! ## buffers -/

/-- a pointer argument and its length argument; the length that comes with a null pointer is free -/
inductive Buffer
  | null (len : Nat)
  | bytes (data : Bytes)
  deriving DecidableEq

namespace Buffer

def isNull : Buffer → Bool
  | null _ => true
  | bytes _ => false

def len : Buffer → Nat
  | null n => n
  | bytes data => data.length

def data : Buffer → Bytes
  | null _ => []
  | bytes data => data

/-- `std::fill(out, out + len, 0)` -/
def fill : Buffer → Buffer
  | null n => null n
  | bytes data => bytes (List.replicate data.length 0)

/-- `core::ptr::write_bytes(out, 0, HASH_SIZE)` -/
def writeZeros : Buffer → Buffer
  | null n => null n
  | bytes data => bytes (List.replicate hashSize 0 ++ data.drop hashSize)

def copy (h : Uint256) : Buffer → Buffer
  | null n => null n
  | bytes data => bytes (h.data ++ data.drop 32)

def copySome (h : Option Uint256) (out : Buffer) : Buffer :=
  match h with
  | none => out
  | some h => out.copy h

end Buffer

/-! ## status codes -/

def orchardRealProofStatusMalformed : Int := 0
def orchardRealProofStatusValid : Int := 1
def orchardRealProofStatusInvalid : Int := -1
def orchardRealProofStatusUnsupported : Int := -2

def OrchardRealProofStatus.asFfiCode : OrchardRealProofStatus → Int
  | .valid => orchardRealProofStatusValid
  | .malformed => orchardRealProofStatusMalformed
  | .invalid => orchardRealProofStatusInvalid
  | .unsupported => orchardRealProofStatusUnsupported

/-! ## the exports of the crate -/

/-- `read_hash` -/
def readHash (b : Buffer) : Option Uint256 :=
  if b.isNull || b.len ≠ hashSize then none else Uint256.readAt b.data 0

/-- the null test of the first argument and `read_hash` of the public input, which open every exported
function -/
def withInputs {α : Type} (input publicInputHash : Buffer) (failed : α) (f : Bytes → Uint256 → α) : α :=
  if input.isNull then failed
  else
    match readHash publicInputHash with
    | none => failed
    | some publicInputHash => f input.data publicInputHash

structure ProofBundleCheck where
  status : OrchardRealProofStatus
  proofBodyMode : Option UInt8
  realRequestHash : Option Uint256
  deriving DecidableEq

structure ProofBundleCheckV2 where
  status : OrchardRealProofStatus
  proofBodyMode : Option UInt8
  realRequestHash : Option Uint256
  realVerifierInputHash : Option Uint256
  deriving DecidableEq

structure OrchardRealProofCheck where
  status : OrchardRealProofStatus
  requestHash : Option Uint256
  deriving DecidableEq

structure OrchardRealProofCheckV2 where
  status : OrchardRealProofStatus
  requestHash : Option Uint256
  verifierInputHash : Option Uint256
  deriving DecidableEq

/-- `From<ProofBundleCheckV3> for ProofBundleCheckV2` -/
def ProofBundleCheckV3.into (check : ProofBundleCheckV3) : ProofBundleCheckV2 :=
  ⟨check.status, check.proofBodyMode, check.realRequestHash, check.realVerifierInputHash⟩

/-- `From<ProofBundleCheckV2> for ProofBundleCheck` -/
def ProofBundleCheckV2.into (check : ProofBundleCheckV2) : ProofBundleCheck :=
  ⟨check.status, check.proofBodyMode, check.realRequestHash⟩

/-- `From<OrchardRealProofCheckV3> for OrchardRealProofCheckV2` -/
def OrchardRealProofCheckV3.into (check : OrchardRealProofCheckV3) : OrchardRealProofCheckV2 :=
  ⟨check.status, check.requestHash, check.verifierInputHash⟩

/-- `From<OrchardRealProofCheckV2> for OrchardRealProofCheck` -/
def OrchardRealProofCheckV2.into (check : OrchardRealProofCheckV2) : OrchardRealProofCheck :=
  ⟨check.status, check.requestHash⟩

/-- `i32::from` of a Boolean -/
def boolCode (b : Bool) : Int := if b then 1 else 0

/-- an output that can take a hash: the test of every exported function, `HASH_SIZE` is 32 -/
def Buffer.isHashOut (out : Buffer) : Bool := !(out.isNull || out.len ≠ hashSize)

section
variable (hash256 : Bytes → Uint256) (backend : OrchardRealProofBackend)

def checkProofBundleV5 (bundle : Bytes) (proofKind : UInt8) (publicInputHash : Uint256) :
    ProofBundleCheckV2 :=
  (checkProofBundleWithBackendV6 hash256 backend bundle proofKind publicInputHash).into

def checkProofBundleV4 (bundle : Bytes) (proofKind : UInt8) (publicInputHash : Uint256) :
    ProofBundleCheck :=
  (checkProofBundleV5 hash256 backend bundle proofKind publicInputHash).into

def verifyProofBundleV4 (bundle : Bytes) (proofKind : UInt8) (publicInputHash : Uint256) : Bool :=
  (checkProofBundleV4 hash256 backend bundle proofKind publicInputHash).status == .valid

def orchardRealProofCheckV2 (proof : Bytes) (proofKind : UInt8) (publicInputHash : Uint256) :
    OrchardRealProofCheckV2 :=
  (orchardRealProofCheckWithBackendV3 hash256 backend proof proofKind publicInputHash).into

def orchardRealProofCheckV1 (proof : Bytes) (proofKind : UInt8) (publicInputHash : Uint256) :
    OrchardRealProofCheck :=
  (orchardRealProofCheckV2 hash256 backend proof proofKind publicInputHash).into

def orchardRealProofStatusV1 (proof : Bytes) (proofKind : UInt8) (publicInputHash : Uint256) :
    OrchardRealProofStatus :=
  (orchardRealProofCheckV1 hash256 backend proof proofKind publicInputHash).status

/-- `verify_orchard_proof_body_v1` -/
def verifyOrchardProofBodyV1 (proofBody : Bytes) (proofKind : UInt8) (publicInputHash : Uint256) :
    Bool :=
  (checkOrchardProofBodyWithBackendV3 hash256 backend proofBody proofKind publicInputHash).status ==
    .valid

def orchardRealProofRequestHashV1 (proof : Bytes) (proofKind : UInt8) (publicInputHash : Uint256) :
    Option Uint256 :=
  (decodeOrchardRealProofRequestV1 hash256 proof proofKind publicInputHash).map
    (OrchardRealProofRequest.requestHashV1 hash256)

def orchardRealVerifierInputHashV1 (proof : Bytes) (proofKind : UInt8) (publicInputHash : Uint256) :
    Option Uint256 :=
  (decodeOrchardRealProofRequestV1 hash256 proof proofKind publicInputHash).map
    (OrchardRealProofRequest.verifierInputHashV1 hash256)

def orchardRealNativeProofHashV1 (proof : Bytes) (proofKind : UInt8) (publicInputHash : Uint256) :
    Option Uint256 := do
  let request ← decodeOrchardRealProofRequestV1 hash256 proof proofKind publicInputHash
  (decodeOrchardNativeProofBytesV1 hash256 request).map (OrchardNativeProof.proofHashV1 hash256)

def zkcShieldedVerifyBundleV4 (bundle : Buffer) (proofKind : UInt8) (publicInputHash : Buffer) : Int :=
  withInputs bundle publicInputHash 0 fun bundle publicInputHash =>
    boolCode (verifyProofBundleV4 hash256 backend bundle proofKind publicInputHash)

/-- the mode output is a null pointer or holds a byte -/
def zkcShieldedCheckBundleV4 (bundle : Buffer) (proofKind : UInt8) (publicInputHash : Buffer)
    (modeOut : Option UInt8) (requestHashOut : Buffer) : Int × Option UInt8 × Buffer :=
  if modeOut.isNone || !requestHashOut.isHashOut then
    (orchardRealProofStatusMalformed, modeOut, requestHashOut)
  else
    let requestHashOut := requestHashOut.writeZeros
    withInputs bundle publicInputHash
      (orchardRealProofStatusMalformed, some orchardProofBodyModeUnknown, requestHashOut)
      fun bundle publicInputHash =>
        let check := checkProofBundleV4 hash256 backend bundle proofKind publicInputHash
        (check.status.asFfiCode, some (check.proofBodyMode.getD orchardProofBodyModeUnknown),
          requestHashOut.copySome check.realRequestHash)

def zkcShieldedCheckBundleV5 (bundle : Buffer) (proofKind : UInt8) (publicInputHash : Buffer)
    (modeOut : Option UInt8) (requestHashOut verifierInputHashOut : Buffer) :
    Int × Option UInt8 × Buffer × Buffer :=
  if modeOut.isNone || !requestHashOut.isHashOut || !verifierInputHashOut.isHashOut then
    (orchardRealProofStatusMalformed, modeOut, requestHashOut, verifierInputHashOut)
  else
    let requestHashOut := requestHashOut.writeZeros
    let verifierInputHashOut := verifierInputHashOut.writeZeros
    withInputs bundle publicInputHash
      (orchardRealProofStatusMalformed, some orchardProofBodyModeUnknown, requestHashOut,
        verifierInputHashOut)
      fun bundle publicInputHash =>
        let check := checkProofBundleV5 hash256 backend bundle proofKind publicInputHash
        (check.status.asFfiCode, some (check.proofBodyMode.getD orchardProofBodyModeUnknown),
          requestHashOut.copySome check.realRequestHash,
          verifierInputHashOut.copySome check.realVerifierInputHash)

def zkcShieldedCheckBundleV6 (bundle : Buffer) (proofKind : UInt8) (publicInputHash : Buffer)
    (modeOut : Option UInt8) (requestHashOut verifierInputHashOut nativeProofHashOut : Buffer) :
    Int × Option UInt8 × Buffer × Buffer × Buffer :=
  if modeOut.isNone || !requestHashOut.isHashOut || !verifierInputHashOut.isHashOut ||
      !nativeProofHashOut.isHashOut then
    (orchardRealProofStatusMalformed, modeOut, requestHashOut, verifierInputHashOut,
      nativeProofHashOut)
  else
    let requestHashOut := requestHashOut.writeZeros
    let verifierInputHashOut := verifierInputHashOut.writeZeros
    let nativeProofHashOut := nativeProofHashOut.writeZeros
    withInputs bundle publicInputHash
      (orchardRealProofStatusMalformed, some orchardProofBodyModeUnknown, requestHashOut,
        verifierInputHashOut, nativeProofHashOut)
      fun bundle publicInputHash =>
        let check := checkProofBundleWithBackendV6 hash256 backend bundle proofKind publicInputHash
        (check.status.asFfiCode, some (check.proofBodyMode.getD orchardProofBodyModeUnknown),
          requestHashOut.copySome check.realRequestHash,
          verifierInputHashOut.copySome check.realVerifierInputHash,
          nativeProofHashOut.copySome check.realNativeProofHash)

def zkcShieldedVerifyOrchardProofV1 (proofBody : Buffer) (proofKind : UInt8)
    (publicInputHash : Buffer) : Int :=
  withInputs proofBody publicInputHash 0 fun proofBody publicInputHash =>
    boolCode (verifyOrchardProofBodyV1 hash256 backend proofBody proofKind publicInputHash)

def zkcShieldedVerifyOrchardRealProofV1 (proof : Buffer) (proofKind : UInt8)
    (publicInputHash : Buffer) : Int :=
  withInputs proof publicInputHash 0 fun proof publicInputHash =>
    boolCode (orchardRealProofStatusV1 hash256 backend proof proofKind publicInputHash == .valid)

def zkcShieldedVerifyOrchardRealProofStatusV1 (proof : Buffer) (proofKind : UInt8)
    (publicInputHash : Buffer) : Int :=
  withInputs proof publicInputHash orchardRealProofStatusMalformed fun proof publicInputHash =>
    (orchardRealProofStatusV1 hash256 backend proof proofKind publicInputHash).asFfiCode

def hashResult (out : Buffer) : Option Uint256 → Int × Buffer
  | none => (0, out)
  | some h => (1, out.copy h)

def zkcShieldedOrchardRealProofRequestHashV1 (proof : Buffer) (proofKind : UInt8)
    (publicInputHash requestHashOut : Buffer) : Int × Buffer :=
  if proof.isNull || !requestHashOut.isHashOut then (0, requestHashOut)
  else
    match readHash publicInputHash with
    | none => (0, requestHashOut)
    | some publicInputHash =>
      hashResult requestHashOut
        (orchardRealProofRequestHashV1 hash256 proof.data proofKind publicInputHash)

def zkcShieldedOrchardRealVerifierInputHashV1 (proof : Buffer) (proofKind : UInt8)
    (publicInputHash verifierInputHashOut : Buffer) : Int × Buffer :=
  if !verifierInputHashOut.isHashOut then (0, verifierInputHashOut)
  else
    let verifierInputHashOut := verifierInputHashOut.writeZeros
    withInputs proof publicInputHash (0, verifierInputHashOut) fun proof publicInputHash =>
      hashResult verifierInputHashOut
        (orchardRealVerifierInputHashV1 hash256 proof proofKind publicInputHash)

def zkcShieldedOrchardRealNativeProofHashV1 (proof : Buffer) (proofKind : UInt8)
    (publicInputHash nativeProofHashOut : Buffer) : Int × Buffer :=
  if !nativeProofHashOut.isHashOut then (0, nativeProofHashOut)
  else
    let nativeProofHashOut := nativeProofHashOut.writeZeros
    withInputs proof publicInputHash (0, nativeProofHashOut) fun proof publicInputHash =>
      hashResult nativeProofHashOut
        (orchardRealNativeProofHashV1 hash256 proof proofKind publicInputHash)

def zkcShieldedOrchardRealProofCheckV1 (proof : Buffer) (proofKind : UInt8)
    (publicInputHash requestHashOut : Buffer) : Int × Buffer :=
  if !requestHashOut.isHashOut then (orchardRealProofStatusMalformed, requestHashOut)
  else
    let requestHashOut := requestHashOut.writeZeros
    withInputs proof publicInputHash (orchardRealProofStatusMalformed, requestHashOut)
      fun proof publicInputHash =>
        let check := orchardRealProofCheckV1 hash256 backend proof proofKind publicInputHash
        (check.status.asFfiCode, requestHashOut.copySome check.requestHash)

def zkcShieldedOrchardRealProofCheckV2 (proof : Buffer) (proofKind : UInt8)
    (publicInputHash requestHashOut verifierInputHashOut : Buffer) : Int × Buffer × Buffer :=
  if !requestHashOut.isHashOut || !verifierInputHashOut.isHashOut then
    (orchardRealProofStatusMalformed, requestHashOut, verifierInputHashOut)
  else
    let requestHashOut := requestHashOut.writeZeros
    let verifierInputHashOut := verifierInputHashOut.writeZeros
    withInputs proof publicInputHash
      (orchardRealProofStatusMalformed, requestHashOut, verifierInputHashOut)
      fun proof publicInputHash =>
        let check := orchardRealProofCheckV2 hash256 backend proof proofKind publicInputHash
        (check.status.asFfiCode, requestHashOut.copySome check.requestHash,
          verifierInputHashOut.copySome check.verifierInputHash)

def zkcShieldedOrchardRealProofCheckV3 (proof : Buffer) (proofKind : UInt8)
    (publicInputHash requestHashOut verifierInputHashOut nativeProofHashOut : Buffer) :
    Int × Buffer × Buffer × Buffer :=
  if !requestHashOut.isHashOut || !verifierInputHashOut.isHashOut ||
      !nativeProofHashOut.isHashOut then
    (orchardRealProofStatusMalformed, requestHashOut, verifierInputHashOut, nativeProofHashOut)
  else
    let requestHashOut := requestHashOut.writeZeros
    let verifierInputHashOut := verifierInputHashOut.writeZeros
    let nativeProofHashOut := nativeProofHashOut.writeZeros
    withInputs proof publicInputHash
      (orchardRealProofStatusMalformed, requestHashOut, verifierInputHashOut, nativeProofHashOut)
      fun proof publicInputHash =>
        let check := orchardRealProofCheckWithBackendV3 hash256 backend proof proofKind publicInputHash
        (check.status.asFfiCode, requestHashOut.copySome check.requestHash,
          verifierInputHashOut.copySome check.verifierInputHash,
          nativeProofHashOut.copySome check.nativeProofHash)

end

/-- `zkc_shielded_orchard_commitment_root_v1` of a build without the orchard crate -/
def zkcShieldedOrchardCommitmentRootV1 (commitments rootOut : Buffer) : Int × Buffer :=
  if !rootOut.isHashOut then (0, rootOut)
  else
    let rootOut := rootOut.writeZeros
    if commitments.len % hashSize ≠ 0 then (0, rootOut)
    else if commitments.isNull && commitments.len ≠ 0 then (0, rootOut)
    else (0, rootOut)

/-! ## the exports of the fallback -/

namespace Cpp

def shieldedProofHashSize : Nat := 32
def shieldedOrchardProofBodyModeUnknown : UInt8 := 0xff
def shieldedOrchardRealProofStatusMalformed : Int := 0
def shieldedOrchardRealProofStatusValid : Int := 1
def shieldedOrchardRealProofStatusInvalid : Int := -1
def shieldedOrchardRealProofStatusUnsupported : Int := -2

/-- `uint256(std::vector<unsigned char>(p, p + len))`, used after a test that `len` is 32 -/
def uint256Of (bytes : Bytes) : Uint256 :=
  if h : bytes.length = 32 then ⟨bytes, h⟩ else .null

/-- the tests that open a function of the fallback: both pointers, then the length of the public input
hash -/
def withInputs {α : Type} (input publicInputHash : Buffer) (failed : α) (f : Bytes → Uint256 → α) : α :=
  if input.isNull || publicInputHash.isNull then failed
  else if publicInputHash.len ≠ shieldedPublicInputHashSize then failed
  else f input.data (uint256Of publicInputHash.data)

/-- an output that is no null pointer and has room for exactly one hash -/
def isHashOut (out : Buffer) : Bool := !(out.isNull || out.len ≠ shieldedProofHashSize)

section
variable (hash256 : Bytes → Uint256)

def zkcShieldedVerifyBundleV4 (bundle : Buffer) (proofKind : UInt8) (publicInputHash : Buffer) : Int :=
  withInputs bundle publicInputHash 0 fun bundle publicInputHash =>
    let expected := buildProofBundleScaffoldV4 hash256 proofKind publicInputHash
    if expected.length = bundle.length ∧ expected <+: bundle then 1 else 0

/-- `VerifyProofBundleV4`, over the fallback -/
def verifyProofBundleV4 (bundle : Bytes) (proofKind : UInt8) (publicInputHash : Uint256) : Bool :=
  zkcShieldedVerifyBundleV4 hash256 (.bytes bundle) proofKind (.bytes publicInputHash.data) == 1

def zkcShieldedVerifyOrchardProofV1 (proofBody : Buffer) (proofKind : UInt8)
    (publicInputHash : Buffer) : Int :=
  withInputs proofBody publicInputHash 0 fun proofBody publicInputHash =>
    let expected := buildOrchardProofBodyScaffoldV1 hash256 proofKind publicInputHash
    if expected.length = proofBody.length ∧ expected <+: proofBody then 1 else 0

def zkcShieldedVerifyOrchardRealProofStatusV1 (proof : Buffer) (proofKind : UInt8)
    (publicInputHash : Buffer) : Int :=
  withInputs proof publicInputHash 0 fun proof publicInputHash =>
    match decodeOrchardRealProofV1 hash256 proof proofKind publicInputHash with
    | none => shieldedOrchardRealProofStatusMalformed
    | some proofBytes =>
      if (decodeOrchardNativeProofBytesV1 hash256 proofBytes proofKind publicInputHash).isSome then
        shieldedOrchardRealProofStatusUnsupported
      else shieldedOrchardRealProofStatusInvalid

def zkcShieldedVerifyOrchardRealProofV1 (proof : Buffer) (proofKind : UInt8)
    (publicInputHash : Buffer) : Int :=
  let status := zkcShieldedVerifyOrchardRealProofStatusV1 hash256 proof proofKind publicInputHash
  if status = shieldedOrchardRealProofStatusValid then 1 else 0

def zkcShieldedOrchardRealProofRequestHashV1 (proof : Buffer) (proofKind : UInt8)
    (publicInputHash requestHashOut : Buffer) : Int × Buffer :=
  if proof.isNull || publicInputHash.isNull || requestHashOut.isNull then (0, requestHashOut)
  else if publicInputHash.len ≠ shieldedPublicInputHashSize then (0, requestHashOut)
  else if requestHashOut.len ≠ shieldedProofHashSize then (0, requestHashOut)
  else
    let publicInputHash := uint256Of publicInputHash.data
    match decodeOrchardRealProofV1 hash256 proof.data proofKind publicInputHash with
    | none => (0, requestHashOut)
    | some proofBytes =>
      let data := orchardRealProofRequestPreimagePrefixV1 ++ [proofKind] ++ publicInputHash.data ++
        (expectedOrchardRealVerifierKeyHashV1 hash256).data
      let requestHash := hash256 (appendUint32 data (UInt32.ofNat proofBytes.length) ++ proofBytes)
      (1, requestHashOut.copy requestHash)

def zkcShieldedOrchardRealVerifierInputHashV1 (proof : Buffer) (proofKind : UInt8)
    (publicInputHash verifierInputHashOut : Buffer) : Int × Buffer :=
  if !isHashOut verifierInputHashOut then (0, verifierInputHashOut)
  else
    let verifierInputHashOut := verifierInputHashOut.fill
    withInputs proof publicInputHash (0, verifierInputHashOut) fun proof publicInputHash =>
      match decodeOrchardRealProofV1 hash256 proof proofKind publicInputHash with
      | none => (0, verifierInputHashOut)
      | some _ =>
        (1, verifierInputHashOut.copy (verifierInputHashV1 hash256 proofKind publicInputHash))

def zkcShieldedOrchardRealNativeProofHashV1 (proof : Buffer) (proofKind : UInt8)
    (publicInputHash nativeProofHashOut : Buffer) : Int × Buffer :=
  if !isHashOut nativeProofHashOut then (0, nativeProofHashOut)
  else
    let nativeProofHashOut := nativeProofHashOut.fill
    withInputs proof publicInputHash (0, nativeProofHashOut) fun proof publicInputHash =>
      match decodeOrchardRealProofV1 hash256 proof proofKind publicInputHash with
      | none => (0, nativeProofHashOut)
      | some proofBytes =>
        match decodeOrchardNativeProofBytesV1 hash256 proofBytes proofKind publicInputHash with
        | none => (0, nativeProofHashOut)
        | some nativeProofBytes =>
          (1, nativeProofHashOut.copy
            (expectedOrchardNativeProofHashV1 hash256 proofKind publicInputHash nativeProofBytes))

def zkcShieldedOrchardRealProofCheckV1 (proof : Buffer) (proofKind : UInt8)
    (publicInputHash requestHashOut : Buffer) : Int × Buffer :=
  if !isHashOut requestHashOut then (shieldedOrchardRealProofStatusMalformed, requestHashOut)
  else
    let requestHashOut := requestHashOut.fill
    let request := zkcShieldedOrchardRealProofRequestHashV1 hash256 proof proofKind publicInputHash
      requestHashOut
    if request.1 ≠ 1 then (shieldedOrchardRealProofStatusMalformed, request.2)
    else
      (zkcShieldedVerifyOrchardRealProofStatusV1 hash256 proof proofKind publicInputHash, request.2)

/-- the second hash is computed only when the first one succeeds -/
def zkcShieldedOrchardRealProofCheckV2 (proof : Buffer) (proofKind : UInt8)
    (publicInputHash requestHashOut verifierInputHashOut : Buffer) : Int × Buffer × Buffer :=
  if !isHashOut requestHashOut || !isHashOut verifierInputHashOut then
    (shieldedOrchardRealProofStatusMalformed, requestHashOut, verifierInputHashOut)
  else
    let requestHashOut := requestHashOut.fill
    let verifierInputHashOut := verifierInputHashOut.fill
    let request := zkcShieldedOrchardRealProofRequestHashV1 hash256 proof proofKind publicInputHash
      requestHashOut
    if request.1 ≠ 1 then
      (shieldedOrchardRealProofStatusMalformed, request.2.fill, verifierInputHashOut.fill)
    else
      let input := zkcShieldedOrchardRealVerifierInputHashV1 hash256 proof proofKind publicInputHash
        verifierInputHashOut
      if input.1 ≠ 1 then
        (shieldedOrchardRealProofStatusMalformed, request.2.fill, input.2.fill)
      else
        (zkcShieldedVerifyOrchardRealProofStatusV1 hash256 proof proofKind publicInputHash,
          request.2, input.2)

def zkcShieldedOrchardRealProofCheckV3 (proof : Buffer) (proofKind : UInt8)
    (publicInputHash requestHashOut verifierInputHashOut nativeProofHashOut : Buffer) :
    Int × Buffer × Buffer × Buffer :=
  if !isHashOut requestHashOut || !isHashOut verifierInputHashOut ||
      !isHashOut nativeProofHashOut then
    (shieldedOrchardRealProofStatusMalformed, requestHashOut, verifierInputHashOut,
      nativeProofHashOut)
  else
    let nativeProofHashOut := nativeProofHashOut.fill
    let check := zkcShieldedOrchardRealProofCheckV2 hash256 proof proofKind publicInputHash
      requestHashOut.fill verifierInputHashOut.fill
    if check.1 = shieldedOrchardRealProofStatusMalformed then
      (check.1, check.2.1, check.2.2, nativeProofHashOut)
    else
      let native := zkcShieldedOrchardRealNativeProofHashV1 hash256 proof proofKind publicInputHash
        nativeProofHashOut
      (check.1, check.2.1, check.2.2, native.2)

/-- the header checks at the start of `zkc_shielded_check_bundle_v4`, with the payload they leave -/
def proofPayloadOfBundleV4 (bundle : Bytes) (proofKind : UInt8) (publicInputHash : Uint256) :
    Option Bytes := do
  let versionOffset := proofBundlePrefixV4.length
  let kindOffset := versionOffset + 1
  let proofSystemOffset := kindOffset + 1
  let flagsOffset := proofSystemOffset + 1
  let publicInputOffset := flagsOffset + 1
  let proofLenOffset := publicInputOffset + shieldedPublicInputHashSize
  let proofOffset := proofLenOffset + 4
  guard (¬ bundle.length < proofOffset)
  guard (proofBundlePrefixV4 <+: bundle)
  guard (bundle[versionOffset]? = some shieldedProofBundleVersionV4)
  guard (bundle[kindOffset]? = some proofKind)
  guard (bundle[proofSystemOffset]? = some shieldedProofSystemOrchard)
  guard (bundle[flagsOffset]? = some shieldedProofBundleFlagsNone)
  guard (publicInputHash.data <+: bundle.drop publicInputOffset)
  guard ((readUint32 bundle proofLenOffset).toNat = bundle.length - proofOffset)
  some (bundle.drop proofOffset)

/-- `bundle_proof_offset` -/
def bundleProofOffset : Nat :=
  proofBundlePrefixV4.length + 1 + 1 + 1 + 1 + shieldedPublicInputHashSize + 4

def zkcShieldedCheckBundleV4 (bundle : Buffer) (proofKind : UInt8) (publicInputHash : Buffer)
    (modeOut : Option UInt8) (requestHashOut : Buffer) : Int × Option UInt8 × Buffer :=
  if modeOut.isNone || !isHashOut requestHashOut then
    (shieldedOrchardRealProofStatusMalformed, modeOut, requestHashOut)
  else
    let modeOut := some shieldedOrchardProofBodyModeUnknown
    let requestHashOut := requestHashOut.fill
    withInputs bundle publicInputHash
      (shieldedOrchardRealProofStatusMalformed, modeOut, requestHashOut)
      fun bundleBytes publicInputHashValue =>
        match proofPayloadOfBundleV4 bundleBytes proofKind publicInputHashValue with
        | none => (shieldedOrchardRealProofStatusMalformed, modeOut, requestHashOut)
        | some proofPayload =>
          match decodeOrchardProofBodyModeV1 proofPayload proofKind publicInputHashValue with
          | none => (shieldedOrchardRealProofStatusMalformed, modeOut, requestHashOut)
          | some mode =>
            if mode = shieldedOrchardProofBodyModeScaffold then
              (if verifyProofBundleV4 hash256 bundleBytes proofKind publicInputHashValue then
                  shieldedOrchardRealProofStatusValid
                else shieldedOrchardRealProofStatusInvalid,
                some mode, requestHashOut)
            else if mode ≠ shieldedOrchardProofBodyModeReal then
              (shieldedOrchardRealProofStatusMalformed, some mode, requestHashOut)
            else if proofPayload.length < realProofOffset then
              (shieldedOrchardRealProofStatusMalformed, some mode, requestHashOut)
            else
              let check := zkcShieldedOrchardRealProofCheckV1 hash256
                (.bytes (proofPayload.drop realProofOffset)) proofKind publicInputHash requestHashOut
              (check.1, some mode, check.2)

def zkcShieldedCheckBundleV5 (bundle : Buffer) (proofKind : UInt8) (publicInputHash : Buffer)
    (modeOut : Option UInt8) (requestHashOut verifierInputHashOut : Buffer) :
    Int × Option UInt8 × Buffer × Buffer :=
  if modeOut.isNone || !isHashOut requestHashOut || !isHashOut verifierInputHashOut then
    (shieldedOrchardRealProofStatusMalformed, modeOut, requestHashOut, verifierInputHashOut)
  else
    let verifierInputHashOut := verifierInputHashOut.fill
    let check := zkcShieldedCheckBundleV4 hash256 bundle proofKind publicInputHash
      (some shieldedOrchardProofBodyModeUnknown) requestHashOut.fill
    if check.2.1 ≠ some shieldedOrchardProofBodyModeReal || bundle.isNull then
      (check.1, check.2.1, check.2.2, verifierInputHashOut)
    else if bundle.data.length < bundleProofOffset then
      (shieldedOrchardRealProofStatusMalformed, check.2.1, check.2.2.fill, verifierInputHashOut)
    else
      let proofPayload := bundle.data.drop bundleProofOffset
      if proofPayload.length < realProofOffset then
        (shieldedOrchardRealProofStatusMalformed, check.2.1, check.2.2, verifierInputHashOut.fill)
      else
        let input := zkcShieldedOrchardRealVerifierInputHashV1 hash256
          (.bytes (proofPayload.drop realProofOffset)) proofKind publicInputHash verifierInputHashOut
        if input.1 ≠ 1 then
          (shieldedOrchardRealProofStatusMalformed, check.2.1, check.2.2, input.2.fill)
        else (check.1, check.2.1, check.2.2, input.2)

def zkcShieldedCheckBundleV6 (bundle : Buffer) (proofKind : UInt8) (publicInputHash : Buffer)
    (modeOut : Option UInt8) (requestHashOut verifierInputHashOut nativeProofHashOut : Buffer) :
    Int × Option UInt8 × Buffer × Buffer × Buffer :=
  if modeOut.isNone || !isHashOut requestHashOut || !isHashOut verifierInputHashOut ||
      !isHashOut nativeProofHashOut then
    (shieldedOrchardRealProofStatusMalformed, modeOut, requestHashOut, verifierInputHashOut,
      nativeProofHashOut)
  else
    let nativeProofHashOut := nativeProofHashOut.fill
    let check := zkcShieldedCheckBundleV5 hash256 bundle proofKind publicInputHash
      (some shieldedOrchardProofBodyModeUnknown) requestHashOut.fill verifierInputHashOut.fill
    if check.2.1 ≠ some shieldedOrchardProofBodyModeReal || bundle.isNull then
      (check.1, check.2.1, check.2.2.1, check.2.2.2, nativeProofHashOut)
    else if bundle.data.length < bundleProofOffset then
      (shieldedOrchardRealProofStatusMalformed, check.2.1, check.2.2.1, check.2.2.2,
        nativeProofHashOut)
    else
      let proofPayload := bundle.data.drop bundleProofOffset
      if proofPayload.length < realProofOffset then
        (shieldedOrchardRealProofStatusMalformed, check.2.1, check.2.2.1, check.2.2.2,
          nativeProofHashOut)
      else
        let native := zkcShieldedOrchardRealNativeProofHashV1 hash256
          (.bytes (proofPayload.drop realProofOffset)) proofKind publicInputHash nativeProofHashOut
        (check.1, check.2.1, check.2.2.1, check.2.2.2, native.2)

end

def zkcShieldedOrchardCommitmentRootV1 (commitments rootOut : Buffer) : Int × Buffer :=
  if rootOut.isNull || rootOut.len ≠ shieldedProofHashSize then (0, rootOut)
  else
    let rootOut := rootOut.fill
    if commitments.isNull && commitments.len ≠ 0 then (0, rootOut)
    else (0, rootOut)

end Cpp

end Shielded
