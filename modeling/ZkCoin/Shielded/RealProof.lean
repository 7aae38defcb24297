import ZkCoin.Primitives.Uint256

/-!
# The shielded verifier crate: real Orchard proofs

The codecs and the halo2 backend of the verifier crate.  A marker output of the node is proved by
three nested encodings: a halo2 payload (one action, or a bundle of actions with one of them
selected), wrapped as native proof bytes bound to the verifier input hash, wrapped as a real-proof
request bound to the public input hash.

* `orchardHalo2ActionPublicInputHashV1` — what a marker commits to: kind, value, binding and one
                                          action's fields.
* `buildOrchard…`, `decodeOrchard…`     — the builders and the offset decoders.
* `verifyOrchardHalo2ActionProofV1`     — the orchard-verifier backend.

The hash and the vendored `orchard` crate are parameters.
-/

open Bytes

namespace Shielded

def ascii (s : String) : Bytes := s.toList.map fun c => UInt8.ofNat c.toNat

/-! ## constants -/

def hashSize : Nat := 32

def proofPublicInputPreimagePrefix : Bytes := ascii "zkc-public-input-v1"
def shieldedMarkerProofPreimagePrefix : Bytes := ascii "zkc-proof-v0"
def orchardRealProofPrefixV1 : Bytes := ascii "zkc-orchard-real-v1"
def orchardRealNativeProofPrefixV1 : Bytes := ascii "zkc-orchard-native-proof-v1"
def orchardHalo2ActionProofPrefixV1 : Bytes := ascii "zkc-orchard-halo2-action-v1"
def orchardHalo2BundleProofPrefixV1 : Bytes := ascii "zkc-orchard-halo2-bundle-v1"
def orchardRealNativeProofHashPreimagePrefixV1 : Bytes := ascii "zkc-orchard-native-proof-hash-v1"
def orchardRealProofRequestPreimagePrefixV1 : Bytes := ascii "zkc-orchard-real-request-v1"
def orchardRealVerifierInputPreimagePrefixV1 : Bytes := ascii "zkc-orchard-real-input-v1"
def orchardRealVerifierKeyHashPreimagePrefixV1 : Bytes := ascii "zkc-orchard-real-vk-v1"

def proofBundleFlagsNone : UInt8 := 0
def shieldedActionMint : UInt8 := 1
def shieldedActionSpend : UInt8 := 2

def orchardRealProofHeaderLenV1 : Nat :=
  orchardRealProofPrefixV1.length + 1 + 1 + hashSize + hashSize + 4

def orchardRealNativeProofHeaderLenV1 : Nat :=
  orchardRealNativeProofPrefixV1.length + 1 + hashSize + hashSize + 4

def orchardHalo2ActionProofHeaderLenV1 : Nat :=
  orchardHalo2ActionProofPrefixV1.length + 1 + 8 + hashSize + hashSize * 5 + 2 + 4

def orchardHalo2ActionRecordLenV1 : Nat := hashSize * 5

def orchardHalo2BundleProofFixedHeaderLenV1 : Nat :=
  orchardHalo2BundleProofPrefixV1.length + 1 + 4 + 4 + 8 + hashSize + 2

/-! ## data -/

inductive OrchardRealProofStatus
  | valid
  | malformed
  | invalid
  | unsupported
  deriving DecidableEq, Repr

structure OrchardRealProofRequest where
  proofKind : UInt8
  publicInputHash : Uint256
  verifierKeyHash : Uint256
  proofBytes : Bytes
  deriving DecidableEq

structure OrchardRealVerifierInput where
  proofKind : UInt8
  publicInputHash : Uint256
  verifierKeyHash : Uint256
  deriving DecidableEq

structure OrchardNativeProof where
  verifierKeyHash : Uint256
  verifierInputHash : Uint256
  proofBytes : Bytes
  deriving DecidableEq

structure OrchardHalo2ActionInstanceV1 where
  anchor : Uint256
  cvNet : Uint256
  nfOld : Uint256
  rk : Uint256
  cmx : Uint256
  deriving DecidableEq

/-- the crate's `OrchardHalo2ActionProof`, its five action fields kept together as an instance -/
structure OrchardHalo2ActionProof where
  proofKind : UInt8
  shieldedValue : UInt64
  txBindingHash : Uint256
  action : OrchardHalo2ActionInstanceV1
  enableSpend : Bool
  enableOutput : Bool
  proofBytes : Bytes
  deriving DecidableEq

structure OrchardHalo2BundleProof where
  proofKind : UInt8
  markerActionIndex : UInt32
  shieldedValue : UInt64
  txBindingHash : Uint256
  enableSpend : Bool
  enableOutput : Bool
  actions : List OrchardHalo2ActionInstanceV1
  proofBytes : Bytes
  deriving DecidableEq

/-- the vendored `orchard` crate as the verifier uses it: the field decoders, `Instance::from_parts`
and `Proof::verify` under the crate's verifying key -/
structure OrchardCrate where
  Anchor : Type
  ValueCommitment : Type
  Nullifier : Type
  VerificationKey : Type
  ExtractedNoteCommitment : Type
  Instance : Type
  anchorFromBytes : Uint256 → Option Anchor
  valueCommitmentFromBytes : Uint256 → Option ValueCommitment
  nullifierFromBytes : Uint256 → Option Nullifier
  verificationKeyTryFrom : Uint256 → Option VerificationKey
  extractedNoteCommitmentFromBytes : Uint256 → Option ExtractedNoteCommitment
  instanceFromParts : Anchor → ValueCommitment → Nullifier → VerificationKey →
    ExtractedNoteCommitment → Bool → Bool → Option Instance
  proofVerify : Bytes → List Instance → Bool

section
variable (hash256 : Bytes → Uint256)

/-! ## hashes -/

def OrchardRealProofRequest.verifierInput (request : OrchardRealProofRequest) :
    OrchardRealVerifierInput :=
  ⟨request.proofKind, request.publicInputHash, request.verifierKeyHash⟩

def OrchardRealVerifierInput.inputHashV1 (input : OrchardRealVerifierInput) : Uint256 :=
  hash256 (orchardRealVerifierInputPreimagePrefixV1 ++ [input.proofKind] ++
    input.publicInputHash.data ++ input.verifierKeyHash.data)

def OrchardRealProofRequest.verifierInputHashV1 (request : OrchardRealProofRequest) : Uint256 :=
  request.verifierInput.inputHashV1 hash256

/-- the `try_into` of the length panics from `2 ^ 32` on; a decoded request is shorter -/
def OrchardRealProofRequest.requestHashV1 (request : OrchardRealProofRequest) : Uint256 :=
  hash256 (orchardRealProofRequestPreimagePrefixV1 ++ [request.proofKind] ++
    request.publicInputHash.data ++ request.verifierKeyHash.data ++
    leBytes 4 request.proofBytes.length ++ request.proofBytes)

def OrchardNativeProof.proofHashV1 (proof : OrchardNativeProof) : Uint256 :=
  hash256 (orchardRealNativeProofHashPreimagePrefixV1 ++ proof.verifierKeyHash.data ++
    proof.verifierInputHash.data ++ leBytes 4 proof.proofBytes.length ++ proof.proofBytes)

def proofPublicInputPreimage (proofKind : UInt8) (fieldHash txBindingHash : Uint256) : Bytes :=
  proofPublicInputPreimagePrefix ++ [proofKind] ++ fieldHash.data ++ txBindingHash.data

def proofPublicInputHash (proofKind : UInt8) (fieldHash txBindingHash : Uint256) : Uint256 :=
  hash256 (proofPublicInputPreimage proofKind fieldHash txBindingHash)

/-- the preimage of the marker field hash, the node's `BuildProofPreimage` -/
def shieldedMarkerFieldPreimageV1 (proofKind : UInt8) (shieldedValue : UInt64)
    (anchor nfOld cmx : Uint256) : Option Bytes :=
  let preimage := shieldedMarkerProofPreimagePrefix ++ [proofKind] ++ u64Bytes shieldedValue
  if proofKind = shieldedActionMint then some (preimage ++ cmx.data)
  else if proofKind = shieldedActionSpend then some (preimage ++ nfOld.data ++ anchor.data)
  else none

def shieldedMarkerFieldHashV1 (proofKind : UInt8) (shieldedValue : UInt64)
    (anchor nfOld cmx : Uint256) : Option Uint256 :=
  (shieldedMarkerFieldPreimageV1 proofKind shieldedValue anchor nfOld cmx).map hash256

def expectedOrchardRealVerifierKeyHashV1 : Uint256 :=
  hash256 orchardRealVerifierKeyHashPreimagePrefixV1

def orchardHalo2ActionFlagsMatchMarkerV1 (proofKind : UInt8) (enableSpend enableOutput : Bool) :
    Bool :=
  if proofKind = shieldedActionMint then !enableSpend && enableOutput
  else if proofKind = shieldedActionSpend then enableSpend && !enableOutput
  else false

/-- `cv_net` and `rk` are parameters of the source that it never reads -/
def orchardHalo2ActionPublicInputHashV1 (proofKind : UInt8) (shieldedValue : UInt64)
    (txBindingHash : Uint256) (action : OrchardHalo2ActionInstanceV1)
    (enableSpend enableOutput : Bool) : Option Uint256 := do
  guard (orchardHalo2ActionFlagsMatchMarkerV1 proofKind enableSpend enableOutput)
  let fieldHash ← shieldedMarkerFieldHashV1 hash256 proofKind shieldedValue action.anchor
    action.nfOld action.cmx
  some (proofPublicInputHash hash256 proofKind fieldHash txBindingHash)

/-! ## builders -/

def boolByte (b : Bool) : UInt8 := if b then 1 else 0

def buildOrchardRealProofV1 (proofKind : UInt8) (publicInputHash : Uint256) (proofBytes : Bytes) :
    Bytes :=
  orchardRealProofPrefixV1 ++ [proofBundleFlagsNone] ++ [proofKind] ++ publicInputHash.data ++
    (expectedOrchardRealVerifierKeyHashV1 hash256).data ++ leBytes 4 proofBytes.length ++ proofBytes

def buildOrchardNativeProofBytesV1 (input : OrchardRealVerifierInput) (proofBytes : Bytes) : Bytes :=
  orchardRealNativeProofPrefixV1 ++ [proofBundleFlagsNone] ++ input.verifierKeyHash.data ++
    (input.inputHashV1 hash256).data ++ leBytes 4 proofBytes.length ++ proofBytes

/-- the 160-byte record of an action, in the order both payloads write it -/
def OrchardHalo2ActionInstanceV1.record (a : OrchardHalo2ActionInstanceV1) : Bytes :=
  a.anchor.data ++ a.cvNet.data ++ a.nfOld.data ++ a.rk.data ++ a.cmx.data

def buildOrchardHalo2ActionProofBytesV1 (proofKind : UInt8) (shieldedValue : UInt64)
    (txBindingHash : Uint256) (action : OrchardHalo2ActionInstanceV1)
    (enableSpend enableOutput : Bool) (proofBytes : Bytes) : Bytes :=
  orchardHalo2ActionProofPrefixV1 ++ [proofKind] ++ u64Bytes shieldedValue ++ txBindingHash.data ++
    action.record ++ [boolByte enableSpend] ++ [boolByte enableOutput] ++
    leBytes 4 proofBytes.length ++ proofBytes

def buildOrchardHalo2BundleProofBytesV1 (proofKind : UInt8) (markerActionIndex : UInt32)
    (shieldedValue : UInt64) (txBindingHash : Uint256)
    (actions : List OrchardHalo2ActionInstanceV1) (enableSpend enableOutput : Bool)
    (proofBytes : Bytes) : Bytes :=
  orchardHalo2BundleProofPrefixV1 ++ [proofKind] ++ leBytes 4 actions.length ++
    u32Bytes markerActionIndex ++ u64Bytes shieldedValue ++ txBindingHash.data ++
    [boolByte enableSpend] ++ [boolByte enableOutput] ++
    actions.flatMap OrchardHalo2ActionInstanceV1.record ++
    leBytes 4 proofBytes.length ++ proofBytes

/-! ## decoders -/

def decodeOrchardRealProofRequestV1 (proof : Bytes) (proofKind : UInt8)
    (publicInputHash : Uint256) : Option OrchardRealProofRequest := do
  guard (orchardRealProofHeaderLenV1 ≤ proof.length)
  guard (orchardRealProofPrefixV1 <+: proof)
  let flagsOffset := orchardRealProofPrefixV1.length
  let kindOffset := flagsOffset + 1
  let publicInputOffset := kindOffset + 1
  let verifierKeyHashOffset := publicInputOffset + hashSize
  let proofLenOffset := verifierKeyHashOffset + hashSize
  let proofOffset := proofLenOffset + 4
  guard (proof[flagsOffset]? = some proofBundleFlagsNone)
  guard (proof[kindOffset]? = some proofKind)
  guard (Uint256.readAt proof publicInputOffset = some publicInputHash)
  let verifierKeyHash ← Uint256.readAt proof verifierKeyHashOffset
  guard (verifierKeyHash = expectedOrchardRealVerifierKeyHashV1 hash256)
  guard ((u32At proof proofLenOffset).toNat = proof.length - proofOffset)
  some ⟨proofKind, publicInputHash, verifierKeyHash, proof.drop proofOffset⟩

def decodeOrchardNativeProofBytesV1 (request : OrchardRealProofRequest) :
    Option OrchardNativeProof := do
  let proof := request.proofBytes
  guard (orchardRealNativeProofHeaderLenV1 ≤ proof.length)
  guard (orchardRealNativeProofPrefixV1 <+: proof)
  let flagsOffset := orchardRealNativeProofPrefixV1.length
  let verifierKeyHashOffset := flagsOffset + 1
  let verifierInputOffset := verifierKeyHashOffset + hashSize
  let proofLenOffset := verifierInputOffset + hashSize
  let proofOffset := proofLenOffset + 4
  guard (proof[flagsOffset]? = some proofBundleFlagsNone)
  let verifierKeyHash ← Uint256.readAt proof verifierKeyHashOffset
  guard (verifierKeyHash = request.verifierKeyHash)
  let verifierInputHash ← Uint256.readAt proof verifierInputOffset
  guard (verifierInputHash = request.verifierInputHashV1 hash256)
  let proofLen := (u32At proof proofLenOffset).toNat
  guard (¬ (proofLen = 0 ∨ proofLen ≠ proof.length - proofOffset))
  some ⟨verifierKeyHash, verifierInputHash, proof.drop proofOffset⟩

/-- a flag byte is `0` or `1`, anything else is rejected -/
def flagAt (bs : Bytes) (off : Nat) : Option Bool := do
  let b ← bs[off]?
  if b = 0 then some false else if b = 1 then some true else none

/-- the five fields of an action record at `off` -/
def OrchardHalo2ActionInstanceV1.readAt (bs : Bytes) (off : Nat) :
    Option OrchardHalo2ActionInstanceV1 := do
  let anchor ← Uint256.readAt bs off
  let cvNet ← Uint256.readAt bs (off + hashSize)
  let nfOld ← Uint256.readAt bs (off + 2 * hashSize)
  let rk ← Uint256.readAt bs (off + 3 * hashSize)
  let cmx ← Uint256.readAt bs (off + 4 * hashSize)
  some ⟨anchor, cvNet, nfOld, rk, cmx⟩

def decodeOrchardHalo2ActionProofBytesV1 (proof : Bytes) (proofKind : UInt8)
    (publicInputHash : Uint256) : Option OrchardHalo2ActionProof := do
  guard (orchardHalo2ActionProofHeaderLenV1 ≤ proof.length)
  guard (orchardHalo2ActionProofPrefixV1 <+: proof)
  let kindOffset := orchardHalo2ActionProofPrefixV1.length
  let valueOffset := kindOffset + 1
  let txBindingOffset := valueOffset + 8
  let anchorOffset := txBindingOffset + hashSize
  let enableSpendOffset := anchorOffset + orchardHalo2ActionRecordLenV1
  let enableOutputOffset := enableSpendOffset + 1
  let proofLenOffset := enableOutputOffset + 1
  let proofOffset := proofLenOffset + 4
  guard (proof[kindOffset]? = some proofKind)
  let shieldedValue := u64At proof valueOffset
  let txBindingHash ← Uint256.readAt proof txBindingOffset
  let action ← OrchardHalo2ActionInstanceV1.readAt proof anchorOffset
  let enableSpend ← flagAt proof enableSpendOffset
  let enableOutput ← flagAt proof enableOutputOffset
  guard (orchardHalo2ActionFlagsMatchMarkerV1 proofKind enableSpend enableOutput)
  let inputHash ← orchardHalo2ActionPublicInputHashV1 hash256 proofKind shieldedValue txBindingHash
    action enableSpend enableOutput
  guard (inputHash = publicInputHash)
  let proofLen := (u32At proof proofLenOffset).toNat
  guard (¬ (proofLen = 0 ∨ proofLen ≠ proof.length - proofOffset))
  some ⟨proofKind, shieldedValue, txBindingHash, action, enableSpend, enableOutput,
    proof.drop proofOffset⟩

def decodeOrchardHalo2BundleProofBytesV1 (proof : Bytes) (proofKind : UInt8)
    (publicInputHash : Uint256) : Option OrchardHalo2BundleProof := do
  guard (orchardHalo2BundleProofFixedHeaderLenV1 + 4 ≤ proof.length)
  guard (orchardHalo2BundleProofPrefixV1 <+: proof)
  let kindOffset := orchardHalo2BundleProofPrefixV1.length
  let actionCountOffset := kindOffset + 1
  let markerActionIndexOffset := actionCountOffset + 4
  let valueOffset := markerActionIndexOffset + 4
  let txBindingOffset := valueOffset + 8
  let enableSpendOffset := txBindingOffset + hashSize
  let enableOutputOffset := enableSpendOffset + 1
  let actionRecordsOffset := enableOutputOffset + 1
  guard (proof[kindOffset]? = some proofKind)
  let actionCount := (u32At proof actionCountOffset).toNat
  guard (actionCount ≠ 0)
  let markerActionIndex := u32At proof markerActionIndexOffset
  guard (¬ actionCount ≤ markerActionIndex.toNat)
  let shieldedValue := u64At proof valueOffset
  let txBindingHash ← Uint256.readAt proof txBindingOffset
  let enableSpend ← flagAt proof enableSpendOffset
  let enableOutput ← flagAt proof enableOutputOffset
  guard (orchardHalo2ActionFlagsMatchMarkerV1 proofKind enableSpend enableOutput)
  -- the checked arithmetic of the source cannot overflow: the count is below `2 ^ 32`
  let proofLenOffset := actionRecordsOffset + actionCount * orchardHalo2ActionRecordLenV1
  let proofOffset := proofLenOffset + 4
  guard (proofOffset ≤ proof.length)
  let actions ← (List.range actionCount).mapM fun index =>
    OrchardHalo2ActionInstanceV1.readAt proof
      (actionRecordsOffset + index * orchardHalo2ActionRecordLenV1)
  let markerAction ← actions[markerActionIndex.toNat]?
  let inputHash ← orchardHalo2ActionPublicInputHashV1 hash256 proofKind shieldedValue txBindingHash
    markerAction enableSpend enableOutput
  guard (inputHash = publicInputHash)
  let proofLen := (u32At proof proofLenOffset).toNat
  guard (¬ (proofLen = 0 ∨ proofLen ≠ proof.length - proofOffset))
  some ⟨proofKind, markerActionIndex, shieldedValue, txBindingHash, enableSpend, enableOutput,
    actions, proof.drop proofOffset⟩

/-! ## the orchard-verifier backend -/

variable (orchard : OrchardCrate)

def orchardInstanceFromHalo2ActionFieldsV1 (enableSpend enableOutput : Bool)
    (action : OrchardHalo2ActionInstanceV1) : Option orchard.Instance := do
  let anchor ← orchard.anchorFromBytes action.anchor
  let cvNet ← orchard.valueCommitmentFromBytes action.cvNet
  let nfOld ← orchard.nullifierFromBytes action.nfOld
  let rk ← orchard.verificationKeyTryFrom action.rk
  let cmx ← orchard.extractedNoteCommitmentFromBytes action.cmx
  orchard.instanceFromParts anchor cvNet nfOld rk cmx enableSpend enableOutput

/-- `proof.verify(vk, instances)` as a status, with `None` for a failed instance conversion -/
def halo2StatusV1 (proofBytes : Bytes) : Option (List orchard.Instance) → OrchardRealProofStatus
  | none => .invalid
  | some instances => if orchard.proofVerify proofBytes instances then .valid else .invalid

def verifyOrchardHalo2ActionProofV1 (request : OrchardRealProofRequest) :
    OrchardRealProofStatus :=
  match decodeOrchardNativeProofBytesV1 hash256 request with
  | none => .invalid
  | some native =>
    match decodeOrchardHalo2ActionProofBytesV1 hash256 native.proofBytes request.proofKind
        request.publicInputHash with
    | some action =>
      halo2StatusV1 orchard action.proofBytes
        ((orchardInstanceFromHalo2ActionFieldsV1 orchard action.enableSpend action.enableOutput
          action.action).map ([·]))
    | none =>
      match decodeOrchardHalo2BundleProofBytesV1 hash256 native.proofBytes request.proofKind
          request.publicInputHash with
      | some bundle =>
        halo2StatusV1 orchard bundle.proofBytes
          (bundle.actions.mapM (orchardInstanceFromHalo2ActionFieldsV1 orchard bundle.enableSpend
            bundle.enableOutput))
      | none => .invalid

end

end Shielded
