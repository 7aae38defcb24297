import ZkCoin.Shielded.ChainState

/-!
# Building markers and proof envelopes

The builders that wallets and tests use, layer by layer: body, payload, bundle, then the marker
payload and the envelope of a transaction.

* `buildProofBundleV4`   — a scaffold bundle.
* `buildMintPayload`, `buildSpendPayload` — the `OP_RETURN` payload of a marker.
* `buildProofEnvelope`, `buildRealProofEnvelope` — the witness item that proves a marker.
* `sampleMint`, `sampleSpend` — concrete transactions with scaffold envelopes.
-/

open Bytes Serialize

namespace Shielded

def buildOrchardProofBodyWithModeV1 (mode : UInt8) (proofBytes : Bytes) : Bytes :=
  orchardProofBodyPrefixV1 ++ [mode] ++ leBytes 4 proofBytes.length ++ proofBytes

def buildOrchardProofPayloadWithBodyV1 (proofKind : UInt8) (publicInputHash : Uint256)
    (proofBody : Bytes) : Bytes :=
  orchardProofPayloadPrefixV1 ++ [proofKind] ++ publicInputHash.data ++ leBytes 4 proofBody.length ++
    proofBody

def buildProofBundleWithPayloadV4 (proofKind : UInt8) (publicInputHash : Uint256)
    (proofPayload : Bytes) : Bytes :=
  proofBundlePrefixV4 ++ [proofBundleVersionV4] ++ [proofKind] ++ [proofSystemOrchard] ++
    [proofBundleFlagsNone] ++ publicInputHash.data ++ leBytes 4 proofPayload.length ++ proofPayload

section
variable (hash256 : Bytes → Uint256)

def buildOrchardProofBodyV1 (proofKind : UInt8) (publicInputHash : Uint256) : Bytes :=
  buildOrchardProofBodyWithModeV1 orchardProofBodyModeScaffold
    (expectedProofPayloadV4 hash256 proofKind publicInputHash).data

def buildOrchardProofPayloadV1 (proofKind : UInt8) (publicInputHash : Uint256) : Bytes :=
  buildOrchardProofPayloadWithBodyV1 proofKind publicInputHash
    (buildOrchardProofBodyV1 hash256 proofKind publicInputHash)

def buildProofBundleV4 (proofKind : UInt8) (publicInputHash : Uint256) : Bytes :=
  buildProofBundleWithPayloadV4 proofKind publicInputHash
    (buildOrchardProofPayloadV1 hash256 proofKind publicInputHash)

def buildOrchardRealProofBodyWithContextV1 (proofKind : UInt8) (publicInputHash : Uint256)
    (proofBytes : Bytes) : Bytes :=
  buildOrchardProofBodyWithModeV1 orchardProofBodyModeReal
    (buildOrchardRealProofV1 hash256 proofKind publicInputHash proofBytes)

/-- `BuildMintPayload` -/
def buildMintPayload (commitment : Uint256) (amount : Int) : Bytes :=
  markerPrefix ++ [shieldedActionMint] ++ intBytes valueSize amount ++ commitment.data ++
    expectedProofTag hash256 ⟨.mint, amount, .null, commitment, .null, []⟩

/-- `BuildSpendPayload` -/
def buildSpendPayload (nullifier anchor : Uint256) (amount : Int) : Bytes :=
  markerPrefix ++ [shieldedActionSpend] ++ intBytes valueSize amount ++ nullifier.data ++
    anchor.data ++ expectedProofTag hash256 ⟨.spend, amount, anchor, .null, nullifier, []⟩

/-- `BuildProofEnvelope` -/
def buildProofEnvelope (m : Marker) (tx : CTransaction) : Bytes :=
  buildProofBundleV4 hash256 m.action.byte (buildProofPublicInputHash hash256 m tx)

/-- `BuildRealProofEnvelope` -/
def buildRealProofEnvelope (m : Marker) (tx : CTransaction) (proofBytes : Bytes) : Bytes :=
  let publicInputHash := buildProofPublicInputHash hash256 m tx
  buildProofBundleWithPayloadV4 m.action.byte publicInputHash
    (buildOrchardProofPayloadWithBodyV1 m.action.byte publicInputHash
      (buildOrchardRealProofBodyWithContextV1 hash256 m.action.byte publicInputHash proofBytes))

end

/-! ## concrete transactions -/

def sampleVerifier : Verifier := ⟨unsupportedBackend Uint256.polyHash, fun _ => none⟩

def sampleMarkerTx (n : UInt32) (payload : Bytes) (witness : List Bytes) : CTransaction where
  vin := [⟨⟨.ofNat 77, n⟩, [], 0xffffffff, witness⟩]
  vout := [⟨0, Script.opReturn :: Script.pushData payload⟩]
  nVersion := 2
  nLockTime := 0
  mwebTx := none
  hogEx := false

def sampleMint (n : UInt32) (commitment : Uint256) (amount : Int) : CTransaction :=
  let payload := buildMintPayload Uint256.polyHash commitment amount
  sampleMarkerTx n payload [buildProofEnvelope Uint256.polyHash
    ⟨.mint, amount, .null, commitment, .null, []⟩ (sampleMarkerTx n payload [])]

def sampleSpend (n : UInt32) (nullifier anchor : Uint256) (amount : Int) : CTransaction :=
  let payload := buildSpendPayload Uint256.polyHash nullifier anchor amount
  sampleMarkerTx n payload [buildProofEnvelope Uint256.polyHash
    ⟨.spend, amount, anchor, .null, nullifier, []⟩ (sampleMarkerTx n payload [])]

def sampleBlock (vtx : List CTransaction) : CBlock where
  header := ⟨⟨0x20000000, .null, .null, 0, 0, 0⟩, none⟩
  vtx := vtx
  mwebBlock := none

/-- a chain with the tip first: a block below the activation height 1, a mint of 10, a spend of 4 -/
def sampleChain : List CBlock :=
  [sampleBlock [sampleSpend 1 (.ofNat 6)
      (nextCommitmentRoot Uint256.polyHash sampleVerifier [] .null 0 (.ofNat 5)) 4],
    sampleBlock [sampleMint 0 (.ofNat 5) 10],
    sampleBlock []]

end Shielded
