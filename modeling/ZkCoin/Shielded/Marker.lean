import ZkCoin.Primitives.Transaction
import ZkCoin.Shielded.Bundle

/-!
# Shielded markers and their proof envelopes

A transaction enters or leaves the shielded pool through a marker: an `OP_RETURN` output whose
payload names a mint or a spend.  The proof of a marker travels in the witness stacks of the same
transaction.

* `extractMarkerPayload`, `decodeMarkerPayload` — recognising and parsing a marker output.
* `checkProofEnvelope`                          — the scan of the witness stacks.
* `checkTransaction`                            — the context-free rules, with the markers found.
* `getTransactionValuePoolDelta`                — what the markers add to the pool.
-/

open Bytes Serialize

namespace Shielded

/-! ## markers -/

/-- `ACTION_MINT` and `ACTION_SPEND` -/
inductive MarkerAction
  | mint
  | spend
  deriving DecidableEq, Repr

def MarkerAction.byte : MarkerAction → UInt8
  | .mint => shieldedActionMint
  | .spend => shieldedActionSpend

structure Marker where
  action : MarkerAction
  nValue : Int
  anchor : Uint256
  commitment : Uint256
  nullifier : Uint256
  proofTag : Bytes
  deriving DecidableEq

namespace Marker

def hasCommitment (m : Marker) : Bool := m.action == .mint
def hasNullifier (m : Marker) : Bool := m.action == .spend
def hasAnchor (m : Marker) : Bool := m.action == .spend

def valuePoolDelta (m : Marker) : Int :=
  match m.action with
  | .mint => m.nValue
  | .spend => -m.nValue

end Marker

def fieldSize : Nat := 32
def valueSize : Nat := 8
def proofTagSize : Nat := 3

def markerPrefix : Bytes := ascii "zkc0"
def proofEnvelopePrefix : Bytes := ascii "zkc-p4"

/-- `ExtractMarkerPayload`: `OP_RETURN`, one push, nothing else, and the payload has the prefix -/
def extractMarkerPayload (script : Bytes) : Option Bytes := do
  let (opcode, _, rest) ← Script.getOp script
  guard (opcode = Script.opReturn)
  let (_, payload, rest) ← Script.getOp rest
  guard (rest = [])
  guard (markerPrefix <+: payload)
  some payload

def isMarkerPayloadWellFormed (payload : Bytes) : Bool :=
  match payload[markerPrefix.length]? with
  | none => false
  | some action =>
    if action = shieldedActionMint then
      payload.length == markerPrefix.length + 1 + valueSize + fieldSize + proofTagSize
    else if action = shieldedActionSpend then
      payload.length == markerPrefix.length + 1 + valueSize + fieldSize + fieldSize + proofTagSize
    else false

/-- `DecodeMarkerPayload` -/
def decodeMarkerPayload (payload : Bytes) : Option Marker := do
  guard (isMarkerPayloadWellFormed payload)
  let actionOffset := markerPrefix.length
  let valueOffset := actionOffset + 1
  let fieldOffset := valueOffset + valueSize
  let encodedValue := leNat (slice payload valueOffset (valueOffset + valueSize))
  guard (¬ maxMoney.toNat < encodedValue)
  let action ← payload[actionOffset]?
  if action = shieldedActionMint then
    let commitment ← Uint256.readAt payload fieldOffset
    let proofOffset := fieldOffset + fieldSize
    some ⟨.mint, encodedValue, .null, commitment, .null,
      slice payload proofOffset (proofOffset + proofTagSize)⟩
  else if action = shieldedActionSpend then
    let nullifier ← Uint256.readAt payload fieldOffset
    let anchor ← Uint256.readAt payload (fieldOffset + fieldSize)
    let proofOffset := fieldOffset + fieldSize + fieldSize
    some ⟨.spend, encodedValue, anchor, .null, nullifier,
      slice payload proofOffset (proofOffset + proofTagSize)⟩
  else none

/-! ## what a marker's proof commits to -/

/-- `BuildProofPreimage` -/
def buildProofPreimage (m : Marker) : Bytes :=
  shieldedMarkerProofPreimagePrefix ++ [m.action.byte] ++ intBytes valueSize m.nValue ++
    match m.action with
    | .mint => m.commitment.data
    | .spend => m.nullifier.data ++ m.anchor.data

section
variable (hash256 : Bytes → Uint256)

def expectedProofHash (m : Marker) : Uint256 := hash256 (buildProofPreimage m)

def expectedProofTag (m : Marker) : Bytes := (expectedProofHash hash256 m).data.take proofTagSize

/-- `TransactionBindingHash`: witness and extension-block data are not covered -/
def transactionBindingHash (tx : CTransaction) : Uint256 := hash256 tx.serializeNoWitness

def buildProofPublicInputHash (m : Marker) (tx : CTransaction) : Uint256 :=
  proofPublicInputHash hash256 m.action.byte (expectedProofHash hash256 m)
    (transactionBindingHash hash256 tx)

/-! ## commitment roots -/

def appendCommitmentRoot (previousRoot : Uint256) (position : Nat) (commitment : Uint256) : Uint256 :=
  hash256 (ascii "zkc-note-root-v0" ++ previousRoot.data ++ leBytes 8 position ++ commitment.data)

/-- the verifier library a node is linked with -/
structure Verifier where
  backend : OrchardRealProofBackend
  orchardCommitmentRootV1 : List Uint256 → Option Uint256

/-- `NextCommitmentRoot` -/
def nextCommitmentRoot (verifier : Verifier) (commitments : List Uint256) (previousRoot : Uint256)
    (position : Nat) (commitment : Uint256) : Uint256 :=
  if verifier.backend.backend.supportsRealProofs then
    match verifier.orchardCommitmentRootV1 (commitments ++ [commitment]) with
    | some root => root
    | none => appendCommitmentRoot hash256 previousRoot position commitment
  else appendCommitmentRoot hash256 previousRoot position commitment

end

/-! ## proof envelopes -/

/-- `SHIELDED_ORCHARD_PROOF_BODY_MODE_UNKNOWN` -/
def orchardProofBodyModeUnknown : UInt8 := 0xff

structure ProofEnvelopeCheck where
  found : Bool
  proofStatus : OrchardRealProofStatus
  proofBodyMode : UInt8
  realRequestHash : Uint256
  realVerifierInputHash : Uint256
  realNativeProofHash : Uint256
  deriving DecidableEq

namespace ProofEnvelopeCheck

def init : ProofEnvelopeCheck :=
  ⟨false, .malformed, orchardProofBodyModeUnknown, .null, .null, .null⟩

/-- the check a second envelope or a malformed one leaves -/
def reject : ProofEnvelopeCheck :=
  ⟨true, .malformed, orchardProofBodyModeUnknown, .null, .null, .null⟩

def isAccepted (check : ProofEnvelopeCheck) (allowScaffoldProofs : Bool) : Bool :=
  check.found && check.proofStatus == .valid &&
    (allowScaffoldProofs || check.proofBodyMode != orchardProofBodyModeScaffold)

end ProofEnvelopeCheck

def hasProofEnvelopePrefix (item : Bytes) : Bool := decide (proofEnvelopePrefix <+: item)

/-- `DecodeProofEnvelope`: kind, public input hash and payload -/
def decodeProofEnvelope (item : Bytes) : Option (UInt8 × Uint256 × Bytes) := do
  guard (hasProofEnvelopePrefix item)
  let versionOffset := proofEnvelopePrefix.length
  let proofKindOffset := versionOffset + 1
  let proofSystemOffset := proofKindOffset + 1
  let flagsOffset := proofSystemOffset + 1
  let publicInputOffset := flagsOffset + 1
  let proofLenOffset := publicInputOffset + 32
  let proofOffset := proofLenOffset + 4
  guard (¬ item.length < proofOffset)
  guard (item[versionOffset]? = some proofBundleVersionV4)
  guard (item[proofSystemOffset]? = some proofSystemOrchard)
  guard (item[flagsOffset]? = some proofBundleFlagsNone)
  guard ((u32At item proofLenOffset).toNat = item.length - proofOffset)
  let proofKind ← item[proofKindOffset]?
  let publicInputHash ← Uint256.readAt item publicInputOffset
  some (proofKind, publicInputHash, item.drop proofOffset)

/-- a decoded envelope of a witness stack: its fields, the reassembled bundle and how many of the
following stack items it consumed -/
structure StackEnvelope where
  proofKind : UInt8
  publicInputHash : Uint256
  proofPayload : Bytes
  bundle : Bytes
  consumed : Nat

/-- `DecodeProofEnvelopeFromWitnessStack` at the item `item` of a stack that goes on with `rest`: one
item, or all items up to the last one (the witness script) chained together -/
def decodeProofEnvelopeFromWitnessStack (item : Bytes) (rest : List Bytes) : Option StackEnvelope :=
  match decodeProofEnvelope item with
  | some (kind, pih, payload) => some ⟨kind, pih, payload, item, 0⟩
  | none =>
    if rest = [] then none
    else
      let bundle := (item :: rest).dropLast.flatten
      match decodeProofEnvelope bundle with
      | some (kind, pih, payload) => some ⟨kind, pih, payload, bundle, rest.length - 1⟩
      | none => none

section
variable (hash256 : Bytes → Uint256) (verifier : Verifier)

/-- the verdict of `CheckProofBundleV6`, the FFI defaults filled in -/
def bundleCheck (bundle : Bytes) (kind : UInt8) (pih : Uint256) : ProofEnvelopeCheck :=
  let check := checkProofBundleWithBackendV6 hash256 verifier.backend bundle kind pih
  ⟨true, check.status, check.proofBodyMode.getD orchardProofBodyModeUnknown,
    check.realRequestHash.getD .null, check.realVerifierInputHash.getD .null,
    check.realNativeProofHash.getD .null⟩

/-- the inner loop of `CheckProofEnvelope` over one witness stack; `skip` items were consumed by a
chunked envelope, and an error is the early return of the loop -/
def scanStack (kind : UInt8) (expected : Uint256) :
    ProofEnvelopeCheck → Nat → List Bytes → Except ProofEnvelopeCheck ProofEnvelopeCheck
  | check, _, [] => .ok check
  | check, skip + 1, _ :: rest => scanStack kind expected check skip rest
  | check, 0, item :: rest =>
    if hasProofEnvelopePrefix item then
      if check.found then .error .reject
      else
        match decodeProofEnvelopeFromWitnessStack item rest with
        | none => .error .reject
        | some envelope =>
          if envelope.proofKind ≠ kind ∨ envelope.publicInputHash ≠ expected then .error .reject
          else scanStack kind expected (bundleCheck hash256 verifier envelope.bundle kind expected)
            envelope.consumed rest
    else scanStack kind expected check 0 rest

/-- the outer loop of `CheckProofEnvelope` over the inputs -/
def scanInputs (kind : UInt8) (expected : Uint256) :
    ProofEnvelopeCheck → List CTxIn → Except ProofEnvelopeCheck ProofEnvelopeCheck
  | check, [] => .ok check
  | check, txin :: vin =>
    match scanStack hash256 verifier kind expected check 0 txin.scriptWitness with
    | .error check => .error check
    | .ok check => scanInputs kind expected check vin

/-- `CheckProofEnvelope` -/
def checkProofEnvelope (m : Marker) (tx : CTransaction) : ProofEnvelopeCheck :=
  if m.proofTag ≠ expectedProofTag hash256 m then .init
  else
    match scanInputs hash256 verifier m.action.byte (buildProofPublicInputHash hash256 m tx) .init
        tx.vin with
    | .error check => check
    | .ok check => check

def verifyProofEnvelope (m : Marker) (tx : CTransaction) (allowScaffoldProofs : Bool) : Bool :=
  (checkProofEnvelope hash256 verifier m tx).isAccepted allowScaffoldProofs

/-! ## the context-free check of a transaction -/

/-- one output of the loop of `CheckTransaction`: nothing when it is no marker, else the marker or
the reject reason -/
def checkMarkerOutput (active allowScaffoldProofs : Bool) (tx : CTransaction) (txout : CTxOut) :
    Except String (Option Marker) :=
  match extractMarkerPayload txout.scriptPubKey with
  | none => .ok none
  | some payload =>
    if !active then .error "bad-shielded-before-activation"
    else if tx.isCoinBase then .error "bad-shielded-coinbase"
    else if txout.nValue ≠ 0 then .error "bad-shielded-value"
    else
      match decodeMarkerPayload payload with
      | none => .error "bad-shielded-payload"
      | some m =>
        if !moneyRange m.nValue || m.nValue == 0 then .error "bad-shielded-amount"
        else if m.hasCommitment && m.commitment.isNull then .error "bad-shielded-commitment"
        else if m.hasNullifier && m.nullifier.isNull then .error "bad-shielded-nullifier"
        else if m.hasAnchor && m.anchor.isNull then .error "bad-shielded-anchor"
        else if !verifyProofEnvelope hash256 verifier m tx allowScaffoldProofs then
          .error "bad-shielded-proof"
        else .ok (some m)

/-- `ShieldedPool::CheckTransaction`, with the markers it reports or the reject reason -/
def checkTransaction (tx : CTransaction) (active allowScaffoldProofs : Bool) :
    Except String (List Marker) := do
  let found ← tx.vout.mapM (checkMarkerOutput hash256 verifier active allowScaffoldProofs tx)
  let markers := found.reduceOption
  if markers.length > 1 then .error "bad-shielded-duplicate" else .ok markers

/-- one step of the sum of `GetTransactionValuePoolDelta` -/
def addValuePoolDelta (delta : Int) (m : Marker) : Except String Int :=
  match m.action with
  | .mint => if delta > maxMoney - m.nValue then .error "bad-shielded-amount" else .ok (delta + m.nValue)
  | .spend =>
    if delta < -maxMoney + m.nValue then .error "bad-shielded-amount" else .ok (delta - m.nValue)

/-- `GetTransactionValuePoolDelta` -/
def getTransactionValuePoolDelta (tx : CTransaction) (active allowScaffoldProofs : Bool) :
    Except String Int := do
  let markers ← checkTransaction hash256 verifier tx active allowScaffoldProofs
  markers.foldlM addValuePoolDelta 0

end

end Shielded
