import Mathlib.Data.Finset.Card
import ZkCoin.Primitives.Block
import ZkCoin.Shielded.Marker

/-!
# The shielded state of a chain

The node keeps no shielded state between blocks: it replays the markers of the active chain whenever
it needs the state.  A chain is the list of its blocks with the tip first, so the height of a block
is the number of blocks below it.

* `addShieldedMarkerToState`, `addShieldedTransactionToState` — one marker, one transaction.
* `loadShieldedChainState`  — the replay of the blocks from the activation height on.
* `checkShieldedBlockState` — the acceptance rule of a block on its parent.
-/

open Bytes

namespace Shielded

/-! ## state and single markers -/

structure ShieldedValidationState where
  commitments : Finset Uint256
  nullifiers : Finset Uint256
  anchors : Finset Uint256
  commitmentChain : List Uint256
  nValuePool : Int
  commitmentRoot : Uint256
  nCommitments : Nat
  deriving DecidableEq

/-- the state before any marker: the null root is an anchor -/
def ShieldedValidationState.init : ShieldedValidationState where
  commitments := ∅
  nullifiers := ∅
  anchors := {.null}
  commitmentChain := []
  nValuePool := 0
  commitmentRoot := .null
  nCommitments := 0

section
variable (hash256 : Bytes → Uint256) (verifier : Verifier)

/-- what `AddShieldedMarkerToState` does with a marker that passes its checks -/
def insertMarker (st : ShieldedValidationState × Int) (m : Marker) :
    ShieldedValidationState × Int :=
  let (shielded, spendValueLimit) := st
  match m.action with
  | .mint =>
    let root := nextCommitmentRoot hash256 verifier shielded.commitmentChain
      shielded.commitmentRoot shielded.nCommitments m.commitment
    ({ shielded with
      commitments := insert m.commitment shielded.commitments
      nValuePool := shielded.nValuePool + m.valuePoolDelta
      commitmentRoot := root
      commitmentChain := shielded.commitmentChain ++ [m.commitment]
      nCommitments := shielded.nCommitments + 1
      anchors := insert root shielded.anchors }, spendValueLimit)
  | .spend =>
    ({ shielded with
      nullifiers := insert m.nullifier shielded.nullifiers
      nValuePool := shielded.nValuePool + m.valuePoolDelta }, spendValueLimit - m.nValue)

/-- `AddShieldedMarkerToState` against the anchors of a snapshot and with a limit for spends: the
state and the limit that is left, or the reject reason.  Every caller drops the state on a
rejection, so what was inserted before a later check failed is not kept here. -/
def addShieldedMarkerToState (spendAnchors : Finset Uint256)
    (st : ShieldedValidationState × Int) (m : Marker) :
    Except String (ShieldedValidationState × Int) :=
  let (shielded, spendValueLimit) := st
  if m.hasAnchor && decide (m.anchor ∉ spendAnchors) then .error "bad-shielded-anchor"
  else if m.hasNullifier && decide (m.nullifier ∈ shielded.nullifiers) then
    .error "bad-shielded-duplicate-nullifier"
  else if m.hasCommitment && decide (m.commitment ∈ shielded.commitments) then
    .error "bad-shielded-duplicate-commitment"
  else if m.hasNullifier && decide (spendValueLimit < m.nValue) then .error "bad-shielded-value-pool"
  else
    let delta := m.valuePoolDelta
    if (delta > 0 ∧ shielded.nValuePool > maxMoney - delta) ∨
        (delta < 0 ∧ shielded.nValuePool < -delta) then .error "bad-shielded-value-pool"
    else if !moneyRange (shielded.nValuePool + delta) then .error "bad-shielded-value-pool"
    else .ok (insertMarker hash256 verifier st m)

/-- `AddShieldedTransactionToState` -/
def addShieldedTransactionToState (active allowScaffoldProofs : Bool)
    (spendAnchors : Finset Uint256) (st : ShieldedValidationState × Int) (tx : CTransaction) :
    Except String (ShieldedValidationState × Int) := do
  let markers ← checkTransaction hash256 verifier tx active allowScaffoldProofs
  if !active then return st
  markers.foldlM (addShieldedMarkerToState hash256 verifier spendAnchors) st

/-- the loop over the transactions of one block, from a snapshot of anchors and pool value -/
def addShieldedBlockToState (active allowScaffoldProofs : Bool) (shielded : ShieldedValidationState)
    (vtx : List CTransaction) : Except String ShieldedValidationState :=
  (vtx.foldlM (addShieldedTransactionToState hash256 verifier active allowScaffoldProofs
    shielded.anchors) (shielded, shielded.nValuePool)).map Prod.fst

/-! ## chains -/

variable (params : Consensus.ShieldedPoolParams)

/-- the walk of `LoadShieldedChainState` from the tip down to the activation height -/
def shieldedBlocks : List CBlock → List CBlock
  | [] => []
  | block :: prev =>
    if params.isEnabled prev.length then block :: shieldedBlocks prev else []

/-- `LoadShieldedChainState`: the blocks found by the walk, oldest first -/
def loadShieldedChainState (chain : List CBlock) (shielded : ShieldedValidationState) :
    Except String ShieldedValidationState :=
  (shieldedBlocks params chain).reverse.foldlM (fun shielded block =>
    addShieldedBlockToState hash256 verifier true params.fAllowScaffoldProofs shielded block.vtx)
    shielded

/-- `CheckShieldedBlockState` of a block on the chain `prev`, at height `nHeight` -/
def checkShieldedBlockState (block : CBlock) (prev : List CBlock) (nHeight : Int) :
    Except String Unit := do
  let active := params.isEnabled nHeight
  let shielded ←
    if active then loadShieldedChainState hash256 verifier params prev .init else .ok .init
  let _ ← addShieldedBlockToState hash256 verifier active params.fAllowScaffoldProofs shielded
    block.vtx
  .ok ()

/-- every block of the chain was accepted on the blocks below it -/
def ShieldedChainAccepted : List CBlock → Prop
  | [] => True
  | block :: prev => ShieldedChainAccepted prev ∧
    checkShieldedBlockState hash256 verifier params block prev prev.length = .ok ()

end

end Shielded
