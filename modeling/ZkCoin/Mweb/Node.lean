import ZkCoin.Consensus.Validation
import ZkCoin.Mw.Validate

/-!
# The node's checks of extension blocks

`MWEB::Node`: what the node checks of the HogEx transaction and the extension block of a block,
before it is stored and when it is connected.

* `checkBlock`, `contextualCheckBlock`, `connectBlock`
-/

open Bytes Script

namespace Mweb

/-! ## reading a block -/

def innerTxs (block : CBlock) : List CTransaction := block.vtx.dropLast.drop 1

def hasPegin (tx : CTransaction) : Bool := tx.vout.any fun out => isMwebPegin out.scriptPubKey

section
variable (hash256 blake3 : Bytes → Uint256)

/-- the peg-in outputs of a transaction, by transaction id and output index -/
def peginOutputs (tx : CTransaction) : List (Uint256 × Nat) :=
  (tx.vout.zipIdx.filter fun out => isMwebPegin out.1.scriptPubKey).map fun out =>
    (tx.getHash hash256 blake3, out.2)

end

/-- `block_pegins` of `ValidateMWEBBlock` -/
def blockPegins (txs : List CTransaction) : List Mw.PegInCoin :=
  txs.flatMap fun tx => tx.vout.filterMap fun out =>
    (mwebPegin out.scriptPubKey).map fun kernelId => ⟨out.nValue, kernelId⟩

/-- `hogex_pegouts` of `ValidateMWEBBlock` -/
def hogExPegouts (hogEx : CTransaction) : List Mw.PegOutCoin :=
  (hogEx.vout.drop 1).map fun out => ⟨out.nValue, out.scriptPubKey⟩

/-- `CTransaction::GetValueOut`, which throws when an output or the sum is out of range -/
def getValueOut (tx : CTransaction) : Option Int :=
  (tx.vout.map CTxOut.nValue).foldlM (fun total v => do
    guard (moneyRange v && moneyRange (total + v))
    some (total + v)) 0

/-! ## before a block is stored -/

/-- `Node::CheckBlock` -/
def checkBlock (block : CBlock) : Except BlockFault Unit :=
  if block.vtx.any CTransaction.hasMwebTx then
    rejectMutated "unexpected-mweb-data" "Block contains transactions with MWEB data attached"
  else .ok ()

def matchPegin (hogEx : CTransaction) (nextPeginIdx : Nat) (pegin : Uint256 × Nat) :
    Except BlockFault Nat :=
  match hogEx.vin[nextPeginIdx]? with
  | none => rejectConsensus "pegins-missing" "Pegins missing from HogEx"
  | some txin =>
    if txin.prevout.n.toNat ≠ pegin.2 ∨ txin.prevout.hash ≠ pegin.1 then
      rejectConsensus "pegin-mismatch" "HogEx pegins do not match block's pegins"
    else .ok (nextPeginIdx + 1)

section
variable (hash256 blake3 : Bytes → Uint256) (crypto : Mw.Crypto)

/-- `Node::ValidateMWEBBlock` -/
def validateMwebBlock (block : CBlock) (mwebBlock : Mw.Block) (hogEx : CTransaction) :
    Except Mw.Fault Bool :=
  Mw.validateBlock blake3 crypto mwebBlock (blockPegins (innerTxs block)) (hogExPegouts hogEx)

/-- the checks on the HogEx transaction and the extension block, once both are there -/
def checkHogEx (prev : CBlockIndex) (block : CBlock) (mwebBlock : Mw.Block) (hogEx : CTransaction) :
    Except BlockFault Unit :=
  if !hogEx.isHogEx then rejectMutated "hogex-missing" "hogex missing"
  else if block.vtx.dropLast.any CTransaction.isHogEx then
    rejectMutated "bad-hogex-position" "hogex in wrong position"
  else
    match hogEx.vout with
    | [] => aborts
    | front :: _ =>
      match mwebHogAddr front.scriptPubKey with
      | none => rejectConsensus "bad-hogex" "HogEx missing or invalid"
      | some mwebHash =>
        if mwebHash ≠ mwebBlock.header.getHash blake3 then
          rejectMutated "mweb-hash-mismatch" "MWEB header hash doesn't match hogex hash"
        else if mwebBlock.header.height ≠ prev.nHeight + 1 then
          rejectConsensus "mweb-height-mismatch" "Invalid MWEB block height"
        else do
          let nextPeginIdx ← ((innerTxs block).flatMap (peginOutputs hash256 blake3)).foldlM
            (matchPegin hogEx) (if prev.prevMwebEnabled then 1 else 0)
          if nextPeginIdx ≠ hogEx.vin.length then
            rejectConsensus "extra-hogex-input" "HogEx contains unexpected input(s)"
          else
            match validateMwebBlock blake3 crypto block mwebBlock hogEx with
            | .ok true => .ok ()
            | .ok false => rejectMutated "bad-blk-mweb" "BlockValidator::ValidateBlock failed"
            | .error _ => aborts

/-- `Node::ContextualCheckBlock` -/
def contextualCheckBlock (prev : CBlockIndex) (block : CBlock) : Except BlockFault Unit :=
  if !prev.mwebEnabled then
    if block.mwebBlock.isSome then
      rejectMutated "unexpected-mweb-data" "MWEB not activated, but extension block found"
    else if block.vtx.any CTransaction.isHogEx then
      rejectMutated "unexpected-mweb-data" "MWEB not activated, but HogEx marker found"
    else .ok ()
  else
    match block.mwebBlock with
    | none => rejectMutated "mweb-missing" "MWEB activated but extension block not found"
    | some mwebBlock =>
      if block.vtx.any fun tx => (tx.isCoinBase || tx.isHogEx) && hasPegin tx then
        rejectConsensus "bad-tx-unexpected-pegin" "Pegin found in coinbase or HogEx"
      else
        match block.vtx.getLast? with
        | none => aborts
        | some hogEx => checkHogEx hash256 blake3 crypto prev block mwebBlock hogEx

end

/-! ## when a block is connected -/

/-- the first input of a HogEx spends the previous HogEx, unless there is none -/
def checkHogExInput (prev : CBlockIndex) (hogEx : CTransaction) : Except BlockFault Unit :=
  if !prev.prevMwebEnabled then .ok ()
  else
    match hogEx.vin with
    | [] => aborts
    | front :: _ =>
      if front.prevout.n ≠ 0 ∨ prev.hogexHash ≠ front.prevout.hash then
        rejectConsensus "invalid-hogex-input"
          "First input of HogEx does not point to previous HogEx"
      else .ok ()

def addPegin (hogexInputAmount : Int) (pegin : Mw.PegInCoin) : Except BlockFault Int :=
  if !moneyRange (hogexInputAmount + pegin.amount) then
    rejectConsensus "accumulated-pegin-outofrange"
      "Accumulated pegin amount for the block is out of range"
  else .ok (hogexInputAmount + pegin.amount)

/-- the fee and the new amount of the extension block against the HogEx -/
def checkAmounts (prev : CBlockIndex) (hogEx : CTransaction) (hogexInputAmount : Int)
    (mwebFee supplyChange : Option Int) : Except BlockFault Unit :=
  match mwebFee, supplyChange with
  | some mwebFee, some supplyChange =>
    match getValueOut hogEx, hogEx.vout with
    | some valueOut, front :: _ =>
      if !moneyRange (hogexInputAmount - valueOut) ∨ hogexInputAmount - valueOut ≠ mwebFee then
        rejectConsensus "bad-txns-mweb-fee-mismatch" "HogEx fee does not match MWEB fee."
      else
        match Mw.trySafeAdd prev.mwebAmount supplyChange with
        | none => rejectConsensus "bad-mweb-amount" "Invalid MWEB supply change"
        | some mwebAmount =>
          if !moneyRange mwebAmount ∨ mwebAmount ≠ front.nValue then
            rejectConsensus "mweb-amount-mismatch"
              "HogEx amount does not match expected MWEB amount"
          else .ok ()
    | _, _ => aborts
  | _, _ => rejectConsensus "bad-mweb-amount" "Invalid MWEB amount accounting"

def checkFrozen (frozen : List Uint256) (inputs : List Mw.Input) : Except BlockFault Unit :=
  match inputs.find? fun input => frozen.contains input.outputId with
  | none => .ok ()
  | some input => rejectConsensus "frozen-mweb-output-spent"
      ("MWEB::Node::ConnectBlock(): Frozen MWEB output spent: " ++ toHex input.outputId.data)

section
variable (hash256 blake3 : Bytes → Uint256) (kernelSums : Mw.KernelSums)

/-- the one block whose inputs need not carry the metadata of the coins they spend -/
def allowHistoricalMetadataMismatch (params : Consensus.Params) (block : CBlock) : Bool :=
  !params.mwebInputMetadataGrandfatherBlockhash.isNull &&
    block.header.getHash hash256 == params.mwebInputMetadataGrandfatherBlockhash

/-- `ApplyBlock` under the `catch`; the text of the exception is left out of the debug text -/
def applyMwebBlock (params : Consensus.Params) (block : CBlock) (mwebBlock : Mw.Block)
    (base : Mw.View) (cache : Mw.CacheLayer) : Except BlockFault (Mw.BlockUndo × Mw.View) :=
  match cache.applyBlock blake3 kernelSums base mwebBlock
      (allowHistoricalMetadataMismatch hash256 params block) with
  | .ok applied => .ok applied
  | .error .assertion => aborts
  | .error _ => rejectMutated "mweb-connect-failed"
      "MWEB::Node::ConnectBlock(): Failed to connect MWEB block: "

/-- `Node::ConnectBlock`: the undo data and the view afterwards -/
def connectBlock (params : Consensus.Params) (prev : CBlockIndex) (block : CBlock)
    (base : Mw.View) (cache : Mw.CacheLayer) :
    Except BlockFault (Option Mw.BlockUndo × Mw.View) :=
  match block.mwebBlock with
  | none => .ok (none, .cache base cache)
  | some mwebBlock =>
    match block.vtx.getLast? with
    | none => aborts
    | some hogEx => do
      checkHogExInput prev hogEx
      let hogexInputAmount ← (blockPegins (innerTxs block)).foldlM addPegin prev.mwebAmount
      checkAmounts prev hogEx hogexInputAmount mwebBlock.body.getTotalFee
        mwebBlock.body.getSupplyChange
      let (undo, view) ← applyMwebBlock hash256 blake3 kernelSums params block mwebBlock base cache
      checkFrozen params.frozenMwebOutputIds mwebBlock.body.inputs
      .ok (some undo, view)

end

end Mweb
