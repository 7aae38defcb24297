import ZkCoin.Consensus.AuxPow
import ZkCoin.Mweb.Node
import ZkCoin.Shielded.Marker

/-!
# The checks of a block before it is stored

* `checkTransaction`      — one transaction on its own.
* `checkBlock`            — a block on its own.
* `contextualCheckBlock`  — a block after its predecessor; here the witnesses are checked.

Proof of work and the signet solution are parameters.  The flag of a block object that remembers an
earlier success is left out: it only saves the work of checking the same object again.
-/

open Bytes Serialize Script

namespace Consensus

def maxBlockWeight : Nat := 4000000
def maxBlockSigopsCost : Nat := 80000
def witnessScaleFactor : Nat := 4
def locktimeThreshold : Nat := 500000000
def sequenceFinal : UInt32 := 0xffffffff

/-! ## transactions -/

def mwebLockHeight (tx : CTransaction) : Int :=
  match tx.mwebTx with
  | none => 0
  | some mwebTx => mwebTx.body.getLockHeight

/-- `IsFinalTx` -/
def isFinalTx (tx : CTransaction) (nBlockHeight nBlockTime : Int) : Bool :=
  if mwebLockHeight tx > nBlockHeight then false
  else if tx.nLockTime = 0 then true
  else if (tx.nLockTime.toNat : Int) <
      if tx.nLockTime.toNat < locktimeThreshold then nBlockHeight else nBlockTime then true
  else tx.vin.all fun txin => txin.nSequence == sequenceFinal

def mwebPegOuts (tx : CTransaction) : List Mw.PegOutCoin :=
  match tx.mwebTx with
  | none => []
  | some mwebTx => mwebTx.body.getPegOuts

/-- `GetLegacySigOpCount` -/
def getLegacySigOpCount (tx : CTransaction) : Nat :=
  (tx.vin.map fun txin => getSigOpCount false txin.scriptSig).sum +
    (tx.vout.map fun txout => getSigOpCount false txout.scriptPubKey).sum +
    ((mwebPegOuts tx).map fun pegout => getSigOpCount false pegout.scriptPubKey).sum

/-- one output of the sum of `CheckTransaction` -/
def addOutputValue (nValueOut : Int) (txout : CTxOut) : Except String Int :=
  if txout.nValue < 0 then .error "bad-txns-vout-negative"
  else if txout.nValue > maxMoney then .error "bad-txns-vout-toolarge"
  else if !moneyRange (nValueOut + txout.nValue) then .error "bad-txns-txouttotal-toolarge"
  else .ok (nValueOut + txout.nValue)

/-- `CheckTransaction`, with the reject reason -/
def checkTransaction (tx : CTransaction) : Except String Unit := do
  if !tx.isMwebOnly && tx.vin.isEmpty then .error "bad-txns-vin-empty"
  else if !tx.isMwebOnly && tx.vout.isEmpty then .error "bad-txns-vout-empty"
  else if tx.serializeNoWitness.length * witnessScaleFactor > maxBlockWeight then
    .error "bad-txns-oversize"
  else
    let _ ← tx.vout.foldlM addOutputValue 0
    if ¬ (tx.vin.map CTxIn.prevout).Nodup then .error "bad-txns-inputs-duplicate"
    else if tx.isCoinBase then
      match tx.vin.head? with
      | none => .ok ()
      | some txin =>
        if txin.scriptSig.length < 2 ∨ txin.scriptSig.length > 100 then .error "bad-cb-length"
        else .ok ()
    else if tx.vin.any fun txin => txin.prevout.isNull then .error "bad-txns-prevout-null"
    else .ok ()

/-! ## sizes and roots -/

/-- the size of a block without witnesses, and with them; the extension block is not counted -/
def strippedSize (block : CBlock) : Nat :=
  (block.header.serialize CTransaction.serializeNoWitness ++
    vector CTransaction.serializeNoWitness block.vtx).length

def totalSize (block : CBlock) : Nat :=
  (block.header.serialize CTransaction.serialize ++
    vector CTransaction.serialize block.vtx).length

/-- `GetBlockWeight` -/
def getBlockWeight (block : CBlock) : Nat :=
  strippedSize block * (witnessScaleFactor - 1) + totalSize block

section
variable (hash256 blake3 : Bytes → Uint256)

/-- `BlockMerkleRoot`, with the sign of repeated transactions -/
def blockMerkleRoot (block : CBlock) : Uint256 × Bool :=
  Merkle.computeMerkleRoot (merkleNode hash256) .null
    (block.vtx.map (CTransaction.getHash hash256 blake3))

/-- the witness hashes of all transactions but the coinbase, which counts as zero -/
def witnessLeaves (vtx : List CTransaction) : List Uint256 :=
  match vtx with
  | [] => []
  | _ :: rest => .null :: rest.map (CTransaction.getWitnessHash hash256 blake3)

/-- `BlockWitnessMerkleRoot` -/
def blockWitnessMerkleRoot (block : CBlock) : Uint256 :=
  (Merkle.computeMerkleRoot (merkleNode hash256) .null
    (witnessLeaves hash256 blake3 block.vtx)).1

end

/-! ## a block on its own -/

structure ProofChecks where
  /-- `CheckBlockProofOfWork` -/
  proofOfWork : CBlockHeader → Bool
  /-- `CheckSignetBlockSolution`, which reads no witness -/
  signetSolution : CBlock → Bool

section
variable (hash256 blake3 : Bytes → Uint256) (checks : ProofChecks) (params : Params)

/-- `CheckBlockHeader` -/
def checkBlockHeader (header : CBlockHeader) (fCheckPOW : Bool) : Except BlockFault Unit :=
  if fCheckPOW && !checks.proofOfWork header then
    .error (.invalid ⟨.invalidHeader, "high-hash", "proof of work failed"⟩)
  else .ok ()

def checkMerkleRoot (block : CBlock) : Except BlockFault Unit :=
  if block.header.hashMerkleRoot ≠ (blockMerkleRoot hash256 blake3 block).1 then
    rejectMutated "bad-txnmrklroot" "hashMerkleRoot mismatch"
  else if (blockMerkleRoot hash256 blake3 block).2 then
    rejectMutated "bad-txns-duplicate" "duplicate transaction"
  else .ok ()

/-- a transaction check inside a block: a failure is a failure of the block -/
def checkBlockTx (what : String) (check : CTransaction → Except String Unit) (tx : CTransaction) :
    Except BlockFault Unit :=
  match check tx with
  | .ok () => .ok ()
  | .error reason => rejectConsensus reason
      (what ++ " (tx hash " ++ (tx.getHash hash256 blake3).toText ++ ") ")

/-- `CheckBlock` -/
def checkBlock (block : CBlock) (fCheckPOW fCheckMerkleRoot : Bool) : Except BlockFault Unit := do
  checkBlockHeader checks block.header fCheckPOW
  if params.signetBlocks && fCheckPOW && !checks.signetSolution block.stripWitness then
    rejectConsensus "bad-signet-blksig" "signet block signature validation failure"
  else
    if fCheckMerkleRoot then checkMerkleRoot hash256 blake3 block
    if block.vtx.isEmpty || decide (block.vtx.length * witnessScaleFactor > maxBlockWeight) then
      rejectConsensus "bad-blk-length" "size limits failed"
    -- the serializer throws
    else if block.header.payloadMissing then aborts
    else if strippedSize block * witnessScaleFactor > maxBlockWeight then
      rejectConsensus "bad-blk-length" "size limits failed"
    else if !(block.vtx.head?.any CTransaction.isCoinBase) then
      rejectConsensus "bad-cb-missing" "first tx is not coinbase"
    else if (block.vtx.drop 1).any CTransaction.isCoinBase then
      rejectConsensus "bad-cb-multiple" "more than one coinbase"
    else
      block.vtx.forM (checkBlockTx hash256 blake3 "Transaction check failed" checkTransaction)
      if (block.vtx.map getLegacySigOpCount).sum * witnessScaleFactor > maxBlockSigopsCost then
        rejectConsensus "bad-blk-sigops" "out-of-bounds SigOpCount"
      else Mweb.checkBlock block

end

/-! ## a header after its predecessor -/

def maxFutureBlockTime : Int := 2 * 60 * 60
def versionbitsTopBits : Int := 0x20000000

/-- what the check of a header reads of the clock and the chain -/
structure HeaderContext where
  /-- `GetNextWorkRequired` -/
  nextWorkRequired : UInt32
  nAdjustedTime : Int
  /-- the height of the last checkpoint in the index -/
  checkpointHeight : Option Int

def rejectHeader {α : Type} (rejectReason debugMessage : String) : Except BlockFault α :=
  .error (.invalid ⟨.invalidHeader, rejectReason, debugMessage⟩)

/-- `0x%08x` of a version -/
def versionText (nVersion : Int) : String :=
  "0x" ++ toHex (leBytes 4 (nVersion % 2 ^ 32).toNat).reverse

def rejectVersion {α : Type} (nVersion : Int) : Except BlockFault α :=
  rejectHeader ("bad-version(" ++ versionText nVersion ++ ")")
    ("rejected nVersion=" ++ versionText nVersion ++ " block")

/-- `ContextualCheckBlockHeader` -/
def contextualCheckBlockHeader (params : Params) (ctx : HeaderContext) (prev : CBlockIndex)
    (header : CBlockHeader) : Except BlockFault Unit :=
  let nHeight := prev.nHeight + 1
  let auxpowActive := params.auxpow.isEnabled nHeight
  let blockVersion := if header.isAuxpow then header.getBaseVersion else header.nVersion
  if header.nBits ≠ ctx.nextWorkRequired then rejectHeader "bad-diffbits" "incorrect proof of work"
  else if auxpowActive && !header.isAuxpow then
    rejectHeader "bad-auxpow-missing" "missing AuxPoW after activation"
  else if !auxpowActive && header.isAuxpow then
    rejectHeader "bad-auxpow-unexpected" "unexpected AuxPoW before activation"
  else if auxpowActive && decide (header.getChainId ≠ params.auxpow.nChainId) then
    rejectHeader "bad-auxpow-chainid" "incorrect AuxPoW chain id"
  else if ctx.checkpointHeight.any fun height => decide (nHeight < height) then
    .error (.invalid ⟨.checkpoint, "bad-fork-prior-to-checkpoint", ""⟩)
  else if (header.nTime.toNat : Int) ≤ prev.medianTimePast then
    rejectHeader "time-too-old" "block's timestamp is too early"
  else if (header.nTime.toNat : Int) > ctx.nAdjustedTime + maxFutureBlockTime then
    .error (.invalid ⟨.timeFuture, "time-too-new", "block timestamp too far in the future"⟩)
  else if blockVersion < 2 ∧ nHeight ≥ params.bip34Height ∨
      blockVersion < 3 ∧ nHeight ≥ params.bip66Height ∨
      blockVersion < 4 ∧ nHeight ≥ params.bip65Height then rejectVersion header.nVersion
  else if !header.isAuxpow && decide (header.nVersion < versionbitsTopBits) &&
      decide (nHeight ≥ params.segwitHeight) then rejectVersion header.nVersion
  else .ok ()

/-! ## a block after its predecessor -/

/-- `block.vtx[0]->vin[0]` -/
def coinbaseInput (block : CBlock) : Option CTxIn := block.vtx.head?.bind fun tx => tx.vin.head?

/-- the output that commits to the witnesses: `OP_RETURN`, a push of 36 bytes, the magic -/
def isWitnessCommitment (script : Bytes) : Bool :=
  decide (script.length ≥ 38) && script.take 6 == [0x6a, 0x24, 0xaa, 0x21, 0xa9, 0xed]

/-- the output that `GetWitnessCommitmentIndex` finds: the last one that looks like a commitment -/
def witnessCommitment (block : CBlock) : Option CTxOut :=
  match block.vtx with
  | [] => none
  | coinbase :: _ => coinbase.vout.reverse.find? fun txout => isWitnessCommitment txout.scriptPubKey

section
variable (hash256 blake3 : Bytes → Uint256) (verifier : Shielded.Verifier) (crypto : Mw.Crypto)
  (params : Params)

/-- `nLockTimeCutoff` of `ContextualCheckBlock`: what lock times in seconds are compared with -/
def lockTimeCutoff (prev : CBlockIndex) (block : CBlock) : Int :=
  if prev.nHeight + 1 ≥ params.csvHeight then prev.medianTimePast else block.header.nTime.toNat

def checkCoinbaseHeight (nHeight : Int) (block : CBlock) : Except BlockFault Unit :=
  if nHeight ≥ params.bip34Height then
    match coinbaseInput block with
    | none => aborts
    | some txin =>
      if !(pushInt64 nHeight).isPrefixOf txin.scriptSig then
        rejectConsensus "bad-cb-height" "block height mismatch in coinbase"
      else .ok ()
  else .ok ()

/-- the witnesses are those the coinbase commits to; says whether there is a commitment -/
def checkWitnessCommitment (nHeight : Int) (block : CBlock) : Except BlockFault Bool :=
  if nHeight ≥ params.segwitHeight then
    match witnessCommitment block with
    | none => .ok false
    | some txout =>
      match coinbaseInput block with
      | none => aborts
      | some txin =>
        match txin.scriptWitness with
        | [reserved] =>
          if reserved.length ≠ 32 then
            rejectMutated "bad-witness-nonce-size"
              "ContextualCheckBlock : invalid witness reserved value size"
          else if (hash256 ((blockWitnessMerkleRoot hash256 blake3 block).data ++ reserved)).data ≠
              slice txout.scriptPubKey 6 38 then
            rejectMutated "bad-witness-merkle-match"
              "ContextualCheckBlock : witness merkle commitment mismatch"
          else .ok true
        | _ => rejectMutated "bad-witness-nonce-size"
            "ContextualCheckBlock : invalid witness reserved value size"
  else .ok false

def checkShielded (nHeight : Int) (tx : CTransaction) : Except String Unit :=
  (Shielded.checkTransaction hash256 verifier tx (params.shieldedPool.isEnabled nHeight)
    params.shieldedPool.fAllowScaffoldProofs).map fun _ => ()

/-- `ContextualCheckBlock` -/
def contextualCheckBlock (prev : CBlockIndex) (block : CBlock) : Except BlockFault Unit := do
  let nHeight := prev.nHeight + 1
  if block.vtx.any fun tx => !isFinalTx tx nHeight (lockTimeCutoff params prev block) then
    rejectConsensus "bad-txns-nonfinal" "non-final transaction"
  else
    block.vtx.forM (checkBlockTx hash256 blake3 "Shielded pool transaction check failed"
      (checkShielded hash256 verifier params nHeight))
    checkCoinbaseHeight params nHeight block
    let fHaveWitness ← checkWitnessCommitment hash256 blake3 params nHeight block
    if !fHaveWitness && block.vtx.any CTransaction.hasWitness then
      rejectMutated "unexpected-witness" "ContextualCheckBlock : unexpected witness data found"
    else if block.header.payloadMissing then aborts
    else if getBlockWeight block > maxBlockWeight then
      rejectConsensus "bad-blk-weight" "ContextualCheckBlock : weight limit failed"
    else Mweb.contextualCheckBlock hash256 blake3 crypto prev block

end

/-! ## what an accepted block looks like -/

theorem checkBlockTx_eq_ok_iff {hash256 blake3 : Bytes → Uint256} {what : String}
    {check : CTransaction → Except String Unit} {tx : CTransaction} :
    checkBlockTx hash256 blake3 what check tx = .ok () ↔ check tx = .ok () := by
  unfold checkBlockTx
  split
  · rename_i hcheck
    rw [hcheck]
    exact ⟨fun _ => rfl, fun _ => rfl⟩
  · rename_i hcheck
    rw [hcheck]
    exact ⟨nofun, nofun⟩

theorem addOutputValue_eq_ok {total total' : Int} {txout : CTxOut}
    (h : addOutputValue total txout = .ok total') :
    moneyRange txout.nValue = true ∧ total' = total + txout.nValue := by
  unfold addOutputValue at h
  obtain ⟨hneg, h⟩ := Checked.ite_error_eq_ok.mp h
  obtain ⟨hlarge, h⟩ := Checked.ite_error_eq_ok.mp h
  obtain ⟨-, h⟩ := Checked.ite_error_eq_ok.mp h
  refine ⟨?_, (Except.ok.inj h).symm⟩
  simp only [moneyRange, Bool.and_eq_true, decide_eq_true_eq]
  omega

theorem addOutputValues_range {outs : List CTxOut} {total total' : Int}
    (h : outs.foldlM addOutputValue total = .ok total') :
    ∀ txout ∈ outs, moneyRange txout.nValue = true := by
  induction outs generalizing total with
  | nil => exact nofun
  | cons txout outs ih =>
    rw [List.foldlM_cons] at h
    obtain ⟨next, hstep, h⟩ := Checked.bind_eq_ok.mp h
    intro out hout
    rcases List.mem_cons.mp hout with rfl | hout
    · exact (addOutputValue_eq_ok hstep).1
    · exact ih h out hout

theorem length_le_flatMap {α : Type} {ser : α → Bytes} (h : ∀ x, 1 ≤ (ser x).length) (xs : List α) :
    xs.length ≤ (xs.flatMap ser).length := by
  induction xs with
  | nil => exact le_rfl
  | cons x xs ih =>
    have hx := h x
    rw [List.flatMap_cons, List.length_append, List.length_cons]
    omega

theorem checkTransaction_sizes {tx : CTransaction} (h : checkTransaction tx = .ok ()) :
    tx.vin.length ≤ maxBlockWeight ∧ tx.vout.length ≤ maxBlockWeight := by
  unfold checkTransaction at h
  obtain ⟨-, h⟩ := Checked.ite_error_eq_ok.mp h
  obtain ⟨-, h⟩ := Checked.ite_error_eq_ok.mp h
  obtain ⟨hsize, -⟩ := Checked.ite_error_eq_ok.mp h
  have hvin : tx.vin.length ≤ (tx.vin.flatMap CTxIn.serialize).length := by
    apply length_le_flatMap
    intro txin
    rw [CTxIn.serialize, List.length_append, u32Bytes, leBytes_length]
    omega
  have hvout : tx.vout.length ≤ (tx.vout.flatMap CTxOut.serialize).length := by
    apply length_le_flatMap
    intro txout
    rw [CTxOut.serialize, List.length_append, intBytes, leBytes_length]
    omega
  simp only [CTransaction.serializeNoWitness, vector, List.length_append] at hsize
  unfold witnessScaleFactor at hsize
  omega

theorem checkTransaction_outputs {tx : CTransaction} (h : checkTransaction tx = .ok ()) :
    tx.vout.length < 2 ^ 32 ∧ (∀ txout ∈ tx.vout, moneyRange txout.nValue = true) ∧
      (tx.vin.map CTxIn.prevout).Nodup := by
  have hvout := (checkTransaction_sizes h).2
  unfold checkTransaction at h
  obtain ⟨-, h⟩ := Checked.ite_error_eq_ok.mp h
  obtain ⟨-, h⟩ := Checked.ite_error_eq_ok.mp h
  obtain ⟨-, h⟩ := Checked.ite_error_eq_ok.mp h
  obtain ⟨total, hsum, h⟩ := Checked.bind_eq_ok.mp h
  obtain ⟨hnodup, -⟩ := Checked.ite_error_eq_ok.mp h
  refine ⟨?_, addOutputValues_range hsum, not_not.mp hnodup⟩
  unfold maxBlockWeight at hvout
  omega

/-- one coinbase at the front, checked transactions, no extension-block data attached -/
structure BlockShape (block : CBlock) (coinbase : CTransaction) (rest : List CTransaction) :
    Prop where
  vtx_eq : block.vtx = coinbase :: rest
  vtx_length_le : block.vtx.length ≤ maxBlockWeight
  isCoinBase : coinbase.isCoinBase = true
  rest_isCoinBase : ∀ tx ∈ rest, tx.isCoinBase = false
  checked : ∀ tx ∈ block.vtx, checkTransaction tx = .ok ()
  mwebTx_eq : ∀ tx ∈ block.vtx, tx.mwebTx = none

theorem checkBlock_shape {hash256 blake3 : Bytes → Uint256} {checks : ProofChecks} {params : Params}
    {block : CBlock} {fCheckPOW fCheckMerkleRoot : Bool}
    (h : checkBlock hash256 blake3 checks params block fCheckPOW fCheckMerkleRoot = .ok ()) :
    ∃ coinbase rest, BlockShape block coinbase rest := by
  unfold checkBlock at h
  obtain ⟨-, h⟩ := Checked.then_eq_ok.mp h
  obtain ⟨-, h⟩ := Checked.ite_error_eq_ok.mp h
  replace h := Checked.of_ite_then_eq_ok h
  obtain ⟨hlength, h⟩ := Checked.ite_error_eq_ok.mp h
  obtain ⟨-, h⟩ := Checked.ite_error_eq_ok.mp h
  obtain ⟨-, h⟩ := Checked.ite_error_eq_ok.mp h
  obtain ⟨hfirst, h⟩ := Checked.ite_error_eq_ok.mp h
  obtain ⟨hothers, h⟩ := Checked.ite_error_eq_ok.mp h
  obtain ⟨htxs, h⟩ := Checked.then_eq_ok.mp h
  obtain ⟨-, h⟩ := Checked.ite_error_eq_ok.mp h
  obtain ⟨hmweb, -⟩ := Checked.ite_error_eq_ok.mp h
  cases hvtx : block.vtx with
  | nil =>
    rw [hvtx] at hfirst
    exact absurd rfl hfirst
  | cons coinbase rest =>
    refine ⟨coinbase, rest, hvtx, ?_, ?_, ?_, ?_, ?_⟩
    · rw [Bool.or_eq_true, decide_eq_true_iff, not_or] at hlength
      unfold witnessScaleFactor at hlength
      omega
    · simpa [hvtx] using hfirst
    · simpa [hvtx] using hothers
    · intro tx htx
      exact checkBlockTx_eq_ok_iff.mp (Checked.forM_eq_ok_iff.mp htxs tx htx)
    · intro tx htx
      have hnone : ∀ tx ∈ block.vtx, tx.hasMwebTx = false := by simpa using hmweb
      exact Option.isSome_eq_false_iff.mp (hnone tx htx) |> Option.isNone_iff_eq_none.mp

end Consensus
