import ZkCoin.Consensus.AcceptBlock
import ZkCoin.Mempool.Policy
import ZkCoin.Shielded.Mempool

/-!
# Entering the mempool

`MemPoolAccept::PreChecks`: the checks of a transaction that wants to enter the mempool.  The rules on
its own form, the shielded rules and the policy on scripts are modelled; conflicts and replacement,
inputs, sequence locks, fees and the limits on ancestors are one parameter.

* `Mweb.checkTransaction` — the extension-block part of a transaction on its own.
* `preChecks`             — the checks in the order of the source.
-/

open Bytes Script

/-- `MWEB::Node::CheckTransaction`, with the reject reason -/
def Mweb.checkTransaction (blake3 : Bytes → Uint256) (crypto : Mw.Crypto) (tx : CTransaction) :
    Except String Unit :=
  let txPegins := Mweb.blockPegins [tx]
  let peginCoins := match tx.mwebTx with
    | none => []
    | some mwebTx => mwebTx.body.getPegIns blake3
  if ¬ (txPegins.map Mw.PegInCoin.kernelId).Nodup then .error "duplicate-tx-pegins"
  else if peginCoins.length ≠ txPegins.length then .error "pegin-count-mismatch"
  else if !(peginCoins.all fun pegin => txPegins.contains pegin) then .error "pegin-mismatch"
  else
    match tx.mwebTx with
    | none => .ok ()
    | some mwebTx =>
      match mwebTx.validate blake3 crypto with
      | .ok () => .ok ()
      | .error _ => .error "bad-mweb-txn"

namespace Mempool

structure Tip where
  index : CBlockIndex
  /-- the blocks of the active chain, the tip first -/
  chain : List CBlock
  height_chain : index.nHeight + 1 = chain.length

def Tip.nextHeight (tip : Tip) : Int := tip.index.nHeight + 1

/-- the options of `MemPoolAccept` -/
structure Options where
  settings : Policy.Settings
  fRequireStandard : Bool

def minStandardTxNonwitnessSize : Nat := 82

/-- the reject reason of the shielded rules, or the text of an error -/
def shieldedReason : Shielded.MempoolFault → String
  | .error message => message
  | .conflict rejectReason => rejectReason

section
variable (n : Consensus.Node) (options : Options) (tip : Tip)

/-- `shielded_pool_active` -/
def shieldedActive : Bool := n.params.shieldedPool.isEnabled tip.nextHeight

/-- the shielded rules: the transaction on its own, then with the mempool on the tip -/
def checkShielded (pool : List CTransaction) (tx : CTransaction) : Except String Unit := do
  let markers ← Shielded.checkTransaction n.hash256 n.verifier tx (shieldedActive n tip)
    n.params.shieldedPool.fAllowScaffoldProofs
  if shieldedActive n tip then
    match Shielded.checkShieldedMempoolState n.hash256 n.verifier n.params.shieldedPool markers pool
      tip.chain with
    | .ok () => .ok ()
    | .error fault => .error (shieldedReason fault)
  else .ok ()

/-- the extension-block rules, and the kinds of transactions that only blocks have -/
def checkKind (tx : CTransaction) : Except String Unit :=
  if tx.hasMwebTx && !tip.index.mwebEnabled then .error "mweb-before-activation"
  else do
    Mweb.checkTransaction n.blake3 n.crypto tx
    if tx.isCoinBase then .error "coinbase"
    else if tx.isHogEx then .error "hogex"
    else .ok ()

def checkPolicy (tx : CTransaction) : Except String Unit := do
  if options.fRequireStandard then Policy.isStandardTx options.settings n.blake3 tx
  if !tx.isMwebOnly && decide (tx.serializeNoWitness.length < minStandardTxNonwitnessSize) then
    .error "tx-size-small"
  else .ok ()

/-- `MemPoolAccept::PreChecks` with the mempool in the order of `infoAll`; `remaining` stands for the
checks that follow -/
def preChecks (remaining : CTransaction → Except String Unit) (pool : List CTransaction)
    (tx : CTransaction) : Except String Unit := do
  Consensus.checkTransaction tx
  checkShielded n tip pool tx
  checkKind n tip tx
  checkPolicy n options tx
  if !Consensus.isFinalTx tx tip.nextHeight tip.index.medianTimePast then .error "non-final"
  else if (pool.map (CTransaction.getHash n.hash256 n.blake3)).contains (tx.getHash n.hash256 n.blake3)
  then .error "txn-already-in-mempool"
  else remaining tx

end

end Mempool
