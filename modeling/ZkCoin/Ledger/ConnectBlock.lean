import ZkCoin.Consensus.AcceptBlock
import ZkCoin.Ledger.TxInputs
import ZkCoin.Shielded.ChainState

/-!
# Connecting a block

`CChainState::ConnectBlock` on a view: the shielded state, the inputs of every transaction, the reward
of the coinbase and the extension block, and what the view shows afterwards.  Script verification,
relative lock times, counting signature operations and the snapshot marker are parameters: nothing
below depends on what they say.

* `getBlockSubsidy`         — the subsidy of a height.
* `connectTx`, `connectBlock` — the loop over the transactions and the whole function.
* `Connected`, `connectBlock_ok` — what an accepted block has passed, and what it did.
-/

open Bytes Utxo Checked TableDelta

namespace Consensus

/-- `GetBlockSubsidy` -/
def getBlockSubsidy (params : Params) (nHeight : Int) : Int :=
  let halvings := nHeight.tdiv params.nSubsidyHalvingInterval
  if halvings ≥ 64 then 0 else 50 * coin / 2 ^ halvings.toNat

/-- undo data of a block: the coins spent by each transaction but the coinbase, and the undo data of
the extension block -/
structure CBlockUndo where
  vtxundo : List (List Coin)
  mwundo : Option Mw.BlockUndo
  deriving DecidableEq

/-- what a `CCoinsViewCache` shows -/
structure ChainView where
  coins : View
  bestBlock : Uint256
  mweb : Mw.View

inductive ConnectFault
  | rejected (fault : BlockFault)
  /-- `state.Error` -/
  | error (message : String)
  /-- a sum of amounts left the range of 64-bit integers -/
  | overflow

def ofBlock {α : Type} : Except BlockFault α → Except ConnectFault α
  | .ok a => .ok a
  | .error fault => .error (.rejected fault)

/-- a transaction failure inside a block is a failure of the block -/
def ofTx {α : Type} : Except TxFault α → Except ConnectFault α
  | .ok a => .ok a
  | .error (.invalid state) =>
    .error (.rejected (.invalid ⟨.consensus, state.rejectReason, state.debugMessage⟩))
  | .error .aborted => .error (.rejected .aborted)
  | .error .overflow => .error .overflow

def rejectBlock {α : Type} (rejectReason : String) : Except ConnectFault α :=
  ofBlock (rejectConsensus rejectReason "")

/-- what connecting a block reads besides the block and the view -/
structure ConnectContext where
  /-- the index entry of the previous block; for the genesis block one of height -1 -/
  prev : CBlockIndex
  /-- the blocks below, the previous block first -/
  chain : List CBlock
  height_chain : prev.nHeight + 1 = chain.length
  /-- the hash of the ancestor at `BIP34Height`, when there is one -/
  bip34Ancestor : Option Uint256
  /-- `CheckConfiguredLtcSnapshotImported` -/
  snapshotImported : Except String Unit
  fScriptChecks : Bool
  /-- `SequenceLocks` of a transaction whose inputs have the given heights -/
  sequenceLocks : CTransaction → List Nat → Bool
  /-- `GetTransactionSigOpCost` -/
  sigOpCost : CTransaction → View → Nat
  /-- `CheckInputScripts`, with reject reason and debug message -/
  inputScripts : CTransaction → View → Except (String × String) Unit
  /-- the outcome of the script checks that were queued -/
  scriptQueueOk : Bool

def ConnectContext.nHeight (ctx : ConnectContext) : Int := ctx.prev.nHeight + 1

/-- the variables of the loop over the transactions -/
structure ConnectState where
  view : View
  nFees : Int
  nSigOpsCost : Nat
  vtxundo : List (List Coin)

def mwebCoinOf (mweb : Mw.View) (id : Uint256) : Option Mw.Output :=
  match mweb.getUTXO id with
  | .ok utxo => utxo.map Mw.UTXO.output
  | .error _ => none

section
variable (n : Node) (ctx : ConnectContext) (mwebCoin : Uint256 → Option Mw.Output)

/-- inputs, fee and relative lock times of a transaction: the fees of the block so far -/
def connectInputs (st : ConnectState) (tx : CTransaction) : Except ConnectFault Int :=
  if tx.isCoinBase then .ok st.nFees
  else do
    let txfee ← ofTx (checkTxInputs n.params n.hash256 n.verifier tx st.view mwebCoin ctx.nHeight)
    let nFees ← ofTx (addAmount st.nFees txfee)
    if !moneyRange nFees then rejectBlock "bad-txns-accumulated-fee-outofrange"
    else if !ctx.sequenceLocks tx (tx.vin.map fun txin => (accessCoin st.view txin.prevout).nHeight)
    then rejectBlock "bad-txns-nonfinal"
    else .ok nFees

def connectScripts (view : View) (tx : CTransaction) : Except ConnectFault Unit :=
  if !tx.isCoinBase && ctx.fScriptChecks then
    match ctx.inputScripts tx view with
    | .ok () => .ok ()
    | .error (reason, debug) => ofBlock (rejectConsensus reason debug)
  else .ok ()

/-- one transaction of the loop; `i` is its place in the block -/
def connectTx (st : ConnectState) (entry : CTransaction × Nat) : Except ConnectFault ConnectState := do
  let (tx, i) := entry
  let nFees ← connectInputs n ctx mwebCoin st tx
  let nSigOpsCost := st.nSigOpsCost + ctx.sigOpCost tx st.view
  if nSigOpsCost > maxBlockSigopsCost then rejectBlock "bad-blk-sigops"
  else
    connectScripts ctx st.view tx
    let (txundo, view) ← ofBlock (updateCoins n.hash256 n.blake3 tx ctx.nHeight.toNat st.view)
    .ok ⟨view, nFees, nSigOpsCost, if i > 0 then st.vtxundo ++ [txundo] else st.vtxundo⟩

def connectTransactions (vtx : List CTransaction) (view : View) : Except ConnectFault ConnectState :=
  vtx.zipIdx.foldlM (connectTx n ctx mwebCoin) ⟨view, 0, 0, []⟩

def checkBip30 (block : CBlock) (view : View) : Except ConnectFault Unit :=
  if ctx.bip34Ancestor ≠ some n.params.bip34Hash ∧
      block.vtx.any fun tx => tx.vout.zipIdx.any fun out =>
        haveCoin view (outpointOf (tx.getHash n.hash256 n.blake3) out.2) then
    rejectBlock "bad-txns-BIP30"
  else .ok ()

def checkReward (block : CBlock) (nFees : Int) : Except ConnectFault Unit := do
  let blockReward ← ofTx (addAmount nFees (getBlockSubsidy n.params ctx.nHeight))
  match block.vtx with
  | [] => .error (.rejected .aborted)
  | coinbase :: _ =>
    match Mweb.getValueOut coinbase with
    | none => .error (.rejected .aborted)
    | some valueOut =>
      if valueOut > blockReward then rejectBlock "bad-cb-amount" else .ok ()

/-- `MWEB::Node::ConnectBlock` on the cache of the view -/
def connectMweb (block : CBlock) (mweb : Mw.View) :
    Except ConnectFault (Option Mw.BlockUndo × Mw.View) :=
  match mweb with
  | .db _ => .error (.rejected .aborted)
  | .cache base cache => ofBlock
      (Mweb.connectBlock n.hash256 n.blake3 n.crypto.kernelSums n.params ctx.prev block base cache)

/-- `CheckBlock` once more; a mutated block on disk stops the node -/
def checkBlockAgain (fJustCheck : Bool) (block : CBlock) : Except ConnectFault Unit :=
  match checkBlock n.hash256 n.blake3 n.checks n.params block (!fJustCheck) (!fJustCheck) with
  | .ok () => .ok ()
  | .error fault =>
    if fault.isMutated then
      .error (.error "Corrupt block found indicating potential hardware failure; shutting down")
    else .error (.rejected fault)

def checkSnapshotImported : Except ConnectFault Unit :=
  if ctx.nHeight = 1 ∧ n.params.ltcSnapshot.isEnabled then
    match ctx.snapshotImported with
    | .ok () => .ok ()
    | .error message => .error (.error message)
  else .ok ()

def checkShieldedState (block : CBlock) : Except ConnectFault Unit :=
  match Shielded.checkShieldedBlockState n.hash256 n.verifier n.params.shieldedPool block ctx.chain
      ctx.nHeight with
  | .ok () => .ok ()
  | .error reason => rejectBlock reason

def checkScriptQueue : Except ConnectFault Unit :=
  if !ctx.scriptQueueOk then rejectBlock "block-validation-failed" else .ok ()

/-- everything that connecting does to a block that is not the genesis block -/
def connectBody (fJustCheck : Bool) (block : CBlock) (view : ChainView) :
    Except ConnectFault (CBlockUndo × ChainView) := do
  checkSnapshotImported n ctx
  checkShieldedState n ctx block
  checkBip30 n ctx block view.coins
  let st ← connectTransactions n ctx (mwebCoinOf view.mweb) block.vtx view.coins
  checkReward n ctx block st.nFees
  checkScriptQueue ctx
  let (mwundo, mweb) ← connectMweb n ctx block view.mweb
  .ok (⟨st.vtxundo, mwundo⟩,
    ⟨st.view, if fJustCheck then view.bestBlock else n.blockHash block, mweb⟩)

/-- `CChainState::ConnectBlock`: the undo data that it writes and the view afterwards.  The
transactions of the genesis block are not connected. -/
def connectBlock (fJustCheck : Bool) (block : CBlock) (view : ChainView) :
    Except ConnectFault (CBlockUndo × ChainView) := do
  checkBlockAgain n fJustCheck block
  if block.header.hashPrevBlock ≠ view.bestBlock then .error (.rejected .aborted)
  else if n.blockHash block = n.params.hashGenesisBlock then
    .ok (⟨[], none⟩, if fJustCheck then view else { view with bestBlock := n.blockHash block })
  else connectBody n ctx fJustCheck block view

end

/-! ## what an accepted block has done -/

section
variable {n : Node} {ctx : ConnectContext} {mwebCoin : Uint256 → Option Mw.Output}

theorem ofBlock_eq_ok {α : Type} {x : Except BlockFault α} {a : α} :
    ofBlock x = .ok a ↔ x = .ok a := by
  cases x with
  | ok b => exact ⟨fun h => congrArg _ (Except.ok.inj h), fun h => congrArg _ (Except.ok.inj h)⟩
  | error fault => exact ⟨nofun, nofun⟩

theorem ofTx_eq_ok {α : Type} {x : Except TxFault α} {a : α} : ofTx x = .ok a ↔ x = .ok a := by
  cases x with
  | ok b => exact ⟨fun h => congrArg _ (Except.ok.inj h), fun h => congrArg _ (Except.ok.inj h)⟩
  | error fault =>
    constructor
    · intro h
      cases fault with
      | invalid state => cases h
      | aborted => cases h
      | overflow => cases h
    · intro h
      cases h

def blockDelta (n : Node) (ctx : ConnectContext) (tx : CTransaction) : Delta COutPoint Coin :=
  txDelta n.hash256 n.blake3 ctx.nHeight.toNat tx

/-- a transaction after the coinbase that went through; `txundo` is what it spent -/
structure TxStep (n : Node) (ctx : ConnectContext) (mwebCoin : Uint256 → Option Mw.Output)
    (tx : CTransaction) (txundo : List Coin) (st st' : ConnectState) : Prop where
  fee : ∃ txfee, checkTxInputs n.params n.hash256 n.verifier tx st.view mwebCoin ctx.nHeight =
    .ok txfee ∧ st'.nFees = st.nFees + txfee
  fees_range : moneyRange st'.nFees = true
  allowed : (blockDelta n ctx tx).Allowed st.view
  recorded : (blockDelta n ctx tx).Recorded st.view txundo
  view_eq : st'.view = (blockDelta n ctx tx).apply st.view
  vtxundo_eq : st'.vtxundo = st.vtxundo ++ [txundo]

theorem connectTx_step {tx : CTransaction} {i : Nat} {st st' : ConnectState}
    (hcb : tx.isCoinBase = false) (hchecked : checkTransaction tx = .ok ()) (hi : 0 < i)
    (h : connectTx n ctx mwebCoin st (tx, i) = .ok st') :
    ∃ txundo, TxStep n ctx mwebCoin tx txundo st st' := by
  unfold connectTx at h
  obtain ⟨nFees, hfees, h⟩ := bind_eq_ok.mp h
  obtain ⟨-, h⟩ := ite_error_eq_ok.mp h
  obtain ⟨-, h⟩ := then_eq_ok.mp h
  obtain ⟨⟨txundo, view⟩, hupdate, h⟩ := bind_eq_ok.mp h
  obtain rfl := Except.ok.inj h
  obtain ⟨hallowed, hrecorded, rfl⟩ := updateCoins_ok (checkTransaction_outputs hchecked).1
    (fun htrue => absurd htrue (by simp [hcb])) (ofBlock_eq_ok.mp hupdate)
  rw [connectInputs, if_neg (by simp [hcb])] at hfees
  obtain ⟨txfee, hfee, hfees⟩ := bind_eq_ok.mp hfees
  obtain ⟨sum, hsum, hfees⟩ := bind_eq_ok.mp hfees
  obtain ⟨hrange, hfees⟩ := ite_error_eq_ok.mp hfees
  obtain ⟨-, hfees⟩ := ite_error_eq_ok.mp hfees
  obtain rfl := Except.ok.inj hfees
  obtain ⟨-, rfl⟩ := addAmount_eq_ok.mp (ofTx_eq_ok.mp hsum)
  exact ⟨txundo, ⟨txfee, ofTx_eq_ok.mp hfee, rfl⟩, by simpa using hrange, hallowed, hrecorded, rfl,
    if_pos hi⟩

inductive TxRun (n : Node) (ctx : ConnectContext) (mwebCoin : Uint256 → Option Mw.Output) :
    List CTransaction → ConnectState → ConnectState → Prop
  | nil (st : ConnectState) : TxRun n ctx mwebCoin [] st st
  | cons {tx : CTransaction} {txs : List CTransaction} {txundo : List Coin}
    {st st₁ st' : ConnectState} (step : TxStep n ctx mwebCoin tx txundo st st₁)
    (run : TxRun n ctx mwebCoin txs st₁ st') : TxRun n ctx mwebCoin (tx :: txs) st st'

theorem txRun_of_foldlM {txs : List CTransaction} (hcb : ∀ tx ∈ txs, tx.isCoinBase = false)
    (hchecked : ∀ tx ∈ txs, checkTransaction tx = .ok ()) {i : Nat} (hi : 0 < i)
    {st st' : ConnectState}
    (h : (txs.zipIdx i).foldlM (connectTx n ctx mwebCoin) st = .ok st') :
    TxRun n ctx mwebCoin txs st st' := by
  induction txs generalizing st i with
  | nil =>
    obtain rfl := Except.ok.inj h
    exact .nil st
  | cons tx txs ih =>
    rw [List.forall_mem_cons] at hcb hchecked
    rw [List.zipIdx_cons, List.foldlM_cons] at h
    obtain ⟨st₁, hstep, h⟩ := bind_eq_ok.mp h
    obtain ⟨txundo, hstep⟩ := connectTx_step hcb.1 hchecked.1 hi hstep
    exact .cons hstep (ih hcb.2 hchecked.2 (Nat.succ_pos i) h)

theorem connectTx_coinbase {tx : CTransaction} {view : View} {st' : ConnectState}
    (hcb : tx.isCoinBase = true)
    (h : connectTx n ctx mwebCoin ⟨view, 0, 0, []⟩ (tx, 0) = .ok st') :
    st'.view = (blockDelta n ctx tx).apply view ∧ st'.nFees = 0 ∧ st'.vtxundo = [] := by
  unfold connectTx at h
  obtain ⟨nFees, hfees, h⟩ := bind_eq_ok.mp h
  obtain ⟨-, h⟩ := ite_error_eq_ok.mp h
  obtain ⟨-, h⟩ := then_eq_ok.mp h
  obtain ⟨⟨txundo, view'⟩, hupdate, h⟩ := bind_eq_ok.mp h
  obtain rfl := Except.ok.inj h
  rw [connectInputs, if_pos hcb] at hfees
  have hupdate := ofBlock_eq_ok.mp hupdate
  unfold updateCoins at hupdate
  obtain ⟨⟨coins, view₁⟩, hspend, hupdate⟩ := bind_eq_ok.mp hupdate
  obtain ⟨view₂, hadd, hend⟩ := bind_eq_ok.mp hupdate
  obtain ⟨-, rfl⟩ := Prod.mk.inj (Except.ok.inj hend)
  rw [spendInputs, if_pos hcb] at hspend
  obtain ⟨-, rfl⟩ := Prod.mk.inj (Except.ok.inj hspend)
  refine ⟨?_, (Except.ok.inj hfees).symm, rfl⟩
  rw [(addCoins_run hadd).1, blockDelta, txDelta, Delta.apply, prevouts, if_pos hcb]
  rfl

/-- what an accepted block other than the genesis block has passed -/
structure Connected (n : Node) (ctx : ConnectContext) (fJustCheck : Bool) (block : CBlock)
    (view : ChainView) (st : ConnectState) (undo : CBlockUndo) (view' : ChainView) : Prop where
  checked : checkBlock n.hash256 n.blake3 n.checks n.params block (!fJustCheck) (!fJustCheck) = .ok ()
  prevHash : block.header.hashPrevBlock = view.bestBlock
  shielded : Shielded.checkShieldedBlockState n.hash256 n.verifier n.params.shieldedPool block
    ctx.chain ctx.nHeight = .ok ()
  transactions : connectTransactions n ctx (mwebCoinOf view.mweb) block.vtx view.coins = .ok st
  reward : checkReward n ctx block st.nFees = .ok ()
  mweb : connectMweb n ctx block view.mweb = .ok (undo.mwundo, view'.mweb)
  vtxundo_eq : undo.vtxundo = st.vtxundo
  coins_eq : view'.coins = st.view
  bestBlock_eq : view'.bestBlock = if fJustCheck then view.bestBlock else n.blockHash block

theorem connectBlock_ok {fJustCheck : Bool} {block : CBlock} {view view' : ChainView}
    {undo : CBlockUndo} (hgenesis : n.blockHash block ≠ n.params.hashGenesisBlock)
    (h : connectBlock n ctx fJustCheck block view = .ok (undo, view')) :
    ∃ st, Connected n ctx fJustCheck block view st undo view' := by
  unfold connectBlock at h
  obtain ⟨hchecked, h⟩ := then_eq_ok.mp h
  obtain ⟨hprev, h⟩ := ite_error_eq_ok.mp h
  rw [if_neg hgenesis] at h
  unfold connectBody at h
  obtain ⟨-, h⟩ := then_eq_ok.mp h
  obtain ⟨hshielded, h⟩ := then_eq_ok.mp h
  obtain ⟨-, h⟩ := then_eq_ok.mp h
  obtain ⟨st, hst, h⟩ := bind_eq_ok.mp h
  obtain ⟨hreward, h⟩ := then_eq_ok.mp h
  obtain ⟨-, h⟩ := then_eq_ok.mp h
  obtain ⟨⟨mwundo, mweb⟩, hmweb, h⟩ := bind_eq_ok.mp h
  obtain ⟨rfl, rfl⟩ := Prod.mk.inj (Except.ok.inj h)
  refine ⟨st, ?_, not_not.mp hprev, ?_, hst, hreward, hmweb, rfl, rfl, rfl⟩
  · unfold checkBlockAgain at hchecked
    split at hchecked
    · assumption
    · split at hchecked
      · cases hchecked
      · cases hchecked
  · unfold checkShieldedState at hshielded
    split at hshielded
    · assumption
    · cases hshielded

theorem Connected.txRun {fJustCheck : Bool} {block : CBlock} {view view' : ChainView}
    {undo : CBlockUndo} {st : ConnectState}
    (h : Connected n ctx fJustCheck block view st undo view') :
    ∃ coinbase rest st₁, BlockShape block coinbase rest ∧
      st₁.view = (blockDelta n ctx coinbase).apply view.coins ∧ st₁.nFees = 0 ∧ st₁.vtxundo = [] ∧
      TxRun n ctx (mwebCoinOf view.mweb) rest st₁ st := by
  obtain ⟨coinbase, rest, hshape⟩ := checkBlock_shape h.checked
  have hrun := h.transactions
  rw [connectTransactions, hshape.vtx_eq, List.zipIdx_cons, List.foldlM_cons] at hrun
  obtain ⟨st₁, hfirst, hrest⟩ := bind_eq_ok.mp hrun
  obtain ⟨hview, hfees, hundo⟩ := connectTx_coinbase hshape.isCoinBase hfirst
  refine ⟨coinbase, rest, st₁, hshape, hview, hfees, hundo, ?_⟩
  refine txRun_of_foldlM hshape.rest_isCoinBase ?_ Nat.one_pos hrest
  intro tx htx
  refine hshape.checked tx ?_
  rw [hshape.vtx_eq]
  exact List.mem_cons_of_mem _ htx

end

end Consensus
