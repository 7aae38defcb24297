import ZkCoin.Coins.Snapshot
import ZkCoin.Consensus.WitnessVariants
import ZkCoin.Ledger.ConnectBlock
import ZkCoin.Mweb.HogExAmounts
import ZkCoin.Shielded.ChainInvariant

/-!
# Value is conserved

The fees of a block are found transaction by transaction from the coins, its effect on the shielded
pool from the markers of the whole block; the two read the markers on their own.  Here they are put
together: what the coins and the pool hold together changes by the subsidy, less what the coinbase does
not claim and what is sent to outputs that nobody can spend.

* `utxoValue`, `shieldedPoolOf`   — what the coins hold, what the pool holds.
* `TxRun.value`                   — the transactions of a block.
* `Connected.value`               — one block.
* `connectBlock_overflow`         — no sum overflows.
* `Reaches.value_le`              — a chain on an imported snapshot.
* `supply_capped`                 — what all subsidies together allow.
-/

open Bytes Utxo Checked TableDelta

namespace Consensus

/-! ## what is counted -/

noncomputable def utxoValue (view : View) : Int := total (fun coin : Coin => coin.out.nValue) view

/-- the shielded pool value of a chain: the replay of its markers -/
def shieldedPoolOf (n : Node) (chain : List CBlock) : Int :=
  match Shielded.loadShieldedChainState n.hash256 n.verifier n.params.shieldedPool chain .init with
  | .ok shielded => shielded.nValuePool
  | .error _ => 0

/-- what a transaction sends to outputs that no coin is made of -/
def unspendableValue (tx : CTransaction) : Int :=
  ((tx.vout.filter fun txout => Script.isUnspendable txout.scriptPubKey).map CTxOut.nValue).sum

def blockFees (n : Node) (ctx : ConnectContext) (block : CBlock) (view : ChainView) : Int :=
  match connectTransactions n ctx (mwebCoinOf view.mweb) block.vtx view.coins with
  | .ok st => st.nFees
  | .error _ => 0

/-- what the coinbase could have claimed and did not -/
def unclaimedReward (n : Node) (ctx : ConnectContext) (block : CBlock) (view : ChainView) : Int :=
  blockFees n ctx block view + getBlockSubsidy n.params ctx.nHeight -
    (block.vtx.head?.bind Mweb.getValueOut).getD 0

/-- no outpoint of the block has a coin in the view -/
def FreshOutpoints (n : Node) (block : CBlock) (view : View) : Prop :=
  ∀ tx ∈ block.vtx, ∀ i < tx.vout.length,
    view (outpointOf (tx.getHash n.hash256 n.blake3) i) = none

/-! ## one transaction -/

theorem getBlockSubsidy_range (params : Params) (nHeight : Int) :
    0 ≤ getBlockSubsidy params nHeight ∧ getBlockSubsidy params nHeight ≤ maxMoney := by
  unfold getBlockSubsidy
  dsimp only
  have hmax : maxMoney = 8400000000000000 := by decide
  have hcoin : coin = 100000000 := by decide
  split
  · omega
  · have hpow : (0 : Int) < 2 ^ (nHeight.tdiv params.nSubsidyHalvingInterval).toNat := by positivity
    refine ⟨Int.ediv_nonneg (by omega) hpow.le, ?_⟩
    have hle := Int.ediv_le_self (2 ^ (nHeight.tdiv params.nSubsidyHalvingInterval).toNat)
      (show 0 ≤ 50 * coin by omega)
    omega

theorem newCoins_value (hash256 blake3 : Bytes → Uint256) (tx : CTransaction) (nHeight : Nat) :
    ((newCoins hash256 blake3 tx nHeight).map fun e => e.2.out.nValue).sum + unspendableValue tx =
      (tx.vout.map CTxOut.nValue).sum := by
  have hrun : ∀ (outs : List CTxOut) (i : Nat),
      (((outs.zipIdx i).filter fun out => !Script.isUnspendable out.1.scriptPubKey).map
        fun out => out.1.nValue).sum +
        ((outs.filter fun txout => Script.isUnspendable txout.scriptPubKey).map CTxOut.nValue).sum =
      (outs.map CTxOut.nValue).sum := by
    intro outs
    induction outs with
    | nil => exact fun _ => rfl
    | cons txout outs ih =>
      intro i
      have hrest := ih (i + 1)
      rw [List.zipIdx_cons]
      cases hun : Script.isUnspendable txout.scriptPubKey with
      | true =>
        rw [List.filter_cons_of_neg (by simp [hun]), List.filter_cons_of_pos (by simp [hun]),
          List.map_cons, List.map_cons, List.sum_cons, List.sum_cons]
        omega
      | false =>
        rw [List.filter_cons_of_pos (by simp [hun]), List.filter_cons_of_neg (by simp [hun]),
          List.map_cons, List.map_cons, List.sum_cons, List.sum_cons]
        dsimp only
        omega
  rw [newCoins, List.map_map]
  exact hrun tx.vout 0

theorem unspendableValue_nonneg {tx : CTransaction}
    (h : ∀ txout ∈ tx.vout, moneyRange txout.nValue = true) : 0 ≤ unspendableValue tx := by
  refine List.sum_nonneg ?_
  intro v hv
  obtain ⟨txout, hout, rfl⟩ := List.mem_map.mp hv
  exact (Mw.moneyRange_iff.mp (h txout (List.mem_filter.mp hout).1)).1

theorem newCoins_range {hash256 blake3 : Bytes → Uint256} {tx : CTransaction} {nHeight : Nat}
    (h : ∀ txout ∈ tx.vout, moneyRange txout.nValue = true) :
    ∀ e ∈ newCoins hash256 blake3 tx nHeight, moneyRange e.2.out.nValue = true := by
  intro e he
  obtain ⟨out, hout, rfl⟩ := List.mem_map.mp he
  exact h out.1 (List.fst_mem_of_mem_zipIdx (List.mem_filter.mp hout).1)

section
variable {n : Node} {ctx : ConnectContext} {mwebCoin : Uint256 → Option Mw.Output}

/-- the markers of a transaction that the shielded rules of the block let through -/
structure MarkersOk (n : Node) (nHeight : Int) (tx : CTransaction) : Prop where
  inactive : n.params.shieldedPool.isEnabled nHeight = false → Shielded.txMarkers tx = []
  coinbase : tx.isCoinBase = true → Shielded.txMarkers tx = []

theorem TxStep.bounded {tx : CTransaction} {txundo : List Coin} {st st' : ConnectState}
    (h : TxStep n ctx mwebCoin tx txundo st st') (hfinite : Bounded st.view) : Bounded st'.view := by
  rw [h.view_eq]
  exact hfinite.apply _

theorem TxStep.value {tx : CTransaction} {txundo : List Coin} {st st' : ConnectState}
    (h : TxStep n ctx mwebCoin tx txundo st st') (hcb : tx.isCoinBase = false)
    (hmweb : tx.mwebTx = none) (hmarkers : MarkersOk n ctx.nHeight tx) (hfinite : Bounded st.view) :
    utxoValue st'.view + st'.nFees + Shielded.poolValue (Shielded.txMarkers tx) +
      unspendableValue tx = utxoValue st.view + st.nFees := by
  obtain ⟨txfee, hfee, hfees⟩ := h.fee
  obtain ⟨-, -, valueOut, hout, hin⟩ := checkTxInputs_ok hmweb hfee hmarkers.inactive
  obtain ⟨hsum, -⟩ := Mweb.getValueOut_run hout
  have htotal := Delta.total_apply h.allowed hfinite fun coin : Coin => coin.out.nValue
  have hnew := newCoins_value n.hash256 n.blake3 tx ctx.nHeight.toNat
  have hremoved : (blockDelta n ctx tx).removed = tx.vin.map CTxIn.prevout := by
    rw [blockDelta, txDelta, prevouts, if_neg (by simp [hcb])]
  rw [← h.view_eq, hremoved, hin] at htotal
  have hadded : (blockDelta n ctx tx).added = newCoins n.hash256 n.blake3 tx ctx.nHeight.toNat := rfl
  rw [hadded] at htotal
  unfold utxoValue
  omega

/-- **The transactions after the coinbase**: what the coins lose goes to the fees, into the pool or is
lost. -/
theorem TxRun.value {txs : List CTransaction} {st st' : ConnectState}
    (h : TxRun n ctx mwebCoin txs st st') (hcb : ∀ tx ∈ txs, tx.isCoinBase = false)
    (hmweb : ∀ tx ∈ txs, tx.mwebTx = none) (hmarkers : ∀ tx ∈ txs, MarkersOk n ctx.nHeight tx)
    (hfinite : Bounded st.view) :
    Bounded st'.view ∧
      utxoValue st'.view + st'.nFees + Shielded.poolValue (Shielded.blockMarkers txs) +
        (txs.map unspendableValue).sum = utxoValue st.view + st.nFees := by
  induction h with
  | nil st =>
    refine ⟨hfinite, ?_⟩
    show utxoValue st.view + st.nFees + 0 + 0 = _
    omega
  | cons step run ih =>
    rw [List.forall_mem_cons] at hcb hmweb hmarkers
    have hstep := step.value hcb.1 hmweb.1 hmarkers.1 hfinite
    obtain ⟨hend, hrest⟩ := ih hcb.2 hmweb.2 hmarkers.2 (step.bounded hfinite)
    refine ⟨hend, ?_⟩
    rw [Shielded.blockMarkers, List.flatMap_cons, Shielded.poolValue_append, List.map_cons,
      List.sum_cons]
    unfold Shielded.blockMarkers at hrest
    omega

end

/-! ## the pool -/

section
variable {n : Node}

theorem addShieldedBlocks_ok {hash256 : Bytes → Uint256} {verifier : Shielded.Verifier} {allow : Bool}
    {blocks : List CBlock} {log : List Shielded.Marker} {s : Shielded.ShieldedValidationState}
    (hlog : 0 ≤ Shielded.poolValue log ∧ Shielded.poolValue log ≤ maxMoney)
    (h : blocks.foldlM (fun shielded block => Shielded.addShieldedBlockToState hash256 verifier true
      allow shielded block.vtx) (Shielded.ledgerState hash256 verifier log) = .ok s) :
    ∃ log', s = Shielded.ledgerState hash256 verifier log' ∧ 0 ≤ Shielded.poolValue log' ∧
      Shielded.poolValue log' ≤ maxMoney := by
  induction blocks generalizing log with
  | nil =>
    obtain rfl := Except.ok.inj h
    exact ⟨log, rfl, hlog⟩
  | cons block blocks ih =>
    rw [List.foldlM_cons] at h
    obtain ⟨s₁, hblock, h⟩ := bind_eq_ok.mp h
    obtain ⟨hallowed, rfl⟩ := (Shielded.addShieldedBlockToState_ok_iff ..).mp hblock
    refine ih ?_ h
    -- every marker of the block leaves the pool in range
    have hinv := hallowed.allowed.invariant (P := fun pre => 0 ≤ Shielded.poolValue (log ++ pre) ∧
      Shielded.poolValue (log ++ pre) ≤ maxMoney) (List.prefix_refl _)
      (by rwa [List.append_nil]) (fun pre m _ hm => by
        rw [← List.append_assoc]
        exact ⟨hm.pool_nonneg, hm.pool_le⟩)
    exact hinv

theorem loadShieldedChainState_ok {chain : List CBlock} {s : Shielded.ShieldedValidationState}
    (h : Shielded.loadShieldedChainState n.hash256 n.verifier n.params.shieldedPool chain .init =
      .ok s) :
    ∃ log, s = Shielded.ledgerState n.hash256 n.verifier log ∧ 0 ≤ Shielded.poolValue log ∧
      Shielded.poolValue log ≤ maxMoney := by
  unfold Shielded.loadShieldedChainState at h
  rw [← Shielded.ledgerState_nil n.hash256 n.verifier] at h
  exact addShieldedBlocks_ok (by decide) h

theorem shieldedPoolOf_range (n : Node) (chain : List CBlock) :
    0 ≤ shieldedPoolOf n chain ∧ shieldedPoolOf n chain ≤ maxMoney := by
  unfold shieldedPoolOf
  split
  · rename_i s hload
    obtain ⟨log, rfl, hrange⟩ := loadShieldedChainState_ok hload
    exact hrange
  · decide

theorem shieldedPoolOf_of_inactive {chain : List CBlock}
    (h : n.params.shieldedPool.isEnabled chain.length = false) : shieldedPoolOf n chain = 0 := by
  have hblocks : Shielded.shieldedBlocks n.params.shieldedPool chain = [] := by
    cases chain with
    | nil => rfl
    | cons block prev =>
      rw [Shielded.shieldedBlocks, Shielded.isEnabled_mono h]
      rfl
  unfold shieldedPoolOf Shielded.loadShieldedChainState
  rw [hblocks]
  rfl

/-- **The pool after a block**, and what its transactions may carry. -/
theorem shieldedPoolOf_cons {block : CBlock} {chain : List CBlock}
    (h : Shielded.checkShieldedBlockState n.hash256 n.verifier n.params.shieldedPool block chain
      chain.length = .ok ()) :
    shieldedPoolOf n (block :: chain) =
        shieldedPoolOf n chain + Shielded.poolValue (Shielded.blockMarkers block.vtx) ∧
      ∀ tx ∈ block.vtx, MarkersOk n chain.length tx := by
  obtain ⟨shielded, shielded', hload, hadd⟩ := Shielded.checkShieldedBlockState_ok h
  cases hen : n.params.shieldedPool.isEnabled chain.length with
  | false =>
    rw [hen] at hadd
    have hnil := Shielded.blockMarkers_eq_nil_of_inactive n.hash256 n.verifier hadd
    have hnone : ∀ tx ∈ block.vtx, Shielded.txMarkers tx = [] := by
      simpa [Shielded.blockMarkers] using hnil
    refine ⟨?_, fun tx htx => ⟨fun _ => hnone tx htx, fun _ => hnone tx htx⟩⟩
    rw [shieldedPoolOf_of_inactive hen, hnil]
    unfold shieldedPoolOf Shielded.loadShieldedChainState
    rw [Shielded.shieldedBlocks, hen]
    rfl
  | true =>
    rw [hen] at hadd
    have hload := hload hen
    obtain ⟨log, rfl, -⟩ := loadShieldedChainState_ok hload
    obtain ⟨hallowed, rfl⟩ := (Shielded.addShieldedBlockToState_ok_iff ..).mp hadd
    refine ⟨?_, ?_⟩
    · have hcons : Shielded.loadShieldedChainState n.hash256 n.verifier n.params.shieldedPool
          (block :: chain) .init =
          .ok (Shielded.ledgerState n.hash256 n.verifier (log ++ Shielded.blockMarkers block.vtx)) := by
        unfold Shielded.loadShieldedChainState at hload ⊢
        rw [Shielded.shieldedBlocks, if_pos hen, List.reverse_cons, List.foldlM_append, hload]
        refine bind_eq_ok.mpr ⟨_, rfl, ?_⟩
        rw [List.foldlM_cons, hadd]
        rfl
      unfold shieldedPoolOf
      rw [hcons, hload]
      exact Shielded.poolValue_append log _
    · intro tx htx
      obtain ⟨ms, hms⟩ := hallowed.checked tx htx
      obtain ⟨rfl, -, haccepted⟩ := Shielded.checkTransaction_ok hms
      refine ⟨fun hoff => absurd (hen.symm.trans hoff) Bool.noConfusion, fun hcb => ?_⟩
      rw [List.eq_nil_iff_forall_not_mem]
      intro m hm
      exact absurd (hcb.symm.trans (haccepted m hm).2.1) Bool.noConfusion

end

/-! ## one block -/

section
variable {n : Node} {ctx : ConnectContext} {fJustCheck : Bool} {block : CBlock}
  {view view' : ChainView} {undo : CBlockUndo} {st : ConnectState}

theorem checkReward_ok {nFees : Int} {coinbase : CTransaction} {rest : List CTransaction}
    (hvtx : block.vtx = coinbase :: rest) (h : checkReward n ctx block nFees = .ok ()) :
    ∃ valueOut, Mweb.getValueOut coinbase = some valueOut ∧
      valueOut ≤ nFees + getBlockSubsidy n.params ctx.nHeight := by
  unfold checkReward at h
  rw [hvtx] at h
  obtain ⟨blockReward, hsum, h⟩ := bind_eq_ok.mp h
  obtain ⟨-, rfl⟩ := addAmount_eq_ok.mp (ofTx_eq_ok.mp hsum)
  dsimp only at h
  cases hout : Mweb.getValueOut coinbase with
  | none =>
    rw [hout] at h
    cases h
  | some valueOut =>
    rw [hout] at h
    obtain ⟨hle, -⟩ := ite_error_eq_ok.mp h
    exact ⟨valueOut, rfl, not_lt.mp hle⟩

/-- the parts of a connected block that carry value: the coinbase makes coins of its spendable
outputs, the rest is `TxRun.value` -/
structure BlockValue (n : Node) (ctx : ConnectContext) (block : CBlock) (view : View)
    (coinbase : CTransaction) (st : ConnectState) : Prop where
  bounded : Bounded st.view
  lost_nonneg : 0 ≤ (block.vtx.map unspendableValue).sum
  fresh : FreshOutpoints n block view →
    utxoValue ((blockDelta n ctx coinbase).apply view) = utxoValue view +
      ((newCoins n.hash256 n.blake3 coinbase ctx.nHeight.toNat).map fun e => e.2.out.nValue).sum
  le : CoinsInRange view →
    utxoValue ((blockDelta n ctx coinbase).apply view) ≤ utxoValue view +
      ((newCoins n.hash256 n.blake3 coinbase ctx.nHeight.toNat).map fun e => e.2.out.nValue).sum
  run : utxoValue st.view + st.nFees + shieldedPoolOf n (block :: ctx.chain) +
      (block.vtx.map unspendableValue).sum =
    utxoValue ((blockDelta n ctx coinbase).apply view) + shieldedPoolOf n ctx.chain +
      unspendableValue coinbase

theorem ConnectContext.nHeight_eq (ctx : ConnectContext) : ctx.nHeight = ctx.chain.length :=
  ctx.height_chain

theorem Connected.blockValue (h : Connected n ctx fJustCheck block view st undo view')
    (hfinite : Bounded view.coins) :
    ∃ coinbase rest, block.vtx = coinbase :: rest ∧
      BlockValue n ctx block view.coins coinbase st := by
  obtain ⟨coinbase, rest, st₁, hshape, hview, hfees, -, hrun⟩ := h.txRun
  have hshielded := h.shielded
  rw [ctx.nHeight_eq] at hshielded
  obtain ⟨hpool, hmarkers⟩ := shieldedPoolOf_cons hshielded
  rw [← ctx.nHeight_eq] at hmarkers
  have hmem : ∀ tx ∈ rest, tx ∈ block.vtx := by
    intro tx htx
    rw [hshape.vtx_eq]
    exact List.mem_cons_of_mem _ htx
  have hcoinbase : coinbase ∈ block.vtx := by
    rw [hshape.vtx_eq]
    exact List.mem_cons_self
  have houts := checkTransaction_outputs (hshape.checked coinbase hcoinbase)
  have hremoved : (blockDelta n ctx coinbase).removed = [] := by
    rw [blockDelta, txDelta, prevouts, if_pos hshape.isCoinBase]
  have happly : (blockDelta n ctx coinbase).apply view.coins =
      addAll (newCoins n.hash256 n.blake3 coinbase ctx.nHeight.toNat) view.coins := by
    rw [Delta.apply, hremoved]
    rfl
  have hfinite₁ : Bounded st₁.view := by
    rw [hview]
    exact hfinite.apply _
  obtain ⟨hend, hvalue⟩ := hrun.value hshape.rest_isCoinBase
    (fun tx htx => hshape.mwebTx_eq tx (hmem tx htx)) (fun tx htx => hmarkers tx (hmem tx htx)) hfinite₁
  refine ⟨coinbase, rest, hshape.vtx_eq, hend, ?_, ?_, ?_, ?_⟩
  · refine List.sum_nonneg ?_
    intro v hv
    obtain ⟨tx, htx, rfl⟩ := List.mem_map.mp hv
    exact unspendableValue_nonneg (checkTransaction_outputs (hshape.checked tx htx)).2.1
  · intro hfresh
    rw [happly]
    refine total_addAll hfinite _ (newCoins_nodup houts.1) ?_
    intro o ho
    obtain ⟨e, he, rfl⟩ := List.mem_map.mp ho
    obtain ⟨out, hout, rfl⟩ := List.mem_map.mp he
    refine hfresh coinbase hcoinbase out.2 ?_
    exact List.snd_lt_of_mem_zipIdx (List.mem_filter.mp hout).1
  · intro hrange
    rw [happly]
    refine total_addAll_le hfinite ?_ ?_
    · intro o coin hcoin
      exact (Mw.moneyRange_iff.mp (hrange o coin hcoin)).1
    · intro e he
      exact (Mw.moneyRange_iff.mp (newCoins_range houts.2.1 e he)).1
  · have hnone : Shielded.txMarkers coinbase = [] :=
      (hmarkers coinbase hcoinbase).coinbase hshape.isCoinBase
    have hmark : Shielded.blockMarkers block.vtx = Shielded.blockMarkers rest := by
      rw [hshape.vtx_eq, Shielded.blockMarkers, List.flatMap_cons, hnone]
      rfl
    rw [hpool, hmark, hshape.vtx_eq, List.map_cons, List.sum_cons]
    rw [hview, hfees] at hvalue
    omega

/-- **One block.** -/
theorem Connected.value (h : Connected n ctx fJustCheck block view st undo view')
    (hfinite : Bounded view.coins) (hfresh : FreshOutpoints n block view.coins) :
    utxoValue view'.coins + shieldedPoolOf n (block :: ctx.chain) =
        utxoValue view.coins + shieldedPoolOf n ctx.chain + getBlockSubsidy n.params ctx.nHeight -
          unclaimedReward n ctx block view - (block.vtx.map unspendableValue).sum ∧
      0 ≤ unclaimedReward n ctx block view := by
  obtain ⟨coinbase, rest, hvtx, hvalue⟩ := h.blockValue hfinite
  obtain ⟨valueOut, hout, hle⟩ := checkReward_ok hvtx h.reward
  have hsum := (Mweb.getValueOut_run hout).1
  have hnew := newCoins_value n.hash256 n.blake3 coinbase ctx.nHeight.toNat
  have hunclaimed : unclaimedReward n ctx block view =
      st.nFees + getBlockSubsidy n.params ctx.nHeight - valueOut := by
    unfold unclaimedReward blockFees
    rw [h.transactions, hvtx]
    simp [hout]
  have hcoins := hvalue.fresh hfresh
  have hrun := hvalue.run
  rw [h.coins_eq, hunclaimed]
  omega

/-- without any assumption on the outpoints there is never more -/
theorem Connected.value_le (h : Connected n ctx fJustCheck block view st undo view')
    (hfinite : Bounded view.coins) (hrange : CoinsInRange view.coins) :
    utxoValue view'.coins + shieldedPoolOf n (block :: ctx.chain) ≤
      utxoValue view.coins + shieldedPoolOf n ctx.chain + getBlockSubsidy n.params ctx.nHeight := by
  obtain ⟨coinbase, rest, hvtx, hvalue⟩ := h.blockValue hfinite
  obtain ⟨valueOut, hout, hle⟩ := checkReward_ok hvtx h.reward
  have hsum := (Mweb.getValueOut_run hout).1
  have hnew := newCoins_value n.hash256 n.blake3 coinbase ctx.nHeight.toNat
  have hcoins := hvalue.le hrange
  have hrun := hvalue.run
  have hlost := hvalue.lost_nonneg
  rw [h.coins_eq]
  omega

end

/-! ## no sum overflows -/

section
variable (n : Node) (ctx : ConnectContext) (mwebCoin : Uint256 → Option Mw.Output)

theorem raises_ofBlock {α : Type} (x : Except BlockFault α) : Raises (· ≠ .overflow) (ofBlock x) := by
  cases x with
  | ok a => exact raises_ok
  | error fault => exact raises_error.mpr nofun

theorem raises_ofTx {α : Type} {x : Except TxFault α} (h : Raises (· ≠ .overflow) x) :
    Raises (· ≠ .overflow) (ofTx x) := by
  cases x with
  | ok a => exact raises_ok
  | error fault =>
    cases fault with
    | invalid state => exact raises_error.mpr nofun
    | aborted => exact raises_error.mpr nofun
    | overflow => exact absurd rfl (h .overflow rfl)

theorem connectInputs_overflow {st : ConnectState} (tx : CTransaction) (hview : CoinsInRange st.view)
    (hfees : moneyRange st.nFees = true) :
    Raises (· ≠ .overflow) (connectInputs n ctx mwebCoin st tx) ∧
      ∀ nFees, connectInputs n ctx mwebCoin st tx = .ok nFees → moneyRange nFees = true := by
  unfold connectInputs
  constructor
  · refine raises_ite.mpr ⟨fun _ => raises_ok, fun _ => ?_⟩
    refine raises_bind.mpr ⟨raises_ofTx (checkTxInputs_overflow hview), fun txfee hfee => ?_⟩
    have hrange : moneyRange txfee = true := checkTxInputs_fee_range (ofTx_eq_ok.mp hfee)
    refine raises_bind.mpr ⟨?_, fun sum _ => ?_⟩
    · rw [addAmount_of_range (moneyRange_bounds hfees) (moneyRange_bounds hrange)]
      exact raises_ok
    · refine raises_ite.mpr ⟨fun _ => raises_ofBlock _, fun _ => ?_⟩
      exact raises_ite.mpr ⟨fun _ => raises_ofBlock _, fun _ => raises_ok⟩
  · intro nFees h
    split at h
    · obtain rfl := Except.ok.inj h
      exact hfees
    · obtain ⟨txfee, -, h⟩ := bind_eq_ok.mp h
      obtain ⟨sum, -, h⟩ := bind_eq_ok.mp h
      obtain ⟨hrange, h⟩ := ite_error_eq_ok.mp h
      obtain ⟨-, h⟩ := ite_error_eq_ok.mp h
      obtain rfl := Except.ok.inj h
      simpa using hrange

theorem updateCoins_inRange {hash256 blake3 : Bytes → Uint256} {tx : CTransaction} {nHeight : Nat}
    {view view' : View} {vprevout : List Coin} (hview : CoinsInRange view)
    (houts : ∀ txout ∈ tx.vout, moneyRange txout.nValue = true)
    (h : updateCoins hash256 blake3 tx nHeight view = .ok (vprevout, view')) : CoinsInRange view' := by
  unfold updateCoins at h
  obtain ⟨⟨coins, view₁⟩, hspend, h⟩ := bind_eq_ok.mp h
  obtain ⟨view₂, hadd, hend⟩ := bind_eq_ok.mp h
  obtain ⟨-, rfl⟩ := Prod.mk.inj (Except.ok.inj hend)
  obtain ⟨rfl, -⟩ := addCoins_run hadd
  have hspent : CoinsInRange view₁ := by
    unfold spendInputs at hspend
    split at hspend
    · obtain ⟨-, rfl⟩ := Prod.mk.inj (Except.ok.inj hspend)
      exact hview
    · obtain ⟨-, -, rfl⟩ := spendCoins_ok hspend
      exact hview.removeAll _
  exact hspent.addAll (newCoins_range houts)

theorem connectTx_overflow {st : ConnectState} {entry : CTransaction × Nat}
    (houts : ∀ txout ∈ entry.1.vout, moneyRange txout.nValue = true)
    (h : CoinsInRange st.view ∧ moneyRange st.nFees = true) :
    Raises (· ≠ .overflow) (connectTx n ctx mwebCoin st entry) ∧
      ∀ st', connectTx n ctx mwebCoin st entry = .ok st' →
        CoinsInRange st'.view ∧ moneyRange st'.nFees = true := by
  obtain ⟨hraises, hrange⟩ := connectInputs_overflow n ctx mwebCoin entry.1 h.1 h.2
  unfold connectTx
  constructor
  · refine raises_bind.mpr ⟨hraises, fun nFees _ => ?_⟩
    refine raises_ite.mpr ⟨fun _ => raises_ofBlock _, fun _ => ?_⟩
    refine raises_bind.mpr ⟨?_, fun _ _ => ?_⟩
    · unfold connectScripts
      refine raises_ite.mpr ⟨fun _ => ?_, fun _ => raises_ok⟩
      split
      · exact raises_ok
      · exact raises_ofBlock _
    · exact raises_bind.mpr ⟨raises_ofBlock _, fun _ _ => raises_ok⟩
  · intro st' hst
    obtain ⟨nFees, hfees, hst⟩ := bind_eq_ok.mp hst
    obtain ⟨-, hst⟩ := ite_error_eq_ok.mp hst
    obtain ⟨-, hst⟩ := then_eq_ok.mp hst
    obtain ⟨⟨txundo, view⟩, hupdate, hst⟩ := bind_eq_ok.mp hst
    obtain rfl := Except.ok.inj hst
    exact ⟨updateCoins_inRange h.1 houts (ofBlock_eq_ok.mp hupdate), hrange nFees hfees⟩

theorem connectTransactions_overflow {vtx : List CTransaction} {view : View}
    (hchecked : ∀ tx ∈ vtx, checkTransaction tx = .ok ()) (hview : CoinsInRange view) :
    Raises (· ≠ .overflow) (connectTransactions n ctx mwebCoin vtx view) ∧
      ∀ st, connectTransactions n ctx mwebCoin vtx view = .ok st →
        CoinsInRange st.view ∧ moneyRange st.nFees = true := by
  refine Raises.foldlM_of (P := fun st : ConnectState =>
    CoinsInRange st.view ∧ moneyRange st.nFees = true) ?_ ⟨hview, show moneyRange 0 = true by decide⟩
  intro st entry hentry hst
  refine connectTx_overflow n ctx mwebCoin ?_ hst
  exact (checkTransaction_outputs (hchecked entry.1 (List.fst_mem_of_mem_zipIdx hentry))).2.1

/-- **No sum overflows** when a block is connected, accepted or not, if the coins are in range. -/
theorem connectBlock_overflow (fJustCheck : Bool) (block : CBlock) {view : ChainView}
    (hview : CoinsInRange view.coins) :
    connectBlock n ctx fJustCheck block view ≠ .error .overflow := by
  have hraises : Raises (· ≠ .overflow) (connectBlock n ctx fJustCheck block view) := by
    unfold connectBlock
    refine raises_bind.mpr ⟨?_, fun _ hchecked => ?_⟩
    · unfold checkBlockAgain
      split
      · exact raises_ok
      · exact raises_ite.mpr ⟨fun _ => raises_error.mpr nofun, fun _ => raises_error.mpr nofun⟩
    have hshape : ∃ coinbase rest, BlockShape block coinbase rest := by
      unfold checkBlockAgain at hchecked
      split at hchecked
      · rename_i hcheck
        exact checkBlock_shape hcheck
      · split at hchecked
        · cases hchecked
        · cases hchecked
    obtain ⟨coinbase, rest, hshape⟩ := hshape
    obtain ⟨hloop, hend⟩ := connectTransactions_overflow n ctx (mwebCoinOf view.mweb) hshape.checked
      hview
    refine raises_ite.mpr ⟨fun _ => raises_error.mpr nofun, fun _ => ?_⟩
    refine raises_ite.mpr ⟨fun _ => raises_ok, fun _ => ?_⟩
    unfold connectBody
    refine raises_bind.mpr ⟨?_, fun _ _ => ?_⟩
    · unfold checkSnapshotImported
      refine raises_ite.mpr ⟨fun _ => ?_, fun _ => raises_ok⟩
      split
      · exact raises_ok
      · exact raises_error.mpr nofun
    refine raises_bind.mpr ⟨?_, fun _ _ => ?_⟩
    · unfold checkShieldedState
      split
      · exact raises_ok
      · exact raises_ofBlock _
    refine raises_bind.mpr ⟨?_, fun _ _ => ?_⟩
    · exact raises_ite.mpr ⟨fun _ => raises_ofBlock _, fun _ => raises_ok⟩
    refine raises_bind.mpr ⟨hloop, fun st hst => ?_⟩
    refine raises_bind.mpr ⟨?_, fun _ _ => ?_⟩
    · unfold checkReward
      have hsubsidy := getBlockSubsidy_range n.params ctx.nHeight
      rw [addAmount_of_range (moneyRange_bounds (hend st hst).2)
        (moneyRange_bounds (Mw.moneyRange_iff.mpr hsubsidy))]
      refine raises_bind.mpr ⟨raises_ok, fun reward _ => ?_⟩
      split
      · exact raises_error.mpr nofun
      · split
        · exact raises_error.mpr nofun
        · exact raises_ite.mpr ⟨fun _ => raises_ofBlock _, fun _ => raises_ok⟩
    refine raises_bind.mpr ⟨?_, fun _ _ => ?_⟩
    · exact raises_ite.mpr ⟨fun _ => raises_ofBlock _, fun _ => raises_ok⟩
    refine raises_bind.mpr ⟨?_, fun _ _ => raises_ok⟩
    unfold connectMweb
    split
    · exact raises_error.mpr nofun
    · exact raises_ofBlock _
  intro h
  exact hraises .overflow h rfl

end

/-! ## a chain on a snapshot -/

/-- the coins at the genesis tip, worth at most `total` -/
structure ImportedCoins (view : View) (total : Int) : Prop where
  bounded : Bounded view
  inRange : CoinsInRange view
  value_le : utxoValue view ≤ total

theorem importedCoins_none : ImportedCoins (fun _ => none) 0 := by
  refine ⟨?_, nofun, ?_⟩
  · exact Set.finite_empty.subset fun o ho => ho rfl
  · exact le_of_eq finsum_zero

theorem importAll_importedCoins {view : View} {total : Int} (hview : ImportedCoins view total)
    {xs : List (COutPoint × Coin)} (hxs : ∀ x ∈ xs, moneyRange x.2.out.nValue = true) :
    ImportedCoins (Snapshot.importAll view xs) (total + Snapshot.totalValue xs) := by
  induction xs generalizing view total with
  | nil => simpa [Snapshot.importAll, Snapshot.totalValue] using hview
  | cons x xs ih =>
    rw [List.forall_mem_cons] at hxs
    obtain ⟨hlow, -⟩ := Mw.moneyRange_iff.mp hxs.1
    have hstep : ImportedCoins
        (if (view x.1).isSome then view else CacheTower.added Coins.coinValues view x.1 x.2)
        (total + x.2.out.nValue) := by
      have hkept : ImportedCoins view (total + x.2.out.nValue) :=
        ⟨hview.bounded, hview.inRange, by have := hview.value_le; omega⟩
      split
      · exact hkept
      · unfold CacheTower.added
        split
        · exact hkept
        · rename_i hnone _
          rw [Option.not_isSome_iff_eq_none] at hnone
          refine ⟨hview.bounded.update _ _, hview.inRange.update ?_, ?_⟩
          · intro coin hcoin
            obtain rfl := Option.some.inj hcoin
            exact hxs.1
          · have hle := hview.value_le
            rw [utxoValue, total_update hview.bounded, hnone]
            show utxoValue view - 0 + x.2.out.nValue ≤ _
            omega
    have hrest := ih hstep hxs.2
    rw [Int.add_assoc] at hrest
    rw [show Snapshot.totalValue (x :: xs) = x.2.out.nValue + Snapshot.totalValue xs by
      simp [Snapshot.totalValue]]
    exact hrest

theorem amountsOk_range {total : Int} {coins : List (COutPoint × Coin)}
    (h : Snapshot.AmountsOk total coins) : ∀ x ∈ coins, moneyRange x.2.out.nValue = true := by
  induction coins generalizing total with
  | nil => exact nofun
  | cons x xs ih =>
    obtain ⟨-, hx, -, hxs⟩ := h
    exact List.forall_mem_cons.mpr ⟨hx, ih hxs⟩

theorem importedCoins_of_import {hash256 : Bytes → Uint256} {keys : Compress.KeyCodec}
    {options : Snapshot.ImportOptions} {file : Snapshot.SnapshotFile}
    {coinsCache cache : Coins.CCoinsViewCache} {stats : Snapshot.SnapshotManifestStats}
    (hcache : CacheTower.Sound Coins.coinValues coinsCache)
    (hempty : CacheTower.view Coins.coinValues coinsCache = fun _ => none)
    (h : Snapshot.importSnapshotManifest hash256 keys options file coinsCache = (.ok stats, cache)) :
    ImportedCoins (CacheTower.view Coins.coinValues cache) stats.totalAmount := by
  obtain ⟨metadata, coins, -, hpass, hreports, -, hviews⟩ := Snapshot.importSnapshotManifest_ok hcache h
  have hview : CacheTower.view Coins.coinValues cache =
      Snapshot.importAll (fun _ => none) (Snapshot.normalized coins) := by
    rw [CacheTower.views_eq_cons, hempty] at hviews
    exact (List.cons.inj hviews).1
  have hrange : ∀ x ∈ Snapshot.normalized coins, moneyRange x.2.out.nValue = true := by
    intro x hx
    obtain ⟨y, hy, rfl⟩ := List.mem_map.mp hx
    exact amountsOk_range hpass.amountsOk y hy
  rw [hview, hreports.totalAmount, ← Snapshot.totalValue_normalized]
  have himport := importAll_importedCoins importedCoins_none hrange
  rwa [Int.zero_add] at himport

/-- blocks connected one after the other, none of them the genesis block -/
inductive Reaches (n : Node) (chain₀ : List CBlock) (view₀ : ChainView) :
    List CBlock → ChainView → Prop
  | start : Reaches n chain₀ view₀ chain₀ view₀
  | connect {ctx : ConnectContext} {block : CBlock} {undo : CBlockUndo} {view view' : ChainView}
    (before : Reaches n chain₀ view₀ ctx.chain view)
    (above_genesis : n.blockHash block ≠ n.params.hashGenesisBlock)
    (accepted : connectBlock n ctx false block view = .ok (undo, view')) :
    Reaches n chain₀ view₀ (block :: ctx.chain) view'

def subsidySum (params : Params) (chain : List CBlock) : Int :=
  ((List.range' 1 (chain.length - 1)).map fun h : Nat => getBlockSubsidy params h).sum

theorem subsidySum_cons (params : Params) (block : CBlock) {chain : List CBlock}
    (hpos : 0 < chain.length) :
    subsidySum params (block :: chain) = subsidySum params chain +
      getBlockSubsidy params chain.length := by
  obtain ⟨m, hm⟩ := Nat.exists_eq_add_of_lt hpos
  unfold subsidySum
  rw [List.length_cons, hm, show 0 + m + 1 + 1 - 1 = m + 1 by omega, show 0 + m + 1 - 1 = m by omega,
    List.range'_concat, List.map_append, List.sum_append]
  simp [Nat.add_comm]

theorem shieldedPoolOf_genesis {n : Node} {genesis : CBlock}
    (h : Shielded.blockMarkers genesis.vtx = []) : shieldedPoolOf n [genesis] = 0 := by
  unfold shieldedPoolOf
  split
  · rename_i s hload
    cases hen : n.params.shieldedPool.isEnabled (0 : Nat) with
    | false =>
      rw [Shielded.loadShieldedChainState, Shielded.shieldedBlocks, List.length_nil, hen] at hload
      obtain rfl := Except.ok.inj hload
      rfl
    | true =>
      rw [Shielded.loadShieldedChainState, Shielded.shieldedBlocks, List.length_nil, if_pos hen,
        ← Shielded.ledgerState_nil n.hash256 n.verifier] at hload
      obtain ⟨s₁, hadd, hend⟩ := bind_eq_ok.mp hload
      obtain rfl := Except.ok.inj hend
      obtain ⟨-, rfl⟩ := (Shielded.addShieldedBlockToState_ok_iff ..).mp hadd
      rw [h]
      rfl
  · rfl

/-- **A chain**: the coins stay in range, and together with the pool they never hold more than was
imported and minted. -/
theorem Reaches.value_le {n : Node} {genesis : CBlock} {start : ChainView} {chain : List CBlock}
    {view : ChainView} {total : Int} (hgenesis : Shielded.blockMarkers genesis.vtx = [])
    (hstart : ImportedCoins start.coins total) (h : Reaches n [genesis] start chain view) :
    0 < chain.length ∧ Bounded view.coins ∧ CoinsInRange view.coins ∧
      utxoValue view.coins + shieldedPoolOf n chain ≤ total + subsidySum n.params chain := by
  induction h with
  | start =>
    refine ⟨Nat.one_pos, hstart.bounded, hstart.inRange, ?_⟩
    rw [shieldedPoolOf_genesis hgenesis]
    show utxoValue start.coins + 0 ≤ total + 0
    have := hstart.value_le
    omega
  | @connect ctx block undo view view' _ above accepted ih =>
    obtain ⟨hpos, hbounded, hrange, hle⟩ := ih
    obtain ⟨st, hconnected⟩ := connectBlock_ok above accepted
    have hstep := hconnected.value_le hbounded hrange
    obtain ⟨coinbase, rest, -, hvalue⟩ := hconnected.blockValue hbounded
    obtain ⟨_, _, hshape⟩ := checkBlock_shape hconnected.checked
    refine ⟨Nat.succ_pos _, ?_, ?_, ?_⟩
    · rw [hconnected.coins_eq]
      exact hvalue.bounded
    · rw [hconnected.coins_eq]
      exact ((connectTransactions_overflow n ctx _ hshape.checked hrange).2 st
        hconnected.transactions).1
    · rw [subsidySum_cons n.params block hpos, ← ctx.nHeight_eq]
      omega

/-- **Value is conserved.**  A block on a view without its outpoints changes what the coins and the
pool hold together by the subsidy, less what the coinbase leaves unclaimed and what becomes
unspendable; no sum overflows, and a chain never holds more than was imported and the subsidies. -/
theorem connectBlock_conserves_value (n : Node) :
    (∀ (ctx : ConnectContext) (fJustCheck : Bool) (block : CBlock) (view view' : ChainView)
        (undo : CBlockUndo), Bounded view.coins → FreshOutpoints n block view.coins →
        connectBlock n ctx fJustCheck block view = .ok (undo, view') →
        (n.blockHash block ≠ n.params.hashGenesisBlock →
          utxoValue view'.coins + shieldedPoolOf n (block :: ctx.chain) =
            utxoValue view.coins + shieldedPoolOf n ctx.chain + getBlockSubsidy n.params ctx.nHeight -
              unclaimedReward n ctx block view - (block.vtx.map unspendableValue).sum ∧
          0 ≤ unclaimedReward n ctx block view) ∧
        (n.blockHash block = n.params.hashGenesisBlock → view'.coins = view.coins)) ∧
    (∀ (ctx : ConnectContext) (fJustCheck : Bool) (block : CBlock) (view : ChainView),
        CoinsInRange view.coins → connectBlock n ctx fJustCheck block view ≠ .error .overflow) ∧
    (∀ chain, 0 ≤ shieldedPoolOf n chain ∧ shieldedPoolOf n chain ≤ maxMoney) ∧
    (∀ (keys : Compress.KeyCodec) (options : Snapshot.ImportOptions) (file : Snapshot.SnapshotFile)
        (coinsCache cache : Coins.CCoinsViewCache) (stats : Snapshot.SnapshotManifestStats),
        CacheTower.Sound Coins.coinValues coinsCache →
        CacheTower.view Coins.coinValues coinsCache = (fun _ => none) →
        Snapshot.importSnapshotManifest n.hash256 keys options file coinsCache = (.ok stats, cache) →
        ImportedCoins (CacheTower.view Coins.coinValues cache) stats.totalAmount) ∧
    (∀ (genesis : CBlock) (start : ChainView) (total : Int) (chain : List CBlock) (view : ChainView),
        Shielded.blockMarkers genesis.vtx = [] → ImportedCoins start.coins total →
        Reaches n [genesis] start chain view →
        CoinsInRange view.coins ∧
          utxoValue view.coins + shieldedPoolOf n chain ≤ total + subsidySum n.params chain) := by
  refine ⟨?_, ?_, shieldedPoolOf_range n, ?_, ?_⟩
  · intro ctx fJustCheck block view view' undo hfinite hfresh h
    refine ⟨fun hgenesis => ?_, fun hgenesis => ?_⟩
    · obtain ⟨st, hconnected⟩ := connectBlock_ok hgenesis h
      exact hconnected.value hfinite hfresh
    · unfold connectBlock at h
      obtain ⟨-, h⟩ := then_eq_ok.mp h
      obtain ⟨-, h⟩ := ite_error_eq_ok.mp h
      rw [if_pos hgenesis] at h
      obtain ⟨-, rfl⟩ := Prod.mk.inj (Except.ok.inj h)
      cases fJustCheck <;> rfl
  · intro ctx fJustCheck block view hview
    exact connectBlock_overflow n ctx fJustCheck block hview
  · intro keys options file coinsCache cache stats hcache hempty h
    exact importedCoins_of_import hcache hempty h
  · intro genesis start total chain view hgenesis hstart h
    exact (h.value_le hgenesis hstart).2.2

/-! ## a mint on a snapshot coin -/

/-- a coin of 12 at the outpoint that the mint of `mintBlock` spends -/
def mintView : ChainView where
  coins := Function.update (fun _ => none) ⟨.ofNat 77, 0⟩ (some ⟨⟨12, [0x51]⟩, false, 1, false⟩)
  bestBlock := .ofNat 1
  mweb :=
    let db := .db ⟨none, fun _ => none, fun _ => 0, 0, []⟩
    .cache db (.fresh db)

theorem mintView_imported : ImportedCoins mintView.coins 12 := by
  have hrange : ∀ x ∈ [((⟨.ofNat 77, 0⟩, ⟨⟨12, [0x51]⟩, false, 1, false⟩) : COutPoint × Coin)],
      moneyRange x.2.out.nValue = true := by decide
  exact importAll_importedCoins importedCoins_none hrange

def mintContext : ConnectContext where
  prev := ⟨0, 0, 0, .null, false, false⟩
  chain := [Shielded.sampleBlock []]
  height_chain := rfl
  bip34Ancestor := none
  snapshotImported := .ok ()
  fScriptChecks := true
  sequenceLocks := fun _ _ => true
  sigOpCost := fun _ _ => 0
  inputScripts := fun _ _ => .ok ()
  scriptQueueOk := true

theorem connectBlock_conserves_value_sample : ∃ undo view',
    connectBlock sampleNode mintContext false mintBlock mintView = .ok (undo, view') ∧
      utxoValue view'.coins + shieldedPoolOf sampleNode (mintBlock :: mintContext.chain) =
        utxoValue mintView.coins + shieldedPoolOf sampleNode mintContext.chain +
          getBlockSubsidy sampleNode.params mintContext.nHeight -
            unclaimedReward sampleNode mintContext mintBlock mintView -
              (mintBlock.vtx.map unspendableValue).sum ∧
      shieldedPoolOf sampleNode (mintBlock :: mintContext.chain) = 10 ∧
      utxoValue view'.coins + shieldedPoolOf sampleNode (mintBlock :: mintContext.chain) ≤
        12 + subsidySum sampleNode.params (mintBlock :: mintContext.chain) := by
  have hok : (connectBlock sampleNode mintContext false mintBlock mintView).isOk = true := by
    decide +kernel
  obtain ⟨⟨undo, view'⟩, hconnect⟩ := exists_of_isOk hok
  have hgenesis : sampleNode.blockHash mintBlock ≠ sampleNode.params.hashGenesisBlock := by
    decide +kernel
  have hfresh : ∀ tx ∈ mintBlock.vtx, ∀ i < tx.vout.length, mintView.coins
      (outpointOf (tx.getHash sampleNode.hash256 sampleNode.blake3) i) = none := by decide +kernel
  obtain ⟨hblock, -, -, -, hchain⟩ := connectBlock_conserves_value sampleNode
  refine ⟨undo, view', hconnect, ?_, by decide +kernel, ?_⟩
  · exact ((hblock _ _ _ _ _ _ mintView_imported.bounded hfresh hconnect).1 hgenesis).1
  · exact (hchain (Shielded.sampleBlock []) mintView 12 _ view' rfl mintView_imported
      (.connect .start hgenesis hconnect)).2

/-! ## the cap -/

section
variable {c : Int} {interval : Nat}

/-- what rewards that start at `c` can still add up to from a height on, if each era halves exactly -/
def rewardsLeft (c : Int) (interval nHeight : Nat) : Int :=
  (2 * interval - (nHeight % interval : Nat)) * (c / 2 ^ (nHeight / interval))

theorem rewardsLeft_eq {r : Nat} (hr : r < interval) (e : Nat) :
    rewardsLeft c interval (interval * e + r) = (2 * interval - r) * (c / 2 ^ e) := by
  rw [rewardsLeft, Nat.mul_add_mod, Nat.mod_eq_of_lt hr, Nat.mul_add_div (by omega),
    Nat.div_eq_of_lt hr, Nat.add_zero]

theorem rewardsLeft_succ (hpos : 0 < interval) (h : Nat) :
    c / 2 ^ (h / interval) + rewardsLeft c interval (h + 1) ≤ rewardsLeft c interval h := by
  have hr := Nat.mod_lt h hpos
  obtain ⟨e, r, hh, he, hr⟩ : ∃ e r, h = interval * e + r ∧ h / interval = e ∧ r < interval :=
    ⟨_, _, (Nat.div_add_mod h interval).symm, rfl, hr⟩
  rw [he, hh, rewardsLeft_eq hr]
  rcases Nat.lt_or_ge (r + 1) interval with hlt | hge
  · rw [Nat.add_assoc, rewardsLeft_eq hlt]
    push_cast
    linarith
  · -- the next era has at most half of this one for each block
    have hhalf : 2 * (c / 2 ^ (e + 1)) ≤ c / 2 ^ e := by
      rw [pow_succ, ← Int.ediv_ediv_of_nonneg (by positivity)]
      omega
    rw [show interval * e + r + 1 = interval * (e + 1) + 0 by rw [Nat.mul_succ]; omega,
      rewardsLeft_eq hpos, show (interval : Int) = r + 1 by omega]
    push_cast
    nlinarith

theorem sum_rewards_le (hc : 0 ≤ c) (hpos : 0 < interval) (k : Nat) :
    ((List.range' 1 k).map fun h => c / 2 ^ (h / interval)).sum ≤ 2 * interval * c := by
  have hnonneg : ∀ h, 0 ≤ c / 2 ^ (h / interval) := fun h => Int.ediv_nonneg hc (by positivity)
  have hrun : ((List.range' 1 k).map fun h => c / 2 ^ (h / interval)).sum +
      rewardsLeft c interval (k + 1) ≤ rewardsLeft c interval 0 := by
    induction k with
    | zero =>
      have hfirst := rewardsLeft_succ (c := c) hpos 0
      have := hnonneg 0
      simp only [List.range'_zero, List.map_nil, List.sum_nil]
      omega
    | succ k ih =>
      have hstep := rewardsLeft_succ (c := c) hpos (k + 1)
      rw [List.range'_1_concat, List.map_append, List.sum_append, List.map_singleton,
        List.sum_singleton, Nat.add_comm 1 k]
      omega
  have hleft : 0 ≤ rewardsLeft c interval (k + 1) := by
    have := Nat.mod_lt (k + 1) hpos
    exact Int.mul_nonneg (by omega) (hnonneg _)
  have hstart : rewardsLeft c interval 0 = 2 * interval * c := by simp [rewardsLeft]
  omega

end

/-- **The supply is capped.**  However long the chain, its coins and its pool together never hold more
than was imported and twice the subsidies of the first era. -/
theorem supply_capped (n : Node) (hpos : 0 < n.params.nSubsidyHalvingInterval) {genesis : CBlock}
    {start : ChainView} {total : Int} (hgenesis : Shielded.blockMarkers genesis.vtx = [])
    (hstart : ImportedCoins start.coins total) {chain : List CBlock} {view : ChainView}
    (h : Reaches n [genesis] start chain view) :
    utxoValue view.coins + shieldedPoolOf n chain ≤
      total + 2 * n.params.nSubsidyHalvingInterval * (50 * coin) := by
  have hsum : subsidySum n.params chain ≤ ((List.range' 1 (chain.length - 1)).map fun h =>
      50 * coin / 2 ^ (h / n.params.nSubsidyHalvingInterval)).sum := by
    refine List.sum_le_sum fun h _ => ?_
    unfold getBlockSubsidy
    dsimp only
    split
    · exact Int.ediv_nonneg (by decide) (by positivity)
    · exact le_rfl
  have hcap := sum_rewards_le (c := 50 * coin) (by decide) hpos (chain.length - 1)
  have := (h.value_le hgenesis hstart).2.2.2
  omega

/-- with the interval of the main chain this is the largest amount on top of what was imported -/
theorem supply_capped_mint : ∃ undo view',
    connectBlock sampleNode mintContext false mintBlock mintView = .ok (undo, view') ∧
      utxoValue view'.coins + shieldedPoolOf sampleNode (mintBlock :: mintContext.chain) ≤
        12 + maxMoney := by
  have hok : (connectBlock sampleNode mintContext false mintBlock mintView).isOk = true := by
    decide +kernel
  obtain ⟨⟨undo, view'⟩, hconnect⟩ := exists_of_isOk hok
  exact ⟨undo, view', hconnect, supply_capped sampleNode (by decide) rfl mintView_imported
    (.connect .start (by decide +kernel) hconnect)⟩

end Consensus
