import ZkCoin.Ledger.Conservation
import ZkCoin.Mempool.PreChecks
import ZkCoin.Mempool.Removal

/-!
# The mempool and the shielded state of the tip

The node accepts transactions, connects blocks and reorganizes.  Acceptance measures the shielded
markers of the whole mempool against the state of the tip; the functions that remove transactions when
the tip moves know transparent and extension-block inputs only.

* `NodeState`, `step`, `run` — the tip, the mempool and what a reorganization has under way.
* `Consistent`              — the loop over the mempool accepts it on the tip.
* `Sound`                   — what every state of a run satisfies, consistent or not.
* `Keeps`                   — when a step leaves the mempool consistent.
* `shielded_consistency_iff` — a run stays consistent exactly when each of its steps keeps it so.
* `run_conflict_free`       — what a run keeps apart.
-/

open Bytes Consensus Shielded

namespace Mempool

/-! ## the node -/

/-- what the node has besides its state: the coins of a tip, the checks that are not modelled, and the
order in which `infoAll` shows the mempool -/
structure Env where
  n : Node
  options : Options
  view : Tip → ChainView
  /-- scripts, lock times and signature operations of a block -/
  context : Tip → CBlock → ConnectContext
  /-- the checks of acceptance after the modelled ones; the flag is `bypass_limits` -/
  remaining : Bool → Tip → CTxMemPool → CTransaction → Except String Unit
  checkSequenceLocks : Tip → CTxMemPool → CTransaction → Bool
  infoAll : CTxMemPool → List CTransaction
  infoAll_perm : ∀ pool, (infoAll pool).Perm pool.txs

inductive Phase
  /-- no reorganization is under way -/
  | settled
  /-- blocks have been disconnected, and others may have been connected -/
  | switching
  /-- `UpdateMempoolForReorg` resubmits transactions -/
  | restoring
  deriving DecidableEq

structure NodeState where
  tip : Tip
  pool : CTxMemPool
  /-- `DisconnectedBlockTransactions::queuedTx` in the order of insertion -/
  disconnectpool : List CTransaction
  vHashUpdate : List Uint256
  phase : Phase

inductive Op
  | accept (tx : CTransaction) (evicted : List Uint256)
  | connect (index : CBlockIndex) (block : CBlock)
  /-- `recent` are the transactions that `recentTxsByKernel` has for the kernels of the block, and
  `dropped` entries are too much for the memory of the queue -/
  | disconnect (index : CBlockIndex) (recent : List CTransaction) (dropped : Nat)
  | resubmit (fAddToMempool : Bool)
  | settle (evicted : List Uint256)

def Tip.push (tip : Tip) (index : CBlockIndex) (block : CBlock) : Option Tip :=
  if h : index.nHeight = tip.index.nHeight + 1 then
    some ⟨index, block :: tip.chain, by
      have := tip.height_chain
      rw [List.length_cons]
      push_cast
      omega⟩
  else none

def Tip.pop (tip : Tip) (index : CBlockIndex) : Option (CBlock × Tip) :=
  match tip.chain with
  | [] => none
  | block :: chain =>
    if h : index.nHeight + 1 = chain.length then some (block, ⟨index, chain, h⟩) else none

section
variable (env : Env)

def Env.tipContext (tip : Tip) (block : CBlock) : ConnectContext :=
  { env.context tip block with
    prev := tip.index, chain := tip.chain, height_chain := tip.height_chain }

/-- `ContextualCheckBlock` and `ConnectBlock` accept the block; the genesis block is below -/
def Env.blockValid (tip : Tip) (block : CBlock) : Bool :=
  (contextualCheckBlock env.n.hash256 env.n.blake3 env.n.verifier env.n.crypto env.n.params tip.index
    block).isOk &&
  decide (env.n.blockHash block ≠ env.n.params.hashGenesisBlock) &&
  (connectBlock env.n (env.tipContext tip block) false block (env.view tip)).isOk

/-- one of the inputs is a coinbase or a peg-out; what the mempool creates is neither -/
def Env.spendsCoinbase (tip : Tip) (pool : CTxMemPool) (tx : CTransaction) : Bool :=
  tx.vin.any fun txin => !pool.exists env.n txin.prevout.hash &&
    let coin := Utxo.accessCoin (env.view tip).coins txin.prevout
    coin.fCoinBase || coin.fPegout

/-- `setConflicts` -/
def Env.conflicts (pool : CTxMemPool) (tx : CTransaction) : List Uint256 :=
  (getInputs tx).filterMap fun input => (mapNextTx pool input).map (CTxMemPoolEntry.id env.n)

/-- the replacement of conflicts and `addUnchecked` in `MemPoolAccept::Finalize` -/
def Env.replace (tip : Tip) (pool : CTxMemPool) (tx : CTransaction) : CTxMemPool :=
  addUnchecked env.n ⟨tx, env.spendsCoinbase tip pool tx⟩
    (removeDescendants env.n (env.conflicts pool tx) pool)

/-- `AcceptToMemoryPool`: the verdict and the mempool afterwards.  A transaction that does not survive
`LimitMempoolSize` is refused, but what it replaced is gone. -/
def acceptToMemoryPool (tip : Tip) (bypassLimits : Bool) (evicted : List Uint256) (pool : CTxMemPool)
    (tx : CTransaction) : Except String Unit × CTxMemPool :=
  match preChecks env.n env.options tip (env.remaining bypassLimits tip pool) (env.infoAll pool) tx with
  | .error reason => (.error reason, pool)
  | .ok () =>
    if bypassLimits then (.ok (), env.replace tip pool tx)
    else
      let limited := limitMempoolSize env.n evicted (env.replace tip pool tx)
      (if limited.exists env.n (txid env.n tx) then .ok () else .error "mempool full", limited)

/-- `DisconnectedBlockTransactions::addTransaction` -/
def addTransaction (queuedTx : List CTransaction) (tx : CTransaction) : List CTransaction :=
  if txid env.n tx ∈ queuedTx.map (txid env.n) then queuedTx else queuedTx ++ [tx]

/-- one turn of the loop of `UpdateMempoolForReorg` -/
def resubmitTx (fAddToMempool : Bool) (s : NodeState) (tx : CTransaction) : NodeState :=
  let result := acceptToMemoryPool env s.tip true [] s.pool tx
  if !fAddToMempool || tx.isCoinBase || tx.isHogEx || !result.1.isOk then
    { s with pool := removeRecursive env.n tx s.pool }
  else
    { s with
      pool := result.2
      vHashUpdate := if result.2.exists env.n (txid env.n tx) then s.vHashUpdate ++ [txid env.n tx]
        else s.vHashUpdate }

/-- `CheckFinalTx` and `CheckSequenceLocks` at the tip -/
def Env.final (tip : Tip) (pool : CTxMemPool) (tx : CTransaction) : Bool :=
  isFinalTx tx tip.nextHeight tip.index.medianTimePast && env.checkSequenceLocks tip pool tx

/-- the mempool once the children of the resubmitted transactions are linked -/
def linked (s : NodeState) : CTxMemPool := updateTransactionsFromBlock env.n s.vHashUpdate s.pool

/-- the end of `UpdateMempoolForReorg` -/
def settlePool (evicted : List Uint256) (s : NodeState) : CTxMemPool :=
  limitMempoolSize env.n evicted (removeForReorg env.n (env.view s.tip).coins s.tip.nextHeight
    (env.final s.tip (linked env s)) (linked env s))

/-- a step of the node, when it can be taken -/
def step (s : NodeState) : Op → Option NodeState
  | .accept tx evicted =>
    if s.phase = .settled then
      some { s with pool := (acceptToMemoryPool env s.tip false evicted s.pool tx).2 }
    else none
  | .connect index block =>
    if s.phase = .restoring ∨ env.blockValid s.tip block = false then none
    else (s.tip.push index block).map fun tip =>
      { s with
        tip := tip
        pool := removeForBlock env.n block s.pool
        disconnectpool := s.disconnectpool.filter fun tx =>
          txid env.n tx ∉ (confirmedTxs env.n block s.pool).map (txid env.n) }
  | .disconnect index recent dropped =>
    if s.phase = .restoring then none
    else (s.tip.pop index).map fun (block, tip) =>
      let queuedTx := (recent ++ block.vtx.reverse).foldl (addTransaction env) s.disconnectpool
      { tip := tip
        pool := (queuedTx.take dropped).foldl (fun pool tx => removeRecursive env.n tx pool) s.pool
        disconnectpool := queuedTx.drop dropped
        vHashUpdate := []
        phase := .switching }
  | .resubmit fAddToMempool =>
    if s.phase = .settled then none
    -- from the earliest transaction of the disconnected blocks on
    else s.disconnectpool.getLast?.map fun tx =>
      { resubmitTx env fAddToMempool s tx with
        disconnectpool := s.disconnectpool.dropLast
        phase := .restoring }
  | .settle evicted =>
    if s.phase = .settled ∨ s.disconnectpool ≠ [] then none
    else some { s with pool := settlePool env evicted s, vHashUpdate := [], phase := .settled }

def run (s : NodeState) (ops : List Op) : Option NodeState := ops.foldlM (step env) s

/-! ## consistency -/

structure Consistent (s : NodeState) : Prop where
  state : ∃ shielded st,
    loadShieldedChainState env.n.hash256 env.n.verifier env.n.params.shieldedPool s.tip.chain .init =
      .ok shielded ∧
    shieldedMempoolState env.n.hash256 env.n.verifier env.n.params.shieldedPool shielded
      (env.infoAll s.pool) = .ok st
  inactive : shieldedActive env.n s.tip = false → ∀ tx ∈ s.pool.txs, CarriesNoMarker tx

structure Fresh (s : NodeState) : Prop where
  chain : ShieldedChainAccepted env.n.hash256 env.n.verifier env.n.params.shieldedPool s.tip.chain
  pool : s.pool = .empty
  phase : s.phase = .settled

/-- the transactions `pool` on the log of a chain: what acceptance alone does not settle -/
structure Fits (log : List Marker) (pool : CTxMemPool) : Prop where
  anchor : ∀ m ∈ blockMarkers pool.txs, m.action = .spend →
    m.anchor ∈ logAnchors env.n.hash256 env.n.verifier log
  nullifiers : List.Disjoint (spendNullifiers log) (spendNullifiers (blockMarkers pool.txs))
  commitments : List.Disjoint (mintCommitments log) (mintCommitments (blockMarkers pool.txs))
  limit : spentValue (blockMarkers pool.txs) ≤ poolValue log
  capped : PoolCapped log (blockMarkers (env.infoAll pool))

/-- the markers `ms` of a block on a log, and the transactions `pool` that stay: they share no nullifier
and no commitment with the block, and the pool of value covers them still -/
structure Untouched (log ms : List Marker) (pool : CTxMemPool) : Prop where
  nullifiers : List.Disjoint (spendNullifiers ms) (spendNullifiers (blockMarkers pool.txs))
  commitments : List.Disjoint (mintCommitments ms) (mintCommitments (blockMarkers pool.txs))
  limit : spentValue (blockMarkers pool.txs) ≤ poolValue (log ++ ms)
  capped : PoolCapped (log ++ ms) (blockMarkers (env.infoAll pool))

open Classical in
/-- the entries that a block neither confirms nor takes an input of, or of an entry above them, from -/
noncomputable def sparedPool (block : CBlock) (pool : CTxMemPool) : CTxMemPool :=
  pool.keep env.n (Spared env.n pool (confirmedTxs env.n block pool))

open Classical in
/-- the entries that are not stale, not given up and not below such an entry -/
noncomputable def outlivingPool (evicted : List Uint256) (s : NodeState) : CTxMemPool :=
  (linked env s).keep env.n fun hash => ¬ Dropped env.n (env.view s.tip).coins s.tip.nextHeight
    (env.final s.tip (linked env s)) evicted (linked env s) hash

def Keeps (s : NodeState) : Op → Prop
  | .accept tx evicted =>
      preChecks env.n env.options s.tip (env.remaining false s.tip s.pool) (env.infoAll s.pool) tx =
        .ok () →
      PoolCapped (chainMarkers s.tip.chain)
        (blockMarkers (env.infoAll (limitMempoolSize env.n evicted (env.replace s.tip s.pool tx))))
  | .connect _ block => s.phase = .settled →
      Untouched env (chainMarkers s.tip.chain) (blockMarkers block.vtx) (sparedPool env block s.pool)
  | .disconnect _ _ _ => True
  | .resubmit _ => True
  | .settle evicted => Fits env (chainMarkers s.tip.chain) (outlivingPool env evicted s) ∧
      (shieldedActive env.n s.tip = false → ∀ tx ∈ (outlivingPool env evicted s).txs, CarriesNoMarker tx)

end

/-! ## what acceptance settles -/

/-- transactions that have passed acceptance: each on its own, and no two with a nullifier or a
commitment in common -/
structure Checks (n : Node) (txs : List CTransaction) : Prop where
  checked : AllChecked n.hash256 n.verifier n.params.shieldedPool.fAllowScaffoldProofs txs
  nullifiers : (spendNullifiers (blockMarkers txs)).Nodup
  commitments : (mintCommitments (blockMarkers txs)).Nodup

/-- what every state of a run satisfies -/
structure Sound (env : Env) (s : NodeState) : Prop where
  chain : ShieldedChainAccepted env.n.hash256 env.n.verifier env.n.params.shieldedPool s.tip.chain
  apart : Apart s.pool
  checks : Checks env.n s.pool.txs

section
variable {n : Node} {txs txs' : List CTransaction}

theorem blockMarkers_sublist (h : txs'.Sublist txs) :
    (blockMarkers txs').Sublist (blockMarkers txs) := h.flatMap _

variable {ms ms' : List Marker}

theorem spendNullifiers_sublist (h : ms'.Sublist ms) :
    (spendNullifiers ms').Sublist (spendNullifiers ms) := (h.filter _).map _

theorem mintCommitments_sublist (h : ms'.Sublist ms) :
    (mintCommitments ms').Sublist (mintCommitments ms) := (h.filter _).map _

theorem spentValue_sublist (h : ms'.Sublist ms) (hvalues : ∀ m ∈ ms, 0 ≤ m.nValue) :
    spentValue ms' ≤ spentValue ms := by
  refine ((h.filter _).map _).sum_le_sum ?_
  intro v hv
  obtain ⟨m, hm, rfl⟩ := List.mem_map.mp hv
  exact hvalues m (List.mem_of_mem_filter hm)

theorem Checks.sublist (h : Checks n txs) (hsub : txs'.Sublist txs) : Checks n txs' where
  checked := fun tx htx => h.checked tx (hsub.subset htx)
  nullifiers := h.nullifiers.sublist (spendNullifiers_sublist (blockMarkers_sublist hsub))
  commitments := h.commitments.sublist (mintCommitments_sublist (blockMarkers_sublist hsub))

theorem checks_nil : Checks n [] := ⟨by simp [AllChecked], List.nodup_nil, List.nodup_nil⟩

theorem admissible_sublist {log : List Marker} (h : Admissible n.hash256 n.verifier log ms)
    (hsub : ms'.Sublist ms) (hvalues : ∀ m ∈ ms, 0 ≤ m.nValue) :
    Admissible n.hash256 n.verifier log ms' where
  anchor := fun m hm => h.anchor m (hsub.subset hm)
  nullifiers := h.nullifiers.sublist (spendNullifiers_sublist (hsub.append_left log))
  commitments := h.commitments.sublist (mintCommitments_sublist (hsub.append_left log))
  limit := (spentValue_sublist hsub hvalues).trans h.limit

theorem carriesNoMarker_of_inactive {hash256 : Bytes → Uint256} {verifier : Verifier}
    {tx : CTransaction} {allow : Bool}
    (h : checkTransaction hash256 verifier tx false allow = .ok ms) : CarriesNoMarker tx := by
  obtain ⟨houtputs, -, -⟩ := checkTransaction_eq_ok_iff.mp h
  intro txout hmem
  rcases houtputs txout hmem with hnone | ⟨m, -, hactive, -⟩
  · exact hnone
  · cases hactive

end

section
variable {env : Env} {s s' : NodeState}

theorem chain_length (tip : Tip) : tip.nextHeight = (tip.chain.length : Int) := tip.height_chain

theorem Sound.logInvariant (h : Sound env s) : LogInvariant (chainMarkers s.tip.chain) :=
  logInvariant_of_accepted h.chain List.prefix_rfl

theorem Checks.value_nonneg {n : Node} {txs : List CTransaction} (h : Checks n txs) :
    ∀ m ∈ blockMarkers txs, 0 ≤ m.nValue := h.checked.value_nonneg

theorem admissible_iff {n : Node} {log ms : List Marker} (hlog : LogInvariant log)
    (hnullifiers : (spendNullifiers ms).Nodup) (hcommitments : (mintCommitments ms).Nodup) :
    Admissible n.hash256 n.verifier log ms ↔
      (∀ m ∈ ms, m.action = .spend → m.anchor ∈ logAnchors n.hash256 n.verifier log) ∧
        List.Disjoint (spendNullifiers log) (spendNullifiers ms) ∧
          List.Disjoint (mintCommitments log) (mintCommitments ms) ∧
            spentValue ms ≤ poolValue log := by
  constructor
  · intro h
    have hn := h.nullifiers
    have hc := h.commitments
    rw [spendNullifiers_append] at hn
    rw [mintCommitments_append] at hc
    exact ⟨h.anchor, List.disjoint_of_nodup_append hn, List.disjoint_of_nodup_append hc, h.limit⟩
  · intro ⟨hanchor, hn, hc, hlimit⟩
    refine ⟨hanchor, ?_, ?_, hlimit⟩
    · rw [spendNullifiers_append]
      exact hlog.nullifiers_nodup.append hnullifiers hn
    · rw [mintCommitments_append]
      exact hlog.commitments_nodup.append hcommitments hc

variable {pool : CTxMemPool}

theorem fits_iff {log : List Marker} (hlog : LogInvariant log) (h : Checks env.n pool.txs) :
    Fits env log pool ↔ Admissible env.n.hash256 env.n.verifier log (blockMarkers pool.txs) ∧
      PoolCapped log (blockMarkers (env.infoAll pool)) := by
  rw [admissible_iff hlog h.nullifiers h.commitments]
  constructor
  · intro ⟨hanchor, hn, hc, hlimit, hcap⟩
    exact ⟨⟨hanchor, hn, hc, hlimit⟩, hcap⟩
  · intro ⟨⟨hanchor, hn, hc, hlimit⟩, hcap⟩
    exact ⟨hanchor, hn, hc, hlimit, hcap⟩

/-- the loop over the mempool accepts exactly what fits -/
theorem state_iff (h : Sound env s) :
    (∃ shielded st,
      loadShieldedChainState env.n.hash256 env.n.verifier env.n.params.shieldedPool s.tip.chain .init =
        .ok shielded ∧
      shieldedMempoolState env.n.hash256 env.n.verifier env.n.params.shieldedPool shielded
        (env.infoAll s.pool) = .ok st) ↔ Fits env (chainMarkers s.tip.chain) s.pool := by
  have hperm := env.infoAll_perm s.pool
  have hmarkers := blockMarkers_perm hperm
  have hchecked : AllChecked env.n.hash256 env.n.verifier
      env.n.params.shieldedPool.fAllowScaffoldProofs (env.infoAll s.pool) :=
    fun tx htx => h.checks.checked tx (hperm.mem_iff.mp htx)
  rw [fits_iff h.logInvariant h.checks]
  constructor
  · intro ⟨shielded, st, hload, hst⟩
    obtain rfl := Except.ok.inj ((loadShieldedChainState_of_accepted h.chain).symm.trans hload)
    obtain ⟨hallowed, -⟩ := (shieldedMempoolState_ok_iff _ _ _).mp hst
    obtain ⟨-, hadm, hcap⟩ := (blockAllowed_iff h.logInvariant).mp hallowed
    exact ⟨hadm.perm hmarkers, hcap⟩
  · intro ⟨hadm, hcap⟩
    refine ⟨_, _, loadShieldedChainState_of_accepted h.chain,
      (shieldedMempoolState_ok_iff _ _ _).mpr ⟨(blockAllowed_iff h.logInvariant).mpr ?_, rfl⟩⟩
    exact ⟨hchecked, hadm.perm hmarkers.symm, hcap⟩

theorem consistent_iff (h : Sound env s) :
    Consistent env s ↔ Fits env (chainMarkers s.tip.chain) s.pool ∧
      (shieldedActive env.n s.tip = false → ∀ tx ∈ s.pool.txs, CarriesNoMarker tx) := by
  rw [← state_iff h]
  exact ⟨fun hc => ⟨hc.state, hc.inactive⟩, fun hc => ⟨hc.1, hc.2⟩⟩

/-! ## acceptance -/

variable {tip : Tip} {remaining : CTransaction → Except String Unit} {tx : CTransaction}

theorem preChecks_shielded {options : Options} {n : Node} {pool : List CTransaction}
    (h : preChecks n options tip remaining pool tx = .ok ()) :
    checkShielded n tip pool tx = .ok () := by
  unfold preChecks at h
  obtain ⟨-, h⟩ := Checked.then_eq_ok.mp h
  exact (Checked.then_eq_ok.mp h).1

/-- an accepted transaction carries no marker that matters, or the loop accepted the mempool with it -/
theorem accepted_cases (h : Sound env s)
    (hpre : preChecks env.n env.options s.tip remaining (env.infoAll s.pool) tx = .ok ()) :
    (∃ ms, checkTransaction env.n.hash256 env.n.verifier tx true
        env.n.params.shieldedPool.fAllowScaffoldProofs = .ok ms) ∧
      (shieldedActive env.n s.tip = false → CarriesNoMarker tx) ∧
      (txMarkers tx = [] ∨ Fits env (chainMarkers s.tip.chain) s.pool ∧
        Admissible env.n.hash256 env.n.verifier (chainMarkers s.tip.chain)
          (blockMarkers (s.pool.txs ++ [tx]))) := by
  have hshielded := preChecks_shielded hpre
  unfold checkShielded at hshielded
  obtain ⟨ms, hms, hstate⟩ := Checked.bind_eq_ok.mp hshielded
  cases hactive : shieldedActive env.n s.tip with
  | false =>
    rw [hactive] at hms
    have hnone := carriesNoMarker_of_inactive hms
    exact ⟨⟨[], hnone.checkTransaction true _⟩, fun _ => hnone, .inl hnone.txMarkers_eq⟩
  | true =>
    rw [hactive] at hms
    obtain ⟨rfl, -, -⟩ := checkTransaction_ok hms
    refine ⟨⟨_, hms⟩, nofun, ?_⟩
    by_cases hnil : txMarkers tx = []
    · exact .inl hnil
    refine .inr ?_
    rw [if_pos hactive] at hstate
    have hstate : checkShieldedMempoolState env.n.hash256 env.n.verifier env.n.params.shieldedPool
        (txMarkers tx) (env.infoAll s.pool) s.tip.chain = .ok () := by
      cases hresult : checkShieldedMempoolState env.n.hash256 env.n.verifier
          env.n.params.shieldedPool (txMarkers tx) (env.infoAll s.pool) s.tip.chain with
      | ok u => rfl
      | error fault =>
        rw [hresult] at hstate
        cases hstate
    unfold checkShieldedMempoolState at hstate
    rw [if_neg hnil, loadShieldedChainState_of_accepted h.chain] at hstate
    dsimp only at hstate
    split at hstate
    · cases hstate
    · rename_i st hst
      split at hstate
      · cases hstate
      · rename_i st' hst'
        -- the loop over the mempool and then over the markers is the loop over both
        have hboth : shieldedMempoolState env.n.hash256 env.n.verifier env.n.params.shieldedPool
            (ledgerState env.n.hash256 env.n.verifier (chainMarkers s.tip.chain))
              (env.infoAll s.pool ++ [tx]) = .ok st' := by
          unfold shieldedMempoolState at hst ⊢
          rw [List.foldlM_append]
          refine Checked.bind_eq_ok.mpr ⟨st, hst, ?_⟩
          rw [List.foldlM_cons]
          refine Checked.bind_eq_ok.mpr ⟨st', ?_, rfl⟩
          unfold addShieldedTransactionToState
          exact Checked.bind_eq_ok.mpr ⟨_, hms, hst'⟩
        obtain ⟨hallowed, -⟩ := (shieldedMempoolState_ok_iff _ _ _).mp hboth
        obtain ⟨-, hadm, -⟩ := (blockAllowed_iff h.logInvariant).mp hallowed
        exact ⟨(state_iff h).mp ⟨_, st, loadShieldedChainState_of_accepted h.chain, hst⟩,
          hadm.perm (blockMarkers_perm ((env.infoAll_perm s.pool).append_right [tx]))⟩

theorem refused_of_not_fits (h : Sound env s) (hfits : ¬ Fits env (chainMarkers s.tip.chain) s.pool)
    (hmarkers : txMarkers tx ≠ []) (remaining : CTransaction → Except String Unit) :
    preChecks env.n env.options s.tip remaining (env.infoAll s.pool) tx ≠ .ok () := by
  intro hpre
  obtain ⟨-, -, hnil | ⟨hall, -⟩⟩ := accepted_cases h hpre
  · exact hmarkers hnil
  · exact hfits hall

theorem Checks.concat (h : Sound env s)
    (hpre : preChecks env.n env.options s.tip remaining (env.infoAll s.pool) tx = .ok ()) :
    Checks env.n (s.pool.txs ++ [tx]) := by
  obtain ⟨hchecked, -, hmarkers⟩ := accepted_cases h hpre
  have hall : AllChecked env.n.hash256 env.n.verifier
      env.n.params.shieldedPool.fAllowScaffoldProofs (s.pool.txs ++ [tx]) := by
    intro x hx
    rcases List.mem_append.mp hx with hx | hx
    · exact h.checks.checked x hx
    · rw [List.mem_singleton.mp hx]
      exact hchecked
  rcases hmarkers with hnil | ⟨-, hadm⟩
  · have heq : blockMarkers (s.pool.txs ++ [tx]) = blockMarkers s.pool.txs := by
      rw [blockMarkers_append]
      simp [blockMarkers, hnil]
    exact ⟨hall, heq ▸ h.checks.nullifiers, heq ▸ h.checks.commitments⟩
  · have hn := hadm.nullifiers
    have hc := hadm.commitments
    rw [spendNullifiers_append] at hn
    rw [mintCommitments_append] at hc
    exact ⟨hall, hn.of_append_right, hc.of_append_right⟩

open Classical in
theorem apart_replace (hapart : Apart s.pool) (tip : Tip) (tx : CTransaction) :
    Apart (env.replace tip s.pool tx) := by
  have hstarts : ∀ hash ∈ env.conflicts s.pool tx, hash ∈ (s.pool.net env.n).nodes := by
    intro hash hmem
    obtain ⟨input, -, hinput⟩ := List.mem_filterMap.mp hmem
    obtain ⟨e, he, rfl⟩ := Option.map_eq_some_iff.mp hinput
    exact mem_nodes (mapNextTx_some he).1
  refine List.pairwise_append.mpr ⟨hapart.keep, List.pairwise_singleton _ _, ?_⟩
  intro e he e' he' input hin hin'
  rw [List.mem_singleton.mp he'] at hin'
  rw [removeDescendants_eq hstarts, mem_mapTx_keep] at he
  refine he.2 ⟨e.id env.n, List.mem_filterMap.mpr ⟨input, hin', ?_⟩, Net.below_self (mem_nodes he.1)⟩
  cases hnext : mapNextTx s.pool input with
  | none => exact absurd hin (mapNextTx_none hnext he.1)
  | some c =>
    obtain ⟨hc, hcin⟩ := mapNextTx_some hnext
    rw [hapart.eq_of_mem he.1 hc hin hcin]
    rfl

theorem replace_txs (tip : Tip) (tx : CTransaction) :
    ((env.replace tip s.pool tx).txs).Sublist (s.pool.txs ++ [tx]) := by
  have htxs : (env.replace tip s.pool tx).txs =
      (removeDescendants env.n (env.conflicts s.pool tx) s.pool).txs ++ [tx] := List.map_append
  rw [htxs]
  exact txs_keep_sublist.append_right [tx]

theorem accept_refused {bypassLimits : Bool}
    (h : preChecks env.n env.options tip (env.remaining bypassLimits tip pool) (env.infoAll pool)
      tx ≠ .ok ()) (evicted : List Uint256) :
    (acceptToMemoryPool env tip bypassLimits evicted pool tx).2 = pool := by
  unfold acceptToMemoryPool
  split
  · rfl
  · exact absurd ‹_› h

theorem accept_passed {bypassLimits : Bool}
    (h : preChecks env.n env.options tip (env.remaining bypassLimits tip pool) (env.infoAll pool)
      tx = .ok ()) (evicted : List Uint256) :
    (acceptToMemoryPool env tip bypassLimits evicted pool tx).2 =
      if bypassLimits then env.replace tip pool tx
      else limitMempoolSize env.n evicted (env.replace tip pool tx) := by
  unfold acceptToMemoryPool
  rw [h]
  cases bypassLimits with
  | true => rfl
  | false => rfl

/-! ## every state of a run -/

theorem Sound.of_pool (h : Sound env s) (hapart : Apart pool) (hchecks : Checks env.n pool.txs)
    {queuedTx : List CTransaction} {vHashUpdate : List Uint256} {phase : Phase} :
    Sound env ⟨s.tip, pool, queuedTx, vHashUpdate, phase⟩ :=
  ⟨h.chain, hapart, hchecks⟩

theorem accept_sound (h : Sound env s) (bypassLimits : Bool) (evicted : List Uint256)
    (tx : CTransaction) :
    Apart (acceptToMemoryPool env s.tip bypassLimits evicted s.pool tx).2 ∧
      Checks env.n (acceptToMemoryPool env s.tip bypassLimits evicted s.pool tx).2.txs := by
  by_cases hpre : preChecks env.n env.options s.tip (env.remaining bypassLimits s.tip s.pool)
      (env.infoAll s.pool) tx = .ok ()
  · have hall : Checks env.n (env.replace s.tip s.pool tx).txs :=
      (Checks.concat h hpre).sublist (replace_txs s.tip tx)
    have hapart : Apart (env.replace s.tip s.pool tx) := apart_replace h.apart s.tip tx
    rw [accept_passed hpre]
    cases bypassLimits with
    | true => exact ⟨hapart, hall⟩
    | false =>
      rw [if_neg Bool.false_ne_true]
      exact ⟨hapart.keep, hall.sublist txs_keep_sublist⟩
  · rw [accept_refused hpre]
    exact ⟨h.apart, h.checks⟩

theorem removeRecursive_run (hapart : Apart s.pool) (hchecks : Checks env.n s.pool.txs)
    (txs : List CTransaction) :
    Apart (txs.foldl (fun pool tx => removeRecursive env.n tx pool) s.pool) ∧
      Checks env.n (txs.foldl (fun pool tx => removeRecursive env.n tx pool) s.pool).txs := by
  generalize s.pool = pool at hapart hchecks
  induction txs generalizing pool with
  | nil => exact ⟨hapart, hchecks⟩
  | cons tx txs ih => exact ih _ hapart.keep (hchecks.sublist txs_keep_sublist)

variable {index : CBlockIndex} {block : CBlock}

theorem push_eq_some {tip' : Tip} (h : tip.push index block = some tip') :
    tip'.chain = block :: tip.chain := by
  unfold Tip.push at h
  split at h
  · obtain rfl := Option.some.inj h
    rfl
  · cases h

theorem pop_eq_some {tip' : Tip} (h : tip.pop index = some (block, tip')) :
    tip.chain = block :: tip'.chain := by
  unfold Tip.pop at h
  split at h
  · cases h
  · rename_i top chain hchain
    split at h
    · obtain ⟨rfl, rfl⟩ := Prod.mk.inj (Option.some.inj h)
      exact hchain
    · cases h

theorem blockValid_shielded (h : env.blockValid tip block = true) :
    checkShieldedBlockState env.n.hash256 env.n.verifier env.n.params.shieldedPool block tip.chain
      tip.chain.length = .ok () := by
  unfold Env.blockValid at h
  rw [Bool.and_eq_true, Bool.and_eq_true] at h
  obtain ⟨⟨-, hgenesis⟩, hconnect⟩ := h
  obtain ⟨⟨undo, view⟩, hconnect⟩ := Checked.exists_of_isOk hconnect
  obtain ⟨st, hconnected⟩ := connectBlock_ok (of_decide_eq_true hgenesis) hconnect
  rw [← chain_length tip]
  exact hconnected.shielded

theorem connect_chain (h : Sound env s) (hvalid : env.blockValid s.tip block = true)
    (hpush : s.tip.push index block = some tip) :
    ShieldedChainAccepted env.n.hash256 env.n.verifier env.n.params.shieldedPool tip.chain := by
  rw [push_eq_some hpush]
  exact ⟨h.chain, blockValid_shielded hvalid⟩

open Classical in
theorem Apart.sparedPool (hapart : Apart s.pool) (block : CBlock) :
    Apart (sparedPool env block s.pool) := hapart.keep

open Classical in
theorem sparedPool_txs (block : CBlock) :
    (sparedPool env block s.pool).txs.Sublist s.pool.txs := txs_keep_sublist

open Classical in
theorem Apart.outlivingPool (hapart : Apart s.pool) (evicted : List Uint256) :
    Apart (outlivingPool env evicted s) := Apart.keep (show Apart (linked env s) from hapart)

open Classical in
theorem outlivingPool_txs (evicted : List Uint256) :
    (outlivingPool env evicted s).txs.Sublist s.pool.txs :=
  txs_keep_sublist.trans (show (linked env s).txs.Sublist s.pool.txs from .refl _)

theorem removeForBlock_sparedPool (hapart : Apart s.pool) (block : CBlock) :
    removeForBlock env.n block s.pool = sparedPool env block s.pool := removeForBlock_eq hapart block

theorem settlePool_eq (evicted : List Uint256) (s : NodeState) :
    settlePool env evicted s = outlivingPool env evicted s := limitAfterReorg_eq ..

theorem step_connect (h : step env s (.connect index block) = some s') :
    env.blockValid s.tip block = true ∧ s.tip.push index block = some s'.tip ∧
      s'.pool = removeForBlock env.n block s.pool ∧ s'.phase = s.phase := by
  unfold step at h
  dsimp only at h
  split at h
  · cases h
  · rename_i hguard
    obtain ⟨tip, htip, rfl⟩ := Option.map_eq_some_iff.mp h
    exact ⟨by simpa using (not_or.mp hguard).2, htip, rfl, rfl⟩

theorem step_sound (h : Sound env s) {op : Op} (hstep : step env s op = some s') : Sound env s' := by
  cases op with
  | accept tx evicted =>
    unfold step at hstep
    dsimp only at hstep
    split at hstep
    · obtain rfl := Option.some.inj hstep
      obtain ⟨hapart, hchecks⟩ := accept_sound h false evicted tx
      exact h.of_pool hapart hchecks
    · cases hstep
  | connect index block =>
    obtain ⟨hvalid, hpush, hpool, -⟩ := step_connect hstep
    rw [removeForBlock_sparedPool h.apart] at hpool
    refine ⟨connect_chain h hvalid hpush, ?_, ?_⟩
    · rw [hpool]
      exact h.apart.sparedPool block
    · rw [hpool]
      exact h.checks.sublist (sparedPool_txs block)
  | disconnect index recent dropped =>
    unfold step at hstep
    dsimp only at hstep
    split at hstep
    · cases hstep
    · obtain ⟨⟨block, tip⟩, hpop, rfl⟩ := Option.map_eq_some_iff.mp hstep
      obtain ⟨hapart, hchecks⟩ := removeRecursive_run h.apart h.checks _
      have hchain := h.chain
      rw [pop_eq_some hpop] at hchain
      exact ⟨hchain.1, hapart, hchecks⟩
  | resubmit fAddToMempool =>
    unfold step at hstep
    dsimp only at hstep
    split at hstep
    · cases hstep
    · obtain ⟨tx, -, rfl⟩ := Option.map_eq_some_iff.mp hstep
      unfold resubmitTx
      dsimp only
      split
      · have hapart : Apart (removeRecursive env.n tx s.pool) := h.apart.keep
        have hsub : (removeRecursive env.n tx s.pool).txs.Sublist s.pool.txs := txs_keep_sublist
        exact h.of_pool hapart (h.checks.sublist hsub)
      · obtain ⟨hapart, hchecks⟩ := accept_sound h true [] tx
        exact h.of_pool hapart hchecks
  | settle evicted =>
    unfold step at hstep
    dsimp only at hstep
    split at hstep
    · cases hstep
    · obtain rfl := Option.some.inj hstep
      rw [settlePool_eq]
      exact h.of_pool (h.apart.outlivingPool evicted) (h.checks.sublist (outlivingPool_txs evicted))

theorem run_concat (s₀ : NodeState) (ops : List Op) (op : Op) :
    run env s₀ (ops ++ [op]) = (run env s₀ ops).bind fun s => step env s op := by
  unfold run
  rw [List.foldlM_append]
  simp only [List.foldlM_cons, List.foldlM_nil, bind_pure]
  rfl

theorem Fresh.sound {s₀ : NodeState} (h : Fresh env s₀) : Sound env s₀ := by
  refine ⟨h.chain, ?_, ?_⟩
  · rw [h.pool]
    exact List.Pairwise.nil
  · rw [h.pool]
    exact checks_nil

theorem run_sound {s₀ : NodeState} (h : Fresh env s₀) {ops : List Op}
    (hrun : run env s₀ ops = some s) : Sound env s := by
  induction ops using List.reverseRecOn generalizing s with
  | nil =>
    obtain rfl := Option.some.inj hrun
    exact h.sound
  | append_singleton ops op ih =>
    rw [run_concat] at hrun
    obtain ⟨s₁, hs₁, hstep⟩ := Option.bind_eq_some_iff.mp hrun
    exact step_sound (ih hs₁) hstep

/-! ## one step -/

theorem accept_consistent_iff (h : Sound env s) (hc : Consistent env s) (tx : CTransaction)
    (evicted : List Uint256) :
    Consistent env { s with pool := (acceptToMemoryPool env s.tip false evicted s.pool tx).2 } ↔
      Keeps env s (.accept tx evicted) := by
  by_cases hpre : preChecks env.n env.options s.tip (env.remaining false s.tip s.pool)
      (env.infoAll s.pool) tx = .ok ()
  · obtain ⟨hapart, hchecks⟩ := accept_sound h false evicted tx
    rw [accept_passed hpre, if_neg Bool.false_ne_true] at hapart hchecks ⊢
    rw [consistent_iff (h.of_pool hapart hchecks), fits_iff h.logInvariant hchecks]
    obtain ⟨hfits, hinactive⟩ := (consistent_iff h).mp hc
    obtain ⟨hadm, -⟩ := (fits_iff h.logInvariant h.checks).mp hfits
    obtain ⟨-, hnone, hmarkers⟩ := accepted_cases h hpre
    -- all that is left was accepted together
    have hsub : (limitMempoolSize env.n evicted (env.replace s.tip s.pool tx)).txs.Sublist
        (s.pool.txs ++ [tx]) := txs_keep_sublist.trans (replace_txs s.tip tx)
    have hall : Admissible env.n.hash256 env.n.verifier (chainMarkers s.tip.chain)
        (blockMarkers (s.pool.txs ++ [tx])) := by
      rcases hmarkers with hnil | ⟨-, hall⟩
      · rw [blockMarkers_append, show blockMarkers [tx] = [] by simp [blockMarkers, hnil],
          List.append_nil]
        exact hadm
      · exact hall
    refine ⟨fun hall _ => hall.1.2, fun hcap => ⟨⟨?_, hcap hpre⟩, ?_⟩⟩
    · exact admissible_sublist hall (blockMarkers_sublist hsub) (Checks.concat h hpre).value_nonneg
    · intro hoff x hx
      rcases List.mem_append.mp (hsub.subset hx) with hx | hx
      · exact hinactive hoff x hx
      · rw [List.mem_singleton.mp hx]
        exact hnone hoff
  · rw [accept_refused hpre]
    exact ⟨fun _ hok => absurd hok hpre, fun _ => hc⟩

theorem fits_block_iff {log ms : List Marker} (hlog : LogInvariant log)
    (hchecks : Checks env.n pool.txs)
    (hadm : Admissible env.n.hash256 env.n.verifier log (blockMarkers pool.txs)) :
    Fits env (log ++ ms) pool ↔ Untouched env log ms pool := by
  obtain ⟨hanchor, hn, hc, -⟩ := (admissible_iff hlog hchecks.nullifiers hchecks.commitments).mp hadm
  constructor
  · intro h
    refine ⟨?_, ?_, h.limit, h.capped⟩
    · intro a ha
      exact h.nullifiers (by rw [spendNullifiers_append]; exact List.mem_append_right _ ha)
    · intro a ha
      exact h.commitments (by rw [mintCommitments_append]; exact List.mem_append_right _ ha)
  · intro h
    refine ⟨fun m hm ha => logAnchors_subset (hanchor m hm ha), ?_, ?_, h.limit, h.capped⟩
    · rw [spendNullifiers_append]
      exact List.disjoint_append_left.mpr ⟨hn, h.nullifiers⟩
    · rw [mintCommitments_append]
      exact List.disjoint_append_left.mpr ⟨hc, h.commitments⟩

theorem connect_consistent_iff (h : Sound env s) (hc : Consistent env s) (h' : Sound env s')
    (hchain : s'.tip.chain = block :: s.tip.chain) (hpool : s'.pool = sparedPool env block s.pool) :
    Consistent env s' ↔ Untouched env (chainMarkers s.tip.chain) (blockMarkers block.vtx)
      (sparedPool env block s.pool) := by
  have hsub : (sparedPool env block s.pool).txs.Sublist s.pool.txs := sparedPool_txs block
  rw [consistent_iff h', hchain, hpool]
  obtain ⟨hfits, hinactive⟩ := (consistent_iff h).mp hc
  obtain ⟨hadm, -⟩ := (fits_iff h.logInvariant h.checks).mp hfits
  have hadm' := admissible_sublist hadm (blockMarkers_sublist hsub) h.checks.value_nonneg
  rw [show chainMarkers (block :: s.tip.chain) =
    chainMarkers s.tip.chain ++ blockMarkers block.vtx from rfl,
    fits_block_iff h.logInvariant (h.checks.sublist hsub) hadm']
  refine and_iff_left_of_imp fun _ hoff tx htx => ?_
  -- a pool that is inactive above the block was so below it
  refine hinactive ?_ tx (hsub.subset htx)
  unfold shieldedActive at hoff ⊢
  rw [chain_length, hchain, List.length_cons] at hoff
  rw [chain_length]
  exact isEnabled_mono hoff

/-- **One step.**  From a state that is consistent if it is settled, a step keeps it so exactly when
its condition holds. -/
theorem step_consistent_iff (h : Sound env s) (hc : s.phase = .settled → Consistent env s) {op : Op}
    (hstep : step env s op = some s') :
    (s'.phase = .settled → Consistent env s') ↔ Keeps env s op := by
  have h' := step_sound h hstep
  cases op with
  | accept tx evicted =>
    unfold step at hstep
    dsimp only at hstep
    split at hstep
    · rename_i hphase
      obtain rfl := Option.some.inj hstep
      rw [← accept_consistent_iff h (hc hphase) tx evicted]
      exact ⟨fun hall => hall hphase, fun hall _ => hall⟩
    · cases hstep
  | connect index block =>
    obtain ⟨-, hpush, hpool, hphase⟩ := step_connect hstep
    rw [removeForBlock_sparedPool h.apart] at hpool
    rw [hphase]
    exact forall_congr' fun hsettled =>
      connect_consistent_iff h (hc hsettled) h' (push_eq_some hpush) hpool
  | disconnect index recent dropped =>
    unfold step at hstep
    dsimp only at hstep
    split at hstep
    · cases hstep
    · obtain ⟨x, -, rfl⟩ := Option.map_eq_some_iff.mp hstep
      exact ⟨fun _ => trivial, fun _ => nofun⟩
  | resubmit fAddToMempool =>
    unfold step at hstep
    dsimp only at hstep
    split at hstep
    · cases hstep
    · obtain ⟨tx, -, rfl⟩ := Option.map_eq_some_iff.mp hstep
      exact ⟨fun _ => trivial, fun _ => nofun⟩
  | settle evicted =>
    unfold step at hstep
    dsimp only at hstep
    split at hstep
    · cases hstep
    · obtain rfl := Option.some.inj hstep
      rw [consistent_iff h']
      dsimp only
      rw [settlePool_eq]
      exact ⟨fun hall => hall rfl, fun hall _ => hall⟩

/-! ## whole runs -/

theorem Fresh.consistent {s₀ : NodeState} (h : Fresh env s₀) : Consistent env s₀ := by
  have hnil : env.infoAll s₀.pool = [] := by
    have hperm := env.infoAll_perm s₀.pool
    rw [h.pool] at hperm ⊢
    exact List.perm_nil.mp hperm
  have hmarkers : blockMarkers s₀.pool.txs = [] := by
    rw [h.pool]
    rfl
  have hlog := h.sound.logInvariant
  refine (consistent_iff h.sound).mpr ⟨⟨?_, ?_, ?_, ?_, ?_⟩, ?_⟩
  · rw [hmarkers]
    simp
  · rw [hmarkers]
    exact List.disjoint_nil_right _
  · rw [hmarkers]
    exact List.disjoint_nil_right _
  · rw [hmarkers]
    exact hlog.pool_nonneg
  · rw [hnil]
    intro pre hpre
    rw [show pre = [] from List.prefix_nil.mp hpre, List.append_nil]
    exact hlog.pool_le
  · rw [h.pool]
    intro _ tx htx
    cases htx

theorem forall_prefix_concat {α : Type*} {P : List α → Prop} {l : List α} {a : α} :
    (∀ pre, pre <+: l ++ [a] → P pre) ↔ (∀ pre, pre <+: l → P pre) ∧ P (l ++ [a]) := by
  constructor
  · intro h
    exact ⟨fun pre hpre => h pre (hpre.trans (List.prefix_append _ _)), h _ List.prefix_rfl⟩
  · intro ⟨hpre, hlast⟩ pre h
    rcases List.prefix_concat_iff.mp h with rfl | h
    · exact hlast
    · exact hpre pre h

end

/-- every state of a run in which no reorganization is under way is consistent -/
def StaysConsistent (env : Env) (s₀ : NodeState) (ops : List Op) : Prop :=
  ∀ pre, pre <+: ops → ∀ s, run env s₀ pre = some s → s.phase = .settled → Consistent env s

def AllKeep (env : Env) (s₀ : NodeState) (ops : List Op) : Prop :=
  ∀ pre op, pre ++ [op] <+: ops → ∀ s, run env s₀ pre = some s → Keeps env s op

theorem allKeep_concat {env : Env} {s₀ : NodeState} {ops : List Op} {op : Op} :
    AllKeep env s₀ (ops ++ [op]) ↔
      AllKeep env s₀ ops ∧ ∀ s, run env s₀ ops = some s → Keeps env s op := by
  constructor
  · intro h
    exact ⟨fun pre x hpre => h pre x (hpre.trans (List.prefix_append _ _)), h ops op List.prefix_rfl⟩
  · intro ⟨hpre, hlast⟩ pre x h
    rcases List.prefix_concat_iff.mp h with heq | h
    · obtain ⟨rfl, hx⟩ := List.append_inj' heq rfl
      obtain rfl := List.singleton_inj.mp hx
      exact hlast
    · exact hpre pre x h

/-- **Consistency of the mempool.**  From an empty mempool, a step from a consistent state leads to a
consistent state exactly when the step meets its condition, and a whole run stays consistent exactly
when all of its steps do. -/
theorem shielded_consistency_iff (env : Env) (s₀ : NodeState) (hfresh : Fresh env s₀) :
    (∀ ops s op s', run env s₀ ops = some s → (s.phase = .settled → Consistent env s) →
      step env s op = some s' → ((s'.phase = .settled → Consistent env s') ↔ Keeps env s op)) ∧
    (∀ ops s, run env s₀ ops = some s → (StaysConsistent env s₀ ops ↔ AllKeep env s₀ ops)) := by
  refine ⟨fun ops s op s' hrun hc => step_consistent_iff (run_sound hfresh hrun) hc, ?_⟩
  intro ops
  induction ops using List.reverseRecOn with
  | nil =>
    intro s hrun
    refine ⟨?_, ?_⟩
    · intro _ pre op hpre
      simpa using List.prefix_nil.mp hpre
    · intro _ pre hpre s hs _
      rw [List.prefix_nil.mp hpre] at hs
      obtain rfl := Option.some.inj hs
      exact hfresh.consistent
  | append_singleton ops op ih =>
    intro s' hrun
    have hconcat := hrun
    rw [run_concat] at hconcat
    obtain ⟨s, hs, hstep⟩ := Option.bind_eq_some_iff.mp hconcat
    rw [StaysConsistent, forall_prefix_concat, allKeep_concat, ← ih s hs]
    refine and_congr_right fun hbefore => ?_
    have hiff := step_consistent_iff (run_sound hfresh hs) (hbefore ops List.prefix_rfl s hs) hstep
    constructor
    · intro hlast x hx
      obtain rfl := Option.some.inj (hs.symm.trans hx)
      exact hiff.mp (hlast s' hrun)
    · intro hlast x hx
      obtain rfl := Option.some.inj (hrun.symm.trans hx)
      exact hiff.mpr (hlast s hs)

/-! ## a note spent twice -/

def accepts (env : Env) (s : NodeState) : Bool :=
  (loadShieldedChainState env.n.hash256 env.n.verifier env.n.params.shieldedPool s.tip.chain
    .init).toOption.any fun shielded =>
      (shieldedMempoolState env.n.hash256 env.n.verifier env.n.params.shieldedPool shielded
        (env.infoAll s.pool)).isOk

theorem accepts_of_consistent {env : Env} {s : NodeState} (h : Consistent env s) :
    accepts env s = true := by
  obtain ⟨shielded, st, hload, hst⟩ := h.state
  rw [accepts, hload]
  show (shieldedMempoolState _ _ _ shielded _).isOk = true
  rw [hst]
  rfl

theorem consistent_of_accepts {env : Env} {s : NodeState}
    (h : (shieldedActive env.n s.tip && accepts env s) = true) : Consistent env s := by
  obtain ⟨hactive, hloop⟩ := Bool.and_eq_true_iff.mp h
  obtain ⟨shielded, hload, hloop⟩ := Checked.exists_of_any hloop
  obtain ⟨st, hst⟩ := Checked.exists_of_isOk hloop
  refine ⟨⟨shielded, st, hload, hst⟩, fun hoff => ?_⟩
  rw [hactive] at hoff
  cases hoff

def noteTip : Tip :=
  ⟨⟨1, 0, 0, .null, false, false⟩, [sampleBlock [sampleMint 0 (.ofNat 5) 10], sampleBlock []], rfl⟩

/-- a spend of 6 of the note; `n` chooses its transparent input -/
def noteSpend (n : UInt32) : CTransaction :=
  sampleSpend n (.ofNat 9) (nextCommitmentRoot Uint256.polyHash sampleVerifier [] .null 0 (.ofNat 5)) 6

def noteEnv : Env where
  n := sampleNode
  options := ⟨{}, true⟩
  view := fun _ =>
    { mintView with
      coins := fun outpoint => if outpoint.hash = .ofNat 77 then some ⟨⟨12, [0x51]⟩, false, 1, false⟩
        else none }
  context := fun _ _ => mintContext
  remaining := fun _ _ _ _ => .ok ()
  checkSequenceLocks := fun _ _ _ => true
  infoAll := CTxMemPool.txs
  infoAll_perm := fun _ => .refl _

def noteStart : NodeState := ⟨noteTip, .empty, [], [], .settled⟩

/-- the mempool takes a spend of the note, and a block comes with the spend that has the transparent
input `n` -/
def spendOps (n : UInt32) : List Op :=
  [.accept (noteSpend 3) [], .connect ⟨2, 0, 0, .null, false, false⟩ (committingBlock [noteSpend n])]

theorem noteStart_fresh : Fresh noteEnv noteStart :=
  ⟨⟨⟨trivial, by decide +kernel⟩, by decide +kernel⟩, rfl, rfl⟩

theorem consistent_of_run {ops : List Op}
    (h : (run noteEnv noteStart ops).any (fun s => shieldedActive noteEnv.n s.tip &&
      accepts noteEnv s) = true) :
    ∀ s, run noteEnv noteStart ops = some s → s.phase = .settled → Consistent noteEnv s := by
  intro s hs _
  rw [hs] at h
  exact consistent_of_accepts h

/-- when the block has the spend of the mempool, every step meets its condition -/
theorem shielded_consistency_iff_confirmed : ∃ s, run noteEnv noteStart (spendOps 3) = some s ∧
    StaysConsistent noteEnv noteStart (spendOps 3) ∧ AllKeep noteEnv noteStart (spendOps 3) := by
  have hsome : (run noteEnv noteStart (spendOps 3)).isSome = true := by decide +kernel
  obtain ⟨s, hs⟩ := Option.isSome_iff_exists.mp hsome
  obtain ⟨-, hiff⟩ := shielded_consistency_iff noteEnv noteStart noteStart_fresh
  have hstays : StaysConsistent noteEnv noteStart (spendOps 3) := by
    refine forall_prefix_concat (l := [_]).mpr ⟨forall_prefix_concat (l := []).mpr ⟨?_, ?_⟩, ?_⟩
    · intro pre hpre
      rw [List.prefix_nil.mp hpre]
      exact consistent_of_run (by decide +kernel)
    · exact consistent_of_run (by decide +kernel)
    · exact consistent_of_run (by decide +kernel)
  exact ⟨s, hs, hstays, (hiff _ s hs).mp hstays⟩

/-- A block comes with another spend of a note that a transaction of the mempool spends.  The two
share no input, so the first one stays: an unrelated mint is refused, and a block of the mempool would
be invalid. -/
theorem stale_spend_blocks_mempool : Fresh noteEnv noteStart ∧
    ∃ s, run noteEnv noteStart (spendOps 4) = some s ∧ s.phase = .settled ∧ ¬ Consistent noteEnv s ∧
      s.pool.txs = [noteSpend 3] ∧
      (acceptToMemoryPool noteEnv s.tip false [] s.pool (sampleMint 5 (.ofNat 8) 3)).1 =
        .error "bad shielded mempool state: bad-shielded-duplicate-nullifier" ∧
      (∀ tx, txMarkers tx ≠ [] → preChecks noteEnv.n noteEnv.options s.tip (fun _ => .ok ())
        (noteEnv.infoAll s.pool) tx ≠ .ok ()) ∧
      checkShieldedBlockState sampleNode.hash256 sampleNode.verifier sampleNode.params.shieldedPool
        (sampleBlock s.pool.txs) s.tip.chain s.tip.nextHeight =
          .error "bad-shielded-duplicate-nullifier" := by
  have htest : (run noteEnv noteStart (spendOps 4)).any (fun s =>
      decide (s.phase = .settled) && !accepts noteEnv s && decide (s.pool.txs = [noteSpend 3]) &&
      shieldedActive noteEnv.n s.tip &&
      decide ((acceptToMemoryPool noteEnv s.tip false [] s.pool (sampleMint 5 (.ofNat 8) 3)).1 =
        .error "bad shielded mempool state: bad-shielded-duplicate-nullifier") &&
      decide (checkShieldedBlockState sampleNode.hash256 sampleNode.verifier
        sampleNode.params.shieldedPool (sampleBlock s.pool.txs) s.tip.chain s.tip.nextHeight =
          .error "bad-shielded-duplicate-nullifier")) = true := by decide +kernel
  obtain ⟨s, hs, htest⟩ := (Option.any_eq_true _ _).mp htest
  simp only [Bool.and_eq_true, decide_eq_true_eq, Bool.not_eq_true'] at htest
  obtain ⟨⟨⟨⟨⟨hphase, hloop⟩, htxs⟩, hactive⟩, hmint⟩, hblock⟩ := htest
  have hnot : ¬ Consistent noteEnv s := by
    intro hc
    rw [accepts_of_consistent hc] at hloop
    cases hloop
  have hsound := run_sound noteStart_fresh hs
  refine ⟨noteStart_fresh, s, hs, hphase, hnot, htxs, hmint, ?_, hblock⟩
  intro tx hmarkers
  refine refused_of_not_fits hsound (fun hfits => hnot ?_) hmarkers _
  refine (consistent_iff hsound).mpr ⟨hfits, fun hoff => ?_⟩
  rw [hactive] at hoff
  cases hoff

/-- an entry that a block leaves is none of its transactions and spends nothing that one of them does -/
theorem Spared.no_conflict {n : Node} {pool : CTxMemPool} {txs : List CTransaction}
    {e : CTxMemPoolEntry} (he : e ∈ pool.mapTx) (h : Spared n pool txs (e.id n)) {tx : CTransaction}
    (htx : tx ∈ txs) : e.id n ≠ txid n tx ∧ ∀ input ∈ getInputs tx, input ∉ getInputs e.tx := by
  have hne : e.id n ≠ txid n tx := fun heq => h.1 (heq ▸ List.mem_map_of_mem htx)
  refine ⟨hne, fun input hin hspent => h.2 ?_⟩
  obtain ⟨before, rest, rfl⟩ := List.append_of_mem htx
  refine ⟨before, tx, ⟨rest, by simp⟩, e.id n, ⟨e, he, rfl, hne, input, hin, hspent⟩,
    Net.mem_nodes_keep.mpr ⟨mem_nodes he, fun hmem => h.1 ?_⟩, .refl⟩
  rw [List.append_cons, List.map_append]
  exact List.mem_append_left _ hmem

/-- **No conflicts.**  In every state of a run no two entries spend the same output or note or make the
same note, and once a block is connected no entry is one of its transactions or spends what they do. -/
theorem run_conflict_free (env : Env) (s₀ : NodeState) (hfresh : Fresh env s₀) (ops : List Op)
    (s : NodeState) (hrun : run env s₀ ops = some s) :
    Apart s.pool ∧ (spendNullifiers (blockMarkers s.pool.txs)).Nodup ∧
      (mintCommitments (blockMarkers s.pool.txs)).Nodup ∧
      ∀ index block s', step env s (.connect index block) = some s' →
        ∀ e ∈ s'.pool.mapTx, ∀ tx ∈ block.vtx, e.id env.n ≠ txid env.n tx ∧
          ∀ input ∈ getInputs tx, input ∉ getInputs e.tx := by
  classical
  have hs := run_sound hfresh hrun
  refine ⟨hs.apart, hs.checks.nullifiers, hs.checks.commitments, ?_⟩
  intro index block s' hstep e he tx htx
  obtain ⟨-, -, hpool, -⟩ := step_connect hstep
  rw [hpool, removeForBlock_eq hs.apart] at he
  obtain ⟨he, hspared⟩ := mem_mapTx_keep.mp he
  exact hspared.no_conflict he (List.mem_append_left _ htx)

theorem run_conflict_free_note : ∃ s s',
    run noteEnv noteStart [.accept (noteSpend 3) []] = some s ∧ Apart s.pool ∧
      step noteEnv s (.connect ⟨2, 0, 0, .null, false, false⟩ (committingBlock [noteSpend 3])) =
        some s' ∧
      ∀ e ∈ s'.pool.mapTx, ∀ tx ∈ (committingBlock [noteSpend 3]).vtx,
        e.id sampleNode ≠ txid sampleNode tx := by
  have hsome : (run noteEnv noteStart (spendOps 3)).isSome = true := by decide +kernel
  obtain ⟨s', hs'⟩ := Option.isSome_iff_exists.mp hsome
  obtain ⟨s, hs, hstep⟩ := Option.bind_eq_some_iff.mp ((run_concat noteStart [_] _).symm.trans hs')
  obtain ⟨hapart, -, -, hconnect⟩ := run_conflict_free noteEnv noteStart noteStart_fresh _ s hs
  exact ⟨s, s', hs, hapart, hstep, fun e he tx htx => (hconnect _ _ _ hstep e he tx htx).1⟩

end Mempool
