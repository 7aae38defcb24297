import ZkCoin.Consensus.AcceptBlock
import ZkCoin.Ledger.TxInputs
import ZkCoin.Library.Net

/-!
# Leaving the mempool

`CTxMemPool` as a list of entries with the links between parents and children, and the functions that
add and remove entries.  Fees, sizes and times are left out: what they decide is which entries
`LimitMempoolSize` gives up, and that is an argument here.

* `addUnchecked`, `removeRecursive`, `removeForBlock`, `removeForReorg` — the functions of the source.
* `Apart`                — no two entries spend the same output.
* `removeForBlock_eq`    — the entries that a block leaves in the pool.
* `limitAfterReorg_eq`   — the entries that the end of a reorganization leaves in the pool.
-/

open Bytes Consensus

namespace Mempool

/-- `OutputIndex`: an output of the canonical chain, or one of the extension block -/
inductive OutputIndex
  | outpoint (outpoint : COutPoint)
  | mweb (outputId : Uint256)
  deriving DecidableEq

/-- `CTransaction::GetInputs`, as the outputs that are spent -/
def getInputs (tx : CTransaction) : List OutputIndex :=
  tx.vin.map (fun txin => .outpoint txin.prevout) ++
    match tx.mwebTx with
    | none => []
    | some mwebTx => mwebTx.body.getSpentIds.map .mweb

structure CTxMemPoolEntry where
  tx : CTransaction
  spendsCoinbase : Bool
  deriving DecidableEq

structure CTxMemPool where
  mapTx : List CTxMemPoolEntry
  /-- `m_children` and `m_parents` of the entries, as pairs of a parent and a child -/
  links : List (Uint256 × Uint256)
  /-- `mapTxOutputs_MWEB`: an output of the extension block and the transaction that creates it -/
  mapTxOutputsMweb : List (Uint256 × Uint256)

def CTxMemPool.empty : CTxMemPool := ⟨[], [], []⟩

def CTxMemPool.txs (pool : CTxMemPool) : List CTransaction := pool.mapTx.map CTxMemPoolEntry.tx

section
variable (n : Node)

def txid (tx : CTransaction) : Uint256 := tx.getHash n.hash256 n.blake3

def CTxMemPoolEntry.id (entry : CTxMemPoolEntry) : Uint256 := txid n entry.tx

def mwebOutputIds (tx : CTransaction) : List Uint256 :=
  match tx.mwebTx with
  | none => []
  | some mwebTx => mwebTx.body.getOutputIds n.blake3

def kernelIds (tx : CTransaction) : List Uint256 :=
  match tx.mwebTx with
  | none => []
  | some mwebTx => mwebTx.body.getKernelIds n.blake3

/-- `CTransaction::GetOutputs`, as indices -/
def getOutputs (tx : CTransaction) : List OutputIndex :=
  (List.range tx.vout.length).map (fun i => .outpoint (Utxo.outpointOf (txid n tx) i)) ++
    (mwebOutputIds n tx).map .mweb

def CTxMemPool.net (pool : CTxMemPool) : Net Uint256 :=
  ⟨pool.mapTx.map (CTxMemPoolEntry.id n), pool.links⟩

def CTxMemPool.exists (pool : CTxMemPool) (hash : Uint256) : Bool :=
  decide (hash ∈ (pool.net n).nodes)

/-- the entries that `K` keeps; what is removed takes its links and its outputs along -/
def CTxMemPool.keep (pool : CTxMemPool) (K : Uint256 → Prop) [DecidablePred K] : CTxMemPool where
  mapTx := pool.mapTx.filter fun e => K (e.id n)
  links := pool.links.filter fun l => K l.1 ∧ K l.2
  mapTxOutputsMweb := pool.mapTxOutputsMweb.filter fun output =>
    ∀ e ∈ pool.mapTx, output.1 ∈ mwebOutputIds n e.tx → K (e.id n)

/-- `CTxMemPool::RemoveStaged` -/
def removeStaged (stage : List Uint256) (pool : CTxMemPool) : CTxMemPool := pool.keep n (· ∉ stage)

/-- entries with all their descendants: `CalculateDescendants` of each, then `RemoveStaged` -/
def removeDescendants (txToRemove : List Uint256) (pool : CTxMemPool) : CTxMemPool :=
  removeStaged n ((pool.net n).descend txToRemove) pool

/-- `mapNextTx.find`: the entry that spends an output -/
def mapNextTx (pool : CTxMemPool) (output : OutputIndex) : Option CTxMemPoolEntry :=
  pool.mapTx.find? fun e => getInputs e.tx |>.contains output

def parentTransactions (pool : CTxMemPool) (tx : CTransaction) : List Uint256 :=
  (getInputs tx).filterMap fun
    | .outpoint outpoint => some outpoint.hash
    | .mweb outputId => pool.mapTxOutputsMweb.lookup outputId

/-- `CTxMemPool::addUnchecked` -/
def addUnchecked (entry : CTxMemPoolEntry) (pool : CTxMemPool) : CTxMemPool where
  mapTx := pool.mapTx ++ [entry]
  links := pool.links ++ ((pool.net n).nodes.filter
    fun hash => hash ∈ parentTransactions pool entry.tx).map fun hash => (hash, entry.id n)
  mapTxOutputsMweb := pool.mapTxOutputsMweb ++ ((mwebOutputIds n entry.tx).filter
    fun outputId => (pool.mapTxOutputsMweb.lookup outputId).isNone).map fun outputId =>
      (outputId, entry.id n)

/-- `CTxMemPool::removeRecursive` -/
def removeRecursive (origTx : CTransaction) (pool : CTxMemPool) : CTxMemPool :=
  removeDescendants n
    (if pool.exists n (txid n origTx) then [txid n origTx]
      else (getOutputs n origTx).filterMap fun output =>
        (mapNextTx pool output).map (CTxMemPoolEntry.id n)) pool

/-- one input of the loop of `removeConflicts` -/
def removeConflict (tx : CTransaction) (pool : CTxMemPool) (input : OutputIndex) : CTxMemPool :=
  match mapNextTx pool input with
  | none => pool
  | some txConflict =>
    if txConflict.id n ≠ txid n tx then removeRecursive n txConflict.tx pool else pool

/-- `CTxMemPool::removeConflicts` -/
def removeConflicts (tx : CTransaction) (pool : CTxMemPool) : CTxMemPool :=
  (getInputs tx).foldl (removeConflict n tx) pool

/-- the transactions that `removeForBlock` takes for confirmed: those of the block, and those of the
pool with a kernel of the extension block -/
def confirmedTxs (block : CBlock) (pool : CTxMemPool) : List CTransaction :=
  block.vtx ++
    match block.mwebBlock with
    | none => []
    | some mwebBlock => pool.txs.filter fun tx =>
        (kernelIds n tx).any fun kernelId => (mwebBlock.body.getKernelIds n.blake3).contains kernelId

/-- one confirmed transaction: it goes alone, and what conflicts with it goes with its descendants -/
def confirm (pool : CTxMemPool) (tx : CTransaction) : CTxMemPool :=
  removeConflicts n tx (removeStaged n [txid n tx] pool)

/-- `CTxMemPool::removeForBlock` -/
def removeForBlock (block : CBlock) (pool : CTxMemPool) : CTxMemPool :=
  (confirmedTxs n block pool).foldl (confirm n) pool

/-- `CTxMemPool::UpdateTransactionsFromBlock`: the children that resubmitted transactions had in the
pool before -/
def updateTransactionsFromBlock (vHashesToUpdate : List Uint256) (pool : CTxMemPool) : CTxMemPool where
  mapTx := pool.mapTx
  links := pool.links ++ pool.mapTx.flatMap fun e =>
    if e.id n ∈ vHashesToUpdate then
      (((getOutputs n e.tx).filterMap fun output =>
        (mapNextTx pool output).map (CTxMemPoolEntry.id n)).filter (· ∉ vHashesToUpdate)).map
          fun child => (e.id n, child)
    else []
  mapTxOutputsMweb := pool.mapTxOutputsMweb

/-- an input of a transaction that is not created in the pool is gone, or immature at this height -/
def immatureInput (coins : Utxo.View) (nMemPoolHeight : Int) (pool : CTxMemPool) (txin : CTxIn) :
    Bool :=
  !pool.exists n txin.prevout.hash &&
    let coin := Utxo.accessCoin coins txin.prevout
    (coin.isSpent ||
      (coin.fCoinBase && decide (nMemPoolHeight - coin.nHeight < coinbaseMaturity)) ||
      (coin.fPegout && decide (nMemPoolHeight - coin.nHeight < pegoutMaturity)))

/-- the test of `removeForReorg` -/
def staleEntry (coins : Utxo.View) (nMemPoolHeight : Int) (final : CTransaction → Bool)
    (pool : CTxMemPool) (e : CTxMemPoolEntry) : Bool :=
  !final e.tx || (e.spendsCoinbase && e.tx.vin.any (immatureInput n coins nMemPoolHeight pool))

/-- `CTxMemPool::removeForReorg`; `final` stands for `CheckFinalTx` and `CheckSequenceLocks` -/
def removeForReorg (coins : Utxo.View) (nMemPoolHeight : Int) (final : CTransaction → Bool)
    (pool : CTxMemPool) : CTxMemPool :=
  removeDescendants n ((pool.mapTx.filter
    (staleEntry n coins nMemPoolHeight final pool)).map (CTxMemPoolEntry.id n)) pool

/-- `LimitMempoolSize`, which gives up the entries `evicted` and their descendants -/
def limitMempoolSize (evicted : List Uint256) (pool : CTxMemPool) : CTxMemPool :=
  removeDescendants n (evicted.filter fun hash => pool.exists n hash) pool

end

/-! ## keeping a part -/

section
variable {n : Node} {pool : CTxMemPool} {K K' : Uint256 → Prop} [DecidablePred K] [DecidablePred K']

variable {e : CTxMemPoolEntry}

theorem mem_mapTx_keep :
    e ∈ (pool.keep n K).mapTx ↔ e ∈ pool.mapTx ∧ K (e.id n) := by
  simp only [CTxMemPool.keep, List.mem_filter, decide_eq_true_eq]

theorem txs_keep_sublist : (pool.keep n K).txs.Sublist pool.txs := List.filter_sublist.map _

theorem mem_nodes (h : e ∈ pool.mapTx) : e.id n ∈ (pool.net n).nodes :=
  List.mem_map_of_mem h

variable {hash : Uint256}

theorem exists_eq_true :
    pool.exists n hash = true ↔ hash ∈ (pool.net n).nodes := decide_eq_true_iff

theorem net_keep : (pool.keep n K).net n = (pool.net n).keep K := by
  simp only [CTxMemPool.net, CTxMemPool.keep, Net.keep, List.filter_map, Function.comp_def]

theorem keep_keep : (pool.keep n K).keep n K' = pool.keep n fun hash => K hash ∧ K' hash := by
  simp only [CTxMemPool.keep, List.filter_filter]
  congr 1
  · apply List.filter_congr
    intro e _
    rw [Bool.and_comm, ← Bool.decide_and]
  · apply List.filter_congr
    intro l _
    rw [← Bool.decide_and, decide_eq_decide]
    tauto
  · apply List.filter_congr
    intro output _
    rw [Bool.eq_iff_iff]
    constructor
    · intro h
      obtain ⟨hK', hK⟩ := Bool.and_eq_true_iff.mp h
      refine decide_eq_true fun e he hout => ?_
      have hkept := of_decide_eq_true hK e he hout
      exact ⟨hkept, of_decide_eq_true hK' e (mem_mapTx_keep.mpr ⟨he, hkept⟩) hout⟩
    · intro h
      have h := of_decide_eq_true h
      refine Bool.and_eq_true_iff.mpr ⟨decide_eq_true ?_, decide_eq_true ?_⟩
      · intro e he hout
        exact (h e (mem_mapTx_keep.mp he).1 hout).2
      · intro e he hout
        exact (h e he hout).1

theorem keep_congr (h : ∀ hash, K hash ↔ K' hash) : pool.keep n K = pool.keep n K' := by
  simp only [CTxMemPool.keep, h]

theorem keep_of_forall (h : ∀ hash, K hash) : pool.keep n K = pool := by
  simp [CTxMemPool.keep, h]

open Classical in
theorem removeDescendants_eq {txToRemove : List Uint256}
    (h : ∀ hash ∈ txToRemove, hash ∈ (pool.net n).nodes) :
    removeDescendants n txToRemove pool =
      pool.keep n fun hash => ¬ (pool.net n).Hangs (· ∈ txToRemove) hash := by
  unfold removeDescendants removeStaged
  apply keep_congr
  intro hash
  rw [Net.mem_descend_iff h]
  rfl

/-! ## conflicts -/

def NoSharedInput (e e' : CTxMemPoolEntry) : Prop :=
  ∀ input ∈ getInputs e.tx, input ∉ getInputs e'.tx

instance : Std.Symm NoSharedInput where
  symm := fun _ _ h input hin hin' => h input hin' hin

/-- no two entries spend the same output -/
def Apart (pool : CTxMemPool) : Prop := pool.mapTx.Pairwise NoSharedInput

theorem Apart.keep (h : Apart pool) : Apart (pool.keep n K) := List.Pairwise.filter _ h

variable {input : OutputIndex}

theorem Apart.eq_of_mem (h : Apart pool) {e' : CTxMemPoolEntry} (he : e ∈ pool.mapTx)
    (he' : e' ∈ pool.mapTx) (hin : input ∈ getInputs e.tx) (hin' : input ∈ getInputs e'.tx) :
    e = e' := by
  by_contra hne
  exact List.Pairwise.forall h he he' hne input hin hin'

theorem mapNextTx_some (h : mapNextTx pool input = some e) :
    e ∈ pool.mapTx ∧ input ∈ getInputs e.tx :=
  ⟨List.mem_of_find?_eq_some h, by simpa using List.find?_some h⟩

theorem mapNextTx_none (h : mapNextTx pool input = none) (he : e ∈ pool.mapTx) :
    input ∉ getInputs e.tx := by
  simpa using List.find?_eq_none.mp h e he

/-- the entries, other than the transaction itself, that spend one of the given outputs -/
def Spends (n : Node) (pool : CTxMemPool) (tx : CTransaction) (inputs : List OutputIndex)
    (hash : Uint256) : Prop :=
  ∃ e ∈ pool.mapTx, e.id n = hash ∧ hash ≠ txid n tx ∧ ∃ input ∈ inputs, input ∈ getInputs e.tx

variable {tx : CTransaction}

theorem Spends.left {inputs : List OutputIndex} (h : Spends n pool tx inputs hash) :
    Spends n pool tx (inputs ++ [input]) hash := by
  obtain ⟨e, he, hid, hne, i, hi, hin⟩ := h
  exact ⟨e, he, hid, hne, i, List.mem_append_left _ hi, hin⟩

theorem spends_concat {inputs : List OutputIndex} (h : Spends n pool tx (inputs ++ [input]) hash) :
    Spends n pool tx inputs hash ∨
      ∃ e ∈ pool.mapTx, e.id n = hash ∧ hash ≠ txid n tx ∧ input ∈ getInputs e.tx := by
  obtain ⟨e, he, hid, hne, i, hi, hin⟩ := h
  rcases List.mem_append.mp hi with hi | hi
  · exact .inl ⟨e, he, hid, hne, i, hi, hin⟩
  · rw [List.mem_singleton.mp hi] at hin
    exact .inr ⟨e, he, hid, hne, hin⟩

theorem removeRecursive_of_mem (he : e ∈ pool.mapTx) :
    removeRecursive n e.tx pool = removeDescendants n [e.id n] pool := by
  have hexists : pool.exists n (txid n e.tx) = true := exists_eq_true.mpr (mem_nodes he)
  rw [removeRecursive, if_pos hexists]
  rfl

open Classical in
/-- the loop over the inputs removes what hangs below a conflict, and nothing else -/
theorem removeConflicts_run (hapart : Apart pool) (tx : CTransaction) (inputs : List OutputIndex) :
    inputs.foldl (removeConflict n tx) pool =
      pool.keep n fun hash => ¬ (pool.net n).Hangs (Spends n pool tx inputs) hash := by
  induction inputs using List.reverseRecOn with
  | nil =>
    refine (keep_of_forall ?_).symm
    intro hash ⟨a, ⟨e, he, hid, hne, i, hi, hin⟩, hbelow⟩
    cases hi
  | append_singleton inputs input ih =>
    rw [List.foldl_append, ih, List.foldl_cons, List.foldl_nil, removeConflict]
    -- seeds that hang already change nothing
    have hsame : (∀ a, Spends n pool tx (inputs ++ [input]) a →
          (pool.net n).Hangs (Spends n pool tx inputs) a) → ∀ hash,
        ¬ (pool.net n).Hangs (Spends n pool tx inputs) hash ↔
          ¬ (pool.net n).Hangs (Spends n pool tx (inputs ++ [input])) hash := by
      intro hseeds hash
      refine not_congr ⟨?_, ?_⟩
      · intro ⟨a, ha, hbelow⟩
        exact ⟨a, ha.left, hbelow⟩
      · intro ⟨a, ha, hbelow⟩
        exact (hseeds a ha).trans hbelow
    have hself : ∀ e ∈ pool.mapTx, Spends n pool tx inputs (e.id n) →
        (pool.net n).Hangs (Spends n pool tx inputs) (e.id n) :=
      fun e he hspends => ⟨_, hspends, Net.below_self (mem_nodes he)⟩
    cases hnext : mapNextTx (pool.keep n fun hash =>
        ¬ (pool.net n).Hangs (Spends n pool tx inputs) hash) input with
    | none =>
      -- an entry with this input would be in the pool, so it hangs below an earlier conflict
      apply keep_congr
      apply hsame
      intro a ha
      rcases spends_concat ha with hspends | ⟨e, he, rfl, -, hin⟩
      · obtain ⟨e, he, rfl, -⟩ := id hspends
        exact hself e he hspends
      · by_contra hnot
        exact mapNextTx_none hnext (mem_mapTx_keep.mpr ⟨he, hnot⟩) hin
    | some c =>
      obtain ⟨hc, hcin⟩ := mapNextTx_some hnext
      have hcpool := (mem_mapTx_keep.mp hc).1
      have hunique : ∀ e ∈ pool.mapTx, input ∈ getInputs e.tx → e = c :=
        fun e he hin => hapart.eq_of_mem he hcpool hin hcin
      dsimp only
      split
      · rename_i hne
        rw [removeRecursive_of_mem hc, removeDescendants_eq (by simpa using mem_nodes hc), keep_keep]
        apply keep_congr
        intro hash
        rw [net_keep, Net.not_hangs_or_iff]
        refine not_congr ⟨?_, ?_⟩
        · intro ⟨a, ha, hbelow⟩
          refine ⟨a, ?_, hbelow⟩
          rcases ha with ha | ha
          · exact ha.left
          · rw [List.mem_singleton.mp ha]
            exact ⟨c, hcpool, rfl, hne, input, by simp, hcin⟩
        · intro ⟨a, ha, hbelow⟩
          refine ⟨a, ?_, hbelow⟩
          rcases spends_concat ha with ha | ⟨e, he, rfl, -, hin⟩
          · exact .inl ha
          · rw [hunique e he hin]
            exact .inr (List.mem_singleton_self _)
      · rename_i heq
        apply keep_congr
        apply hsame
        intro a ha
        rcases spends_concat ha with hspends | ⟨e, he, rfl, hne, hin⟩
        · obtain ⟨e, he, rfl, -⟩ := id hspends
          exact hself e he hspends
        · rw [hunique e he hin] at hne
          exact absurd hne heq

open Classical in
theorem removeConflicts_eq (hapart : Apart pool) (tx : CTransaction) :
    removeConflicts n tx pool =
      pool.keep n fun hash => ¬ (pool.net n).Hangs (Spends n pool tx (getInputs tx)) hash :=
  removeConflicts_run hapart tx (getInputs tx)

/-! ## what a block leaves -/

/-- an entry is lost to a list of confirmed transactions: when one of them comes, the entry hangs
below a conflict with it, by a chain that none of the transactions so far interrupts -/
def LostTo (n : Node) (pool : CTxMemPool) (txs : List CTransaction) (hash : Uint256) : Prop :=
  ∃ before tx, before ++ [tx] <+: txs ∧
    ((pool.net n).keep fun h => h ∉ (before ++ [tx]).map (txid n)).Hangs
      (Spends n pool tx (getInputs tx)) hash

def Spared (n : Node) (pool : CTxMemPool) (txs : List CTransaction) (hash : Uint256) : Prop :=
  hash ∉ txs.map (txid n) ∧ ¬ LostTo n pool txs hash

theorem lostTo_concat {txs : List CTransaction} :
    LostTo n pool (txs ++ [tx]) hash ↔ LostTo n pool txs hash ∨
      ((pool.net n).keep fun h => h ∉ (txs ++ [tx]).map (txid n)).Hangs
        (Spends n pool tx (getInputs tx)) hash := by
  constructor
  · intro ⟨before, x, hpre, hlost⟩
    rcases List.prefix_concat_iff.mp hpre with heq | hpre
    · obtain ⟨rfl, hx⟩ := List.append_inj' heq rfl
      obtain rfl := List.singleton_inj.mp hx
      exact .inr hlost
    · exact .inl ⟨before, x, hpre, hlost⟩
  · intro h
    rcases h with ⟨before, x, hpre, hlost⟩ | hlost
    · exact ⟨before, x, hpre.trans (List.prefix_append _ _), hlost⟩
    · exact ⟨txs, tx, List.prefix_rfl, hlost⟩

theorem spared_concat {txs : List CTransaction} :
    Spared n pool (txs ++ [tx]) hash ↔ Spared n pool txs hash ∧ hash ∉ [txid n tx] ∧
      ¬ ((pool.net n).keep fun h => h ∉ (txs ++ [tx]).map (txid n)).Hangs
        (Spends n pool tx (getInputs tx)) hash := by
  rw [Spared, lostTo_concat, List.map_append, List.mem_append, Spared]
  simp only [List.map_cons, List.map_nil]
  tauto

/-- what hangs below a lost entry is lost, unless one of the transactions interrupts the chain -/
theorem LostTo.trans {txs : List CTransaction} {S : Uint256 → Prop} [DecidablePred S]
    (hS : ∀ h, S h → h ∉ txs.map (txid n)) {a b : Uint256} (h : LostTo n pool txs a)
    (hab : ((pool.net n).keep S).Below a b) : LostTo n pool txs b := by
  obtain ⟨before, x, hpre, hlost⟩ := h
  refine ⟨before, x, hpre, hlost.trans (hab.keep_mono ?_)⟩
  intro h hSh hmem
  exact hS h hSh ((hpre.sublist.map (txid n)).subset hmem)

open Classical in
theorem confirm_spared (hapart : Apart pool) (txs : List CTransaction) (tx : CTransaction) :
    confirm n (pool.keep n (Spared n pool txs)) tx = pool.keep n (Spared n pool (txs ++ [tx])) := by
  rw [confirm, removeStaged, keep_keep, removeConflicts_eq hapart.keep, keep_keep]
  apply keep_congr
  intro hash
  -- the chains that neither a lost entry nor one of the transactions interrupts
  have hnet : ((pool.keep n fun h => Spared n pool txs h ∧ h ∉ [txid n tx]).net n) =
      ((pool.net n).keep fun h => h ∉ (txs ++ [tx]).map (txid n)).keep
        fun h => ¬ LostTo n pool txs h := by
    rw [net_keep, Net.keep_keep]
    apply Net.keep_congr
    intro h
    simp only [Spared, List.map_append, List.map_cons, List.map_nil, List.mem_append]
    tauto
  have hup : ∀ x y, ((pool.net n).keep fun h => h ∉ (txs ++ [tx]).map (txid n)).Below x y →
      ¬ LostTo n pool txs y → ¬ LostTo n pool txs x := by
    intro x y hxy hy hx
    refine hy (hx.trans ?_ hxy)
    intro h hnot hmem
    exact hnot (by rw [List.map_append]; exact List.mem_append_left _ hmem)
  rw [hnet, spared_concat, and_assoc]
  refine and_congr_right fun hspared => and_congr_right fun _ => not_congr ⟨?_, ?_⟩
  · rintro ⟨a, ⟨e, he, rfl, hconflict⟩, hbelow⟩
    exact ⟨e.id n, ⟨e, (mem_mapTx_keep.mp he).1, rfl, hconflict⟩, hbelow.of_keep⟩
  · rintro ⟨a, ⟨e, he, rfl, hconflict⟩, hbelow⟩
    have hbelow := (Net.below_keep_iff hup).mpr ⟨hbelow, hspared.2⟩
    refine ⟨e.id n, ⟨e, mem_mapTx_keep.mpr ⟨he, ?_⟩, rfl, hconflict⟩, hbelow⟩
    rw [← hnet, net_keep] at hbelow
    exact (Net.mem_nodes_keep.mp hbelow.start).2

open Classical in
/-- **What a block leaves.**  `removeForBlock` keeps the entries that the block neither confirms nor
takes an input of, or of an entry above them, from. -/
theorem removeForBlock_eq (hapart : Apart pool) (block : CBlock) :
    removeForBlock n block pool = pool.keep n (Spared n pool (confirmedTxs n block pool)) := by
  unfold removeForBlock
  generalize confirmedTxs n block pool = txs
  induction txs using List.reverseRecOn with
  | nil =>
    refine (keep_of_forall ?_).symm
    intro hash
    refine ⟨by simp, ?_⟩
    intro ⟨before, tx, hpre, _⟩
    simpa using List.prefix_nil.mp hpre
  | append_singleton txs tx ih =>
    rw [List.foldl_append, ih]
    exact confirm_spared hapart txs tx

/-! ## what the end of a reorganization leaves -/

open Classical in
theorem limitMempoolSize_eq (evicted : List Uint256) :
    limitMempoolSize n evicted pool =
      pool.keep n fun hash => ¬ (pool.net n).Hangs (· ∈ evicted) hash := by
  rw [limitMempoolSize, removeDescendants_eq (by simp [exists_eq_true])]
  apply keep_congr
  intro hash
  refine not_congr ⟨?_, ?_⟩
  · intro ⟨a, ha, hbelow⟩
    exact ⟨a, (List.mem_filter.mp ha).1, hbelow⟩
  · intro ⟨a, ha, hbelow⟩
    exact ⟨a, List.mem_filter.mpr ⟨ha, exists_eq_true.mpr hbelow.start⟩, hbelow⟩

/-- an entry that does not outlive a reorganization: it, or an entry above it, is stale or given up -/
def Dropped (n : Node) (coins : Utxo.View) (nMemPoolHeight : Int) (final : CTransaction → Bool)
    (evicted : List Uint256) (pool : CTxMemPool) : Uint256 → Prop :=
  (pool.net n).Hangs fun a =>
    (∃ e ∈ pool.mapTx, e.id n = a ∧ staleEntry n coins nMemPoolHeight final pool e = true) ∨ a ∈ evicted

open Classical in
theorem limitAfterReorg_eq (coins : Utxo.View) (nMemPoolHeight : Int) (final : CTransaction → Bool)
    (evicted : List Uint256) :
    limitMempoolSize n evicted (removeForReorg n coins nMemPoolHeight final pool) =
      pool.keep n fun hash => ¬ Dropped n coins nMemPoolHeight final evicted pool hash := by
  have hstale : ∀ hash ∈ (pool.mapTx.filter (staleEntry n coins nMemPoolHeight final pool)).map
      (CTxMemPoolEntry.id n), hash ∈ (pool.net n).nodes := by
    intro hash hmem
    obtain ⟨e, he, rfl⟩ := List.mem_map.mp hmem
    exact mem_nodes (List.mem_filter.mp he).1
  rw [removeForReorg, removeDescendants_eq hstale, limitMempoolSize_eq, keep_keep]
  apply keep_congr
  intro hash
  rw [net_keep, Net.not_hangs_or_iff, Dropped]
  refine not_congr (exists_congr fun a => and_congr_left fun _ => or_congr_left ?_)
  rw [List.mem_map]
  refine exists_congr fun e => ?_
  rw [List.mem_filter]
  tauto

end

end Mempool
