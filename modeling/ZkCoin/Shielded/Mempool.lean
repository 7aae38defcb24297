import Mathlib.Algebra.Order.BigOperators.Group.List
import ZkCoin.Shielded.ChainInvariant

/-!
# Shielded transactions of the mempool

The node adds the markers of its mempool to the state of the active chain before it takes one more
shielded transaction.  Spends are measured against the anchors and the pool of the tip, so the order
of the markers matters for the upper bound of the pool only.

* `shieldedMempoolState`      — the loop over the mempool.
* `checkShieldedMempoolState` — the rule for one more transaction.
* `Admissible`                — the part of the rule that ignores the order.
* `consistent_markers_commute` — any part of a consistent mempool, in any order, makes a block, and
  what is left is consistent with the new tip.
-/

open Bytes

namespace Shielded

/-- how `CheckShieldedMempoolState` refuses: `state.Error`, or `state.Invalid(TX_CONFLICT, ..)` -/
inductive MempoolFault
  | error (message : String)
  | conflict (rejectReason : String)
  deriving DecidableEq

section
variable (hash256 : Bytes → Uint256) (verifier : Verifier) (params : Consensus.ShieldedPoolParams)

/-- the loop of `CheckShieldedMempoolState` over `pool.infoAll()`, from the state of the tip -/
def shieldedMempoolState (shielded : ShieldedValidationState) (pool : List CTransaction) :
    Except String (ShieldedValidationState × Int) :=
  pool.foldlM (addShieldedTransactionToState hash256 verifier true params.fAllowScaffoldProofs
    shielded.anchors) (shielded, shielded.nValuePool)

/-- `CheckShieldedMempoolState` for the markers of a new transaction -/
def checkShieldedMempoolState (markers : List Marker) (pool : List CTransaction)
    (chain : List CBlock) : Except MempoolFault Unit :=
  if markers = [] then .ok ()
  else
    match loadShieldedChainState hash256 verifier params chain .init with
    | .error e => .error (.error ("failed to read shielded chain state: " ++ e))
    | .ok shielded =>
      match shieldedMempoolState hash256 verifier params shielded pool with
      | .error e => .error (.error ("bad shielded mempool state: " ++ e))
      | .ok st =>
        match markers.foldlM (addShieldedMarkerToState hash256 verifier shielded.anchors) st with
        | .error e => .error (.conflict e)
        | .ok _ => .ok ()

end

/-! ## markers whose order plays no role -/

theorem mintedValue_nonneg {ms : List Marker} (h : ∀ m ∈ ms, 0 ≤ m.nValue) : 0 ≤ mintedValue ms := by
  apply List.sum_nonneg
  intro v hv
  obtain ⟨m, hm, rfl⟩ := List.mem_map.mp hv
  exact h m (List.mem_of_mem_filter hm)

theorem spentValue_nonneg {ms : List Marker} (h : ∀ m ∈ ms, 0 ≤ m.nValue) : 0 ≤ spentValue ms := by
  apply List.sum_nonneg
  intro v hv
  obtain ⟨m, hm, rfl⟩ := List.mem_map.mp hv
  exact h m (List.mem_of_mem_filter hm)

section
variable {ms ms' : List Marker}

theorem mintCommitments_perm (h : ms.Perm ms') : (mintCommitments ms).Perm (mintCommitments ms') :=
  (h.filter _).map _

theorem spendNullifiers_perm (h : ms.Perm ms') : (spendNullifiers ms).Perm (spendNullifiers ms') :=
  (h.filter _).map _

theorem mintedValue_perm (h : ms.Perm ms') : mintedValue ms = mintedValue ms' :=
  ((h.filter _).map _).sum_eq

theorem spentValue_perm (h : ms.Perm ms') : spentValue ms = spentValue ms' :=
  ((h.filter _).map _).sum_eq

theorem poolValue_perm (h : ms.Perm ms') : poolValue ms = poolValue ms' := by
  rw [poolValue, poolValue, mintedValue_perm h, spentValue_perm h]

end

/-- the rule for the markers `ms` on top of the log `before`, their order left out -/
structure Admissible (hash256 : Bytes → Uint256) (verifier : Verifier) (before ms : List Marker) :
    Prop where
  anchor : ∀ m ∈ ms, m.action = .spend → m.anchor ∈ logAnchors hash256 verifier before
  nullifiers : (spendNullifiers (before ++ ms)).Nodup
  commitments : (mintCommitments (before ++ ms)).Nodup
  limit : spentValue ms ≤ poolValue before

/-- the part of the rule that sees the order: the pool never rises above its bound -/
def PoolCapped (before ms : List Marker) : Prop :=
  ∀ pre, pre <+: ms → poolValue (before ++ pre) ≤ maxMoney

section
variable {hash256 : Bytes → Uint256} {verifier : Verifier} {before ms ms' : List Marker}

theorem Admissible.perm (h : Admissible hash256 verifier before ms) (hp : ms.Perm ms') :
    Admissible hash256 verifier before ms' where
  anchor := fun m hm => h.anchor m (hp.mem_iff.mpr hm)
  nullifiers := (spendNullifiers_perm (hp.append_left before)).nodup_iff.mp h.nullifiers
  commitments := (mintCommitments_perm (hp.append_left before)).nodup_iff.mp h.commitments
  limit := by
    rw [← spentValue_perm hp]
    exact h.limit

theorem admissible_of_allowedRun (hbefore : LogInvariant before)
    (h : Checked.AllowedRun (MarkerAllowed hash256 verifier before) [] ms) :
    Admissible hash256 verifier before ms ∧ PoolCapped before ms := by
  have hlog : ∀ pre, pre <+: ms → LogInvariant (before ++ pre) := by
    intro pre hpre
    refine h.invariant (P := fun pre => LogInvariant (before ++ pre)) hpre ?_ ?_
    · rw [List.append_nil]
      exact hbefore
    · intro pre m hinv hm
      rw [← List.append_assoc]
      exact hinv.append hm.logRule
  have hend := hlog ms List.prefix_rfl
  refine ⟨⟨?_, hend.nullifiers_nodup, hend.commitments_nodup, ?_⟩, fun pre hpre => (hlog pre hpre).pool_le⟩
  · intro m hm ha
    obtain ⟨pre, post, rfl⟩ := List.append_of_mem hm
    exact h.split.anchor ha
  · exact spentValue_le_of_allowedRun h hbefore.pool_nonneg

theorem Admissible.markerAllowed {pre post : List Marker} {m : Marker}
    (h : Admissible hash256 verifier before (pre ++ m :: post))
    (hcap : PoolCapped before (pre ++ m :: post))
    (hvalues : ∀ x ∈ pre ++ m :: post, 0 ≤ x.nValue) :
    MarkerAllowed hash256 verifier before pre m := by
  have hall : pre ++ m :: post = (pre ++ [m]) ++ post := by simp
  have hspent : spentValue (pre ++ [m]) ≤ poolValue before := by
    have hpost : 0 ≤ spentValue post := spentValue_nonneg fun x hx => hvalues x (by simp [hx])
    have hlimit := h.limit
    rw [hall, spentValue_append] at hlimit
    omega
  have hminted : 0 ≤ mintedValue (pre ++ [m]) := by
    apply mintedValue_nonneg
    intro x hx
    exact hvalues x (by rw [hall]; exact List.mem_append_left _ hx)
  refine ⟨h.anchor m (by simp), ?_, ?_, fun _ => hspent, ?_, ?_⟩
  · intro ha hmem
    have hnodup := h.nullifiers
    rw [hall, ← List.append_assoc, ← List.append_assoc, spendNullifiers_append,
      spendNullifiers_append] at hnodup
    have hdisjoint := List.disjoint_of_nodup_append (List.nodup_append.mp hnodup).1
    exact hdisjoint hmem (by simp [spendNullifiers, Marker.hasNullifier, ha])
  · intro ha hmem
    have hnodup := h.commitments
    rw [hall, ← List.append_assoc, ← List.append_assoc, mintCommitments_append,
      mintCommitments_append] at hnodup
    have hdisjoint := List.disjoint_of_nodup_append (List.nodup_append.mp hnodup).1
    exact hdisjoint hmem (by simp [mintCommitments, Marker.hasCommitment, ha])
  · rw [List.append_assoc, poolValue_append, poolValue]
    rw [poolValue] at hspent
    rw [poolValue]
    omega
  · rw [List.append_assoc]
    apply hcap
    rw [hall]
    exact List.prefix_append _ _

theorem Admissible.allowedRun {pre : List Marker}
    (h : Admissible hash256 verifier before (pre ++ ms)) (hcap : PoolCapped before (pre ++ ms))
    (hvalues : ∀ m ∈ pre ++ ms, 0 ≤ m.nValue) :
    Checked.AllowedRun (MarkerAllowed hash256 verifier before) pre ms := by
  induction ms generalizing pre with
  | nil => trivial
  | cons m ms ih =>
    refine ⟨h.markerAllowed hcap hvalues, ?_⟩
    rw [List.append_cons] at h hcap hvalues
    exact ih h hcap hvalues

theorem poolCapped_of_minted (hvalues : ∀ m ∈ ms, 0 ≤ m.nValue)
    (h : poolValue before + mintedValue ms ≤ maxMoney) : PoolCapped before ms := by
  intro pre hpre
  obtain ⟨post, rfl⟩ := hpre
  have hpost : 0 ≤ mintedValue post := mintedValue_nonneg fun m hm => hvalues m (by simp [hm])
  have hspent : 0 ≤ spentValue pre := spentValue_nonneg fun m hm => hvalues m (by simp [hm])
  rw [mintedValue_append] at h
  rw [poolValue_append, show poolValue pre = mintedValue pre - spentValue pre from rfl]
  omega

theorem logAnchors_subset {a : Uint256} (h : a ∈ logAnchors hash256 verifier before) :
    a ∈ logAnchors hash256 verifier (before ++ ms) := by
  rw [mem_logAnchors_iff] at h ⊢
  rcases h with hnull | ⟨pre, m, hpre, hroot⟩
  · exact .inl hnull
  · exact .inr ⟨pre, m, hpre.trans (List.prefix_append _ _), hroot⟩

/-- the markers `ms` first, the markers `ms'` on the longer log -/
theorem Admissible.rest (h : Admissible hash256 verifier before (ms ++ ms'))
    (hvalues : ∀ m ∈ ms, 0 ≤ m.nValue) : Admissible hash256 verifier (before ++ ms) ms' := by
  refine ⟨?_, ?_, ?_, ?_⟩
  · intro m hm ha
    exact logAnchors_subset (h.anchor m (by simp [hm]) ha)
  · rw [List.append_assoc]
    exact h.nullifiers
  · rw [List.append_assoc]
    exact h.commitments
  · have hlimit := h.limit
    have hminted := mintedValue_nonneg hvalues
    rw [spentValue_append] at hlimit
    rw [poolValue_append, show poolValue ms = mintedValue ms - spentValue ms from rfl]
    omega

theorem Admissible.left (h : Admissible hash256 verifier before (ms ++ ms'))
    (hvalues : ∀ m ∈ ms', 0 ≤ m.nValue) : Admissible hash256 verifier before ms := by
  refine ⟨fun m hm => h.anchor m (by simp [hm]), ?_, ?_, ?_⟩
  · have hnodup := h.nullifiers
    rw [← List.append_assoc, spendNullifiers_append] at hnodup
    exact hnodup.of_append_left
  · have hnodup := h.commitments
    rw [← List.append_assoc, mintCommitments_append] at hnodup
    exact hnodup.of_append_left
  · have hlimit := h.limit
    have hspent := spentValue_nonneg hvalues
    rw [spentValue_append] at hlimit
    omega

end

/-! ## transactions -/

theorem blockMarkers_append (vtx vtx' : List CTransaction) :
    blockMarkers (vtx ++ vtx') = blockMarkers vtx ++ blockMarkers vtx' := List.flatMap_append

theorem blockMarkers_perm {vtx vtx' : List CTransaction} (h : vtx.Perm vtx') :
    (blockMarkers vtx).Perm (blockMarkers vtx') := h.flatMap_right _

def CarriesNoMarker (tx : CTransaction) : Prop :=
  ∀ txout ∈ tx.vout, extractMarkerPayload txout.scriptPubKey = none

theorem CarriesNoMarker.txMarkers_eq {tx : CTransaction} (h : CarriesNoMarker tx) :
    txMarkers tx = [] := by
  rw [txMarkers, List.filterMap_eq_nil_iff]
  intro txout hmem
  rw [outputMarker, h txout hmem]
  rfl

theorem blockMarkers_eq_nil {vtx : List CTransaction} (h : ∀ tx ∈ vtx, CarriesNoMarker tx) :
    blockMarkers vtx = [] := by
  rw [blockMarkers, List.flatMap_eq_nil_iff]
  intro tx htx
  exact (h tx htx).txMarkers_eq

section
variable {hash256 : Bytes → Uint256} {verifier : Verifier} {params : Consensus.ShieldedPoolParams}

theorem CarriesNoMarker.checkTransaction {tx : CTransaction} (h : CarriesNoMarker tx)
    (active allow : Bool) : checkTransaction hash256 verifier tx active allow = .ok [] := by
  rw [checkTransaction_eq_ok_iff]
  refine ⟨fun txout hmem => .inl (h txout hmem), ?_, h.txMarkers_eq.symm⟩
  rw [h.txMarkers_eq]
  exact Nat.zero_le _

theorem shieldedMempoolState_ok_iff (log : List Marker) (pool : List CTransaction)
    (st : ShieldedValidationState × Int) :
    shieldedMempoolState hash256 verifier params (ledgerState hash256 verifier log) pool = .ok st ↔
      BlockAllowed hash256 verifier params.fAllowScaffoldProofs log [] pool ∧
        st = blockView hash256 verifier log (blockMarkers pool) := by
  have hview : (ledgerState hash256 verifier log,
      (ledgerState hash256 verifier log).nValuePool) = blockView hash256 verifier log [] := by
    simp [blockView, ledgerState, spentValue]
  unfold shieldedMempoolState
  rw [hview]
  exact foldlM_addShieldedTransactionToState_ok_iff ..

def AllChecked (hash256 : Bytes → Uint256) (verifier : Verifier) (allow : Bool)
    (vtx : List CTransaction) : Prop :=
  ∀ tx ∈ vtx, ∃ ms, checkTransaction hash256 verifier tx true allow = .ok ms

theorem AllChecked.value_nonneg {allow : Bool} {vtx : List CTransaction}
    (h : AllChecked hash256 verifier allow vtx) : ∀ m ∈ blockMarkers vtx, 0 ≤ m.nValue := by
  intro m hm
  obtain ⟨tx, htx, hm⟩ := List.mem_flatMap.mp hm
  obtain ⟨ms, hms⟩ := h tx htx
  obtain ⟨rfl, -, haccepted⟩ := checkTransaction_ok hms
  exact (haccepted m hm).2.2.value_pos.le

variable {log : List Marker}

/-- **The block rule without order.**  On a log that keeps its invariant, a block is allowed exactly
when its transactions pass the context-free check, its markers are admissible and the pool stays
under its bound. -/
theorem blockAllowed_iff {allow : Bool} (hlog : LogInvariant log) {vtx : List CTransaction} :
    BlockAllowed hash256 verifier allow log [] vtx ↔
      AllChecked hash256 verifier allow vtx ∧ Admissible hash256 verifier log (blockMarkers vtx) ∧
        PoolCapped log (blockMarkers vtx) := by
  constructor
  · intro h
    exact ⟨h.checked, admissible_of_allowedRun hlog h.allowed⟩
  · intro ⟨hchecked, hadm, hcap⟩
    exact ⟨hchecked, Admissible.allowedRun hadm hcap hchecked.value_nonneg⟩

theorem checkShieldedBlockState_of_allowed {chain : List CBlock} {block : CBlock}
    (hchain : ShieldedChainAccepted hash256 verifier params chain)
    (hactive : params.isEnabled chain.length = true)
    (h : BlockAllowed hash256 verifier params.fAllowScaffoldProofs (chainMarkers chain) []
      block.vtx) :
    checkShieldedBlockState hash256 verifier params block chain chain.length = .ok () := by
  unfold checkShieldedBlockState
  simp only [hactive, if_true]
  refine Checked.bind_eq_ok.mpr ⟨_, loadShieldedChainState_of_accepted hchain, ?_⟩
  exact Checked.bind_eq_ok.mpr ⟨_, (addShieldedBlockToState_ok_iff ..).mpr ⟨h, rfl⟩, rfl⟩

/-! ## a block made from a consistent mempool -/

/-- `M` is consistent with the tip of an accepted chain, and its mints fit under the bound -/
structure ConsistentMempool (hash256 : Bytes → Uint256) (verifier : Verifier)
    (params : Consensus.ShieldedPoolParams) (log : List Marker) (M : List CTransaction) : Prop where
  checked : AllChecked hash256 verifier params.fAllowScaffoldProofs M
  admissible : Admissible hash256 verifier log (blockMarkers M)
  minted : poolValue log + mintedValue (blockMarkers M) ≤ maxMoney

theorem ConsistentMempool.perm {M M' : List CTransaction}
    (h : ConsistentMempool hash256 verifier params log M) (hp : M.Perm M') :
    ConsistentMempool hash256 verifier params log M' where
  checked := fun tx htx => h.checked tx (hp.mem_iff.mpr htx)
  admissible := h.admissible.perm (blockMarkers_perm hp)
  minted := by
    rw [← mintedValue_perm (blockMarkers_perm hp)]
    exact h.minted

theorem ConsistentMempool.blockAllowed (hlog : LogInvariant log) {M : List CTransaction}
    (h : ConsistentMempool hash256 verifier params log M) :
    BlockAllowed hash256 verifier params.fAllowScaffoldProofs log [] M :=
  (blockAllowed_iff hlog).mpr
    ⟨h.checked, h.admissible, poolCapped_of_minted h.checked.value_nonneg h.minted⟩

theorem ConsistentMempool.left {S R : List CTransaction}
    (h : ConsistentMempool hash256 verifier params log (S ++ R)) :
    ConsistentMempool hash256 verifier params log S := by
  have hR : ∀ m ∈ blockMarkers R, 0 ≤ m.nValue := by
    intro m hm
    apply h.checked.value_nonneg
    rw [blockMarkers_append]
    exact List.mem_append_right _ hm
  have hadm := h.admissible
  have hminted := h.minted
  rw [blockMarkers_append] at hadm hminted
  refine ⟨fun tx htx => h.checked tx (by simp [htx]), hadm.left hR, ?_⟩
  have := mintedValue_nonneg hR
  rw [mintedValue_append] at hminted
  omega

theorem ConsistentMempool.rest {S R : List CTransaction}
    (h : ConsistentMempool hash256 verifier params log (S ++ R)) :
    ConsistentMempool hash256 verifier params (log ++ blockMarkers S) R := by
  have hS : ∀ m ∈ blockMarkers S, 0 ≤ m.nValue := h.left.checked.value_nonneg
  have hadm := h.admissible
  have hminted := h.minted
  rw [blockMarkers_append] at hadm hminted
  refine ⟨fun tx htx => h.checked tx (by simp [htx]), hadm.rest hS, ?_⟩
  have := spentValue_nonneg hS
  rw [mintedValue_append] at hminted
  rw [poolValue_append, show poolValue (blockMarkers S) =
    mintedValue (blockMarkers S) - spentValue (blockMarkers S) from rfl]
  omega

theorem ConsistentMempool.plain {M plain : List CTransaction}
    (h : ConsistentMempool hash256 verifier params log M)
    (hplain : ∀ tx ∈ plain, CarriesNoMarker tx) :
    ConsistentMempool hash256 verifier params log (plain ++ M) := by
  have hmarkers : blockMarkers (plain ++ M) = blockMarkers M := by
    rw [blockMarkers_append, blockMarkers_eq_nil hplain, List.nil_append]
  refine ⟨?_, hmarkers ▸ h.admissible, hmarkers ▸ h.minted⟩
  intro tx htx
  rcases List.mem_append.mp htx with htx | htx
  · exact ⟨[], (hplain tx htx).checkTransaction true params.fAllowScaffoldProofs⟩
  · exact h.checked tx htx

/-- the states of two blocks of the same transactions differ in roots and anchors only -/
structure SameUpToRoots (s s' : ShieldedValidationState) : Prop where
  nullifiers : s.nullifiers = s'.nullifiers
  commitments : s.commitments = s'.commitments
  nCommitments : s.nCommitments = s'.nCommitments
  nValuePool : s.nValuePool = s'.nValuePool

theorem sameUpToRoots_of_perm {log' : List Marker} (h : log.Perm log') :
    SameUpToRoots (ledgerState hash256 verifier log) (ledgerState hash256 verifier log') where
  nullifiers := List.toFinset_eq_of_perm _ _ (spendNullifiers_perm h)
  commitments := List.toFinset_eq_of_perm _ _ (mintCommitments_perm h)
  nCommitments := (mintCommitments_perm h).length_eq
  nValuePool := poolValue_perm h

/-- **Order independence.**  When the loop over the mempool accepts `M` on the tip of an accepted
chain, a block with any part of `M`, in any order, is accepted next; the order changes nothing but the
commitment roots; and the loop accepts the rest, in any order, on the new tip. -/
theorem consistent_markers_commute (hash256 : Bytes → Uint256) (verifier : Verifier)
    (params : Consensus.ShieldedPoolParams) (chain : List CBlock)
    (hchain : ShieldedChainAccepted hash256 verifier params chain)
    (hactive : params.isEnabled chain.length = true)
    (shielded : ShieldedValidationState)
    (hload : loadShieldedChainState hash256 verifier params chain .init = .ok shielded)
    (M : List CTransaction)
    (hM : ∃ st, shieldedMempoolState hash256 verifier params shielded M = .ok st)
    (hminted : shielded.nValuePool + mintedValue (blockMarkers M) ≤ maxMoney)
    (S R : List CTransaction) (hsplit : M.Perm (S ++ R))
    (plain : List CTransaction) (hplain : ∀ tx ∈ plain, CarriesNoMarker tx)
    (block : CBlock) (hblock : block.vtx.Perm (plain ++ S)) :
    checkShieldedBlockState hash256 verifier params block chain chain.length = .ok () ∧
    ∃ shielded', loadShieldedChainState hash256 verifier params (block :: chain) .init = .ok shielded' ∧
      (∀ block' : CBlock, block'.vtx.Perm block.vtx → ∃ shielded'',
        loadShieldedChainState hash256 verifier params (block' :: chain) .init = .ok shielded'' ∧
          SameUpToRoots shielded'' shielded') ∧
      ∃ st, shieldedMempoolState hash256 verifier params shielded' R = .ok st := by
  obtain rfl := Except.ok.inj ((loadShieldedChainState_of_accepted hchain).symm.trans hload)
  have hlog : LogInvariant (chainMarkers chain) := logInvariant_of_accepted hchain List.prefix_rfl
  obtain ⟨st, hst⟩ := hM
  obtain ⟨hallowed, -⟩ := (shieldedMempoolState_ok_iff _ _ _).mp hst
  obtain ⟨hchecked, hadm, -⟩ := (blockAllowed_iff hlog).mp hallowed
  have hall : ∀ vtx : List CTransaction, vtx.Perm (plain ++ S) →
      ConsistentMempool hash256 verifier params (chainMarkers chain) (vtx ++ R) := by
    intro vtx hvtx
    have hsplit' : (plain ++ M).Perm (vtx ++ R) := by
      apply (hsplit.append_left plain).trans
      rw [← List.append_assoc]
      exact hvtx.symm.append_right R
    exact ((ConsistentMempool.mk hchecked hadm hminted).plain hplain).perm hsplit'
  -- every order of the block is accepted, so the chain with it on top loads
  have haccept : ∀ block' : CBlock, block'.vtx.Perm (plain ++ S) →
      checkShieldedBlockState hash256 verifier params block' chain chain.length = .ok () := by
    intro block' hblock'
    exact checkShieldedBlockState_of_allowed hchain hactive
      ((hall _ hblock').left.blockAllowed hlog)
  have hload' : ∀ block' : CBlock, block'.vtx.Perm (plain ++ S) →
      loadShieldedChainState hash256 verifier params (block' :: chain) .init =
        .ok (ledgerState hash256 verifier (chainMarkers chain ++ blockMarkers block'.vtx)) :=
    fun block' hblock' => loadShieldedChainState_of_accepted ⟨hchain, haccept block' hblock'⟩
  refine ⟨haccept block hblock, _, hload' block hblock, ?_, ?_⟩
  · intro block' hperm
    refine ⟨_, hload' block' (hperm.trans hblock), ?_⟩
    exact sameUpToRoots_of_perm ((blockMarkers_perm hperm).append_left _)
  · have hchain' : ShieldedChainAccepted hash256 verifier params (block :: chain) :=
      ⟨hchain, haccept block hblock⟩
    have hnew : LogInvariant (chainMarkers (block :: chain)) :=
      logInvariant_of_accepted hchain' List.prefix_rfl
    exact ⟨_, (shieldedMempoolState_ok_iff _ _ _).mpr
      ⟨(hall _ hblock).rest.blockAllowed hnew, rfl⟩⟩

end

/-! ## a concrete mempool -/

def sampleMempoolSpend : CTransaction :=
  sampleSpend 3 (.ofNat 9) (nextCommitmentRoot Uint256.polyHash sampleVerifier [] .null 0 (.ofNat 5)) 6

def sampleMempoolMint (n : Nat) : CTransaction := sampleMint 2 (.ofNat n) 3

/-- the spend and one mint of the mempool, mined in the other order after a transaction without a
marker -/
theorem consistent_markers_commute_sample :
    checkShieldedBlockState Uint256.polyHash sampleVerifier ⟨1, true⟩
        (sampleBlock [sampleMarkerTx 9 [] [], sampleMempoolSpend, sampleMempoolMint 8])
        sampleChain sampleChain.length = .ok () ∧
      ∃ shielded', loadShieldedChainState Uint256.polyHash sampleVerifier ⟨1, true⟩
          (sampleBlock [sampleMarkerTx 9 [] [], sampleMempoolSpend, sampleMempoolMint 8] ::
            sampleChain) .init = .ok shielded' ∧
        ∃ st, shieldedMempoolState Uint256.polyHash sampleVerifier ⟨1, true⟩ shielded'
          [sampleMempoolMint 7] = .ok st := by
  have haccepted : ShieldedChainAccepted Uint256.polyHash sampleVerifier ⟨1, true⟩ sampleChain :=
    ⟨⟨⟨trivial, by decide +kernel⟩, by decide +kernel⟩, by decide +kernel⟩
  obtain ⟨s, hs, htest⟩ := Checked.exists_of_any (show (loadShieldedChainState Uint256.polyHash
    sampleVerifier ⟨1, true⟩ sampleChain .init).toOption.any (fun s =>
      (shieldedMempoolState Uint256.polyHash sampleVerifier ⟨1, true⟩ s
        [sampleMempoolMint 8, sampleMempoolMint 7, sampleMempoolSpend]).isOk &&
      decide (s.nValuePool + mintedValue (blockMarkers
        [sampleMempoolMint 8, sampleMempoolMint 7, sampleMempoolSpend]) ≤ maxMoney)) = true by
    decide +kernel)
  obtain ⟨hM, hminted⟩ := Bool.and_eq_true_iff.mp htest
  have hplain : ∀ tx ∈ [sampleMarkerTx 9 [] []], CarriesNoMarker tx := by
    unfold CarriesNoMarker
    decide +kernel
  obtain ⟨hblock, shielded', hload', -, hrest⟩ := consistent_markers_commute Uint256.polyHash
    sampleVerifier ⟨1, true⟩ sampleChain haccepted (by decide) s hs
    [sampleMempoolMint 8, sampleMempoolMint 7, sampleMempoolSpend] (Checked.exists_of_isOk hM)
    (of_decide_eq_true hminted) [sampleMempoolMint 8, sampleMempoolSpend] [sampleMempoolMint 7]
    (.cons _ (.swap _ _ _)) [sampleMarkerTx 9 [] []] hplain
    (sampleBlock [sampleMarkerTx 9 [] [], sampleMempoolSpend, sampleMempoolMint 8])
    (.cons _ (.swap _ _ _))
  exact ⟨hblock, shielded', hload', hrest⟩

end Shielded
