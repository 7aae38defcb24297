import ZkCoin.Shielded.ChainInvariant

/-!
# The shielded pool as the RPC reports it

`GetShieldedPoolRpcState` walks the active chain by height and keeps its own account of the pool: it
counts nullifiers instead of collecting them and never looks for a duplicate.  On an accepted chain
it reports what validation holds.

* `getShieldedPoolRpcState`   — the loop over the heights, with its reads and its errors.
* `ShieldedValidationState.rpcView` — the part of validation's state that is reported.
* `rpc_view_eq_consensus`     — both walks agree at the tip of an accepted chain.
-/

open Bytes

namespace Shielded

/-! ## the account of the RPC -/

structure ShieldedPoolRpcState where
  nValuePool : Int
  nCommitments : Nat
  nNullifiers : Nat
  anchors : Finset Uint256
  commitmentChain : List Uint256
  commitmentRoot : Uint256
  deriving DecidableEq

def ShieldedPoolRpcState.init : ShieldedPoolRpcState := ⟨0, 0, 0, {.null}, [], .null⟩

section
variable (hash256 : Bytes → Uint256) (blake3 : Bytes → Uint256) (verifier : Verifier)

/-- one marker, against the anchors before the block and what the block may still spend -/
def addMarkerToRpcState (blockSpendAnchors : Finset Uint256) (st : ShieldedPoolRpcState × Int)
    (m : Marker) : Except String (ShieldedPoolRpcState × Int) :=
  let (poolState, blockSpendValueLimit) := st
  if m.hasAnchor && decide (m.anchor ∉ blockSpendAnchors) then
    .error ("shielded spend references unknown anchor " ++ m.anchor.toText)
  else if m.hasNullifier && decide (blockSpendValueLimit < m.nValue) then
    .error "shielded pool value out of range"
  else
    let delta := m.valuePoolDelta
    if (delta > 0 ∧ poolState.nValuePool > maxMoney - delta) ∨
        (delta < 0 ∧ poolState.nValuePool < -delta) then
      .error "shielded pool value out of range"
    else
      match m.action with
      | .mint =>
        let root := nextCommitmentRoot hash256 verifier poolState.commitmentChain
          poolState.commitmentRoot poolState.nCommitments m.commitment
        .ok ({ poolState with
          nValuePool := poolState.nValuePool + delta
          commitmentRoot := root
          commitmentChain := poolState.commitmentChain ++ [m.commitment]
          nCommitments := poolState.nCommitments + 1
          anchors := insert root poolState.anchors }, blockSpendValueLimit)
      | .spend =>
        .ok ({ poolState with
          nValuePool := poolState.nValuePool + delta
          nNullifiers := poolState.nNullifiers + 1 }, blockSpendValueLimit - m.nValue)

def addTransactionToRpcState (allowScaffoldProofs : Bool) (blockSpendAnchors : Finset Uint256)
    (st : ShieldedPoolRpcState × Int) (tx : CTransaction) :
    Except String (ShieldedPoolRpcState × Int) :=
  match checkTransaction hash256 verifier tx true allowScaffoldProofs with
  | .error reason =>
    .error ("failed to parse shielded pool transaction " ++ (tx.getHash hash256 blake3).toText ++
      ": " ++ reason)
  | .ok markers => markers.foldlM (addMarkerToRpcState hash256 verifier blockSpendAnchors) st

def addBlockToRpcState (allowScaffoldProofs : Bool) (poolState : ShieldedPoolRpcState)
    (vtx : List CTransaction) : Except String ShieldedPoolRpcState :=
  (vtx.foldlM (addTransactionToRpcState hash256 blake3 verifier allowScaffoldProofs poolState.anchors)
    (poolState, poolState.nValuePool)).map Prod.fst

variable (params : Consensus.ShieldedPoolParams) (readBlockFromDisk : Uint256 → Option CBlock)

/-- one height of the loop of `GetShieldedPoolRpcState` -/
def addHeightToRpcState (poolState : ShieldedPoolRpcState) (entry : Uint256 × Nat) :
    Except String ShieldedPoolRpcState :=
  let (blockHash, height) := entry
  if !params.isEnabled height then .ok poolState
  else
    match readBlockFromDisk blockHash with
    | none => .error ("failed to read shielded pool block " ++ blockHash.toText)
    | some block =>
      addBlockToRpcState hash256 blake3 verifier params.fAllowScaffoldProofs poolState block.vtx

/-- `GetShieldedPoolRpcState` over the block hashes of the active chain, by height -/
def getShieldedPoolRpcState (chain : List Uint256) : Except String ShieldedPoolRpcState :=
  chain.zipIdx.foldlM (addHeightToRpcState hash256 blake3 verifier params readBlockFromDisk) .init

end

/-! ## one step of both -/

/-- what the RPC keeps of validation's state -/
def ShieldedValidationState.rpcView (s : ShieldedValidationState) : ShieldedPoolRpcState where
  nValuePool := s.nValuePool
  nCommitments := s.nCommitments
  nNullifiers := s.nullifiers.card
  anchors := s.anchors
  commitmentChain := s.commitmentChain
  commitmentRoot := s.commitmentRoot

section
variable {hash256 blake3 : Bytes → Uint256} {verifier : Verifier}

/-- a marker that validation takes is taken by the RPC; its nullifier was fresh, so the count is the
size of the set -/
theorem addMarkerToRpcState_of_ok {anchors : Finset Uint256} {st st' : ShieldedValidationState × Int}
    {m : Marker} (h : addShieldedMarkerToState hash256 verifier anchors st m = .ok st') :
    addMarkerToRpcState hash256 verifier anchors (st.1.rpcView, st.2) m =
      .ok (st'.1.rpcView, st'.2) := by
  obtain ⟨hanchor, hnull, -, hlimit, hrange, rfl⟩ := addShieldedMarkerToState_eq_ok hash256 verifier |>.mp h
  obtain ⟨hpool, -⟩ := (poolCheck_iff _ _).mpr hrange
  obtain ⟨s, limit⟩ := st
  rw [addMarkerToRpcState]
  dsimp only
  rw [if_neg (by simpa [Marker.hasAnchor] using hanchor),
    if_neg (by simpa [Marker.hasNullifier] using hlimit)]
  refine (if_neg hpool).trans ?_
  cases ha : m.action with
  | mint => simp only [insertMarker, ha, ShieldedValidationState.rpcView]
  | spend =>
    have hcard : (insert m.nullifier s.nullifiers).card = s.nullifiers.card + 1 :=
      Finset.card_insert_of_notMem (hnull ha)
    simp only [insertMarker, ha, ShieldedValidationState.rpcView, hcard]

theorem addTransactionToRpcState_of_ok {allow : Bool} {anchors : Finset Uint256}
    {st st' : ShieldedValidationState × Int} {tx : CTransaction}
    (h : addShieldedTransactionToState hash256 verifier true allow anchors st tx = .ok st') :
    addTransactionToRpcState hash256 blake3 verifier allow anchors (st.1.rpcView, st.2) tx =
      .ok (st'.1.rpcView, st'.2) := by
  obtain ⟨ms, hms, h⟩ := Checked.bind_eq_ok.mp h
  rw [addTransactionToRpcState, hms]
  refine Checked.foldlM_simulates (R := Eq) (fun st => (st.1.rpcView, st.2)) (List.forall₂_refl ms) ?_ h
  rintro _ _ m _ rfl hstep
  exact addMarkerToRpcState_of_ok hstep

theorem addBlockToRpcState_of_ok {allow : Bool} {s s' : ShieldedValidationState}
    {vtx : List CTransaction} (h : addShieldedBlockToState hash256 verifier true allow s vtx = .ok s') :
    addBlockToRpcState hash256 blake3 verifier allow s.rpcView vtx = .ok s'.rpcView := by
  obtain ⟨st, hst, rfl⟩ := Checked.map_eq_ok.mp h
  refine Checked.map_eq_ok.mpr ⟨(st.1.rpcView, st.2), ?_, rfl⟩
  refine Checked.foldlM_simulates (R := Eq) (fun st => (st.1.rpcView, st.2)) (List.forall₂_refl vtx) ?_
    hst
  rintro _ _ tx _ rfl hstep
  exact addTransactionToRpcState_of_ok hstep

end

/-! ## the two walks -/

section
variable {hash256 blake3 : Bytes → Uint256} {verifier : Verifier}
variable {params : Consensus.ShieldedPoolParams}

def addHeightToState (hash256 : Bytes → Uint256) (verifier : Verifier)
    (params : Consensus.ShieldedPoolParams) (s : ShieldedValidationState) (entry : CBlock × Nat) :
    Except String ShieldedValidationState :=
  if !params.isEnabled entry.2 then .ok s
  else addShieldedBlockToState hash256 verifier true params.fAllowScaffoldProofs s entry.1.vtx

theorem walk_cons (block : CBlock) (prev : List CBlock) (s : ShieldedValidationState) :
    (block :: prev).reverse.zipIdx.foldlM (addHeightToState hash256 verifier params) s =
      prev.reverse.zipIdx.foldlM (addHeightToState hash256 verifier params) s >>= fun s' =>
        addHeightToState hash256 verifier params s' (block, prev.length) := by
  rw [List.reverse_cons, List.zipIdx_append, List.foldlM_append, List.length_reverse, Nat.zero_add,
    List.zipIdx_singleton]
  congr 1
  funext s'
  exact bind_pure _

theorem walk_of_disabled {chain : List CBlock} (s : ShieldedValidationState)
    (hdis : params.isEnabled chain.length = false) :
    chain.reverse.zipIdx.foldlM (addHeightToState hash256 verifier params) s = .ok s := by
  induction chain with
  | nil => rfl
  | cons block prev ih =>
    have hdis' : params.isEnabled prev.length = false := isEnabled_mono hdis
    rw [walk_cons, ih hdis']
    show addHeightToState hash256 verifier params s (block, prev.length) = _
    rw [addHeightToState, hdis']
    rfl

/-- collecting the blocks from the tip down and replaying them is walking up by height -/
theorem loadShieldedChainState_eq_walk (chain : List CBlock) (s : ShieldedValidationState) :
    loadShieldedChainState hash256 verifier params chain s =
      chain.reverse.zipIdx.foldlM (addHeightToState hash256 verifier params) s := by
  induction chain with
  | nil => rfl
  | cons block prev ih =>
    cases hen : params.isEnabled prev.length with
    | true =>
      rw [walk_cons, ← ih, loadShieldedChainState, shieldedBlocks, if_pos hen, List.reverse_cons,
        List.foldlM_append]
      congr 1
      funext s'
      rw [addHeightToState, hen]
      exact bind_pure _
    | false =>
      -- the collection stops here, and every height below is skipped as well
      rw [walk_cons, walk_of_disabled s hen, loadShieldedChainState, shieldedBlocks, hen]
      show _ = addHeightToState hash256 verifier params s (block, prev.length)
      rw [addHeightToState, hen]
      rfl

theorem forall₂_zipIdx {α β : Type} {R : α → β → Prop} {xs : List α} {ys : List β}
    (h : List.Forall₂ R xs ys) (n : Nat) :
    List.Forall₂ (fun x y => R x.1 y.1 ∧ x.2 = y.2) (xs.zipIdx n) (ys.zipIdx n) := by
  induction h generalizing n with
  | nil => exact .nil
  | cons hx _ ih => exact .cons ⟨hx, rfl⟩ (ih (n + 1))

/-- **The RPC reports validation's state.**  For an accepted chain whose blocks are all on disk, tip
first with their hashes, the RPC succeeds and reports, field by field, the state that validation loads
at the tip. -/
theorem rpc_view_eq_consensus (hash256 blake3 : Bytes → Uint256) (verifier : Verifier)
    (params : Consensus.ShieldedPoolParams) (readBlockFromDisk : Uint256 → Option CBlock)
    (hashes : List Uint256) (chain : List CBlock)
    (hread : List.Forall₂ (fun block hash => readBlockFromDisk hash = some block) chain hashes)
    (h : ShieldedChainAccepted hash256 verifier params chain) :
    ∃ s poolState, loadShieldedChainState hash256 verifier params chain .init = .ok s ∧
      getShieldedPoolRpcState hash256 blake3 verifier params readBlockFromDisk hashes.reverse =
        .ok poolState ∧
      poolState.nValuePool = s.nValuePool ∧ poolState.nCommitments = s.nCommitments ∧
      poolState.nNullifiers = s.nullifiers.card ∧ poolState.anchors = s.anchors ∧
      poolState.commitmentChain = s.commitmentChain ∧ poolState.commitmentRoot = s.commitmentRoot := by
  have hload := loadShieldedChainState_of_accepted h
  refine ⟨_, (ledgerState hash256 verifier (chainMarkers chain)).rpcView, hload, ?_, rfl, rfl, rfl, rfl,
    rfl, rfl⟩
  rw [loadShieldedChainState_eq_walk] at hload
  refine Checked.foldlM_simulates ShieldedValidationState.rpcView
    (forall₂_zipIdx (List.forall₂_reverse_iff.mpr hread) 0) ?_ hload
  intro s s' ⟨block, height⟩ ⟨hash, height'⟩ ⟨hblock, hheight⟩ hstep
  obtain rfl : height = height' := hheight
  have hblock : readBlockFromDisk hash = some block := hblock
  rw [addHeightToRpcState]
  rw [addHeightToState] at hstep
  split_ifs at hstep ⊢ with hen
  · rw [Except.ok.inj hstep]
  · rw [hblock]
    exact addBlockToRpcState_of_ok hstep

end

def sampleDisk (hash : Uint256) : Option CBlock :=
  ((List.range sampleChain.length).find? fun i => hash == .ofNat i).bind fun i => sampleChain[i]?

theorem rpc_view_sample :
    ShieldedChainAccepted Uint256.polyHash sampleVerifier ⟨1, true⟩ sampleChain ∧
      ∃ s poolState, loadShieldedChainState Uint256.polyHash sampleVerifier ⟨1, true⟩ sampleChain
          .init = .ok s ∧
        getShieldedPoolRpcState Uint256.polyHash Uint256.polyHash sampleVerifier ⟨1, true⟩ sampleDisk
          ([.ofNat 0, .ofNat 1, .ofNat 2] : List Uint256).reverse = .ok poolState ∧
        poolState.nValuePool = s.nValuePool ∧ poolState.nCommitments = s.nCommitments ∧
        poolState.nNullifiers = s.nullifiers.card ∧ poolState.anchors = s.anchors ∧
        poolState.commitmentChain = s.commitmentChain ∧
        poolState.commitmentRoot = s.commitmentRoot := by
  have haccepted : ShieldedChainAccepted Uint256.polyHash sampleVerifier ⟨1, true⟩ sampleChain :=
    ⟨⟨⟨trivial, by decide +kernel⟩, by decide +kernel⟩, by decide +kernel⟩
  exact ⟨haccepted, rpc_view_eq_consensus _ _ _ _ _ _ _
    (.cons rfl (.cons rfl (.cons rfl .nil))) haccepted⟩

end Shielded
