import ZkCoin.Shielded.Envelope
import ZkCoin.Shielded.Ledger

/-!
# The shielded state of an accepted chain

Every chain whose blocks were accepted one on the other can be replayed, and the replay gives the
state of the chain's log: no nullifier or commitment twice, the pool in range after every marker, and
spends that name roots of earlier blocks only.

* `chainMarkers`                      — the log of a chain.
* `loadShieldedChainState_of_accepted` — the replay of an accepted chain.
* `ChainInvariant`                    — what the state of a chain satisfies.
-/

open Bytes

namespace Shielded

/-! ## the log of a chain -/

def chainMarkers : List CBlock → List Marker
  | [] => []
  | block :: prev => chainMarkers prev ++ blockMarkers block.vtx

theorem chainMarkers_mono {chain chain' : List CBlock} (h : chain' <:+ chain) :
    chainMarkers chain' <+: chainMarkers chain := by
  obtain ⟨top, rfl⟩ := h
  induction top with
  | nil => exact List.prefix_rfl
  | cons block top ih => exact ih.trans (List.prefix_append _ _)

/-- the state after a list of markers that the node takes one by one, whatever the spend limit -/
def replayMarkers (hash256 : Bytes → Uint256) (verifier : Verifier) (log : List Marker) :
    ShieldedValidationState :=
  log.foldl (fun shielded m => (insertMarker hash256 verifier (shielded, 0) m).1) .init

section
variable {hash256 : Bytes → Uint256} {verifier : Verifier} {params : Consensus.ShieldedPoolParams}

theorem replayMarkers_eq (log : List Marker) :
    replayMarkers hash256 verifier log = ledgerState hash256 verifier log := by
  induction log using List.reverseRecOn with
  | nil => exact (ledgerState_nil hash256 verifier).symm
  | append_singleton log m ih =>
    have hstep := insertMarker_ledgerState hash256 verifier log m 0
    rw [replayMarkers, List.foldl_append, List.foldl_cons, List.foldl_nil]
    change (insertMarker hash256 verifier (replayMarkers hash256 verifier log, 0) m).1 = _
    rw [ih]
    exact hstep

/-! ## replay -/

variable {chain : List CBlock}

theorem ShieldedChainAccepted.suffix {chain' : List CBlock}
    (h : ShieldedChainAccepted hash256 verifier params chain) (hsub : chain' <:+ chain) :
    ShieldedChainAccepted hash256 verifier params chain' := by
  obtain ⟨top, rfl⟩ := hsub
  induction top with
  | nil => exact h
  | cons block top ih => exact ih h.1

theorem isEnabled_mono {h : Nat} (hdis : params.isEnabled (h + 1 : Nat) = false) :
    params.isEnabled h = false := by
  simp only [Consensus.ShieldedPoolParams.isEnabled, Bool.and_eq_false_iff, decide_eq_false_iff_not]
    at hdis ⊢
  omega

variable {block : CBlock} {prev : List CBlock}

theorem checkShieldedBlockState_ok {nHeight : Int}
    (h : checkShieldedBlockState hash256 verifier params block prev nHeight = .ok ()) :
    ∃ shielded shielded',
      (params.isEnabled nHeight = true →
        loadShieldedChainState hash256 verifier params prev .init = .ok shielded) ∧
      addShieldedBlockToState hash256 verifier (params.isEnabled nHeight)
        params.fAllowScaffoldProofs shielded block.vtx = .ok shielded' := by
  unfold checkShieldedBlockState at h
  cases hen : params.isEnabled nHeight with
  | true =>
    simp only [hen, if_true] at h
    obtain ⟨shielded, hload, h⟩ := Checked.bind_eq_ok.mp h
    obtain ⟨shielded', hadd, -⟩ := Checked.bind_eq_ok.mp h
    exact ⟨shielded, shielded', fun _ => hload, hadd⟩
  | false =>
    simp only [hen, Bool.false_eq_true, if_false] at h
    obtain ⟨shielded, -, h⟩ := Checked.bind_eq_ok.mp h
    obtain ⟨shielded', hadd, -⟩ := Checked.bind_eq_ok.mp h
    exact ⟨shielded, shielded', nofun, hadd⟩

theorem chainMarkers_eq_nil_of_inactive (h : ShieldedChainAccepted hash256 verifier params chain)
    (hdis : params.isEnabled chain.length = false) : chainMarkers chain = [] := by
  induction chain with
  | nil => rfl
  | cons block prev ih =>
    have hdis' : params.isEnabled prev.length = false := isEnabled_mono hdis
    obtain ⟨hprev, hblock⟩ := h
    obtain ⟨shielded, shielded', -, hadd⟩ := checkShieldedBlockState_ok hblock
    rw [hdis'] at hadd
    rw [chainMarkers, ih hprev hdis', blockMarkers_eq_nil_of_inactive hash256 verifier hadd]
    rfl

/-- **Replay.**  An accepted chain loads, and its state is the state of its log. -/
theorem loadShieldedChainState_of_accepted (h : ShieldedChainAccepted hash256 verifier params chain) :
    loadShieldedChainState hash256 verifier params chain .init =
      .ok (ledgerState hash256 verifier (chainMarkers chain)) := by
  induction chain with
  | nil =>
    rw [chainMarkers, ledgerState_nil]
    rfl
  | cons block prev ih =>
    obtain ⟨hprev, hblock⟩ := h
    obtain ⟨shielded, shielded', hshielded, hadd⟩ := checkShieldedBlockState_ok hblock
    have hload := ih hprev
    cases hen : params.isEnabled prev.length with
    | true =>
      rw [hen] at hadd
      obtain rfl : ledgerState hash256 verifier (chainMarkers prev) = shielded :=
        Except.ok.inj (hload.symm.trans (hshielded hen))
      obtain ⟨-, rfl⟩ := (addShieldedBlockToState_ok_iff ..).mp hadd
      unfold loadShieldedChainState at hload ⊢
      rw [shieldedBlocks, if_pos hen, List.reverse_cons, List.foldlM_append, hload]
      refine Checked.bind_eq_ok.mpr ⟨_, rfl, ?_⟩
      rw [List.foldlM_cons, hadd]
      rfl
    | false =>
      -- the walk stops at the tip, and no block below it carries a marker either
      rw [hen] at hadd
      rw [chainMarkers, chainMarkers_eq_nil_of_inactive hprev hen,
        blockMarkers_eq_nil_of_inactive hash256 verifier hadd, List.append_nil, ledgerState_nil]
      unfold loadShieldedChainState
      rw [shieldedBlocks, hen]
      rfl

theorem blockAllowed_of_accepted (h : ShieldedChainAccepted hash256 verifier params chain)
    (hmem : block :: prev <:+ chain) (hne : blockMarkers block.vtx ≠ []) :
    BlockAllowed hash256 verifier params.fAllowScaffoldProofs (chainMarkers prev) [] block.vtx := by
  obtain ⟨hprev, hblock⟩ := h.suffix hmem
  obtain ⟨shielded, shielded', hshielded, hadd⟩ := checkShieldedBlockState_ok hblock
  cases hen : params.isEnabled prev.length with
  | true =>
    rw [hen] at hadd
    obtain rfl : ledgerState hash256 verifier (chainMarkers prev) = shielded :=
      Except.ok.inj ((loadShieldedChainState_of_accepted hprev).symm.trans (hshielded hen))
    exact ((addShieldedBlockToState_ok_iff ..).mp hadd).1
  | false =>
    rw [hen] at hadd
    exact absurd (blockMarkers_eq_nil_of_inactive hash256 verifier hadd) hne

/-! ## what every log of an accepted chain satisfies -/

/-- the part of the ledger rule that looks at the whole log only -/
structure LogRule (log : List Marker) (m : Marker) : Prop where
  nullifier : m.action = .spend → m.nullifier ∉ spendNullifiers log
  commitment : m.action = .mint → m.commitment ∉ mintCommitments log
  pool_nonneg : 0 ≤ poolValue (log ++ [m])
  pool_le : poolValue (log ++ [m]) ≤ maxMoney

theorem MarkerAllowed.logRule {before pre : List Marker} {m : Marker}
    (h : MarkerAllowed hash256 verifier before pre m) : LogRule (before ++ pre) m :=
  ⟨h.nullifier, h.commitment, h.pool_nonneg, h.pool_le⟩

/-- nothing used or created twice, and a pool in range -/
structure LogInvariant (log : List Marker) : Prop where
  nullifiers_nodup : (spendNullifiers log).Nodup
  commitments_nodup : (mintCommitments log).Nodup
  pool_nonneg : 0 ≤ poolValue log
  pool_le : poolValue log ≤ maxMoney

theorem logInvariant_nil : LogInvariant [] :=
  ⟨List.nodup_nil, List.nodup_nil, le_rfl, by decide⟩

theorem LogInvariant.append {log : List Marker} {m : Marker} (h : LogInvariant log)
    (hm : LogRule log m) : LogInvariant (log ++ [m]) := by
  refine ⟨?_, ?_, hm.pool_nonneg, hm.pool_le⟩
  · rw [spendNullifiers_append]
    cases ha : m.action with
    | mint => simpa [spendNullifiers, Marker.hasNullifier, ha] using h.nullifiers_nodup
    | spend =>
      rw [show spendNullifiers [m] = [m.nullifier] by
        simp [spendNullifiers, Marker.hasNullifier, ha]]
      exact h.nullifiers_nodup.append (List.nodup_singleton _)
        (List.disjoint_singleton.mpr (hm.nullifier ha))
  · rw [mintCommitments_append]
    cases ha : m.action with
    | mint =>
      rw [show mintCommitments [m] = [m.commitment] by
        simp [mintCommitments, Marker.hasCommitment, ha]]
      exact h.commitments_nodup.append (List.nodup_singleton _)
        (List.disjoint_singleton.mpr (hm.commitment ha))
    | spend => simpa [mintCommitments, Marker.hasCommitment, ha] using h.commitments_nodup

theorem logRule_run_of_accepted (h : ShieldedChainAccepted hash256 verifier params chain) :
    Checked.AllowedRun LogRule [] (chainMarkers chain) := by
  induction chain with
  | nil => trivial
  | cons block prev ih =>
    rw [chainMarkers, Checked.allowedRun_append]
    refine ⟨ih h.1, ?_⟩
    rcases eq_or_ne (blockMarkers block.vtx) [] with hnil | hne
    · rw [hnil]
      trivial
    · have hblock := blockAllowed_of_accepted h List.suffix_rfl hne
      have hrun : Checked.AllowedRun LogRule (chainMarkers prev ++ []) (blockMarkers block.vtx) :=
        hblock.allowed.shift fun _ _ hm => hm.logRule
      rwa [List.append_nil] at hrun

theorem logInvariant_of_accepted (h : ShieldedChainAccepted hash256 verifier params chain)
    {pre : List Marker} (hpre : pre <+: chainMarkers chain) : LogInvariant pre :=
  (logRule_run_of_accepted h).invariant hpre logInvariant_nil fun _ _ => LogInvariant.append

theorem mem_logAnchors_iff {log : List Marker} {a : Uint256} :
    a ∈ logAnchors hash256 verifier log ↔ a = .null ∨ ∃ pre m, pre ++ [m] <+: log ∧
      m.action = .mint ∧ a = (replayMarkers hash256 verifier (pre ++ [m])).commitmentRoot := by
  simp only [replayMarkers_eq]
  induction log using List.reverseRecOn with
  | nil => simp [logAnchors, noteRoots, mintCommitments]
  | append_singleton log m ih =>
    have hanchors : a ∈ logAnchors hash256 verifier (log ++ [m]) ↔
        (m.action = .mint ∧ a = (ledgerState hash256 verifier (log ++ [m])).commitmentRoot) ∨
          a ∈ logAnchors hash256 verifier log := by
      cases ha : m.action with
      | mint =>
        have hstate := ledgerState_append_mint hash256 verifier ha log
        rw [show logAnchors hash256 verifier (log ++ [m]) =
          (ledgerState hash256 verifier (log ++ [m])).anchors from rfl, hstate]
        simp
      | spend =>
        have hstate := ledgerState_append_spend hash256 verifier ha log
        rw [show logAnchors hash256 verifier (log ++ [m]) =
          (ledgerState hash256 verifier (log ++ [m])).anchors from rfl, hstate]
        simp [ledgerState]
    rw [hanchors, ih]
    constructor
    · rintro (⟨hm, rfl⟩ | rfl | ⟨pre, x, hpre, hx, rfl⟩)
      · exact .inr ⟨log, m, List.prefix_rfl, hm, rfl⟩
      · exact .inl rfl
      · exact .inr ⟨pre, x, hpre.trans (List.prefix_append _ _), hx, rfl⟩
    · rintro (rfl | ⟨pre, x, hpre, hx, rfl⟩)
      · exact .inr (.inl rfl)
      · rcases List.prefix_concat_iff.mp hpre with heq | hpre
        · obtain ⟨rfl, hxm⟩ := List.append_inj' heq rfl
          obtain rfl := List.singleton_inj.mp hxm
          exact .inl ⟨hx, rfl⟩
        · exact .inr (.inr ⟨pre, x, hpre, hx, rfl⟩)

/-! ## the invariant of a chain -/

/-- what the replayed state `s` of a chain satisfies -/
structure ChainInvariant (hash256 : Bytes → Uint256) (verifier : Verifier) (chain : List CBlock)
    (s : ShieldedValidationState) : Prop where
  /-- no nullifier is used twice, and the state holds exactly the nullifiers of the chain -/
  nullifiers_nodup : (spendNullifiers (chainMarkers chain)).Nodup
  nullifiers_eq : s.nullifiers = (spendNullifiers (chainMarkers chain)).toFinset
  /-- no commitment is made twice, and the state holds exactly the commitments of the chain -/
  commitments_nodup : (mintCommitments (chainMarkers chain)).Nodup
  commitments_eq : s.commitments = (mintCommitments (chainMarkers chain)).toFinset
  commitmentChain_eq : s.commitmentChain = mintCommitments (chainMarkers chain)
  /-- the pool is what was minted and not spent, and stays in range after every marker -/
  pool_eq : s.nValuePool = mintedValue (chainMarkers chain) - spentValue (chainMarkers chain)
  pool_range : ∀ pre, pre <+: chainMarkers chain →
    0 ≤ (replayMarkers hash256 verifier pre).nValuePool ∧
      (replayMarkers hash256 verifier pre).nValuePool ≤ maxMoney
  nCommitments_eq : s.nCommitments = s.commitmentChain.length
  commitmentChain_length : s.commitmentChain.length = s.commitments.card
  /-- the anchors are the null root and the roots after each mint -/
  mem_anchors : ∀ a, a ∈ s.anchors ↔ a = .null ∨
    ∃ pre m, pre ++ [m] <+: chainMarkers chain ∧ m.action = .mint ∧
      a = (replayMarkers hash256 verifier (pre ++ [m])).commitmentRoot
  /-- a spend names the root after a mint of a strictly earlier block -/
  spend_anchor : ∀ block prev, block :: prev <:+ chain → ∀ spend ∈ blockMarkers block.vtx,
    spend.action = .spend → spend.anchor ≠ .null ∧
      ∃ pre m, pre ++ [m] <+: chainMarkers prev ∧ m.action = .mint ∧
        spend.anchor = (replayMarkers hash256 verifier (pre ++ [m])).commitmentRoot
  /-- a block spends at most what the pool held before it -/
  block_spent : ∀ block prev, block :: prev <:+ chain →
    spentValue (blockMarkers block.vtx) ≤ (replayMarkers hash256 verifier (chainMarkers prev)).nValuePool

theorem spend_anchor_of_accepted (h : ShieldedChainAccepted hash256 verifier params chain)
    (hmem : block :: prev <:+ chain) {spend : Marker} (hspend : spend ∈ blockMarkers block.vtx)
    (ha : spend.action = .spend) :
    spend.anchor ≠ .null ∧ ∃ pre m, pre ++ [m] <+: chainMarkers prev ∧ m.action = .mint ∧
      spend.anchor = (replayMarkers hash256 verifier (pre ++ [m])).commitmentRoot := by
  have hblock := blockAllowed_of_accepted h hmem (List.ne_nil_of_mem hspend)
  -- the context-free check rules out the null anchor
  have hne : spend.anchor ≠ .null := by
    obtain ⟨tx, htx, hm⟩ := List.mem_flatMap.mp hspend
    obtain ⟨ms, hms⟩ := hblock.checked tx htx
    obtain ⟨rfl, -, haccepted⟩ := checkTransaction_ok hms
    exact (haccepted spend hm).2.2.anchor_ne ha
  obtain ⟨pre, post, hsplit⟩ := List.append_of_mem hspend
  have hallowed := hblock.allowed
  rw [hsplit] at hallowed
  refine ⟨hne, ?_⟩
  rcases mem_logAnchors_iff.mp (hallowed.split.anchor ha) with hnull | hroot
  · exact absurd hnull hne
  · exact hroot

/-- the limit check of the last spend bounds all spends of the block -/
theorem spentValue_le_of_allowedRun {before pre ms : List Marker}
    (h : Checked.AllowedRun (MarkerAllowed hash256 verifier before) pre ms)
    (hpre : spentValue pre ≤ poolValue before) : spentValue (pre ++ ms) ≤ poolValue before := by
  refine h.invariant (P := fun log => spentValue log ≤ poolValue before) List.prefix_rfl hpre ?_
  intro log m hlog hm
  cases ha : m.action with
  | mint => simpa [spentValue, Marker.hasNullifier, ha] using hlog
  | spend => exact hm.limit ha

theorem block_spent_of_accepted (h : ShieldedChainAccepted hash256 verifier params chain)
    (hmem : block :: prev <:+ chain) :
    spentValue (blockMarkers block.vtx) ≤
      (replayMarkers hash256 verifier (chainMarkers prev)).nValuePool := by
  have hpool : 0 ≤ poolValue (chainMarkers prev) :=
    (logInvariant_of_accepted h (chainMarkers_mono ((List.suffix_cons _ _).trans hmem))).pool_nonneg
  rw [replayMarkers_eq]
  rcases eq_or_ne (blockMarkers block.vtx) [] with hnil | hne
  · rw [hnil]
    exact hpool
  · exact spentValue_le_of_allowedRun (blockAllowed_of_accepted h hmem hne).allowed hpool

/-- **The shielded state of an accepted chain.**  A chain whose blocks were accepted one on the other
loads, and the loaded state satisfies the chain invariant. -/
theorem accepted_chain_replays (hash256 : Bytes → Uint256) (verifier : Verifier)
    (params : Consensus.ShieldedPoolParams) (chain : List CBlock)
    (h : ShieldedChainAccepted hash256 verifier params chain) :
    ∃ s, loadShieldedChainState hash256 verifier params chain .init = .ok s ∧
      ChainInvariant hash256 verifier chain s := by
  have hlog := logInvariant_of_accepted h List.prefix_rfl
  refine ⟨_, loadShieldedChainState_of_accepted h, ?_⟩
  exact
    { nullifiers_nodup := hlog.nullifiers_nodup
      nullifiers_eq := rfl
      commitments_nodup := hlog.commitments_nodup
      commitments_eq := rfl
      commitmentChain_eq := rfl
      pool_eq := rfl
      pool_range := by
        intro pre hpre
        have hinv := logInvariant_of_accepted h hpre
        rw [replayMarkers_eq]
        exact ⟨hinv.pool_nonneg, hinv.pool_le⟩
      nCommitments_eq := rfl
      commitmentChain_length := (List.toFinset_card_of_nodup hlog.commitments_nodup).symm
      mem_anchors := fun _ => mem_logAnchors_iff
      spend_anchor := fun _ _ hmem _ hspend ha => spend_anchor_of_accepted h hmem hspend ha
      block_spent := fun _ _ hmem => block_spent_of_accepted h hmem }

theorem accepted_chain_replays_sample :
    ShieldedChainAccepted Uint256.polyHash sampleVerifier ⟨1, true⟩ sampleChain ∧
      (chainMarkers sampleChain).length = 2 ∧
      ∃ s, loadShieldedChainState Uint256.polyHash sampleVerifier ⟨1, true⟩ sampleChain .init =
          .ok s ∧ ChainInvariant Uint256.polyHash sampleVerifier sampleChain s := by
  have haccepted : ShieldedChainAccepted Uint256.polyHash sampleVerifier ⟨1, true⟩ sampleChain :=
    ⟨⟨⟨trivial, by decide +kernel⟩, by decide +kernel⟩, by decide +kernel⟩
  exact ⟨haccepted, by decide +kernel, accepted_chain_replays _ _ _ _ haccepted⟩

end

end Shielded
