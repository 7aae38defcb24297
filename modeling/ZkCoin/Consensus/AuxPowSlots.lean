import Mathlib.Data.Int.ConditionallyCompleteOrder
import Mathlib.Data.Int.ModEq
import Mathlib.Data.Int.Interval
import Mathlib.RingTheory.Coprime.Lemmas
import ZkCoin.Consensus.AuxPow

/-!
# Slots and commitments of merged miners

A miner of several chains puts each chain at the slot that its id and a nonce determine, and names the
root of the tree of chains in the coinbase of the parent.

* `getExpectedIndex_eq`     — the slot as one affine expression modulo the size of the tree.
* `expectedIndex_classical` — it is the slot of the original formula, and ids collide when congruent.
* `CommitsTo`               — the script of a parent coinbase that names a tree.
* `check_of_commitment`     — a payload built this way is accepted.
-/

open Bytes Serialize

namespace Consensus

/-! ## slots -/

/-- the slot as it was first defined, in wrapping 32-bit arithmetic with one reduction at the end -/
def classicalIndex (nNonce nChainId : UInt32) (h : Nat) : UInt32 :=
  let rand := nNonce * 1103515245 + 12345
  let rand := rand + nChainId
  let rand := rand * 1103515245 + 12345
  rand % UInt32.ofNat (2 ^ h)

/-- both steps of the generator, without reductions -/
def slotSum (nNonce nChainId : Int) : Int :=
  (nNonce * 1103515245 + 12345 + nChainId) * 1103515245 + 12345

theorem modEq_of_emod_pow {h k : Nat} (hh : h ≤ k) {x y : Int} (hxy : x ≡ y [ZMOD 2 ^ h]) :
    x % 2 ^ k ≡ y [ZMOD 2 ^ h] := by
  refine Int.ModEq.trans ?_ hxy
  exact Int.emod_emod_of_dvd x (pow_dvd_pow 2 hh)

theorem getExpectedIndex_eq (nNonce : Nat) (nChainId : Int) {h : Nat} (hh : h ≤ 64) :
    getExpectedIndex nNonce nChainId h = slotSum nNonce nChainId % 2 ^ h := by
  have hfirst : ((nNonce : Int) * 1103515245 + 12345) % 2 ^ 64 % 2 ^ h ≡
      nNonce * 1103515245 + 12345 [ZMOD 2 ^ h] :=
    modEq_of_emod_pow (Nat.le_refl h) (modEq_of_emod_pow hh (Int.ModEq.refl _))
  have hsecond := modEq_of_emod_pow hh (hfirst.add_right nChainId)
  have hlast := modEq_of_emod_pow hh ((hsecond.mul_right 1103515245).add_right 12345)
  exact hlast

theorem classicalIndex_toNat (nNonce nChainId : UInt32) {h : Nat} (hh : h ≤ 30) :
    ((classicalIndex nNonce nChainId h).toNat : Int) = slotSum nNonce.toNat nChainId.toNat % 2 ^ h := by
  have hle : h ≤ 32 := by omega
  have hsize : 2 ^ h % 2 ^ 32 = 2 ^ h :=
    Nat.mod_eq_of_lt (Nat.pow_lt_pow_right (by decide) (by omega))
  have hfirst := (modEq_of_emod_pow hle (Int.ModEq.refl (nNonce.toNat * 1103515245 : Int))).add_right 12345
  have hsum := (modEq_of_emod_pow hle hfirst).add_right (nChainId.toNat : Int)
  have hscaled := modEq_of_emod_pow hle ((modEq_of_emod_pow hle hsum).mul_right 1103515245)
  have hlast := modEq_of_emod_pow hle (hscaled.add_right 12345)
  simp only [classicalIndex, UInt32.toNat_mod, UInt32.toNat_add, UInt32.toNat_mul, UInt32.toNat_ofNat',
    hsize, Int.natCast_emod, Int.natCast_add, Int.natCast_mul, Int.natCast_pow]
  exact hlast

/-- the multiplier is odd, so equal slots come from congruent ids -/
theorem getExpectedIndex_inj_iff (nNonce : Nat) (c c' : Int) {h : Nat} (hh : h ≤ 64) :
    getExpectedIndex nNonce c h = getExpectedIndex nNonce c' h ↔ c ≡ c' [ZMOD 2 ^ h] := by
  rw [getExpectedIndex_eq nNonce c hh, getExpectedIndex_eq nNonce c' hh]
  have hodd : IsCoprime ((2 : Int) ^ h) 1103515245 :=
    IsCoprime.pow_left (Int.isCoprime_iff_gcd_eq_one.mpr (by decide))
  have hdiff : slotSum nNonce c' - slotSum nNonce c = 1103515245 * (c' - c) := by
    unfold slotSum
    ring
  constructor
  · intro heq
    have hdvd : (2 : Int) ^ h ∣ slotSum nNonce c' - slotSum nNonce c := Int.ModEq.dvd heq
    rw [hdiff] at hdvd
    exact Int.modEq_iff_dvd.mpr (hodd.dvd_of_dvd_mul_left hdvd)
  · intro heq
    apply Int.modEq_iff_dvd.mpr
    rw [hdiff]
    exact Dvd.dvd.mul_left heq.dvd _

theorem getExpectedIndex_range (nNonce : Nat) (c : Int) (h : Nat) :
    getExpectedIndex nNonce c h ∈ Set.Ico (0 : Int) (2 ^ h) :=
  ⟨getExpectedIndex_nonneg nNonce c h, Int.emod_lt_of_pos _ (by positivity)⟩

/-- **Slots.**  The slot is the one of the original formula; it lies in the tree; the ids below the
size of the tree fill it, and two chains meet exactly when their ids are congruent. -/
theorem expectedIndex_classical (nNonce : UInt32) (h : Nat) (hh : h ≤ 30) :
    (∀ nChainId : Nat, getExpectedIndex nNonce.toNat nChainId h =
      (classicalIndex nNonce (UInt32.ofNat nChainId) h).toNat) ∧
    (∀ nChainId : Nat, getExpectedIndex nNonce.toNat nChainId h ∈ Set.Ico (0 : Int) (2 ^ h)) ∧
    Set.BijOn (fun nChainId : Int => getExpectedIndex nNonce.toNat nChainId h)
      (Set.Ico 0 (2 ^ h)) (Set.Ico 0 (2 ^ h)) ∧
    ∀ c c' : Nat, getExpectedIndex nNonce.toNat c h = getExpectedIndex nNonce.toNat c' h ↔
      c ≡ c' [MOD 2 ^ h] := by
  have hle : h ≤ 64 := by omega
  refine ⟨?_, fun c => getExpectedIndex_range _ _ h, ?_, ?_⟩
  · intro nChainId
    rw [getExpectedIndex_eq _ _ hle, classicalIndex_toNat _ _ hh]
    -- the id may be reduced to 32 bits, a multiple of the size of the tree
    have hid : ((UInt32.ofNat nChainId).toNat : Int) ≡ nChainId [ZMOD 2 ^ h] := by
      rw [UInt32.toNat_ofNat', Int.natCast_emod]
      exact_mod_cast modEq_of_emod_pow (show h ≤ 32 by omega) (Int.ModEq.refl (nChainId : Int))
    exact (((hid.symm.add_left _).mul_right _).add_right _)
  · refine ((Set.finite_Ico _ _).injOn_iff_bijOn_of_mapsTo fun c _ =>
      getExpectedIndex_range _ _ h).mp ?_
    intro c hc c' hc' heq
    have hmod := (getExpectedIndex_inj_iff _ c c' hle).mp heq
    rwa [Int.ModEq, Int.emod_eq_of_lt hc.1 hc.2, Int.emod_eq_of_lt hc'.1 hc'.2] at hmod
  · intro c c'
    rw [getExpectedIndex_inj_iff _ _ _ hle, ← Int.natCast_modEq_iff]
    push_cast
    rfl

theorem expectedIndex_classical_tree : 3 ≤ 30 ∧
    (getExpectedIndex 7 8 3 = getExpectedIndex 7 16 3 ↔ 8 ≡ 16 [MOD 2 ^ 3]) :=
  ⟨by decide, (expectedIndex_classical 7 3 (by decide)).2.2.2 8 16⟩

/-! ## commitments -/

/-- what a miner writes after the magic: the root of the tree of chains, its size and its nonce -/
def chainCommitment (root : Uint256) (height : Nat) (nNonce : UInt32) : Bytes :=
  mergedMiningHeader ++ root.data.reverse ++ leBytes 4 (2 ^ height) ++ u32Bytes nNonce

/-- `BuildAuxPowCommitment` -/
def buildAuxPowCommitment (hashAuxBlock : Uint256) : Bytes :=
  mergedMiningHeader ++ hashAuxBlock.data.reverse ++ leBytes 4 1 ++ leBytes 4 0

/-- a script of a parent coinbase that names the tree: the commitment follows `before`, the magic stands
nowhere else and the reversed root nowhere earlier -/
structure CommitsTo (root : Uint256) (height : Nat) (nNonce : UInt32) (script before : Bytes) : Prop where
  size : 2 ≤ script.length ∧ script.length ≤ 100
  shows : before ++ chainCommitment root height nNonce <+: script
  magic_once : ∀ i, mergedMiningHeader <+: script.drop i → i = before.length
  root_first : ∀ i, root.data.reverse <+: script.drop i → before.length + 4 ≤ i

/-- the payload of a miner for the chain at `slot` of the tree: the branches are those of the two trees -/
structure MinedAt (hash256 blake3 : Bytes → Uint256) (height : Nat) (nNonce : UInt32)
    (slots : Nat → Uint256) (slot : Nat) (a : CAuxPow) : Prop where
  coinbase : a.coinbaseTx.isCoinBase = true
  commits : ∃ before, ∀ txin ∈ a.coinbaseTx.vin,
    CommitsTo (Merkle.fullRoot (merkleNode hash256) height slots) height nNonce txin.scriptSig before
  leftmost : ∃ txids, a.parentBlock.hashMerkleRoot =
      (Merkle.computeMerkleRoot (merkleNode hash256) .null
        (a.coinbaseTx.getHash hash256 blake3 :: txids)).1 ∧
    a.vMerkleBranch = Merkle.leftBranch (merkleNode hash256)
      (a.coinbaseTx.getHash hash256 blake3 :: txids)
  branch_le : a.vMerkleBranch.length ≤ maxAuxpowMerkleBranchLength
  index_eq : a.nIndex = 0
  chainBranch_eq : a.vChainMerkleBranch = Merkle.fullBranch (merkleNode hash256) height slots slot
  chainIndex_eq : a.nChainIndex = slot

section
variable {root : Uint256} {height : Nat} {nNonce : UInt32} {script before : Bytes}

theorem CommitsTo.exists_after (h : CommitsTo root height nNonce script before) :
    ∃ after, script = before ++ (mergedMiningHeader ++ (root.data.reverse ++
      (leBytes 4 (2 ^ height) ++ (u32Bytes nNonce ++ after)))) := by
  obtain ⟨after, hafter⟩ := h.shows
  refine ⟨after, ?_⟩
  rw [← hafter, chainCommitment]
  simp only [List.append_assoc]

theorem CommitsTo.rootPlace_eq (h : CommitsTo root height nNonce script before) :
    rootPlace script root.data.reverse = some (before.length + 4) := by
  obtain ⟨after, hscript⟩ := h.exists_after
  have hmagic : search mergedMiningHeader script = some before.length := by
    refine search_of_first ?_ ?_ ?_
    · rw [hscript, List.length_append]
      omega
    · rw [hscript, List.drop_left]
      exact List.prefix_append _ _
    · intro j hj hstart
      exact absurd (h.magic_once j hstart) (by omega)
  have hroot : search root.data.reverse script = some (before.length + 4) := by
    refine search_of_first ?_ ?_ ?_
    · rw [hscript, List.length_append, List.length_append]
      show _ ≤ before.length + (4 + _)
      omega
    · rw [hscript, drop_append_of_le (by omega), Nat.add_sub_cancel_left]
      exact List.prefix_append _ _
    · intro j hj hstart
      exact absurd (h.root_first j hstart) (by omega)
  have hagain : search mergedMiningHeader (script.drop (before.length + 1)) = none := by
    refine search_eq_none fun i hstart => ?_
    rw [List.drop_drop] at hstart
    have := h.magic_once _ hstart
    omega
  rw [rootPlace, hroot, hmagic]
  dsimp only
  rw [hagain, if_neg (by simp), if_neg (by simp [mergedMiningHeader])]

theorem CommitsTo.checkChainTree_eq (h : CommitsTo root height nNonce script before)
    (hheight : height ≤ 30) (nChainId nChainIndex : Int) :
    checkChainTree script (before.length + 4 + 32) nChainId height nChainIndex =
      decide (nChainIndex = getExpectedIndex nNonce.toNat nChainId height) := by
  obtain ⟨after, hscript⟩ := h.exists_after
  have hsize : 2 ^ height < 256 ^ 4 := lt_of_lt_of_le (Nat.pow_lt_pow_right (by decide) (by omega))
    (show 2 ^ 31 ≤ 256 ^ 4 by decide)
  have hmagicLength : mergedMiningHeader.length = 4 := rfl
  have htree : (u32At script (before.length + 4 + 32)).toNat = 2 ^ height := by
    have hfield : leBytes 4 (2 ^ height) = u32Bytes (UInt32.ofNat (2 ^ height)) := by
      rw [u32Bytes, UInt32.toNat_ofNat', Nat.mod_eq_of_lt (by omega)]
    rw [hscript, u32At_append_of_le (by omega), u32At_append_of_le (by omega),
      u32At_append_of_le (by simp; omega), hfield,
      show before.length + 4 + 32 - before.length - mergedMiningHeader.length -
        root.data.reverse.length = 0 by simp; omega, u32At_append_self, UInt32.toNat_ofNat',
      Nat.mod_eq_of_lt (by omega)]
  have hnonce : u32At script (before.length + 4 + 32 + 4) = nNonce := by
    rw [hscript, u32At_append_of_le (by omega), u32At_append_of_le (by omega),
      u32At_append_of_le (by simp; omega), u32At_append_of_le (by simp; omega),
      show before.length + 4 + 32 + 4 - before.length - mergedMiningHeader.length -
        root.data.reverse.length - (leBytes 4 (2 ^ height)).length = 0 by simp; omega,
      u32At_append_self]
  have hlength : before.length + 4 + 32 + 8 ≤ script.length := by
    rw [hscript]
    simp only [List.length_append, List.length_reverse, Uint256.data_length, leBytes_length,
      u32Bytes_length]
    omega
  rw [checkChainTree, if_neg (by omega), htree, if_neg (by simp), hnonce]

end

theorem check_eq {hash256 : Bytes → Uint256} {params : AuxPowParams} {a : CAuxPow} {txin : CTxIn}
    {nChainId : Int} (blake3 : Bytes → Uint256) (child : Uint256)
    (hchain : a.parentBlock.getChainId ≠ nChainId ∨ params.fStrictChainId = false)
    (hbranches : a.vMerkleBranch.length ≤ maxAuxpowMerkleBranchLength ∧
      a.vChainMerkleBranch.length ≤ maxAuxpowMerkleBranchLength)
    (hvin : a.coinbaseTx.vin = [txin]) (hcoinbase : txin.prevout.isNull = true)
    (hsize : 2 ≤ txin.scriptSig.length ∧ txin.scriptSig.length ≤ 100) (hindex : a.nIndex = 0)
    (hroot : Merkle.branchRoot (merkleNode hash256) (a.coinbaseTx.getHash hash256 blake3) a.vMerkleBranch 0 =
      a.parentBlock.hashMerkleRoot) :
    CAuxPow.check hash256 blake3 params a child nChainId =
      (decide (a.hashBlock.isNull = true ∨ a.hashBlock = a.parentBlock.getHash hash256) &&
        match rootPlace txin.scriptSig (shownRoot hash256 a child) with
        | none => false
        | some pc => checkChainTree txin.scriptSig (pc + 32) nChainId a.vChainMerkleBranch.length
            a.nChainIndex) := by
  have hstrict : ¬ (params.fStrictChainId && decide (a.parentBlock.getChainId = nChainId)) = true := by
    rcases hchain with hne | hoff
    · simp [hne]
    · simp [hoff]
  have hown : (!a.hashBlock.isNull && decide (a.hashBlock ≠ a.parentBlock.getHash hash256)) =
      !decide (a.hashBlock.isNull = true ∨ a.hashBlock = a.parentBlock.getHash hash256) := by
    rw [Bool.decide_or, Bool.not_or, Bool.decide_eq_true, decide_not]
  have hcb : a.coinbaseTx.isCoinBase = true := by
    rw [CTransaction.isCoinBase, hvin]
    exact hcoinbase
  have hbranch : checkMerkleBranch hash256 (a.coinbaseTx.getHash hash256 blake3) a.vMerkleBranch
      a.nIndex = a.parentBlock.hashMerkleRoot := by
    rw [hindex, checkMerkleBranch, if_neg (by decide), hroot]
  rw [CAuxPow.check, if_neg hstrict, hown]
  cases decide (a.hashBlock.isNull = true ∨ a.hashBlock = a.parentBlock.getHash hash256) with
  | false => rfl
  | true =>
    rw [Bool.true_and, if_neg (by decide), if_neg (by omega), hcb, if_neg (by decide), hvin]
    dsimp only
    rw [if_neg (by unfold minCoinbaseScriptSigSize maxCoinbaseScriptSigSize; omega),
      if_neg (by rw [hindex]; decide), if_neg (by rw [hbranch]; exact fun hne => hne rfl),
      List.length_reverse, Uint256.data_length]
    rfl

/-- **Completeness.**  A payload that is built for the slot of a chain is accepted for the block hash at
that slot, as long as its own block hash is empty or that of its parent header. -/
theorem check_of_commitment (hash256 blake3 : Bytes → Uint256) (params : AuxPowParams) (height : Nat)
    (hheight : height ≤ 30) (nNonce : UInt32) (slots : Nat → Uint256) (nChainId : Int) (slot : Nat)
    (hslot : (slot : Int) = getExpectedIndex nNonce.toNat nChainId height) (a : CAuxPow)
    (hmined : MinedAt hash256 blake3 height nNonce slots slot a)
    (hchain : a.parentBlock.getChainId ≠ nChainId ∨ params.fStrictChainId = false) :
    (CAuxPow.check hash256 blake3 params a (slots slot) nChainId = true ↔
      a.hashBlock.isNull = true ∨ a.hashBlock = a.parentBlock.getHash hash256) ∧
    ∀ hashAuxBlock, buildAuxPowCommitment hashAuxBlock =
      chainCommitment (Merkle.fullRoot (merkleNode hash256) 0 fun _ => hashAuxBlock) 0 0 := by
  refine ⟨?_, fun _ => rfl⟩
  obtain ⟨before, hcommits⟩ := hmined.commits
  obtain ⟨txids, hparent, hbranch⟩ := hmined.leftmost
  have hchainLength : a.vChainMerkleBranch.length = height := by
    rw [hmined.chainBranch_eq, Merkle.length_fullBranch]
  have hin : slot < 2 ^ height := by
    have hrange := (getExpectedIndex_range nNonce.toNat nChainId height).2
    rw [← hslot] at hrange
    exact_mod_cast hrange
  have hshown : shownRoot hash256 a (slots slot) =
      (Merkle.fullRoot (merkleNode hash256) height slots).data.reverse := by
    rw [shownRoot, hmined.chainIndex_eq, hmined.chainBranch_eq, checkMerkleBranch, if_neg (by omega)]
    exact congrArg (·.data.reverse) (Merkle.branchRoot_fullBranch slots hin)
  have hcb := hmined.coinbase
  unfold CTransaction.isCoinBase at hcb
  split at hcb
  case h_2 => cases hcb
  rename_i txin hvin
  have hscript := hcommits txin (by rw [hvin]; exact List.mem_singleton_self _)
  have hroot : Merkle.branchRoot (merkleNode hash256) (a.coinbaseTx.getHash hash256 blake3)
      a.vMerkleBranch 0 = a.parentBlock.hashMerkleRoot := by
    rw [hbranch, hparent]
    exact Merkle.branchRoot_leftBranch _ _
  rw [check_eq _ _ hchain ⟨hmined.branch_le, by rw [hchainLength]; exact hheight⟩ hvin hcb hscript.size
    hmined.index_eq hroot, hshown, hscript.rootPlace_eq]
  dsimp only
  rw [hchainLength, hscript.checkChainTree_eq hheight, hmined.chainIndex_eq, decide_eq_true hslot,
    Bool.and_true, decide_eq_true_iff]

/-! ## a tree of two chains -/

/-- the block hashes of two chains; chain 8 has slot 0 under the nonce 0 -/
def sampleSlots : Nat → Uint256
  | 0 => .ofNat 77
  | _ => .ofNat 5

theorem forall_place {needle script : Bytes} {P : Nat → Prop} (hne : needle ≠ [])
    (h : ∀ i < script.length, needle.isPrefixOf (script.drop i) = true → P i) :
    ∀ i, needle <+: script.drop i → P i := by
  intro i hstart
  by_cases hi : i < script.length
  · exact h i hi (List.isPrefixOf_iff_prefix.mpr hstart)
  · rw [List.drop_eq_nil_of_le (by omega), List.prefix_nil] at hstart
    exact absurd hstart hne

theorem sampleAuxPow_minedAt (hashBlock : Uint256) : MinedAt Uint256.polyHash Uint256.polyHash 1 0
    sampleSlots 0 (sampleAuxPow (.ofNat 77) (.ofNat 5) (.ofNat 6) hashBlock) where
  coinbase := rfl
  commits := by
    refine ⟨[], List.forall_mem_singleton.mpr ⟨by decide +kernel, ?_, ?_, ?_⟩⟩
    · exact List.isPrefixOf_iff_prefix.mp (by decide +kernel)
    · exact forall_place (by decide) (by decide +kernel)
    · exact forall_place (by decide +kernel) (by decide +kernel)
  leftmost := ⟨[.ofNat 6], rfl, rfl⟩
  branch_le := by show 1 ≤ 30; decide
  index_eq := rfl
  chainBranch_eq := rfl
  chainIndex_eq := rfl

theorem check_of_commitment_tree :
    CAuxPow.check Uint256.polyHash Uint256.polyHash ⟨0, 8, true⟩
      (sampleAuxPow (.ofNat 77) (.ofNat 5) (.ofNat 6) .null) (.ofNat 77) 8 = true :=
  (check_of_commitment Uint256.polyHash Uint256.polyHash ⟨0, 8, true⟩ 1 (by decide) 0 sampleSlots 8 0
    (by decide +kernel) _ (sampleAuxPow_minedAt .null) (.inl (by decide +kernel))).1.mpr
      (.inl (by decide))

/-- a payload whose own block hash is some other value is rejected, however well it is built -/
theorem foreign_block_hash_rejected :
    let a := sampleAuxPow (.ofNat 77) (.ofNat 5) (.ofNat 6) (.ofNat 3)
    (0 : Int) = getExpectedIndex 0 8 1 ∧ MinedAt Uint256.polyHash Uint256.polyHash 1 0 sampleSlots 0 a ∧
      a.parentBlock.getChainId ≠ 8 ∧
      CAuxPow.check Uint256.polyHash Uint256.polyHash ⟨0, 8, true⟩ a (sampleSlots 0) 8 = false :=
  ⟨by decide +kernel, sampleAuxPow_minedAt _, by decide +kernel, by decide +kernel⟩

end Consensus
