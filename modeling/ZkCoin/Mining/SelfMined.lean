import ZkCoin.Consensus.AuxPowSlots
import ZkCoin.Consensus.WitnessVariants
import ZkCoin.Mining.BlockAssembler

/-!
# The payload that a node makes for itself

`CAuxPow::initAuxPow` names the header hash in the parent coinbase without the magic of merged mining,
so its acceptance depends on the bytes of the hash.

* `selfMined`            — the header with its payload, the parent header worked on.
* `rootPlace_pushed`     — where the check finds the hash in the script.
* `check_selfMined_iff`  — which payloads are accepted, and what their proof of work is.
-/

open Bytes Script Consensus

namespace Mining

/-- a payload whose parent header was worked on -/
def workOn (a : CAuxPow) (nTime nNonce : UInt32) : CAuxPow :=
  { a with parentBlock := { a.parentBlock with nTime := nTime, nNonce := nNonce } }

/-- the header that `initAuxPow` leaves, with some work -/
def selfMined (n : Node) (header : CPureBlockHeader) (nTime nNonce : UInt32) : CBlockHeader :=
  let made := initAuxPow n header
  { made with auxpow := made.auxpow.map (workOn · nTime nNonce) }

def pushOpcode : UInt8 := 0x28

/-- what follows the hash in the script: the size of the tree of chains and its nonce -/
def pushedTail : Bytes := [1, 0, 0, 0, 0, 0, 0, 0]

/-- the bytes that let the check find the hash: no magic inside, and not all of them the opcode -/
def Findable (hash : Uint256) : Prop :=
  ¬ mergedMiningHeader <:+: hash.data.reverse ∧ hash.data ≠ List.replicate 32 pushOpcode

/-! ## the script -/

section
variable {root : Bytes}

theorem search_magic_tail (bs : Bytes) :
    search mergedMiningHeader (bs ++ pushedTail) = search mergedMiningHeader bs := by
  induction bs with
  | nil => decide
  | cons b bs ih =>
    have hhere : mergedMiningHeader.isPrefixOf (b :: (bs ++ pushedTail)) =
        mergedMiningHeader.isPrefixOf (b :: bs) := by
      match bs with
      | [] => simp [mergedMiningHeader, pushedTail, List.isPrefixOf]
      | [c] => simp [mergedMiningHeader, pushedTail, List.isPrefixOf]
      | [c, d] => simp [mergedMiningHeader, pushedTail, List.isPrefixOf]
      | c :: d :: e :: bs => rfl
    rw [List.cons_append, search, search, hhere, ih]

theorem search_magic_pushed : search mergedMiningHeader (pushOpcode :: (root ++ pushedTail)) =
    (search mergedMiningHeader root).map (· + 1) := by
  rw [search, if_neg (by simp [mergedMiningHeader, pushOpcode, List.isPrefixOf]), search_magic_tail]

/-- a string stands one byte early only when it repeats that byte -/
theorem prefix_early_iff {c : UInt8} {tail : Bytes} : root <+: c :: (root ++ tail) ↔ ∀ b ∈ root, b = c := by
  induction root generalizing c with
  | nil => simp
  | cons b root ih =>
    rw [List.cons_append, List.cons_prefix_cons, List.forall_mem_cons]
    refine and_congr_right ?_
    rintro rfl
    exact ih

theorem search_root_pushed (hlen : root.length = 32) : search root (pushOpcode :: (root ++ pushedTail)) =
    some (if root = List.replicate 32 pushOpcode then 0 else 1) := by
  have hfirst : root.isPrefixOf (pushOpcode :: (root ++ pushedTail)) = true ↔
      root = List.replicate 32 pushOpcode := by
    rw [List.isPrefixOf_iff_prefix, prefix_early_iff, List.eq_replicate_iff, and_iff_right hlen]
  rw [search]
  by_cases hsame : root = List.replicate 32 pushOpcode
  · rw [if_pos (hfirst.mpr hsame), if_pos hsame]
  · rw [if_neg (mt hfirst.mp hsame), if_neg hsame,
      search_of_first (Nat.zero_le _) (List.prefix_append root pushedTail)
        fun j hj => absurd hj (Nat.not_lt_zero j)]
    rfl

theorem rootPlace_pushed (hlen : root.length = 32) : rootPlace (pushOpcode :: (root ++ pushedTail)) root =
    if mergedMiningHeader <:+: root then none
    else some (if root = List.replicate 32 pushOpcode then 0 else 1) := by
  rw [rootPlace, search_root_pushed hlen, search_magic_pushed]
  cases hmagic : search mergedMiningHeader root with
  | none =>
    rw [if_neg ((search_eq_none_iff (by decide)).mp hmagic)]
    exact if_neg (by split <;> decide)
  | some i =>
    have hin : mergedMiningHeader <:+: root := by
      by_contra hnot
      rw [(search_eq_none_iff (by decide)).mpr hnot] at hmagic
      cases hmagic
    rw [if_pos hin]
    dsimp only [Option.map_some]
    -- the magic begins after the opcode, the hash no later than right behind it
    have hplace : i + 1 + mergedMiningHeader.length ≠ if root = List.replicate 32 pushOpcode then 0 else 1 := by
      show i + 1 + 4 ≠ _
      split <;> omega
    rw [if_pos hplace, ite_self]

theorem u32At_pushed (hlen : root.length = 32) (k : Nat) :
    u32At (pushOpcode :: (root ++ pushedTail)) (1 + 32 + k) = u32At pushedTail k := by
  rw [← List.singleton_append, u32At_append_of_le (by simp; omega), u32At_append_of_le (by simp; omega)]
  congr 1
  show 1 + 32 + k - 1 - root.length = k
  omega

theorem checkChainTree_pushed (hlen : root.length = 32) (nChainId : Int) :
    checkChainTree (pushOpcode :: (root ++ pushedTail))
      ((if root = List.replicate 32 pushOpcode then 0 else 1) + 32) nChainId 0 0 =
      decide (¬ root = List.replicate 32 pushOpcode) := by
  by_cases hsame : root = List.replicate 32 pushOpcode
  · subst hsame
    rw [checkChainTree, if_neg (by decide), if_pos (by decide)]
    rfl
  · have hone : u32At (pushOpcode :: (root ++ pushedTail)) (1 + 32) = 1 := u32At_pushed hlen 0
    have hzero : u32At (pushOpcode :: (root ++ pushedTail)) (1 + 32 + 4) = 0 := u32At_pushed hlen 4
    have hindex : 0 = getExpectedIndex (0 : UInt32).toNat nChainId 0 := (Int.emod_one _).symm
    have hroom : ¬ (pushOpcode :: (root ++ pushedTail)).length < 1 + 32 + 8 := by
      rw [List.length_cons, List.length_append, hlen]
      decide
    rw [if_neg hsame, checkChainTree, if_neg hroom, hone, if_neg (by decide), hzero,
      decide_eq_true hindex, decide_eq_true hsame]

end

/-! ## the payload -/

theorem selfMined_eq (n : Node) (header : CPureBlockHeader) (nTime nNonce : UInt32) :
    selfMined n header nTime nNonce = ⟨setAuxpowVersion header true,
      some (workOn (createAuxPow n (setAuxpowVersion header true)) nTime nNonce)⟩ := by
  have hagain : setAuxpowVersion (setAuxpowVersion header true) true = setAuxpowVersion header true :=
    if_pos (setAuxpowVersion_isAuxpow header)
  rw [selfMined, initAuxPow, setAuxpow, hagain]
  rfl

theorem check_workOn {n : Node} {nChainId : Int}
    (hchain : 1 ≤ nChainId ∨ n.params.auxpow.fStrictChainId = false) (header : CPureBlockHeader)
    (nTime nNonce : UInt32) :
    CAuxPow.check n.hash256 n.blake3 n.params.auxpow (workOn (createAuxPow n header) nTime nNonce)
      (header.getHash n.hash256) nChainId = true ↔ Findable (header.getHash n.hash256) := by
  have hlen : (header.getHash n.hash256).data.reverse.length = 32 := by simp
  have hscript : pushData ((header.getHash n.hash256).data.reverse ++ [1] ++ List.replicate 7 0) =
      pushOpcode :: ((header.getHash n.hash256).data.reverse ++ pushedTail) := by
    rw [pushData, if_pos (by simp; decide)]
    simp [pushOpcode, pushedTail]
  have hsize : (pushOpcode :: ((header.getHash n.hash256).data.reverse ++ pushedTail)).length = 41 := by
    rw [List.length_cons, List.length_append, hlen]
    rfl
  have hparent : (workOn (createAuxPow n header) nTime nNonce).parentBlock.getChainId ≠ nChainId ∨
      n.params.auxpow.fStrictChainId = false := hchain.imp_left fun hpos => by
    show (0 : Int) ≠ nChainId
    omega
  rw [check_eq (a := workOn (createAuxPow n header) nTime nNonce) n.blake3 (header.getHash n.hash256) hparent
    ⟨Nat.zero_le _, Nat.zero_le _⟩ rfl rfl (by rw [hscript, hsize]; decide) rfl rfl]
  have hreverse : (header.getHash n.hash256).data = List.replicate 32 pushOpcode ↔
      (header.getHash n.hash256).data.reverse = List.replicate 32 pushOpcode := by
    rw [List.reverse_eq_iff, List.reverse_replicate]
  have hshown : shownRoot n.hash256 (workOn (createAuxPow n header) nTime nNonce)
      (header.getHash n.hash256) = (header.getHash n.hash256).data.reverse := rfl
  rw [hshown, hscript, rootPlace_pushed hlen, Findable, ne_eq, hreverse,
    decide_eq_true (.inl (by decide +kernel : Uint256.null.isNull = true)), Bool.true_and]
  by_cases hmagic : mergedMiningHeader <:+: (header.getHash n.hash256).data.reverse
  · rw [if_pos hmagic]
    simp [hmagic]
  · rw [if_neg hmagic, and_iff_right hmagic]
    dsimp only [workOn, createAuxPow, List.length_nil]
    rw [checkChainTree_pushed hlen, decide_eq_true_iff]

/-- **Self-mined payloads.**  The payload of `initAuxPow` is accepted for the header hash when the check
can find it there; then the proof of work of the header is that of the parent header. -/
theorem check_selfMined_iff (n : Node) (header : CPureBlockHeader) (nTime nNonce : UInt32) :
    ∃ a, (selfMined n header nTime nNonce).auxpow = some a ∧
      a.parentBlock.nTime = nTime ∧ a.parentBlock.nNonce = nNonce ∧
      (∀ nChainId, 1 ≤ nChainId ∨ n.params.auxpow.fStrictChainId = false →
        (CAuxPow.check n.hash256 n.blake3 n.params.auxpow a
          ((selfMined n header nTime nNonce).getHash n.hash256) nChainId = true ↔
          Findable ((selfMined n header nTime nNonce).getHash n.hash256))) ∧
      ((1 ≤ (selfMined n header nTime nNonce).getChainId ∨ n.params.auxpow.fStrictChainId = false) →
        Findable ((selfMined n header nTime nNonce).getHash n.hash256) →
        (checkBlockProofOfWork n.hash256 n.blake3 n.scrypt n.params (selfMined n header nTime nNonce) =
            true ↔
          checkProofOfWork n.params.powLimit (n.scrypt a.parentBlock.serializePure)
            (selfMined n header nTime nNonce).nBits = true)) := by
  rw [selfMined_eq]
  refine ⟨_, rfl, rfl, rfl, fun nChainId hchain => check_workOn hchain _ nTime nNonce, ?_⟩
  intro hchain hfindable
  have hcheck := (check_workOn hchain (setAuxpowVersion header true) nTime nNonce).mpr hfindable
  have hannounced := setAuxpowVersion_isAuxpow header
  dsimp only at hcheck
  rw [checkBlockProofOfWork]
  dsimp only
  rw [hannounced, hcheck]
  exact Iff.rfl

/-- a header of chain 8 -/
theorem check_selfMined_zero : ∃ a,
    (selfMined sampleNode ⟨8 * 2 ^ 16 + 4, .null, .null, 0, 0x207fffff, 0⟩ 5 6).auxpow = some a ∧
    CAuxPow.check Uint256.polyHash Uint256.polyHash sampleNode.params.auxpow a
      ((selfMined sampleNode ⟨8 * 2 ^ 16 + 4, .null, .null, 0, 0x207fffff, 0⟩ 5 6).getHash
        Uint256.polyHash) 8 = true ∧
    checkBlockProofOfWork Uint256.polyHash Uint256.polyHash sampleNode.scrypt sampleNode.params
      (selfMined sampleNode ⟨8 * 2 ^ 16 + 4, .null, .null, 0, 0x207fffff, 0⟩ 5 6) = true := by
  obtain ⟨a, ha, -, -, hcheck, hwork⟩ :=
    check_selfMined_iff sampleNode ⟨8 * 2 ^ 16 + 4, .null, .null, 0, 0x207fffff, 0⟩ 5 6
  have hfindable : Findable ((selfMined sampleNode ⟨8 * 2 ^ 16 + 4, .null, .null, 0, 0x207fffff, 0⟩ 5
      6).getHash Uint256.polyHash) := ⟨by decide +kernel, by decide +kernel⟩
  exact ⟨a, ha, (hcheck 8 (.inl (by decide))).mpr hfindable,
    (hwork (.inl (by decide +kernel)) hfindable).mpr
      (show checkProofOfWork (2 ^ 255) .null 0x207fffff = true by decide +kernel)⟩

end Mining
