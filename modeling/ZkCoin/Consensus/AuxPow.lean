import ZkCoin.Library.Merkle
import ZkCoin.Primitives.Block

/-!
# Merged mining

A child block is mined by a header of the parent chain: the parent coinbase names the root of a tree
of child chains, and the child block stands in that tree at the place that its chain id determines.

* `CAuxPow.check`             — the payload binds the child hash to the parent header.
* `checkBlockProofOfWork`     — the work of a header, its own or the parent's.
* `check_commits_to_one`      — one parent header commits to one child block of a chain.
-/

open Bytes Serialize

namespace Consensus

def merkleNode (hash256 : Bytes → Uint256) (a b : Uint256) : Uint256 := hash256 (a.data ++ b.data)

/-- `PCH_MERGED_MINING_HEADER` -/
def mergedMiningHeader : Bytes := [0xfa, 0xbe, 0x6d, 0x6d]

def maxAuxpowMerkleBranchLength : Nat := 30
def minCoinbaseScriptSigSize : Nat := 2
def maxCoinbaseScriptSigSize : Nat := 100

/-- `CAuxPow::getExpectedIndex`, in 64 unsigned bits -/
def getExpectedIndex (nNonce : Nat) (nChainId : Int) (h : Nat) : Int :=
  let rand : Int := (nNonce * 1103515245 + 12345) % 2 ^ 64 % 2 ^ h
  let rand := (rand + nChainId) % 2 ^ 64
  (rand * 1103515245 + 12345) % 2 ^ 64 % 2 ^ h

section
variable (hash256 : Bytes → Uint256)

/-- `CAuxPow::CheckMerkleBranch` -/
def checkMerkleBranch (hash : Uint256) (branch : List Uint256) (nIndex : Int) : Uint256 :=
  if nIndex = -1 then .null else Merkle.branchRoot (merkleNode hash256) hash branch nIndex

/-- the place of the root in the script: right after the only magic, or near the start without one -/
def rootPlace (script root : Bytes) : Option Nat :=
  match search root script with
  | none => none
  | some pc =>
    match search mergedMiningHeader script with
    | some pcHead =>
      if (search mergedMiningHeader (script.drop (pcHead + 1))).isSome then none
      else if pcHead + mergedMiningHeader.length ≠ pc then none
      else some pc
    | none => if pc > 20 then none else some pc

/-- the size and the nonce of the tree of chains, which follow the root -/
def checkChainTree (script : Bytes) (pc : Nat) (nChainId : Int) (height : Nat) (nChainIndex : Int) :
    Bool :=
  if script.length < pc + 8 then false
  else if (u32At script pc).toNat ≠ 2 ^ height then false
  else decide (nChainIndex = getExpectedIndex (u32At script (pc + 4)).toNat nChainId height)

/-- `CAuxPow::check` -/
def CAuxPow.check (blake3 : Bytes → Uint256) (params : AuxPowParams) (a : CAuxPow)
    (hashAuxBlock : Uint256) (nChainId : Int) : Bool :=
  if params.fStrictChainId && decide (a.parentBlock.getChainId = nChainId) then false
  else if !a.hashBlock.isNull && decide (a.hashBlock ≠ a.parentBlock.getHash hash256) then false
  else if a.vMerkleBranch.length > maxAuxpowMerkleBranchLength ∨
      a.vChainMerkleBranch.length > maxAuxpowMerkleBranchLength then false
  else if !a.coinbaseTx.isCoinBase then false
  else
    match a.coinbaseTx.vin with
    | [] => false
    | txin :: _ =>
      let script := txin.scriptSig
      if script.length < minCoinbaseScriptSigSize ∨ script.length > maxCoinbaseScriptSigSize then
        false
      else if a.nIndex ≠ 0 then false
      else if checkMerkleBranch hash256 (a.coinbaseTx.getHash hash256 blake3) a.vMerkleBranch a.nIndex ≠
          a.parentBlock.hashMerkleRoot then false
      else
        let root := (checkMerkleBranch hash256 hashAuxBlock a.vChainMerkleBranch a.nChainIndex).data.reverse
        match rootPlace script root with
        | none => false
        | some pc => checkChainTree script (pc + root.length) nChainId a.vChainMerkleBranch.length
            a.nChainIndex

end

/-! ## proof of work -/

/-- `arith_uint256::SetCompact`: the target, and whether it is negative or too large -/
def setCompact (nCompact : Nat) : Nat × Bool × Bool :=
  let nSize := nCompact / 2 ^ 24
  let word := nCompact % 2 ^ 23
  let nWord := if nSize ≤ 3 then word / 2 ^ (8 * (3 - nSize)) else word
  let value := if nSize ≤ 3 then nWord else nWord * 2 ^ (8 * (nSize - 3)) % 2 ^ 256
  (value, decide (nWord ≠ 0) && decide (nCompact / 2 ^ 23 % 2 = 1),
    decide (nWord ≠ 0) && (decide (nSize > 34) || decide (nWord > 0xff) && decide (nSize > 33) ||
      decide (nWord > 0xffff) && decide (nSize > 32)))

/-- `CheckProofOfWork` -/
def checkProofOfWork (powLimit : Nat) (hash : Uint256) (nBits : UInt32) : Bool :=
  let (target, fNegative, fOverflow) := setCompact nBits.toNat
  if fNegative || decide (target = 0) || fOverflow || decide (target > powLimit) then false
  else decide (leNat hash.data ≤ target)

/-- `CheckBlockProofOfWork`; `scrypt` is the hash that work is measured by -/
def checkBlockProofOfWork (hash256 blake3 scrypt : Bytes → Uint256) (params : Params)
    (block : CBlockHeader) : Bool :=
  if !block.isAuxpow then checkProofOfWork params.powLimit (scrypt block.serializePure) block.nBits
  else
    match block.auxpow with
    | none => false
    | some auxpow =>
      if !CAuxPow.check hash256 blake3 params.auxpow auxpow (block.getHash hash256) block.getChainId then
        false
      else checkProofOfWork params.powLimit (scrypt auxpow.parentBlock.serializePure) block.nBits

/-! ## what is hashed -/

section
variable {hash256 blake3 : Bytes → Uint256}

def nodePreimage (pair : Uint256 × Uint256) : Bytes := pair.1.data ++ pair.2.data

theorem nodePreimage_inj {pair pair' : Uint256 × Uint256}
    (h : nodePreimage pair = nodePreimage pair') : pair = pair' := by
  obtain ⟨hleft, hright⟩ := List.append_inj h (by simp)
  exact Prod.ext (Uint256.data_inj hleft) (Uint256.data_inj hright)

theorem pairsApart_of_collisionFree {pairs : List (Uint256 × Uint256)}
    (h : CollisionFree hash256 (pairs.map nodePreimage)) :
    Merkle.PairsApart (merkleNode hash256) pairs := by
  intro pair hpair pair' hpair' heq
  exact nodePreimage_inj (h _ (List.mem_map_of_mem hpair) _ (List.mem_map_of_mem hpair') heq)

/-- the nodes on the two ways of a payload: from the parent coinbase, and from the child block -/
def auxNodes (hash256 : Bytes → Uint256) (a : CAuxPow) (child : Uint256) : List (Uint256 × Uint256) :=
  Merkle.branchPairs (merkleNode hash256) (hash256 a.coinbaseTx.serializeNoWitness) a.vMerkleBranch 0 ++
    Merkle.branchPairs (merkleNode hash256) child a.vChainMerkleBranch a.nChainIndex

def auxPreimages (hash256 : Bytes → Uint256) (a : CAuxPow) (child : Uint256) : List Bytes :=
  a.coinbaseTx.serializeNoWitness :: (auxNodes hash256 a child).map nodePreimage

/-! ## what an accepted payload says -/

theorem getExpectedIndex_nonneg (nNonce : Nat) (nChainId : Int) (h : Nat) :
    0 ≤ getExpectedIndex nNonce nChainId h := by
  unfold getExpectedIndex
  apply Int.emod_nonneg
  positivity

/-- the root of the tree of chains, as the script of the parent coinbase shows it -/
def shownRoot (hash256 : Bytes → Uint256) (a : CAuxPow) (child : Uint256) : Bytes :=
  (checkMerkleBranch hash256 child a.vChainMerkleBranch a.nChainIndex).data.reverse

/-- an accepted payload: a coinbase under the root of the parent, and in its script the root of the
tree of chains with the place of the child -/
structure Binds (hash256 : Bytes → Uint256) (a : CAuxPow) (child : Uint256) (nChainId : Int)
    (script : Bytes) (pc : Nat) : Prop where
  coinbase : ∃ txin, a.coinbaseTx.vin = [txin] ∧ txin.scriptSig = script
  script_le : script.length ≤ 100
  parent_eq : Merkle.branchRoot (merkleNode hash256) (hash256 a.coinbaseTx.serializeNoWitness)
    a.vMerkleBranch 0 = a.parentBlock.hashMerkleRoot
  place_eq : rootPlace script (shownRoot hash256 a child) = some pc
  size_le : pc + 40 ≤ script.length
  tree_size : (u32At script (pc + 32)).toNat = 2 ^ a.vChainMerkleBranch.length
  index_eq : a.nChainIndex = getExpectedIndex (u32At script (pc + 36)).toNat nChainId
    a.vChainMerkleBranch.length

theorem binds_of_check {params : AuxPowParams} {a : CAuxPow} {child : Uint256} {nChainId : Int}
    (h : CAuxPow.check hash256 blake3 params a child nChainId = true) :
    ∃ script pc, Binds hash256 a child nChainId script pc := by
  unfold CAuxPow.check at h
  simp only [Bool.if_false_left, Bool.and_eq_true, Bool.not_eq_true', decide_eq_false_iff_not] at h
  obtain ⟨-, -, -, hcb, h⟩ := h
  unfold CTransaction.isCoinBase at hcb
  split at hcb
  · rename_i txin hvin
    rw [hvin] at h
    simp only [Bool.and_eq_true, Bool.not_eq_true', decide_eq_false_iff_not, not_or, not_lt, ne_eq,
      not_not] at h
    obtain ⟨⟨-, hscript⟩, hindex, hroot, h⟩ := h
    have hhash : a.coinbaseTx.getHash hash256 blake3 = hash256 a.coinbaseTx.serializeNoWitness := by
      unfold CTransaction.getHash
      rw [hvin]
      cases a.coinbaseTx.mwebTx <;> rfl
    rw [hindex, checkMerkleBranch, if_neg (by decide), hhash] at hroot
    split at h
    · cases h
    · rename_i pc hplace
      unfold checkChainTree at h
      simp only [Bool.if_false_left, Bool.and_eq_true, Bool.not_eq_true', decide_eq_false_iff_not,
        decide_eq_true_eq, List.length_reverse, Uint256.data_length, not_lt, ne_eq, not_not] at h
      obtain ⟨hsize, htree, hidx⟩ := h
      exact ⟨txin.scriptSig, pc, ⟨txin, hvin, rfl⟩, hscript, hroot, hplace, hsize, htree, hidx⟩
  · exact absurd rfl hcb

/-! ## one child block -/

theorem shownRoot_length (a : CAuxPow) (child : Uint256) : (shownRoot hash256 a child).length = 32 := by
  simp [shownRoot]

theorem place_of_magic {script root : Bytes} {pc pcHead : Nat}
    (hmagic : search mergedMiningHeader script = some pcHead) (h : rootPlace script root = some pc) :
    pc = pcHead + 4 ∧ root <+: script.drop pc := by
  unfold rootPlace at h
  split at h
  · cases h
  · rename_i pc' hroot
    rw [hmagic] at h
    simp only at h
    split at h
    · cases h
    · split at h
      · cases h
      · rename_i hnext
        obtain rfl := Option.some.inj h
        rw [ne_eq, not_not] at hnext
        exact ⟨hnext.symm, search_isPrefix hroot⟩

section
variable {a a' : CAuxPow} {child child' : Uint256} {nChainId : Int} {script script' : Bytes}
  {pc pc' : Nat}

theorem Binds.coinbase_length {pcHead : Nat} (h : Binds hash256 a child nChainId script pc)
    (hmagic : search mergedMiningHeader script = some pcHead) :
    64 < a.coinbaseTx.serializeNoWitness.length := by
  obtain ⟨txin, hvin, rfl⟩ := h.coinbase
  have hpc := (place_of_magic hmagic h.place_eq).1
  have hsize := h.size_le
  simp only [CTransaction.serializeNoWitness, hvin, vector, List.length_append,
    List.flatMap_cons, CTxIn.serialize, byteVector, intBytes, leBytes_length, COutPoint.serialize,
    Uint256.data_length, u32Bytes_length]
  omega

theorem Binds.script_eq (h : Binds hash256 a child nChainId script pc)
    (h' : Binds hash256 a' child' nChainId script' pc')
    (heq : a.coinbaseTx.serializeNoWitness = a'.coinbaseTx.serializeNoWitness) : script = script' := by
  obtain ⟨txin, hvin, rfl⟩ := h.coinbase
  obtain ⟨txin', hvin', rfl⟩ := h'.coinbase
  have hle := h.script_le
  have hle' := h'.script_le
  simp only [CTransaction.serializeNoWitness, hvin, hvin', vector, List.flatMap_cons,
    List.flatMap_nil, List.append_nil, CTxIn.serialize, List.append_assoc] at heq
  obtain ⟨-, heq⟩ := List.append_inj heq (by simp [intBytes])
  obtain ⟨-, heq⟩ := List.append_inj heq (by simp)
  obtain ⟨-, heq⟩ := List.append_inj heq (by simp [COutPoint.serialize])
  exact (byteVector_prefixFree _ _ _ _ (by omega) (by omega) heq).1

/-- a coinbase under the root of the parent is the only one: no node of the tree is as long -/
theorem Binds.coinbase_eq {pcHead : Nat} (h : Binds hash256 a child nChainId script pc)
    (h' : Binds hash256 a' child' nChainId script' pc')
    (hmagic : search mergedMiningHeader script = some pcHead)
    (hparent : a.parentBlock = a'.parentBlock)
    (hcf : CollisionFree hash256 (auxPreimages hash256 a child ++ auxPreimages hash256 a' child'))
    (hlen : a.vMerkleBranch.length ≤ a'.vMerkleBranch.length) :
    a.coinbaseTx.serializeNoWitness = a'.coinbaseTx.serializeNoWitness := by
  have hmeet := h.parent_eq
  rw [hparent, ← h'.parent_eq] at hmeet
  obtain ⟨below, hbelow, -, hleaf⟩ := Merkle.branchRoot_split hlen
    (pairsApart_of_collisionFree (hcf.mono (by
      intro p hp
      simp only [List.map_append, List.mem_append] at hp
      simp only [auxPreimages, auxNodes, List.map_append, List.mem_append, List.mem_cons]
      rcases hp with hp | hp
      · exact .inl (.inr (.inl hp))
      · exact .inr (.inr (.inl hp))))) hmeet
  by_cases hnil : below = []
  · rw [hnil] at hleaf
    exact hcf _ (by simp [auxPreimages]) _ (by simp [auxPreimages]) hleaf
  · -- the longer way would pass through a node that hashes the serialization of the coinbase
    have hpassed : ∃ pair ∈ Merkle.branchPairs (merkleNode hash256)
        (hash256 a'.coinbaseTx.serializeNoWitness) a'.vMerkleBranch 0,
        Merkle.branchRoot (merkleNode hash256) (hash256 a'.coinbaseTx.serializeNoWitness) below 0 =
          merkleNode hash256 pair.1 pair.2 := Merkle.branchRoot_eq_node hbelow hnil
    obtain ⟨pair, hpair, hnode⟩ := hpassed
    have hpre : a.coinbaseTx.serializeNoWitness = nodePreimage pair := by
      refine hcf _ (by simp [auxPreimages]) _ ?_ (hleaf.trans hnode)
      simp only [auxPreimages, auxNodes, List.map_append, List.mem_append, List.mem_cons]
      exact .inr (.inr (.inl (List.mem_map_of_mem hpair)))
    have hlong := h.coinbase_length hmagic
    rw [hpre] at hlong
    simp [nodePreimage] at hlong

/-- one script, one place, one child -/
theorem Binds.child_eq {pcHead : Nat} (h : Binds hash256 a child nChainId script pc)
    (h' : Binds hash256 a' child' nChainId script pc')
    (hmagic : search mergedMiningHeader script = some pcHead)
    (hcf : CollisionFree hash256 (auxPreimages hash256 a child ++ auxPreimages hash256 a' child')) :
    child = child' := by
  obtain ⟨hpc, hstart⟩ := place_of_magic hmagic h.place_eq
  obtain ⟨hpc', hstart'⟩ := place_of_magic hmagic h'.place_eq
  obtain rfl : pc = pc' := hpc.trans hpc'.symm
  have hshown : shownRoot hash256 a child = shownRoot hash256 a' child' :=
    (List.prefix_of_prefix_length_le hstart hstart' (by simp [shownRoot_length])).eq_of_length
      (by simp [shownRoot_length])
  have hheight : a.vChainMerkleBranch.length = a'.vChainMerkleBranch.length :=
    Nat.pow_right_injective (Nat.le_refl 2) (h.tree_size.symm.trans h'.tree_size)
  have hindex : a.nChainIndex = a'.nChainIndex := by
    rw [h.index_eq, h'.index_eq, hheight]
  have hnonneg : a.nChainIndex ≠ -1 := by
    have := getExpectedIndex_nonneg (u32At script (pc + 36)).toNat nChainId a.vChainMerkleBranch.length
    rw [h.index_eq]
    omega
  have hroots := Uint256.data_inj (List.reverse_injective hshown)
  rw [checkMerkleBranch, checkMerkleBranch, ← hindex, if_neg hnonneg, if_neg hnonneg] at hroots
  refine Merkle.branchRoot_inj hheight (pairsApart_of_collisionFree (hcf.mono ?_)) hroots
  intro p hp
  simp only [List.map_append, List.mem_append] at hp
  simp only [auxPreimages, auxNodes, List.map_append, List.mem_append, List.mem_cons]
  rcases hp with hp | hp
  · exact .inl (.inr (.inr hp))
  · rw [hindex] at hp
    exact .inr (.inr (.inr hp))

end

def HasMagic (a : CAuxPow) : Prop :=
  ∃ txin ∈ a.coinbaseTx.vin, (search mergedMiningHeader txin.scriptSig).isSome = true

theorem Binds.magic {a : CAuxPow} {child : Uint256} {nChainId : Int} {script : Bytes} {pc : Nat}
    (h : Binds hash256 a child nChainId script pc) (hmagic : HasMagic a) :
    ∃ pcHead, search mergedMiningHeader script = some pcHead := by
  obtain ⟨txin, hvin, rfl⟩ := h.coinbase
  obtain ⟨txin', hmem, hsome⟩ := hmagic
  rw [hvin, List.mem_singleton] at hmem
  rw [hmem] at hsome
  exact Option.isSome_iff_exists.mp hsome

/-- **One parent header, one child block.**  Two payloads with one parent header that are accepted for
one chain and carry the magic are payloads of the same child block. -/
theorem check_commits_to_one (hash256 blake3 : Bytes → Uint256) (params params' : AuxPowParams)
    (a a' : CAuxPow) (child child' : Uint256) (nChainId : Int)
    (hparent : a.parentBlock = a'.parentBlock) (hmagic : HasMagic a) (hmagic' : HasMagic a')
    (hcheck : CAuxPow.check hash256 blake3 params a child nChainId = true)
    (hcheck' : CAuxPow.check hash256 blake3 params' a' child' nChainId = true)
    (hcf : CollisionFree hash256 (auxPreimages hash256 a child ++ auxPreimages hash256 a' child')) :
    child = child' := by
  obtain ⟨script, pc, h⟩ := binds_of_check hcheck
  obtain ⟨script', pc', h'⟩ := binds_of_check hcheck'
  obtain ⟨pcHead, hhead⟩ := h.magic hmagic
  obtain ⟨pcHead', hhead'⟩ := h'.magic hmagic'
  have hcf' : CollisionFree hash256 (auxPreimages hash256 a' child' ++ auxPreimages hash256 a child) :=
    hcf.mono fun p hp => List.mem_append.mpr (List.mem_append.mp hp).symm
  have hcoinbase : a.coinbaseTx.serializeNoWitness = a'.coinbaseTx.serializeNoWitness := by
    rcases Nat.le_total a.vMerkleBranch.length a'.vMerkleBranch.length with hlen | hlen
    · exact h.coinbase_eq h' hhead hparent hcf hlen
    · exact (h'.coinbase_eq h hhead' hparent.symm hcf' hlen).symm
  obtain rfl := h.script_eq h' hcoinbase
  exact h.child_eq h' hhead hcf

def sampleParentCoinbase (child sibling : Uint256) : CTransaction where
  vin := [⟨⟨.null, 0xffffffff⟩, mergedMiningHeader ++
    (merkleNode Uint256.polyHash child sibling).data.reverse ++ leBytes 4 2 ++ leBytes 4 0,
    0xffffffff, []⟩]
  vout := []
  nVersion := 1
  nLockTime := 0
  mwebTx := none
  hogEx := false

def sampleAuxPow (child sibling other : Uint256) (hashBlock : Uint256) : CAuxPow where
  coinbaseTx := sampleParentCoinbase child sibling
  hashBlock := hashBlock
  vMerkleBranch := [other]
  vChainMerkleBranch := [sibling]
  nIndex := 0
  nChainIndex := 0
  parentBlock :=
    { nVersion := 1
      hashPrevBlock := .null
      hashMerkleRoot := merkleNode Uint256.polyHash
        (Uint256.polyHash (sampleParentCoinbase child sibling).serializeNoWitness) other
      nTime := 0
      nBits := 0
      nNonce := 0 }

theorem check_commits_to_one_sample :
    let a := sampleAuxPow (.ofNat 77) (.ofNat 5) (.ofNat 6) .null
    let a' := { a with hashBlock := a.parentBlock.getHash Uint256.polyHash }
    a ≠ a' ∧ CAuxPow.check Uint256.polyHash Uint256.polyHash ⟨0, 8, true⟩ a (.ofNat 77) 8 = true ∧
      Uint256.ofNat 77 = Uint256.ofNat 77 :=
  ⟨by decide +kernel, by decide +kernel,
    check_commits_to_one Uint256.polyHash Uint256.polyHash ⟨0, 8, true⟩ ⟨0, 8, true⟩
      (sampleAuxPow (.ofNat 77) (.ofNat 5) (.ofNat 6) .null)
      { sampleAuxPow (.ofNat 77) (.ofNat 5) (.ofNat 6) .null with
        hashBlock := (sampleAuxPow (.ofNat 77) (.ofNat 5) (.ofNat 6) .null).parentBlock.getHash
          Uint256.polyHash }
      (.ofNat 77) (.ofNat 77) 8 rfl ⟨_, List.mem_singleton_self _, by decide +kernel⟩
      ⟨_, List.mem_singleton_self _, by decide +kernel⟩ (by decide +kernel) (by decide +kernel)
      (by decide +kernel)⟩

end

end Consensus
