import ZkCoin.Consensus.AcceptBlock
import ZkCoin.Shielded.Envelope
import ZkCoin.Shielded.MarkerRules

/-!
# Blocks that differ in their witnesses

The header commits to transactions without their witnesses; the coinbase commits to the witnesses.  A
block with other witnesses has the same hash, so a check that reads a witness before the commitment is
checked may hold the hash of a good block responsible for a witness that does not belong to it.

* `WitnessVariant`              — the same block up to the witnesses.
* `checkBlock_stripWitness`, `mwebContextualCheckBlock_stripWitness` — checks that read no witness.
* `checkShielded_variant`       — the check that reads witnesses before the commitment is checked.
* `contextualCheckBlock_variant_iff` — which variants are accepted or called mutated.
* `witness_variants_blamed_iff` — with it, what happens to the index entry.
-/

open Bytes Serialize Script

/-! ## what does not depend on witnesses -/

namespace CTransaction

variable (tx : CTransaction)

@[simp] theorem stripWitness_vout : tx.stripWitness.vout = tx.vout := rfl
@[simp] theorem stripWitness_mwebTx : tx.stripWitness.mwebTx = tx.mwebTx := rfl
@[simp] theorem stripWitness_isHogEx : tx.stripWitness.isHogEx = tx.isHogEx := rfl
@[simp] theorem stripWitness_hasMwebTx : tx.stripWitness.hasMwebTx = tx.hasMwebTx := rfl

@[simp] theorem stripWitness_vin_isEmpty : tx.stripWitness.vin.isEmpty = tx.vin.isEmpty := by
  cases h : tx.vin <;> simp [stripWitness, h]

@[simp] theorem stripWitness_isMwebOnly : tx.stripWitness.isMwebOnly = tx.isMwebOnly := by
  simp [isMwebOnly]

@[simp] theorem stripWitness_isCoinBase : tx.stripWitness.isCoinBase = tx.isCoinBase := by
  unfold isCoinBase stripWitness
  match tx.vin with
  | [] => rfl
  | [_] => rfl
  | _ :: _ :: _ => rfl

@[simp] theorem stripWitness_serializeNoWitness :
    tx.stripWitness.serializeNoWitness = tx.serializeNoWitness := by
  have hvin : vector CTxIn.serialize tx.stripWitness.vin = vector CTxIn.serialize tx.vin := by
    simp only [vector, stripWitness, List.length_map, List.flatMap_map]
    rfl
  rw [serializeNoWitness, hvin]
  rfl

@[simp] theorem stripWitness_getHash (hash256 blake3 : Bytes → Uint256) :
    tx.stripWitness.getHash hash256 blake3 = tx.getHash hash256 blake3 := by
  simp [getHash]

theorem map_stripWitness_vin {β : Type} {f : CTxIn → β} (hf : ∀ txin, f txin.stripWitness = f txin) :
    tx.stripWitness.vin.map f = tx.vin.map f := by
  simp [stripWitness, hf]

theorem any_stripWitness_vin {f : CTxIn → Bool} (hf : ∀ txin, f txin.stripWitness = f txin) :
    tx.stripWitness.vin.any f = tx.vin.any f := by
  simp [stripWitness, List.any_map, Function.comp_def, hf]

theorem all_stripWitness_vin {f : CTxIn → Bool} (hf : ∀ txin, f txin.stripWitness = f txin) :
    tx.stripWitness.vin.all f = tx.vin.all f := by
  simp [stripWitness, List.all_map, Function.comp_def, hf]

variable {tx}

theorem vout_eq_of_stripWitness {tx' : CTransaction} (h : tx'.stripWitness = tx.stripWitness) :
    tx'.vout = tx.vout := by
  rw [← tx'.stripWitness_vout, h, tx.stripWitness_vout]

theorem eq_of_stripWitness {tx' : CTransaction} {txin txin' : CTxIn} (hvin : tx.vin = [txin])
    (hvin' : tx'.vin = [txin']) (h : tx'.stripWitness = tx.stripWitness)
    (hwitness : txin'.scriptWitness = txin.scriptWitness) : tx' = tx := by
  cases tx
  cases tx'
  cases txin
  cases txin'
  simp_all [stripWitness, CTxIn.stripWitness]

end CTransaction

namespace Consensus

section
variable (tx : CTransaction)

@[simp] theorem isFinalTx_stripWitness (nBlockHeight nBlockTime : Int) :
    isFinalTx tx.stripWitness nBlockHeight nBlockTime = isFinalTx tx nBlockHeight nBlockTime := by
  unfold isFinalTx
  rw [tx.all_stripWitness_vin fun _ => rfl]
  rfl

@[simp] theorem getLegacySigOpCount_stripWitness :
    getLegacySigOpCount tx.stripWitness = getLegacySigOpCount tx := by
  unfold getLegacySigOpCount
  rw [tx.map_stripWitness_vin fun _ => rfl]
  rfl

@[simp] theorem checkTransaction_stripWitness :
    checkTransaction tx.stripWitness = checkTransaction tx := by
  have hhead : tx.stripWitness.vin.head? = tx.vin.head?.map CTxIn.stripWitness := by
    simp [CTransaction.stripWitness]
  unfold checkTransaction
  rw [tx.map_stripWitness_vin fun _ => rfl, tx.any_stripWitness_vin fun _ => rfl, hhead]
  simp only [CTransaction.stripWitness_isMwebOnly, CTransaction.stripWitness_vin_isEmpty,
    CTransaction.stripWitness_vout, CTransaction.stripWitness_serializeNoWitness,
    CTransaction.stripWitness_isCoinBase]
  cases tx.vin.head? <;> rfl

end

section
variable (hash256 blake3 : Bytes → Uint256) (block : CBlock)

@[simp] theorem stripWitness_idem : block.stripWitness.stripWitness = block.stripWitness := by
  simp [CBlock.stripWitness, CTransaction.stripWitness, CTxIn.stripWitness]

@[simp] theorem strippedSize_stripWitness : strippedSize block.stripWitness = strippedSize block := by
  simp [strippedSize, CBlock.stripWitness, vector, List.flatMap_map]

@[simp] theorem blockMerkleRoot_stripWitness :
    blockMerkleRoot hash256 blake3 block.stripWitness = blockMerkleRoot hash256 blake3 block := by
  simp [blockMerkleRoot, CBlock.stripWitness, Function.comp_def]

theorem any_stripWitness {f : CTransaction → Bool} (hf : ∀ tx, f tx.stripWitness = f tx)
    (txs : List CTransaction) : (txs.map CTransaction.stripWitness).any f = txs.any f := by
  simp [List.any_map, Function.comp_def, hf]

theorem forM_checkBlockTx_stripWitness {what : String} {check : CTransaction → Except String Unit}
    (hcheck : ∀ tx, check tx.stripWitness = check tx) (txs : List CTransaction) :
    (txs.map CTransaction.stripWitness).forM (checkBlockTx hash256 blake3 what check) =
      txs.forM (checkBlockTx hash256 blake3 what check) := by
  have hone : ∀ tx : CTransaction, checkBlockTx hash256 blake3 what check tx.stripWitness =
      checkBlockTx hash256 blake3 what check tx := by
    intro tx
    rw [checkBlockTx, hcheck, CTransaction.stripWitness_getHash]
    rfl
  induction txs with
  | nil => rfl
  | cons tx txs ih =>
    show (checkBlockTx hash256 blake3 what check tx.stripWitness >>= fun _ => _) = _
    rw [hone, ih]
    rfl

theorem checkBlock_stripWitness (checks : ProofChecks) (params : Params)
    (fCheckPOW fCheckMerkleRoot : Bool) :
    checkBlock hash256 blake3 checks params block.stripWitness fCheckPOW fCheckMerkleRoot =
      checkBlock hash256 blake3 checks params block fCheckPOW fCheckMerkleRoot := by
  have hroot : checkMerkleRoot hash256 blake3 block.stripWitness =
      checkMerkleRoot hash256 blake3 block := by
    unfold checkMerkleRoot
    rw [blockMerkleRoot_stripWitness]
    rfl
  have hvtx : block.stripWitness.vtx = block.vtx.map CTransaction.stripWitness := rfl
  have hmweb : Mweb.checkBlock block.stripWitness = Mweb.checkBlock block := by
    unfold Mweb.checkBlock
    rw [hvtx, any_stripWitness fun _ => rfl]
  have hcoinbase : (block.vtx.map CTransaction.stripWitness).head?.any CTransaction.isCoinBase =
      block.vtx.head?.any CTransaction.isCoinBase := by
    cases block.vtx <;> simp
  unfold checkBlock
  rw [stripWitness_idem, hroot, hmweb, strippedSize_stripWitness, hvtx, List.isEmpty_map,
    List.length_map, hcoinbase, ← List.map_drop,
    any_stripWitness (fun tx => tx.stripWitness_isCoinBase),
    forM_checkBlockTx_stripWitness _ _ checkTransaction_stripWitness, List.map_map]
  simp only [Function.comp_def, getLegacySigOpCount_stripWitness]
  rfl

/-! ## the extension-block checks -/

theorem blockPegins_stripWitness (txs : List CTransaction) :
    Mweb.blockPegins (txs.map CTransaction.stripWitness) = Mweb.blockPegins txs := by
  simp [Mweb.blockPegins, List.flatMap_map]

theorem matchPegin_stripWitness (hogEx : CTransaction) :
    Mweb.matchPegin hogEx.stripWitness = Mweb.matchPegin hogEx := by
  funext idx pegin
  simp only [Mweb.matchPegin, CTransaction.stripWitness, List.getElem?_map]
  cases hogEx.vin[idx]? <;> rfl

theorem checkHogEx_stripWitness (crypto : Mw.Crypto) (prev : CBlockIndex) (mwebBlock : Mw.Block)
    (hogEx : CTransaction) :
    Mweb.checkHogEx hash256 blake3 crypto prev block.stripWitness mwebBlock hogEx.stripWitness =
      Mweb.checkHogEx hash256 blake3 crypto prev block mwebBlock hogEx := by
  have hinner : Mweb.innerTxs block.stripWitness =
      (Mweb.innerTxs block).map CTransaction.stripWitness := by
    simp [Mweb.innerTxs, CBlock.stripWitness, List.map_dropLast]
  have hpegins : ((Mweb.innerTxs block).map CTransaction.stripWitness).flatMap
      (Mweb.peginOutputs hash256 blake3) =
        (Mweb.innerTxs block).flatMap (Mweb.peginOutputs hash256 blake3) := by
    simp only [List.flatMap_map, Mweb.peginOutputs, CTransaction.stripWitness_getHash,
      CTransaction.stripWitness_vout]
    rfl
  have hvalidate : Mweb.validateMwebBlock blake3 crypto block.stripWitness mwebBlock
      hogEx.stripWitness = Mweb.validateMwebBlock blake3 crypto block mwebBlock hogEx := by
    rw [Mweb.validateMwebBlock, hinner, blockPegins_stripWitness]
    rfl
  have hmarked : block.stripWitness.vtx.dropLast.any CTransaction.isHogEx =
      block.vtx.dropLast.any CTransaction.isHogEx := by
    rw [CBlock.stripWitness, ← List.map_dropLast, any_stripWitness fun _ => rfl]
  have hlen : hogEx.stripWitness.vin.length = hogEx.vin.length := by
    simp [CTransaction.stripWitness]
  unfold Mweb.checkHogEx
  rw [hinner, hpegins, hvalidate, hmarked, matchPegin_stripWitness, hlen]
  rfl

theorem mwebContextualCheckBlock_stripWitness (crypto : Mw.Crypto) (prev : CBlockIndex) :
    Mweb.contextualCheckBlock hash256 blake3 crypto prev block.stripWitness =
      Mweb.contextualCheckBlock hash256 blake3 crypto prev block := by
  have hvtx : block.stripWitness.vtx = block.vtx.map CTransaction.stripWitness := rfl
  have hpegin : ∀ tx : CTransaction,
      ((tx.stripWitness.isCoinBase || tx.stripWitness.isHogEx) && Mweb.hasPegin tx.stripWitness) =
        ((tx.isCoinBase || tx.isHogEx) && Mweb.hasPegin tx) := by
    intro tx
    rw [tx.stripWitness_isCoinBase]
    rfl
  unfold Mweb.contextualCheckBlock
  rw [hvtx, any_stripWitness (f := CTransaction.isHogEx) fun _ => rfl, any_stripWitness hpegin,
    List.getLast?_map, show block.stripWitness.mwebBlock = block.mwebBlock from rfl]
  cases block.vtx.getLast? with
  | none => rfl
  | some hogEx => simp only [Option.map_some, checkHogEx_stripWitness]

end

/-! ## variants -/

def WitnessVariant (block variant : CBlock) : Prop := variant.stripWitness = block.stripWitness

section
variable {block variant : CBlock}

theorem WitnessVariant.header_eq (h : WitnessVariant block variant) :
    variant.header = block.header := by
  show variant.stripWitness.header = block.stripWitness.header
  rw [show variant.stripWitness = block.stripWitness from h]

theorem WitnessVariant.vtx_eq (h : WitnessVariant block variant) :
    variant.vtx.map CTransaction.stripWitness = block.vtx.map CTransaction.stripWitness :=
  congrArg CBlock.vtx (show variant.stripWitness = block.stripWitness from h)

theorem WitnessVariant.length_eq (h : WitnessVariant block variant) :
    variant.vtx.length = block.vtx.length := by
  simpa using congrArg List.length h.vtx_eq

theorem WitnessVariant.exists_mem (h : WitnessVariant block variant) {tx' : CTransaction}
    (htx' : tx' ∈ variant.vtx) : ∃ tx ∈ block.vtx, tx.stripWitness = tx'.stripWitness := by
  have hmem := List.mem_map_of_mem (f := CTransaction.stripWitness) htx'
  rw [h.vtx_eq] at hmem
  exact List.mem_map.mp hmem

theorem WitnessVariant.witnessCommitment_eq (h : WitnessVariant block variant) :
    witnessCommitment variant = witnessCommitment block := by
  have hstrip : ∀ b : CBlock, witnessCommitment b.stripWitness = witnessCommitment b := by
    intro b
    unfold witnessCommitment CBlock.stripWitness
    cases b.vtx <;> rfl
  rw [← hstrip variant, h, hstrip block]

theorem WitnessVariant.coinbase (h : WitnessVariant block variant)
    (hcb : block.vtx.head?.any CTransaction.isCoinBase = true) :
    ∃ coinbase rest txin coinbase' rest' txin', block.vtx = coinbase :: rest ∧
      variant.vtx = coinbase' :: rest' ∧ coinbase.vin = [txin] ∧ coinbase'.vin = [txin'] ∧
      coinbase'.stripWitness = coinbase.stripWitness ∧
      rest'.map CTransaction.stripWitness = rest.map CTransaction.stripWitness := by
  have hmap := h.vtx_eq
  match hblock : block.vtx, hvariant : variant.vtx with
  | [], _ =>
    rw [hblock] at hcb
    cases hcb
  | _ :: _, [] =>
    rw [hblock, hvariant] at hmap
    cases hmap
  | coinbase :: rest, coinbase' :: rest' =>
    rw [hblock] at hcb hmap
    rw [hvariant, List.map_cons, List.map_cons] at hmap
    obtain ⟨hhead, htail⟩ := List.cons.inj hmap
    have hone : ∀ tx : CTransaction, tx.isCoinBase = true → ∃ txin, tx.vin = [txin] := by
      intro tx htx
      unfold CTransaction.isCoinBase at htx
      split at htx
      · exact ⟨_, ‹_›⟩
      · cases htx
    have hcb' : coinbase'.isCoinBase = true := by
      rw [← coinbase'.stripWitness_isCoinBase, hhead, coinbase.stripWitness_isCoinBase]
      exact hcb
    obtain ⟨txin, hvin⟩ := hone coinbase hcb
    obtain ⟨txin', hvin'⟩ := hone coinbase' hcb'
    exact ⟨coinbase, rest, txin, coinbase', rest', txin', rfl, rfl, hvin, hvin', hhead, htail⟩

end

/-! ## the witness commitment -/

section
variable (hash256 blake3 : Bytes → Uint256)

/-- everything that is hashed on the way from the witnesses to the commitment -/
def witnessPreimages (block : CBlock) : List Bytes :=
  block.vtx.map CTransaction.serialize ++
    (Merkle.merklePairs (merkleNode hash256) (witnessLeaves hash256 blake3 block.vtx)).map
      nodePreimage ++
    (coinbaseInput block).toList.flatMap fun txin => txin.scriptWitness.map fun reserved =>
      (blockWitnessMerkleRoot hash256 blake3 block).data ++ reserved

variable {hash256 blake3}

theorem getWitnessHash_of_vin {tx : CTransaction} (hvin : tx.vin ≠ []) :
    tx.getWitnessHash hash256 blake3 = hash256 tx.serialize := by
  unfold CTransaction.getWitnessHash CTransaction.serialize CTransaction.getHash
  have hempty : tx.vin.isEmpty = false := by simpa using hvin
  split
  · rfl
  · rw [hempty]
    cases tx.mwebTx <;> rfl

theorem serialize_eq_of_getWitnessHash {tx tx' : CTransaction}
    (hstrip : tx'.stripWitness = tx.stripWitness)
    (hcf : CollisionFree hash256 [tx.serialize, tx'.serialize])
    (h : tx'.getWitnessHash hash256 blake3 = tx.getWitnessHash hash256 blake3) :
    tx'.serialize = tx.serialize := by
  by_cases hvin : tx.vin = []
  · -- without inputs there is no witness to differ in
    have hvin' : tx'.vin = [] := by
      have := congrArg CTransaction.vin hstrip
      simpa [CTransaction.stripWitness, hvin] using this
    have hnone : ∀ t : CTransaction, t.vin = [] → t.serialize = t.stripWitness.serializeNoWitness := by
      intro t ht
      rw [t.stripWitness_serializeNoWitness, CTransaction.serialize, CTransaction.hasWitness, ht]
      rfl
    rw [hnone tx hvin, hnone tx' hvin', hstrip]
  · have hvin' : tx'.vin ≠ [] := by
      intro hnil
      have := congrArg CTransaction.vin hstrip
      exact hvin (by simpa [CTransaction.stripWitness, hnil, eq_comm] using this)
    rw [getWitnessHash_of_vin hvin, getWitnessHash_of_vin hvin'] at h
    exact hcf _ (by simp) _ (by simp) h

theorem serialize_of_not_hasWitness {tx : CTransaction} (h : tx.hasWitness = false) :
    tx.serialize = tx.serializeNoWitness := by
  rw [CTransaction.serialize, h]
  rfl

variable {params : Params} {nHeight : Int} {block variant : CBlock}

theorem checkWitnessCommitment_true
    (h : checkWitnessCommitment hash256 blake3 params nHeight block = .ok true) :
    ∃ txout txin reserved, witnessCommitment block = some txout ∧ coinbaseInput block = some txin ∧
      txin.scriptWitness = [reserved] ∧ reserved.length = 32 ∧
      (hash256 ((blockWitnessMerkleRoot hash256 blake3 block).data ++ reserved)).data =
        slice txout.scriptPubKey 6 38 := by
  unfold checkWitnessCommitment at h
  split at h
  · split at h
    · cases h
    · rename_i txout hcommit
      split at h
      · cases h
      · rename_i txin hinput
        split at h
        · rename_i reserved hstack
          obtain ⟨hsize, h⟩ := Checked.ite_error_eq_ok.mp h
          obtain ⟨hmatch, -⟩ := Checked.ite_error_eq_ok.mp h
          rw [not_not] at hsize hmatch
          exact ⟨txout, txin, reserved, hcommit, hinput, hstack, hsize, hmatch⟩
        · cases h
  · cases h

theorem checkWitnessCommitment_flag {found : Bool}
    (h : checkWitnessCommitment hash256 blake3 params nHeight block = .ok found) :
    found = (decide (nHeight ≥ params.segwitHeight) && (witnessCommitment block).isSome) := by
  unfold checkWitnessCommitment at h
  split at h
  · rename_i hheight
    rw [decide_eq_true hheight]
    split at h
    · rename_i hnone
      rw [hnone, ← Except.ok.inj h]
      rfl
    · rename_i hsome
      rw [hsome]
      split at h
      · cases h
      · split at h
        · obtain ⟨-, h⟩ := Checked.ite_error_eq_ok.mp h
          obtain ⟨-, h⟩ := Checked.ite_error_eq_ok.mp h
          rw [← Except.ok.inj h]
          rfl
        · cases h
  · rename_i hheight
    rw [decide_eq_false hheight, ← Except.ok.inj h]
    rfl

theorem acceptsOrMutated_checkWitnessCommitment {txin : CTxIn}
    (hinput : coinbaseInput block = some txin) :
    AcceptsOrMutated (checkWitnessCommitment hash256 blake3 params nHeight block) := by
  unfold checkWitnessCommitment
  simp only [hinput]
  split
  · split
    · exact acceptsOrMutated_ok
    · split
      · rw [acceptsOrMutated_ite]
        refine ⟨fun _ => acceptsOrMutated_rejectMutated, fun _ => ?_⟩
        rw [acceptsOrMutated_ite]
        exact ⟨fun _ => acceptsOrMutated_rejectMutated, fun _ => acceptsOrMutated_ok⟩
      · exact acceptsOrMutated_rejectMutated
  · exact acceptsOrMutated_ok

theorem map_serialize_eq {txs txs' : List CTransaction}
    (hstrip : txs'.map CTransaction.stripWitness = txs.map CTransaction.stripWitness)
    (hcf : CollisionFree hash256 (txs.map CTransaction.serialize ++ txs'.map CTransaction.serialize))
    (h : txs'.map (CTransaction.getWitnessHash hash256 blake3) =
      txs.map (CTransaction.getWitnessHash hash256 blake3)) :
    txs'.map CTransaction.serialize = txs.map CTransaction.serialize := by
  induction txs' generalizing txs with
  | nil =>
    cases txs with
    | nil => rfl
    | cons tx txs => cases hstrip
  | cons tx' txs' ih =>
    cases txs with
    | nil => cases hstrip
    | cons tx txs =>
      obtain ⟨hstrip₁, hstrip₂⟩ := List.cons.inj hstrip
      obtain ⟨h₁, h₂⟩ := List.cons.inj h
      have hhead : tx'.serialize = tx.serialize :=
        serialize_eq_of_getWitnessHash hstrip₁ (hcf.mono (by simp)) h₁
      have htail := ih hstrip₂ (hcf.mono ?_) h₂
      · rw [List.map_cons, List.map_cons, hhead, htail]
      · intro p hp
        rw [List.mem_append] at hp ⊢
        exact hp.imp (List.mem_cons_of_mem _) (List.mem_cons_of_mem _)

theorem serialize_eq_of_commitment (hvariant : WitnessVariant block variant)
    (hcb : block.vtx.head?.any CTransaction.isCoinBase = true)
    (hcf : CollisionFree hash256
      (witnessPreimages hash256 blake3 block ++ witnessPreimages hash256 blake3 variant))
    (h : checkWitnessCommitment hash256 blake3 params nHeight block = .ok true)
    (h' : checkWitnessCommitment hash256 blake3 params nHeight variant = .ok true) :
    variant.vtx.map CTransaction.serialize = block.vtx.map CTransaction.serialize := by
  obtain ⟨coinbase, rest, txin, coinbase', rest', txin', hvtx, hvtx', hvin, hvin', hhead, htail⟩ :=
    hvariant.coinbase hcb
  obtain ⟨txout, _, reserved, hcommit, hinput, hstack, hsize, hmatch⟩ := checkWitnessCommitment_true h
  obtain ⟨txout', _, reserved', hcommit', hinput', hstack', hsize', hmatch'⟩ :=
    checkWitnessCommitment_true h'
  have hin : coinbaseInput block = some txin := by simp [coinbaseInput, hvtx, hvin]
  have hin' : coinbaseInput variant = some txin' := by simp [coinbaseInput, hvtx', hvin']
  obtain rfl := Option.some.inj (hin.symm.trans hinput)
  obtain rfl := Option.some.inj (hin'.symm.trans hinput')
  have htxout : txout' = txout := by
    rw [hvariant.witnessCommitment_eq, hcommit] at hcommit'
    exact (Option.some.inj hcommit').symm
  -- the commitment determines root and reserved value, the root the witness hashes
  have hpre : (blockWitnessMerkleRoot hash256 blake3 variant).data ++ reserved' =
      (blockWitnessMerkleRoot hash256 blake3 block).data ++ reserved := by
    refine hcf _ ?_ _ ?_ (Uint256.data_inj (hmatch'.trans ?_))
    · simp [witnessPreimages, hin', hstack']
    · simp [witnessPreimages, hin, hstack]
    · rw [htxout, hmatch]
  obtain ⟨hroot, hreserved⟩ := List.append_inj hpre (by simp)
  have hleaves : witnessLeaves hash256 blake3 variant.vtx = witnessLeaves hash256 blake3 block.vtx := by
    refine Merkle.computeMerkleRoot_inj ?_ (pairsApart_of_collisionFree (hcf.mono ?_))
      (Uint256.data_inj hroot)
    · have hlen := congrArg List.length htail
      simpa [witnessLeaves, hvtx, hvtx'] using hlen
    · intro p hp
      simp only [List.map_append, List.mem_append, witnessPreimages] at hp ⊢
      rcases hp with hp | hp
      · exact .inr (.inl (.inr hp))
      · exact .inl (.inl (.inr hp))
  have hwitness : rest'.map (CTransaction.getWitnessHash hash256 blake3) =
      rest.map (CTransaction.getWitnessHash hash256 blake3) := by
    rw [hvtx, hvtx'] at hleaves
    exact (List.cons.inj hleaves).2
  have hrest : rest'.map CTransaction.serialize = rest.map CTransaction.serialize := by
    refine map_serialize_eq htail (hcf.mono ?_) hwitness
    intro p hp
    simp only [List.mem_append, witnessPreimages, hvtx, hvtx', List.map_cons] at hp ⊢
    rcases hp with hp | hp
    · exact .inl (.inl (.inl (List.mem_cons_of_mem _ hp)))
    · exact .inr (.inl (.inl (List.mem_cons_of_mem _ hp)))
  have hcoinbase : coinbase' = coinbase := by
    refine CTransaction.eq_of_stripWitness hvin hvin' hhead ?_
    rw [hstack, hstack', hreserved]
  rw [hvtx, hvtx', List.map_cons, List.map_cons, hrest, hcoinbase]

theorem getBlockWeight_eq (hvariant : WitnessVariant block variant)
    (h : variant.vtx.map CTransaction.serialize = block.vtx.map CTransaction.serialize) :
    getBlockWeight variant = getBlockWeight block := by
  have hstripped : strippedSize variant = strippedSize block := by
    rw [← strippedSize_stripWitness variant, hvariant, strippedSize_stripWitness]
  have htotal : totalSize variant = totalSize block := by
    rw [totalSize, totalSize, hvariant.header_eq, vector, vector, hvariant.length_eq,
      List.flatMap_def, List.flatMap_def, h]
  rw [getBlockWeight, getBlockWeight, hstripped, htotal]

theorem map_serialize_of_not_hasWitness (hvariant : WitnessVariant block variant)
    (h : block.vtx.any CTransaction.hasWitness = false)
    (h' : variant.vtx.any CTransaction.hasWitness = false) :
    variant.vtx.map CTransaction.serialize = block.vtx.map CTransaction.serialize := by
  have hread : ∀ txs : List CTransaction, txs.any CTransaction.hasWitness = false →
      txs.map CTransaction.serialize =
        (txs.map CTransaction.stripWitness).map CTransaction.serializeNoWitness := by
    intro txs htxs
    rw [List.map_map]
    refine List.map_congr_left fun tx htx => ?_
    rw [serialize_of_not_hasWitness (by simpa using (List.any_eq_false.mp htxs) tx htx)]
    exact tx.stripWitness_serializeNoWitness.symm
  rw [hread _ h, hread _ h', hvariant.vtx_eq]

end

/-! ## the shielded check reads witnesses -/

section
variable {hash256 blake3 : Bytes → Uint256} {verifier : Shielded.Verifier} {crypto : Mw.Crypto}
  {params : Params} {prev : CBlockIndex} {nHeight : Int} {block variant : CBlock}

/-- every marker of the transaction has an accepted proof among the witnesses -/
def ProofsVerify (hash256 : Bytes → Uint256) (verifier : Shielded.Verifier)
    (allowScaffoldProofs : Bool) (tx : CTransaction) : Prop :=
  ∀ m ∈ Shielded.txMarkers tx,
    Shielded.verifyProofEnvelope hash256 verifier m tx allowScaffoldProofs = true

instance (allowScaffoldProofs : Bool) (tx : CTransaction) :
    Decidable (ProofsVerify hash256 verifier allowScaffoldProofs tx) :=
  inferInstanceAs (Decidable (∀ m ∈ Shielded.txMarkers tx,
    Shielded.verifyProofEnvelope hash256 verifier m tx allowScaffoldProofs = true))

/-- of two transactions that differ in witnesses, one that passes: the other passes when its proofs
are accepted -/
theorem checkShielded_variant {tx tx' : CTransaction}
    (hstrip : tx.stripWitness = tx'.stripWitness)
    (h : checkShielded hash256 verifier params nHeight tx = .ok ()) :
    checkShielded hash256 verifier params nHeight tx' = .ok () ↔
      ProofsVerify hash256 verifier params.shieldedPool.fAllowScaffoldProofs tx' := by
  have hvout := CTransaction.vout_eq_of_stripWitness hstrip
  have hcb : tx'.isCoinBase = tx.isCoinBase := by
    rw [← tx'.stripWitness_isCoinBase, ← hstrip, tx.stripWitness_isCoinBase]
  have hmarkers : Shielded.txMarkers tx' = Shielded.txMarkers tx := by
    rw [Shielded.txMarkers, ← hvout]
    rfl
  obtain ⟨ms, hms, -⟩ := Checked.map_eq_ok.mp h
  obtain ⟨hall, hlen, -⟩ := Shielded.checkTransaction_eq_ok_iff.mp hms
  unfold checkShielded
  rw [Checked.map_eq_ok]
  constructor
  · rintro ⟨ms', hms', -⟩
    obtain ⟨rfl, -, haccepted⟩ := Shielded.checkTransaction_ok hms'
    intro m hm
    exact (haccepted m hm).2.2.proof
  · intro hproofs
    refine ⟨_, Shielded.checkTransaction_eq_ok_iff.mpr ⟨?_, ?_, rfl⟩, rfl⟩
    · intro txout hmem
      rw [← hvout] at hmem
      rcases hall txout hmem with hnone | ⟨m, hm, hactive, hnotcb, hvalue, hok⟩
      · exact .inl hnone
      · refine .inr ⟨m, hm, hactive, hcb.trans hnotcb, hvalue, { hok with proof := ?_ }⟩
        refine hproofs m ?_
        rw [hmarkers]
        exact List.mem_filterMap.mpr ⟨txout, hmem, hm⟩
    · rw [hmarkers]
      exact hlen

theorem neverMutated_checkBlockTx {what : String} {check : CTransaction → Except String Unit}
    {tx : CTransaction} : NeverMutated (checkBlockTx hash256 blake3 what check tx) := by
  unfold checkBlockTx
  split
  · exact neverMutated_ok
  · exact neverMutated_rejectConsensus

theorem acceptsOrMutated_forM_iff {what : String} {check : CTransaction → Except String Unit}
    {txs : List CTransaction} :
    AcceptsOrMutated (txs.forM (checkBlockTx hash256 blake3 what check)) ↔
      ∀ tx ∈ txs, check tx = .ok () := by
  have hall : txs.forM (checkBlockTx hash256 blake3 what check) = .ok () ↔
      ∀ tx ∈ txs, check tx = .ok () := by
    rw [Checked.forM_eq_ok_iff]
    exact forall₂_congr fun tx _ => checkBlockTx_eq_ok_iff
  rw [← hall]
  constructor
  · intro h
    obtain ⟨⟨⟩, hok⟩ := h.exists_ok (Checked.Raises.forM (fun _ => neverMutated_checkBlockTx) txs)
    exact hok
  · intro h
    rw [h]
    exact acceptsOrMutated_ok

/-! ## the contextual check -/

theorem contextualCheckBlock_ok
    (h : contextualCheckBlock hash256 blake3 verifier crypto params prev block = .ok ()) :
    (block.vtx.any fun tx => !isFinalTx tx (prev.nHeight + 1) (lockTimeCutoff params prev block)) =
      false ∧
    (∀ tx ∈ block.vtx, checkShielded hash256 verifier params (prev.nHeight + 1) tx = .ok ()) ∧
    checkCoinbaseHeight params (prev.nHeight + 1) block = .ok () ∧
    ∃ found, checkWitnessCommitment hash256 blake3 params (prev.nHeight + 1) block = .ok found ∧
      (found = false → block.vtx.any CTransaction.hasWitness = false) ∧
      block.header.payloadMissing = false ∧ getBlockWeight block ≤ maxBlockWeight ∧
      Mweb.contextualCheckBlock hash256 blake3 crypto prev block = .ok () := by
  obtain ⟨hfinal, h⟩ := Checked.ite_error_eq_ok.mp h
  obtain ⟨⟨⟩, hshielded, h⟩ := Checked.bind_eq_ok.mp h
  obtain ⟨⟨⟩, hheight, h⟩ := Checked.bind_eq_ok.mp h
  obtain ⟨found, hcommit, h⟩ := Checked.bind_eq_ok.mp h
  obtain ⟨hnone, h⟩ := Checked.ite_error_eq_ok.mp h
  obtain ⟨hpayload, h⟩ := Checked.ite_error_eq_ok.mp h
  obtain ⟨hweight, h⟩ := Checked.ite_error_eq_ok.mp h
  refine ⟨Bool.eq_false_iff.mpr hfinal, ?_, hheight, found, hcommit, ?_,
    Bool.eq_false_iff.mpr hpayload, Nat.not_lt.mp hweight, h⟩
  · intro tx htx
    exact checkBlockTx_eq_ok_iff.mp (Checked.forM_eq_ok_iff.mp hshielded tx htx)
  · rintro rfl
    simpa using hnone

theorem checkCoinbaseHeight_eq (hvariant : WitnessVariant block variant) :
    checkCoinbaseHeight params nHeight variant = checkCoinbaseHeight params nHeight block := by
  have hstrip : ∀ b : CBlock,
      checkCoinbaseHeight params nHeight b.stripWitness = checkCoinbaseHeight params nHeight b := by
    intro b
    have hinput : coinbaseInput b.stripWitness = (coinbaseInput b).map CTxIn.stripWitness := by
      unfold coinbaseInput CBlock.stripWitness
      cases b.vtx <;> simp [CTransaction.stripWitness]
    unfold checkCoinbaseHeight
    rw [hinput]
    cases coinbaseInput b <;> rfl
  rw [← hstrip variant, hvariant, hstrip block]

theorem any_not_isFinalTx_eq (hvariant : WitnessVariant block variant) (height time : Int) :
    (variant.vtx.any fun tx => !isFinalTx tx height time) =
      block.vtx.any fun tx => !isFinalTx tx height time := by
  have hfinal : ∀ tx : CTransaction, (!isFinalTx tx.stripWitness height time) =
      !isFinalTx tx height time := by
    intro tx
    rw [isFinalTx_stripWitness]
  rw [← any_stripWitness hfinal variant.vtx, hvariant.vtx_eq, any_stripWitness hfinal]

/-- Once the shielded check is past, a variant of an accepted block is accepted or called mutated. -/
theorem commitment_then_weight (hvariant : WitnessVariant block variant)
    (hcb : block.vtx.head?.any CTransaction.isCoinBase = true)
    (hcf : CollisionFree hash256
      (witnessPreimages hash256 blake3 block ++ witnessPreimages hash256 blake3 variant))
    (h : contextualCheckBlock hash256 blake3 verifier crypto params prev block = .ok ()) {found : Bool}
    (hfound : checkWitnessCommitment hash256 blake3 params (prev.nHeight + 1) variant = .ok found)
    (hnone : ¬ (!found && variant.vtx.any CTransaction.hasWitness) = true) :
    variant.header.payloadMissing = false ∧ getBlockWeight variant ≤ maxBlockWeight ∧
      Mweb.contextualCheckBlock hash256 blake3 crypto prev variant = .ok () := by
  obtain ⟨-, -, -, found', hfound', hnone', hpayload, hweight, hmweb⟩ := contextualCheckBlock_ok h
  have hflag : found = found' := by
    rw [checkWitnessCommitment_flag hfound, checkWitnessCommitment_flag hfound',
      hvariant.witnessCommitment_eq]
  subst hflag
  have hserialize : variant.vtx.map CTransaction.serialize =
      block.vtx.map CTransaction.serialize := by
    cases found with
    | false => exact map_serialize_of_not_hasWitness hvariant (hnone' rfl) (by simpa using hnone)
    | true => exact serialize_eq_of_commitment hvariant hcb hcf hfound' hfound
  refine ⟨?_, ?_, ?_⟩
  · rw [hvariant.header_eq]
    exact hpayload
  · rw [getBlockWeight_eq hvariant hserialize]
    exact hweight
  · rw [← mwebContextualCheckBlock_stripWitness, hvariant, mwebContextualCheckBlock_stripWitness]
    exact hmweb

/-- **Witness variants.**  A variant of an accepted block is accepted or called mutated exactly when
the proofs among its witnesses are accepted: the proofs are read before the commitment is checked. -/
theorem contextualCheckBlock_variant_iff (hvariant : WitnessVariant block variant)
    (hcb : block.vtx.head?.any CTransaction.isCoinBase = true)
    (hcf : CollisionFree hash256
      (witnessPreimages hash256 blake3 block ++ witnessPreimages hash256 blake3 variant))
    (h : contextualCheckBlock hash256 blake3 verifier crypto params prev block = .ok ()) :
    AcceptsOrMutated (contextualCheckBlock hash256 blake3 verifier crypto params prev variant) ↔
      ∀ tx ∈ variant.vtx,
        ProofsVerify hash256 verifier params.shieldedPool.fAllowScaffoldProofs tx := by
  obtain ⟨hfinal, hshielded, hheight, -⟩ := contextualCheckBlock_ok h
  have hproofs : (∀ tx ∈ variant.vtx,
      checkShielded hash256 verifier params (prev.nHeight + 1) tx = .ok ()) ↔
      ∀ tx ∈ variant.vtx,
        ProofsVerify hash256 verifier params.shieldedPool.fAllowScaffoldProofs tx := by
    refine forall₂_congr fun tx' htx' => ?_
    obtain ⟨tx, htx, hstrip⟩ := hvariant.exists_mem htx'
    exact checkShielded_variant hstrip (hshielded tx htx)
  obtain ⟨-, -, -, coinbase', rest', txin', -, hvtx', -, hvin', -, -⟩ := hvariant.coinbase hcb
  have hinput : coinbaseInput variant = some txin' := by simp [coinbaseInput, hvtx', hvin']
  have hcutoff : lockTimeCutoff params prev variant = lockTimeCutoff params prev block := by
    rw [lockTimeCutoff, hvariant.header_eq]
    rfl
  rw [← hproofs, contextualCheckBlock, hcutoff, any_not_isFinalTx_eq hvariant, hfinal,
    if_neg Bool.false_ne_true, acceptsOrMutated_bind, acceptsOrMutated_forM_iff,
    checkCoinbaseHeight_eq hvariant, hheight]
  refine ⟨And.left, fun hall => ⟨hall, fun _ _ => ?_⟩⟩
  show AcceptsOrMutated (checkWitnessCommitment hash256 blake3 params _ variant >>= fun _ => _)
  rw [acceptsOrMutated_bind]
  refine ⟨acceptsOrMutated_checkWitnessCommitment hinput, fun found hfound => ?_⟩
  rw [acceptsOrMutated_ite]
  refine ⟨fun _ => acceptsOrMutated_rejectMutated, fun hnone => ?_⟩
  obtain ⟨hpayload, hweight, hmweb⟩ := commitment_then_weight hvariant hcb hcf h hfound hnone
  rw [hpayload, if_neg Bool.false_ne_true, if_neg (Nat.not_lt.mpr hweight), hmweb]
  exact acceptsOrMutated_ok

/-! ## the index entry -/

/-- a call of `AcceptBlock` -/
def acceptCall (c : CallContext × Bool × CBlock) : Call := .accept c.1 c.2.1 c.2.2

theorem not_blames_of_variant {n : Node} (hvariant : WitnessVariant block variant)
    (hcheck : n.checkBlock block = .ok ()) (hcb : block.vtx.head?.any CTransaction.isCoinBase = true)
    (hcf : CollisionFree n.hash256
      (witnessPreimages n.hash256 n.blake3 block ++ witnessPreimages n.hash256 n.blake3 variant))
    (hcontext : n.contextualCheckBlock block = .ok ())
    (hproofs : ∀ tx ∈ variant.vtx,
      ProofsVerify n.hash256 n.verifier n.params.shieldedPool.fAllowScaffoldProofs tx) :
    ¬ Blames (n.verdict variant) := by
  have hcheck' : n.checkBlock variant = .ok () := by
    unfold Node.checkBlock at hcheck ⊢
    rw [← checkBlock_stripWitness, hvariant, checkBlock_stripWitness]
    exact hcheck
  apply not_blames_of_acceptsOrMutated
  unfold Node.verdict
  rw [hcheck']
  show AcceptsOrMutated (n.contextualCheckBlock variant)
  unfold Node.contextualCheckBlock at hcontext ⊢
  rw [hvariant.header_eq]
  exact (contextualCheckBlock_variant_iff hvariant hcb hcf hcontext).mpr hproofs

/-- **Blocks with other witnesses.**  A variant of an accepted block is accepted or called mutated
exactly when the proofs among its witnesses are accepted; in a run with only such variants the entry
of the block is never marked as invalid. -/
theorem witness_variants_blamed_iff (n : Node) (block variant : CBlock)
    (hvariant : WitnessVariant block variant)
    (hcb : block.vtx.head?.any CTransaction.isCoinBase = true)
    (hcf : CollisionFree n.hash256
      (witnessPreimages n.hash256 n.blake3 block ++ witnessPreimages n.hash256 n.blake3 variant))
    (hcontext : n.contextualCheckBlock block = .ok ()) :
    (AcceptsOrMutated (n.contextualCheckBlock variant) ↔
      ∀ tx ∈ variant.vtx,
        ProofsVerify n.hash256 n.verifier n.params.shieldedPool.fAllowScaffoldProofs tx) ∧
    (n.checkBlock block = .ok () → ∀ (s : BlockStore) (calls : List (CallContext × Bool × CBlock)),
      Holds NotFailedValid s (n.blockHash block) →
      (∀ c ∈ calls, n.blockHash c.2.2 = n.blockHash block →
        WitnessVariant block c.2.2 ∧
        CollisionFree n.hash256
          (witnessPreimages n.hash256 n.blake3 block ++ witnessPreimages n.hash256 n.blake3 c.2.2) ∧
        ∀ tx ∈ c.2.2.vtx,
          ProofsVerify n.hash256 n.verifier n.params.shieldedPool.fAllowScaffoldProofs tx) →
      Holds NotFailedValid (n.run s (calls.map acceptCall)) (n.blockHash block)) := by
  refine ⟨?_, ?_⟩
  · unfold Node.contextualCheckBlock at hcontext ⊢
    rw [hvariant.header_eq]
    exact contextualCheckBlock_variant_iff hvariant hcb hcf hcontext
  · intro hcheck s calls hs hcalls
    refine run_holds stable_notFailedValid hs ?_
    intro call hcall
    obtain ⟨c, hc, rfl⟩ := List.mem_map.mp hcall
    -- a mark for a failed ancestor is another flag
    refine ⟨fun _ _ _ _ h => h, fun hhash hblames => ?_⟩
    obtain ⟨hvar, hfree, hproofs⟩ := hcalls c hc hhash
    exact absurd hblames (not_blames_of_variant hvar hcheck hcb hfree hcontext hproofs)

end

/-! ## a block with a mint -/

def sampleNodeParams : Params where
  hashGenesisBlock := .null
  nSubsidyHalvingInterval := 840000
  bip34Height := 0
  bip34Hash := .null
  bip65Height := 0
  bip66Height := 0
  csvHeight := 0
  segwitHeight := 0
  mwebInputMetadataGrandfatherBlockhash := .null
  powLimit := 2 ^ 255
  ltcSnapshot := ⟨-1, .null, .null⟩
  auxpow := ⟨-1, 0, true⟩
  shieldedPool := ⟨0, true⟩
  frozenMwebOutputIds := []
  signetBlocks := false

def sampleNode : Node where
  hash256 := Uint256.polyHash
  blake3 := Uint256.polyHash
  scrypt := fun _ => .null
  verifier := Shielded.sampleVerifier
  crypto := ⟨fun _ => true, fun _ => true, fun _ _ => true, fun _ _ _ _ _ _ => true⟩
  signetSolution := fun _ => true
  params := sampleNodeParams
  indexOf := fun _ => ⟨1, 0, 0, .null, false, false⟩

/-- the coinbase of a block at height 2 that commits to the witnesses of the other transactions -/
def committingCoinbase (rest : List CTransaction) (reserved : Bytes) : CTransaction where
  vin := [⟨⟨.null, 0xffffffff⟩, [0x52, 0x00], sequenceFinal, [reserved]⟩]
  vout := [⟨0, [0x6a, 0x24, 0xaa, 0x21, 0xa9, 0xed] ++
    (Uint256.polyHash ((Merkle.computeMerkleRoot (merkleNode Uint256.polyHash) .null
      (.null :: rest.map (CTransaction.getWitnessHash Uint256.polyHash Uint256.polyHash))).1.data ++
        reserved)).data⟩]
  nVersion := 2
  nLockTime := 0
  mwebTx := none
  hogEx := false

/-- a block of height 2 with the given transactions after the coinbase -/
def committingBlock (rest : List CTransaction) : CBlock :=
  let vtx := committingCoinbase rest Uint256.null.data :: rest
  { header := ⟨⟨0x20000000, .ofNat 1, (Merkle.computeMerkleRoot (merkleNode Uint256.polyHash) .null
      (vtx.map (CTransaction.getHash Uint256.polyHash Uint256.polyHash))).1, 1, 0x207fffff, 0⟩, none⟩
    vtx := vtx
    mwebBlock := none }

def mintBlock : CBlock := committingBlock [Shielded.sampleMint 0 (.ofNat 5) 10]

/-- the transactions of a block with other witnesses, one stack for each first input -/
def withWitness (witnesses : List (List Bytes)) (block : CBlock) : CBlock :=
  { block with vtx := List.zipWith (fun stack tx =>
      { tx with vin := tx.vin.map fun txin => { txin with scriptWitness := stack } }) witnesses block.vtx }

def unprovedBlock : CBlock := withWitness [[Uint256.null.data], []] mintBlock

/-- the mint with its proof, the coinbase with another reserved value -/
def reservedBlock : CBlock :=
  withWitness [[(Uint256.ofNat 3).data], (Shielded.sampleMint 0 (.ofNat 5) 10).vin.flatMap
    CTxIn.scriptWitness] mintBlock

def sampleContext : CallContext where
  header := ⟨0x207fffff, 0, none⟩
  failedWalk := none
  fHasMoreOrSameWork := true
  fTooFarAhead := false
  belowMinimumWork := false
  saved := true
  invalidFound := []
  invalidAbove := []

def sampleStore : BlockStore where
  index := fun hash => if hash = .ofNat 1 then some ⟨false, false, true, 1⟩ else none
  disk := []

theorem unproved_variant_blamed :
    WitnessVariant mintBlock unprovedBlock ∧
    mintBlock.vtx.head?.any CTransaction.isCoinBase = true ∧
    CollisionFree sampleNode.hash256
      (witnessPreimages sampleNode.hash256 sampleNode.blake3 mintBlock ++
        witnessPreimages sampleNode.hash256 sampleNode.blake3 unprovedBlock) ∧
    sampleNode.checkBlock mintBlock = .ok () ∧ sampleNode.contextualCheckBlock mintBlock = .ok () ∧
    ¬ AcceptsOrMutated (sampleNode.contextualCheckBlock unprovedBlock) ∧
    ¬ Holds NotFailedValid (sampleNode.run sampleStore [acceptCall (sampleContext, true, unprovedBlock)])
      (sampleNode.blockHash mintBlock) := by
  refine ⟨show unprovedBlock.stripWitness = mintBlock.stripWitness by decide +kernel,
    by decide +kernel, by decide +kernel, by decide +kernel, by decide +kernel, by decide +kernel, ?_⟩
  intro h
  exact Bool.noConfusion (h ⟨true, false, false, 0⟩ (by decide +kernel))

theorem witness_variants_sample :
    (AcceptsOrMutated (sampleNode.contextualCheckBlock reservedBlock) ↔
      ∀ tx ∈ reservedBlock.vtx,
        ProofsVerify sampleNode.hash256 sampleNode.verifier
          sampleNode.params.shieldedPool.fAllowScaffoldProofs tx) ∧
    Holds NotFailedValid (sampleNode.run sampleStore
      ([(sampleContext, true, reservedBlock), (sampleContext, true, mintBlock)].map acceptCall))
      (sampleNode.blockHash mintBlock) := by
  have hvariant : WitnessVariant mintBlock reservedBlock :=
    show reservedBlock.stripWitness = mintBlock.stripWitness by decide +kernel
  obtain ⟨hiff, hrun⟩ := witness_variants_blamed_iff sampleNode mintBlock reservedBlock hvariant
    (by decide +kernel) (by decide +kernel) (by decide +kernel)
  refine ⟨hiff, hrun (by decide +kernel) sampleStore _ ?_ ?_⟩
  · intro status hstatus
    rw [show sampleStore.index (sampleNode.blockHash mintBlock) = none by decide +kernel] at hstatus
    cases hstatus
  · intro c hc _
    rcases List.mem_cons.mp hc with rfl | hc
    · exact ⟨hvariant, by decide +kernel, by decide +kernel⟩
    · obtain rfl := List.mem_singleton.mp hc
      exact ⟨rfl, by decide +kernel, by decide +kernel⟩

end Consensus
