import ZkCoin.Mw.ApplyFaults
import ZkCoin.Mw.HeaderBinding
import ZkCoin.Mw.UndoBlock
import ZkCoin.Mweb.HogExAmounts

/-!
# Blocks that differ in uncommitted extension-block data

Neither the HogEx marker of a transaction nor the extension block enters the hash of a block.  A peer
can therefore send a valid block with other markers or another extension block; the node must not take
the result for a verdict on the block hash.

* `HogExVariant`              — the same block up to markers and extension block.
* `contextualCheckBlock_variant`, `connectBlock_variant` — what the two checks say of a variant.
* `hogEx_variant_acceptsOrMutated_iff` — which variants are accepted or called mutated.
-/

open Bytes Script Mw

namespace Mweb

/-! ## variants -/

def withoutMarker (tx : CTransaction) : CTransaction := { tx with hogEx := false }

/-- the same header and, up to the HogEx markers, the same transactions; any extension block -/
structure HogExVariant (block variant : CBlock) : Prop where
  header_eq : variant.header = block.header
  vtx_eq : variant.vtx.map withoutMarker = block.vtx.map withoutMarker

theorem flatMap_withoutMarker {β : Type} {f : CTransaction → List β}
    (hf : ∀ tx, f (withoutMarker tx) = f tx) {txs txs' : List CTransaction}
    (h : txs'.map withoutMarker = txs.map withoutMarker) : txs'.flatMap f = txs.flatMap f := by
  have hread : ∀ l : List CTransaction, l.flatMap f = (l.map withoutMarker).flatMap f := by
    intro l
    rw [List.flatMap_map]
    exact congrArg (l.flatMap ·) (funext fun tx => (hf tx).symm)
  rw [hread txs', hread txs, h]

theorem reads_of_withoutMarker {tx tx' : CTransaction} (h : withoutMarker tx = withoutMarker tx') :
    tx.vin = tx'.vin ∧ tx.vout = tx'.vout := by
  simp only [withoutMarker, CTransaction.mk.injEq] at h
  exact ⟨h.1, h.2.1⟩

section
variable {block variant : CBlock}

theorem HogExVariant.innerTxs_eq (h : HogExVariant block variant) :
    (innerTxs variant).map withoutMarker = (innerTxs block).map withoutMarker := by
  unfold innerTxs
  rw [List.map_drop, List.map_drop, List.map_dropLast, List.map_dropLast, h.vtx_eq]

theorem HogExVariant.blockPegins_eq (h : HogExVariant block variant) :
    blockPegins (innerTxs variant) = blockPegins (innerTxs block) :=
  flatMap_withoutMarker (fun _ => rfl) h.innerTxs_eq

theorem HogExVariant.peginOutputs_eq (h : HogExVariant block variant)
    (hash256 blake3 : Bytes → Uint256) :
    (innerTxs variant).flatMap (peginOutputs hash256 blake3) =
      (innerTxs block).flatMap (peginOutputs hash256 blake3) :=
  flatMap_withoutMarker (fun _ => rfl) h.innerTxs_eq

theorem HogExVariant.getLast_eq (h : HogExVariant block variant) {hogEx : CTransaction}
    (hlast : block.vtx.getLast? = some hogEx) :
    ∃ hogEx', variant.vtx.getLast? = some hogEx' ∧ hogEx'.vin = hogEx.vin ∧
      hogEx'.vout = hogEx.vout := by
  have hmap := congrArg List.getLast? h.vtx_eq
  rw [List.getLast?_map, List.getLast?_map, hlast, Option.map_some, Option.map_eq_some_iff] at hmap
  obtain ⟨hogEx', hlast', heq⟩ := hmap
  exact ⟨hogEx', hlast', reads_of_withoutMarker heq⟩

theorem HogExVariant.exists_mem (h : HogExVariant block variant) {tx' : CTransaction}
    (htx' : tx' ∈ variant.vtx) : ∃ tx ∈ block.vtx, tx.vin = tx'.vin ∧ tx.vout = tx'.vout := by
  have hmem : withoutMarker tx' ∈ variant.vtx.map withoutMarker := List.mem_map_of_mem htx'
  rw [h.vtx_eq] at hmem
  obtain ⟨tx, htx, heq⟩ := List.mem_map.mp hmem
  exact ⟨tx, htx, reads_of_withoutMarker heq⟩

end

/-! ## before the block is stored -/

section
variable {hash256 blake3 : Bytes → Uint256} {crypto : Crypto} {prev : CBlockIndex}
  {block variant : CBlock}

structure Accepted (hash256 blake3 : Bytes → Uint256) (crypto : Crypto) (prev : CBlockIndex)
    (block : CBlock) (mwebBlock : Mw.Block) (hogEx : CTransaction) (front : CTxOut)
    (rest : List CTxOut) : Prop where
  mwebBlock_eq : block.mwebBlock = some mwebBlock
  no_pegin : (block.vtx.any fun tx => (tx.isCoinBase || tx.isHogEx) && hasPegin tx) = false
  last_eq : block.vtx.getLast? = some hogEx
  vout_eq : hogEx.vout = front :: rest
  hash_eq : mwebHogAddr front.scriptPubKey = some (mwebBlock.header.getHash blake3)
  height_eq : mwebBlock.header.height = prev.nHeight + 1
  pegins_eq : ((innerTxs block).flatMap (peginOutputs hash256 blake3)).foldlM (matchPegin hogEx)
    (if prev.prevMwebEnabled then 1 else 0) = .ok hogEx.vin.length
  valid : validateMwebBlock blake3 crypto block mwebBlock hogEx = .ok true

theorem checkHogEx_ok {mwebBlock : Mw.Block} {hogEx : CTransaction}
    (h : checkHogEx hash256 blake3 crypto prev block mwebBlock hogEx = .ok ()) :
    ∃ front rest, hogEx.vout = front :: rest ∧
      mwebHogAddr front.scriptPubKey = some (mwebBlock.header.getHash blake3) ∧
      mwebBlock.header.height = prev.nHeight + 1 ∧
      ((innerTxs block).flatMap (peginOutputs hash256 blake3)).foldlM (matchPegin hogEx)
        (if prev.prevMwebEnabled then 1 else 0) = .ok hogEx.vin.length ∧
      validateMwebBlock blake3 crypto block mwebBlock hogEx = .ok true := by
  unfold checkHogEx at h
  obtain ⟨-, h⟩ := Checked.ite_error_eq_ok.mp h
  obtain ⟨-, h⟩ := Checked.ite_error_eq_ok.mp h
  split at h
  · cases h
  rename_i front rest hvout
  split at h
  · cases h
  rename_i mwebHash haddr
  obtain ⟨hhash, h⟩ := Checked.ite_error_eq_ok.mp h
  obtain ⟨hheight, h⟩ := Checked.ite_error_eq_ok.mp h
  obtain ⟨idx, hpegins, h⟩ := Checked.bind_eq_ok.mp h
  obtain ⟨hidx, h⟩ := Checked.ite_error_eq_ok.mp h
  rw [not_not] at hhash hheight hidx
  rw [hhash] at haddr
  rw [hidx] at hpegins
  split at h
  · rename_i hvalid
    exact ⟨front, rest, hvout, haddr, hheight, hpegins, hvalid⟩
  · cases h
  · cases h

theorem accepted_of_contextualCheckBlock (henabled : prev.mwebEnabled = true)
    (h : contextualCheckBlock hash256 blake3 crypto prev block = .ok ()) :
    ∃ mwebBlock hogEx front rest,
      Accepted hash256 blake3 crypto prev block mwebBlock hogEx front rest := by
  unfold contextualCheckBlock at h
  rw [henabled, if_neg (by decide)] at h
  split at h
  · cases h
  rename_i mwebBlock hmweb
  obtain ⟨hpegin, h⟩ := Checked.ite_error_eq_ok.mp h
  split at h
  · cases h
  rename_i hogEx hlast
  obtain ⟨front, rest, hvout, hhash, hheight, hpegins, hvalid⟩ := checkHogEx_ok h
  exact ⟨mwebBlock, hogEx, front, rest, hmweb, Bool.eq_false_iff.mpr hpegin, hlast, hvout, hhash,
    hheight, hpegins, hvalid⟩

def PeginsUnmarked (variant : CBlock) : Prop :=
  ∀ tx ∈ variant.vtx, tx.isHogEx = true → hasPegin tx = false

section
variable {mwebBlock : Mw.Block} {hogEx : CTransaction} {front : CTxOut} {rest : List CTxOut}

theorem Accepted.unexpected_pegin_iff
    (h : Accepted hash256 blake3 crypto prev block mwebBlock hogEx front rest)
    (hvariant : HogExVariant block variant) :
    (variant.vtx.any fun tx => (tx.isCoinBase || tx.isHogEx) && hasPegin tx) = false ↔
      PeginsUnmarked variant := by
  rw [List.any_eq_false]
  constructor
  · intro hnone tx htx hmarked
    have hpegin := hnone tx htx
    rw [hmarked, Bool.or_true, Bool.true_and] at hpegin
    exact Bool.eq_false_iff.mpr hpegin
  · intro hunmarked tx htx
    cases hpegin : hasPegin tx with
    | false => simp
    | true =>
      -- a coinbase with a peg-in would have been found in the block itself
      obtain ⟨tx₀, htx₀, hvin, hvout⟩ := hvariant.exists_mem htx
      have hno := List.any_eq_false.mp h.no_pegin tx₀ htx₀
      have hpegin₀ : hasPegin tx₀ = true := by
        rw [hasPegin, hvout]
        exact hpegin
      have hcoinBase : tx₀.isCoinBase = tx.isCoinBase := by
        rw [CTransaction.isCoinBase, CTransaction.isCoinBase, hvin]
      rw [hpegin₀, Bool.and_true, Bool.or_eq_true, not_or] at hno
      have hmarked : ¬ tx.isHogEx = true := by
        intro hmarked
        rw [hunmarked tx htx hmarked] at hpegin
        cases hpegin
      rw [hcoinBase] at hno
      simp [hno.1, hmarked]

theorem Accepted.checkHogEx_variant
    (h : Accepted hash256 blake3 crypto prev block mwebBlock hogEx front rest)
    (hvariant : HogExVariant block variant) {mwebBlock' : Mw.Block} {hogEx' : CTransaction}
    (hvin : hogEx'.vin = hogEx.vin) (hvout : hogEx'.vout = hogEx.vout)
    (hfree : CollisionFree blake3 [mwebBlock.header.serialize, mwebBlock'.header.serialize]) :
    AcceptsOrMutated (checkHogEx hash256 blake3 crypto prev variant mwebBlock' hogEx') := by
  have hmatch : matchPegin hogEx' = matchPegin hogEx := by
    funext idx pegin
    rw [matchPegin, matchPegin, hvin]
  unfold checkHogEx
  refine acceptsOrMutated_ite.mpr ⟨fun _ => acceptsOrMutated_rejectMutated, fun _ => ?_⟩
  refine acceptsOrMutated_ite.mpr ⟨fun _ => acceptsOrMutated_rejectMutated, fun _ => ?_⟩
  rw [hvout, h.vout_eq]
  dsimp only
  rw [h.hash_eq]
  refine acceptsOrMutated_ite.mpr ⟨fun _ => acceptsOrMutated_rejectMutated, fun hhash => ?_⟩
  rw [not_not] at hhash
  have hheader := header_eq_of_getHash hfree hhash
  rw [← hheader, if_neg (not_not.mpr h.height_eq), hvariant.peginOutputs_eq, hmatch]
  refine acceptsOrMutated_bind.mpr ⟨?_, ?_⟩
  · rw [h.pegins_eq]
    exact acceptsOrMutated_ok
  · intro idx hidx
    obtain rfl := Except.ok.inj (h.pegins_eq.symm.trans hidx)
    rw [hvin, if_neg (not_not.mpr rfl)]
    obtain ⟨valid, hvalid⟩ : ∃ valid,
        validateMwebBlock blake3 crypto variant mwebBlock' hogEx' = .ok valid :=
      validateBlock_decides _ _ _
    rw [hvalid]
    cases valid with
    | true => exact acceptsOrMutated_ok
    | false => exact acceptsOrMutated_rejectMutated

theorem Accepted.contextualCheckBlock_variant
    (h : Accepted hash256 blake3 crypto prev block mwebBlock hogEx front rest)
    (henabled : prev.mwebEnabled = true) (hvariant : HogExVariant block variant)
    (hfree : ∀ mwebBlock', variant.mwebBlock = some mwebBlock' →
      CollisionFree blake3 [mwebBlock.header.serialize, mwebBlock'.header.serialize]) :
    AcceptsOrMutated (contextualCheckBlock hash256 blake3 crypto prev variant) ↔
      variant.mwebBlock = none ∨ PeginsUnmarked variant := by
  unfold contextualCheckBlock
  rw [henabled, if_neg (by decide)]
  cases hmweb : variant.mwebBlock with
  | none => simp
  | some mwebBlock' =>
    obtain ⟨hogEx', hlast, hvin, hvout⟩ := hvariant.getLast_eq h.last_eq
    have hrest := h.checkHogEx_variant hvariant hvin hvout (hfree mwebBlock' hmweb)
    rw [← h.unexpected_pegin_iff hvariant]
    simp only [hlast, acceptsOrMutated_ite, hrest, not_acceptsOrMutated_rejectConsensus, imp_false,
      implies_true, and_true, Bool.not_eq_true, reduceCtorEq, false_or]

end

end

/-! ## when the block is connected -/

def Unfrozen (params : Consensus.Params) (body : TxBody) : Prop :=
  ∀ id ∈ body.getSpentIds, id ∉ params.frozenMwebOutputIds

theorem checkFrozen_acceptsOrMutated {params : Consensus.Params} {body : TxBody} :
    AcceptsOrMutated (checkFrozen params.frozenMwebOutputIds body.inputs) ↔ Unfrozen params body := by
  unfold checkFrozen Unfrozen TxBody.getSpentIds
  rw [List.forall_mem_map]
  cases hfind : body.inputs.find? fun input =>
      params.frozenMwebOutputIds.contains input.outputId with
  | none =>
    rw [List.find?_eq_none] at hfind
    simpa using hfind
  | some input =>
    have hfrozen := List.find?_some hfind
    have hmem := List.mem_of_find?_eq_some hfind
    simp only [not_acceptsOrMutated_rejectConsensus, false_iff, not_forall, not_not]
    exact ⟨input, hmem, by simpa using hfrozen⟩

section
variable {hash256 blake3 : Bytes → Uint256} {kernelSums : KernelSums} {params : Consensus.Params}
  {prev : CBlockIndex} {block variant : CBlock} {base : View} {cache : CacheLayer}

theorem allowHistoricalMetadataMismatch_variant (h : HogExVariant block variant) :
    allowHistoricalMetadataMismatch hash256 params variant =
      allowHistoricalMetadataMismatch hash256 params block := by
  rw [allowHistoricalMetadataMismatch, allowHistoricalMetadataMismatch, h.header_eq]

theorem applyMwebBlock_acceptsOrMutated (hinv : ViewInvariant blake3 (.cache base cache))
    (mwebBlock : Mw.Block) :
    AcceptsOrMutated
      (applyMwebBlock hash256 blake3 kernelSums params block mwebBlock base cache) := by
  obtain ⟨s, hshows, hsound, -⟩ := hinv
  have hraises : Checked.Raises Fault.IsValidation (cache.applyBlock blake3 kernelSums base mwebBlock
      (allowHistoricalMetadataMismatch hash256 params block)) := applyBlock_raises hshows hsound
  unfold applyMwebBlock
  split
  · exact acceptsOrMutated_ok
  · rename_i hfault
    obtain ⟨e, he⟩ := hraises _ hfault
    cases he
  · exact acceptsOrMutated_rejectMutated

theorem applyMwebBlock_eq_ok {mwebBlock : Mw.Block} {applied : BlockUndo × View} :
    applyMwebBlock hash256 blake3 kernelSums params block mwebBlock base cache = .ok applied ↔
      cache.applyBlock blake3 kernelSums base mwebBlock
        (allowHistoricalMetadataMismatch hash256 params block) = .ok applied := by
  unfold applyMwebBlock
  split
  · rename_i applied' happly
    rw [happly, Except.ok.injEq, Except.ok.injEq]
  · rename_i hfault
    rw [hfault]
    constructor <;> exact nofun
  · rename_i hfault
    rw [hfault]
    constructor <;> exact nofun

structure Connected (hash256 blake3 : Bytes → Uint256) (kernelSums : KernelSums)
    (params : Consensus.Params) (prev : CBlockIndex) (block : CBlock) (base : View)
    (cache : CacheLayer) (mwebBlock : Mw.Block) (hogEx : CTransaction) (amount : Int)
    (applied : BlockUndo × View) : Prop where
  input_ok : checkHogExInput prev hogEx = .ok ()
  pegins_eq : (blockPegins (innerTxs block)).foldlM addPegin prev.mwebAmount = .ok amount
  amounts_ok : checkAmounts prev hogEx amount mwebBlock.body.getTotalFee
    mwebBlock.body.getSupplyChange = .ok ()
  apply_eq : cache.applyBlock blake3 kernelSums base mwebBlock
    (allowHistoricalMetadataMismatch hash256 params block) = .ok applied
  unfrozen : Unfrozen params mwebBlock.body

variable {mwebBlock : Mw.Block} {hogEx : CTransaction}

theorem connected_of_connectBlock (hmweb : block.mwebBlock = some mwebBlock)
    (hlast : block.vtx.getLast? = some hogEx) {result : Option BlockUndo × View}
    (h : connectBlock hash256 blake3 kernelSums params prev block base cache = .ok result) :
    ∃ amount applied, Connected hash256 blake3 kernelSums params prev block base cache mwebBlock
      hogEx amount applied ∧ result = (some applied.1, applied.2) := by
  unfold connectBlock at h
  simp only [hmweb, hlast] at h
  obtain ⟨⟨⟩, hinput, h⟩ := Checked.bind_eq_ok.mp h
  obtain ⟨amount, hpegins, h⟩ := Checked.bind_eq_ok.mp h
  obtain ⟨⟨⟩, hamounts, h⟩ := Checked.bind_eq_ok.mp h
  obtain ⟨applied, happly, h⟩ := Checked.bind_eq_ok.mp h
  obtain ⟨⟨⟩, hfrozen, h⟩ := Checked.bind_eq_ok.mp h
  refine ⟨amount, applied, ⟨hinput, hpegins, hamounts, applyMwebBlock_eq_ok.mp happly, ?_⟩,
    (Except.ok.inj h).symm⟩
  rw [← checkFrozen_acceptsOrMutated, hfrozen]
  exact acceptsOrMutated_ok

/-- the verdict on a variant: its extension block has to have the amounts of the block's and, where
it can be applied, must not spend a frozen output -/
theorem Connected.connectBlock_variant {amount : Int} {applied : BlockUndo × View}
    (h : Connected hash256 blake3 kernelSums params prev block base cache mwebBlock hogEx amount
      applied) (hlast : block.vtx.getLast? = some hogEx)
    (hinv : ViewInvariant blake3 (.cache base cache)) (hvariant : HogExVariant block variant)
    {mwebBlock' : Mw.Block} (hmweb : variant.mwebBlock = some mwebBlock') :
    AcceptsOrMutated (connectBlock hash256 blake3 kernelSums params prev variant base cache) ↔
      mwebBlock'.body.getTotalFee = mwebBlock.body.getTotalFee ∧
      mwebBlock'.body.getSupplyChange = mwebBlock.body.getSupplyChange ∧
      ∀ applied', cache.applyBlock blake3 kernelSums base mwebBlock'
          (allowHistoricalMetadataMismatch hash256 params block) = .ok applied' →
        Unfrozen params mwebBlock'.body := by
  obtain ⟨hogEx', hlast', hvin, hvout⟩ := hvariant.getLast_eq hlast
  have hinput : checkHogExInput prev hogEx' = .ok () := by
    rw [← h.input_ok, checkHogExInput, checkHogExInput, hvin]
  have hamounts : checkAmounts prev hogEx' amount mwebBlock.body.getTotalFee
      mwebBlock.body.getSupplyChange = .ok () := by
    have hvalue : getValueOut hogEx' = getValueOut hogEx := by
      unfold getValueOut
      rw [hvout]
    rw [← h.amounts_ok]
    unfold checkAmounts
    rw [hvalue, hvout]
  unfold connectBlock
  simp only [hmweb, hlast', hinput, hvariant.blockPegins_eq, h.pegins_eq, acceptsOrMutated_bind,
    acceptsOrMutated_ok, true_and, Except.ok.injEq, forall_eq', forall_const,
    checkAmounts_acceptsOrMutated hamounts, applyMwebBlock_acceptsOrMutated hinv,
    applyMwebBlock_eq_ok, allowHistoricalMetadataMismatch_variant hvariant,
    checkFrozen_acceptsOrMutated, implies_true, and_true, and_assoc]
  refine and_congr_right fun hfee => and_congr_right fun hsupply => ?_
  rw [hfee, hsupply, hamounts]
  simp

end

/-! ## the verdicts together -/

/-- nothing that is hashed for the two extension blocks on the view collides -/
structure HashesApart (blake3 : Bytes → Uint256) (kernelSums : KernelSums) (base : View)
    (cache : CacheLayer) (allow : Bool) (mwebBlock mwebBlock' : Mw.Block) : Prop where
  headers : CollisionFree blake3 [mwebBlock.header.serialize, mwebBlock'.header.serialize]
  kernelLeaves : CollisionFree blake3
    (mwebBlock.kernelLeafPreimages ++ mwebBlock'.kernelLeafPreimages)
  kernelNodes : Mmr.PairsApart (calcParentHash blake3)
    (hashedNodes blake3 (mwebBlock.kernelNodes blake3) ++
      hashedNodes blake3 (mwebBlock'.kernelNodes blake3))
  outputLeaves : CollisionFree blake3
    (mwebBlock.body.outputLeafPreimages blake3 (View.cache base cache).numLeaves ++
      mwebBlock'.body.outputLeafPreimages blake3 (View.cache base cache).numLeaves)
  views : ∀ applied applied',
    cache.applyBlock blake3 kernelSums base mwebBlock allow = .ok applied →
    cache.applyBlock blake3 kernelSums base mwebBlock' allow = .ok applied' →
    ViewsApart blake3 applied.2 applied'.2

section
variable {hash256 blake3 : Bytes → Uint256} {crypto : Crypto} {params : Consensus.Params}
  {prev : CBlockIndex} {block variant : CBlock} {base : View} {cache : CacheLayer}
  {mwebBlock mwebBlock' : Mw.Block} {hogEx hogEx' : CTransaction} {front front' : CTxOut}
  {rest rest' : List CTxOut}

theorem Accepted.header_eq
    (h : Accepted hash256 blake3 crypto prev block mwebBlock hogEx front rest)
    (h' : Accepted hash256 blake3 crypto prev variant mwebBlock' hogEx' front' rest')
    (hvout : hogEx'.vout = hogEx.vout)
    (hfree : CollisionFree blake3 [mwebBlock.header.serialize, mwebBlock'.header.serialize]) :
    mwebBlock.header = mwebBlock'.header := by
  have hfront : front' = front := by
    have hcons := h'.vout_eq
    rw [hvout, h.vout_eq] at hcons
    exact (List.cons.inj hcons).1.symm
  have hhash := h'.hash_eq
  rw [hfront, h.hash_eq] at hhash
  exact header_eq_of_getHash hfree (Option.some.inj hhash)

theorem Accepted.feeSum_eq
    (h : Accepted hash256 blake3 crypto prev block mwebBlock hogEx front rest)
    (h' : Accepted hash256 blake3 crypto prev variant mwebBlock' hogEx' front' rest')
    (hheader : mwebBlock.header = mwebBlock'.header)
    (hleaves : CollisionFree blake3
      (mwebBlock.kernelLeafPreimages ++ mwebBlock'.kernelLeafPreimages))
    (hnodes : Mmr.PairsApart (calcParentHash blake3)
      (hashedNodes blake3 (mwebBlock.kernelNodes blake3) ++
        hashedNodes blake3 (mwebBlock'.kernelNodes blake3))) :
    mwebBlock'.body.feeSum = mwebBlock.body.feeSum := by
  obtain ⟨-, nodes, hrange⟩ := Block.validate_ok (validateBlock_true h.valid).1
  obtain ⟨-, nodes', hrange'⟩ := Block.validate_ok (validateBlock_true h'.valid).1
  rw [hrange.nodes_eq, hrange'.nodes_eq] at hnodes
  have hbytes := kernels_serialize_eq hrange hrange' hheader hleaves hnodes
  rw [TxBody.feeSum, TxBody.feeSum, fees_eq_of_serialize hbytes]

/-- two blocks that a sound view takes under one header spend the same outputs -/
theorem unfrozen_of_applyBlock {kernelSums : KernelSums} {allow : Bool}
    {applied applied' : BlockUndo × View} (hinv : ViewInvariant blake3 (.cache base cache))
    (happly : cache.applyBlock blake3 kernelSums base mwebBlock allow = .ok applied)
    (happly' : cache.applyBlock blake3 kernelSums base mwebBlock' allow = .ok applied')
    (hheader : mwebBlock.header = mwebBlock'.header)
    (hapart : HashesApart blake3 kernelSums base cache allow mwebBlock mwebBlock')
    (hunfrozen : Unfrozen params mwebBlock.body) : Unfrozen params mwebBlock'.body := by
  obtain ⟨s, hshows, hsound, -⟩ := hinv
  obtain ⟨s₁, hs₁, -, -, hsound₁, hcheck₁, -, happlies₁, -⟩ :=
    applyBlock_shows hshows hsound (.zero base) happly
  obtain ⟨s₂, hs₂, -, -, hsound₂, hcheck₂, -, happlies₂, -⟩ :=
    applyBlock_shows hshows hsound (.zero base) happly'
  have hleaves := hapart.outputLeaves
  rw [hshows.numLeaves_eq] at hleaves
  rw [← hheader] at hcheck₂
  intro id hid
  refine hunfrozen id ((spentIds_iff hs₁ hs₂ hsound₁ hsound₂ ?_ hcheck₁ hcheck₂ happlies₁ happlies₂
    hleaves id).mpr hid)
  exact hapart.views applied applied' happly happly'

theorem connectBlock_of_accepted_variant {amount : Int} {applied : BlockUndo × View}
    (hamount : moneyRange prev.mwebAmount = true) (hinv : ViewInvariant blake3 (.cache base cache))
    (h : Accepted hash256 blake3 crypto prev block mwebBlock hogEx front rest)
    (hconnected : Connected hash256 blake3 crypto.kernelSums params prev block base cache mwebBlock
      hogEx amount applied)
    (hvariant : HogExVariant block variant)
    (h' : Accepted hash256 blake3 crypto prev variant mwebBlock' hogEx' front' rest')
    (hapart : HashesApart blake3 crypto.kernelSums base cache
      (allowHistoricalMetadataMismatch hash256 params block) mwebBlock mwebBlock') :
    AcceptsOrMutated
      (connectBlock hash256 blake3 crypto.kernelSums params prev variant base cache) := by
  have hvout : hogEx'.vout = hogEx.vout := by
    obtain ⟨last, hlast, -, hvout⟩ := hvariant.getLast_eq h.last_eq
    obtain rfl := Option.some.inj (hlast.symm.trans h'.last_eq)
    exact hvout
  have hheader := h.header_eq h' hvout hapart.headers
  obtain ⟨-, hin, hout⟩ := validateBlock_true h.valid
  obtain ⟨-, hin', hout'⟩ := validateBlock_true h'.valid
  rw [hvariant.blockPegins_eq] at hin'
  rw [hogExPegouts, hvout, ← hogExPegouts] at hout'
  obtain ⟨hfee, hsupply⟩ := amounts_eq hamount hconnected.pegins_eq hconnected.amounts_ok hin hin'
    hout hout' (h.feeSum_eq h' hheader hapart.kernelLeaves hapart.kernelNodes)
  rw [hconnected.connectBlock_variant h.last_eq hinv hvariant h'.mwebBlock_eq]
  refine ⟨hfee, hsupply, fun applied' happly' => ?_⟩
  exact unfrozen_of_applyBlock hinv hconnected.apply_eq happly' hheader hapart hconnected.unfrozen

/-- the extension block of a variant has the amounts of the block's, and spends no frozen output if
the view takes it -/
def ConnectsAlike (hash256 blake3 : Bytes → Uint256) (kernelSums : KernelSums)
    (params : Consensus.Params) (block variant : CBlock) (base : View) (cache : CacheLayer) : Prop :=
  ∀ mwebBlock mwebBlock', block.mwebBlock = some mwebBlock → variant.mwebBlock = some mwebBlock' →
    mwebBlock'.body.getTotalFee = mwebBlock.body.getTotalFee ∧
    mwebBlock'.body.getSupplyChange = mwebBlock.body.getSupplyChange ∧
    ∀ applied', cache.applyBlock blake3 kernelSums base mwebBlock'
        (allowHistoricalMetadataMismatch hash256 params block) = .ok applied' →
      Unfrozen params mwebBlock'.body

/-- **Variants.**  Another version of the uncommitted data of an accepted block is accepted or called
mutated exactly when it has no extension block or marks no transaction with a peg-in as HogEx; by each
check on its own, when moreover the amounts are the same and no frozen output is spent. -/
theorem hogEx_variant_acceptsOrMutated_iff {connected : Option BlockUndo × View}
    (henabled : prev.mwebEnabled = true) (hamount : moneyRange prev.mwebAmount = true)
    (hinv : ViewInvariant blake3 (.cache base cache))
    (hcheck : contextualCheckBlock hash256 blake3 crypto prev block = .ok ())
    (hconnect : connectBlock hash256 blake3 crypto.kernelSums params prev block base cache =
      .ok connected)
    (hvariant : HogExVariant block variant)
    (hapart : ∀ mwebBlock mwebBlock', block.mwebBlock = some mwebBlock →
      variant.mwebBlock = some mwebBlock' →
      HashesApart blake3 crypto.kernelSums base cache
        (allowHistoricalMetadataMismatch hash256 params block) mwebBlock mwebBlock') :
    (AcceptsOrMutated (contextualCheckBlock hash256 blake3 crypto prev variant) ∧
      (contextualCheckBlock hash256 blake3 crypto prev variant = .ok () →
        AcceptsOrMutated
          (connectBlock hash256 blake3 crypto.kernelSums params prev variant base cache)) ↔
      variant.mwebBlock = none ∨ PeginsUnmarked variant) ∧
    (AcceptsOrMutated (contextualCheckBlock hash256 blake3 crypto prev variant) ∧
      AcceptsOrMutated
        (connectBlock hash256 blake3 crypto.kernelSums params prev variant base cache) ↔
      (variant.mwebBlock = none ∨ PeginsUnmarked variant) ∧
        ConnectsAlike hash256 blake3 crypto.kernelSums params block variant base cache) := by
  obtain ⟨m, hogEx, front, rest, haccepted⟩ := accepted_of_contextualCheckBlock henabled hcheck
  obtain ⟨amount, applied, hconnected, -⟩ :=
    connected_of_connectBlock haccepted.mwebBlock_eq haccepted.last_eq hconnect
  have hcontextual := haccepted.contextualCheckBlock_variant henabled hvariant
    fun m' hm' => (hapart m m' haccepted.mwebBlock_eq hm').headers
  refine ⟨?_, ?_⟩
  · rw [hcontextual]
    refine and_iff_left fun hok => ?_
    obtain ⟨m', hogEx', front', rest', haccepted'⟩ := accepted_of_contextualCheckBlock henabled hok
    exact connectBlock_of_accepted_variant hamount hinv haccepted hconnected hvariant haccepted'
      (hapart m m' haccepted.mwebBlock_eq haccepted'.mwebBlock_eq)
  · rw [hcontextual]
    refine and_congr_right fun _ => ?_
    cases hm' : variant.mwebBlock with
    | none =>
      have hnone : connectBlock hash256 blake3 crypto.kernelSums params prev variant base cache =
          .ok (none, .cache base cache) := by
        rw [connectBlock, hm']
      rw [hnone]
      refine iff_of_true acceptsOrMutated_ok fun _ _ _ hsome => ?_
      rw [hm'] at hsome
      cases hsome
    | some m' =>
      rw [hconnected.connectBlock_variant haccepted.last_eq hinv hvariant hm']
      constructor
      · intro h n n' hn hn'
        obtain rfl := Option.some.inj (haccepted.mwebBlock_eq.symm.trans hn)
        obtain rfl := Option.some.inj (hm'.symm.trans hn')
        exact h
      · intro h
        exact h m m' haccepted.mwebBlock_eq hm'

end

/-! ## a block with one peg-in -/

def sampleCrypto : Crypto := ⟨fun _ => true, fun _ => true, fun _ _ => true, fun _ _ _ _ _ _ => true⟩

def sampleParams : Consensus.Params where
  hashGenesisBlock := .null
  nSubsidyHalvingInterval := 840000
  bip34Height := 0
  bip34Hash := .null
  bip65Height := 0
  bip66Height := 0
  csvHeight := 0
  segwitHeight := 0
  mwebInputMetadataGrandfatherBlockhash := .null
  powLimit := 2 ^ 255
  ltcSnapshot := ⟨-1, .null, .null⟩
  auxpow := ⟨-1, 0, true⟩
  shieldedPool := ⟨0, false⟩
  frozenMwebOutputIds := []
  signetBlocks := false

def samplePrev : CBlockIndex := ⟨1, 0, 0, .ofNat 9, true, true⟩

def peginKernel : Kernel where
  features := 0x02
  fee := none
  pegin := some 5
  pegouts := []
  lockHeight := none
  stealthExcess := none
  extraData := []
  excess := .zero 33
  signature := .zero 64

theorem peginHeight_range : VarIntRange 32 (some 2) := by decide

theorem peginKernels_range : 1 < 2 ^ 64 := by decide

def peginMwebBlock : Mw.Block where
  header := { sampleParent with
    height := 2
    kernelRoot := (Leaf.create Uint256.polyHash 0 peginKernel.serialize).hash
    numKernels := 1
    height_range := peginHeight_range
    numKernels_range := peginKernels_range }
  body := ⟨[], [], [peginKernel]⟩

def plainTx (vin : List COutPoint) (vout : List CTxOut) (hogEx : Bool) : CTransaction where
  vin := vin.map fun prevout => ⟨prevout, [], 0, []⟩
  vout := vout
  nVersion := 2
  nLockTime := 0
  mwebTx := none
  hogEx := hogEx

/-- the transaction that pegs in, with or without the HogEx marker -/
def peginTx (hogEx : Bool) : CTransaction :=
  plainTx [⟨.ofNat 7, 0⟩]
    [⟨5, 0x59 :: 0x20 :: (peginKernel.getHash Uint256.polyHash).data⟩] hogEx

def sampleHogEx : CTransaction :=
  plainTx [⟨.ofNat 9, 0⟩, ⟨(peginTx false).getHash Uint256.polyHash Uint256.polyHash, 0⟩]
    [⟨5, 0x58 :: 0x20 :: (peginMwebBlock.header.getHash Uint256.polyHash).data⟩] true

def peginBlock (marked : Bool) : CBlock where
  header := ⟨⟨2, .null, .null, 0, 0, 0⟩, none⟩
  vtx := [plainTx [⟨.null, 0xffffffff⟩] [⟨0, []⟩] false, peginTx marked, sampleHogEx]
  mwebBlock := some peginMwebBlock

def sampleBase : View := emptyView (some sampleParent)

def sampleContextualCheck (block : CBlock) : Except BlockFault Unit :=
  contextualCheckBlock Uint256.polyHash Uint256.polyHash sampleCrypto samplePrev block

def sampleConnect (block : CBlock) : Except BlockFault (Option BlockUndo × View) :=
  connectBlock Uint256.polyHash Uint256.polyHash sampleCrypto.kernelSums sampleParams samplePrev block
    sampleBase (.fresh sampleBase)

theorem sampleBase_invariant :
    ViewInvariant Uint256.polyHash (.cache sampleBase (.fresh sampleBase)) := by
  apply ViewInvariant.fresh
  apply emptyView_invariant
  rintro header ⟨⟩
  decide +kernel

theorem peginBlock_variant : HogExVariant (peginBlock false) (peginBlock true) := ⟨rfl, rfl⟩

theorem peginBlock_hashesApart : HashesApart Uint256.polyHash sampleCrypto.kernelSums sampleBase
    (.fresh sampleBase) (allowHistoricalMetadataMismatch Uint256.polyHash sampleParams
      (peginBlock false)) peginMwebBlock peginMwebBlock where
  headers := by decide +kernel
  kernelLeaves := by decide +kernel
  kernelNodes := by decide +kernel
  outputLeaves := by decide +kernel
  views := by
    intro applied applied' h h'
    obtain rfl := Except.ok.inj (h.symm.trans h')
    have hnodes : ((CacheLayer.fresh sampleBase).applyBlock Uint256.polyHash
        sampleCrypto.kernelSums sampleBase peginMwebBlock (allowHistoricalMetadataMismatch
          Uint256.polyHash sampleParams (peginBlock false))).map (fun applied => applied.2.nodes) =
        .ok [] := by decide +kernel
    obtain ⟨applied', happlied', hnil⟩ := Checked.map_eq_ok.mp hnodes
    obtain rfl := Except.ok.inj (h.symm.trans happlied')
    refine ⟨?_, ?_⟩
    · rw [hnil]
      decide +kernel
    · intro p hp q hq _
      simp only [List.mem_cons, List.not_mem_nil, or_false, or_self] at hp hq
      rw [hp, hq]

theorem hogEx_variant_sample : ∃ connected,
    sampleContextualCheck (peginBlock false) = .ok () ∧
      sampleConnect (peginBlock false) = .ok connected ∧
      (AcceptsOrMutated (sampleContextualCheck (peginBlock true)) ∧
        (sampleContextualCheck (peginBlock true) = .ok () →
          AcceptsOrMutated (sampleConnect (peginBlock true))) ↔
        (peginBlock true).mwebBlock = none ∨ PeginsUnmarked (peginBlock true)) := by
  have hcheck : sampleContextualCheck (peginBlock false) = .ok () := by decide +kernel
  have hconnect : (sampleConnect (peginBlock false)).isOk = true := by decide +kernel
  obtain ⟨connected, hconnected⟩ := Checked.exists_of_isOk hconnect
  refine ⟨connected, hcheck, hconnected, ?_⟩
  refine (hogEx_variant_acceptsOrMutated_iff rfl (by decide) sampleBase_invariant hcheck hconnected
    peginBlock_variant ?_).1
  rintro mwebBlock mwebBlock' ⟨⟩ ⟨⟩
  exact peginBlock_hashesApart

/-- marking the peg-in as HogEx makes the block invalid for good -/
theorem marked_pegin_rejected :
    ViewInvariant Uint256.polyHash (.cache sampleBase (.fresh sampleBase)) ∧
      sampleContextualCheck (peginBlock false) = .ok () ∧
      (sampleConnect (peginBlock false)).isOk = true ∧
      HogExVariant (peginBlock false) (peginBlock true) ∧
      sampleContextualCheck (peginBlock true) =
        rejectConsensus "bad-tx-unexpected-pegin" "Pegin found in coinbase or HogEx" :=
  ⟨sampleBase_invariant, by decide +kernel, by decide +kernel, peginBlock_variant,
    by decide +kernel⟩

end Mweb
