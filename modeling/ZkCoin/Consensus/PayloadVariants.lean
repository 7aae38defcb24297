import ZkCoin.Consensus.WitnessVariants

/-!
# Blocks that differ in their merge-mining payload

The hash of a block covers neither the payload nor its size, but the weight of a block counts the
payload, the witness of the parent coinbase included.  A peer can replace the payload of a valid block
by another valid one.

* `PayloadVariant`                 — the same block up to the payload.
* `contextualCheckBlock_payload`   — all that the contextual check sees of the payload is its weight.
* `payload_variants_blamed_iff`    — which variants mark the entry of the block as invalid.
-/

open Bytes

namespace Consensus

structure PayloadVariant (block variant : CBlock) : Prop where
  pure_eq : variant.header.toCPureBlockHeader = block.header.toCPureBlockHeader
  vtx_eq : variant.vtx = block.vtx
  mwebBlock_eq : variant.mwebBlock = block.mwebBlock

section
variable {hash256 blake3 : Bytes → Uint256} {verifier : Shielded.Verifier} {crypto : Mw.Crypto}
  {params : Params} {prev : CBlockIndex} {block variant : CBlock}

theorem contextualCheckBlock_payload (hvariant : PayloadVariant block variant)
    (h : contextualCheckBlock hash256 blake3 verifier crypto params prev block = .ok ()) :
    contextualCheckBlock hash256 blake3 verifier crypto params prev variant =
      if variant.header.payloadMissing then aborts
      else if getBlockWeight variant > maxBlockWeight then
        rejectConsensus "bad-blk-weight" "ContextualCheckBlock : weight limit failed"
      else .ok () := by
  obtain ⟨header, vtx, mwebBlock⟩ := block
  obtain ⟨header', vtx', mwebBlock'⟩ := variant
  obtain ⟨hpure, hvtx, hblock⟩ := hvariant
  dsimp only at hpure hvtx hblock
  subst hvtx hblock
  obtain ⟨hfinal, hshielded, hheight, found, hfound, hnone, -, -, hmweb⟩ := contextualCheckBlock_ok h
  have hcutoff : lockTimeCutoff params prev ⟨header', vtx', mwebBlock'⟩ =
      lockTimeCutoff params prev ⟨header, vtx', mwebBlock'⟩ := by
    simp only [lockTimeCutoff]
    rw [show header'.nTime = header.nTime from congrArg CPureBlockHeader.nTime hpure]
  have hloop : vtx'.forM (checkBlockTx hash256 blake3 "Shielded pool transaction check failed"
      (checkShielded hash256 verifier params (prev.nHeight + 1))) = .ok () :=
    Checked.forM_eq_ok_iff.mpr fun tx htx => checkBlockTx_eq_ok_iff.mpr (hshielded tx htx)
  have hwitness : (!found && vtx'.any CTransaction.hasWitness) = false := by
    cases found with
    | true => rfl
    | false => exact hnone rfl
  unfold contextualCheckBlock
  dsimp only at hfinal ⊢
  rw [hcutoff, hfinal, if_neg Bool.false_ne_true, hloop,
    show checkCoinbaseHeight params (prev.nHeight + 1) ⟨header', vtx', mwebBlock'⟩ = .ok () from hheight,
    show checkWitnessCommitment hash256 blake3 params (prev.nHeight + 1) ⟨header', vtx', mwebBlock'⟩ =
      .ok found from hfound]
  show (if (!found && vtx'.any CTransaction.hasWitness) = true then _ else _) = _
  rw [hwitness, if_neg Bool.false_ne_true,
    show Mweb.contextualCheckBlock hash256 blake3 crypto prev ⟨header', vtx', mwebBlock'⟩ = .ok ()
      from hmweb]

end

section
variable {n : Node} {block variant : CBlock}

theorem PayloadVariant.blockHash_eq (h : PayloadVariant block variant) :
    n.blockHash variant = n.blockHash block := by
  unfold Node.blockHash
  rw [h.pure_eq]

theorem payloadMissing_of_checkBlock (h : n.checkBlock variant = .ok ()) :
    variant.header.payloadMissing = false := by
  have hwork := proofOfWork_of_checkBlock h
  unfold checkBlockProofOfWork at hwork
  unfold CBlockHeader.payloadMissing
  cases haux : variant.header.isAuxpow with
  | false => rfl
  | true =>
    rw [haux] at hwork
    cases hpayload : variant.header.auxpow with
    | none =>
      rw [hpayload] at hwork
      cases hwork
    | some _ => rfl

/-- the verdict on a variant that passes its own check is a matter of its weight -/
theorem verdict_payload (hvariant : PayloadVariant block variant)
    (hcontext : n.contextualCheckBlock block = .ok ()) (hcheck : n.checkBlock variant = .ok ()) :
    n.verdict variant = if getBlockWeight variant > maxBlockWeight then
      rejectConsensus "bad-blk-weight" "ContextualCheckBlock : weight limit failed" else .ok () := by
  unfold Node.verdict
  rw [hcheck]
  show n.contextualCheckBlock variant = _
  unfold Node.contextualCheckBlock at hcontext ⊢
  rw [show variant.header.hashPrevBlock = block.header.hashPrevBlock from
    congrArg CPureBlockHeader.hashPrevBlock hvariant.pure_eq,
    contextualCheckBlock_payload hvariant hcontext, payloadMissing_of_checkBlock hcheck,
    if_neg Bool.false_ne_true]

theorem blames_payload_iff (hvariant : PayloadVariant block variant)
    (hcontext : n.contextualCheckBlock block = .ok ()) (hcheck : n.checkBlock variant = .ok ()) :
    Blames (n.verdict variant) ↔ maxBlockWeight < getBlockWeight variant := by
  rw [verdict_payload hvariant hcontext hcheck]
  split
  · rename_i hweight
    exact ⟨fun _ => hweight, fun _ => ⟨_, rfl, nofun⟩⟩
  · rename_i hweight
    exact ⟨nofun, fun h => absurd h hweight⟩

/-! ## the index entry -/

/-- a call reads nothing from the chain that holds the block of `hash` for invalid -/
structure Harmless (hash : Uint256) (ctx : CallContext) : Prop where
  walk : ∀ walk, ctx.failedWalk = some walk → hash ∉ walk
  found : hash ∉ ctx.invalidFound
  above : hash ∉ ctx.invalidAbove

/-- a call that feeds blocks or headers, those with the hash of `block` equal to it up to the payload,
and no accepted payload too heavy -/
def PayloadCall (n : Node) (block : CBlock) : Call → Prop
  | .accept .. => False
  | .process ctx _ variant => Harmless (n.blockHash block) ctx ∧
      (n.blockHash variant = n.blockHash block → PayloadVariant block variant ∧
        (n.checkBlock variant = .ok () → getBlockWeight variant ≤ maxBlockWeight))
  | .headers headers => ∀ c ∈ headers, Harmless (n.blockHash block) c.1 ∧
      (c.2.getHash n.hash256 = n.blockHash block →
        c.2.toCPureBlockHeader = block.header.toCPureBlockHeader)

theorem PayloadCall.keeps (hcontext : n.contextualCheckBlock block = .ok ()) {call : Call}
    (h : PayloadCall n block call) : Keeps n NotFailed (n.blockHash block) call := by
  cases call with
  | accept ctx fRequested variant => exact h.elim
  | process ctx fForceProcessing variant =>
    obtain ⟨hctx, hvariant⟩ := h
    refine ⟨fun walk hwalk hmem => absurd hmem (hctx.walk walk hwalk), ?_,
      fun hmem => absurd hmem hctx.found, fun hmem => absurd hmem hctx.above⟩
    intro hhash hcheck hblames
    obtain ⟨hv, hweight⟩ := hvariant hhash
    have := (blames_payload_iff hv hcontext hcheck).mp hblames
    have := hweight hcheck
    omega
  | headers headers =>
    intro c hc walk hwalk hmem
    exact absurd hmem ((h c hc).1.walk walk hwalk)

variable {s : BlockStore} {status : BlockStatus} {ctx : CallContext}

theorem acceptBlockHeader_known {header : CBlockHeader}
    (hentry : s.index (header.getHash n.hash256) = some status) (hfailed : status.failed = false) :
    n.acceptBlockHeader ctx header s = (.ok (), s) := by
  unfold Node.acceptBlockHeader
  simp only [hentry, hfailed, Bool.false_eq_true, and_false, if_false]

theorem acceptBlock_known (hentry : s.index (n.blockHash block) = some status)
    (hfailed : status.failed = false) :
    n.acceptBlock ctx true block s = n.acceptBody ctx true block status s := by
  unfold Node.acceptBlock
  rw [acceptBlockHeader_known hentry hfailed]
  simp only [hentry]

theorem holds_processNewBlock_iff (hvariant : PayloadVariant block variant)
    (hcontext : n.contextualCheckBlock block = .ok ()) (hctx : Harmless (n.blockHash block) ctx)
    (hentry : s.index (n.blockHash block) = some status) (hfailed : status.failed = false)
    (hdata : status.haveData = false) :
    Holds NotFailed (n.processNewBlock ctx true variant s).2 (n.blockHash block) ↔
      (n.checkBlock variant = .ok () → getBlockWeight variant ≤ maxBlockWeight) := by
  have hentry' : s.index (n.blockHash variant) = some status := by
    rw [hvariant.blockHash_eq]
    exact hentry
  constructor
  · intro hholds hcheck
    by_contra hweight
    -- the entry is marked when the body is rejected for its weight
    have hverdict := verdict_payload hvariant hcontext hcheck
    rw [if_pos (Nat.lt_of_not_le hweight)] at hverdict
    have hmarked : (n.processNewBlock ctx true variant s).2.index (n.blockHash block) =
        some { status with failedValid := true } := by
      unfold Node.processNewBlock
      rw [hcheck, acceptBlock_known hentry' hfailed]
      unfold Node.acceptBody
      rw [hverdict, hdata, ← hvariant.blockHash_eq (n := n)]
      exact BlockStore.setStatus_self ..
    have hclean := hholds _ hmarked
    unfold NotFailed BlockStatus.failed at hclean
    simp at hclean
  · intro hweight
    have hholds : Holds NotFailed s (n.blockHash block) := by
      intro st hst
      rw [hentry] at hst
      obtain rfl := Option.some.inj hst
      exact hfailed
    refine processNewBlock_holds stable_notFailed hholds
      (fun walk hwalk hmem => absurd hmem (hctx.walk walk hwalk)) ?_
      (fun hmem => absurd hmem hctx.found) (fun hmem => absurd hmem hctx.above)
    intro _ hcheck hblames
    have := (blames_payload_iff hvariant hcontext hcheck).mp hblames
    have := hweight hcheck
    omega

theorem run_process (n : Node) (s : BlockStore) (ctx : CallContext) (fForceProcessing : Bool)
    (block : CBlock) : n.run s [.process ctx fForceProcessing block] =
      (n.processNewBlock ctx fForceProcessing block s).2 := rfl

theorem acceptBlockHeader_new {header : CBlockHeader}
    (hentry : s.index (header.getHash n.hash256) = none)
    (h : (n.acceptBlockHeader ctx header s).1 = .ok ()) :
    n.acceptBlockHeader ctx header s = (.ok (), s.setStatus (header.getHash n.hash256) .fresh) := by
  unfold Node.acceptBlockHeader at h ⊢
  simp only [hentry] at h ⊢
  split at h
  · rename_i hgenesis
    rw [if_pos hgenesis]
  · rename_i hgenesis
    rw [if_neg hgenesis]
    split at h
    · cases h
    · split at h
      · cases h
      · split at h
        · cases h
        · rename_i hfailed
          rw [if_neg hfailed]
          split at h
          · cases h
          · split at h
            · cases h
            · rfl

theorem acceptBody_stores (hverdict : n.verdict block = .ok ()) (hsaved : ctx.saved = true)
    (hdata : status.haveData = false) :
    n.acceptBody ctx true block status s = (.ok (),
      { s.setStatus (n.blockHash block) { status with haveData := true, nTx := block.vtx.length } with
        disk := s.disk ++ [block] }) := by
  unfold Node.acceptBody
  rw [hverdict, hdata, hsaved]
  rfl

theorem index_marks {hash : Uint256} (hctx : Harmless hash ctx) :
    ((s.markFailedValid ctx.invalidFound).markFailedChild ctx.invalidAbove).index hash =
      s.index hash := by
  show (if hash ∈ ctx.invalidAbove then _ else if hash ∈ ctx.invalidFound then _ else _) = _
  rw [if_neg hctx.above, if_neg hctx.found]

/-- the block has its data, and it was written now unless it was there before -/
def Stored (n : Node) (block : CBlock) (before after : BlockStore) : Prop :=
  (∃ status, after.index (n.blockHash block) = some status ∧ status.haveData = true) ∧
  (Holds (fun status => status.haveData = false) before (n.blockHash block) →
    after.disk = before.disk ++ [block])

theorem processNewBlock_stores (hcheck : n.checkBlock block = .ok ())
    (hcontext : n.contextualCheckBlock block = .ok ()) (hctx : Harmless (n.blockHash block) ctx)
    (hsaved : ctx.saved = true) (hholds : Holds NotFailed s (n.blockHash block))
    (hheader : s.index (n.blockHash block) = none → (n.acceptBlockHeader ctx block.header s).1 =
      .ok ()) :
    Stored n block s (n.processNewBlock ctx true block s).2 := by
  have hverdict : n.verdict block = .ok () := by
    unfold Node.verdict
    rw [hcheck]
    exact hcontext
  unfold Stored Node.processNewBlock
  rw [hcheck]
  cases hentry : s.index (n.blockHash block) with
  | none =>
    have hnew := acceptBlockHeader_new hentry (hheader hentry)
    have haccept : n.acceptBlock ctx true block s = (.ok (),
        { (s.setStatus (n.blockHash block) .fresh).setStatus (n.blockHash block)
            { BlockStatus.fresh with haveData := true, nTx := block.vtx.length } with
          disk := s.disk ++ [block] }) := by
      unfold Node.acceptBlock
      rw [hnew]
      dsimp only
      rw [← Node.blockHash, BlockStore.setStatus_self]
      exact acceptBody_stores hverdict hsaved rfl
    rw [haccept]
    refine ⟨⟨_, (index_marks hctx).trans (BlockStore.setStatus_self ..), rfl⟩, fun _ => rfl⟩
  | some status =>
    rw [acceptBlock_known hentry (hholds status hentry)]
    cases hdata : status.haveData with
    | true =>
      have hbody : n.acceptBody ctx true block status s = (.ok (), s) := by
        unfold Node.acceptBody
        rw [hdata]
        rfl
      rw [hbody]
      refine ⟨⟨status, (index_marks hctx).trans hentry, hdata⟩, fun hnone => ?_⟩
      exact absurd (hnone status hentry) (by simp [hdata])
    | false =>
      rw [acceptBody_stores hverdict hsaved hdata]
      exact ⟨⟨_, (index_marks hctx).trans (BlockStore.setStatus_self ..), rfl⟩, fun _ => rfl⟩

/-- **Blocks with another payload.**  A variant of an acceptable block leaves the entry unmarked
exactly when it fails its own check or stays within the weight limit.  In a run of such calls the
entry is never marked, and the block is stored when it comes. -/
theorem payload_variants_blamed_iff (n : Node) (block : CBlock)
    (hcheck : n.checkBlock block = .ok ()) (hcontext : n.contextualCheckBlock block = .ok ()) :
    (∀ (variant : CBlock) (ctx : CallContext) (s : BlockStore) (status : BlockStatus),
      PayloadVariant block variant → Harmless (n.blockHash block) ctx →
      s.index (n.blockHash block) = some status → status.failed = false → status.haveData = false →
      (Holds NotFailed (n.processNewBlock ctx true variant s).2 (n.blockHash block) ↔
        (n.checkBlock variant = .ok () → getBlockWeight variant ≤ maxBlockWeight))) ∧
    (∀ (s : BlockStore) (calls : List Call), Holds NotFailed s (n.blockHash block) →
      (∀ call ∈ calls, PayloadCall n block call) →
      Holds NotFailed (n.run s calls) (n.blockHash block) ∧ DiskWorked n s (n.run s calls) ∧
      ∀ ctx : CallContext, Harmless (n.blockHash block) ctx → ctx.saved = true →
        ((n.run s calls).index (n.blockHash block) = none →
          (n.acceptBlockHeader ctx block.header (n.run s calls)).1 = .ok ()) →
        Stored n block (n.run s calls) (n.processNewBlock ctx true block (n.run s calls)).2) := by
  refine ⟨?_, ?_⟩
  · intro variant ctx s status hvariant hctx hentry hfailed hdata
    exact holds_processNewBlock_iff hvariant hcontext hctx hentry hfailed hdata
  · intro s calls hs hcalls
    have hholds : Holds NotFailed (n.run s calls) (n.blockHash block) :=
      run_holds stable_notFailed hs fun call hcall => (hcalls call hcall).keeps hcontext
    refine ⟨hholds, run_diskWorked s calls, ?_⟩
    intro ctx hctx hsaved hheader
    exact processNewBlock_stores hcheck hcontext hctx hsaved hholds hheader

end

/-! ## the witness of the parent coinbase -/

def stripPayload (block : CBlock) : CBlock :=
  { block with header := { block.header with
      auxpow := block.header.auxpow.map fun a => { a with coinbaseTx := a.coinbaseTx.stripWitness } } }

section
variable {hash256 blake3 scrypt : Bytes → Uint256} {params : Params}

theorem check_stripPayload (a : CAuxPow) (child : Uint256) (nChainId : Int) :
    CAuxPow.check hash256 blake3 params.auxpow { a with coinbaseTx := a.coinbaseTx.stripWitness } child
        nChainId = CAuxPow.check hash256 blake3 params.auxpow a child nChainId := by
  unfold CAuxPow.check
  simp only [CTransaction.stripWitness_isCoinBase, CTransaction.stripWitness_getHash]
  cases hvin : a.coinbaseTx.vin with
  | nil => simp [CTransaction.stripWitness, hvin]
  | cons txin rest =>
    rw [show a.coinbaseTx.stripWitness.vin = txin.stripWitness :: rest.map CTxIn.stripWitness by
      simp [CTransaction.stripWitness, hvin]]
    rfl

theorem checkBlockProofOfWork_stripPayload (block : CBlock) :
    checkBlockProofOfWork hash256 blake3 scrypt params (stripPayload block).header =
      checkBlockProofOfWork hash256 blake3 scrypt params block.header := by
  unfold checkBlockProofOfWork stripPayload
  cases block.header.auxpow with
  | none => rfl
  | some a =>
    simp only [Option.map_some, check_stripPayload]

theorem strippedSize_stripPayload (block : CBlock) :
    strippedSize (stripPayload block) = strippedSize block := by
  have hpayload : (stripPayload block).header.payloadBytes CTransaction.serializeNoWitness =
      block.header.payloadBytes CTransaction.serializeNoWitness := by
    unfold CBlockHeader.payloadBytes stripPayload
    cases block.header.auxpow with
    | none => rfl
    | some a =>
      simp only [Option.map_some, CAuxPow.serialize, CTransaction.stripWitness_serializeNoWitness]
  unfold strippedSize CBlockHeader.serialize
  rw [hpayload]
  rfl

theorem Node.checkBlock_stripPayload {n : Node} (hsignet : n.params.signetBlocks = false)
    (block : CBlock) : n.checkBlock (stripPayload block) = n.checkBlock block := by
  have hheader : checkBlockHeader n.checks (stripPayload block).header true =
      checkBlockHeader n.checks block.header true := by
    unfold checkBlockHeader
    rw [show n.checks.proofOfWork (stripPayload block).header = n.checks.proofOfWork block.header from
      checkBlockProofOfWork_stripPayload block]
  have hmissing : (stripPayload block).header.payloadMissing = block.header.payloadMissing := by
    unfold CBlockHeader.payloadMissing stripPayload
    cases block.header.auxpow <;> rfl
  unfold Node.checkBlock Consensus.checkBlock
  rw [hheader, hmissing, strippedSize_stripPayload, hsignet]
  rfl

end

/-! ## a payload with a stuffed witness -/

/-- the weight of a block counts the witness of the parent coinbase -/
theorem witness_le_getBlockWeight {block : CBlock} {a : CAuxPow} {txin : CTxIn} {item : Bytes}
    (haux : block.header.isAuxpow = true) (hpayload : block.header.auxpow = some a)
    (hvin : a.coinbaseTx.vin = [txin]) (hwitness : txin.scriptWitness = [item]) :
    item.length ≤ getBlockWeight block := by
  have hserialize : item.length ≤ a.coinbaseTx.serialize.length := by
    have hhas : a.coinbaseTx.hasWitness = true := by simp [CTransaction.hasWitness, hvin, hwitness]
    simp only [CTransaction.serialize, hhas, if_true, CTransaction.serializeWitness, hvin, hwitness,
      Serialize.vector, Serialize.byteVector, List.flatMap_cons, List.flatMap_nil, List.append_nil,
      List.length_append]
    omega
  have htotal : a.coinbaseTx.serialize.length ≤ totalSize block := by
    simp only [totalSize, CBlockHeader.serialize, CBlockHeader.payloadBytes, haux, if_true, hpayload,
      Option.map_some, Option.getD_some, CAuxPow.serialize, List.length_append]
    omega
  unfold getBlockWeight
  omega

def mergedNode : Node :=
  { sampleNode with params := { sampleNodeParams with auxpow := ⟨0, 8, true⟩ } }

/-- the header of a block with only a coinbase, version 4, chain 8, with a payload -/
def mergedHeader : CPureBlockHeader :=
  { (committingBlock []).header.toCPureBlockHeader with nVersion := 0x80104 }

def mergedPayload : CAuxPow :=
  sampleAuxPow (mergedHeader.getHash Uint256.polyHash) (.ofNat 5) (.ofNat 6) .null

def mergedBlock : CBlock :=
  { committingBlock [] with header := ⟨mergedHeader, some mergedPayload⟩ }

/-- the same block with an item of the given size in the witness of the parent coinbase -/
def stuffedBlock (size : Nat) : CBlock :=
  { mergedBlock with header := ⟨mergedHeader, some { mergedPayload with
      coinbaseTx := { mergedPayload.coinbaseTx with
        vin := mergedPayload.coinbaseTx.vin.map fun txin =>
          { txin with scriptWitness := [List.replicate size 0] } } }⟩ }

def mergedStore : BlockStore :=
  sampleStore.setStatus (mergedNode.blockHash mergedBlock) .fresh

theorem mergedStore_entry :
    mergedStore.index (mergedNode.blockHash mergedBlock) = some .fresh := BlockStore.setStatus_self ..

theorem sampleContext_harmless (hash : Uint256) : Harmless hash sampleContext :=
  ⟨fun _ h => (nomatch h), List.not_mem_nil, List.not_mem_nil⟩

theorem stuffedBlock_variant (size : Nat) : PayloadVariant mergedBlock (stuffedBlock size) :=
  ⟨rfl, rfl, rfl⟩

theorem stuffedBlock_weight (size : Nat) : size ≤ getBlockWeight (stuffedBlock size) := by
  have haux : mergedHeader.isAuxpow = true := by decide
  have hlong : (List.replicate size (0 : UInt8)).length ≤ getBlockWeight (stuffedBlock size) :=
    witness_le_getBlockWeight haux rfl rfl rfl
  rw [List.length_replicate] at hlong
  exact hlong

theorem stripPayload_stuffedBlock (size : Nat) :
    stripPayload (stuffedBlock size) = stripPayload mergedBlock := rfl

theorem stuffed_variant_blamed :
    mergedNode.checkBlock mergedBlock = .ok () ∧ mergedNode.contextualCheckBlock mergedBlock = .ok () ∧
    PayloadVariant mergedBlock (stuffedBlock 4000001) ∧
    checkBlockProofOfWork mergedNode.hash256 mergedNode.blake3 mergedNode.scrypt mergedNode.params
      (stuffedBlock 4000001).header = true ∧
    Holds NotFailed mergedStore (mergedNode.blockHash mergedBlock) ∧
    ¬ Holds NotFailed (mergedNode.run mergedStore [.process sampleContext true (stuffedBlock 4000001)])
      (mergedNode.blockHash mergedBlock) := by
  have hcontext : mergedNode.contextualCheckBlock mergedBlock = .ok () := by decide +kernel
  have hcheck : mergedNode.checkBlock mergedBlock = .ok () := by decide +kernel
  have hstuffed : mergedNode.checkBlock (stuffedBlock 4000001) = .ok () := by
    rw [← Node.checkBlock_stripPayload rfl, stripPayload_stuffedBlock, Node.checkBlock_stripPayload rfl]
    exact hcheck
  refine ⟨hcheck, hcontext, stuffedBlock_variant _, proofOfWork_of_checkBlock hstuffed, ?_, ?_⟩
  · intro status hstatus
    rw [mergedStore_entry] at hstatus
    obtain rfl := Option.some.inj hstatus
    rfl
  · rw [run_process, holds_processNewBlock_iff (stuffedBlock_variant 4000001) hcontext
      (sampleContext_harmless _) mergedStore_entry rfl rfl]
    intro h
    have hweight := h hstuffed
    have hlong := stuffedBlock_weight 4000001
    exact absurd (Nat.le_trans hlong hweight) (by decide)

theorem payload_variants_sample :
    Holds NotFailed (mergedNode.run mergedStore [.process sampleContext true (stuffedBlock 10),
      .headers [(sampleContext, ⟨mergedHeader, none⟩)]]) (mergedNode.blockHash mergedBlock) := by
  obtain ⟨-, hrun⟩ := payload_variants_blamed_iff mergedNode mergedBlock (by decide +kernel)
    (by decide +kernel)
  refine (hrun mergedStore _ ?_ ?_).1
  · intro status hstatus
    rw [mergedStore_entry] at hstatus
    obtain rfl := Option.some.inj hstatus
    rfl
  · intro call hcall
    rcases List.mem_cons.mp hcall with rfl | hcall
    · exact ⟨sampleContext_harmless _, fun _ => ⟨stuffedBlock_variant 10, fun _ => by decide +kernel⟩⟩
    · obtain rfl := List.mem_singleton.mp hcall
      intro c hc
      obtain rfl := List.mem_singleton.mp hc
      exact ⟨sampleContext_harmless _, fun _ => rfl⟩

end Consensus
