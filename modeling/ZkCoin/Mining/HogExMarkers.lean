import ZkCoin.Ledger.PegAccounting
import ZkCoin.Mempool.PreChecks
import ZkCoin.Mining.BlockAssembler

/-!
# Peg-outs that look like shielded markers

The policy of the mempool looks at the scripts of peg-outs, the shielded rules do not; in a block the
peg-outs are outputs of the HogEx, where the shielded rules apply.  The HogEx carries no witness, so no
marker among its outputs can have a proof.

* `checkProofEnvelope_bare`    — without witnesses no envelope is found.
* `hogEx_passes_iff`           — when the HogEx of a template passes the shielded check.
-/

open Bytes Script Consensus

namespace Mining

/-! ## no witness, no marker -/

variable {hash256 : Bytes → Uint256} {verifier : Shielded.Verifier}

theorem scanInputs_bare {kind : UInt8} {expected : Uint256} {check : Shielded.ProofEnvelopeCheck}
    {vin : List CTxIn} (h : ∀ txin ∈ vin, txin.scriptWitness = []) :
    Shielded.scanInputs hash256 verifier kind expected check vin = .ok check := by
  induction vin with
  | nil => rfl
  | cons txin vin ih =>
    rw [List.forall_mem_cons] at h
    rw [Shielded.scanInputs, h.1]
    exact ih h.2

theorem checkProofEnvelope_bare {m : Shielded.Marker} {tx : CTransaction}
    (h : ∀ txin ∈ tx.vin, txin.scriptWitness = []) :
    Shielded.checkProofEnvelope hash256 verifier m tx = .init := by
  unfold Shielded.checkProofEnvelope
  split
  · rfl
  · rw [scanInputs_bare h]

theorem checkTransaction_bare_iff {tx : CTransaction} (h : ∀ txin ∈ tx.vin, txin.scriptWitness = [])
    (active allow : Bool) :
    (∃ ms, Shielded.checkTransaction hash256 verifier tx active allow = .ok ms) ↔
      Shielded.CarriesNoMarker tx := by
  constructor
  · intro ⟨ms, hms⟩ txout hmem
    obtain ⟨hall, -⟩ := Shielded.checkTransaction_eq_ok_iff.mp hms
    rcases hall txout hmem with hnone | ⟨m, -, -, -, -, hm⟩
    · exact hnone
    · have hproof := hm.proof
      rw [Shielded.verifyProofEnvelope, checkProofEnvelope_bare h] at hproof
      cases hproof
  · intro hnone
    exact ⟨[], hnone.checkTransaction active allow⟩

/-! ## the HogEx of a template -/

theorem extractMarkerPayload_hogAddr (hash : Uint256) (nValue : Int) :
    Shielded.extractMarkerPayload (hogAddr hash nValue).scriptPubKey = none := by
  rw [Option.eq_none_iff_forall_ne_some]
  intro payload h
  simp only [hogAddr, Shielded.extractMarkerPayload, Option.bind_eq_bind, Option.bind_eq_some_iff,
    guard_eq_some_iff, Prod.exists] at h
  obtain ⟨opcode, data, rest, hop, -, hreturn, -⟩ := h
  have hopcode : opcode = op8 := opcode_of_getOp hop
  rw [hopcode] at hreturn
  exact absurd hreturn (by decide)

/-- no staged transaction pegs out to a script that is taken for a marker -/
def NoMarkerPegout (stagedTxs : List Mw.Transaction) : Prop :=
  ∀ mwebTx ∈ stagedTxs, ∀ pegout ∈ mwebTx.body.getPegOuts,
    Shielded.extractMarkerPayload pegout.scriptPubKey = none

section
variable {mempool : List CTransaction} {m : Miner} {prev : CBlockIndex} {hash : Uint256}

theorem hogExTransaction_bare (h : m.Staged mempool) :
    ∀ txin ∈ (hogExTransaction m prev hash).vin, txin.scriptWitness = [] := by
  intro txin hmem
  rcases List.mem_append.mp hmem with hmem | hmem
  · split at hmem
    · rw [List.mem_singleton.mp hmem]
      rfl
    · cases hmem
  · exact h.inputs_bare txin hmem

theorem hogExTransaction_carriesNoMarker_iff (h : m.Staged mempool) :
    Shielded.CarriesNoMarker (hogExTransaction m prev hash) ↔
      NoMarkerPegout m.mwebBuilder.stagedTxs := by
  constructor
  · intro hnone mwebTx hmweb pegout hpegout
    refine hnone (Policy.pegoutOutput pegout) (List.mem_cons_of_mem _ ?_)
    rw [h.outputs_eq]
    exact List.mem_map_of_mem (List.mem_flatMap.mpr ⟨mwebTx, hmweb, hpegout⟩)
  · intro hpegouts txout hmem
    rcases List.mem_cons.mp hmem with rfl | hmem
    · exact extractMarkerPayload_hogAddr _ _
    · rw [h.outputs_eq] at hmem
      obtain ⟨pegout, hpegout, rfl⟩ := List.mem_map.mp hmem
      obtain ⟨mwebTx, hmweb, hpegout⟩ := List.mem_flatMap.mp hpegout
      exact hpegouts mwebTx hmweb pegout hpegout

end

section
variable {n : Node} {pedersen : Mw.Pedersen} {ctx : TemplateContext} {scriptPubKeyIn : Bytes}
  {st : AssemblerState} {block : CBlock}

theorem generateCoinbaseCommitment_vtx (n : Node) (ctx : TemplateContext) (coinbase : CTransaction)
    (rest : List CTransaction) (header : CBlockHeader) (mwebBlock : Option Mw.Block) :
    ∃ coinbase', generateCoinbaseCommitment n ctx ⟨header, coinbase :: rest, mwebBlock⟩ =
      ⟨header, coinbase' :: rest, mwebBlock⟩ := by
  have hupdate : ∀ tx : CTransaction, ∃ tx', updateUncommittedBlockStructures n ctx
      ⟨header, tx :: rest, mwebBlock⟩ = ⟨header, tx' :: rest, mwebBlock⟩ := by
    intro tx
    unfold updateUncommittedBlockStructures
    split
    · exact ⟨_, rfl⟩
    · exact ⟨_, rfl⟩
  unfold generateCoinbaseCommitment
  split
  · exact hupdate _
  · exact hupdate _

theorem finishBlock_hogEx (hmweb : ctx.tip.prev.mwebEnabled = true)
    (h : finishBlock n pedersen ctx scriptPubKeyIn st = some block) :
    ∃ hash, block.vtx.getLast? = some (hogExTransaction st.miner ctx.tip.prev hash) := by
  simp only [finishBlock, hogExPart, hmweb, if_true, Miner.addHogExTransaction, Option.bind_eq_bind,
    Option.bind_eq_some_iff, guard_eq_some_iff, exists_const, Option.some.injEq, Prod.exists,
    Prod.mk.injEq] at h
  obtain ⟨_, _, ⟨hogEx, _, ⟨mwebBlock, -, -, rfl, rfl⟩, rfl, rfl⟩, rfl⟩ := h
  obtain ⟨coinbase', hcommit⟩ := generateCoinbaseCommitment_vtx n ctx
    (coinbaseTx n ctx scriptPubKeyIn st.nFees)
    (st.vtx ++ [hogExTransaction st.miner ctx.tip.prev (mwebBlock.header.getHash n.blake3)])
    ⟨⟨ctx.nVersion, .null, .null, 0, 0, 0⟩, none⟩ (some mwebBlock)
  refine ⟨mwebBlock.header.getHash n.blake3, ?_⟩
  show (generateCoinbaseCommitment n ctx _).vtx.getLast? = _
  rw [show minerTools n pedersen = ⟨n.hash256, n.blake3, n.crypto, pedersen⟩ from rfl, hcommit]
  rw [List.getLast?_cons, List.getLast?_concat]
  rfl

theorem shielded_of_testBlockValidity {fCheckPOW fCheckMerkleRoot : Bool}
    (h : testBlockValidity n ctx block fCheckPOW fCheckMerkleRoot = .ok ()) :
    ∀ tx ∈ block.vtx, ∃ ms, Shielded.checkTransaction n.hash256 n.verifier tx
      (n.params.shieldedPool.isEnabled ctx.nHeight) n.params.shieldedPool.fAllowScaffoldProofs =
        .ok ms := by
  unfold testBlockValidity at h
  obtain ⟨-, h⟩ := Checked.then_eq_ok.mp h
  obtain ⟨-, h⟩ := Checked.then_eq_ok.mp h
  obtain ⟨hcontext, -⟩ := Checked.then_eq_ok.mp h
  have hcontext := ofBlock_eq_ok.mp hcontext
  unfold contextualCheckBlock at hcontext
  obtain ⟨-, hcontext⟩ := Checked.ite_error_eq_ok.mp hcontext
  obtain ⟨htxs, -⟩ := Checked.then_eq_ok.mp hcontext
  intro tx htx
  have hchecked := checkBlockTx_eq_ok_iff.mp (Checked.forM_eq_ok_iff.mp htxs tx htx)
  obtain ⟨ms, hms, -⟩ := Checked.map_eq_ok.mp hchecked
  exact ⟨ms, hms⟩

end

/-- **When a HogEx passes.**  The HogEx of a template passes the shielded check exactly when no
transaction that the miner took pegs out to a script that is taken for a marker; a template with such
a peg-out is not returned. -/
theorem hogEx_passes_iff (n : Node) (pedersen : Mw.Pedersen) (ctx : TemplateContext)
    (scriptPubKeyIn : Bytes) (mempool : List CTransaction) (packages : List Package)
    (hpackages : ∀ p ∈ packages, p.From mempool) (hmweb : ctx.tip.prev.mwebEnabled = true)
    (st : AssemblerState) (hst : addPackageTxs n pedersen ctx packages = .ok st) (block : CBlock)
    (hblock : finishBlock n pedersen ctx scriptPubKeyIn st = some block) :
    ∃ hogEx, block.vtx.getLast? = some hogEx ∧ hogEx.isHogEx = true ∧
      (∀ active allow : Bool,
        (∃ ms, Shielded.checkTransaction n.hash256 n.verifier hogEx active allow = .ok ms) ↔
          NoMarkerPegout st.miner.mwebBuilder.stagedTxs) ∧
      (createNewBlock n pedersen ctx scriptPubKeyIn packages ≠ none →
        NoMarkerPegout st.miner.mwebBuilder.stagedTxs) ∧
      ((∀ tx ∈ mempool, ∀ pegout ∈ mwebPegOuts tx,
          Shielded.extractMarkerPayload pegout.scriptPubKey = none) →
        NoMarkerPegout st.miner.mwebBuilder.stagedTxs) := by
  have hstaged := (assembled_of_addPackageTxs hpackages hst).miner
  obtain ⟨hash, hlast⟩ := finishBlock_hogEx hmweb hblock
  have hiff : ∀ active allow : Bool,
      (∃ ms, Shielded.checkTransaction n.hash256 n.verifier
        (hogExTransaction st.miner ctx.tip.prev hash) active allow = .ok ms) ↔
          NoMarkerPegout st.miner.mwebBuilder.stagedTxs := fun active allow =>
    (checkTransaction_bare_iff (hogExTransaction_bare hstaged) active allow).trans
      (hogExTransaction_carriesNoMarker_iff hstaged)
  refine ⟨_, hlast, rfl, hiff, ?_, ?_⟩
  · intro hcreated
    have hassembled : assembleBlock n pedersen ctx scriptPubKeyIn packages = some block := by
      rw [assembleBlock, hst]
      exact hblock
    have hvalid : (testBlockValidity n ctx block false false).isOk = true := by
      by_contra hinvalid
      apply hcreated
      rw [createNewBlock, hassembled]
      show (do guard ((testBlockValidity n ctx block false false).isOk = true); some block) = none
      rw [guard, if_neg hinvalid]
      rfl
    obtain ⟨⟨⟩, hvalid⟩ := Checked.exists_of_isOk hvalid
    exact (hiff _ _).mp (shielded_of_testBlockValidity hvalid _ (List.mem_of_getLast? hlast))
  · intro hmempool mwebTx hmem pegout hpegout
    obtain ⟨tx, htx, hpart⟩ := hstaged.staged_mem mwebTx hmem
    refine hmempool tx htx pegout ?_
    rw [mwebPegOuts, hpart]
    exact hpegout

/-! ## a mempool with one peg-out -/

/-- `OP_RETURN` and a push of the prefix of a marker -/
def markerScript : Bytes := opReturn :: pushData Shielded.markerPrefix

def pegoutKernel (script : Bytes) : Mw.Kernel where
  features := 0x05
  fee := some 1
  pegin := none
  pegouts := [⟨5, script⟩]
  lockHeight := none
  stealthExcess := none
  extraData := []
  excess := .zero 33
  signature := .zero 64
  pegouts_of := fun h => absurd h (by decide)
  pegin_range := Mw.varIntRange_none_64
  lockHeight_range := Mw.varIntRange_none_32

def pegoutTx (script : Bytes) : CTransaction :=
  ⟨[], [], 2, 0, some ⟨.zero 32, .zero 32, ⟨[], [], [pegoutKernel script]⟩⟩, false⟩

def pegoutEntry (script : Bytes) : CTxMemPoolEntry := ⟨pegoutTx script, 1, 0, _, rfl⟩

def pegoutPackage (script : Bytes) : Package where
  iter := pegoutEntry script
  ancestors := []
  packageSize := (pegoutEntry script).getTxSize
  packageSigOpsCost := 0
  packageMwebWeight := (pegoutEntry script).mwebWeight
  fUsingModified := false

def samplePedersen : Mw.Pedersen := ⟨fun _ _ => some ⟨List.replicate 33 1, rfl⟩, fun _ => some (.zero 32)⟩

def hogExTip : CBlockIndex := ⟨1, 0, 100, .ofNat 9, true, true⟩

def hogExContext : TemplateContext where
  tip := { pegContext with prev := hogExTip, height_chain := rfl }
  tipHash := .ofNat 1
  view :=
    { coins := Function.update (fun _ => none) ⟨.ofNat 9, 0⟩
        (some ⟨⟨100, op8 :: pushData Uint256.null.data⟩, false, 1, false⟩)
      bestBlock := .ofNat 1
      mweb := .cache (Mw.emptyView (some Mw.sampleParent))
        (.fresh (Mw.emptyView (some Mw.sampleParent))) }
  nVersion := 0x20000000
  nAdjustedTime := 1
  nextWorkRequired := fun _ => 0x207fffff
  checkpointHeight := none
  blockMaxWeight := maxBlockWeight - 4000

def hogExMempoolTip : Mempool.Tip := ⟨hogExTip, List.replicate 2 (Shielded.sampleBlock []), rfl⟩

/-- a peg-out to an ordinary script, and both sides of the equivalence -/
theorem hogEx_passes_iff_sample : ∃ st block hogEx,
    addPackageTxs sampleNode samplePedersen hogExContext [pegoutPackage [op1]] = .ok st ∧
      finishBlock sampleNode samplePedersen hogExContext [op1] st = some block ∧
      block.vtx.getLast? = some hogEx ∧
      ((∃ ms, Shielded.checkTransaction sampleNode.hash256 sampleNode.verifier hogEx true true =
        .ok ms) ↔ NoMarkerPegout st.miner.mwebBuilder.stagedTxs) := by
  obtain ⟨st, hst, hfinish⟩ := Checked.exists_of_any (show (addPackageTxs sampleNode samplePedersen
    hogExContext [pegoutPackage [op1]]).toOption.any (fun st =>
      (finishBlock sampleNode samplePedersen hogExContext [op1] st).isSome) = true by decide +kernel)
  obtain ⟨block, hblock⟩ := Option.isSome_iff_exists.mp hfinish
  have hpackages : ∀ p ∈ [pegoutPackage [op1]], p.From [pegoutTx [op1]] := by
    intro p hp e he
    rw [List.mem_singleton.mp hp] at he
    rw [List.mem_singleton.mp he]
    exact List.mem_singleton_self _
  obtain ⟨hogEx, hlast, -, hiff, -⟩ := hogEx_passes_iff sampleNode samplePedersen hogExContext [op1]
    [pegoutTx [op1]] [pegoutPackage [op1]] hpackages rfl st hst block hblock
  exact ⟨st, block, hogEx, hst, hblock, hlast, hiff true true⟩

/-- A peg-out to `OP_RETURN` and the prefix of a marker enters the mempool as a standard transaction.
With it the HogEx fails the shielded check and there is no template; without it, or with a peg-out to
another script, there is. -/
theorem marker_pegout_poisons_template :
    Mempool.preChecks sampleNode ⟨{}, true⟩ hogExMempoolTip (fun _ => .ok ()) []
        (pegoutTx markerScript) = .ok () ∧
      (createNewBlock sampleNode samplePedersen hogExContext [op1] []).isSome = true ∧
      (createNewBlock sampleNode samplePedersen hogExContext [op1] [pegoutPackage [op1]]).isSome =
        true ∧
      (∃ block hogEx, assembleBlock sampleNode samplePedersen hogExContext [op1]
          [pegoutPackage markerScript] = some block ∧ block.vtx.getLast? = some hogEx ∧
        ∀ active allow : Bool, (Shielded.checkTransaction sampleNode.hash256 sampleNode.verifier hogEx
          active allow).isOk = false) ∧
      (createNewBlock sampleNode samplePedersen hogExContext [op1]
        [pegoutPackage markerScript]).isNone = true := by
  refine ⟨by decide +kernel, by decide +kernel, by decide +kernel, ?_, by decide +kernel⟩
  have hfails : (assembleBlock sampleNode samplePedersen hogExContext [op1]
      [pegoutPackage markerScript]).any (fun block => block.vtx.getLast?.any fun hogEx =>
        decide (∀ active allow : Bool, (Shielded.checkTransaction sampleNode.hash256
          sampleNode.verifier hogEx active allow).isOk = false)) = true := by decide +kernel
  obtain ⟨hblock, hlast⟩ := (Option.any_eq_true_iff_get _ _).mp hfails
  obtain ⟨hhogEx, hall⟩ := (Option.any_eq_true_iff_get _ _).mp hlast
  exact ⟨_, _, (Option.some_get hblock).symm, (Option.some_get hhogEx).symm, of_decide_eq_true hall⟩

end Mining
