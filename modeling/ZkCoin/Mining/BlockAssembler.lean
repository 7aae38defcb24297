import ZkCoin.Ledger.ConnectBlock
import ZkCoin.Mining.MwebMiner

/-!
# Block templates

`BlockAssembler::CreateNewBlock`.  The order in which packages of the mempool are tried is that of their
fee rates, which no rule below reads: a template is made from any list of packages, each a transaction
with its ancestors in the mempool and the sums that the mempool keeps for it.

* `addPackage`, `addPackageTxs` — the loop over the packages with its weight accounting.
* `assembleBlock`               — coinbase, commitment, header and merge-mining placeholder.
* `createNewBlock`              — the assembled block, when `TestBlockValidity` accepts it.
* `Assembled`                   — what the loop keeps.
-/

open Bytes Script Serialize Consensus

namespace Mining

/-- `CTxMemPoolEntry`; the weight is computed when the entry is made -/
structure CTxMemPoolEntry where
  tx : CTransaction
  nFee : Int
  sigOpCost : Nat
  nTxWeight : Nat
  nTxWeight_eq : nTxWeight = Policy.getTransactionWeight tx

namespace CTxMemPoolEntry

def mwebWeight (e : CTxMemPoolEntry) : Nat :=
  match e.tx.mwebTx with
  | none => 0
  | some mwebTx => mwebTx.body.weight

/-- `GetTxSize`, at the default weight of a signature operation -/
def getTxSize (e : CTxMemPoolEntry) : Nat :=
  (max e.nTxWeight (e.sigOpCost * 20) + witnessScaleFactor - 1) / witnessScaleFactor

end CTxMemPoolEntry

/-- an entry that is considered, its ancestors in the mempool in the order of `SortForBlock`, and the
sums over both that the mempool or the set of modified entries has -/
structure Package where
  iter : CTxMemPoolEntry
  ancestors : List CTxMemPoolEntry
  packageSize : Nat
  packageSigOpsCost : Nat
  packageMwebWeight : Nat
  fUsingModified : Bool

/-- the members of `BlockAssembler` that the loop changes; entries are named by their ids -/
structure AssemblerState where
  vtx : List CTransaction
  inBlock : List Uint256
  failedTx : List Uint256
  nBlockWeight : Nat
  nBlockSigOpsCost : Nat
  nBlockMwebWeight : Nat
  nFees : Int
  miner : Miner

/-- `resetBlock`: room for the coinbase is reserved -/
def resetBlock (miner : Miner) : AssemblerState := ⟨[], [], [], 4000, 400, 0, 0, miner⟩

/-- what the assembler reads of the chain, the clock and the options -/
structure TemplateContext where
  /-- the context of a block on the tip -/
  tip : ConnectContext
  tipHash : Uint256
  /-- `CoinsTip` -/
  view : ChainView
  /-- `ComputeBlockVersion`, or the version that an option asks for -/
  nVersion : Int
  nAdjustedTime : Int
  /-- `GetNextWorkRequired` for a block with the given time -/
  nextWorkRequired : UInt32 → UInt32
  checkpointHeight : Option Int
  /-- `-blockmaxweight` -/
  blockMaxWeight : Nat

namespace TemplateContext

def nHeight (ctx : TemplateContext) : Int := ctx.tip.prev.nHeight + 1

/-- between 4000 and 4000 less than the limit of a block -/
def nBlockMaxWeight (ctx : TemplateContext) : Nat :=
  max 4000 (min (maxBlockWeight - 4000) ctx.blockMaxWeight)

/-- the context in which the header of a block on the tip is checked -/
def headerContext (ctx : TemplateContext) (header : CBlockHeader) : HeaderContext :=
  ⟨ctx.nextWorkRequired header.nTime, ctx.nAdjustedTime, ctx.checkpointHeight⟩

end TemplateContext

def maxMineWeight : Nat := 20000

section
variable (n : Node) (pedersen : Mw.Pedersen) (ctx : TemplateContext)

def minerTools : MinerTools := ⟨n.hash256, n.blake3, n.crypto, pedersen⟩

def entryId (e : CTxMemPoolEntry) : Uint256 := e.tx.getHash n.hash256 n.blake3

/-! ## the loop over the packages -/

/-- `TestPackage` -/
def testPackage (st : AssemblerState) (p : Package) : Bool :=
  decide (st.nBlockWeight + witnessScaleFactor * p.packageSize < ctx.nBlockMaxWeight) &&
    decide (st.nBlockSigOpsCost + p.packageSigOpsCost < maxBlockSigopsCost) &&
    decide (st.nBlockMwebWeight + p.packageMwebWeight < maxMineWeight)

/-- `TestPackageTransactions` -/
def testPackageTransactions (st : AssemblerState) (package : List CTxMemPoolEntry) : Bool :=
  package.all fun e =>
    isFinalTx e.tx ctx.nHeight ctx.tip.prev.medianTimePast &&
      (decide (ctx.nHeight ≥ n.params.segwitHeight) || !e.tx.hasWitness) &&
      (ctx.tip.prev.mwebEnabled || !e.tx.hasMwebTx) && !st.failedTx.contains (entryId n e)

/-- the extension-block part of an entry takes no more than the entry has -/
def hogExWithinEntry (e : CTxMemPoolEntry) : Bool :=
  match e.tx.mwebTx with
  | none => true
  | some mwebTx =>
    mwebTx.body.getTotalFee.any (fun txFee => decide (txFee ≤ e.nFee)) &&
      decide (getHogExSigOpCost e.tx ≤ e.sigOpCost)

def countEntry (st : AssemblerState) (e : CTxMemPoolEntry) : AssemblerState :=
  { st with
    nBlockWeight := st.nBlockWeight + e.nTxWeight
    nBlockSigOpsCost := st.nBlockSigOpsCost + e.sigOpCost
    nBlockMwebWeight := st.nBlockMwebWeight + e.mwebWeight
    nFees := st.nFees + e.nFee
    inBlock := st.inBlock ++ [entryId n e] }

/-- the miner after an entry; nothing when it refuses the extension-block part -/
def mineEntry (st : AssemblerState) (e : CTxMemPoolEntry) : Except Mw.Fault (Option Miner) :=
  if e.tx.hasMwebTx then st.miner.addMwebTransaction (minerTools n pedersen) e.tx
  else .ok (some st.miner)

/-- `AddToBlock`, with its result.  The miner keeps the extension-block part even when the entry is
refused afterwards. -/
def addToBlock (st : AssemblerState) (e : CTxMemPoolEntry) :
    Except Mw.Fault (Bool × AssemblerState) :=
  match mineEntry n pedersen st e with
  | .error fault => .error fault
  | .ok none => .ok (false, st)
  | .ok (some miner) =>
    let st := { st with miner := miner }
    if e.tx.isMwebOnly then .ok (true, countEntry n st e)
    else if !hogExWithinEntry e then .ok (false, st)
    else .ok (true, countEntry n { st with vtx := st.vtx ++ [{ e.tx with mwebTx := none }] } e)

def addEntries : List CTxMemPoolEntry → AssemblerState → Except Mw.Fault AssemblerState
  | [], st => .ok st
  | e :: rest, st =>
    match addToBlock n pedersen st e with
    | .error fault => .error fault
    | .ok (true, st) => addEntries rest st
    | .ok (false, st) => .ok { st with failedTx := st.failedTx ++ (e :: rest).map (entryId n) }

def onlyUnconfirmed (st : AssemblerState) (entries : List CTxMemPoolEntry) : List CTxMemPoolEntry :=
  entries.filter fun e => !st.inBlock.contains (entryId n e)

/-- a package that fails a test; one of the set of modified entries is not tried again -/
def skipPackage (st : AssemblerState) (p : Package) : AssemblerState :=
  if p.fUsingModified then { st with failedTx := st.failedTx ++ [entryId n p.iter] } else st

/-- one round of the loop of `addPackageTxs` -/
def addPackage (st : AssemblerState) (p : Package) : Except Mw.Fault AssemblerState :=
  if st.inBlock.contains (entryId n p.iter) then .error .assertion
  else if !testPackage ctx st p then .ok (skipPackage n st p)
  else
    let entries := onlyUnconfirmed n st p.ancestors ++ [p.iter]
    if !testPackageTransactions n ctx st entries then .ok (skipPackage n st p)
    else addEntries n pedersen entries st

/-- `addPackageTxs` on the packages that the loop comes to -/
def addPackageTxs (packages : List Package) : Except Mw.Fault AssemblerState :=
  packages.foldlM (addPackage n pedersen ctx) (resetBlock (.newBlock ctx.nHeight ctx.view.mweb))

/-! ## the coinbase -/

/-- `ZkCoinCoinbaseTag` -/
def coinbaseTag : Bytes := Shielded.ascii "zkcoin"

/-- `MakeZkCoinCoinbaseScriptSig` -/
def makeCoinbaseScriptSig (params : Params) (nHeight nExtraNonce : Int) : Bytes :=
  pushInt64 nHeight ++ pushData (scriptNum nExtraNonce) ++ pushData coinbaseTag ++
    if params.ltcSnapshot.isEnabled then pushData params.ltcSnapshot.hashBlock.data else []

def coinbaseTx (scriptPubKeyIn : Bytes) (nFees : Int) : CTransaction where
  vin := [⟨⟨.null, 0xffffffff⟩, makeCoinbaseScriptSig n.params ctx.nHeight 0, sequenceFinal, []⟩]
  vout := [⟨nFees + getBlockSubsidy n.params ctx.nHeight, scriptPubKeyIn⟩]
  nVersion := 2
  nLockTime := 0
  mwebTx := none
  hogEx := false

def witnessNonce : Bytes := List.replicate 32 0

def commitmentOutput (root : Uint256) : CTxOut :=
  ⟨0, [0x6a, 0x24, 0xaa, 0x21, 0xa9, 0xed] ++ root.data⟩

/-- `UpdateUncommittedBlockStructures` -/
def updateUncommittedBlockStructures (block : CBlock) : CBlock :=
  if (witnessCommitment block).isSome && decide (ctx.nHeight ≥ n.params.segwitHeight) &&
      !(block.vtx.head?.any CTransaction.hasWitness) then
    { block with vtx := block.vtx.modifyHead fun tx =>
        { tx with vin := tx.vin.modifyHead fun txin => { txin with scriptWitness := [witnessNonce] } } }
  else block

/-- `GenerateCoinbaseCommitment` -/
def generateCoinbaseCommitment (block : CBlock) : CBlock :=
  updateUncommittedBlockStructures n ctx
    (if n.params.segwitHeight ≠ 2 ^ 31 - 1 ∧ (witnessCommitment block).isNone then
      let root := n.hash256 ((blockWitnessMerkleRoot n.hash256 n.blake3 block).data ++ witnessNonce)
      { block with vtx := block.vtx.modifyHead fun tx =>
          { tx with vout := tx.vout ++ [commitmentOutput root] } }
    else block)

/-! ## the header -/

/-- `SetAuxpowVersion`: bit eight of the version -/
def setAuxpowVersion (header : CPureBlockHeader) (auxpow : Bool) : CPureBlockHeader :=
  if header.isAuxpow = auxpow then header
  else if auxpow then { header with nVersion := header.nVersion + CPureBlockHeader.versionAuxpow }
  else { header with nVersion := header.nVersion - CPureBlockHeader.versionAuxpow }

/-- `SetBaseVersion`; the base version stands below the chain id -/
def setBaseVersion (header : CPureBlockHeader) (nBaseVersion : Int) (nChainId : Nat) :
    CPureBlockHeader :=
  { header with nVersion := nBaseVersion + nChainId * CPureBlockHeader.versionChainStart }

/-- `CAuxPow::createAuxPow`: the payload of a parent block that has only a coinbase -/
def createAuxPow (header : CPureBlockHeader) : CAuxPow :=
  let inputData := (header.getHash n.hash256).data.reverse ++ [1] ++ List.replicate 7 0
  let coinbase : CTransaction :=
    ⟨[⟨⟨.null, 0xffffffff⟩, pushData inputData, sequenceFinal, []⟩], [], 2, 0, none, false⟩
  { coinbaseTx := coinbase
    hashBlock := .null
    vMerkleBranch := []
    vChainMerkleBranch := []
    nIndex := 0
    nChainIndex := 0
    parentBlock := ⟨1, .null, coinbase.getHash n.hash256 n.blake3, 0, 0, 0⟩ }

/-- `CBlockHeader::SetAuxpow` with a payload -/
def setAuxpow (header : CBlockHeader) (auxpow : CAuxPow) : CBlockHeader :=
  ⟨setAuxpowVersion header.toCPureBlockHeader true, some auxpow⟩

/-- `CAuxPow::initAuxPow` -/
def initAuxPow (header : CPureBlockHeader) : CBlockHeader :=
  let announced := setAuxpowVersion header true
  setAuxpow ⟨announced, none⟩ (createAuxPow n announced)

def versionbitsLastOldBlockVersion : Int := 4

/-- the version and the placeholder of a header at a merge-mined height -/
def prepareAuxpow (header : CPureBlockHeader) : CBlockHeader :=
  if n.params.auxpow.isEnabled ctx.nHeight then
    initAuxPow n (setBaseVersion (setAuxpowVersion header false) versionbitsLastOldBlockVersion
      n.params.auxpow.nChainId)
  else ⟨header, none⟩

/-- the time of a template: `GetAdjustedTime`, then `UpdateTime` -/
def templateTime : UInt32 :=
  let nOldTime := UInt32.ofInt ctx.nAdjustedTime
  let nNewTime := max (ctx.tip.prev.medianTimePast + 1) ctx.nAdjustedTime
  if (nOldTime.toNat : Int) < nNewTime then UInt32.ofInt nNewTime else nOldTime

def templateHeader (vtx : List CTransaction) (mwebBlock : Option Mw.Block) : CBlockHeader :=
  let header : CPureBlockHeader :=
    { nVersion := ctx.nVersion
      hashPrevBlock := ctx.tipHash
      hashMerkleRoot := .null
      nTime := templateTime ctx
      nBits := ctx.nextWorkRequired (templateTime ctx)
      nNonce := 0 }
  prepareAuxpow n ctx { header with
    hashMerkleRoot := (blockMerkleRoot n.hash256 n.blake3 ⟨⟨header, none⟩, vtx, mwebBlock⟩).1 }

/-! ## templates -/

def hogExPart (st : AssemblerState) : Option (List CTransaction × Option Mw.Block) :=
  if ctx.tip.prev.mwebEnabled then do
    let (hogEx, mwebBlock) ← st.miner.addHogExTransaction (minerTools n pedersen) ctx.tip.prev
    some ([hogEx], some mwebBlock)
  else some ([], none)

/-- the block before `TestBlockValidity`, from what the loop over the packages has left -/
def finishBlock (scriptPubKeyIn : Bytes) (st : AssemblerState) : Option CBlock := do
  let (hogEx, mwebBlock) ← hogExPart n pedersen ctx st
  let header : CBlockHeader := ⟨⟨ctx.nVersion, .null, .null, 0, 0, 0⟩, none⟩
  let block := generateCoinbaseCommitment n ctx
    ⟨header, coinbaseTx n ctx scriptPubKeyIn st.nFees :: (st.vtx ++ hogEx), mwebBlock⟩
  some { block with header := templateHeader n ctx block.vtx block.mwebBlock }

/-- the block before `TestBlockValidity`; nothing when an exception or a failed assertion leaves -/
def assembleBlock (scriptPubKeyIn : Bytes) (packages : List Package) : Option CBlock := do
  let st ← (addPackageTxs n pedersen ctx packages).toOption
  finishBlock n pedersen ctx scriptPubKeyIn st

/-- a new `CCoinsViewCache` over a view -/
def newViewCache (view : ChainView) : ChainView :=
  { view with mweb := .cache view.mweb (.fresh view.mweb) }

/-- `TestBlockValidity` -/
def testBlockValidity (block : CBlock) (fCheckPOW fCheckMerkleRoot : Bool) :
    Except ConnectFault Unit := do
  ofBlock (contextualCheckBlockHeader n.params (ctx.headerContext block.header) ctx.tip.prev
    block.header)
  ofBlock (checkBlock n.hash256 n.blake3 n.checks n.params block fCheckPOW fCheckMerkleRoot)
  ofBlock (contextualCheckBlock n.hash256 n.blake3 n.verifier n.crypto n.params ctx.tip.prev block)
  let _ ← connectBlock n ctx.tip true block (newViewCache ctx.view)
  .ok ()

/-- `CreateNewBlock`; nothing when it throws -/
def createNewBlock (scriptPubKeyIn : Bytes) (packages : List Package) : Option CBlock := do
  let block ← assembleBlock n pedersen ctx scriptPubKeyIn packages
  guard (testBlockValidity n ctx block false false).isOk
  some block

end

/-! ## what the loop keeps -/

def Package.From (mempool : List CTransaction) (p : Package) : Prop :=
  ∀ e ∈ p.iter :: p.ancestors, e.tx ∈ mempool

/-- the transactions of the block are those of the mempool without their extension-block parts, and
the miner has staged transactions of the mempool -/
structure Assembled (mempool : List CTransaction) (st : AssemblerState) : Prop where
  vtx_mem : ∀ tx ∈ st.vtx, ∃ t ∈ mempool, tx = { t with mwebTx := none }
  miner : st.miner.Staged mempool

theorem setAuxpowVersion_isAuxpow (header : CPureBlockHeader) :
    (setAuxpowVersion header true).isAuxpow = true := by
  unfold setAuxpowVersion
  split
  · assumption
  · rename_i hnot
    have hnot : ¬ header.nVersion / 2 ^ 8 % 2 = 1 := of_decide_eq_false (Bool.eq_false_iff.mpr hnot)
    rw [if_pos rfl]
    apply decide_eq_true
    show (header.nVersion + 2 ^ 8) / 2 ^ 8 % 2 = 1
    omega

section
variable {n : Node} {pedersen : Mw.Pedersen} {ctx : TemplateContext} {mempool : List CTransaction}
  {st st' : AssemblerState}

theorem mineEntry_staged {e : CTxMemPoolEntry} {miner : Miner} (hst : st.miner.Staged mempool)
    (he : e.tx ∈ mempool) (h : mineEntry n pedersen st e = .ok (some miner)) :
    miner.Staged mempool := by
  unfold mineEntry at h
  split at h
  · exact hst.add he h
  · obtain rfl := Option.some.inj (Except.ok.inj h)
    exact hst

theorem Assembled.addToBlock {e : CTxMemPoolEntry} {added : Bool} (hst : Assembled mempool st)
    (he : e.tx ∈ mempool) (h : addToBlock n pedersen st e = .ok (added, st')) :
    Assembled mempool st' := by
  unfold Mining.addToBlock at h
  split at h
  · cases h
  · obtain ⟨-, rfl⟩ := Prod.mk.inj (Except.ok.inj h)
    exact hst
  · rename_i miner hmine
    have hminer := mineEntry_staged hst.miner he hmine
    dsimp only at h
    split at h
    · obtain ⟨-, rfl⟩ := Prod.mk.inj (Except.ok.inj h)
      exact ⟨hst.vtx_mem, hminer⟩
    · split at h
      · obtain ⟨-, rfl⟩ := Prod.mk.inj (Except.ok.inj h)
        exact ⟨hst.vtx_mem, hminer⟩
      · obtain ⟨-, rfl⟩ := Prod.mk.inj (Except.ok.inj h)
        refine ⟨?_, hminer⟩
        intro tx htx
        rcases List.mem_append.mp htx with htx | htx
        · exact hst.vtx_mem tx htx
        · exact ⟨e.tx, he, List.mem_singleton.mp htx⟩

theorem Assembled.addEntries {entries : List CTxMemPoolEntry} (hst : Assembled mempool st)
    (hentries : ∀ e ∈ entries, e.tx ∈ mempool) (h : addEntries n pedersen entries st = .ok st') :
    Assembled mempool st' := by
  induction entries generalizing st with
  | nil =>
    obtain rfl := Except.ok.inj h
    exact hst
  | cons e rest ih =>
    rw [List.forall_mem_cons] at hentries
    unfold Mining.addEntries at h
    split at h
    · cases h
    · rename_i st₁ hadd
      exact ih (hst.addToBlock hentries.1 hadd) hentries.2 h
    · rename_i st₁ hadd
      obtain rfl := Except.ok.inj h
      have hst₁ := hst.addToBlock hentries.1 hadd
      exact ⟨hst₁.vtx_mem, hst₁.miner⟩

theorem Assembled.skipPackage (hst : Assembled mempool st) (p : Package) :
    Assembled mempool (skipPackage n st p) := by
  unfold Mining.skipPackage
  split
  · exact ⟨hst.vtx_mem, hst.miner⟩
  · exact hst

theorem Assembled.addPackage {p : Package} (hst : Assembled mempool st) (hp : p.From mempool)
    (h : addPackage n pedersen ctx st p = .ok st') : Assembled mempool st' := by
  unfold Mining.addPackage at h
  obtain ⟨-, h⟩ := Checked.ite_error_eq_ok.mp h
  split at h
  · obtain rfl := Except.ok.inj h
    exact hst.skipPackage p
  · dsimp only at h
    split at h
    · obtain rfl := Except.ok.inj h
      exact hst.skipPackage p
    · refine hst.addEntries ?_ h
      intro e he
      rcases List.mem_append.mp he with he | he
      · exact hp e (List.mem_cons_of_mem _ (List.mem_of_mem_filter he))
      · exact hp e (List.mem_cons.mpr (.inl (List.mem_singleton.mp he)))

theorem assembled_of_addPackageTxs {packages : List Package}
    (hpackages : ∀ p ∈ packages, p.From mempool)
    (h : addPackageTxs n pedersen ctx packages = .ok st) : Assembled mempool st := by
  refine Checked.foldlM_preserves (fun st p st' hp hst hstep => ?_) ?_ h
  · exact hst.addPackage (hpackages p hp) hstep
  · exact ⟨fun _ h => absurd h List.not_mem_nil, Miner.newBlock_staged mempool _ _⟩

end

end Mining
