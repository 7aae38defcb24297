import Mathlib.Logic.Function.Basic
import ZkCoin.Library.BitTable
import ZkCoin.Library.Mmr
import ZkCoin.Mw.Tx

/-!
# Views of the extension block's coins

A view is the database or a cache over another view.  It has four parts: the best header, the coins
by output id, the leaf set (which leaves are unspent) and the output mountain range.  A cache keeps
each of them as its own kind of difference to the view below.

* `View`                    — a database under any number of caches.
* `CacheLayer.addUTXO`, `spendUTXO` — the two changes a block makes.
* `applyBlock`, `undoBlock` — connecting and disconnecting an extension block.
* `flush`                   — pushing the differences of a cache into the view below.

Pruning is left out: no code of the node writes a prune list, so it is always empty.
-/

open Bytes Serialize

namespace Mw

/-! ## data -/

structure UTXO where
  blockHeight : Int
  leafIdx : Nat
  output : Output
  deriving DecidableEq

structure BlockUndo where
  prevHeader : Option Header
  coinsSpent : List UTXO
  coinsAdded : List Uint256
  deriving DecidableEq

/-- what stops an operation: a failed assertion, a validation exception, a read or rewind past the
end of a file -/
inductive Fault
  | assertion
  | validation (e : EConsensusError)
  | file
  deriving DecidableEq

/-- the exceptions of validation, which the node catches -/
def Fault.IsValidation (fault : Fault) : Prop := ∃ e, fault = .validation e

structure Leaf where
  index : Nat
  hash : Uint256
  data : Bytes
  deriving DecidableEq

/-- `CoinsViewDB` with its leaf set file and its hash file -/
structure DbView where
  header : Option Header
  coins : Uint256 → Option UTXO
  leafBytes : Nat → UInt8
  nextLeafIdx : Nat
  hashFile : List Uint256

abbrev CoinAction := Option UTXO

/-- the differences a `CoinsViewCache` holds; the actions of all coins are kept in one list in the
order in which they were recorded -/
structure CacheLayer where
  header : Option Header
  updates : List (Uint256 × CoinAction)
  modifiedBytes : Nat → Option UInt8
  nextLeafIdx : Nat
  firstLeaf : Nat
  leaves : List Leaf
  nodes : List Uint256

inductive View
  | db (d : DbView)
  | cache (base : View) (c : CacheLayer)

/-! ## reading -/

def View.header : View → Option Header
  | .db d => d.header
  | .cache _ c => c.header

/-- `CoinsViewUpdates::GetActions` -/
def CacheLayer.getActions (c : CacheLayer) (id : Uint256) : List CoinAction :=
  (c.updates.filter fun a => a.1 = id).map Prod.snd

/-- one step of the replay of `CoinsViewCache::GetUTXO`, with its assertions -/
def replayAction (utxo : Option UTXO) (action : CoinAction) : Except Fault (Option UTXO) :=
  match action with
  | some added => if utxo.isNone then .ok (some added) else .error .assertion
  | none => if utxo.isSome then .ok none else .error .assertion

def View.getUTXO : View → Uint256 → Except Fault (Option UTXO)
  | .db d, id => .ok (d.coins id)
  | .cache base c, id => do
    let utxo ← base.getUTXO id
    (c.getActions id).foldlM replayAction utxo

/-- `ILeafSet::GetByte` -/
def View.getByte : View → Nat → UInt8
  | .db d, b => d.leafBytes b
  | .cache base c, b =>
    match c.modifiedBytes b with
    | some byte => byte
    | none => base.getByte b

/-- `ILeafSet::GetNextLeafIdx` -/
def View.nextLeafIdx : View → Nat
  | .db d => d.nextLeafIdx
  | .cache _ c => c.nextLeafIdx

/-- `ILeafSet::Contains` -/
def View.containsLeaf (v : View) (i : Nat) : Bool := BitTable.contains v.getByte i

/-- `PMMRCache::GetNextLeafIdx` -/
def CacheLayer.numLeaves (c : CacheLayer) : Nat :=
  match c.leaves.getLast? with
  | none => c.firstLeaf
  | some leaf => leaf.index + 1

/-- `IMMR::GetNumLeaves` -/
def View.numLeaves : View → Nat
  | .db d => Mmr.leafIndexAt d.hashFile.length
  | .cache _ c => c.numLeaves

/-- `IMMR::GetHash` at a position -/
def View.getHash : View → Nat → Except Fault Uint256
  | .db d, p =>
    match d.hashFile[p]? with
    | some h => .ok h
    | none => .error .file
  | .cache base c, p =>
    if p < Mmr.position c.firstLeaf then base.getHash p
    else
      match c.nodes[p - Mmr.position c.firstLeaf]? with
      | some h => .ok h
      | none => .error .assertion

def leafPreimage (index : Nat) (data : Bytes) : Bytes :=
  leBytes 8 (Mmr.position index) ++ byteVector data

def View.leafSetBytes (v : View) : Bytes :=
  (List.range ((v.nextLeafIdx + 7) / 8)).map v.getByte

section
variable (blake3 : Bytes → Uint256)

/-- `ILeafSet::Root` -/
def View.leafSetRoot (v : View) : Uint256 := blake3 v.leafSetBytes

/-- `MMRUtil::CalcParentHash` -/
def calcParentHash (position : Nat) (left right : Uint256) : Uint256 :=
  blake3 (leBytes 8 position ++ left.data ++ right.data)

/-- `Leaf::Create` at a leaf index -/
def Leaf.create (index : Nat) (data : Bytes) : Leaf := ⟨index, blake3 (leafPreimage index data), data⟩

/-- `IMMR::Root` -/
def View.outputRoot (v : View) : Except Fault Uint256 :=
  Mmr.root v.getHash (calcParentHash blake3) Uint256.isNull .null (Mmr.position v.numLeaves)

end

/-! ## the leaf set of a cache -/

namespace CacheLayer

/-- a new `CoinsViewCache` over `base` -/
def fresh (base : View) : CacheLayer where
  header := base.header
  updates := []
  modifiedBytes := fun _ => none
  nextLeafIdx := base.nextLeafIdx
  firstLeaf := base.numLeaves
  leaves := []
  nodes := []

/-- `ILeafSet::Add` -/
def addToLeafSet (base : View) (c : CacheLayer) (i : Nat) : CacheLayer :=
  let byte := (View.cache base c).getByte (i / 8) ||| BitTable.bitToByte (i % 8)
  { c with
    modifiedBytes := Function.update c.modifiedBytes (i / 8) (some byte)
    nextLeafIdx := if i ≥ c.nextLeafIdx then i + 1 else c.nextLeafIdx }

/-- `ILeafSet::Remove` -/
def removeFromLeafSet (base : View) (c : CacheLayer) (i : Nat) : CacheLayer :=
  let byte := (View.cache base c).getByte (i / 8) &&& (0xff ^^^ BitTable.bitToByte (i % 8))
  { c with modifiedBytes := Function.update c.modifiedBytes (i / 8) (some byte) }

/-- `ILeafSet::Rewind` -/
def rewindLeafSet (base : View) (c : CacheLayer) (numLeaves : Nat) (leavesToAdd : List Nat) :
    CacheLayer :=
  let c := leavesToAdd.foldl (addToLeafSet base) c
  let c := (List.range' numLeaves (c.nextLeafIdx - numLeaves)).foldl (removeFromLeafSet base) c
  { c with nextLeafIdx := numLeaves }

/-! ## the mountain range of a cache -/

/-- nodes are read through the cache and appended to it -/
def store (base : View) : Mmr.Store Fault CacheLayer Uint256 where
  get c p := (View.cache base c).getHash p
  push c h := { c with nodes := c.nodes ++ [h] }

/-- `PMMRCache::AddLeaf` -/
def addLeaf (blake3 : Bytes → Uint256) (base : View) (c : CacheLayer) (leaf : Leaf) :
    Except Fault CacheLayer := do
  let c ← (store base).addLeaf (calcParentHash blake3) c (Mmr.position leaf.index) leaf.hash
  .ok { c with leaves := c.leaves ++ [leaf] }

/-- `IMMR::Add` of a cache -/
def addData (blake3 : Bytes → Uint256) (base : View) (c : CacheLayer) (data : Bytes) :
    Except Fault CacheLayer :=
  addLeaf blake3 base c (Leaf.create blake3 c.numLeaves data)

/-- `PMMRCache::Rewind` -/
def rewindRange (c : CacheLayer) (numLeaves : Nat) : CacheLayer :=
  if numLeaves ≤ c.firstLeaf then { c with firstLeaf := numLeaves, leaves := [], nodes := [] }
  else if c.leaves.isEmpty then c
  else
    let c := { c with leaves := c.leaves.takeWhile fun leaf => leaf.index < numLeaves }
    { c with nodes := c.nodes.take (Mmr.position c.numLeaves - Mmr.position c.firstLeaf) }

end CacheLayer

/-! ## writing to the view below -/

def fileStore : Mmr.Store Fault (List Uint256) Uint256 := Mmr.listStore .file

/-- one action of `CoinsViewDB::WriteBatch`: `added` holds what the batch itself has added, `coins` is
the committed table and `result` the table once the batch is committed -/
def writeAction (coins : Uint256 → Option UTXO)
    (batch : (Uint256 → Option UTXO) × (Uint256 → Option UTXO)) (action : Uint256 × CoinAction) :
    Except Fault ((Uint256 → Option UTXO) × (Uint256 → Option UTXO)) :=
  let (added, result) := batch
  let (id, action) := action
  match action with
  | some utxo => .ok (Function.update added id (some utxo), Function.update result id (some utxo))
  | none =>
    if (added id).isNone && (coins id).isNone then .error (.validation .utxoMissing)
    else .ok (Function.update added id none, Function.update result id none)

/-- `WriteBatch` -/
def View.writeBatch : View → List (Uint256 × CoinAction) → Option Header → Except Fault View
  | .db d, updates, header => do
    let (_, coins) ← updates.foldlM (writeAction d.coins) (fun _ => none, d.coins)
    .ok (.db { d with header := header, coins := coins })
  | .cache base c, updates, header =>
    .ok (.cache base { c with header := header, updates := c.updates ++ updates })

def clearLeaf (bytes : Nat → UInt8) (i : Nat) : Nat → UInt8 :=
  Function.update bytes (i / 8) (bytes (i / 8) &&& (0xff ^^^ BitTable.bitToByte (i % 8)))

/-- `ILeafSet::ApplyUpdates`: the database also clears everything above the new next index -/
def View.applyLeafSetUpdates : View → Nat → (Nat → Option UInt8) → View
  | .db d, next, modified =>
    let bytes := fun b => (modified b).getD (d.leafBytes b)
    .db { d with
      leafBytes := (List.range' next (d.nextLeafIdx - next)).foldl clearLeaf bytes
      nextLeafIdx := next }
  | .cache base c, next, modified =>
    .cache base { c with
      modifiedBytes := fun b => (modified b).orElse fun _ => c.modifiedBytes b
      nextLeafIdx := next }

/-- `IMMR::BatchWrite`: rewind to the first leaf, then add the leaves; a cache adds their data anew -/
def View.writeLeaves (blake3 : Bytes → Uint256) : View → Nat → List Leaf → Except Fault View
  | .db d, firstLeaf, leaves => do
    if d.hashFile.length < Mmr.position firstLeaf then .error .file
    else
      let hashFile ← leaves.foldlM (fun file leaf =>
        fileStore.addLeaf (calcParentHash blake3) file (Mmr.position leaf.index) leaf.hash)
        (d.hashFile.take (Mmr.position firstLeaf))
      .ok (.db { d with hashFile := hashFile })
  | .cache base c, firstLeaf, leaves => do
    let c ← leaves.foldlM (fun c leaf => c.addData blake3 base leaf.data) (c.rewindRange firstLeaf)
    .ok (.cache base c)

section
variable (blake3 : Bytes → Uint256)

/-- `CoinsViewCache::Flush`: the view below and what is left in the cache.  A cache without a best
header is not flushed. -/
def flush (base : View) (c : CacheLayer) : Except Fault (View × CacheLayer) :=
  match c.header with
  | none => .ok (base, c)
  | some header => do
    let base ← base.writeBatch c.updates (some header)
    let base := base.applyLeafSetUpdates c.nextLeafIdx c.modifiedBytes
    let base ← base.writeLeaves blake3 c.firstLeaf c.leaves
    .ok (base, { c with
      updates := [], modifiedBytes := fun _ => none,
      firstLeaf := c.numLeaves, leaves := [], nodes := [] })

/-! ## blocks -/

/-- `CoinsViewCache::AddUTXO` -/
def CacheLayer.addUTXO (base : View) (c : CacheLayer) (headerHeight : Int) (output : Output) :
    Except Fault CacheLayer := do
  let id := output.getOutputId blake3
  let utxo ← (View.cache base c).getUTXO id
  if utxo.isSome then .error (.validation .duplicates)
  else
    let leafIdx := c.numLeaves
    let c ← c.addData blake3 base id.data
    let c := c.addToLeafSet base leafIdx
    .ok { c with updates := c.updates ++ [(id, some ⟨headerHeight, leafIdx, output⟩)] }

/-- `CoinsViewCache::SpendUTXO` -/
def CacheLayer.spendUTXO (base : View) (c : CacheLayer) (id : Uint256) :
    Except Fault (UTXO × CacheLayer) := do
  match ← (View.cache base c).getUTXO id with
  | none => .error (.validation .utxoMissing)
  | some utxo =>
    if !(View.cache base c).containsLeaf utxo.leafIdx then .error (.validation .utxoMissing)
    else
      let c := c.removeFromLeafSet base utxo.leafIdx
      .ok (utxo, { c with updates := c.updates ++ [(id, none)] })

/-- the loop body over the inputs of a block: the metadata has to be that of the spent coin -/
def CacheLayer.applyInput (base : View) (allowHistoricalMetadataMismatch : Bool)
    (st : List UTXO × CacheLayer) (input : Input) : Except Fault (List UTXO × CacheLayer) := do
  let (coinsSpent, c) := st
  match ← (View.cache base c).getUTXO input.outputId with
  | none => .error (.validation .utxoMissing)
  | some utxo =>
    if !allowHistoricalMetadataMismatch && (utxo.output.commitment != input.commitment ||
        utxo.output.receiverPubKey != input.outputPubKey) then .error (.validation .utxoMismatch)
    else
      let (spent, c) ← c.spendUTXO base input.outputId
      .ok (coinsSpent ++ [spent], c)

/-- the range and the leaf set are those a header commits to -/
def View.checkHeader (v : View) (header : Header) : Except Fault Unit := do
  let outputRoot ← v.outputRoot blake3
  if header.outputRoot != outputRoot || header.numTXOs != v.numLeaves ||
      header.leafsetRoot != v.leafSetRoot blake3 then .error (.validation .mmrMismatch)
  else .ok ()

/-- `KernelSumValidator::ValidateSums`: the commitments of inputs, outputs and kernels, the total
offset, the previous one and the coins added -/
abbrev KernelSums := List (FixedBytes 33) → List (FixedBytes 33) → List (FixedBytes 33) →
  FixedBytes 32 → FixedBytes 32 → Int → Bool

variable (kernelSums : KernelSums)

/-- `KernelSumValidator::ValidateForBlock` -/
def validateForBlock (body : TxBody) (totalOffset prevTotalOffset : FixedBytes 32) :
    Except Fault Unit :=
  match body.getSupplyChange with
  | none => .error (.validation .amountOutOfRange)
  | some coinsAdded =>
    if kernelSums (body.inputs.map Input.commitment) (body.outputs.map Output.commitment)
        (body.kernels.map Kernel.excess) totalOffset prevTotalOffset coinsAdded then .ok ()
    else .error (.validation .blockSums)

/-- `CoinsViewCache::ApplyBlockChanges` -/
def CacheLayer.applyBlockChanges (base : View) (c : CacheLayer) (block : Block)
    (allowHistoricalMetadataMismatch : Bool) : Except Fault (BlockUndo × CacheLayer) := do
  let previousHeader := c.header
  let c := { c with header := some block.header }
  let prevOffset := (previousHeader.map Header.kernelOffset).getD (.zero 32)
  validateForBlock kernelSums block.body block.header.kernelOffset prevOffset
  let c ← block.body.outputs.foldlM (fun c output =>
    c.addUTXO blake3 base block.header.height output) c
  let (coinsSpent, c) ← block.body.inputs.foldlM
    (applyInput base allowHistoricalMetadataMismatch) ([], c)
  (View.cache base c).checkHeader blake3 block.header
  .ok (⟨previousHeader, coinsSpent, block.body.getOutputIds blake3⟩, c)

/-- `CoinsViewCache::ApplyBlock`: the block is tried on a cache over this one, then flushed here -/
def CacheLayer.applyBlock (base : View) (c : CacheLayer) (block : Block)
    (allowHistoricalMetadataMismatch : Bool) : Except Fault (BlockUndo × View) := do
  let self := View.cache base c
  let (undo, validation) ← (fresh self).applyBlockChanges blake3 kernelSums self block
    allowHistoricalMetadataMismatch
  let (self, _) ← flush blake3 self validation
  .ok (undo, self)

/-- `CoinsViewCache::UndoBlock` -/
def CacheLayer.undoBlock (base : View) (c : CacheLayer) (undo : BlockUndo) :
    Except Fault CacheLayer :=
  let updates := c.updates ++
    undo.coinsSpent.map (fun coin => (coin.output.getOutputId blake3, some coin)) ++
    undo.coinsAdded.map (fun id => (id, none))
  let c := { c with updates := updates }
  match undo.prevHeader with
  | none => .ok { (c.rewindLeafSet base 0 []).rewindRange 0 with header := none }
  | some header => do
    let c := (c.rewindLeafSet base header.numTXOs (undo.coinsSpent.map UTXO.leafIdx)).rewindRange
      header.numTXOs
    let c := { c with header := some header }
    (View.cache base c).checkHeader blake3 header
    .ok c

end

end Mw
