import Mathlib.Data.List.Sort
import ZkCoin.Mw.Validate

/-!
# Building an extension block

`mw::BlockBuilder` stages transactions one by one and then puts them together as the next block.  The
sums of commitments and of blinding factors are parameters.

* `Transaction.validate`, `Transaction.isStandard` — one transaction on its own.
* `aggregate`                   — several transactions as one.
* `BlockBuilder.addTransaction` — the checks of one more transaction.
* `BlockBuilder.buildBlock`     — the block, with the header that commits to the state after it.
-/

open Bytes Serialize

namespace Mw

/-- sums on the curve; nothing when the library throws -/
structure Pedersen where
  /-- `Pedersen::AddCommitments` of positive and negative terms -/
  addCommitments : List (FixedBytes 33) → List (FixedBytes 33) → Option (FixedBytes 33)
  /-- `Pedersen::AddBlindingFactors` -/
  addBlindingFactors : List (FixedBytes 32) → Option (FixedBytes 32)

/-! ## transactions -/

/-- `Transaction::IsStandard`: no part announces extra data -/
def Transaction.isStandard (tx : Transaction) : Bool :=
  tx.body.inputs.all (fun input => decide (input.features < 0x02)) &&
    tx.body.kernels.all (fun kernel => decide (kernel.features < 0x20)) &&
    tx.body.outputs.all fun output => output.message.features == 0x01

section
variable (blake3 : Bytes → Uint256)

/-- `Transaction::Validate` -/
def Transaction.validate (crypto : Crypto) (tx : Transaction) : Except Fault Unit := do
  tx.body.validate blake3 crypto
  validateForBlock crypto.kernelSums tx.body tx.kernelOffset (.zero 32)
  if !crypto.stealthSums tx.stealthOffset tx.body then .error (.validation .stealthSums)
  else .ok ()

/-- `std::sort` by a comparison -/
def sortBy {α : Type} (less : α → α → Bool) (xs : List α) : List α :=
  xs.insertionSort fun a b => less b a = false

/-- `Transaction::Create` -/
def Transaction.create (kernelOffset stealthOffset : FixedBytes 32) (inputs : List Input)
    (outputs : List Output) (kernels : List Kernel) : Transaction :=
  ⟨kernelOffset, stealthOffset,
    ⟨sortBy inputSort inputs, sortBy (outputSort blake3) outputs, sortBy (kernelSort blake3) kernels⟩⟩

/-- `Aggregation::Aggregate` -/
def aggregate (pedersen : Pedersen) : List Transaction → Option Transaction
  | [] => some ⟨.zero 32, .zero 32, ⟨[], [], []⟩⟩
  | [tx] => some tx
  | txs => do
    let kernelOffset ← pedersen.addBlindingFactors (txs.map Transaction.kernelOffset)
    let stealthOffset ← pedersen.addBlindingFactors (txs.map Transaction.stealthOffset)
    some (.create blake3 kernelOffset stealthOffset (txs.flatMap fun tx => tx.body.inputs)
      (txs.flatMap fun tx => tx.body.outputs) (txs.flatMap fun tx => tx.body.kernels))

/-! ## blocks -/

/-- the offset of a header: that of the header before it and that of the transactions -/
def nextKernelOffset (pedersen : Pedersen) (best : Option Header) (kernelOffset : FixedBytes 32) :
    Option (FixedBytes 32) :=
  match best with
  | none => some kernelOffset
  | some header => pedersen.addBlindingFactors [header.kernelOffset, kernelOffset]

/-- the outputs of a transaction are added and its inputs spent, whoever owns them -/
def CacheLayer.stage (base : View) (c : CacheLayer) (height : Int) (tx : Transaction) :
    Except Fault CacheLayer := do
  let c ← tx.body.outputs.foldlM (fun c output => c.addUTXO blake3 base height output) c
  tx.body.inputs.foldlM (fun c input => (c.spendUTXO base input.outputId).map Prod.snd) c

/-- `CoinsViewCache::BuildNextBlock`; nothing when an exception leaves it -/
def CacheLayer.buildNextBlock (pedersen : Pedersen) (base : View) (c : CacheLayer) (height : Int)
    (transactions : List Transaction) : Option Block := do
  let tx ← aggregate blake3 pedersen transactions
  let kernelMmr ← (tx.body.kernels.foldlM (fun mmr kernel => MemMmr.add blake3 mmr kernel.serialize)
    MemMmr.empty).toOption
  let after ← (c.stage blake3 base height tx).toOption
  let outputRoot ← ((View.cache base after).outputRoot blake3).toOption
  let kernelRoot ← (kernelMmr.root blake3).toOption
  let kernelOffset ← nextKernelOffset pedersen c.header tx.kernelOffset
  if h : VarIntRange 32 (some height) ∧ (View.cache base after).numLeaves < 2 ^ 64 ∧
      kernelMmr.leaves.length < 2 ^ 64 then
    some ⟨{
      height := height
      outputRoot := outputRoot
      kernelRoot := kernelRoot
      leafsetRoot := (View.cache base after).leafSetRoot blake3
      kernelOffset := kernelOffset
      stealthOffset := tx.stealthOffset
      numTXOs := (View.cache base after).numLeaves
      numKernels := kernelMmr.leaves.length
      height_range := h.1
      numTXOs_range := h.2.1
      numKernels_range := h.2.2 }, tx.body⟩
  else none

end

/-! ## the builder -/

structure BlockBuilder where
  height : Int
  weight : Nat
  view : View
  stagedTxs : List Transaction
  stagedOutputs : List Uint256

namespace BlockBuilder

def new (height : Int) (view : View) : BlockBuilder :=
  ⟨height, 0, .cache view (.fresh view), [], []⟩

/-- `ICoinsView::HasCoin` -/
def hasCoin (b : BlockBuilder) (id : Uint256) : Bool :=
  match b.view.getUTXO id with
  | .ok utxo => utxo.isSome
  | .error _ => false

section
variable (blake3 : Bytes → Uint256) (crypto : Crypto) (pedersen : Pedersen)

/-- the peg-ins that the canonical transaction shows are those of the kernels -/
def checkPegIns (tx : Transaction) (pegins : List PegInCoin) : Bool :=
  tx.body.getPegInAmount == some (pegins.map PegInCoin.amount).sum &&
    !containsDuplicates (pegins.map PegInCoin.kernelId) &&
    (tx.body.getPegIns blake3).length == pegins.length &&
    (tx.body.getPegIns blake3).all fun pegin =>
      (pegins.map PegInCoin.kernelId).contains pegin.kernelId

/-- the sum of all staged inputs less all staged outputs; the code asserts that it is not zero -/
def stagedSum (b : BlockBuilder) (tx : Transaction) : Option (FixedBytes 33) :=
  pedersen.addCommitments
    ((tx :: b.stagedTxs).flatMap fun t => t.body.inputs.map Input.commitment)
    ((tx :: b.stagedTxs).flatMap fun t => t.body.outputs.map Output.commitment)

/-- inputs are on chain or staged, outputs are neither -/
def checkCoins (b : BlockBuilder) (tx : Transaction) : Bool :=
  tx.body.getSpentIds.all (fun id => b.hasCoin id || b.stagedOutputs.contains id) &&
    (tx.body.getOutputIds blake3).all fun id => !b.hasCoin id && !b.stagedOutputs.contains id

/-- `BlockBuilder::AddTransaction`: the builder with the transaction, nothing when it was refused, and
a fault for a failed assertion -/
def addTransaction (b : BlockBuilder) (tx : Transaction) (pegins : List PegInCoin) :
    Except Fault (Option BlockBuilder) :=
  if tx.body.weight + b.weight > maxBlockWeight then .ok none
  else if !checkPegIns blake3 tx pegins then .ok none
  else
    match tx.validate blake3 crypto, b.stagedSum pedersen tx with
    | .error .assertion, _ => .error .assertion
    | .error _, _ => .ok none
    | .ok (), none => .ok none
    | .ok (), some commit =>
      if commit.isZero then .error .assertion
      else if !b.checkCoins blake3 tx then .ok none
      else .ok (some { b with
        stagedTxs := b.stagedTxs ++ [tx]
        weight := b.weight + tx.body.weight
        stagedOutputs := b.stagedOutputs ++ tx.body.getOutputIds blake3 })

/-- `BlockBuilder::BuildBlock` -/
def buildBlock (b : BlockBuilder) : Option Block :=
  (CacheLayer.fresh b.view).buildNextBlock blake3 pedersen b.view b.height b.stagedTxs

end

theorem stagedTxs_of_addTransaction {blake3 : Bytes → Uint256} {crypto : Crypto}
    {pedersen : Pedersen} {b b' : BlockBuilder} {tx : Transaction} {pegins : List PegInCoin}
    (h : b.addTransaction blake3 crypto pedersen tx pegins = .ok (some b')) :
    b'.stagedTxs = b.stagedTxs ++ [tx] := by
  unfold addTransaction at h
  split at h
  · cases h
  · split at h
    · cases h
    · split at h
      · cases h
      · cases h
      · cases h
      · split_ifs at h
        · cases h
        · obtain rfl := Option.some.inj (Except.ok.inj h)
          rfl

end BlockBuilder

end Mw
