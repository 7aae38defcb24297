import ZkCoin.Primitives.Serialize

/-!
# Extension-block data: kernels, inputs, outputs, transaction bodies and headers

The data types of the MimbleWimble library with the serializations their hashes are taken of.  The
library caches each hash in the object; here it is a function of the object and of the hash.

* `Kernel`, `Input`, `Output`, `TxBody`, `Transaction`, `Header`, `Block`
* `TxBody.getPegIns`, `getPegOuts`, `getTotalFee`, `getSupplyChange`, `getLockHeight`
-/

open Bytes Serialize

-- Amounts (`CAmount`) are 64-bit signed integers in the source and `Int` here; that the sums of
-- the node stay in range is proved where it matters.
def coin : Int := 100000000
def maxMoney : Int := 84000000 * coin

/-- `MoneyRange` -/
def moneyRange (v : Int) : Bool := decide (0 ≤ v) && decide (v ≤ maxMoney)

namespace Mw

/-- `EConsensusError` -/
inductive EConsensusError
  | hashMismatch
  | duplicates
  | blockWeight
  | blockSums
  | amountOutOfRange
  | stealthSums
  | invalidSig
  | bulletproof
  | peginMismatch
  | pegoutMismatch
  | mmrMismatch
  | utxoMissing
  | utxoMismatch
  | notSorted
  | lockHeight
  | badState
  deriving DecidableEq

/-! ## amounts -/

/-- `AmountUtil::IsValidAmountRange` -/
def isValidAmountRange (v : Int) : Bool := decide (-maxMoney ≤ v) && decide (v ≤ maxMoney)

def int64Max : Int := 2 ^ 63 - 1
def int64Min : Int := -2 ^ 63

/-- `AmountUtil::TrySafeAdd` -/
def trySafeAdd (lhs rhs : Int) : Option Int :=
  if (rhs > 0 ∧ lhs > int64Max - rhs) ∨ (rhs < 0 ∧ lhs < int64Min - rhs) then none
  else some (lhs + rhs)

/-- `AmountUtil::TrySafeSubtract` -/
def trySafeSubtract (lhs rhs : Int) : Option Int :=
  if (rhs > 0 ∧ lhs < int64Min + rhs) ∨ (rhs < 0 ∧ lhs > int64Max + rhs) then none
  else some (lhs - rhs)

/-! ## kernels -/

structure PegOutCoin where
  amount : Int
  scriptPubKey : Bytes
  deriving DecidableEq

structure PegInCoin where
  amount : Int
  kernelId : Uint256
  deriving DecidableEq

/-- the amounts and heights that `ReadVarInt` gives for a signed type of `bits` bits -/
def VarIntRange (bits : Nat) (v : Option Int) : Prop := ∀ x ∈ v, 0 ≤ x ∧ x < 2 ^ (bits - 1)

instance (bits : Nat) (v : Option Int) : Decidable (VarIntRange bits v) :=
  inferInstanceAs (Decidable (∀ x ∈ v, 0 ≤ x ∧ x < 2 ^ (bits - 1)))

/-- A kernel as it is read or created: the feature bits say which fields there are.  The bits for
peg-outs and extra data may be set although the vector is empty. -/
structure Kernel where
  features : UInt8
  fee : Option Int
  pegin : Option Int
  pegouts : List PegOutCoin
  lockHeight : Option Int
  stealthExcess : Option (FixedBytes 33)
  extraData : Bytes
  excess : FixedBytes 33
  signature : FixedBytes 64
  fee_iff : fee.isSome = (features &&& 0x01 != 0) := by decide
  pegin_iff : pegin.isSome = (features &&& 0x02 != 0) := by decide
  pegouts_of : features &&& 0x04 = 0 → pegouts = [] := by decide
  lockHeight_iff : lockHeight.isSome = (features &&& 0x08 != 0) := by decide
  stealthExcess_iff : stealthExcess.isSome = (features &&& 0x10 != 0) := by decide
  extraData_of : features &&& 0x20 = 0 → extraData = [] := by decide
  fee_range : VarIntRange 64 fee := by decide
  pegin_range : VarIntRange 64 pegin := by decide
  lockHeight_range : VarIntRange 32 lockHeight := by decide
  deriving DecidableEq

theorem varIntRange_none_64 : VarIntRange 64 none := by decide

theorem varIntRange_none_32 : VarIntRange 32 none := by decide

def optBytes {α : Type} (ser : α → Bytes) : Option α → Bytes
  | none => []
  | some a => ser a

def PegOutCoin.serialize (p : PegOutCoin) : Bytes :=
  varInt p.amount.toNat ++ byteVector p.scriptPubKey

def Kernel.serialize (k : Kernel) : Bytes :=
  [k.features] ++ optBytes (fun v => varInt v.toNat) k.fee ++
    optBytes (fun v => varInt v.toNat) k.pegin ++
    (if k.pegouts.isEmpty then [] else vector PegOutCoin.serialize k.pegouts) ++
    optBytes (fun v => varInt v.toNat) k.lockHeight ++
    optBytes FixedBytes.data k.stealthExcess ++
    (if k.extraData.isEmpty then [] else byteVector k.extraData) ++
    k.excess.data ++ k.signature.data

def Kernel.getFee (k : Kernel) : Int := k.fee.getD 0
def Kernel.getPegIn (k : Kernel) : Int := k.pegin.getD 0
def Kernel.getLockHeight (k : Kernel) : Int := k.lockHeight.getD 0
def Kernel.hasPegIn (k : Kernel) : Bool := k.pegin.isSome
/-- one step of the library's checked sums: the amount, then the new total, has to be in range -/
def safeStep (amountOk totalOk : Int → Bool) (total v : Int) : Option Int := do
  guard (amountOk v)
  let next ← trySafeAdd total v
  guard (totalOk next)
  some next

def Kernel.getPegOutAmount (k : Kernel) : Option Int :=
  (k.pegouts.map PegOutCoin.amount).foldlM (safeStep moneyRange moneyRange) 0

def Kernel.getSupplyChange (k : Kernel) : Option Int := do
  guard (moneyRange k.getPegIn)
  guard (moneyRange k.getFee)
  let pegoutAmount ← k.getPegOutAmount
  let supplyAfterFee ← trySafeSubtract k.getPegIn k.getFee
  let supplyChange ← trySafeSubtract supplyAfterFee pegoutAmount
  guard (isValidAmountRange supplyChange)
  some supplyChange

/-! ## inputs and outputs -/

structure Input where
  features : UInt8
  outputId : Uint256
  commitment : FixedBytes 33
  inputPubKey : Option (FixedBytes 33)
  outputPubKey : FixedBytes 33
  extraData : Bytes
  signature : FixedBytes 64
  deriving DecidableEq

structure OutputMessage where
  features : UInt8
  keyExchangePubKey : FixedBytes 33
  viewTag : UInt8
  maskedValue : UInt64
  maskedNonce : FixedBytes 16
  extraData : Bytes
  deriving DecidableEq

structure Output where
  commitment : FixedBytes 33
  senderPubKey : FixedBytes 33
  receiverPubKey : FixedBytes 33
  message : OutputMessage
  rangeProof : FixedBytes 675
  signature : FixedBytes 64
  deriving DecidableEq

/-- `STANDARD_FIELDS_FEATURE_BIT` and `EXTRA_DATA_FEATURE_BIT` of a message -/
def OutputMessage.serialize (m : OutputMessage) : Bytes :=
  [m.features] ++
    (if m.features &&& 0x01 = 0 then [] else
      m.keyExchangePubKey.data ++ [m.viewTag] ++ u64Bytes m.maskedValue ++ m.maskedNonce.data) ++
    (if m.features &&& 0x02 = 0 then [] else byteVector m.extraData)

/-! ## bodies, transactions, headers and blocks -/

structure TxBody where
  inputs : List Input
  outputs : List Output
  kernels : List Kernel
  deriving DecidableEq

structure Transaction where
  kernelOffset : FixedBytes 32
  stealthOffset : FixedBytes 32
  body : TxBody
  deriving DecidableEq

structure Header where
  height : Int
  outputRoot : Uint256
  kernelRoot : Uint256
  leafsetRoot : Uint256
  kernelOffset : FixedBytes 32
  stealthOffset : FixedBytes 32
  numTXOs : Nat
  numKernels : Nat
  height_range : VarIntRange 32 (some height) := by decide
  numTXOs_range : numTXOs < 2 ^ 64 := by decide
  numKernels_range : numKernels < 2 ^ 64 := by decide
  deriving DecidableEq

structure Block where
  header : Header
  body : TxBody
  deriving DecidableEq

def Header.serialize (h : Header) : Bytes :=
  varInt h.height.toNat ++ h.outputRoot.data ++ h.kernelRoot.data ++ h.leafsetRoot.data ++
    h.kernelOffset.data ++ h.stealthOffset.data ++ varInt h.numTXOs ++ varInt h.numKernels

section
variable (blake3 : Bytes → Uint256)

def Kernel.getHash (k : Kernel) : Uint256 := blake3 k.serialize

def OutputMessage.getHash (m : OutputMessage) : Uint256 := blake3 m.serialize

/-- `Output::ComputeHash`: the range proof enters by its hash -/
def Output.getOutputId (o : Output) : Uint256 :=
  blake3 (o.commitment.data ++ o.senderPubKey.data ++ o.receiverPubKey.data ++
    (o.message.getHash blake3).data ++ (blake3 o.rangeProof.data).data ++ o.signature.data)

def Header.getHash (h : Header) : Uint256 := blake3 h.serialize

def TxBody.getPegIns (body : TxBody) : List PegInCoin :=
  (body.kernels.filter Kernel.hasPegIn).map fun k => ⟨k.getPegIn, k.getHash blake3⟩

def TxBody.getKernelIds (body : TxBody) : List Uint256 := body.kernels.map (Kernel.getHash blake3)

def TxBody.getOutputIds (body : TxBody) : List Uint256 := body.outputs.map (Output.getOutputId blake3)

end

def TxBody.getSpentIds (body : TxBody) : List Uint256 := body.inputs.map Input.outputId

def TxBody.getPegInAmount (body : TxBody) : Option Int :=
  (body.kernels.map Kernel.getPegIn).foldlM (safeStep moneyRange moneyRange) 0

def TxBody.getPegOuts (body : TxBody) : List PegOutCoin := body.kernels.flatMap Kernel.pegouts

def TxBody.getTotalFee (body : TxBody) : Option Int :=
  (body.kernels.map Kernel.getFee).foldlM (safeStep moneyRange moneyRange) 0

def TxBody.getSupplyChange (body : TxBody) : Option Int :=
  body.kernels.foldlM (fun total k => do
    safeStep (fun _ => true) isValidAmountRange total (← k.getSupplyChange)) 0

def TxBody.getLockHeight (body : TxBody) : Int :=
  body.kernels.foldl (fun lockHeight k => max lockHeight k.getLockHeight) 0

end Mw
