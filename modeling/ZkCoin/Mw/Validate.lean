import Mathlib.Data.List.Induction
import ZkCoin.Mw.ViewRange

/-!
# Context-free validation of an extension block

What the library checks of an extension block before it meets any state: weight, order, duplicates,
signatures, lock heights, the kernel range against the header, and the peg-ins and peg-outs against
the transactions of the canonical block.

* `TxBody.validate`, `Block.validate`, `validateBlock`
* `MemMmr`                     — the mountain range in memory that the kernels are put into.
* `Block.validate_ok`          — the header commits to the kernels of an accepted block.
* `validateBlock_perms`        — its peg-ins and peg-outs are those of the canonical block.
-/

open Bytes Serialize

namespace Mw

/-! ## weight -/

def bytesPerWeight : Nat := 42
def kernelLockHeightGrandfatherHeight : Int := 3110000
def baseKernelWeight : Nat := 2
def stealthExcessWeight : Nat := 1
def kernelWithStealthWeight : Nat := baseKernelWeight + stealthExcessWeight
def baseOutputWeight : Nat := 17
def standardOutputFieldsWeight : Nat := 1
def standardOutputWeight : Nat := baseOutputWeight + standardOutputFieldsWeight
def maxNumInputs : Nat := 50000
def maxBlockWeight : Nat := 200000

def extraBytesToWeight (extraBytes : Nat) : Nat :=
  (extraBytes + (bytesPerWeight - 1)) / bytesPerWeight

def Input.weight (input : Input) : Nat := extraBytesToWeight input.extraData.length

def Kernel.weight (kernel : Kernel) : Nat :=
  (if kernel.stealthExcess.isSome then kernelWithStealthWeight else baseKernelWeight) +
    (kernel.pegouts.map fun pegout => extraBytesToWeight pegout.scriptPubKey.length).sum +
    extraBytesToWeight kernel.extraData.length

def Output.weight (output : Output) : Nat :=
  (if output.message.features &&& 0x01 = 0 then baseOutputWeight else standardOutputWeight) +
    extraBytesToWeight output.message.extraData.length

/-- `Weight::Calculate` -/
def TxBody.weight (body : TxBody) : Nat :=
  (body.inputs.map Input.weight).sum + (body.kernels.map Kernel.weight).sum +
    (body.outputs.map Output.weight).sum

/-- `Weight::ExceedsMaximum` -/
def TxBody.exceedsMaximum (body : TxBody) : Bool :=
  decide (body.inputs.length > maxNumInputs) || decide (body.weight > maxBlockWeight)

theorem TxBody.kernels_length_le {body : TxBody} (h : body.exceedsMaximum = false) :
    body.kernels.length ≤ 100000 := by
  have hkernels : ∀ ks : List Kernel, 2 * ks.length ≤ (ks.map Kernel.weight).sum := by
    intro ks
    induction ks with
    | nil => exact le_rfl
    | cons k ks ih =>
      have hk : 2 ≤ k.weight := by
        unfold Kernel.weight kernelWithStealthWeight baseKernelWeight
        split <;> omega
      rw [List.map_cons, List.sum_cons, List.length_cons]
      omega
  rw [TxBody.exceedsMaximum, Bool.or_eq_false_iff, decide_eq_false_iff_not,
    decide_eq_false_iff_not, TxBody.weight, maxBlockWeight] at h
  have := hkernels body.kernels
  omega

/-! ## bodies -/

/-- `std::is_sorted` -/
def isSorted {α : Type} (less : α → α → Bool) : List α → Bool
  | a :: b :: rest => !less b a && isSorted less (b :: rest)
  | _ => true

/-- `BigInt::operator<` -/
def hashLess (a b : Uint256) : Bool := decide (a.data < b.data)

def containsDuplicates (hashes : List Uint256) : Bool := !decide hashes.Nodup

/-- the checks of the library that rest on curve arithmetic -/
structure Crypto where
  /-- `Schnorr::BatchVerify` of the messages that kernels, inputs and outputs sign -/
  schnorrBatchVerify : TxBody → Bool
  /-- `Bulletproofs::BatchVerify` of the range proofs -/
  bulletproofsBatchVerify : List Output → Bool
  /-- `StealthSumValidator::Validate` -/
  stealthSums : FixedBytes 32 → TxBody → Bool
  kernelSums : KernelSums

section
variable (blake3 : Bytes → Uint256)

def inputSort (a b : Input) : Bool := hashLess a.outputId b.outputId

def outputSort (a b : Output) : Bool := hashLess (a.getOutputId blake3) (b.getOutputId blake3)

/-- highest supply change first, then by hash; kernels whose amounts are out of range come last -/
def kernelSort (a b : Kernel) : Bool :=
  match a.getSupplyChange, b.getSupplyChange with
  | some x, some y =>
    decide (x > y) || (decide (x = y) && hashLess (a.getHash blake3) (b.getHash blake3))
  | some _, none => true
  | none, some _ => false
  | none, none => hashLess (a.getHash blake3) (b.getHash blake3)

variable (crypto : Crypto)

def TxBody.validate (body : TxBody) : Except Fault Unit :=
  if body.exceedsMaximum then .error (.validation .blockWeight)
  else if !isSorted inputSort body.inputs || !isSorted (outputSort blake3) body.outputs ||
      !isSorted (kernelSort blake3) body.kernels then .error (.validation .notSorted)
  else if containsDuplicates body.getSpentIds then .error (.validation .duplicates)
  else if containsDuplicates (body.getOutputIds blake3) then .error (.validation .duplicates)
  else if containsDuplicates (body.getKernelIds blake3) then .error (.validation .duplicates)
  else if !crypto.schnorrBatchVerify body then .error (.validation .invalidSig)
  else if !crypto.bulletproofsBatchVerify body.outputs then .error (.validation .bulletproof)
  else .ok ()

/-! ## the range in memory -/

structure MemMmr where
  hashes : List Uint256
  leaves : List Leaf

def MemMmr.empty : MemMmr := ⟨[], []⟩

def memStore : Mmr.Store Fault (List Uint256) Uint256 := Mmr.listStore .assertion

/-- `IMMR::Add` of a `MemMMR` -/
def MemMmr.add (mmr : MemMmr) (data : Bytes) : Except Fault MemMmr := do
  let leaf := Leaf.create blake3 mmr.leaves.length data
  let hashes ← memStore.addLeaf (calcParentHash blake3) mmr.hashes (Mmr.position leaf.index) leaf.hash
  .ok ⟨hashes, mmr.leaves ++ [leaf]⟩

/-- `IMMR::Root` of a `MemMMR` -/
def MemMmr.root (mmr : MemMmr) : Except Fault Uint256 :=
  Mmr.root (memStore.get mmr.hashes) (calcParentHash blake3) Uint256.isNull .null
    (Mmr.position mmr.leaves.length)

/-! ## blocks -/

/-- `mw::Block::Validate` -/
def Block.validate (block : Block) : Except Fault Unit := do
  if block.header.numKernels != block.body.kernels.length then .error (.validation .mmrMismatch)
  else
    block.body.validate blake3 crypto
    if block.header.height > kernelLockHeightGrandfatherHeight ∧
        block.body.getLockHeight > block.header.height then .error (.validation .lockHeight)
    else if !crypto.stealthSums block.header.stealthOffset block.body then
      .error (.validation .stealthSums)
    else
      let kernelMmr ← block.body.kernels.foldlM (fun mmr kernel => mmr.add blake3 kernel.serialize)
        MemMmr.empty
      let root ← kernelMmr.root blake3
      if block.header.kernelRoot != root then .error (.validation .mmrMismatch) else .ok ()

end

def insertPegIn (amounts : List PegInCoin) (coin : PegInCoin) : Except Fault (List PegInCoin) :=
  if amounts.any fun c => c.kernelId == coin.kernelId then .error (.validation .peginMismatch)
  else .ok (amounts ++ [coin])

def takePegIn (amounts : List PegInCoin) (pegin : PegInCoin) : Except Fault (List PegInCoin) :=
  match amounts.find? fun c => c.kernelId == pegin.kernelId with
  | none => .error (.validation .peginMismatch)
  | some coin =>
    if pegin.amount != coin.amount then .error (.validation .peginMismatch)
    else .ok (amounts.eraseP fun c => c.kernelId == pegin.kernelId)

def takePegOut (coins : List PegOutCoin) (pegout : PegOutCoin) : Except Fault (List PegOutCoin) :=
  if pegout ∈ coins then .ok (coins.erase pegout) else .error (.validation .pegoutMismatch)

section
variable (blake3 : Bytes → Uint256)

/-- `BlockValidator::ValidatePegInCoins` -/
def validatePegInCoins (block : Block) (pegInCoins : List PegInCoin) : Except Fault Unit := do
  let amounts ← pegInCoins.foldlM insertPegIn []
  if (block.body.getPegIns blake3).length != amounts.length then
    .error (.validation .peginMismatch)
  else
    let _ ← (block.body.getPegIns blake3).foldlM takePegIn amounts
    .ok ()

/-- `BlockValidator::ValidatePegOutCoins` -/
def validatePegOutCoins (block : Block) (pegOutCoins : List PegOutCoin) : Except Fault Unit :=
  if block.body.getPegOuts.length != pegOutCoins.length then .error (.validation .pegoutMismatch)
  else do
    let _ ← block.body.getPegOuts.foldlM takePegOut pegOutCoins
    .ok ()

/-- `BlockValidator::ValidateBlock`: an exception is a `false`, a failed assertion stays one -/
def validateBlock (crypto : Crypto) (block : Block) (pegInCoins : List PegInCoin)
    (pegOutCoins : List PegOutCoin) : Except Fault Bool :=
  match (do
    block.validate blake3 crypto
    validatePegInCoins blake3 block pegInCoins
    validatePegOutCoins block pegOutCoins : Except Fault Unit) with
  | .ok () => .ok true
  | .error .assertion => .error .assertion
  | .error _ => .ok false

end

variable {blake3 : Bytes → Uint256} {crypto : Crypto}

/-! ## the range of the kernels -/

theorem memMmr_run (blake3 : Bytes → Uint256) (datas : List Bytes) :
    ∃ mmr : MemMmr, datas.foldlM (MemMmr.add blake3) MemMmr.empty = .ok mmr ∧
      mmr.leaves.length = datas.length ∧
      Mmr.Range (calcParentHash blake3) (leafHashesFrom blake3 0 datas) mmr.hashes := by
  induction datas using List.reverseRecOn with
  | nil => exact ⟨MemMmr.empty, rfl, rfl, Mmr.range_nil _⟩
  | append_singleton datas data ih =>
    obtain ⟨mmr, hrun, hlen, hrange⟩ := ih
    obtain ⟨new, hadd, hrange'⟩ := Mmr.addLeaf_list (calcParentHash blake3) Fault.assertion hrange
      (Leaf.create blake3 mmr.leaves.length data).hash
    have hcount : (leafHashesFrom blake3 0 datas).length = mmr.leaves.length := by
      rw [leafHashesFrom, List.length_mapIdx, hlen]
    rw [hcount] at hadd
    refine ⟨⟨mmr.hashes ++ new, mmr.leaves ++ [Leaf.create blake3 mmr.leaves.length data]⟩,
      ?_, ?_, ?_⟩
    · rw [List.foldlM_append, Checked.bind_eq_ok]
      refine ⟨mmr, hrun, ?_⟩
      rw [List.foldlM_cons, Checked.bind_eq_ok]
      refine ⟨_, ?_, rfl⟩
      rw [MemMmr.add, Checked.bind_eq_ok]
      exact ⟨_, hadd, rfl⟩
    · rw [List.length_append, List.length_append, hlen]
      rfl
    · rw [hlen] at hrange'
      simpa [leafHashesFrom, List.mapIdx_append] using hrange'

theorem MemMmr.root_eq {mmr : MemMmr} {leafHashes : List Uint256}
    (hrange : Mmr.Range (calcParentHash blake3) leafHashes mmr.hashes)
    (hlen : mmr.leaves.length = leafHashes.length) :
    mmr.root blake3 = .ok (Mmr.bag (calcParentHash blake3) Uint256.isNull .null mmr.hashes.length
      (Mmr.peaksOf mmr.hashes)) := by
  rw [MemMmr.root, hlen]
  exact hrange.root_eq fun p x hp => Mmr.listStore_get.mpr hp

structure KernelRange (blake3 : Bytes → Uint256) (block : Block) (nodes : List Uint256) : Prop where
  range : Mmr.Range (calcParentHash blake3)
    (leafHashesFrom blake3 0 (block.body.kernels.map Kernel.serialize)) nodes
  numKernels_eq : block.header.numKernels = block.body.kernels.length
  kernelRoot_eq : block.header.kernelRoot =
    Mmr.bag (calcParentHash blake3) Uint256.isNull .null nodes.length (Mmr.peaksOf nodes)

theorem TxBody.validate_ok {body : TxBody} (h : body.validate blake3 crypto = .ok ()) :
    body.kernels.length ≤ 100000 := by
  unfold TxBody.validate at h
  obtain ⟨hweight, -⟩ := Checked.ite_error_eq_ok.mp h
  exact TxBody.kernels_length_le (Bool.eq_false_iff.mpr hweight)

theorem kernelMmr_run (blake3 : Bytes → Uint256) (kernels : List Kernel) :
    ∃ mmr : MemMmr,
      kernels.foldlM (fun mmr kernel => mmr.add blake3 kernel.serialize) MemMmr.empty = .ok mmr ∧
      Mmr.Range (calcParentHash blake3) (leafHashesFrom blake3 0 (kernels.map Kernel.serialize))
        mmr.hashes ∧
      mmr.root blake3 = .ok (Mmr.bag (calcParentHash blake3) Uint256.isNull .null mmr.hashes.length
        (Mmr.peaksOf mmr.hashes)) := by
  obtain ⟨mmr, hrun, hlen, hrange⟩ := memMmr_run blake3 (kernels.map Kernel.serialize)
  rw [List.foldlM_map] at hrun
  refine ⟨mmr, hrun, hrange, MemMmr.root_eq hrange ?_⟩
  rw [hlen, leafHashesFrom, List.length_mapIdx]

variable {block : Block}

/-- **The kernels.**  The header of a valid block commits to its kernels. -/
theorem Block.validate_ok (h : block.validate blake3 crypto = .ok ()) :
    block.body.kernels.length ≤ 100000 ∧ ∃ nodes, KernelRange blake3 block nodes := by
  unfold Block.validate at h
  obtain ⟨hcount, h⟩ := Checked.ite_error_eq_ok.mp h
  obtain ⟨⟨⟩, hbody, h⟩ := Checked.bind_eq_ok.mp h
  obtain ⟨-, h⟩ := Checked.ite_error_eq_ok.mp h
  obtain ⟨-, h⟩ := Checked.ite_error_eq_ok.mp h
  obtain ⟨mmr, hrun, hrange, hroot⟩ := kernelMmr_run blake3 block.body.kernels
  obtain ⟨mmr', hrun', h⟩ := Checked.bind_eq_ok.mp h
  obtain rfl := Except.ok.inj (hrun.symm.trans hrun')
  obtain ⟨root, hroot', h⟩ := Checked.bind_eq_ok.mp h
  obtain rfl := Except.ok.inj (hroot.symm.trans hroot')
  obtain ⟨heq, -⟩ := Checked.ite_error_eq_ok.mp h
  refine ⟨TxBody.validate_ok hbody, mmr.hashes, hrange, ?_, ?_⟩
  · simpa using hcount
  · simpa using heq

/-! ## peg-ins and peg-outs -/

theorem takePegOut_perm (coins : List PegOutCoin) (pegout : PegOutCoin) (rest : List PegOutCoin)
    (h : takePegOut coins pegout = .ok rest) : coins.Perm (pegout :: rest) := by
  unfold takePegOut at h
  split at h
  · rename_i hmem
    obtain rfl := Except.ok.inj h
    exact List.perm_cons_erase hmem
  · cases h

theorem takePegIn_perm (amounts : List PegInCoin) (pegin : PegInCoin) (rest : List PegInCoin)
    (h : takePegIn amounts pegin = .ok rest) : amounts.Perm (pegin :: rest) := by
  unfold takePegIn at h
  cases hfind : amounts.find? fun c => c.kernelId == pegin.kernelId with
  | none =>
    rw [hfind] at h
    cases h
  | some coin =>
    rw [hfind] at h
    obtain ⟨hamount, h⟩ := Checked.ite_error_eq_ok.mp h
    obtain rfl := Except.ok.inj h
    have hid : coin.kernelId = pegin.kernelId := by simpa using List.find?_some hfind
    have hcoin : coin = pegin := by
      have hamount' : pegin.amount = coin.amount := by simpa using hamount
      cases coin
      cases pegin
      simp_all
    -- what is erased is the coin that was found
    obtain ⟨hp, as, bs, rfl, has⟩ := List.find?_eq_some_iff_append.mp hfind
    rw [List.eraseP_append_right _ (by simpa using has),
      List.eraseP_cons_of_pos (p := fun c : PegInCoin => c.kernelId == pegin.kernelId) hp, hcoin]
    exact List.perm_middle

variable {pegins : List PegInCoin}

theorem insertPegIns_eq {amounts amounts' : List PegInCoin}
    (h : pegins.foldlM insertPegIn amounts = .ok amounts') : amounts' = amounts ++ pegins := by
  induction pegins generalizing amounts with
  | nil =>
    rw [List.append_nil]
    exact (Except.ok.inj h).symm
  | cons pegin pegins ih =>
    rw [List.foldlM_cons, Checked.bind_eq_ok] at h
    obtain ⟨next, hnext, h⟩ := h
    obtain ⟨-, hnext⟩ := Checked.ite_error_eq_ok.mp hnext
    obtain rfl := Except.ok.inj hnext
    rw [ih h, List.append_assoc]
    rfl

theorem validatePegInCoins_perm (h : validatePegInCoins blake3 block pegins = .ok ()) :
    (block.body.getPegIns blake3).Perm pegins := by
  unfold validatePegInCoins at h
  obtain ⟨amounts, hamounts, h⟩ := Checked.bind_eq_ok.mp h
  obtain ⟨hlen, h⟩ := Checked.ite_error_eq_ok.mp h
  obtain ⟨rest, hrun, -⟩ := Checked.bind_eq_ok.mp h
  have hall : amounts = pegins := insertPegIns_eq hamounts
  rw [← hall]
  exact Checked.perm_of_foldlM_take takePegIn_perm (by simpa using hlen) hrun

theorem validatePegOutCoins_perm {pegouts : List PegOutCoin}
    (h : validatePegOutCoins block pegouts = .ok ()) : block.body.getPegOuts.Perm pegouts := by
  unfold validatePegOutCoins at h
  obtain ⟨hlen, h⟩ := Checked.ite_error_eq_ok.mp h
  obtain ⟨rest, hrun, -⟩ := Checked.bind_eq_ok.mp h
  exact Checked.perm_of_foldlM_take takePegOut_perm (by simpa using hlen) hrun

/-! ## the verdict on a block -/

theorem validateBlock_true {pegouts : List PegOutCoin}
    (h : validateBlock blake3 crypto block pegins pegouts = .ok true) :
    block.validate blake3 crypto = .ok () ∧ (block.body.getPegIns blake3).Perm pegins ∧
      block.body.getPegOuts.Perm pegouts := by
  unfold validateBlock at h
  split at h
  · rename_i hall
    obtain ⟨⟨⟩, hvalid, hall⟩ := Checked.bind_eq_ok.mp hall
    obtain ⟨⟨⟩, hpegins, hpegouts⟩ := Checked.bind_eq_ok.mp hall
    exact ⟨hvalid, validatePegInCoins_perm hpegins, validatePegOutCoins_perm hpegouts⟩
  · cases h
  · cases h

theorem TxBody.validate_raises (body : TxBody) :
    Checked.Raises Fault.IsValidation (body.validate blake3 crypto) := by
  simp [TxBody.validate, Checked.raises_ite, Fault.IsValidation]

theorem Block.validate_raises (block : Block) :
    Checked.Raises Fault.IsValidation (block.validate blake3 crypto) := by
  obtain ⟨mmr, hrun, -, hroot⟩ := kernelMmr_run blake3 block.body.kernels
  simp [Block.validate, hrun, hroot, Checked.raises_ite, Checked.raises_bind, Fault.IsValidation,
    TxBody.validate_raises]

theorem validatePegInCoins_raises (block : Block) (pegins : List PegInCoin) :
    Checked.Raises Fault.IsValidation (validatePegInCoins blake3 block pegins) := by
  have hinsert : ∀ amounts coin, Checked.Raises Fault.IsValidation (insertPegIn amounts coin) := by
    intro amounts coin
    simp [insertPegIn, Checked.raises_ite, Fault.IsValidation]
  have htake : ∀ amounts coin, Checked.Raises Fault.IsValidation (takePegIn amounts coin) := by
    intro amounts coin
    unfold takePegIn
    split <;> simp [Checked.raises_ite, Fault.IsValidation]
  simp [validatePegInCoins, Checked.raises_ite, Checked.raises_bind, Fault.IsValidation,
    Checked.Raises.foldlM hinsert, Checked.Raises.foldlM htake]

theorem validatePegOutCoins_raises (block : Block) (pegouts : List PegOutCoin) :
    Checked.Raises Fault.IsValidation (validatePegOutCoins block pegouts) := by
  have htake : ∀ coins coin, Checked.Raises Fault.IsValidation (takePegOut coins coin) := by
    intro coins coin
    simp [takePegOut, Checked.raises_ite, Fault.IsValidation]
  simp [validatePegOutCoins, Checked.raises_ite, Checked.raises_bind, Fault.IsValidation,
    Checked.Raises.foldlM htake]

theorem validateBlock_decides (block : Block) (pegins : List PegInCoin)
    (pegouts : List PegOutCoin) :
    ∃ valid, validateBlock blake3 crypto block pegins pegouts = .ok valid := by
  have hall : Checked.Raises Fault.IsValidation (do
      block.validate blake3 crypto
      validatePegInCoins blake3 block pegins
      validatePegOutCoins block pegouts : Except Fault Unit) := by
    simp only [Checked.raises_bind]
    exact ⟨Block.validate_raises block, fun _ _ =>
      ⟨validatePegInCoins_raises block pegins, fun _ _ => validatePegOutCoins_raises block pegouts⟩⟩
  unfold validateBlock
  split
  · exact ⟨true, rfl⟩
  · rename_i hfault
    obtain ⟨e, he⟩ := hall _ hfault
    cases he
  · exact ⟨false, rfl⟩

end Mw
