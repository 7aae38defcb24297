import ZkCoin.Mw.UndoBlock
import ZkCoin.Primitives.Readers

/-!
# Undo data of extension blocks on disk

How the undo data of an extension block is written and read.  An output message writes the fields
that its feature bits announce, and what is read has the defaults in the others.

* `Output.read`, `Header.read`, `BlockUndo.read` — the readers.
* `Output.Stored`, `BlockUndo.Stored` — the values that come back as they were written.
* `BlockUndo.read_serialize`          — they do.
* `CoinsFrom.stored`                  — the undo data of a block is such a value.
-/

open Bytes Serialize

namespace Mw

/-! ## output messages -/

/-- `key_exchange_pubkey`, `view_tag`, `masked_value` and `masked_nonce` -/
structure StandardFields where
  keyExchangePubKey : FixedBytes 33 := .zero 33
  viewTag : UInt8 := 0
  maskedValue : UInt64 := 0
  maskedNonce : FixedBytes 16 := .zero 16

def OutputMessage.standardFields (m : OutputMessage) : StandardFields :=
  ⟨m.keyExchangePubKey, m.viewTag, m.maskedValue, m.maskedNonce⟩

def StandardFields.serialize (f : StandardFields) : Bytes :=
  f.keyExchangePubKey.data ++ [f.viewTag] ++ u64Bytes f.maskedValue ++ f.maskedNonce.data

def StandardFields.read (s : Bytes) : Option (StandardFields × Bytes) := do
  let (keyExchangePubKey, s) ← readFixed 33 s
  let (viewTag, s) ← readByte s
  let (maskedValue, s) ← readLe 8 s
  let (maskedNonce, s) ← readFixed 16 s
  some (⟨keyExchangePubKey, viewTag, UInt64.ofNat maskedValue, maskedNonce⟩, s)

theorem StandardFields.read_serialize (f : StandardFields) (rest : Bytes) :
    StandardFields.read (f.serialize ++ rest) = some (f, rest) := by
  have hlt : f.maskedValue.toNat < 256 ^ 8 := f.maskedValue.toNat_lt
  simp only [StandardFields.read, StandardFields.serialize, List.append_assoc, readFixed_data,
    List.cons_append, List.nil_append, readByte_cons, u64Bytes, readLe_leBytes hlt,
    Option.bind_eq_bind, Option.bind_some, UInt64.ofNat_toNat]

def OutputMessage.read (s : Bytes) : Option (OutputMessage × Bytes) := do
  let (features, s) ← readByte s
  let (fields, s) ← readWhen (features &&& 0x01 != 0) {} StandardFields.read s
  let (extraData, s) ← readWhen (features &&& 0x02 != 0) [] readByteVector s
  some (⟨features, fields.keyExchangePubKey, fields.viewTag, fields.maskedValue, fields.maskedNonce,
    extraData⟩, s)

/-- a message that was read: what the feature bits do not announce has its default -/
structure OutputMessage.Stored (m : OutputMessage) : Prop where
  fields_of : (m.features &&& 0x01 != 0) = false → m.standardFields = {}
  extraData_of : (m.features &&& 0x02 != 0) = false → m.extraData = []
  extraData_le : m.extraData.length ≤ maxSize

theorem OutputMessage.serialize_eq (m : OutputMessage) : m.serialize =
    m.features :: ((if m.features &&& 0x01 != 0 then m.standardFields.serialize else []) ++
      if m.features &&& 0x02 != 0 then byteVector m.extraData else []) := by
  unfold OutputMessage.serialize
  by_cases h1 : m.features &&& 0x01 = 0
  · by_cases h2 : m.features &&& 0x02 = 0
    · simp [h1, h2]
    · simp [h1, h2]
  · by_cases h2 : m.features &&& 0x02 = 0
    · simp [h1, h2, StandardFields.serialize, OutputMessage.standardFields]
    · simp [h1, h2, StandardFields.serialize, OutputMessage.standardFields]

theorem OutputMessage.read_serialize {m : OutputMessage} (h : m.Stored) (rest : Bytes) :
    OutputMessage.read (m.serialize ++ rest) = some (m, rest) := by
  rw [m.serialize_eq, List.cons_append, List.append_assoc, OutputMessage.read, readByte_cons]
  simp only [Option.bind_eq_bind, Option.bind_some]
  rw [readWhen_append (m.standardFields.read_serialize _) h.fields_of]
  simp only [Option.bind_some]
  rw [readWhen_append (readByteVector_byteVector h.extraData_le rest) h.extraData_of]
  rfl

/-! ## outputs and coins -/

def Output.serialize (o : Output) : Bytes :=
  o.commitment.data ++ o.senderPubKey.data ++ o.receiverPubKey.data ++ o.message.serialize ++
    o.rangeProof.data ++ o.signature.data

def Output.read (s : Bytes) : Option (Output × Bytes) := do
  let (commitment, s) ← readFixed 33 s
  let (senderPubKey, s) ← readFixed 33 s
  let (receiverPubKey, s) ← readFixed 33 s
  let (message, s) ← OutputMessage.read s
  let (rangeProof, s) ← readFixed 675 s
  let (signature, s) ← readFixed 64 s
  some (⟨commitment, senderPubKey, receiverPubKey, message, rangeProof, signature⟩, s)

def Output.Stored (o : Output) : Prop := o.message.Stored

theorem Output.read_serialize {o : Output} (h : o.Stored) (rest : Bytes) :
    Output.read (o.serialize ++ rest) = some (o, rest) := by
  simp only [Output.read, Output.serialize, List.append_assoc, readFixed_data,
    OutputMessage.read_serialize h, Option.bind_eq_bind, Option.bind_some]

def UTXO.serialize (u : UTXO) : Bytes :=
  intBytes 4 u.blockHeight ++ leBytes 8 u.leafIdx ++ u.output.serialize

def UTXO.read (s : Bytes) : Option (UTXO × Bytes) := do
  let (blockHeight, s) ← readInt 4 s
  let (leafIdx, s) ← readLe 8 s
  let (output, s) ← Output.read s
  some (⟨blockHeight, leafIdx, output⟩, s)

/-- a coin with a height and a leaf index that fit the source's types -/
structure UTXO.Stored (u : UTXO) : Prop where
  height : IntFits 4 u.blockHeight
  leafIdx : u.leafIdx < 2 ^ 64
  output : u.output.Stored

theorem UTXO.read_serialize {u : UTXO} (h : u.Stored) (rest : Bytes) :
    UTXO.read (u.serialize ++ rest) = some (u, rest) := by
  have hleaf : u.leafIdx < 256 ^ 8 := h.leafIdx
  simp only [UTXO.read, UTXO.serialize, List.append_assoc, readInt_intBytes h.height,
    readLe_leBytes hleaf, Output.read_serialize h.output, Option.bind_eq_bind, Option.bind_some]

/-! ## headers -/

/-- the integers of a header are in the range of their types -/
def readVarIntTo (max : Nat) (s : Bytes) : Option ({ n : Nat // n ≤ max } × Bytes) := do
  let (n, s) ← readVarInt max s
  if h : n ≤ max then some (⟨n, h⟩, s) else none

theorem readVarIntTo_varInt {max n : Nat} (h : n ≤ max) (hmax : max < 2 ^ 64) (rest : Bytes) :
    readVarIntTo max (varInt n ++ rest) = some (⟨n, h⟩, rest) := by
  rw [readVarIntTo, readVarInt_varInt h (by omega)]
  simp only [Option.bind_eq_bind, Option.bind_some, dif_pos h]

def Header.read (s : Bytes) : Option (Header × Bytes) := do
  let (⟨height, hheight⟩, s) ← readVarIntTo (2 ^ 31 - 1) s
  let (outputRoot, s) ← readUint256 s
  let (kernelRoot, s) ← readUint256 s
  let (leafsetRoot, s) ← readUint256 s
  let (kernelOffset, s) ← readFixed 32 s
  let (stealthOffset, s) ← readFixed 32 s
  let (⟨numTXOs, hTXOs⟩, s) ← readVarIntTo (2 ^ 64 - 1) s
  let (⟨numKernels, hKernels⟩, s) ← readVarIntTo (2 ^ 64 - 1) s
  some ({ height := height, outputRoot, kernelRoot, leafsetRoot, kernelOffset, stealthOffset, numTXOs,
          numKernels
          height_range := by
            intro x hx
            obtain rfl := Option.some.inj hx
            omega
          numTXOs_range := by omega
          numKernels_range := by omega }, s)

theorem Header.read_serialize (h : Header) (rest : Bytes) :
    Header.read (h.serialize ++ rest) = some (h, rest) := by
  obtain ⟨hnonneg, hlt⟩ := h.height_range h.height rfl
  have hheight : h.height.toNat ≤ 2 ^ 31 - 1 := by omega
  have hTXOs : h.numTXOs ≤ 2 ^ 64 - 1 := Nat.le_sub_one_of_lt h.numTXOs_range
  have hKernels : h.numKernels ≤ 2 ^ 64 - 1 := Nat.le_sub_one_of_lt h.numKernels_range
  simp only [Header.read, Header.serialize, List.append_assoc,
    readVarIntTo_varInt hheight (by omega), readUint256_append, readFixed_data,
    readVarIntTo_varInt hTXOs (by omega), readVarIntTo_varInt hKernels (by omega),
    Option.bind_eq_bind, Option.bind_some, Int.toNat_of_nonneg hnonneg]

/-! ## undo data -/

def optionalPtr {α : Type} (ser : α → Bytes) : Option α → Bytes
  | none => [0]
  | some a => 1 :: ser a

/-- `OptionalPtr`: any byte but one means that nothing follows -/
def readOptionalPtr {α : Type} (read : Bytes → Option (α × Bytes)) (s : Bytes) :
    Option (Option α × Bytes) := do
  let (isSet, s) ← readByte s
  if isSet = 1 then (read s).map fun (a, s) => (some a, s) else some (none, s)

def BlockUndo.serialize (undo : BlockUndo) : Bytes :=
  optionalPtr Header.serialize undo.prevHeader ++ vector UTXO.serialize undo.coinsSpent ++
    vector Uint256.data undo.coinsAdded

def BlockUndo.read (s : Bytes) : Option (BlockUndo × Bytes) := do
  let (prevHeader, s) ← readOptionalPtr Header.read s
  let (coinsSpent, s) ← readVector UTXO.read s
  let (coinsAdded, s) ← readVector readUint256 s
  some (⟨prevHeader, coinsSpent, coinsAdded⟩, s)

structure BlockUndo.Stored (undo : BlockUndo) : Prop where
  spent_le : undo.coinsSpent.length ≤ maxSize
  spent : ∀ u ∈ undo.coinsSpent, u.Stored
  added_le : undo.coinsAdded.length ≤ maxSize

theorem readOptionalPtr_append {α : Type} {ser : α → Bytes} {read : Bytes → Option (α × Bytes)}
    (h : ∀ a rest, read (ser a ++ rest) = some (a, rest)) (x : Option α) (rest : Bytes) :
    readOptionalPtr read (optionalPtr ser x ++ rest) = some (x, rest) := by
  cases x with
  | none => rfl
  | some a =>
    rw [optionalPtr, List.cons_append, readOptionalPtr, readByte_cons]
    simp only [Option.bind_eq_bind, Option.bind_some, if_true, h, Option.map_some]

theorem BlockUndo.read_serialize {undo : BlockUndo} (h : undo.Stored) (rest : Bytes) :
    BlockUndo.read (undo.serialize ++ rest) = some (undo, rest) := by
  have hcoins : ReadsAs UTXO.Stored id UTXO.serialize UTXO.read :=
    fun u rest hu => UTXO.read_serialize hu rest
  have hids : ReadsAs (fun _ => True) id Uint256.data readUint256 :=
    fun id rest _ => readUint256_append id rest
  have hspent := fun rest => hcoins.vector undo.coinsSpent rest ⟨h.spent_le, h.spent⟩
  have hadded := fun rest => hids.vector undo.coinsAdded rest ⟨h.added_le, fun _ _ => trivial⟩
  simp only [BlockUndo.read, BlockUndo.serialize, List.append_assoc,
    readOptionalPtr_append Header.read_serialize, hspent, hadded, List.map_id, Option.bind_eq_bind, Option.bind_some]

/-! ## what a block records -/

structure TxBody.Stored (body : TxBody) : Prop where
  inputs_le : body.inputs.length ≤ maxSize
  outputs_le : body.outputs.length ≤ maxSize
  outputs : ∀ o ∈ body.outputs, o.Stored

def CoinState.Stored (s : CoinState) : Prop := ∀ id u, s.coins id = some u → u.Stored

section
variable {blake3 : Bytes → Uint256} {before after : CoinState} {block : Block} {undo : BlockUndo}

theorem FromBlock.stored {u : UTXO} (h : FromBlock blake3 before block u) (hbefore : before.Stored)
    (hbody : block.body.Stored) (hleaf : u.leafIdx < 2 ^ 64) : u.Stored := by
  rcases h with hold | ⟨hheight, hout⟩
  · exact hbefore _ u hold
  · refine ⟨?_, hleaf, hbody.outputs _ hout⟩
    obtain ⟨hlow, hhigh⟩ := block.header.height_range block.header.height rfl
    rw [hheight]
    unfold IntFits
    omega

theorem CoinsFrom.stored (h : CoinsFrom blake3 before block undo after) (hbefore : before.Stored)
    (hbody : block.body.Stored) (hafter : after.Sound blake3)
    (hleaves : after.leaves.length < 2 ^ 64) : undo.Stored ∧ after.Stored := by
  refine ⟨⟨?_, ?_, ?_⟩, ?_⟩
  · rw [h.spent_length]
    exact hbody.inputs_le
  · intro u hu
    exact (h.spent u hu).stored hbefore hbody ((h.leafIdx_lt u hu).trans hleaves)
  · rw [h.added_length]
    exact hbody.outputs_le
  · intro id u hu
    exact (h.shown id u hu).stored hbefore hbody ((hafter.leafIdx_lt hu).trans hleaves)

end

end Mw
