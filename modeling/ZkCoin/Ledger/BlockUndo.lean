import ZkCoin.Coins.Compress
import ZkCoin.Ledger.ConnectBlock
import ZkCoin.Mw.UndoCodec

/-!
# Undo data of blocks on disk

`CBlockUndo` is a vector of vectors of coins, and then, where there is an extension block, its undo
data.  The reader cannot tell from the data whether the second part is there: it compares the size of
what it has read so far with the size in the record.

* `CBlockUndo.serialize`, `unserializeBlockUndo`.
* `unserializeBlockUndo_append` — what comes back has lost the pegout flags.
* `undoWriteToDisk`, `undoReadFromDisk` — the record with its checksum.
-/

open Bytes Serialize Compress

/-- a coin as the undo format remembers it -/
def Coin.withoutPegout (coin : Coin) : Coin := { coin with fPegout := false }

namespace Consensus

def CBlockUndo.withoutPegouts (undo : CBlockUndo) : CBlockUndo :=
  { undo with vtxundo := undo.vtxundo.map (List.map Coin.withoutPegout) }

section
variable (keys : KeyCodec)

/-- the first part, the `CTxUndo`s -/
def txUndoBytes (vtxundo : List (List Coin)) : Bytes := vector (vector (Coin.undoBytes keys)) vtxundo

def CBlockUndo.serialize (undo : CBlockUndo) : Bytes :=
  txUndoBytes keys undo.vtxundo ++ Mw.optBytes Mw.BlockUndo.serialize undo.mwundo

/-- `UnserializeBlockUndo` -/
def unserializeBlockUndo (numBytes : Nat) (s : Bytes) : Option (CBlockUndo × Bytes) := do
  let (vtxundo, s) ← readVector (readVector (Coin.readUndo keys)) s
  if (CBlockUndo.serialize keys ⟨vtxundo, none⟩).length < numBytes then
    (Mw.BlockUndo.read s).map fun (mwundo, s) => (⟨vtxundo, some mwundo⟩, s)
  else some (⟨vtxundo, none⟩, s)

variable (hash256 : Bytes → Uint256)

/-- the record of `UndoWriteToDisk` behind the message start: the size, the data and the checksum.
The size is an `unsigned int`. -/
def undoWriteToDisk (undo : CBlockUndo) (hashPrev : Uint256) : Bytes :=
  leBytes 4 ((undo.serialize keys).length % 2 ^ 32) ++ undo.serialize keys ++
    (hash256 (hashPrev.data ++ undo.serialize keys)).data

/-- `UndoReadFromDisk`; the checksum is taken over the bytes that were read -/
def undoReadFromDisk (hashPrev : Uint256) (s : Bytes) : Option CBlockUndo := do
  let (undoSize, s) ← readLe 4 s
  let (undo, rest) ← unserializeBlockUndo keys undoSize s
  let (hashChecksum, _) ← readUint256 rest
  if hashChecksum = hash256 (hashPrev.data ++ s.take (s.length - rest.length)) then some undo
  else none

end

/-! ## what comes back -/

def Recordable (coin : Coin) : Prop := Storable coin.out ∧ coin.nHeight < 2 ^ 31

structure CBlockUndo.Stored (undo : CBlockUndo) : Prop where
  vtxundo_le : undo.vtxundo.length ≤ maxSize
  txundo : ∀ txundo ∈ undo.vtxundo, txundo.length ≤ maxSize ∧ ∀ coin ∈ txundo, Recordable coin
  mwundo : ∀ mwundo, undo.mwundo = some mwundo → mwundo.Stored

variable {keys : KeyCodec} {undo : CBlockUndo}

theorem readTxUndo_append (h : undo.Stored) (rest : Bytes) :
    readVector (readVector (Coin.readUndo keys)) (txUndoBytes keys undo.vtxundo ++ rest) =
      some (undo.withoutPegouts.vtxundo, rest) := by
  have hcoin : ReadsAs Recordable Coin.withoutPegout (Coin.undoBytes keys) (Coin.readUndo keys) :=
    fun coin rest hcoin => Coin.readUndo_undoBytes hcoin.1 hcoin.2 rest
  exact hcoin.vector.vector undo.vtxundo rest ⟨h.vtxundo_le, h.txundo⟩

/-- the size that the reader compares is that of the first part as it was written -/
theorem txUndoBytes_withoutPegouts (undo : CBlockUndo) :
    txUndoBytes keys undo.withoutPegouts.vtxundo = txUndoBytes keys undo.vtxundo := by
  have hinner : ∀ coins : List Coin, vector (Coin.undoBytes keys) (coins.map Coin.withoutPegout) =
      vector (Coin.undoBytes keys) coins := by
    intro coins
    rw [vector, vector, List.length_map, List.flatMap_map]
    rfl
  rw [txUndoBytes, txUndoBytes, CBlockUndo.withoutPegouts, vector, vector, List.length_map,
    List.flatMap_map]
  simp only [hinner]

/-- **Undo data read back.**  The coins come back without their pegout flags; the second part is read
when the size says that it is there. -/
theorem unserializeBlockUndo_append (h : undo.Stored) {numBytes : Nat}
    (hnone : undo.mwundo = none → numBytes ≤ (txUndoBytes keys undo.vtxundo).length) (rest : Bytes) :
    unserializeBlockUndo keys numBytes (undo.serialize keys ++ rest) =
      if (txUndoBytes keys undo.vtxundo).length < numBytes then some (undo.withoutPegouts, rest)
      else some (⟨undo.withoutPegouts.vtxundo, none⟩,
        Mw.optBytes Mw.BlockUndo.serialize undo.mwundo ++ rest) := by
  rw [CBlockUndo.serialize, List.append_assoc, unserializeBlockUndo, readTxUndo_append h]
  simp only [Option.bind_eq_bind, Option.bind_some]
  rw [CBlockUndo.serialize, txUndoBytes_withoutPegouts,
    show Mw.optBytes Mw.BlockUndo.serialize none = [] from rfl, List.append_nil]
  by_cases hmore : (txUndoBytes keys undo.vtxundo).length < numBytes
  · rw [if_pos hmore, if_pos hmore]
    cases hmw : undo.mwundo with
    | none => exact absurd (hnone hmw) (Nat.not_le.mpr hmore)
    | some mwundo =>
      rw [Mw.optBytes, Mw.BlockUndo.read_serialize (h.mwundo mwundo hmw), CBlockUndo.withoutPegouts,
        hmw]
      rfl
  · rw [if_neg hmore, if_neg hmore]

theorem serialize_length (undo : CBlockUndo) : (undo.serialize keys).length =
    (txUndoBytes keys undo.vtxundo).length +
      (Mw.optBytes Mw.BlockUndo.serialize undo.mwundo).length := List.length_append

theorem mwUndoBytes_pos (mwundo : Mw.BlockUndo) : 0 < mwundo.serialize.length := by
  rw [Mw.BlockUndo.serialize, List.length_append, List.length_append]
  have hflag : 0 < (Mw.optionalPtr Mw.Header.serialize mwundo.prevHeader).length := by
    unfold Mw.optionalPtr
    split
    · exact Nat.one_pos
    · exact Nat.succ_pos _
  omega

/-- a record of less than 4 GiB comes back -/
theorem undoReadFromDisk_write {hash256 : Bytes → Uint256} (h : undo.Stored)
    (hsize : (undo.serialize keys).length < 2 ^ 32) (hashPrev : Uint256) :
    undoReadFromDisk keys hash256 hashPrev (undoWriteToDisk keys hash256 undo hashPrev) =
      some undo.withoutPegouts := by
  have hnone : undo.mwundo = none →
      (undo.serialize keys).length ≤ (txUndoBytes keys undo.vtxundo).length := by
    intro hmw
    rw [serialize_length, hmw]
    exact Nat.le_of_eq (Nat.add_zero _)
  have hread : ∀ rest, unserializeBlockUndo keys (undo.serialize keys).length
      (undo.serialize keys ++ rest) = some (undo.withoutPegouts, rest) := by
    intro rest
    rw [unserializeBlockUndo_append h hnone]
    cases hmw : undo.mwundo with
    | none =>
      rw [if_neg (Nat.not_lt.mpr (hnone hmw)), CBlockUndo.withoutPegouts, hmw]
      rfl
    | some mwundo =>
      refine if_pos ?_
      rw [serialize_length, hmw, Mw.optBytes]
      exact Nat.lt_add_of_pos_right (mwUndoBytes_pos mwundo)
  rw [undoWriteToDisk, Nat.mod_eq_of_lt hsize, List.append_assoc, undoReadFromDisk,
    readLe_leBytes (by omega)]
  simp only [Option.bind_eq_bind, Option.bind_some, hread]
  rw [← List.append_nil (hash256 _).data, readUint256_append]
  simp only [Option.bind_some, List.append_nil]
  refine if_pos ?_
  rw [List.length_append, Nat.add_sub_cancel, List.take_left]

theorem undoReadFromDisk_write_largest :
    undoReadFromDisk Coin.noKeys Uint256.polyHash .null
      (undoWriteToDisk Coin.noKeys Uint256.polyHash ⟨[[Coin.largestCoin]], none⟩ .null) =
        some ⟨[[Coin.largestCoin.withoutPegout]], none⟩ := by
  have hcoin : Recordable Coin.largestCoin := ⟨⟨by decide, by decide⟩, by decide⟩
  refine undoReadFromDisk_write ⟨by decide, ?_, fun _ h => (by cases h)⟩ (by decide +kernel) .null
  simp [hcoin, maxSize]

end Consensus
