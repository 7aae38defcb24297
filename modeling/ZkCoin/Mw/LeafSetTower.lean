import Mathlib.Data.Finset.Basic
import Mathlib.Data.List.AList
import ZkCoin.Library.BitTable
import ZkCoin.Library.Layers
import ZkCoin.Mw.CoinsView

/-!
# Caches over a leaf set

The classes behind `ILeafSet`: the set of unspent leaves in a file (`LeafSet`) and caches over it
(`LeafSetCache`).  All of them store bits in bytes; the file has the next leaf index in front of them.
What a leaf set should be is a finite set of indices below a size.

* `ILeafSet`               — adding, removing and rewinding, written once for both classes.
* `LeafSet`, `LeafSetCache` — the classes.
* `LeafState`              — a set of leaves below a size.
* `ILeafSet.edit_holds`    — one operation on bits is the operation on sets.
* `leafSetMachine_represents` — so is every operation of a tower.
* `leaf_set_tower_refines` — runs from the empty set; equal roots mean equal sets.

The numbers in the file names are left out.
-/

open Bytes

namespace Mw

/-! ## leaf sets -/

/-- the virtual part of `ILeafSet`, for objects of type `S` -/
structure ILeafSet (S : Type) where
  getByte : S → Nat → UInt8
  setByte : S → Nat → UInt8 → S
  nextLeafIdx : S → Nat
  setNextLeafIdx : S → Nat → S

inductive LeafSetEdit
  | add (i : Nat)
  | remove (i : Nat)
  | rewind (numLeaves : Nat) (leavesToAdd : List Nat)

namespace ILeafSet

variable {S : Type} (o : ILeafSet S)

def add (s : S) (i : Nat) : S :=
  let byte := o.getByte s (i / 8) ||| BitTable.bitToByte (i % 8)
  let s := o.setByte s (i / 8) byte
  if i ≥ o.nextLeafIdx s then o.setNextLeafIdx s (i + 1) else s

def remove (s : S) (i : Nat) : S :=
  let byte := o.getByte s (i / 8) &&& (0xff ^^^ BitTable.bitToByte (i % 8))
  o.setByte s (i / 8) byte

def contains (s : S) (i : Nat) : Bool := BitTable.contains (o.getByte s) i

def rewind (s : S) (numLeaves : Nat) (leavesToAdd : List Nat) : S :=
  let s := leavesToAdd.foldl o.add s
  let s := (List.range' numLeaves (o.nextLeafIdx s - numLeaves)).foldl o.remove s
  o.setNextLeafIdx s numLeaves

/-- what `ILeafSet::Root` hashes -/
def rootBytes (s : S) : Bytes := (List.range ((o.nextLeafIdx s + 7) / 8)).map (o.getByte s)

def root (blake3 : Bytes → Uint256) (s : S) : Uint256 := blake3 (o.rootBytes s)

def edit (s : S) : LeafSetEdit → S
  | .add i => o.add s i
  | .remove i => o.remove s i
  | .rewind numLeaves leavesToAdd => o.rewind s numLeaves leavesToAdd

end ILeafSet

/-! ## bytes by place -/

abbrev ByteMap := AList fun _ : Nat => UInt8

/-- put the bytes of a map into another one, `offset` places up -/
def ByteMap.insertAll (offset : Nat) (into bytes : ByteMap) : ByteMap :=
  bytes.entries.foldl (fun m e => m.insert (e.1 + offset) e.2) into

/-- write one byte of a file; a gap behind its end is filled with zeros -/
def writeByte (file : Bytes) (place : Nat) (byte : UInt8) : Bytes :=
  if place < file.length then file.set place byte
  else file ++ List.replicate (place - file.length) 0 ++ [byte]

/-- `File::WriteBytes` -/
def writeBytes (file : Bytes) (bytes : ByteMap) : Bytes :=
  bytes.entries.foldl (fun file e => writeByte file e.1 e.2) file

/-! ## the leaf set in a file -/

structure LeafSet where
  file : Bytes
  modifiedBytes : ByteMap
  nextLeafIdx : Nat

/-- `LeafSet::Open` -/
def LeafSet.open (file : Bytes) : LeafSet :=
  if file.length < 8 then ⟨file ++ leBytes 8 0, ∅, 0⟩ else ⟨file, ∅, leNat (file.take 8)⟩

namespace LeafSet

def getByte (s : LeafSet) (byteIdx : Nat) : UInt8 :=
  match s.modifiedBytes.lookup (byteIdx + 8) with
  | some byte => byte
  | none => if byteIdx + 8 < s.file.length then s.file.getD (byteIdx + 8) 0 else 0

def setByte (s : LeafSet) (byteIdx : Nat) (value : UInt8) : LeafSet :=
  { s with modifiedBytes := s.modifiedBytes.insert (byteIdx + 8) value }

def asILeafSet : ILeafSet LeafSet where
  getByte := getByte
  setByte := setByte
  nextLeafIdx := nextLeafIdx
  setNextLeafIdx s next := { s with nextLeafIdx := next }

def flush (s : LeafSet) : LeafSet :=
  let nextLeafIdxBytes := leBytes 8 s.nextLeafIdx
  let bytes := (List.range 8).foldl (fun m i => m.insert i (nextLeafIdxBytes.getD i 0)) s.modifiedBytes
  ⟨writeBytes s.file bytes, ∅, s.nextLeafIdx⟩

def applyUpdates (s : LeafSet) (nextLeafIdx : Nat) (modifiedBytes : ByteMap) : LeafSet :=
  let s := { s with modifiedBytes := ByteMap.insertAll 8 s.modifiedBytes modifiedBytes }
  -- in case of a rewind, everything above the new next index is cleared
  let s := (List.range' nextLeafIdx (s.nextLeafIdx - nextLeafIdx)).foldl asILeafSet.remove s
  flush { s with nextLeafIdx := nextLeafIdx }

end LeafSet

/-! ## caches -/

structure LeafSetCache where
  modifiedBytes : ByteMap
  nextLeafIdx : Nat

abbrev LeafSetTower := Layers.Tower LeafSet LeafSetCache

namespace LeafSetTower

def getByte : LeafSetTower → Nat → UInt8
  | .base s, b => s.getByte b
  | .cache below c, b =>
    match c.modifiedBytes.lookup b with
    | some byte => byte
    | none => getByte below b

def nextLeafIdx : LeafSetTower → Nat
  | .base s => s.nextLeafIdx
  | .cache _ c => c.nextLeafIdx

def setByte : LeafSetTower → Nat → UInt8 → LeafSetTower
  | .base s, b, value => .base (s.setByte b value)
  | .cache below c, b, value =>
    .cache below { c with modifiedBytes := c.modifiedBytes.insert b value }

def setNextLeafIdx : LeafSetTower → Nat → LeafSetTower
  | .base s, next => .base { s with nextLeafIdx := next }
  | .cache below c, next => .cache below { c with nextLeafIdx := next }

def asILeafSet : ILeafSet LeafSetTower := ⟨getByte, setByte, nextLeafIdx, setNextLeafIdx⟩

end LeafSetTower

namespace LeafSetCache

def fresh (below : LeafSetTower) : LeafSetCache := ⟨∅, LeafSetTower.nextLeafIdx below⟩

/-- a cache over `below` -/
def asILeafSet (below : LeafSetTower) : ILeafSet LeafSetCache where
  getByte c := LeafSetTower.getByte (.cache below c)
  setByte c b value := { c with modifiedBytes := c.modifiedBytes.insert b value }
  nextLeafIdx := nextLeafIdx
  setNextLeafIdx c next := { c with nextLeafIdx := next }

def applyUpdates (c : LeafSetCache) (nextLeafIdx : Nat) (modifiedBytes : ByteMap) : LeafSetCache :=
  ⟨ByteMap.insertAll 0 c.modifiedBytes modifiedBytes, nextLeafIdx⟩

end LeafSetCache

/-- `LeafSetCache` as a kind of cache: `Flush` clears its bytes -/
def leafSetMachine : Layers.Machine Fault LeafSet LeafSetCache LeafSetEdit where
  fresh := LeafSetCache.fresh
  edit below c e := .ok ((LeafSetCache.asILeafSet below).edit c e)
  writeBase s c := .ok (s.applyUpdates c.nextLeafIdx c.modifiedBytes)
  writeCache _ own c := .ok (own.applyUpdates c.nextLeafIdx c.modifiedBytes)
  emptied c := { c with modifiedBytes := ∅ }

/-! ## sets of leaves -/

/-- a finite set of leaf indices below a size -/
@[ext]
structure LeafState where
  leaves : Finset Nat
  size : Nat
  bounded : ∀ i ∈ leaves, i < size

namespace LeafState

def empty : LeafState := ⟨∅, 0, by simp⟩

def insert (v : LeafState) (i : Nat) : LeafState where
  leaves := Insert.insert i v.leaves
  size := max v.size (i + 1)
  bounded := by
    intro j hj
    rcases Finset.mem_insert.mp hj with rfl | hj
    · omega
    · have := v.bounded j hj
      omega

def erase (v : LeafState) (i : Nat) : LeafState where
  leaves := v.leaves.erase i
  size := v.size
  bounded := fun j hj => v.bounded j (Finset.mem_of_mem_erase hj)

/-- the given leaves come in, then everything from `numLeaves` on goes -/
def rewind (v : LeafState) (numLeaves : Nat) (leavesToAdd : List Nat) : LeafState where
  leaves := (v.leaves ∪ leavesToAdd.toFinset).filter (· < numLeaves)
  size := numLeaves
  bounded := fun _ hj => (Finset.mem_filter.mp hj).2

/-- a leaf is added at or below the next index only -/
def edit (v : LeafState) : LeafSetEdit → Option LeafState
  | .add i => if i ≤ v.size then some (v.insert i) else none
  | .remove i => some (v.erase i)
  | .rewind numLeaves leavesToAdd => some (v.rewind numLeaves leavesToAdd)

def table (v : LeafState) : Nat → UInt8 := BitTable.tableOf fun i => decide (i ∈ v.leaves)

theorem mem_foldl_insert (v : LeafState) (l : List Nat) (i : Nat) :
    i ∈ (l.foldl insert v).leaves ↔ i ∈ v.leaves ∨ i ∈ l := by
  induction l generalizing v with
  | nil => simp
  | cons j l ih =>
    rw [List.foldl_cons, ih, insert, Finset.mem_insert, List.mem_cons]
    tauto

end LeafState

/-! ## bits and sets -/

namespace ILeafSet

variable {S : Type}

/-- bytes that are set are read back, and nothing else changes -/
structure Lawful (o : ILeafSet S) : Prop where
  getByte_setByte : ∀ s b x, o.getByte (o.setByte s b x) = Function.update (o.getByte s) b x
  next_setByte : ∀ s b x, o.nextLeafIdx (o.setByte s b x) = o.nextLeafIdx s
  getByte_setNext : ∀ s n, o.getByte (o.setNextLeafIdx s n) = o.getByte s
  next_setNext : ∀ s n, o.nextLeafIdx (o.setNextLeafIdx s n) = n

structure Holds (o : ILeafSet S) (s : S) (v : LeafState) : Prop where
  next_eq : o.nextLeafIdx s = v.size
  contains_eq : ∀ i, o.contains s i = decide (i ∈ v.leaves)

variable {o : ILeafSet S} {s : S} {v : LeafState}

theorem holds_iff_table :
    o.Holds s v ↔ o.nextLeafIdx s = v.size ∧ o.getByte s = v.table := by
  constructor
  · intro h
    exact ⟨h.next_eq, BitTable.eq_tableOf h.contains_eq⟩
  · intro ⟨hnext, htable⟩
    refine ⟨hnext, ?_⟩
    intro i
    rw [contains, htable]
    exact BitTable.contains_tableOf _ i

theorem add_holds (ho : o.Lawful) (h : o.Holds s v) (i : Nat) : o.Holds (o.add s i) (v.insert i) := by
  have hbits : ∀ j, BitTable.contains (o.getByte (o.setByte s (i / 8)
      (o.getByte s (i / 8) ||| BitTable.bitToByte (i % 8)))) j = decide (j ∈ (v.insert i).leaves) := by
    intro j
    have hold : BitTable.contains (o.getByte s) j = decide (j ∈ v.leaves) := h.contains_eq j
    rw [ho.getByte_setByte, BitTable.contains_update_or, hold, ← Bool.decide_or, decide_eq_decide,
      LeafState.insert, Finset.mem_insert, or_comm, eq_comm]
  unfold add
  dsimp only
  rw [ho.next_setByte, h.next_eq]
  by_cases hge : i ≥ v.size
  · rw [if_pos hge]
    refine ⟨?_, ?_⟩
    · rw [ho.next_setNext]
      exact (Nat.max_eq_right (by omega)).symm
    · intro j
      rw [contains, ho.getByte_setNext]
      exact hbits j
  · rw [if_neg hge]
    refine ⟨?_, hbits⟩
    rw [ho.next_setByte, h.next_eq]
    exact (Nat.max_eq_left (by omega)).symm

theorem contains_remove (ho : o.Lawful) (s : S) (i j : Nat) :
    o.contains (o.remove s i) j = (o.contains s j && !decide (i = j)) := by
  rw [contains, remove, ho.getByte_setByte, BitTable.contains_update_and]
  rfl

theorem next_remove (ho : o.Lawful) (s : S) (i : Nat) :
    o.nextLeafIdx (o.remove s i) = o.nextLeafIdx s :=
  ho.next_setByte _ _ _

theorem remove_holds (ho : o.Lawful) (h : o.Holds s v) (i : Nat) :
    o.Holds (o.remove s i) (v.erase i) := by
  refine ⟨(next_remove ho s i).trans h.next_eq, ?_⟩
  intro j
  rw [contains_remove ho, h.contains_eq, ← decide_not, ← Bool.decide_and, decide_eq_decide,
    LeafState.erase, Finset.mem_erase, and_comm, eq_comm]

theorem contains_removeAll (ho : o.Lawful) (l : List Nat) (s : S) (j : Nat) :
    o.contains (l.foldl o.remove s) j = (o.contains s j && !decide (j ∈ l)) := by
  induction l generalizing s with
  | nil => simp
  | cons i l ih =>
    rw [List.foldl_cons, ih, contains_remove ho]
    by_cases hij : i = j
    · simp [hij]
    · simp [hij, Ne.symm hij]

theorem contains_clear (ho : o.Lawful) (h : ∀ j, o.contains s j = decide (j ∈ v.leaves)) {m : Nat}
    (hm : v.size ≤ m) (n j : Nat) :
    o.contains ((List.range' n (m - n)).foldl o.remove s) j = decide (j ∈ v.leaves ∧ j < n) := by
  rw [contains_removeAll ho, h, ← decide_not, ← Bool.decide_and, decide_eq_decide]
  refine and_congr_right ?_
  intro hj
  have hlt := v.bounded j hj
  rw [List.mem_range'_1]
  omega

theorem addAll_holds (ho : o.Lawful) (l : List Nat) (h : o.Holds s v) :
    o.Holds (l.foldl o.add s) (l.foldl LeafState.insert v) := by
  induction l generalizing s v with
  | nil => exact h
  | cons i l ih => exact ih (add_holds ho h i)

theorem rewind_holds (ho : o.Lawful) (h : o.Holds s v) (numLeaves : Nat) (leavesToAdd : List Nat) :
    o.Holds (o.rewind s numLeaves leavesToAdd) (v.rewind numLeaves leavesToAdd) := by
  have hadd := addAll_holds ho leavesToAdd h
  refine ⟨ho.next_setNext _ _, ?_⟩
  intro j
  have hclear := contains_clear ho hadd.contains_eq le_rfl numLeaves j
  rw [contains] at hclear
  rw [rewind, contains, ho.getByte_setNext, hadd.next_eq, hclear, decide_eq_decide,
    LeafState.mem_foldl_insert, LeafState.rewind, Finset.mem_filter, Finset.mem_union,
    List.mem_toFinset]

/-- **One operation.**  On bits it is the operation on sets. -/
theorem edit_holds (ho : o.Lawful) (h : o.Holds s v) {e : LeafSetEdit} {v' : LeafState}
    (he : v.edit e = some v') : o.Holds (o.edit s e) v' := by
  cases e with
  | add i =>
    rw [LeafState.edit, Option.ite_none_right_eq_some] at he
    rw [← Option.some.inj he.2]
    exact add_holds ho h i
  | remove i =>
    obtain rfl := Option.some.inj he
    exact remove_holds ho h i
  | rewind numLeaves leavesToAdd =>
    obtain rfl := Option.some.inj he
    exact rewind_holds ho h numLeaves leavesToAdd

theorem Holds.zero_above (h : o.Holds s v) {i : Nat} (hi : o.nextLeafIdx s ≤ i) :
    o.contains s i = false := by
  rw [h.contains_eq, decide_eq_false_iff_not]
  intro hmem
  have hlt := v.bounded i hmem
  have hnext := h.next_eq
  omega

/-- **Roots.**  Sets of one size have the same bytes under the root exactly when they are equal. -/
theorem Holds.rootBytes_eq_iff {S' : Type} {o' : ILeafSet S'} {s' : S'} {v' : LeafState}
    (h : o.Holds s v) (h' : o'.Holds s' v') (hsize : v.size = v'.size) :
    o.rootBytes s = o'.rootBytes s' ↔ v.leaves = v'.leaves := by
  constructor
  · intro hbytes
    rw [rootBytes, rootBytes, h.next_eq, h'.next_eq, ← hsize, List.map_inj_left] at hbytes
    ext i
    have hsame : i < v.size → o.contains s i = o'.contains s' i := by
      intro hi
      rw [contains, contains, BitTable.contains, BitTable.contains,
        hbytes (i / 8) (List.mem_range.mpr (by omega))]
    rw [h.contains_eq, h'.contains_eq, decide_eq_decide] at hsame
    constructor
    · intro hi
      exact (hsame (v.bounded i hi)).mp hi
    · intro hi
      have hlt := v'.bounded i hi
      exact (hsame (by omega)).mpr hi
  · intro hleaves
    rw [rootBytes, rootBytes, h.next_eq, h'.next_eq, ← hsize, (holds_iff_table.mp h).2,
      (holds_iff_table.mp h').2, LeafState.table, LeafState.table, hleaves]

end ILeafSet

/-! ## writing maps of bytes -/

theorem ByteMap.foldl_read {S T : Type} (put : S → Nat → UInt8 → S) (read : S → Nat → T)
    {f : Nat → Nat} {g : UInt8 → T} (hf : Function.Injective f)
    (hput : ∀ s k x, read (put s k x) = Function.update (read s) (f k) (g x)) (bytes : ByteMap) (s : S)
    (k : Nat) : read (bytes.entries.foldl (fun s e => put s e.1 e.2) s) (f k) =
      ((bytes.lookup k).map g).getD (read s (f k)) := by
  suffices h : ∀ (l : List (Sigma fun _ : Nat => UInt8)), l.NodupKeys → ∀ s,
      read (l.foldl (fun s e => put s e.1 e.2) s) (f k) =
        ((l.dlookup k).map g).getD (read s (f k)) from h _ bytes.nodupKeys s
  intro l
  induction l with
  | nil =>
    intro _ s
    rfl
  | cons e l ih =>
    intro hl s
    rw [List.foldl_cons, ih (List.nodupKeys_of_nodupKeys_cons hl), hput]
    by_cases hk : k = e.1
    · -- the key stands nowhere else in the map
      subst hk
      rw [List.dlookup_eq_none.mpr (List.notMem_keys_of_nodupKeys_cons hl), Function.update_self,
        List.dlookup_cons_eq]
      rfl
    · rw [Function.update_of_ne (hf.ne hk), List.dlookup_cons_ne _ _ hk]

theorem ByteMap.lookup_insert_eq (m : ByteMap) (k : Nat) (x : UInt8) :
    (fun i => (m.insert k x).lookup i) = Function.update (fun i => m.lookup i) k (some x) := by
  funext i
  by_cases hi : i = k
  · subst hi
    rw [Function.update_self, AList.lookup_insert]
  · rw [Function.update_of_ne hi, AList.lookup_insert_ne hi]

theorem ByteMap.lookup_insertAll (offset : Nat) (into bytes : ByteMap) (k : Nat) :
    (ByteMap.insertAll offset into bytes).lookup (k + offset) =
      (bytes.lookup k).or (into.lookup (k + offset)) := by
  have hread := ByteMap.foldl_read (fun m k x => AList.insert (k + offset) x m)
    (fun m i => AList.lookup i m) (f := fun k => k + offset) (fun a b h => Nat.add_right_cancel h)
    (fun m k x => ByteMap.lookup_insert_eq m (k + offset) x) bytes into k
  refine hread.trans ?_
  cases bytes.lookup k with
  | none => rfl
  | some x => rfl

theorem getD_writeByte (file : Bytes) (place : Nat) (byte : UInt8) :
    (fun i => (writeByte file place byte).getD i 0) =
      Function.update (fun i => file.getD i 0) place byte := by
  funext i
  unfold writeByte
  by_cases hplace : place < file.length
  · rw [if_pos hplace]
    by_cases hi : i = place
    · subst hi
      rw [Function.update_self, List.getD_eq_getElem?_getD, List.getElem?_set_self hplace]
      rfl
    · rw [Function.update_of_ne hi, List.getD_eq_getElem?_getD, List.getElem?_set_ne (Ne.symm hi),
        List.getD_eq_getElem?_getD]
  · -- the file ends before the place: zeros up to it, then the byte
    have hgap : (file ++ List.replicate (place - file.length) 0).length = place := by
      rw [List.length_append, List.length_replicate]
      omega
    have hzeros : (file ++ List.replicate (place - file.length) 0).getD i 0 = file.getD i 0 := by
      rw [List.getD_eq_getElem?_getD, List.getD_eq_getElem?_getD, List.getElem?_append]
      split
      · rfl
      · rename_i hi
        rw [List.getElem?_replicate, List.getElem?_eq_none (by omega)]
        split
        · rfl
        · rfl
    rw [if_neg hplace]
    by_cases hi : i = place
    · subst hi
      rw [Function.update_self, List.getD_eq_getElem?_getD, List.getElem?_append_right hgap.le, hgap,
        Nat.sub_self]
      rfl
    · rw [Function.update_of_ne hi, ← hzeros, List.getD_eq_getElem?_getD, List.getD_eq_getElem?_getD]
      rcases Nat.lt_or_gt_of_ne hi with hlt | hgt
      · rw [List.getElem?_append_left (by omega)]
      · rw [List.getElem?_eq_none (by rw [List.length_append, hgap, List.length_singleton]; omega),
          List.getElem?_eq_none (by omega)]

theorem getD_writeBytes (file : Bytes) (bytes : ByteMap) (k : Nat) :
    (writeBytes file bytes).getD k 0 = (bytes.lookup k).getD (file.getD k 0) := by
  have hread := ByteMap.foldl_read writeByte (fun file i => file.getD i 0) (f := id) (g := id)
    Function.injective_id (fun file k x => getD_writeByte file k x) bytes file k
  rw [Option.map_id] at hread
  exact hread

/-! ## the layers -/

theorem LeafSet.getByte_eq (s : LeafSet) (b : Nat) :
    s.getByte b = (s.modifiedBytes.lookup (b + 8)).getD (s.file.getD (b + 8) 0) := by
  unfold LeafSet.getByte
  cases s.modifiedBytes.lookup (b + 8) with
  | some x => rfl
  | none =>
    dsimp only [Option.getD_none]
    split
    · rfl
    · rename_i hend
      rw [List.getD_eq_default _ _ (by omega)]

theorem LeafSet.lawful : LeafSet.asILeafSet.Lawful := by
  refine ⟨?_, fun _ _ _ => rfl, fun _ _ => rfl, fun _ _ => rfl⟩
  intro s b x
  funext i
  have hlookup := congrFun (ByteMap.lookup_insert_eq s.modifiedBytes (b + 8) x) (i + 8)
  show LeafSet.getByte _ i = _
  rw [LeafSet.getByte_eq]
  show ((s.modifiedBytes.insert (b + 8) x).lookup (i + 8)).getD _ = _
  rw [hlookup]
  by_cases hi : i = b
  · subst hi
    rw [Function.update_self, Function.update_self]
    rfl
  · rw [Function.update_of_ne (by omega), Function.update_of_ne hi]
    exact (LeafSet.getByte_eq s i).symm

theorem LeafSet.getByte_flush (s : LeafSet) (b : Nat) : s.flush.getByte b = s.getByte b := by
  have hheader : ∀ (l : List Nat), (∀ i ∈ l, i < 8) → ∀ m : ByteMap,
      (l.foldl (fun m i => m.insert i ((leBytes 8 s.nextLeafIdx).getD i 0)) m).lookup (b + 8) =
        m.lookup (b + 8) := by
    intro l
    induction l with
    | nil => exact fun _ _ => rfl
    | cons i l ih =>
      intro hl m
      have hi := hl i List.mem_cons_self
      rw [List.foldl_cons, ih fun j hj => hl j (List.mem_cons_of_mem _ hj),
        AList.lookup_insert_ne (by omega)]
  rw [LeafSet.getByte_eq, LeafSet.getByte_eq, LeafSet.flush, AList.lookup_empty, Option.getD_none,
    getD_writeBytes, hheader _ fun i hi => List.mem_range.mp hi]

/-- a cache that holds the set `v` over a layer that holds `below` -/
structure LeafSetCache.Shows (c : LeafSetCache) (v below : LeafState) : Prop where
  next_eq : c.nextLeafIdx = v.size
  table_eq : ∀ b, (c.modifiedBytes.lookup b).getD (below.table b) = v.table b

abbrev LeafSetShows : LeafSetTower → List LeafState → Prop :=
  Layers.Shows LeafSet.asILeafSet.Holds LeafSetCache.Shows

theorem LeafSetTower.getByte_cache (below : LeafSetTower) (c : LeafSetCache) (b : Nat) :
    LeafSetTower.getByte (.cache below c) b =
      (c.modifiedBytes.lookup b).getD (LeafSetTower.getByte below b) := by
  rw [LeafSetTower.getByte]
  cases c.modifiedBytes.lookup b with
  | none => rfl
  | some x => rfl

theorem LeafSetCache.lawful (below : LeafSetTower) : (LeafSetCache.asILeafSet below).Lawful := by
  refine ⟨?_, fun _ _ _ => rfl, fun _ _ => rfl, fun _ _ => rfl⟩
  intro c b x
  funext i
  have hlookup := congrFun (ByteMap.lookup_insert_eq c.modifiedBytes b x) i
  show LeafSetTower.getByte (.cache below _) i = _
  rw [LeafSetTower.getByte_cache]
  show ((c.modifiedBytes.insert b x).lookup i).getD _ = _
  rw [hlookup]
  by_cases hi : i = b
  · subst hi
    rw [Function.update_self, Function.update_self]
    rfl
  · rw [Function.update_of_ne hi, Function.update_of_ne hi]
    exact (LeafSetTower.getByte_cache below c i).symm

/-- over a layer that reads as `below`, a cache reads as its own set -/
theorem LeafSetCache.shows_iff {t : LeafSetTower} {c : LeafSetCache} {v below : LeafState}
    (ht : LeafSetTower.asILeafSet.Holds t below) :
    c.Shows v below ↔ (LeafSetCache.asILeafSet t).Holds c v := by
  have htable : LeafSetTower.getByte t = below.table := (ILeafSet.holds_iff_table.mp ht).2
  have hbytes : ∀ b, (LeafSetCache.asILeafSet t).getByte c b =
      (c.modifiedBytes.lookup b).getD (below.table b) := by
    intro b
    rw [← htable]
    exact LeafSetTower.getByte_cache t c b
  rw [ILeafSet.holds_iff_table]
  constructor
  · intro h
    exact ⟨h.next_eq, funext fun b => (hbytes b).trans (h.table_eq b)⟩
  · intro ⟨hnext, hread⟩
    exact ⟨hnext, fun b => (hbytes b).symm.trans (congrFun hread b)⟩

theorem LeafSetTower.holds_of_shows {t : LeafSetTower} {v : LeafState} {rest : List LeafState}
    (ht : LeafSetShows t (v :: rest)) : LeafSetTower.asILeafSet.Holds t v := by
  induction t generalizing v rest with
  | base s =>
    match rest, ht with
    | [], hs => exact ⟨hs.next_eq, hs.contains_eq⟩
  | cache below c ih =>
    match rest, ht with
    | v' :: rest, ⟨hc, hbelow⟩ =>
      have hread := (LeafSetCache.shows_iff (ih hbelow)).mp hc
      exact ⟨hread.next_eq, hread.contains_eq⟩

/-- **Flushing into the file.** -/
theorem LeafSet.applyUpdates_holds {s : LeafSet} {c : LeafSetCache} {v below : LeafState}
    (hs : LeafSet.asILeafSet.Holds s below) (hc : c.Shows v below) :
    LeafSet.asILeafSet.Holds (s.applyUpdates c.nextLeafIdx c.modifiedBytes) v := by
  have hmerged : ∀ b, LeafSet.getByte { s with
      modifiedBytes := ByteMap.insertAll 8 s.modifiedBytes c.modifiedBytes } b = v.table b := by
    intro b
    have hbelow : s.getByte b = below.table b := congrFun (ILeafSet.holds_iff_table.mp hs).2 b
    rw [LeafSet.getByte_eq] at hbelow ⊢
    rw [ByteMap.lookup_insertAll, ← hc.table_eq b, ← hbelow]
    cases c.modifiedBytes.lookup b with
    | none => rfl
    | some x => rfl
  have hcontains : ∀ i, LeafSet.asILeafSet.contains { s with
      modifiedBytes := ByteMap.insertAll 8 s.modifiedBytes c.modifiedBytes } i =
        decide (i ∈ v.leaves) := by
    intro i
    rw [ILeafSet.contains, show LeafSet.asILeafSet.getByte _ = v.table from funext hmerged]
    exact BitTable.contains_tableOf _ i
  refine ⟨hc.next_eq, ?_⟩
  intro i
  -- members of `v` lie below its size, so nothing of it is cleared
  have hclear : ∀ m, LeafSet.asILeafSet.contains
      ((List.range' v.size (m - v.size)).foldl LeafSet.asILeafSet.remove { s with
        modifiedBytes := ByteMap.insertAll 8 s.modifiedBytes c.modifiedBytes }) i =
        decide (i ∈ v.leaves) := by
    intro m
    rw [ILeafSet.contains_removeAll LeafSet.lawful, hcontains, ← decide_not, ← Bool.decide_and,
      decide_eq_decide, and_iff_left_iff_imp]
    intro hi hmem
    have hlt := v.bounded i hi
    have hge := (List.mem_range'_1.mp hmem).1
    omega
  have hflush : ∀ s' : LeafSet, LeafSet.asILeafSet.contains s'.flush i =
      LeafSet.asILeafSet.contains s' i := by
    intro s'
    rw [ILeafSet.contains, ILeafSet.contains,
      show LeafSet.asILeafSet.getByte s'.flush = LeafSet.asILeafSet.getByte s' from
        funext (LeafSet.getByte_flush s')]
  rw [LeafSet.applyUpdates, hflush, hc.next_eq]
  exact hclear s.nextLeafIdx

/-- **The operations keep the sets.** -/
theorem leafSetMachine_represents :
    leafSetMachine.Represents LeafSet.asILeafSet.Holds LeafSetCache.Shows LeafState.edit
      fun _ _ => True := by
  refine ⟨?_, ?_, ?_, ?_, ?_⟩
  · intro t v rest ht
    exact ⟨(LeafSetTower.holds_of_shows ht).next_eq, fun b => rfl⟩
  · intro t c v below v' rest e ht hc he
    have hbelow := LeafSetTower.holds_of_shows ht
    have hedit := ILeafSet.edit_holds (LeafSetCache.lawful t)
      ((LeafSetCache.shows_iff hbelow).mp hc) he
    exact ⟨_, rfl, (LeafSetCache.shows_iff hbelow).mpr hedit⟩
  · intro s c v below hs hc _
    exact ⟨_, rfl, LeafSet.applyUpdates_holds hs hc⟩
  · intro t own c v v' below rest _ hown hc
    refine ⟨_, rfl, hc.next_eq, ?_⟩
    intro b
    have hlookup := ByteMap.lookup_insertAll 0 own.modifiedBytes c.modifiedBytes b
    rw [Nat.add_zero] at hlookup
    show ((ByteMap.insertAll 0 own.modifiedBytes c.modifiedBytes).lookup b).getD _ = _
    rw [hlookup, ← hc.table_eq b, ← hown.table_eq b]
    cases c.modifiedBytes.lookup b with
    | none => rfl
    | some x => rfl
  · intro c v below hc
    exact ⟨hc.next_eq, fun b => rfl⟩

/-! ## runs -/

/-- a layer reads as a set of leaves, with zeros from its next index on -/
structure LeafSetReads (t : LeafSetTower) (v : LeafState) : Prop where
  next_eq : LeafSetTower.nextLeafIdx t = v.size
  contains_eq : ∀ i, LeafSetTower.asILeafSet.contains t i = decide (i ∈ v.leaves)
  zero_above : ∀ i, LeafSetTower.nextLeafIdx t ≤ i → LeafSetTower.asILeafSet.contains t i = false

theorem empty_shows : LeafSetShows (.base (LeafSet.open [])) [LeafState.empty] := by
  refine ⟨rfl, ?_⟩
  intro i
  have hzero : LeafSet.asILeafSet.getByte (LeafSet.open []) = fun _ => 0 := by
    funext b
    show LeafSet.getByte (LeafSet.open []) b = 0
    rw [LeafSet.getByte_eq]
    show (leBytes 8 0).getD (b + 8) 0 = 0
    rw [List.getD_eq_default]
    rw [leBytes_length]
    omega
  rw [ILeafSet.contains, hzero]
  simp [BitTable.contains, BitTable.testBit, LeafState.empty]

theorem leafSetMachine_run {ops : List (Layers.Op LeafSetEdit)} {values : List LeafState}
    (h : ops.foldlM (Layers.valueStep LeafState.edit) [LeafState.empty] = some values) :
    ∃ t, ops.foldlM leafSetMachine.step (.base (LeafSet.open [])) = .ok t ∧
      List.Forall₂ LeafSetTower.asILeafSet.Holds t.layers values := by
  obtain ⟨t, hrun, ht⟩ := leafSetMachine_represents.run_shows empty_shows h
    fun _ op _ before _ _ => Layers.not_unsafe (fun _ _ => trivial) before op
  exact ⟨t, hrun, ht.forall₂_layers fun _ _ _ => LeafSetTower.holds_of_shows⟩

theorem leafSetReads_of_holds {t : LeafSetTower} {v : LeafState}
    (h : LeafSetTower.asILeafSet.Holds t v) : LeafSetReads t v :=
  ⟨h.next_eq, h.contains_eq, fun _ hi => h.zero_above hi⟩

/-- **Caches refine a set of leaves.**  Every run from the empty set succeeds with every layer reading
as its set, and layers of any two runs with sets of one size have the same root exactly when the sets
are equal, unless the hash collides. -/
theorem leaf_set_tower_refines (blake3 : Bytes → Uint256) (ops ops' : List (Layers.Op LeafSetEdit))
    (values values' : List LeafState)
    (h : ops.foldlM (Layers.valueStep LeafState.edit) [LeafState.empty] = some values)
    (h' : ops'.foldlM (Layers.valueStep LeafState.edit) [LeafState.empty] = some values') :
    ∃ t t', ops.foldlM leafSetMachine.step (.base (LeafSet.open [])) = .ok t ∧
      ops'.foldlM leafSetMachine.step (.base (LeafSet.open [])) = .ok t' ∧
      List.Forall₂ LeafSetReads t.layers values ∧ List.Forall₂ LeafSetReads t'.layers values' ∧
      ∀ s v s' v', (s, v) ∈ t.layers.zip values → (s', v') ∈ t'.layers.zip values' →
        v.size = v'.size →
        CollisionFree blake3
          [LeafSetTower.asILeafSet.rootBytes s, LeafSetTower.asILeafSet.rootBytes s'] →
        (LeafSetTower.asILeafSet.root blake3 s = LeafSetTower.asILeafSet.root blake3 s' ↔
          v.leaves = v'.leaves) := by
  obtain ⟨t, ht, hlayers⟩ := leafSetMachine_run h
  obtain ⟨t', ht', hlayers'⟩ := leafSetMachine_run h'
  refine ⟨t, t', ht, ht', hlayers.imp fun _ _ => leafSetReads_of_holds,
    hlayers'.imp fun _ _ => leafSetReads_of_holds, ?_⟩
  intro s v s' v' hs hs' hsize hfree
  rw [← (List.forall₂_zip hlayers hs).rootBytes_eq_iff (List.forall₂_zip hlayers' hs') hsize]
  constructor
  · intro hroot
    exact hfree _ List.mem_cons_self _ (List.mem_cons_of_mem _ List.mem_cons_self) hroot
  · intro hbytes
    exact congrArg blake3 hbytes

/-- a cache over a cache over the empty file: nine leaves, one is spent, the upper cache rewinds behind
it and brings it back, then both are flushed -/
def rewoundOps : List (Layers.Op LeafSetEdit) :=
  [.push] ++ (List.range 9).map (fun i => .edit (.add i)) ++
    [.edit (.remove 3), .push, .edit (.rewind 5 [3]), .flush 0, .flush 1]

theorem leaf_set_tower_refines_rewound : ∃ t : LeafSetTower,
    rewoundOps.foldlM leafSetMachine.step (.base (LeafSet.open [])) = .ok t ∧
    LeafSetTower.nextLeafIdx t = 5 ∧ LeafSetTower.asILeafSet.contains t 3 = true ∧
    LeafSetTower.asILeafSet.contains t 5 = false := by
  obtain ⟨t, _, ht, _, hlayers, _, _⟩ :=
    leaf_set_tower_refines Uint256.polyHash rewoundOps rewoundOps _ _ rfl rfl
  have htop : ∃ below, t.layers = t :: below := by
    cases t with
    | base s => exact ⟨_, rfl⟩
    | cache below c => exact ⟨_, rfl⟩
  obtain ⟨below, hbelow⟩ := htop
  rw [hbelow] at hlayers
  obtain ⟨hreads, _⟩ := List.forall₂_cons.mp hlayers
  exact ⟨t, ht, hreads.next_eq, hreads.contains_eq 3, hreads.contains_eq 5⟩

end Mw
