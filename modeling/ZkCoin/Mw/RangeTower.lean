import ZkCoin.Library.Layers
import ZkCoin.Mw.Validate

/-!
# Caches over a mountain range

The classes behind `IMMR`: a range in memory (`MemMMR`), a range in a hash file with its leaves in a
database (`PMMR`, without a prune list), and caches over either or over one another (`PMMRCache`).
What a range should be is the list of the data of its leaves; a range in memory that is built from
that list says what every reading should give.

* `AppendOnlyFile`, `Pmmr`, `PmmrCache` — the classes, with their operations.
* `rangeMachine`             — towers of caches, after `Layers`.
* `Agrees`                   — a layer reads as the range rebuilt from its leaf data.
* `rangeMachine_represents`  — the operations keep what each layer stands for.
* `range_tower_agrees_iff`   — runs over a file always agree, runs over memory as long as no flush
                               should have changed the memory.

Sizes and positions of the hash file are counted in hashes, and the batch of a flush is committed with
it.  The numbers in the file names are left out.
-/

open Bytes

namespace Mw

/-! ## the hash file -/

/-- `AppendOnlyFile`: the hashes on disk, up to `bufferIndex` of which still count, and those behind
them that are not written yet -/
structure AppendOnlyFile where
  file : List Uint256
  bufferIndex : Nat
  buffer : List Uint256

namespace AppendOnlyFile

def getSize (f : AppendOnlyFile) : Nat := f.bufferIndex + f.buffer.length

def read (f : AppendOnlyFile) (p : Nat) : Except Fault Uint256 :=
  if p + 1 > f.getSize then .error .file
  else
    match if p < f.bufferIndex then f.file[p]? else f.buffer[p - f.bufferIndex]? with
    | some h => .ok h
    | none => .error .file

def append (f : AppendOnlyFile) (h : Uint256) : AppendOnlyFile := { f with buffer := f.buffer ++ [h] }

def rewind (f : AppendOnlyFile) (next : Nat) : Except Fault AppendOnlyFile :=
  if f.file.length ≠ f.bufferIndex then .error .assertion
  else if next > f.getSize then .error .file
  else if next ≤ f.bufferIndex then .ok { f with buffer := [], bufferIndex := next }
  else .ok { f with buffer := f.buffer.take (next - f.bufferIndex) }

def commit (f : AppendOnlyFile) : Except Fault AppendOnlyFile :=
  if f.file.length < f.bufferIndex then .error .file
  else
    let file := if f.file.length ≠ f.bufferIndex ∨ f.buffer ≠ [] then
      f.file.take f.bufferIndex ++ f.buffer else f.file
    .ok ⟨file, file.length, []⟩

def store : Mmr.Store Fault AppendOnlyFile Uint256 := ⟨read, append⟩

end AppendOnlyFile

/-! ## ranges without a cache -/

/-- `PMMR`: the leaves since the last write, their places in that list, and the database of leaf
data -/
structure Pmmr where
  hashFile : AppendOnlyFile
  leaves : List Leaf
  leafMap : Nat → Option Nat
  leafDb : Nat → Option Bytes

/-- `PMMR::Open` on a hash file -/
def Pmmr.open (hashes : List Uint256) (leafDb : Nat → Option Bytes) : Pmmr where
  hashFile := ⟨hashes, hashes.length, []⟩
  leaves := []
  leafMap := fun _ => none
  leafDb := leafDb

inductive MmrBase
  | mem (mmr : MemMmr)
  | file (pmmr : Pmmr)

def MmrBase.isMem : MmrBase → Bool
  | .mem _ => true
  | .file _ => false

/-- what stops the reading of a leaf -/
inductive LeafFault
  | assertion
  | outOfRange
  | notFound (position : Nat)
  deriving DecidableEq

def MemMmr.getLeaf (mmr : MemMmr) (i : Nat) : Except LeafFault Leaf :=
  match mmr.leaves[i]? with
  | some leaf => .ok leaf
  | none => .error .assertion

def MemMmr.getHash (mmr : MemMmr) (p : Nat) : Except Fault Uint256 := memStore.get mmr.hashes p

def MemMmr.numLeaves (mmr : MemMmr) : Nat := mmr.leaves.length

/-- `PMMR::GetNumLeaves` -/
def Pmmr.numLeaves (pmmr : Pmmr) : Nat := Mmr.leafIndexAt pmmr.hashFile.getSize

section
variable (blake3 : Bytes → Uint256)

def Pmmr.getLeaf (pmmr : Pmmr) (i : Nat) : Except LeafFault Leaf :=
  match (pmmr.leafMap i).bind (pmmr.leaves[·]?) with
  | some leaf => .ok leaf
  | none =>
    match pmmr.leafDb i with
    | some data => .ok (Leaf.create blake3 i data)
    | none => .error (.notFound (Mmr.position i))

def Pmmr.addLeaf (pmmr : Pmmr) (leaf : Leaf) : Except Fault Pmmr := do
  let hashFile ← AppendOnlyFile.store.addLeaf (calcParentHash blake3) pmmr.hashFile
    (Mmr.position leaf.index) leaf.hash
  .ok { pmmr with
    hashFile := hashFile
    leafMap := Function.update pmmr.leafMap leaf.index (some pmmr.leaves.length)
    leaves := pmmr.leaves ++ [leaf] }

/-- `LeafDB::Add` -/
def addToLeafDb (leafDb : Nat → Option Bytes) (leaves : List Leaf) : Nat → Option Bytes :=
  leaves.foldl (fun db leaf => Function.update db leaf.index (some leaf.data)) leafDb

/-- `PMMR::BatchWrite` -/
def Pmmr.batchWrite (pmmr : Pmmr) (firstLeaf : Nat) (leaves : List Leaf) : Except Fault Pmmr := do
  let hashFile ← pmmr.hashFile.rewind (Mmr.position firstLeaf)
  let pmmr ← leaves.foldlM (Pmmr.addLeaf blake3) { pmmr with hashFile := hashFile }
  let hashFile ← pmmr.hashFile.commit
  .ok {
    hashFile := hashFile
    leaves := []
    leafMap := fun _ => none
    leafDb := addToLeafDb pmmr.leafDb pmmr.leaves }

end

/-! ## caches -/

/-- `PMMRCache` -/
structure PmmrCache where
  firstLeaf : Nat
  leaves : List Leaf
  nodes : List Uint256

/-- an `IMMR` -/
abbrev RangeTower := Layers.Tower MmrBase PmmrCache

/-- `PMMRCache::GetNextLeafIdx` -/
def PmmrCache.numLeaves (c : PmmrCache) : Nat :=
  match c.leaves.getLast? with
  | none => c.firstLeaf
  | some leaf => leaf.index + 1

namespace RangeTower

def numLeaves : RangeTower → Nat
  | .base (.mem mmr) => mmr.numLeaves
  | .base (.file pmmr) => pmmr.numLeaves
  | .cache _ c => c.numLeaves

def getHash : RangeTower → Nat → Except Fault Uint256
  | .base (.mem mmr), p => mmr.getHash p
  | .base (.file pmmr), p => pmmr.hashFile.read p
  | .cache below c, p =>
    if p < Mmr.position c.firstLeaf then getHash below p
    else
      match c.nodes[p - Mmr.position c.firstLeaf]? with
      | some h => .ok h
      | none => .error .assertion

def getLeaf (blake3 : Bytes → Uint256) : RangeTower → Nat → Except LeafFault Leaf
  | .base (.mem mmr), i => mmr.getLeaf i
  | .base (.file pmmr), i => pmmr.getLeaf blake3 i
  | .cache below c, i =>
    if i < c.firstLeaf then getLeaf blake3 below i
    else
      match c.leaves[i - c.firstLeaf]? with
      | some leaf => .ok leaf
      | none => .error .outOfRange

/-- `IMMR::Root` -/
def root (blake3 : Bytes → Uint256) (t : RangeTower) : Except Fault Uint256 :=
  Mmr.root (getHash t) (calcParentHash blake3) Uint256.isNull .null (Mmr.position (numLeaves t))

end RangeTower

namespace PmmrCache

def fresh (below : RangeTower) : PmmrCache := ⟨RangeTower.numLeaves below, [], []⟩

def store (below : RangeTower) : Mmr.Store Fault PmmrCache Uint256 where
  get c p := RangeTower.getHash (.cache below c) p
  push c h := { c with nodes := c.nodes ++ [h] }

/-- `PMMRCache::AddLeaf` -/
def addLeaf (blake3 : Bytes → Uint256) (below : RangeTower) (c : PmmrCache) (leaf : Leaf) :
    Except Fault PmmrCache := do
  let c ← (store below).addLeaf (calcParentHash blake3) c (Mmr.position leaf.index) leaf.hash
  .ok { c with leaves := c.leaves ++ [leaf] }

/-- `IMMR::Add` -/
def add (blake3 : Bytes → Uint256) (below : RangeTower) (c : PmmrCache) (data : Bytes) :
    Except Fault PmmrCache :=
  addLeaf blake3 below c (Leaf.create blake3 c.numLeaves data)

def rewind (c : PmmrCache) (numLeaves : Nat) : PmmrCache :=
  if numLeaves ≤ c.firstLeaf then { c with firstLeaf := numLeaves, leaves := [], nodes := [] }
  else if c.leaves.isEmpty then c
  else
    let c := { c with leaves := c.leaves.takeWhile fun leaf => leaf.index < numLeaves }
    { c with nodes := c.nodes.take (Mmr.position c.numLeaves - Mmr.position c.firstLeaf) }

/-- `PMMRCache::BatchWrite`: the data of the leaves is added anew -/
def batchWrite (blake3 : Bytes → Uint256) (below : RangeTower) (own c : PmmrCache) :
    Except Fault PmmrCache :=
  c.leaves.foldlM (fun own leaf => own.add blake3 below leaf.data) (own.rewind c.firstLeaf)

end PmmrCache

/-- `BatchWrite` of the two classes that are not caches; that of `MemMMR` has an empty body -/
def MmrBase.batchWrite (blake3 : Bytes → Uint256) : MmrBase → PmmrCache → Except Fault MmrBase
  | .mem mmr, _ => .ok (.mem mmr)
  | .file pmmr, c => do
    let pmmr ← pmmr.batchWrite blake3 c.firstLeaf c.leaves
    .ok (.file pmmr)

inductive RangeEdit
  | add (data : Bytes)
  | rewind (numLeaves : Nat)

/-- `PMMRCache` as a kind of cache: what `Flush` leaves of it starts at its own next leaf -/
def rangeMachine (blake3 : Bytes → Uint256) : Layers.Machine Fault MmrBase PmmrCache RangeEdit where
  fresh := PmmrCache.fresh
  edit below c
    | .add data => c.add blake3 below data
    | .rewind numLeaves => .ok (c.rewind numLeaves)
  writeBase := MmrBase.batchWrite blake3
  writeCache := PmmrCache.batchWrite blake3
  emptied c := ⟨c.numLeaves, [], []⟩

/-! ## what the layers should read as -/

/-- the leaf data of a range after an edit; nothing is rewound beyond its end -/
def editLeaves (datas : List Bytes) : RangeEdit → Option (List Bytes)
  | .add data => some (datas ++ [data])
  | .rewind numLeaves => if numLeaves ≤ datas.length then some (datas.take numLeaves) else none

section
variable (blake3 : Bytes → Uint256)

def rebuild (datas : List Bytes) : Except Fault MemMmr := datas.foldlM (MemMmr.add blake3) .empty

/-- all readings are those of the range rebuilt from `datas`, and none of them fails -/
structure AgreesWith (t : RangeTower) (mmr : MemMmr) : Prop where
  numLeaves_eq : RangeTower.numLeaves t = mmr.numLeaves
  getLeaf_eq : ∀ i < mmr.numLeaves, ∃ leaf,
    RangeTower.getLeaf blake3 t i = .ok leaf ∧ mmr.getLeaf i = .ok leaf
  getHash_eq : ∀ p < Mmr.position mmr.numLeaves, ∃ h,
    RangeTower.getHash t p = .ok h ∧ mmr.getHash p = .ok h
  root_eq : ∃ h, RangeTower.root blake3 t = .ok h ∧ mmr.root blake3 = .ok h
  nodes_length : ∀ below c, t = .cache below c →
    Mmr.position c.firstLeaf + c.nodes.length = Mmr.position c.numLeaves

def Agrees (t : RangeTower) (datas : List Bytes) : Prop :=
  ∃ mmr, rebuild blake3 datas = .ok mmr ∧ AgreesWith blake3 t mmr

/-- a base that holds the given leaves: a range in memory they were added to, or a range opened on the
hash file and the database they were written to -/
def MmrBase.HoldsLeaves (datas : List Bytes) : MmrBase → Prop
  | .mem mmr => rebuild blake3 datas = .ok mmr
  | .file pmmr => ∃ mmr leafDb, rebuild blake3 datas = .ok mmr ∧
      pmmr = Pmmr.open mmr.hashes leafDb ∧ ∀ i data, datas[i]? = some data → leafDb i = some data

/-! ## the leaves and nodes of a list of leaf data -/

def leavesOf (datas : List Bytes) : List Leaf := datas.mapIdx (Leaf.create blake3)

def nodesOf (datas : List Bytes) : List Uint256 :=
  match rebuild blake3 datas with
  | .ok mmr => mmr.hashes
  | .error _ => []

variable {blake3}

variable (datas : List Bytes)

theorem leavesOf_length : (leavesOf blake3 datas).length = datas.length :=
  List.length_mapIdx

theorem leavesOf_append_singleton (data : Bytes) :
    leavesOf blake3 (datas ++ [data]) =
      leavesOf blake3 datas ++ [Leaf.create blake3 datas.length data] := by
  rw [leavesOf, List.mapIdx_append]
  simp [leavesOf]

theorem getElem?_leavesOf (i : Nat) :
    (leavesOf blake3 datas)[i]? = (datas[i]?).map (Leaf.create blake3 i) :=
  List.getElem?_mapIdx

theorem leavesOf_take (n : Nat) :
    leavesOf blake3 (datas.take n) = (leavesOf blake3 datas).take n := by
  apply List.ext_getElem?
  intro i
  rcases Nat.lt_or_ge i n with hi | hi
  · rw [getElem?_leavesOf, List.getElem?_take_of_lt hi, List.getElem?_take_of_lt hi,
      getElem?_leavesOf]
  · have hlen := List.length_take_le n datas
    have hlen' := List.length_take_le n (leavesOf blake3 datas)
    rw [List.getElem?_eq_none (by rw [leavesOf_length]; omega), List.getElem?_eq_none (by omega)]

theorem leavesOf_map_data : (leavesOf blake3 datas).map Leaf.data = datas := by
  apply List.ext_getElem?
  intro i
  rw [List.getElem?_map, getElem?_leavesOf, Option.map_map]
  exact Option.map_id'

/-- **The range of a list.**  It is built without a fault, over the hashes of its leaves. -/
theorem rebuild_eq :
    rebuild blake3 datas = .ok ⟨nodesOf blake3 datas, leavesOf blake3 datas⟩ ∧
      Mmr.Range (calcParentHash blake3) ((leavesOf blake3 datas).map Leaf.hash)
        (nodesOf blake3 datas) := by
  suffices h : ∃ nodes, rebuild blake3 datas = .ok ⟨nodes, leavesOf blake3 datas⟩ ∧
      Mmr.Range (calcParentHash blake3) ((leavesOf blake3 datas).map Leaf.hash) nodes by
    obtain ⟨nodes, hrun, hrange⟩ := h
    have hnodes : nodesOf blake3 datas = nodes := by rw [nodesOf, hrun]
    rw [hnodes]
    exact ⟨hrun, hrange⟩
  induction datas using List.reverseRecOn with
  | nil => exact ⟨[], rfl, Mmr.range_nil _⟩
  | append_singleton datas data ih =>
    obtain ⟨nodes, hrun, hrange⟩ := ih
    obtain ⟨new, hadd, hrange'⟩ := Mmr.addLeaf_list (calcParentHash blake3) Fault.assertion hrange
      (Leaf.create blake3 datas.length data).hash
    rw [List.length_map, leavesOf_length] at hadd
    refine ⟨nodes ++ new, ?_, ?_⟩
    · unfold rebuild at hrun ⊢
      rw [List.foldlM_append, hrun]
      show (List.foldlM (MemMmr.add blake3) _ [data]) = _
      rw [List.foldlM_cons, Checked.bind_eq_ok]
      refine ⟨_, ?_, rfl⟩
      rw [MemMmr.add, Checked.bind_eq_ok, leavesOf_append_singleton]
      simp only [leavesOf_length]
      exact ⟨_, hadd, rfl⟩
    · rw [leavesOf_append_singleton, List.map_append]
      exact hrange'

theorem nodesOf_length :
    (nodesOf blake3 datas).length = Mmr.position datas.length := by
  rw [(rebuild_eq datas).2.length_eq, List.length_map, leavesOf_length]

theorem nodesOf_take {datas : List Bytes} {n : Nat} (hn : n ≤ datas.length) :
    nodesOf blake3 (datas.take n) = (nodesOf blake3 datas).take (Mmr.position n) := by
  have hlen : n ≤ ((leavesOf blake3 datas).map Leaf.hash).length := by
    rw [List.length_map, leavesOf_length]
    exact hn
  have hrange := (rebuild_eq datas).2.take _ hlen
  rw [← List.map_take, ← leavesOf_take] at hrange
  exact (rebuild_eq (datas.take n)).2.unique _ hrange

theorem addLeaf_nodesOf (fault : Fault) (datas : List Bytes) (data : Bytes) :
    (Mmr.listStore fault).addLeaf (calcParentHash blake3) (nodesOf blake3 datas)
      (Mmr.position datas.length) (Leaf.create blake3 datas.length data).hash =
        .ok (nodesOf blake3 (datas ++ [data])) := by
  obtain ⟨new, hadd, hrange⟩ := Mmr.addLeaf_list (calcParentHash blake3) fault
    (rebuild_eq datas).2 (Leaf.create blake3 datas.length data).hash
  rw [List.length_map, leavesOf_length] at hadd
  rw [hadd]
  have hwhole : Mmr.Range (calcParentHash blake3) _ (nodesOf blake3 (datas ++ [data])) :=
    (rebuild_eq (datas ++ [data])).2
  rw [leavesOf_append_singleton, List.map_append] at hwhole
  rw [hwhole.unique _ hrange]

end

/-! ## what each layer holds -/

section
variable (blake3 : Bytes → Uint256)

/-- a cache with the leaf data `datas` over a layer with the leaf data `below` -/
structure PmmrCache.Shows (c : PmmrCache) (datas below : List Bytes) : Prop where
  first_le : c.firstLeaf ≤ datas.length
  take_eq : datas.take c.firstLeaf = below.take c.firstLeaf
  leaves_eq : c.leaves = (leavesOf blake3 datas).drop c.firstLeaf
  nodes_eq : c.nodes = (nodesOf blake3 datas).drop (Mmr.position c.firstLeaf)

def MmrBase.Shows (isMem : Bool) (b : MmrBase) (datas : List Bytes) : Prop :=
  b.isMem = isMem ∧ b.HoldsLeaves blake3 datas

abbrev RangeShows (isMem : Bool) : RangeTower → List (List Bytes) → Prop :=
  Layers.Shows (MmrBase.Shows blake3 isMem) (PmmrCache.Shows blake3)

variable {blake3} {isMem : Bool}

variable {datas : List Bytes}

theorem holdsLeaves_mem {mmr : MemMmr} :
    (MmrBase.mem mmr).HoldsLeaves blake3 datas ↔ mmr = ⟨nodesOf blake3 datas, leavesOf blake3 datas⟩ := by
  rw [MmrBase.HoldsLeaves, (rebuild_eq datas).1, Except.ok.injEq]
  exact eq_comm

theorem holdsLeaves_file {pmmr : Pmmr} :
    (MmrBase.file pmmr).HoldsLeaves blake3 datas ↔ ∃ leafDb,
      pmmr = Pmmr.open (nodesOf blake3 datas) leafDb ∧
        ∀ i data, datas[i]? = some data → leafDb i = some data := by
  rw [MmrBase.HoldsLeaves, (rebuild_eq datas).1]
  constructor
  · intro ⟨mmr, leafDb, hmmr, hopen, hdb⟩
    rw [← Except.ok.inj hmmr] at hopen
    exact ⟨leafDb, hopen, hdb⟩
  · intro ⟨leafDb, hopen, hdb⟩
    exact ⟨_, leafDb, rfl, hopen, hdb⟩

variable {c : PmmrCache}

theorem PmmrCache.numLeaves_of_leaves (hfirst : c.firstLeaf ≤ datas.length)
    (hleaves : c.leaves = (leavesOf blake3 datas).drop c.firstLeaf) :
    c.numLeaves = datas.length := by
  unfold PmmrCache.numLeaves
  rw [hleaves, List.getLast?_drop, leavesOf_length]
  by_cases hle : datas.length ≤ c.firstLeaf
  · rw [if_pos hle]
    exact Nat.le_antisymm hfirst hle
  · rw [if_neg hle, List.getLast?_eq_getElem?, leavesOf_length, getElem?_leavesOf,
      List.getElem?_eq_getElem (by omega)]
    show datas.length - 1 + 1 = datas.length
    omega

namespace PmmrCache.Shows

variable {c : PmmrCache} {datas below : List Bytes}

theorem numLeaves_eq (h : PmmrCache.Shows blake3 c datas below) : c.numLeaves = datas.length :=
  PmmrCache.numLeaves_of_leaves h.first_le h.leaves_eq

theorem below_le (h : PmmrCache.Shows blake3 c datas below) : c.firstLeaf ≤ below.length := by
  have hlen := congrArg List.length h.take_eq
  rw [List.length_take, List.length_take, Nat.min_eq_left h.first_le] at hlen
  omega

theorem first_position_le (h : PmmrCache.Shows blake3 c datas below) :
    Mmr.position c.firstLeaf ≤ (nodesOf blake3 datas).length := by
  rw [nodesOf_length]
  exact Mmr.position_strictMono.monotone h.first_le

theorem take_nodes (h : PmmrCache.Shows blake3 c datas below) :
    (nodesOf blake3 datas).take (Mmr.position c.firstLeaf) =
      (nodesOf blake3 below).take (Mmr.position c.firstLeaf) := by
  rw [← nodesOf_take h.first_le, h.take_eq, nodesOf_take h.below_le]

theorem take_leaves (h : PmmrCache.Shows blake3 c datas below) :
    (leavesOf blake3 datas).take c.firstLeaf = (leavesOf blake3 below).take c.firstLeaf := by
  rw [← leavesOf_take, h.take_eq, leavesOf_take]

theorem leavesFrom (h : PmmrCache.Shows blake3 c datas below) :
    LeavesFrom blake3 c.firstLeaf c.leaves := by
  intro k leaf hk
  rw [h.leaves_eq, List.getElem?_drop, getElem?_leavesOf] at hk
  obtain ⟨data, _, rfl⟩ := Option.map_eq_some_iff.mp hk
  rfl

/-- the data of the leaves of a cache ends its list -/
theorem take_append_data (h : PmmrCache.Shows blake3 c datas below) :
    datas.take c.firstLeaf ++ c.leaves.map Leaf.data = datas := by
  rw [h.leaves_eq, List.map_drop, leavesOf_map_data, List.take_append_drop]

end PmmrCache.Shows

/-! ## readings -/

theorem AppendOnlyFile.read_eq {f : AppendOnlyFile} {nodes : List Uint256} {p : Nat} {h : Uint256}
    (hf : f.file.take f.bufferIndex ++ f.buffer = nodes) (hle : f.bufferIndex ≤ f.file.length)
    (hp : nodes[p]? = some h) : f.read p = .ok h := by
  have hcount : (f.file.take f.bufferIndex).length = f.bufferIndex := by
    rw [List.length_take]
    omega
  have hlt := (List.getElem?_eq_some_iff.mp hp).1
  rw [← hf, List.length_append, hcount] at hlt
  have hsize : ¬ p + 1 > f.getSize := by
    unfold AppendOnlyFile.getSize
    omega
  rw [← hf] at hp
  unfold AppendOnlyFile.read
  rw [if_neg hsize]
  by_cases hfile : p < f.bufferIndex
  · rw [List.getElem?_append_left (by omega), List.getElem?_take_of_lt hfile] at hp
    rw [if_pos hfile, hp]
  · rw [List.getElem?_append_right (by omega), hcount] at hp
    rw [if_neg hfile, hp]

variable {t : RangeTower} {rest : List (List Bytes)}

theorem RangeTower.getHash_eq (ht : RangeShows blake3 isMem t (datas :: rest)) {p : Nat}
    {h : Uint256} (hp : (nodesOf blake3 datas)[p]? = some h) : RangeTower.getHash t p = .ok h := by
  induction t generalizing datas rest with
  | base b =>
    match rest, ht with
    | [], ⟨_, hb⟩ =>
      cases b with
      | mem mmr =>
        rw [holdsLeaves_mem.mp hb]
        exact Mmr.listStore_get.mpr hp
      | file pmmr =>
        obtain ⟨leafDb, rfl, -⟩ := holdsLeaves_file.mp hb
        exact AppendOnlyFile.read_eq (by simp [Pmmr.open]) le_rfl hp
  | cache below c ih =>
    match rest, ht with
    | datas' :: rest, ⟨hc, hbelow⟩ =>
      unfold RangeTower.getHash
      by_cases hlt : p < Mmr.position c.firstLeaf
      · rw [if_pos hlt]
        rw [← List.getElem?_take_of_lt hlt, hc.take_nodes, List.getElem?_take_of_lt hlt] at hp
        exact ih hbelow hp
      · rw [if_neg hlt, hc.nodes_eq, List.getElem?_drop, Nat.add_sub_cancel' (by omega), hp]

theorem RangeTower.getLeaf_eq (ht : RangeShows blake3 isMem t (datas :: rest)) {i : Nat}
    {leaf : Leaf} (hi : (leavesOf blake3 datas)[i]? = some leaf) :
    RangeTower.getLeaf blake3 t i = .ok leaf := by
  induction t generalizing datas rest with
  | base b =>
    match rest, ht with
    | [], ⟨_, hb⟩ =>
      cases b with
      | mem mmr =>
        rw [holdsLeaves_mem.mp hb]
        show MemMmr.getLeaf _ i = _
        rw [MemMmr.getLeaf, hi]
      | file pmmr =>
        obtain ⟨leafDb, rfl, hdb⟩ := holdsLeaves_file.mp hb
        rw [getElem?_leavesOf] at hi
        obtain ⟨data, hdata, rfl⟩ := Option.map_eq_some_iff.mp hi
        have hread : (Pmmr.open (nodesOf blake3 datas) leafDb).leafDb i = some data := hdb i data hdata
        show Pmmr.getLeaf blake3 _ i = _
        rw [Pmmr.getLeaf, hread]
        rfl
  | cache below c ih =>
    match rest, ht with
    | datas' :: rest, ⟨hc, hbelow⟩ =>
      unfold RangeTower.getLeaf
      by_cases hlt : i < c.firstLeaf
      · rw [if_pos hlt]
        rw [← List.getElem?_take_of_lt hlt, hc.take_leaves, List.getElem?_take_of_lt hlt] at hi
        exact ih hbelow hi
      · rw [if_neg hlt, hc.leaves_eq, List.getElem?_drop, Nat.add_sub_cancel' (by omega), hi]

theorem RangeTower.numLeaves_eq (ht : RangeShows blake3 isMem t (datas :: rest)) :
    RangeTower.numLeaves t = datas.length := by
  match t, rest, ht with
  | .base (.mem mmr), [], ⟨_, hb⟩ =>
    rw [holdsLeaves_mem.mp hb]
    exact leavesOf_length datas
  | .base (.file pmmr), [], ⟨_, hb⟩ =>
    obtain ⟨leafDb, rfl, -⟩ := holdsLeaves_file.mp hb
    show Mmr.leafIndexAt (nodesOf blake3 datas).length = _
    rw [nodesOf_length, Mmr.leafIndexAt_position]
  | .cache below c, _ :: _, ⟨hc, _⟩ => exact hc.numLeaves_eq

/-- **Readings agree.**  A layer that holds a list reads as the range rebuilt from it. -/
theorem agrees_of_shows (ht : RangeShows blake3 isMem t (datas :: rest)) :
    Agrees blake3 t datas := by
  have hrange : Mmr.Range (calcParentHash blake3) _ (nodesOf blake3 datas) := (rebuild_eq datas).2
  have hcount : ((leavesOf blake3 datas).map Leaf.hash).length = datas.length := by
    rw [List.length_map, leavesOf_length]
  refine ⟨_, (rebuild_eq datas).1, ?_, ?_, ?_, ?_, ?_⟩
  · rw [RangeTower.numLeaves_eq ht]
    exact (leavesOf_length datas).symm
  · intro i hi
    have hleaf := List.getElem?_eq_getElem hi
    exact ⟨_, RangeTower.getLeaf_eq ht hleaf, by rw [MemMmr.getLeaf, hleaf]⟩
  · intro p hp
    have hlt : p < (nodesOf blake3 datas).length := by
      rw [nodesOf_length]
      exact hp.trans_eq (congrArg Mmr.position (leavesOf_length datas))
    have hnode := List.getElem?_eq_getElem hlt
    exact ⟨_, RangeTower.getHash_eq ht hnode, Mmr.listStore_get.mpr hnode⟩
  · rw [RangeTower.root, RangeTower.numLeaves_eq ht, MemMmr.root, leavesOf_length, ← hcount]
    exact ⟨_, hrange.root_eq fun p x hx => RangeTower.getHash_eq ht hx,
      hrange.root_eq fun p x hx => Mmr.listStore_get.mpr hx⟩
  · intro below c heq
    subst heq
    cases rest with
    | nil => exact ht.elim
    | cons datas' rest =>
      have hc := ht.1
      have hle := hc.first_position_le
      rw [nodesOf_length] at hle
      rw [hc.numLeaves_eq, hc.nodes_eq, List.length_drop, nodesOf_length]
      omega

/-! ## operations of a cache -/

theorem PmmrCache.fresh_shows (ht : RangeShows blake3 isMem t (datas :: rest)) :
    PmmrCache.Shows blake3 (PmmrCache.fresh t) datas datas := by
  have hnum : (PmmrCache.fresh t).firstLeaf = datas.length := RangeTower.numLeaves_eq ht
  refine ⟨hnum.le, rfl, ?_, ?_⟩
  · rw [hnum, List.drop_eq_nil_of_le (leavesOf_length datas).le]
    rfl
  · rw [hnum, List.drop_eq_nil_of_le (nodesOf_length datas).le]
    rfl

variable {below : List Bytes}

theorem PmmrCache.emptied_shows (hc : PmmrCache.Shows blake3 c datas below) :
    PmmrCache.Shows blake3 ⟨c.numLeaves, [], []⟩ datas datas := by
  rw [hc.numLeaves_eq]
  refine ⟨le_rfl, rfl, ?_, ?_⟩
  · exact (List.drop_eq_nil_of_le (leavesOf_length datas).le).symm
  · exact (List.drop_eq_nil_of_le (nodesOf_length datas).le).symm

theorem PmmrCache.store_holds (ht : RangeShows blake3 isMem t (below :: rest))
    (hc : PmmrCache.Shows blake3 c datas below) :
    (PmmrCache.store t).Holds fun c' nodes => c' = { c with nodes := c'.nodes } ∧
      (nodesOf blake3 datas).take (Mmr.position c.firstLeaf) ++ c'.nodes = nodes := by
  have hlen : ((nodesOf blake3 datas).take (Mmr.position c.firstLeaf)).length =
      Mmr.position c.firstLeaf := by
    rw [List.length_take]
    exact Nat.min_eq_left hc.first_position_le
  refine ⟨?_, ?_⟩
  · rintro c' nodes p h ⟨hc', rfl⟩ hp
    have hfirst : c'.firstLeaf = c.firstLeaf := by rw [hc']
    show RangeTower.getHash (.cache t c') p = .ok h
    rw [RangeTower.getHash, hfirst]
    by_cases hlt : p < Mmr.position c.firstLeaf
    · rw [if_pos hlt]
      rw [List.getElem?_append_left (by omega), hc.take_nodes, List.getElem?_take_of_lt hlt] at hp
      exact RangeTower.getHash_eq ht hp
    · rw [if_neg hlt]
      rw [List.getElem?_append_right (by omega), hlen] at hp
      rw [hp]
  · rintro c' nodes h ⟨hc', rfl⟩
    refine ⟨?_, ?_⟩
    · show { c' with nodes := c'.nodes ++ [h] } = _
      rw [hc']
      rfl
    · exact (List.append_assoc _ _ _).symm

/-- **Add.** -/
theorem PmmrCache.add_shows (ht : RangeShows blake3 isMem t (below :: rest))
    (hc : PmmrCache.Shows blake3 c datas below) (data : Bytes) :
    ∃ c', c.add blake3 t data = .ok c' ∧ PmmrCache.Shows blake3 c' (datas ++ [data]) below := by
  obtain ⟨c', hrun, hc', hnodes⟩ := Mmr.Store.addLeaf_simulates (calcParentHash blake3)
    (PmmrCache.store_holds ht hc)
    ⟨rfl, by rw [hc.nodes_eq, List.take_append_drop]⟩ (addLeaf_nodesOf .file datas data)
  have hfirst : c'.firstLeaf = c.firstLeaf := by rw [hc']
  have hleaves : c'.leaves = c.leaves := by rw [hc']
  have hle := hc.first_le
  refine ⟨{ c' with leaves := c'.leaves ++ [Leaf.create blake3 datas.length data] }, ?_, ?_, ?_, ?_, ?_⟩
  · rw [PmmrCache.add, PmmrCache.addLeaf, hc.numLeaves_eq, Checked.bind_eq_ok]
    exact ⟨c', hrun, rfl⟩
  · show c'.firstLeaf ≤ _
    rw [hfirst, List.length_append]
    omega
  · show (datas ++ [data]).take c'.firstLeaf = below.take c'.firstLeaf
    rw [hfirst, List.take_append_of_le_length hle]
    exact hc.take_eq
  · show c'.leaves ++ _ = List.drop c'.firstLeaf _
    rw [hfirst, hleaves, leavesOf_append_singleton,
      List.drop_append_of_le_length (by rw [leavesOf_length]; exact hle), hc.leaves_eq]
  · show c'.nodes = List.drop (Mmr.position c'.firstLeaf) _
    rw [hfirst, ← hnodes, List.drop_left' (by
      rw [List.length_take]
      exact Nat.min_eq_left hc.first_position_le)]

theorem PmmrCache.add_run_shows (ht : RangeShows blake3 isMem t (below :: rest))
    (leaves : List Leaf) (hc : PmmrCache.Shows blake3 c datas below) :
    ∃ c', leaves.foldlM (fun own leaf => own.add blake3 t leaf.data) c = .ok c' ∧
      PmmrCache.Shows blake3 c' (datas ++ leaves.map Leaf.data) below := by
  induction leaves generalizing c datas with
  | nil =>
    rw [List.map_nil, List.append_nil]
    exact ⟨c, rfl, hc⟩
  | cons leaf leaves ih =>
    obtain ⟨c₁, hadd, hc₁⟩ := PmmrCache.add_shows ht hc leaf.data
    obtain ⟨c', hrun, hc'⟩ := ih hc₁
    rw [List.append_assoc] at hc'
    refine ⟨c', ?_, hc'⟩
    rw [List.foldlM_cons, Checked.bind_eq_ok]
    exact ⟨c₁, hadd, hrun⟩

/-- **Rewind.** -/
theorem PmmrCache.rewind_shows (hc : PmmrCache.Shows blake3 c datas below) {n : Nat}
    (hn : n ≤ datas.length) :
    PmmrCache.Shows blake3 (c.rewind n) (datas.take n) below := by
  have hcount : (datas.take n).length = n := by
    rw [List.length_take]
    exact Nat.min_eq_left hn
  unfold PmmrCache.rewind
  by_cases hle : n ≤ c.firstLeaf
  · -- nothing of the cache stays
    rw [if_pos hle]
    refine ⟨hcount.ge, ?_, ?_, ?_⟩
    · show (datas.take n).take n = below.take n
      have htake := congrArg (List.take n) hc.take_eq
      rw [List.take_take, List.take_take, Nat.min_eq_left hle] at htake
      rw [List.take_take, Nat.min_self, htake]
    · exact (List.drop_eq_nil_of_le (by rw [leavesOf_length, hcount])).symm
    · exact (List.drop_eq_nil_of_le (by rw [nodesOf_length, hcount])).symm
  · rw [if_neg hle]
    have hstart : c.firstLeaf ≤ (datas.take n).length := by omega
    have hempty : ¬ c.leaves.isEmpty = true := by
      rw [hc.leaves_eq, List.isEmpty_iff, List.drop_eq_nil_iff, leavesOf_length]
      omega
    have hleaves : c.leaves.take (n - c.firstLeaf) =
        (leavesOf blake3 (datas.take n)).drop c.firstLeaf := by
      rw [hc.leaves_eq, leavesOf_take, List.drop_take]
    rw [if_neg hempty, hc.leavesFrom.takeWhile_eq n]
    have hnum : PmmrCache.numLeaves { c with leaves := c.leaves.take (n - c.firstLeaf) } = n :=
      (PmmrCache.numLeaves_of_leaves
        (c := { c with leaves := c.leaves.take (n - c.firstLeaf) }) hstart hleaves).trans hcount
    refine ⟨hstart, ?_, hleaves, ?_⟩
    · show (datas.take n).take c.firstLeaf = _
      rw [List.take_take, Nat.min_eq_left (by omega)]
      exact hc.take_eq
    · show c.nodes.take (Mmr.position (PmmrCache.numLeaves _) - Mmr.position c.firstLeaf) = _
      rw [hnum, hc.nodes_eq, nodesOf_take hn, List.drop_take]

theorem PmmrCache.batchWrite_shows {own : PmmrCache} {datas' : List Bytes}
    (ht : RangeShows blake3 isMem t (below :: rest))
    (hown : PmmrCache.Shows blake3 own datas' below) (hc : PmmrCache.Shows blake3 c datas datas') :
    ∃ own', PmmrCache.batchWrite blake3 t own c = .ok own' ∧ PmmrCache.Shows blake3 own' datas below := by
  obtain ⟨own', hrun, hown'⟩ := PmmrCache.add_run_shows ht c.leaves (PmmrCache.rewind_shows hown hc.below_le)
  rw [← hc.take_eq, hc.take_append_data] at hown'
  exact ⟨own', hrun, hown'⟩

/-! ## writing to the hash file -/

/-- a hash file holds what still counts of the disk, then the buffer -/
def AppendOnlyFile.HoldsNodes (f : AppendOnlyFile) (nodes : List Uint256) : Prop :=
  f.file.take f.bufferIndex ++ f.buffer = nodes ∧ f.bufferIndex ≤ f.file.length

theorem AppendOnlyFile.store_holds : AppendOnlyFile.store.Holds AppendOnlyFile.HoldsNodes := by
  refine ⟨?_, ?_⟩
  · intro f nodes p h hf hp
    exact AppendOnlyFile.read_eq hf.1 hf.2 hp
  · intro f nodes h hf
    refine ⟨?_, hf.2⟩
    show f.file.take f.bufferIndex ++ (f.buffer ++ [h]) = nodes ++ [h]
    rw [← List.append_assoc, hf.1]

theorem AppendOnlyFile.rewind_holds {nodes : List Uint256} {n : Nat} (hn : n ≤ nodes.length) :
    ∃ f, AppendOnlyFile.rewind ⟨nodes, nodes.length, []⟩ n = .ok f ∧ f.HoldsNodes (nodes.take n) := by
  refine ⟨⟨nodes, n, []⟩, ?_, List.append_nil _, hn⟩
  unfold AppendOnlyFile.rewind
  rw [if_neg (by simp), if_neg (by simp [AppendOnlyFile.getSize]; omega), if_pos hn]

theorem AppendOnlyFile.commit_holds {f : AppendOnlyFile} {nodes : List Uint256}
    (hf : f.HoldsNodes nodes) : f.commit = .ok ⟨nodes, nodes.length, []⟩ := by
  obtain ⟨rfl, hle⟩ := hf
  have hfile : (if f.file.length ≠ f.bufferIndex ∨ f.buffer ≠ [] then
      f.file.take f.bufferIndex ++ f.buffer else f.file) = f.file.take f.bufferIndex ++ f.buffer := by
    split
    · rfl
    · rename_i hsame
      obtain ⟨hlen, hbuffer⟩ := not_or.mp hsame
      rw [not_not.mp hbuffer, ← not_not.mp hlen, List.take_length, List.append_nil]
  unfold AppendOnlyFile.commit
  rw [if_neg (by omega)]
  simp only [hfile]

theorem Pmmr.addLeaf_run (leaves : List Leaf) (pmmr : Pmmr)
    (hfile : pmmr.hashFile.HoldsNodes (nodesOf blake3 datas))
    (hleaves : LeavesFrom blake3 datas.length leaves) :
    ∃ pmmr', leaves.foldlM (Pmmr.addLeaf blake3) pmmr = .ok pmmr' ∧
      pmmr'.hashFile.HoldsNodes (nodesOf blake3 (datas ++ leaves.map Leaf.data)) ∧
      pmmr'.leaves = pmmr.leaves ++ leaves ∧ pmmr'.leafDb = pmmr.leafDb := by
  induction leaves generalizing pmmr datas with
  | nil =>
    rw [List.map_nil, List.append_nil, List.append_nil]
    exact ⟨pmmr, rfl, hfile, rfl, rfl⟩
  | cons leaf leaves ih =>
    obtain ⟨hashFile, hadd, hfile'⟩ := Mmr.Store.addLeaf_simulates (calcParentHash blake3)
      AppendOnlyFile.store_holds hfile (addLeaf_nodesOf .file datas leaf.data)
    rw [← hleaves.head] at hadd
    have hindex : leaf.index = datas.length := by
      rw [hleaves.head]
      rfl
    have htail : LeavesFrom blake3 (datas ++ [leaf.data]).length leaves := by
      rw [List.length_append]
      exact hleaves.tail
    obtain ⟨pmmr', hrun, hfile'', hall, hdb⟩ := ih { pmmr with
      hashFile := hashFile
      leafMap := Function.update pmmr.leafMap leaf.index (some pmmr.leaves.length)
      leaves := pmmr.leaves ++ [leaf] } hfile' htail
    rw [List.append_assoc] at hfile'' hall
    refine ⟨pmmr', ?_, hfile'', hall, hdb⟩
    rw [List.foldlM_cons, Checked.bind_eq_ok]
    refine ⟨_, ?_, hrun⟩
    rw [Pmmr.addLeaf, Checked.bind_eq_ok, hindex]
    exact ⟨hashFile, hadd, rfl⟩

/-! ## writing to the database of leaf data -/

theorem addToLeafDb_of_lt {first : Nat} {leaves : List Leaf} (hleaves : LeavesFrom blake3 first leaves)
    (leafDb : Nat → Option Bytes) {i : Nat} (hi : i < first) :
    addToLeafDb leafDb leaves i = leafDb i := by
  induction leaves generalizing first leafDb with
  | nil => rfl
  | cons leaf leaves ih =>
    have hindex : leaf.index = first := by
      rw [hleaves.head]
      rfl
    have htail := ih hleaves.tail (Function.update leafDb leaf.index (some leaf.data)) (by omega)
    exact htail.trans (Function.update_of_ne (by omega) _ _)

theorem addToLeafDb_of_mem {first : Nat} {leaves : List Leaf} (hleaves : LeavesFrom blake3 first leaves)
    (leafDb : Nat → Option Bytes) {k : Nat} {leaf : Leaf} (hk : leaves[k]? = some leaf) :
    addToLeafDb leafDb leaves (first + k) = some leaf.data := by
  induction leaves generalizing first leafDb k with
  | nil => cases hk
  | cons x leaves ih =>
    have hindex : x.index = first := by
      rw [hleaves.head]
      rfl
    show addToLeafDb (Function.update leafDb x.index (some x.data)) leaves (first + k) = _
    cases k with
    | zero =>
      rw [Nat.add_zero, addToLeafDb_of_lt hleaves.tail _ (Nat.lt_succ_self first), hindex,
        Function.update_self, Option.some.inj hk]
    | succ k =>
      rw [show first + (k + 1) = first + 1 + k by omega]
      exact ih hleaves.tail _ hk

/-- **Writing to a file.**  The range ends committed, with the leaves of the cache. -/
theorem Pmmr.batchWrite_holds {pmmr : Pmmr} {datas' : List Bytes}
    (hfile : (MmrBase.file pmmr).HoldsLeaves blake3 datas')
    (hc : PmmrCache.Shows blake3 c datas datas') :
    ∃ pmmr', pmmr.batchWrite blake3 c.firstLeaf c.leaves = .ok pmmr' ∧
      (MmrBase.file pmmr').HoldsLeaves blake3 datas := by
  obtain ⟨leafDb, rfl, hdb⟩ := holdsLeaves_file.mp hfile
  have hbelow := hc.below_le
  have hposition : Mmr.position c.firstLeaf ≤ (nodesOf blake3 datas').length := by
    rw [nodesOf_length]
    exact Mmr.position_strictMono.monotone hbelow
  obtain ⟨hashFile, hrewind, hnodes⟩ := AppendOnlyFile.rewind_holds hposition
  rw [← nodesOf_take hbelow, ← hc.take_eq] at hnodes
  have hcount : (datas.take c.firstLeaf).length = c.firstLeaf := by
    rw [List.length_take]
    exact Nat.min_eq_left hc.first_le
  have hleaves : LeavesFrom blake3 (datas.take c.firstLeaf).length c.leaves := by
    rw [hcount]
    exact hc.leavesFrom
  obtain ⟨pmmr', hrun, hnodes', hall, hdb'⟩ := Pmmr.addLeaf_run c.leaves
    { Pmmr.open (nodesOf blake3 datas') leafDb with hashFile := hashFile } hnodes hleaves
  rw [hc.take_append_data] at hnodes'
  refine ⟨Pmmr.open (nodesOf blake3 datas) (addToLeafDb leafDb c.leaves), ?_, ?_⟩
  · rw [Pmmr.batchWrite, Checked.bind_eq_ok]
    refine ⟨hashFile, hrewind, ?_⟩
    rw [Checked.bind_eq_ok]
    refine ⟨pmmr', hrun, ?_⟩
    rw [Checked.bind_eq_ok]
    refine ⟨_, AppendOnlyFile.commit_holds hnodes', ?_⟩
    rw [hall, hdb']
    rfl
  · refine holdsLeaves_file.mpr ⟨_, rfl, ?_⟩
    intro i data hi
    rcases Nat.lt_or_ge i c.firstLeaf with hlt | hge
    · rw [addToLeafDb_of_lt hc.leavesFrom _ hlt]
      rw [← List.getElem?_take_of_lt hlt, hc.take_eq, List.getElem?_take_of_lt hlt] at hi
      exact hdb i data hi
    · obtain ⟨k, rfl⟩ : ∃ k, i = c.firstLeaf + k := ⟨i - c.firstLeaf, by omega⟩
      have hk : c.leaves[k]? = some (Leaf.create blake3 (c.firstLeaf + k) data) := by
        rw [hc.leaves_eq, List.getElem?_drop, getElem?_leavesOf, hi]
        rfl
      exact addToLeafDb_of_mem hc.leavesFrom _ hk

/-! ## runs -/

/-- **The operations keep the lists.**  A flush into memory has to bring nothing new. -/
theorem rangeMachine_represents (blake3 : Bytes → Uint256) (isMem : Bool) :
    (rangeMachine blake3).Represents (MmrBase.Shows blake3 isMem) (PmmrCache.Shows blake3) editLeaves
      fun datas below => isMem = true → datas = below := by
  refine ⟨?_, ?_, ?_, ?_, ?_⟩
  · intro t datas rest ht
    exact PmmrCache.fresh_shows ht
  · intro t c datas below datas' rest e ht hc he
    cases e with
    | add data =>
      obtain rfl := Option.some.inj he
      exact PmmrCache.add_shows ht hc data
    | rewind n =>
      rw [editLeaves, Option.ite_none_right_eq_some] at he
      obtain ⟨hn, he⟩ := he
      rw [← Option.some.inj he]
      exact ⟨_, rfl, PmmrCache.rewind_shows hc hn⟩
  · intro b c datas below ⟨hkind, hb⟩ hc hsafe
    cases b with
    | mem mmr =>
      rw [hsafe hkind.symm]
      exact ⟨_, rfl, hkind, hb⟩
    | file pmmr =>
      obtain ⟨pmmr', hwrite, hpmmr'⟩ := Pmmr.batchWrite_holds hb hc
      exact ⟨.file pmmr', Checked.bind_eq_ok.mpr ⟨pmmr', hwrite, rfl⟩, hkind, hpmmr'⟩
  · intro t own c datas datas' below rest ht hown hc
    exact PmmrCache.batchWrite_shows ht hown hc
  · intro c datas below hc
    exact PmmrCache.emptied_shows hc

theorem Agrees.datas_eq {mmr : MemMmr} (h : Agrees blake3 (.base (.mem mmr)) datas) :
    mmr.leaves.map Leaf.data = datas := by
  obtain ⟨mmr', hrebuild, hagrees⟩ := h
  rw [(rebuild_eq datas).1] at hrebuild
  obtain rfl := Except.ok.inj hrebuild
  have hlen : mmr.leaves.length = (leavesOf blake3 datas).length := hagrees.numLeaves_eq
  have hleaves : mmr.leaves = leavesOf blake3 datas := by
    apply List.ext_getElem hlen
    intro i hi hi'
    obtain ⟨leaf, hown, hother⟩ := hagrees.getLeaf_eq i hi'
    have hown' : mmr.getLeaf i = .ok leaf := hown
    rw [MemMmr.getLeaf, List.getElem?_eq_getElem hi] at hown'
    rw [MemMmr.getLeaf, List.getElem?_eq_getElem hi'] at hother
    exact (Except.ok.inj hown').trans (Except.ok.inj hother).symm
  rw [hleaves, leavesOf_map_data]

end

/-- **Caches refine a list of leaves.**  In any run over a range in memory or in a file, every layer
reads as the range rebuilt from its leaf data exactly when no flush brings anything new into a base in
memory: the file takes every flush, the range in memory none. -/
theorem range_tower_agrees_iff (blake3 : Bytes → Uint256) (b : MmrBase) (datas : List Bytes)
    (hb : b.HoldsLeaves blake3 datas) (ops : List (Layers.Op RangeEdit)) (final : List (List Bytes))
    (hops : ops.foldlM (Layers.valueStep editLeaves) [datas] = some final) :
    (∀ done rest, ops = done ++ rest → ∃ t values,
      done.foldlM (rangeMachine blake3).step (.base b) = .ok t ∧
      done.foldlM (Layers.valueStep editLeaves) [datas] = some values ∧
      List.Forall₂ (Agrees blake3) t.layers values) ↔
    (b.isMem = true → ∀ done level rest values, ops = done ++ .flush level :: rest →
      done.foldlM (Layers.valueStep editLeaves) [datas] = some values →
      level + 2 = values.length → values[level]? = values[level + 1]?) := by
  constructor
  · intro hagree hmem done level rest values hsplit hdone hlevel
    obtain ⟨t, values₀, hrun, hvalues₀, hlayers⟩ := hagree done _ hsplit
    obtain rfl := Option.some.inj (hvalues₀.symm.trans hdone)
    obtain ⟨t', values', hrun', hvalues', hlayers'⟩ :=
      hagree (done ++ [.flush level]) rest (by rw [hsplit, List.append_assoc]; rfl)
    -- the base is the same before and after the flush, but should hold what was flushed
    cases b with
    | file pmmr => cases hmem
    | mem mmr =>
      have hbase : ∀ c, (rangeMachine blake3).writeBase (.mem mmr) c = .ok (.mem mmr) := fun _ => rfl
      have hbottom : t.bottom = .mem mmr := Layers.Machine.run_bottom hbase hrun
      have hbottom' : t'.bottom = .mem mmr := Layers.Machine.run_bottom hbase hrun'
      rw [List.foldlM_append, hdone, Option.bind_eq_bind, Option.bind_some, List.foldlM_cons] at hvalues'
      obtain ⟨flushed, hflush, hend⟩ := Option.bind_eq_some_iff.mp hvalues'
      obtain rfl := Option.some.inj hend
      have hlast : ∀ values : List (List Bytes), level + 2 = values.length →
          values.getLast? = values[level + 1]? := by
        intro values hlen
        rw [List.getLast?_eq_getElem?, ← hlen]
        rfl
      have hlevel' : level + 2 = flushed.length :=
        hlevel.trans (Layers.flushValue_length (Layers.valueStep_flush.mp hflush)).symm
      obtain ⟨v, hv⟩ : ∃ v, values₀[level + 1]? = some v := ⟨_, List.getElem?_eq_getElem (by omega)⟩
      obtain ⟨v', hv'⟩ : ∃ v', flushed[level + 1]? = some v' :=
        ⟨_, List.getElem?_eq_getElem (by omega)⟩
      have hown := Layers.Tower.forall₂_bottom hlayers ((hlast _ hlevel).trans hv)
      have hown' := Layers.Tower.forall₂_bottom hlayers' ((hlast _ hlevel').trans hv')
      rw [hbottom] at hown
      rw [hbottom'] at hown'
      rw [← Layers.flushValue_below (Layers.valueStep_flush.mp hflush), hv, hv', ← hown.datas_eq,
        ← hown'.datas_eq]
  · intro hsafe done rest hsplit
    rw [hsplit, List.foldlM_append, Option.bind_eq_bind, Option.bind_eq_some_iff] at hops
    obtain ⟨values, hdone, -⟩ := hops
    have hstart : RangeShows blake3 b.isMem (.base b) [datas] := ⟨rfl, hb⟩
    obtain ⟨t, hrun, ht⟩ := (rangeMachine_represents blake3 b.isMem).run_shows hstart hdone (by
      intro part op more before heq hpart hbad
      cases op with
      | push => exact hbad
      | pop => exact hbad
      | edit e => exact hbad
      | flush level =>
        obtain ⟨hlevel, v, v', hv, hv', hnot⟩ := hbad
        apply hnot
        intro hmem
        have hsame := hsafe hmem part level (more ++ rest) before
          (by rw [hsplit, heq, List.append_assoc]; rfl) hpart hlevel
        rw [hv, hv'] at hsame
        exact Option.some.inj hsame)
    exact ⟨t, values, hrun, hdone, ht.forall₂_layers fun _ _ _ => agrees_of_shows⟩

/-- two caches over an empty file: the upper one rewinds into the lower one and adds another leaf, then
both are flushed -/
def forkedOps : List (Layers.Op RangeEdit) :=
  [.push, .edit (.add [1]), .edit (.add [2]), .push, .edit (.rewind 1), .edit (.add [3]),
    .flush 0, .flush 1]

theorem range_tower_agrees_forked : ∃ t,
    forkedOps.foldlM (rangeMachine Uint256.polyHash).step
      (.base (.file (Pmmr.open [] fun _ => none))) = .ok t ∧
    List.Forall₂ (Agrees Uint256.polyHash) t.layers [[[1], [3]], [[1], [3]], [[1], [3]]] := by
  have hempty : (MmrBase.file (Pmmr.open [] fun _ => none)).HoldsLeaves Uint256.polyHash [] := by
    refine ⟨.empty, fun _ => none, rfl, rfl, ?_⟩
    intro i data hi
    cases hi
  have hfile := (range_tower_agrees_iff Uint256.polyHash _ [] hempty forkedOps _ rfl).mpr (by
    intro hmem
    cases hmem)
  obtain ⟨t, values, hrun, hvalues, hlayers⟩ := hfile forkedOps [] (List.append_nil _).symm
  obtain rfl := Option.some.inj hvalues
  exact ⟨t, hrun, hlayers⟩

/-- a leaf is added to a cache over an empty range in memory and flushed: the cache counts it, but it is
in neither layer, and reading it fails an assertion -/
theorem flushed_leaf_lost : ∃ t,
    [.push, .edit (.add [1]), .flush 0].foldlM (rangeMachine Uint256.polyHash).step
      (.base (.mem .empty)) = .ok t ∧
    [.push, .edit (.add [1]), .flush 0].foldlM (Layers.valueStep editLeaves) [[]] =
      some [[[1]], [[1]]] ∧
    RangeTower.numLeaves t = 1 ∧ RangeTower.numLeaves (.base t.bottom) = 0 ∧
    RangeTower.getLeaf Uint256.polyHash t 0 = .error .assertion ∧
    RangeTower.getHash t 0 = .error .assertion :=
  ⟨_, rfl, rfl, rfl, rfl, rfl, rfl⟩

end Mw
