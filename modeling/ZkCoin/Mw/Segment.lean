import Mathlib.Data.Finset.Sort
import ZkCoin.Library.MmrProof
import ZkCoin.Mw.LeafSetTower
import ZkCoin.Mw.Pruning
import ZkCoin.Mw.RangeTower

/-!
# Segments of unspent leaves

`SegmentFactory::Assemble` answers a request for unspent leaves from a first one on.  It returns the
leaves with the hashes that are missing to compute the root from them: those left of the first leaf and
right of the last one in their mountains, those of spent subtrees between them, and the other peaks.

* `assemble`, `calcHashIndices` — the factory.
* `recomputeRoot`            — what a peer computes from a segment and the leaf set.
* `climbLeft_eq`, `climbRight_eq` — the edge loops end with the siblings on that side.
* `covered_between`          — the returned nodes cover every node over the returned leaves.
* `segment_recomputes_root`  — so the root comes out.

Reads that fail, assertions and loops that do not end give `none`.
-/

open Bytes List

namespace Mw

open Mmr

/-! ## indices -/

/-- `mmr::Index` -/
structure Index where
  position : Nat
  height : Nat

def Index.getSibling (idx : Index) : Index :=
  if heightAt (idx.position + 1) = idx.height + 1 then
    ⟨idx.position + 1 - 2 ^ (idx.height + 1), idx.height⟩
  else ⟨idx.position + 2 ^ (idx.height + 1) - 1, idx.height⟩

/-- `ILeafSet::ToBitSet` -/
def ILeafSet.toBitSet {S : Type} (o : ILeafSet S) (s : S) : BitSet :=
  (range (o.nextLeafIdx s)).map (o.contains s)

/-! ## which hashes are returned -/

/-- the loop up to the left edge of a mountain that starts at place `adjustment` -/
def climbLeft (adjustment : Nat) : Nat → Index → Finset Nat → Option (Finset Nat)
  | 0, _, _ => none
  | fuel + 1, idx, proofIndices =>
    if idx.position + 2 - adjustment = 2 * 2 ^ idx.height then some proofIndices
    else
      let sibling := idx.getSibling
      if sibling.position < idx.position then
        climbLeft adjustment fuel ⟨idx.position + 1, idx.height + 1⟩
          (insert sibling.position proofIndices)
      else climbLeft adjustment fuel ⟨sibling.position + 1, sibling.height + 1⟩ proofIndices

/-- the loop up to the right edge of the mountain below `peak` -/
def climbRight (peak : Index) : Nat → Index → Finset Nat → Option (Finset Nat)
  | 0, _, _ => none
  | fuel + 1, idx, proofIndices =>
    if idx.position ≥ peak.position - peak.height then some proofIndices
    else
      let sibling := idx.getSibling
      if sibling.position > idx.position then
        climbRight peak fuel ⟨sibling.position + 1, idx.height + 1⟩
          (insert sibling.position proofIndices)
      else climbRight peak fuel ⟨idx.position + 1, idx.height + 1⟩ proofIndices

/-- `SegmentFactory::CalcHashIndices` -/
def calcHashIndices (leafset : LeafSetTower) (peakIndices : List Nat) (firstLeaf lastLeaf : Nat) :
    Option (Finset Nat) := do
  let fuel := position (LeafSetTower.nextLeafIdx leafset) + 1
  -- 1. peaks of mountains to the left of the first leaf
  let leftPeaks := peakIndices.takeWhile (· < position firstLeaf)
  -- 2. up to the left edge of the mountain of the first leaf
  let adjustment := (leftPeaks.getLast?.map (· + 1)).getD 0
  let proofIndices ← climbLeft adjustment fuel ⟨position firstLeaf, 0⟩ leftPeaks.toFinset
  -- 3. pruned parents between the first leaf and the last
  let prunedParents ← calcPrunedParents (LeafSetTower.asILeafSet.toBitSet leafset)
  let proofIndices :=
    (range' (position firstLeaf) (position lastLeaf - position firstLeaf)).foldl
      (fun indices p => if BitSet.test prunedParents p then insert p indices else indices) proofIndices
  -- 4. up to the right edge of the mountain of the last leaf
  let peak ← peakIndices.find? (· ≥ position lastLeaf)
  climbRight ⟨peak, heightAt peak⟩ fuel ⟨position lastLeaf, 0⟩ proofIndices

/-! ## the segment -/

structure Segment where
  leaves : List Leaf
  hashes : List Uint256
  lowerPeak : Option Uint256

/-- the loop that collects leaves, with `rest` leaf indices left from `leafIdx` on -/
def collectLeaves (contains : Nat → Bool) (getLeaf : Nat → Option Leaf) (numLeaves : Nat) :
    Nat → Nat → Nat → List Leaf → Option (List Leaf × Nat)
  | 0, _, lastLeaf, leaves => some (leaves, lastLeaf)
  | rest + 1, leafIdx, lastLeaf, leaves =>
    if leaves.length < numLeaves then
      if contains leafIdx then do
        let leaf ← getLeaf leafIdx
        collectLeaves contains getLeaf numLeaves rest (leafIdx + 1) leafIdx (leaves ++ [leaf])
      else collectLeaves contains getLeaf numLeaves rest (leafIdx + 1) lastLeaf leaves
    else some (leaves, lastLeaf)

section
variable (blake3 : Bytes → Uint256)

/-- the loop of `CalcBaggedPeak` over the peaks from the right -/
def bagUntil (getHash : Nat → Option Uint256) (nextNode peakIdx : Nat) :
    List Nat → Option Uint256 → Option (Option Uint256)
  | [], _ => some none
  | p :: ps, baggedPeak => do
    let peakHash ← getHash p
    let bagged := bagPeak (calcParentHash blake3) nextNode peakHash baggedPeak
    if p = peakIdx then some (some bagged) else bagUntil getHash nextNode peakIdx ps (some bagged)

/-- `MMRUtil::CalcBaggedPeak` -/
def calcBaggedPeak (mmr : RangeTower) (peakIdx : Nat) : Option (Option Uint256) :=
  let numNodes := position (RangeTower.numLeaves mmr)
  bagUntil blake3 (fun p => (RangeTower.getHash mmr p).toOption) numNodes peakIdx
    (calcPeakIndices numNodes).reverse none

/-- `SegmentFactory::Assemble` -/
def assemble (mmr : RangeTower) (leafset : LeafSetTower) (firstLeaf numLeaves : Nat) :
    Option Segment :=
  let contains := LeafSetTower.asILeafSet.contains leafset
  let next := LeafSetTower.nextLeafIdx leafset
  if contains firstLeaf then do
    let (leaves, lastLeaf) ← collectLeaves contains
      (fun i => (RangeTower.getLeaf blake3 mmr i).toOption) numLeaves (next - firstLeaf) firstLeaf
      firstLeaf []
    let peakIndices := calcPeakIndices (position next)
    guard (peakIndices ≠ [])
    let hashIndices ← calcHashIndices leafset peakIndices firstLeaf lastLeaf
    let hashes ← (hashIndices.sort (· ≤ ·)).mapM fun p => (RangeTower.getHash mmr p).toOption
    match peakIndices.dropWhile (· < position lastLeaf) with
    | [] => none
    | [_] => some ⟨leaves, hashes, none⟩
    | _ :: lower :: _ => do
      let lowerPeak ← calcBaggedPeak blake3 mmr lower
      some ⟨leaves, hashes, lowerPeak⟩
  else some ⟨[], [], none⟩

end

/-! ## what a peer computes -/

/-- the first `count` unspent leaves from `firstLeaf` on -/
def unspentFrom (leafset : LeafSetTower) (firstLeaf count : Nat) : List Nat :=
  ((range' firstLeaf (LeafSetTower.nextLeafIdx leafset - firstLeaf)).filter
    (LeafSetTower.asILeafSet.contains leafset)).take count

def lastUnspent (leafset : LeafSetTower) (firstLeaf count : Nat) : Nat :=
  (unspentFrom leafset firstLeaf count).getLastD firstLeaf

/-- the places of the hashes of a segment with `count` leaves -/
def requestedIndices (leafset : LeafSetTower) (firstLeaf count : Nat) : Option (Finset Nat) :=
  calcHashIndices leafset (calcPeakIndices (position (LeafSetTower.nextLeafIdx leafset))) firstLeaf
    (lastUnspent leafset firstLeaf count)

def Segment.placed (leafset : LeafSetTower) (firstLeaf : Nat) (indices : Finset Nat) (seg : Segment) :
    List (Nat × Uint256) :=
  (indices.sort (· ≤ ·)).zip seg.hashes ++
    ((unspentFrom leafset firstLeaf seg.leaves.length).map position).zip (seg.leaves.map Leaf.hash)

def lookupNode (placed : List (Nat × Uint256)) (p : Nat) : Option Uint256 :=
  (placed.find? (·.1 = p)).map (·.2)

/-- the root from a segment: the peaks up to that over the last leaf, bagged onto the lower peak -/
def recomputeRoot (blake3 : Bytes → Uint256) (leafset : LeafSetTower) (firstLeaf : Nat)
    (seg : Segment) : Option Uint256 := do
  let numNodes := position (LeafSetTower.nextLeafIdx leafset)
  let lastLeaf := lastUnspent leafset firstLeaf seg.leaves.length
  let indices ← requestedIndices leafset firstLeaf seg.leaves.length
  let known := lookupNode (seg.placed leafset firstLeaf indices)
  let peakIndices := calcPeakIndices numNodes
  let upper := peakIndices.takeWhile (· < position lastLeaf) ++
    (peakIndices.dropWhile (· < position lastLeaf)).take 1
  let peaks ← upper.mapM fun p => recompute (calcParentHash blake3) known (heightAt p) p
  bagOnto (calcParentHash blake3) numNodes peaks seg.lowerPeak

/-- no bag of the last peaks is a zero hash, which `IMMR::Root` takes for nothing bagged yet -/
def NoZeroBag (blake3 : Bytes → Uint256) (mmr : RangeTower) : Prop :=
  ∀ p ∈ calcPeakIndices (position (RangeTower.numLeaves mmr)),
    calcBaggedPeak blake3 mmr p ≠ some (some .null)

/-! ## the edge loops -/

theorem Index.getSibling_right (h c : Nat) :
    Index.getSibling ⟨node h (2 * c + 1), h⟩ = ⟨node h (2 * c), h⟩ := by
  have hsibling := siblingOf_right h c
  have hodd := (heightAt_succ_iff h (2 * c + 1)).mpr (by omega)
  unfold siblingOf at hsibling
  rw [heightAt_node, if_pos hodd] at hsibling
  rw [getSibling, if_pos hodd, hsibling]

theorem Index.getSibling_left (h c : Nat) :
    Index.getSibling ⟨node h (2 * c), h⟩ = ⟨node h (2 * c + 1), h⟩ := by
  have hsibling := siblingOf_left h c
  have heven : ¬ heightAt (node h (2 * c) + 1) = h + 1 := by
    rw [heightAt_succ_iff]
    omega
  unfold siblingOf at hsibling
  rw [heightAt_node, if_neg heven] at hsibling
  rw [getSibling, if_neg heven, hsibling]

/-- the left siblings on the way from height `h` to height `m` over leaf `i` -/
def LeftSibling (i h m p : Nat) : Prop :=
  ∃ j, h ≤ j ∧ j < m ∧ ∃ c, i / 2 ^ j = 2 * c + 1 ∧ p = node j (2 * c)

def RightSibling (i h m p : Nat) : Prop :=
  ∃ j, h ≤ j ∧ j < m ∧ ∃ c, i / 2 ^ j = 2 * c ∧ p = node j (2 * c + 1)

variable {h m : Nat}

theorem exists_between_succ {P : Nat → Prop} {h m : Nat} (hm : h < m) :
    (∃ j, h ≤ j ∧ j < m ∧ P j) ↔ P h ∨ ∃ j, h + 1 ≤ j ∧ j < m ∧ P j := by
  constructor
  · intro ⟨j, hj, hjm, hp⟩
    rcases Nat.eq_or_lt_of_le hj with rfl | hj
    · exact .inl hp
    · exact .inr ⟨j, hj, hjm, hp⟩
  · intro hp
    rcases hp with hp | ⟨j, hj, hjm, hp⟩
    · exact ⟨h, le_rfl, hm, hp⟩
    · exact ⟨j, by omega, hjm, hp⟩

theorem leftEdge_iff (hm : h ≤ m) :
    node h (i / 2 ^ h) + 2 - position (i / 2 ^ m * 2 ^ m) = 2 * 2 ^ h ↔
      i / 2 ^ h * 2 ^ h = i / 2 ^ m * 2 ^ m := by
  have hle := position_strictMono.monotone (blockStart_le (i := i) hm)
  rw [node_add_two, pow_succ, Nat.mul_comm (2 ^ h) 2]
  constructor
  · intro htest
    refine position_strictMono.injective ?_
    omega
  · intro heq
    rw [heq]
    omega

theorem rightEdge_iff (hm : h ≤ m) :
    node h (i / 2 ^ h) ≥ node m (i / 2 ^ m) - m ↔
      (i / 2 ^ h + 1) * 2 ^ h = (i / 2 ^ m + 1) * 2 ^ m := by
  have hle := blockEnd_le (i := i) hm
  have hlt := node_lt_position h (i / 2 ^ h)
  have hlast := lastLeaf_succ m (i / 2 ^ m)
  have hpeak : node m (i / 2 ^ m) - m = position ((i / 2 ^ m + 1) * 2 ^ m - 1) := by
    unfold node
    rw [Nat.add_sub_cancel]
  rw [hpeak]
  constructor
  · intro htest
    by_contra hne
    have hmono := position_strictMono.monotone
      (show (i / 2 ^ h + 1) * 2 ^ h ≤ (i / 2 ^ m + 1) * 2 ^ m - 1 by omega)
    omega
  · intro heq
    rw [← heq]
    exact position_le_node h _

theorem div_pow_succ_eq {i h c : Nat} (hc : i / 2 ^ h = 2 * c ∨ i / 2 ^ h = 2 * c + 1) :
    i / 2 ^ (h + 1) = c := by
  rw [div_pow_succ]
  omega

/-- a loop over leaf `i` that stops at an edge, and below it goes up and takes siblings along -/
theorem climb_eq {climb : Nat → Index → Finset Nat → Option (Finset Nat)} {Edge : Nat → Prop}
    {Sibling : Nat → Nat → Prop} {i m h : Nat}
    (hstop : ∀ fuel h indices, h ≤ m → Edge h →
      climb (fuel + 1) ⟨node h (i / 2 ^ h), h⟩ indices = some indices)
    (hstep : ∀ fuel h indices, h ≤ m → ¬ Edge h → ∃ indices',
      climb (fuel + 1) ⟨node h (i / 2 ^ h), h⟩ indices =
        climb fuel ⟨node (h + 1) (i / 2 ^ (h + 1)), h + 1⟩ indices' ∧
      ∀ p, p ∈ indices' ↔ p ∈ indices ∨ Sibling h p)
    (hnone : ∀ {h j p}, h ≤ j → j < m → Edge h → ¬ Sibling j p) (htop : Edge m)
    (fuel : Nat) (hm : h ≤ m) (hfuel : m < h + fuel) (indices : Finset Nat) :
    ∃ indices', climb fuel ⟨node h (i / 2 ^ h), h⟩ indices = some indices' ∧
      ∀ p, p ∈ indices' ↔ p ∈ indices ∨ ∃ j, h ≤ j ∧ j < m ∧ Sibling j p := by
  induction fuel generalizing h indices with
  | zero => omega
  | succ fuel ih =>
    by_cases hedge : Edge h
    · refine ⟨indices, hstop fuel h indices hm hedge, ?_⟩
      intro p
      refine (or_iff_left ?_).symm
      intro ⟨j, hj, hjm, hp⟩
      exact hnone hj hjm hedge hp
    · have hlt : h < m := by
        refine lt_of_le_of_ne hm ?_
        rintro rfl
        exact hedge htop
      obtain ⟨next, hrun, hnext⟩ := hstep fuel h indices hm hedge
      obtain ⟨indices', hrun', hmem⟩ := ih hlt (by omega) next
      refine ⟨indices', hrun.trans hrun', ?_⟩
      intro p
      rw [hmem, hnext, exists_between_succ hlt, or_assoc]

/-- **The left edge.**  The first loop ends, with the left siblings on its way. -/
theorem climbLeft_eq {i m h : Nat} (fuel : Nat) (hm : h ≤ m) (hfuel : m < h + fuel)
    (indices : Finset Nat) :
    ∃ indices', climbLeft (position (i / 2 ^ m * 2 ^ m)) fuel ⟨node h (i / 2 ^ h), h⟩ indices =
        some indices' ∧ ∀ p, p ∈ indices' ↔ p ∈ indices ∨ LeftSibling i h m p := by
  refine climb_eq (fun _ _ _ hm hedge => if_pos ((leftEdge_iff hm).mpr hedge)) ?_ ?_ rfl fuel hm hfuel
    indices
  · intro fuel h indices hm hedge
    rw [climbLeft]
    dsimp only
    rw [if_neg (mt (leftEdge_iff hm).mp hedge)]
    obtain ⟨c, hc⟩ := Nat.even_or_odd' (i / 2 ^ h)
    rw [div_pow_succ_eq hc, node_succ_right]
    rcases hc with hc | hc
    · -- a left child: the loop goes on from the parent behind the sibling
      have hnot : ¬ node h (2 * c + 1) < node h (2 * c) := (node_strictMono h (by omega)).not_gt
      rw [hc, Index.getSibling_left, if_neg hnot]
      refine ⟨indices, rfl, ?_⟩
      intro p
      refine (or_iff_left ?_).symm
      intro ⟨c', hc', _⟩
      omega
    · rw [hc, Index.getSibling_right, if_pos (node_strictMono h (by omega))]
      refine ⟨insert (node h (2 * c)) indices, rfl, ?_⟩
      intro p
      have hone : (∃ c', 2 * c + 1 = 2 * c' + 1 ∧ p = node h (2 * c')) ↔ p = node h (2 * c) := by
        constructor
        · intro ⟨c', hc', hp⟩
          rw [hp, show c' = c by omega]
        · intro hp
          exact ⟨c, rfl, hp⟩
      rw [hone, Finset.mem_insert, or_comm]
  · intro h j p hj hjm hedge ⟨c, hc, _⟩
    have := even_of_blockStart_eq hj hjm hedge
    omega

/-- **The right edge.**  The last loop ends, with the right siblings on its way. -/
theorem climbRight_eq {i m h : Nat} (fuel : Nat) (hm : h ≤ m) (hfuel : m < h + fuel)
    (indices : Finset Nat) :
    ∃ indices', climbRight ⟨node m (i / 2 ^ m), m⟩ fuel ⟨node h (i / 2 ^ h), h⟩ indices =
        some indices' ∧ ∀ p, p ∈ indices' ↔ p ∈ indices ∨ RightSibling i h m p := by
  refine climb_eq (fun _ _ _ hm hedge => if_pos ((rightEdge_iff hm).mpr hedge)) ?_ ?_ rfl fuel hm hfuel
    indices
  · intro fuel h indices hm hedge
    rw [climbRight]
    dsimp only
    rw [if_neg (mt (rightEdge_iff hm).mp hedge)]
    obtain ⟨c, hc⟩ := Nat.even_or_odd' (i / 2 ^ h)
    rw [div_pow_succ_eq hc, node_succ_right]
    rcases hc with hc | hc
    · rw [hc, Index.getSibling_left, if_pos (node_strictMono h (by omega))]
      refine ⟨insert (node h (2 * c + 1)) indices, rfl, ?_⟩
      intro p
      have hone : (∃ c', 2 * c = 2 * c' ∧ p = node h (2 * c' + 1)) ↔ p = node h (2 * c + 1) := by
        constructor
        · intro ⟨c', hc', hp⟩
          rw [hp, show c' = c by omega]
        · intro hp
          exact ⟨c, rfl, hp⟩
      rw [hone, Finset.mem_insert, or_comm]
    · -- a right child: its parent stands right behind it
      have hnot : ¬ node h (2 * c) > node h (2 * c + 1) := (node_strictMono h (by omega)).not_gt
      rw [hc, Index.getSibling_right, if_neg hnot]
      refine ⟨indices, rfl, ?_⟩
      intro p
      refine (or_iff_left ?_).symm
      intro ⟨c', hc', _⟩
      omega
  · intro h j p hj hjm hedge ⟨c, hc, _⟩
    have := odd_of_blockEnd_eq hj hjm hedge
    omega

/-! ## the indices -/

theorem peaks_around {n : Nat} (hi : i < n) :
    ∃ before m behind, calcPeakIndices (position n) = before ++ node m (i / 2 ^ m) :: behind ∧
      (∀ p ∈ before, p < position i) ∧ position i ≤ node m (i / 2 ^ m) ∧
      (before.getLast?.map (· + 1)).getD 0 = position (i / 2 ^ m * 2 ^ m) ∧ IsPeak n m (i / 2 ^ m) := by
  obtain ⟨before, m, k, behind, hsplit, rfl, hlast, hbefore⟩ := calcPeakIndices_split hi
  refine ⟨before, m, behind, hsplit, ?_, ?_, hlast, ?_⟩
  · intro p hp
    exact (hbefore p hp).trans_le (position_strictMono.monotone (Nat.div_mul_le_self i _))
  · have hend := blockEnd_le (i := i) (Nat.zero_le m)
    rw [pow_zero, Nat.div_one, Nat.mul_one] at hend
    exact (position_strictMono.monotone (by omega)).trans (position_le_node m _)
  · obtain ⟨h, k, heq, hpeak⟩ := isPeak_of_mem (n := n) (p := node m (i / 2 ^ m)) (by
      rw [hsplit]
      exact mem_append_right _ mem_cons_self)
    obtain ⟨rfl, rfl⟩ := node_inj heq
    exact hpeak

section
variable {before behind : List Nat} {peak bound : Nat}

theorem takeWhile_peaks (hbefore : ∀ p ∈ before, p < bound) (hpeak : bound ≤ peak) :
    (before ++ peak :: behind).takeWhile (· < bound) = before := by
  have hall : ∀ p ∈ before, decide (p < bound) = true := fun p hp => decide_eq_true (hbefore p hp)
  rw [takeWhile_append_of_pos hall, takeWhile_cons_of_neg (by simpa using hpeak),
    append_nil]

theorem dropWhile_peaks (hbefore : ∀ p ∈ before, p < bound) (hpeak : bound ≤ peak) :
    (before ++ peak :: behind).dropWhile (· < bound) = peak :: behind := by
  have hall : ∀ p ∈ before, decide (p < bound) = true := fun p hp => decide_eq_true (hbefore p hp)
  rw [dropWhile_append_of_pos hall, dropWhile_cons_of_neg (by simpa using hpeak)]

theorem find?_peaks (hbefore : ∀ p ∈ before, p < bound) (hpeak : bound ≤ peak) :
    (before ++ peak :: behind).find? (· ≥ bound) = some peak := by
  refine find?_eq_some_iff_append.mpr ⟨decide_eq_true hpeak, before, behind, rfl, ?_⟩
  intro p hp
  simpa using hbefore p hp

end

theorem mem_foldl_insert_if (test : Nat → Bool) (ps : List Nat) (indices : Finset Nat) (p : Nat) :
    p ∈ ps.foldl (fun indices p => if test p then insert p indices else indices) indices ↔
      p ∈ indices ∨ p ∈ ps ∧ test p = true := by
  rw [← foldl_filter, ← mem_filter]
  induction ps.filter test generalizing indices with
  | nil => simp
  | cons q qs ih => rw [foldl_cons, ih, Finset.mem_insert, mem_cons, or_assoc, or_left_comm]

/-- what `calcHashIndices` returns for the leaves from `f` to `l` of `n`, below peaks of heights `m` and
`M` -/
structure HashIndices (n f l m M : Nat) (pruned : BitSet) (indices : Finset Nat) : Prop where
  left_peak : IsPeak n m (f / 2 ^ m)
  right_peak : IsPeak n M (l / 2 ^ M)
  mem_iff : ∀ p, p ∈ indices ↔ (p ∈ calcPeakIndices (position n) ∧ p < position f) ∨
    LeftSibling f 0 m p ∨ (position f ≤ p ∧ p < position l ∧ BitSet.test pruned p = true) ∨
    RightSibling l 0 M p

theorem calcHashIndices_eq {leafset : LeafSetTower} {n f l : Nat}
    (hn : LeafSetTower.nextLeafIdx leafset = n) (hf : f < n) (hl : l < n) (hfl : f ≤ l)
    {pruned : BitSet}
    (hpruned : calcPrunedParents (LeafSetTower.asILeafSet.toBitSet leafset) = some pruned) :
    ∃ indices m M, calcHashIndices leafset (calcPeakIndices (position n)) f l = some indices ∧
      HashIndices n f l m M pruned indices := by
  obtain ⟨beforeF, m, behindF, hsplitF, hbeforeF, hpeakF, hlast, hIsPeakF⟩ := peaks_around hf
  obtain ⟨beforeL, M, behindL, hsplitL, hbeforeL, hpeakL, _, hIsPeakL⟩ := peaks_around hl
  have hleft : (calcPeakIndices (position n)).takeWhile (· < position f) = beforeF := by
    rw [hsplitF]
    exact takeWhile_peaks hbeforeF hpeakF
  have hfind : (calcPeakIndices (position n)).find? (· ≥ position l) = some (node M (l / 2 ^ M)) := by
    rw [hsplitL]
    exact find?_peaks hbeforeL hpeakL
  obtain ⟨indices₁, hrun₁, hmem₁⟩ := climbLeft_eq (i := f) (m := m) (h := 0) (position n + 1)
    (Nat.zero_le m) (by have := hIsPeakF.height_le; omega) beforeF.toFinset
  obtain ⟨indices₂, hrun₂, hmem₂⟩ := climbRight_eq (i := l) (m := M) (h := 0) (position n + 1)
    (Nat.zero_le M) (by have := hIsPeakL.height_le; omega)
    ((range' (position f) (position l - position f)).foldl
      (fun indices p => if BitSet.test pruned p then insert p indices else indices) indices₁)
  rw [pow_zero, Nat.div_one, node_zero] at hrun₁ hrun₂
  refine ⟨indices₂, m, M, ?_, hIsPeakF, hIsPeakL, ?_⟩
  · unfold calcHashIndices
    dsimp only
    rw [hn, hleft, hlast, hrun₁, hpruned, hfind]
    show climbRight ⟨_, heightAt (node M (l / 2 ^ M))⟩ _ _ _ = _
    rw [heightAt_node]
    exact hrun₂
  · intro p
    have hpeaks : p ∈ beforeF.toFinset ↔ p ∈ calcPeakIndices (position n) ∧ p < position f := by
      rw [mem_toFinset, hsplitF, mem_append]
      constructor
      · intro hp
        exact ⟨.inl hp, hbeforeF p hp⟩
      · intro ⟨hp, hlt⟩
        refine hp.resolve_right ?_
        intro hp
        have hsorted := calcPeakIndices_sorted n
        rw [hsplitF] at hsorted
        have hbehind := (pairwise_cons.mp (pairwise_append.mp hsorted).2.1).1
        rcases mem_cons.mp hp with rfl | hp
        · omega
        · have := hbehind p hp
          omega
    have hle := position_strictMono.monotone hfl
    have hrange : p ∈ range' (position f) (position l - position f) ↔
        position f ≤ p ∧ p < position l := by
      rw [mem_range'_1]
      omega
    rw [hmem₂, mem_foldl_insert_if, hmem₁, hpeaks, hrange, or_assoc, or_assoc, and_assoc]

theorem HashIndices.lt_position {n f l M : Nat} {pruned : BitSet} {indices : Finset Nat}
    (h : HashIndices n f l m M pruned indices) (hl : l < n) {p : Nat} (hp : p ∈ indices) :
    p < position n := by
  rcases (h.mem_iff p).mp hp with ⟨hp, _⟩ | ⟨j, _, hj, c, hc, rfl⟩ | ⟨_, hp, _⟩ | ⟨j, _, hj, c, hc, rfl⟩
  · obtain ⟨h', k, rfl, hpeak⟩ := isPeak_of_mem hp
    exact node_lt_position_iff.mpr hpeak.1
  · -- a left sibling stands before a block below the peak
    have hend := blockEnd_le (i := f) hj.le
    have hin : (f / 2 ^ m + 1) * 2 ^ m ≤ n := h.left_peak.1
    have hpow := Nat.two_pow_pos j
    rw [hc, Nat.succ_mul] at hend
    rw [node_lt_position_iff, Inside]
    omega
  · exact hp.trans (position_strictMono hl)
  · have hend := blockEnd_le (i := l) (h := j + 1) hj
    have hin : (l / 2 ^ M + 1) * 2 ^ M ≤ n := h.right_peak.1
    rw [div_pow_succ, hc, Nat.mul_div_cancel_left c Nat.two_pos] at hend
    rw [node_lt_position_iff, Inside, show (2 * c + 1 + 1) * 2 ^ j = (c + 1) * 2 ^ (j + 1) by ring]
    omega

/-! ## the nodes over the returned leaves -/

section
variable {known : Nat → Option Uint256} {unspent : BitSet} {n f l m M : Nat}

/-- the nodes that a segment for the leaves from `f` to `l` gives -/
structure GivesNodes (known : Nat → Option Uint256) (unspent : BitSet) (n f l m M : Nat) : Prop where
  leaf : ∀ i, f ≤ i → i ≤ l → BitSet.test unspent i = true → ∃ x, known (position i) = some x
  left : ∀ p, LeftSibling f 0 m p → ∃ x, known p = some x
  top : ∀ h k, position f ≤ node h k → node h k < position l →
    Inside n h k ∧ SpentBlock unspent h k →
    ¬ (Inside n (h + 1) (k / 2) ∧ SpentBlock unspent (h + 1) (k / 2)) → ∃ x, known (node h k) = some x
  right : ∀ p, RightSibling l 0 M p → ∃ x, known p = some x

/-- **Between the ends.**  Every node with leaves among those from `f` to `l` is covered, unless it stands
inside a spent subtree. -/
theorem covered_between (hgives : GivesNodes known unspent n f l m M)
    (hm : IsPeak n m (f / 2 ^ m)) (hM : IsPeak n M (l / 2 ^ M))
    (hf : BitSet.test unspent f = true) (hl : BitSet.test unspent l = true) {h k : Nat}
    (hin : Inside n h k) (hlow : f / 2 ^ h ≤ k) (hhigh : k ≤ l / 2 ^ h)
    (hparent : ¬ (Inside n (h + 1) (k / 2) ∧ SpentBlock unspent (h + 1) (k / 2))) :
    Covered known h k := by
  induction h generalizing k with
  | zero =>
    rw [pow_zero, Nat.div_one] at hlow hhigh
    cases hk : BitSet.test unspent k with
    | true =>
      obtain ⟨x, hx⟩ := hgives.leaf k hlow hhigh hk
      exact .given (by rwa [node_zero])
    | false =>
      have hne : k ≠ l := by
        rintro rfl
        rw [hl] at hk
        cases hk
      obtain ⟨x, hx⟩ := hgives.top 0 k (by rw [node_zero]; exact position_strictMono.monotone hlow)
        (by rw [node_zero]; exact position_strictMono (by omega)) ⟨hin, spentBlock_zero.mpr hk⟩ hparent
      exact .given hx
  | succ h ih =>
    by_cases hspent : SpentBlock unspent (h + 1) k
    · -- a spent subtree: neither end is below it, so its top is among the pruned parents
      have hnot : ∀ i, BitSet.test unspent i = true → i / 2 ^ (h + 1) ≠ k := by
        intro i hi heq
        rw [hspent i heq] at hi
        cases hi
      have hbefore : f / 2 ^ (h + 1) < k := lt_of_le_of_ne hlow (hnot f hf)
      have hbehind : k < l / 2 ^ (h + 1) := lt_of_le_of_ne hhigh (hnot l hl).symm
      have hstart : f < k * 2 ^ (h + 1) := (Nat.div_lt_iff_lt_mul (Nat.two_pow_pos _)).mp hbefore
      have hend : (k + 1) * 2 ^ (h + 1) ≤ l := (Nat.le_div_iff_mul_le (Nat.two_pow_pos _)).mp hbehind
      obtain ⟨x, hx⟩ := hgives.top (h + 1) k
        ((position_strictMono.monotone hstart.le).trans (position_le_node_first _ _))
        ((node_lt_position _ _).trans_le (position_strictMono.monotone hend)) ⟨hin, hspent⟩ hparent
      exact .given hx
    · have hchild : ∀ c, c / 2 = k → ¬ (Inside n (h + 1) (c / 2) ∧ SpentBlock unspent (h + 1) (c / 2)) := by
        intro c hc hcon
        rw [hc] at hcon
        exact hspent hcon.2
      rw [div_pow_succ] at hlow hhigh
      refine .children ?_ ?_
      · rcases Nat.lt_or_ge (2 * k) (f / 2 ^ h) with hleft | hmeets
        · -- the left child is left of the way from the first leaf
          have hodd : f / 2 ^ h = 2 * k + 1 := by omega
          have hle : h + 1 ≤ m := hm.le_of_inside ((div_pow_succ_eq (.inr hodd)).symm ▸ hin)
          obtain ⟨x, hx⟩ := hgives.left _ ⟨h, Nat.zero_le h, hle, k, hodd, rfl⟩
          exact .given hx
        · exact ih (inside_children hin).1 hmeets (by omega) (hchild _ (by omega))
      · rcases Nat.lt_or_ge (l / 2 ^ h) (2 * k + 1) with hright | hmeets
        · have heven : l / 2 ^ h = 2 * k := by omega
          have hle : h + 1 ≤ M := hM.le_of_inside ((div_pow_succ_eq (.inl heven)).symm ▸ hin)
          obtain ⟨x, hx⟩ := hgives.right _ ⟨h, Nat.zero_le h, hle, k, heven, rfl⟩
          exact .given hx
        · exact ih (inside_children hin).2 (by omega) hmeets (hchild _ (by omega))

end

/-! ## the returned leaves -/

theorem collectLeaves_eq {contains : Nat → Bool} {getLeaf : Nat → Option Leaf} {numLeaves : Nat}
    {leafAt : Nat → Leaf} {rest : Nat}
    (hget : ∀ j, i ≤ j → j < i + rest → getLeaf j = some (leafAt j)) (last : Nat)
    (leaves : List Leaf) :
    collectLeaves contains getLeaf numLeaves rest i last leaves =
      some (leaves ++ (((range' i rest).filter contains).take (numLeaves - leaves.length)).map leafAt,
        (((range' i rest).filter contains).take (numLeaves - leaves.length)).getLastD last) := by
  induction rest generalizing i last leaves with
  | zero =>
    rw [range'_zero, filter_nil, take_nil, map_nil, append_nil]
    rfl
  | succ rest ih =>
    have hrest : ∀ j, i + 1 ≤ j → j < i + 1 + rest → getLeaf j = some (leafAt j) :=
      fun j hj hj' => hget j (by omega) (by omega)
    rw [collectLeaves, range'_succ]
    rcases Nat.lt_or_ge leaves.length numLeaves with hroom | hfull
    · rw [if_pos hroom]
      obtain ⟨room, hroom'⟩ : ∃ room, numLeaves - leaves.length = room + 1 :=
        ⟨numLeaves - leaves.length - 1, by omega⟩
      by_cases hi : contains i = true
      · have hless : numLeaves - (leaves ++ [leafAt i]).length = room := by
          rw [length_append, length_singleton]
          omega
        rw [if_pos hi, hget i le_rfl (by omega), filter_cons_of_pos hi, hroom', take_succ_cons,
          map_cons, append_cons]
        refine (ih hrest i (leaves ++ [leafAt i])).trans ?_
        rw [hless, getLastD_cons]
      · rw [if_neg hi, filter_cons_of_neg hi]
        exact ih hrest last leaves
    · rw [if_neg (by omega), show numLeaves - leaves.length = 0 by omega, take_zero, map_nil,
        append_nil]
      rfl

section
variable {leafset : LeafSetTower} {first : Nat}

theorem mem_unspentFrom {count i : Nat} (hi : i ∈ unspentFrom leafset first count) :
    first ≤ i ∧ i < LeafSetTower.nextLeafIdx leafset ∧ LeafSetTower.asILeafSet.contains leafset i = true := by
  have hmem := mem_of_mem_take hi
  rw [mem_filter, mem_range'_1] at hmem
  obtain ⟨⟨hlo, hhi⟩, hcontains⟩ := hmem
  exact ⟨hlo, by omega, hcontains⟩

theorem unspentFrom_length (count : Nat) :
    unspentFrom leafset first (unspentFrom leafset first count).length =
      unspentFrom leafset first count := by
  unfold unspentFrom
  rw [length_take, ← take_eq_take_min]

theorem lastUnspent_mem {count : Nat} (hfirst : LeafSetTower.asILeafSet.contains leafset first = true)
    (hlt : first < LeafSetTower.nextLeafIdx leafset) (hcount : 1 ≤ count) :
    lastUnspent leafset first count ∈ unspentFrom leafset first count := by
  obtain ⟨rest, hrest⟩ : ∃ rest, LeafSetTower.nextLeafIdx leafset - first = rest + 1 :=
    ⟨LeafSetTower.nextLeafIdx leafset - first - 1, by omega⟩
  obtain ⟨count, rfl⟩ : ∃ c, count = c + 1 := ⟨count - 1, by omega⟩
  have hcons : ∃ tail, unspentFrom leafset first (count + 1) = first :: tail := by
    unfold unspentFrom
    rw [hrest, range'_succ, filter_cons_of_pos hfirst, take_succ_cons]
    exact ⟨_, rfl⟩
  obtain ⟨tail, htail⟩ := hcons
  rw [lastUnspent, htail, getLastD_cons]
  exact getLastD_mem_cons

theorem mem_unspentFrom_of_le {count i : Nat} (hlast : lastUnspent leafset first count ∈
      unspentFrom leafset first count) (hlo : first ≤ i) (hhi : i ≤ lastUnspent leafset first count)
    (hi : LeafSetTower.asILeafSet.contains leafset i = true) : i ∈ unspentFrom leafset first count := by
  have hbound := (mem_unspentFrom hlast).2.1
  have hmem : i ∈ (range' first (LeafSetTower.nextLeafIdx leafset - first)).filter
      (LeafSetTower.asILeafSet.contains leafset) := by
    rw [mem_filter, mem_range'_1]
    exact ⟨by omega, hi⟩
  have hsorted : ((range' first (LeafSetTower.nextLeafIdx leafset - first)).filter
      (LeafSetTower.asILeafSet.contains leafset)).Pairwise (· < ·) :=
    List.Pairwise.filter _ pairwise_lt_range'
  rw [← take_append_drop count (filter _ _)] at hmem hsorted
  rcases mem_append.mp hmem with hmem | hmem
  · exact hmem
  · have := (pairwise_append.mp hsorted).2.2 _ hlast i hmem
    omega

end

/-! ## what is read -/

theorem mapM_eq_map {α β : Type} {f : α → Option β} {g : α → β} {xs : List α}
    (h : ∀ x ∈ xs, f x = some (g x)) : xs.mapM f = some (xs.map g) := by
  induction xs with
  | nil => rfl
  | cons x xs ih =>
    rw [mapM_cons, h x mem_cons_self, ih fun y hy => h y (mem_cons_of_mem x hy)]
    rfl

section
variable {placed : List (Nat × Uint256)}

theorem mem_of_lookupNode {p : Nat} {x : Uint256} (h : lookupNode placed p = some x) :
    (p, x) ∈ placed := by
  obtain ⟨e, he, rfl⟩ := Option.map_eq_some_iff.mp h
  have hp : e.1 = p := by simpa using find?_some he
  rw [← hp]
  exact mem_of_find?_eq_some he

theorem lookupNode_of_mem {p : Nat} {x : Uint256} (h : (p, x) ∈ placed) :
    ∃ x, lookupNode placed p = some x := by
  have hsome : (placed.find? (·.1 = p)).isSome :=
    find?_isSome.mpr ⟨(p, x), h, decide_eq_true (rfl : (p, x).1 = p)⟩
  obtain ⟨e, he⟩ := Option.isSome_iff_exists.mp hsome
  exact ⟨e.2, by rw [lookupNode, he]; rfl⟩

end

theorem ILeafSet.toBitSet_length {S : Type} (o : ILeafSet S) (s : S) :
    (o.toBitSet s).length = o.nextLeafIdx s := by
  rw [toBitSet, length_map, length_range]

theorem ILeafSet.test_toBitSet {S : Type} (o : ILeafSet S) (s : S) (hi : i < o.nextLeafIdx s) :
    BitSet.test (o.toBitSet s) i = o.contains s i := by
  rw [BitSet.test, toBitSet, getD_eq_getElem?_getD, getElem?_map, getElem?_range hi]
  rfl

section
variable (blake3 : Bytes → Uint256) (datas : List Bytes)

def hashAt (p : Nat) : Uint256 := (nodesOf blake3 datas).getD p .null

def leafAt (i : Nat) : Leaf := Leaf.create blake3 i (datas.getD i [])

variable {blake3 datas}

theorem getElem?_hashAt {p : Nat} (hp : p < position datas.length) :
    (nodesOf blake3 datas)[p]? = some (hashAt blake3 datas p) := by
  have hlt : p < (nodesOf blake3 datas).length := by rwa [nodesOf_length]
  rw [hashAt, getD_eq_getElem?_getD, getElem?_eq_getElem hlt]
  rfl

theorem getElem?_leafAt {i : Nat} (hi : i < datas.length) :
    (leavesOf blake3 datas)[i]? = some (leafAt blake3 datas i) := by
  rw [getElem?_leavesOf, leafAt, getD_eq_getElem?_getD, getElem?_eq_getElem hi]
  rfl

theorem hashAt_position {i : Nat} (hi : i < datas.length) :
    hashAt blake3 datas (position i) = (leafAt blake3 datas i).hash := by
  have hleaf : ((leavesOf blake3 datas).map Leaf.hash)[i]? = some (leafAt blake3 datas i).hash := by
    rw [getElem?_map, getElem?_leafAt hi]
    rfl
  have hnode := (rebuild_eq datas).2.leaf_at i _ hleaf
  rw [getElem?_hashAt (position_strictMono hi)] at hnode
  exact Option.some.inj hnode

variable {mmr : RangeTower}

theorem Agrees.numLeaves_eq (h : Agrees blake3 mmr datas) : RangeTower.numLeaves mmr = datas.length := by
  obtain ⟨mem, hmem, hagrees⟩ := h
  obtain rfl := Except.ok.inj ((rebuild_eq datas).1.symm.trans hmem)
  rw [hagrees.numLeaves_eq]
  exact leavesOf_length datas

theorem Agrees.getHash_eq (h : Agrees blake3 mmr datas) {p : Nat} (hp : p < position datas.length) :
    RangeTower.getHash mmr p = .ok (hashAt blake3 datas p) := by
  obtain ⟨mem, hmem, hagrees⟩ := h
  obtain rfl := Except.ok.inj ((rebuild_eq datas).1.symm.trans hmem)
  obtain ⟨x, hx, hx'⟩ := hagrees.getHash_eq p (by
    rw [MemMmr.numLeaves, leavesOf_length]
    exact hp)
  rw [hx]
  have hnode : (nodesOf blake3 datas)[p]? = some x := listStore_get.mp hx'
  rw [getElem?_hashAt hp] at hnode
  rw [Option.some.inj hnode]

theorem Agrees.getLeaf_eq (h : Agrees blake3 mmr datas) {i : Nat} (hi : i < datas.length) :
    RangeTower.getLeaf blake3 mmr i = .ok (leafAt blake3 datas i) := by
  obtain ⟨mem, hmem, hagrees⟩ := h
  obtain rfl := Except.ok.inj ((rebuild_eq datas).1.symm.trans hmem)
  obtain ⟨leaf, hleaf, hleaf'⟩ := hagrees.getLeaf_eq i (by
    rw [MemMmr.numLeaves, leavesOf_length]
    exact hi)
  rw [MemMmr.getLeaf, getElem?_leafAt hi] at hleaf'
  rw [hleaf, Except.ok.inj hleaf']

theorem peaksOf_nodesOf : peaksOf (nodesOf blake3 datas) =
    (calcPeakIndices (position datas.length)).map (hashAt blake3 datas) := by
  have hall : ∀ ps : List Nat, (∀ p ∈ ps, p < position datas.length) →
      ps.filterMap ((nodesOf blake3 datas)[·]?) = ps.map (hashAt blake3 datas) := by
    intro ps hps
    induction ps with
    | nil => rfl
    | cons p ps ih =>
      rw [filterMap_cons_some (getElem?_hashAt (hps p mem_cons_self)), map_cons,
        ih fun q hq => hps q (mem_cons_of_mem p hq)]
  rw [peaksOf, nodesOf_length]
  refine hall _ ?_
  intro p hp
  obtain ⟨h, k, rfl, hpeak⟩ := isPeak_of_mem hp
  exact node_lt_position_iff.mpr hpeak.1

theorem Agrees.root_eq (h : Agrees blake3 mmr datas) :
    RangeTower.root blake3 mmr = .ok (bag (calcParentHash blake3) Uint256.isNull .null
      (position datas.length) ((calcPeakIndices (position datas.length)).map (hashAt blake3 datas))) := by
  have hrange : Range (calcParentHash blake3) _ (nodesOf blake3 datas) := (rebuild_eq datas).2
  have hread : ∀ p x, (nodesOf blake3 datas)[p]? = some x → RangeTower.getHash mmr p = .ok x := by
    intro p x hx
    have hp : p < position datas.length := by
      have hlt := (List.getElem?_eq_some_iff.mp hx).1
      rwa [nodesOf_length] at hlt
    rw [getElem?_hashAt hp] at hx
    rw [← Option.some.inj hx]
    exact h.getHash_eq hp
  have hroot : Mmr.root (RangeTower.getHash mmr) (calcParentHash blake3) Uint256.isNull .null _ = _ :=
    hrange.root_eq hread
  rw [length_map, leavesOf_length, nodesOf_length, peaksOf_nodesOf] at hroot
  rw [RangeTower.root, h.numLeaves_eq]
  exact hroot

end

/-! ## the root -/

section
variable {blake3 : Bytes → Uint256} {mmr : RangeTower} {datas : List Bytes}

theorem bagUntil_append {getHash : Nat → Option Uint256} {hash : Nat → Uint256} {nextNode peak : Nat}
    {ps : List Nat} (hget : ∀ p ∈ ps, getHash p = some (hash p)) (hne : ∀ p ∈ ps, p ≠ peak)
    (qs : List Nat) (bagged : Option Uint256) :
    bagUntil blake3 getHash nextNode peak (ps.reverse ++ qs) bagged =
      bagUntil blake3 getHash nextNode peak qs
        (bagOnto (calcParentHash blake3) nextNode (ps.map hash) bagged) := by
  induction ps generalizing qs with
  | nil => rfl
  | cons p ps ih =>
    rw [reverse_cons, append_assoc, singleton_append,
      ih (fun q hq => hget q (mem_cons_of_mem p hq)) (fun q hq => hne q (mem_cons_of_mem p hq)),
      bagUntil, hget p mem_cons_self, Option.bind_eq_bind, Option.bind_some,
      if_neg (hne p mem_cons_self)]
    rfl

variable {behind : List Nat}

theorem calcBaggedPeak_eq (hmmr : Agrees blake3 mmr datas) {before : List Nat} {peak : Nat}
    (hsplit : calcPeakIndices (position datas.length) = before ++ peak :: behind) :
    calcBaggedPeak blake3 mmr peak = some (bagOnto (calcParentHash blake3) (position datas.length)
      ((peak :: behind).map (hashAt blake3 datas)) none) := by
  have hread : ∀ p ∈ peak :: behind,
      (RangeTower.getHash mmr p).toOption = some (hashAt blake3 datas p) := by
    intro p hp
    obtain ⟨h, k, rfl, hpeak⟩ := isPeak_of_mem (n := datas.length) (p := p) (by
      rw [hsplit]
      exact mem_append_right _ hp)
    rw [hmmr.getHash_eq (node_lt_position_iff.mpr hpeak.1)]
    rfl
  have hsorted := calcPeakIndices_sorted datas.length
  rw [hsplit] at hsorted
  have hbehind := (pairwise_cons.mp (pairwise_append.mp hsorted).2.1).1
  unfold calcBaggedPeak
  dsimp only
  rw [hmmr.numLeaves_eq, hsplit, reverse_append, reverse_cons, append_assoc,
    bagUntil_append (fun p hp => hread p (mem_cons_of_mem peak hp))
      (fun p hp => (hbehind p hp).ne')]
  show bagUntil blake3 _ _ _ (peak :: before.reverse) _ = _
  rw [bagUntil, hread peak mem_cons_self, Option.bind_eq_bind, Option.bind_some, if_pos rfl]
  rfl

theorem root_of_noZeroBag (hmmr : Agrees blake3 mmr datas) (hzero : NoZeroBag blake3 mmr)
    {bagged : Uint256} (hbagged : bagOnto (calcParentHash blake3) (position datas.length)
      ((calcPeakIndices (position datas.length)).map (hashAt blake3 datas)) none = some bagged) :
    RangeTower.root blake3 mmr = .ok bagged := by
  rw [hmmr.root_eq, ← bagOnto_eq_bag Uint256.isNull rfl, hbagged]
  · rfl
  · intro front back b hsplit hb
    obtain ⟨before, rest, hpeaks, _, rfl⟩ := map_eq_append_iff.mp hsplit
    cases rest with
    | nil => cases hb
    | cons peak behind =>
      have hne := hzero peak (by
        rw [hmmr.numLeaves_eq, hpeaks]
        exact mem_append_right _ mem_cons_self)
      rw [calcBaggedPeak_eq hmmr hpeaks, hb] at hne
      refine Bool.eq_false_iff.mpr ?_
      intro hnull
      exact hne (by rw [(Uint256.isNull_iff b).mp hnull])

/-- the segment that `assemble` returns, with the last leaf `l` and the peaks behind it -/
def segmentOf (blake3 : Bytes → Uint256) (datas : List Bytes) (unspent : List Nat)
    (indices : Finset Nat) (behind : List Nat) : Segment where
  leaves := unspent.map (leafAt blake3 datas)
  hashes := (indices.sort (· ≤ ·)).map (hashAt blake3 datas)
  lowerPeak := bagOnto (calcParentHash blake3) (position datas.length)
    (behind.map (hashAt blake3 datas)) none

end

/-- a request for `count` leaves from `first` on in a range of `n`, and what the factory finds for it: the
last of these leaves, the heights of the peaks over both ends, the hashes, the peaks around the last -/
structure Request (leafset : LeafSetTower) (n first count : Nat) where
  last : Nat
  m : Nat
  M : Nat
  pruned : BitSet
  indices : Finset Nat
  before : List Nat
  behind : List Nat
  size_eq : LeafSetTower.nextLeafIdx leafset = n
  first_mem : LeafSetTower.asILeafSet.contains leafset first = true
  last_eq : lastUnspent leafset first count = last
  last_mem : last ∈ unspentFrom leafset first count
  pruned_iff : ∀ h k, BitSet.test pruned (node h k) = true ↔
    (Inside n h k ∧ SpentBlock (LeafSetTower.asILeafSet.toBitSet leafset) h k) ∧
      ¬ (Inside n (h + 1) (k / 2) ∧ SpentBlock (LeafSetTower.asILeafSet.toBitSet leafset) (h + 1) (k / 2))
  requested : requestedIndices leafset first count = some indices
  hashes : HashIndices n first last m M pruned indices
  split : calcPeakIndices (position n) = before ++ node M (last / 2 ^ M) :: behind
  before_lt : ∀ p ∈ before, p < position last
  le_peak : position last ≤ node M (last / 2 ^ M)

theorem exists_request {leafset : LeafSetTower} {n first count : Nat}
    (hn : LeafSetTower.nextLeafIdx leafset = n) (hlt : first < n)
    (hfirst : LeafSetTower.asILeafSet.contains leafset first = true) (hcount : 1 ≤ count) :
    Nonempty (Request leafset n first count) := by
  have hlast := lastUnspent_mem hfirst (hn.symm ▸ hlt) hcount
  obtain ⟨hfl, hl, _⟩ := mem_unspentFrom hlast
  obtain ⟨pruned, hrun, hpruned⟩ := calcPrunedParents_eq (LeafSetTower.asILeafSet.toBitSet leafset)
  rw [ILeafSet.toBitSet_length, show LeafSetTower.asILeafSet.nextLeafIdx leafset = n from hn] at hpruned
  rw [hn] at hl
  obtain ⟨indices, m, M, hindices, hash⟩ := calcHashIndices_eq hn hlt hl hfl hrun
  obtain ⟨before, M', behind, hsplit, hbefore, hpeak, _, hIsPeak⟩ := peaks_around hl
  obtain rfl : M' = M := le_antisymm (hash.right_peak.le_of_inside hIsPeak.1)
    (hIsPeak.le_of_inside hash.right_peak.1)
  refine ⟨⟨_, m, M', pruned, indices, before, behind, hn, hfirst, rfl, hlast, hpruned, ?_, hash, hsplit,
    hbefore, hpeak⟩⟩
  rw [requestedIndices, hn]
  exact hindices

namespace Request

variable {leafset : LeafSetTower} {first count : Nat} {blake3 : Bytes → Uint256} {datas : List Bytes}
  (r : Request leafset datas.length first count)

include r in
theorem lt_size {i : Nat} (hi : i ∈ unspentFrom leafset first count) : i < datas.length := by
  rw [← r.size_eq]
  exact (mem_unspentFrom hi).2.1

theorem inside {p : Nat} (hp : p ∈ r.indices) : p < position datas.length :=
  r.hashes.lt_position (r.lt_size r.last_mem) hp

include r in
theorem test_toBitSet {i : Nat} (hi : i < datas.length) :
    BitSet.test (LeafSetTower.asILeafSet.toBitSet leafset) i =
      LeafSetTower.asILeafSet.contains leafset i :=
  ILeafSet.test_toBitSet _ _ (hi.trans_eq r.size_eq.symm)

variable (blake3) in
def segment : Segment := segmentOf blake3 datas (unspentFrom leafset first count) r.indices r.behind

theorem segment_length : (r.segment blake3).leaves.length = (unspentFrom leafset first count).length :=
  length_map _

theorem segment_last : lastUnspent leafset first (r.segment blake3).leaves.length = r.last := by
  rw [r.segment_length, lastUnspent, unspentFrom_length]
  exact r.last_eq

theorem segment_requested :
    requestedIndices leafset first (r.segment blake3).leaves.length = some r.indices := by
  have hrequested := r.requested
  rw [requestedIndices, r.last_eq] at hrequested
  rw [requestedIndices, r.segment_last]
  exact hrequested

theorem assemble_eq {mmr : RangeTower} (hmmr : Agrees blake3 mmr datas) :
    assemble blake3 mmr leafset first count = some (r.segment blake3) := by
  have hget : ∀ j, first ≤ j → j < first + (datas.length - first) →
      (RangeTower.getLeaf blake3 mmr j).toOption = some (leafAt blake3 datas j) := by
    intro j _ hj
    rw [hmmr.getLeaf_eq (by omega)]
    rfl
  have hleaves : collectLeaves (LeafSetTower.asILeafSet.contains leafset)
      (fun i => (RangeTower.getLeaf blake3 mmr i).toOption) count (datas.length - first) first first
      [] = some ((unspentFrom leafset first count).map (leafAt blake3 datas), r.last) := by
    refine (collectLeaves_eq hget first []).trans ?_
    rw [← r.last_eq, lastUnspent, unspentFrom, r.size_eq]
    rfl
  have hhashes : (r.indices.sort (· ≤ ·)).mapM (fun p => (RangeTower.getHash mmr p).toOption) =
      some ((r.indices.sort (· ≤ ·)).map (hashAt blake3 datas)) := by
    refine mapM_eq_map ?_
    intro p hp
    rw [hmmr.getHash_eq (r.inside ((Finset.mem_sort _).mp hp))]
    rfl
  have hne : calcPeakIndices (position datas.length) ≠ [] := by
    rw [r.split]
    exact append_ne_nil_of_right_ne_nil _ (cons_ne_nil _ _)
  have hguard : guard (calcPeakIndices (position datas.length) ≠ []) = some () := if_pos hne
  have hrequested := r.requested
  rw [requestedIndices, r.last_eq, r.size_eq] at hrequested
  unfold assemble
  dsimp only
  rw [if_pos r.first_mem, r.size_eq, hleaves]
  simp only [Option.bind_eq_bind, Option.bind_some, hguard, hrequested, hhashes]
  have hsplit := r.split
  rw [hsplit, dropWhile_peaks r.before_lt r.le_peak, segment, segmentOf]
  cases hbehind : r.behind with
  | nil => rfl
  | cons lower behind =>
    rw [hbehind, append_cons] at hsplit
    dsimp only
    rw [calcBaggedPeak_eq hmmr hsplit]
    rfl

abbrev known (blake3 : Bytes → Uint256) (r : Request leafset datas.length first count) :
    Nat → Option Uint256 :=
  lookupNode ((r.segment blake3).placed leafset first r.indices)

theorem mem_placed {p : Nat} {x : Uint256} :
    (p, x) ∈ (r.segment blake3).placed leafset first r.indices ↔
      (p ∈ r.indices ∧ x = hashAt blake3 datas p) ∨
        ∃ i ∈ unspentFrom leafset first count, p = position i ∧ x = (leafAt blake3 datas i).hash := by
  have hzip : (r.indices.sort (· ≤ ·)).zip ((r.indices.sort (· ≤ ·)).map (hashAt blake3 datas)) =
      (r.indices.sort (· ≤ ·)).map fun p => (p, hashAt blake3 datas p) := by
    have := zip_map' (f := id) (g := hashAt blake3 datas) (l := r.indices.sort (· ≤ ·))
    rwa [map_id] at this
  rw [Segment.placed, r.segment_length, unspentFrom_length]
  unfold segment segmentOf
  dsimp only
  rw [hzip, map_map, zip_map', mem_append, mem_map, mem_map]
  constructor
  · intro hmem
    rcases hmem with ⟨q, hq, heq⟩ | ⟨i, hi, heq⟩
    · obtain ⟨rfl, rfl⟩ := Prod.mk.inj heq
      exact .inl ⟨(Finset.mem_sort _).mp hq, rfl⟩
    · obtain ⟨rfl, rfl⟩ := Prod.mk.inj heq
      exact .inr ⟨i, hi, rfl, rfl⟩
  · intro hmem
    rcases hmem with ⟨hp, rfl⟩ | ⟨i, hi, rfl, rfl⟩
    · exact .inl ⟨p, (Finset.mem_sort _).mpr hp, rfl⟩
    · exact .inr ⟨i, hi, rfl⟩

/-- what a peer can place is true -/
theorem known_sound {p : Nat} {x : Uint256} (hx : r.known blake3 p = some x) :
    (nodesOf blake3 datas)[p]? = some x := by
  rcases r.mem_placed.mp (mem_of_lookupNode hx) with ⟨hp, rfl⟩ | ⟨i, hi, rfl, rfl⟩
  · exact getElem?_hashAt (r.inside hp)
  · have hlt := r.lt_size hi
    rw [getElem?_hashAt (position_strictMono hlt), hashAt_position hlt]

theorem known_of_mem {p : Nat} (hp : p ∈ r.indices) : ∃ x, r.known blake3 p = some x :=
  lookupNode_of_mem (r.mem_placed.mpr (.inl ⟨hp, rfl⟩))

theorem givesNodes : GivesNodes (r.known blake3) (LeafSetTower.asILeafSet.toBitSet leafset)
    datas.length first r.last r.m r.M := by
  have hmem := r.hashes.mem_iff
  refine ⟨?_, ?_, ?_, ?_⟩
  · intro i hlo hhi hunspent
    rw [r.test_toBitSet (hhi.trans_lt (r.lt_size r.last_mem))] at hunspent
    have hlast := r.last_mem
    rw [← r.last_eq] at hlast hhi
    exact lookupNode_of_mem
      (r.mem_placed.mpr (.inr ⟨i, mem_unspentFrom_of_le hlast hlo hhi hunspent, rfl, rfl⟩))
  · intro p hp
    exact r.known_of_mem ((hmem p).mpr (.inr (.inl hp)))
  · intro h k hlo hhi hspent htop
    exact r.known_of_mem ((hmem _).mpr (.inr (.inr (.inl
      ⟨hlo, hhi, (r.pruned_iff h k).mpr ⟨hspent, htop⟩⟩))))
  · intro p hp
    exact r.known_of_mem ((hmem p).mpr (.inr (.inr (.inr hp))))

theorem recompute_peak {p : Nat} (hp : p ∈ r.before ++ [node r.M (r.last / 2 ^ r.M)]) :
    recompute (calcParentHash blake3) (r.known blake3) (heightAt p) p = some (hashAt blake3 datas p) := by
  have hmem : p ∈ calcPeakIndices (position datas.length) := by
    rw [r.split, append_cons]
    exact mem_append_left _ hp
  obtain ⟨h, k, rfl, hpeak⟩ := isPeak_of_mem hmem
  have hl := r.lt_size r.last_mem
  obtain ⟨hfl, _, hlast⟩ := mem_unspentFrom r.last_mem
  have hcov : Covered (r.known blake3) h k := by
    rcases Nat.lt_or_ge (node h k) (position first) with hlt | hge
    · obtain ⟨x, hx⟩ := r.known_of_mem ((r.hashes.mem_iff _).mpr (.inl ⟨hmem, hlt⟩))
      exact .given hx
    · refine covered_between r.givesNodes r.hashes.left_peak r.hashes.right_peak
        ((r.test_toBitSet (hfl.trans_lt hl)).trans r.first_mem) ((r.test_toBitSet hl).trans hlast)
        hpeak.1 ?_ ?_ fun hcon => hpeak.2 hcon.1
      · have hbehind := position_strictMono.lt_iff_lt.mp (hge.trans_lt (node_lt_position h k))
        exact Nat.le_of_lt_succ ((Nat.div_lt_iff_lt_mul (Nat.two_pow_pos h)).mpr hbehind)
      · rcases mem_append.mp hp with hp | hp
        · have hstart := position_strictMono.lt_iff_lt.mp
            ((position_le_node_first h k).trans_lt (r.before_lt _ hp))
          exact (Nat.le_div_iff_mul_le (Nat.two_pow_pos h)).mpr hstart.le
        · obtain ⟨rfl, rfl⟩ := node_inj (mem_singleton.mp hp)
          exact le_rfl
  have hcount : ((leavesOf blake3 datas).map Leaf.hash).length = datas.length := by
    rw [length_map, leavesOf_length]
  obtain ⟨x, hx, hrun⟩ := recompute_eq (rebuild_eq datas).2 (fun p x => r.known_sound) hcov (by
    rw [hcount]
    exact hpeak.1)
  rw [getElem?_hashAt (node_lt_position_iff.mpr hpeak.1)] at hx
  rw [heightAt_node, hrun, Option.some.inj hx]

theorem recomputeRoot_eq : recomputeRoot blake3 leafset first (r.segment blake3) =
    bagOnto (calcParentHash blake3) (position datas.length)
      ((calcPeakIndices (position datas.length)).map (hashAt blake3 datas)) none := by
  have hpeaks : (r.before ++ [node r.M (r.last / 2 ^ r.M)]).mapM
      (fun p => recompute (calcParentHash blake3) (r.known blake3) (heightAt p) p) = _ :=
    mapM_eq_map fun p hp => r.recompute_peak hp
  unfold recomputeRoot
  dsimp only
  rw [r.segment_requested, r.segment_last, r.size_eq, r.split, takeWhile_peaks r.before_lt r.le_peak,
    dropWhile_peaks r.before_lt r.le_peak]
  simp only [Option.bind_eq_bind, Option.bind_some, take_succ_cons, take_zero, hpeaks]
  rw [append_cons r.before _ r.behind, @map_append _ _ _ _ r.behind, bagOnto_append]
  rfl

end Request

/-- **Segments suffice.**  A request from an unspent leaf on is answered by the first unspent leaves
and by hashes whose places the leaf set and the request determine; with them the bag of all peaks is
computed, which is the root unless a bag on the way is zero. -/
theorem segment_recomputes_root (blake3 : Bytes → Uint256) (mmr : RangeTower) (datas : List Bytes)
    (hmmr : Agrees blake3 mmr datas) (leafset : LeafSetTower) (v : LeafState)
    (hleafset : LeafSetReads leafset v) (hsize : v.size = datas.length) (first : Nat)
    (hfirst : first ∈ v.leaves) (numLeaves : Nat) (hnum : 1 ≤ numLeaves) :
    ∃ seg indices top bagged, assemble blake3 mmr leafset first numLeaves = some seg ∧
      seg.leaves.map Leaf.index = unspentFrom leafset first numLeaves ∧
      requestedIndices leafset first seg.leaves.length = some indices ∧
      (∀ p ∈ indices, p < position (RangeTower.numLeaves mmr)) ∧
      List.Forall₂ (fun p h => RangeTower.getHash mmr p = .ok h) (indices.sort (· ≤ ·)) seg.hashes ∧
      recomputeRoot blake3 leafset first seg = some bagged ∧
      (calcPeakIndices (position (RangeTower.numLeaves mmr))).head? = some top ∧
      calcBaggedPeak blake3 mmr top = some (some bagged) ∧
      (NoZeroBag blake3 mmr → RangeTower.root blake3 mmr = .ok bagged) := by
  have hcontains : LeafSetTower.asILeafSet.contains leafset first = true := by
    rw [hleafset.contains_eq]
    exact decide_eq_true hfirst
  obtain ⟨r⟩ := exists_request (hleafset.next_eq.trans hsize) (hsize ▸ v.bounded first hfirst) hcontains
    hnum
  obtain ⟨top, rest, hpeaks⟩ : ∃ top rest, calcPeakIndices (position datas.length) = top :: rest := by
    rw [r.split]
    cases r.before with
    | nil => exact ⟨_, _, rfl⟩
    | cons top before => exact ⟨_, _, rfl⟩
  obtain ⟨bagged, hbagged⟩ : ∃ bagged, bagOnto (calcParentHash blake3) (position datas.length)
      ((calcPeakIndices (position datas.length)).map (hashAt blake3 datas)) none = some bagged := by
    rw [hpeaks]
    exact ⟨_, rfl⟩
  refine ⟨_, r.indices, top, bagged, r.assemble_eq hmmr, ?_, r.segment_requested, ?_, ?_,
    r.recomputeRoot_eq.trans hbagged, ?_, ?_, ?_⟩
  · rw [Request.segment, segmentOf, map_map]
    exact map_id _
  · rw [hmmr.numLeaves_eq]
    exact fun p hp => r.inside hp
  · refine forall₂_map_right_iff.mpr (forall₂_same.mpr ?_)
    intro p hp
    exact hmmr.getHash_eq (r.inside ((Finset.mem_sort _).mp hp))
  · rw [hmmr.numLeaves_eq, hpeaks]
    rfl
  · rw [calcBaggedPeak_eq hmmr ((nil_append _).trans hpeaks.symm).symm, ← hpeaks, hbagged]
  · intro hzero
    exact root_of_noZeroBag hmmr hzero hbagged

/-- five leaves in memory, and a leaf set over them in which the third one is spent -/
def fiveLeaves : List Bytes := (range 5).map fun i => [UInt8.ofNat i]

def fiveLeavesRange : RangeTower :=
  .base (.mem ⟨nodesOf Uint256.polyHash fiveLeaves, leavesOf Uint256.polyHash fiveLeaves⟩)

def thirdSpentOps : List (Layers.Op LeafSetEdit) :=
  [.push] ++ (range 5).map (fun i => .edit (.add i)) ++ [.edit (.remove 2)]

theorem segment_recomputes_root_third_spent : ∃ leafset seg root,
    thirdSpentOps.foldlM leafSetMachine.step (.base (LeafSet.open [])) = .ok leafset ∧
    assemble Uint256.polyHash fiveLeavesRange leafset 1 2 = some seg ∧
    seg.leaves.map Leaf.index = [1, 3] ∧
    RangeTower.root Uint256.polyHash fiveLeavesRange = .ok root ∧
    recomputeRoot Uint256.polyHash leafset 1 seg = some root := by
  have hrange : Agrees Uint256.polyHash fiveLeavesRange fiveLeaves := by
    have hshows : RangeShows Uint256.polyHash true fiveLeavesRange [fiveLeaves] :=
      ⟨rfl, holdsLeaves_mem.mpr rfl⟩
    exact agrees_of_shows hshows
  have hzero : NoZeroBag Uint256.polyHash fiveLeavesRange := by
    show ∀ p ∈ calcPeakIndices (position (RangeTower.numLeaves fiveLeavesRange)),
      calcBaggedPeak Uint256.polyHash fiveLeavesRange p ≠ some (some .null)
    decide +kernel
  have hvalues : thirdSpentOps.foldlM (Layers.valueStep LeafState.edit) [LeafState.empty] = some _ := rfl
  obtain ⟨leafset, hrun, hlayers⟩ := leafSetMachine_run hvalues
  obtain ⟨below, hbelow⟩ : ∃ below, leafset.layers = leafset :: below := by
    cases leafset with
    | base s => exact ⟨_, rfl⟩
    | cache below c => exact ⟨_, rfl⟩
  rw [hbelow] at hlayers
  have hreads := leafSetReads_of_holds (forall₂_cons.mp hlayers).1
  obtain ⟨seg, indices, top, bagged, hseg, hindex, _, _, _, hroot, _, _, hbag⟩ :=
    segment_recomputes_root Uint256.polyHash fiveLeavesRange fiveLeaves hrange leafset _ hreads rfl 1
      (by decide) 2 (by decide)
  refine ⟨leafset, seg, bagged, hrun, hseg, ?_, hbag hzero, hroot⟩
  rw [hindex, unspentFrom, hreads.next_eq,
    show LeafSetTower.asILeafSet.contains leafset = _ from funext hreads.contains_eq]
  decide

end Mw
