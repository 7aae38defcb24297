import Mathlib.Data.List.Sort
import ZkCoin.Library.MmrNode

/-!
# Which nodes of a mountain range can be pruned

Two walks over the nodes of a range, height by height, that find whole subtrees of spent leaves:
`BuildCompactBitSet` marks what may be dropped below them, `CalcPrunedParents` their tops.  Both visit
the nodes of a height with `SiblingIter`.

* `SiblingIter.step`, `siblings` — the places of one height, one after another.
* `siblings_eq`            — they are all of them, in order.
* `forEachNode_eq`         — so both walks visit every parent after its children.
* `buildCompactBitSet`, `calcPrunedParents` — the walks.
* `pruning_bit_sets`       — what they mark; tops and unspent leaves make up the leaves.

Bit sets fail when a bit behind their end is set.
-/

namespace Mw

/-! ## bit sets -/

/-- `BitSet` -/
abbrev BitSet := List Bool

namespace BitSet

def ofSize (size : Nat) : BitSet := List.replicate size false

def test (b : BitSet) (i : Nat) : Bool := b.getD i false

/-- `dynamic_bitset::set`, which asserts that the bit exists -/
def set (b : BitSet) (i : Nat) (value : Bool) : Option BitSet :=
  if i < b.length then some (List.set b i value) else none

theorem test_ofSize (size i : Nat) : test (ofSize size) i = false := by
  unfold test ofSize
  rw [List.getD_eq_getElem?_getD, List.getElem?_replicate]
  split
  · rfl
  · rfl

theorem set_eq_some {b : BitSet} {i : Nat} (hi : i < b.length) (value : Bool) :
    ∃ b', set b i value = some b' ∧ b'.length = b.length ∧
      ∀ j, test b' j = if j = i then value else test b j := by
  refine ⟨List.set b i value, if_pos hi, List.length_set, ?_⟩
  intro j
  unfold test
  rw [List.getD_eq_getElem?_getD]
  split
  · rename_i hj
    rw [hj, List.getElem?_set_self hi]
    rfl
  · rename_i hj
    rw [List.getElem?_set_ne (Ne.symm hj), List.getD_eq_getElem?_getD]

end BitSet

/-! ## the nodes of one height -/

structure SiblingIter where
  height : Nat
  lastNode : Nat
  baseInc : Nat
  siblingNum : Nat
  next : Nat

def SiblingIter.new (height lastNode : Nat) : SiblingIter where
  height := height
  lastNode := lastNode
  baseInc := 2 * 2 ^ height - 1
  siblingNum := 0
  next := 0

/-- `SiblingIter::Next` -/
def SiblingIter.step (it : SiblingIter) : Bool × SiblingIter :=
  let next := if it.siblingNum = 0 then it.baseInc - 1
    else it.next + (it.baseInc + Mmr.countRightmostZeros it.siblingNum)
  let it := { it with next := next, siblingNum := it.siblingNum + 1 }
  (decide (it.next ≤ it.lastNode), it)

/-- the places at which `while (iter.Next())` runs its body; `none` if the fuel ends before the loop -/
def siblingsFrom : Nat → SiblingIter → Option (List Nat)
  | 0, _ => none
  | fuel + 1, it =>
    match it.step with
    | (true, it) => (siblingsFrom fuel it).map (it.next :: ·)
    | (false, _) => some []

def siblings (height lastNode : Nat) : Option (List Nat) :=
  siblingsFrom (lastNode + 2) (.new height lastNode)

/-- the heights of `while ((uint64_t(2) << height) - 2 <= bound)` -/
def heightsFrom (bound : Nat) : Nat → Nat → Option (List Nat)
  | 0, _ => none
  | fuel + 1, height =>
    if 2 * 2 ^ height - 2 ≤ bound then (heightsFrom bound fuel (height + 1)).map (height :: ·)
    else some []

/-- the two nested loops: `body` runs at every node with its height -/
def forEachNode {S : Type} (bound lastNode : Nat) (body : S → Nat → Nat → Option S) (s : S) :
    Option S := do
  let heights ← heightsFrom bound (bound + 1) 1
  heights.foldlM (fun s height => do
    let ps ← siblings height lastNode
    ps.foldlM (fun s p => body s height p) s) s

/-! ## the walks -/

/-- set the bits of all leaves for which `spent` holds -/
def markLeaves (numLeaves : Nat) (spent : Nat → Bool) (b : BitSet) : Option BitSet :=
  (List.range numLeaves).foldlM (fun b i =>
    if spent i then BitSet.set b (Mmr.position i) true else some b) b

/-- a visit of `BuildCompactBitSet`, with the compactable and the prunable nodes so far -/
def compactVisit (marks : BitSet × BitSet) (height p : Nat) : Option (BitSet × BitSet) :=
  let (compactable, prunable) := marks
  let right := p - 1
  let left := p - 2 ^ height
  if BitSet.test prunable right && BitSet.test prunable left then do
    let compactable ← BitSet.set compactable right true
    let compactable ← BitSet.set compactable left true
    let prunable ← BitSet.set prunable p true
    some (compactable, prunable)
  else some (compactable, prunable)

/-- `MMRUtil::BuildCompactBitSet` -/
def buildCompactBitSet (numLeaves : Nat) (unspentLeafIndices : BitSet) : Option BitSet := do
  let prunable ← markLeaves numLeaves (fun i => decide (unspentLeafIndices.length > i) &&
    !BitSet.test unspentLeafIndices i) (BitSet.ofSize (numLeaves * 2))
  let nextLeaf := Mmr.position numLeaves
  -- without leaves there is no last node, and no height to walk either
  let lastNode := nextLeaf - 1
  let (compactable, _) ← forEachNode nextLeaf lastNode compactVisit
    (BitSet.ofSize (numLeaves * 2), prunable)
  some compactable

/-- a visit of `CalcPrunedParents` -/
def prunedVisit (ret : BitSet) (height p : Nat) : Option BitSet :=
  let right := p - 1
  let left := p - 2 ^ height
  if BitSet.test ret right && BitSet.test ret left then do
    let ret ← BitSet.set ret right false
    let ret ← BitSet.set ret left false
    BitSet.set ret p true
  else some ret

/-- `MMRUtil::CalcPrunedParents` -/
def calcPrunedParents (unspentLeafIndices : BitSet) : Option BitSet := do
  let ret ← markLeaves unspentLeafIndices.length (fun i => !BitSet.test unspentLeafIndices i)
    (BitSet.ofSize (unspentLeafIndices.length * 2))
  let lastNode := Mmr.position unspentLeafIndices.length
  forEachNode lastNode lastNode prunedVisit ret

/-! ## the iterator visits every node of its height -/

open Mmr

def SiblingIter.after (height lastNode k : Nat) : SiblingIter where
  height := height
  lastNode := lastNode
  baseInc := 2 * 2 ^ height - 1
  siblingNum := k
  next := if k = 0 then 0 else node height (k - 1)

theorem SiblingIter.step_after (height lastNode k : Nat) :
    (SiblingIter.after height lastNode k).step =
      (decide (node height k ≤ lastNode), SiblingIter.after height lastNode (k + 1)) := by
  have hnext : (if k = 0 then 2 * 2 ^ height - 1 - 1 else (if k = 0 then 0 else node height (k - 1)) +
      (2 * 2 ^ height - 1 + countRightmostZeros k)) = node height k := by
    cases k with
    | zero =>
      have hfirst := node_add_two height 0
      rw [Nat.zero_mul, position_zero, pow_succ] at hfirst
      rw [if_pos rfl]
      omega
    | succ k =>
      rw [if_neg k.succ_ne_zero, if_neg k.succ_ne_zero, Nat.add_sub_cancel, node_add_one, pow_succ,
        Nat.mul_comm 2]
  unfold SiblingIter.step SiblingIter.after
  simp only [hnext]
  simp

theorem siblingsFrom_eq {height lastNode : Nat} (m k fuel : Nat)
    (hin : ∀ j, k ≤ j → j < k + m → node height j ≤ lastNode) (hout : lastNode < node height (k + m))
    (hfuel : m < fuel) :
    siblingsFrom fuel (.after height lastNode k) = some ((List.range' k m).map (node height)) := by
  induction m generalizing k fuel with
  | zero =>
    obtain ⟨fuel, rfl⟩ : ∃ f, fuel = f + 1 := ⟨fuel - 1, by omega⟩
    rw [siblingsFrom, SiblingIter.step_after, decide_eq_false (by simpa using hout)]
    rfl
  | succ m ih =>
    obtain ⟨fuel, rfl⟩ : ∃ f, fuel = f + 1 := ⟨fuel - 1, by omega⟩
    have hrest := ih (k + 1) fuel (fun j hj hj' => hin j (by omega) (by omega))
      (by rw [show k + 1 + m = k + (m + 1) by omega]; exact hout) (by omega)
    rw [siblingsFrom, SiblingIter.step_after, decide_eq_true (hin k le_rfl (by omega))]
    simp only [hrest]
    rfl

/-- **Siblings.**  The iterator visits the first nodes of its height, up to the last node. -/
theorem siblings_eq (height lastNode : Nat) :
    ∃ m, siblings height lastNode = some ((List.range m).map (node height)) ∧
      ∀ k, k < m ↔ node height k ≤ lastNode := by
  have hex : ∃ m, lastNode < node height m := ⟨lastNode + 1, le_node height (lastNode + 1)⟩
  have hiff : ∀ k, k < Nat.find hex ↔ node height k ≤ lastNode := by
    intro k
    constructor
    · intro hk
      exact Nat.le_of_not_lt (Nat.find_min hex hk)
    · intro hk
      by_contra hcon
      have hmono := (node_strictMono height).monotone (Nat.le_of_not_lt hcon)
      have := Nat.find_spec hex
      omega
  refine ⟨Nat.find hex, ?_, hiff⟩
  have hbound : Nat.find hex < lastNode + 2 :=
    (Nat.find_min' hex (le_node height (lastNode + 1))).trans_lt (by omega)
  rw [List.range_eq_range']
  refine siblingsFrom_eq (Nat.find hex) 0 (lastNode + 2) ?_ ?_ hbound
  · intro j _ hj
    rw [Nat.zero_add] at hj
    exact (hiff j).mp hj
  · rw [Nat.zero_add]
    exact Nat.find_spec hex

theorem heightsFrom_eq {bound : Nat} (m height fuel : Nat)
    (hin : ∀ j, height ≤ j → j < height + m → 2 * 2 ^ j - 2 ≤ bound)
    (hout : bound < 2 * 2 ^ (height + m) - 2) (hfuel : m < fuel) :
    heightsFrom bound fuel height = some (List.range' height m) := by
  induction m generalizing height fuel with
  | zero =>
    obtain ⟨fuel, rfl⟩ : ∃ f, fuel = f + 1 := ⟨fuel - 1, by omega⟩
    rw [Nat.add_zero] at hout
    rw [heightsFrom, if_neg (Nat.not_le_of_lt hout)]
    rfl
  | succ m ih =>
    obtain ⟨fuel, rfl⟩ : ∃ f, fuel = f + 1 := ⟨fuel - 1, by omega⟩
    rw [heightsFrom, if_pos (hin height le_rfl (by omega)), ih (height + 1) fuel
      (fun j hj hj' => hin j (by omega) (by omega))
      (by rw [show height + 1 + m = height + (m + 1) by omega]; exact hout) (by omega)]
    rfl

/-! ## the walk visits every parent -/

variable {k : Nat}

theorem node_le_position_iff {n h : Nat} (hh : 1 ≤ h) : node h k ≤ position n ↔ Inside n h k := by
  rw [← node_lt_position_iff]
  constructor
  · intro hle
    refine lt_of_le_of_ne hle ?_
    intro heq
    have := congrArg heightAt heq
    rw [heightAt_node, heightAt_position] at this
    omega
  · exact le_of_lt

theorem heights_eq (n : Nat) : ∃ m, heightsFrom (position n) (position n + 1) 1 =
    some (List.range' 1 m) ∧ (∀ h, 1 ≤ h → h < 1 + m → 2 ^ h ≤ n) ∧ n < 2 ^ (1 + m) := by
  have hcond : ∀ h, 1 ≤ h → (2 * 2 ^ h - 2 ≤ position n ↔ 2 ^ h ≤ n) := by
    intro h hh
    have hfirst := node_add_two h 0
    rw [Nat.zero_mul, position_zero, pow_succ] at hfirst
    have hinside := node_le_position_iff (n := n) (k := 0) hh
    rw [Inside, Nat.zero_add, Nat.one_mul] at hinside
    rw [← hinside]
    omega
  have hgrow := Nat.lt_two_pow_self (n := n)
  have hex : ∃ m, n < 2 ^ (1 + m) := ⟨n, hgrow.trans (Nat.pow_lt_pow_right (by omega) (by omega))⟩
  have hmin : ∀ h, 1 ≤ h → h < 1 + Nat.find hex → 2 ^ h ≤ n := by
    intro h hh hlt
    obtain ⟨j, rfl⟩ : ∃ j, h = 1 + j := ⟨h - 1, by omega⟩
    exact Nat.le_of_not_lt (Nat.find_min hex (by omega))
  refine ⟨Nat.find hex, ?_, hmin, Nat.find_spec hex⟩
  apply heightsFrom_eq
  · intro j hj hj'
    exact (hcond j hj).mpr (hmin j hj hj')
  · refine Nat.lt_of_not_le ?_
    intro hle
    exact absurd ((hcond _ (by omega)).mp hle) (Nat.not_le_of_lt (Nat.find_spec hex))
  · have hfind : Nat.find hex ≤ n := Nat.find_min' hex
      (hgrow.trans (Nat.pow_lt_pow_right (by omega) (by omega)))
    have := le_position n
    omega

/-- **The walk.**  What one visit keeps, the visited nodes growing block by block and height by height,
holds after all of them. -/
theorem forEachNode_induction {S : Type} {n lastNode : Nat} {body : S → Nat → Nat → Option S}
    (Inv : Nat → Nat → S → Prop)
    (hlast : ∀ h k, 1 ≤ h → (node h k ≤ lastNode ↔ Inside n h k))
    (hstep : ∀ h k s, 1 ≤ h → Inside n h k → Inv h k s →
      ∃ s', body s h (node h k) = some s' ∧ Inv h (k + 1) s')
    (hlevel : ∀ h s, 1 ≤ h → Inv h (n / 2 ^ h) s → Inv (h + 1) 0 s) {s : S} (hs : Inv 1 0 s) :
    ∃ s' h, forEachNode (position n) lastNode body s = some s' ∧ 1 ≤ h ∧ n < 2 ^ h ∧ Inv h 0 s' := by
  have hinner : ∀ h m k s, 1 ≤ h → k + m = n / 2 ^ h → Inv h k s →
      ∃ s', ((List.range' k m).map (node h)).foldlM (fun s p => body s h p) s = some s' ∧
        Inv h (n / 2 ^ h) s' := by
    intro h m
    induction m with
    | zero =>
      intro k s _ hk hs
      rw [← hk]
      exact ⟨s, rfl, hs⟩
    | succ m ih =>
      intro k s hh hk hs
      obtain ⟨s₁, hbody, hs₁⟩ := hstep h k s hh (inside_iff_lt.mpr (by omega)) hs
      obtain ⟨s', hrun, hs'⟩ := ih (k + 1) s₁ hh (by omega) hs₁
      refine ⟨s', ?_, hs'⟩
      rw [List.range'_succ, List.map_cons, List.foldlM_cons, hbody]
      exact hrun
  have houter : ∀ m h s, 1 ≤ h → Inv h 0 s → ∃ s', (List.range' h m).foldlM (fun s height => do
      let ps ← siblings height lastNode
      ps.foldlM (fun s p => body s height p) s) s = some s' ∧ Inv (h + m) 0 s' := by
    intro m
    induction m with
    | zero =>
      intro h s _ hs
      exact ⟨s, rfl, hs⟩
    | succ m ih =>
      intro h s hh hs
      obtain ⟨count, hsiblings, hcount⟩ := siblings_eq h lastNode
      have hcount' : count = n / 2 ^ h := by
        apply le_antisymm
        · by_contra hcon
          have := (hlast h _ hh).mp ((hcount (n / 2 ^ h)).mp (by omega))
          exact absurd (inside_iff_lt.mp this) (lt_irrefl _)
        · by_contra hcon
          have := (hcount count).mpr ((hlast h _ hh).mpr (inside_iff_lt.mpr (by omega)))
          omega
      obtain ⟨s₁, hlevelRun, hs₁⟩ := hinner h count 0 s hh (by omega) hs
      obtain ⟨s', hrun, hs'⟩ := ih (h + 1) s₁ (by omega) (hlevel h s₁ hh hs₁)
      rw [show h + 1 + m = h + (m + 1) by omega] at hs'
      refine ⟨s', ?_, hs'⟩
      rw [List.range'_succ, List.foldlM_cons, hsiblings, List.range_eq_range']
      show ((List.range' 0 count).map (node h)).foldlM (fun s p => body s h p) s >>= _ = _
      rw [hlevelRun]
      exact hrun
  obtain ⟨m, hheights, _, hn⟩ := heights_eq n
  obtain ⟨s', hrun, hs'⟩ := houter m 1 s le_rfl hs
  refine ⟨s', 1 + m, ?_, by omega, hn, hs'⟩
  rw [forEachNode, hheights]
  exact hrun

/-! ## spent subtrees -/

def SpentBlock (unspent : BitSet) (h k : Nat) : Prop :=
  ∀ i, i / 2 ^ h = k → BitSet.test unspent i = false

theorem spentBlock_zero {unspent : BitSet} :
    SpentBlock unspent 0 k ↔ BitSet.test unspent k = false := by
  unfold SpentBlock
  simp

theorem spentBlock_succ {unspent : BitSet} {h : Nat} :
    SpentBlock unspent (h + 1) k ↔ SpentBlock unspent h (2 * k) ∧ SpentBlock unspent h (2 * k + 1) := by
  unfold SpentBlock
  constructor
  · intro hspent
    refine ⟨?_, ?_⟩
    · intro i hi
      exact hspent i (by rw [div_pow_succ]; omega)
    · intro i hi
      exact hspent i (by rw [div_pow_succ]; omega)
  · intro ⟨hleft, hright⟩ i hi
    rw [div_pow_succ] at hi
    rcases Nat.mod_two_eq_zero_or_one (i / 2 ^ h) with heven | hodd
    · exact hleft i (by omega)
    · exact hright i (by omega)

theorem node_lt_size {n h : Nat} (hin : Inside n h k) : node h k < n * 2 := by
  have hlt := node_lt_position_iff.mpr hin
  unfold position at hlt
  omega

/-- the walk has come to block `K` of height `H`: it has visited what lies before -/
def Visited (H K h k : Nat) : Prop := 1 ≤ h ∧ (h < H ∨ h = H ∧ k < K)

theorem visited_succ {H K h : Nat} (hH : 1 ≤ H) :
    Visited H (K + 1) h k ↔ Visited H K h k ∨ h = H ∧ k = K := by
  unfold Visited
  omega

theorem visited_level {n H h : Nat} (hin : Inside n h k) :
    Visited (H + 1) 0 h k ↔ Visited H (n / 2 ^ H) h k := by
  have hlt := inside_iff_lt.mp hin
  unfold Visited
  constructor
  · intro ⟨hh, hlow⟩
    refine ⟨hh, ?_⟩
    rcases Nat.lt_or_ge h H with hlt' | hge
    · exact .inl hlt'
    · obtain rfl : h = H := by omega
      exact .inr ⟨rfl, hlt⟩
  · intro ⟨hh, hlow⟩
    exact ⟨hh, by omega⟩

theorem visited_end {n H h : Nat} (hn : n < 2 ^ H) (hin : Inside n h k) :
    Visited H 0 h k ↔ 1 ≤ h := by
  have hpow : 2 ^ h ≤ (k + 1) * 2 ^ h := Nat.le_mul_of_pos_left _ k.succ_pos
  have hlt : h < H := (Nat.pow_lt_pow_iff_right (by omega)).mp ((hpow.trans hin).trans_lt hn)
  unfold Visited
  omega

/-! ## leaves -/

theorem markLeaves_eq (n : Nat) (spent : Nat → Bool) :
    ∃ b, markLeaves n spent (BitSet.ofSize (n * 2)) = some b ∧ b.length = n * 2 ∧
      ∀ h k, BitSet.test b (node h k) = true ↔ Inside n h k ∧ h = 0 ∧ spent k = true := by
  have hrun : ∀ m ≤ n, ∃ b, (List.range m).foldlM (fun b i =>
      if spent i then BitSet.set b (position i) true else some b) (BitSet.ofSize (n * 2)) = some b ∧
      b.length = n * 2 ∧ ∀ p, BitSet.test b p = true ↔ ∃ i < m, p = position i ∧ spent i = true := by
    intro m
    induction m with
    | zero =>
      intro _
      refine ⟨_, rfl, List.length_replicate, ?_⟩
      intro p
      rw [BitSet.test_ofSize]
      simp
    | succ m ih =>
      intro hm
      obtain ⟨b, hb, hlen, htest⟩ := ih (by omega)
      by_cases hspent : spent m = true
      · have hplace : position m < b.length := by
          have hsize := node_lt_size (n := n) (h := 0) (k := m)
            (by rw [Inside, pow_zero, Nat.mul_one]; exact hm)
          rw [node_zero] at hsize
          omega
        obtain ⟨b', hset, hlen', htest'⟩ := BitSet.set_eq_some hplace true
        refine ⟨b', ?_, by omega, ?_⟩
        · rw [List.range_succ, List.foldlM_append, hb]
          show (if spent m then BitSet.set b (position m) true else some b) >>= _ = _
          rw [if_pos hspent, hset]
          rfl
        · intro p
          rw [htest']
          split
          · rename_i hp
            simp only [true_iff]
            exact ⟨m, by omega, hp, hspent⟩
          · rename_i hp
            rw [htest]
            constructor
            · intro ⟨i, hi, hrest⟩
              exact ⟨i, by omega, hrest⟩
            · intro ⟨i, hi, hplace, hs⟩
              have hne : i ≠ m := by
                intro him
                exact hp (him ▸ hplace)
              exact ⟨i, by omega, hplace, hs⟩
      · refine ⟨b, ?_, hlen, ?_⟩
        · rw [List.range_succ, List.foldlM_append, hb]
          show (if spent m then BitSet.set b (position m) true else some b) >>= _ = _
          rw [if_neg hspent]
          rfl
        · intro p
          rw [htest]
          constructor
          · intro ⟨i, hi, hrest⟩
            exact ⟨i, by omega, hrest⟩
          · intro ⟨i, hi, hplace, hs⟩
            have hne : i ≠ m := by
              intro him
              exact hspent (him ▸ hs)
            exact ⟨i, by omega, hplace, hs⟩
  obtain ⟨b, hb, hlen, htest⟩ := hrun n le_rfl
  refine ⟨b, hb, hlen, ?_⟩
  intro h k
  rw [htest]
  constructor
  · intro ⟨i, hi, hplace, hs⟩
    rw [← node_zero] at hplace
    obtain ⟨rfl, rfl⟩ := node_inj hplace
    exact ⟨by rw [Inside, pow_zero, Nat.mul_one]; exact hi, rfl, hs⟩
  · intro ⟨hin, hh, hs⟩
    subst hh
    rw [Inside, pow_zero, Nat.mul_one] at hin
    exact ⟨k, hin, node_zero k, hs⟩

/-! ## visits -/

section
variable (unspent : BitSet) (n : Nat)

def BelowSpent (H K h k : Nat) : Prop :=
  Inside n (h + 1) (k / 2) ∧ Visited H K (h + 1) (k / 2) ∧ SpentBlock unspent (h + 1) (k / 2)

def SpentSoFar (H K h k : Nat) : Prop :=
  Inside n h k ∧ (h = 0 ∨ Visited H K h k) ∧ SpentBlock unspent h k

structure PrunedMarks (H K : Nat) (ret : BitSet) : Prop where
  length_eq : ret.length = n * 2
  test_iff : ∀ h k, BitSet.test ret (node h k) = true ↔
    SpentSoFar unspent n H K h k ∧ ¬ BelowSpent unspent n H K h k

structure CompactMarks (H K : Nat) (marks : BitSet × BitSet) : Prop where
  length_compactable : marks.1.length = n * 2
  length_prunable : marks.2.length = n * 2
  compactable_iff : ∀ h k, BitSet.test marks.1 (node h k) = true ↔ BelowSpent unspent n H K h k
  prunable_iff : ∀ h k, BitSet.test marks.2 (node h k) = true ↔ SpentSoFar unspent n H K h k

variable {unspent n}

variable {h H K k : Nat}

theorem spentSoFar_succ (hH : 1 ≤ H) (hin : Inside n H K) :
    SpentSoFar unspent n H (K + 1) h k ↔
      SpentSoFar unspent n H K h k ∨ (h = H ∧ k = K) ∧ SpentBlock unspent H K := by
  unfold SpentSoFar
  rw [visited_succ hH]
  constructor
  · rintro ⟨hin', hvisit | hvisit | ⟨rfl, rfl⟩, hspent⟩
    · exact .inl ⟨hin', .inl hvisit, hspent⟩
    · exact .inl ⟨hin', .inr hvisit, hspent⟩
    · exact .inr ⟨⟨rfl, rfl⟩, hspent⟩
  · rintro (⟨hin', hvisit, hspent⟩ | ⟨⟨rfl, rfl⟩, hspent⟩)
    · exact ⟨hin', hvisit.imp_right .inl, hspent⟩
    · exact ⟨hin, .inr (.inr ⟨rfl, rfl⟩), hspent⟩

theorem belowSpent_succ (hin : Inside n (H + 1) K) :
    BelowSpent unspent n (H + 1) (K + 1) h k ↔
      BelowSpent unspent n (H + 1) K h k ∨ (h = H ∧ k / 2 = K) ∧ SpentBlock unspent (H + 1) K := by
  unfold BelowSpent
  rw [visited_succ (by omega), Nat.succ_inj]
  constructor
  · rintro ⟨hin', hvisit | ⟨rfl, rfl⟩, hspent⟩
    · exact .inl ⟨hin', hvisit, hspent⟩
    · exact .inr ⟨⟨rfl, rfl⟩, hspent⟩
  · rintro (⟨hin', hvisit, hspent⟩ | ⟨⟨rfl, rfl⟩, hspent⟩)
    · exact ⟨hin', .inl hvisit, hspent⟩
    · exact ⟨hin, .inr ⟨rfl, rfl⟩, hspent⟩

theorem not_belowSpent_self (hk : k / 2 = K) : ¬ BelowSpent unspent n (H + 1) K H k := by
  intro ⟨_, ⟨_, hvisit⟩, _⟩
  omega

theorem spentSoFar_child (hin : Inside n H k) :
    SpentSoFar unspent n (H + 1) K H k ↔ SpentBlock unspent H k := by
  unfold SpentSoFar Visited
  constructor
  · intro h
    exact h.2.2
  · intro hspent
    exact ⟨hin, by omega, hspent⟩

theorem marks_level :
    (SpentSoFar unspent n (H + 1) 0 h k ↔ SpentSoFar unspent n H (n / 2 ^ H) h k) ∧
      (BelowSpent unspent n (H + 1) 0 h k ↔ BelowSpent unspent n H (n / 2 ^ H) h k) := by
  unfold SpentSoFar BelowSpent
  refine ⟨and_congr_right fun hin => ?_, and_congr_right fun hin => ?_⟩
  · rw [visited_level hin]
  · rw [visited_level hin]

/-- both bits tested at a visit are set exactly for a spent block -/
theorem children_test {b : BitSet} (hin : Inside n (H + 1) K)
    (htest : ∀ k, k / 2 = K → (BitSet.test b (node H k) = true ↔ SpentSoFar unspent n (H + 1) K H
      k)) :
    (BitSet.test b (node (H + 1) K - 1) && BitSet.test b (node (H + 1) K - 2 ^ (H + 1))) = true ↔
      SpentBlock unspent (H + 1) K := by
  obtain ⟨hleft, hright⟩ := inside_children hin
  rw [Bool.and_eq_true, node_succ_sub_one, node_succ_sub_pow, htest _ (by omega), htest _ (by omega),
    spentSoFar_child hright, spentSoFar_child hleft, spentBlock_succ, and_comm]

/-- **A visit of `CalcPrunedParents`.** -/
theorem prunedVisit_marks {ret : BitSet} (hH : 1 ≤ H) (hin : Inside n H K)
    (hret : PrunedMarks unspent n H K ret) :
    ∃ ret', prunedVisit ret H (node H K) = some ret' ∧ PrunedMarks unspent n H (K + 1) ret' := by
  obtain ⟨H, rfl⟩ : ∃ H', H = H' + 1 := ⟨H - 1, by omega⟩
  obtain ⟨hinLeft, hinRight⟩ := inside_children hin
  have hcond := children_test hin (b := ret) fun k hk => by
    rw [hret.test_iff, and_iff_left (not_belowSpent_self hk)]
  by_cases hspent : SpentBlock unspent (H + 1) K
  · have hlen := hret.length_eq
    obtain ⟨b₁, hset₁, hlen₁, htest₁⟩ := BitSet.set_eq_some (b := ret)
      (by rw [hlen]; exact node_lt_size hinRight) false
    obtain ⟨b₂, hset₂, hlen₂, htest₂⟩ := BitSet.set_eq_some (b := b₁)
      (by rw [hlen₁, hlen]; exact node_lt_size hinLeft) false
    obtain ⟨b₃, hset₃, hlen₃, htest₃⟩ := BitSet.set_eq_some (b := b₂)
      (by rw [hlen₂, hlen₁, hlen]; exact node_lt_size hin) true
    refine ⟨b₃, ?_, by rw [hlen₃, hlen₂, hlen₁, hlen], ?_⟩
    · unfold prunedVisit
      dsimp only
      rw [if_pos (hcond.mpr hspent), node_succ_sub_one, node_succ_sub_pow, hset₁]
      show BitSet.set b₁ _ false >>= _ = _
      rw [hset₂]
      exact hset₃
    · intro h k
      rw [htest₃, htest₂, htest₁, spentSoFar_succ hH hin, belowSpent_succ hin]
      by_cases hself : h = H + 1 ∧ k = K
      · obtain ⟨rfl, rfl⟩ := hself
        have hnot : ¬ BelowSpent unspent n (H + 1) k (H + 1) k := by
          intro ⟨_, ⟨_, hvisit⟩, _⟩
          omega
        simp [hspent, hnot]
      · have hne : node h k ≠ node (H + 1) K := fun heq => hself (node_inj heq)
        rw [if_neg hne]
        by_cases hchild : h = H ∧ k / 2 = K
        · obtain ⟨rfl, hk⟩ := hchild
          have hcases : k = 2 * K ∨ k = 2 * K + 1 := by omega
          rcases hcases with rfl | rfl
          · simp [hspent, hk]
          · have hne' : node h (2 * K + 1) ≠ node h (2 * K) := fun heq => by
              have := (node_inj heq).2
              omega
            simp [hspent, hk, hne']
        · have hleft : node h k ≠ node H (2 * K) := fun heq => by
            obtain ⟨rfl, rfl⟩ := node_inj heq
            exact hchild ⟨rfl, by omega⟩
          have hright : node h k ≠ node H (2 * K + 1) := fun heq => by
            obtain ⟨rfl, rfl⟩ := node_inj heq
            exact hchild ⟨rfl, by omega⟩
          rw [if_neg hleft, if_neg hright, hret.test_iff]
          simp [hself, hchild]
  · refine ⟨ret, ?_, hret.length_eq, ?_⟩
    · unfold prunedVisit
      dsimp only
      rw [if_neg fun h => hspent (hcond.mp h)]
    · intro h k
      rw [hret.test_iff, spentSoFar_succ hH hin, belowSpent_succ hin]
      simp [hspent]

/-- **A visit of `BuildCompactBitSet`.** -/
theorem compactVisit_marks {marks : BitSet × BitSet} (hH : 1 ≤ H) (hin : Inside n H K)
    (hmarks : CompactMarks unspent n H K marks) :
    ∃ marks', compactVisit marks H (node H K) = some marks' ∧
      CompactMarks unspent n H (K + 1) marks' := by
  obtain ⟨H, rfl⟩ : ∃ H', H = H' + 1 := ⟨H - 1, by omega⟩
  obtain ⟨hinLeft, hinRight⟩ := inside_children hin
  obtain ⟨compactable, prunable⟩ := marks
  have hlen : compactable.length = n * 2 := hmarks.length_compactable
  have hlen' : prunable.length = n * 2 := hmarks.length_prunable
  have hcond := children_test hin (b := prunable) fun k _ => hmarks.prunable_iff H k
  by_cases hspent : SpentBlock unspent (H + 1) K
  · obtain ⟨b₁, hset₁, hlen₁, htest₁⟩ := BitSet.set_eq_some (b := compactable)
      (by rw [hlen]; exact node_lt_size hinRight) true
    obtain ⟨b₂, hset₂, hlen₂, htest₂⟩ := BitSet.set_eq_some (b := b₁)
      (by rw [hlen₁, hlen]; exact node_lt_size hinLeft) true
    obtain ⟨b₃, hset₃, hlen₃, htest₃⟩ := BitSet.set_eq_some (b := prunable)
      (by rw [hlen']; exact node_lt_size hin) true
    refine ⟨(b₂, b₃), ?_, by rw [hlen₂, hlen₁, hlen], by rw [hlen₃, hlen'], ?_, ?_⟩
    · unfold compactVisit
      dsimp only
      rw [if_pos (hcond.mpr hspent), node_succ_sub_one, node_succ_sub_pow, hset₁]
      show BitSet.set b₁ _ true >>= _ = _
      rw [hset₂]
      show BitSet.set prunable _ true >>= _ = _
      rw [hset₃]
      rfl
    · intro h k
      rw [htest₂, htest₁, belowSpent_succ hin, ← hmarks.compactable_iff]
      by_cases hchild : h = H ∧ k / 2 = K
      · obtain ⟨rfl, hk⟩ := hchild
        have hcases : k = 2 * K ∨ k = 2 * K + 1 := by omega
        rcases hcases with rfl | rfl
        · simp [hspent, hk]
        · simp [hspent, hk]
      · have hleft : node h k ≠ node H (2 * K) := fun heq => by
          obtain ⟨rfl, rfl⟩ := node_inj heq
          exact hchild ⟨rfl, by omega⟩
        have hright : node h k ≠ node H (2 * K + 1) := fun heq => by
          obtain ⟨rfl, rfl⟩ := node_inj heq
          exact hchild ⟨rfl, by omega⟩
        rw [if_neg hleft, if_neg hright]
        simp [hchild]
    · intro h k
      rw [htest₃, spentSoFar_succ hH hin, ← hmarks.prunable_iff]
      by_cases hself : h = H + 1 ∧ k = K
      · obtain ⟨rfl, rfl⟩ := hself
        simp [hspent]
      · rw [if_neg fun heq => hself (node_inj heq)]
        simp [hself]
  · refine ⟨(compactable, prunable), ?_, hlen, hlen', ?_, ?_⟩
    · unfold compactVisit
      dsimp only
      rw [if_neg fun h => hspent (hcond.mp h)]
    · intro h k
      rw [belowSpent_succ hin, hmarks.compactable_iff]
      simp [hspent]
    · intro h k
      rw [spentSoFar_succ hH hin, hmarks.prunable_iff]
      simp [hspent]

/-! ## the whole walks -/

theorem spentSoFar_start :
    SpentSoFar unspent n 1 0 h k ↔ Inside n h k ∧ h = 0 ∧ SpentBlock unspent 0 k := by
  unfold SpentSoFar Visited
  constructor
  · intro ⟨hin, hvisit, hspent⟩
    obtain rfl : h = 0 := by omega
    exact ⟨hin, rfl, hspent⟩
  · intro ⟨hin, hh, hspent⟩
    subst hh
    exact ⟨hin, .inl rfl, hspent⟩

theorem not_belowSpent_start : ¬ BelowSpent unspent n 1 0 h k := by
  intro ⟨_, ⟨_, hvisit⟩, _⟩
  omega

theorem marks_end (hn : n < 2 ^ H) :
    (SpentSoFar unspent n H 0 h k ↔ Inside n h k ∧ SpentBlock unspent h k) ∧
      (BelowSpent unspent n H 0 h k ↔
        Inside n (h + 1) (k / 2) ∧ SpentBlock unspent (h + 1) (k / 2)) := by
  unfold SpentSoFar BelowSpent
  refine ⟨and_congr_right fun hin => ?_, and_congr_right fun hin => ?_⟩
  · rw [visited_end hn hin]
    exact and_iff_right (Nat.eq_zero_or_pos h)
  · rw [visited_end hn hin]
    exact and_iff_right (Nat.le_add_left 1 h)

/-- **`CalcPrunedParents`, by blocks.** -/
theorem calcPrunedParents_eq (unspent : BitSet) : ∃ ret, calcPrunedParents unspent = some ret ∧
    ∀ h k, BitSet.test ret (node h k) = true ↔
      (Inside unspent.length h k ∧ SpentBlock unspent h k) ∧
        ¬ (Inside unspent.length (h + 1) (k / 2) ∧ SpentBlock unspent (h + 1) (k / 2)) := by
  obtain ⟨b, hb, hlen, htest⟩ := markLeaves_eq unspent.length fun i => !BitSet.test unspent i
  have hstart : PrunedMarks unspent unspent.length 1 0 b := by
    refine ⟨hlen, ?_⟩
    intro h k
    rw [htest, spentSoFar_start, spentBlock_zero, and_iff_left not_belowSpent_start]
    simp
  obtain ⟨ret, H, hrun, _, hn, hret⟩ := forEachNode_induction
    (PrunedMarks unspent unspent.length)
    (fun h k hh => node_le_position_iff hh) (fun h k s => prunedVisit_marks) (by
      intro h s _ hs
      refine ⟨hs.length_eq, ?_⟩
      intro h' k'
      rw [hs.test_iff, marks_level.1, marks_level.2]) hstart
  refine ⟨ret, ?_, ?_⟩
  · rw [calcPrunedParents, hb]
    exact hrun
  · intro h k
    rw [hret.test_iff, (marks_end hn).1, (marks_end hn).2]

/-- **`BuildCompactBitSet`, by blocks.** -/
theorem buildCompactBitSet_eq (unspent : BitSet) :
    ∃ compactable, buildCompactBitSet unspent.length unspent = some compactable ∧
      ∀ h k, BitSet.test compactable (node h k) = true ↔
        Inside unspent.length (h + 1) (k / 2) ∧ SpentBlock unspent (h + 1) (k / 2) := by
  obtain ⟨b, hb, hlen, htest⟩ := markLeaves_eq unspent.length
    fun i => decide (unspent.length > i) && !BitSet.test unspent i
  have hstart : CompactMarks unspent unspent.length 1 0
      (BitSet.ofSize (unspent.length * 2), b) := by
    refine ⟨List.length_replicate, hlen, ?_, ?_⟩
    · intro h k
      rw [BitSet.test_ofSize, iff_false_right not_belowSpent_start]
      simp
    · intro h k
      rw [htest, spentSoFar_start, spentBlock_zero]
      refine and_congr_right fun hin => and_congr_right fun hh => ?_
      subst hh
      rw [Inside, pow_zero, Nat.mul_one] at hin
      simp [Nat.lt_of_succ_le hin]
  have hlast : ∀ h k, 1 ≤ h →
      (node h k ≤ position unspent.length - 1 ↔ Inside unspent.length h k) := by
    intro h k hh
    have hpos : 0 < node h k := by
      unfold node
      omega
    rw [← node_lt_position_iff]
    omega
  obtain ⟨⟨compactable, prunable⟩, H, hrun, _, hn, hmarks⟩ := forEachNode_induction
    (CompactMarks unspent unspent.length) hlast (fun h k s => compactVisit_marks) (by
      intro h s _ hs
      refine ⟨hs.length_compactable, hs.length_prunable, ?_, ?_⟩
      · intro h' k'
        rw [hs.compactable_iff, marks_level.2]
      · intro h' k'
        rw [hs.prunable_iff, marks_level.1]) hstart
  refine ⟨compactable, ?_, ?_⟩
  · rw [buildCompactBitSet, hb]
    show forEachNode _ _ _ _ >>= _ = _
    rw [hrun]
    rfl
  · intro h k
    rw [hmarks.compactable_iff, (marks_end hn).2]

/-! ## tops of spent subtrees -/

/-- the block of height `h` around a leaf is a spent subtree of the range -/
def SpentAround (unspent : BitSet) (n i h : Nat) : Prop :=
  Inside n h (i / 2 ^ h) ∧ SpentBlock unspent h (i / 2 ^ h)

theorem SpentAround.of_succ {i : Nat} (hspent : SpentAround unspent n i (h + 1)) :
    SpentAround unspent n i h := by
  obtain ⟨hin, hblock⟩ := hspent
  obtain ⟨hleft, hright⟩ := inside_children hin
  obtain ⟨hspentLeft, hspentRight⟩ := spentBlock_succ.mp hblock
  have hhalf := div_pow_succ i h
  rcases Nat.mod_two_eq_zero_or_one (i / 2 ^ h) with heven | hodd
  · rw [show 2 * (i / 2 ^ (h + 1)) = i / 2 ^ h by omega] at hleft hspentLeft
    exact ⟨hleft, hspentLeft⟩
  · rw [show 2 * (i / 2 ^ (h + 1)) + 1 = i / 2 ^ h by omega] at hright hspentRight
    exact ⟨hright, hspentRight⟩

theorem SpentAround.of_le {i h' : Nat} (hspent : SpentAround unspent n i h') (hle : h ≤ h') :
    SpentAround unspent n i h := by
  induction h', hle using Nat.le_induction with
  | base => exact hspent
  | succ h' _ ih => exact ih hspent.of_succ

/-- a spent leaf lies under exactly one top -/
theorem existsUnique_top {i : Nat} (hi : i < n) (hspent : BitSet.test unspent i = false) :
    ∃! h, SpentAround unspent n i h ∧ ¬ SpentAround unspent n i (h + 1) := by
  have hleaf : SpentAround unspent n i 0 := by
    refine ⟨?_, spentBlock_zero.mpr ?_⟩
    · rw [Inside, pow_zero, Nat.div_one, Nat.mul_one]
      exact hi
    · rw [pow_zero, Nat.div_one]
      exact hspent
  have hex : ∃ h, ¬ SpentAround unspent n i (h + 1) := by
    refine ⟨n, ?_⟩
    intro ⟨hin, _⟩
    have hpow : 2 ^ (n + 1) ≤ (i / 2 ^ (n + 1) + 1) * 2 ^ (n + 1) :=
      Nat.le_mul_of_pos_left _ (Nat.succ_pos _)
    have := Nat.lt_two_pow_self (n := n + 1)
    unfold Inside at hin
    omega
  classical
  refine ⟨Nat.find hex, ⟨?_, Nat.find_spec hex⟩, ?_⟩
  · cases hfind : Nat.find hex with
    | zero => exact hleaf
    | succ h => exact not_not.mp (Nat.find_min hex (by omega : h < Nat.find hex))
  · intro h ⟨hin, hnot⟩
    apply le_antisymm
    · by_contra hcon
      exact Nat.find_spec hex (hin.of_le (by omega))
    · exact Nat.find_min' hex hnot

def AllSpent (unspent : BitSet) (p : Nat) : Prop :=
  ∀ i ∈ leavesUnder p, BitSet.test unspent i = false

theorem allSpent_node : AllSpent unspent (node h k) ↔ SpentBlock unspent h k := by
  unfold AllSpent SpentBlock
  simp only [mem_leavesUnder_node]

end

/-- **Pruning.**  `BuildCompactBitSet` marks the nodes whose parent has only spent leaves;
`CalcPrunedParents` marks the tops of spent subtrees, and every spent leaf is under exactly one;
`SiblingIter` runs through the places of its height in order. -/
theorem pruning_bit_sets (unspent : BitSet) :
    (∃ compactable, buildCompactBitSet unspent.length unspent = some compactable ∧
      ∀ p, BitSet.test compactable p = true ↔
        parentOf p < position unspent.length ∧ AllSpent unspent (parentOf p)) ∧
    (∃ pruned, calcPrunedParents unspent = some pruned ∧
      (∀ p, BitSet.test pruned p = true ↔ p < position unspent.length ∧ AllSpent unspent p ∧
        (position unspent.length ≤ parentOf p ∨ ¬ AllSpent unspent (parentOf p))) ∧
      (∀ i < unspent.length,
        (BitSet.test unspent i = true ∧ ∀ p, BitSet.test pruned p = true → i ∉ leavesUnder p) ∨
        (BitSet.test unspent i = false ∧
          ∃! p, BitSet.test pruned p = true ∧ i ∈ leavesUnder p))) ∧
    ∀ height lastNode, ∃ ps, siblings height lastNode = some ps ∧ ps.Pairwise (· < ·) ∧
      ∀ p, p ∈ ps ↔ p ≤ lastNode ∧ heightAt p = height := by
  refine ⟨?_, ?_, ?_⟩
  · obtain ⟨compactable, hrun, htest⟩ := buildCompactBitSet_eq unspent
    refine ⟨compactable, hrun, ?_⟩
    intro p
    obtain ⟨k, hp⟩ := exists_node p
    rw [hp, htest, parentOf_node, allSpent_node, node_lt_position_iff]
  · obtain ⟨pruned, hrun, htest⟩ := calcPrunedParents_eq unspent
    refine ⟨pruned, hrun, ?_, ?_⟩
    · intro p
      obtain ⟨k, hp⟩ := exists_node p
      have houtside : position unspent.length ≤ node (heightAt p + 1) (k / 2) ↔
          ¬ Inside unspent.length (heightAt p + 1) (k / 2) := by
        rw [← node_lt_position_iff, Nat.not_lt]
      rw [hp, htest, parentOf_node, allSpent_node, allSpent_node, node_lt_position_iff, and_assoc,
        not_and_or, houtside]
    · intro i hi
      cases hbit : BitSet.test unspent i with
      | true =>
        refine .inl ⟨rfl, ?_⟩
        intro p hp hmem
        obtain ⟨k, hk⟩ := exists_node p
        rw [hk] at hp hmem
        have hspent := ((htest _ _).mp hp).1.2 i (mem_leavesUnder_node.mp hmem)
        rw [hbit] at hspent
        cases hspent
      | false =>
        refine .inr ⟨rfl, ?_⟩
        obtain ⟨h, ⟨hin, hnot⟩, hunique⟩ := existsUnique_top hi hbit
        have hmark : ∀ h, BitSet.test pruned (node h (i / 2 ^ h)) = true ↔
            SpentAround unspent unspent.length i h ∧
              ¬ SpentAround unspent unspent.length i (h + 1) := by
          intro h
          rw [htest, ← div_pow_succ]
          rfl
        refine ⟨node h (i / 2 ^ h), ⟨(hmark h).mpr ⟨hin, hnot⟩, mem_leavesUnder_node.mpr rfl⟩, ?_⟩
        intro p ⟨hp, hmem⟩
        obtain ⟨k, hk⟩ := exists_node p
        rw [hk] at hp hmem
        rw [← mem_leavesUnder_node.mp hmem] at hp hk
        rw [hk, hunique _ ((hmark _).mp hp)]
  · intro height lastNode
    obtain ⟨m, hrun, hcount⟩ := siblings_eq height lastNode
    refine ⟨_, hrun, ?_, ?_⟩
    · rw [List.pairwise_map]
      exact List.pairwise_lt_range.imp fun hlt => node_strictMono height hlt
    · intro p
      rw [List.mem_map]
      constructor
      · rintro ⟨k, hk, rfl⟩
        exact ⟨(hcount k).mp (List.mem_range.mp hk), heightAt_node height k⟩
      · rintro ⟨hle, rfl⟩
        obtain ⟨k, hk⟩ := exists_node p
        rw [hk] at hle
        exact ⟨k, List.mem_range.mpr ((hcount k).mpr hle), hk.symm⟩

example : calcPrunedParents [false, false, true] = some [false, false, true, false, false, false] := by
  decide

end Mw
