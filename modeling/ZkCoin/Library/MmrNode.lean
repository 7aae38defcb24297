import Mathlib.Algebra.Order.Ring.Nat
import Mathlib.Tactic.Ring
import ZkCoin.Library.MmrIndex

/-!
# The nodes of a mountain range

Every place of a mountain range is the node of some height over an aligned block of leaves:
`node h k` stands over the `2 ^ h` leaves from `k * 2 ^ h` on.  Heights, children, parents and siblings
of places become arithmetic on `h` and `k`.

* `node`, `exists_node`, `node_inj` — the places and their coordinates.
* `node_lt_position_iff`            — which nodes a range with `n` leaves has.
* `node_succ_left`, `node_succ_right` — children.
* `parentOf_node`, `siblingOf_node` — parents and siblings, found from the height of the next place.
* `node_add_one`                    — the next node of one height.
* `leavesUnder_node`                — the leaves under a place.
-/

namespace Mmr

/-! ## trailing zeros -/

def countRightmostZerosFrom : Nat → Nat → Nat
  | 0, _ => 0
  | fuel + 1, n => if n % 2 = 0 then countRightmostZerosFrom fuel (n / 2) + 1 else 0

/-- the number of zeros at the end of a number that is not zero itself -/
def countRightmostZeros (n : Nat) : Nat := countRightmostZerosFrom n n

theorem pow_dvd_iff_le_rightmostZerosFrom {fuel n v : Nat} (hn : 0 < n) (hfuel : n ≤ fuel) :
    2 ^ v ∣ n ↔ v ≤ countRightmostZerosFrom fuel n := by
  induction fuel generalizing n v with
  | zero => omega
  | succ fuel ih =>
    unfold countRightmostZerosFrom
    cases v with
    | zero => simp
    | succ v =>
      by_cases heven : n % 2 = 0
      · have hhalf : n = n / 2 * 2 := by omega
        have hdvd : 2 ^ (v + 1) ∣ n ↔ 2 ^ v ∣ n / 2 := by
          nth_rewrite 1 [hhalf]
          rw [pow_succ]
          exact Nat.mul_dvd_mul_iff_right (by omega)
        rw [if_pos heven, hdvd, ih (by omega) (by omega)]
        omega
      · rw [if_neg heven]
        constructor
        · intro hdvd
          have htwo : 2 ∣ n := (Dvd.intro_left (2 ^ v) rfl).trans hdvd
          omega
        · intro hle
          omega

theorem pow_dvd_iff_le_rightmostZeros {n v : Nat} (hn : 0 < n) :
    2 ^ v ∣ n ↔ v ≤ countRightmostZeros n :=
  pow_dvd_iff_le_rightmostZerosFrom hn le_rfl

theorem position_succ (i : Nat) : position (i + 1) = position i + countRightmostZeros (i + 1) + 1 := by
  have hpos : 0 < i + 1 := Nat.succ_pos i
  have hlow := lt_position_of_pow_dvd ((pow_dvd_iff_le_rightmostZeros hpos).mpr le_rfl)
  have hhigh : ¬ position i + (countRightmostZeros (i + 1) + 1) < position (i + 1) := by
    intro hlt
    have hle := (pow_dvd_iff_le_rightmostZeros hpos).mp (pow_dvd_of_lt_position hlt)
    omega
  omega

theorem rightmostZeros_mul_pow {n h : Nat} (hn : 0 < n) :
    countRightmostZeros (n * 2 ^ h) = countRightmostZeros n + h := by
  have hpow : 0 < 2 ^ h := Nat.two_pow_pos h
  have hpos : 0 < n * 2 ^ h := Nat.mul_pos hn hpow
  apply le_antisymm
  · have hdvd := (pow_dvd_iff_le_rightmostZeros hpos).mpr le_rfl
    rcases Nat.lt_or_ge (countRightmostZeros (n * 2 ^ h)) h with hlt | hge
    · omega
    · obtain ⟨v, hv⟩ : ∃ v, countRightmostZeros (n * 2 ^ h) = v + h :=
        ⟨countRightmostZeros (n * 2 ^ h) - h, by omega⟩
      rw [hv, pow_add] at hdvd
      have := (pow_dvd_iff_le_rightmostZeros hn).mp ((Nat.mul_dvd_mul_iff_right hpow).mp hdvd)
      omega
  · apply (pow_dvd_iff_le_rightmostZeros hpos).mp
    rw [pow_add]
    exact Nat.mul_dvd_mul_right ((pow_dvd_iff_le_rightmostZeros hn).mpr le_rfl) _

/-! ## nodes -/

/-- the node of height `h` over the leaves from `k * 2 ^ h` on -/
def node (h k : Nat) : Nat := position ((k + 1) * 2 ^ h - 1) + h

theorem lastLeaf_succ (h k : Nat) : (k + 1) * 2 ^ h - 1 + 1 = (k + 1) * 2 ^ h :=
  Nat.sub_add_cancel (Nat.mul_pos k.succ_pos (Nat.two_pow_pos h))

@[simp] theorem node_zero (k : Nat) : node 0 k = position k := by
  unfold node
  rw [pow_zero, Nat.mul_one, Nat.add_sub_cancel, Nat.add_zero]

theorem node_lt_position (h k : Nat) : node h k < position ((k + 1) * 2 ^ h) := by
  have hdvd : 2 ^ h ∣ (k + 1) * 2 ^ h - 1 + 1 := by
    rw [lastLeaf_succ]
    exact Nat.dvd_mul_left _ _
  have hlt := lt_position_of_pow_dvd hdvd
  rwa [lastLeaf_succ] at hlt

theorem position_le_node (h k : Nat) : position ((k + 1) * 2 ^ h - 1) ≤ node h k :=
  Nat.le_add_right _ _

@[simp] theorem heightAt_node (h k : Nat) : heightAt (node h k) = h := by
  have hlt := node_lt_position h k
  rw [← lastLeaf_succ] at hlt
  rw [heightAt_eq (position_le_node h k) hlt, node]
  omega

/-- a range with `n` leaves has all leaves of block `k` of height `h` -/
def Inside (n h k : Nat) : Prop := (k + 1) * 2 ^ h ≤ n

theorem node_lt_position_iff {h k n : Nat} : node h k < position n ↔ Inside n h k := by
  unfold Inside
  constructor
  · intro hlt
    by_contra hcon
    have hle : n ≤ (k + 1) * 2 ^ h - 1 := by omega
    have hmono := position_strictMono.monotone hle
    have := position_le_node h k
    omega
  · intro hle
    exact (node_lt_position h k).trans_le (position_strictMono.monotone hle)

theorem node_strictMono (h : Nat) : StrictMono (node h) := by
  intro k k' hk
  have hle : (k + 1) * 2 ^ h ≤ k' * 2 ^ h := Nat.mul_le_mul_right _ hk
  have hlast : k' * 2 ^ h ≤ (k' + 1) * 2 ^ h - 1 := by
    have := Nat.two_pow_pos h
    rw [Nat.succ_mul]
    omega
  exact (node_lt_position h k).trans_le
    ((position_strictMono.monotone (hle.trans hlast)).trans (position_le_node h k'))

theorem le_node (h k : Nat) : k ≤ node h k := by
  have hle : k + 1 ≤ (k + 1) * 2 ^ h := Nat.le_mul_of_pos_right _ (Nat.two_pow_pos h)
  have := le_position ((k + 1) * 2 ^ h - 1)
  have := position_le_node h k
  omega

theorem node_inj {h k h' k' : Nat} (heq : node h k = node h' k') : h = h' ∧ k = k' := by
  have hheight := congrArg heightAt heq
  rw [heightAt_node, heightAt_node] at hheight
  subst hheight
  exact ⟨rfl, (node_strictMono h).injective heq⟩

theorem exists_node (p : Nat) : ∃ k, p = node (heightAt p) k := by
  obtain ⟨i, _, hlo, hhi⟩ := exists_position_le (p := p) (n := p + 1)
    ((Nat.lt_succ_self p).trans_le (le_position _))
  have hheight := heightAt_eq hlo hhi
  have hdvd : 2 ^ heightAt p ∣ i + 1 := by
    apply pow_dvd_of_lt_position
    rw [hheight]
    omega
  obtain ⟨m, hm⟩ := hdvd
  have hmpos : 0 < m := by
    rcases Nat.eq_zero_or_pos m with rfl | hpos
    · omega
    · exact hpos
  refine ⟨m - 1, ?_⟩
  unfold node
  rw [Nat.sub_add_cancel hmpos, Nat.mul_comm, ← hm, Nat.add_sub_cancel]
  omega

theorem node_add_two (h k : Nat) : node h k + 2 = position (k * 2 ^ h) + 2 ^ (h + 1) := by
  have hblock := position_block (m := h) (a := k * 2 ^ h) (Nat.dvd_mul_left _ _)
  have hlast : (k + 1) * 2 ^ h - 1 = k * 2 ^ h + (2 ^ h - 1) := by
    have := Nat.two_pow_pos h
    rw [Nat.succ_mul]
    omega
  unfold node
  rw [hlast]
  exact hblock

theorem node_succ_left (h k : Nat) : node (h + 1) k = node h (2 * k) + 2 ^ (h + 1) := by
  have hparent := node_add_two (h + 1) k
  have hchild := node_add_two h (2 * k)
  rw [show 2 * k * 2 ^ h = k * 2 ^ (h + 1) by ring] at hchild
  have hpow : 2 ^ (h + 1 + 1) = 2 ^ (h + 1) + 2 ^ (h + 1) := by ring
  omega

theorem node_succ_right (h k : Nat) : node (h + 1) k = node h (2 * k + 1) + 1 := by
  unfold node
  rw [show (2 * k + 1 + 1) * 2 ^ h = (k + 1) * 2 ^ (h + 1) by ring]
  rfl

theorem node_succ_sub_one (h k : Nat) : node (h + 1) k - 1 = node h (2 * k + 1) := by
  rw [node_succ_right, Nat.add_sub_cancel]

theorem node_succ_sub_pow (h k : Nat) : node (h + 1) k - 2 ^ (h + 1) = node h (2 * k) := by
  rw [node_succ_left, Nat.add_sub_cancel]

theorem node_add_one (h k : Nat) :
    node h (k + 1) = node h k + (2 ^ (h + 1) - 1 + countRightmostZeros (k + 1)) := by
  have hnext := node_add_two h (k + 1)
  have hposition := position_succ ((k + 1) * 2 ^ h - 1)
  rw [lastLeaf_succ, rightmostZeros_mul_pow (n := k + 1) (by omega)] at hposition
  have hpow : 2 ≤ 2 ^ (h + 1) := by
    rw [pow_succ]
    have := Nat.two_pow_pos h
    omega
  unfold node at hnext ⊢
  omega

/-! ## blocks -/

theorem div_pow_succ (i h : Nat) : i / 2 ^ (h + 1) = i / 2 ^ h / 2 := by
  rw [pow_succ, Nat.div_div_eq_div_mul]

theorem inside_iff_lt {n h k : Nat} : Inside n h k ↔ k < n / 2 ^ h :=
  (Nat.le_div_iff_mul_le (Nat.two_pow_pos h)).symm

theorem inside_children {n h k : Nat} (hin : Inside n (h + 1) k) :
    Inside n h (2 * k) ∧ Inside n h (2 * k + 1) := by
  unfold Inside at hin ⊢
  have hpow : (k + 1) * 2 ^ (h + 1) = (2 * k + 1 + 1) * 2 ^ h := by ring
  have hle : (2 * k + 1) * 2 ^ h ≤ (2 * k + 1 + 1) * 2 ^ h := Nat.mul_le_mul_right _ (by omega)
  omega

/-! ## parents and siblings -/

/-- the parent of a place; a right child is followed by its parent -/
def parentOf (p : Nat) : Nat :=
  if heightAt (p + 1) = heightAt p + 1 then p + 1 else p + 2 ^ (heightAt p + 1)

def siblingOf (p : Nat) : Nat :=
  if heightAt (p + 1) = heightAt p + 1 then p + 1 - 2 ^ (heightAt p + 1)
  else p + 2 ^ (heightAt p + 1) - 1

theorem heightAt_succ_iff (h k : Nat) : heightAt (node h k + 1) = h + 1 ↔ k % 2 = 1 := by
  constructor
  · intro hheight
    obtain ⟨j, hj⟩ := exists_node (node h k + 1)
    rw [hheight, node_succ_right] at hj
    have := (node_inj (Nat.add_right_cancel hj)).2
    omega
  · intro hodd
    obtain ⟨j, rfl⟩ : ∃ j, k = 2 * j + 1 := ⟨k / 2, by omega⟩
    rw [← node_succ_right, heightAt_node]

theorem parentOf_node (h k : Nat) : parentOf (node h k) = node (h + 1) (k / 2) := by
  unfold parentOf
  rw [heightAt_node]
  by_cases hodd : k % 2 = 1
  · rw [if_pos ((heightAt_succ_iff h k).mpr hodd), node_succ_right,
      show 2 * (k / 2) + 1 = k by omega]
  · rw [if_neg fun hheight => hodd ((heightAt_succ_iff h k).mp hheight), node_succ_left,
      show 2 * (k / 2) = k by omega]

theorem siblingOf_left (h k : Nat) : siblingOf (node h (2 * k)) = node h (2 * k + 1) := by
  have heven : ¬ heightAt (node h (2 * k) + 1) = h + 1 := by
    intro hheight
    have := (heightAt_succ_iff h (2 * k)).mp hheight
    omega
  have hleft := node_succ_left h k
  have hright := node_succ_right h k
  unfold siblingOf
  rw [heightAt_node, if_neg heven]
  omega

theorem siblingOf_right (h k : Nat) : siblingOf (node h (2 * k + 1)) = node h (2 * k) := by
  have hodd := (heightAt_succ_iff h (2 * k + 1)).mpr (by omega)
  have hleft := node_succ_left h k
  have hright := node_succ_right h k
  unfold siblingOf
  rw [heightAt_node, if_pos hodd]
  omega

/-! ## leaves -/

def leavesUnder (p : Nat) : List Nat :=
  List.range' (leafIndexAt (p - heightAt p) + 1 - 2 ^ heightAt p) (2 ^ heightAt p)

theorem leavesUnder_node (h k : Nat) : leavesUnder (node h k) = List.range' (k * 2 ^ h) (2 ^ h) := by
  have hfirst : (k + 1) * 2 ^ h - 2 ^ h = k * 2 ^ h := by
    rw [Nat.succ_mul, Nat.add_sub_cancel]
  unfold leavesUnder
  rw [heightAt_node, node, Nat.add_sub_cancel, leafIndexAt_position, lastLeaf_succ, hfirst]

theorem mem_leavesUnder_node {h k i : Nat} : i ∈ leavesUnder (node h k) ↔ i / 2 ^ h = k := by
  rw [leavesUnder_node, List.mem_range'_1, Nat.div_eq_iff (Nat.two_pow_pos h)]
  have := Nat.two_pow_pos h
  rw [Nat.mul_comm]
  omega

end Mmr
