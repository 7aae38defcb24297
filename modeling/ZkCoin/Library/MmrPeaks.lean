import ZkCoin.Library.Mmr
import ZkCoin.Library.MmrNode

/-!
# The peaks of a mountain range

A peak is a node of the range whose parent is not.  The list of peaks goes through the blocks of the
leaves from the left, the largest first, and every leaf stands under one of them.

* `blockStart_le`, `blockEnd_le` — the blocks over one leaf are nested.
* `IsPeak`                  — a node inside the range with its parent outside.
* `isPeak_of_mem`           — the list has only peaks.
* `calcPeakIndices_sorted`  — it goes from left to right.
* `calcPeakIndices_split`   — the list before, at and behind the peak over a leaf.
-/

namespace Mmr

def IsPeak (n h k : Nat) : Prop := Inside n h k ∧ ¬ Inside n (h + 1) (k / 2)

theorem IsPeak.height_le {n m k : Nat} (h : IsPeak n m k) : m ≤ position n := by
  have hpow := Nat.lt_two_pow_self (n := m)
  have hle : 2 ^ m ≤ (k + 1) * 2 ^ m := Nat.le_mul_of_pos_left _ k.succ_pos
  have hin : (k + 1) * 2 ^ m ≤ n := h.1
  have := le_position n
  omega

theorem position_le_node_first (h k : Nat) : position (k * 2 ^ h) ≤ node h k := by
  have hle : k * 2 ^ h ≤ (k + 1) * 2 ^ h - 1 := by
    have := Nat.two_pow_pos h
    rw [Nat.succ_mul]
    omega
  exact (position_strictMono.monotone hle).trans (position_le_node h k)

/-! ## the blocks over a leaf -/

theorem blockStart_le {i h m : Nat} (hm : h ≤ m) : i / 2 ^ m * 2 ^ m ≤ i / 2 ^ h * 2 ^ h := by
  obtain ⟨d, rfl⟩ := Nat.exists_eq_add_of_le hm
  rw [pow_add, ← Nat.div_div_eq_div_mul, Nat.mul_comm (2 ^ h), ← Nat.mul_assoc]
  exact Nat.mul_le_mul_right _ (Nat.div_mul_le_self _ _)

theorem blockEnd_le {i h m : Nat} (hm : h ≤ m) :
    (i / 2 ^ h + 1) * 2 ^ h ≤ (i / 2 ^ m + 1) * 2 ^ m := by
  obtain ⟨d, rfl⟩ := Nat.exists_eq_add_of_le hm
  rw [pow_add, ← Nat.div_div_eq_div_mul, Nat.mul_comm (2 ^ h), ← Nat.mul_assoc]
  refine Nat.mul_le_mul_right _ ?_
  rw [Nat.succ_mul]
  exact Nat.lt_div_mul_add (Nat.two_pow_pos d)

theorem even_of_mul_pow_eq {x y j m : Nat} (hm : j < m) (heq : x * 2 ^ j = y * 2 ^ m) :
    x % 2 = 0 := by
  obtain ⟨d, rfl⟩ := Nat.exists_eq_add_of_lt hm
  have hx : x = y * 2 ^ d * 2 := by
    apply Nat.eq_of_mul_eq_mul_right (Nat.two_pow_pos j)
    rw [heq]
    ring
  rw [hx, Nat.mul_mod_left]

theorem even_of_blockStart_eq {i h j m : Nat} (hj : h ≤ j) (hm : j < m)
    (hstart : i / 2 ^ h * 2 ^ h = i / 2 ^ m * 2 ^ m) : i / 2 ^ j % 2 = 0 := by
  have hlow := blockStart_le (i := i) hj
  have hhigh := blockStart_le (i := i) hm.le
  exact even_of_mul_pow_eq (y := i / 2 ^ m) hm (by omega)

theorem odd_of_blockEnd_eq {i h j m : Nat} (hj : h ≤ j) (hm : j < m)
    (hend : (i / 2 ^ h + 1) * 2 ^ h = (i / 2 ^ m + 1) * 2 ^ m) : i / 2 ^ j % 2 = 1 := by
  have hlow := blockEnd_le (i := i) hj
  have hhigh := blockEnd_le (i := i) hm.le
  have heven := even_of_mul_pow_eq (x := i / 2 ^ j + 1) (y := i / 2 ^ m + 1) hm (by omega)
  omega

theorem IsPeak.le_of_inside {n m i h : Nat} (hpeak : IsPeak n m (i / 2 ^ m))
    (hin : Inside n h (i / 2 ^ h)) : h ≤ m := by
  by_contra hcon
  refine hpeak.2 ?_
  rw [← div_pow_succ]
  exact (blockEnd_le (by omega)).trans hin

/-! ## the loop, block by block -/

theorem peakIndices_cons {m c r : Nat} (hr : r < 2 ^ m) :
    peakIndices (m + 1) (position (2 ^ m + r)) (position (c * 2 ^ (m + 1))) =
      node m (2 * c) :: peakIndices m (position r) (position ((2 * c + 1) * 2 ^ m)) := by
  have hpow : 2 ≤ 2 ^ (m + 1) := by
    rw [pow_succ]
    have := Nat.two_pow_pos m
    omega
  have hstart : c * 2 ^ (m + 1) = 2 * c * 2 ^ m := by ring
  have hnode := node_add_two m (2 * c)
  have hnext : position ((2 * c + 1) * 2 ^ m) = position (c * 2 ^ (m + 1)) + (2 ^ (m + 1) - 1) := by
    rw [Nat.succ_mul, ← hstart, position_add (m := m + 1) (Nat.dvd_mul_left _ _)
      (by rw [pow_succ]; have := Nat.two_pow_pos m; omega), position_pow]
  rw [hnext, position_pow_add hr, peakIndices, if_pos (by omega), Nat.add_sub_cancel_left]
  congr 1
  rw [hstart]
  omega

theorem peakIndices_skip {m c r : Nat} (hr : r < 2 ^ m) :
    peakIndices (m + 1) (position r) (position (c * 2 ^ (m + 1))) =
      peakIndices m (position r) (position (2 * c * 2 ^ m)) := by
  have hsmall : position r < 2 ^ (m + 1) - 1 := by
    rw [← position_pow]
    exact position_strictMono hr
  rw [peakIndices, if_neg (by omega), show c * 2 ^ (m + 1) = 2 * c * 2 ^ m by ring]

theorem peakIndices_isPeak {m c r p : Nat} (hr : r < 2 ^ m)
    (hp : p ∈ peakIndices m (position r) (position (c * 2 ^ m))) :
    ∃ h k, p = node h k ∧ c * 2 ^ m ≤ k * 2 ^ h ∧ IsPeak (c * 2 ^ m + r) h k := by
  induction m generalizing c r with
  | zero => cases hp
  | succ m ih =>
    have hpow : 2 ^ (m + 1) = 2 ^ m + 2 ^ m := by ring
    have hstart : c * 2 ^ (m + 1) = 2 * c * 2 ^ m := by ring
    rcases Nat.lt_or_ge r (2 ^ m) with hlt | hge
    · rw [peakIndices_skip hlt] at hp
      rw [hstart]
      exact ih hlt hp
    · obtain ⟨r, rfl⟩ : ∃ r', r = 2 ^ m + r' := ⟨r - 2 ^ m, by omega⟩
      have hnext : (2 * c + 1) * 2 ^ m = c * 2 ^ (m + 1) + 2 ^ m := by rw [hstart, Nat.succ_mul]
      rw [peakIndices_cons (by omega), List.mem_cons] at hp
      rcases hp with rfl | hp
      · refine ⟨m, 2 * c, rfl, hstart.le, ?_, ?_⟩
        · unfold Inside
          omega
        · rw [show 2 * c / 2 = c by omega, Inside, Nat.succ_mul]
          omega
      · obtain ⟨h, k, hk, hle, hpeak⟩ := ih (by omega) hp
        rw [hnext, Nat.add_assoc] at hpeak
        exact ⟨h, k, hk, by omega, hpeak⟩

theorem peakIndices_sorted {m c r : Nat} (hr : r < 2 ^ m) :
    (peakIndices m (position r) (position (c * 2 ^ m))).Pairwise (· < ·) := by
  induction m generalizing c r with
  | zero => exact List.Pairwise.nil
  | succ m ih =>
    have hpow : 2 ^ (m + 1) = 2 ^ m + 2 ^ m := by ring
    rcases Nat.lt_or_ge r (2 ^ m) with hlt | hge
    · rw [peakIndices_skip hlt]
      exact ih hlt
    · obtain ⟨r, rfl⟩ : ∃ r', r = 2 ^ m + r' := ⟨r - 2 ^ m, by omega⟩
      rw [peakIndices_cons (by omega), List.pairwise_cons]
      refine ⟨?_, ih (by omega)⟩
      intro p hp
      obtain ⟨h, k, rfl, hle, _⟩ := peakIndices_isPeak (by omega) hp
      exact (node_lt_position m (2 * c)).trans_le
        ((position_strictMono.monotone hle).trans (position_le_node_first h k))

theorem IsPeak.node_add_one {n h k : Nat} (hpeak : IsPeak n h k) :
    node h k + 1 = position ((k + 1) * 2 ^ h) := by
  have heven : k % 2 = 0 := by
    by_contra hodd
    refine hpeak.2 ?_
    have hhalf : k = 2 * (k / 2) + 1 := by omega
    have hsame : (k / 2 + 1) * 2 ^ (h + 1) = (k + 1) * 2 ^ h := by
      nth_rewrite 2 [hhalf]
      ring
    rw [Inside, hsame]
    exact hpeak.1
  have hzeros : countRightmostZeros (k + 1) = 0 := by
    by_contra hne
    have hdvd := (pow_dvd_iff_le_rightmostZeros (n := k + 1) (v := 1) (by omega)).mpr (by omega)
    rw [pow_one] at hdvd
    omega
  have hposition := position_succ ((k + 1) * 2 ^ h - 1)
  rw [lastLeaf_succ, rightmostZeros_mul_pow (n := k + 1) (by omega), hzeros] at hposition
  unfold node
  omega

theorem peakIndices_split {m c r f : Nat} (hr : r < 2 ^ m) (hlo : c * 2 ^ m ≤ f)
    (hhi : f < c * 2 ^ m + r) :
    ∃ before h k behind, peakIndices m (position r) (position (c * 2 ^ m)) =
        before ++ node h k :: behind ∧ f / 2 ^ h = k ∧
      (before.getLast?.map (· + 1)).getD (position (c * 2 ^ m)) = position (k * 2 ^ h) ∧
      ∀ p ∈ before, p < position (k * 2 ^ h) := by
  induction m generalizing c r with
  | zero => omega
  | succ m ih =>
    have hpow : 2 ^ (m + 1) = 2 ^ m + 2 ^ m := by ring
    have hstart : c * 2 ^ (m + 1) = 2 * c * 2 ^ m := by ring
    rcases Nat.lt_or_ge r (2 ^ m) with hlt | hge
    · rw [peakIndices_skip hlt, hstart]
      exact ih hlt (by omega) (by omega)
    · obtain ⟨r, rfl⟩ : ∃ r', r = 2 ^ m + r' := ⟨r - 2 ^ m, by omega⟩
      have hnext : (2 * c + 1) * 2 ^ m = c * 2 ^ (m + 1) + 2 ^ m := by rw [hstart, Nat.succ_mul]
      rw [peakIndices_cons (by omega)]
      rcases Nat.lt_or_ge f ((2 * c + 1) * 2 ^ m) with hfirst | hlater
      · -- the leaf stands under the first peak
        refine ⟨[], m, 2 * c, _, rfl, ?_, congrArg position hstart, ?_⟩
        · exact Nat.div_eq_of_lt_le (by omega) hfirst
        · intro p hp
          cases hp
      · obtain ⟨before, h, k, behind, hsplit, hk, hlast, hbefore⟩ :=
          ih (c := 2 * c + 1) (r := r) (by omega) hlater (by omega)
        refine ⟨node m (2 * c) :: before, h, k, behind, ?_, hk, ?_, ?_⟩
        · rw [hsplit]
          rfl
        · rw [← hlast]
          cases hback : before.getLast? with
          | none =>
            have hpeak : IsPeak ((2 * c + 1) * 2 ^ m) m (2 * c) := by
              refine ⟨le_rfl, ?_⟩
              rw [show 2 * c / 2 = c by omega, Inside, Nat.succ_mul]
              omega
            rw [List.getLast?_eq_none_iff.mp hback]
            exact hpeak.node_add_one
          | some q =>
            rw [List.getLast?_cons, hback]
            rfl
        · intro p hp
          rcases List.mem_cons.mp hp with rfl | hp
          · have hle : position ((2 * c + 1) * 2 ^ m) ≤ position (k * 2 ^ h) := by
              rw [← hlast]
              cases hback : before.getLast? with
              | none => exact le_rfl
              | some q =>
                have hmem : q ∈ peakIndices m (position r) (position ((2 * c + 1) * 2 ^ m)) := by
                  rw [hsplit]
                  exact List.mem_append_left _ (List.mem_of_getLast? hback)
                obtain ⟨h', k', rfl, hle', _⟩ := peakIndices_isPeak (by omega) hmem
                exact ((position_strictMono.monotone hle').trans
                  (position_le_node_first h' k')).trans (Nat.le_succ _)
            exact (node_lt_position m (2 * c)).trans_le hle
          · exact hbefore p hp

/-! ## the peaks of a range -/

theorem lt_two_pow_size (n : Nat) : n < 2 ^ (position n).size :=
  (le_position n).trans_lt (Nat.lt_size_self _)

theorem calcPeakIndices_eq (n : Nat) :
    calcPeakIndices (position n) =
      peakIndices (position n).size (position n) (position (0 * 2 ^ (position n).size)) := by
  rw [Nat.zero_mul]
  rfl

theorem isPeak_of_mem {n p : Nat} (hp : p ∈ calcPeakIndices (position n)) :
    ∃ h k, p = node h k ∧ IsPeak n h k := by
  rw [calcPeakIndices_eq] at hp
  obtain ⟨h, k, hk, _, hpeak⟩ := peakIndices_isPeak (lt_two_pow_size n) hp
  rw [Nat.zero_mul, Nat.zero_add] at hpeak
  exact ⟨h, k, hk, hpeak⟩

theorem calcPeakIndices_sorted (n : Nat) : (calcPeakIndices (position n)).Pairwise (· < ·) := by
  rw [calcPeakIndices_eq]
  exact peakIndices_sorted (lt_two_pow_size n)

/-- **The peak over a leaf.**  The peaks before it end where its block starts. -/
theorem calcPeakIndices_split {n f : Nat} (hf : f < n) :
    ∃ before h k behind, calcPeakIndices (position n) = before ++ node h k :: behind ∧
      f / 2 ^ h = k ∧ (before.getLast?.map (· + 1)).getD 0 = position (k * 2 ^ h) ∧
      ∀ p ∈ before, p < position (k * 2 ^ h) := by
  have hsplit := peakIndices_split (c := 0) (f := f) (lt_two_pow_size n) (by omega) (by omega)
  rw [← calcPeakIndices_eq, Nat.zero_mul, position_zero] at hsplit
  exact hsplit

end Mmr
