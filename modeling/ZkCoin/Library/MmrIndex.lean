import Mathlib.Data.Nat.Size
import Mathlib.Tactic.Ring

/-!
# Positions in a Merkle mountain range

The nodes of a mountain range are numbered in postorder: a leaf, then every parent that it
completes.  Leaf `i` stands at `position i`, and the nodes from there up to `position (i + 1)` are the
parents it completes, with heights `1, 2, …`.

* `position`             — the place of a leaf, `2 i` less the number of set bits of `i`.
* `heightAt`             — the height of the node at a place, peak by peak.
* `heightAt_eq`          — heights between two leaves.
* `leafIndexAt_position` — the greedy leaf count inverts `position`.
-/

namespace Mmr

/-! ## bits and positions -/

/-- the number of set bits, by repeated halving; `fuel` bounds the number of bits -/
def countBits : Nat → Nat → Nat
  | 0, _ => 0
  | fuel + 1, n => n % 2 + countBits fuel (n / 2)

def countBitsSet (n : Nat) : Nat := countBits n n

def position (i : Nat) : Nat := 2 * i - countBitsSet i

theorem countBits_zero (fuel : Nat) : countBits fuel 0 = 0 := by
  induction fuel with
  | zero => rfl
  | succ fuel ih => rw [countBits, Nat.zero_div, ih]

theorem countBits_congr {n f g : Nat} (hf : n ≤ f) (hg : n ≤ g) : countBits f n = countBits g n := by
  induction n using Nat.strong_induction_on generalizing f g with
  | _ n ih =>
    rcases Nat.eq_zero_or_pos n with rfl | hn
    · rw [countBits_zero, countBits_zero]
    · obtain ⟨f, rfl⟩ := Nat.exists_eq_succ_of_ne_zero (show f ≠ 0 by omega)
      obtain ⟨g, rfl⟩ := Nat.exists_eq_succ_of_ne_zero (show g ≠ 0 by omega)
      rw [countBits, countBits, ih (n / 2) (by omega) (f := f) (g := g) (by omega) (by omega)]

theorem countBitsSet_eq (n : Nat) : countBitsSet n = n % 2 + countBitsSet (n / 2) := by
  rcases Nat.eq_zero_or_pos n with rfl | hn
  · rfl
  · obtain ⟨m, rfl⟩ := Nat.exists_eq_succ_of_ne_zero (show n ≠ 0 by omega)
    rw [countBitsSet, countBits, countBitsSet, countBits_congr (by omega) le_rfl]

theorem countBitsSet_le (n : Nat) : countBitsSet n ≤ n := by
  induction n using Nat.strong_induction_on with
  | _ n ih =>
    rcases Nat.eq_zero_or_pos n with rfl | hn
    · exact le_rfl
    · have := ih (n / 2) (by omega)
      rw [countBitsSet_eq]
      omega

@[simp] theorem position_zero : position 0 = 0 := rfl

theorem position_eq (i : Nat) : position i = i + position (i / 2) := by
  have hle := countBitsSet_le (i / 2)
  have heq := countBitsSet_eq i
  unfold position
  omega

theorem le_position (i : Nat) : i ≤ position i := by
  rw [position_eq]
  omega

theorem position_lt_succ (i : Nat) : position i < position (i + 1) := by
  induction i using Nat.strong_induction_on with
  | _ i ih =>
    rw [position_eq i, position_eq (i + 1)]
    rcases Nat.mod_two_eq_zero_or_one i with heven | hodd
    · have hhalf : (i + 1) / 2 = i / 2 := by omega
      rw [hhalf]
      omega
    · have hhalf : (i + 1) / 2 = i / 2 + 1 := by omega
      have := ih (i / 2) (by omega)
      rw [hhalf]
      omega

theorem position_strictMono : StrictMono position := strictMono_nat_of_lt_succ position_lt_succ

theorem exists_position_le {p n : Nat} (h : p < position n) :
    ∃ i < n, position i ≤ p ∧ p < position (i + 1) := by
  induction n with
  | zero => exact absurd h (Nat.not_lt_zero p)
  | succ n ih =>
    rcases Nat.lt_or_ge p (position n) with hlt | hge
    · obtain ⟨i, hi, hplace⟩ := ih hlt
      exact ⟨i, by omega, hplace⟩
    · exact ⟨n, by omega, hge, h⟩

theorem position_pow_add {m i : Nat} (h : i < 2 ^ m) :
    position (2 ^ m + i) = 2 ^ (m + 1) - 1 + position i := by
  induction m generalizing i with
  | zero =>
    obtain rfl : i = 0 := by omega
    rfl
  | succ m ih =>
    have hhalf : (2 ^ (m + 1) + i) / 2 = 2 ^ m + i / 2 := by
      rw [pow_succ]
      omega
    have hpow : 2 ^ (m + 1 + 1) = 2 * 2 ^ (m + 1) := by rw [pow_succ]; ring
    have hpos : 0 < 2 ^ (m + 1) := Nat.two_pow_pos _
    rw [position_eq (2 ^ (m + 1) + i), hhalf, ih (by rw [pow_succ] at h; omega), position_eq i]
    omega

theorem position_pow (m : Nat) : position (2 ^ m) = 2 ^ (m + 1) - 1 := by
  simpa using position_pow_add (m := m) (i := 0) (Nat.two_pow_pos m)

theorem position_pow_sub_one (m : Nat) : position (2 ^ m - 1) + m + 2 = 2 ^ (m + 1) := by
  induction m with
  | zero => rfl
  | succ m ih =>
    have hpos : 0 < 2 ^ m := Nat.two_pow_pos _
    have hsplit : 2 ^ (m + 1) - 1 = 2 ^ m + (2 ^ m - 1) := by rw [pow_succ]; omega
    have hpow : 2 ^ (m + 1 + 1) = 2 * 2 ^ (m + 1) := by rw [pow_succ]; ring
    rw [hsplit, position_pow_add (by omega)]
    omega

/-! ## heights -/

/-- take off the peaks of sizes `2 ^ k - 1, …, 3, 1` where they fit -/
def takePeaks : Nat → Nat → Nat
  | 0, r => r
  | k + 1, r => takePeaks k (if r ≥ 2 ^ (k + 1) - 1 then r - (2 ^ (k + 1) - 1) else r)

/-- the height of the node at place `p`: the peak sizes start at the all-ones number of `p`'s width -/
def heightAt (p : Nat) : Nat := takePeaks p.size p

theorem takePeaks_full (m j : Nat) : takePeaks m (position (2 ^ m - 1) + j) = j := by
  induction m with
  | zero => simp [takePeaks]
  | succ m ih =>
    have hpos : 0 < 2 ^ m := Nat.two_pow_pos _
    have hsplit : 2 ^ (m + 1) - 1 = 2 ^ m + (2 ^ m - 1) := by rw [pow_succ]; omega
    have hplace := position_pow_add (m := m) (i := 2 ^ m - 1) (by omega)
    rw [takePeaks, if_pos]
    · rw [hsplit, hplace, ← ih]
      congr 1
      rw [ih]
      omega
    · rw [hsplit, hplace]
      omega

theorem takePeaks_eq {m i p : Nat} (hi : i < 2 ^ m) (hlo : position i ≤ p)
    (hhi : p < position (i + 1)) : takePeaks m p = p - position i := by
  induction m generalizing i p with
  | zero =>
    obtain rfl : i = 0 := by omega
    have hone : position (0 + 1) = 1 := rfl
    rw [takePeaks]
    simp
  | succ m ih =>
    rcases Nat.lt_or_ge i (2 ^ m) with hlt | hge
    · -- below the largest peak: it is not taken off
      have hbound : p < 2 ^ (m + 1) - 1 := by
        rw [← position_pow]
        exact hhi.trans_le (position_strictMono.monotone hlt)
      rw [takePeaks, if_neg (by omega)]
      exact ih hlt hlo hhi
    · obtain ⟨i', rfl⟩ : ∃ i', i = 2 ^ m + i' := ⟨i - 2 ^ m, by omega⟩
      have hi' : i' < 2 ^ m := by rw [pow_succ] at hi; omega
      rw [position_pow_add hi'] at hlo
      rw [takePeaks, if_pos (by omega), position_pow_add hi']
      rcases Nat.lt_or_ge (i' + 1) (2 ^ m) with hlast | hlast
      · rw [show 2 ^ m + i' + 1 = 2 ^ m + (i' + 1) by omega, position_pow_add hlast] at hhi
        rw [ih hi' (by omega) (by omega)]
        omega
      · -- the last leaf of the peak completes it and maybe more
        obtain rfl : i' = 2 ^ m - 1 := by omega
        have hfull := takePeaks_full m (p - (2 ^ (m + 1) - 1) - position (2 ^ m - 1))
        rw [show position (2 ^ m - 1) + (p - (2 ^ (m + 1) - 1) - position (2 ^ m - 1)) =
          p - (2 ^ (m + 1) - 1) by omega] at hfull
        rw [hfull]
        omega

/-- **Heights.**  Between leaf `i` and the next one stand the parents of heights `1, 2, …`. -/
theorem heightAt_eq {i p : Nat} (hlo : position i ≤ p) (hhi : p < position (i + 1)) :
    heightAt p = p - position i :=
  takePeaks_eq ((le_position i).trans_lt (hlo.trans_lt (Nat.lt_size_self p))) hlo hhi

@[simp] theorem heightAt_position (i : Nat) : heightAt (position i) = 0 := by
  rw [heightAt_eq le_rfl (position_lt_succ i), Nat.sub_self]

theorem pow_dvd_of_lt_position {i h : Nat} (hh : position i + h < position (i + 1)) :
    2 ^ h ∣ i + 1 := by
  induction i using Nat.strong_induction_on generalizing h with
  | _ i ih =>
    rw [position_eq i, position_eq (i + 1)] at hh
    rcases Nat.mod_two_eq_zero_or_one i with heven | hodd
    · have hhalf : (i + 1) / 2 = i / 2 := by omega
      rw [hhalf] at hh
      obtain rfl : h = 0 := by omega
      exact one_dvd _
    · have hhalf : (i + 1) / 2 = i / 2 + 1 := by omega
      rw [hhalf] at hh
      rcases Nat.eq_zero_or_pos h with rfl | hpos
      · exact one_dvd _
      · obtain ⟨h, rfl⟩ : ∃ h', h = h' + 1 := ⟨h - 1, by omega⟩
        have hdvd := ih (i / 2) (by omega) (h := h) (by omega)
        rw [show i + 1 = (i / 2 + 1) * 2 by omega, pow_succ]
        exact Nat.mul_dvd_mul_right hdvd 2

theorem lt_position_of_pow_dvd {i h : Nat} (hdvd : 2 ^ h ∣ i + 1) :
    position i + h < position (i + 1) := by
  induction h generalizing i with
  | zero => exact position_lt_succ i
  | succ h ih =>
    have heven : 2 ∣ i + 1 := (Dvd.intro_left (2 ^ h) rfl).trans hdvd
    have hhalf : (i + 1) / 2 = i / 2 + 1 := by omega
    have hdvd' : 2 ^ h ∣ i / 2 + 1 := by
      rw [← hhalf]
      rw [pow_succ] at hdvd
      exact Nat.dvd_div_of_mul_dvd (by rwa [Nat.mul_comm])
    have := ih hdvd'
    rw [position_eq i, position_eq (i + 1), hhalf]
    omega

theorem position_add {m a j : Nat} (ha : 2 ^ m ∣ a) (hj : j < 2 ^ m) :
    position (a + j) = position a + position j := by
  induction m generalizing a j with
  | zero =>
    obtain rfl : j = 0 := by omega
    rfl
  | succ m ih =>
    have heven : 2 ∣ a := (Dvd.intro_left (2 ^ m) rfl).trans ha
    have hhalf : (a + j) / 2 = a / 2 + j / 2 := by omega
    have ha' : 2 ^ m ∣ a / 2 := by
      rw [pow_succ] at ha
      exact Nat.dvd_div_of_mul_dvd (by rwa [Nat.mul_comm])
    have hj' : j / 2 < 2 ^ m := by
      rw [pow_succ] at hj
      omega
    rw [position_eq (a + j), hhalf, ih ha' hj', position_eq a, position_eq j]
    omega

/-- the root of the block of `2 ^ m` leaves from `a` on is completed by its last leaf -/
theorem position_block {m a : Nat} (ha : 2 ^ m ∣ a) :
    position (a + (2 ^ m - 1)) + m + 2 = position a + 2 ^ (m + 1) := by
  have hpos : 0 < 2 ^ m := Nat.two_pow_pos m
  have hfull := position_pow_sub_one m
  rw [position_add ha (by omega)]
  omega

/-! ## counting leaves -/

/-- the leaves under the peaks of sizes `2 ^ k - 1, …, 3, 1` that fit -/
def takeLeaves : Nat → Nat → Nat
  | 0, _ => 0
  | k + 1, r =>
    if r ≥ 2 ^ (k + 1) - 1 then (2 ^ (k + 1) - 1 + 1) / 2 + takeLeaves k (r - (2 ^ (k + 1) - 1))
    else takeLeaves k r

/-- the number of leaves of a range with `p` nodes -/
def leafIndexAt (p : Nat) : Nat := takeLeaves p.size p

theorem takeLeaves_position {m n : Nat} (h : n < 2 ^ m) : takeLeaves m (position n) = n := by
  induction m generalizing n with
  | zero =>
    obtain rfl : n = 0 := by omega
    rfl
  | succ m ih =>
    have hpos : 0 < 2 ^ m := Nat.two_pow_pos _
    rcases Nat.lt_or_ge n (2 ^ m) with hlt | hge
    · have hbound : position n < 2 ^ (m + 1) - 1 := by
        rw [← position_pow]
        exact position_strictMono hlt
      rw [takeLeaves, if_neg (by omega)]
      exact ih hlt
    · obtain ⟨n', rfl⟩ : ∃ n', n = 2 ^ m + n' := ⟨n - 2 ^ m, by omega⟩
      have hn' : n' < 2 ^ m := by rw [pow_succ] at h; omega
      have hhalf : (2 ^ (m + 1) - 1 + 1) / 2 = 2 ^ m := by rw [pow_succ]; omega
      rw [takeLeaves, position_pow_add hn', if_pos (by omega), Nat.add_sub_cancel_left, ih hn', hhalf]

@[simp] theorem leafIndexAt_position (n : Nat) : leafIndexAt (position n) = n :=
  takeLeaves_position ((le_position n).trans_lt (Nat.lt_size_self _))

end Mmr
