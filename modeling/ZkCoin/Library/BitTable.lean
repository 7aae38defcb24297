import Mathlib.Data.Nat.Bitwise
import Mathlib.Logic.Function.Basic

/-!
# Bit sets stored as bytes

A set of numbers as a table of bytes, eight members to a byte with the highest bit first.

* `bitToByte`          — the byte with one bit set.
* `contains`           — members of a table, and how setting or clearing a bit changes them.
* `table_ext`          — a table is determined by its members.
* `tableOf`            — the table of a given set of members.
-/

namespace BitTable

/-- the byte with bit `bit` set, counted from the left -/
def bitToByte (bit : Nat) : UInt8 := UInt8.ofNat (2 ^ (7 - bit))

def testBit (b : UInt8) (bit : Nat) : Bool := b &&& bitToByte bit != 0

theorem bitToByte_toNat (k : Nat) : (bitToByte k).toNat = 2 ^ (7 - k) := by
  have hlt : 2 ^ (7 - k) < 2 ^ 8 := Nat.pow_lt_pow_right (by omega) (by omega)
  exact UInt8.toNat_ofNat_of_lt hlt

theorem testBit_eq (b : UInt8) (k : Nat) : testBit b k = b.toNat.testBit (7 - k) := by
  have hand : (b &&& bitToByte k).toNat = (b.toNat.testBit (7 - k)).toNat * 2 ^ (7 - k) := by
    rw [UInt8.toNat_and, bitToByte_toNat, Nat.and_two_pow]
  have hpos : 0 < 2 ^ (7 - k) := Nat.two_pow_pos _
  unfold testBit
  cases hbit : b.toNat.testBit (7 - k) with
  | false =>
    rw [hbit] at hand
    have hzero : b &&& bitToByte k = 0 := UInt8.toNat_inj.mp (by simpa using hand)
    simp [hzero]
  | true =>
    rw [hbit] at hand
    simp only [bne_iff_ne, ne_eq]
    intro hzero
    rw [hzero] at hand
    simp at hand
    omega

theorem testBit_or {j k : Nat} (hj : j < 8) (hk : k < 8) (b : UInt8) :
    testBit (b ||| bitToByte k) j = (testBit b j || decide (k = j)) := by
  rw [testBit_eq, testBit_eq, UInt8.toNat_or, Nat.testBit_or, bitToByte_toNat, Nat.testBit_two_pow]
  congr 2
  exact propext ⟨by omega, by omega⟩

theorem testBit_and {j k : Nat} (hj : j < 8) (hk : k < 8) (b : UInt8) :
    testBit (b &&& (0xff ^^^ bitToByte k)) j = (testBit b j && !decide (k = j)) := by
  have hff : (0xff : UInt8).toNat = 2 ^ 8 - 1 := rfl
  rw [testBit_eq, testBit_eq, UInt8.toNat_and, Nat.testBit_and, UInt8.toNat_xor, Nat.testBit_xor,
    bitToByte_toNat, Nat.testBit_two_pow, hff, Nat.testBit_two_pow_sub_one]
  have hlt : 7 - j < 8 := by omega
  have hiff : (7 - k = 7 - j) ↔ k = j := by omega
  simp [hlt, hiff]

theorem byte_ext {b c : UInt8} (h : ∀ j < 8, testBit b j = testBit c j) : b = c := by
  apply UInt8.toNat_inj.mp
  apply Nat.eq_of_testBit_eq
  intro i
  rcases Nat.lt_or_ge i 8 with hi | hi
  · have hbit := h (7 - i) (by omega)
    rw [testBit_eq, testBit_eq] at hbit
    rwa [show 7 - (7 - i) = i by omega] at hbit
  · have hpow : 2 ^ 8 ≤ 2 ^ i := Nat.pow_le_pow_right (by omega) hi
    rw [Nat.testBit_lt_two_pow (b.toNat_lt.trans_le hpow),
      Nat.testBit_lt_two_pow (c.toNat_lt.trans_le hpow)]

/-! ## tables -/

def contains (table : Nat → UInt8) (i : Nat) : Bool := testBit (table (i / 8)) (i % 8)

theorem contains_update_or (table : Nat → UInt8) (i j : Nat) :
    contains (Function.update table (i / 8) (table (i / 8) ||| bitToByte (i % 8))) j =
      (contains table j || decide (i = j)) := by
  unfold contains
  by_cases hbyte : j / 8 = i / 8
  · rw [hbyte, Function.update_self, testBit_or (Nat.mod_lt _ (by omega)) (Nat.mod_lt _ (by omega))]
    congr 2
    exact propext ⟨by omega, by omega⟩
  · rw [Function.update_of_ne hbyte]
    have hne : i ≠ j := by rintro rfl; exact hbyte rfl
    simp [hne]

theorem contains_update_and (table : Nat → UInt8) (i j : Nat) :
    contains (Function.update table (i / 8) (table (i / 8) &&& (0xff ^^^ bitToByte (i % 8)))) j =
      (contains table j && !decide (i = j)) := by
  unfold contains
  by_cases hbyte : j / 8 = i / 8
  · rw [hbyte, Function.update_self, testBit_and (Nat.mod_lt _ (by omega)) (Nat.mod_lt _ (by omega))]
    congr 2
    have hiff : (i % 8 = j % 8) ↔ i = j := by omega
    simp [hiff]
  · rw [Function.update_of_ne hbyte]
    have hne : i ≠ j := by rintro rfl; exact hbyte rfl
    simp [hne]

theorem table_ext {t u : Nat → UInt8} (h : ∀ i, contains t i = contains u i) : t = u := by
  funext b
  apply byte_ext
  intro j hj
  have hbit := h (8 * b + j)
  unfold contains at hbit
  rwa [show (8 * b + j) / 8 = b by omega, show (8 * b + j) % 8 = j by omega] at hbit

/-! ## the table of a set -/

/-- the byte whose bits are given, the first `n` of them -/
def byteOf (p : Nat → Bool) (n : Nat) : UInt8 :=
  (List.range n).foldl (fun b j => if p j then b ||| bitToByte j else b) 0

def tableOf (p : Nat → Bool) (b : Nat) : UInt8 := byteOf (fun j => p (8 * b + j)) 8

theorem testBit_byteOf (p : Nat → Bool) {n j : Nat} (hn : n ≤ 8) (hj : j < 8) :
    testBit (byteOf p n) j = (decide (j < n) && p j) := by
  induction n with
  | zero => simp [byteOf, testBit]
  | succ n ih =>
    have hrec : byteOf p (n + 1) = if p n then byteOf p n ||| bitToByte n else byteOf p n := by
      rw [byteOf, List.range_succ, List.foldl_append]
      rfl
    rw [hrec]
    by_cases hp : p n = true
    · rw [if_pos hp, testBit_or hj (by omega), ih (by omega)]
      by_cases hjn : n = j
      · subst hjn
        simp [hp]
      · simp [hjn, show j < n + 1 ↔ j < n by omega]
    · rw [if_neg hp, ih (by omega)]
      by_cases hjn : n = j
      · subst hjn
        simp [hp]
      · simp [show j < n + 1 ↔ j < n by omega]

theorem contains_tableOf (p : Nat → Bool) (i : Nat) : contains (tableOf p) i = p i := by
  have hmod : i % 8 < 8 := Nat.mod_lt _ (by omega)
  unfold contains tableOf
  rw [testBit_byteOf _ le_rfl hmod, Nat.div_add_mod]
  simp [hmod]

theorem eq_tableOf {t : Nat → UInt8} {p : Nat → Bool} (h : ∀ i, contains t i = p i) :
    t = tableOf p :=
  table_ext fun i => (h i).trans (contains_tableOf p i).symm

end BitTable
