import Mathlib.Data.List.Basic
import Mathlib.Data.Nat.Basic
import Mathlib.Tactic.Ring

/-!
# Byte strings: little-endian integers, slices and guarded decoders

The vocabulary of every fixed-layout codec: a layout is a concatenation of fields, a decoder reads
the fields back at computed offsets and rejects through `guard`.

* `leBytes n v`, `leNat bs`   — the two directions of a little-endian integer of `n` bytes.
* `slice bs i j`              — the half-open range `bs[i..j]`.
* `guard_bind_eq_some`        — inversion of one check of an `Option` decoder.
* `slice_append_of_le`, `slice_append_exact` — reading a field out of a concatenation.
-/

abbrev Bytes := List UInt8

namespace Bytes

/-! ## little-endian integers -/

/-- the low `n` bytes of `v`, least significant first -/
def leBytes : Nat → Nat → Bytes
  | 0, _ => []
  | n + 1, v => UInt8.ofNat v :: leBytes n (v / 256)

def leNat : Bytes → Nat
  | [] => 0
  | b :: bs => b.toNat + 256 * leNat bs

@[simp] theorem leBytes_length (n v : Nat) : (leBytes n v).length = n := by
  induction n generalizing v with
  | zero => rfl
  | succ n ih => simp [leBytes, ih]

theorem leNat_leBytes (n v : Nat) : leNat (leBytes n v) = v % 256 ^ n := by
  induction n generalizing v with
  | zero => simp [leBytes, leNat, Nat.mod_one]
  | succ n ih =>
    have hb : (UInt8.ofNat v).toNat = v % 256 := by simp
    rw [leBytes, leNat, ih, hb, Nat.pow_succ, Nat.mul_comm (256 ^ n), Nat.mod_mul]

theorem leNat_leBytes_of_lt {n v : Nat} (h : v < 256 ^ n) : leNat (leBytes n v) = v := by
  rw [leNat_leBytes, Nat.mod_eq_of_lt h]

theorem leNat_lt (bs : Bytes) : leNat bs < 256 ^ bs.length := by
  induction bs with
  | nil => simp [leNat]
  | cons b bs ih =>
    have hb : b.toNat < 256 := b.toNat_lt
    rw [leNat, List.length_cons, Nat.pow_succ]
    omega

theorem leBytes_leNat (bs : Bytes) : leBytes bs.length (leNat bs) = bs := by
  induction bs with
  | nil => rfl
  | cons b bs ih =>
    have hb : b.toNat < 256 := b.toNat_lt
    have hdiv : (b.toNat + 256 * leNat bs) / 256 = leNat bs := by omega
    have hmod : UInt8.ofNat (b.toNat + 256 * leNat bs) = b := by
      apply UInt8.toNat_inj.mp
      simp
    rw [List.length_cons, leNat, leBytes, hdiv, hmod, ih]

theorem leBytes_inj {n v w : Nat} (hv : v < 256 ^ n) (hw : w < 256 ^ n)
    (h : leBytes n v = leBytes n w) : v = w := by
  rw [← leNat_leBytes_of_lt hv, ← leNat_leBytes_of_lt hw, h]

theorem leBytes_succ (n v : Nat) : leBytes (n + 1) v = leBytes n v ++ [UInt8.ofNat (v / 256 ^ n)] := by
  induction n generalizing v with
  | zero => simp [leBytes]
  | succ n ih =>
    rw [leBytes, ih, leBytes, List.cons_append, Nat.div_div_eq_div_mul, Nat.pow_succ, Nat.mul_comm]

theorem leNat_take_succ (bs : Bytes) (n : Nat) :
    leNat (bs.take (n + 1)) = leNat (bs.take n) + 256 ^ n * (bs.getD n 0).toNat := by
  induction bs generalizing n with
  | nil => simp [leNat]
  | cons b bs ih =>
    cases n with
    | zero => simp [leNat]
    | succ n =>
      rw [List.take_succ_cons, leNat, ih, List.take_succ_cons, leNat, List.getD_cons_succ,
        Nat.pow_succ]
      ring

/-! ## slices -/

/-- the half-open range `bs[i..j]` -/
def slice (bs : Bytes) (i j : Nat) : Bytes := (bs.drop i).take (j - i)

theorem slice_length {bs : Bytes} {i j : Nat} (h : j ≤ bs.length) :
    (slice bs i j).length = j - i := by
  simp only [slice, List.length_take, List.length_drop]
  omega

theorem slice_append_of_le {a b : Bytes} {i j : Nat} (h : a.length ≤ i) :
    slice (a ++ b) i j = slice b (i - a.length) (j - a.length) := by
  have h' : j - a.length - (i - a.length) = j - i := by omega
  rw [slice, slice, List.drop_append, List.drop_eq_nil_of_le h, List.nil_append, h']

theorem slice_append_exact {a b : Bytes} {j : Nat} (h : a.length = j) :
    slice (a ++ b) 0 j = a := by
  subst h
  simp [slice]

theorem drop_append_of_le {a b : Bytes} {i : Nat} (h : a.length ≤ i) :
    (a ++ b).drop i = b.drop (i - a.length) := by
  rw [List.drop_append, List.drop_eq_nil_of_le h, List.nil_append]

theorem take_slice_drop (bs : Bytes) {i j : Nat} (h : i ≤ j) :
    bs.take i ++ (slice bs i j ++ bs.drop j) = bs := by
  have hj : bs.drop j = (bs.drop i).drop (j - i) := by
    rw [List.drop_drop, Nat.add_sub_cancel' h]
  rw [slice, hj, List.take_append_drop, List.take_append_drop]

theorem slice_append_slice (bs : Bytes) {i j k : Nat} (hij : i ≤ j) (hjk : j ≤ k) :
    slice bs i j ++ slice bs j k = slice bs i k := by
  have hk : k - i = (j - i) + (k - j) := by omega
  have hj : bs.drop j = (bs.drop i).drop (j - i) := by
    rw [List.drop_drop, Nat.add_sub_cancel' hij]
  rw [slice, slice, slice, hk, List.take_add, hj]

theorem slice_one {bs : Bytes} {i : Nat} {b : UInt8} (h : bs[i]? = some b) :
    slice bs i (i + 1) = [b] := by
  obtain ⟨hi, rfl⟩ := List.getElem?_eq_some_iff.mp h
  rw [slice, List.drop_eq_getElem_cons hi, show i + 1 - i = 1 by omega]
  rfl

theorem not_isPrefix_append {p q : Bytes} (b : Bytes) (hlen : p.length = q.length) (hne : p ≠ q) :
    ¬ p <+: q ++ b := by
  intro h
  have hpq : p <+: q := List.prefix_of_prefix_length_le h (List.prefix_append q b) hlen.le
  exact hne (hpq.eq_of_length hlen)

/-! ## searching -/

/-- the first place where `needle` stands in a byte string -/
def search (needle : Bytes) : Bytes → Option Nat
  | [] => if needle = [] then some 0 else none
  | b :: rest =>
    if needle.isPrefixOf (b :: rest) then some 0 else (search needle rest).map (· + 1)

theorem search_isPrefix {needle bs : Bytes} {i : Nat} (h : search needle bs = some i) :
    needle <+: bs.drop i := by
  induction bs generalizing i with
  | nil =>
    unfold search at h
    split at h
    · rename_i hnil
      rw [hnil]
      exact List.nil_prefix
    · cases h
  | cons b rest ih =>
    unfold search at h
    split at h
    · rename_i hhere
      obtain rfl := Option.some.inj h
      exact List.isPrefixOf_iff_prefix.mp hhere
    · obtain ⟨j, hj, rfl⟩ := Option.map_eq_some_iff.mp h
      exact ih hj

theorem search_of_first {needle bs : Bytes} {i : Nat} (hi : i ≤ bs.length)
    (hhere : needle <+: bs.drop i) (hfirst : ∀ j < i, ¬ needle <+: bs.drop j) :
    search needle bs = some i := by
  induction bs generalizing i with
  | nil =>
    obtain rfl : i = 0 := Nat.le_zero.mp hi
    rw [search, if_pos (List.prefix_nil.mp hhere)]
  | cons b rest ih =>
    cases i with
    | zero =>
      rw [List.drop_zero] at hhere
      rw [search, if_pos (List.isPrefixOf_iff_prefix.mpr hhere)]
    | succ i =>
      have hnot : ¬ needle.isPrefixOf (b :: rest) = true := fun hstart =>
        hfirst 0 (Nat.succ_pos i) (List.isPrefixOf_iff_prefix.mp hstart)
      rw [search, if_neg hnot, ih (Nat.le_of_succ_le_succ hi) hhere]
      · rfl
      · intro j hj
        exact hfirst (j + 1) (Nat.succ_lt_succ hj)

theorem search_eq_none {needle bs : Bytes} (h : ∀ i, ¬ needle <+: bs.drop i) :
    search needle bs = none := by
  cases hsearch : search needle bs with
  | none => rfl
  | some i => exact absurd (search_isPrefix hsearch) (h i)

theorem search_eq_none_iff {needle bs : Bytes} (hne : needle ≠ []) :
    search needle bs = none ↔ ¬ needle <:+: bs := by
  induction bs with
  | nil => rw [search, if_neg hne, List.infix_nil, iff_true_left rfl]; exact hne
  | cons b rest ih =>
    rw [search, List.infix_cons_iff, not_or, ← ih, ← List.isPrefixOf_iff_prefix]
    by_cases hhere : needle.isPrefixOf (b :: rest) = true
    · simp [hhere]
    · simp [hhere]

/-! ## text -/

def toHex (bytes : Bytes) : String :=
  let digit (n : Nat) : Char := "0123456789abcdef".toList.getD n '0'
  String.ofList (bytes.flatMap fun b => [digit (b.toNat / 16), digit (b.toNat % 16)])

/-! ## guarded decoders -/

theorem guard_bind_eq_some {α : Type} {p : Prop} [Decidable p] {f : Unit → Option α} {r : α} :
    (guard p >>= f) = some r ↔ p ∧ f () = some r := by
  by_cases h : p <;> simp [guard, h]

theorem guard_eq_some_iff {p : Prop} [Decidable p] {u : Unit} :
    (guard p : Option Unit) = some u ↔ p := by
  by_cases h : p <;> simp [guard, h]

end Bytes
