import Mathlib.Algebra.Order.Group.Unbundled.Int
import Mathlib.Tactic.Linarith
import ZkCoin.Library.PrefixCode
import ZkCoin.Primitives.Uint256

/-!
# Stream serialization

The node's stream format: fixed-width integers, compact sizes, variable-length integers and vectors.
A reader takes the unread bytes and gives the value with what is left, or nothing where the source
throws.

* `compactSize`, `varInt`, `vector`           — writers.
* `readCompactSize`, `readVarInt`             — readers, which undo the writers.
* `compactSize_prefixFree`, `vector_prefixFree` — every written value delimits itself.
-/

open Bytes

/-- a byte array of a fixed size: the library's commitments, keys, signatures and nonces -/
structure FixedBytes (n : Nat) where
  data : Bytes
  size_eq : data.length = n
  deriving DecidableEq

namespace FixedBytes

@[simp] theorem data_length {n : Nat} (b : FixedBytes n) : b.data.length = n := b.size_eq

def zero (n : Nat) : FixedBytes n := ⟨List.replicate n 0, by simp⟩

def ofNat (n v : Nat) : FixedBytes n := ⟨leBytes n v, leBytes_length n v⟩

def isZero {n : Nat} (b : FixedBytes n) : Bool := b.data.all (· == 0)

end FixedBytes

namespace Serialize

/-- `ser_writedata` of a signed or unsigned integer of `n` bytes -/
def intBytes (n : Nat) (v : Int) : Bytes := leBytes n (v % 256 ^ n).toNat

/-- `WriteCompactSize` -/
def compactSize (n : Nat) : Bytes :=
  if n < 253 then leBytes 1 n
  else if n ≤ 0xffff then 253 :: leBytes 2 n
  else if n ≤ 0xffffffff then 254 :: leBytes 4 n
  else 255 :: leBytes 8 n

def byteVector (bs : Bytes) : Bytes := compactSize bs.length ++ bs

def vector {α : Type} (ser : α → Bytes) (xs : List α) : Bytes :=
  compactSize xs.length ++ xs.flatMap ser

/-- the bytes of `WriteVarInt` before the last one, each with the continuation bit; `fuel` is the
size of the writer's buffer -/
def varIntHigh : Nat → Nat → Bytes
  | 0, _ => []
  | fuel + 1, n =>
    if n ≤ 0x7f then [UInt8.ofNat (n + 0x80)]
    else varIntHigh fuel (n / 128 - 1) ++ [UInt8.ofNat (n % 128 + 0x80)]

/-- `WriteVarInt` of an integer of at most 64 bits: ten bytes are enough -/
def varInt (n : Nat) : Bytes :=
  if n ≤ 0x7f then [UInt8.ofNat n]
  else varIntHigh 9 (n / 128 - 1) ++ [UInt8.ofNat (n % 128)]

/-! ## readers -/

/-- the next `n` bytes of the stream -/
def readBytes (n : Nat) (s : Bytes) : Option (Bytes × Bytes) :=
  if s.length < n then none else some (s.take n, s.drop n)

/-- `ser_readdata` of an unsigned integer of `n` bytes -/
def readLe (n : Nat) (s : Bytes) : Option (Nat × Bytes) :=
  (readBytes n s).map fun (bs, rest) => (leNat bs, rest)

def maxSize : Nat := 0x02000000

/-- `ReadCompactSize` -/
def readCompactSize (rangeCheck : Bool) (s : Bytes) : Option (Nat × Bytes) := do
  let (chSize, s) ← readLe 1 s
  let (nSizeRet, s) ←
    if chSize < 253 then some (chSize, s)
    else if chSize = 253 then do
      let (n, s) ← readLe 2 s
      guard (¬ n < 253)
      some (n, s)
    else if chSize = 254 then do
      let (n, s) ← readLe 4 s
      guard (¬ n < 0x10000)
      some (n, s)
    else do
      let (n, s) ← readLe 8 s
      guard (¬ n < 0x100000000)
      some (n, s)
  guard (¬ (rangeCheck ∧ nSizeRet > maxSize))
  some (nSizeRet, s)

/-- the loop of `ReadVarInt` for an integer type with largest value `max`; `n` was read so far -/
def readVarIntFrom (max : Nat) : Nat → Bytes → Option (Nat × Bytes)
  | _, [] => none
  | n, chData :: s =>
    if n > max / 128 then none
    else
      let n := n * 128 + chData.toNat % 128
      if chData.toNat ≥ 0x80 then
        if n = max then none else readVarIntFrom max (n + 1) s
      else some (n, s)

def readVarInt (max : Nat) (s : Bytes) : Option (Nat × Bytes) := readVarIntFrom max 0 s

/-! ## readers undo writers -/

@[simp] theorem readBytes_append (bs rest : Bytes) :
    readBytes bs.length (bs ++ rest) = some (bs, rest) := by
  simp [readBytes]

theorem readLe_leBytes {n v : Nat} (h : v < 256 ^ n) (rest : Bytes) :
    readLe n (leBytes n v ++ rest) = some (v, rest) := by
  have hread := readBytes_append (leBytes n v) rest
  rw [leBytes_length] at hread
  rw [readLe, hread]
  show some (leNat (leBytes n v), rest) = _
  rw [leNat_leBytes_of_lt h]

theorem readLe_one (b : UInt8) (rest : Bytes) : readLe 1 (b :: rest) = some (b.toNat, rest) := by
  simp [readLe, readBytes, leNat]

theorem readCompactSize_of_le {rangeCheck : Bool} {n : Nat} (h : n < 2 ^ 64)
    (hrange : rangeCheck = true → n ≤ maxSize) (rest : Bytes) :
    readCompactSize rangeCheck (compactSize n ++ rest) = some (n, rest) := by
  unfold compactSize
  by_cases h1 : n < 253
  · rw [if_pos h1, readCompactSize, readLe_leBytes (by omega)]
    simp [h1, if_pos hrange, guard]
  · rw [if_neg h1]
    by_cases h2 : n ≤ 0xffff
    · rw [if_pos h2, List.cons_append, readCompactSize, readLe_one]
      have hlow : 253 ≤ n := by omega
      simp [readLe_leBytes (n := 2) (v := n) (by omega), hlow, if_pos hrange, guard]
    · rw [if_neg h2]
      by_cases h4 : n ≤ 0xffffffff
      · rw [if_pos h4, List.cons_append, readCompactSize, readLe_one]
        have hlow : 65536 ≤ n := by omega
        simp [readLe_leBytes (n := 4) (v := n) (by omega), hlow, if_pos hrange, guard]
      · rw [if_neg h4, List.cons_append, readCompactSize, readLe_one]
        have hlow : 4294967296 ≤ n := by omega
        simp [readLe_leBytes (n := 8) (v := n) (by omega), hlow, if_pos hrange, guard]

theorem readCompactSize_compactSize {n : Nat} (h : n < 2 ^ 64) (rest : Bytes) :
    readCompactSize false (compactSize n ++ rest) = some (n, rest) :=
  readCompactSize_of_le h (fun hcheck : false = true => absurd hcheck Bool.false_ne_true) rest

/-- after the high bytes of `m` the loop stands at `m + 1` -/
theorem readVarIntFrom_high {max fuel m : Nat} (hfuel : 0 < fuel) (hm : m < 128 ^ fuel)
    (hmax : m < max) (rest : Bytes) :
    readVarIntFrom max 0 (varIntHigh fuel m ++ rest) = readVarIntFrom max (m + 1) rest := by
  induction fuel generalizing m rest with
  | zero => omega
  | succ fuel ih =>
    unfold varIntHigh
    by_cases hsmall : m ≤ 0x7f
    · have hbyte : (UInt8.ofNat (m + 0x80)).toNat = m + 0x80 :=
        UInt8.toNat_ofNat_of_lt (show m + 0x80 < 256 by omega)
      rw [if_pos hsmall, List.singleton_append, readVarIntFrom, hbyte, if_neg (by omega)]
      have hmod : 0 * 128 + (m + 0x80) % 128 = m := by omega
      rw [hmod, if_pos (by omega), if_neg (by omega)]
    · have hbyte : (UInt8.ofNat (m % 128 + 0x80)).toNat = m % 128 + 0x80 :=
        UInt8.toNat_ofNat_of_lt (show m % 128 + 0x80 < 256 by omega)
      have hfuel' : 0 < fuel := by
        rcases Nat.eq_zero_or_pos fuel with rfl | hpos
        · simp at hm
          omega
        · exact hpos
      have hm' : m / 128 - 1 < 128 ^ fuel := by
        have hdiv : m / 128 < 128 ^ fuel := by
          rw [Nat.div_lt_iff_lt_mul (by omega), ← Nat.pow_succ]
          exact hm
        omega
      rw [if_neg hsmall, List.append_assoc, ih hfuel' hm' (by omega),
        show m / 128 - 1 + 1 = m / 128 by omega, List.singleton_append, readVarIntFrom, hbyte,
        if_neg (by have := Nat.div_le_div_right (c := 128) hmax.le; omega)]
      have hvalue : m / 128 * 128 + (m % 128 + 0x80) % 128 = m := by omega
      rw [hvalue, if_pos (by omega), if_neg (by omega)]

theorem readVarInt_varInt {max n : Nat} (h : n ≤ max) (hn : n < 2 ^ 64) (rest : Bytes) :
    readVarInt max (varInt n ++ rest) = some (n, rest) := by
  unfold readVarInt varInt
  by_cases hsmall : n ≤ 0x7f
  · have hbyte : (UInt8.ofNat n).toNat = n := UInt8.toNat_ofNat_of_lt (show n < 256 by omega)
    rw [if_pos hsmall, List.singleton_append, readVarIntFrom, hbyte, if_neg (by omega),
      if_neg (by omega), show 0 * 128 + n % 128 = n by omega]
  · have hbyte : (UInt8.ofNat (n % 128)).toNat = n % 128 :=
      UInt8.toNat_ofNat_of_lt (show n % 128 < 256 by omega)
    rw [if_neg hsmall, List.append_assoc,
      readVarIntFrom_high (by omega) (show n / 128 - 1 < 128 ^ 9 by norm_num; omega) (by omega),
      show n / 128 - 1 + 1 = n / 128 by omega, List.singleton_append, readVarIntFrom, hbyte,
      if_neg (by have := Nat.div_le_div_right (c := 128) h; omega), if_neg (by omega),
      show n / 128 * 128 + n % 128 % 128 = n by omega]

/-! ## written values delimit themselves -/

theorem compactSize_prefixFree : PrefixFree (fun n => n < 2 ^ 64) compactSize :=
  .of_reads fun _ rest h => readCompactSize_compactSize h rest

theorem varInt_prefixFree : PrefixFree (fun n => n < 2 ^ 64) varInt :=
  .of_reads fun _ rest h => readVarInt_varInt (Nat.lt_succ_iff.mp h) h rest

theorem byteVector_prefixFree : PrefixFree (fun bs : Bytes => bs.length < 2 ^ 64) byteVector := by
  intro a b x y ha hb heq
  unfold byteVector at heq
  rw [List.append_assoc, List.append_assoc] at heq
  obtain ⟨hlen, hrest⟩ := compactSize_prefixFree _ _ _ _ ha hb heq
  exact List.append_inj hrest hlen

theorem compactSize_length (n : Nat) : (compactSize n).length =
    if n < 253 then 1 else if n ≤ 0xffff then 3 else if n ≤ 0xffffffff then 5 else 9 := by
  unfold compactSize
  split_ifs <;> simp

theorem byteVector_inj {a b : Bytes} (h : byteVector a = byteVector b) : a = b := by
  unfold byteVector at h
  have hlen := congrArg List.length h
  rw [List.length_append, List.length_append, compactSize_length, compactSize_length] at hlen
  have heq : a.length = b.length := by split_ifs at hlen <;> omega
  rw [heq] at h
  exact List.append_cancel_left h

theorem vector_prefixFree {α : Type} {ok : α → Prop} {ser : α → Bytes} (h : PrefixFree ok ser) :
    PrefixFree (fun xs : List α => xs.length < 2 ^ 64 ∧ ∀ x ∈ xs, ok x) (vector ser) := by
  intro as bs x y ha hb heq
  unfold vector at heq
  rw [List.append_assoc, List.append_assoc] at heq
  obtain ⟨hlen, hrest⟩ := compactSize_prefixFree _ _ _ _ ha.1 hb.1 heq
  exact h.flatMap hlen ha.2 hb.2 hrest

/-- a signed integer of `n` bytes -/
def IntFits (n : Nat) (v : Int) : Prop := -(256 ^ n) ≤ 2 * v ∧ 2 * v < 256 ^ n

end Serialize
