import ZkCoin.Library.Frames

/-!
# 32-byte values and typed reads

`Uint256` is the node's `uint256` and the verifier crate's `[u8; 32]`: a byte string that carries
its length.  The readers `byteAt`, `u32At`, `u64At` and `Uint256.readAt` are the slice conversions
of the decoders; each one has the two lemmas a layout needs, how it skips the fields before it and
how it reads its own field.
-/

open Bytes

/-- the node's `uint256` and the verifier crate's `[u8; HASH_SIZE]` -/
structure Uint256 where
  data : Bytes
  size_eq : data.length = 32
  deriving DecidableEq

namespace Uint256

@[simp] theorem data_length (h : Uint256) : h.data.length = 32 := h.size_eq

theorem data_inj {a b : Uint256} (h : a.data = b.data) : a = b := by
  cases a; cases b; cases h; rfl

/-- `uint256::SetNull`, the default value -/
def null : Uint256 := ⟨List.replicate 32 0, by simp⟩

/-- `uint256::IsNull` -/
def isNull (h : Uint256) : Bool := h.data.all (· == 0)

/-- `uint256::ToString`: the bytes from the last to the first -/
def toText (h : Uint256) : String := toHex h.data.reverse

/-- the value whose little-endian digits are the 32 bytes -/
def ofNat (v : Nat) : Uint256 := ⟨leBytes 32 v, leBytes_length 32 v⟩

/-- a concrete digest, for running definitions that take a hash -/
def polyHash (bs : Bytes) : Uint256 :=
  ofNat (bs.foldl (fun acc b => (acc * 257 + b.toNat + 1) % 2 ^ 256) 7)

theorem isNull_iff (h : Uint256) : h.isNull = true ↔ h = null := by
  constructor
  · intro hz
    apply data_inj
    simp only [isNull, List.all_eq_true, beq_iff_eq] at hz
    exact List.eq_replicate_iff.mpr ⟨h.size_eq, hz⟩
  · rintro rfl
    decide

/-- `bs[off..off + 32].try_into()` -/
def readAt (bs : Bytes) (off : Nat) : Option Uint256 :=
  if h : off + 32 ≤ bs.length then
    some ⟨slice bs off (off + 32), by rw [slice_length h]; omega⟩
  else none

@[simp] theorem readAt_append_self (h : Uint256) (b : Bytes) : readAt (h.data ++ b) 0 = some h := by
  have hs : slice (h.data ++ b) 0 (0 + 32) = h.data := slice_append_exact (by simp)
  simp only [readAt, hs, List.length_append, data_length]
  rw [dif_pos (by omega)]

theorem readAt_eq_some {bs : Bytes} {off : Nat} {h : Uint256} :
    readAt bs off = some h ↔ off + 32 ≤ bs.length ∧ slice bs off (off + 32) = h.data := by
  unfold readAt
  split
  · rename_i hle
    simp only [Option.some.injEq, hle, true_and]
    exact ⟨fun e => e ▸ rfl, fun e => data_inj e⟩
  · rename_i hle
    simp [hle]

theorem data_prefix_drop_iff {bs : Bytes} {off : Nat} {h : Uint256} :
    h.data <+: bs.drop off ↔ readAt bs off = some h := by
  rw [readAt_eq_some, prefix_drop_iff_slice, data_length]
  constructor
  · intro hslice
    refine ⟨?_, hslice⟩
    have hlen := congrArg List.length hslice
    rw [data_length, slice, List.length_take, List.length_drop] at hlen
    omega
  · exact fun hread => hread.2

end Uint256

/-! ## hashes without collisions -/

/-- the hash has no collision among the byte strings of a list -/
def CollisionFree (hash : Bytes → Uint256) (hashed : List Bytes) : Prop :=
  ∀ p ∈ hashed, ∀ q ∈ hashed, hash p = hash q → p = q

instance (hash : Bytes → Uint256) (hashed : List Bytes) : Decidable (CollisionFree hash hashed) :=
  inferInstanceAs (Decidable (∀ p ∈ hashed, ∀ q ∈ hashed, hash p = hash q → p = q))

theorem CollisionFree.mono {hash : Bytes → Uint256} {hashed hashed' : List Bytes}
    (h : CollisionFree hash hashed) (hsub : hashed' ⊆ hashed) : CollisionFree hash hashed' :=
  fun p hp q hq => h p (hsub hp) q (hsub hq)

namespace Bytes

/-! ## bytes and fixed-width integers at an offset -/

/-- `u32::from_le_bytes(bs[off..off + 4])` -/
def u32At (bs : Bytes) (off : Nat) : UInt32 := UInt32.ofNat (leNat (slice bs off (off + 4)))

theorem u32At_toNat (bs : Bytes) (off : Nat) : (u32At bs off).toNat = leNat (slice bs off (off + 4)) := by
  have hlt := leNat_lt (slice bs off (off + 4))
  have hle : (slice bs off (off + 4)).length ≤ 4 := by
    rw [slice, List.length_take]
    omega
  have hpow : 256 ^ (slice bs off (off + 4)).length ≤ 256 ^ 4 := Nat.pow_le_pow_right (by decide) hle
  rw [u32At, UInt32.toNat_ofNat']
  exact Nat.mod_eq_of_lt (lt_of_lt_of_le hlt hpow)

/-- `u64::from_le_bytes(bs[off..off + 8])` -/
def u64At (bs : Bytes) (off : Nat) : UInt64 := UInt64.ofNat (leNat (slice bs off (off + 8)))

/-- `u32::to_le_bytes` -/
def u32Bytes (v : UInt32) : Bytes := leBytes 4 v.toNat

/-- `u64::to_le_bytes` -/
def u64Bytes (v : UInt64) : Bytes := leBytes 8 v.toNat

@[simp] theorem u32Bytes_length (v : UInt32) : (u32Bytes v).length = 4 := leBytes_length 4 _

theorem u32Bytes_inj {v w : UInt32} (h : u32Bytes v = u32Bytes w) : v = w :=
  UInt32.toNat_inj.mp (leBytes_inj v.toNat_lt w.toNat_lt h)

@[simp] theorem u64Bytes_length (v : UInt64) : (u64Bytes v).length = 8 := leBytes_length 8 _

theorem u32At_append_of_le {a b : Bytes} {off : Nat} (h : a.length ≤ off) :
    u32At (a ++ b) off = u32At b (off - a.length) := by
  rw [u32At, u32At, slice_append_of_le h]
  congr 3
  omega

@[simp] theorem u32At_append_self (v : UInt32) (b : Bytes) : u32At (u32Bytes v ++ b) 0 = v := by
  have hs : slice (u32Bytes v ++ b) 0 (0 + 4) = u32Bytes v := slice_append_exact (by simp)
  have hv : leNat (u32Bytes v) = v.toNat := leNat_leBytes_of_lt v.toNat_lt
  rw [u32At, hs, hv, UInt32.ofNat_toNat]

end Bytes
