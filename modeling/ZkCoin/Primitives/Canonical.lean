import ZkCoin.Primitives.Readers

/-!
# Readers that accept one encoding of each value

The other direction of reading after writing: what a reader takes off the stream is what the writer
would have put there.  The compact sizes reject longer forms than needed, and the variable-length
integers have none, since every continuation adds one.

* `ReadsOnly`                      writing after reading;
* `readVarInt_only`                the variable-length integers;
* `readCompactSize_only`           the compact sizes;
* `ReadsOnly.vector`               vectors of such values.
-/

open Bytes

namespace Serialize

/-- what is read is the encoding of a good value -/
def ReadsOnly {α : Type} (ok : α → Prop) (ser : α → Bytes) (read : Bytes → Option (α × Bytes)) :
    Prop :=
  ∀ s a rest, read s = some (a, rest) → s = ser a ++ rest ∧ ok a

/-! ## fields -/

variable {s rest : Bytes}

theorem readByte_only {b : UInt8} (h : readByte s = some (b, rest)) :
    s = b :: rest := by
  cases s with
  | nil => cases h
  | cons a s =>
    obtain ⟨rfl, rfl⟩ := Prod.mk.inj (Option.some.inj h)
    rfl

variable {n : Nat}

theorem readBytes_only {bs : Bytes} (h : readBytes n s = some (bs, rest)) :
    s = bs ++ rest ∧ bs.length = n := by
  unfold readBytes at h
  split at h
  · cases h
  · rename_i hlen
    obtain ⟨rfl, rfl⟩ := Prod.mk.inj (Option.some.inj h)
    refine ⟨(List.take_append_drop n s).symm, ?_⟩
    rw [List.length_take]
    omega

theorem readFixed_only {b : FixedBytes n} (h : readFixed n s = some (b, rest)) :
    s = b.data ++ rest := by
  unfold readFixed at h
  split at h
  · obtain ⟨rfl, rfl⟩ := Prod.mk.inj (Option.some.inj h)
    exact (List.take_append_drop n s).symm
  · cases h

theorem readLe_only {v : Nat} (h : readLe n s = some (v, rest)) :
    s = leBytes n v ++ rest ∧ v < 256 ^ n := by
  obtain ⟨⟨bs, rest'⟩, hread, heq⟩ := Option.map_eq_some_iff.mp h
  obtain ⟨rfl, rfl⟩ := Prod.mk.inj heq
  obtain ⟨hs, rfl⟩ := readBytes_only hread
  rw [leBytes_leNat]
  exact ⟨hs, leNat_lt bs⟩

/-! ## variable-length integers -/

/-- the bytes `hs` with the continuation bit, after which the loop stands at `n` -/
def HighBytes (hs : Bytes) (n : Nat) : Prop :=
  (hs = [] ∧ n = 0) ∨
    (hs ≠ [] ∧ 128 ^ (hs.length - 1) ≤ n ∧ ∀ fuel, hs.length ≤ fuel → varIntHigh fuel (n - 1) = hs)

theorem ofNat_toNat_high {b : UInt8} (h : b.toNat ≥ 0x80) : UInt8.ofNat (b.toNat % 128 + 0x80) = b := by
  have hlt := b.toNat_lt
  rw [show b.toNat % 128 + 0x80 = b.toNat by omega]
  exact UInt8.ofNat_toNat

theorem HighBytes.next {hs : Bytes} (h : HighBytes hs n) {b : UInt8} (hb : b.toNat ≥ 0x80) :
    HighBytes (hs ++ [b]) (n * 128 + b.toNat % 128 + 1) := by
  refine Or.inr ⟨by simp, ?_, ?_⟩
  · rw [List.length_append, List.length_singleton, Nat.add_sub_cancel]
    rcases h with ⟨rfl, rfl⟩ | ⟨hne, hle, -⟩
    · show 1 ≤ _
      omega
    · have hpos : 0 < hs.length := List.length_pos_iff.mpr hne
      have hpow : 128 ^ hs.length = 128 ^ (hs.length - 1) * 128 := by
        rw [← Nat.pow_succ, show (hs.length - 1).succ = hs.length by omega]
      omega
  · intro fuel hfuel
    rw [List.length_append, List.length_singleton] at hfuel
    obtain ⟨fuel, rfl⟩ : ∃ f, fuel = f + 1 := ⟨fuel - 1, by omega⟩
    rw [Nat.add_sub_cancel, varIntHigh]
    rcases h with ⟨rfl, rfl⟩ | ⟨hne, hle, hhigh⟩
    · rw [if_pos (by omega), Nat.zero_mul, Nat.zero_add, ofNat_toNat_high hb]
      rfl
    · have hpos : 0 < n := Nat.lt_of_lt_of_le (Nat.pow_pos (by omega)) hle
      rw [if_neg (by omega), show (n * 128 + b.toNat % 128) / 128 - 1 = n - 1 by omega,
        show (n * 128 + b.toNat % 128) % 128 = b.toNat % 128 by omega, ofNat_toNat_high hb,
        hhigh fuel (by omega)]

theorem HighBytes.last {hs : Bytes} {max : Nat} (h : HighBytes hs n) (hmax : max < 2 ^ 64)
    (hn : n ≤ max / 128) {b : UInt8} (hb : b.toNat < 0x80) :
    hs ++ [b] = varInt (n * 128 + b.toNat) := by
  unfold varInt
  rcases h with ⟨rfl, rfl⟩ | ⟨hne, hle, hhigh⟩
  · rw [if_pos (by omega), Nat.zero_mul, Nat.zero_add, UInt8.ofNat_toNat]
    rfl
  · have hpos : 0 < n := Nat.lt_of_lt_of_le (Nat.pow_pos (by omega)) hle
    have hlen : hs.length ≤ 9 := by
      by_contra hlong
      have hpow : 128 ^ 9 ≤ 128 ^ (hs.length - 1) := Nat.pow_le_pow_right (by omega) (by omega)
      have hnine : (128 : Nat) ^ 9 = 9223372036854775808 := by decide
      omega
    rw [if_neg (by omega), show (n * 128 + b.toNat) / 128 - 1 = n - 1 by omega,
      show (n * 128 + b.toNat) % 128 = b.toNat by omega, UInt8.ofNat_toNat, hhigh 9 hlen]

theorem readVarIntFrom_only {max v : Nat} {hs : Bytes} (hmax : max < 2 ^ 64) (h : HighBytes hs n)
    (hread : readVarIntFrom max n s = some (v, rest)) :
    hs ++ s = varInt v ++ rest ∧ v / 128 ≤ max / 128 := by
  induction s generalizing n hs with
  | nil => cases hread
  | cons b s ih =>
    unfold readVarIntFrom at hread
    split at hread
    · cases hread
    rename_i hn
    have hn : n ≤ max / 128 := by omega
    dsimp only at hread
    split at hread
    · rename_i hb
      split at hread
      · cases hread
      · obtain ⟨hs', hv⟩ := ih (h.next hb) hread
        rw [List.append_assoc] at hs'
        exact ⟨hs', hv⟩
    · rename_i hb
      have hb : b.toNat < 0x80 := by omega
      obtain ⟨rfl, rfl⟩ := Prod.mk.inj (Option.some.inj hread)
      rw [Nat.mod_eq_of_lt hb, ← h.last hmax hn hb, List.append_assoc]
      exact ⟨rfl, by omega⟩

/-- **Variable-length integers have one encoding.**  The largest value is one below a multiple of
128, as for every integer type of more than seven bits. -/
theorem readVarInt_only {max v : Nat} (hmax : max < 2 ^ 64) (hmod : max % 128 = 127)
    (h : readVarInt max s = some (v, rest)) :
    s = varInt v ++ rest ∧ v ≤ max := by
  obtain ⟨hs, hv⟩ := readVarIntFrom_only hmax (Or.inl ⟨rfl, rfl⟩) h
  exact ⟨hs, by omega⟩

/-! ## compact sizes -/

/-- a size that takes more than one byte is too large for a shorter form -/
theorem readWideSize_only {k low : Nat}
    (h : (do
      let (n, s) ← readLe k s
      guard (¬ n < low)
      guard (¬ (true ∧ n > maxSize))
      some (n, s)) = some (n, rest)) :
    s = leBytes k n ++ rest ∧ low ≤ n ∧ n < 256 ^ k ∧ n ≤ maxSize := by
  simp only [Option.bind_eq_bind, Option.bind_eq_some_iff, guard_eq_some_iff, exists_const] at h
  obtain ⟨⟨v, s₁⟩, hread, hlow, hmax, heq⟩ := h
  obtain ⟨rfl, rfl⟩ := Prod.mk.inj (Option.some.inj heq)
  obtain ⟨hs, hlt⟩ := readLe_only hread
  dsimp only at hlow hmax
  exact ⟨hs, by omega, hlt, by simpa using hmax⟩

theorem readCompactSize_only (h : readCompactSize true s = some (n, rest)) :
    s = compactSize n ++ rest ∧ n ≤ maxSize := by
  unfold readCompactSize at h
  obtain ⟨⟨chSize, s₁⟩, hch, hsize⟩ := Option.bind_eq_some_iff.mp h
  obtain ⟨rfl, hlt⟩ := readLe_only hch
  dsimp only at hsize
  unfold compactSize
  split at hsize
  · rename_i hsmall
    simp only [Option.bind_eq_bind, Option.bind_some, Option.bind_eq_some_iff, guard_eq_some_iff,
      exists_const] at hsize
    obtain ⟨hmax, heq⟩ := hsize
    obtain ⟨rfl, rfl⟩ := Prod.mk.inj (Option.some.inj heq)
    rw [if_pos hsmall]
    exact ⟨rfl, by simpa using hmax⟩
  · split at hsize
    · rename_i hbyte
      obtain ⟨rfl, hlow, hhigh, hmax⟩ := readWideSize_only hsize
      rw [if_neg (by omega), if_pos (by omega), hbyte]
      exact ⟨rfl, hmax⟩
    · split at hsize
      · rename_i hbyte
        obtain ⟨rfl, hlow, hhigh, hmax⟩ := readWideSize_only hsize
        rw [if_neg (by omega), if_neg (by omega), if_pos (by omega), hbyte]
        exact ⟨rfl, hmax⟩
      · obtain ⟨rfl, hlow, hhigh, hmax⟩ := readWideSize_only hsize
        rw [if_neg (by omega), if_neg (by omega), if_neg (by omega), show chSize = 255 by omega]
        exact ⟨rfl, hmax⟩

/-! ## vectors -/

theorem readByteVector_only :
    ReadsOnly (fun bs => bs.length ≤ maxSize) byteVector readByteVector := by
  intro s bs rest h
  obtain ⟨⟨n, s₁⟩, hn, hbs⟩ := Option.bind_eq_some_iff.mp h
  obtain ⟨rfl, hle⟩ := readCompactSize_only hn
  obtain ⟨rfl, rfl⟩ := readBytes_only hbs
  exact ⟨(List.append_assoc _ _ _).symm, hle⟩

theorem ReadsOnly.many {α : Type} {ok : α → Prop} {ser : α → Bytes}
    {read : Bytes → Option (α × Bytes)} (h : ReadsOnly ok ser read) {xs : List α}
    (hread : readMany read n s = some (xs, rest)) :
    s = xs.flatMap ser ++ rest ∧ xs.length = n ∧ ∀ x ∈ xs, ok x := by
  induction n generalizing s xs with
  | zero =>
    obtain ⟨rfl, rfl⟩ := Prod.mk.inj (Option.some.inj hread)
    exact ⟨rfl, rfl, nofun⟩
  | succ n ih =>
    obtain ⟨⟨x, s₁⟩, hx, hread⟩ := Option.bind_eq_some_iff.mp hread
    obtain ⟨⟨ys, s₂⟩, hys, hread⟩ := Option.bind_eq_some_iff.mp hread
    obtain ⟨rfl, rfl⟩ := Prod.mk.inj (Option.some.inj hread)
    obtain ⟨rfl, hok⟩ := h _ _ _ hx
    obtain ⟨rfl, rfl, hall⟩ := ih hys
    refine ⟨by rw [List.flatMap_cons, List.append_assoc], rfl, ?_⟩
    intro y hy
    rcases List.mem_cons.mp hy with rfl | hy
    · exact hok
    · exact hall y hy

theorem ReadsOnly.vector {α : Type} {ok : α → Prop} {ser : α → Bytes}
    {read : Bytes → Option (α × Bytes)} (h : ReadsOnly ok ser read) :
    ReadsOnly (fun xs : List α => xs.length ≤ maxSize ∧ ∀ x ∈ xs, ok x) (Serialize.vector ser)
      (readVector read) := by
  intro s xs rest hread
  obtain ⟨⟨n, s₁⟩, hn, hxs⟩ := Option.bind_eq_some_iff.mp hread
  obtain ⟨rfl, hle⟩ := readCompactSize_only hn
  obtain ⟨rfl, rfl, hall⟩ := h.many hxs
  exact ⟨(List.append_assoc _ _ _).symm, hle, hall⟩

end Serialize
