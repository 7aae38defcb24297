import ZkCoin.Mw.Tx
import ZkCoin.Primitives.Canonical

/-!
# Kernels as bytes

A kernel is read by its feature bits: each bit announces a field.  It is written, hashed and signed by
what the fields hold: a vector that is empty is left out, also when its bit is set.  So a kernel that
announces an empty vector is written without the byte that says so, and what follows is then taken for
the vector.

* `Kernel.read`            the reader of the kernels of a block or a transaction;
* `Kernel.wireBytes`       the bytes that are read as a kernel, and `read_wireBytes`, `read_only`;
* `Kernel.NoEmptyVector`   no bit announces an empty vector;
* `kernel_codec_iff`       exactly then a kernel is written as it was read.
-/

open Bytes Serialize

namespace Mw

/-! ## the reader -/

/-- an amount or a height that is there when its feature bit is set, of a signed type of `bits` bits -/
def readVarIntWhen (bits : Nat) (hbits : bits = 32 ∨ bits = 64) (c : Bool) (s : Bytes) :
    Option ({v : Option Int // v.isSome = c ∧ VarIntRange bits v} × Bytes) :=
  match c with
  | false => some (⟨none, rfl, nofun⟩, s)
  | true =>
    match h : readVarInt (2 ^ (bits - 1) - 1) s with
    | none => none
    | some (n, s) => some (⟨some (n : Int), rfl, by
        obtain ⟨-, hn⟩ : _ ∧ n ≤ 2 ^ (bits - 1) - 1 := by
          rcases hbits with rfl | rfl
          · exact readVarInt_only (by decide) (by decide) h
          · exact readVarInt_only (by decide) (by decide) h
        intro v hv
        obtain rfl := Option.some.inj hv
        rcases hbits with rfl | rfl
        · exact ⟨by omega, by omega⟩
        · exact ⟨by omega, by omega⟩⟩, s)

def readFixedWhen (n : Nat) (c : Bool) (s : Bytes) :
    Option ({v : Option (FixedBytes n) // v.isSome = c} × Bytes) :=
  match c with
  | false => some (⟨none, rfl⟩, s)
  | true => (readFixed n s).map fun (b, s) => (⟨some b, rfl⟩, s)

def readListWhen {α : Type} (read : Bytes → Option (List α × Bytes)) (c : Bool) (s : Bytes) :
    Option ({xs : List α // c = false → xs = []} × Bytes) :=
  match c with
  | false => some (⟨[], fun _ => rfl⟩, s)
  | true => (read s).map fun (xs, s) => (⟨xs, nofun⟩, s)

def PegOutCoin.read (s : Bytes) : Option (PegOutCoin × Bytes) := do
  let (amount, s) ← readVarInt (2 ^ 63 - 1) s
  let (scriptPubKey, s) ← readByteVector s
  -- "Pegout scriptPubKey must not be empty"
  guard (scriptPubKey ≠ [])
  some (⟨amount, scriptPubKey⟩, s)

theorem bit_eq_zero {features bit : UInt8} (h : features &&& bit = 0) : (features &&& bit != 0) = false := by
  rw [h]
  rfl

/-- `Kernel::Unserialize` -/
def Kernel.read (s : Bytes) : Option (Kernel × Bytes) := do
  let (features, s) ← readByte s
  let (fee, s) ← readVarIntWhen 64 (Or.inr rfl) (features &&& 0x01 != 0) s
  let (pegin, s) ← readVarIntWhen 64 (Or.inr rfl) (features &&& 0x02 != 0) s
  let (pegouts, s) ← readListWhen (readVector PegOutCoin.read) (features &&& 0x04 != 0) s
  let (lockHeight, s) ← readVarIntWhen 32 (Or.inl rfl) (features &&& 0x08 != 0) s
  let (stealthExcess, s) ← readFixedWhen 33 (features &&& 0x10 != 0) s
  let (extraData, s) ← readListWhen readByteVector (features &&& 0x20 != 0) s
  let (excess, s) ← readFixed 33 s
  let (signature, s) ← readFixed 64 s
  some ({
    features := features
    fee := fee.1
    pegin := pegin.1
    pegouts := pegouts.1
    lockHeight := lockHeight.1
    stealthExcess := stealthExcess.1
    extraData := extraData.1
    excess := excess
    signature := signature
    fee_iff := fee.2.1
    pegin_iff := pegin.2.1
    pegouts_of := fun h => pegouts.2 (bit_eq_zero h)
    lockHeight_iff := lockHeight.2.1
    stealthExcess_iff := stealthExcess.2
    extraData_of := fun h => extraData.2 (bit_eq_zero h)
    fee_range := fee.2.2
    pegin_range := pegin.2.2
    lockHeight_range := lockHeight.2.2 }, s)

/-! ## what is read as a kernel -/

def varIntField (v : Int) : Bytes := varInt v.toNat

def Kernel.wireBytes (k : Kernel) : Bytes :=
  k.features :: (optBytes varIntField k.fee ++ (optBytes varIntField k.pegin ++
    ((if k.features &&& 0x04 != 0 then vector PegOutCoin.serialize k.pegouts else []) ++
      (optBytes varIntField k.lockHeight ++ (optBytes FixedBytes.data k.stealthExcess ++
        ((if k.features &&& 0x20 != 0 then byteVector k.extraData else []) ++
          (k.excess.data ++ k.signature.data)))))))

structure PegOutCoin.Readable (p : PegOutCoin) : Prop where
  amount : 0 ≤ p.amount ∧ p.amount < 2 ^ 63
  script_ne : p.scriptPubKey ≠ []
  script_le : p.scriptPubKey.length ≤ maxSize

/-- the sizes and amounts that the reader allows -/
structure Kernel.Readable (k : Kernel) : Prop where
  pegouts_le : k.pegouts.length ≤ maxSize
  pegouts : ∀ p ∈ k.pegouts, p.Readable
  extraData_le : k.extraData.length ≤ maxSize

variable {c : Bool}

theorem readVarIntWhen_only {bits : Nat} {hbits : bits = 32 ∨ bits = 64} {s rest : Bytes}
    {v : {v : Option Int // v.isSome = c ∧ VarIntRange bits v}}
    (h : readVarIntWhen bits hbits c s = some (v, rest)) :
    s = optBytes varIntField v.1 ++ rest := by
  unfold readVarIntWhen at h
  cases c with
  | false =>
    obtain ⟨rfl, rfl⟩ := Prod.mk.inj (Option.some.inj h)
    rfl
  | true =>
    dsimp only at h
    split at h
    · cases h
    · rename_i n s₁ hread
      obtain ⟨rfl, rfl⟩ := Prod.mk.inj (Option.some.inj h)
      show s = varInt ((n : Int).toNat) ++ s₁
      rw [Int.toNat_natCast]
      rcases hbits with rfl | rfl
      · exact (readVarInt_only (by decide) (by decide) hread).1
      · exact (readVarInt_only (by decide) (by decide) hread).1

theorem readVarIntWhen_append {bits : Nat} {hbits : bits = 32 ∨ bits = 64} {v : Option Int}
    (hsome : v.isSome = c) (hrange : VarIntRange bits v) (rest : Bytes) :
    readVarIntWhen bits hbits c (optBytes varIntField v ++ rest) = some (⟨v, hsome, hrange⟩, rest) := by
  subst hsome
  cases v with
  | none => rfl
  | some n =>
    obtain ⟨hlow, hhigh⟩ := hrange n rfl
    have hread : readVarInt (2 ^ (bits - 1) - 1) (varInt n.toNat ++ rest) = some (n.toNat, rest) := by
      rcases hbits with rfl | rfl
      · exact readVarInt_varInt (by omega) (by omega) rest
      · exact readVarInt_varInt (by omega) (by omega) rest
    show readVarIntWhen bits hbits true (varInt n.toNat ++ rest) = _
    unfold readVarIntWhen
    dsimp only
    split
    · rename_i hnone
      rw [hread] at hnone
      cases hnone
    · rename_i m s₁ hsome
      rw [hread] at hsome
      obtain ⟨rfl, rfl⟩ := Prod.mk.inj (Option.some.inj hsome)
      simp only [Int.toNat_of_nonneg hlow]

theorem readFixedWhen_only {n : Nat} {s rest : Bytes}
    {v : {v : Option (FixedBytes n) // v.isSome = c}} (h : readFixedWhen n c s = some (v, rest)) :
    s = optBytes FixedBytes.data v.1 ++ rest := by
  unfold readFixedWhen at h
  cases c with
  | false =>
    obtain ⟨rfl, rfl⟩ := Prod.mk.inj (Option.some.inj h)
    rfl
  | true =>
    obtain ⟨⟨b, s₁⟩, hread, heq⟩ := Option.map_eq_some_iff.mp h
    obtain ⟨rfl, rfl⟩ := Prod.mk.inj heq
    exact readFixed_only hread

theorem readFixedWhen_append {n : Nat} {v : Option (FixedBytes n)} (hsome : v.isSome = c)
    (rest : Bytes) :
    readFixedWhen n c (optBytes FixedBytes.data v ++ rest) = some (⟨v, hsome⟩, rest) := by
  subst hsome
  cases v with
  | none => rfl
  | some b =>
    show (readFixed n (b.data ++ rest)).map _ = _
    rw [readFixed_data]
    rfl

theorem readListWhen_only {α : Type} {ok : List α → Prop} {ser : List α → Bytes}
    {read : Bytes → Option (List α × Bytes)} (hread : ReadsOnly ok ser read) (hnil : ok [])
    {s rest : Bytes} {xs : {xs : List α // c = false → xs = []}}
    (h : readListWhen read c s = some (xs, rest)) :
    s = (if c then ser xs.1 else []) ++ rest ∧ ok xs.1 := by
  unfold readListWhen at h
  cases c with
  | false =>
    obtain ⟨rfl, rfl⟩ := Prod.mk.inj (Option.some.inj h)
    exact ⟨rfl, hnil⟩
  | true =>
    obtain ⟨⟨ys, s₁⟩, hys, heq⟩ := Option.map_eq_some_iff.mp h
    obtain ⟨rfl, rfl⟩ := Prod.mk.inj heq
    exact hread _ _ _ hys

theorem readListWhen_append {α : Type} {read : Bytes → Option (List α × Bytes)} {xs : List α}
    (hxs : c = false → xs = []) {bs rest : Bytes} (hread : read (bs ++ rest) = some (xs, rest)) :
    readListWhen read c ((if c then bs else []) ++ rest) = some (⟨xs, hxs⟩, rest) := by
  unfold readListWhen
  cases c with
  | false =>
    obtain rfl := hxs rfl
    rfl
  | true =>
    show (read (bs ++ rest)).map _ = _
    rw [hread]
    rfl

theorem PegOutCoin.read_only : ReadsOnly PegOutCoin.Readable PegOutCoin.serialize PegOutCoin.read := by
  intro s p rest h
  unfold PegOutCoin.read at h
  simp only [Option.bind_eq_bind, Option.bind_eq_some_iff, guard_eq_some_iff, exists_const] at h
  obtain ⟨⟨amount, s₁⟩, hamount, ⟨script, s₂⟩, hscript, hne, heq⟩ := h
  obtain ⟨rfl, rfl⟩ := Prod.mk.inj (Option.some.inj heq)
  obtain ⟨rfl, hle⟩ := readVarInt_only (by decide) (by decide) hamount
  obtain ⟨hs, hlen⟩ := readByteVector_only _ _ _ hscript
  dsimp only at hs hle
  refine ⟨?_, ⟨by dsimp only; omega, by dsimp only; omega⟩, hne, hlen⟩
  rw [hs, PegOutCoin.serialize, List.append_assoc]
  dsimp only
  rw [Int.toNat_natCast]

theorem PegOutCoin.read_serialize : ReadsAs PegOutCoin.Readable id PegOutCoin.serialize PegOutCoin.read := by
  intro p rest h
  obtain ⟨hlow, hhigh⟩ := h.amount
  unfold PegOutCoin.read PegOutCoin.serialize
  rw [List.append_assoc, readVarInt_varInt (by omega) (by omega)]
  simp only [Option.bind_eq_bind, Option.bind_some]
  rw [readByteVector_byteVector h.script_le]
  simp only [Option.bind_some, guard, if_pos h.script_ne, Int.toNat_of_nonneg hlow]
  rfl

/-- **What is read as a kernel** is the kernel with every announced vector written out. -/
theorem Kernel.read_only : ReadsOnly Kernel.Readable Kernel.wireBytes Kernel.read := by
  intro s k rest h
  unfold Kernel.read at h
  simp only [Option.bind_eq_bind, Option.bind_eq_some_iff] at h
  obtain ⟨⟨features, s₁⟩, hfeatures, ⟨fee, s₂⟩, hfee, ⟨pegin, s₃⟩, hpegin, ⟨pegouts, s₄⟩, hpegouts,
    ⟨lockHeight, s₅⟩, hlock, ⟨stealth, s₆⟩, hstealth, ⟨extra, s₇⟩, hextra, ⟨excess, s₈⟩, hexcess,
    ⟨signature, s₉⟩, hsignature, heq⟩ := h
  dsimp only at hfee hpegin hpegouts hlock hstealth hextra hexcess hsignature heq
  obtain ⟨rfl, rfl⟩ := Prod.mk.inj (Option.some.inj heq)
  have hpegouts := readListWhen_only PegOutCoin.read_only.vector ⟨Nat.zero_le _, nofun⟩ hpegouts
  have hextra := readListWhen_only readByteVector_only (Nat.zero_le _) hextra
  refine ⟨?_, hpegouts.2.1, hpegouts.2.2, hextra.2⟩
  rw [readByte_only hfeatures, readVarIntWhen_only hfee, readVarIntWhen_only hpegin, hpegouts.1,
    readVarIntWhen_only hlock, readFixedWhen_only hstealth, hextra.1, readFixed_only hexcess,
    readFixed_only hsignature]
  simp only [Kernel.wireBytes, List.cons_append, List.append_assoc]

theorem Kernel.read_wireBytes : ReadsAs Kernel.Readable id Kernel.wireBytes Kernel.read := by
  intro k rest h
  unfold Kernel.read Kernel.wireBytes
  have hpegouts := PegOutCoin.read_serialize.vector k.pegouts
  simp only [List.cons_append, List.append_assoc, readByte_cons, Option.bind_eq_bind, Option.bind_some,
    readVarIntWhen_append k.fee_iff k.fee_range, readVarIntWhen_append k.pegin_iff k.pegin_range]
  rw [readListWhen_append (fun hbit => k.pegouts_of (by simpa using hbit))
    ((hpegouts _ ⟨h.pegouts_le, h.pegouts⟩).trans (by rw [List.map_id]))]
  simp only [Option.bind_some, readVarIntWhen_append k.lockHeight_iff k.lockHeight_range,
    readFixedWhen_append k.stealthExcess_iff]
  rw [readListWhen_append (fun hbit => k.extraData_of (by simpa using hbit))
    (readByteVector_byteVector h.extraData_le _)]
  simp only [Option.bind_some, readFixed_data]
  rfl

/-! ## what is written, hashed and signed -/

structure Kernel.NoEmptyVector (k : Kernel) : Prop where
  pegouts : (k.features &&& 0x04 != 0) = true → k.pegouts ≠ []
  extraData : (k.features &&& 0x20 != 0) = true → k.extraData ≠ []

def Kernel.fieldBytes (k : Kernel) : Bytes :=
  optBytes varIntField k.fee ++ (optBytes varIntField k.pegin ++
    ((if k.pegouts.isEmpty then [] else vector PegOutCoin.serialize k.pegouts) ++
      (optBytes varIntField k.lockHeight ++ (optBytes FixedBytes.data k.stealthExcess ++
        (if k.extraData.isEmpty then [] else byteVector k.extraData)))))

/-- what `Kernel::GetSignatureMessage` hashes -/
def Kernel.signedBytes (k : Kernel) : Bytes := k.features :: (k.excess.data ++ k.fieldBytes)

def Kernel.getSignatureMessage (blake3 : Bytes → Uint256) (k : Kernel) : Uint256 :=
  blake3 k.signedBytes

theorem Kernel.serialize_eq (k : Kernel) :
    k.serialize = k.features :: (k.fieldBytes ++ (k.excess.data ++ k.signature.data)) := by
  simp only [Kernel.serialize, Kernel.fieldBytes, List.append_assoc, List.singleton_append]
  rfl

theorem announced_eq {α : Type} {xs : List α} (hxs : c = false → xs = []) {bs : Bytes}
    (h : c = true → xs ≠ []) : (if xs.isEmpty then [] else bs) = if c then bs else [] := by
  cases c with
  | false =>
    rw [hxs rfl]
    rfl
  | true =>
    have hne : ¬ xs.isEmpty = true := by simpa using h rfl
    rw [if_neg hne]
    rfl

theorem announced_length {α : Type} (ser : List α → Bytes) {xs : List α} (hxs : c = false → xs = [])
    (hnil : (ser []).length = 1) :
    (if c then ser xs else []).length =
      (if xs.isEmpty then [] else ser xs).length + (if c && xs.isEmpty then 1 else 0) := by
  cases c with
  | false =>
    rw [hxs rfl]
    rfl
  | true =>
    cases xs with
    | nil => exact hnil
    | cons x xs => rfl

theorem Kernel.pegouts_announced (k : Kernel) : (k.features &&& 0x04 != 0) = false → k.pegouts = [] :=
  fun hbit => k.pegouts_of (by simpa using hbit)

theorem Kernel.extraData_announced (k : Kernel) :
    (k.features &&& 0x20 != 0) = false → k.extraData = [] :=
  fun hbit => k.extraData_of (by simpa using hbit)

theorem Kernel.serialize_eq_wireBytes_iff (k : Kernel) : k.serialize = k.wireBytes ↔ k.NoEmptyVector := by
  constructor
  · intro h
    have hlen := congrArg List.length h
    rw [k.serialize_eq, Kernel.wireBytes, Kernel.fieldBytes] at hlen
    simp only [List.length_cons, List.length_append,
      announced_length (vector PegOutCoin.serialize) k.pegouts_announced rfl,
      announced_length byteVector k.extraData_announced rfl] at hlen
    refine ⟨fun hbit hnil => ?_, fun hbit hnil => ?_⟩
    · rw [hbit, hnil] at hlen
      simp at hlen
      omega
    · rw [hbit, hnil] at hlen
      simp at hlen
      omega
  · intro h
    rw [k.serialize_eq, Kernel.wireBytes, Kernel.fieldBytes,
      announced_eq k.pegouts_announced h.pegouts, announced_eq k.extraData_announced h.extraData]
    simp only [List.append_assoc]

/-- the signature aside, a kernel that was read is determined by the bytes that are signed -/
theorem Kernel.eq_of_signedBytes {k₁ k₂ : Kernel} (hread₁ : k₁.Readable) (hread₂ : k₂.Readable)
    (h₁ : k₁.NoEmptyVector) (h₂ : k₂.NoEmptyVector) (h : k₁.signedBytes = k₂.signedBytes) :
    { k₂ with signature := k₁.signature } = k₁ := by
  obtain ⟨hfeatures, h⟩ := List.cons.inj h
  obtain ⟨hexcess, hfields⟩ := List.append_inj h (by rw [k₁.excess.data_length, k₂.excess.data_length])
  -- with the other signature the second kernel is written as the first
  have hsame : Kernel.serialize { k₂ with signature := k₁.signature } = k₁.serialize := by
    rw [Kernel.serialize_eq, k₁.serialize_eq, hfeatures, hexcess, hfields]
    rfl
  have hwire₁ := k₁.serialize_eq_wireBytes_iff.mpr h₁
  have hwire₂ := (Kernel.serialize_eq_wireBytes_iff { k₂ with signature := k₁.signature }).mpr
    ⟨h₂.pegouts, h₂.extraData⟩
  have hback₁ := Kernel.read_wireBytes k₁ [] hread₁
  have hback₂ := Kernel.read_wireBytes { k₂ with signature := k₁.signature } []
    ⟨hread₂.pegouts_le, hread₂.pegouts, hread₂.extraData_le⟩
  rw [← hwire₂, hsame, hwire₁, hback₁] at hback₂
  exact (Prod.mk.inj (Option.some.inj hback₂)).1.symm

/-- **The kernel codec.**  A kernel that was read is written as it was read, and read again as it is,
exactly when no feature bit announces an empty vector.  Among such kernels different bytes have
different ids, and what is signed determines all but the signature. -/
theorem kernel_codec_iff (blake3 : Bytes → Uint256) :
    (∀ bytes k, Kernel.read bytes = some (k, []) →
      (k.serialize = bytes ↔ k.NoEmptyVector) ∧
      (Kernel.read k.serialize = some (k, []) ↔ k.NoEmptyVector)) ∧
    (∀ bytes₁ bytes₂ k₁ k₂, Kernel.read bytes₁ = some (k₁, []) → Kernel.read bytes₂ = some (k₂, []) →
      k₁.NoEmptyVector → k₂.NoEmptyVector →
      (CollisionFree blake3 [k₁.serialize, k₂.serialize] → bytes₁ ≠ bytes₂ →
        k₁.getHash blake3 ≠ k₂.getHash blake3) ∧
      (CollisionFree blake3 [k₁.signedBytes, k₂.signedBytes] →
        k₁.getSignatureMessage blake3 = k₂.getSignatureMessage blake3 →
        k₁.features = k₂.features ∧ k₁.excess = k₂.excess ∧ k₁.fee = k₂.fee ∧ k₁.pegin = k₂.pegin ∧
          k₁.pegouts = k₂.pegouts ∧ k₁.lockHeight = k₂.lockHeight ∧
          k₁.stealthExcess = k₂.stealthExcess ∧ k₁.extraData = k₂.extraData)) := by
  refine ⟨?_, ?_⟩
  · intro bytes k hread
    obtain ⟨hbytes, hok⟩ := Kernel.read_only bytes k [] hread
    rw [List.append_nil] at hbytes
    subst hbytes
    refine ⟨k.serialize_eq_wireBytes_iff, ?_, ?_⟩
    · intro hagain
      obtain ⟨hwire, -⟩ := Kernel.read_only _ _ _ hagain
      rw [List.append_nil] at hwire
      exact k.serialize_eq_wireBytes_iff.mp hwire
    · intro hvec
      rw [k.serialize_eq_wireBytes_iff.mpr hvec]
      exact hread
  · intro bytes₁ bytes₂ k₁ k₂ hread₁ hread₂ h₁ h₂
    obtain ⟨hbytes₁, hok₁⟩ := Kernel.read_only bytes₁ k₁ [] hread₁
    obtain ⟨hbytes₂, hok₂⟩ := Kernel.read_only bytes₂ k₂ [] hread₂
    rw [List.append_nil] at hbytes₁ hbytes₂
    refine ⟨?_, ?_⟩
    · intro hfree hne hhash
      have hsame := hfree _ (by simp) _ (by simp) hhash
      rw [k₁.serialize_eq_wireBytes_iff.mpr h₁, k₂.serialize_eq_wireBytes_iff.mpr h₂, ← hbytes₁,
        ← hbytes₂] at hsame
      exact hne hsame
    · intro hfree hmessage
      have hsame := hfree _ (by simp) _ (by simp) hmessage
      have heq := Kernel.eq_of_signedBytes hok₁ hok₂ h₁ h₂ hsame
      rw [← heq]
      exact ⟨rfl, rfl, rfl, rfl, rfl, rfl, rfl, rfl⟩

def sampleTail : Bytes := List.replicate 33 8 ++ List.replicate 64 9

def pegoutKernelBytes : Bytes := [0x0c, 1, 3, 1, 0x51, 7] ++ sampleTail

theorem kernel_codec_sample :
    ∃ k, Kernel.read pegoutKernelBytes = some (k, []) ∧ k.serialize = pegoutKernelBytes ∧
      k.pegouts = [⟨3, [0x51]⟩] := by
  have hany : (Kernel.read pegoutKernelBytes).any (fun r => decide (r.2 = [] ∧
      r.1.pegouts = [⟨3, [0x51]⟩] ∧ r.1.features = 0x0c)) = true := by
    decide +kernel
  obtain ⟨⟨k, rest⟩, hread, hk⟩ := (Option.any_eq_true _ _).mp hany
  obtain ⟨rfl, hpegouts, hfeatures⟩ := of_decide_eq_true hk
  dsimp only at hpegouts hfeatures
  have hvec : k.NoEmptyVector := by
    refine ⟨fun _ => ?_, fun hbit => ?_⟩
    · rw [hpegouts]
      exact List.cons_ne_nil _ _
    · rw [hfeatures] at hbit
      cases hbit
  exact ⟨k, hread, ((kernel_codec_iff Uint256.polyHash).1 _ k hread).1.mpr hvec, hpegouts⟩

/-- no peg-outs, a lock height of 1 and three bytes of extra data; one peg-out, a lock height of 7 and
no extra data; both announce all three fields -/
def noPegoutsBytes : Bytes := [0x2c, 0, 1, 3, 1, 0x51, 7] ++ sampleTail
def noExtraDataBytes : Bytes := [0x2c, 1, 3, 1, 0x51, 7, 0] ++ sampleTail

/-- kernels that announce an empty vector: they are not written as they were read and cannot be read
again, and two different ones have one id and one signature message -/
theorem empty_vector_not_written :
    ∃ k₁ k₂, Kernel.read noPegoutsBytes = some (k₁, []) ∧
      Kernel.read noExtraDataBytes = some (k₂, []) ∧ k₁.serialize ≠ noPegoutsBytes ∧
      Kernel.read k₁.serialize = none ∧ k₁.pegouts ≠ k₂.pegouts ∧
      k₁.getHash Uint256.polyHash = k₂.getHash Uint256.polyHash ∧
      k₁.getSignatureMessage Uint256.polyHash = k₂.getSignatureMessage Uint256.polyHash := by
  have hany : (Kernel.read noPegoutsBytes).any (fun r₁ => (Kernel.read noExtraDataBytes).any fun r₂ =>
      decide (r₁.2 = [] ∧ r₂.2 = [] ∧ r₁.1.serialize ≠ noPegoutsBytes ∧
        Kernel.read r₁.1.serialize = none ∧ r₁.1.pegouts ≠ r₂.1.pegouts ∧
        r₁.1.getHash Uint256.polyHash = r₂.1.getHash Uint256.polyHash ∧
        r₁.1.getSignatureMessage Uint256.polyHash = r₂.1.getSignatureMessage Uint256.polyHash)) =
      true := by
    decide +kernel
  obtain ⟨⟨k₁, rest₁⟩, hread₁, hany⟩ := (Option.any_eq_true _ _).mp hany
  obtain ⟨⟨k₂, rest₂⟩, hread₂, hk⟩ := (Option.any_eq_true _ _).mp hany
  obtain ⟨rfl, rfl, hfacts⟩ := of_decide_eq_true hk
  exact ⟨k₁, k₂, hread₁, hread₂, hfacts⟩

end Mw
