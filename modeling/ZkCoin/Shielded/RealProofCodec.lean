import Mathlib.Data.List.Forall2
import ZkCoin.Library.Frames
import ZkCoin.Shielded.RealProof

/-!
# Real-proof codecs

Each decoder accepts exactly what its builder writes: the 32-bit length field has to hold the length,
which the builders truncate, and some payloads must not be empty.  The halo2 payload forms are told
apart by their prefix.

* `requestHeaderV1`, `nativeHeaderV1`, `actionHeaderV1`, `bundleHeaderV1` — every encoding is a frame.
* `decode…_eq_some_iff` — a decoder and its builder.
* `decode…_build`       — a decoder on a built encoding.
-/

open Bytes

namespace Shielded

/-! ## lengths -/

@[simp] theorem orchardRealProofPrefixV1_length : orchardRealProofPrefixV1.length = 19 := by decide

@[simp] theorem orchardRealNativeProofPrefixV1_length :
    orchardRealNativeProofPrefixV1.length = 27 := by decide

@[simp] theorem orchardHalo2ActionProofPrefixV1_length :
    orchardHalo2ActionProofPrefixV1.length = 27 := by decide

@[simp] theorem orchardHalo2BundleProofPrefixV1_length :
    orchardHalo2BundleProofPrefixV1.length = 27 := by decide

@[simp] theorem record_length (a : OrchardHalo2ActionInstanceV1) : a.record.length = 160 := by
  simp [OrchardHalo2ActionInstanceV1.record]

theorem flatMap_record_length (actions : List OrchardHalo2ActionInstanceV1) :
    (actions.flatMap OrchardHalo2ActionInstanceV1.record).length = actions.length * 160 := by
  induction actions with
  | nil => rfl
  | cons a l ih => simp [ih, Nat.add_mul, Nat.add_comm]

/-! ## fields as prefixes -/

theorem u64Bytes_prefix_drop_iff {bs : Bytes} {n : Nat} {v : UInt64} (hroom : n + 8 ≤ bs.length) :
    u64Bytes v <+: bs.drop n ↔ u64At bs n = v := by
  rw [u64Bytes, leBytes_prefix_drop_iff hroom v.toNat_lt, u64At]
  constructor
  · intro h
    rw [h, UInt64.ofNat_toNat]
  · intro h
    rw [← h]
    have hlt := leNat_lt (slice bs n (n + 8))
    rw [slice_length hroom, Nat.add_sub_cancel_left] at hlt
    exact (Nat.mod_eq_of_lt hlt).symm

theorem u32Bytes_prefix_drop_iff {bs : Bytes} {n : Nat} {v : UInt32} (hroom : n + 4 ≤ bs.length) :
    u32Bytes v <+: bs.drop n ↔ u32At bs n = v := by
  rw [u32Bytes, leBytes_prefix_drop_iff hroom v.toNat_lt, ← u32At_toNat, UInt32.toNat_inj]

theorem getElem?_boolByte_iff {bs : Bytes} {n : Nat} {b : Bool} :
    bs[n]? = some (boolByte b) ↔ flagAt bs n = some b := by
  rw [flagAt]
  cases h : bs[n]? with
  | none => simp
  | some x =>
    simp only [Option.some.injEq, Option.bind_eq_bind, Option.bind_some]
    cases b with
    | false =>
      constructor
      · rintro rfl
        rfl
      · intro hflag
        split_ifs at hflag with hzero hone
        · exact hzero
        · cases hflag
    | true =>
      constructor
      · rintro rfl
        rfl
      · intro hflag
        split_ifs at hflag with hzero hone
        · cases hflag
        · exact hone

theorem record_prefix_drop_iff {bs : Bytes} {n : Nat} {a : OrchardHalo2ActionInstanceV1} :
    a.record <+: bs.drop n ↔ OrchardHalo2ActionInstanceV1.readAt bs n = some a := by
  simp only [OrchardHalo2ActionInstanceV1.record, append_prefix_iff, List.drop_drop,
    List.length_append, Uint256.data_length, Uint256.data_prefix_drop_iff,
    OrchardHalo2ActionInstanceV1.readAt, hashSize, Option.bind_eq_bind, Option.bind_eq_some_iff,
    Option.some.injEq, and_assoc, Nat.reduceAdd, Nat.reduceMul]
  constructor
  · intro ⟨h1, h2, h3, h4, h5⟩
    exact ⟨_, h1, _, h2, _, h3, _, h4, _, h5, rfl⟩
  · rintro ⟨_, h1, _, h2, _, h3, _, h4, _, h5, rfl⟩
    exact ⟨h1, h2, h3, h4, h5⟩

theorem records_prefix_drop_iff {bs : Bytes} {n : Nat} {actions : List OrchardHalo2ActionInstanceV1} :
    actions.flatMap OrchardHalo2ActionInstanceV1.record <+: bs.drop n ↔
      ((List.range actions.length).mapM fun index =>
        OrchardHalo2ActionInstanceV1.readAt bs (n + index * 160)) = some actions := by
  induction actions generalizing n with
  | nil => simp
  | cons a l ih =>
    have hshift : (fun index => OrchardHalo2ActionInstanceV1.readAt bs (n + (index + 1) * 160)) =
        fun index => OrchardHalo2ActionInstanceV1.readAt bs (n + 160 + index * 160) := by
      funext index
      congr 1
      omega
    rw [List.flatMap_cons, append_prefix_iff, record_prefix_drop_iff, record_length, List.drop_drop, ih,
      List.length_cons, List.range_succ_eq_map, List.mapM_cons, List.mapM_map, Nat.zero_mul, Nat.add_zero]
    simp only [Function.comp_def, Nat.succ_eq_add_one, hshift, Option.bind_eq_bind,
      Option.bind_eq_some_iff, Option.pure_def, Option.some.injEq, List.cons.injEq]
    constructor
    · intro ⟨hfirst, hrest⟩
      exact ⟨a, hfirst, l, hrest, rfl, rfl⟩
    · rintro ⟨_, hfirst, _, hrest, rfl, rfl⟩
      exact ⟨hfirst, hrest⟩

theorem forall₂_of_mapM {α β : Type} {f : α → Option β} {xs : List α} {ys : List β}
    (h : xs.mapM f = some ys) : List.Forall₂ (fun x y => f x = some y) xs ys := by
  induction xs generalizing ys with
  | nil =>
    cases h
    exact .nil
  | cons x xs ih =>
    simp only [List.mapM_cons, Option.bind_eq_bind, Option.bind_eq_some_iff, Option.pure_def,
      Option.some.injEq] at h
    obtain ⟨y, hy, ys', hys, rfl⟩ := h
    exact .cons hy (ih hys)

/-! ## headers -/

def requestHeaderV1 (kind : UInt8) (pih vk : Uint256) : Bytes :=
  orchardRealProofPrefixV1 ++ [proofBundleFlagsNone] ++ [kind] ++ pih.data ++ vk.data

def nativeHeaderV1 (vk vi : Uint256) : Bytes :=
  orchardRealNativeProofPrefixV1 ++ [proofBundleFlagsNone] ++ vk.data ++ vi.data

/-- the fixed header of a bundle payload, before the action records -/
def bundleHeader (kind : UInt8) (value : UInt64) (binding : Uint256) (spend output : Bool)
    (index : UInt32) (count : Nat) : Bytes :=
  orchardHalo2BundleProofPrefixV1 ++ [kind] ++ leBytes 4 count ++ u32Bytes index ++
    u64Bytes value ++ binding.data ++ [boolByte spend] ++ [boolByte output]

variable (kind : UInt8)

theorem bundleHeader_length (value : UInt64) (binding : Uint256) (spend output : Bool)
    (index : UInt32) (count : Nat) :
    (bundleHeader kind value binding spend output index count).length = 78 := by
  simp [bundleHeader]

def actionHeaderV1 (kind : UInt8) (value : UInt64) (binding : Uint256)
    (action : OrchardHalo2ActionInstanceV1) (spend output : Bool) : Bytes :=
  orchardHalo2ActionProofPrefixV1 ++ [kind] ++ u64Bytes value ++ binding.data ++ action.record ++
    [boolByte spend] ++ [boolByte output]

@[simp] theorem actionHeaderV1_length (value : UInt64) (binding : Uint256)
    (action : OrchardHalo2ActionInstanceV1) (spend output : Bool) :
    (actionHeaderV1 kind value binding action spend output).length = 230 := by
  simp [actionHeaderV1]

theorem buildOrchardHalo2ActionProofBytesV1_eq (value : UInt64) (binding : Uint256)
    (action : OrchardHalo2ActionInstanceV1) (spend output : Bool) (bytes : Bytes) :
    buildOrchardHalo2ActionProofBytesV1 kind value binding action spend output bytes =
      frame (actionHeaderV1 kind value binding action spend output) bytes := by
  simp only [buildOrchardHalo2ActionProofBytesV1, frame, actionHeaderV1, List.append_assoc]

def bundleHeaderV1 (kind : UInt8) (index : UInt32) (value : UInt64) (binding : Uint256)
    (actions : List OrchardHalo2ActionInstanceV1) (spend output : Bool) : Bytes :=
  bundleHeader kind value binding spend output index actions.length ++
    actions.flatMap OrchardHalo2ActionInstanceV1.record

theorem bundleHeaderV1_length (index : UInt32) (value : UInt64) (binding : Uint256)
    (actions : List OrchardHalo2ActionInstanceV1) (spend output : Bool) :
    (bundleHeaderV1 kind index value binding actions spend output).length =
      78 + actions.length * 160 := by
  rw [bundleHeaderV1, List.length_append, bundleHeader_length, flatMap_record_length]

theorem buildOrchardHalo2BundleProofBytesV1_eq (index : UInt32) (value : UInt64) (binding : Uint256)
    (actions : List OrchardHalo2ActionInstanceV1) (spend output : Bool) (bytes : Bytes) :
    buildOrchardHalo2BundleProofBytesV1 kind index value binding actions spend output bytes =
      frame (bundleHeaderV1 kind index value binding actions spend output) bytes := by
  simp only [buildOrchardHalo2BundleProofBytesV1, frame, bundleHeaderV1, bundleHeader,
    List.append_assoc]

@[simp] theorem requestHeaderV1_length (pih vk : Uint256) :
    (requestHeaderV1 kind pih vk).length = 85 := by
  simp [requestHeaderV1]

@[simp] theorem nativeHeaderV1_length (vk vi : Uint256) : (nativeHeaderV1 vk vi).length = 92 := by
  simp [nativeHeaderV1]

theorem buildOrchardRealProofV1_eq (hash256 : Bytes → Uint256) (kind : UInt8) (pih : Uint256)
    (bytes : Bytes) : buildOrchardRealProofV1 hash256 kind pih bytes =
      frame (requestHeaderV1 kind pih (expectedOrchardRealVerifierKeyHashV1 hash256)) bytes := by
  simp only [buildOrchardRealProofV1, frame, requestHeaderV1, List.append_assoc]

theorem buildOrchardNativeProofBytesV1_eq (hash256 : Bytes → Uint256)
    (input : OrchardRealVerifierInput) (bytes : Bytes) :
    buildOrchardNativeProofBytesV1 hash256 input bytes =
      frame (nativeHeaderV1 input.verifierKeyHash (input.inputHashV1 hash256)) bytes := by
  simp only [buildOrchardNativeProofBytesV1, frame, nativeHeaderV1, List.append_assoc]

/-! ## decoders and builders -/

theorem flags_of_publicInputHash {hash256 : Bytes → Uint256} {kind : UInt8} {value : UInt64}
    {binding : Uint256} {a : OrchardHalo2ActionInstanceV1} {spend output : Bool} {pih : Uint256}
    (h : orchardHalo2ActionPublicInputHashV1 hash256 kind value binding a spend output = some pih) :
    orchardHalo2ActionFlagsMatchMarkerV1 kind spend output = true :=
  (guard_bind_eq_some.mp h).1

theorem kind_of_flags {kind : UInt8} {spend output : Bool}
    (h : orchardHalo2ActionFlagsMatchMarkerV1 kind spend output = true) :
    kind = shieldedActionMint ∨ kind = shieldedActionSpend := by
  unfold orchardHalo2ActionFlagsMatchMarkerV1 at h
  split at h
  · exact .inl ‹_›
  · split at h
    · exact .inr ‹_›
    · cases h

theorem exists_publicInputHash (hash256 : Bytes → Uint256) {kind : UInt8} {spend output : Bool}
    (h : orchardHalo2ActionFlagsMatchMarkerV1 kind spend output = true) (value : UInt64)
    (binding : Uint256) (a : OrchardHalo2ActionInstanceV1) :
    ∃ pih, orchardHalo2ActionPublicInputHashV1 hash256 kind value binding a spend output =
      some pih := by
  obtain ⟨p, hp⟩ : ∃ p, shieldedMarkerFieldPreimageV1 kind value a.anchor a.nfOld a.cmx = some p := by
    rcases kind_of_flags h with rfl | rfl
    · exact ⟨_, rfl⟩
    · exact ⟨_, rfl⟩
  refine ⟨proofPublicInputHash hash256 kind (hash256 p) binding, ?_⟩
  refine guard_bind_eq_some.mpr ⟨h, ?_⟩
  rw [shieldedMarkerFieldHashV1, hp]
  rfl

section
variable {hash256 : Bytes → Uint256}

theorem decodeOrchardRealProofRequestV1_eq_some_iff {proof : Bytes} {kind : UInt8} {pih : Uint256}
    {request : OrchardRealProofRequest} :
    decodeOrchardRealProofRequestV1 hash256 proof kind pih = some request ↔
      proof = buildOrchardRealProofV1 hash256 kind pih request.proofBytes ∧
        request.proofBytes.length < 2 ^ 32 ∧ request = ⟨kind, pih,
          expectedOrchardRealVerifierKeyHashV1 hash256, request.proofBytes⟩ := by
  rw [buildOrchardRealProofV1_eq, ← and_assoc, frame_iff (requestHeaderV1_length kind pih _)]
  simp only [decodeOrchardRealProofRequestV1, orchardRealProofHeaderLenV1, hashSize,
    orchardRealProofPrefixV1_length, Option.bind_eq_bind, Option.bind_eq_some_iff, guard_eq_some_iff,
    exists_const, Option.some.injEq, u32At_toNat, requestHeaderV1, append_prefix_iff,
    List.length_append, List.length_singleton, Uint256.data_length, singleton_prefix_drop_iff,
    Uint256.data_prefix_drop_iff, and_assoc, Nat.reduceAdd]
  constructor
  · rintro ⟨hroom, hstart, hflags, hkind, hpih, vk, hvk, rfl, hlen, rfl⟩
    exact ⟨hroom, hstart, hflags, hkind, hpih, hvk, hlen, rfl, rfl⟩
  · rintro ⟨hroom, hstart, hflags, hkind, hpih, hvk, hlen, hdrop, heq⟩
    refine ⟨hroom, hstart, hflags, hkind, hpih, _, hvk, rfl, hlen, ?_⟩
    rw [heq, hdrop]

theorem decodeOrchardNativeProofBytesV1_eq_some_iff {request : OrchardRealProofRequest}
    {native : OrchardNativeProof} :
    decodeOrchardNativeProofBytesV1 hash256 request = some native ↔
      request.proofBytes =
          buildOrchardNativeProofBytesV1 hash256 request.verifierInput native.proofBytes ∧
        native.proofBytes.length < 2 ^ 32 ∧ native.proofBytes ≠ [] ∧
        native = ⟨request.verifierKeyHash, request.verifierInputHashV1 hash256, native.proofBytes⟩ := by
  rw [buildOrchardNativeProofBytesV1_eq, ← and_assoc, frame_iff (nativeHeaderV1_length _ _)]
  simp only [decodeOrchardNativeProofBytesV1, orchardRealNativeProofHeaderLenV1, hashSize,
    orchardRealNativeProofPrefixV1_length, Option.bind_eq_bind, Option.bind_eq_some_iff,
    guard_eq_some_iff, exists_const, Option.some.injEq, u32At_toNat, nativeHeaderV1,
    append_prefix_iff, List.length_append, List.length_singleton, Uint256.data_length,
    singleton_prefix_drop_iff, Uint256.data_prefix_drop_iff, and_assoc, Nat.reduceAdd, not_or,
    ne_eq, not_not]
  constructor
  · rintro ⟨hroom, hstart, hflags, vk, hvk, rfl, vi, hvi, rfl, hpos, hlen, rfl⟩
    refine ⟨hroom, hstart, hflags, hvk, hvi, hlen, rfl, ?_, rfl⟩
    intro hnil
    rw [List.drop_eq_nil_iff] at hnil
    omega
  · rintro ⟨hroom, hstart, hflags, hvk, hvi, hlen, hdrop, hne, heq⟩
    refine ⟨hroom, hstart, hflags, _, hvk, rfl, _, hvi, rfl, ?_, hlen, ?_⟩
    · intro hzero
      apply hne
      rw [← hdrop, List.drop_eq_nil_iff]
      omega
    · rw [heq, hdrop]
      rfl

theorem lengthCheck_iff {bs : Bytes} {n : Nat} (hroom : n ≤ bs.length) (k : Nat) :
    (¬ (k = 0 ∨ k ≠ bs.length - n)) ↔ k = bs.length - n ∧ bs.drop n ≠ [] := by
  rw [ne_eq (bs.drop n), List.drop_eq_nil_iff]
  omega

theorem decodeOrchardHalo2ActionProofBytesV1_eq_some_iff {proof : Bytes} {kind : UInt8}
    {pih : Uint256} {p : OrchardHalo2ActionProof} :
    decodeOrchardHalo2ActionProofBytesV1 hash256 proof kind pih = some p ↔
      proof = buildOrchardHalo2ActionProofBytesV1 p.proofKind p.shieldedValue p.txBindingHash p.action
          p.enableSpend p.enableOutput p.proofBytes ∧
        p.proofBytes.length < 2 ^ 32 ∧ p.proofBytes ≠ [] ∧ p.proofKind = kind ∧
        orchardHalo2ActionPublicInputHashV1 hash256 kind p.shieldedValue p.txBindingHash p.action
          p.enableSpend p.enableOutput = some pih := by
  rw [buildOrchardHalo2ActionProofBytesV1_eq, ← and_assoc, frame_iff (actionHeaderV1_length _ _ _ _ _ _)]
  simp only [decodeOrchardHalo2ActionProofBytesV1, Option.bind_eq_bind, Option.bind_eq_some_iff,
    guard_eq_some_iff, exists_const, Option.some.injEq]
  simp only [orchardHalo2ActionProofHeaderLenV1, orchardHalo2ActionRecordLenV1, hashSize,
    orchardHalo2ActionProofPrefixV1_length, u32At_toNat, actionHeaderV1, append_prefix_iff,
    List.length_append, List.length_singleton, Uint256.data_length, u64Bytes_length, record_length,
    singleton_prefix_drop_iff, Uint256.data_prefix_drop_iff, getElem?_boolByte_iff,
    record_prefix_drop_iff, and_assoc, Nat.reduceAdd, Nat.reduceMul]
  constructor
  · rintro ⟨hroom, hstart, hkind, binding, hbinding, action, haction, spend, hspend, output, houtput,
      hflags, hash, hhash, rfl, hlen, rfl⟩
    rw [lengthCheck_iff hroom] at hlen
    exact ⟨hroom, hstart, hkind, (u64Bytes_prefix_drop_iff (by omega)).mpr rfl, hbinding, haction,
      hspend, houtput, hlen.1, rfl, hlen.2, rfl, hhash⟩
  · rintro ⟨hroom, hstart, hkind, hvalue, hbinding, haction, hspend, houtput, hlen, hdrop, hne, rfl,
      hhash⟩
    rw [u64Bytes_prefix_drop_iff (by omega)] at hvalue
    refine ⟨hroom, hstart, hkind, _, hbinding, _, haction, _, hspend, _, houtput,
      flags_of_publicInputHash hhash, pih, ?_, rfl, (lengthCheck_iff hroom _).mpr ⟨hlen, ?_⟩, ?_⟩
    · rw [hvalue]
      exact hhash
    · rw [hdrop]
      exact hne
    · rw [hvalue, hdrop]

theorem decodeOrchardHalo2BundleProofBytesV1_eq_some_iff {proof : Bytes} {kind : UInt8}
    {pih : Uint256} {p : OrchardHalo2BundleProof} :
    decodeOrchardHalo2BundleProofBytesV1 hash256 proof kind pih = some p ↔
      proof = buildOrchardHalo2BundleProofBytesV1 p.proofKind p.markerActionIndex p.shieldedValue
          p.txBindingHash p.actions p.enableSpend p.enableOutput p.proofBytes ∧
        p.proofBytes.length < 2 ^ 32 ∧ p.proofBytes ≠ [] ∧ p.actions.length < 2 ^ 32 ∧
        p.proofKind = kind ∧ ∃ a, p.actions[p.markerActionIndex.toNat]? = some a ∧
          orchardHalo2ActionPublicInputHashV1 hash256 kind p.shieldedValue p.txBindingHash a
            p.enableSpend p.enableOutput = some pih := by
  rw [buildOrchardHalo2BundleProofBytesV1_eq, ← and_assoc, frame_iff (bundleHeaderV1_length _ _ _ _ _ _ _)]
  simp only [decodeOrchardHalo2BundleProofBytesV1, Option.bind_eq_bind, Option.bind_eq_some_iff,
    guard_eq_some_iff, exists_const, Option.some.injEq]
  simp only [orchardHalo2BundleProofFixedHeaderLenV1, orchardHalo2ActionRecordLenV1, hashSize,
    orchardHalo2BundleProofPrefixV1_length, bundleHeaderV1, bundleHeader, append_prefix_iff,
    List.length_append, List.length_singleton, Uint256.data_length, u32Bytes_length, u64Bytes_length,
    leBytes_length, singleton_prefix_drop_iff, Uint256.data_prefix_drop_iff, getElem?_boolByte_iff,
    records_prefix_drop_iff, and_assoc, Nat.reduceAdd, Nat.reduceMul]
  constructor
  · rintro ⟨hfixed, hstart, hkind, hpos, hindex, binding, hbinding, spend, hspend, output, houtput,
      hflags, hroom, actions, hactions, a, ha, hash, hhash, rfl, hlen, rfl⟩
    have hcount : actions.length = (u32At proof 28).toNat := by
      rw [← (forall₂_of_mapM hactions).length_eq, List.length_range]
    have hlt : actions.length < 2 ^ 32 := hcount ▸ (u32At proof 28).toNat_lt
    rw [← hcount] at hroom hlen hactions ⊢
    rw [lengthCheck_iff hroom, u32At_toNat] at hlen
    refine ⟨hroom, hstart, hkind, ?_, (u32Bytes_prefix_drop_iff (by omega)).mpr rfl,
      (u64Bytes_prefix_drop_iff (by omega)).mpr rfl, hbinding, hspend, houtput, hactions, hlen.1, rfl,
      hlen.2, hlt, rfl, a, ha, hhash⟩
    rw [leBytes_prefix_drop_iff (by omega) (by simpa using hlt), ← u32At_toNat, hcount]
  · rintro ⟨hroom, hstart, hkind, hcount, hindex, hvalue, hbinding, hspend, houtput, hactions, hlen,
      hdrop, hne, hlt, rfl, a, ha, hhash⟩
    rw [leBytes_prefix_drop_iff (by omega) (by simpa using hlt), ← u32At_toNat] at hcount
    rw [u32Bytes_prefix_drop_iff (by omega)] at hindex
    rw [u64Bytes_prefix_drop_iff (by omega)] at hvalue
    have hin : p.markerActionIndex.toNat < p.actions.length := (List.getElem?_eq_some_iff.mp ha).1
    refine ⟨by omega, hstart, hkind, by omega, by rw [hindex]; omega, _, hbinding, _, hspend, _, houtput,
      flags_of_publicInputHash hhash, by omega, p.actions, ?_, a, ?_, pih, ?_, rfl, ?_, ?_⟩
    · rw [hcount]
      exact hactions
    · rw [hindex]
      exact ha
    · rw [hvalue]
      exact hhash
    · rw [hcount, lengthCheck_iff hroom, u32At_toNat, hdrop]
      exact ⟨hlen, hne⟩
    · rw [hcount, hindex, hvalue, hdrop]

end

/-! ## built encodings -/

theorem eq_ite_of_eq_some_iff {α : Type} {x : Option α} {c : Prop} [Decidable c] {v : α}
    (h : ∀ r, x = some r ↔ c ∧ r = v) : x = if c then some v else none := by
  by_cases hc : c
  · rw [if_pos hc]
    exact (h v).mpr ⟨hc, rfl⟩
  · rw [if_neg hc, Option.eq_none_iff_forall_ne_some]
    intro r hr
    exact hc ((h r).mp hr).1

section
variable (hash256 : Bytes → Uint256)

theorem decodeOrchardRealProofRequestV1_build (kind : UInt8) (pih : Uint256) (bytes : Bytes) :
    decodeOrchardRealProofRequestV1 hash256 (buildOrchardRealProofV1 hash256 kind pih bytes) kind pih
      = if bytes.length < 2 ^ 32 then
          some ⟨kind, pih, expectedOrchardRealVerifierKeyHashV1 hash256, bytes⟩
        else none := by
  refine eq_ite_of_eq_some_iff fun r => ?_
  rw [decodeOrchardRealProofRequestV1_eq_some_iff]
  constructor
  · intro ⟨hbuilt, hlen, hr⟩
    rw [buildOrchardRealProofV1_eq, buildOrchardRealProofV1_eq] at hbuilt
    obtain ⟨-, hbytes⟩ := frame_inj rfl hbuilt
    rw [← hbytes] at hlen hr
    exact ⟨hlen, hr⟩
  · intro ⟨hlen, hr⟩
    rw [hr]
    exact ⟨rfl, hlen, rfl⟩

theorem decodeOrchardNativeProofBytesV1_build (input : OrchardRealVerifierInput) (bytes : Bytes) :
    decodeOrchardNativeProofBytesV1 hash256 ⟨input.proofKind, input.publicInputHash,
        input.verifierKeyHash, buildOrchardNativeProofBytesV1 hash256 input bytes⟩
      = if 0 < bytes.length ∧ bytes.length < 2 ^ 32 then
          some ⟨input.verifierKeyHash, input.inputHashV1 hash256, bytes⟩
        else none := by
  refine eq_ite_of_eq_some_iff fun r => ?_
  rw [decodeOrchardNativeProofBytesV1_eq_some_iff]
  constructor
  · intro ⟨hbuilt, hlen, hne, hr⟩
    rw [buildOrchardNativeProofBytesV1_eq, buildOrchardNativeProofBytesV1_eq] at hbuilt
    obtain ⟨-, hbytes⟩ := frame_inj rfl hbuilt
    rw [← hbytes] at hlen hne hr
    exact ⟨⟨List.length_pos_iff.mpr hne, hlen⟩, hr⟩
  · intro ⟨⟨hpos, hlen⟩, hr⟩
    rw [hr]
    exact ⟨rfl, hlen, List.length_pos_iff.mp hpos, rfl⟩

variable (kind : UInt8) (value : UInt64) (binding : Uint256) (spend output : Bool) (pih : Uint256)

theorem decodeOrchardHalo2ActionProofBytesV1_build {a : OrchardHalo2ActionInstanceV1}
    (hpih : orchardHalo2ActionPublicInputHashV1 hash256 kind value binding a spend output = some pih)
    (bytes : Bytes) :
    decodeOrchardHalo2ActionProofBytesV1 hash256
        (buildOrchardHalo2ActionProofBytesV1 kind value binding a spend output bytes) kind pih
      = if 0 < bytes.length ∧ bytes.length < 2 ^ 32 then
          some ⟨kind, value, binding, a, spend, output, bytes⟩
        else none := by
  by_cases hlen : 0 < bytes.length ∧ bytes.length < 2 ^ 32
  · rw [if_pos hlen, decodeOrchardHalo2ActionProofBytesV1_eq_some_iff]
    exact ⟨rfl, hlen.2, List.length_pos_iff.mp hlen.1, rfl, hpih⟩
  · rw [if_neg hlen, Option.eq_none_iff_forall_ne_some]
    intro p hp
    obtain ⟨hbuilt, hlt, hne, -⟩ := decodeOrchardHalo2ActionProofBytesV1_eq_some_iff.mp hp
    rw [buildOrchardHalo2ActionProofBytesV1_eq, buildOrchardHalo2ActionProofBytesV1_eq] at hbuilt
    obtain ⟨-, rfl⟩ := frame_inj (by simp) hbuilt
    exact hlen ⟨List.length_pos_iff.mpr hne, hlt⟩

theorem length_eq_of_bundleHeaderV1 {kind kind' : UInt8} {index index' : UInt32} {value value' : UInt64}
    {binding binding' : Uint256} {actions actions' : List OrchardHalo2ActionInstanceV1}
    {spend spend' output output' : Bool} {rest rest' : Bytes} (hcount : actions.length < 2 ^ 32)
    (hcount' : actions'.length < 2 ^ 32)
    (h : bundleHeaderV1 kind index value binding actions spend output ++ rest =
      bundleHeaderV1 kind' index' value' binding' actions' spend' output' ++ rest') :
    actions.length = actions'.length := by
  simp only [bundleHeaderV1, bundleHeader, List.append_assoc] at h
  obtain ⟨-, h⟩ := List.append_inj h rfl
  obtain ⟨-, h⟩ := List.append_inj h rfl
  obtain ⟨hfield, -⟩ := List.append_inj h (by simp)
  exact leBytes_inj (by simpa using hcount) (by simpa using hcount') hfield

theorem decodeOrchardHalo2BundleProofBytesV1_build {index : UInt32}
    {actions : List OrchardHalo2ActionInstanceV1} {a : OrchardHalo2ActionInstanceV1}
    (hcount : actions.length < 2 ^ 32) (ha : actions[index.toNat]? = some a)
    (hpih : orchardHalo2ActionPublicInputHashV1 hash256 kind value binding a spend output = some pih)
    (bytes : Bytes) :
    decodeOrchardHalo2BundleProofBytesV1 hash256
        (buildOrchardHalo2BundleProofBytesV1 kind index value binding actions spend output bytes)
        kind pih
      = if 0 < bytes.length ∧ bytes.length < 2 ^ 32 then
          some ⟨kind, index, value, binding, spend, output, actions, bytes⟩
        else none := by
  by_cases hlen : 0 < bytes.length ∧ bytes.length < 2 ^ 32
  · rw [if_pos hlen, decodeOrchardHalo2BundleProofBytesV1_eq_some_iff]
    exact ⟨rfl, hlen.2, List.length_pos_iff.mp hlen.1, hcount, rfl, a, ha, hpih⟩
  · rw [if_neg hlen, Option.eq_none_iff_forall_ne_some]
    intro p hp
    obtain ⟨hbuilt, hlt, hne, hcount', -⟩ := decodeOrchardHalo2BundleProofBytesV1_eq_some_iff.mp hp
    rw [buildOrchardHalo2BundleProofBytesV1_eq, buildOrchardHalo2BundleProofBytesV1_eq] at hbuilt
    have hsame := length_eq_of_bundleHeaderV1 hcount hcount' hbuilt
    obtain ⟨-, rfl⟩ := frame_inj (by rw [bundleHeaderV1_length, bundleHeaderV1_length, hsame]) hbuilt
    exact hlen ⟨List.length_pos_iff.mpr hne, hlt⟩

end

/-! ## the two payload forms -/

section
variable {hash256 : Bytes → Uint256}

theorem isPrefix_of_decodeAction {proof : Bytes} {kind : UInt8} {pih : Uint256}
    {p : OrchardHalo2ActionProof}
    (h : decodeOrchardHalo2ActionProofBytesV1 hash256 proof kind pih = some p) :
    orchardHalo2ActionProofPrefixV1 <+: proof := by
  obtain ⟨-, h⟩ := guard_bind_eq_some.mp h
  exact (guard_bind_eq_some.mp h).1

theorem isPrefix_of_decodeBundle {proof : Bytes} {kind : UInt8} {pih : Uint256}
    {p : OrchardHalo2BundleProof}
    (h : decodeOrchardHalo2BundleProofBytesV1 hash256 proof kind pih = some p) :
    orchardHalo2BundleProofPrefixV1 <+: proof := by
  obtain ⟨-, h⟩ := guard_bind_eq_some.mp h
  exact (guard_bind_eq_some.mp h).1

theorem not_isPrefix_both {proof : Bytes} (haction : orchardHalo2ActionProofPrefixV1 <+: proof)
    (hbundle : orchardHalo2BundleProofPrefixV1 <+: proof) : False := by
  obtain ⟨rest, rfl⟩ := hbundle
  exact not_isPrefix_append rest (by simp) (by decide) haction

theorem decodeOrchardHalo2ActionProofBytesV1_bundle (kind : UInt8) (value : UInt64)
    (binding : Uint256) (spend output : Bool) (pih : Uint256) (index : UInt32)
    (actions : List OrchardHalo2ActionInstanceV1) (bytes : Bytes) :
    decodeOrchardHalo2ActionProofBytesV1 hash256
        (buildOrchardHalo2BundleProofBytesV1 kind index value binding actions spend output bytes)
        kind pih = none := by
  rw [Option.eq_none_iff_forall_ne_some]
  intro p hp
  refine not_isPrefix_both (isPrefix_of_decodeAction hp) ?_
  simp only [buildOrchardHalo2BundleProofBytesV1, List.append_assoc]
  exact List.prefix_append _ _

theorem decodeOrchardHalo2BundleProofBytesV1_action (kind : UInt8) (value : UInt64)
    (binding : Uint256) (spend output : Bool) (pih : Uint256) (a : OrchardHalo2ActionInstanceV1)
    (bytes : Bytes) :
    decodeOrchardHalo2BundleProofBytesV1 hash256
        (buildOrchardHalo2ActionProofBytesV1 kind value binding a spend output bytes) kind pih
      = none := by
  rw [Option.eq_none_iff_forall_ne_some]
  intro p hp
  refine not_isPrefix_both ?_ (isPrefix_of_decodeBundle hp)
  simp only [buildOrchardHalo2ActionProofBytesV1, List.append_assoc]
  exact List.prefix_append _ _

end

end Shielded
