import ZkCoin.Library.Usize
import ZkCoin.Shielded.RealProofCodec

/-!
# The halo2 decoders on machine sizes

The crate adds up offsets, multiplies a count read from the payload and indexes slices, each of which
may panic.  Here both decoders run with those steps written out, over any `usize` of at least 32 bits;
a slice is never longer than half of what a `usize` counts.

* `runDecode…V1`     — the decoders in `Except Stop`, every unchecked step a possible panic.
* `runDecode…V1_eq`  — no step panics, and the run computes the total decoder.
* `halo2_codec`      — runs, round trips both ways, and the two payload forms kept apart.
-/

open Bytes Usize

namespace Shielded

/-! ## reads that may panic -/

/-- `bs[i..j].try_into().expect(…)` for a hash -/
def hashSlice (bs : Bytes) (i j : Nat) : Except Stop Uint256 := do
  let s ← sliceOf bs i j
  if h : s.length = hashSize then .ok ⟨s, h⟩ else .error .panic

/-- `u32::from_le_bytes(bs[i..j].try_into().expect(…))` -/
def u32Slice (bs : Bytes) (i j : Nat) : Except Stop UInt32 := do
  let s ← sliceOf bs i j
  if s.length = 4 then .ok (UInt32.ofNat (leNat s)) else .error .panic

/-- `u64::from_le_bytes(bs[i..j].try_into().expect(…))` -/
def u64Slice (bs : Bytes) (i j : Nat) : Except Stop UInt64 := do
  let s ← sliceOf bs i j
  if s.length = 8 then .ok (UInt64.ofNat (leNat s)) else .error .panic

/-- `match bs[i]` on a flag: `0` and `1`, everything else returns `None` -/
def readFlag (bs : Bytes) (i : Nat) : Except Stop Bool := do
  let b ← index bs i
  if b = 0 then .ok false else if b = 1 then .ok true else .error .returnNone

section
variable (hash256 : Bytes → Uint256) (limit : Nat)

/-- the five hashes of an action, with the offsets both decoders add up -/
def readRecord (proof : Bytes) (anchorOffset : Nat) :
    Except Stop (OrchardHalo2ActionInstanceV1 × Nat) := do
  let cvNetOffset ← add limit anchorOffset hashSize
  let nfOldOffset ← add limit cvNetOffset hashSize
  let rkOffset ← add limit nfOldOffset hashSize
  let cmxOffset ← add limit rkOffset hashSize
  let nextOffset ← add limit cmxOffset hashSize
  let anchor ← hashSlice proof anchorOffset cvNetOffset
  let cvNet ← hashSlice proof cvNetOffset nfOldOffset
  let nfOld ← hashSlice proof nfOldOffset rkOffset
  let rk ← hashSlice proof rkOffset cmxOffset
  let cmx ← hashSlice proof cmxOffset nextOffset
  .ok (⟨anchor, cvNet, nfOld, rk, cmx⟩, nextOffset)

/-- `decode_orchard_halo2_action_proof_bytes_v1` with every step that may panic -/
def runDecodeOrchardHalo2ActionProofBytesV1 (proof : Bytes) (proofKind : UInt8)
    (publicInputHash : Uint256) : Except Stop OrchardHalo2ActionProof := do
  ensure (orchardHalo2ActionProofHeaderLenV1 ≤ proof.length)
  ensure (orchardHalo2ActionProofPrefixV1 <+: proof)
  let kindOffset := orchardHalo2ActionProofPrefixV1.length
  let valueOffset ← add limit kindOffset 1
  let txBindingOffset ← add limit valueOffset 8
  let anchorOffset ← add limit txBindingOffset hashSize
  let kind ← index proof kindOffset
  ensure (kind = proofKind)
  let shieldedValue ← u64Slice proof valueOffset txBindingOffset
  let txBindingHash ← hashSlice proof txBindingOffset anchorOffset
  let (action, enableSpendOffset) ← readRecord limit proof anchorOffset
  let enableOutputOffset ← add limit enableSpendOffset 1
  let proofLenOffset ← add limit enableOutputOffset 1
  let proofOffset ← add limit proofLenOffset 4
  let enableSpend ← readFlag proof enableSpendOffset
  let enableOutput ← readFlag proof enableOutputOffset
  ensure (orchardHalo2ActionFlagsMatchMarkerV1 proofKind enableSpend enableOutput = true)
  let inputHash ← ofOption (orchardHalo2ActionPublicInputHashV1 hash256 proofKind shieldedValue
    txBindingHash action enableSpend enableOutput)
  ensure (inputHash = publicInputHash)
  let proofLen ← u32Slice proof proofLenOffset proofOffset
  let rest ← sub proof.length proofOffset
  ensure (¬ (proofLen.toNat = 0 ∨ proofLen.toNat ≠ rest))
  let proofBytes ← sliceOf proof proofOffset proof.length
  .ok ⟨proofKind, shieldedValue, txBindingHash, action, enableSpend, enableOutput, proofBytes⟩

/-- `decode_orchard_halo2_bundle_proof_bytes_v1` with every step that may panic -/
def runDecodeOrchardHalo2BundleProofBytesV1 (proof : Bytes) (proofKind : UInt8)
    (publicInputHash : Uint256) : Except Stop OrchardHalo2BundleProof := do
  let fixedLen ← add limit orchardHalo2BundleProofFixedHeaderLenV1 4
  ensure (fixedLen ≤ proof.length)
  ensure (orchardHalo2BundleProofPrefixV1 <+: proof)
  let kindOffset := orchardHalo2BundleProofPrefixV1.length
  let actionCountOffset ← add limit kindOffset 1
  let markerActionIndexOffset ← add limit actionCountOffset 4
  let valueOffset ← add limit markerActionIndexOffset 4
  let txBindingOffset ← add limit valueOffset 8
  let enableSpendOffset ← add limit txBindingOffset hashSize
  let enableOutputOffset ← add limit enableSpendOffset 1
  let actionRecordsOffset ← add limit enableOutputOffset 1
  let kind ← index proof kindOffset
  ensure (kind = proofKind)
  let actionCount ← u32Slice proof actionCountOffset markerActionIndexOffset
  ensure (actionCount.toNat ≠ 0)
  let markerActionIndex ← u32Slice proof markerActionIndexOffset valueOffset
  ensure (¬ actionCount.toNat ≤ markerActionIndex.toNat)
  let shieldedValue ← u64Slice proof valueOffset txBindingOffset
  let txBindingHash ← hashSlice proof txBindingOffset enableSpendOffset
  let enableSpend ← readFlag proof enableSpendOffset
  let enableOutput ← readFlag proof enableOutputOffset
  ensure (orchardHalo2ActionFlagsMatchMarkerV1 proofKind enableSpend enableOutput = true)
  let actionRecordsLen ← checkedMul limit actionCount.toNat orchardHalo2ActionRecordLenV1
  let proofLenOffset ← checkedAdd limit actionRecordsOffset actionRecordsLen
  let proofOffset ← checkedAdd limit proofLenOffset 4
  ensure (proofOffset ≤ proof.length)
  withCapacity limit actionCount.toNat orchardHalo2ActionRecordLenV1
  let actions ← (List.range actionCount.toNat).mapM fun position => do
    let skipped ← mul limit position orchardHalo2ActionRecordLenV1
    let recordOffset ← add limit actionRecordsOffset skipped
    let record ← readRecord limit proof recordOffset
    .ok record.1
  let markerAction ← index actions markerActionIndex.toNat
  let inputHash ← ofOption (orchardHalo2ActionPublicInputHashV1 hash256 proofKind shieldedValue
    txBindingHash markerAction enableSpend enableOutput)
  ensure (inputHash = publicInputHash)
  let proofLen ← u32Slice proof proofLenOffset proofOffset
  let rest ← sub proof.length proofOffset
  ensure (¬ (proofLen.toNat = 0 ∨ proofLen.toNat ≠ rest))
  let proofBytes ← sliceOf proof proofOffset proof.length
  .ok ⟨proofKind, markerActionIndex, shieldedValue, txBindingHash, enableSpend, enableOutput, actions,
    proofBytes⟩

end

/-! ## reads inside the bytes -/

section
variable {bs : Bytes} {i j : Nat}

theorem hashSlice_eq (hij : j = i + 32) (hj : j ≤ bs.length) :
    hashSlice bs i j = ofOption (Uint256.readAt bs i) := by
  subst hij
  have hlen : (slice bs i (i + 32)).length = hashSize := by
    rw [slice_length hj, hashSize]
    omega
  rw [hashSlice, sliceOf_eq (by omega) hj, ok_bind, dif_pos hlen, Uint256.readAt, dif_pos hj]
  rfl

theorem u32Slice_eq (hij : j = i + 4) (hj : j ≤ bs.length) : u32Slice bs i j = .ok (u32At bs i) := by
  subst hij
  have hlen : (slice bs i (i + 4)).length = 4 := by
    rw [slice_length hj]
    omega
  rw [u32Slice, sliceOf_eq (by omega) hj, ok_bind, if_pos hlen]
  rfl

theorem u64Slice_eq (hij : j = i + 8) (hj : j ≤ bs.length) : u64Slice bs i j = .ok (u64At bs i) := by
  subst hij
  have hlen : (slice bs i (i + 8)).length = 8 := by
    rw [slice_length hj]
    omega
  rw [u64Slice, sliceOf_eq (by omega) hj, ok_bind, if_pos hlen]
  rfl

theorem index_ensure_eq {α : Type} (hi : i < bs.length) (k : UInt8) (f : Unit → Except Stop α) :
    (index bs i >>= fun b => ensure (b = k) >>= f) = (ensure (bs[i]? = some k) >>= f) := by
  rw [index_eq hi, List.getElem?_eq_getElem hi, ofOption_some, ok_bind]
  by_cases h : bs[i] = k
  · rw [ensure_of h, ensure_of (congrArg some h)]
  · rw [ensure_of_not h, ensure_of_not (fun hsome => h (Option.some.inj hsome))]

theorem readFlag_eq (hi : i < bs.length) : readFlag bs i = ofOption (flagAt bs i) := by
  rw [readFlag, index_eq hi, flagAt, List.getElem?_eq_getElem hi, ofOption_some, ok_bind]
  simp only [Option.bind_eq_bind, Option.bind_some]
  split_ifs <;> rfl

theorem readRecord_eq {limit : Nat} (hi : i + 160 ≤ bs.length) (hlimit : bs.length ≤ limit) :
    readRecord limit bs i =
      ofOption (OrchardHalo2ActionInstanceV1.readAt bs i) >>= fun a => .ok (a, i + 160) := by
  simp (disch := omega) only [readRecord, hashSize, add_eq, ok_bind, hashSlice_eq,
    OrchardHalo2ActionInstanceV1.readAt, Option.bind_eq_bind, ofOption_bind, ofOption_some, bind_assoc,
    Nat.add_assoc, Nat.reduceAdd, Nat.reduceMul]

end

/-! ## no decoder panics -/

section
variable (hash256 : Bytes → Uint256) {limit : Nat} (proof : Bytes) (kind : UInt8) (pih : Uint256)

theorem lengthCheck_eq {α : Type} {i j : Nat} (hij : j = i + 4) (hj : j ≤ proof.length)
    (f : Bytes → α) :
    (do
      let proofLen ← u32Slice proof i j
      let rest ← sub proof.length j
      ensure (¬ (proofLen.toNat = 0 ∨ proofLen.toNat ≠ rest))
      let proofBytes ← sliceOf proof j proof.length
      .ok (f proofBytes)) =
    ensure (¬ ((u32At proof i).toNat = 0 ∨ (u32At proof i).toNat ≠ proof.length - j)) >>=
      fun _ => (.ok (f (proof.drop j)) : Except Stop α) := by
  have hslice : slice proof j proof.length = proof.drop j := by
    rw [slice, List.take_of_length_le (by rw [List.length_drop])]
  rw [u32Slice_eq hij hj, ok_bind, sub_eq hj, ok_bind, sliceOf_eq hj (Nat.le_refl _), hslice]
  rfl

theorem runDecodeOrchardHalo2ActionProofBytesV1_eq (hlimit : 2 ^ 32 ≤ limit + 1)
    (hproof : proof.length ≤ limit / 2) :
    runDecodeOrchardHalo2ActionProofBytesV1 hash256 limit proof kind pih =
      ofOption (decodeOrchardHalo2ActionProofBytesV1 hash256 proof kind pih) := by
  have hlen : proof.length ≤ limit := by omega
  simp only [runDecodeOrchardHalo2ActionProofBytesV1, decodeOrchardHalo2ActionProofBytesV1,
    Option.bind_eq_bind, ofOption_bind, ofOption_guard, ofOption_some]
  refine ensure_bind_congr fun hroom => ?_
  refine ensure_bind_congr fun _ => ?_
  simp only [orchardHalo2ActionProofHeaderLenV1, orchardHalo2ActionProofPrefixV1_length,
    orchardHalo2ActionRecordLenV1, hashSize, Nat.reduceAdd, Nat.reduceMul] at hroom ⊢
  simp (disch := omega) only [add_eq, ok_bind, index_ensure_eq, Nat.reduceAdd]
  refine ensure_bind_congr fun _ => ?_
  simp (disch := omega) only [u64Slice_eq, hashSlice_eq, readRecord_eq, ok_bind, bind_assoc, add_eq,
    readFlag_eq, lengthCheck_eq, Nat.reduceAdd]

theorem runDecodeOrchardHalo2BundleProofBytesV1_eq (hlimit : 2 ^ 32 ≤ limit + 1)
    (hproof : proof.length ≤ limit / 2) :
    runDecodeOrchardHalo2BundleProofBytesV1 hash256 limit proof kind pih =
      ofOption (decodeOrchardHalo2BundleProofBytesV1 hash256 proof kind pih) := by
  have hlen : proof.length ≤ limit := by omega
  simp only [runDecodeOrchardHalo2BundleProofBytesV1, decodeOrchardHalo2BundleProofBytesV1,
    Option.bind_eq_bind, ofOption_bind, ofOption_guard, ofOption_some,
    orchardHalo2BundleProofFixedHeaderLenV1, orchardHalo2BundleProofPrefixV1_length,
    orchardHalo2ActionRecordLenV1, hashSize, Nat.reduceAdd, Nat.reduceMul]
  rw [add_eq (by omega), ok_bind]
  refine ensure_bind_congr fun hroom => ?_
  refine ensure_bind_congr fun _ => ?_
  simp (disch := omega) only [add_eq, ok_bind, index_ensure_eq, Nat.reduceAdd]
  refine ensure_bind_congr fun _ => ?_
  simp (disch := omega) only [u32Slice_eq, ok_bind]
  refine ensure_bind_congr fun hpos => ?_
  refine ensure_bind_congr fun hindex => ?_
  simp (disch := omega) only [u64Slice_eq, hashSlice_eq, readFlag_eq, ok_bind]
  refine ofOption_bind_congr fun binding _ => ?_
  refine ofOption_bind_congr fun spend _ => ?_
  refine ofOption_bind_congr fun output _ => ?_
  refine ensure_bind_congr fun _ => ?_
  generalize hcount : (u32At proof 28).toNat = count at *
  by_cases hfit : 78 + count * 160 + 4 ≤ proof.length
  · have hrecord (position : Nat) (hposition : position ∈ List.range count) :
        (do
          let skipped ← mul limit position 160
          let recordOffset ← add limit 78 skipped
          let record ← readRecord limit proof recordOffset
          (.ok record.1 : Except Stop OrchardHalo2ActionInstanceV1)) =
          ofOption (OrchardHalo2ActionInstanceV1.readAt proof (78 + position * 160)) := by
      rw [List.mem_range] at hposition
      rw [mul_eq (by omega), ok_bind, add_eq (by omega), ok_bind, readRecord_eq (by omega) hlen,
        bind_assoc]
      exact bind_pure _
    rw [checkedMul, if_pos (by omega), ok_bind, checkedAdd, if_pos (by omega), ok_bind, checkedAdd,
      if_pos (by omega), ok_bind]
    refine ensure_bind_congr fun _ => ?_
    rw [withCapacity_eq (by omega), ok_bind, mapM_ofOption hrecord]
    refine ofOption_bind_congr fun actions hactions => ?_
    have hin : (u32At proof 32).toNat < actions.length := by
      rw [← (forall₂_of_mapM hactions).length_eq, List.length_range]
      omega
    rw [index_eq hin]
    simp (disch := omega) only [lengthCheck_eq]
  · -- a sum that overflows is past the end of the proof as well
    rw [ensure_of_not hfit, error_bind, checkedMul]
    split_ifs with hmul
    · rw [ok_bind, checkedAdd]
      split_ifs with hadd
      · rw [ok_bind, checkedAdd]
        split_ifs with hadd'
        · rw [ok_bind, ensure_of_not hfit, error_bind]
        · rfl
      · rfl
    · rfl

theorem ofOption_ne_panic {α : Type} (x : Option α) : ofOption x ≠ .error .panic := by
  cases x with
  | none =>
    intro h
    cases h
  | some a =>
    intro h
    cases h

end

/-! ## the codec -/

/-- **Codec.**  No decoder panics; what a decoder returns is built back to the same bytes; what a
builder writes is read back under the hash of its fields when both lengths fit their 32-bit fields;
and no bytes are accepted as both forms. -/
theorem halo2_codec (hash256 : Bytes → Uint256) :
    (∀ w, w = 32 ∨ w = 64 → ∀ (proof : Bytes) (kind : UInt8) (pih : Uint256),
      proof.length ≤ (2 ^ w - 1) / 2 →
      runDecodeOrchardHalo2ActionProofBytesV1 hash256 (2 ^ w - 1) proof kind pih =
          ofOption (decodeOrchardHalo2ActionProofBytesV1 hash256 proof kind pih) ∧
        runDecodeOrchardHalo2ActionProofBytesV1 hash256 (2 ^ w - 1) proof kind pih ≠ .error .panic ∧
        runDecodeOrchardHalo2BundleProofBytesV1 hash256 (2 ^ w - 1) proof kind pih =
          ofOption (decodeOrchardHalo2BundleProofBytesV1 hash256 proof kind pih) ∧
        runDecodeOrchardHalo2BundleProofBytesV1 hash256 (2 ^ w - 1) proof kind pih ≠
          .error .panic) ∧
    (∀ proof kind pih p, decodeOrchardHalo2ActionProofBytesV1 hash256 proof kind pih = some p →
      p.proofKind = kind ∧
        buildOrchardHalo2ActionProofBytesV1 p.proofKind p.shieldedValue p.txBindingHash p.action
          p.enableSpend p.enableOutput p.proofBytes = proof) ∧
    (∀ proof kind pih p, decodeOrchardHalo2BundleProofBytesV1 hash256 proof kind pih = some p →
      p.proofKind = kind ∧
        buildOrchardHalo2BundleProofBytesV1 p.proofKind p.markerActionIndex p.shieldedValue
          p.txBindingHash p.actions p.enableSpend p.enableOutput p.proofBytes = proof) ∧
    (∀ kind value binding a spend output bytes,
      orchardHalo2ActionFlagsMatchMarkerV1 kind spend output = true → bytes ≠ [] →
      bytes.length < 2 ^ 32 →
      ∃ pih, orchardHalo2ActionPublicInputHashV1 hash256 kind value binding a spend output = some pih ∧
        decodeOrchardHalo2ActionProofBytesV1 hash256
            (buildOrchardHalo2ActionProofBytesV1 kind value binding a spend output bytes) kind pih =
          some ⟨kind, value, binding, a, spend, output, bytes⟩) ∧
    (∀ kind index value binding actions a spend output bytes,
      orchardHalo2ActionFlagsMatchMarkerV1 kind spend output = true → bytes ≠ [] →
      bytes.length < 2 ^ 32 → actions.length < 2 ^ 32 → actions[index.toNat]? = some a →
      ∃ pih, orchardHalo2ActionPublicInputHashV1 hash256 kind value binding a spend output = some pih ∧
        decodeOrchardHalo2BundleProofBytesV1 hash256
            (buildOrchardHalo2BundleProofBytesV1 kind index value binding actions spend output bytes)
            kind pih =
          some ⟨kind, index, value, binding, spend, output, actions, bytes⟩) ∧
    ∀ proof kind pih kind' pih', ¬ ((decodeOrchardHalo2ActionProofBytesV1 hash256 proof kind pih).isSome ∧
      (decodeOrchardHalo2BundleProofBytesV1 hash256 proof kind' pih').isSome) := by
  refine ⟨?_, ?_, ?_, ?_, ?_, ?_⟩
  · intro w hw proof kind pih hproof
    have hlimit : 2 ^ 32 ≤ 2 ^ w - 1 + 1 := by
      rcases hw with rfl | rfl
      · decide
      · decide
    have haction := runDecodeOrchardHalo2ActionProofBytesV1_eq hash256 proof kind pih hlimit hproof
    have hbundle := runDecodeOrchardHalo2BundleProofBytesV1_eq hash256 proof kind pih hlimit hproof
    exact ⟨haction, haction ▸ ofOption_ne_panic _, hbundle, hbundle ▸ ofOption_ne_panic _⟩
  · intro proof kind pih p hp
    obtain ⟨hbuilt, -, -, hkind, -⟩ := decodeOrchardHalo2ActionProofBytesV1_eq_some_iff.mp hp
    exact ⟨hkind, hbuilt.symm⟩
  · intro proof kind pih p hp
    obtain ⟨hbuilt, -, -, -, hkind, -⟩ := decodeOrchardHalo2BundleProofBytesV1_eq_some_iff.mp hp
    exact ⟨hkind, hbuilt.symm⟩
  · intro kind value binding a spend output bytes hflags hne hlen
    obtain ⟨pih, hpih⟩ := exists_publicInputHash hash256 hflags value binding a
    exact ⟨pih, hpih, decodeOrchardHalo2ActionProofBytesV1_eq_some_iff.mpr ⟨rfl, hlen, hne, rfl, hpih⟩⟩
  · intro kind index value binding actions a spend output bytes hflags hne hlen hcount ha
    obtain ⟨pih, hpih⟩ := exists_publicInputHash hash256 hflags value binding a
    exact ⟨pih, hpih,
      decodeOrchardHalo2BundleProofBytesV1_eq_some_iff.mpr ⟨rfl, hlen, hne, hcount, rfl, a, ha, hpih⟩⟩
  · intro proof kind pih kind' pih' ⟨haction, hbundle⟩
    obtain ⟨p, hp⟩ := Option.isSome_iff_exists.mp haction
    obtain ⟨q, hq⟩ := Option.isSome_iff_exists.mp hbundle
    exact not_isPrefix_both (isPrefix_of_decodeAction hp) (isPrefix_of_decodeBundle hq)

def nullAction : OrchardHalo2ActionInstanceV1 := ⟨.null, .null, .null, .null, .null⟩

theorem halo2_codec_two_actions :
    ∃ pih, orchardHalo2ActionPublicInputHashV1 Uint256.polyHash shieldedActionMint 5 .null nullAction
        false true = some pih ∧
      decodeOrchardHalo2BundleProofBytesV1 Uint256.polyHash
          (buildOrchardHalo2BundleProofBytesV1 shieldedActionMint 1 5 .null
            [nullAction, nullAction] false true [7]) shieldedActionMint pih =
        some ⟨shieldedActionMint, 1, 5, .null, false, true, [nullAction, nullAction], [7]⟩ :=
  (halo2_codec Uint256.polyHash).2.2.2.2.1 shieldedActionMint 1 5 .null [nullAction, nullAction]
    nullAction false true [7] (by decide) (by decide) (by decide) (by decide) rfl

/-- proof bytes one longer than their length field holds are built and not read back -/
theorem long_proof_not_read_back :
    ∃ (a : OrchardHalo2ActionInstanceV1) (bytes : Bytes) (pih : Uint256),
      orchardHalo2ActionFlagsMatchMarkerV1 shieldedActionMint false true = true ∧ bytes ≠ [] ∧
      orchardHalo2ActionPublicInputHashV1 Uint256.polyHash shieldedActionMint 5 .null a false true =
        some pih ∧
      decodeOrchardHalo2ActionProofBytesV1 Uint256.polyHash
        (buildOrchardHalo2ActionProofBytesV1 shieldedActionMint 5 .null a false true bytes)
        shieldedActionMint pih = none := by
  obtain ⟨pih, hpih⟩ := exists_publicInputHash Uint256.polyHash
    (show orchardHalo2ActionFlagsMatchMarkerV1 shieldedActionMint false true = true by decide) 5 .null
    nullAction
  refine ⟨nullAction, List.replicate (2 ^ 32) 0, pih, by decide, ?_, hpih, ?_⟩
  · intro hnil
    have hlen := congrArg List.length hnil
    rw [List.length_replicate] at hlen
    cases hlen
  · rw [decodeOrchardHalo2ActionProofBytesV1_build _ _ _ _ _ _ _ hpih, List.length_replicate,
      if_neg (fun h => Nat.lt_irrefl _ h.2)]

end Shielded
