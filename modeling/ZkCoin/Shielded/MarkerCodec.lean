import ZkCoin.Library.Frames
import ZkCoin.Shielded.Envelope

/-!
# Marker scripts

A marker is written by the node as `OP_RETURN` and a push of its payload, found again by the parser
and bound to a proof by the verifier crate.  Each of the three sees the same fields.

* `Cpp.buildMintPayload`, `Cpp.buildSpendPayload` — the builders, with their byte loops.
* `extractMarkerPayload_eq_some_iff`  — which scripts carry a payload, in any form of push.
* `decodeMarkerPayload_eq_some_iff`   — what a payload is, from the marker it decodes to.
* `marker_codec`                      — scripts, payloads and both hashes at once.
-/

open Bytes Serialize

namespace Shielded

/-! ## the node's side -/

namespace Cpp

def markerProofPreimagePrefix : Bytes := ascii "zkc-proof-v0"
def proofPublicInputPreimagePrefix : Bytes := ascii "zkc-public-input-v1"

/-- `AppendAmount`: the shifts are arithmetic and `& 0xff` keeps the low byte -/
def appendAmount (payload : Bytes) (amount : Int) : Bytes :=
  (List.range valueSize).foldl
    (fun payload (i : Nat) => payload ++ [UInt8.ofNat ((amount >>> (8 * i)) % 0x100).toNat]) payload

/-- `ReadUint64Field` -/
def readUint64Field (payload : Bytes) (off : Nat) : UInt64 :=
  (List.range valueSize).foldl
    (fun value i => value ||| (payload.getD (off + i) 0).toUInt64 <<< UInt64.ofNat (8 * i)) 0

/-- `BuildProofPreimage` -/
def buildProofPreimage (m : Marker) : Bytes :=
  let data := appendAmount (markerProofPreimagePrefix ++ [m.action.byte]) m.nValue
  match m.action with
  | .mint => data ++ m.commitment.data
  | .spend => data ++ m.nullifier.data ++ m.anchor.data

section
variable (hash256 : Bytes → Uint256)

def expectedProofHash (m : Marker) : Uint256 := hash256 (buildProofPreimage m)

def expectedProofTag (m : Marker) : Bytes := (expectedProofHash hash256 m).data.take proofTagSize

/-- `BuildProofPublicInputHash` of a kind and two hashes -/
def publicInputHash (proofKind : UInt8) (fieldHash txBindingHash : Uint256) : Uint256 :=
  hash256 (proofPublicInputPreimagePrefix ++ [proofKind] ++ fieldHash.data ++ txBindingHash.data)

/-- `BuildProofPublicInputHash` of a marker and its transaction -/
def buildProofPublicInputHash (m : Marker) (tx : CTransaction) : Uint256 :=
  publicInputHash hash256 m.action.byte (expectedProofHash hash256 m) (transactionBindingHash hash256 tx)

/-- `BuildMintPayload` -/
def buildMintPayload (commitment : Uint256) (amount : Int) : Bytes :=
  appendAmount (markerPrefix ++ [shieldedActionMint]) amount ++ commitment.data ++
    expectedProofTag hash256 ⟨.mint, amount, .null, commitment, .null, []⟩

/-- `BuildSpendPayload` -/
def buildSpendPayload (nullifier anchor : Uint256) (amount : Int) : Bytes :=
  appendAmount (markerPrefix ++ [shieldedActionSpend]) amount ++ nullifier.data ++ anchor.data ++
    expectedProofTag hash256 ⟨.spend, amount, anchor, .null, nullifier, []⟩

end

/-! ## amounts -/

theorem byte_amount (amount : Int) {i : Nat} (hi : i < 8) :
    UInt8.ofNat ((amount >>> (8 * i)) % 0x100).toNat =
      UInt8.ofNat ((amount % 256 ^ 8).toNat / 256 ^ i) := by
  obtain ⟨v, hv⟩ := Int.eq_ofNat_of_zero_le (Int.emod_nonneg amount (b := 256 ^ 8) (by decide))
  have hpow : (256 : Int) ^ 8 = 256 ^ i * (256 * 256 ^ (7 - i)) := by
    rw [← pow_succ', ← pow_add]
    congr 1
    omega
  have hsplit : amount = v + 256 ^ i * (256 * (256 ^ (7 - i) * (amount / 256 ^ 8))) := by
    rw [← mul_assoc 256, ← mul_assoc, ← hpow, ← hv, Int.emod_add_mul_ediv]
  have hshift : amount >>> (8 * i) = v / 256 ^ i + 256 * (256 ^ (7 - i) * (amount / 256 ^ 8)) := by
    rw [Int.shiftRight_eq_div_pow, Nat.pow_mul, Nat.cast_pow]
    conv_lhs => rw [hsplit]
    exact Int.add_mul_ediv_left _ _ (by positivity)
  have hbyte : (v : Int) / 256 ^ i = (v / 256 ^ i : Nat) := by norm_num
  rw [hshift, Int.add_mul_emod_self_left, hv, hbyte, Int.toNat_natCast]
  apply UInt8.toNat_inj.mp
  rw [UInt8.toNat_ofNat', UInt8.toNat_ofNat']
  omega

theorem appendAmount_eq (payload : Bytes) (amount : Int) :
    appendAmount payload amount = payload ++ intBytes valueSize amount := by
  have hloop (n : Nat) (hn : n ≤ 8) :
      (List.range n).foldl
          (fun payload (i : Nat) => payload ++ [UInt8.ofNat ((amount >>> (8 * i)) % 0x100).toNat]) payload =
        payload ++ leBytes n (amount % 256 ^ 8).toNat := by
    induction n with
    | zero => simp [leBytes]
    | succ n ih =>
      rw [List.range_succ, List.foldl_append, ih (by omega), leBytes_succ, ← List.append_assoc,
        ← byte_amount amount (by omega)]
      rfl
  exact hloop 8 (Nat.le_refl 8)

theorem or_byte64 {v : UInt64} (b : UInt8) {k : Nat} (hk : k ≤ 56) (hv : v.toNat < 2 ^ k) :
    (v ||| b.toUInt64 <<< UInt64.ofNat k).toNat = v.toNat + 2 ^ k * b.toNat := by
  have hb := b.toNat_lt
  have hpow : (2 : Nat) ^ k ≤ 2 ^ 56 := Nat.pow_le_pow_right (by decide) hk
  have hlt : b.toNat * 2 ^ k < 2 ^ 64 := by nlinarith
  rw [UInt64.toNat_or, UInt64.toNat_shiftLeft, UInt8.toNat_toUInt64, UInt64.toNat_ofNat',
    show k % 2 ^ 64 % 64 = k by omega, Nat.shiftLeft_eq, Nat.mod_eq_of_lt hlt, Nat.or_comm,
    Nat.mul_comm, ← Nat.two_pow_add_eq_or_of_lt hv, Nat.add_comm]

theorem readUint64Field_toNat (payload : Bytes) (off : Nat) :
    (readUint64Field payload off).toNat = leNat (slice payload off (off + valueSize)) := by
  have hloop (n : Nat) (hn : n ≤ 8) :
      ((List.range n).foldl
        (fun value i => value ||| (payload.getD (off + i) 0).toUInt64 <<< UInt64.ofNat (8 * i))
        0).toNat = leNat ((payload.drop off).take n) := by
    induction n with
    | zero => simp [leNat]
    | succ n ih =>
      have hpow : 256 ^ n = 2 ^ (8 * n) := by rw [Nat.pow_mul]
      have hlt : leNat ((payload.drop off).take n) < 2 ^ (8 * n) := by
        refine Nat.lt_of_lt_of_le (leNat_lt _) ?_
        rw [← hpow]
        exact Nat.pow_le_pow_right (by decide) (List.length_take_le _ _)
      rw [List.range_succ, List.foldl_append, List.foldl_cons, List.foldl_nil,
        or_byte64 _ (by omega) (by rw [ih (by omega)]; exact hlt), ih (by omega), leNat_take_succ, hpow,
        List.getD_eq_getElem?_getD, List.getD_eq_getElem?_getD, List.getElem?_drop]
  rw [slice, Nat.add_sub_cancel_left]
  exact hloop 8 (Nat.le_refl 8)

/-! ## the node's hashes are the ones of its checks -/

theorem buildProofPreimage_eq (m : Marker) : buildProofPreimage m = Shielded.buildProofPreimage m := by
  rw [buildProofPreimage, Shielded.buildProofPreimage, appendAmount_eq]
  cases m.action with
  | mint => rfl
  | spend => exact List.append_assoc _ _ _

section
variable (hash256 : Bytes → Uint256)

theorem expectedProofHash_eq (m : Marker) :
    expectedProofHash hash256 m = Shielded.expectedProofHash hash256 m := by
  rw [expectedProofHash, buildProofPreimage_eq]
  rfl

theorem expectedProofTag_eq (m : Marker) :
    expectedProofTag hash256 m = Shielded.expectedProofTag hash256 m := by
  rw [expectedProofTag, expectedProofHash_eq]
  rfl

theorem buildProofPublicInputHash_eq (m : Marker) (tx : CTransaction) :
    buildProofPublicInputHash hash256 m tx = Shielded.buildProofPublicInputHash hash256 m tx := by
  rw [buildProofPublicInputHash, expectedProofHash_eq]
  rfl

end

end Cpp

/-! ## scripts -/

/-- **Marker scripts.**  `OP_RETURN` and one push of the payload, in any form, and nothing else. -/
theorem extractMarkerPayload_eq_some_iff {script payload : Bytes} :
    extractMarkerPayload script = some payload ↔
      markerPrefix <+: payload ∧ ∃ header, Script.PushHeader payload.length header ∧
        script = Script.opReturn :: (header ++ payload) := by
  simp only [extractMarkerPayload, Option.bind_eq_bind, Option.bind_eq_some_iff, guard_eq_some_iff,
    exists_const, Option.some.injEq, Prod.exists]
  constructor
  · rintro ⟨op, data, rest, hfirst, rfl, push, pushed, rest', hpush, rfl, hstart, rfl⟩
    obtain ⟨rfl, rfl⟩ := Script.getOp_opReturn.mp hfirst
    have hne : pushed ≠ [] := by
      rintro rfl
      exact absurd hstart (by decide)
    obtain ⟨header, hheader, hscript⟩ := (Script.getOp_data_iff hne).mp ⟨push, hpush⟩
    refine ⟨hstart, header, hheader, ?_⟩
    rw [hscript, List.append_nil]
  · rintro ⟨hstart, header, hheader, rfl⟩
    have hne : payload ≠ [] := by
      rintro rfl
      exact absurd hstart (by decide)
    have hscript : header ++ payload = header ++ (payload ++ []) := by rw [List.append_nil]
    obtain ⟨push, hpush⟩ := (Script.getOp_data_iff hne).mpr ⟨header, hheader, hscript⟩
    exact ⟨_, _, _, Script.getOp_opReturn.mpr ⟨rfl, rfl⟩, rfl, push, payload, [], hpush, rfl, hstart, rfl⟩

theorem extractMarkerPayload_pushData {payload : Bytes} (hstart : markerPrefix <+: payload)
    (hlen : payload.length < 256 ^ 4) :
    extractMarkerPayload (Script.opReturn :: Script.pushData payload) = some payload := by
  obtain ⟨header, hheader, hpush⟩ := Script.exists_pushHeader_pushData hlen
  rw [extractMarkerPayload_eq_some_iff, hpush]
  exact ⟨hstart, header, hheader, rfl⟩

/-! ## payloads -/

def Marker.fields (m : Marker) : Bytes :=
  match m.action with
  | .mint => m.commitment.data
  | .spend => m.nullifier.data ++ m.anchor.data

def Marker.payload (m : Marker) : Bytes :=
  markerPrefix ++ [m.action.byte] ++ leBytes valueSize m.nValue.toNat ++ m.fields ++ m.proofTag

/-- what every decoded marker satisfies: fields its action does not carry are null -/
structure Marker.Decoded (m : Marker) : Prop where
  value_nonneg : 0 ≤ m.nValue
  value_le : m.nValue ≤ maxMoney
  tag_length : m.proofTag.length = proofTagSize
  unused : match m.action with
    | .mint => m.anchor = .null ∧ m.nullifier = .null
    | .spend => m.commitment = .null

@[simp] theorem markerPrefix_length : markerPrefix.length = 4 := rfl

theorem eq_iff_length_and_isPrefix {a b : Bytes} : b = a ↔ b.length = a.length ∧ a <+: b := by
  constructor
  · rintro rfl
    exact ⟨rfl, List.prefix_refl _⟩
  · intro ⟨hlen, hstart⟩
    exact (hstart.eq_of_length hlen.symm).symm

theorem payload_iff {payload fields tag : Bytes} {action : UInt8} {value n : Nat}
    (hvalue : value < 256 ^ 8) (hfields : fields.length = n) (htag : tag.length = proofTagSize) :
    payload = markerPrefix ++ [action] ++ leBytes valueSize value ++ fields ++ tag ↔
      payload.length = 16 + n ∧ markerPrefix <+: payload ∧ payload[4]? = some action ∧
        leNat (slice payload 5 13) = value ∧ fields <+: payload.drop 13 ∧
        slice payload (13 + n) (16 + n) = tag := by
  rw [eq_iff_length_and_isPrefix]
  simp only [append_prefix_iff, List.length_append, List.length_singleton, markerPrefix_length,
    leBytes_length, hfields, htag, valueSize, proofTagSize, singleton_prefix_drop_iff,
    prefix_drop_iff_slice (a := tag), and_assoc, Nat.reduceAdd, Nat.add_right_comm _ n]
  refine and_congr_right fun hlen => ?_
  rw [leBytes_prefix_drop_iff (by omega) hvalue]

theorem length_data_append (a b : Uint256) : (a.data ++ b.data).length = 64 := by simp

theorem length_of_wellFormed {payload : Bytes} {action : UInt8}
    (h : isMarkerPayloadWellFormed payload = true) (haction : payload[4]? = some action) :
    action = shieldedActionMint ∧ payload.length = 48 ∨
      action = shieldedActionSpend ∧ payload.length = 80 := by
  rw [isMarkerPayloadWellFormed, markerPrefix_length, haction] at h
  dsimp only at h
  split_ifs at h with hmint hspend
  · exact .inl ⟨hmint, beq_iff_eq.mp h⟩
  · exact .inr ⟨hspend, beq_iff_eq.mp h⟩

/-- **Payloads.**  A payload with the prefix decodes to a marker exactly when it is the payload of that
marker. -/
theorem decodeMarkerPayload_eq_some_iff {payload : Bytes} {m : Marker}
    (hstart : markerPrefix <+: payload) :
    decodeMarkerPayload payload = some m ↔ m.Decoded ∧ payload = m.payload := by
  simp only [decodeMarkerPayload, Option.bind_eq_bind, Option.bind_eq_some_iff, guard_eq_some_iff,
    exists_const]
  simp only [markerPrefix_length, valueSize, fieldSize, proofTagSize, Nat.reduceAdd]
  have hmax : maxMoney.toNat < 256 ^ 8 := by decide
  constructor
  · intro ⟨hform, hle, action, haction, h⟩
    have hvalue : leNat (slice payload 5 13) < 256 ^ 8 := by omega
    have hmoney : (leNat (slice payload 5 13) : Int) ≤ maxMoney := by
      have : (0 : Int) ≤ maxMoney := by decide
      omega
    rcases length_of_wellFormed hform haction with ⟨rfl, hlen⟩ | ⟨rfl, hlen⟩
    · rw [if_pos rfl] at h
      obtain ⟨commitment, hc, rfl⟩ := by simpa [Option.bind_eq_some_iff] using h
      have htag : (slice payload 45 48).length = proofTagSize := by
        rw [slice_length (by omega), proofTagSize]
      refine ⟨⟨Int.natCast_nonneg _, hmoney, htag, rfl, rfl⟩, ?_⟩
      exact (payload_iff hvalue (Uint256.data_length commitment) htag).mpr
        ⟨hlen, hstart, haction, rfl, Uint256.data_prefix_drop_iff.mpr hc, rfl⟩
    · rw [if_neg (by decide), if_pos rfl] at h
      obtain ⟨nullifier, hn, anchor, ha, rfl⟩ := by simpa [Option.bind_eq_some_iff] using h
      have htag : (slice payload 77 80).length = proofTagSize := by
        rw [slice_length (by omega), proofTagSize]
      refine ⟨⟨Int.natCast_nonneg _, hmoney, htag, rfl⟩, ?_⟩
      have hfields : nullifier.data ++ anchor.data <+: payload.drop 13 := by
        rw [append_prefix_iff, List.drop_drop, Uint256.data_length]
        exact ⟨Uint256.data_prefix_drop_iff.mpr hn, Uint256.data_prefix_drop_iff.mpr ha⟩
      exact (payload_iff hvalue (length_data_append nullifier anchor) htag).mpr
        ⟨hlen, hstart, haction, rfl, hfields, rfl⟩
  · intro ⟨hm, hpayload⟩
    obtain ⟨action, value, anchor, commitment, nullifier, tag⟩ := m
    obtain ⟨hnonneg, hmoney, htag, hunused⟩ := hm
    dsimp only at hnonneg hmoney htag hunused
    have hvalue : value.toNat < 256 ^ 8 := by omega
    cases action with
    | mint =>
      obtain ⟨rfl, rfl⟩ := hunused
      have hpayload : payload = markerPrefix ++ [shieldedActionMint] ++ leBytes valueSize value.toNat ++
        commitment.data ++ tag := hpayload
      obtain ⟨hlen, -, haction, hread, hc, hslice⟩ :=
        (payload_iff hvalue (Uint256.data_length commitment) htag).mp hpayload
      refine ⟨?_, ?_, _, haction, ?_⟩
      · rw [isMarkerPayloadWellFormed, markerPrefix_length, haction]
        exact beq_iff_eq.mpr hlen
      · rw [hread]
        omega
      · rw [if_pos rfl, Uint256.data_prefix_drop_iff.mp hc]
        simp [hread, hslice, hnonneg]
    | spend =>
      obtain rfl := hunused
      have hpayload : payload = markerPrefix ++ [shieldedActionSpend] ++ leBytes valueSize value.toNat ++
        (nullifier.data ++ anchor.data) ++ tag := hpayload
      obtain ⟨hlen, -, haction, hread, hfields, hslice⟩ :=
        (payload_iff hvalue (length_data_append nullifier anchor) htag).mp hpayload
      rw [append_prefix_iff, List.drop_drop, Uint256.data_length, Uint256.data_prefix_drop_iff,
        Uint256.data_prefix_drop_iff] at hfields
      refine ⟨?_, ?_, _, haction, ?_⟩
      · rw [isMarkerPayloadWellFormed, markerPrefix_length, haction]
        exact beq_iff_eq.mpr hlen
      · rw [hread]
        omega
      · rw [if_neg (by decide), if_pos rfl, hfields.1, hfields.2]
        simp [hread, hslice, hnonneg]

/-! ## built payloads -/

theorem intBytes_of_money {amount : Int} (hnonneg : 0 ≤ amount) (hle : amount ≤ maxMoney) :
    intBytes valueSize amount = leBytes valueSize amount.toNat := by
  have hmax : maxMoney < 256 ^ 8 := by decide
  rw [intBytes, Int.emod_eq_of_lt hnonneg (by rw [valueSize]; omega)]

section
variable (hash256 : Bytes → Uint256)

theorem Cpp.length_expectedProofTag (m : Marker) :
    (Cpp.expectedProofTag hash256 m).length = proofTagSize := by
  simp [Cpp.expectedProofTag, proofTagSize]

def Cpp.buildPayload (m : Marker) : Bytes :=
  match m.action with
  | .mint => Cpp.buildMintPayload hash256 m.commitment m.nValue
  | .spend => Cpp.buildSpendPayload hash256 m.nullifier m.anchor m.nValue

theorem Cpp.buildPayload_eq {m : Marker} (hm : m.Decoded)
    (htag : m.proofTag = Cpp.expectedProofTag hash256 m) :
    Cpp.buildPayload hash256 m = m.payload := by
  rw [Marker.payload, ← intBytes_of_money hm.value_nonneg hm.value_le, htag]
  obtain ⟨action, value, anchor, commitment, nullifier, tag⟩ := m
  have hunused := hm.unused
  cases action with
  | mint =>
    obtain ⟨rfl, rfl⟩ := hunused
    rw [Cpp.buildPayload, Cpp.buildMintPayload, Cpp.appendAmount_eq]
    rfl
  | spend =>
    obtain rfl : commitment = .null := hunused
    rw [Cpp.buildPayload, Cpp.buildSpendPayload, Cpp.appendAmount_eq]
    simp only [List.append_assoc, Marker.fields]
    rfl

theorem isPrefix_payload (m : Marker) : markerPrefix <+: m.payload := by
  simp only [Marker.payload, List.append_assoc]
  exact List.prefix_append _ _

theorem Marker.Decoded.length_payload {m : Marker} (hm : m.Decoded) : m.payload.length < 256 ^ 4 := by
  have htag := hm.tag_length
  have hfields : m.fields.length ≤ 64 := by
    rw [fields]
    cases m.action <;> simp
  simp only [payload, List.length_append, markerPrefix_length, List.length_singleton, leBytes_length,
    valueSize, proofTagSize] at htag ⊢
  omega

/-- the payload of a marker, pushed after `OP_RETURN`, is found and read back -/
theorem read_back {m : Marker} (hm : m.Decoded) (htag : m.proofTag = Cpp.expectedProofTag hash256 m) :
    extractMarkerPayload (Script.opReturn :: Script.pushData (Cpp.buildPayload hash256 m)) =
        some (Cpp.buildPayload hash256 m) ∧
      decodeMarkerPayload (Cpp.buildPayload hash256 m) = some m := by
  rw [Cpp.buildPayload_eq hash256 hm htag]
  exact ⟨extractMarkerPayload_pushData (isPrefix_payload m) hm.length_payload,
    (decodeMarkerPayload_eq_some_iff (isPrefix_payload m)).mpr ⟨hm, rfl⟩⟩

/-! ## both languages hash the same bytes -/

theorem u64Bytes_ofInt (v : Int) : u64Bytes (UInt64.ofInt v) = intBytes valueSize v := by
  have hlt : (v % 2 ^ 64).toNat < 2 ^ 64 := by omega
  have hnat : (UInt64.ofInt v).toNat = (v % 2 ^ 64).toNat := UInt64.toNat_ofNat_of_lt' hlt
  rw [u64Bytes, hnat]
  rfl

theorem shieldedMarkerFieldHashV1_eq (m : Marker) :
    shieldedMarkerFieldHashV1 hash256 m.action.byte (UInt64.ofInt m.nValue) m.anchor m.nullifier
      m.commitment = some (Cpp.expectedProofHash hash256 m) := by
  rw [Cpp.expectedProofHash_eq, shieldedMarkerFieldHashV1, shieldedMarkerFieldPreimageV1,
    u64Bytes_ofInt, expectedProofHash, buildProofPreimage]
  cases m.action with
  | mint => rfl
  | spend => simp [MarkerAction.byte, shieldedActionMint, shieldedActionSpend]

end

/-- **Marker codec.**  A built mint or spend is read back with exactly its fields; a script that
carries a marker carries what the node builds for these fields, in one of the four forms of a push;
and node and crate take the same hashes of a marker. -/
theorem marker_codec (hash256 : Bytes → Uint256) :
    (∀ (commitment : Uint256) (amount : Int), 0 < amount → amount ≤ maxMoney →
      ∀ payload, payload = Cpp.buildMintPayload hash256 commitment amount →
      extractMarkerPayload (Script.opReturn :: Script.pushData payload) = some payload ∧
        ∃ tag, decodeMarkerPayload payload = some ⟨.mint, amount, .null, commitment, .null, tag⟩ ∧
          tag = Cpp.expectedProofTag hash256 ⟨.mint, amount, .null, commitment, .null, tag⟩) ∧
    (∀ (nullifier anchor : Uint256) (amount : Int), 0 < amount → amount ≤ maxMoney →
      ∀ payload, payload = Cpp.buildSpendPayload hash256 nullifier anchor amount →
      extractMarkerPayload (Script.opReturn :: Script.pushData payload) = some payload ∧
        ∃ tag, decodeMarkerPayload payload = some ⟨.spend, amount, anchor, .null, nullifier, tag⟩ ∧
          tag = Cpp.expectedProofTag hash256 ⟨.spend, amount, anchor, .null, nullifier, tag⟩) ∧
    (∀ (payload header : Bytes), markerPrefix <+: payload → Script.PushHeader payload.length header →
      extractMarkerPayload (Script.opReturn :: (header ++ payload)) = some payload) ∧
    (∀ (script payload : Bytes) (m : Marker), extractMarkerPayload script = some payload →
      decodeMarkerPayload payload = some m → m.proofTag = Cpp.expectedProofTag hash256 m →
      (∃ header, Script.PushHeader payload.length header ∧
        script = Script.opReturn :: (header ++ payload)) ∧
      m.nValue = (Cpp.readUint64Field payload (markerPrefix.length + 1)).toNat ∧
      payload = match m.action with
        | .mint => Cpp.buildMintPayload hash256 m.commitment m.nValue
        | .spend => Cpp.buildSpendPayload hash256 m.nullifier m.anchor m.nValue) ∧
    ∀ (m : Marker) (tx : CTransaction),
      shieldedMarkerFieldHashV1 hash256 m.action.byte (UInt64.ofInt m.nValue) m.anchor m.nullifier
          m.commitment = some (Cpp.expectedProofHash hash256 m) ∧
        proofPublicInputHash hash256 m.action.byte (Cpp.expectedProofHash hash256 m)
          (transactionBindingHash hash256 tx) = Cpp.buildProofPublicInputHash hash256 m tx ∧
        Cpp.expectedProofTag hash256 m = expectedProofTag hash256 m ∧
        Cpp.buildProofPublicInputHash hash256 m tx = buildProofPublicInputHash hash256 m tx := by
  refine ⟨?_, ?_, ?_, ?_, ?_⟩
  · rintro commitment amount hpos hle _ rfl
    have hm : Marker.Decoded ⟨.mint, amount, .null, commitment, .null, _⟩ :=
      ⟨Int.le_of_lt hpos, hle, Cpp.length_expectedProofTag hash256
        ⟨.mint, amount, .null, commitment, .null, []⟩, rfl, rfl⟩
    obtain ⟨hscript, hread⟩ := read_back hash256 hm rfl
    exact ⟨hscript, _, hread, rfl⟩
  · rintro nullifier anchor amount hpos hle _ rfl
    have hm : Marker.Decoded ⟨.spend, amount, anchor, .null, nullifier, _⟩ :=
      ⟨Int.le_of_lt hpos, hle, Cpp.length_expectedProofTag hash256
        ⟨.spend, amount, anchor, .null, nullifier, []⟩, rfl⟩
    obtain ⟨hscript, hread⟩ := read_back hash256 hm rfl
    exact ⟨hscript, _, hread, rfl⟩
  · intro payload header hstart hheader
    exact extractMarkerPayload_eq_some_iff.mpr ⟨hstart, header, hheader, rfl⟩
  · intro script payload m hscript hread htag
    obtain ⟨hstart, hform⟩ := extractMarkerPayload_eq_some_iff.mp hscript
    obtain ⟨hm, hpayload⟩ := (decodeMarkerPayload_eq_some_iff hstart).mp hread
    refine ⟨hform, ?_, ?_⟩
    · have hvalue : m.nValue.toNat < 256 ^ 8 := by
        have hle := hm.value_le
        have hmax : maxMoney < 256 ^ 8 := by decide
        omega
      obtain ⟨-, -, -, hfield, -⟩ := (payload_iff hvalue rfl hm.tag_length).mp hpayload
      have hnonneg := hm.value_nonneg
      rw [Cpp.readUint64Field_toNat, markerPrefix_length, valueSize, hfield]
      omega
    · rw [hpayload, ← Cpp.buildPayload_eq hash256 hm htag]
      rfl
  · intro m tx
    exact ⟨shieldedMarkerFieldHashV1_eq hash256 m, rfl, Cpp.expectedProofTag_eq hash256 m,
      Cpp.buildProofPublicInputHash_eq hash256 m tx⟩

theorem marker_codec_one_coin :
    extractMarkerPayload (Script.opReturn :: Script.pushData
        (Cpp.buildSpendPayload Uint256.polyHash (.ofNat 7) (.ofNat 9) 100000000)) =
      some (Cpp.buildSpendPayload Uint256.polyHash (.ofNat 7) (.ofNat 9) 100000000) ∧
    ∃ tag, decodeMarkerPayload (Cpp.buildSpendPayload Uint256.polyHash (.ofNat 7) (.ofNat 9) 100000000) =
        some ⟨.spend, 100000000, .ofNat 9, .null, .ofNat 7, tag⟩ ∧
      tag = Cpp.expectedProofTag Uint256.polyHash
        ⟨.spend, 100000000, .ofNat 9, .null, .ofNat 7, tag⟩ :=
  (marker_codec Uint256.polyHash).2.1 (.ofNat 7) (.ofNat 9) 100000000 (by decide) (by decide) _ rfl

end Shielded
