import ZkCoin.Shielded.RealProofCodec

/-!
# What an accepted halo2 proof binds

A marker pair (value, transaction binding hash) reaches the verifier only through hashes that the
builder recomputes: the halo2 instances are made of the action fields and the two flags alone.  So
whether a wrapped proof is accepted does not depend on the pair at all.

* `Halo2Form`             — the single-action and the bundle payload.
* `wrapRequest`           — payload, native bytes and request built around one halo2 proof.
* `Halo2Form.Accepted`    — the pair-free condition under which the backend says `valid`.
* `wrapStatus_eq_valid_iff` — a wrapped proof is valid exactly under that condition.
-/

open Bytes

namespace Shielded

/-! ## wrapping a proof for a marker pair -/

/-- the two halo2 payload layouts -/
inductive Halo2Form where
  | action (a : OrchardHalo2ActionInstanceV1)
  | bundle (actions : List OrchardHalo2ActionInstanceV1) (markerActionIndex : UInt32)
  deriving DecidableEq

structure MarkerPair where
  shieldedValue : UInt64
  txBindingHash : Uint256
  deriving DecidableEq

def Halo2Form.markerAction : Halo2Form → Option OrchardHalo2ActionInstanceV1
  | .action a => some a
  | .bundle actions index => actions[index.toNat]?

/-- the actions whose instances the halo2 proof is checked against -/
def Halo2Form.actions : Halo2Form → List OrchardHalo2ActionInstanceV1
  | .action a => [a]
  | .bundle actions _ => actions

def Halo2Form.buildProofBytes (kind : UInt8) (spend output : Bool) (proof : Bytes)
    (pair : MarkerPair) : Halo2Form → Bytes
  | .action a =>
    buildOrchardHalo2ActionProofBytesV1 kind pair.shieldedValue pair.txBindingHash a spend output
      proof
  | .bundle actions index =>
    buildOrchardHalo2BundleProofBytesV1 kind index pair.shieldedValue pair.txBindingHash actions
      spend output proof

/-- the size of the payload around a proof of `n` bytes -/
def Halo2Form.payloadLength (n : Nat) : Halo2Form → Nat
  | .action _ => orchardHalo2ActionProofHeaderLenV1 + n
  | .bundle actions _ =>
    orchardHalo2BundleProofFixedHeaderLenV1 + actions.length * orchardHalo2ActionRecordLenV1 + 4 + n

section
variable (hash256 : Bytes → Uint256) (orchard : OrchardCrate)
variable (form : Halo2Form) (kind : UInt8) (spend output : Bool) (proof : Bytes)

/-- the request around `proof` for `pair`, its public input hash computed from `pair` -/
def wrapRequest (pair : MarkerPair) : Option OrchardRealProofRequest := do
  let a ← form.markerAction
  let publicInputHash ← orchardHalo2ActionPublicInputHashV1 hash256 kind pair.shieldedValue
    pair.txBindingHash a spend output
  let input : OrchardRealVerifierInput :=
    ⟨kind, publicInputHash, expectedOrchardRealVerifierKeyHashV1 hash256⟩
  let native := buildOrchardNativeProofBytesV1 hash256 input
    (form.buildProofBytes kind spend output proof pair)
  decodeOrchardRealProofRequestV1 hash256
    (buildOrchardRealProofV1 hash256 kind publicInputHash native) kind publicInputHash

/-- the backend's verdict on the wrapped proof, `none` when there is no request -/
def wrapStatus (pair : MarkerPair) : Option OrchardRealProofStatus :=
  (wrapRequest hash256 form kind spend output proof pair).map
    (verifyOrchardHalo2ActionProofV1 hash256 orchard)

/-- the backend accepts `proof` for these actions: the marker action exists, the flags fit the kind,
the length fields hold the lengths, every action has an instance and halo2 verification succeeds -/
def Halo2Form.Accepted : Prop :=
  form.markerAction.isSome ∧
  orchardHalo2ActionFlagsMatchMarkerV1 kind spend output = true ∧
  0 < proof.length ∧
  orchardRealNativeProofHeaderLenV1 + form.payloadLength proof.length < 2 ^ 32 ∧
  ∃ instances,
    form.actions.mapM (orchardInstanceFromHalo2ActionFieldsV1 orchard spend output) =
      some instances ∧
    orchard.proofVerify proof instances = true

end

/-! ## the pair plays no part in acceptance -/

theorem halo2StatusV1_eq_valid_iff {orchard : OrchardCrate} {proof : Bytes}
    {instances : Option (List orchard.Instance)} :
    halo2StatusV1 orchard proof instances = .valid ↔
      ∃ is, instances = some is ∧ orchard.proofVerify proof is = true := by
  cases instances with
  | none => simp [halo2StatusV1]
  | some is =>
    by_cases h : orchard.proofVerify proof is = true
    · simp [halo2StatusV1, h]
    · simp [halo2StatusV1, h]

theorem buildProofBytes_length (form : Halo2Form) (kind : UInt8) (spend output : Bool)
    (proof : Bytes) (pair : MarkerPair) :
    (form.buildProofBytes kind spend output proof pair).length = form.payloadLength proof.length := by
  cases form with
  | action a =>
    simp [Halo2Form.buildProofBytes, Halo2Form.payloadLength, orchardHalo2ActionProofHeaderLenV1,
      buildOrchardHalo2ActionProofBytesV1, hashSize]
    omega
  | bundle actions index =>
    simp [Halo2Form.buildProofBytes, Halo2Form.payloadLength, buildOrchardHalo2BundleProofBytesV1,
      orchardHalo2BundleProofFixedHeaderLenV1, orchardHalo2ActionRecordLenV1, hashSize]
    omega

theorem buildOrchardNativeProofBytesV1_length (hash256 : Bytes → Uint256)
    (input : OrchardRealVerifierInput) (bytes : Bytes) :
    (buildOrchardNativeProofBytesV1 hash256 input bytes).length =
      orchardRealNativeProofHeaderLenV1 + bytes.length := by
  simp [buildOrchardNativeProofBytesV1, orchardRealNativeProofHeaderLenV1, hashSize]
  omega

section
variable (hash256 : Bytes → Uint256) (orchard : OrchardCrate)
variable (form : Halo2Form) (kind : UInt8) (spend output : Bool) (proof : Bytes)

theorem verifyOrchardHalo2ActionProofV1_wrapped {pair : MarkerPair} {a : OrchardHalo2ActionInstanceV1}
    {pih : Uint256} (ha : form.markerAction = some a)
    (hpih : orchardHalo2ActionPublicInputHashV1 hash256 kind pair.shieldedValue pair.txBindingHash a
      spend output = some pih)
    (hroom : orchardRealNativeProofHeaderLenV1 + form.payloadLength proof.length < 2 ^ 32) :
    verifyOrchardHalo2ActionProofV1 hash256 orchard ⟨kind, pih,
        expectedOrchardRealVerifierKeyHashV1 hash256, buildOrchardNativeProofBytesV1 hash256
          ⟨kind, pih, expectedOrchardRealVerifierKeyHashV1 hash256⟩
          (form.buildProofBytes kind spend output proof pair)⟩
      = if 0 < proof.length then
          halo2StatusV1 orchard proof
            (form.actions.mapM (orchardInstanceFromHalo2ActionFieldsV1 orchard spend output))
        else .invalid := by
  have hlen := buildProofBytes_length form kind spend output proof pair
  have hpos : 0 < form.payloadLength proof.length := by
    cases form <;> simp [Halo2Form.payloadLength, orchardHalo2ActionProofHeaderLenV1]
  have hnative := decodeOrchardNativeProofBytesV1_build hash256
    ⟨kind, pih, expectedOrchardRealVerifierKeyHashV1 hash256⟩
    (form.buildProofBytes kind spend output proof pair)
  rw [if_pos ⟨by omega, by omega⟩] at hnative
  simp only [verifyOrchardHalo2ActionProofV1, hnative]
  cases form with
  | action a' =>
    obtain rfl : a' = a := by simpa [Halo2Form.markerAction] using ha
    have hproof : proof.length < 2 ^ 32 := by
      simp only [Halo2Form.payloadLength] at hroom
      omega
    have hdecode := decodeOrchardHalo2ActionProofBytesV1_build hash256 kind pair.shieldedValue
      pair.txBindingHash spend output pih hpih proof
    simp only [Halo2Form.buildProofBytes, hdecode, decodeOrchardHalo2BundleProofBytesV1_action, hproof]
    have hsingle : (Halo2Form.action a').actions.mapM
        (orchardInstanceFromHalo2ActionFieldsV1 orchard spend output) =
        (orchardInstanceFromHalo2ActionFieldsV1 orchard spend output a').map ([·]) := by
      cases h : orchardInstanceFromHalo2ActionFieldsV1 orchard spend output a' <;>
        simp [Halo2Form.actions, h]
    by_cases h0 : 0 < proof.length
    · simp [h0, hsingle]
    · simp [h0]
  | bundle actions index =>
    have hcount : actions.length < 2 ^ 32 ∧ proof.length < 2 ^ 32 := by
      simp only [Halo2Form.payloadLength, orchardHalo2ActionRecordLenV1, hashSize] at hroom
      omega
    have ha' : actions[index.toNat]? = some a := ha
    have hdecode := decodeOrchardHalo2BundleProofBytesV1_build hash256 kind pair.shieldedValue
      pair.txBindingHash spend output pih hcount.1 ha' hpih proof
    simp only [Halo2Form.buildProofBytes, decodeOrchardHalo2ActionProofBytesV1_bundle, hdecode,
      hcount.2]
    by_cases h0 : 0 < proof.length
    · simp [h0, Halo2Form.actions]
    · simp [h0]

/-- a wrapped proof is accepted exactly under the pair-free condition -/
theorem wrapStatus_eq_valid_iff (pair : MarkerPair) :
    wrapStatus hash256 orchard form kind spend output proof pair = some .valid ↔
      form.Accepted orchard kind spend output proof := by
  unfold Halo2Form.Accepted
  rw [← halo2StatusV1_eq_valid_iff]
  cases ha : form.markerAction with
  | none => simp [wrapStatus, wrapRequest, ha]
  | some a =>
    by_cases hflags : orchardHalo2ActionFlagsMatchMarkerV1 kind spend output = true
    · obtain ⟨pih, hpih⟩ := exists_publicInputHash hash256 hflags pair.shieldedValue
        pair.txBindingHash a
      by_cases hroom : orchardRealNativeProofHeaderLenV1 + form.payloadLength proof.length < 2 ^ 32
      · have hv := verifyOrchardHalo2ActionProofV1_wrapped hash256 orchard form kind spend output
          proof ha hpih hroom
        simp only [wrapStatus, wrapRequest, ha, hpih, decodeOrchardRealProofRequestV1_build,
          buildOrchardNativeProofBytesV1_length, buildProofBytes_length, hroom, Option.bind_eq_bind,
          Option.bind_some, if_true, Option.map_some, hv, hflags, Option.isSome_some]
        by_cases h0 : 0 < proof.length <;> simp [h0]
      · simp only [wrapStatus, wrapRequest, ha, hpih, decodeOrchardRealProofRequestV1_build,
          buildOrchardNativeProofBytesV1_length, buildProofBytes_length, hroom, Option.bind_eq_bind,
          Option.bind_some, if_false, Option.map_none, false_and, and_false, reduceCtorEq]
    · have hnone : orchardHalo2ActionPublicInputHashV1 hash256 kind pair.shieldedValue
          pair.txBindingHash a spend output = none := by
        cases h : orchardHalo2ActionPublicInputHashV1 hash256 kind pair.shieldedValue
          pair.txBindingHash a spend output with
        | none => rfl
        | some p => exact absurd (flags_of_publicInputHash h) hflags
      simp [wrapStatus, wrapRequest, ha, hnone, hflags]

/-- **Binding.**  Two requests around the same halo2 proof and the same actions, each accepted, force
their marker pairs to be equal exactly when the pairs are equal already or the proof is accepted for
no pair: acceptance never looks at the value or at the transaction. -/
theorem rewrapped_proof_binds_pair_iff (pair₁ pair₂ : MarkerPair) :
    (wrapStatus hash256 orchard form kind spend output proof pair₁ = some .valid →
      wrapStatus hash256 orchard form kind spend output proof pair₂ = some .valid →
      pair₁.shieldedValue = pair₂.shieldedValue ∧ pair₁.txBindingHash = pair₂.txBindingHash) ↔
    (pair₁.shieldedValue = pair₂.shieldedValue ∧ pair₁.txBindingHash = pair₂.txBindingHash) ∨
      ¬ form.Accepted orchard kind spend output proof := by
  simp only [wrapStatus_eq_valid_iff]
  tauto

end

/-! ## one proof, two amounts, two transactions -/

/-- every byte string hashed while a request is built and verified -/
def wrapPreimages (hash256 : Bytes → Uint256) (form : Halo2Form) (kind : UInt8)
    (spend output : Bool) (pair : MarkerPair) : Option (List Bytes) := do
  let a ← form.markerAction
  let field ← shieldedMarkerFieldPreimageV1 kind pair.shieldedValue a.anchor a.nfOld a.cmx
  let pih ← orchardHalo2ActionPublicInputHashV1 hash256 kind pair.shieldedValue pair.txBindingHash a
    spend output
  some [field,
    proofPublicInputPreimage kind (hash256 field) pair.txBindingHash,
    orchardRealVerifierKeyHashPreimagePrefixV1,
    orchardRealVerifierInputPreimagePrefixV1 ++ [kind] ++ pih.data ++
      (expectedOrchardRealVerifierKeyHashV1 hash256).data]

/-- a crate whose field decoders accept every field and whose only proof is one byte -/
def sampleOrchard : OrchardCrate where
  Anchor := Uint256
  ValueCommitment := Uint256
  Nullifier := Uint256
  VerificationKey := Uint256
  ExtractedNoteCommitment := Uint256
  Instance := OrchardHalo2ActionInstanceV1 × Bool × Bool
  anchorFromBytes := some
  valueCommitmentFromBytes := some
  nullifierFromBytes := some
  verificationKeyTryFrom := some
  extractedNoteCommitmentFromBytes := some
  instanceFromParts anchor cvNet nfOld rk cmx spend output :=
    some (⟨anchor, cvNet, nfOld, rk, cmx⟩, spend, output)
  proofVerify proof instances := proof == [42] && !instances.isEmpty

def sampleAction (seed : Nat) : OrchardHalo2ActionInstanceV1 :=
  ⟨Uint256.ofNat (seed + 1), Uint256.ofNat (seed + 2), Uint256.ofNat (seed + 3),
    Uint256.ofNat (seed + 4), Uint256.ofNat (seed + 5)⟩

/-- a spend bundle proved once is accepted for the value 5 in one transaction and for the value 7 in
another, under a digest without a collision among the byte strings the two runs hash -/
theorem rewrapped_spend_bundle_accepted_twice :
    let form := Halo2Form.bundle [sampleAction 10, sampleAction 20] 1
    let pair₁ : MarkerPair := ⟨5, Uint256.ofNat 100⟩
    let pair₂ : MarkerPair := ⟨7, Uint256.ofNat 200⟩
    let hashed := (wrapPreimages Uint256.polyHash form 2 true false pair₁).getD [] ++
      (wrapPreimages Uint256.polyHash form 2 true false pair₂).getD []
    hashed.length = 8 ∧
    (∀ p ∈ hashed, ∀ q ∈ hashed, Uint256.polyHash p = Uint256.polyHash q → p = q) ∧
    wrapStatus Uint256.polyHash sampleOrchard form 2 true false [42] pair₁ = some .valid ∧
    wrapStatus Uint256.polyHash sampleOrchard form 2 true false [42] pair₂ = some .valid ∧
    pair₁.shieldedValue ≠ pair₂.shieldedValue ∧ pair₁.txBindingHash ≠ pair₂.txBindingHash := by
  decide +kernel

end Shielded
