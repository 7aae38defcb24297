import ZkCoin.Shielded.ChainInvariant
import ZkCoin.Shielded.EnvelopeScan
import ZkCoin.Shielded.ProofBinding

/-!
# Which actions of a proof the chain accounts for

A bundle proof speaks about many actions and selects one of them for its marker.  The chain state is
updated from the marker alone, and the public input hash ties the marker to the selected action: its
nullifier or commitment is recorded, once over the whole chain.  The other actions pad the bundle.

* `IsEnvelopeOf`                  — the envelopes a transaction carries for a marker.
* `bundleProofOfEnvelope`         — the halo2 bundle inside an envelope.
* `marker_eq_selected_action`     — the marker's fields are those of the selected action.
-/

open Bytes

namespace Shielded

/-! ## envelopes and the bundle proofs inside them -/

/-- `env` is an envelope in a witness stack of `tx` that is addressed to the marker `m` -/
structure IsEnvelopeOf (hash256 : Bytes → Uint256) (tx : CTransaction) (m : Marker)
    (env : StackEnvelope) : Prop where
  in_stack : ∃ txin ∈ tx.vin, ∃ before item rest, txin.scriptWitness = before ++ item :: rest ∧
    decodeProofEnvelopeFromWitnessStack item rest = some env
  kind_eq : env.proofKind = m.action.byte
  input_eq : env.publicInputHash = buildProofPublicInputHash hash256 m tx

/-- the halo2 bundle proof inside an envelope, past bundle, payload, body, request and native bytes -/
def bundleProofOfEnvelope (hash256 : Bytes → Uint256) (env : StackEnvelope) :
    Option OrchardHalo2BundleProof := do
  let request ← realRequestOfBundle hash256 env.bundle env.proofKind env.publicInputHash
  let native ← decodeOrchardNativeProofBytesV1 hash256 request
  decodeOrchardHalo2BundleProofBytesV1 hash256 native.proofBytes request.proofKind
    request.publicInputHash

def OrchardHalo2BundleProof.markerAction (proof : OrchardHalo2BundleProof) :
    Option OrchardHalo2ActionInstanceV1 := proof.actions[proof.markerActionIndex.toNat]?

section
variable {hash256 : Bytes → Uint256} {verifier : Verifier} {tx : CTransaction} {m : Marker}

theorem exists_request_of_verifyProofEnvelope
    (h : verifyProofEnvelope hash256 verifier m tx false = true) :
    ∃ env request, IsEnvelopeOf hash256 tx m env ∧
      realRequestOfBundle hash256 env.bundle env.proofKind env.publicInputHash = some request ∧
      verifier.backend.verify request = .valid := by
  rcases inputs_unmarked_or_first tx.vin with
    hall | ⟨front, txin, back, below, item, rest, hvin, hstack, hfront, hbelow, hitem⟩
  · rw [verifyProofEnvelope, not_isAccepted_of_unmarked hall] at h
    cases h
  · obtain ⟨env, henv, hkind, hpih, -, -, hbundle⟩ :=
      (isAccepted_of_first (tag_of_isAccepted h) hvin hstack hfront hbelow hitem).mp h
    have hmem : txin ∈ tx.vin := by
      rw [hvin]
      exact List.mem_append_right _ List.mem_cons_self
    obtain ⟨hstatus, hscaffold⟩ := bundleCheck_isAccepted_iff.mp hbundle
    obtain ⟨request, hrequest, hvalid⟩ :=
      exists_request_of_valid hstatus (hscaffold.resolve_left (by decide))
    rw [← hkind, ← hpih] at hrequest
    exact ⟨env, request, ⟨⟨txin, hmem, below, item, rest, hstack, envelopeAt_iff.mp henv⟩, hkind, hpih⟩,
      hrequest, hvalid⟩

/-! ## the marker is the selected action -/

/-- the byte strings whose hashes tie a marker to the bundle proof of its envelope: the node's two
preimages and the decoder's two -/
def bindingPreimages (hash256 : Bytes → Uint256) (tx : CTransaction) (m : Marker)
    (proof : OrchardHalo2BundleProof) : List Bytes :=
  [buildProofPreimage m,
    proofPublicInputPreimage m.action.byte (expectedProofHash hash256 m)
      (transactionBindingHash hash256 tx)] ++
  match proof.markerAction with
  | none => []
  | some a =>
    match shieldedMarkerFieldPreimageV1 m.action.byte proof.shieldedValue a.anchor a.nfOld a.cmx with
    | none => []
    | some field =>
      [field, proofPublicInputPreimage m.action.byte (hash256 field) proof.txBindingHash]

theorem proofPublicInputPreimage_inj {kind : UInt8} {field field' binding binding' : Uint256}
    (h : proofPublicInputPreimage kind field binding = proofPublicInputPreimage kind field' binding') :
    field = field' ∧ binding = binding' := by
  unfold proofPublicInputPreimage at h
  obtain ⟨h, hbinding⟩ := List.append_inj' h (by simp)
  obtain ⟨-, hfield⟩ := List.append_inj' h (by simp)
  exact ⟨Uint256.data_inj hfield, Uint256.data_inj hbinding⟩

theorem fields_of_buildProofPreimage {value : UInt64} {a : OrchardHalo2ActionInstanceV1}
    (h : shieldedMarkerFieldPreimageV1 m.action.byte value a.anchor a.nfOld a.cmx =
      some (buildProofPreimage m)) :
    (m.action = .mint → a.cmx = m.commitment) ∧
      (m.action = .spend → a.nfOld = m.nullifier ∧ a.anchor = m.anchor) := by
  cases ha : m.action with
  | mint =>
    refine ⟨fun _ => ?_, nofun⟩
    simp only [shieldedMarkerFieldPreimageV1, buildProofPreimage, ha, MarkerAction.byte, if_true,
      Option.some.injEq] at h
    obtain ⟨-, hcmx⟩ := List.append_inj' h (by simp)
    exact Uint256.data_inj hcmx
  | spend =>
    refine ⟨nofun, fun _ => ?_⟩
    have hkind : shieldedActionSpend ≠ shieldedActionMint := by decide
    simp only [shieldedMarkerFieldPreimageV1, buildProofPreimage, ha, MarkerAction.byte, hkind,
      if_false, if_true, Option.some.injEq, ← List.append_assoc] at h
    obtain ⟨h, hanchor⟩ := List.append_inj' h (by simp)
    obtain ⟨-, hnf⟩ := List.append_inj' h (by simp)
    exact ⟨Uint256.data_inj hnf, Uint256.data_inj hanchor⟩

/-- the byte strings whose hashes tie a marker to an action with a value and a transaction binding -/
def actionPreimages (hash256 : Bytes → Uint256) (tx : CTransaction) (m : Marker)
    (a : OrchardHalo2ActionInstanceV1) (value : UInt64) (binding : Uint256) : List Bytes :=
  [buildProofPreimage m,
    proofPublicInputPreimage m.action.byte (expectedProofHash hash256 m)
      (transactionBindingHash hash256 tx)] ++
  match shieldedMarkerFieldPreimageV1 m.action.byte value a.anchor a.nfOld a.cmx with
  | none => []
  | some field => [field, proofPublicInputPreimage m.action.byte (hash256 field) binding]

theorem fields_of_publicInput {a : OrchardHalo2ActionInstanceV1} {value : UInt64} {binding : Uint256}
    {spend output : Bool}
    (hinput : orchardHalo2ActionPublicInputHashV1 hash256 m.action.byte value binding a spend output =
      some (buildProofPublicInputHash hash256 m tx))
    (hfree : CollisionFree hash256 (actionPreimages hash256 tx m a value binding)) :
    (m.action = .mint → a.cmx = m.commitment) ∧
      (m.action = .spend → a.nfOld = m.nullifier ∧ a.anchor = m.anchor) := by
  simp only [orchardHalo2ActionPublicInputHashV1, shieldedMarkerFieldHashV1, Option.bind_eq_bind,
    Option.bind_eq_some_iff, guard_eq_some_iff, exists_const, Option.map_eq_some_iff,
    Option.some.injEq] at hinput
  obtain ⟨-, fieldHash, ⟨field, hfield, rfl⟩, hinput⟩ := hinput
  rw [actionPreimages, hfield] at hfree
  -- the outer hash gives the field hash, the field hash gives the fields
  have houter := hfree _ (by simp) _ (by simp) hinput
  obtain ⟨hhash, -⟩ := proofPublicInputPreimage_inj houter
  have hfields := hfree field (by simp) (buildProofPreimage m) (by simp) hhash
  rw [hfields] at hfield
  exact fields_of_buildProofPreimage hfield

/-- **The selected action.**  The bundle proof of a marker's envelope selects an action, and the
marker's nullifier or commitment is that action's. -/
theorem marker_eq_selected_action {env : StackEnvelope} {proof : OrchardHalo2BundleProof}
    (henv : IsEnvelopeOf hash256 tx m env) (hproof : bundleProofOfEnvelope hash256 env = some proof)
    (hfree : CollisionFree hash256 (bindingPreimages hash256 tx m proof)) :
    ∃ a, proof.markerAction = some a ∧ (m.action = .mint → a.cmx = m.commitment) ∧
      (m.action = .spend → a.nfOld = m.nullifier ∧ a.anchor = m.anchor) := by
  simp only [bundleProofOfEnvelope, Option.bind_eq_bind, Option.bind_eq_some_iff] at hproof
  obtain ⟨request, hrequest, native, -, hproof⟩ := hproof
  obtain ⟨hkind, hpih⟩ := realRequestOfBundle_fields hrequest
  rw [hkind, hpih, henv.kind_eq, henv.input_eq] at hproof
  obtain ⟨a, ha, hinput⟩ := decodeOrchardHalo2BundleProofBytesV1_markerAction hproof
  have hmarker : proof.markerAction = some a := ha
  rw [bindingPreimages, hmarker] at hfree
  exact ⟨a, hmarker, fields_of_publicInput hinput hfree⟩

def orchardVerifier (hash256 : Bytes → Uint256) (orchard : OrchardCrate)
    (orchardCommitmentRootV1 : List Uint256 → Option Uint256) : Verifier :=
  ⟨orchardBackend hash256 orchard, orchardCommitmentRootV1⟩

theorem mem_spendNullifiers {log : List Marker} (hm : m ∈ log) (ha : m.action = .spend) :
    m.nullifier ∈ spendNullifiers log :=
  List.mem_map_of_mem (List.mem_filter.mpr ⟨hm, by rw [Marker.hasNullifier, ha]; rfl⟩)

theorem mem_mintCommitments {log : List Marker} (hm : m ∈ log) (ha : m.action = .mint) :
    m.commitment ∈ mintCommitments log :=
  List.mem_map_of_mem (List.mem_filter.mpr ⟨hm, by rw [Marker.hasCommitment, ha]; rfl⟩)

end

/-! ## a padded bundle -/

/-- the orchard node of the concrete chain, with a root over all commitments -/
def sampleOrchardVerifier : Verifier :=
  orchardVerifier Uint256.polyHash sampleOrchard
    fun commitments => some (Uint256.polyHash (commitments.flatMap Uint256.data))

/-- a transaction whose marker `m` is proved by a bundle of `actions` that selects the second one -/
def sampleBundleTx (n : UInt32) (payload : Bytes) (m : Marker)
    (actions : List OrchardHalo2ActionInstanceV1) (spend output : Bool) : CTransaction :=
  let unproved := sampleMarkerTx n payload []
  let input : OrchardRealVerifierInput :=
    ⟨m.action.byte, buildProofPublicInputHash Uint256.polyHash m unproved,
      expectedOrchardRealVerifierKeyHashV1 Uint256.polyHash⟩
  let halo2 := buildOrchardHalo2BundleProofBytesV1 m.action.byte 1 (UInt64.ofNat m.nValue.toNat)
    (transactionBindingHash Uint256.polyHash unproved) actions spend output [42]
  sampleMarkerTx n payload [buildRealProofEnvelope Uint256.polyHash m unproved
    (buildOrchardNativeProofBytesV1 Uint256.polyHash input halo2)]

def sampleBundleMint : CTransaction :=
  sampleBundleTx 0 (buildMintPayload Uint256.polyHash (.ofNat 25) 10)
    ⟨.mint, 10, .null, .ofNat 25, .null, []⟩ [sampleAction 10, sampleAction 20] false true

def sampleRoot : Uint256 := nextCommitmentRoot Uint256.polyHash sampleOrchardVerifier [] .null 0
  (.ofNat 25)

def sampleBundleSpend : CTransaction :=
  sampleBundleTx 1 (buildSpendPayload Uint256.polyHash (.ofNat 43) sampleRoot 4)
    ⟨.spend, 4, sampleRoot, .null, .ofNat 43, []⟩
    [sampleAction 30, { sampleAction 40 with anchor := sampleRoot }] true false

/-- a mint and then a spend, both proved by bundles of two actions -/
def sampleBundleChain : List CBlock :=
  [sampleBlock [sampleBundleSpend], sampleBlock [sampleBundleMint]]

def sampleMintMarker : Marker :=
  ⟨.mint, 10, .null, .ofNat 25, .null,
    expectedProofTag Uint256.polyHash ⟨.mint, 10, .null, .ofNat 25, .null, []⟩⟩

def sampleSpendMarker : Marker :=
  ⟨.spend, 4, sampleRoot, .null, .ofNat 43,
    expectedProofTag Uint256.polyHash ⟨.spend, 4, sampleRoot, .null, .ofNat 43, []⟩⟩

/-- the whole witness of a transaction as an envelope for `m` -/
def sampleEnvelope (tx : CTransaction) (m : Marker) : StackEnvelope :=
  ⟨m.action.byte, buildProofPublicInputHash Uint256.polyHash m tx,
    (tx.vin.flatMap CTxIn.scriptWitness).flatten.drop 46,
    (tx.vin.flatMap CTxIn.scriptWitness).flatten, 0⟩

def sampleSpendProof : OrchardHalo2BundleProof where
  proofKind := 2
  markerActionIndex := 1
  shieldedValue := 4
  txBindingHash := transactionBindingHash Uint256.polyHash sampleBundleSpend
  enableSpend := true
  enableOutput := false
  actions := [sampleAction 30, { sampleAction 40 with anchor := sampleRoot }]
  proofBytes := [42]

def sampleMintProof : OrchardHalo2BundleProof where
  proofKind := 1
  markerActionIndex := 1
  shieldedValue := 10
  txBindingHash := transactionBindingHash Uint256.polyHash sampleBundleMint
  enableSpend := false
  enableOutput := true
  actions := [sampleAction 10, sampleAction 20]
  proofBytes := [42]

end Shielded
