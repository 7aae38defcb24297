import ZkCoin.Shielded.ActionAccounting
import ZkCoin.Shielded.VerifierAbi

/-!
# Note roots of the orchard node

A node linked with the orchard crate takes the root of its note tree from the crate and falls back to
a hash chain when the crate rejects a commitment.  The proof of a mint is checked for the very
commitment its marker carries, so the crate has parsed every commitment of an accepted chain and the
fallback is never taken.

* `orchardCommitmentRootV1`     — the root of the crate, over a note tree with a bounded frontier.
* `Cpp.orchardCommitmentRootV1` — the node's call of it through the C interface.
* `selectedAction`              — the action a valid request proves for its marker.
* `commitment_root_is_orchard_root` — roots and anchors of every accepted chain.
-/

open Bytes

namespace Shielded

/-! ## the crate -/

/-- the note tree of the orchard crate: `MerkleHashOrchard` and `Frontier<_, 32>`; `append` is `none`
where the source returns `false` -/
structure NoteTreeCrate where
  MerkleHashOrchard : Type
  merkleHashFromBytes : Uint256 → Option MerkleHashOrchard
  toBytes : MerkleHashOrchard → Uint256
  Frontier : Type
  empty : Frontier
  append : Frontier → MerkleHashOrchard → Option Frontier
  root : Frontier → MerkleHashOrchard

/-- a frontier of depth 32 has room for `2 ^ 32` leaves -/
def NoteTreeCrate.HasRoom (tree : NoteTreeCrate) : Prop :=
  ∀ leaves : List tree.MerkleHashOrchard, leaves.length ≤ 2 ^ 32 →
    (leaves.foldlM tree.append tree.empty).isSome

section
variable (tree : NoteTreeCrate)

/-- `orchard_commitment_root_v1` -/
def orchardCommitmentRootV1 (commitments : List Uint256) : Option Uint256 := do
  let frontier ← commitments.foldlM (fun frontier commitment => do
    let commitment ← tree.merkleHashFromBytes commitment
    tree.append frontier commitment) tree.empty
  some (tree.toBytes (tree.root frontier))

/-- `bytes.chunks_exact(32)`, each chunk a hash -/
def chunksExact : Nat → Bytes → List Uint256
  | 0, _ => []
  | fuel + 1, bytes =>
    match Uint256.readAt bytes 0 with
    | none => []
    | some chunk => chunk :: chunksExact fuel (bytes.drop hashSize)

/-- `zkc_shielded_orchard_commitment_root_v1` of a build with the orchard crate -/
def zkcShieldedOrchardCommitmentRoot (commitments rootOut : Buffer) : Int × Buffer :=
  if !rootOut.isHashOut then (0, rootOut)
  else
    let rootOut := rootOut.writeZeros
    if commitments.len % hashSize ≠ 0 then (0, rootOut)
    else if commitments.isNull && commitments.len ≠ 0 then (0, rootOut)
    else
      match orchardCommitmentRootV1 tree (chunksExact commitments.len commitments.data) with
      | none => (0, rootOut)
      | some root => (1, rootOut.copy root)

/-- `OrchardCommitmentRootV1`: the node's call -/
def Cpp.orchardCommitmentRootV1 (commitments : List Uint256) : Option Uint256 :=
  let commitmentBytes := commitments.flatMap Uint256.data
  let (ok, rootBytes) := zkcShieldedOrchardCommitmentRoot tree
    (if commitmentBytes = [] then .null 0 else .bytes commitmentBytes)
    (.bytes (List.replicate shieldedProofHashSize 0))
  if ok ≠ 1 then none else some (uint256Of rootBytes.data)

def orchardNode (hash256 : Bytes → Uint256) (orchard : OrchardCrate) : Verifier :=
  orchardVerifier hash256 orchard (Cpp.orchardCommitmentRootV1 tree)

end

/-! ## the call through the C interface -/

section
variable {tree : NoteTreeCrate}

theorem chunksExact_flatMap (hashes : List Uint256) {fuel : Nat} (hfuel : hashes.length ≤ fuel) :
    chunksExact fuel (hashes.flatMap Uint256.data) = hashes := by
  induction hashes generalizing fuel with
  | nil =>
    cases fuel with
    | zero => rfl
    | succ fuel => rfl
  | cons hash hashes ih =>
    cases fuel with
    | zero => cases hfuel
    | succ fuel =>
      rw [List.flatMap_cons, chunksExact, Uint256.readAt_append_self]
      dsimp only
      rw [hashSize, List.drop_left' (Uint256.data_length hash), ih (Nat.le_of_succ_le_succ hfuel)]

theorem length_flatMap_data (hashes : List Uint256) :
    (hashes.flatMap Uint256.data).length = hashes.length * 32 := by
  induction hashes with
  | nil => rfl
  | cons hash hashes ih => simp [ih, Nat.add_mul, Nat.add_comm]

theorem commitmentBuffer (commitments : List Uint256) {buffer : Buffer}
    (h : (if commitments.flatMap Uint256.data = [] then Buffer.null 0
      else .bytes (commitments.flatMap Uint256.data)) = buffer) :
    buffer.len = commitments.length * 32 ∧ buffer.data = commitments.flatMap Uint256.data ∧
      (buffer.isNull && buffer.len ≠ 0) = false := by
  have hlen := length_flatMap_data commitments
  split_ifs at h with hnil
  · subst h
    rw [hnil] at hlen
    exact ⟨hlen, hnil.symm, rfl⟩
  · subst h
    exact ⟨hlen, rfl, rfl⟩

theorem Cpp.orchardCommitmentRootV1_eq (commitments : List Uint256) :
    Cpp.orchardCommitmentRootV1 tree commitments = Shielded.orchardCommitmentRootV1 tree commitments := by
  generalize hbuffer : (if commitments.flatMap Uint256.data = [] then Buffer.null 0
    else .bytes (commitments.flatMap Uint256.data)) = buffer
  obtain ⟨hlen, hdata, hnull⟩ := commitmentBuffer commitments hbuffer
  have hchunks : chunksExact buffer.len buffer.data = commitments := by
    rw [hlen, hdata]
    exact chunksExact_flatMap commitments (by omega)
  have hcall : zkcShieldedOrchardCommitmentRoot tree buffer
      (.bytes (List.replicate shieldedProofHashSize 0)) =
      match Shielded.orchardCommitmentRootV1 tree commitments with
      | none => (0, .bytes (List.replicate 32 0))
      | some root => (1, .bytes root.data) := by
    rw [zkcShieldedOrchardCommitmentRoot, hchunks, if_neg (by decide)]
    dsimp only
    rw [if_neg (by rw [hlen, hashSize]; omega), if_neg (by rw [hnull]; decide)]
    cases Shielded.orchardCommitmentRootV1 tree commitments with
    | none => rfl
    | some root =>
      show ((1 : Int), Buffer.bytes (root.data ++ [])) = _
      rw [List.append_nil]
  rw [Cpp.orchardCommitmentRootV1]
  dsimp only
  rw [hbuffer, hcall]
  cases Shielded.orchardCommitmentRootV1 tree commitments with
  | none => rfl
  | some root =>
    show some (uint256Of root.data) = some root
    rw [uint256Of, dif_pos root.data_length]

theorem exists_leaves {commitments : List Uint256}
    (hparsed : ∀ c ∈ commitments, (tree.merkleHashFromBytes c).isSome) :
    ∃ leaves : List tree.MerkleHashOrchard, leaves.length = commitments.length ∧
      ∀ frontier, commitments.foldlM (fun frontier commitment => do
        let commitment ← tree.merkleHashFromBytes commitment
        tree.append frontier commitment) frontier = leaves.foldlM tree.append frontier := by
  induction commitments with
  | nil => exact ⟨[], rfl, fun _ => rfl⟩
  | cons c commitments ih =>
    obtain ⟨leaf, hleaf⟩ := Option.isSome_iff_exists.mp (hparsed c List.mem_cons_self)
    obtain ⟨leaves, hlen, hfold⟩ := ih fun c' hc' => hparsed c' (List.mem_cons_of_mem _ hc')
    refine ⟨leaf :: leaves, by rw [List.length_cons, List.length_cons, hlen], ?_⟩
    intro frontier
    rw [List.foldlM_cons, List.foldlM_cons, hleaf]
    show (tree.append frontier leaf).bind _ = (tree.append frontier leaf).bind _
    congr 1
    funext frontier'
    exact hfold frontier'

theorem exists_root_of_parsed (hroom : tree.HasRoom) {commitments : List Uint256}
    (hlen : commitments.length ≤ 2 ^ 32)
    (hparsed : ∀ c ∈ commitments, (tree.merkleHashFromBytes c).isSome) :
    ∃ root, Shielded.orchardCommitmentRootV1 tree commitments = some root := by
  obtain ⟨leaves, hleaves, hfold⟩ := exists_leaves hparsed
  obtain ⟨frontier, hfrontier⟩ := Option.isSome_iff_exists.mp (hroom leaves (hleaves ▸ hlen))
  refine ⟨tree.toBytes (tree.root frontier), ?_⟩
  rw [Shielded.orchardCommitmentRootV1, hfold, hfrontier]
  rfl

end

/-! ## what a valid request proves -/

structure SelectedAction where
  action : OrchardHalo2ActionInstanceV1
  shieldedValue : UInt64
  txBindingHash : Uint256

/-- the action that the proof of a request selects for its marker, in either payload form -/
def selectedAction (hash256 : Bytes → Uint256) (request : OrchardRealProofRequest) :
    Option SelectedAction :=
  match decodeOrchardNativeProofBytesV1 hash256 request with
  | none => none
  | some native =>
    match decodeOrchardHalo2ActionProofBytesV1 hash256 native.proofBytes request.proofKind
        request.publicInputHash with
    | some p => some ⟨p.action, p.shieldedValue, p.txBindingHash⟩
    | none =>
      match decodeOrchardHalo2BundleProofBytesV1 hash256 native.proofBytes request.proofKind
          request.publicInputHash with
      | none => none
      | some p => p.markerAction.map fun a => ⟨a, p.shieldedValue, p.txBindingHash⟩

section
variable {hash256 : Bytes → Uint256} {orchard : OrchardCrate}

theorem parsed_of_instance {spend output : Bool} {a : OrchardHalo2ActionInstanceV1}
    {inst : orchard.Instance}
    (h : orchardInstanceFromHalo2ActionFieldsV1 orchard spend output a = some inst) :
    (orchard.extractedNoteCommitmentFromBytes a.cmx).isSome := by
  simp only [orchardInstanceFromHalo2ActionFieldsV1, Option.bind_eq_bind, Option.bind_eq_some_iff] at h
  obtain ⟨-, -, -, -, -, -, -, -, cmx, hcmx, -⟩ := h
  rw [hcmx]
  rfl

theorem instances_of_valid {bytes : Bytes} {instances : Option (List orchard.Instance)}
    (h : halo2StatusV1 orchard bytes instances = .valid) : ∃ is, instances = some is := by
  cases instances with
  | none => cases h
  | some is => exact ⟨is, rfl⟩

/-- **A valid request.**  It selects an action, its public input is the one of that action, and the
crate has parsed the action's commitment. -/
theorem selectedAction_of_valid {request : OrchardRealProofRequest}
    (h : verifyOrchardHalo2ActionProofV1 hash256 orchard request = .valid) :
    ∃ sel spend output, selectedAction hash256 request = some sel ∧
      orchardHalo2ActionPublicInputHashV1 hash256 request.proofKind sel.shieldedValue sel.txBindingHash
        sel.action spend output = some request.publicInputHash ∧
      (orchard.extractedNoteCommitmentFromBytes sel.action.cmx).isSome := by
  rw [verifyOrchardHalo2ActionProofV1] at h
  rw [selectedAction]
  cases hnative : decodeOrchardNativeProofBytesV1 hash256 request with
  | none =>
    rw [hnative] at h
    cases h
  | some native =>
    rw [hnative] at h
    dsimp only at h ⊢
    cases haction : decodeOrchardHalo2ActionProofBytesV1 hash256 native.proofBytes request.proofKind
        request.publicInputHash with
    | some p =>
      rw [haction] at h
      obtain ⟨is, his⟩ := instances_of_valid h
      obtain ⟨inst, hinst, -⟩ := Option.map_eq_some_iff.mp his
      obtain ⟨-, -, -, -, hinput⟩ := decodeOrchardHalo2ActionProofBytesV1_eq_some_iff.mp haction
      exact ⟨_, _, _, rfl, hinput, parsed_of_instance hinst⟩
    | none =>
      rw [haction] at h
      dsimp only at h ⊢
      cases hbundle : decodeOrchardHalo2BundleProofBytesV1 hash256 native.proofBytes
          request.proofKind request.publicInputHash with
      | none =>
        rw [hbundle] at h
        cases h
      | some p =>
        rw [hbundle] at h
        obtain ⟨is, his⟩ := instances_of_valid h
        obtain ⟨-, -, -, -, -, a, ha, hinput⟩ :=
          decodeOrchardHalo2BundleProofBytesV1_eq_some_iff.mp hbundle
        have hmarker : p.markerAction = some a := ha
        dsimp only
        rw [hmarker]
        refine ⟨_, _, _, rfl, hinput, ?_⟩
        have hin := (List.getElem?_eq_some_iff.mp ha).1
        have hall := List.forall₂_iff_get.mp (forall₂_of_mapM his)
        have hinst := hall.2 _ hin (hall.1 ▸ hin)
        rw [List.get_eq_getElem, (List.getElem?_eq_some_iff.mp ha).2] at hinst
        exact parsed_of_instance hinst

end

/-! ## the commitments of an accepted chain -/

def txEnvelopes (tx : CTransaction) : List StackEnvelope :=
  tx.vin.flatMap fun txin => txin.scriptWitness.tails.filterMap fun stack =>
    match stack with
    | [] => none
    | item :: rest => decodeProofEnvelopeFromWitnessStack item rest

/-- the byte strings whose hashes tie a marker to the actions in the envelopes of its transaction -/
def markerPreimages (hash256 : Bytes → Uint256) (tx : CTransaction) (m : Marker) : List Bytes :=
  (txEnvelopes tx).flatMap fun env =>
    match (realRequestOfBundle hash256 env.bundle env.proofKind env.publicInputHash).bind
        (selectedAction hash256) with
    | none => []
    | some sel => actionPreimages hash256 tx m sel.action sel.shieldedValue sel.txBindingHash

def chainPreimages (hash256 : Bytes → Uint256) (chain : List CBlock) : List Bytes :=
  chain.flatMap fun block => block.vtx.flatMap fun tx =>
    (txMarkers tx).flatMap (markerPreimages hash256 tx)

theorem mem_txEnvelopes {hash256 : Bytes → Uint256} {tx : CTransaction} {m : Marker}
    {env : StackEnvelope} (h : IsEnvelopeOf hash256 tx m env) : env ∈ txEnvelopes tx := by
  obtain ⟨txin, htxin, before, item, rest, hstack, hdecode⟩ := h.in_stack
  refine List.mem_flatMap.mpr ⟨txin, htxin, List.mem_filterMap.mpr ⟨item :: rest, ?_, hdecode⟩⟩
  rw [hstack, List.mem_tails]
  exact List.suffix_append _ _

theorem mem_chainMarkers {chain : List CBlock} {m : Marker} (h : m ∈ chainMarkers chain) :
    ∃ block prev tx, block :: prev <:+ chain ∧ tx ∈ block.vtx ∧ m ∈ txMarkers tx := by
  induction chain with
  | nil => cases h
  | cons block prev ih =>
    rcases List.mem_append.mp h with hprev | hblock
    · obtain ⟨block', prev', tx, hsuffix, htx, hm⟩ := ih hprev
      exact ⟨block', prev', tx, hsuffix.trans (List.suffix_cons _ _), htx, hm⟩
    · obtain ⟨tx, htx, hm⟩ := List.mem_flatMap.mp hblock
      exact ⟨block, prev, tx, List.suffix_rfl, htx, hm⟩

section
variable {hash256 : Bytes → Uint256} {orchard : OrchardCrate} {tree : NoteTreeCrate}
variable {params : Consensus.ShieldedPoolParams} {chain : List CBlock}

theorem commitment_parsed {tx : CTransaction} {m : Marker} (hmint : m.action = .mint)
    (hproof : verifyProofEnvelope hash256 (orchardNode tree hash256 orchard) m tx false = true)
    (hfree : CollisionFree hash256 (markerPreimages hash256 tx m)) :
    (orchard.extractedNoteCommitmentFromBytes m.commitment).isSome := by
  obtain ⟨env, request, henv, hrequest, hvalid⟩ := exists_request_of_verifyProofEnvelope hproof
  obtain ⟨sel, spend, output, hsel, hinput, hparsed⟩ := selectedAction_of_valid hvalid
  obtain ⟨hkind, hpih⟩ := realRequestOfBundle_fields hrequest
  rw [hkind, hpih, henv.kind_eq, henv.input_eq] at hinput
  have hsub : actionPreimages hash256 tx m sel.action sel.shieldedValue sel.txBindingHash ⊆
      markerPreimages hash256 tx m := by
    intro bytes hbytes
    refine List.mem_flatMap.mpr ⟨env, mem_txEnvelopes henv, ?_⟩
    rw [hrequest, Option.bind_some, hsel]
    exact hbytes
  rw [← (fields_of_publicInput hinput (hfree.mono hsub)).1 hmint]
  exact hparsed

theorem commitments_parsed (hscaffold : params.fAllowScaffoldProofs = false)
    (hfree : CollisionFree hash256 (chainPreimages hash256 chain))
    (h : ShieldedChainAccepted hash256 (orchardNode tree hash256 orchard) params chain) :
    ∀ c ∈ mintCommitments (chainMarkers chain),
      (orchard.extractedNoteCommitmentFromBytes c).isSome := by
  intro c hc
  obtain ⟨m, hm, rfl⟩ := List.mem_map.mp hc
  obtain ⟨hmem, hmint⟩ := List.mem_filter.mp hm
  obtain ⟨block, prev, tx, hsuffix, htx, hmtx⟩ := mem_chainMarkers hmem
  have hblock := blockAllowed_of_accepted h hsuffix
    (List.ne_nil_of_mem (List.mem_flatMap.mpr ⟨tx, htx, hmtx⟩))
  obtain ⟨ms, hms⟩ := hblock.checked tx htx
  obtain ⟨rfl, -, haccepted⟩ := checkTransaction_ok hms
  have hproof := (haccepted m hmtx).2.2.proof
  rw [hscaffold] at hproof
  refine commitment_parsed (beq_iff_eq.mp hmint) hproof (hfree.mono ?_)
  intro bytes hbytes
  exact List.mem_flatMap.mpr ⟨block, hsuffix.subset List.mem_cons_self,
    List.mem_flatMap.mpr ⟨tx, htx, List.mem_flatMap.mpr ⟨m, hmtx, hbytes⟩⟩⟩

/-- as long as every commitment parses, the note root is the crate's -/
theorem noteRoot_eq (hroom : tree.HasRoom) {commitments : List Uint256} (hne : commitments ≠ [])
    (hlen : commitments.length ≤ 2 ^ 32)
    (hparsed : ∀ c ∈ commitments, (tree.merkleHashFromBytes c).isSome) :
    orchardCommitmentRootV1 tree commitments =
      some (noteRoot hash256 (orchardNode tree hash256 orchard) commitments) := by
  obtain ⟨init, c, rfl⟩ := List.eq_nil_or_concat commitments |>.resolve_left hne
  rw [List.concat_eq_append] at hlen hparsed ⊢
  obtain ⟨root, hroot⟩ := exists_root_of_parsed hroom hlen hparsed
  have hcall : (orchardNode tree hash256 orchard).orchardCommitmentRootV1 (init ++ [c]) = some root :=
    (Cpp.orchardCommitmentRootV1_eq _).trans hroot
  rw [hroot, noteRoot_append_singleton, nextCommitmentRoot, if_pos (by rfl), hcall]

end

/-- **No fallback.**  On a node linked with the orchard crate, without scaffold proofs, the note root
of every accepted chain is the crate's root of all commitments after each mint, and so is every anchor
that is there or was used. -/
theorem commitment_root_is_orchard_root (hash256 : Bytes → Uint256) (orchard : OrchardCrate)
    (tree : NoteTreeCrate) (params : Consensus.ShieldedPoolParams) (chain : List CBlock)
    (hroom : tree.HasRoom)
    (hparse : ∀ c, (orchard.extractedNoteCommitmentFromBytes c).isSome →
      (tree.merkleHashFromBytes c).isSome)
    (hscaffold : params.fAllowScaffoldProofs = false)
    (hcount : (mintCommitments (chainMarkers chain)).length < 2 ^ 32)
    (hfree : CollisionFree hash256 (chainPreimages hash256 chain))
    (h : ShieldedChainAccepted hash256 (orchardNode tree hash256 orchard) params chain) :
    (∀ pre m, pre ++ [m] <+: chainMarkers chain → m.action = .mint →
      orchardCommitmentRootV1 tree (mintCommitments (pre ++ [m])) =
        some (replayMarkers hash256 (orchardNode tree hash256 orchard) (pre ++ [m])).commitmentRoot) ∧
    (∃ s, loadShieldedChainState hash256 (orchardNode tree hash256 orchard) params chain .init = .ok s ∧
      ∀ a ∈ s.anchors, a = .null ∨ ∃ pre m, pre ++ [m] <+: chainMarkers chain ∧ m.action = .mint ∧
        orchardCommitmentRootV1 tree (mintCommitments (pre ++ [m])) = some a) ∧
    ∀ block prev, block :: prev <:+ chain → ∀ spend ∈ blockMarkers block.vtx, spend.action = .spend →
      spend.anchor ≠ .null ∧ ∃ pre m, pre ++ [m] <+: chainMarkers prev ∧ m.action = .mint ∧
        orchardCommitmentRootV1 tree (mintCommitments (pre ++ [m])) = some spend.anchor := by
  have hparsed := commitments_parsed hscaffold hfree h
  have hroots : ∀ pre m, pre ++ [m] <+: chainMarkers chain → m.action = .mint →
      orchardCommitmentRootV1 tree (mintCommitments (pre ++ [m])) =
        some (replayMarkers hash256 (orchardNode tree hash256 orchard)
          (pre ++ [m])).commitmentRoot := by
    intro pre m hpre hmint
    obtain ⟨rest, hrest⟩ := hpre
    have hsplit : mintCommitments (chainMarkers chain) =
        mintCommitments (pre ++ [m]) ++ mintCommitments rest := by
      rw [← hrest, mintCommitments_append]
    rw [hsplit] at hcount hparsed
    rw [replayMarkers_eq]
    refine noteRoot_eq hroom ?_ ?_ fun c hc => hparse c (hparsed c (List.mem_append_left _ hc))
    · exact List.ne_nil_of_mem (mem_mintCommitments
        (List.mem_append_right _ (List.mem_singleton_self m)) hmint)
    · rw [List.length_append] at hcount
      omega
  refine ⟨hroots, ⟨_, loadShieldedChainState_of_accepted h, ?_⟩, ?_⟩
  · intro a ha
    rcases mem_logAnchors_iff.mp ha with hnull | ⟨pre, m, hpre, hmint, rfl⟩
    · exact .inl hnull
    · exact .inr ⟨pre, m, hpre, hmint, hroots pre m hpre hmint⟩
  · intro block prev hsuffix spend hspend haction
    obtain ⟨hne, pre, m, hpre, hmint, hanchor⟩ := spend_anchor_of_accepted h hsuffix hspend haction
    have hprev : pre ++ [m] <+: chainMarkers chain :=
      hpre.trans (chainMarkers_mono ((List.suffix_cons _ _).trans hsuffix))
    exact ⟨hne, pre, m, hpre, hmint, by rw [hanchor, hroots pre m hprev hmint]⟩

/-! ## a small note tree -/

def appendLeaf (frontier : List Uint256) (leaf : Uint256) : Option (List Uint256) :=
  if frontier.length < 2 ^ 32 then some (frontier ++ [leaf]) else none

def sampleTree : NoteTreeCrate where
  MerkleHashOrchard := Uint256
  merkleHashFromBytes := some
  toBytes := id
  Frontier := List Uint256
  empty := []
  append := appendLeaf
  root frontier := Uint256.polyHash (frontier.flatMap Uint256.data)

theorem foldlM_appendLeaf (leaves frontier : List Uint256)
    (hlen : frontier.length + leaves.length ≤ 2 ^ 32) : (leaves.foldlM appendLeaf frontier).isSome := by
  induction leaves generalizing frontier with
  | nil => rfl
  | cons leaf leaves ih =>
    rw [List.length_cons] at hlen
    have hstep : appendLeaf frontier leaf = some (frontier ++ [leaf]) := if_pos (by omega)
    rw [List.foldlM_cons, hstep]
    exact ih _ (by rw [List.length_append, List.length_singleton]; omega)

theorem sampleTree_hasRoom : sampleTree.HasRoom := by
  intro leaves hlen
  exact foldlM_appendLeaf leaves [] (by rw [List.length_nil, Nat.zero_add]; exact hlen)

theorem commitment_root_is_orchard_root_sample :
    ∃ s, loadShieldedChainState Uint256.polyHash
        (orchardNode sampleTree Uint256.polyHash sampleOrchard) ⟨0, false⟩ sampleBundleChain .init =
          .ok s ∧
      ∀ a ∈ s.anchors, a = .null ∨ ∃ pre m, pre ++ [m] <+: chainMarkers sampleBundleChain ∧
        m.action = .mint ∧
        orchardCommitmentRootV1 sampleTree (mintCommitments (pre ++ [m])) = some a :=
  (commitment_root_is_orchard_root Uint256.polyHash sampleOrchard sampleTree ⟨0, false⟩
    sampleBundleChain sampleTree_hasRoom (fun _ _ => rfl) rfl (by decide +kernel) (by decide +kernel)
    ⟨⟨trivial, by decide +kernel⟩, by decide +kernel⟩).2.1

end Shielded
