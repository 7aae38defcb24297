import ZkCoin.Shielded.LayerCodec

/-!
# The scan for a proof envelope

The check of a marker walks through the witness stacks of all inputs.  The first item with the prefix of
an envelope is decoded, alone or chained with the items after it; a chained envelope takes its chunks
out of the scan, and any further item with the prefix ends the scan with a rejection.

* `Unmarked`, `EnvelopeAt`, `SoleEnvelope` — items without the prefix, the envelope at a position, and
                                             an envelope that is the only one of a transaction.
* `isAccepted_of_first`            — the verdict, once the first marked item is known.
* `checkProofEnvelope_accepts_iff` — the scan accepts exactly the valid sole envelopes.
* `rechunked_envelope`             — how an envelope is cut into chunks makes no difference.
-/

open Bytes

namespace Shielded

/-- no item has the prefix of an envelope -/
def Unmarked (items : List Bytes) : Prop := ∀ item ∈ items, hasProofEnvelopePrefix item = false

/-- `env` is the envelope at an item of a stack that goes on with `rest`: the item alone, or else the
items from here up to but excluding the last one -/
def EnvelopeAt (item : Bytes) (rest : List Bytes) (env : StackEnvelope) : Prop :=
  (decodeProofEnvelope item = some (env.proofKind, env.publicInputHash, env.proofPayload) ∧
    env.bundle = item ∧ env.consumed = 0) ∨
  (decodeProofEnvelope item = none ∧ rest ≠ [] ∧ env.bundle = (item :: rest).dropLast.flatten ∧
    decodeProofEnvelope env.bundle = some (env.proofKind, env.publicInputHash, env.proofPayload) ∧
    env.consumed = rest.length - 1)

/-- one position outside the chunks of `env` has the prefix, and `env` is the envelope there -/
def SoleEnvelope (tx : CTransaction) (env : StackEnvelope) : Prop :=
  ∃ front txin back below item rest, tx.vin = front ++ txin :: back ∧
    txin.scriptWitness = below ++ item :: rest ∧ hasProofEnvelopePrefix item = true ∧
    EnvelopeAt item rest env ∧ (∀ t ∈ front, Unmarked t.scriptWitness) ∧ Unmarked below ∧
    Unmarked (rest.drop env.consumed) ∧ ∀ t ∈ back, Unmarked t.scriptWitness

theorem envelopeAt_iff {item : Bytes} {rest : List Bytes} {env : StackEnvelope} :
    EnvelopeAt item rest env ↔ decodeProofEnvelopeFromWitnessStack item rest = some env := by
  obtain ⟨kind, pih, payload, bundle, consumed⟩ := env
  unfold EnvelopeAt decodeProofEnvelopeFromWitnessStack
  split
  · rename_i kind' pih' payload' hdecode
    rw [hdecode]
    simp only [Option.some.injEq, Prod.mk.injEq, StackEnvelope.mk.injEq, reduceCtorEq, false_and, or_false]
    constructor
    · rintro ⟨⟨rfl, rfl, rfl⟩, rfl, rfl⟩
      exact ⟨rfl, rfl, rfl, rfl, rfl⟩
    · rintro ⟨rfl, rfl, rfl, rfl, rfl⟩
      exact ⟨⟨rfl, rfl, rfl⟩, rfl, rfl⟩
  · rename_i hdecode
    rw [hdecode]
    by_cases hrest : rest = []
    · simp [hrest]
    · rw [if_neg hrest]
      simp only [reduceCtorEq, false_and, false_or, ne_eq, hrest, not_false_eq_true, true_and]
      split
      · rename_i kind' pih' payload' hchained
        simp only [Option.some.injEq, StackEnvelope.mk.injEq]
        constructor
        · rintro ⟨rfl, hbundle, rfl⟩
          rw [hchained, Option.some.injEq, Prod.mk.injEq, Prod.mk.injEq] at hbundle
          exact ⟨hbundle.1, hbundle.2.1, hbundle.2.2, rfl, rfl⟩
        · rintro ⟨rfl, rfl, rfl, rfl, rfl⟩
          exact ⟨rfl, hchained, rfl⟩
      · rename_i hchained
        simp only [reduceCtorEq, iff_false, not_and]
        rintro rfl hbundle
        rw [hchained] at hbundle
        cases hbundle

/-! ## steps of the scan -/

theorem unmarked_or_first (items : List Bytes) : Unmarked items ∨ ∃ below item rest,
    items = below ++ item :: rest ∧ Unmarked below ∧ hasProofEnvelopePrefix item = true := by
  induction items with
  | nil => exact .inl (List.forall_mem_nil _)
  | cons item items ih =>
    cases hitem : hasProofEnvelopePrefix item with
    | true => exact .inr ⟨[], item, items, rfl, List.forall_mem_nil _, hitem⟩
    | false =>
      rcases ih with hrest | ⟨below, item', rest, rfl, hbelow, hitem'⟩
      · exact .inl (List.forall_mem_cons.mpr ⟨hitem, hrest⟩)
      · exact .inr ⟨item :: below, item', rest, rfl, List.forall_mem_cons.mpr ⟨hitem, hbelow⟩, hitem'⟩

section
variable {hash256 : Bytes → Uint256} {verifier : Verifier} {kind : UInt8} {expected : Uint256}
  {check : ProofEnvelopeCheck}

theorem scanStack_skip (skip : Nat) (stack : List Bytes) :
    scanStack hash256 verifier kind expected check skip stack =
      scanStack hash256 verifier kind expected check 0 (stack.drop skip) := by
  induction stack generalizing skip with
  | nil => cases skip <;> rfl
  | cons item rest ih =>
    cases skip with
    | zero => rfl
    | succ skip => exact ih skip

theorem scanStack_unmarked {below : List Bytes} (h : Unmarked below) (rest : List Bytes) :
    scanStack hash256 verifier kind expected check 0 (below ++ rest) =
      scanStack hash256 verifier kind expected check 0 rest := by
  induction below with
  | nil => rfl
  | cons item below ih =>
    obtain ⟨hitem, hbelow⟩ := List.forall_mem_cons.mp h
    rw [List.cons_append, scanStack, hitem]
    exact ih hbelow

theorem scanStack_found (hfound : check.found = true) (stack : List Bytes) :
    (Unmarked stack ∧ scanStack hash256 verifier kind expected check 0 stack = .ok check) ∨
      (¬ Unmarked stack ∧ scanStack hash256 verifier kind expected check 0 stack = .error .reject) := by
  rcases unmarked_or_first stack with hstack | ⟨below, item, rest, rfl, hbelow, hitem⟩
  · refine .inl ⟨hstack, ?_⟩
    have hscan : scanStack hash256 verifier kind expected check 0 (stack ++ []) = .ok check :=
      scanStack_unmarked hstack []
    rwa [List.append_nil] at hscan
  · refine .inr ⟨?_, ?_⟩
    · intro hall
      rw [hall item (by simp)] at hitem
      cases hitem
    · rw [scanStack_unmarked hbelow, scanStack, if_pos hitem, if_pos hfound]

theorem scanInputs_unmarked {front : List CTxIn} (h : ∀ t ∈ front, Unmarked t.scriptWitness)
    (back : List CTxIn) : scanInputs hash256 verifier kind expected check (front ++ back) =
      scanInputs hash256 verifier kind expected check back := by
  induction front with
  | nil => rfl
  | cons txin front ih =>
    obtain ⟨htxin, hfront⟩ := List.forall_mem_cons.mp h
    have hscan : scanStack hash256 verifier kind expected check 0 (txin.scriptWitness ++ []) =
        .ok check := scanStack_unmarked htxin []
    rw [List.append_nil] at hscan
    rw [List.cons_append, scanInputs, hscan]
    exact ih hfront

theorem scanInputs_found (hfound : check.found = true) (vin : List CTxIn) :
    ((∀ t ∈ vin, Unmarked t.scriptWitness) ∧
      scanInputs hash256 verifier kind expected check vin = .ok check) ∨
    ((¬ ∀ t ∈ vin, Unmarked t.scriptWitness) ∧
      scanInputs hash256 verifier kind expected check vin = .error .reject) := by
  induction vin with
  | nil => exact .inl ⟨List.forall_mem_nil _, rfl⟩
  | cons txin vin ih =>
    rw [List.forall_mem_cons, scanInputs]
    rcases scanStack_found hfound txin.scriptWitness with ⟨hstack, hscan⟩ | ⟨hstack, hscan⟩
    · rw [hscan]
      rcases ih with ⟨hvin, hrest⟩ | ⟨hvin, hrest⟩
      · exact .inl ⟨⟨hstack, hvin⟩, hrest⟩
      · exact .inr ⟨fun hall => hvin hall.2, hrest⟩
    · rw [hscan]
      exact .inr ⟨fun hall => hstack hall.1, rfl⟩

theorem scanStack_first (hnew : check.found = false) {item : Bytes} (rest : List Bytes)
    (hitem : hasProofEnvelopePrefix item = true) :
    scanStack hash256 verifier kind expected check 0 (item :: rest) =
      match decodeProofEnvelopeFromWitnessStack item rest with
      | none => .error .reject
      | some env =>
        if env.proofKind ≠ kind ∨ env.publicInputHash ≠ expected then .error .reject
        else scanStack hash256 verifier kind expected
          (bundleCheck hash256 verifier env.bundle kind expected) 0 (rest.drop env.consumed) := by
  rw [scanStack, if_pos hitem, hnew, if_neg (by decide)]
  cases decodeProofEnvelopeFromWitnessStack item rest with
  | none => rfl
  | some env =>
    dsimp only
    rw [scanStack_skip]

end

/-! ## the verdict -/

section
variable {hash256 : Bytes → Uint256} {verifier : Verifier} {m : Marker} {tx : CTransaction}
  {allow : Bool}

theorem not_isAccepted_reject (allow : Bool) : ProofEnvelopeCheck.reject.isAccepted allow = false := rfl

theorem bundleCheck_isAccepted_iff {bundle : Bytes} {kind : UInt8} {pih : Uint256} :
    (bundleCheck hash256 verifier bundle kind pih).isAccepted allow = true ↔
      (checkProofBundleWithBackendV6 hash256 verifier.backend bundle kind pih).status = .valid ∧
      (allow = true ∨
        (checkProofBundleWithBackendV6 hash256 verifier.backend bundle kind pih).proofBodyMode ≠
          some orchardProofBodyModeScaffold) := by
  have hmode : ∀ mode : Option UInt8, (mode.getD orchardProofBodyModeUnknown !=
      orchardProofBodyModeScaffold) = true ↔ mode ≠ some orchardProofBodyModeScaffold := by
    intro mode
    cases mode with
    | none => simp [orchardProofBodyModeUnknown, orchardProofBodyModeScaffold]
    | some b => simp
  simp only [bundleCheck, ProofEnvelopeCheck.isAccepted, Bool.true_and, Bool.and_eq_true, beq_iff_eq,
    Bool.or_eq_true, hmode]

/-- **The verdict.**  With the first marked item known, the scan accepts when an envelope for the marker
stands there, nothing outside its chunks is marked and its bundle is accepted. -/
theorem isAccepted_of_first {front back : List CTxIn} {txin : CTxIn} {below rest : List Bytes}
    {item : Bytes} (htag : m.proofTag = expectedProofTag hash256 m) (hvin : tx.vin = front ++ txin :: back)
    (hstack : txin.scriptWitness = below ++ item :: rest)
    (hfront : ∀ t ∈ front, Unmarked t.scriptWitness) (hbelow : Unmarked below)
    (hitem : hasProofEnvelopePrefix item = true) :
    (checkProofEnvelope hash256 verifier m tx).isAccepted allow = true ↔
      ∃ env, EnvelopeAt item rest env ∧ env.proofKind = m.action.byte ∧
        env.publicInputHash = buildProofPublicInputHash hash256 m tx ∧
        Unmarked (rest.drop env.consumed) ∧ (∀ t ∈ back, Unmarked t.scriptWitness) ∧
        (bundleCheck hash256 verifier env.bundle m.action.byte
          (buildProofPublicInputHash hash256 m tx)).isAccepted allow = true := by
  simp only [envelopeAt_iff]
  rw [checkProofEnvelope, if_neg (not_not.mpr htag), hvin, scanInputs_unmarked hfront, scanInputs, hstack,
    scanStack_unmarked hbelow, scanStack_first rfl rest hitem]
  cases hdecode : decodeProofEnvelopeFromWitnessStack item rest with
  | none => simp [not_isAccepted_reject]
  | some env =>
    simp only [Option.some.injEq, exists_eq_left']
    by_cases hmatch : env.proofKind ≠ m.action.byte ∨
        env.publicInputHash ≠ buildProofPublicInputHash hash256 m tx
    · rw [if_pos hmatch]
      simp only [not_isAccepted_reject, Bool.false_eq_true, false_iff, not_and]
      intro hkind hpih
      exact absurd hmatch (by simp [hkind, hpih])
    · rw [if_neg hmatch]
      rw [not_or, not_not, not_not] at hmatch
      simp only [hmatch, true_and]
      have hfound : (bundleCheck hash256 verifier env.bundle m.action.byte
        (buildProofPublicInputHash hash256 m tx)).found = true := rfl
      rcases scanStack_found hfound (rest.drop env.consumed) with ⟨hrest, hscan⟩ | ⟨hrest, hscan⟩
      · rw [hscan]
        dsimp only
        rcases scanInputs_found hfound back with ⟨hback, hscan'⟩ | ⟨hback, hscan'⟩
        · rw [hscan']
          exact ⟨fun h => ⟨hrest, hback, h⟩, fun h => h.2.2⟩
        · rw [hscan']
          exact ⟨fun h => absurd h (by simp [not_isAccepted_reject]), fun h => absurd h.2.1 hback⟩
      · rw [hscan]
        exact ⟨fun h => absurd h (by simp [not_isAccepted_reject]), fun h => absurd h.1 hrest⟩

theorem tag_of_isAccepted (h : (checkProofEnvelope hash256 verifier m tx).isAccepted allow = true) :
    m.proofTag = expectedProofTag hash256 m := by
  by_contra hne
  rw [checkProofEnvelope, if_pos hne] at h
  cases h

theorem not_isAccepted_of_unmarked (h : ∀ t ∈ tx.vin, Unmarked t.scriptWitness) :
    (checkProofEnvelope hash256 verifier m tx).isAccepted allow = false := by
  have hscan : scanInputs hash256 verifier m.action.byte (buildProofPublicInputHash hash256 m tx) .init
      (tx.vin ++ []) = .ok .init := scanInputs_unmarked h []
  rw [List.append_nil] at hscan
  rw [checkProofEnvelope, hscan]
  split <;> rfl

theorem inputs_unmarked_or_first (vin : List CTxIn) : (∀ t ∈ vin, Unmarked t.scriptWitness) ∨
    ∃ front txin back below item rest, vin = front ++ txin :: back ∧
      txin.scriptWitness = below ++ item :: rest ∧ (∀ t ∈ front, Unmarked t.scriptWitness) ∧
      Unmarked below ∧ hasProofEnvelopePrefix item = true := by
  induction vin with
  | nil => exact .inl (List.forall_mem_nil _)
  | cons txin vin ih =>
    rcases unmarked_or_first txin.scriptWitness with hstack | ⟨below, item, rest, hstack, hbelow, hitem⟩
    · rcases ih with hvin | ⟨front, txin', back, below, item, rest, rfl, hstack', hfront, hfirst⟩
      · exact .inl (List.forall_mem_cons.mpr ⟨hstack, hvin⟩)
      · exact .inr ⟨txin :: front, txin', back, below, item, rest, rfl, hstack',
          List.forall_mem_cons.mpr ⟨hstack, hfront⟩, hfirst⟩
    · exact .inr ⟨[], txin, vin, below, item, rest, rfl, hstack, List.forall_mem_nil _, hbelow, hitem⟩

end

/-- **Acceptance.**  A marker is accepted exactly when its tag is right and the transaction has one
envelope, for this marker, whose bundle is valid and not a scaffold unless these are allowed.  A second
marked item is a rejection, whatever the first envelope was. -/
theorem checkProofEnvelope_accepts_iff (hash256 : Bytes → Uint256) (verifier : Verifier) (m : Marker)
    (tx : CTransaction) (allow : Bool) :
    ((checkProofEnvelope hash256 verifier m tx).isAccepted allow = true ↔
      m.proofTag = expectedProofTag hash256 m ∧ ∃ env, SoleEnvelope tx env ∧
        env.proofKind = m.action.byte ∧
        env.publicInputHash = buildProofPublicInputHash hash256 m tx ∧
        (checkProofBundleWithBackendV6 hash256 verifier.backend env.bundle m.action.byte
          (buildProofPublicInputHash hash256 m tx)).status = .valid ∧
        (allow = true ∨ (checkProofBundleWithBackendV6 hash256 verifier.backend env.bundle m.action.byte
          (buildProofPublicInputHash hash256 m tx)).proofBodyMode ≠
            some orchardProofBodyModeScaffold)) ∧
    ∀ front txin back below item rest env, tx.vin = front ++ txin :: back →
      txin.scriptWitness = below ++ item :: rest → (∀ t ∈ front, Unmarked t.scriptWitness) →
      Unmarked below → hasProofEnvelopePrefix item = true → EnvelopeAt item rest env →
      (¬ Unmarked (rest.drop env.consumed) ∨ ¬ ∀ t ∈ back, Unmarked t.scriptWitness) →
      (checkProofEnvelope hash256 verifier m tx).isAccepted allow = false := by
  constructor
  · constructor
    · intro h
      have htag := tag_of_isAccepted h
      rcases inputs_unmarked_or_first tx.vin with
        hall | ⟨front, txin, back, below, item, rest, hvin, hstack, hfront, hbelow, hitem⟩
      · rw [not_isAccepted_of_unmarked hall] at h
        cases h
      · obtain ⟨env, henv, hkind, hpih, hrest, hback, hbundle⟩ :=
          (isAccepted_of_first htag hvin hstack hfront hbelow hitem).mp h
        exact ⟨htag, env, ⟨front, txin, back, below, item, rest, hvin, hstack, hitem, henv, hfront,
          hbelow, hrest, hback⟩, hkind, hpih, bundleCheck_isAccepted_iff.mp hbundle⟩
    · rintro ⟨htag, env, ⟨front, txin, back, below, item, rest, hvin, hstack, hitem, henv, hfront,
        hbelow, hrest, hback⟩, hkind, hpih, hbundle⟩
      exact (isAccepted_of_first htag hvin hstack hfront hbelow hitem).mpr
        ⟨env, henv, hkind, hpih, hrest, hback, bundleCheck_isAccepted_iff.mpr hbundle⟩
  · intro front txin back below item rest env hvin hstack hfront hbelow hitem henv hsecond
    rw [Bool.eq_false_iff]
    intro h
    obtain ⟨env', henv', -, -, hrest, hback, -⟩ :=
      (isAccepted_of_first (tag_of_isAccepted h) hvin hstack hfront hbelow hitem).mp h
    rw [envelopeAt_iff] at henv henv'
    obtain rfl : env = env' := Option.some.inj (henv.symm.trans henv')
    exact hsecond.elim (fun hno => hno hrest) (fun hno => hno hback)

/-! ## chunks -/

section
variable {e : Bytes} {kind : UInt8} {pih : Uint256} {payload : Bytes} {chunk : Bytes}
  {chunks : List Bytes}

theorem decodeProofEnvelope_chunk (he : decodeProofEnvelope e = some (kind, pih, payload))
    (hcut : (chunk :: chunks).flatten = e) (hne : chunk ≠ e) : decodeProofEnvelope chunk = none := by
  by_contra hsome
  refine hne (decodeProofEnvelope_of_isPrefix ?_ (Option.isSome_iff_ne_none.mpr hsome) (by rw [he]; rfl))
  rw [← hcut, List.flatten_cons]
  exact List.prefix_append _ _

theorem hasProofEnvelopePrefix_chunk (he : decodeProofEnvelope e = some (kind, pih, payload))
    (hcut : (chunk :: chunks).flatten = e) (hsize : 6 ≤ chunk.length) :
    hasProofEnvelopePrefix chunk = true := by
  obtain ⟨hitem, -⟩ := decodeProofEnvelope_eq_some_iff.mp he
  have hstart : proofEnvelopePrefix <+: e := by
    rw [hitem]
    simp only [buildProofBundleWithPayloadV4, List.append_assoc]
    exact List.prefix_append _ _
  have hchunk : chunk <+: e := by
    rw [← hcut, List.flatten_cons]
    exact List.prefix_append _ _
  exact decide_eq_true (List.prefix_of_prefix_length_le hstart hchunk hsize)

theorem decodeProofEnvelopeFromWitnessStack_chunks
    (he : decodeProofEnvelope e = some (kind, pih, payload)) (hcut : (chunk :: chunks).flatten = e)
    (script : Bytes) : ∃ consumed,
      decodeProofEnvelopeFromWitnessStack chunk (chunks ++ [script]) =
        some ⟨kind, pih, payload, e, consumed⟩ ∧
      ∃ below, (chunks ++ [script]).drop consumed = below ++ [script] ∧ Unmarked below := by
  by_cases hwhole : chunk = e
  · -- the other chunks are empty
    subst hwhole
    refine ⟨0, by rw [decodeProofEnvelopeFromWitnessStack, he], chunks, rfl, ?_⟩
    rw [List.flatten_cons, List.append_right_eq_self, List.flatten_eq_nil_iff] at hcut
    intro item hitem
    rw [hcut item hitem]
    rfl
  · refine ⟨chunks.length, ?_, [], ?_, List.forall_mem_nil _⟩
    · have hbundle : (chunk :: (chunks ++ [script])).dropLast.flatten = e := by
        rw [← List.cons_append, List.dropLast_concat, hcut]
      rw [decodeProofEnvelopeFromWitnessStack, decodeProofEnvelope_chunk he hcut hwhole]
      dsimp only
      rw [if_neg (by simp), hbundle, he]
      simp
    · rw [List.drop_left]
      rfl

end

/-- the witness is not part of what a proof is bound to -/
theorem transactionBindingHash_witness (hash256 : Bytes → Uint256) (tx : CTransaction)
    (front back : List CTxIn) (txin : CTxIn) (witness witness' : List Bytes) :
    transactionBindingHash hash256
        { tx with vin := front ++ { txin with scriptWitness := witness } :: back } =
      transactionBindingHash hash256
        { tx with vin := front ++ { txin with scriptWitness := witness' } :: back } := by
  simp [transactionBindingHash, CTransaction.serializeNoWitness, Serialize.vector, CTxIn.serialize]

/-- **Chunks.**  However an envelope is cut, with at least the prefix in the first chunk, it is read as
the same envelope, no proper first chunk is an envelope itself, and the check of a marker is the same. -/
theorem rechunked_envelope (hash256 : Bytes → Uint256) (verifier : Verifier) (m : Marker) (e : Bytes)
    (kind : UInt8) (pih : Uint256) (payload : Bytes)
    (he : decodeProofEnvelope e = some (kind, pih, payload)) (chunk chunk' : Bytes)
    (chunks chunks' : List Bytes) (hcut : (chunk :: chunks).flatten = e)
    (hcut' : (chunk' :: chunks').flatten = e) (hsize : 6 ≤ chunk.length) (hsize' : 6 ≤ chunk'.length)
    (script : Bytes) (tx : CTransaction) (front back : List CTxIn) (txin : CTxIn) :
    (∃ consumed, decodeProofEnvelopeFromWitnessStack chunk (chunks ++ [script]) =
      some ⟨kind, pih, payload, e, consumed⟩) ∧
    (∃ consumed, decodeProofEnvelopeFromWitnessStack chunk' (chunks' ++ [script]) =
      some ⟨kind, pih, payload, e, consumed⟩) ∧
    (chunk ≠ e → decodeProofEnvelope chunk = none) ∧
    checkProofEnvelope hash256 verifier m
        { tx with vin := front ++ { txin with scriptWitness := chunk :: (chunks ++ [script]) } :: back } =
      checkProofEnvelope hash256 verifier m
        { tx with vin := front ++ { txin with scriptWitness := chunk' :: (chunks' ++ [script]) } :: back } := by
  obtain ⟨consumed, hdecode, below, hdrop, hbelow⟩ :=
    decodeProofEnvelopeFromWitnessStack_chunks he hcut script
  obtain ⟨consumed', hdecode', below', hdrop', hbelow'⟩ :=
    decodeProofEnvelopeFromWitnessStack_chunks he hcut' script
  refine ⟨⟨consumed, hdecode⟩, ⟨consumed', hdecode'⟩, decodeProofEnvelope_chunk he hcut, ?_⟩
  have hitem := hasProofEnvelopePrefix_chunk he hcut hsize
  have hitem' := hasProofEnvelopePrefix_chunk he hcut' hsize'
  -- both stacks are scanned alike, from any verdict of the inputs before
  have hstack : ∀ k expected check,
      scanStack hash256 verifier k expected check 0 (chunk :: (chunks ++ [script])) =
        scanStack hash256 verifier k expected check 0 (chunk' :: (chunks' ++ [script])) := by
    intro k expected check
    cases hfound : check.found with
    | true =>
      rw [scanStack, if_pos hitem, if_pos hfound, scanStack, if_pos hitem', if_pos hfound]
    | false =>
      rw [scanStack_first hfound _ hitem, scanStack_first hfound _ hitem', hdecode, hdecode']
      dsimp only
      rw [hdrop, hdrop', scanStack_unmarked hbelow, scanStack_unmarked hbelow']
  have hinputs : ∀ k expected check,
      scanInputs hash256 verifier k expected check
          (front ++ { txin with scriptWitness := chunk :: (chunks ++ [script]) } :: back) =
        scanInputs hash256 verifier k expected check
          (front ++ { txin with scriptWitness := chunk' :: (chunks' ++ [script]) } :: back) := by
    intro k expected check
    induction front generalizing check with
    | nil =>
      simp only [List.nil_append, scanInputs]
      rw [hstack]
    | cons t front ih =>
      simp only [List.cons_append, scanInputs]
      split
      · rfl
      · exact ih _
  unfold checkProofEnvelope buildProofPublicInputHash
  rw [transactionBindingHash_witness hash256 tx front back txin (chunk :: (chunks ++ [script]))
    (chunk' :: (chunks' ++ [script]))]
  dsimp only
  rw [hinputs]

/-- an envelope of 47 bytes, whole and cut after ten bytes -/
theorem rechunked_envelope_sample :
    let e := buildProofBundleWithPayloadV4 1 (.ofNat 3) [7]
    (decodeProofEnvelope e).isSome = true ∧ ∃ consumed,
      decodeProofEnvelopeFromWitnessStack (e.take 10) ([e.drop 10] ++ [[0x51]]) =
        some ⟨1, .ofNat 3, [7], e, consumed⟩ := by
  have he : decodeProofEnvelope (buildProofBundleWithPayloadV4 1 (.ofNat 3) [7]) =
      some (1, .ofNat 3, [7]) := decodeProofEnvelope_eq_some_iff.mpr ⟨rfl, by decide⟩
  exact ⟨by rw [he]; rfl, (rechunked_envelope Uint256.polyHash sampleVerifier
    ⟨.mint, 1, .null, .null, .null, []⟩ _ _ _ _ he _ _ _ [] (by simp)
    (by rw [List.flatten_cons, List.flatten_nil, List.append_nil]) (by decide) (by decide +kernel) [0x51]
    (sampleMint 0 .null 1) [] [] ⟨⟨.null, 0⟩, [], 0, []⟩).1⟩

end Shielded
