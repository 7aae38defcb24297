import ZkCoin.Consensus.PayloadVariants
import ZkCoin.Mining.HogExMarkers

/-!
# Submitting merged work

A template at a merge-mined height carries a placeholder payload; a miner sends back a payload of the
parent chain, which takes its place.  The hash of the block does not change, but its weight does, and a
template is filled without regard to the size of the payload that will come.

* `submittedBlock`              — the candidate with the payload of the miner.
* `Selected`                    — no transaction is selected twice.
* `template_mutated`            — the transactions of a template show no repeated pair.
* `submission_accepted_iff`     — a submission passes exactly when payload and body fit together.
* `full_template_loses_work`    — a full template and a payload that do not.
-/

open Bytes Script Serialize Consensus Utxo TableDelta

namespace Mining

/-- the candidate of `SubmitAuxBlock` with the payload of the miner -/
def submittedBlock (candidate : CBlock) (auxpow : CAuxPow) : CBlock :=
  { candidate with header := setAuxpow candidate.header auxpow }

/-! ## weights -/

def payloadWeight (a : CAuxPow) : Nat :=
  (a.serialize CTransaction.serializeNoWitness).length * (witnessScaleFactor - 1) +
    (a.serialize CTransaction.serialize).length

def bodyWeight (vtx : List CTransaction) : Nat :=
  (vector CTransaction.serializeNoWitness vtx).length * (witnessScaleFactor - 1) +
    (vector CTransaction.serialize vtx).length

def pureHeaderWeight : Nat := 80 * witnessScaleFactor

theorem serializePure_length (h : CPureBlockHeader) : h.serializePure.length = 80 := by
  simp [CPureBlockHeader.serializePure, intBytes]

theorem getBlockWeight_of_auxpow {block : CBlock} {a : CAuxPow} (haux : block.header.isAuxpow = true)
    (ha : block.header.auxpow = some a) :
    getBlockWeight block = pureHeaderWeight + payloadWeight a + bodyWeight block.vtx := by
  unfold getBlockWeight strippedSize totalSize pureHeaderWeight payloadWeight bodyWeight
    witnessScaleFactor
  simp only [CBlockHeader.serialize, CBlockHeader.payloadBytes, haux, ha, if_true, Option.map_some,
    Option.getD_some, List.length_append, serializePure_length]
  omega

theorem serializeNoWitness_length_le (tx : CTransaction) :
    tx.serializeNoWitness.length ≤ tx.serialize.length := by
  unfold CTransaction.serialize
  split
  · simp only [CTransaction.serializeNoWitness, List.length_append]
    omega
  · exact le_rfl

theorem vector_length_le {α : Type} {ser ser' : α → Bytes}
    (h : ∀ x, (ser x).length ≤ (ser' x).length) (xs : List α) :
    (vector ser xs).length ≤ (vector ser' xs).length := by
  have hbody : (xs.flatMap ser).length ≤ (xs.flatMap ser').length := by
    induction xs with
    | nil => exact le_rfl
    | cons x xs ih =>
      rw [List.flatMap_cons, List.flatMap_cons, List.length_append, List.length_append]
      exact Nat.add_le_add (h x) ih
  rw [vector, vector, List.length_append, List.length_append]
  exact Nat.add_le_add_left hbody _

theorem payload_length_le (a : CAuxPow) : (a.serialize CTransaction.serializeNoWitness).length ≤
    (a.serialize CTransaction.serialize).length := by
  have := serializeNoWitness_length_le a.coinbaseTx
  simp only [CAuxPow.serialize, List.length_append]
  omega

theorem payloadWeight_le (a : CAuxPow) :
    payloadWeight a ≤ witnessScaleFactor * (a.serialize CTransaction.serialize).length := by
  have := payload_length_le a
  unfold payloadWeight witnessScaleFactor
  omega

theorem strippedSize_le_of_weight {block : CBlock} (h : getBlockWeight block ≤ maxBlockWeight) :
    strippedSize block * witnessScaleFactor ≤ maxBlockWeight := by
  have hheader : (block.header.serialize CTransaction.serializeNoWitness).length ≤
      (block.header.serialize CTransaction.serialize).length := by
    unfold CBlockHeader.serialize CBlockHeader.payloadBytes
    split
    · cases block.header.auxpow with
      | none => exact le_rfl
      | some a =>
        rw [List.length_append, List.length_append]
        exact Nat.add_le_add_left (payload_length_le a) _
    · exact le_rfl
  have hbody := vector_length_le serializeNoWitness_length_le block.vtx
  unfold getBlockWeight strippedSize totalSize witnessScaleFactor at *
  rw [List.length_append] at *
  rw [List.length_append] at h
  omega

/-! ## no transaction is selected twice -/

/-- the entries of a package are different ones of the mempool, which has one entry for an id -/
def Package.Distinct (n : Node) (p : Package) : Prop :=
  ((p.ancestors ++ [p.iter]).map (entryId n)).Nodup

/-- the ids of the selected entries are different, and those of the transactions are among them -/
structure Selected (n : Node) (st : AssemblerState) : Prop where
  nodup : st.inBlock.Nodup
  ids : (st.vtx.map (CTransaction.getHash n.hash256 n.blake3)).Sublist st.inBlock

section
variable {n : Node} {pedersen : Mw.Pedersen} {ctx : TemplateContext} {st st' : AssemblerState}

theorem getHash_without_mweb {hash256 blake3 : Bytes → Uint256} {tx : CTransaction}
    (h : tx.isMwebOnly = false) :
    CTransaction.getHash hash256 blake3 { tx with mwebTx := none } = tx.getHash hash256 blake3 := by
  show hash256 _ = _
  unfold CTransaction.getHash
  cases hmweb : tx.mwebTx with
  | none => rfl
  | some mwebTx =>
    have hfull : (tx.vin.isEmpty && tx.vout.isEmpty) = false := by
      simpa [CTransaction.isMwebOnly, CTransaction.hasMwebTx, hmweb] using h
    simp only [hfull, Bool.false_eq_true, if_false]
    rfl

/-- what an entry adds to the block: nothing, or its id and at most its transaction -/
theorem addToBlock_selects {e : CTxMemPoolEntry} {added : Bool}
    (h : addToBlock n pedersen st e = .ok (added, st')) :
    (st'.inBlock = st.inBlock ∧ st'.vtx = st.vtx) ∨
      (st'.inBlock = st.inBlock ++ [entryId n e] ∧ (st'.vtx = st.vtx ∨
        ∃ tx, st'.vtx = st.vtx ++ [tx] ∧ tx.getHash n.hash256 n.blake3 = entryId n e)) := by
  unfold addToBlock at h
  split at h
  · cases h
  · obtain ⟨-, rfl⟩ := Prod.mk.inj (Except.ok.inj h)
    exact .inl ⟨rfl, rfl⟩
  · dsimp only at h
    split at h
    · obtain ⟨-, rfl⟩ := Prod.mk.inj (Except.ok.inj h)
      exact .inr ⟨rfl, .inl rfl⟩
    · rename_i hfull
      split at h
      · obtain ⟨-, rfl⟩ := Prod.mk.inj (Except.ok.inj h)
        exact .inl ⟨rfl, rfl⟩
      · obtain ⟨-, rfl⟩ := Prod.mk.inj (Except.ok.inj h)
        exact .inr ⟨rfl, .inr ⟨_, rfl, getHash_without_mweb (by simpa using hfull)⟩⟩

theorem Selected.addToBlock {e : CTxMemPoolEntry} {added : Bool} (hst : Selected n st)
    (he : entryId n e ∉ st.inBlock) (h : addToBlock n pedersen st e = .ok (added, st')) :
    Selected n st' ∧ st'.inBlock ⊆ st.inBlock ++ [entryId n e] := by
  rcases addToBlock_selects h with ⟨hin, hvtx⟩ | ⟨hin, hvtx⟩
  · refine ⟨⟨hin ▸ hst.nodup, ?_⟩, ?_⟩
    · rw [hin, hvtx]
      exact hst.ids
    · rw [hin]
      exact List.subset_append_left _ _
  · have hnodup : st'.inBlock.Nodup := by
      rw [hin]
      exact List.nodup_append.mpr ⟨hst.nodup, List.nodup_singleton _, fun a ha b hb heq =>
        he (List.mem_singleton.mp hb ▸ heq ▸ ha)⟩
    refine ⟨⟨hnodup, ?_⟩, hin ▸ List.Subset.refl _⟩
    rw [hin]
    rcases hvtx with hvtx | ⟨tx, hvtx, hid⟩
    · rw [hvtx]
      exact hst.ids.trans (List.sublist_append_left _ _)
    · rw [hvtx, List.map_append, List.map_singleton, hid]
      exact hst.ids.append (List.Sublist.refl _)

theorem Selected.addEntries {entries : List CTxMemPoolEntry} (hst : Selected n st)
    (hnodup : (entries.map (entryId n)).Nodup) (hnew : ∀ e ∈ entries, entryId n e ∉ st.inBlock)
    (h : addEntries n pedersen entries st = .ok st') : Selected n st' := by
  induction entries generalizing st with
  | nil =>
    obtain rfl := Except.ok.inj h
    exact hst
  | cons e rest ih =>
    rw [List.forall_mem_cons] at hnew
    rw [List.map_cons, List.nodup_cons] at hnodup
    unfold Mining.addEntries at h
    split at h
    · cases h
    · rename_i st₁ hadd
      obtain ⟨hst₁, hsub⟩ := hst.addToBlock hnew.1 hadd
      refine ih hst₁ hnodup.2 ?_ h
      intro e' he' hmem
      rcases List.mem_append.mp (hsub hmem) with hold | hsame
      · exact hnew.2 e' he' hold
      · exact hnodup.1 (List.mem_singleton.mp hsame ▸ List.mem_map_of_mem he')
    · rename_i st₁ hadd
      obtain rfl := Except.ok.inj h
      have hst₁ := (hst.addToBlock hnew.1 hadd).1
      exact ⟨hst₁.nodup, hst₁.ids⟩

theorem Selected.skipPackage (hst : Selected n st) (p : Package) :
    Selected n (skipPackage n st p) := by
  unfold Mining.skipPackage
  split
  · exact ⟨hst.nodup, hst.ids⟩
  · exact hst

theorem Selected.addPackage {p : Package} (hst : Selected n st) (hp : p.Distinct n)
    (h : addPackage n pedersen ctx st p = .ok st') : Selected n st' := by
  unfold Mining.addPackage at h
  obtain ⟨hiter, h⟩ := Checked.ite_error_eq_ok.mp h
  split at h
  · obtain rfl := Except.ok.inj h
    exact hst.skipPackage p
  · dsimp only at h
    split at h
    · obtain rfl := Except.ok.inj h
      exact hst.skipPackage p
    · refine hst.addEntries ?_ ?_ h
      · have hsub : (onlyUnconfirmed n st p.ancestors ++ [p.iter]).Sublist (p.ancestors ++ [p.iter]) :=
          List.Sublist.append List.filter_sublist (List.Sublist.refl _)
        exact List.Nodup.sublist (hsub.map _) hp
      · intro e he
        rcases List.mem_append.mp he with he | he
        · simpa using (List.mem_filter.mp he).2
        · rw [List.mem_singleton.mp he]
          simpa using hiter

theorem selected_of_addPackageTxs {packages : List Package}
    (hpackages : ∀ p ∈ packages, p.Distinct n)
    (h : addPackageTxs n pedersen ctx packages = .ok st) : Selected n st := by
  refine Checked.foldlM_preserves (fun st p st' hp hst hstep => ?_) ?_ h
  · exact hst.addPackage (hpackages p hp) hstep
  · exact ⟨List.nodup_nil, List.Sublist.refl _⟩

end

/-! ## what a template consists of -/

section
variable {n : Node} {pedersen : Mw.Pedersen} {ctx : TemplateContext} {scriptPubKeyIn : Bytes}
  {packages : List Package} {st : AssemblerState} {block : CBlock}

theorem finishBlock_vtx (h : finishBlock n pedersen ctx scriptPubKeyIn st = some block) :
    ∃ coinbase hogEx, hogEx.length ≤ 1 ∧ (ctx.tip.prev.mwebEnabled = false → hogEx = []) ∧
      block.vtx = coinbase :: (st.vtx ++ hogEx) ∧
      block.header = templateHeader n ctx block.vtx block.mwebBlock := by
  unfold finishBlock at h
  obtain ⟨⟨hogEx, mwebBlock⟩, hpart, h⟩ := Option.bind_eq_some_iff.mp h
  obtain rfl := Option.some.inj h
  have hhogEx : hogEx.length ≤ 1 ∧ (ctx.tip.prev.mwebEnabled = false → hogEx = []) := by
    unfold hogExPart at hpart
    split at hpart
    · rename_i hmweb
      obtain ⟨⟨tx, mwebBlock'⟩, -, hpart⟩ := Option.bind_eq_some_iff.mp hpart
      obtain ⟨rfl, -⟩ := Prod.mk.inj (Option.some.inj hpart)
      exact ⟨le_rfl, fun hfalse => absurd (hfalse.symm.trans hmweb) Bool.false_ne_true⟩
    · obtain ⟨rfl, -⟩ := Prod.mk.inj (Option.some.inj hpart)
      exact ⟨Nat.zero_le 1, fun _ => rfl⟩
  obtain ⟨coinbase, hcommit⟩ := generateCoinbaseCommitment_vtx n ctx
    (coinbaseTx n ctx scriptPubKeyIn st.nFees) (st.vtx ++ hogEx)
    ⟨⟨ctx.nVersion, .null, .null, 0, 0, 0⟩, none⟩ mwebBlock
  refine ⟨coinbase, hogEx, hhogEx.1, hhogEx.2, ?_, rfl⟩
  show (generateCoinbaseCommitment n ctx _).vtx = _
  rw [hcommit]

theorem createNewBlock_eq_some :
    createNewBlock n pedersen ctx scriptPubKeyIn packages = some block ↔
      assembleBlock n pedersen ctx scriptPubKeyIn packages = some block ∧
        testBlockValidity n ctx block false false = .ok () := by
  simp only [createNewBlock, Option.bind_eq_bind, Option.bind_eq_some_iff, guard_eq_some_iff,
    exists_const, Option.some.injEq]
  constructor
  · rintro ⟨block', hassemble, hvalid, rfl⟩
    obtain ⟨⟨⟩, hvalid⟩ := Checked.exists_of_isOk hvalid
    exact ⟨hassemble, hvalid⟩
  · rintro ⟨hassemble, hvalid⟩
    refine ⟨block, hassemble, ?_, rfl⟩
    rw [hvalid]
    rfl

theorem assembleBlock_eq_some :
    assembleBlock n pedersen ctx scriptPubKeyIn packages = some block ↔
      ∃ st, addPackageTxs n pedersen ctx packages = .ok st ∧
        finishBlock n pedersen ctx scriptPubKeyIn st = some block := by
  unfold assembleBlock
  rw [Option.bind_eq_bind, Option.bind_eq_some_iff]
  refine exists_congr fun st => and_congr_left fun _ => ?_
  cases addPackageTxs n pedersen ctx packages with
  | ok st' => exact ⟨fun h => congrArg _ (Option.some.inj h), fun h => congrArg _ (Except.ok.inj h)⟩
  | error fault => exact ⟨nofun, nofun⟩

theorem templateHeader_auxpow (haux : n.params.auxpow.isEnabled ctx.nHeight = true)
    (vtx : List CTransaction) (mwebBlock : Option Mw.Block) :
    (templateHeader n ctx vtx mwebBlock).isAuxpow = true ∧
      ∃ a, (templateHeader n ctx vtx mwebBlock).auxpow = some a := by
  unfold templateHeader prepareAuxpow
  simp only [haux, if_true]
  exact ⟨setAuxpowVersion_isAuxpow _, _, rfl⟩

theorem templateHeader_hashMerkleRoot (vtx : List CTransaction) (mwebBlock : Option Mw.Block) :
    (templateHeader n ctx vtx mwebBlock).hashMerkleRoot = (Merkle.computeMerkleRoot
      (merkleNode n.hash256) .null (vtx.map (CTransaction.getHash n.hash256 n.blake3))).1 := by
  have hset : ∀ (header : CPureBlockHeader) (auxpow : Bool),
      (setAuxpowVersion header auxpow).hashMerkleRoot = header.hashMerkleRoot := by
    intro header auxpow
    unfold setAuxpowVersion
    split
    · rfl
    · split
      · rfl
      · rfl
  unfold templateHeader prepareAuxpow
  dsimp only
  split
  · simp only [initAuxPow, setAuxpow, hset, setBaseVersion]
    rfl
  · rfl

end

/-! ## no repeated pair -/

theorem length_ser_le_flatMap {α : Type} (ser : α → Bytes) {xs : List α} {x : α} (h : x ∈ xs) :
    (ser x).length ≤ (xs.flatMap ser).length := by
  obtain ⟨front, back, rfl⟩ := List.append_of_mem h
  rw [List.flatMap_append, List.flatMap_cons, List.length_append, List.length_append]
  omega

theorem inputs_prefixFree : PrefixFree
    (fun txin : CTxIn => txin.scriptWitness = [] ∧ txin.scriptSig.length < 2 ^ 64)
    CTxIn.serialize := by
  intro a b x y ha hb heq
  obtain ⟨⟨hash, i⟩, script, sequence, witness⟩ := a
  obtain ⟨⟨hash', i'⟩, script', sequence', witness'⟩ := b
  obtain ⟨rfl, hscript⟩ := ha
  obtain ⟨rfl, hscript'⟩ := hb
  dsimp only at hscript hscript'
  simp only [CTxIn.serialize, COutPoint.serialize, List.append_assoc] at heq
  obtain ⟨hhash, heq⟩ := List.append_inj heq (by simp)
  obtain ⟨hi, heq⟩ := List.append_inj heq (by simp)
  obtain ⟨rfl, hrest⟩ := byteVector_prefixFree _ _ _ _ hscript hscript' heq
  obtain ⟨hsequence, rfl⟩ := List.append_inj hrest (by simp)
  obtain rfl := Uint256.data_inj hhash
  obtain rfl := u32Bytes_inj hi
  obtain rfl := u32Bytes_inj hsequence
  exact ⟨rfl, rfl⟩

theorem prevouts_of_serializeNoWitness {tx tx' : CTransaction} (h : checkTransaction tx = .ok ())
    (h' : checkTransaction tx' = .ok ()) (heq : tx.serializeNoWitness = tx'.serializeNoWitness) :
    tx.vin.map CTxIn.prevout = tx'.vin.map CTxIn.prevout := by
  have hfits : ∀ t : CTransaction, checkTransaction t = .ok () →
      t.stripWitness.vin.length < 2 ^ 64 ∧ ∀ txin ∈ t.stripWitness.vin, txin.scriptWitness = [] ∧
        txin.scriptSig.length < 2 ^ 64 := by
    intro t ht
    have hsize := (checkTransaction_sizes ht).1
    unfold maxBlockWeight at hsize
    refine ⟨by simp [CTransaction.stripWitness]; omega, ?_⟩
    intro stripped hstripped
    obtain ⟨txin, hmem, rfl⟩ := List.mem_map.mp hstripped
    refine ⟨rfl, ?_⟩
    -- the transaction is not too large, so its scripts are not
    unfold checkTransaction at ht
    obtain ⟨-, ht⟩ := Checked.ite_error_eq_ok.mp ht
    obtain ⟨-, ht⟩ := Checked.ite_error_eq_ok.mp ht
    obtain ⟨htotal, -⟩ := Checked.ite_error_eq_ok.mp ht
    have hinput : (CTxIn.serialize txin).length ≤ (t.vin.flatMap CTxIn.serialize).length :=
      length_ser_le_flatMap CTxIn.serialize hmem
    have hscript : txin.scriptSig.length ≤ (CTxIn.serialize txin).length := by
      simp only [CTxIn.serialize, byteVector, List.length_append]
      omega
    simp only [CTransaction.serializeNoWitness, vector, List.length_append, witnessScaleFactor,
      maxBlockWeight] at htotal
    show txin.scriptSig.length < 2 ^ 64
    omega
  have hsame : tx.stripWitness.serializeNoWitness = tx'.stripWitness.serializeNoWitness := by
    rw [CTransaction.stripWitness_serializeNoWitness, CTransaction.stripWitness_serializeNoWitness, heq]
  unfold CTransaction.serializeNoWitness at hsame
  simp only [List.append_assoc] at hsame
  obtain ⟨-, hsame⟩ := List.append_inj hsame (by simp [intBytes])
  have hvin := (vector_prefixFree inputs_prefixFree _ _ _ _ (hfits tx h) (hfits tx' h') hsame).1
  have hprevouts : ∀ t : CTransaction,
      t.stripWitness.vin.map CTxIn.prevout = t.vin.map CTxIn.prevout := fun t =>
    CTransaction.map_stripWitness_vin t fun _ => rfl
  rw [← hprevouts tx, ← hprevouts tx', hvin]

theorem isCoinBase_of_prevouts {tx tx' : CTransaction}
    (h : tx.vin.map CTxIn.prevout = tx'.vin.map CTxIn.prevout) : tx.isCoinBase = tx'.isCoinBase := by
  unfold CTransaction.isCoinBase
  match hvin : tx.vin, hvin' : tx'.vin with
  | [], [] => rfl
  | [a], [b] =>
    rw [hvin, hvin'] at h
    simp only [show a.prevout = b.prevout from (List.cons.inj h).1]
  | a :: b :: rest, c :: d :: rest' => rfl
  | [], c :: rest' => simp [hvin, hvin'] at h
  | a :: rest, [] => simp [hvin, hvin'] at h
  | [a], c :: d :: rest' => simp [hvin, hvin'] at h
  | a :: b :: rest, [c] => simp [hvin, hvin'] at h

section
variable {n : Node} {ctx : ConnectContext} {mwebCoin : Uint256 → Option Mw.Output}

/-- what a transaction has spent its successor cannot spend, unless the transaction made it anew -/
theorem hash_eq_of_spent_twice {front : List CTransaction} {tx next : CTransaction} {st st' : ConnectState}
    (h : TxRun n ctx mwebCoin (front ++ [tx, next]) st st') {o : COutPoint} (ho : o ∈ prevouts tx)
    (hnext : o ∈ prevouts next) : o.hash = tx.getHash n.hash256 n.blake3 := by
  induction front generalizing st with
  | nil =>
    obtain _ | @⟨_, _, _, _, st₁, _, hstep, _ | ⟨hstep', -⟩⟩ := h
    obtain ⟨coin, hcoin⟩ := hstep'.allowed.removed_some o hnext
    rw [hstep.view_eq] at hcoin
    by_contra hne
    have hnew : o ∉ (newCoins n.hash256 n.blake3 tx ctx.nHeight.toNat).map Prod.fst := by
      intro hmem
      obtain ⟨e, he, rfl⟩ := List.mem_map.mp hmem
      obtain ⟨out, -, rfl⟩ := List.mem_map.mp he
      exact hne rfl
    rw [Delta.apply, show (blockDelta n ctx tx).added = newCoins n.hash256 n.blake3 tx
      ctx.nHeight.toNat from rfl, addAll_of_notMem hnew,
      show (blockDelta n ctx tx).removed = prevouts tx from rfl, removeAll_of_mem ho] at hcoin
    cases hcoin
  | cons t front ih =>
    obtain _ | ⟨-, hrun⟩ := h
    exact ih hrun

theorem vin_ne_nil_of_checkTransaction {tx : CTransaction} (hmweb : tx.mwebTx = none)
    (h : checkTransaction tx = .ok ()) : tx.vin ≠ [] := by
  intro hnil
  unfold checkTransaction at h
  obtain ⟨hempty, -⟩ := Checked.ite_error_eq_ok.mp h
  simp [CTransaction.isMwebOnly, CTransaction.hasMwebTx, hmweb, hnil] at hempty

def templatePreimages (n : Node) (vtx : List CTransaction) : List Bytes :=
  vtx.map CTransaction.serializeNoWitness ++ (Merkle.merklePairs (merkleNode n.hash256)
    (vtx.map (CTransaction.getHash n.hash256 n.blake3))).map nodePreimage

def NoSelfSpend (n : Node) (vtx : List CTransaction) : Prop :=
  ∀ tx ∈ vtx, ∀ txin ∈ tx.vin, txin.prevout.hash ≠ tx.getHash n.hash256 n.blake3

instance (n : Node) (vtx : List CTransaction) : Decidable (NoSelfSpend n vtx) :=
  inferInstanceAs (Decidable (∀ tx ∈ vtx, ∀ txin ∈ tx.vin,
    txin.prevout.hash ≠ tx.getHash n.hash256 n.blake3))

variable {block : CBlock} {coinbase : CTransaction} {rest selected hogEx : List CTransaction}

theorem prevouts_eq_of_getHash (hshape : BlockShape block coinbase rest)
    (hcf : CollisionFree n.hash256 (templatePreimages n block.vtx)) {tx tx' : CTransaction}
    (htx : tx ∈ block.vtx) (htx' : tx' ∈ block.vtx)
    (h : tx.getHash n.hash256 n.blake3 = tx'.getHash n.hash256 n.blake3) :
    tx.vin.map CTxIn.prevout = tx'.vin.map CTxIn.prevout := by
  rw [CTransaction.getHash, hshape.mwebTx_eq tx htx, CTransaction.getHash,
    hshape.mwebTx_eq tx' htx'] at h
  refine prevouts_of_serializeNoWitness (hshape.checked tx htx) (hshape.checked tx' htx') ?_
  exact hcf _ (List.mem_append_left _ (List.mem_map_of_mem htx)) _
    (List.mem_append_left _ (List.mem_map_of_mem htx')) h

theorem coinbase_id_notMem (hshape : BlockShape block coinbase rest)
    (hcf : CollisionFree n.hash256 (templatePreimages n block.vtx)) :
    coinbase.getHash n.hash256 n.blake3 ∉ rest.map (CTransaction.getHash n.hash256 n.blake3) := by
  intro hmem
  obtain ⟨tx, htx, hid⟩ := List.mem_map.mp hmem
  have hprevouts := prevouts_eq_of_getHash hshape hcf (hshape.vtx_eq ▸ List.mem_cons_of_mem _ htx)
    (hshape.vtx_eq ▸ List.mem_cons_self) hid
  have hcb := isCoinBase_of_prevouts hprevouts
  rw [hshape.rest_isCoinBase tx htx, hshape.isCoinBase] at hcb
  cases hcb

theorem neighbour_ids_ne (hshape : BlockShape block coinbase rest)
    (hcf : CollisionFree n.hash256 (templatePreimages n block.vtx)) (hself : NoSelfSpend n block.vtx)
    {st st' : ConnectState} (hrun : TxRun n ctx mwebCoin rest st st') {front : List CTransaction}
    {tx next : CTransaction} (hrest : rest = front ++ [tx, next]) :
    tx.getHash n.hash256 n.blake3 ≠ next.getHash n.hash256 n.blake3 := by
  intro hid
  subst hrest
  have htx : tx ∈ front ++ [tx, next] := by simp
  have hnext : next ∈ front ++ [tx, next] := by simp
  have hmem : ∀ t ∈ front ++ [tx, next], t ∈ block.vtx := fun t ht =>
    hshape.vtx_eq ▸ List.mem_cons_of_mem _ ht
  have hspent : ∀ t ∈ front ++ [tx, next], prevouts t = t.vin.map CTxIn.prevout := by
    intro t ht
    rw [prevouts, hshape.rest_isCoinBase t ht, if_neg Bool.false_ne_true]
  obtain ⟨txin, vin, hvin⟩ := List.exists_cons_of_ne_nil (vin_ne_nil_of_checkTransaction
    (hshape.mwebTx_eq tx (hmem tx htx)) (hshape.checked tx (hmem tx htx)))
  have ho : txin.prevout ∈ prevouts tx := by
    rw [hspent tx htx, hvin]
    exact List.mem_cons_self
  have ho' : txin.prevout ∈ prevouts next := by
    rw [hspent next hnext, ← prevouts_eq_of_getHash hshape hcf (hmem tx htx) (hmem next hnext) hid,
      ← hspent tx htx]
    exact ho
  refine hself tx (hmem tx htx) txin (hvin ▸ List.mem_cons_self) ?_
  exact hash_eq_of_spent_twice hrun ho ho'

/-- the ids of a template show no repeated pair: the selected ones differ, and the HogEx differs from
its neighbour -/
theorem template_mutated (hshape : BlockShape block coinbase rest) (hrest : rest = selected ++ hogEx)
    (hhogEx : hogEx.length ≤ 1)
    (hselected : (selected.map (CTransaction.getHash n.hash256 n.blake3)).Nodup)
    (hcf : CollisionFree n.hash256 (templatePreimages n block.vtx)) (hself : NoSelfSpend n block.vtx)
    {st st' : ConnectState} (hrun : TxRun n ctx mwebCoin rest st st') :
    (blockMerkleRoot n.hash256 n.blake3 block).2 = false := by
  have hapart : Merkle.PairsApart (merkleNode n.hash256) (Merkle.merklePairs (merkleNode n.hash256)
      (block.vtx.map (CTransaction.getHash n.hash256 n.blake3))) :=
    pairsApart_of_collisionFree (hcf.mono (List.subset_append_right _ _))
  have hcoinbase := coinbase_id_notMem hshape hcf
  have hfront : ((coinbase :: selected).map (CTransaction.getHash n.hash256 n.blake3)).Nodup := by
    rw [List.map_cons, List.nodup_cons]
    refine ⟨fun hmem => hcoinbase ?_, hselected⟩
    rw [hrest, List.map_append]
    exact List.mem_append_left _ hmem
  unfold blockMerkleRoot
  match hogEx, hhogEx with
  | [], _ =>
    have hids : (block.vtx.map (CTransaction.getHash n.hash256 n.blake3)).Nodup := by
      rw [hshape.vtx_eq, hrest, List.append_nil]
      exact hfront
    exact Merkle.computeMerkleRoot_mutated (hids.sublist (List.dropLast_sublist _))
      (List.Pairwise.isChain hids) hapart
  | [tx], _ =>
    have hids : block.vtx.map (CTransaction.getHash n.hash256 n.blake3) =
        (coinbase :: selected).map (CTransaction.getHash n.hash256 n.blake3) ++
          [tx.getHash n.hash256 n.blake3] := by
      rw [hshape.vtx_eq, hrest, ← List.cons_append, List.map_append]
      rfl
    refine Merkle.computeMerkleRoot_mutated ?_ ?_ hapart
    · rw [hids, List.dropLast_concat]
      exact hfront
    · rw [hids]
      refine List.isChain_append.mpr ⟨List.Pairwise.isChain hfront, List.isChain_singleton _, ?_⟩
      intro id hid id' hid'
      obtain rfl := Option.some.inj hid'
      cases selected using List.reverseRecOn with
      | nil =>
        obtain rfl := Option.some.inj hid
        intro heq
        apply hcoinbase
        rw [hrest]
        exact List.mem_singleton.mpr heq
      | append_singleton front last =>
        rw [← List.cons_append, List.map_append, List.map_singleton, List.getLast?_concat] at hid
        obtain rfl := Option.some.inj hid
        exact neighbour_ids_ne hshape hcf hself hrun (by rw [hrest, List.append_assoc]; rfl)

end

/-! ## the checks of a submission -/

section
variable {n : Node} {block : CBlock}

theorem submittedBlock_variant (haux : block.header.isAuxpow = true) (a : CAuxPow) :
    PayloadVariant block (submittedBlock block a) := by
  refine ⟨?_, rfl, rfl⟩
  show setAuxpowVersion block.header.toCPureBlockHeader true = _
  rw [setAuxpowVersion, if_pos haux]

/-- what a block with other payload has to pass anew: work, the signet solution, the root and its size -/
theorem checkBlock_variant_iff {hash256 blake3 : Bytes → Uint256} {checks : ProofChecks}
    {params : Params} {variant : CBlock} (hvariant : PayloadVariant block variant)
    (h : checkBlock hash256 blake3 checks params block false false = .ok ())
    (hwork : checks.proofOfWork variant.header = true)
    (hroot : checkMerkleRoot hash256 blake3 variant = .ok ())
    (hmissing : variant.header.payloadMissing = false) :
    checkBlock hash256 blake3 checks params variant true true = .ok () ↔
      (params.signetBlocks = true → checks.signetSolution variant.stripWitness = true) ∧
        strippedSize variant * witnessScaleFactor ≤ maxBlockWeight := by
  have hheader : checkBlockHeader checks variant.header true = .ok () := by
    rw [checkBlockHeader, hwork]
    rfl
  have hsignet : ¬ (params.signetBlocks && true && !checks.signetSolution variant.stripWitness) = true ↔
      (params.signetBlocks = true → checks.signetSolution variant.stripWitness = true) := by
    cases params.signetBlocks <;> simp
  unfold checkBlock at h ⊢
  constructor
  · intro hv
    obtain ⟨-, hv⟩ := Checked.then_eq_ok.mp hv
    obtain ⟨hsolution, hv⟩ := Checked.ite_error_eq_ok.mp hv
    replace hv := Checked.of_ite_then_eq_ok hv
    obtain ⟨-, hv⟩ := Checked.ite_error_eq_ok.mp hv
    obtain ⟨-, hv⟩ := Checked.ite_error_eq_ok.mp hv
    exact ⟨hsignet.mp hsolution, Nat.not_lt.mp (Checked.ite_error_eq_ok.mp hv).1⟩
  · intro ⟨hsolution, hsize⟩
    obtain ⟨-, h⟩ := Checked.then_eq_ok.mp h
    obtain ⟨-, h⟩ := Checked.ite_error_eq_ok.mp h
    replace h := Checked.of_ite_then_eq_ok h
    obtain ⟨hlength, h⟩ := Checked.ite_error_eq_ok.mp h
    obtain ⟨-, h⟩ := Checked.ite_error_eq_ok.mp h
    obtain ⟨-, hbody⟩ := Checked.ite_error_eq_ok.mp h
    refine Checked.then_eq_ok.mpr ⟨hheader, Checked.ite_error_eq_ok.mpr ⟨hsignet.mpr hsolution, ?_⟩⟩
    refine (if_pos rfl).trans (Checked.then_eq_ok.mpr ⟨hroot, ?_⟩)
    rw [← hvariant.vtx_eq] at hlength hbody
    refine Checked.ite_error_eq_ok.mpr ⟨hlength, Checked.ite_error_eq_ok.mpr ⟨?_, ?_⟩⟩
    · rw [hmissing]
      exact Bool.false_ne_true
    · refine Checked.ite_error_eq_ok.mpr ⟨Nat.not_lt.mpr hsize, ?_⟩
      unfold Mweb.checkBlock at hbody ⊢
      rw [← hvariant.vtx_eq] at hbody
      exact hbody

theorem contextualCheckBlockHeader_variant {params : Params} {ctx ctx' : HeaderContext}
    {prev : CBlockIndex} {header header' : CBlockHeader}
    (h : contextualCheckBlockHeader params ctx prev header = .ok ())
    (hpure : header'.toCPureBlockHeader = header.toCPureBlockHeader)
    (hnext : ctx'.nextWorkRequired = ctx.nextWorkRequired)
    (hcheckpoint : ctx'.checkpointHeight = ctx.checkpointHeight)
    (hclock : ctx.nAdjustedTime ≤ ctx'.nAdjustedTime) :
    contextualCheckBlockHeader params ctx' prev header' = .ok () := by
  obtain ⟨pure, auxpow⟩ := header
  obtain ⟨pure', auxpow'⟩ := header'
  obtain rfl : pure' = pure := hpure
  unfold contextualCheckBlockHeader at h ⊢
  dsimp only at h ⊢
  obtain ⟨hbits, h⟩ := Checked.ite_error_eq_ok.mp h
  obtain ⟨hannounced, h⟩ := Checked.ite_error_eq_ok.mp h
  obtain ⟨hexpected, h⟩ := Checked.ite_error_eq_ok.mp h
  obtain ⟨hchain, h⟩ := Checked.ite_error_eq_ok.mp h
  obtain ⟨hfork, h⟩ := Checked.ite_error_eq_ok.mp h
  obtain ⟨hold, h⟩ := Checked.ite_error_eq_ok.mp h
  obtain ⟨hnew, h⟩ := Checked.ite_error_eq_ok.mp h
  rw [hnext, hcheckpoint]
  rw [if_neg hbits, if_neg hannounced, if_neg hexpected, if_neg hchain, if_neg hfork, if_neg hold,
    if_neg (by omega)]
  exact h

end

/-- **Submitted work.**  A payload that commits to the hash of a template and carries its work gives a
block with that hash, which passes all checks exactly when header, payload and body stay within the
weight of a block (and on a signet it is signed); they do when the body leaves room for 4000 bytes. -/
theorem submission_accepted_iff (n : Node) (pedersen : Mw.Pedersen) (ctx : TemplateContext)
    (scriptPubKeyIn : Bytes) (packages : List Package) (hpackages : ∀ p ∈ packages, p.Distinct n)
    (block : CBlock) (htemplate : createNewBlock n pedersen ctx scriptPubKeyIn packages = some block)
    (haux : n.params.auxpow.isEnabled ctx.nHeight = true)
    (hgenesis : n.blockHash block ≠ n.params.hashGenesisBlock)
    (hcf : CollisionFree n.hash256 (templatePreimages n block.vtx)) (hself : NoSelfSpend n block.vtx)
    (a : CAuxPow) (hsize : (a.serialize CTransaction.serialize).length ≤ 4000)
    (hcheck : CAuxPow.check n.hash256 n.blake3 n.params.auxpow a (n.blockHash block)
      block.header.getChainId = true)
    (hwork : checkProofOfWork n.params.powLimit (n.scrypt a.parentBlock.serializePure)
      block.header.nBits = true)
    (now : Int) (hnow : ctx.nAdjustedTime ≤ now) :
    n.blockHash (submittedBlock block a) = n.blockHash block ∧
      ((n.checkBlock (submittedBlock block a) = .ok () ∧
          contextualCheckBlockHeader n.params
            { ctx.headerContext (submittedBlock block a).header with nAdjustedTime := now }
            ctx.tip.prev (submittedBlock block a).header = .ok () ∧
          contextualCheckBlock n.hash256 n.blake3 n.verifier n.crypto n.params ctx.tip.prev
            (submittedBlock block a) = .ok ()) ↔
        (n.params.signetBlocks = true →
          n.signetSolution (submittedBlock block a).stripWitness = true) ∧
          pureHeaderWeight + payloadWeight a + bodyWeight block.vtx ≤ maxBlockWeight) ∧
      (pureHeaderWeight + witnessScaleFactor * 4000 + bodyWeight block.vtx ≤ maxBlockWeight →
        pureHeaderWeight + payloadWeight a + bodyWeight block.vtx ≤ maxBlockWeight) := by
  obtain ⟨hassemble, hvalid⟩ := createNewBlock_eq_some.mp htemplate
  obtain ⟨st, hst, hfinish⟩ := assembleBlock_eq_some.mp hassemble
  obtain ⟨first, hogEx, hhogEx, -, hvtx, hheader⟩ := finishBlock_vtx hfinish
  obtain ⟨hannounced, -⟩ := templateHeader_auxpow haux block.vtx block.mwebBlock
  rw [← hheader] at hannounced
  have hvariant := submittedBlock_variant hannounced a
  have hannounced' : (submittedBlock block a).header.isAuxpow = true := by
    rw [hvariant.pure_eq]
    exact hannounced
  have hmissing : (submittedBlock block a).header.payloadMissing = false :=
    Bool.and_eq_false_iff.mpr (.inr rfl)
  have hweight : getBlockWeight (submittedBlock block a) =
      pureHeaderWeight + payloadWeight a + bodyWeight block.vtx :=
    getBlockWeight_of_auxpow hannounced' rfl
  unfold testBlockValidity at hvalid
  obtain ⟨hcontextHeader, hvalid⟩ := Checked.then_eq_ok.mp hvalid
  obtain ⟨hchecked, hvalid⟩ := Checked.then_eq_ok.mp hvalid
  obtain ⟨hcontext, hvalid⟩ := Checked.then_eq_ok.mp hvalid
  obtain ⟨⟨undo, view⟩, hconnect, -⟩ := Checked.bind_eq_ok.mp hvalid
  have hproof : n.checks.proofOfWork (submittedBlock block a).header = true := by
    show checkBlockProofOfWork _ _ _ _ _ = true
    unfold checkBlockProofOfWork
    rw [hannounced', hvariant.pure_eq]
    show (if (!CAuxPow.check n.hash256 n.blake3 n.params.auxpow a _ _) = true then false else _) = true
    rw [show CAuxPow.check n.hash256 n.blake3 n.params.auxpow a
      (block.header.getHash n.hash256) block.header.getChainId = true from hcheck]
    exact hwork
  have hroot : checkMerkleRoot n.hash256 n.blake3 (submittedBlock block a) = .ok () := by
    obtain ⟨st', hconnected⟩ := connectBlock_ok hgenesis hconnect
    obtain ⟨coinbase, rest, st₁, hshape, -, -, -, hrun⟩ := hconnected.txRun
    have hrest : rest = st.vtx ++ hogEx := by
      have hboth := hshape.vtx_eq
      rw [hvtx] at hboth
      exact (List.cons.inj hboth).2.symm
    have hselected := selected_of_addPackageTxs hpackages hst
    have hmutated := template_mutated hshape hrest hhogEx (hselected.nodup.sublist hselected.ids) hcf
      hself hrun
    unfold checkMerkleRoot
    refine Checked.ite_error_eq_ok.mpr ⟨?_, Checked.ite_error_eq_ok.mpr ⟨?_, rfl⟩⟩
    · rw [hvariant.pure_eq, hheader, templateHeader_hashMerkleRoot]
      exact not_not.mpr rfl
    · show ¬ (blockMerkleRoot n.hash256 n.blake3 block).2 = true
      rw [hmutated]
      exact Bool.false_ne_true
  refine ⟨hvariant.blockHash_eq, ?_, ?_⟩
  · have hcheckBlock := checkBlock_variant_iff hvariant (ofBlock_eq_ok.mp hchecked) hproof hroot hmissing
    have hcontextBlock := contextualCheckBlock_payload hvariant (ofBlock_eq_ok.mp hcontext)
    rw [hmissing, if_neg Bool.false_ne_true] at hcontextBlock
    rw [hcontextBlock, ← hweight]
    constructor
    · intro ⟨hcheck', _, hcontext'⟩
      exact ⟨(hcheckBlock.mp hcheck').1, Nat.not_lt.mp (Checked.ite_error_eq_ok.mp hcontext').1⟩
    · intro ⟨hsignet, hle⟩
      refine ⟨hcheckBlock.mpr ⟨hsignet, strippedSize_le_of_weight hle⟩, ?_, if_neg (Nat.not_lt.mpr hle)⟩
      refine contextualCheckBlockHeader_variant (ofBlock_eq_ok.mp hcontextHeader) hvariant.pure_eq ?_
        rfl hnow
      show ctx.nextWorkRequired (submittedBlock block a).header.nTime = _
      rw [hvariant.pure_eq]
      rfl
  · intro hroom
    have hpayload := payloadWeight_le a
    unfold witnessScaleFactor at *
    omega

/-! ## a template with a HogEx -/

def samplePayload (hash : Uint256) : CAuxPow := sampleAuxPow hash (.ofNat 5) (.ofNat 6) .null

theorem submission_accepted_sample : ∃ block,
    createNewBlock mergedNode samplePedersen hogExContext [op1] [pegoutPackage [op1]] = some block ∧
      mergedNode.checkBlock (submittedBlock block (samplePayload (mergedNode.blockHash block))) =
        .ok () ∧
      contextualCheckBlock mergedNode.hash256 mergedNode.blake3 mergedNode.verifier mergedNode.crypto
        mergedNode.params hogExContext.tip.prev
        (submittedBlock block (samplePayload (mergedNode.blockHash block))) = .ok () := by
  have hfacts : (createNewBlock mergedNode samplePedersen hogExContext [op1]
      [pegoutPackage [op1]]).any (fun block =>
        decide (mergedNode.blockHash block ≠ mergedNode.params.hashGenesisBlock ∧
          CollisionFree mergedNode.hash256 (templatePreimages mergedNode block.vtx) ∧
          NoSelfSpend mergedNode block.vtx ∧
          ((samplePayload (mergedNode.blockHash block)).serialize CTransaction.serialize).length ≤ 4000 ∧
          CAuxPow.check mergedNode.hash256 mergedNode.blake3 mergedNode.params.auxpow
            (samplePayload (mergedNode.blockHash block)) (mergedNode.blockHash block)
            block.header.getChainId = true ∧
          checkProofOfWork mergedNode.params.powLimit .null block.header.nBits = true ∧
          pureHeaderWeight + witnessScaleFactor * 4000 + bodyWeight block.vtx ≤ maxBlockWeight)) =
      true := by decide +kernel
  obtain ⟨hblock, hfacts⟩ := (Option.any_eq_true_iff_get _ _).mp hfacts
  obtain ⟨hgenesis, hcf, hself, hsize, hcheck, hwork, hroom⟩ := of_decide_eq_true hfacts
  have hpackages : ∀ p ∈ [pegoutPackage [op1]], p.Distinct mergedNode := by
    intro p hp
    rw [List.mem_singleton.mp hp]
    exact List.nodup_singleton _
  obtain ⟨-, hiff, hle⟩ := submission_accepted_iff mergedNode samplePedersen hogExContext [op1]
    [pegoutPackage [op1]] hpackages _ (Option.some_get hblock).symm rfl hgenesis hcf hself
    (samplePayload (mergedNode.blockHash _)) hsize hcheck hwork 7 (by decide)
  obtain ⟨hchecked, -, hcontext⟩ := hiff.mpr ⟨nofun, hle hroom⟩
  exact ⟨_, (Option.some_get hblock).symm, hchecked, hcontext⟩

/-! ## a full template -/

theorem contextualCheckBlock_of_parts {n : Node} {prev : CBlockIndex} {block : CBlock}
    (hfinal : (block.vtx.any fun tx => !isFinalTx tx (prev.nHeight + 1)
      (lockTimeCutoff n.params prev block)) = false)
    (hshielded : block.vtx.forM (checkBlockTx n.hash256 n.blake3
      "Shielded pool transaction check failed"
      (checkShielded n.hash256 n.verifier n.params (prev.nHeight + 1))) = .ok ())
    (hheight : checkCoinbaseHeight n.params (prev.nHeight + 1) block = .ok ())
    (hfound : checkWitnessCommitment n.hash256 n.blake3 n.params (prev.nHeight + 1) block = .ok true)
    (hmissing : block.header.payloadMissing = false) (hweight : getBlockWeight block ≤ maxBlockWeight)
    (hmweb : Mweb.contextualCheckBlock n.hash256 n.blake3 n.crypto prev block = .ok ()) :
    contextualCheckBlock n.hash256 n.blake3 n.verifier n.crypto n.params prev block = .ok () := by
  unfold contextualCheckBlock
  dsimp only
  rw [hfinal, if_neg Bool.false_ne_true, hshielded, hheight, hfound]
  show (if block.header.payloadMissing = true then aborts else _) = _
  rw [hmissing, if_neg Bool.false_ne_true, if_neg (Nat.not_lt.mpr hweight), hmweb]

/-- a node whose hash reads 80 bytes, which is enough for headers and for the ids below -/
def fullNode : Node := { mergedNode with hash256 := fun bs => Uint256.polyHash (bs.take 80) }

/-- one input with a witness of the given size, one output to a key hash -/
def bulkyTx (size : Nat) : CTransaction where
  vin := [⟨⟨.ofNat 3, 0⟩, [], sequenceFinal, [List.replicate size 0]⟩]
  vout := [⟨4, [0, 20] ++ List.replicate 20 1⟩]
  nVersion := 2
  nLockTime := 0
  mwebTx := none
  hogEx := false

theorem bulkyTx_serialize_length {size : Nat} (hlow : 0xffff < size) (hhigh : size ≤ 0xffffffff) :
    (bulkyTx size).serialize.length = size + 90 := by
  have hvout : (vector CTxOut.serialize (bulkyTx 0).vout).length = 32 := by decide +kernel
  have hvin : (vector CTxIn.serialize (bulkyTx 0).vin).length = 42 := by decide +kernel
  have hwitness : (bulkyTx size).serializeWitness.length = size + 6 := by
    simp only [CTransaction.serializeWitness, bulkyTx, vector, byteVector, List.flatMap_cons,
      List.flatMap_nil, List.append_nil, List.length_append, List.length_replicate,
      compactSize_length, List.length_cons, List.length_nil]
    rw [if_neg (show ¬ size < 253 by omega), if_neg (Nat.not_le.mpr hlow), if_pos hhigh]
    show 1 + (5 + size) = size + 6
    omega
  unfold CTransaction.serialize
  rw [if_pos (show (bulkyTx size).hasWitness = true from rfl)]
  simp only [List.length_append, hwitness, intBytes, leBytes_length, u32Bytes_length,
    List.length_cons, List.length_nil]
  rw [show (vector CTxIn.serialize (bulkyTx size).vin).length = 42 from hvin,
    show (vector CTxOut.serialize (bulkyTx size).vout).length = 32 from hvout]
  omega

theorem bulkyTx_serializeNoWitness_length (size : Nat) :
    (bulkyTx size).serializeNoWitness.length = 82 :=
  show (bulkyTx 0).serializeNoWitness.length = 82 by decide +kernel

theorem bulkyTx_weight {size : Nat} (hlow : 0xffff < size) (hhigh : size ≤ 0xffffffff) :
    Policy.getTransactionWeight (bulkyTx size) = size + 336 := by
  show (bulkyTx size).serializeNoWitness.length * 3 + (bulkyTx size).serialize.length + 0 + 164 * 0 = _
  rw [bulkyTx_serializeNoWitness_length, bulkyTx_serialize_length hlow hhigh]
  omega

def bulkyEntry : CTxMemPoolEntry :=
  ⟨bulkyTx 3991000, 6, 0, 3991336, (bulkyTx_weight (by decide) (by decide)).symm⟩

def bulkyPackage : Package := ⟨bulkyEntry, [], 997834, 0, 0, false⟩

theorem fullContext_chain : (1 : Int) + 1 = pegContext.chain.length := rfl

/-- a tip before the extension block is active, with a coin of 10 to spend -/
def fullContext : TemplateContext where
  tip := { pegContext with prev := ⟨1, 0, 0, .null, false, false⟩, height_chain := fullContext_chain }
  tipHash := .ofNat 1
  view :=
    { coins := Function.update (fun _ => none) ⟨.ofNat 3, 0⟩ (some ⟨⟨10, [op1]⟩, false, 1, false⟩)
      bestBlock := .ofNat 1
      mweb := hogExContext.view.mweb }
  nVersion := 0x20000000
  nAdjustedTime := 1
  nextWorkRequired := fun _ => 0x207fffff
  checkpointHeight := none
  blockMaxWeight := maxBlockWeight - 4000

def bulkyPayload (hash : Uint256) : CAuxPow :=
  let coinbase := { (samplePayload hash).coinbaseTx with vout := [⟨0, List.replicate 2500 0⟩] }
  { samplePayload hash with
    coinbaseTx := coinbase
    parentBlock := { (samplePayload hash).parentBlock with
      hashMerkleRoot := merkleNode fullNode.hash256
        (fullNode.hash256 coinbase.serializeNoWitness) (.ofNat 6) } }

/-- **Lost work.**  One transaction with a large witness fills a template up to the default limit, and
the template is valid.  A payload of fewer than 4000 bytes commits to its hash and carries its work, and
yet the submission is rejected for its weight. -/
theorem full_template_loses_work : ∃ block,
    createNewBlock fullNode samplePedersen fullContext [op1] [bulkyPackage] = some block ∧
      fullNode.params.auxpow.isEnabled fullContext.nHeight = true ∧
      ((bulkyPayload (fullNode.blockHash block)).serialize CTransaction.serialize).length ≤ 4000 ∧
      CAuxPow.check fullNode.hash256 fullNode.blake3 fullNode.params.auxpow
        (bulkyPayload (fullNode.blockHash block)) (fullNode.blockHash block)
        block.header.getChainId = true ∧
      checkProofOfWork fullNode.params.powLimit (fullNode.scrypt
        (bulkyPayload (fullNode.blockHash block)).parentBlock.serializePure) block.header.nBits = true ∧
      fullNode.blockHash (submittedBlock block (bulkyPayload (fullNode.blockHash block))) =
        fullNode.blockHash block ∧
      fullNode.checkBlock (submittedBlock block (bulkyPayload (fullNode.blockHash block))) = .ok () ∧
      contextualCheckBlock fullNode.hash256 fullNode.blake3 fullNode.verifier fullNode.crypto
        fullNode.params fullContext.tip.prev
        (submittedBlock block (bulkyPayload (fullNode.blockHash block))) =
          rejectConsensus "bad-blk-weight" "ContextualCheckBlock : weight limit failed" := by
  -- everything but the weight can be evaluated: nothing else reads the witness to its end
  have htemplate : (assembleBlock fullNode samplePedersen fullContext [op1] [bulkyPackage]).any
      (fun block => decide (
        contextualCheckBlockHeader fullNode.params (fullContext.headerContext block.header)
          fullContext.tip.prev block.header = .ok () ∧
        checkBlock fullNode.hash256 fullNode.blake3 fullNode.checks fullNode.params block false false =
          .ok () ∧
        (block.vtx.any fun tx => !isFinalTx tx (fullContext.tip.prev.nHeight + 1)
          (lockTimeCutoff fullNode.params fullContext.tip.prev block)) = false ∧
        block.vtx.forM (checkBlockTx fullNode.hash256 fullNode.blake3
          "Shielded pool transaction check failed" (checkShielded fullNode.hash256 fullNode.verifier
            fullNode.params (fullContext.tip.prev.nHeight + 1))) = .ok () ∧
        checkCoinbaseHeight fullNode.params (fullContext.tip.prev.nHeight + 1) block = .ok () ∧
        checkWitnessCommitment fullNode.hash256 fullNode.blake3 fullNode.params
          (fullContext.tip.prev.nHeight + 1) block = .ok true ∧
        Mweb.contextualCheckBlock fullNode.hash256 fullNode.blake3 fullNode.crypto
          fullContext.tip.prev block = .ok () ∧
        (connectBlock fullNode fullContext.tip true block (newViewCache fullContext.view)).isOk = true ∧
        block.vtx.length = 2 ∧
        (block.vtx.head?.any fun coinbase => decide (coinbase.serializeNoWitness.length * 3 +
          coinbase.serialize.length ≤ 1000)) = true ∧
        (block.header.auxpow.any fun a => decide (payloadWeight a ≤ 900)) = true ∧
        ((bulkyPayload (fullNode.blockHash block)).serialize CTransaction.serialize).length ≤ 4000 ∧
        10000 ≤ payloadWeight (bulkyPayload (fullNode.blockHash block)) ∧
        CAuxPow.check fullNode.hash256 fullNode.blake3 fullNode.params.auxpow
          (bulkyPayload (fullNode.blockHash block)) (fullNode.blockHash block)
          block.header.getChainId = true ∧
        checkProofOfWork fullNode.params.powLimit .null block.header.nBits = true ∧
        fullNode.checkBlock (submittedBlock block (bulkyPayload (fullNode.blockHash block))) =
          .ok ())) = true := by decide +kernel
  obtain ⟨hsome, hfacts⟩ := (Option.any_eq_true_iff_get _ _).mp htemplate
  have hassemble := (Option.some_get hsome).symm
  generalize (assembleBlock fullNode samplePedersen fullContext [op1] [bulkyPackage]).get hsome = block
    at hfacts hassemble
  obtain ⟨hheader, hchecked, hfinal, hshielded, hheight, hfound, hmweb, hconnect, hlength, hcoinbase,
    hplaceholder, hsize, hpayload, hcheck, hwork, hsubmitted⟩ := of_decide_eq_true hfacts
  obtain ⟨st, hst, hfinish⟩ := assembleBlock_eq_some.mp hassemble
  obtain ⟨coinbase, hogEx, -, hhogEx, hvtx, hmade⟩ := finishBlock_vtx hfinish
  obtain rfl := hhogEx rfl
  obtain ⟨hannounced, a, ha⟩ := templateHeader_auxpow
    (show fullNode.params.auxpow.isEnabled fullContext.nHeight = true from rfl) block.vtx block.mwebBlock
  rw [← hmade] at hannounced ha
  -- the transactions are the coinbase and the one with the large witness
  have hbody : block.vtx = [coinbase, bulkyTx 3991000] := by
    have hassembled : Assembled [bulkyTx 3991000] st := by
      refine assembled_of_addPackageTxs ?_ hst
      intro p hp e he
      rw [List.mem_singleton.mp hp] at he
      rw [List.mem_singleton.mp he]
      exact List.mem_singleton_self _
    rw [List.append_nil] at hvtx
    rw [hvtx] at hlength ⊢
    match hselected : st.vtx, hlength with
    | [tx], _ =>
      obtain ⟨t, ht, rfl⟩ := hassembled.vtx_mem tx (hselected ▸ List.mem_singleton_self _)
      rw [List.mem_singleton.mp ht]
      rfl
  have hcoinbase : coinbase.serializeNoWitness.length * 3 + coinbase.serialize.length ≤ 1000 := by
    rw [hbody] at hcoinbase
    exact of_decide_eq_true hcoinbase
  have hplaceholder : payloadWeight a ≤ 900 := by
    rw [ha] at hplaceholder
    exact of_decide_eq_true hplaceholder
  have hweight : 3991336 ≤ bodyWeight block.vtx ∧ bodyWeight block.vtx ≤ 3992400 := by
    have hbare := bulkyTx_serializeNoWitness_length 3991000
    have hlong : (bulkyTx 3991000).serialize.length = 3991000 + 90 :=
      bulkyTx_serialize_length (by decide) (by decide)
    rw [hbody]
    simp only [bodyWeight, vector, List.flatMap_cons, List.flatMap_nil, List.append_nil,
      List.length_append, List.length_cons, List.length_nil, compactSize_length, witnessScaleFactor,
      hbare, hlong]
    split
    · omega
    · omega
  have hcontext : contextualCheckBlock fullNode.hash256 fullNode.blake3 fullNode.verifier
      fullNode.crypto fullNode.params fullContext.tip.prev block = .ok () := by
    refine contextualCheckBlock_of_parts hfinal hshielded hheight hfound ?_ ?_ hmweb
    · rw [CBlockHeader.payloadMissing, ha]
      exact Bool.and_false _
    · rw [getBlockWeight_of_auxpow hannounced ha]
      show 80 * 4 + payloadWeight a + bodyWeight block.vtx ≤ 4000000
      omega
  have hvalid : testBlockValidity fullNode fullContext block false false = .ok () := by
    obtain ⟨connected, hconnect⟩ := Checked.exists_of_isOk hconnect
    unfold testBlockValidity
    rw [hheader, hchecked, hcontext, hconnect]
    rfl
  have hvariant := submittedBlock_variant hannounced (bulkyPayload (fullNode.blockHash block))
  refine ⟨block, createNewBlock_eq_some.mpr ⟨hassemble, hvalid⟩, rfl, hsize, hcheck, hwork,
    hvariant.blockHash_eq, hsubmitted, ?_⟩
  rw [contextualCheckBlock_payload hvariant hcontext, payloadMissing_of_checkBlock hsubmitted,
    if_neg Bool.false_ne_true]
  apply if_pos
  have hannounced' : (submittedBlock block (bulkyPayload (fullNode.blockHash block))).header.isAuxpow =
      true := by
    rw [hvariant.pure_eq]
    exact hannounced
  rw [getBlockWeight_of_auxpow hannounced' rfl]
  show 4000000 < 80 * 4 + payloadWeight (bulkyPayload (fullNode.blockHash block)) + bodyWeight block.vtx
  omega

end Mining
