import ZkCoin.Ledger.BlockUndo

/-!
# Disconnecting a block

`CChainState::DisconnectBlock` takes the outputs of a block away and puts back, from the undo data,
the coins that it spent.  The result is clean when everything was found as the block had left it.

* `applyTxInUndo`, `disconnectTx`, `disconnectBlock`.
* `Undoable`                  — the coins that can be put back.
* `disconnectTransactions_ok` — what the loop does to any view, and when it is clean.
-/

open Bytes Serialize Utxo Checked TableDelta Compress

namespace Consensus

/-- `DISCONNECT_FAILED`, or an exception or assertion that is not caught -/
inductive DisconnectFault
  | failed
  | aborted
  deriving DecidableEq

/-! ## inputs -/

def maxOutputsPerBlock : Nat := maxBlockWeight / (witnessScaleFactor * CTxOut.null.serialize.length)

/-- `AccessByTxid`: some unspent output of a transaction -/
def accessByTxid (view : View) (txid : Uint256) : Coin :=
  (((List.range maxOutputsPerBlock).map fun i => accessCoin view (outpointOf txid i)).find?
    fun coin => !coin.isSpent).getD Coin.empty

/-- an old record has no height and coinbase flag; another output of the transaction has them -/
def restoreMetadata (view : View) (out : COutPoint) (undo : Coin) : Except DisconnectFault Coin :=
  if undo.nHeight = 0 then
    let alternate := accessByTxid view out.hash
    if alternate.isSpent then .error .failed
    else .ok { undo with nHeight := alternate.nHeight, fCoinBase := alternate.fCoinBase }
  else .ok undo

/-- `ApplyTxInUndo`: whether it was clean, and the view -/
def applyTxInUndo (undo : Coin) (view : View) (out : COutPoint) :
    Except DisconnectFault (Bool × View) := do
  let fClean := !haveCoin view out
  let undo ← restoreMetadata view out undo
  match addCoin view out undo (!fClean) with
  | .ok view => .ok (fClean, view)
  | .error _ => .error .aborted

/-- the coins of a transaction's inputs, from the last to the first -/
def restoreInputs (tx : CTransaction) (vprevout : List Coin) (st : Bool × View) :
    Except DisconnectFault (Bool × View) :=
  if vprevout.length ≠ tx.vin.length then .error .failed
  else (tx.vin.zip vprevout).reverse.foldlM (fun st entry => do
    let (clean, view) ← applyTxInUndo entry.2 st.2 entry.1.prevout
    .ok (st.1 && clean, view)) st

/-! ## the loop -/

section
variable (n : Node) (nHeight : Int)

/-- an output is spent; the coin has to be the one that the block created -/
def disconnectOutput (tx : CTransaction) (st : Bool × View) (out : CTxOut × Nat) : Bool × View :=
  if Script.isUnspendable out.1.scriptPubKey then st
  else
    let outpoint := outpointOf (tx.getHash n.hash256 n.blake3) out.2
    let matched := match st.2 outpoint with
      | none => false
      | some coin => decide (out.1 = coin.out ∧ nHeight = coin.nHeight ∧ tx.isCoinBase = coin.fCoinBase)
    (st.1 && matched, Function.update st.2 outpoint none)

/-- one transaction of the block; the first one has no undo data -/
def disconnectTx (entry : CTransaction × Option (List Coin)) (st : Bool × View) :
    Except DisconnectFault (Bool × View) :=
  let st := entry.1.vout.zipIdx.foldl (disconnectOutput n nHeight entry.1) st
  match entry.2 with
  | none => .ok st
  | some vprevout => restoreInputs entry.1 vprevout st

def disconnectTransactions : List (CTransaction × Option (List Coin)) → Bool × View →
    Except DisconnectFault (Bool × View)
  | [], st => .ok st
  | entry :: entries, st => do
    let st ← disconnectTransactions entries st
    disconnectTx n nHeight entry st

/-- `UndoBlock` of the extension block under the `catch` -/
def undoMweb (mwundo : Option Mw.BlockUndo) (mweb : Mw.View) : Except DisconnectFault Mw.View :=
  match mwundo, mweb with
  | none, mweb => .ok mweb
  | some _, .db _ => .error .aborted
  | some mwundo, .cache base cache =>
    match cache.undoBlock n.blake3 base mwundo with
    | .ok cache => .ok (.cache base cache)
    | .error .assertion => .error .aborted
    | .error _ => .error .failed

/-- `DisconnectBlock` with the undo data that was read, if it was: whether the result is clean, and the
view -/
def disconnectBlock (blockUndo : Option CBlockUndo) (block : CBlock) (view : ChainView) :
    Except DisconnectFault (Bool × ChainView) :=
  match blockUndo with
  | none => .error .failed
  | some blockUndo =>
    if blockUndo.vtxundo.length + 1 ≠ block.vtx.length then .error .failed
    else do
      let (fClean, coins) ← disconnectTransactions n nHeight
        (block.vtx.zip (none :: blockUndo.vtxundo.map some)) (true, view.coins)
      let mweb ← undoMweb n blockUndo.mwundo view.mweb
      .ok (fClean, ⟨coins, block.header.hashPrevBlock, mweb⟩)

end

/-! ## coins that can be put back -/

/-- a coin that a view holds: it can be spent, and its height is there and fits its field -/
structure Held (coin : Coin) : Prop where
  spendable : Script.isUnspendable coin.out.scriptPubKey = false
  height_pos : 0 < coin.nHeight
  height_lt : coin.nHeight < 2 ^ 31

structure Undoable (coin : Coin) : Prop extends Held coin where
  value : moneyRange coin.out.nValue = true

theorem Undoable.isSpent_eq {coin : Coin} (h : Undoable coin) : coin.isSpent = false := by
  obtain ⟨hnonneg, -⟩ := Mw.moneyRange_iff.mp h.value
  rw [Coin.isSpent, CTxOut.isNull, beq_eq_false_iff_ne]
  omega

theorem Undoable.recordable {coin : Coin} (h : Undoable coin) : Recordable coin := by
  refine ⟨⟨h.value, ?_⟩, h.height_lt⟩
  have hspendable := h.spendable
  rw [Script.isUnspendable, Bool.or_eq_false_iff, decide_eq_false_iff_not] at hspendable
  exact Nat.not_lt.mp hspendable.2

theorem Undoable.withoutPegout {coin : Coin} (h : Undoable coin) : Undoable coin.withoutPegout :=
  ⟨⟨h.spendable, h.height_pos, h.height_lt⟩, h.value⟩

theorem applyTxInUndo_ok {undo : Coin} (h : Undoable undo) (view : View) (out : COutPoint) :
    applyTxInUndo undo view out =
      .ok (!haveCoin view out, Function.update view out (some undo)) := by
  have hadd : addCoin view out undo (!!haveCoin view out) =
      .ok (Function.update view out (some undo)) := by
    unfold addCoin
    rw [h.isSpent_eq, if_neg Bool.false_ne_true, h.spendable, if_neg Bool.false_ne_true]
    refine if_neg ?_
    cases haveCoin view out with
    | true => exact Bool.false_ne_true
    | false => exact Bool.false_ne_true
  unfold applyTxInUndo restoreMetadata
  rw [if_neg h.height_pos.ne']
  show (match addCoin view out undo (!!haveCoin view out) with
    | .ok view' => Except.ok (!haveCoin view out, view')
    | .error _ => .error DisconnectFault.aborted) = _
  rw [hadd]

/-! ## what the loop does -/

theorem restoreCoins_ok {entries : List (CTxIn × Coin)} (h : ∀ e ∈ entries, Undoable e.2)
    (st : Bool × View) :
    ∃ clean, entries.foldlM (fun st entry => do
        let (clean, view) ← applyTxInUndo entry.2 st.2 entry.1.prevout
        .ok (st.1 && clean, view)) st =
      .ok (clean, addAll (entries.map fun e => (e.1.prevout, e.2)) st.2) ∧
      ((entries.map fun e => e.1.prevout).Nodup → (∀ e ∈ entries, st.2 e.1.prevout = none) →
        clean = st.1) := by
  induction entries generalizing st with
  | nil => exact ⟨st.1, rfl, fun _ _ => rfl⟩
  | cons e entries ih =>
    rw [List.forall_mem_cons] at h
    obtain ⟨clean, hrun, hclean⟩ :=
      ih h.2 (st.1 && !haveCoin st.2 e.1.prevout, Function.update st.2 e.1.prevout (some e.2))
    refine ⟨clean, ?_, ?_⟩
    · rw [List.foldlM_cons, applyTxInUndo_ok h.1]
      exact hrun
    · intro hnodup hnone
      rw [List.map_cons, List.nodup_cons] at hnodup
      rw [List.forall_mem_cons] at hnone
      have hfirst : haveCoin st.2 e.1.prevout = false := by rw [haveCoin, hnone.1]; rfl
      rw [hclean hnodup.2, hfirst, Bool.not_false, Bool.and_true]
      intro e' he'
      show Function.update st.2 e.1.prevout (some e.2) e'.1.prevout = none
      rw [Function.update_of_ne]
      · exact hnone.2 e' he'
      · intro heq
        apply hnodup.1
        rw [← heq]
        exact List.mem_map_of_mem (f := fun e : CTxIn × Coin => e.1.prevout) he'

section
variable {n : Node} {nHeight : Int} {tx : CTransaction}

def spendableOutpoints (n : Node) (tx : CTransaction) (outs : List (CTxOut × Nat)) : List COutPoint :=
  (outs.filter fun out => !Script.isUnspendable out.1.scriptPubKey).map fun out =>
    outpointOf (tx.getHash n.hash256 n.blake3) out.2

/-- the view shows the coin of an output, whatever its pegout flag -/
def ShowsOutput (n : Node) (nHeight : Int) (tx : CTransaction) (view : View) (out : CTxOut × Nat) :
    Prop :=
  ∃ coin, view (outpointOf (tx.getHash n.hash256 n.blake3) out.2) = some coin ∧ out.1 = coin.out ∧
    nHeight = coin.nHeight ∧ tx.isCoinBase = coin.fCoinBase

variable (n nHeight tx) in
theorem disconnectOutputs_run (outs : List (CTxOut × Nat)) (st : Bool × View) :
    (outs.foldl (disconnectOutput n nHeight tx) st).2 = removeAll (spendableOutpoints n tx outs) st.2 ∧
      ((spendableOutpoints n tx outs).Nodup →
        (∀ out ∈ outs, Script.isUnspendable out.1.scriptPubKey = false →
          ShowsOutput n nHeight tx st.2 out) →
        (outs.foldl (disconnectOutput n nHeight tx) st).1 = st.1) := by
  induction outs generalizing st with
  | nil => exact ⟨rfl, fun _ _ => rfl⟩
  | cons out outs ih =>
    obtain ⟨hview, hclean⟩ := ih (disconnectOutput n nHeight tx st out)
    rw [List.foldl_cons]
    cases hun : Script.isUnspendable out.1.scriptPubKey with
    | true =>
      have hstep : disconnectOutput n nHeight tx st out = st := if_pos hun
      have hkeys : spendableOutpoints n tx (out :: outs) = spendableOutpoints n tx outs := by
        rw [spendableOutpoints, List.filter_cons_of_neg (by simp [hun])]
        rfl
      rw [hstep] at hview hclean ⊢
      rw [hkeys]
      exact ⟨hview, fun hnodup hshows =>
        hclean hnodup fun x hx => hshows x (List.mem_cons_of_mem _ hx)⟩
    | false =>
      have hkeys : spendableOutpoints n tx (out :: outs) =
          outpointOf (tx.getHash n.hash256 n.blake3) out.2 :: spendableOutpoints n tx outs := by
        rw [spendableOutpoints, List.filter_cons_of_pos (by simp [hun])]
        rfl
      have hstep : (disconnectOutput n nHeight tx st out).2 =
          Function.update st.2 (outpointOf (tx.getHash n.hash256 n.blake3) out.2) none := by
        rw [disconnectOutput, if_neg (by simp [hun])]
      rw [hstep] at hview hclean
      rw [hkeys]
      refine ⟨hview, ?_⟩
      intro hnodup hshows
      rw [List.nodup_cons] at hnodup
      rw [List.forall_mem_cons] at hshows
      rw [hclean hnodup.2]
      · obtain ⟨coin, hcoin, hmatch⟩ := hshows.1 hun
        rw [disconnectOutput, if_neg (by simp [hun])]
        show (st.1 && _) = _
        rw [hcoin]
        show (st.1 && decide _) = _
        rw [decide_eq_true hmatch, Bool.and_true]
      · intro x hx hspendable
        obtain ⟨coin, hcoin, hmatch⟩ := hshows.2 x hx hspendable
        refine ⟨coin, ?_, hmatch⟩
        rw [Function.update_of_ne]
        · exact hcoin
        · intro heq
          apply hnodup.1
          rw [← heq]
          refine List.mem_map_of_mem (f := fun out : CTxOut × Nat =>
            outpointOf (tx.getHash n.hash256 n.blake3) out.2) (List.mem_filter.mpr ⟨hx, ?_⟩)
          simp [hspendable]

def SameButPegouts (view view' : View) : Prop :=
  ∀ o, (view o).map Coin.withoutPegout = (view' o).map Coin.withoutPegout

variable {ctx : ConnectContext}

theorem showsOutput_of_apply {view t : View} (hsame : SameButPegouts view ((blockDelta n ctx tx).apply t))
    (hheight : 0 ≤ ctx.nHeight) (hallowed : (blockDelta n ctx tx).Allowed t) {out : CTxOut × Nat}
    (hout : out ∈ tx.vout.zipIdx) (hspendable : Script.isUnspendable out.1.scriptPubKey = false) :
    ShowsOutput n ctx.nHeight tx view out := by
  have hadded : (outpointOf (tx.getHash n.hash256 n.blake3) out.2,
      outputCoin tx ctx.nHeight.toNat out.2 out.1) ∈ (blockDelta n ctx tx).added :=
    List.mem_map.mpr ⟨out, List.mem_filter.mpr ⟨hout, by simp [hspendable]⟩, rfl⟩
  have hcoin := hsame (outpointOf (tx.getHash n.hash256 n.blake3) out.2)
  rw [Delta.apply_of_added hallowed.added_nodup hadded, Option.map_some, Option.map_eq_some_iff] at hcoin
  obtain ⟨coin, hcoin, heq⟩ := hcoin
  have hfields := Coin.mk.inj heq
  refine ⟨coin, hcoin, hfields.1.symm, ?_, hfields.2.1.symm⟩
  rw [show coin.nHeight = ctx.nHeight.toNat from hfields.2.2.1, Int.toNat_of_nonneg hheight]

/-- the coinbase has no undo data, and the others have a coin for every input -/
structure EntryOk (entry : CTransaction × Option (List Coin)) : Prop where
  first : entry.2 = none → entry.1.isCoinBase = true
  other : ∀ vprevout, entry.2 = some vprevout → entry.1.isCoinBase = false ∧
    vprevout.length = entry.1.vin.length ∧ ∀ coin ∈ vprevout, Undoable coin

/-- **One transaction.**  It is reverted on any view, and cleanly on a view that shows what it left. -/
theorem disconnectTx_ok {entry : CTransaction × Option (List Coin)} (h : EntryOk entry)
    (st : Bool × View) :
    ∃ clean, disconnectTx n ctx.nHeight entry st =
        .ok (clean, (blockDelta n ctx entry.1).revert (entry.2.getD []) st.2) ∧
      ∀ t, (blockDelta n ctx entry.1).Allowed t → 0 ≤ ctx.nHeight →
        SameButPegouts st.2 ((blockDelta n ctx entry.1).apply t) → clean = st.1 := by
  obtain ⟨tx, vprevout?⟩ := entry
  obtain ⟨hview, hclean⟩ := disconnectOutputs_run n ctx.nHeight tx tx.vout.zipIdx st
  have hkeys : spendableOutpoints n tx tx.vout.zipIdx = (blockDelta n ctx tx).added.map Prod.fst := by
    rw [spendableOutpoints, blockDelta, txDelta, newCoins, List.map_map]
    rfl
  rw [hkeys] at hview hclean
  have hshows : ∀ t, (blockDelta n ctx tx).Allowed t → 0 ≤ ctx.nHeight →
      SameButPegouts st.2 ((blockDelta n ctx tx).apply t) →
      (tx.vout.zipIdx.foldl (disconnectOutput n ctx.nHeight tx) st).1 = st.1 := by
    intro t hallowed hheight hsame
    exact hclean hallowed.added_nodup fun out hout hspendable =>
      showsOutput_of_apply hsame hheight hallowed hout hspendable
  cases vprevout? with
  | none =>
    have hcb : tx.isCoinBase = true := h.first rfl
    have hremoved : (blockDelta n ctx tx).removed = [] := if_pos hcb
    refine ⟨_, ?_, hshows⟩
    show Except.ok (tx.vout.zipIdx.foldl (disconnectOutput n ctx.nHeight tx) st) = _
    rw [Delta.revert, hremoved, ← hview]
    rfl
  | some vprevout =>
    obtain ⟨hcb, hlen, hcoins⟩ := h.other vprevout rfl
    have hremoved : (blockDelta n ctx tx).removed = tx.vin.map CTxIn.prevout :=
      if_neg (by simp [hcb])
    have hentries : ∀ e ∈ (tx.vin.zip vprevout).reverse, Undoable e.2 := by
      intro e he
      exact hcoins _ (List.of_mem_zip (List.mem_reverse.mp he)).2
    obtain ⟨clean, hrun, hrestore⟩ := restoreCoins_ok hentries
      (tx.vout.zipIdx.foldl (disconnectOutput n ctx.nHeight tx) st)
    have hzip : ((tx.vin.zip vprevout).reverse.map fun e => (e.1.prevout, e.2)) =
        ((blockDelta n ctx tx).removed.zip vprevout).reverse := by
      rw [hremoved, List.map_reverse, List.zip_map_left]
      rfl
    have hfst : ((tx.vin.zip vprevout).reverse.map fun e => e.1.prevout) =
        (blockDelta n ctx tx).removed.reverse := by
      rw [hremoved, List.map_reverse,
        show (fun e : CTxIn × Coin => e.1.prevout) = CTxIn.prevout ∘ Prod.fst from rfl,
        ← List.map_map, List.map_fst_zip (Nat.le_of_eq hlen.symm)]
    refine ⟨clean, ?_, ?_⟩
    · show restoreInputs tx vprevout _ = _
      rw [restoreInputs, if_neg (not_not.mpr hlen), hrun, hzip, hview]
      rfl
    · intro t hallowed hheight hsame
      rw [← hshows t hallowed hheight hsame]
      refine hrestore ?_ ?_
      · rw [hfst, List.nodup_reverse]
        exact hallowed.removed_nodup
      · intro e he
        have hmem : e.1.prevout ∈ (blockDelta n ctx tx).removed := by
          rw [← List.mem_reverse, ← hfst]
          exact List.mem_map_of_mem (f := fun e : CTxIn × Coin => e.1.prevout) he
        rw [hview, removeAll_apply]
        split
        · rfl
        · -- the transaction itself has removed the coin
          rename_i hnot
          have hgone := hsame e.1.prevout
          rw [Delta.apply, addAll_of_notMem hnot, removeAll_of_mem hmem, Option.map_none,
            Option.map_eq_none_iff] at hgone
          exact hgone

theorem SameButPegouts.revert {δs : List (Delta COutPoint Coin)} {t view : View}
    (hallowed : AllowedAll δs t) {values : List (List Coin)} (hrecorded : RecordedAll δs t values)
    (hsame : SameButPegouts view (applyAll δs t)) :
    SameButPegouts (revertAll δs (values.map (List.map Coin.withoutPegout)) view) t := by
  intro o
  rw [revertAll_apply hallowed hrecorded]
  split
  · rw [Option.map_map]
    rfl
  · rename_i hnot
    rw [hsame o, applyAll_of_notMem hnot]

variable (n ctx) in
/-- **The loop.**  The transactions of a block are reverted on any view, and cleanly on a view that
shows what the block left. -/
theorem disconnectTransactions_ok {entries : List (CTransaction × Option (List Coin))}
    (h : ∀ entry ∈ entries, EntryOk entry) (st : Bool × View) :
    ∃ clean, disconnectTransactions n ctx.nHeight entries st =
        .ok (clean, revertAll (entries.map fun e => blockDelta n ctx e.1)
          (entries.map fun e => e.2.getD []) st.2) ∧
      ∀ t values, AllowedAll (entries.map fun e => blockDelta n ctx e.1) t →
        RecordedAll (entries.map fun e => blockDelta n ctx e.1) t values →
        (entries.map fun e => e.2.getD []) = values.map (List.map Coin.withoutPegout) →
        0 ≤ ctx.nHeight →
        SameButPegouts st.2 (applyAll (entries.map fun e => blockDelta n ctx e.1) t) →
        clean = st.1 := by
  induction entries with
  | nil => exact ⟨st.1, rfl, fun _ _ _ _ _ _ _ => rfl⟩
  | cons entry entries ih =>
    rw [List.forall_mem_cons] at h
    obtain ⟨clean₁, hrun₁, hclean₁⟩ := ih h.2
    obtain ⟨clean, hrun, hclean⟩ := disconnectTx_ok (n := n) h.1 (clean₁,
      revertAll (entries.map fun e => blockDelta n ctx e.1) (entries.map fun e => e.2.getD []) st.2)
    refine ⟨clean, ?_, ?_⟩
    · rw [disconnectTransactions, hrun₁]
      exact hrun
    · intro t values hallowed hrecorded hvalues hheight hsame
      cases values with
      | nil => cases hrecorded
      | cons vs rest =>
        obtain ⟨-, hvalues⟩ := List.cons.inj hvalues
        rw [hclean t hallowed.1 hheight, ← hclean₁ _ rest hallowed.2 hrecorded.2 hvalues hheight hsame]
        rw [hvalues]
        exact .revert hallowed.2 hrecorded.2 hsame

end

end Consensus
