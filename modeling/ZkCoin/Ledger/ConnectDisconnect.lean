import ZkCoin.Ledger.Conservation
import ZkCoin.Ledger.DisconnectBlock
import ZkCoin.Mweb.HogExVariants

/-!
# Connecting and disconnecting

A connected block is a run of deltas together with the coins that each of them removed; that is what
its undo data records, and disconnecting reverts the run.  On the way through the disk the coins lose
their pegout flags.

* `BlockDeltas`         — a connected block as a run of deltas.
* `MwebConnected`       — what connecting its extension block leaves.
* `disconnectBlock_eq`  — disconnecting a block on any view.
* `disconnectBlock_restores_iff` — when disconnecting gives back the view.
-/

open Bytes Serialize Utxo Checked TableDelta Compress

namespace Consensus

/-! ## a connected block as a run of deltas -/

/-- what a list of transactions did to a view, and the coins that each of them spent -/
structure BlockDeltas (n : Node) (ctx : ConnectContext) (vtx : List CTransaction) (view : View)
    (values : List (List Coin)) (view' : View) : Prop where
  allowed : AllowedAll (vtx.map (blockDelta n ctx)) view
  recorded : RecordedAll (vtx.map (blockDelta n ctx)) view values
  view_eq : view' = applyAll (vtx.map (blockDelta n ctx)) view
  undoable : ∀ vs ∈ values, ∀ coin ∈ vs, Undoable coin
  held : Every Held view'

section
variable {n : Node} {ctx : ConnectContext} {mwebCoin : Uint256 → Option Mw.Output}

theorem newCoins_held {tx : CTransaction} {nHeight : Nat} (hpos : 0 < nHeight)
    (hlt : nHeight < 2 ^ 31) : ∀ e ∈ newCoins n.hash256 n.blake3 tx nHeight, Held e.2 := by
  intro e he
  obtain ⟨out, hout, rfl⟩ := List.mem_map.mp he
  have hspendable : Script.isUnspendable out.1.scriptPubKey = false := by
    simpa using (List.mem_filter.mp hout).2
  exact ⟨hspendable, hpos, hlt⟩

theorem TxStep.undoable {tx : CTransaction} {txundo : List Coin} {st st' : ConnectState}
    (h : TxStep n ctx mwebCoin tx txundo st st') (hcb : tx.isCoinBase = false)
    (hheld : Every Held st.view) : ∀ coin ∈ txundo, Undoable coin := by
  intro coin hcoin
  obtain ⟨txfee, hfee, -⟩ := h.fee
  have hsome : some coin ∈ (blockDelta n ctx tx).removed.map st.view := by
    rw [h.recorded]
    exact List.mem_map_of_mem hcoin
  obtain ⟨o, ho, hview⟩ := List.mem_map.mp hsome
  rw [show (blockDelta n ctx tx).removed = tx.vin.map CTxIn.prevout from if_neg (by simp [hcb])] at ho
  obtain ⟨txin, htxin, rfl⟩ := List.mem_map.mp ho
  obtain ⟨coin', hcoin', hrange, -⟩ := checkTxInputs_coins hfee txin htxin
  obtain rfl := Option.some.inj (hview.symm.trans hcoin')
  exact ⟨hheld _ _ hview, hrange⟩

theorem TxRun.deltas {txs : List CTransaction} {st st' : ConnectState}
    (h : TxRun n ctx mwebCoin txs st st') (hcb : ∀ tx ∈ txs, tx.isCoinBase = false)
    (hpos : 0 < ctx.nHeight.toNat) (hlt : ctx.nHeight.toNat < 2 ^ 31) (hheld : Every Held st.view) :
    ∃ values, st'.vtxundo = st.vtxundo ++ values ∧ BlockDeltas n ctx txs st.view values st'.view := by
  induction h with
  | nil st => exact ⟨[], (List.append_nil _).symm, trivial, trivial, rfl, nofun, hheld⟩
  | @cons tx txs txundo st st₁ st' step run ih =>
    rw [List.forall_mem_cons] at hcb
    have hheld₁ : Every Held st₁.view := by
      rw [step.view_eq]
      exact hheld.apply (newCoins_held hpos hlt)
    obtain ⟨values, hvalues, hdeltas⟩ := ih hcb.2 hheld₁
    refine ⟨txundo :: values, ?_, ⟨step.allowed, ?_⟩, ⟨step.recorded, ?_⟩, ?_, ?_, hdeltas.held⟩
    · rw [hvalues, step.vtxundo_eq, List.append_assoc]
      rfl
    · rw [← step.view_eq]
      exact hdeltas.allowed
    · rw [← step.view_eq]
      exact hdeltas.recorded
    · rw [hdeltas.view_eq, step.view_eq]
      rfl
    · exact List.forall_mem_cons.mpr ⟨step.undoable hcb.1 hheld, hdeltas.undoable⟩

theorem Connected.deltas {fJustCheck : Bool} {block : CBlock} {view view' : ChainView}
    {undo : CBlockUndo} {st : ConnectState}
    (h : Connected n ctx fJustCheck block view st undo view') (hheld : Every Held view.coins)
    (hfresh : FreshOutpoints n block view.coins) (hpos : 0 < ctx.nHeight) (hlt : ctx.nHeight < 2 ^ 31) :
    BlockDeltas n ctx block.vtx view.coins ([] :: undo.vtxundo) view'.coins := by
  obtain ⟨coinbase, rest, st₁, hshape, hview, -, hundo, hrun⟩ := h.txRun
  have hlen := (checkTransaction_outputs (hshape.checked coinbase (by rw [hshape.vtx_eq]; simp))).1
  have hremoved : (blockDelta n ctx coinbase).removed = [] := if_pos hshape.isCoinBase
  have hheld₁ : Every Held st₁.view := by
    rw [hview]
    exact hheld.apply (newCoins_held (by omega) (by omega))
  obtain ⟨values, hvalues, hdeltas⟩ :=
    hrun.deltas hshape.rest_isCoinBase (by omega) (by omega) hheld₁
  rw [hundo, List.nil_append, ← h.vtxundo_eq] at hvalues
  subst hvalues
  rw [hshape.vtx_eq, h.coins_eq]
  refine ⟨⟨⟨?_, ?_, newCoins_nodup hlen, ?_⟩, ?_⟩, ⟨?_, ?_⟩, ?_, ?_, hdeltas.held⟩
  · rw [hremoved]
    exact List.nodup_nil
  · rw [hremoved]
    exact nofun
  · intro o ho
    rw [hremoved]
    obtain ⟨e, he, rfl⟩ := List.mem_map.mp ho
    obtain ⟨out, hout, rfl⟩ := List.mem_map.mp he
    have hidx := List.mem_zipIdx (List.mem_filter.mp hout).1
    exact hfresh coinbase (by rw [hshape.vtx_eq]; simp) out.2 (by omega)
  · rw [← hview]
    exact hdeltas.allowed
  · rw [Delta.Recorded, hremoved]
    rfl
  · rw [← hview]
    exact hdeltas.recorded
  · rw [hdeltas.view_eq, hview]
    rfl
  · exact List.forall_mem_cons.mpr ⟨nofun, hdeltas.undoable⟩

end

/-! ## the extension block -/

/-- a consistent extension-block view whose coins can be written -/
structure MwebHeld (blake3 : Bytes → Uint256) (mweb : Mw.View) : Prop where
  invariant : Mw.ViewInvariant blake3 mweb
  stored : ∀ id u, mweb.getUTXO id = .ok (some u) → u.Stored

structure MwebConnected (n : Node) (mweb : Mw.View) (mwundo : Option Mw.BlockUndo)
    (mweb' : Mw.View) : Prop where
  stored : ∀ undo, mwundo = some undo → undo.Stored
  held : MwebHeld n.blake3 mweb'
  undone : ∃ mweb'', undoMweb n mwundo mweb' = .ok mweb'' ∧
    (mweb.header ≠ none → Mw.SameView n.blake3 mweb mweb'')

section
variable {n : Node} {ctx : ConnectContext} {block : CBlock} {mweb mweb' : Mw.View}
  {mwundo : Option Mw.BlockUndo}

theorem undoMweb_applied {base applied : Mw.View} {cache : Mw.CacheLayer} {mwebBlock : Mw.Block}
    {allow : Bool} {undo : Mw.BlockUndo} (hheld : MwebHeld n.blake3 (.cache base cache))
    (hbody : mwebBlock.body.Stored)
    (h : cache.applyBlock n.blake3 n.crypto.kernelSums base mwebBlock allow = .ok (undo, applied)) :
    MwebConnected n (.cache base cache) (some undo) applied := by
  obtain ⟨s, hshows, hsound, hcheck⟩ := hheld.invariant
  obtain ⟨s', hshows', hcaches, hheader', hsound', hcheck', hundo, -, hfrom⟩ :=
    Mw.applyBlock_shows hshows hsound (.zero base) h
  have hstored : s.Stored := by
    intro id u hu
    refine hheld.stored id u ?_
    rw [hshows.coins_eq id, hu]
  have hleaves : s'.leaves.length < 2 ^ 64 := by
    rw [← hshows'.numLeaves_eq, ← (Mw.checkHeader_ok hcheck').2.1]
    exact mwebBlock.header.numTXOs_range
  obtain ⟨hundoStored, hstored'⟩ := hfrom.stored hstored hbody hsound' hleaves
  refine ⟨?_, ⟨⟨s', hshows', hsound', ?_⟩, ?_⟩, ?_⟩
  · intro u hu
    obtain rfl := Option.some.inj hu
    exact hundoStored
  · intro header hheader
    obtain rfl := Option.some.inj (hheader'.symm.trans (hshows'.header_eq.symm.trans hheader))
    exact hcheck'
  · intro id u hu
    refine hstored' id u ?_
    rw [hshows'.coins_eq id] at hu
    exact Except.ok.inj hu
  · cases hcaches with
    | @succ _ base' cache' _ =>
      cases hheader : s.header with
      | none =>
        have hprev : undo.prevHeader = none := hundo.prevHeader_eq.trans hheader
        have hnone : ∃ c, cache'.undoBlock n.blake3 base' undo = .ok c ∧ c.header = none :=
          Mw.undoBlock_of_no_header base' cache' hprev
        obtain ⟨c, hc, -⟩ := hnone
        refine ⟨.cache base' c, ?_, ?_⟩
        · rw [undoMweb, hc]
        · intro hsome
          exact absurd (hshows.header_eq.trans hheader) hsome
      | some header =>
        have hchecked := hcheck header (hshows.header_eq.trans hheader)
        have hnum : header.numTXOs = s.leaves.length := by
          rw [(Mw.checkHeader_ok hchecked).2.1, hshows.numLeaves_eq]
        obtain ⟨c, hc, hback⟩ := Mw.undoBlock_shows hshows' hsound hsound' hundo hheader hnum (by
          intro v hv
          rw [hv.checkHeader_congr hshows]
          exact hchecked)
        refine ⟨.cache base' c, ?_, fun _ => hshows.sameView hback⟩
        rw [undoMweb, hc]

theorem connectMweb_connected (hheld : MwebHeld n.blake3 mweb)
    (hbody : ∀ mwebBlock, block.mwebBlock = some mwebBlock → mwebBlock.body.Stored)
    (h : connectMweb n ctx block mweb = .ok (mwundo, mweb')) :
    MwebConnected n mweb mwundo mweb' := by
  unfold connectMweb at h
  cases mweb with
  | db d => cases h
  | cache base cache =>
    have h := ofBlock_eq_ok.mp h
    cases hmweb : block.mwebBlock with
    | none =>
      rw [Mweb.connectBlock, hmweb] at h
      obtain ⟨rfl, rfl⟩ := Prod.mk.inj (Except.ok.inj h)
      obtain ⟨s, hshows, -⟩ := hheld.invariant
      exact ⟨fun _ h => (by cases h), hheld, _, rfl, fun _ => hshows.sameView hshows⟩
    | some mwebBlock =>
      cases hlast : block.vtx.getLast? with
      | none =>
        rw [Mweb.connectBlock, hmweb] at h
        dsimp only at h
        rw [hlast] at h
        cases h
      | some hogEx =>
        obtain ⟨amount, ⟨undo, applied⟩, hconnected, heq⟩ :=
          Mweb.connected_of_connectBlock hmweb hlast h
        obtain ⟨rfl, rfl⟩ := Prod.mk.inj heq
        exact undoMweb_applied hheld (hbody mwebBlock hmweb) hconnected.apply_eq

end

/-! ## there and back -/

/-- what connecting a block relies on: held coins, and a consistent extension-block view -/
structure ViewHeld (blake3 : Bytes → Uint256) (view : ChainView) : Prop where
  coins : Every Held view.coins
  mweb : MwebHeld blake3 view.mweb

def MwebBlockStored (block : CBlock) : Prop :=
  ∀ mwebBlock, block.mwebBlock = some mwebBlock → mwebBlock.body.Stored

/-- the undo data of a connected block goes to disk and comes back, the block is disconnected cleanly,
and every outpoint has the coin that it had before -/
def DisconnectRestores (n : Node) (keys : KeyCodec) (nHeight : Int) (block : CBlock)
    (view : ChainView) (undo : CBlockUndo) (view' : ChainView) : Prop :=
  ∃ blockUndo rest view'',
    unserializeBlockUndo keys ((undo.serialize keys).length % 2 ^ 32) (undo.serialize keys) =
      some (blockUndo, rest) ∧
    disconnectBlock n nHeight (some blockUndo) block view' = .ok (true, view'') ∧
    ∀ o, view''.coins o = view.coins o

section
variable {n : Node} {ctx : ConnectContext} {block : CBlock} {view view' : ChainView}
  {undo : CBlockUndo} {st : ConnectState}

theorem recordedAll_lengths {vtx : List CTransaction} {t : View} {values : List (List Coin)}
    (h : RecordedAll (vtx.map (blockDelta n ctx)) t values) :
    values.map List.length = vtx.map fun tx => (prevouts tx).length := by
  induction vtx generalizing t values with
  | nil =>
    cases values with
    | nil => rfl
    | cons vs rest => cases h
  | cons tx vtx ih =>
    cases values with
    | nil => cases h
    | cons vs rest =>
      obtain ⟨hvs, hrest⟩ := h
      rw [List.map_cons, List.map_cons, ih hrest, ← hvs.length_eq]
      rfl

theorem zip_entryOk {txs : List CTransaction} {vtxundo : List (List Coin)}
    (hlen : vtxundo.map List.length = txs.map fun tx => (prevouts tx).length)
    (hcb : ∀ tx ∈ txs, tx.isCoinBase = false) (hcoins : ∀ vs ∈ vtxundo, ∀ coin ∈ vs, Undoable coin) :
    ∀ entry ∈ txs.zip (vtxundo.map some), EntryOk entry := by
  induction txs generalizing vtxundo with
  | nil => exact nofun
  | cons tx txs ih =>
    cases vtxundo with
    | nil => exact nofun
    | cons vs vtxundo =>
      rw [List.forall_mem_cons] at hcb hcoins
      rw [List.map_cons, List.map_cons, List.cons.injEq] at hlen
      rw [List.map_cons, List.zip_cons_cons, List.forall_mem_cons]
      refine ⟨⟨nofun, ?_⟩, ih hlen.2 hcb.2 hcoins.2⟩
      intro vprevout hv
      obtain rfl := Option.some.inj hv
      refine ⟨hcb.1, ?_, hcoins.1⟩
      rw [hlen.1, prevouts, if_neg (by simp [hcb.1]), List.length_map]

/-- **A block, on any view.**  The transactions are reverted; the result is clean when the view shows
what the block left. -/
theorem disconnectBlock_eq {coinbase : CTransaction} {rest : List CTransaction}
    (hshape : BlockShape block coinbase rest) {t t' : View}
    (hdeltas : BlockDeltas n ctx block.vtx t ([] :: undo.vtxundo) t') (hheight : 0 ≤ ctx.nHeight)
    (mwundo : Option Mw.BlockUndo) (u : ChainView) :
    ∃ clean, disconnectBlock n ctx.nHeight (some ⟨undo.withoutPegouts.vtxundo, mwundo⟩) block u =
        (undoMweb n mwundo u.mweb >>= fun mweb => .ok (clean,
          ⟨revertAll (block.vtx.map (blockDelta n ctx))
            (([] :: undo.vtxundo).map (List.map Coin.withoutPegout)) u.coins,
            block.header.hashPrevBlock, mweb⟩)) ∧
      (SameButPegouts u.coins t' → clean = true) := by
  have hlens := recordedAll_lengths hdeltas.recorded
  have hlen : undo.vtxundo.length + 1 = block.vtx.length := by
    have := congrArg List.length hlens
    rwa [List.length_map, List.length_map, List.length_cons] at this
  have hwithout : undo.withoutPegouts.vtxundo.length + 1 = block.vtx.length := by
    rw [CBlockUndo.withoutPegouts, List.length_map, hlen]
  have hfst : (block.vtx.zip (none :: undo.withoutPegouts.vtxundo.map some)).map Prod.fst = block.vtx :=
    List.map_fst_zip (by rw [List.length_cons, List.length_map, hwithout])
  have hsnd : (block.vtx.zip (none :: undo.withoutPegouts.vtxundo.map some)).map Prod.snd =
      none :: undo.withoutPegouts.vtxundo.map some :=
    List.map_snd_zip (by rw [List.length_cons, List.length_map, hwithout])
  have hδs : ((block.vtx.zip (none :: undo.withoutPegouts.vtxundo.map some)).map
      fun e => blockDelta n ctx e.1) = block.vtx.map (blockDelta n ctx) := by
    rw [show (fun e : CTransaction × Option (List Coin) => blockDelta n ctx e.1) =
      blockDelta n ctx ∘ Prod.fst from rfl, ← List.map_map, hfst]
  have hvalues : ((block.vtx.zip (none :: undo.withoutPegouts.vtxundo.map some)).map
      fun e => e.2.getD []) = ([] :: undo.vtxundo).map (List.map Coin.withoutPegout) := by
    rw [show (fun e : CTransaction × Option (List Coin) => e.2.getD []) =
      (fun o : Option (List Coin) => o.getD []) ∘ Prod.snd from rfl, ← List.map_map, hsnd,
      List.map_cons, List.map_map, CBlockUndo.withoutPegouts]
    simp
  have hentries : ∀ e ∈ block.vtx.zip (none :: undo.withoutPegouts.vtxundo.map some), EntryOk e := by
    rw [hshape.vtx_eq] at hlens ⊢
    rw [List.zip_cons_cons, List.forall_mem_cons]
    refine ⟨⟨fun _ => hshape.isCoinBase, fun _ h => by cases h⟩, zip_entryOk ?_ hshape.rest_isCoinBase ?_⟩
    · rw [← (List.cons.inj hlens).2, CBlockUndo.withoutPegouts, List.map_map]
      simp
    · intro vs hvs coin hcoin
      obtain ⟨vs', hvs', rfl⟩ := List.mem_map.mp hvs
      obtain ⟨coin', hcoin', rfl⟩ := List.mem_map.mp hcoin
      exact (hdeltas.undoable vs' (List.mem_cons_of_mem _ hvs') coin' hcoin').withoutPegout
  obtain ⟨clean, hrun, hclean⟩ := disconnectTransactions_ok n ctx hentries (true, u.coins)
  rw [hδs, hvalues] at hrun
  refine ⟨clean, ?_, ?_⟩
  · rw [disconnectBlock, if_neg (not_not.mpr hwithout), hrun]
    rfl
  · intro hsame
    refine hclean t _ (by rw [hδs]; exact hdeltas.allowed) (by rw [hδs]; exact hdeltas.recorded)
      hvalues hheight ?_
    rw [hδs, ← hdeltas.view_eq]
    exact hsame

theorem Connected.undo_stored (h : Connected n ctx false block view st undo view')
    (hmweb : MwebConnected n view.mweb undo.mwundo view'.mweb)
    (hdeltas : BlockDeltas n ctx block.vtx view.coins ([] :: undo.vtxundo) view'.coins) :
    undo.Stored := by
  obtain ⟨coinbase, rest, hshape⟩ := checkBlock_shape h.checked
  have hlens := recordedAll_lengths hdeltas.recorded
  have hlen : undo.vtxundo.length + 1 = block.vtx.length := by
    have := congrArg List.length hlens
    rwa [List.length_map, List.length_map, List.length_cons] at this
  have hvtx := hshape.vtx_length_le
  unfold maxBlockWeight at hvtx
  refine ⟨by unfold maxSize; omega, ?_, hmweb.stored⟩
  intro vs hvs
  refine ⟨?_, fun coin hcoin =>
    (hdeltas.undoable vs (List.mem_cons_of_mem _ hvs) coin hcoin).recordable⟩
  have hmem : vs.length ∈ block.vtx.map fun tx => (prevouts tx).length := by
    rw [← hlens]
    exact List.mem_map_of_mem (List.mem_cons_of_mem _ hvs)
  obtain ⟨tx, htx, heq⟩ := List.mem_map.mp hmem
  have hvin := (checkTransaction_sizes (hshape.checked tx htx)).1
  have hprevouts : (prevouts tx).length ≤ tx.vin.length := by
    unfold prevouts
    split
    · exact Nat.zero_le _
    · rw [List.length_map]
  unfold maxBlockWeight at hvin
  unfold maxSize
  omega

variable (keys : KeyCodec)

/-- the undo data of a connected block can be read; only a size over 4 GiB loses its second part -/
theorem Connected.readBack (h : Connected n ctx false block view st undo view')
    (hmweb : MwebConnected n view.mweb undo.mwundo view'.mweb)
    (hdeltas : BlockDeltas n ctx block.vtx view.coins ([] :: undo.vtxundo) view'.coins) :
    ∃ mwundo rest mweb'',
      unserializeBlockUndo keys ((undo.serialize keys).length % 2 ^ 32) (undo.serialize keys) =
        some (⟨undo.withoutPegouts.vtxundo, mwundo⟩, rest) ∧
      undoMweb n mwundo view'.mweb = .ok mweb'' := by
  have hnone : undo.mwundo = none → (undo.serialize keys).length % 2 ^ 32 ≤
      (txUndoBytes keys undo.vtxundo).length := by
    intro hmw
    refine (Nat.mod_le _ _).trans ?_
    rw [serialize_length, hmw]
    exact Nat.le_of_eq (Nat.add_zero _)
  have hread := unserializeBlockUndo_append (h.undo_stored hmweb hdeltas) hnone []
  rw [List.append_nil] at hread
  rw [hread]
  split
  · obtain ⟨mweb'', hundone, -⟩ := hmweb.undone
    exact ⟨undo.mwundo, [], mweb'', rfl, hundone⟩
  · exact ⟨none, _, view'.mweb, rfl, rfl⟩

theorem Connected.disconnected (h : Connected n ctx false block view st undo view')
    (hmweb : MwebConnected n view.mweb undo.mwundo view'.mweb)
    (hdeltas : BlockDeltas n ctx block.vtx view.coins ([] :: undo.vtxundo) view'.coins)
    (hheight : 0 ≤ ctx.nHeight) :
    ∃ blockUndo rest view'',
      unserializeBlockUndo keys ((undo.serialize keys).length % 2 ^ 32) (undo.serialize keys) =
        some (blockUndo, rest) ∧
      disconnectBlock n ctx.nHeight (some blockUndo) block view' = .ok (true, view'') ∧
      ∀ o, view''.coins o = if o ∈ keysAll (block.vtx.map (blockDelta n ctx)) then
        (view.coins o).map Coin.withoutPegout else view.coins o := by
  obtain ⟨coinbase, rest, hshape⟩ := checkBlock_shape h.checked
  obtain ⟨mwundo, rest, mweb'', hread, hundone⟩ := h.readBack keys hmweb hdeltas
  obtain ⟨clean, hrun, hclean⟩ := disconnectBlock_eq hshape hdeltas hheight mwundo view'
  rw [hundone, hclean fun o => rfl] at hrun
  refine ⟨_, rest, _, hread, hrun, ?_⟩
  intro o
  show revertAll _ _ view'.coins o = _
  rw [revertAll_apply hdeltas.allowed hdeltas.recorded]
  split
  · rfl
  · rename_i hnot
    rw [hdeltas.view_eq, applyAll_of_notMem hnot]

theorem spent_of_mem_keysAll (hfresh : FreshOutpoints n block view.coins) {o : COutPoint} {coin : Coin}
    (ho : o ∈ keysAll (block.vtx.map (blockDelta n ctx))) (hcoin : view.coins o = some coin) :
    ∃ tx ∈ block.vtx, o ∈ prevouts tx := by
  obtain ⟨δ, hδ, ho⟩ := List.mem_flatMap.mp ho
  obtain ⟨tx, htx, rfl⟩ := List.mem_map.mp hδ
  rcases Delta.mem_keys.mp ho with hremoved | hadded
  · exact ⟨tx, htx, hremoved⟩
  · obtain ⟨e, he, rfl⟩ := List.mem_map.mp hadded
    obtain ⟨out, hout, rfl⟩ := List.mem_map.mp he
    have hidx := List.mem_zipIdx (List.mem_filter.mp hout).1
    have hnone := hfresh tx htx out.2 (by omega)
    rw [hcoin] at hnone
    cases hnone

theorem mem_keysAll_of_spent {tx : CTransaction} (htx : tx ∈ block.vtx) {o : COutPoint}
    (ho : o ∈ prevouts tx) : o ∈ keysAll (block.vtx.map (blockDelta n ctx)) :=
  List.mem_flatMap.mpr ⟨blockDelta n ctx tx, List.mem_map_of_mem htx, Delta.mem_keys.mpr (.inl ho)⟩

theorem withoutPegout_eq_iff {coin : Coin} : coin.withoutPegout = coin ↔ coin.fPegout = false := by
  obtain ⟨out, fCoinBase, nHeight, fPegout⟩ := coin
  constructor
  · intro h
    exact (Coin.mk.inj h).2.2.2.symm
  · rintro rfl
    rfl

def SpendsNoPegout (block : CBlock) (view : View) : Prop :=
  ∀ tx ∈ block.vtx, ∀ o ∈ prevouts tx, ∀ coin, view o = some coin → coin.fPegout = false

theorem Connected.restores_iff (h : Connected n ctx false block view st undo view')
    (hview : ViewHeld n.blake3 view) (hblock : MwebBlockStored block)
    (hfresh : FreshOutpoints n block view.coins) (hpos : 0 < ctx.nHeight) (hlt : ctx.nHeight < 2 ^ 31) :
    DisconnectRestores n keys ctx.nHeight block view undo view' ↔ SpendsNoPegout block view.coins := by
  have hdeltas := h.deltas hview.coins hfresh hpos hlt
  have hmweb := connectMweb_connected hview.mweb hblock h.mweb
  obtain ⟨blockUndo, rest, view'', hread, hrun, hcoins⟩ :=
    h.disconnected keys hmweb hdeltas (by omega)
  constructor
  · rintro ⟨blockUndo₁, rest₁, view₁, hread₁, hrun₁, hsame⟩ tx htx o ho coin hcoin
    obtain ⟨rfl, -⟩ := Prod.mk.inj (Option.some.inj (hread.symm.trans hread₁))
    obtain ⟨-, rfl⟩ := Prod.mk.inj (Except.ok.inj (hrun.symm.trans hrun₁))
    have hback := (hcoins o).symm.trans (hsame o)
    rw [if_pos (mem_keysAll_of_spent htx ho), hcoin, Option.map_some, Option.some.injEq] at hback
    exact withoutPegout_eq_iff.mp hback
  · intro hnone
    refine ⟨blockUndo, rest, view'', hread, hrun, ?_⟩
    intro o
    rw [hcoins o]
    split
    · rename_i ho
      cases hcoin : view.coins o with
      | none => rfl
      | some coin =>
        obtain ⟨tx, htx, hspent⟩ := spent_of_mem_keysAll hfresh ho hcoin
        rw [Option.map_some, withoutPegout_eq_iff.mpr (hnone tx htx o hspent coin hcoin)]
    · rfl

end

/-- **Disconnecting inverts connecting** exactly when the block spends no pegout: the undo format has no
place for that flag. -/
theorem disconnectBlock_restores_iff (n : Node) (keys : KeyCodec) (ctx : ConnectContext) (block : CBlock)
    (view view' : ChainView) (undo : CBlockUndo) (hpos : 0 < ctx.nHeight) (hlt : ctx.nHeight < 2 ^ 30)
    (hgenesis : n.blockHash block ≠ n.params.hashGenesisBlock) (hview : ViewHeld n.blake3 view)
    (hblock : MwebBlockStored block) (hfresh : FreshOutpoints n block view.coins)
    (h : connectBlock n ctx false block view = .ok (undo, view')) :
    DisconnectRestores n keys ctx.nHeight block view undo view' ↔ SpendsNoPegout block view.coins := by
  obtain ⟨st, hconnected⟩ := connectBlock_ok hgenesis h
  exact hconnected.restores_iff keys hview hblock hfresh hpos (by omega)

theorem viewHeld_single {blake3 : Bytes → Uint256} {o : COutPoint} {coin : Coin} (h : Held coin)
    (bestBlock : Uint256) :
    ViewHeld blake3 ⟨Function.update (fun _ => none) o (some coin), bestBlock,
      .cache (Mw.emptyView none) (.fresh (Mw.emptyView none))⟩ := by
  refine ⟨?_, (Mw.emptyView_invariant none nofun).fresh, ?_⟩
  · have hnone : Every Held (fun _ : COutPoint => none) := nofun
    apply hnone.update
    intro c hc
    obtain rfl := Option.some.inj hc
    exact h
  · intro id u hu
    cases hu

theorem disconnectBlock_restores_mint : ∃ undo view',
    connectBlock sampleNode mintContext false mintBlock mintView = .ok (undo, view') ∧
      DisconnectRestores sampleNode Snapshot.sampleKeys 1 mintBlock mintView undo view' := by
  have hok : (connectBlock sampleNode mintContext false mintBlock mintView).isOk = true := by
    decide +kernel
  obtain ⟨⟨undo, view'⟩, hconnect⟩ := exists_of_isOk hok
  have hfresh : ∀ tx ∈ mintBlock.vtx, ∀ i < tx.vout.length, mintView.coins
      (outpointOf (tx.getHash sampleNode.hash256 sampleNode.blake3) i) = none := by decide +kernel
  have hspent : ∀ tx ∈ mintBlock.vtx, ∀ o ∈ prevouts tx,
      (mintView.coins o).all (fun coin => !coin.fPegout) = true := by decide +kernel
  refine ⟨undo, view', hconnect, ?_⟩
  refine (disconnectBlock_restores_iff sampleNode Snapshot.sampleKeys mintContext mintBlock mintView
    view' undo (by decide) (by decide) (by decide +kernel)
    (viewHeld_single ⟨by decide, by decide, by decide⟩ _) nofun hfresh hconnect).mpr ?_
  intro tx htx o ho coin hcoin
  have hall := hspent tx htx o ho
  rw [hcoin] at hall
  simpa using hall

def pegoutView : ChainView :=
  { mintView with
    coins := Function.update (fun _ => none) ⟨.ofNat 77, 0⟩ (some ⟨⟨12, [0x51]⟩, false, 1, true⟩) }

def pegoutContext : ConnectContext :=
  { mintContext with
    prev := ⟨6, 0, 0, .null, false, false⟩
    chain := List.replicate 7 (Shielded.sampleBlock [])
    height_chain := rfl }

/-- a spent pegout comes back as an ordinary coin -/
theorem disconnectBlock_loses_pegout : ViewHeld sampleNode.blake3 pegoutView ∧ ∃ undo view',
    connectBlock sampleNode pegoutContext false mintBlock pegoutView = .ok (undo, view') ∧
      ¬ DisconnectRestores sampleNode Snapshot.sampleKeys 7 mintBlock pegoutView undo view' := by
  have hheld : ViewHeld sampleNode.blake3 pegoutView :=
    viewHeld_single ⟨by decide, by decide, by decide⟩ _
  have hok : (connectBlock sampleNode pegoutContext false mintBlock pegoutView).isOk = true := by
    decide +kernel
  obtain ⟨⟨undo, view'⟩, hconnect⟩ := exists_of_isOk hok
  have hgenesis : sampleNode.blockHash mintBlock ≠ sampleNode.params.hashGenesisBlock := by
    decide +kernel
  have hfresh : ∀ tx ∈ mintBlock.vtx, ∀ i < tx.vout.length, pegoutView.coins
      (outpointOf (tx.getHash sampleNode.hash256 sampleNode.blake3) i) = none := by decide +kernel
  have hspent : ∃ tx ∈ mintBlock.vtx, ⟨.ofNat 77, 0⟩ ∈ prevouts tx := by decide +kernel
  obtain ⟨st, hconnected⟩ := connectBlock_ok hgenesis hconnect
  refine ⟨hheld, undo, view', hconnect, ?_⟩
  intro hrestores
  obtain ⟨tx, htx, ho⟩ := hspent
  have hcoin : pegoutView.coins ⟨.ofNat 77, 0⟩ = some ⟨⟨12, [0x51]⟩, false, 1, true⟩ := by
    decide +kernel
  have hnone := (hconnected.restores_iff Snapshot.sampleKeys hheld nofun hfresh (by decide)
    (by decide)).mp hrestores tx htx _ ho _ hcoin
  cases hnone

end Consensus
