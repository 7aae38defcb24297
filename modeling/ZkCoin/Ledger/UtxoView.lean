import ZkCoin.Coins.Cache
import ZkCoin.Consensus.Validation
import ZkCoin.Library.TableDelta

/-!
# Transactions on a view of the coins

What a transaction does to the unspent outputs.  A `CCoinsViewCache` shows a plain table of coins
(`Coins.coinsViewCache_refines`), and here a view is that table.

* `addCoin`, `addCoins`, `spendCoins`, `updateCoins` — the calls of `UpdateCoins`.
* `txDelta`            — the coins a transaction takes and gives.
* `updateCoins_ok`     — a transaction that goes through is its delta.
-/

open Bytes TableDelta

namespace Utxo

abbrev View := COutPoint → Option Coin

def haveCoin (view : View) (outpoint : COutPoint) : Bool := (view outpoint).isSome

/-- `AccessCoin`, which shows the cleared coin where there is none -/
def accessCoin (view : View) (outpoint : COutPoint) : Coin := (view outpoint).getD Coin.empty

/-- `CCoinsViewCache::AddCoin`.  It throws when a coin is there that may not be overwritten: at once
if the cache knows that coin, else when the cache is flushed. -/
def addCoin (view : View) (outpoint : COutPoint) (coin : Coin) (possibleOverwrite : Bool) :
    Except BlockFault View :=
  if coin.isSpent then aborts
  else if Script.isUnspendable coin.out.scriptPubKey then .ok view
  else if !possibleOverwrite && haveCoin view outpoint then aborts
  else .ok (Function.update view outpoint (some coin))

def outpointOf (txid : Uint256) (i : Nat) : COutPoint := ⟨txid, UInt32.ofNat i⟩

/-- the coin of the `i`-th output of a transaction at a height -/
def outputCoin (tx : CTransaction) (nHeight : Nat) (i : Nat) (txout : CTxOut) : Coin where
  out := txout
  fCoinBase := tx.isCoinBase
  nHeight := nHeight
  -- the first output of a HogEx is the HogAddr
  fPegout := tx.isHogEx && decide (i > 0)

section
variable (hash256 blake3 : Bytes → Uint256)

/-- `AddCoins`; a coinbase may overwrite -/
def addCoins (tx : CTransaction) (nHeight : Nat) (checkForOverwrite : Bool) (view : View) :
    Except BlockFault View :=
  tx.vout.zipIdx.foldlM (fun view out =>
    let outpoint := outpointOf (tx.getHash hash256 blake3) out.2
    let overwrite := if checkForOverwrite then haveCoin view outpoint else tx.isCoinBase
    addCoin view outpoint (outputCoin tx nHeight out.2 out.1) overwrite) view

/-- the inputs of `UpdateCoins`: every coin is spent and recorded -/
def spendCoins : List CTxIn → View → Except BlockFault (List Coin × View)
  | [], view => .ok ([], view)
  | txin :: vin, view =>
    match view txin.prevout with
    | none => aborts
    | some coin => do
      let (coins, view) ← spendCoins vin (Function.update view txin.prevout none)
      .ok (coin :: coins, view)

def spendInputs (tx : CTransaction) (view : View) : Except BlockFault (List Coin × View) :=
  if tx.isCoinBase then .ok ([], view) else spendCoins tx.vin view

/-- `UpdateCoins`, with the undo data of the transaction.  Transactions of a block carry no
extension-block data, so nothing is added to the extension block's view here. -/
def updateCoins (tx : CTransaction) (nHeight : Nat) (view : View) :
    Except BlockFault (List Coin × View) := do
  let (vprevout, view) ← spendInputs tx view
  let view ← addCoins hash256 blake3 tx nHeight false view
  .ok (vprevout, view)

/-! ## a transaction as a delta -/

def prevouts (tx : CTransaction) : List COutPoint :=
  if tx.isCoinBase then [] else tx.vin.map CTxIn.prevout

def newCoins (tx : CTransaction) (nHeight : Nat) : List (COutPoint × Coin) :=
  (tx.vout.zipIdx.filter fun out => !Script.isUnspendable out.1.scriptPubKey).map fun out =>
    (outpointOf (tx.getHash hash256 blake3) out.2, outputCoin tx nHeight out.2 out.1)

def txDelta (nHeight : Nat) (tx : CTransaction) : Delta COutPoint Coin :=
  ⟨prevouts tx, newCoins hash256 blake3 tx nHeight⟩

end

section
variable {hash256 blake3 : Bytes → Uint256} {tx : CTransaction} {nHeight : Nat} {view view' : View}

theorem spendCoins_ok {vin : List CTxIn} {coins : List Coin}
    (h : spendCoins vin view = .ok (coins, view')) :
    (vin.map CTxIn.prevout).Nodup ∧ (vin.map CTxIn.prevout).map view = coins.map some ∧
      view' = removeAll (vin.map CTxIn.prevout) view := by
  induction vin generalizing view coins with
  | nil =>
    obtain ⟨rfl, rfl⟩ := Prod.mk.inj (Except.ok.inj h)
    exact ⟨List.nodup_nil, rfl, rfl⟩
  | cons txin vin ih =>
    unfold spendCoins at h
    cases hcoin : view txin.prevout with
    | none =>
      rw [hcoin] at h
      cases h
    | some coin =>
      rw [hcoin] at h
      obtain ⟨⟨rest, view₁⟩, hrest, hend⟩ := Checked.bind_eq_ok.mp h
      obtain ⟨rfl, rfl⟩ := Prod.mk.inj (Except.ok.inj hend)
      obtain ⟨hnodup, hmap, rfl⟩ := ih hrest
      -- the coin is gone by then, so the rest cannot name it again
      have hnot : txin.prevout ∉ vin.map CTxIn.prevout := by
        intro hmem
        have hnone : Function.update view txin.prevout none txin.prevout ∈ rest.map some := by
          rw [← hmap]
          exact List.mem_map_of_mem hmem
        rw [Function.update_self] at hnone
        obtain ⟨c, -, hc⟩ := List.mem_map.mp hnone
        cases hc
      refine ⟨List.nodup_cons.mpr ⟨hnot, hnodup⟩, ?_, rfl⟩
      rw [List.map_cons, List.map_cons, List.map_cons, hcoin, ← hmap]
      congr 1
      apply List.map_congr_left
      intro o ho
      rw [Function.update_of_ne]
      rintro rfl
      exact hnot ho

theorem addCoin_ok {outpoint : COutPoint} {coin : Coin} {overwrite : Bool}
    (h : addCoin view outpoint coin overwrite = .ok view') :
    coin.isSpent = false ∧
      ((Script.isUnspendable coin.out.scriptPubKey = true ∧ view' = view) ∨
        (Script.isUnspendable coin.out.scriptPubKey = false ∧
          (overwrite = false → view outpoint = none) ∧
          view' = Function.update view outpoint (some coin))) := by
  unfold addCoin at h
  obtain ⟨hspent, h⟩ := Checked.ite_error_eq_ok.mp h
  refine ⟨by simpa using hspent, ?_⟩
  cases hun : Script.isUnspendable coin.out.scriptPubKey with
  | true =>
    rw [hun, if_pos rfl] at h
    exact .inl ⟨rfl, (Except.ok.inj h).symm⟩
  | false =>
    rw [hun, if_neg Bool.false_ne_true] at h
    obtain ⟨hover, h⟩ := Checked.ite_error_eq_ok.mp h
    refine .inr ⟨rfl, ?_, (Except.ok.inj h).symm⟩
    intro hfalse
    simpa [hfalse, haveCoin] using hover

theorem addCoins_run {outs : List (CTxOut × Nat)}
    (h : outs.foldlM (fun view out => addCoin view (outpointOf (tx.getHash hash256 blake3) out.2)
      (outputCoin tx nHeight out.2 out.1) tx.isCoinBase) view = .ok view') :
    view' = addAll ((outs.filter fun out => !Script.isUnspendable out.1.scriptPubKey).map fun out =>
        (outpointOf (tx.getHash hash256 blake3) out.2, outputCoin tx nHeight out.2 out.1)) view ∧
      (tx.isCoinBase = false → ∀ out ∈ outs, Script.isUnspendable out.1.scriptPubKey = false →
        view (outpointOf (tx.getHash hash256 blake3) out.2) = none) := by
  induction outs generalizing view with
  | nil =>
    obtain rfl := Except.ok.inj h
    exact ⟨rfl, by simp⟩
  | cons out outs ih =>
    rw [List.foldlM_cons] at h
    obtain ⟨view₁, hadd, hrest⟩ := Checked.bind_eq_ok.mp h
    obtain ⟨rfl, hnone⟩ := ih hrest
    obtain ⟨-, ⟨hun, rfl⟩ | ⟨hun, hover, rfl⟩⟩ := addCoin_ok hadd
    · have hun' : Script.isUnspendable out.1.scriptPubKey = true := hun
      refine ⟨by rw [List.filter_cons_of_neg (by simp [hun'])], ?_⟩
      intro hcb x hx hspendable
      rcases List.mem_cons.mp hx with rfl | hx
      · rw [hun'] at hspendable
        cases hspendable
      · exact hnone hcb x hx hspendable
    · have hun' : Script.isUnspendable out.1.scriptPubKey = false := hun
      refine ⟨by rw [List.filter_cons_of_pos (by simp [hun'])]; rfl, ?_⟩
      intro hcb x hx hspendable
      rcases List.mem_cons.mp hx with rfl | hx
      · exact hover hcb
      · have hother := hnone hcb x hx hspendable
        by_cases heq : outpointOf (tx.getHash hash256 blake3) x.2 =
            outpointOf (tx.getHash hash256 blake3) out.2
        · rw [heq]
          exact hover hcb
        · rw [Function.update_of_ne heq] at hother
          exact hother

theorem newCoins_nodup (hlen : tx.vout.length < 2 ^ 32) :
    ((newCoins hash256 blake3 tx nHeight).map Prod.fst).Nodup := by
  rw [newCoins, List.map_map]
  have hidx : (tx.vout.zipIdx.map fun out => outpointOf (tx.getHash hash256 blake3) out.2).Nodup := by
    rw [show (tx.vout.zipIdx.map fun out => outpointOf (tx.getHash hash256 blake3) out.2) =
      (List.range' 0 tx.vout.length).map (outpointOf (tx.getHash hash256 blake3)) by
        rw [← List.zipIdx_map_snd, List.map_map]
        rfl]
    refine List.Nodup.map_on ?_ List.nodup_range'
    intro i hi j hj heq
    rw [List.mem_range'_1] at hi hj
    have hn := congrArg (fun o : COutPoint => o.n.toNat) heq
    simp only [outpointOf, UInt32.toNat_ofNat'] at hn
    omega
  exact hidx.sublist ((List.filter_sublist (l := tx.vout.zipIdx)).map _)

theorem updateCoins_ok {vprevout : List Coin} (hlen : tx.vout.length < 2 ^ 32)
    (hfresh : tx.isCoinBase = true → ∀ o ∈ (newCoins hash256 blake3 tx nHeight).map Prod.fst,
      view o = none)
    (h : updateCoins hash256 blake3 tx nHeight view = .ok (vprevout, view')) :
    (txDelta hash256 blake3 nHeight tx).Allowed view ∧
      (txDelta hash256 blake3 nHeight tx).Recorded view vprevout ∧
      view' = (txDelta hash256 blake3 nHeight tx).apply view := by
  unfold updateCoins at h
  obtain ⟨⟨coins, view₁⟩, hspend, h⟩ := Checked.bind_eq_ok.mp h
  obtain ⟨view₂, hadd, hend⟩ := Checked.bind_eq_ok.mp h
  obtain ⟨rfl, rfl⟩ := Prod.mk.inj (Except.ok.inj hend)
  have hspent : (prevouts tx).Nodup ∧ (prevouts tx).map view = coins.map some ∧
      view₁ = removeAll (prevouts tx) view := by
    unfold spendInputs at hspend
    unfold prevouts
    cases hcb : tx.isCoinBase with
    | true =>
      rw [hcb, if_pos rfl] at hspend
      obtain ⟨rfl, rfl⟩ := Prod.mk.inj (Except.ok.inj hspend)
      exact ⟨List.nodup_nil, rfl, rfl⟩
    | false =>
      rw [hcb, if_neg Bool.false_ne_true] at hspend
      exact spendCoins_ok hspend
  obtain ⟨hnodup, hrecorded, rfl⟩ := hspent
  obtain ⟨rfl, hnone⟩ := addCoins_run hadd
  refine ⟨⟨hnodup, ?_, newCoins_nodup hlen, ?_⟩, hrecorded, rfl⟩
  · intro o ho
    have hmem : view o ∈ coins.map some := by
      rw [← hrecorded]
      exact List.mem_map_of_mem ho
    obtain ⟨c, -, hc⟩ := List.mem_map.mp hmem
    exact ⟨c, hc.symm⟩
  · intro o ho
    cases hcb : tx.isCoinBase with
    | true =>
      show removeAll (prevouts tx) view o = none
      rw [prevouts, if_pos hcb]
      exact hfresh hcb o ho
    | false =>
      obtain ⟨e, he, rfl⟩ := List.mem_map.mp ho
      obtain ⟨out, hout, rfl⟩ := List.mem_map.mp he
      obtain ⟨hmem, hspendable⟩ := List.mem_filter.mp hout
      exact hnone hcb out hmem (by simpa using hspendable)

end

end Utxo
