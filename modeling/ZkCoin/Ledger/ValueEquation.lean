import ZkCoin.Consensus.WitnessVariants
import ZkCoin.Ledger.TxInputs
import ZkCoin.Mweb.HogExAmounts

/-!
# When a transaction pays

`CheckTxInputs` as an equation: with the shielded pool active a transaction is accepted exactly when
its inputs are there and mature, its markers are valid, every sum is one of money, and

    value in + shielded spend = value out + shielded mint + txfee - extension-block fee

with a fee that is not negative without the extension-block fee either.

* `PaysFee`                the conditions, in the terms of the transaction and the views;
* `checkInputCoins_iff`    the loop over the inputs;
* `transparentFee_iff`     the sums after it;
* `checkMwebTx_iff`        the extension-block part;
* `value_equation`         the whole check, in both directions.
-/

open Bytes Utxo Checked

namespace Consensus

/-! ## the terms of the equation -/

def inputValue (view : View) (txin : CTxIn) : Int := (accessCoin view txin.prevout).out.nValue

def valueIn (view : View) (vin : List CTxIn) : Int := (vin.map (inputValue view)).sum

def valueOut (vout : List CTxOut) : Int := (vout.map CTxOut.nValue).sum

/-- the fee of the kernels, nothing without an extension-block part -/
def mwebFee (tx : CTransaction) : Int := (tx.mwebTx.bind fun mwebTx => mwebTx.body.getTotalFee).getD 0

/-- the coin of an input is there, worth an amount of money, and mature -/
structure SpendableInput (nSpendHeight : Int) (view : View) (txin : CTxIn) : Prop where
  present : haveCoin view txin.prevout = true
  range : moneyRange (inputValue view txin) = true
  coinbase_mature : (accessCoin view txin.prevout).fCoinBase = true →
    coinbaseMaturity ≤ nSpendHeight - (accessCoin view txin.prevout).nHeight
  pegout_mature : (accessCoin view txin.prevout).fPegout = true →
    pegoutMaturity ≤ nSpendHeight - (accessCoin view txin.prevout).nHeight

/-- an extension-block input spends an output that is there, not frozen, and the one it says -/
def MatchesOutput (params : Params) (mwebCoin : Uint256 → Option Mw.Output) (input : Mw.Input) :
    Prop :=
  ∃ utxo, mwebCoin input.outputId = some utxo ∧
    params.frozenMwebOutputIds.contains input.outputId = false ∧
    utxo.receiverPubKey = input.outputPubKey ∧ utxo.commitment = input.commitment

/-- the conditions under which a transaction pays the fee `txfee` -/
structure PaysFee (params : Params) (hash256 : Bytes → Uint256) (verifier : Shielded.Verifier)
    (tx : CTransaction) (view : View) (mwebCoin : Uint256 → Option Mw.Output) (nSpendHeight : Int)
    (txfee : Int) : Prop where
  inputs : ∀ txin ∈ tx.vin, SpendableInput nSpendHeight view txin
  markers : Shielded.checkTransaction hash256 verifier tx true
    params.shieldedPool.fAllowScaffoldProofs = .ok (Shielded.txMarkers tx)
  outputs : Mweb.getValueOut tx = some (valueOut tx.vout)
  mweb_inputs : ∀ mwebTx ∈ tx.mwebTx, ∀ input ∈ mwebTx.body.inputs,
    MatchesOutput params mwebCoin input
  mweb_fee : ∀ mwebTx ∈ tx.mwebTx, mwebTx.body.getTotalFee = some (mwebFee tx)
  in_range : moneyRange (valueIn view tx.vin) = true
  spend_range : moneyRange (valueIn view tx.vin + Shielded.spentValue (Shielded.txMarkers tx)) = true
  mint_range : moneyRange (valueOut tx.vout + Shielded.mintedValue (Shielded.txMarkers tx)) = true
  transparent_range : moneyRange (txfee - mwebFee tx) = true
  fee_range : moneyRange txfee = true
  equation : valueIn view tx.vin + Shielded.spentValue (Shielded.txMarkers tx) =
    valueOut tx.vout + Shielded.mintedValue (Shielded.txMarkers tx) + txfee - mwebFee tx

section
variable {params : Params} {hash256 : Bytes → Uint256} {verifier : Shielded.Verifier}
  {view : View} {mwebCoin : Uint256 → Option Mw.Output} {tx : CTransaction} {nSpendHeight : Int}

/-! ## the inputs -/

theorem addAmount_of_moneyRange {a b : Int} (ha : moneyRange a = true) (hb : moneyRange b = true) :
    addAmount a b = .ok (a + b) :=
  addAmount_of_range (moneyRange_bounds ha) (moneyRange_bounds hb)

theorem checkInputCoin_iff {nValueIn total : Int} (hvalue : moneyRange nValueIn = true) {txin : CTxIn} :
    checkInputCoin nSpendHeight view nValueIn txin = .ok total ↔
      SpendableInput nSpendHeight view txin ∧ total = nValueIn + inputValue view txin ∧
        moneyRange total = true := by
  constructor
  · intro h
    unfold checkInputCoin at h
    obtain ⟨hspent, h⟩ := ite_error_eq_ok.mp h
    obtain ⟨hcoinbase, h⟩ := ite_error_eq_ok.mp h
    obtain ⟨hpegout, h⟩ := ite_error_eq_ok.mp h
    obtain ⟨sum, hsum, h⟩ := bind_eq_ok.mp h
    obtain ⟨hrange, h⟩ := ite_error_eq_ok.mp h
    obtain ⟨-, rfl⟩ := addAmount_eq_ok.mp hsum
    obtain rfl := Except.ok.inj h
    simp only [Bool.or_eq_true, Bool.not_eq_true', not_or, Bool.not_eq_false, Bool.and_eq_true,
      decide_eq_true_eq, not_and, not_lt] at hcoinbase hpegout hrange
    refine ⟨⟨?_, hrange.1, hcoinbase, hpegout⟩, rfl, hrange.2⟩
    cases hcoin : view txin.prevout with
    | none =>
      -- the cleared coin counts as spent
      rw [accessCoin, hcoin] at hspent
      exact absurd rfl hspent
    | some coin => simp [haveCoin, hcoin]
  · rintro ⟨hinput, htotal, hrange⟩
    have hnotSpent : ¬ (accessCoin view txin.prevout).isSpent = true := by
      intro hspent
      have hvalue := hinput.range
      rw [inputValue, show (accessCoin view txin.prevout).out.nValue = -1 by
        simpa [Coin.isSpent, CTxOut.isNull] using hspent] at hvalue
      cases hvalue
    have hcoinbase : ¬ ((accessCoin view txin.prevout).fCoinBase &&
        decide (nSpendHeight - (accessCoin view txin.prevout).nHeight < coinbaseMaturity)) = true := by
      simpa using hinput.coinbase_mature
    have hpegout : ¬ ((accessCoin view txin.prevout).fPegout &&
        decide (nSpendHeight - (accessCoin view txin.prevout).nHeight < pegoutMaturity)) = true := by
      simpa using hinput.pegout_mature
    unfold checkInputCoin
    refine ite_error_eq_ok.mpr ⟨hnotSpent, ite_error_eq_ok.mpr ⟨hcoinbase, ite_error_eq_ok.mpr
      ⟨hpegout, bind_eq_ok.mpr ⟨_, addAmount_of_moneyRange hvalue hinput.range, ?_⟩⟩⟩⟩
    refine ite_error_eq_ok.mpr ⟨?_, by rw [htotal]; rfl⟩
    have hrange' : moneyRange (nValueIn + (accessCoin view txin.prevout).out.nValue) = true := by
      rw [htotal] at hrange
      exact hrange
    rw [hrange', show moneyRange (accessCoin view txin.prevout).out.nValue = true from hinput.range]
    exact Bool.false_ne_true

theorem valueIn_nonneg {vin : List CTxIn}
    (h : ∀ txin ∈ vin, SpendableInput nSpendHeight view txin) : 0 ≤ valueIn view vin := by
  apply List.sum_nonneg
  intro v hv
  obtain ⟨txin, hmem, rfl⟩ := List.mem_map.mp hv
  exact (Mw.moneyRange_iff.mp (h txin hmem).range).1

/-- **The loop over the inputs.**  It ends well when each input can be spent and the whole sum is in
range; the sums on the way then are as well. -/
theorem checkInputCoins_iff {vin : List CTxIn} {nValueIn total : Int}
    (hvalue : moneyRange nValueIn = true) :
    vin.foldlM (checkInputCoin nSpendHeight view) nValueIn = .ok total ↔
      (∀ txin ∈ vin, SpendableInput nSpendHeight view txin) ∧
        total = nValueIn + valueIn view vin ∧ moneyRange total = true := by
  induction vin generalizing nValueIn with
  | nil =>
    constructor
    · intro h
      obtain rfl := Except.ok.inj h
      exact ⟨nofun, (Int.add_zero nValueIn).symm, hvalue⟩
    · intro ⟨_, htotal, _⟩
      rw [htotal]
      exact congrArg Except.ok (Int.add_zero nValueIn).symm
  | cons txin vin ih =>
    have hcons : valueIn view (txin :: vin) = inputValue view txin + valueIn view vin := rfl
    rw [List.foldlM_cons, hcons]
    constructor
    · intro h
      obtain ⟨sum, hstep, h⟩ := bind_eq_ok.mp h
      obtain ⟨hinput, rfl, hsum⟩ := (checkInputCoin_iff hvalue).mp hstep
      obtain ⟨hrest, rfl, htotal⟩ := (ih hsum).mp h
      refine ⟨?_, by omega, htotal⟩
      intro x hx
      rcases List.mem_cons.mp hx with rfl | hx
      · exact hinput
      · exact hrest x hx
    · intro ⟨hall, htotal, hrange⟩
      have hinput := hall txin List.mem_cons_self
      have hrest : ∀ x ∈ vin, SpendableInput nSpendHeight view x :=
        fun x hx => hall x (List.mem_cons_of_mem txin hx)
      -- the inputs that are still to come only add to the sum
      have hsum : moneyRange (nValueIn + inputValue view txin) = true := by
        have hlater := valueIn_nonneg hrest
        have hnow := Mw.moneyRange_iff.mp hinput.range
        have hstart := Mw.moneyRange_iff.mp hvalue
        have hend := Mw.moneyRange_iff.mp hrange
        exact Mw.moneyRange_iff.mpr (by omega)
      refine bind_eq_ok.mpr ⟨_, (checkInputCoin_iff hvalue).mpr ⟨hinput, rfl, hsum⟩, ?_⟩
      exact (ih hsum).mpr ⟨hrest, by omega, hrange⟩

/-! ## the sums -/

theorem adjustValues_iff {nValueIn vOut minted spent : Int} {r : Int × Int}
    (hin : moneyRange nValueIn = true) (hout : moneyRange vOut = true)
    (hminted : moneyRange minted = true) (hspent : moneyRange spent = true)
    (hone : minted = 0 ∨ spent = 0) :
    adjustValues nValueIn vOut (minted - spent) = .ok r ↔
      moneyRange (nValueIn + spent) = true ∧ moneyRange (vOut + minted) = true ∧
        r = (nValueIn + spent, vOut + minted) := by
  obtain ⟨hminted0, -⟩ := Mw.moneyRange_iff.mp hminted
  obtain ⟨hspent0, -⟩ := Mw.moneyRange_iff.mp hspent
  unfold adjustValues
  by_cases hmint : 0 < minted
  · obtain rfl : spent = 0 := by omega
    rw [if_pos (show minted - 0 > 0 by omega), Int.sub_zero, Int.add_zero,
      addAmount_of_moneyRange hout hminted, and_iff_right hin]
    refine ite_error_eq_ok.trans ?_
    rw [Bool.not_eq_true', Bool.not_eq_false, Except.ok.injEq, eq_comm (a := r)]
  · obtain rfl : minted = 0 := by omega
    rw [if_neg (show ¬ 0 - spent > 0 by omega), Int.add_zero, and_iff_right hout]
    by_cases hspend : 0 < spent
    · rw [if_pos (show 0 - spent < 0 by omega), show -(0 - spent) = spent by omega,
        addAmount_of_moneyRange hin hspent]
      refine ite_error_eq_ok.trans ?_
      rw [Bool.not_eq_true', Bool.not_eq_false, Except.ok.injEq, eq_comm (a := r)]
    · obtain rfl : spent = 0 := by omega
      rw [if_neg (by decide), Int.add_zero, and_iff_right hin, Except.ok.injEq, eq_comm (a := r)]

theorem transparentFee_iff {nValueIn vOut minted spent fee : Int} (hin : moneyRange nValueIn = true)
    (hout : moneyRange vOut = true) (hminted : moneyRange minted = true)
    (hspent : moneyRange spent = true) (hone : minted = 0 ∨ spent = 0) :
    transparentFee nValueIn vOut (minted - spent) = .ok fee ↔
      moneyRange (nValueIn + spent) = true ∧ moneyRange (vOut + minted) = true ∧
        moneyRange fee = true ∧ nValueIn + spent = vOut + minted + fee := by
  unfold transparentFee
  rw [bind_eq_ok]
  constructor
  · intro ⟨r, hr, h⟩
    obtain ⟨hadjIn, hadjOut, rfl⟩ := (adjustValues_iff hin hout hminted hspent hone).mp hr
    obtain ⟨-, h⟩ := ite_error_eq_ok.mp h
    obtain ⟨sum, hsum, h⟩ := bind_eq_ok.mp h
    obtain ⟨hrange, h⟩ := ite_error_eq_ok.mp h
    obtain ⟨-, rfl⟩ := addAmount_eq_ok.mp hsum
    obtain rfl := Except.ok.inj h
    refine ⟨hadjIn, hadjOut, by simpa using hrange, ?_⟩
    show nValueIn + spent = vOut + minted + (nValueIn + spent + -(vOut + minted))
    omega
  · intro ⟨hadjIn, hadjOut, hfee, heq⟩
    refine ⟨_, (adjustValues_iff hin hout hminted hspent hone).mpr ⟨hadjIn, hadjOut, rfl⟩, ?_⟩
    obtain ⟨hfee0, -⟩ := Mw.moneyRange_iff.mp hfee
    have hneg : -maxMoney ≤ -(vOut + minted) ∧ -(vOut + minted) ≤ maxMoney := by
      have := moneyRange_bounds hadjOut
      omega
    have hsum : nValueIn + spent + -(vOut + minted) = fee := by omega
    refine ite_error_eq_ok.mpr ⟨by show ¬ nValueIn + spent < vOut + minted; omega, ?_⟩
    refine bind_eq_ok.mpr ⟨fee, ?_, ite_error_eq_ok.mpr ⟨by rw [hfee]; exact Bool.false_ne_true, rfl⟩⟩
    show addAmount (nValueIn + spent) (-(vOut + minted)) = .ok fee
    rw [addAmount_of_range (moneyRange_bounds hadjIn) hneg, hsum]

/-! ## the markers -/

/-- at most one marker moves value, in one direction -/
theorem markerValues_of_checkTransaction {allow : Bool}
    (h : Shielded.checkTransaction hash256 verifier tx true allow = .ok (Shielded.txMarkers tx)) :
    moneyRange (Shielded.mintedValue (Shielded.txMarkers tx)) = true ∧
      moneyRange (Shielded.spentValue (Shielded.txMarkers tx)) = true ∧
      (Shielded.mintedValue (Shielded.txMarkers tx) = 0 ∨
        Shielded.spentValue (Shielded.txMarkers tx) = 0) := by
  obtain ⟨-, hlen, hok⟩ := Shielded.checkTransaction_ok h
  match hm : Shielded.txMarkers tx with
  | [] => exact ⟨by decide, by decide, Or.inl rfl⟩
  | [m] =>
    obtain ⟨-, -, haccepted⟩ := hok m (by rw [hm]; exact List.mem_singleton_self m)
    have hvalue : moneyRange m.nValue = true :=
      Mw.moneyRange_iff.mpr ⟨Int.le_of_lt haccepted.value_pos, haccepted.value_le⟩
    cases ha : m.action with
    | mint =>
      have hminted : Shielded.mintedValue [m] = m.nValue := by
        simp [Shielded.mintedValue, Shielded.Marker.hasCommitment, ha]
      have hspent : Shielded.spentValue [m] = 0 := by
        simp [Shielded.spentValue, Shielded.Marker.hasNullifier, ha]
      rw [hminted, hspent]
      exact ⟨hvalue, by decide, Or.inr rfl⟩
    | spend =>
      have hminted : Shielded.mintedValue [m] = 0 := by
        simp [Shielded.mintedValue, Shielded.Marker.hasCommitment, ha]
      have hspent : Shielded.spentValue [m] = m.nValue := by
        simp [Shielded.spentValue, Shielded.Marker.hasNullifier, ha]
      rw [hminted, hspent]
      exact ⟨by decide, hvalue, Or.inl rfl⟩
  | m :: m' :: ms =>
    rw [hm] at hlen
    simp at hlen

theorem shieldedDelta_iff (hactive : params.shieldedPool.isEnabled nSpendHeight = true) {delta : Int} :
    shieldedDelta params hash256 verifier nSpendHeight tx = .ok delta ↔
      Shielded.checkTransaction hash256 verifier tx true params.shieldedPool.fAllowScaffoldProofs =
          .ok (Shielded.txMarkers tx) ∧
        delta = Shielded.poolValue (Shielded.txMarkers tx) := by
  unfold shieldedDelta
  rw [if_pos hactive]
  constructor
  · intro h
    split at h
    · rename_i delta' hdelta
      obtain rfl := Except.ok.inj h
      refine ⟨?_, (Shielded.getTransactionValuePoolDelta_ok hash256 verifier hdelta).1⟩
      obtain ⟨ms, hms, -⟩ := bind_eq_ok.mp hdelta
      rw [hms, (Shielded.checkTransaction_ok hms).1]
    · cases h
  · intro ⟨hcheck, hdelta⟩
    obtain ⟨-, hlen, hok⟩ := Shielded.checkTransaction_ok hcheck
    have hrun : Shielded.getTransactionValuePoolDelta hash256 verifier tx true
        params.shieldedPool.fAllowScaffoldProofs = .ok delta := by
      refine bind_eq_ok.mpr ⟨_, hcheck, ?_⟩
      rw [hdelta]
      match hm : Shielded.txMarkers tx with
      | [] => rfl
      | [m] =>
        obtain ⟨-, -, haccepted⟩ := hok m (by rw [hm]; exact List.mem_singleton_self m)
        have hle := haccepted.value_le
        rw [List.foldlM_cons, Shielded.poolValue_singleton, Shielded.Marker.valuePoolDelta]
        refine bind_eq_ok.mpr ⟨_, ?_, rfl⟩
        unfold Shielded.addValuePoolDelta
        cases m.action with
        | mint => exact ite_error_eq_ok.mpr ⟨by omega, congrArg Except.ok (Int.zero_add _)⟩
        | spend => exact ite_error_eq_ok.mpr ⟨by omega, congrArg Except.ok (Int.zero_sub _)⟩
      | m :: m' :: ms =>
        rw [hm] at hlen
        simp at hlen
    rw [hrun]

/-! ## the extension-block part -/

theorem checkMwebInput_iff {input : Mw.Input} :
    checkMwebInput params mwebCoin input = .ok () ↔ MatchesOutput params mwebCoin input := by
  unfold checkMwebInput MatchesOutput
  cases hcoin : mwebCoin input.outputId with
  | none => exact ⟨nofun, nofun⟩
  | some utxo =>
    constructor
    · intro h
      obtain ⟨hfrozen, h⟩ := ite_error_eq_ok.mp h
      obtain ⟨hmatch, -⟩ := ite_error_eq_ok.mp h
      rw [not_or, not_not, not_not] at hmatch
      exact ⟨utxo, rfl, by simpa using hfrozen, hmatch⟩
    · intro ⟨utxo', hutxo, hfrozen, hkey, hcommitment⟩
      obtain rfl := Option.some.inj hutxo
      refine ite_error_eq_ok.mpr ⟨by rw [hfrozen]; exact Bool.false_ne_true, ?_⟩
      exact ite_error_eq_ok.mpr ⟨not_or.mpr ⟨not_not.mpr hkey, not_not.mpr hcommitment⟩, rfl⟩

theorem checkMwebTx_iff {fee total : Int} (hfee : moneyRange fee = true) :
    checkMwebTx params mwebCoin tx fee = .ok total ↔
      (∀ mwebTx ∈ tx.mwebTx, ∀ input ∈ mwebTx.body.inputs, MatchesOutput params mwebCoin input) ∧
        (∀ mwebTx ∈ tx.mwebTx, mwebTx.body.getTotalFee = some (mwebFee tx)) ∧
        total = fee + mwebFee tx ∧ moneyRange total = true := by
  unfold checkMwebTx mwebFee
  cases hmweb : tx.mwebTx with
  | none =>
    show Except.ok fee = .ok total ↔ _ ∧ _ ∧ total = fee + 0 ∧ _
    rw [Int.add_zero]
    constructor
    · intro h
      obtain rfl := Except.ok.inj h
      exact ⟨nofun, nofun, rfl, hfee⟩
    · intro ⟨_, _, htotal, _⟩
      rw [htotal]
  | some mwebTx =>
    dsimp only [Option.bind_some]
    constructor
    · intro h
      obtain ⟨hinputs, h⟩ := then_eq_ok.mp h
      cases hmwebFee : mwebTx.body.getTotalFee with
      | none =>
        rw [hmwebFee] at h
        cases h
      | some mwebFee =>
        rw [hmwebFee] at h
        obtain ⟨sum, hsum, h⟩ := bind_eq_ok.mp h
        obtain ⟨hrange, h⟩ := ite_error_eq_ok.mp h
        obtain ⟨-, rfl⟩ := addAmount_eq_ok.mp hsum
        obtain rfl := Except.ok.inj h
        simp only [Bool.or_eq_true, Bool.not_eq_true', not_or, Bool.not_eq_false] at hrange
        refine ⟨?_, ?_, rfl, hrange.2⟩
        · intro mwebTx' hmem
          obtain rfl := Option.some.inj hmem
          exact fun input hinput => checkMwebInput_iff.mp (forM_eq_ok_iff.mp hinputs input hinput)
        · intro mwebTx' hmem
          obtain rfl := Option.some.inj hmem
          exact hmwebFee
    · intro ⟨hinputs, hmwebFee, htotal, hrange⟩
      have hmwebFee := hmwebFee mwebTx rfl
      have hmwebRange : moneyRange (mwebTx.body.getTotalFee.getD 0) = true :=
        Mw.safeSum_range (by decide) hmwebFee
      refine then_eq_ok.mpr ⟨forM_eq_ok_iff.mpr fun input hinput =>
        checkMwebInput_iff.mpr (hinputs mwebTx rfl input hinput), ?_⟩
      rw [hmwebFee]
      refine bind_eq_ok.mpr ⟨_, addAmount_of_moneyRange hfee hmwebRange, ?_⟩
      rw [← htotal, hrange, hmwebRange]
      rfl

/-! ## the whole check -/

theorem getValueOut_eq {v : Int} (h : Mweb.getValueOut tx = some v) : v = valueOut tx.vout := by
  obtain ⟨hsum, -⟩ := Mweb.getValueOut_run h
  rw [hsum, Int.zero_add]
  rfl

theorem moneyRange_sum_take {vs : List Int} (hvs : ∀ v ∈ vs, 0 ≤ v) (hsum : moneyRange vs.sum = true)
    (n : Nat) : moneyRange (vs.take n).sum = true := by
  have hsplit : (vs.take n).sum + (vs.drop n).sum = vs.sum := List.sum_take_add_sum_drop vs n
  have hfront : 0 ≤ (vs.take n).sum := List.sum_nonneg fun v hv => hvs v (List.mem_of_mem_take hv)
  have hback : 0 ≤ (vs.drop n).sum := List.sum_nonneg fun v hv => hvs v (List.mem_of_mem_drop hv)
  have hrange := Mw.moneyRange_iff.mp hsum
  exact Mw.moneyRange_iff.mpr (by omega)

theorem haveInputs_of_paysFee {txfee : Int}
    (h : PaysFee params hash256 verifier tx view mwebCoin nSpendHeight txfee) :
    haveInputs view mwebCoin tx = true := by
  unfold haveInputs
  rw [Bool.or_eq_true, Bool.and_eq_true]
  refine Or.inr ⟨List.all_eq_true.mpr fun txin hmem => (h.inputs txin hmem).present, ?_⟩
  cases hmweb : tx.mwebTx with
  | none => rfl
  | some mwebTx =>
    refine List.all_eq_true.mpr fun input hmem => ?_
    obtain ⟨utxo, hutxo, -⟩ := h.mweb_inputs mwebTx hmweb input hmem
    rw [hutxo]
    rfl

theorem checkTxInputs_iff (hactive : params.shieldedPool.isEnabled nSpendHeight = true) {txfee : Int} :
    checkTxInputs params hash256 verifier tx view mwebCoin nSpendHeight = .ok txfee ↔
      PaysFee params hash256 verifier tx view mwebCoin nSpendHeight txfee := by
  constructor
  · intro h
    obtain ⟨-, h⟩ := ite_error_eq_ok.mp h
    obtain ⟨nValueIn, hin, h⟩ := bind_eq_ok.mp h
    obtain ⟨delta, hdelta, h⟩ := bind_eq_ok.mp h
    cases hout : Mweb.getValueOut tx with
    | none =>
      rw [hout] at h
      cases h
    | some v =>
      rw [hout] at h
      obtain ⟨fee, hfee, hmweb⟩ := bind_eq_ok.mp h
      obtain ⟨hinputs, rfl, hinRange⟩ := (checkInputCoins_iff (by decide)).mp hin
      obtain ⟨hmarkers, rfl⟩ := (shieldedDelta_iff hactive).mp hdelta
      obtain ⟨hminted, hspent, hone⟩ := markerValues_of_checkTransaction hmarkers
      obtain rfl := getValueOut_eq hout
      rw [Int.zero_add] at hinRange hfee
      obtain ⟨hspendRange, hmintRange, hfeeRange, heq⟩ :=
        (transparentFee_iff hinRange (getValueOut_range hout) hminted hspent hone).mp hfee
      obtain ⟨hmwebInputs, hmwebFee, rfl, htotal⟩ := (checkMwebTx_iff hfeeRange).mp hmweb
      refine ⟨hinputs, hmarkers, hout, hmwebInputs, hmwebFee, hinRange, hspendRange, hmintRange, ?_,
        htotal, by omega⟩
      rw [show fee + mwebFee tx - mwebFee tx = fee by omega]
      exact hfeeRange
  · intro h
    obtain ⟨hminted, hspent, hone⟩ := markerValues_of_checkTransaction h.markers
    refine ite_error_eq_ok.mpr ⟨by rw [haveInputs_of_paysFee h]; exact Bool.false_ne_true, ?_⟩
    refine bind_eq_ok.mpr ⟨valueIn view tx.vin, (checkInputCoins_iff (by decide)).mpr
      ⟨h.inputs, (Int.zero_add _).symm, h.in_range⟩, ?_⟩
    refine bind_eq_ok.mpr ⟨_, (shieldedDelta_iff hactive).mpr ⟨h.markers, rfl⟩, ?_⟩
    rw [h.outputs]
    refine bind_eq_ok.mpr ⟨txfee - mwebFee tx, (transparentFee_iff h.in_range
      (getValueOut_range h.outputs) hminted hspent hone).mpr ⟨h.spend_range, h.mint_range,
      h.transparent_range, by have := h.equation; omega⟩, ?_⟩
    exact (checkMwebTx_iff h.transparent_range).mpr
      ⟨h.mweb_inputs, h.mweb_fee, by omega, h.fee_range⟩

end

section
variable (params : Params) (hash256 : Bytes → Uint256) (verifier : Shielded.Verifier)
  (tx : CTransaction) (view : View) (mwebCoin : Uint256 → Option Mw.Output) (nSpendHeight : Int)

/-- a call of `CheckTxInputs`, with the caller's variable for the fee, which the last line sets -/
def callCheckTxInputs (txfee : Int) : Except TxFault Unit × Int :=
  match checkTxInputs params hash256 verifier tx view mwebCoin nSpendHeight with
  | .ok txfeeAux => (.ok (), txfeeAux)
  | .error fault => (.error fault, txfee)

/-- **The value equation.**  With the pool active, an accepted transaction obeys it with every sum in
the range of money; one that obeys it, with its transparent fee in range and its own unfrozen
extension-block outputs, is accepted; and a refused one leaves the caller's fee alone. -/
theorem value_equation (hactive : params.shieldedPool.isEnabled nSpendHeight = true) :
    (∀ txfee old, callCheckTxInputs params hash256 verifier tx view mwebCoin nSpendHeight old =
        (.ok (), txfee) →
      valueIn view tx.vin + Shielded.spentValue (Shielded.txMarkers tx) =
        valueOut tx.vout + Shielded.mintedValue (Shielded.txMarkers tx) + txfee - mwebFee tx ∧
      PaysFee params hash256 verifier tx view mwebCoin nSpendHeight txfee ∧
      (∀ n, moneyRange (valueIn view (tx.vin.take n)) = true) ∧
      (∀ n, moneyRange (valueOut (tx.vout.take n)) = true)) ∧
    (∀ fault txfee old, callCheckTxInputs params hash256 verifier tx view mwebCoin nSpendHeight old =
      (.error fault, txfee) → txfee = old) ∧
    (∀ txfee old, PaysFee params hash256 verifier tx view mwebCoin nSpendHeight txfee →
      callCheckTxInputs params hash256 verifier tx view mwebCoin nSpendHeight old =
        (.ok (), txfee)) := by
  unfold callCheckTxInputs
  refine ⟨?_, ?_, ?_⟩
  · intro txfee old h
    split at h
    · rename_i fee hok
      obtain rfl := (Prod.mk.inj h).2
      have hpays := (checkTxInputs_iff hactive).mp hok
      refine ⟨hpays.equation, hpays, fun n => ?_, fun n => ?_⟩
      · show moneyRange (List.map (inputValue view) (tx.vin.take n)).sum = true
        rw [List.map_take]
        refine moneyRange_sum_take ?_ hpays.in_range n
        intro v hv
        obtain ⟨txin, hmem, rfl⟩ := List.mem_map.mp hv
        exact (Mw.moneyRange_iff.mp (hpays.inputs txin hmem).range).1
      · show moneyRange (List.map CTxOut.nValue (tx.vout.take n)).sum = true
        rw [List.map_take]
        exact moneyRange_sum_take (Mweb.getValueOut_run hpays.outputs).2
          (getValueOut_range hpays.outputs) n
    · cases h
  · intro fault txfee old h
    split at h
    · cases h
    · exact (Prod.mk.inj h).2.symm
  · intro txfee old hpays
    rw [(checkTxInputs_iff hactive).mpr hpays]

end

/-- one coin of the given value at the outpoint that the sample transactions spend -/
def oneCoinView (value : Int) : View := fun outpoint =>
  if outpoint = ⟨.ofNat 77, 0⟩ then some ⟨⟨value, [0x51]⟩, false, 1, false⟩ else none

theorem value_equation_mint :
    ∃ txfee, callCheckTxInputs sampleNodeParams Uint256.polyHash Shielded.sampleVerifier
        (Shielded.sampleMint 0 (.ofNat 5) 10) (oneCoinView 25) (fun _ => none) 2 0 = (.ok (), txfee) ∧
      25 + 0 = 0 + 10 + txfee - 0 := by
  have hrun : callCheckTxInputs sampleNodeParams Uint256.polyHash Shielded.sampleVerifier
      (Shielded.sampleMint 0 (.ofNat 5) 10) (oneCoinView 25) (fun _ => none) 2 0 = (.ok (), 15) := by
    decide +kernel
  obtain ⟨heq, -⟩ := (value_equation sampleNodeParams Uint256.polyHash Shielded.sampleVerifier
    (Shielded.sampleMint 0 (.ofNat 5) 10) (oneCoinView 25) (fun _ => none) 2 (by decide)).1 15 0 hrun
  have hterms : valueIn (oneCoinView 25) (Shielded.sampleMint 0 (.ofNat 5) 10).vin = 25 ∧
      Shielded.spentValue (Shielded.txMarkers (Shielded.sampleMint 0 (.ofNat 5) 10)) = 0 ∧
      valueOut (Shielded.sampleMint 0 (.ofNat 5) 10).vout = 0 ∧
      Shielded.mintedValue (Shielded.txMarkers (Shielded.sampleMint 0 (.ofNat 5) 10)) = 10 ∧
      mwebFee (Shielded.sampleMint 0 (.ofNat 5) 10) = 0 := by
    decide +kernel
  obtain ⟨hin, hspent, hout, hminted, hmweb⟩ := hterms
  rw [hin, hspent, hout, hminted, hmweb] at heq
  exact ⟨15, hrun, heq⟩

/-! ## kernels do not pay for outputs -/

def feeKernel : Mw.Kernel where
  features := 0x01
  fee := some 10
  pegin := none
  pegouts := []
  lockHeight := none
  stealthExcess := none
  extraData := []
  excess := .zero 33
  signature := .zero 64
  pegin_range := Mw.varIntRange_none_64
  lockHeight_range := Mw.varIntRange_none_32

/-- an output of 15, with an extension-block part whose kernel pays 10 -/
def kernelFeeTx : CTransaction where
  vin := [⟨⟨.ofNat 77, 0⟩, [], 0xffffffff, []⟩]
  vout := [⟨15, [0x51]⟩]
  nVersion := 2
  nLockTime := 0
  mwebTx := some ⟨.zero 32, .zero 32, ⟨[], [], [feeKernel]⟩⟩
  hogEx := false

/-- an input of 10 does not pay for an output of 15, although with the fee of the kernel the equation
holds for a fee of 5 -/
theorem kernel_fee_pays_no_output :
    (valueIn (oneCoinView 10) kernelFeeTx.vin + Shielded.spentValue (Shielded.txMarkers kernelFeeTx) =
        valueOut kernelFeeTx.vout + Shielded.mintedValue (Shielded.txMarkers kernelFeeTx) + 5 -
          mwebFee kernelFeeTx ∧
      mwebFee kernelFeeTx = 10 ∧
      haveInputs (oneCoinView 10) (fun _ => none) kernelFeeTx = true ∧
      Shielded.checkTransaction Uint256.polyHash Shielded.sampleVerifier kernelFeeTx true true =
        .ok (Shielded.txMarkers kernelFeeTx) ∧
      Mweb.getValueOut kernelFeeTx = some 15 ∧ sampleNodeParams.shieldedPool.isEnabled 2 = true) ∧
    checkTxInputs sampleNodeParams Uint256.polyHash Shielded.sampleVerifier kernelFeeTx
      (oneCoinView 10) (fun _ => none) 2 = .error (.invalid ⟨.consensus, "bad-txns-in-belowout",
        "value in (0.0000001) + shielded spends < value out (0.00000015) + shielded mints"⟩) := by
  decide +kernel

end Consensus
