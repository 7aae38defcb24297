import ZkCoin.Consensus.CheckBlock
import ZkCoin.Ledger.UtxoView
import ZkCoin.Mw.Amounts
import ZkCoin.Shielded.Ledger

/-!
# The inputs of a transaction

`Consensus::CheckTxInputs`: the inputs are there and mature, and pay for the outputs, for what the
transaction mints into the shielded pool and for the fee.  Sums of amounts are sums of 64-bit
integers; one that leaves their range is a fault of its own.

* `addAmount`            — a sum of amounts.
* `checkTxInputs`        — the check, with the fee.
* `checkTxInputs_ok`     — inputs = outputs + what goes into the pool + fee.
* `checkTxInputs_overflow` — no sum overflows when the coins are in range.
-/

open Bytes Utxo Checked

namespace Consensus

/-! ## verdicts on transactions -/

inductive TxValidationResult
  | consensus
  | missingInputs
  | prematureSpend
  deriving DecidableEq

/-- `TxValidationState` after `Invalid` -/
structure TxInvalid where
  result : TxValidationResult
  rejectReason : String
  debugMessage : String
  deriving DecidableEq

inductive TxFault
  | invalid (state : TxInvalid)
  | aborted
  /-- a sum of amounts left the range of 64-bit integers -/
  | overflow
  deriving DecidableEq

def rejectTx {α : Type} (result : TxValidationResult) (rejectReason debugMessage : String) :
    Except TxFault α :=
  .error (.invalid ⟨result, rejectReason, debugMessage⟩)

def addAmount (a b : Int) : Except TxFault Int :=
  if Mw.int64Min ≤ a + b ∧ a + b ≤ Mw.int64Max then .ok (a + b) else .error .overflow

/-! ## texts -/

/-- the loop of `FormatMoney` over the reversed text: zeros go as long as two decimals are left -/
def trimZeros : List Char → List Char
  | '0' :: b :: c :: rest => if c.isDigit then trimZeros (b :: c :: rest) else '0' :: b :: c :: rest
  | text => text

/-- `FormatMoney` -/
def formatMoney (n : Int) : String :=
  let remainder := toString (n.natAbs % coin.natAbs)
  let padded := String.ofList (List.replicate (8 - remainder.length) '0') ++ remainder
  let text := toString (n.natAbs / coin.natAbs) ++ "." ++ padded
  (if n < 0 then "-" else "") ++ String.ofList (trimZeros text.toList.reverse).reverse

/-! ## the check -/

def coinbaseMaturity : Int := 100
def pegoutMaturity : Int := 6

/-- one input of the loop of `CheckTxInputs`; `nValueIn` is the sum so far -/
def checkInputCoin (nSpendHeight : Int) (view : View) (nValueIn : Int) (txin : CTxIn) :
    Except TxFault Int :=
  let coin := accessCoin view txin.prevout
  let depth := nSpendHeight - coin.nHeight
  if coin.isSpent then .error .aborted
  else if coin.fCoinBase && decide (depth < coinbaseMaturity) then
    rejectTx .prematureSpend "bad-txns-premature-spend-of-coinbase"
      ("tried to spend coinbase at depth " ++ toString depth)
  else if coin.fPegout && decide (depth < pegoutMaturity) then
    rejectTx .prematureSpend "bad-txns-premature-spend-of-pegout"
      ("tried to spend pegout output at depth " ++ toString depth)
  else do
    let nValueIn ← addAmount nValueIn coin.out.nValue
    if !moneyRange coin.out.nValue || !moneyRange nValueIn then
      rejectTx .consensus "bad-txns-inputvalues-outofrange" ""
    else .ok nValueIn

/-- value in and value out with the shielded part on the side that it pays for -/
def adjustValues (nValueIn valueOut shieldedDelta : Int) : Except TxFault (Int × Int) := do
  if shieldedDelta > 0 then
    let adjustedValueOut ← addAmount valueOut shieldedDelta
    if !moneyRange adjustedValueOut then rejectTx .consensus "bad-shielded-amount" ""
    else .ok (nValueIn, adjustedValueOut)
  else if shieldedDelta < 0 then
    let adjustedValueIn ← addAmount nValueIn (-shieldedDelta)
    if !moneyRange adjustedValueIn then rejectTx .consensus "bad-shielded-amount" ""
    else .ok (adjustedValueIn, valueOut)
  else .ok (nValueIn, valueOut)

/-- the fee that the transparent and the shielded part leave -/
def transparentFee (nValueIn valueOut shieldedDelta : Int) : Except TxFault Int := do
  let (adjustedValueIn, adjustedValueOut) ← adjustValues nValueIn valueOut shieldedDelta
  if adjustedValueIn < adjustedValueOut then
    rejectTx .consensus "bad-txns-in-belowout"
      ("value in (" ++ formatMoney nValueIn ++ ") + shielded spends < value out (" ++
        formatMoney valueOut ++ ") + shielded mints")
  else
    let txfee ← addAmount adjustedValueIn (-adjustedValueOut)
    if !moneyRange txfee then rejectTx .consensus "bad-txns-fee-outofrange" ""
    else .ok txfee

section
variable (params : Params)

def checkMwebInput (mwebCoin : Uint256 → Option Mw.Output) (input : Mw.Input) :
    Except TxFault Unit :=
  match mwebCoin input.outputId with
  | none => rejectTx .consensus "bad-txns-inputs-missing" "CheckTxInputs: MWEB inputs missing"
  | some utxo =>
    if params.frozenMwebOutputIds.contains input.outputId then
      rejectTx .consensus "bad-txns-frozen-mweb-output"
        ("CheckTxInputs: spends frozen MWEB output " ++ toHex input.outputId.data)
    else if utxo.receiverPubKey ≠ input.outputPubKey ∨ utxo.commitment ≠ input.commitment then
      rejectTx .consensus "bad-txns-input-mismatch"
        "CheckTxInputs: MWEB input doesn't match UTXO"
    else .ok ()

def checkMwebTx (mwebCoin : Uint256 → Option Mw.Output) (tx : CTransaction) (txfee : Int) :
    Except TxFault Int :=
  match tx.mwebTx with
  | none => .ok txfee
  | some mwebTx => do
    mwebTx.body.inputs.forM (checkMwebInput params mwebCoin)
    match mwebTx.body.getTotalFee with
    | none => rejectTx .consensus "bad-txns-mwebfee-outofrange" ""
    | some mwebFee =>
      let total ← addAmount txfee mwebFee
      if !moneyRange mwebFee || !moneyRange total then
        rejectTx .consensus "bad-txns-mwebfee-outofrange" ""
      else .ok total

/-- `CCoinsViewCache::HaveInputs` -/
def haveInputs (view : View) (mwebCoin : Uint256 → Option Mw.Output) (tx : CTransaction) : Bool :=
  tx.isCoinBase || (tx.vin.all (fun txin => haveCoin view txin.prevout) &&
    match tx.mwebTx with
    | none => true
    | some mwebTx => mwebTx.body.inputs.all fun input => (mwebCoin input.outputId).isSome)

variable (hash256 : Bytes → Uint256) (verifier : Shielded.Verifier)

/-- what a transaction moves into the shielded pool, as `CheckTxInputs` asks for it -/
def shieldedDelta (nSpendHeight : Int) (tx : CTransaction) : Except TxFault Int :=
  if params.shieldedPool.isEnabled nSpendHeight then
    match Shielded.getTransactionValuePoolDelta hash256 verifier tx true
        params.shieldedPool.fAllowScaffoldProofs with
    | .ok delta => .ok delta
    | .error reason => rejectTx .consensus reason ""
  else .ok 0

/-- `Consensus::CheckTxInputs`, with the fee -/
def checkTxInputs (tx : CTransaction) (view : View) (mwebCoin : Uint256 → Option Mw.Output)
    (nSpendHeight : Int) : Except TxFault Int :=
  if !haveInputs view mwebCoin tx then
    rejectTx .missingInputs "bad-txns-inputs-missingorspent" "CheckTxInputs: inputs missing/spent"
  else do
    let nValueIn ← tx.vin.foldlM (checkInputCoin nSpendHeight view) 0
    let delta ← shieldedDelta params hash256 verifier nSpendHeight tx
    match Mweb.getValueOut tx with
    | none => .error .aborted
    | some valueOut =>
      let txfee ← transparentFee nValueIn valueOut delta
      checkMwebTx params mwebCoin tx txfee

end

/-! ## what an accepted transaction pays -/

theorem addAmount_eq_ok {a b c : Int} : addAmount a b = .ok c ↔
    (Mw.int64Min ≤ a + b ∧ a + b ≤ Mw.int64Max) ∧ c = a + b := by
  unfold addAmount
  by_cases h : Mw.int64Min ≤ a + b ∧ a + b ≤ Mw.int64Max
  · rw [if_pos h, Except.ok.injEq]
    exact ⟨fun hc => ⟨h, hc.symm⟩, fun hc => hc.2.symm⟩
  · rw [if_neg h]
    exact ⟨nofun, fun hc => absurd hc.1 h⟩

theorem addAmount_of_range {a b : Int} (ha : -maxMoney ≤ a ∧ a ≤ maxMoney)
    (hb : -maxMoney ≤ b ∧ b ≤ maxMoney) : addAmount a b = .ok (a + b) := by
  refine addAmount_eq_ok.mpr ⟨?_, rfl⟩
  have hmax : maxMoney = 8400000000000000 := by decide
  unfold Mw.int64Min Mw.int64Max
  omega

section
variable {params : Params} {hash256 : Bytes → Uint256} {verifier : Shielded.Verifier}
  {view : View} {mwebCoin : Uint256 → Option Mw.Output} {tx : CTransaction} {nSpendHeight : Int}

variable {nValueIn : Int}

theorem checkInputCoin_ok {nValueIn' : Int} {txin : CTxIn}
    (h : checkInputCoin nSpendHeight view nValueIn txin = .ok nValueIn') :
    ∃ coin, view txin.prevout = some coin ∧ moneyRange coin.out.nValue = true ∧
      (coin.fPegout = true → pegoutMaturity ≤ nSpendHeight - coin.nHeight) ∧
      nValueIn' = nValueIn + coin.out.nValue := by
  unfold checkInputCoin at h
  obtain ⟨hspent, h⟩ := ite_error_eq_ok.mp h
  obtain ⟨-, h⟩ := ite_error_eq_ok.mp h
  obtain ⟨hpegout, h⟩ := ite_error_eq_ok.mp h
  obtain ⟨sum, hsum, h⟩ := bind_eq_ok.mp h
  obtain ⟨hrange, h⟩ := ite_error_eq_ok.mp h
  obtain ⟨-, rfl⟩ := addAmount_eq_ok.mp hsum
  cases hcoin : view txin.prevout with
  | none =>
    -- the cleared coin counts as spent
    rw [accessCoin, hcoin] at hspent
    exact absurd rfl hspent
  | some coin =>
    rw [accessCoin, hcoin] at hpegout hrange h
    simp only [Option.getD_some, Bool.or_eq_true, Bool.not_eq_true', not_or, Bool.not_eq_false,
      Bool.and_eq_true, decide_eq_true_eq, not_and, not_lt] at hpegout hrange h
    exact ⟨coin, rfl, hrange.1, hpegout, (Except.ok.inj h).symm⟩

theorem checkInputCoins_ok {vin : List CTxIn} {total : Int}
    (h : vin.foldlM (checkInputCoin nSpendHeight view) nValueIn = .ok total) :
    (∀ txin ∈ vin, ∃ coin, view txin.prevout = some coin ∧ moneyRange coin.out.nValue = true ∧
      (coin.fPegout = true → pegoutMaturity ≤ nSpendHeight - coin.nHeight)) ∧
      total = nValueIn + ((vin.map CTxIn.prevout).map fun o =>
        TableDelta.weightAt (fun coin : Coin => coin.out.nValue) (view o)).sum := by
  induction vin generalizing nValueIn with
  | nil =>
    obtain rfl := Except.ok.inj h
    exact ⟨by simp, by simp⟩
  | cons txin vin ih =>
    rw [List.foldlM_cons] at h
    obtain ⟨sum, hstep, h⟩ := bind_eq_ok.mp h
    obtain ⟨coin, hcoin, hrange, hmature, rfl⟩ := checkInputCoin_ok hstep
    obtain ⟨hrest, rfl⟩ := ih h
    refine ⟨?_, ?_⟩
    · intro x hx
      rcases List.mem_cons.mp hx with rfl | hx
      · exact ⟨coin, hcoin, hrange, hmature⟩
      · exact hrest x hx
    · rw [List.map_cons, List.map_cons, List.sum_cons, hcoin]
      show _ = nValueIn + (coin.out.nValue + _)
      omega

variable {txfee : Int}

theorem transparentFee_ok {valueOut delta : Int}
    (h : transparentFee nValueIn valueOut delta = .ok txfee) :
    nValueIn = valueOut + delta + txfee ∧ moneyRange txfee = true := by
  unfold transparentFee at h
  obtain ⟨⟨adjIn, adjOut⟩, hadj, h⟩ := bind_eq_ok.mp h
  obtain ⟨-, h⟩ := ite_error_eq_ok.mp h
  obtain ⟨fee, hfee, h⟩ := bind_eq_ok.mp h
  obtain ⟨hrange, h⟩ := ite_error_eq_ok.mp h
  obtain ⟨-, rfl⟩ := addAmount_eq_ok.mp hfee
  obtain rfl := Except.ok.inj h
  have hdiff : adjIn - adjOut = nValueIn - valueOut - delta := by
    unfold adjustValues at hadj
    split at hadj
    · obtain ⟨sum, hsum, hadj⟩ := bind_eq_ok.mp hadj
      obtain ⟨-, hadj⟩ := ite_error_eq_ok.mp hadj
      obtain ⟨-, rfl⟩ := addAmount_eq_ok.mp hsum
      obtain ⟨rfl, rfl⟩ := Prod.mk.inj (Except.ok.inj hadj)
      omega
    · split at hadj
      · obtain ⟨sum, hsum, hadj⟩ := bind_eq_ok.mp hadj
        obtain ⟨-, hadj⟩ := ite_error_eq_ok.mp hadj
        obtain ⟨-, rfl⟩ := addAmount_eq_ok.mp hsum
        obtain ⟨rfl, rfl⟩ := Prod.mk.inj (Except.ok.inj hadj)
        omega
      · obtain ⟨rfl, rfl⟩ := Prod.mk.inj (Except.ok.inj hadj)
        omega
  refine ⟨?_, by simpa using hrange⟩
  have hgoal : nValueIn = valueOut + delta + (adjIn + -adjOut) := by omega
  exact hgoal

theorem shieldedDelta_ok {delta : Int}
    (h : shieldedDelta params hash256 verifier nSpendHeight tx = .ok delta) :
    (params.shieldedPool.isEnabled nSpendHeight = true →
      delta = Shielded.poolValue (Shielded.txMarkers tx)) ∧
      (params.shieldedPool.isEnabled nSpendHeight = false → delta = 0) ∧
      -maxMoney ≤ delta ∧ delta ≤ maxMoney := by
  unfold shieldedDelta at h
  cases hen : params.shieldedPool.isEnabled nSpendHeight with
  | false =>
    rw [hen, if_neg Bool.false_ne_true] at h
    obtain rfl := Except.ok.inj h
    exact ⟨fun h => (by cases h), fun _ => rfl, by decide, by decide⟩
  | true =>
    rw [hen, if_pos rfl] at h
    split at h
    · rename_i delta' hdelta
      obtain rfl := Except.ok.inj h
      obtain ⟨heq, hrange⟩ := Shielded.getTransactionValuePoolDelta_ok hash256 verifier hdelta
      exact ⟨fun _ => heq, fun h => (by cases h), hrange⟩
    · cases h

theorem checkTxInputs_coins
    (h : checkTxInputs params hash256 verifier tx view mwebCoin nSpendHeight = .ok txfee) :
    ∀ txin ∈ tx.vin, ∃ coin, view txin.prevout = some coin ∧ moneyRange coin.out.nValue = true ∧
      (coin.fPegout = true → pegoutMaturity ≤ nSpendHeight - coin.nHeight) := by
  unfold checkTxInputs at h
  obtain ⟨-, h⟩ := ite_error_eq_ok.mp h
  obtain ⟨nValueIn, hin, -⟩ := bind_eq_ok.mp h
  exact (checkInputCoins_ok hin).1

/-- **What an accepted transaction pays.** -/
theorem checkTxInputs_ok (hmweb : tx.mwebTx = none)
    (h : checkTxInputs params hash256 verifier tx view mwebCoin nSpendHeight = .ok txfee)
    (hinactive : params.shieldedPool.isEnabled nSpendHeight = false → Shielded.txMarkers tx = []) :
    (∀ txin ∈ tx.vin, ∃ coin, view txin.prevout = some coin ∧ moneyRange coin.out.nValue = true ∧
      (coin.fPegout = true → pegoutMaturity ≤ nSpendHeight - coin.nHeight)) ∧
      moneyRange txfee = true ∧
      ∃ valueOut, Mweb.getValueOut tx = some valueOut ∧
        ((tx.vin.map CTxIn.prevout).map fun o =>
          TableDelta.weightAt (fun coin : Coin => coin.out.nValue) (view o)).sum =
          valueOut + Shielded.poolValue (Shielded.txMarkers tx) + txfee := by
  unfold checkTxInputs at h
  obtain ⟨-, h⟩ := ite_error_eq_ok.mp h
  obtain ⟨nValueIn, hin, h⟩ := bind_eq_ok.mp h
  obtain ⟨delta, hdelta, h⟩ := bind_eq_ok.mp h
  cases hout : Mweb.getValueOut tx with
  | none =>
    rw [hout] at h
    cases h
  | some valueOut =>
    rw [hout] at h
    obtain ⟨fee, hfee, h⟩ := bind_eq_ok.mp h
    rw [checkMwebTx, hmweb] at h
    obtain rfl := Except.ok.inj h
    obtain ⟨hcoins, rfl⟩ := checkInputCoins_ok hin
    obtain ⟨heq, hrange⟩ := transparentFee_ok hfee
    obtain ⟨hon, hoff, -⟩ := shieldedDelta_ok hdelta
    have hpool : delta = Shielded.poolValue (Shielded.txMarkers tx) := by
      cases hen : params.shieldedPool.isEnabled nSpendHeight with
      | true => exact hon hen
      | false =>
        rw [hinactive hen]
        exact hoff hen
    refine ⟨hcoins, hrange, valueOut, rfl, ?_⟩
    rw [Int.zero_add] at heq
    rw [← hpool]
    exact heq

/-! ## no sum overflows -/

/-- every coin of the view is worth an amount of money -/
def CoinsInRange (view : View) : Prop :=
  TableDelta.Every (fun coin : Coin => moneyRange coin.out.nValue = true) view

theorem moneyRange_bounds {v : Int} (h : moneyRange v = true) : -maxMoney ≤ v ∧ v ≤ maxMoney := by
  obtain ⟨hlow, hhigh⟩ := Mw.moneyRange_iff.mp h
  have hmax : maxMoney = 8400000000000000 := by decide
  omega

theorem checkInputCoin_overflow (hview : CoinsInRange view) (hvalue : moneyRange nValueIn = true)
    (txin : CTxIn) :
    Raises (· ≠ .overflow) (checkInputCoin nSpendHeight view nValueIn txin) ∧
      ∀ total, checkInputCoin nSpendHeight view nValueIn txin = .ok total →
        moneyRange total = true := by
  unfold checkInputCoin
  constructor
  · cases hcoin : view txin.prevout with
    | none =>
      rw [accessCoin, hcoin]
      exact raises_error.mpr nofun
    | some coin =>
      have hsum : addAmount nValueIn coin.out.nValue = .ok (nValueIn + coin.out.nValue) :=
        addAmount_of_range (moneyRange_bounds hvalue) (moneyRange_bounds (hview _ _ hcoin))
      rw [accessCoin, hcoin]
      refine raises_ite.mpr ⟨fun _ => raises_error.mpr nofun, fun _ => ?_⟩
      refine raises_ite.mpr ⟨fun _ => raises_error.mpr nofun, fun _ => ?_⟩
      refine raises_ite.mpr ⟨fun _ => raises_error.mpr nofun, fun _ => ?_⟩
      refine raises_bind.mpr ⟨?_, fun a _ => ?_⟩
      · show Raises _ (addAmount nValueIn coin.out.nValue)
        rw [hsum]
        exact raises_ok
      · exact raises_ite.mpr ⟨fun _ => raises_error.mpr nofun, fun _ => raises_ok⟩
  · intro total h
    obtain ⟨-, h⟩ := ite_error_eq_ok.mp h
    obtain ⟨-, h⟩ := ite_error_eq_ok.mp h
    obtain ⟨-, h⟩ := ite_error_eq_ok.mp h
    obtain ⟨sum, -, h⟩ := bind_eq_ok.mp h
    obtain ⟨hrange, h⟩ := ite_error_eq_ok.mp h
    obtain rfl := Except.ok.inj h
    simp only [Bool.or_eq_true, Bool.not_eq_true', not_or, Bool.not_eq_false] at hrange
    exact hrange.2

theorem transparentFee_overflow {valueOut delta : Int} (hin : moneyRange nValueIn = true)
    (hout : moneyRange valueOut = true) (hdelta : -maxMoney ≤ delta ∧ delta ≤ maxMoney) :
    Raises (· ≠ .overflow) (transparentFee nValueIn valueOut delta) := by
  have hadj : Raises (· ≠ .overflow) (adjustValues nValueIn valueOut delta) ∧
      ∀ r, adjustValues nValueIn valueOut delta = .ok r →
        moneyRange r.1 = true ∧ moneyRange r.2 = true := by
    unfold adjustValues
    rw [addAmount_of_range (moneyRange_bounds hout) hdelta,
      addAmount_of_range (moneyRange_bounds hin) (show -maxMoney ≤ -delta ∧ -delta ≤ maxMoney by omega)]
    constructor
    · refine raises_ite.mpr ⟨fun _ => ?_, fun _ => raises_ite.mpr ⟨fun _ => ?_, fun _ => raises_ok⟩⟩
      · exact raises_ite.mpr ⟨fun _ => raises_error.mpr nofun, fun _ => raises_ok⟩
      · exact raises_ite.mpr ⟨fun _ => raises_error.mpr nofun, fun _ => raises_ok⟩
    · intro r h
      split at h
      · obtain ⟨hrange, h⟩ := ite_error_eq_ok.mp h
        obtain rfl := Except.ok.inj h
        exact ⟨hin, by simpa using hrange⟩
      · split at h
        · obtain ⟨hrange, h⟩ := ite_error_eq_ok.mp h
          obtain rfl := Except.ok.inj h
          exact ⟨by simpa using hrange, hout⟩
        · obtain rfl := Except.ok.inj h
          exact ⟨hin, hout⟩
  unfold transparentFee
  refine raises_bind.mpr ⟨hadj.1, ?_⟩
  intro r hr
  obtain ⟨hrin, hrout⟩ := hadj.2 r hr
  have hneg : -maxMoney ≤ -r.2 ∧ -r.2 ≤ maxMoney := by
    have := moneyRange_bounds hrout
    omega
  refine raises_ite.mpr ⟨fun _ => raises_error.mpr nofun, fun _ => ?_⟩
  rw [addAmount_of_range (moneyRange_bounds hrin) hneg]
  exact raises_ite.mpr ⟨fun _ => raises_error.mpr nofun, fun _ => raises_ok⟩

theorem getValueOut_range {valueOut : Int} (h : Mweb.getValueOut tx = some valueOut) :
    moneyRange valueOut = true := by
  have hrun : ∀ (vs : List Int) (total : Int), moneyRange total = true →
      vs.foldlM (fun total v => do
        guard (moneyRange v && moneyRange (total + v))
        some (total + v)) total = some valueOut → moneyRange valueOut = true := by
    intro vs
    induction vs with
    | nil =>
      intro total htotal h
      obtain rfl := Option.some.inj h
      exact htotal
    | cons v vs ih =>
      intro total _ h
      simp only [List.foldlM_cons, Option.bind_eq_bind, Option.bind_eq_some_iff, guard_eq_some_iff,
        exists_const, Option.some.injEq] at h
      obtain ⟨next, ⟨hrange, rfl⟩, h⟩ := h
      exact ih _ (Bool.and_eq_true_iff.mp hrange).2 h
  exact hrun _ 0 (by decide) h

theorem checkMwebTx_overflow (hfee : moneyRange txfee = true) :
    Raises (· ≠ .overflow) (checkMwebTx params mwebCoin tx txfee) := by
  unfold checkMwebTx
  split
  · exact raises_ok
  · rename_i mwebTx _
    refine raises_bind.mpr ⟨Raises.forM ?_ _, fun _ _ => ?_⟩
    · intro input
      unfold checkMwebInput
      split
      · exact raises_error.mpr nofun
      · refine raises_ite.mpr ⟨fun _ => raises_error.mpr nofun, fun _ => ?_⟩
        exact raises_ite.mpr ⟨fun _ => raises_error.mpr nofun, fun _ => raises_ok⟩
    · split
      · exact raises_error.mpr nofun
      · rename_i mwebFee htotal
        have hrange : moneyRange mwebFee = true := Mw.safeSum_range (by decide) htotal
        rw [addAmount_of_range (moneyRange_bounds hfee) (moneyRange_bounds hrange)]
        exact raises_ite.mpr ⟨fun _ => raises_error.mpr nofun, fun _ => raises_ok⟩

theorem checkTxInputs_fee_range
    (h : checkTxInputs params hash256 verifier tx view mwebCoin nSpendHeight = .ok txfee) :
    moneyRange txfee = true := by
  unfold checkTxInputs at h
  obtain ⟨-, h⟩ := ite_error_eq_ok.mp h
  obtain ⟨nValueIn, -, h⟩ := bind_eq_ok.mp h
  obtain ⟨delta, -, h⟩ := bind_eq_ok.mp h
  split at h
  · cases h
  · obtain ⟨fee, hfee, h⟩ := bind_eq_ok.mp h
    unfold checkMwebTx at h
    split at h
    · obtain rfl := Except.ok.inj h
      exact (transparentFee_ok hfee).2
    · obtain ⟨-, h⟩ := then_eq_ok.mp h
      split at h
      · cases h
      · obtain ⟨total, -, h⟩ := bind_eq_ok.mp h
        obtain ⟨hrange, h⟩ := ite_error_eq_ok.mp h
        obtain rfl := Except.ok.inj h
        simp only [Bool.or_eq_true, Bool.not_eq_true', not_or, Bool.not_eq_false] at hrange
        exact hrange.2

/-- **No sum of `CheckTxInputs` overflows** when the coins of the view are in range, whatever the
transaction. -/
theorem checkTxInputs_overflow (hview : CoinsInRange view) :
    Raises (· ≠ .overflow)
      (checkTxInputs params hash256 verifier tx view mwebCoin nSpendHeight) := by
  have hloop : Raises (· ≠ .overflow) (tx.vin.foldlM (checkInputCoin nSpendHeight view) 0) ∧
      ∀ total, tx.vin.foldlM (checkInputCoin nSpendHeight view) 0 = .ok total →
        moneyRange total = true :=
    Raises.foldlM_of (fun _ txin _ hvalue => checkInputCoin_overflow hview hvalue txin) (by decide)
  unfold checkTxInputs
  refine raises_ite.mpr ⟨fun _ => raises_error.mpr nofun, fun _ => ?_⟩
  refine raises_bind.mpr ⟨hloop.1, fun nValueIn hin => ?_⟩
  refine raises_bind.mpr ⟨?_, fun delta hdelta => ?_⟩
  · unfold shieldedDelta
    refine raises_ite.mpr ⟨fun _ => ?_, fun _ => raises_ok⟩
    split
    · exact raises_ok
    · exact raises_error.mpr nofun
  · obtain ⟨-, -, hrange⟩ := shieldedDelta_ok hdelta
    split
    · exact raises_error.mpr nofun
    · rename_i valueOut hout
      refine raises_bind.mpr ⟨?_, fun fee hfee => ?_⟩
      · exact transparentFee_overflow (hloop.2 _ hin) (getValueOut_range hout) hrange
      · exact checkMwebTx_overflow (transparentFee_ok hfee).2

end

end Consensus
