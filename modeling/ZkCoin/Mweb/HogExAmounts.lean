import ZkCoin.Mw.Amounts
import ZkCoin.Mweb.Node

/-!
# The amounts that a HogEx transaction fixes

Connecting a block compares the fee and the supply change of the extension block with the HogEx.  Both
are fixed by the canonical transactions: another extension block passes the comparison only with the
same two amounts, and one that matches the peg-ins, the peg-outs and the sum of the fees has them.

* `checkAmounts_acceptsOrMutated` — the comparison leaves no choice.
* `amounts_eq`                    — matching extension blocks have the same amounts.
-/

open Bytes Script Mw

namespace Mweb

/-! ## the comparison -/

theorem checkAmounts_ok {prev : CBlockIndex} {hogEx : CTransaction} {amount : Int}
    {fee supply : Option Int} (h : checkAmounts prev hogEx amount fee supply = .ok ()) :
    ∃ valueOut front rest, getValueOut hogEx = some valueOut ∧ hogEx.vout = front :: rest ∧
      fee = some (amount - valueOut) ∧ moneyRange (amount - valueOut) = true ∧
      ∃ s, supply = some s ∧ trySafeAdd prev.mwebAmount s = some front.nValue ∧
        moneyRange front.nValue = true := by
  unfold checkAmounts at h
  split at h
  · split at h
    · rename_i mwebFee s _ _ valueOut front rest hvalue hvout
      obtain ⟨hfee, h⟩ := Checked.ite_error_eq_ok.mp h
      split at h
      · cases h
      · rename_i mwebAmount hadd
        obtain ⟨hamount, -⟩ := Checked.ite_error_eq_ok.mp h
        simp only [not_or, not_not, Bool.not_eq_true', Bool.not_eq_false] at hfee hamount
        obtain ⟨hrange, rfl⟩ := hfee
        obtain ⟨hmoney, rfl⟩ := hamount
        exact ⟨valueOut, front, rest, hvalue, hvout, rfl, hrange, s, rfl, hadd, hmoney⟩
    · cases h
  · cases h

theorem checkAmounts_neverMutated (prev : CBlockIndex) (hogEx : CTransaction) (amount : Int)
    (fee supply : Option Int) : NeverMutated (checkAmounts prev hogEx amount fee supply) := by
  unfold checkAmounts
  split
  · split
    · refine neverMutated_ite.mpr ⟨fun _ => neverMutated_rejectConsensus, fun _ => ?_⟩
      split
      · exact neverMutated_rejectConsensus
      · exact neverMutated_ite.mpr ⟨fun _ => neverMutated_rejectConsensus, fun _ => neverMutated_ok⟩
    · exact neverMutated_aborts
  · exact neverMutated_rejectConsensus

/-- **The comparison leaves no choice.**  Where one pair of amounts passes, any other is invalid. -/
theorem checkAmounts_acceptsOrMutated {prev : CBlockIndex} {hogEx : CTransaction} {amount : Int}
    {fee supply fee' supply' : Option Int}
    (h : checkAmounts prev hogEx amount fee supply = .ok ()) :
    AcceptsOrMutated (checkAmounts prev hogEx amount fee' supply') ↔
      fee' = fee ∧ supply' = supply := by
  constructor
  · intro h'
    obtain ⟨⟨⟩, hok⟩ := h'.exists_ok (checkAmounts_neverMutated prev hogEx amount fee' supply')
    obtain ⟨valueOut, front, rest, hvalue, hvout, rfl, -, s, rfl, hadd, -⟩ := checkAmounts_ok h
    obtain ⟨valueOut', front', rest', hvalue', hvout', rfl, -, s', rfl, hadd', -⟩ :=
      checkAmounts_ok hok
    obtain rfl := Option.some.inj (hvalue.symm.trans hvalue')
    obtain ⟨rfl, rfl⟩ := List.cons.inj (hvout.symm.trans hvout')
    have hsum := trySafeAdd_eq hadd
    have hsum' := trySafeAdd_eq hadd'
    exact ⟨rfl, congrArg some (by omega)⟩
  · rintro ⟨rfl, rfl⟩
    rw [h]
    exact acceptsOrMutated_ok

/-! ## sums over the canonical transactions -/

theorem getValueOut_run {vs : List Int} {total valueOut : Int}
    (h : vs.foldlM (fun total v => do
      guard (moneyRange v && moneyRange (total + v))
      some (total + v)) total = some valueOut) :
    valueOut = total + vs.sum ∧ ∀ v ∈ vs, 0 ≤ v := by
  induction vs generalizing total with
  | nil =>
    refine ⟨?_, nofun⟩
    rw [List.sum_nil, Int.add_zero]
    exact (Option.some.inj h).symm
  | cons v vs ih =>
    simp only [List.foldlM_cons, Option.bind_eq_bind, Option.bind_eq_some_iff, guard_eq_some_iff,
      exists_const, Option.some.injEq] at h
    obtain ⟨next, ⟨hrange, rfl⟩, h⟩ := h
    obtain ⟨hsum, hnonneg⟩ := ih h
    rw [Bool.and_eq_true, moneyRange_iff, moneyRange_iff] at hrange
    refine ⟨?_, List.forall_mem_cons.mpr ⟨hrange.1.1, hnonneg⟩⟩
    rw [hsum, List.sum_cons]
    omega

theorem getValueOut_eq {hogEx : CTransaction} {valueOut : Int} {front : CTxOut} {rest : List CTxOut}
    (hvout : hogEx.vout = front :: rest) (h : getValueOut hogEx = some valueOut) :
    valueOut = front.nValue + ((hogExPegouts hogEx).map PegOutCoin.amount).sum ∧
      ∀ p ∈ hogExPegouts hogEx, 0 ≤ p.amount := by
  obtain ⟨hsum, hnonneg⟩ := getValueOut_run h
  have hamounts : (hogExPegouts hogEx).map PegOutCoin.amount = rest.map CTxOut.nValue := by
    rw [hogExPegouts, hvout, List.map_map]
    rfl
  rw [hvout, List.map_cons] at hsum hnonneg
  rw [hamounts]
  refine ⟨?_, ?_⟩
  · rw [hsum, List.sum_cons]
    omega
  · rw [hogExPegouts, hvout]
    refine List.forall_mem_map.mpr fun out hout => ?_
    exact hnonneg _ (List.mem_cons_of_mem _ (List.mem_map_of_mem hout))

theorem addPegins_eq {pegins : List PegInCoin} {start amount : Int}
    (hstart : moneyRange start = true) (h : pegins.foldlM addPegin start = .ok amount) :
    amount = start + (pegins.map PegInCoin.amount).sum ∧ moneyRange amount = true := by
  induction pegins generalizing start with
  | nil =>
    obtain rfl := Except.ok.inj h
    exact ⟨by simp, hstart⟩
  | cons pegin pegins ih =>
    rw [List.foldlM_cons, Checked.bind_eq_ok] at h
    obtain ⟨next, hnext, h⟩ := h
    obtain ⟨hrange, hnext⟩ := Checked.ite_error_eq_ok.mp hnext
    obtain rfl := Except.ok.inj hnext
    obtain ⟨hsum, hamount⟩ := ih (by simpa using hrange) h
    refine ⟨?_, hamount⟩
    rw [hsum, List.map_cons, List.sum_cons]
    omega

theorem sum_getPegIns (blake3 : Bytes → Uint256) (body : TxBody) :
    ((body.getPegIns blake3).map PegInCoin.amount).sum = body.peginSum := by
  unfold TxBody.getPegIns TxBody.peginSum
  induction body.kernels with
  | nil => rfl
  | cons k ks ih =>
    cases hpegin : k.pegin with
    | none =>
      have hhas : k.hasPegIn = false := by rw [Kernel.hasPegIn, hpegin]; rfl
      have hzero : k.getPegIn = 0 := by rw [Kernel.getPegIn, hpegin]; rfl
      rw [List.filter_cons_of_neg (by simp [hhas]), ih, List.map_cons, List.sum_cons, hzero]
      omega
    | some v =>
      have hhas : k.hasPegIn = true := by rw [Kernel.hasPegIn, hpegin]; rfl
      rw [List.filter_cons_of_pos hhas, List.map_cons, List.map_cons, List.sum_cons, ih,
        List.map_cons, List.sum_cons]

/-! ## matching extension blocks -/

section
variable {blake3 : Bytes → Uint256} {crypto : Crypto} {prev : CBlockIndex} {hogEx : CTransaction}
  {pegins : List PegInCoin} {amount : Int}

/-- **The amounts.**  An extension block that was found to match the HogEx has its amounts in range,
and so has every other one with the same peg-ins, peg-outs and sum of fees. -/
theorem amounts_eq {body body' : TxBody} (hprev : moneyRange prev.mwebAmount = true)
    (hpegins : pegins.foldlM addPegin prev.mwebAmount = .ok amount)
    (hcheck : checkAmounts prev hogEx amount body.getTotalFee body.getSupplyChange = .ok ())
    (hin : (body.getPegIns blake3).Perm pegins) (hin' : (body'.getPegIns blake3).Perm pegins)
    (hout : body.getPegOuts.Perm (hogExPegouts hogEx))
    (hout' : body'.getPegOuts.Perm (hogExPegouts hogEx)) (hfee : body'.feeSum = body.feeSum) :
    body'.getTotalFee = body.getTotalFee ∧ body'.getSupplyChange = body.getSupplyChange := by
  obtain ⟨valueOut, front, rest, hvalue, hvout, htotal, hrange, s, hsupply, -, hfront⟩ :=
    checkAmounts_ok hcheck
  obtain ⟨hamount, hamountRange⟩ := addPegins_eq hprev hpegins
  obtain ⟨hvalueOut, hnonneg⟩ := getValueOut_eq hvout hvalue
  rw [moneyRange_iff] at hprev hrange hfront hamountRange
  have hfeeSum : amount - valueOut = body.feeSum := by
    have := safeSum_eq htotal
    rw [this, Int.zero_add]
    rfl
  -- both bodies have the sums that the canonical transactions fix
  have hpeginSum : ∀ b : TxBody, (b.getPegIns blake3).Perm pegins →
      b.peginSum = (pegins.map PegInCoin.amount).sum := by
    intro b hb
    rw [← sum_getPegIns blake3 b, (hb.map _).sum_eq]
  have hpegoutSum : ∀ b : TxBody, b.getPegOuts.Perm (hogExPegouts hogEx) →
      b.pegoutSum = ((hogExPegouts hogEx).map PegOutCoin.amount).sum := by
    intro b hb
    rw [TxBody.pegoutSum, (hb.map _).sum_eq]
  have hpegouts : ∀ b : TxBody, b.getPegOuts.Perm (hogExPegouts hogEx) →
      ∀ p ∈ b.getPegOuts, 0 ≤ p.amount := fun b hb p hp => hnonneg p (hb.mem_iff.mp hp)
  have hin₁ := hpeginSum body hin
  have hin₂ := hpeginSum body' hin'
  have hout₁ := hpegoutSum body hout
  have hout₂ := hpegoutSum body' hout'
  rw [TxBody.getTotalFee_of_le (show body'.feeSum ≤ maxMoney by omega),
    TxBody.getTotalFee_of_le (show body.feeSum ≤ maxMoney by omega),
    TxBody.getSupplyChange_of_le (hpegouts body' hout') (by omega) (by omega),
    TxBody.getSupplyChange_of_le (hpegouts body hout) (by omega) (by omega), hin₁, hin₂, hout₁,
    hout₂, hfee]
  exact ⟨rfl, rfl⟩

end

end Mweb
