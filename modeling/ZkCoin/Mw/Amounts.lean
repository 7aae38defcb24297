import Mathlib.Algebra.BigOperators.Group.List.Basic
import Mathlib.Algebra.Order.BigOperators.Group.List
import ZkCoin.Mw.Tx

/-!
# The amounts of an extension block

The library adds amounts under range checks and gives up when one of them fails.  A sum that comes out
is the plain sum, and it does come out when the amounts that enter and the amounts that leave are each
within the money range.

* `safeSum_eq`, `safeSum_of_le`  — the checked sum of a list.
* `TxBody.getSupplyChange_of_le` — peg-ins minus fees minus peg-outs.
-/

open Bytes

namespace Mw

/-! ## checked sums -/

theorem trySafeAdd_of_le {a b : Int} (ha : -maxMoney ≤ a) (ha' : a ≤ maxMoney) (hb : -maxMoney ≤ b)
    (hb' : b ≤ maxMoney) : trySafeAdd a b = some (a + b) := by
  unfold maxMoney coin at *
  unfold trySafeAdd int64Max int64Min
  rw [if_neg (by omega)]

theorem trySafeSubtract_of_le {a b : Int} (ha : -maxMoney ≤ a) (ha' : a ≤ maxMoney)
    (hb : -maxMoney ≤ b) (hb' : b ≤ maxMoney) : trySafeSubtract a b = some (a - b) := by
  unfold maxMoney coin at *
  unfold trySafeSubtract int64Max int64Min
  rw [if_neg (by omega)]

theorem trySafeAdd_eq {a b c : Int} (h : trySafeAdd a b = some c) : c = a + b := by
  unfold trySafeAdd at h
  split at h
  · cases h
  · exact (Option.some.inj h).symm

theorem trySafeSubtract_eq {a b c : Int} (h : trySafeSubtract a b = some c) : c = a - b := by
  unfold trySafeSubtract at h
  split at h
  · cases h
  · exact (Option.some.inj h).symm

theorem moneyRange_iff {v : Int} : moneyRange v = true ↔ 0 ≤ v ∧ v ≤ maxMoney := by
  simp [moneyRange]

theorem isValidAmountRange_iff {v : Int} :
    isValidAmountRange v = true ↔ -maxMoney ≤ v ∧ v ≤ maxMoney := by
  simp [isValidAmountRange]

theorem safeStep_eq {amountOk totalOk : Int → Bool} {total v next : Int}
    (h : safeStep amountOk totalOk total v = some next) : next = total + v := by
  simp only [safeStep, Option.bind_eq_bind, Option.bind_eq_some_iff, guard_eq_some_iff, exists_const,
    Option.some.injEq] at h
  obtain ⟨-, sum, hsum, -, rfl⟩ := h
  exact trySafeAdd_eq hsum

theorem safeSum_eq {vs : List Int} {total result : Int}
    (h : vs.foldlM (safeStep moneyRange moneyRange) total = some result) :
    result = total + vs.sum := by
  induction vs generalizing total with
  | nil =>
    rw [List.sum_nil, Int.add_zero]
    exact (Option.some.inj h).symm
  | cons v vs ih =>
    rw [List.foldlM_cons, Option.bind_eq_bind, Option.bind_eq_some_iff] at h
    obtain ⟨next, hnext, h⟩ := h
    rw [ih h, safeStep_eq hnext, List.sum_cons]
    omega

theorem safeSum_range {vs : List Int} {total result : Int} (htotal : moneyRange total = true)
    (h : vs.foldlM (safeStep moneyRange moneyRange) total = some result) :
    moneyRange result = true := by
  induction vs generalizing total with
  | nil =>
    obtain rfl := Option.some.inj h
    exact htotal
  | cons v vs ih =>
    rw [List.foldlM_cons, Option.bind_eq_bind, Option.bind_eq_some_iff] at h
    obtain ⟨next, hstep, h⟩ := h
    simp only [safeStep, Option.bind_eq_bind, Option.bind_eq_some_iff, guard_eq_some_iff,
      exists_const, Option.some.injEq] at hstep
    obtain ⟨-, sum, -, hrange, rfl⟩ := hstep
    exact ih hrange h

theorem safeSum_of_le {vs : List Int} {total : Int} (htotal : 0 ≤ total) (hvs : ∀ v ∈ vs, 0 ≤ v)
    (hsum : total + vs.sum ≤ maxMoney) :
    vs.foldlM (safeStep moneyRange moneyRange) total = some (total + vs.sum) := by
  induction vs generalizing total with
  | nil =>
    rw [List.sum_nil, Int.add_zero]
    rfl
  | cons v vs ih =>
    have hv : 0 ≤ v := hvs v List.mem_cons_self
    have hvs' : ∀ w ∈ vs, 0 ≤ w := fun w hw => hvs w (List.mem_cons_of_mem v hw)
    have hrest : 0 ≤ vs.sum := List.sum_nonneg hvs'
    rw [List.sum_cons] at hsum ⊢
    have hstep : safeStep moneyRange moneyRange total v = some (total + v) := by
      rw [safeStep, trySafeAdd_of_le (by omega) (by omega) (by omega) (by omega)]
      simp [moneyRange_iff.mpr (show 0 ≤ v ∧ v ≤ maxMoney by omega),
        moneyRange_iff.mpr (show 0 ≤ total + v ∧ total + v ≤ maxMoney by omega), guard]
    rw [List.foldlM_cons, hstep]
    show List.foldlM _ (total + v) vs = _
    rw [ih (by omega) hvs' (by omega)]
    congr 1
    omega

/-! ## kernels and bodies -/

def Kernel.pegoutSum (k : Kernel) : Int := (k.pegouts.map PegOutCoin.amount).sum

theorem Kernel.getFee_nonneg (k : Kernel) : 0 ≤ k.getFee := by
  unfold Kernel.getFee
  cases h : k.fee with
  | none => exact le_rfl
  | some fee => exact (k.fee_range fee h).1

theorem Kernel.getPegIn_nonneg (k : Kernel) : 0 ≤ k.getPegIn := by
  unfold Kernel.getPegIn
  cases h : k.pegin with
  | none => exact le_rfl
  | some pegin => exact (k.pegin_range pegin h).1

theorem Kernel.getSupplyChange_of_le {k : Kernel} (hpegouts : ∀ p ∈ k.pegouts, 0 ≤ p.amount)
    (hin : k.getPegIn ≤ maxMoney) (hout : k.getFee + k.pegoutSum ≤ maxMoney) :
    k.getSupplyChange = some (k.getPegIn - k.getFee - k.pegoutSum) := by
  have hfee := k.getFee_nonneg
  have hpegin := k.getPegIn_nonneg
  have hnonneg : ∀ v ∈ k.pegouts.map PegOutCoin.amount, 0 ≤ v := List.forall_mem_map.mpr hpegouts
  have hsum : 0 ≤ k.pegoutSum := List.sum_nonneg hnonneg
  have hpegout : k.getPegOutAmount = some k.pegoutSum := by
    have hrun := safeSum_of_le le_rfl hnonneg (show 0 + k.pegoutSum ≤ maxMoney by omega)
    rw [Kernel.getPegOutAmount, hrun, Int.zero_add]
    rfl
  rw [Kernel.getSupplyChange, hpegout,
    trySafeSubtract_of_le (by omega) (by omega) (by omega) (by omega)]
  simp only [moneyRange_iff.mpr ⟨hpegin, hin⟩,
    moneyRange_iff.mpr (show 0 ≤ k.getFee ∧ k.getFee ≤ maxMoney by omega), guard, if_true,
    Option.bind_eq_bind, Option.pure_def, Option.bind_some]
  rw [trySafeSubtract_of_le (by omega) (by omega) (by omega) (by omega)]
  simp [isValidAmountRange_iff.mpr (show -maxMoney ≤ k.getPegIn - k.getFee - k.pegoutSum ∧
    k.getPegIn - k.getFee - k.pegoutSum ≤ maxMoney by omega)]

def TxBody.feeSum (body : TxBody) : Int := (body.kernels.map Kernel.getFee).sum

def TxBody.peginSum (body : TxBody) : Int := (body.kernels.map Kernel.getPegIn).sum

def TxBody.pegoutSum (body : TxBody) : Int := (body.getPegOuts.map PegOutCoin.amount).sum

theorem TxBody.pegoutSum_eq (body : TxBody) :
    body.pegoutSum = (body.kernels.map Kernel.pegoutSum).sum := by
  rw [TxBody.pegoutSum, TxBody.getPegOuts]
  induction body.kernels with
  | nil => rfl
  | cons k ks ih =>
    rw [List.flatMap_cons, List.map_append, List.sum_append, ih, List.map_cons, List.sum_cons]
    rfl

theorem TxBody.getTotalFee_of_le {body : TxBody} (h : body.feeSum ≤ maxMoney) :
    body.getTotalFee = some body.feeSum := by
  have hfees : ∀ v ∈ body.kernels.map Kernel.getFee, 0 ≤ v :=
    List.forall_mem_map.mpr fun k _ => k.getFee_nonneg
  have hrun := safeSum_of_le le_rfl hfees (show 0 + body.feeSum ≤ maxMoney by omega)
  rw [TxBody.getTotalFee, hrun, Int.zero_add]
  rfl

/-- the peg-ins so far are `added`, the fees and peg-outs so far are `removed` -/
theorem supplyChange_run (ks : List Kernel) {added removed : Int} (hadded : 0 ≤ added)
    (hremoved : 0 ≤ removed) (hpegouts : ∀ k ∈ ks, ∀ p ∈ k.pegouts, 0 ≤ p.amount)
    (hin : added + (ks.map Kernel.getPegIn).sum ≤ maxMoney)
    (hout : removed + (ks.map fun k => k.getFee + k.pegoutSum).sum ≤ maxMoney) :
    ks.foldlM (fun total k => do
        safeStep (fun _ => true) isValidAmountRange total (← k.getSupplyChange)) (added - removed) =
      some (added + (ks.map Kernel.getPegIn).sum -
        (removed + (ks.map fun k => k.getFee + k.pegoutSum).sum)) := by
  induction ks generalizing added removed with
  | nil => simp
  | cons k ks ih =>
    have hfee := k.getFee_nonneg
    have hpegin := k.getPegIn_nonneg
    have hpegout : 0 ≤ k.pegoutSum :=
      List.sum_nonneg (List.forall_mem_map.mpr (hpegouts k List.mem_cons_self))
    have htail : ∀ k' ∈ ks, ∀ p ∈ k'.pegouts, 0 ≤ p.amount :=
      fun k' hk' => hpegouts k' (List.mem_cons_of_mem k hk')
    have hins : 0 ≤ (ks.map Kernel.getPegIn).sum :=
      List.sum_nonneg (List.forall_mem_map.mpr fun k' _ => k'.getPegIn_nonneg)
    have houts : 0 ≤ (ks.map fun k => k.getFee + k.pegoutSum).sum := by
      refine List.sum_nonneg (List.forall_mem_map.mpr fun k' hk' => ?_)
      have hfee' := k'.getFee_nonneg
      have hpegout' : 0 ≤ k'.pegoutSum :=
        List.sum_nonneg (List.forall_mem_map.mpr (htail k' hk'))
      omega
    rw [List.map_cons, List.sum_cons] at hin hout
    have hstep : safeStep (fun _ => true) isValidAmountRange (added - removed)
        (k.getPegIn - k.getFee - k.pegoutSum) =
        some ((added + k.getPegIn) - (removed + (k.getFee + k.pegoutSum))) := by
      rw [safeStep, trySafeAdd_of_le (by omega) (by omega) (by omega) (by omega)]
      have hnext : added - removed + (k.getPegIn - k.getFee - k.pegoutSum) =
          (added + k.getPegIn) - (removed + (k.getFee + k.pegoutSum)) := by omega
      rw [hnext]
      simp [isValidAmountRange_iff.mpr (show -maxMoney ≤ (added + k.getPegIn) -
        (removed + (k.getFee + k.pegoutSum)) ∧ (added + k.getPegIn) -
        (removed + (k.getFee + k.pegoutSum)) ≤ maxMoney by omega), guard]
    rw [List.foldlM_cons, Kernel.getSupplyChange_of_le (hpegouts k List.mem_cons_self) (by omega)
      (by omega)]
    rw [Option.bind_eq_bind, Option.bind_some, hstep, Option.bind_some]
    refine (ih (by omega) (by omega) htail (by omega) (by omega)).trans ?_
    rw [List.map_cons, List.sum_cons, List.map_cons, List.sum_cons]
    congr 1
    omega

/-- **Supply change.**  It is the peg-ins minus the fees minus the peg-outs, if what enters and what
leaves is each in the money range. -/
theorem TxBody.getSupplyChange_of_le {body : TxBody}
    (hpegouts : ∀ p ∈ body.getPegOuts, 0 ≤ p.amount) (hin : body.peginSum ≤ maxMoney)
    (hout : body.feeSum + body.pegoutSum ≤ maxMoney) :
    body.getSupplyChange = some (body.peginSum - (body.feeSum + body.pegoutSum)) := by
  have hsplit : (body.kernels.map fun k => k.getFee + k.pegoutSum).sum =
      body.feeSum + body.pegoutSum := by
    rw [TxBody.feeSum, body.pegoutSum_eq]
    induction body.kernels with
    | nil => rfl
    | cons k ks ih =>
      rw [List.map_cons, List.sum_cons, ih, List.map_cons, List.sum_cons, List.map_cons,
        List.sum_cons]
      omega
  have hrun := supplyChange_run body.kernels le_rfl le_rfl
    (fun k hk p hp => hpegouts p (List.mem_flatMap.mpr ⟨k, hk, hp⟩))
    (show 0 + body.peginSum ≤ maxMoney by omega) (by rw [hsplit]; omega)
  rw [hsplit] at hrun
  rw [TxBody.getSupplyChange]
  have hzero : (0 : Int) - 0 = 0 := rfl
  rw [hzero] at hrun
  rw [hrun]
  congr 1
  show 0 + body.peginSum - (0 + _) = _
  omega

/-! ## what a computed supply change is -/

theorem Kernel.getSupplyChange_eq {k : Kernel} {change : Int} (h : k.getSupplyChange = some change) :
    change = k.getPegIn - k.getFee - k.pegoutSum := by
  simp only [Kernel.getSupplyChange, Option.bind_eq_bind, Option.bind_eq_some_iff, guard_eq_some_iff,
    exists_const, Option.some.injEq] at h
  obtain ⟨-, -, pegoutAmount, hpegout, afterFee, hfee, change', hchange, -, rfl⟩ := h
  have hsum := safeSum_eq hpegout
  rw [Int.zero_add] at hsum
  rw [trySafeSubtract_eq hchange, trySafeSubtract_eq hfee, hsum]
  rfl

theorem supplyChange_run_eq {ks : List Kernel} {total result : Int}
    (h : ks.foldlM (fun total k => do
        safeStep (fun _ => true) isValidAmountRange total (← k.getSupplyChange)) total = some result) :
    result = total + (ks.map Kernel.getPegIn).sum - (ks.map Kernel.getFee).sum -
      (ks.map Kernel.pegoutSum).sum := by
  induction ks generalizing total with
  | nil =>
    obtain rfl := Option.some.inj h
    simp
  | cons k ks ih =>
    rw [List.foldlM_cons, Option.bind_eq_bind, Option.bind_eq_some_iff] at h
    obtain ⟨next, hstep, h⟩ := h
    obtain ⟨change, hchange, hstep⟩ := Option.bind_eq_some_iff.mp hstep
    have hnext := safeStep_eq hstep
    have hk := Kernel.getSupplyChange_eq hchange
    have hrest := ih h
    rw [List.map_cons, List.map_cons, List.map_cons, List.sum_cons, List.sum_cons, List.sum_cons]
    omega

/-- **The supply change of a body**, where it can be computed -/
theorem TxBody.getSupplyChange_eq {body : TxBody} {change : Int}
    (h : body.getSupplyChange = some change) :
    change = body.peginSum - body.pegoutSum - body.feeSum := by
  have hrun := supplyChange_run_eq h
  rw [body.pegoutSum_eq]
  unfold TxBody.peginSum TxBody.feeSum
  omega

end Mw
