import Mathlib.Algebra.BigOperators.Group.List.Basic
import ZkCoin.Shielded.ChainState
import ZkCoin.Shielded.MarkerRules

/-!
# The shielded ledger: the state as a function of the markers seen

The abstract model of the shielded pool is the list of its markers, oldest first.  Nullifiers,
commitments, pool value, note roots and anchors are functions of that list, and so is the node's
state: adding a marker to the state of a log succeeds exactly when the ledger allows the marker, and
gives the state of the longer log.

* `ledgerState`     — the node's state after a log.
* `MarkerAllowed`   — the ledger rule for the next marker of a block (or of the mempool).
* `addShieldedMarkerToState_ok_iff`, `addShieldedBlockToState_ok_iff` — the node refines the ledger.
-/

open Bytes

namespace Shielded

/-! ## what a log determines -/

def mintCommitments (log : List Marker) : List Uint256 :=
  (log.filter Marker.hasCommitment).map Marker.commitment

def spendNullifiers (log : List Marker) : List Uint256 :=
  (log.filter Marker.hasNullifier).map Marker.nullifier

def mintedValue (log : List Marker) : Int := ((log.filter Marker.hasCommitment).map Marker.nValue).sum

def spentValue (log : List Marker) : Int := ((log.filter Marker.hasNullifier).map Marker.nValue).sum

def poolValue (log : List Marker) : Int := mintedValue log - spentValue log

@[simp] theorem mintCommitments_append (a b : List Marker) :
    mintCommitments (a ++ b) = mintCommitments a ++ mintCommitments b := by
  simp [mintCommitments]

@[simp] theorem spendNullifiers_append (a b : List Marker) :
    spendNullifiers (a ++ b) = spendNullifiers a ++ spendNullifiers b := by
  simp [spendNullifiers]

@[simp] theorem mintedValue_append (a b : List Marker) :
    mintedValue (a ++ b) = mintedValue a + mintedValue b := by
  simp [mintedValue]

@[simp] theorem spentValue_append (a b : List Marker) :
    spentValue (a ++ b) = spentValue a + spentValue b := by
  simp [spentValue]

theorem poolValue_append (a b : List Marker) : poolValue (a ++ b) = poolValue a + poolValue b := by
  simp only [poolValue, mintedValue_append, spentValue_append]
  omega

theorem poolValue_singleton (m : Marker) : poolValue [m] = m.valuePoolDelta := by
  cases h : m.action <;> simp [poolValue, mintedValue, spentValue, Marker.hasCommitment,
    Marker.hasNullifier, Marker.valuePoolDelta, h]

theorem toFinset_append_singleton (l : List Uint256) (a : Uint256) :
    (l ++ [a]).toFinset = insert a l.toFinset := by
  ext b
  simp

theorem addValuePoolDelta_eq_ok {delta delta' : Int} {m : Marker}
    (h : addValuePoolDelta delta m = .ok delta') : delta' = delta + m.valuePoolDelta := by
  unfold addValuePoolDelta at h
  unfold Marker.valuePoolDelta
  cases ha : m.action with
  | mint =>
    rw [ha] at h
    obtain ⟨-, h⟩ := Checked.ite_error_eq_ok.mp h
    exact (Except.ok.inj h).symm
  | spend =>
    rw [ha] at h
    obtain ⟨-, h⟩ := Checked.ite_error_eq_ok.mp h
    exact (Except.ok.inj h).symm

section
variable (hash256 : Bytes → Uint256) (verifier : Verifier)

/-- the sum over the markers of one transaction is what they move into the pool; there is at most one
marker, so it stays in range -/
theorem getTransactionValuePoolDelta_ok {tx : CTransaction} {active allow : Bool} {delta : Int}
    (h : getTransactionValuePoolDelta hash256 verifier tx active allow = .ok delta) :
    delta = poolValue (txMarkers tx) ∧ -maxMoney ≤ delta ∧ delta ≤ maxMoney := by
  obtain ⟨ms, hms, h⟩ := Checked.bind_eq_ok.mp h
  obtain ⟨rfl, hlen, hok⟩ := checkTransaction_ok hms
  match hm : txMarkers tx with
  | [] =>
    rw [hm] at h
    obtain rfl := Except.ok.inj h
    exact ⟨rfl, by decide, by decide⟩
  | [m] =>
    rw [hm, List.foldlM_cons] at h
    obtain ⟨delta', hstep, h⟩ := Checked.bind_eq_ok.mp h
    obtain rfl := Except.ok.inj h
    have hdelta := addValuePoolDelta_eq_ok hstep
    obtain ⟨-, -, haccepted⟩ := hok m (by rw [hm]; exact List.mem_singleton_self m)
    have hpos := haccepted.value_pos
    have hle := haccepted.value_le
    rw [Int.zero_add] at hdelta
    refine ⟨hdelta.trans (poolValue_singleton m).symm, ?_⟩
    rw [hdelta, Marker.valuePoolDelta]
    cases m.action with
    | mint => exact ⟨by show -maxMoney ≤ m.nValue; omega, hle⟩
    | spend => exact ⟨by show -maxMoney ≤ -m.nValue; omega, by show -m.nValue ≤ maxMoney; omega⟩
  | m :: m' :: ms =>
    rw [hm] at hlen
    simp at hlen

/-- the note root after a list of commitments, as `NextCommitmentRoot` chains it -/
def noteRoot (commitments : List Uint256) : Uint256 :=
  (commitments.foldl (fun (st : List Uint256 × Uint256) c =>
    (st.1 ++ [c], nextCommitmentRoot hash256 verifier st.1 st.2 st.1.length c)) ([], .null)).2

theorem noteRoot_foldl_fst (commitments : List Uint256) (st : List Uint256 × Uint256) :
    (commitments.foldl (fun (st : List Uint256 × Uint256) c =>
      (st.1 ++ [c], nextCommitmentRoot hash256 verifier st.1 st.2 st.1.length c)) st).1 =
      st.1 ++ commitments := by
  induction commitments generalizing st with
  | nil => simp
  | cons c cs ih =>
    rw [List.foldl_cons, ih]
    simp

theorem noteRoot_append_singleton (commitments : List Uint256) (c : Uint256) :
    noteRoot hash256 verifier (commitments ++ [c]) =
      nextCommitmentRoot hash256 verifier commitments (noteRoot hash256 verifier commitments)
        commitments.length c := by
  simp only [noteRoot, List.foldl_append, List.foldl_cons, List.foldl_nil, noteRoot_foldl_fst,
    List.nil_append]

def noteRoots (commitments : List Uint256) : List Uint256 :=
  (List.range commitments.length).map fun i => noteRoot hash256 verifier (commitments.take (i + 1))

theorem noteRoots_append_singleton (commitments : List Uint256) (c : Uint256) :
    noteRoots hash256 verifier (commitments ++ [c]) =
      noteRoots hash256 verifier commitments ++ [noteRoot hash256 verifier (commitments ++ [c])] := by
  simp only [noteRoots, List.length_append, List.length_singleton, List.range_succ, List.map_append,
    List.map_cons, List.map_nil]
  congr 1
  · apply List.map_congr_left
    intro i hi
    rw [List.take_append_of_le_length (Nat.succ_le_of_lt (List.mem_range.mp hi))]
  · rw [List.take_of_length_le (by simp)]

/-- the anchors a log makes available: the null root and the roots after its mints -/
def logAnchors (log : List Marker) : Finset Uint256 :=
  insert .null (noteRoots hash256 verifier (mintCommitments log)).toFinset

def ledgerState (log : List Marker) : ShieldedValidationState where
  commitments := (mintCommitments log).toFinset
  nullifiers := (spendNullifiers log).toFinset
  anchors := logAnchors hash256 verifier log
  commitmentChain := mintCommitments log
  nValuePool := poolValue log
  commitmentRoot := noteRoot hash256 verifier (mintCommitments log)
  nCommitments := (mintCommitments log).length

theorem ledgerState_nil : ledgerState hash256 verifier [] = .init := by
  simp [ledgerState, ShieldedValidationState.init, mintCommitments, spendNullifiers, poolValue,
    mintedValue, spentValue, noteRoot, noteRoots, logAnchors]

theorem ledgerState_append_mint {m : Marker} (hm : m.action = .mint) (log : List Marker) :
    ledgerState hash256 verifier (log ++ [m]) =
      { ledgerState hash256 verifier log with
        commitments := insert m.commitment (mintCommitments log).toFinset
        nValuePool := poolValue log + m.valuePoolDelta
        commitmentRoot := noteRoot hash256 verifier (mintCommitments log ++ [m.commitment])
        commitmentChain := mintCommitments log ++ [m.commitment]
        nCommitments := (mintCommitments log).length + 1
        anchors := insert (noteRoot hash256 verifier (mintCommitments log ++ [m.commitment]))
          (logAnchors hash256 verifier log) } := by
  have hmint : mintCommitments [m] = [m.commitment] := by
    simp [mintCommitments, Marker.hasCommitment, hm]
  have hspend : spendNullifiers [m] = [] := by
    simp [spendNullifiers, Marker.hasNullifier, hm]
  have hanchors : logAnchors hash256 verifier (log ++ [m]) =
      insert (noteRoot hash256 verifier (mintCommitments log ++ [m.commitment]))
        (logAnchors hash256 verifier log) := by
    simp only [logAnchors, mintCommitments_append, hmint, noteRoots_append_singleton]
    ext a
    simp
    tauto
  simp only [ledgerState, hmint, hspend, hanchors, poolValue_append, poolValue_singleton,
    mintCommitments_append, spendNullifiers_append, toFinset_append_singleton, List.append_nil,
    List.length_append, List.length_singleton]

theorem ledgerState_append_spend {m : Marker} (hm : m.action = .spend) (log : List Marker) :
    ledgerState hash256 verifier (log ++ [m]) =
      { ledgerState hash256 verifier log with
        nullifiers := insert m.nullifier (spendNullifiers log).toFinset
        nValuePool := poolValue log + m.valuePoolDelta } := by
  have hmint : mintCommitments [m] = [] := by
    simp [mintCommitments, Marker.hasCommitment, hm]
  have hspend : spendNullifiers [m] = [m.nullifier] := by
    simp [spendNullifiers, Marker.hasNullifier, hm]
  simp only [ledgerState, hmint, hspend, logAnchors, poolValue_append, poolValue_singleton,
    mintCommitments_append, spendNullifiers_append, toFinset_append_singleton, List.append_nil]

/-! ## the rule for the next marker -/

/-- the marker `m` may follow `pre` in a block on top of the log `before`: a spend names an anchor
and uses value from before the block, nothing is used or created twice, the pool stays in range -/
structure MarkerAllowed (before pre : List Marker) (m : Marker) : Prop where
  anchor : m.action = .spend → m.anchor ∈ logAnchors hash256 verifier before
  nullifier : m.action = .spend → m.nullifier ∉ spendNullifiers (before ++ pre)
  commitment : m.action = .mint → m.commitment ∉ mintCommitments (before ++ pre)
  limit : m.action = .spend → spentValue (pre ++ [m]) ≤ poolValue before
  pool_nonneg : 0 ≤ poolValue (before ++ pre ++ [m])
  pool_le : poolValue (before ++ pre ++ [m]) ≤ maxMoney

/-- state and spend limit after `pre` in a block on top of `before` -/
def blockView (before pre : List Marker) : ShieldedValidationState × Int :=
  (ledgerState hash256 verifier (before ++ pre), poolValue before - spentValue pre)

theorem insertMarker_ledgerState (log : List Marker) (m : Marker) (limit : Int) :
    (insertMarker hash256 verifier (ledgerState hash256 verifier log, limit) m).1 =
      ledgerState hash256 verifier (log ++ [m]) := by
  cases ha : m.action with
  | mint =>
    rw [ledgerState_append_mint hash256 verifier ha, noteRoot_append_singleton]
    simp [insertMarker, ha, ledgerState]
  | spend =>
    rw [ledgerState_append_spend hash256 verifier ha]
    simp [insertMarker, ha, ledgerState]

theorem insertMarker_blockView (before pre : List Marker) (m : Marker) :
    insertMarker hash256 verifier (blockView hash256 verifier before pre) m =
      blockView hash256 verifier before (pre ++ [m]) := by
  refine Prod.ext ?_ ?_
  · simp only [blockView, insertMarker_ledgerState, List.append_assoc]
  · cases ha : m.action with
    | mint => simp [insertMarker, blockView, ha, spentValue, Marker.hasNullifier]
    | spend =>
      simp only [insertMarker, blockView, ha, spentValue_append]
      rw [show spentValue [m] = m.nValue by simp [spentValue, Marker.hasNullifier, ha]]
      omega

theorem poolCheck_iff (pool delta : Int) :
    (¬ ((delta > 0 ∧ pool > maxMoney - delta) ∨ (delta < 0 ∧ pool < -delta)) ∧
      moneyRange (pool + delta) = true) ↔ 0 ≤ pool + delta ∧ pool + delta ≤ maxMoney := by
  simp only [moneyRange, Bool.and_eq_true, decide_eq_true_eq]
  omega

theorem addShieldedMarkerToState_eq_ok {anchors : Finset Uint256}
    {st st' : ShieldedValidationState × Int} {m : Marker} :
    addShieldedMarkerToState hash256 verifier anchors st m = .ok st' ↔
      (m.action = .spend → m.anchor ∈ anchors) ∧
      (m.action = .spend → m.nullifier ∉ st.1.nullifiers) ∧
      (m.action = .mint → m.commitment ∉ st.1.commitments) ∧
      (m.action = .spend → m.nValue ≤ st.2) ∧
      (0 ≤ st.1.nValuePool + m.valuePoolDelta ∧ st.1.nValuePool + m.valuePoolDelta ≤ maxMoney) ∧
      insertMarker hash256 verifier st m = st' := by
  simp only [addShieldedMarkerToState, Checked.ite_error_eq_ok, Except.ok.injEq,
    ← poolCheck_iff, Marker.hasAnchor, Marker.hasNullifier, Marker.hasCommitment,
    and_assoc, Bool.and_eq_true, beq_iff_eq, decide_eq_true_eq, not_and, not_not, not_lt,
    Bool.not_eq_true, Bool.not_eq_false_eq_eq_true]

/-- **One marker.**  The node takes the marker exactly when the ledger allows it, and then has the
state of the longer log. -/
theorem addShieldedMarkerToState_ok_iff (before pre : List Marker) (m : Marker)
    (st : ShieldedValidationState × Int) :
    addShieldedMarkerToState hash256 verifier (logAnchors hash256 verifier before)
        (blockView hash256 verifier before pre) m = .ok st ↔
      MarkerAllowed hash256 verifier before pre m ∧
        st = blockView hash256 verifier before (pre ++ [m]) := by
  have hpool : poolValue (before ++ pre ++ [m]) = poolValue (before ++ pre) + m.valuePoolDelta := by
    rw [poolValue_append, poolValue_singleton]
  have hlimit : m.action = .spend →
      (m.nValue ≤ poolValue before - spentValue pre ↔ spentValue (pre ++ [m]) ≤ poolValue before) := by
    intro ha
    rw [spentValue_append, show spentValue [m] = m.nValue by
      simp [spentValue, Marker.hasNullifier, ha]]
    omega
  rw [addShieldedMarkerToState_eq_ok, insertMarker_blockView]
  constructor
  · rintro ⟨hanchor, hnull, hcomm, hval, hrange, rfl⟩
    refine ⟨⟨hanchor, fun ha => ?_, fun ha => ?_, fun ha => (hlimit ha).mp (hval ha), ?_, ?_⟩, rfl⟩
    · simpa [blockView, ledgerState] using hnull ha
    · simpa [blockView, ledgerState] using hcomm ha
    · rw [hpool]
      exact hrange.1
    · rw [hpool]
      exact hrange.2
  · rintro ⟨h, rfl⟩
    refine ⟨h.anchor, fun ha => ?_, fun ha => ?_, fun ha => (hlimit ha).mpr (h.limit ha), ?_, rfl⟩
    · simpa [blockView, ledgerState] using h.nullifier ha
    · simpa [blockView, ledgerState] using h.commitment ha
    · have hrange := And.intro h.pool_nonneg h.pool_le
      rw [hpool] at hrange
      exact hrange

/-! ## transactions and blocks -/

/-- the markers of a block, in the order in which the node adds them -/
def blockMarkers (vtx : List CTransaction) : List Marker := vtx.flatMap txMarkers

/-- every transaction passes the context-free check and every marker is allowed where it stands -/
structure BlockAllowed (allow : Bool) (before pre : List Marker) (vtx : List CTransaction) :
    Prop where
  checked : ∀ tx ∈ vtx, ∃ ms, checkTransaction hash256 verifier tx true allow = .ok ms
  allowed : Checked.AllowedRun (MarkerAllowed hash256 verifier before) pre (blockMarkers vtx)

theorem blockAllowed_cons {allow : Bool} {before pre : List Marker} {tx : CTransaction}
    {vtx : List CTransaction} :
    BlockAllowed hash256 verifier allow before pre (tx :: vtx) ↔
      (∃ ms, checkTransaction hash256 verifier tx true allow = .ok ms) ∧
      Checked.AllowedRun (MarkerAllowed hash256 verifier before) pre (txMarkers tx) ∧
      BlockAllowed hash256 verifier allow before (pre ++ txMarkers tx) vtx := by
  constructor
  · rintro ⟨hchecked, hallowed⟩
    obtain ⟨htx, hvtx⟩ := Checked.allowedRun_append.mp hallowed
    exact ⟨hchecked tx (by simp), htx, fun t ht => hchecked t (by simp [ht]), hvtx⟩
  · rintro ⟨hms, htx, hchecked, hvtx⟩
    refine ⟨fun t ht => ?_, Checked.allowedRun_append.mpr ⟨htx, hvtx⟩⟩
    rcases List.mem_cons.mp ht with rfl | ht
    · exact hms
    · exact hchecked t ht

theorem addShieldedTransactionToState_ok_iff (allow : Bool) (before pre : List Marker)
    (tx : CTransaction) (st : ShieldedValidationState × Int) :
    addShieldedTransactionToState hash256 verifier true allow (logAnchors hash256 verifier before)
        (blockView hash256 verifier before pre) tx = .ok st ↔
      (∃ ms, checkTransaction hash256 verifier tx true allow = .ok ms) ∧
      Checked.AllowedRun (MarkerAllowed hash256 verifier before) pre (txMarkers tx) ∧
      st = blockView hash256 verifier before (pre ++ txMarkers tx) := by
  have hloop := fun ms => Checked.foldlM_eq_ok_iff
    (addShieldedMarkerToState_ok_iff hash256 verifier before) pre ms st
  unfold addShieldedTransactionToState
  constructor
  · intro h
    obtain ⟨ms, hms, h⟩ := Checked.bind_eq_ok.mp h
    obtain ⟨rfl, -⟩ := checkTransaction_ok hms
    exact ⟨⟨_, hms⟩, (hloop _).mp h⟩
  · rintro ⟨⟨ms, hms⟩, hrun⟩
    obtain ⟨rfl, -⟩ := checkTransaction_ok hms
    exact Checked.bind_eq_ok.mpr ⟨_, hms, (hloop _).mpr hrun⟩

theorem foldlM_addShieldedTransactionToState_ok_iff (allow : Bool) (before pre : List Marker)
    (vtx : List CTransaction) (st : ShieldedValidationState × Int) :
    vtx.foldlM (addShieldedTransactionToState hash256 verifier true allow
        (logAnchors hash256 verifier before)) (blockView hash256 verifier before pre) = .ok st ↔
      BlockAllowed hash256 verifier allow before pre vtx ∧
        st = blockView hash256 verifier before (pre ++ blockMarkers vtx) := by
  induction vtx generalizing pre with
  | nil =>
    constructor
    · intro h
      refine ⟨⟨by simp, trivial⟩, ?_⟩
      rw [blockMarkers, List.flatMap_nil, List.append_nil]
      exact (Except.ok.inj h).symm
    · rintro ⟨-, rfl⟩
      rw [blockMarkers, List.flatMap_nil, List.append_nil]
      rfl
  | cons tx vtx ih =>
    rw [List.foldlM_cons, Checked.bind_eq_ok, blockAllowed_cons, blockMarkers, List.flatMap_cons,
      ← List.append_assoc]
    constructor
    · rintro ⟨st', htx, hvtx⟩
      obtain ⟨hms, hrun, rfl⟩ := (addShieldedTransactionToState_ok_iff ..).mp htx
      obtain ⟨hallowed, rfl⟩ := (ih _).mp hvtx
      exact ⟨⟨hms, hrun, hallowed⟩, rfl⟩
    · rintro ⟨⟨hms, hrun, hallowed⟩, rfl⟩
      exact ⟨_, (addShieldedTransactionToState_ok_iff ..).mpr ⟨hms, hrun, rfl⟩,
        (ih _).mpr ⟨hallowed, rfl⟩⟩

/-- **One block.**  Adding a block to the state of a log succeeds exactly when the ledger allows the
block, and gives the state of the log with the block's markers. -/
theorem addShieldedBlockToState_ok_iff (allow : Bool) (before : List Marker)
    (vtx : List CTransaction) (s : ShieldedValidationState) :
    addShieldedBlockToState hash256 verifier true allow (ledgerState hash256 verifier before) vtx =
        .ok s ↔
      BlockAllowed hash256 verifier allow before [] vtx ∧
        s = ledgerState hash256 verifier (before ++ blockMarkers vtx) := by
  have hview : (ledgerState hash256 verifier before,
      (ledgerState hash256 verifier before).nValuePool) = blockView hash256 verifier before [] := by
    simp [blockView, ledgerState, spentValue]
  have hloop := foldlM_addShieldedTransactionToState_ok_iff hash256 verifier allow before [] vtx
  unfold addShieldedBlockToState
  rw [Checked.map_eq_ok, hview]
  constructor
  · rintro ⟨st, hst, rfl⟩
    obtain ⟨hallowed, rfl⟩ := (hloop st).mp hst
    exact ⟨hallowed, rfl⟩
  · rintro ⟨hallowed, rfl⟩
    exact ⟨_, (hloop _).mpr ⟨hallowed, rfl⟩, rfl⟩

theorem blockMarkers_eq_nil_of_inactive {allow : Bool} {s s' : ShieldedValidationState}
    {vtx : List CTransaction}
    (h : addShieldedBlockToState hash256 verifier false allow s vtx = .ok s') :
    blockMarkers vtx = [] := by
  obtain ⟨st, hst, -⟩ := Checked.map_eq_ok.mp h
  clear h
  generalize (s, s.nValuePool) = st₀ at hst
  induction vtx generalizing st₀ with
  | nil => rfl
  | cons tx vtx ih =>
    rw [List.foldlM_cons] at hst
    obtain ⟨st₁, htx, hvtx⟩ := Checked.bind_eq_ok.mp hst
    obtain ⟨ms, hms, -⟩ := Checked.bind_eq_ok.mp htx
    rw [blockMarkers, List.flatMap_cons, txMarkers_eq_nil_of_inactive hms, List.nil_append]
    exact ih _ hvtx

end

end Shielded
