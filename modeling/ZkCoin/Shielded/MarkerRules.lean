import Mathlib.Data.List.Forall2
import ZkCoin.Library.Checked
import ZkCoin.Shielded.Marker

/-!
# What the context-free check of a transaction establishes

Every accepted marker output has value zero, parses, and carries an accepted envelope; the markers
the check reports are exactly the ones the outputs carry, whoever parses them.

* `txMarkers`                — the markers a transaction carries, found without any check.
* `AcceptedMarker`           — the rules an accepted marker output obeys.
* `checkTransaction_eq_ok_iff` — when the check passes, and what it reports.
-/

open Bytes

namespace Shielded

def outputMarker (txout : CTxOut) : Option Marker :=
  (extractMarkerPayload txout.scriptPubKey).bind decodeMarkerPayload

def txMarkers (tx : CTransaction) : List Marker := tx.vout.filterMap outputMarker

/-- the rules of a marker that passes: an amount that moves value, no null field, an accepted proof -/
structure AcceptedMarker (hash256 : Bytes → Uint256) (verifier : Verifier) (allow : Bool)
    (tx : CTransaction) (m : Marker) : Prop where
  value_pos : 0 < m.nValue
  value_le : m.nValue ≤ maxMoney
  commitment_ne : m.action = .mint → m.commitment ≠ .null
  nullifier_ne : m.action = .spend → m.nullifier ≠ .null
  anchor_ne : m.action = .spend → m.anchor ≠ .null
  proof : verifyProofEnvelope hash256 verifier m tx allow = true

/-- an output passes when it is no marker, or when it is one that obeys every rule -/
def OutputAccepted (hash256 : Bytes → Uint256) (verifier : Verifier) (active allow : Bool)
    (tx : CTransaction) (txout : CTxOut) : Prop :=
  extractMarkerPayload txout.scriptPubKey = none ∨
    ∃ m, outputMarker txout = some m ∧ active = true ∧ tx.isCoinBase = false ∧ txout.nValue = 0 ∧
      AcceptedMarker hash256 verifier allow tx m

section
variable {hash256 : Bytes → Uint256} {verifier : Verifier} {active allow : Bool} {tx : CTransaction}

theorem outputAccepted_of_checkMarkerOutput {txout : CTxOut} {r : Option Marker}
    (h : checkMarkerOutput hash256 verifier active allow tx txout = .ok r) :
    OutputAccepted hash256 verifier active allow tx txout ∧ r = outputMarker txout := by
  unfold checkMarkerOutput at h
  cases hp : extractMarkerPayload txout.scriptPubKey with
  | none =>
    rw [hp] at h
    refine ⟨.inl hp, ?_⟩
    rw [outputMarker, hp]
    exact (Except.ok.inj h).symm
  | some payload =>
    have hout : outputMarker txout = decodeMarkerPayload payload := by rw [outputMarker, hp]; rfl
    rw [hp] at h
    cases hm : decodeMarkerPayload payload with
    | none =>
      simp only [hm] at h
      repeat' (split at h)
      all_goals cases h
    | some m =>
      simp only [hm, Bool.not_eq_true', Bool.and_eq_true, Bool.or_eq_true, beq_iff_eq] at h
      split at h
      · cases h
      rename_i hactive
      split at h
      · cases h
      rename_i hcb
      split at h
      · cases h
      rename_i hvalue
      split at h
      · cases h
      rename_i hrange
      split at h
      · cases h
      rename_i hcommit
      split at h
      · cases h
      rename_i hnull
      split at h
      · cases h
      rename_i hanchor
      split at h
      · cases h
      rename_i hproof
      rw [hm] at hout
      refine ⟨.inr ⟨m, hout, ?_, ?_, ?_, ?_⟩, ?_⟩
      · simpa using hactive
      · simpa using hcb
      · simpa using hvalue
      · simp only [moneyRange, Bool.and_eq_false_iff, decide_eq_false_iff_not, not_or, not_not]
          at hrange
        simp only [Marker.hasCommitment, Marker.hasNullifier, Marker.hasAnchor, beq_iff_eq,
          Uint256.isNull_iff, not_and] at hcommit hnull hanchor
        exact ⟨by omega, hrange.1.2, hcommit, hnull, hanchor, by simpa using hproof⟩
      · rw [hout]
        exact (Except.ok.inj h).symm

theorem checkMarkerOutput_of_accepted {txout : CTxOut}
    (h : OutputAccepted hash256 verifier active allow tx txout) :
    checkMarkerOutput hash256 verifier active allow tx txout = .ok (outputMarker txout) := by
  unfold checkMarkerOutput
  rcases h with hnone | ⟨m, hm, hactive, hcb, hvalue, hok⟩
  · rw [outputMarker, hnone]
    rfl
  · obtain ⟨payload, hp, hdecode⟩ := Option.bind_eq_some_iff.mp hm
    have hrange : moneyRange m.nValue = true ∧ m.nValue ≠ 0 := by
      have hpos := hok.value_pos
      simp only [moneyRange, Bool.and_eq_true, decide_eq_true_eq]
      exact ⟨⟨by omega, hok.value_le⟩, by omega⟩
    have hcommit : ¬ (m.hasCommitment && m.commitment.isNull) = true := by
      simpa [Marker.hasCommitment, Uint256.isNull_iff] using hok.commitment_ne
    have hnull : ¬ (m.hasNullifier && m.nullifier.isNull) = true := by
      simpa [Marker.hasNullifier, Uint256.isNull_iff] using hok.nullifier_ne
    have hanchor : ¬ (m.hasAnchor && m.anchor.isNull) = true := by
      simpa [Marker.hasAnchor, Uint256.isNull_iff] using hok.anchor_ne
    rw [hp, hm]
    simp only [hactive, hcb, hvalue, hdecode, hrange.1, hok.proof]
    rw [if_neg (by simp), if_neg (by simp), if_neg (by simp), if_neg (by simpa using hrange.2),
      if_neg hcommit, if_neg hnull, if_neg hanchor, if_neg (by simp)]

theorem checkMarkerOutput_eq_ok_iff {txout : CTxOut} {r : Option Marker} :
    checkMarkerOutput hash256 verifier active allow tx txout = .ok r ↔
      OutputAccepted hash256 verifier active allow tx txout ∧ r = outputMarker txout := by
  constructor
  · exact outputAccepted_of_checkMarkerOutput
  · rintro ⟨h, rfl⟩
    exact checkMarkerOutput_of_accepted h

/-- **The context-free check.**  It passes when every output is accepted and at most one is a marker,
and reports the markers that the outputs carry. -/
theorem checkTransaction_eq_ok_iff {ms : List Marker} :
    checkTransaction hash256 verifier tx active allow = .ok ms ↔
      (∀ txout ∈ tx.vout, OutputAccepted hash256 verifier active allow tx txout) ∧
      (txMarkers tx).length ≤ 1 ∧ ms = txMarkers tx := by
  have hreport : (tx.vout.map outputMarker).reduceOption = txMarkers tx := by
    show (tx.vout.map outputMarker).filterMap id = _
    rw [List.filterMap_map]
    rfl
  have hlast : ∀ found : List (Option Marker), found = tx.vout.map outputMarker →
      ((if found.reduceOption.length > 1 then .error "bad-shielded-duplicate"
        else .ok found.reduceOption : Except String (List Marker)) = .ok ms ↔
        (txMarkers tx).length ≤ 1 ∧ ms = txMarkers tx) := by
    rintro _ rfl
    rw [hreport, Checked.ite_error_eq_ok, Nat.not_lt, Except.ok.injEq, eq_comm (b := ms)]
  unfold checkTransaction
  rw [Checked.bind_eq_ok]
  constructor
  · rintro ⟨found, hfound, h⟩
    have hmap := Checked.eq_map_of_mapM_eq_ok hfound fun _ _ hr =>
      (checkMarkerOutput_eq_ok_iff.mp hr).2
    refine ⟨?_, (hlast found hmap).mp h⟩
    intro txout hmem
    obtain ⟨r, hr⟩ := Checked.exists_of_mapM_eq_ok hfound txout hmem
    exact (checkMarkerOutput_eq_ok_iff.mp hr).1
  · rintro ⟨hall, h⟩
    refine ⟨tx.vout.map outputMarker, ?_, (hlast _ rfl).mpr h⟩
    rw [Checked.mapM_eq_ok_iff, List.forall₂_map_right_iff, List.forall₂_same]
    exact fun txout hmem => checkMarkerOutput_of_accepted (hall txout hmem)

theorem checkTransaction_ok {ms : List Marker}
    (h : checkTransaction hash256 verifier tx active allow = .ok ms) :
    ms = txMarkers tx ∧ ms.length ≤ 1 ∧
    (∀ m ∈ ms, active = true ∧ tx.isCoinBase = false ∧
      AcceptedMarker hash256 verifier allow tx m) := by
  obtain ⟨hall, hlen, rfl⟩ := checkTransaction_eq_ok_iff.mp h
  refine ⟨rfl, hlen, ?_⟩
  intro m hm
  obtain ⟨txout, hmem, hout⟩ := List.mem_filterMap.mp hm
  rcases hall txout hmem with hnone | ⟨m', hm', hactive, hcb, -, hok⟩
  · rw [outputMarker, hnone] at hout
    cases hout
  · obtain rfl : m' = m := by simpa [hm'] using hout
    exact ⟨hactive, hcb, hok⟩

theorem txMarkers_eq_nil_of_inactive {ms : List Marker}
    (h : checkTransaction hash256 verifier tx false allow = .ok ms) : txMarkers tx = [] := by
  obtain ⟨rfl, -, hms⟩ := checkTransaction_ok h
  cases hm : txMarkers tx with
  | nil => rfl
  | cons m _ =>
    obtain ⟨hactive, -⟩ := hms m (by simp [hm])
    cases hactive

end

end Shielded
