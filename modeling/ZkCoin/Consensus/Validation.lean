import ZkCoin.Library.Checked
import ZkCoin.Primitives.Block

/-!
# Verdicts on blocks

A check accepts a block, calls it invalid with a result, a reason and a debug text, or does not
return: an access out of range, a failed assertion, an exception that nobody catches.

* `BlockFault`          — why a check did not accept.
* `AcceptsOrMutated`    — the verdicts that leave no mark on the block's index entry.
* `CBlockIndex`         — what the checks read of the entry of the previous block.
-/

open Checked

inductive BlockValidationResult
  | unset
  | consensus
  | recentConsensusChange
  | cachedInvalid
  | invalidHeader
  | mutated
  | missingPrev
  | invalidPrev
  | timeFuture
  | checkpoint
  deriving DecidableEq

/-- `BlockValidationState` after `Invalid` -/
structure BlockInvalid where
  result : BlockValidationResult
  rejectReason : String
  debugMessage : String
  deriving DecidableEq

inductive BlockFault
  | invalid (state : BlockInvalid)
  | aborted
  deriving DecidableEq

namespace BlockFault

def isMutated : BlockFault → Bool
  | .invalid state => decide (state.result = .mutated)
  | .aborted => false

end BlockFault

/-- `state.Invalid(BLOCK_CONSENSUS, ..)` -/
def rejectConsensus {α : Type} (rejectReason debugMessage : String) : Except BlockFault α :=
  .error (.invalid ⟨.consensus, rejectReason, debugMessage⟩)

/-- `state.Invalid(BLOCK_MUTATED, ..)` -/
def rejectMutated {α : Type} (rejectReason debugMessage : String) : Except BlockFault α :=
  .error (.invalid ⟨.mutated, rejectReason, debugMessage⟩)

def aborts {α : Type} : Except BlockFault α := .error .aborted

/-- the check accepts or says that the block was mutated -/
def AcceptsOrMutated {α : Type} (verdict : Except BlockFault α) : Prop :=
  Raises (fun fault => fault.isMutated = true) verdict

section
variable {α β : Type}

@[simp] theorem acceptsOrMutated_ok {a : α} : AcceptsOrMutated (.ok a) := raises_ok

@[simp] theorem acceptsOrMutated_rejectMutated {reason debug : String} :
    AcceptsOrMutated (rejectMutated reason debug : Except BlockFault α) := by
  rw [AcceptsOrMutated, rejectMutated, raises_error]
  rfl

@[simp] theorem not_acceptsOrMutated_rejectConsensus {reason debug : String} :
    ¬ AcceptsOrMutated (rejectConsensus reason debug : Except BlockFault α) := by
  rw [AcceptsOrMutated, rejectConsensus, raises_error]
  exact Bool.false_ne_true

theorem acceptsOrMutated_ite {c : Prop} [Decidable c] {x y : Except BlockFault α} :
    AcceptsOrMutated (if c then x else y) ↔
      (c → AcceptsOrMutated x) ∧ (¬ c → AcceptsOrMutated y) := raises_ite

theorem acceptsOrMutated_bind {x : Except BlockFault α} {f : α → Except BlockFault β} :
    AcceptsOrMutated (x >>= f) ↔
      AcceptsOrMutated x ∧ ∀ a, x = .ok a → AcceptsOrMutated (f a) := raises_bind

theorem acceptsOrMutated_error {fault : BlockFault} :
    AcceptsOrMutated (.error fault : Except BlockFault α) ↔ fault.isMutated = true := raises_error

instance (verdict : Except BlockFault α) : Decidable (AcceptsOrMutated verdict) :=
  match verdict with
  | .ok _ => .isTrue acceptsOrMutated_ok
  | .error fault => decidable_of_iff (fault.isMutated = true) acceptsOrMutated_error.symm

/-- the check never says that the block was mutated -/
def NeverMutated (verdict : Except BlockFault α) : Prop :=
  Raises (fun fault => fault.isMutated = false) verdict

theorem AcceptsOrMutated.exists_ok {verdict : Except BlockFault α} (h : AcceptsOrMutated verdict)
    (hnever : NeverMutated verdict) : ∃ a, verdict = .ok a := by
  cases verdict with
  | ok a => exact ⟨a, rfl⟩
  | error fault =>
    exact Bool.noConfusion ((h fault rfl).symm.trans (hnever fault rfl))

@[simp] theorem neverMutated_ok {a : α} : NeverMutated (.ok a) := raises_ok

@[simp] theorem neverMutated_rejectConsensus {reason debug : String} :
    NeverMutated (rejectConsensus reason debug : Except BlockFault α) := raises_error.mpr rfl

@[simp] theorem neverMutated_aborts : NeverMutated (aborts : Except BlockFault α) :=
  raises_error.mpr rfl

theorem neverMutated_ite {c : Prop} [Decidable c] {x y : Except BlockFault α} :
    NeverMutated (if c then x else y) ↔ (c → NeverMutated x) ∧ (¬ c → NeverMutated y) := raises_ite

end

/-- The index entry of a block, as the checks of the next block read it.  The last two fields are
`IsMWEBEnabled` at this entry and at the one before it. -/
structure CBlockIndex where
  nHeight : Int
  medianTimePast : Int
  mwebAmount : Int
  hogexHash : Uint256
  mwebEnabled : Bool
  prevMwebEnabled : Bool
