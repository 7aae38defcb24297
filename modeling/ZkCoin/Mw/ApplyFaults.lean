import ZkCoin.Mw.ApplyBlock

/-!
# What can go wrong when an extension block is applied

On a view that shows a sound state no assertion fires and no file is read past its end: a block that
cannot be applied is refused by an exception of validation.

* `addUTXO_raises`, `applyInput_raises`  — one output, one input.
* `applyBlock_raises`                    — a whole block.
-/

open Bytes Checked

namespace Mw

variable {blake3 : Bytes → Uint256}

@[simp] theorem isValidation_validation (e : EConsensusError) :
    (Fault.validation e).IsValidation :=
  ⟨e, rfl⟩

variable {base : View} {c : CacheLayer} {s : CoinState}

theorem addUTXO_raises (h : Shows blake3 (.cache base c) s) (height : Int) (output : Output) :
    Raises Fault.IsValidation (c.addUTXO blake3 base height output) := by
  obtain ⟨new, hleaf, -⟩ := CacheLayer.addLeaf_ok h.range
    (Leaf.create blake3 c.numLeaves (output.getOutputId blake3).data) rfl
  unfold CacheLayer.addUTXO
  show Raises _ ((View.cache base c).getUTXO (output.getOutputId blake3) >>= _)
  rw [h.coins_eq, raises_bind]
  refine ⟨raises_ok, fun utxo _ => raises_ite.mpr ⟨fun _ => by simp, fun _ => ?_⟩⟩
  show Raises _ (CacheLayer.addLeaf blake3 base c _ >>= _)
  rw [hleaf]
  exact raises_ok

theorem addOutputs_raises {height : Int} (outputs : List Output)
    (h : Shows blake3 (.cache base c) s) :
    Raises Fault.IsValidation (outputs.foldlM (fun c output =>
      CacheLayer.addUTXO blake3 base c height output) c) := by
  induction outputs generalizing c s with
  | nil => exact raises_ok
  | cons output outputs ih =>
    rw [List.foldlM_cons, raises_bind]
    refine ⟨addUTXO_raises h height output, ?_⟩
    intro c' hadd
    exact ih (addUTXO_shows h hadd).2

theorem applyInput_raises (h : Shows blake3 (.cache base c) s) (allow : Bool) (acc : List UTXO)
    (input : Input) :
    Raises Fault.IsValidation (CacheLayer.applyInput base allow (acc, c) input) := by
  have hspend : Raises Fault.IsValidation (c.spendUTXO base input.outputId) := by
    unfold CacheLayer.spendUTXO
    rw [h.coins_eq]
    cases s.coins input.outputId with
    | none => exact raises_error.mpr ⟨_, rfl⟩
    | some utxo =>
      show Raises _ (if _ then _ else _)
      simp [raises_ite]
  unfold CacheLayer.applyInput
  show Raises _ ((View.cache base c).getUTXO input.outputId >>= _)
  rw [h.coins_eq]
  cases s.coins input.outputId with
  | none => exact raises_error.mpr ⟨_, rfl⟩
  | some utxo =>
    show Raises _ (if _ then _ else _)
    simp [raises_ite, raises_bind, hspend]

theorem applyInputs_raises {allow : Bool} (inputs : List Input) {acc : List UTXO}
    (h : Shows blake3 (.cache base c) s) :
    Raises Fault.IsValidation (inputs.foldlM (CacheLayer.applyInput base allow) (acc, c)) := by
  induction inputs generalizing c acc s with
  | nil => exact raises_ok
  | cons input inputs ih =>
    rw [List.foldlM_cons, raises_bind]
    refine ⟨applyInput_raises h allow acc input, ?_⟩
    rintro ⟨acc', c'⟩ happly
    obtain ⟨u, -, -, h'⟩ := applyInput_shows h happly
    exact ih h'

theorem checkHeader_raises {v : View} (h : Shows blake3 v s) (header : Header) :
    Raises Fault.IsValidation (v.checkHeader blake3 header) := by
  unfold View.checkHeader
  rw [h.range.outputRoot_eq]
  show Raises _ (if _ then _ else _)
  simp [raises_ite]

theorem applyBlockChanges_raises {kernelSums : KernelSums} {block : Block} {allow : Bool}
    (h : Shows blake3 base s) (hs : s.Sound blake3) :
    Raises Fault.IsValidation
      ((CacheLayer.fresh base).applyBlockChanges blake3 kernelSums base block allow) := by
  have hfresh := fresh_shows h
  have hstart : Shows blake3 (.cache base { CacheLayer.fresh base with header := some block.header })
      { s with header := some block.header } :=
    ⟨rfl, hfresh.coins_eq, hfresh.unspent_eq, hfresh.next_eq, hfresh.leaves_eq, hfresh.range⟩
  have hsound : CoinState.Sound blake3 { s with header := some block.header } :=
    ⟨hs.next_eq, hs.unspent_iff, hs.leaf_eq, hs.leafIdx_inj, hs.id_eq⟩
  unfold CacheLayer.applyBlockChanges
  rw [raises_bind]
  refine ⟨?_, fun _ _ => ?_⟩
  · unfold validateForBlock
    split
    · simp
    · simp [raises_ite]
  rw [raises_bind]
  refine ⟨addOutputs_raises _ hstart, fun c₁ houtputs => ?_⟩
  obtain ⟨added, mid, hmid, hmidSound, -⟩ := addOutputs_shows hstart hsound houtputs
  rw [raises_bind]
  refine ⟨applyInputs_raises _ hmid, ?_⟩
  rintro ⟨coinsSpent, c₂⟩ hinputs
  obtain ⟨spent, s', -, hshows, -, -, -⟩ := applyInputs_shows hmid hmidSound hinputs
  show Raises _ (_ >>= _)
  rw [raises_bind]
  exact ⟨checkHeader_raises hshows _, fun _ _ => raises_ok⟩

/-- **No failed assertion.**  A block that a sound view does not take is refused by validation. -/
theorem applyBlock_raises {kernelSums : KernelSums} {block : Block} {allow : Bool}
    (h : Shows blake3 (.cache base c) s) (hs : s.Sound blake3) :
    Raises Fault.IsValidation (c.applyBlock blake3 kernelSums base block allow) := by
  unfold CacheLayer.applyBlock
  show Raises _ (_ >>= _)
  rw [raises_bind]
  refine ⟨applyBlockChanges_raises h hs, ?_⟩
  rintro ⟨undo, validation⟩ hchanges
  obtain ⟨s', hshows, hheader, hsound, -⟩ := applyBlockChanges_shows h hs hchanges
  obtain ⟨self, rest, hflush, -⟩ := flush_shows hshows hheader fun i hi => hsound.unspent_lt hi
  show Raises _ (flush blake3 _ _ >>= _)
  rw [hflush]
  exact raises_ok

end Mw
