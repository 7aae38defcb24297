import ZkCoin.Mw.CoinState

/-!
# Applying an extension block

A block adds its outputs and then spends its inputs.  Each of these changes is one step on the state
that the cache shows, keeps that state sound, and is recorded well enough to be taken back.

* `CoinState.Sound`  — leaf set and range describe exactly the coins.
* `ViewInvariant`    — a view shows a sound state, the one its best header commits to.
* `addUTXO_shows`, `spendUTXO_shows` — one output, one input.
* `Undoes`           — what the undo data of a block says about the states around it.
* `Applies`          — what a block does to the leaves.
* `applyBlockChanges_shows` — a whole block.
-/

open Bytes

namespace Mw

/-! ## sound states -/

section
variable (blake3 : Bytes → Uint256)

structure CoinState.Sound (s : CoinState) : Prop where
  next_eq : s.next = s.leaves.length
  unspent_iff : ∀ i, s.unspent i = true ↔ ∃ id u, s.coins id = some u ∧ u.leafIdx = i
  leaf_eq : ∀ id u, s.coins id = some u → s.leaves[u.leafIdx]? = some (u.leafHash blake3)
  leafIdx_inj : ∀ id id' u u', s.coins id = some u → s.coins id' = some u' →
    u.leafIdx = u'.leafIdx → id = id'
  id_eq : ∀ id u, s.coins id = some u → u.id blake3 = id

def ViewInvariant (v : View) : Prop :=
  ∃ s, Shows blake3 v s ∧ s.Sound blake3 ∧
    ∀ header, v.header = some header → v.checkHeader blake3 header = .ok ()

end

variable {blake3 : Bytes → Uint256}

theorem ViewInvariant.fresh {v : View} (h : ViewInvariant blake3 v) :
    ViewInvariant blake3 (.cache v (.fresh v)) := by
  obtain ⟨s, hshows, hsound, hcheck⟩ := h
  refine ⟨s, fresh_shows hshows, hsound, ?_⟩
  intro header hheader
  rw [(fresh_shows hshows).checkHeader_congr hshows]
  exact hcheck header hheader

variable {s : CoinState} {u : UTXO}

theorem CoinState.Sound.leafIdx_lt (h : s.Sound blake3) {id : Uint256} (hu : s.coins id = some u) :
    u.leafIdx < s.leaves.length :=
  (List.getElem?_eq_some_iff.mp (h.leaf_eq id u hu)).1

theorem CoinState.Sound.unspent_lt (h : s.Sound blake3) {i : Nat} (hi : s.unspent i = true) :
    i < s.next := by
  obtain ⟨id, u, hu, rfl⟩ := (h.unspent_iff i).mp hi
  rw [h.next_eq]
  exact h.leafIdx_lt hu

theorem CoinState.Sound.add (h : s.Sound blake3) (hnone : s.coins (u.id blake3) = none)
    (hidx : u.leafIdx = s.leaves.length) :
    (s.add blake3 u).Sound blake3 := by
  -- the coins afterwards: the new one under its id, the old ones elsewhere
  have hcoins : ∀ id u', (s.add blake3 u).coins id = some u' ↔
      (id = u.id blake3 ∧ u' = u) ∨ (id ≠ u.id blake3 ∧ s.coins id = some u') := by
    intro id u'
    show Function.update s.coins (u.id blake3) (some u) id = some u' ↔ _
    by_cases hid : id = u.id blake3
    · rw [hid, Function.update_self]
      simp [eq_comm]
    · rw [Function.update_of_ne hid]
      simp [hid]
  have hold : ∀ id u', s.coins id = some u' → (s.add blake3 u).coins id = some u' := by
    intro id u' hu'
    refine (hcoins id u').mpr (.inr ⟨?_, hu'⟩)
    rintro rfl
    rw [hnone] at hu'
    cases hu'
  refine ⟨?_, ?_, ?_, ?_, ?_⟩
  · show (if u.leafIdx ≥ s.next then u.leafIdx + 1 else s.next) =
      (s.leaves ++ [u.leafHash blake3]).length
    rw [if_pos (by rw [h.next_eq, hidx]), List.length_append, List.length_singleton, hidx]
  · intro i
    show (s.unspent i || decide (u.leafIdx = i)) = true ↔ _
    rw [Bool.or_eq_true, decide_eq_true_iff, h.unspent_iff]
    constructor
    · rintro (⟨id, u', hu', hi⟩ | hi)
      · exact ⟨id, u', hold id u' hu', hi⟩
      · exact ⟨u.id blake3, u, (hcoins _ _).mpr (.inl ⟨rfl, rfl⟩), hi⟩
    · rintro ⟨id, u', hu', hi⟩
      rcases (hcoins id u').mp hu' with ⟨-, rfl⟩ | ⟨-, hu'⟩
      · exact .inr hi
      · exact .inl ⟨id, u', hu', hi⟩
  · intro id u' hu'
    show (s.leaves ++ [u.leafHash blake3])[u'.leafIdx]? = _
    rcases (hcoins id u').mp hu' with ⟨-, rfl⟩ | ⟨-, hu'⟩
    · rw [hidx, List.getElem?_append_right le_rfl, Nat.sub_self]
      rfl
    · rw [List.getElem?_append_left (h.leafIdx_lt hu')]
      exact h.leaf_eq id u' hu'
  · intro id id' u₁ u₂ h₁ h₂ heq
    rcases (hcoins id u₁).mp h₁ with ⟨rfl, rfl⟩ | ⟨-, hold₁⟩
    · rcases (hcoins id' u₂).mp h₂ with ⟨rfl, -⟩ | ⟨-, hold₂⟩
      · rfl
      · have := h.leafIdx_lt hold₂
        omega
    · rcases (hcoins id' u₂).mp h₂ with ⟨-, rfl⟩ | ⟨-, hold₂⟩
      · have := h.leafIdx_lt hold₁
        omega
      · exact h.leafIdx_inj id id' u₁ u₂ hold₁ hold₂ heq
  · intro id u' hu'
    rcases (hcoins id u').mp hu' with ⟨rfl, rfl⟩ | ⟨-, hu'⟩
    · rfl
    · exact h.id_eq id u' hu'

theorem CoinState.Sound.spend (h : s.Sound blake3) {id : Uint256} (hu : s.coins id = some u) :
    (s.spend id u).Sound blake3 := by
  have hcoins : ∀ id' u', (s.spend id u).coins id' = some u' ↔
      id' ≠ id ∧ s.coins id' = some u' := by
    intro id' u'
    show Function.update s.coins id none id' = some u' ↔ _
    by_cases hid : id' = id
    · rw [hid, Function.update_self]
      simp
    · rw [Function.update_of_ne hid]
      simp [hid]
  refine ⟨h.next_eq, ?_, ?_, ?_, ?_⟩
  · intro i
    show (s.unspent i && !decide (u.leafIdx = i)) = true ↔ _
    rw [Bool.and_eq_true, Bool.not_eq_true', decide_eq_false_iff_not, h.unspent_iff]
    constructor
    · rintro ⟨⟨id', u', hu', rfl⟩, hne⟩
      refine ⟨id', u', (hcoins id' u').mpr ⟨?_, hu'⟩, rfl⟩
      rintro rfl
      rw [hu] at hu'
      obtain rfl := Option.some.inj hu'
      exact hne rfl
    · rintro ⟨id', u', hu', rfl⟩
      obtain ⟨hne, hu'⟩ := (hcoins id' u').mp hu'
      refine ⟨⟨id', u', hu', rfl⟩, ?_⟩
      intro heq
      exact hne (h.leafIdx_inj id' id u' u hu' hu heq.symm)
  · intro id' u' hu'
    exact h.leaf_eq id' u' ((hcoins id' u').mp hu').2
  · intro id₁ id₂ u₁ u₂ h₁ h₂ heq
    exact h.leafIdx_inj id₁ id₂ u₁ u₂ ((hcoins id₁ u₁).mp h₁).2 ((hcoins id₂ u₂).mp h₂).2 heq
  · intro id' u' hu'
    exact h.id_eq id' u' ((hcoins id' u').mp hu').2

/-! ## one output and one input -/

variable {base : View} {c c' : CacheLayer}

theorem addUTXO_shows (h : Shows blake3 (.cache base c) s) {height : Int} {output : Output}
    (hadd : c.addUTXO blake3 base height output = .ok c') :
    s.coins (output.getOutputId blake3) = none ∧
      Shows blake3 (.cache base c') (s.add blake3 ⟨height, s.leaves.length, output⟩) := by
  unfold CacheLayer.addUTXO at hadd
  obtain ⟨found, hfound, hadd⟩ := Checked.bind_eq_ok.mp hadd
  obtain ⟨hnew, hadd⟩ := Checked.ite_error_eq_ok.mp hadd
  obtain ⟨c₁, hdata, hadd⟩ := Checked.bind_eq_ok.mp hadd
  have hnone : s.coins (output.getOutputId blake3) = none := by
    rw [h.coins_eq] at hfound
    rw [Except.ok.inj hfound]
    exact Option.not_isSome_iff_eq_none.mp hnew
  have hnum : c.numLeaves = s.leaves.length := h.numLeaves_eq
  obtain ⟨new, hleaf, hrange⟩ := CacheLayer.addLeaf_ok h.range
    (Leaf.create blake3 c.numLeaves (output.getOutputId blake3).data) rfl
  obtain rfl := Except.ok.inj (hleaf.symm.trans hdata)
  obtain rfl := Except.ok.inj hadd
  refine ⟨hnone, h.header_eq, ?_, ?_, ?_, ?_, hrange⟩
  · refine getUTXO_append h.coins_eq rfl ?_
    rw [hnum]
    show Journal.record _ s.coins _ >>= _ = _
    rw [Checked.bind_eq_ok]
    refine ⟨_, Journal.record_eq_ok.mpr ⟨?_, rfl⟩, rfl⟩
    rw [hnone]
    exact Bool.false_ne_true
  · intro i
    show (View.cache base (CacheLayer.addToLeafSet base _ c.numLeaves)).containsLeaf i = _
    rw [containsLeaf_add, hnum]
    show ((View.cache base c).containsLeaf i || decide (s.leaves.length = i)) = _
    rw [h.unspent_eq]
    rfl
  · show (if c.numLeaves ≥ c.nextLeafIdx then c.numLeaves + 1 else c.nextLeafIdx) = _
    rw [hnum, show c.nextLeafIdx = s.next from h.next_eq]
    rfl
  · show base.leafHashes.take c.firstLeaf ++ (c.leaves ++ [_]).map Leaf.hash = _
    rw [List.map_append, ← List.append_assoc, hnum,
      show base.leafHashes.take c.firstLeaf ++ c.leaves.map Leaf.hash = s.leaves from h.leaves_eq]
    rfl

theorem spendUTXO_shows (h : Shows blake3 (.cache base c) s) {id : Uint256}
    (hspend : c.spendUTXO base id = .ok (u, c')) :
    s.coins id = some u ∧ Shows blake3 (.cache base c') (s.spend id u) := by
  unfold CacheLayer.spendUTXO at hspend
  rw [h.coins_eq] at hspend
  cases hcoin : s.coins id with
  | none =>
    rw [hcoin] at hspend
    cases hspend
  | some utxo =>
    rw [hcoin] at hspend
    obtain ⟨-, hspend⟩ := Checked.ite_error_eq_ok.mp hspend
    obtain ⟨rfl, rfl⟩ := Prod.mk.inj (Except.ok.inj hspend)
    refine ⟨rfl, h.header_eq, ?_, ?_, h.next_eq, h.leaves_eq, h.range⟩
    · refine getUTXO_append h.coins_eq rfl ?_
      show Journal.record _ s.coins _ >>= _ = _
      rw [Checked.bind_eq_ok]
      refine ⟨_, Journal.record_eq_ok.mpr ⟨?_, rfl⟩, rfl⟩
      rw [hcoin]
      exact Bool.true_eq_false_eq_False
    · intro i
      show (View.cache base (CacheLayer.removeFromLeafSet base c utxo.leafIdx)).containsLeaf i = _
      rw [containsLeaf_remove, h.unspent_eq]
      rfl

/-! ## runs over outputs and inputs -/

section
variable (blake3 : Bytes → Uint256)

def keyed (us : List UTXO) : List (Uint256 × UTXO) := us.map fun u => (u.id blake3, u)

/-- the leaf hashes of the outputs `ids`, the first one at index `first` -/
def outputLeafHashes (first : Nat) (ids : List Uint256) : List Uint256 :=
  leafHashesFrom blake3 first (ids.map Uint256.data)

/-- `mid` is `s` with the coins `added` -/
structure Added (s : CoinState) (added : List UTXO) (mid : CoinState) : Prop where
  coins_run : (Journal.additions (keyed blake3 added)).foldlM (Journal.record Fault.assertion)
    s.coins = .ok mid.coins
  there : ∀ u ∈ added, mid.coins (u.id blake3) = some u
  leafIdx_eq : ∀ j u, added[j]? = some u → u.leafIdx = s.leaves.length + j
  leaves_eq : mid.leaves =
    s.leaves ++ outputLeafHashes blake3 s.leaves.length (added.map (UTXO.id blake3))
  header_eq : mid.header = s.header

/-- `s` is `mid` without the coins `spent` -/
structure Spent (mid : CoinState) (spent : List UTXO) (s : CoinState) : Prop where
  coins_run : (Journal.removals (keyed blake3 spent)).foldlM (Journal.record Fault.assertion)
    mid.coins = .ok s.coins
  there : ∀ u ∈ spent, mid.coins (u.id blake3) = some u
  gone : ∀ u ∈ spent, s.coins (u.id blake3) = none
  leaves_eq : s.leaves = mid.leaves
  header_eq : s.header = mid.header

end

theorem length_add_leaves (s : CoinState) (u : UTXO) :
    (s.add blake3 u).leaves.length = s.leaves.length + 1 := by
  show (s.leaves ++ [u.leafHash blake3]).length = _
  rw [List.length_append, List.length_singleton]

variable {mid : CoinState}

theorem Added.cons {us : List UTXO} (hnone : s.coins (u.id blake3) = none)
    (hidx : u.leafIdx = s.leaves.length) (h : Added blake3 (s.add blake3 u) us mid) :
    Added blake3 s (u :: us) mid where
  coins_run := by
    show List.foldlM _ _ ((u.id blake3, some u) :: Journal.additions (keyed blake3 us)) = _
    rw [List.foldlM_cons, Checked.bind_eq_ok]
    refine ⟨_, Journal.record_eq_ok.mpr ⟨?_, rfl⟩, h.coins_run⟩
    rw [hnone]
    exact Bool.false_ne_true
  there := by
    intro u' hu'
    rcases List.mem_cons.mp hu' with rfl | hu'
    · refine (Journal.record_additions h.coins_run _ _).1 ?_
      show Function.update s.coins (u'.id blake3) (some u') (u'.id blake3) = _
      rw [Function.update_self]
    · exact h.there u' hu'
  leafIdx_eq := by
    intro j u' hu'
    cases j with
    | zero =>
      obtain rfl := Option.some.inj hu'
      exact hidx
    | succ j =>
      rw [h.leafIdx_eq j u' hu', length_add_leaves]
      omega
  leaves_eq := by
    rw [h.leaves_eq, length_add_leaves]
    show s.leaves ++ [u.leafHash blake3] ++ _ = _
    rw [List.append_assoc, UTXO.leafHash, hidx, outputLeafHashes, outputLeafHashes, List.map_cons,
      List.map_cons, leafHashesFrom_cons]
    rfl
  header_eq := h.header_eq

variable {added : List UTXO}

theorem Added.leafIdx_ge (h : Added blake3 s added mid) (hu : u ∈ added) :
    s.leaves.length ≤ u.leafIdx := by
  obtain ⟨j, hj⟩ := List.mem_iff_getElem?.mp hu
  rw [h.leafIdx_eq j u hj]
  omega

theorem Spent.cons {us : List UTXO} (hthere : mid.coins (u.id blake3) = some u)
    (h : Spent blake3 (mid.spend (u.id blake3) u) us s) : Spent blake3 mid (u :: us) s where
  coins_run := by
    show List.foldlM _ _ ((u.id blake3, none) :: Journal.removals (keyed blake3 us)) = _
    rw [List.foldlM_cons, Checked.bind_eq_ok]
    refine ⟨_, Journal.record_eq_ok.mpr ⟨?_, rfl⟩, h.coins_run⟩
    rw [hthere]
    exact Bool.noConfusion
  there := by
    intro u' hu'
    rcases List.mem_cons.mp hu' with rfl | hu'
    · exact hthere
    · have hlater := h.there u' hu'
      change Function.update mid.coins (u.id blake3) none (u'.id blake3) = some u' at hlater
      by_cases hid : u'.id blake3 = u.id blake3
      · rw [hid, Function.update_self] at hlater
        cases hlater
      · rwa [Function.update_of_ne hid] at hlater
  gone := by
    intro u' hu'
    rcases List.mem_cons.mp hu' with rfl | hu'
    · -- later removals do not bring the coin back
      cases hcoin : s.coins (u'.id blake3) with
      | none => rfl
      | some w =>
        have hback := (Journal.record_removals h.coins_run _ _).1 hcoin
        change Function.update mid.coins (u'.id blake3) none (u'.id blake3) = some w at hback
        rw [Function.update_self] at hback
        cases hback
    · exact h.gone u' hu'
  leaves_eq := h.leaves_eq
  header_eq := h.header_eq

theorem addOutputs_shows {height : Int} {outputs : List Output} (h : Shows blake3 (.cache base c) s)
    (hs : s.Sound blake3)
    (hrun : outputs.foldlM (fun c output => CacheLayer.addUTXO blake3 base c height output) c = .ok
      c') :
    ∃ added mid, Shows blake3 (.cache base c') mid ∧ mid.Sound blake3 ∧ Added blake3 s added mid ∧
      added.map (UTXO.id blake3) = outputs.map (Output.getOutputId blake3) ∧
      ∀ u ∈ added, u.blockHeight = height ∧ u.output ∈ outputs := by
  induction outputs generalizing c s with
  | nil =>
    obtain rfl := Except.ok.inj hrun
    exact ⟨[], s, h, hs, ⟨rfl, nofun, nofun, (List.append_nil _).symm, rfl⟩, rfl, nofun⟩
  | cons output outputs ih =>
    rw [List.foldlM_cons, Checked.bind_eq_ok] at hrun
    obtain ⟨c₁, hadd, hrun⟩ := hrun
    obtain ⟨hnone, h₁⟩ := addUTXO_shows h hadd
    obtain ⟨added, mid, hmid, hsound, hadded, hids, hnew⟩ := ih h₁ (hs.add hnone rfl) hrun
    refine ⟨⟨height, s.leaves.length, output⟩ :: added, mid, hmid, hsound, ?_, ?_, ?_⟩
    · exact Added.cons hnone rfl hadded
    · rw [List.map_cons, List.map_cons, hids]
      rfl
    · refine List.forall_mem_cons.mpr ⟨⟨rfl, List.mem_cons_self⟩, ?_⟩
      intro u hu
      exact ⟨(hnew u hu).1, List.mem_cons_of_mem _ (hnew u hu).2⟩

theorem applyInput_shows {allow : Bool} {input : Input} {acc acc' : List UTXO}
    (h : Shows blake3 (.cache base c) s)
    (happly : CacheLayer.applyInput base allow (acc, c) input = .ok (acc', c')) :
    ∃ u, acc' = acc ++ [u] ∧ s.coins input.outputId = some u ∧
      Shows blake3 (.cache base c') (s.spend input.outputId u) := by
  unfold CacheLayer.applyInput at happly
  obtain ⟨found, -, happly⟩ := Checked.bind_eq_ok.mp happly
  cases found with
  | none => cases happly
  | some utxo =>
    obtain ⟨-, happly⟩ := Checked.ite_error_eq_ok.mp happly
    obtain ⟨⟨u, c₁⟩, hspend, hend⟩ := Checked.bind_eq_ok.mp happly
    obtain ⟨rfl, rfl⟩ := Prod.mk.inj (Except.ok.inj hend)
    obtain ⟨hu, hshows⟩ := spendUTXO_shows h hspend
    exact ⟨u, rfl, hu, hshows⟩

theorem applyInputs_shows {allow : Bool} {inputs : List Input} {acc acc' : List UTXO}
    (h : Shows blake3 (.cache base c) mid) (hmid : mid.Sound blake3)
    (hrun : inputs.foldlM (CacheLayer.applyInput base allow) (acc, c) = .ok (acc', c')) :
    ∃ spent s, acc' = acc ++ spent ∧ Shows blake3 (.cache base c') s ∧ s.Sound blake3 ∧
      Spent blake3 mid spent s ∧ spent.map (UTXO.id blake3) = inputs.map Input.outputId := by
  induction inputs generalizing c mid acc with
  | nil =>
    obtain ⟨rfl, rfl⟩ := Prod.mk.inj (Except.ok.inj hrun)
    exact ⟨[], mid, (List.append_nil _).symm, h, hmid, ⟨rfl, nofun, nofun, rfl, rfl⟩, rfl⟩
  | cons input inputs ih =>
    rw [List.foldlM_cons, Checked.bind_eq_ok] at hrun
    obtain ⟨⟨acc₁, c₁⟩, happly, hrun⟩ := hrun
    obtain ⟨u, rfl, hu, h₁⟩ := applyInput_shows h happly
    have hid := hmid.id_eq _ _ hu
    rw [← hid] at hu h₁
    obtain ⟨spent, s, rfl, hshows, hsound, hspent, hids⟩ := ih h₁ (hmid.spend hu) hrun
    refine ⟨u :: spent, s, ?_, hshows, hsound, Spent.cons hu hspent, ?_⟩
    · rw [List.append_assoc]
      rfl
    · rw [List.map_cons, List.map_cons, hids, hid]

/-! ## a whole block -/

/-- what undo data says about the state before a block and the state after it -/
structure Undoes (blake3 : Bytes → Uint256) (before : CoinState) (undo : BlockUndo)
    (after : CoinState) : Prop where
  prevHeader_eq : undo.prevHeader = before.header
  coins_run : (undo.coinsSpent.map (fun u : UTXO => (u.id blake3, some u)) ++
      undo.coinsAdded.map fun id => (id, none)).foldlM (Journal.record Fault.assertion) after.coins =
    .ok before.coins
  unspent_eq : ∀ i, before.unspent i =
    ((after.unspent i || decide (i ∈ undo.coinsSpent.map UTXO.leafIdx)) &&
      decide (i < before.leaves.length))
  leaves_isPrefix : before.leaves <+: after.leaves

theorem mem_keyed {us : List UTXO} {id : Uint256} :
    (id, u) ∈ keyed blake3 us ↔ u ∈ us ∧ u.id blake3 = id := by
  simp only [keyed, List.mem_map, Prod.mk.injEq]
  constructor
  · rintro ⟨u', hu', rfl, rfl⟩
    exact ⟨hu', rfl⟩
  · rintro ⟨hu, rfl⟩
    exact ⟨u, hu, rfl, rfl⟩

variable {before : CoinState}

theorem unspent_before {after : CoinState} {spent : List UTXO} (hbefore : before.Sound blake3)
    (hafter : after.Sound blake3) (hadded : Added blake3 before added mid)
    (hspent : Spent blake3 mid spent after) (i : Nat) :
    before.unspent i = ((after.unspent i || decide (i ∈ spent.map UTXO.leafIdx)) &&
      decide (i < before.leaves.length)) := by
  have hold : ∀ id u, mid.coins id = some u → u.leafIdx < before.leaves.length →
      before.coins id = some u := by
    intro id u hu hlt
    rcases (Journal.record_additions hadded.coins_run id u).2 hu with hu | hu
    · exact hu
    · have := hadded.leafIdx_ge (mem_keyed.mp hu).1
      omega
  rw [Bool.eq_iff_iff, Bool.and_eq_true, Bool.or_eq_true, decide_eq_true_iff, decide_eq_true_iff,
    hbefore.unspent_iff, hafter.unspent_iff]
  constructor
  · rintro ⟨id, u, hu, rfl⟩
    refine ⟨?_, hbefore.leafIdx_lt hu⟩
    have hmid := (Journal.record_additions hadded.coins_run id u).1 hu
    rcases (Journal.record_removals hspent.coins_run id u).2 hmid with hu | ⟨w, hw⟩
    · exact .inl ⟨id, u, hu, rfl⟩
    · obtain ⟨hmem, rfl⟩ := mem_keyed.mp hw
      obtain rfl := Option.some.inj ((hspent.there w hmem).symm.trans hmid)
      exact .inr (List.mem_map_of_mem hmem)
  · rintro ⟨⟨id, u, hu, rfl⟩ | hi, hlt⟩
    · have hmid := (Journal.record_removals hspent.coins_run id u).1 hu
      exact ⟨id, u, hold id u hmid hlt, rfl⟩
    · obtain ⟨u, hu, rfl⟩ := List.mem_map.mp hi
      exact ⟨_, u, hold _ u (hspent.there u hu) hlt, rfl⟩

/-- the coin `id` has leaf `i` once the outputs of `body` are added -/
def Placed (blake3 : Bytes → Uint256) (before : CoinState) (body : TxBody) (id : Uint256) (i : Nat) :
    Prop :=
  (∃ u, before.coins id = some u ∧ u.leafIdx = i) ∨
    ∃ j, (body.getOutputIds blake3)[j]? = some id ∧ i = before.leaves.length + j

/-- what a block does to the leaves: its outputs get the next ones, and it spends the coins whose
leaves are not unspent afterwards -/
structure Applies (blake3 : Bytes → Uint256) (before : CoinState) (body : TxBody)
    (after : CoinState) : Prop where
  leaves_eq : after.leaves =
    before.leaves ++ outputLeafHashes blake3 before.leaves.length (body.getOutputIds blake3)
  spent_iff : ∀ id, id ∈ body.getSpentIds ↔
    ∃ i, Placed blake3 before body id i ∧ after.unspent i = false

theorem placed_iff {body : TxBody} (hadded : Added blake3 before added mid)
    (hids : added.map (UTXO.id blake3) = body.getOutputIds blake3) (id : Uint256) (i : Nat) :
    Placed blake3 before body id i ↔ ∃ u, mid.coins id = some u ∧ u.leafIdx = i := by
  unfold Placed
  rw [← hids]
  constructor
  · rintro (⟨u, hu, hi⟩ | ⟨j, hj, hi⟩)
    · exact ⟨u, (Journal.record_additions hadded.coins_run id u).1 hu, hi⟩
    · rw [List.getElem?_map, Option.map_eq_some_iff] at hj
      obtain ⟨u, hu, rfl⟩ := hj
      exact ⟨u, hadded.there u (List.mem_of_getElem? hu), (hadded.leafIdx_eq j u hu).trans hi.symm⟩
  · rintro ⟨u, hu, hi⟩
    rcases (Journal.record_additions hadded.coins_run id u).2 hu with hold | hnew
    · exact .inl ⟨u, hold, hi⟩
    · obtain ⟨hmem, rfl⟩ := mem_keyed.mp hnew
      obtain ⟨j, hj⟩ := List.mem_iff_getElem?.mp hmem
      refine .inr ⟨j, ?_, hi.symm.trans (hadded.leafIdx_eq j u hj)⟩
      rw [List.getElem?_map, hj]
      rfl

theorem applies_of_added_spent {after : CoinState} {spent : List UTXO} {body : TxBody}
    (hmid : mid.Sound blake3) (hafter : after.Sound blake3) (hadded : Added blake3 before added mid)
    (hspent : Spent blake3 mid spent after)
    (hout : added.map (UTXO.id blake3) = body.getOutputIds blake3)
    (hin : spent.map (UTXO.id blake3) = body.getSpentIds) : Applies blake3 before body after where
  leaves_eq := by rw [hspent.leaves_eq, hadded.leaves_eq, hout]
  spent_iff := by
    intro id
    simp only [placed_iff hadded hout]
    rw [← hin]
    constructor
    · intro hid
      obtain ⟨u, hu, rfl⟩ := List.mem_map.mp hid
      refine ⟨u.leafIdx, ⟨u, hspent.there u hu, rfl⟩, ?_⟩
      -- another coin at this leaf would be the same coin, which is gone
      rw [Bool.eq_false_iff]
      intro hunspent
      obtain ⟨id', u', hu', hleaf⟩ := (hafter.unspent_iff _).mp hunspent
      have hmid' := (Journal.record_removals hspent.coins_run id' u').1 hu'
      obtain rfl := hmid.leafIdx_inj _ _ _ _ hmid' (hspent.there u hu) hleaf
      rw [hspent.gone u hu] at hu'
      cases hu'
    · rintro ⟨i, ⟨u, hu, rfl⟩, hunspent⟩
      rcases (Journal.record_removals hspent.coins_run id u).2 hu with hleft | ⟨w, hw⟩
      · have htrue := (hafter.unspent_iff u.leafIdx).mpr ⟨id, u, hleft, rfl⟩
        rw [hunspent] at htrue
        cases htrue
      · obtain ⟨hmem, rfl⟩ := mem_keyed.mp hw
        exact List.mem_map_of_mem hmem

def FromBlock (blake3 : Bytes → Uint256) (before : CoinState) (block : Block) (u : UTXO) : Prop :=
  before.coins (u.id blake3) = some u ∨
    u.blockHeight = block.header.height ∧ u.output ∈ block.body.outputs

/-- where the coins of undo data, and those shown after a block, come from -/
structure CoinsFrom (blake3 : Bytes → Uint256) (before : CoinState) (block : Block)
    (undo : BlockUndo) (after : CoinState) : Prop where
  spent : ∀ u ∈ undo.coinsSpent, FromBlock blake3 before block u
  leafIdx_lt : ∀ u ∈ undo.coinsSpent, u.leafIdx < after.leaves.length
  spent_length : undo.coinsSpent.length = block.body.inputs.length
  added_length : undo.coinsAdded.length = block.body.outputs.length
  shown : ∀ id u, after.coins id = some u → FromBlock blake3 before block u

theorem coinsFrom_of_added_spent {after : CoinState} {block : Block} {undo : BlockUndo}
    (hmid : mid.Sound blake3) (hadded : Added blake3 before added mid)
    (hspent : Spent blake3 mid undo.coinsSpent after)
    (hnew : ∀ u ∈ added, u.blockHeight = block.header.height ∧ u.output ∈ block.body.outputs)
    (hspentIds : undo.coinsSpent.map (UTXO.id blake3) = block.body.inputs.map Input.outputId)
    (haddedIds : undo.coinsAdded = block.body.getOutputIds blake3) :
    CoinsFrom blake3 before block undo after := by
  have hfrom : ∀ id u, mid.coins id = some u → FromBlock blake3 before block u := by
    intro id u hu
    obtain rfl := hmid.id_eq id u hu
    rcases (Journal.record_additions hadded.coins_run _ u).2 hu with hold | hmem
    · exact .inl hold
    · exact .inr (hnew u (mem_keyed.mp hmem).1)
  refine ⟨fun u hu => hfrom _ u (hspent.there u hu), ?_, ?_, ?_, ?_⟩
  · intro u hu
    rw [hspent.leaves_eq]
    exact hmid.leafIdx_lt (hspent.there u hu)
  · have hlen := congrArg List.length hspentIds
    rwa [List.length_map, List.length_map] at hlen
  · rw [haddedIds, TxBody.getOutputIds, List.length_map]
  · intro id u hu
    exact hfrom id u ((Journal.record_removals hspent.coins_run id u).1 hu)

/-- **A block.**  On a sound view a block leads to a sound state, the one its header commits to, and
its undo data undoes it. -/
theorem applyBlockChanges_shows {kernelSums : KernelSums} {block : Block} {allow : Bool}
    {undo : BlockUndo} (h : Shows blake3 base s) (hs : s.Sound blake3)
    (happly : (CacheLayer.fresh base).applyBlockChanges blake3 kernelSums base block allow = .ok
      (undo, c')) :
    ∃ s', Shows blake3 (.cache base c') s' ∧ s'.header = some block.header ∧ s'.Sound blake3 ∧
      (View.cache base c').checkHeader blake3 block.header = .ok () ∧ Undoes blake3 s undo s' ∧
      Applies blake3 s block.body s' ∧ CoinsFrom blake3 s block undo s' := by
  unfold CacheLayer.applyBlockChanges at happly
  obtain ⟨⟨⟩, -, happly⟩ := Checked.bind_eq_ok.mp happly
  obtain ⟨c₁, houtputs, happly⟩ := Checked.bind_eq_ok.mp happly
  obtain ⟨⟨coinsSpent, c₂⟩, hinputs, happly⟩ := Checked.bind_eq_ok.mp happly
  obtain ⟨⟨⟩, hcheck, hend⟩ := Checked.bind_eq_ok.mp happly
  obtain ⟨rfl, rfl⟩ := Prod.mk.inj (Except.ok.inj hend)
  have hfresh := fresh_shows h
  have hstart : Shows blake3 (.cache base { CacheLayer.fresh base with header := some block.header })
      { s with header := some block.header } :=
    ⟨rfl, hfresh.coins_eq, hfresh.unspent_eq, hfresh.next_eq, hfresh.leaves_eq, hfresh.range⟩
  have hsound : CoinState.Sound blake3 { s with header := some block.header } :=
    ⟨hs.next_eq, hs.unspent_iff, hs.leaf_eq, hs.leafIdx_inj, hs.id_eq⟩
  obtain ⟨added, mid, hmid, hmidSound, hadded, hids, hnew⟩ := addOutputs_shows hstart hsound houtputs
  obtain ⟨spent, s', hacc, hshows, hsound', hspent, hspentIds⟩ :=
    applyInputs_shows hmid hmidSound hinputs
  rw [List.nil_append] at hacc
  subst hacc
  have happlies : Applies blake3 { s with header := some block.header } block.body s' :=
    applies_of_added_spent hmidSound hsound' hadded hspent hids hspentIds
  have hfrom : CoinsFrom blake3 { s with header := some block.header } block
      ⟨base.header, coinsSpent, block.body.getOutputIds blake3⟩ s' :=
    coinsFrom_of_added_spent hmidSound hadded hspent hnew hspentIds rfl
  refine ⟨s', hshows, hspent.header_eq.trans hadded.header_eq, hsound', hcheck, ⟨?_, ?_, ?_, ?_⟩,
    ⟨happlies.leaves_eq, happlies.spent_iff⟩, ⟨hfrom.spent, hfrom.leafIdx_lt, hfrom.spent_length,
      hfrom.added_length, hfrom.shown⟩⟩
  · exact h.header_eq
  · have hundo := Journal.record_undo hadded.coins_run hspent.coins_run (by
      rintro ⟨id, u⟩ hu
      obtain ⟨hmem, rfl⟩ := mem_keyed.mp hu
      exact hspent.there u hmem)
    have hspentEntries : Journal.additions (keyed blake3 coinsSpent) =
        coinsSpent.map fun u => (u.id blake3, some u) := by
      rw [Journal.additions, keyed, List.map_map]
      rfl
    have haddedEntries : Journal.removals (keyed blake3 added) =
        (block.body.getOutputIds blake3).map fun id => (id, none) := by
      rw [Journal.removals, keyed, List.map_map, TxBody.getOutputIds, ← hids, List.map_map]
      rfl
    rw [← hspentEntries]
    show List.foldlM _ _ (_ ++ (block.body.getOutputIds blake3).map fun id => (id, none)) = _
    rw [← haddedEntries]
    exact hundo
  · intro i
    exact unspent_before hsound hsound' hadded hspent i
  · rw [hspent.leaves_eq, hadded.leaves_eq]
    exact List.prefix_append _ _

end Mw
