import ZkCoin.Mw.ApplyBlock

/-!
# Undoing an extension block

Undo data puts the spent coins back and takes the added ones away, rewinds the leaf set and the range
and restores the previous header.  On a fresh cache this gives back the state before the block, and a
flush hands it to the view below, unless there was no header before: a cache without a header is not
flushed.

* `rewindLeafSet_contains` — the leaf set after a rewind.
* `undoBlock_shows`        — undoing on a cache.
* `stack`, `flushAll`      — any number of caches over a view.
* `undoBlock_restores_iff` — the whole way down and back.
* `undoAll_restores`       — a run of blocks.
-/

open Bytes

namespace Mw

variable {blake3 : Bytes → Uint256}

/-! ## rewinding the leaf set -/

/-- no leaf is set at or above the next index -/
def LeafSetBounded (base : View) (c : CacheLayer) : Prop :=
  ∀ i, (View.cache base c).containsLeaf i = true → i < c.nextLeafIdx

variable {base : View} {c : CacheLayer}

theorem LeafSetBounded.add (h : LeafSetBounded base c) (i : Nat) :
    LeafSetBounded base (c.addToLeafSet base i) := by
  intro j hj
  rw [containsLeaf_add, Bool.or_eq_true, decide_eq_true_iff] at hj
  show j < if i ≥ c.nextLeafIdx then i + 1 else c.nextLeafIdx
  rcases hj with hj | rfl
  · have := h j hj
    split
    · omega
    · exact this
  · split
    · omega
    · omega

theorem addToLeafSet_run (h : LeafSetBounded base c) (is : List Nat) :
    LeafSetBounded base (is.foldl (CacheLayer.addToLeafSet base) c) ∧
      ∀ j, (View.cache base (is.foldl (CacheLayer.addToLeafSet base) c)).containsLeaf j =
        ((View.cache base c).containsLeaf j || decide (j ∈ is)) := by
  induction is generalizing c with
  | nil =>
    refine ⟨h, ?_⟩
    intro j
    simp
  | cons i is ih =>
    obtain ⟨hbound, hmem⟩ := ih (h.add i)
    refine ⟨hbound, ?_⟩
    intro j
    rw [List.foldl_cons, hmem j, containsLeaf_add, Bool.or_assoc]
    congr 1
    by_cases hij : i = j
    · simp [hij]
    · simp [hij, Ne.symm hij]

theorem removeFromLeafSet_run (base : View) (c : CacheLayer) (is : List Nat) (j : Nat) :
    (View.cache base (is.foldl (CacheLayer.removeFromLeafSet base) c)).containsLeaf j =
      ((View.cache base c).containsLeaf j && !decide (j ∈ is)) := by
  induction is generalizing c with
  | nil => simp
  | cons i is ih =>
    rw [List.foldl_cons, ih, containsLeaf_remove, Bool.and_assoc]
    congr 1
    by_cases hij : i = j
    · simp [hij]
    · simp [hij, Ne.symm hij]

/-- a rewind adds the given leaves and cuts off everything from the new next index on -/
theorem rewindLeafSet_contains (h : LeafSetBounded base c) (n : Nat) (is : List Nat) (j : Nat) :
    (View.cache base (c.rewindLeafSet base n is)).containsLeaf j =
      (((View.cache base c).containsLeaf j || decide (j ∈ is)) && decide (j < n)) := by
  obtain ⟨hbound, hmem⟩ := addToLeafSet_run h is
  show (View.cache base ((List.range' n _).foldl (CacheLayer.removeFromLeafSet base)
    (is.foldl (CacheLayer.addToLeafSet base) c))).containsLeaf j = _
  rw [removeFromLeafSet_run, ← hmem j]
  cases hj : (View.cache base (is.foldl (CacheLayer.addToLeafSet base) c)).containsLeaf j with
  | false => rfl
  | true =>
    have hlt := hbound j hj
    rw [Bool.true_and, Bool.true_and, ← decide_not, decide_eq_decide, List.mem_range'_1]
    omega

structure SameOffLeafSet (c c' : CacheLayer) : Prop where
  header_eq : c'.header = c.header
  updates_eq : c'.updates = c.updates
  firstLeaf_eq : c'.firstLeaf = c.firstLeaf
  leaves_eq : c'.leaves = c.leaves
  nodes_eq : c'.nodes = c.nodes

theorem SameOffLeafSet.trans {c' c'' : CacheLayer} (h : SameOffLeafSet c c')
    (h' : SameOffLeafSet c' c'') : SameOffLeafSet c c'' :=
  ⟨h'.header_eq.trans h.header_eq, h'.updates_eq.trans h.updates_eq,
    h'.firstLeaf_eq.trans h.firstLeaf_eq, h'.leaves_eq.trans h.leaves_eq,
    h'.nodes_eq.trans h.nodes_eq⟩

theorem foldl_offLeafSet (step : CacheLayer → Nat → CacheLayer)
    (hstep : ∀ (c : CacheLayer) (i : Nat), SameOffLeafSet c (step c i)) (is : List Nat)
    (c : CacheLayer) : SameOffLeafSet c (is.foldl step c) := by
  induction is generalizing c with
  | nil => exact ⟨rfl, rfl, rfl, rfl, rfl⟩
  | cons i is ih => exact (hstep c i).trans (ih (step c i))

theorem rewindLeafSet_off (base : View) (c : CacheLayer) (n : Nat) (is : List Nat) :
    SameOffLeafSet c (c.rewindLeafSet base n is) := by
  have hadd := foldl_offLeafSet (CacheLayer.addToLeafSet base)
    (fun c i => ⟨rfl, rfl, rfl, rfl, rfl⟩) is c
  have hremove := foldl_offLeafSet (CacheLayer.removeFromLeafSet base)
    (fun c i => ⟨rfl, rfl, rfl, rfl, rfl⟩)
    (List.range' n ((is.foldl (CacheLayer.addToLeafSet base) c).nextLeafIdx - n))
    (is.foldl (CacheLayer.addToLeafSet base) c)
  obtain ⟨hheader, hupdates, hfirst, hleaves, hnodes⟩ := hadd.trans hremove
  exact ⟨hheader, hupdates, hfirst, hleaves, hnodes⟩

theorem SameOffLeafSet.rangeOk {c' : CacheLayer} (h : SameOffLeafSet c c')
    (hrange : (View.cache base c).RangeOk blake3) :
    (View.cache base c').RangeOk blake3 ∧
      (View.cache base c').leafHashes = (View.cache base c).leafHashes := by
  have hhashes : (View.cache base c').leafHashes = (View.cache base c).leafHashes := by
    rw [View.leafHashes, h.firstLeaf_eq, h.leaves_eq]
    rfl
  have hnodes : (View.cache base c').nodes = (View.cache base c).nodes := by
    rw [View.nodes, h.firstLeaf_eq, h.nodes_eq]
    rfl
  refine ⟨?_, hhashes⟩
  rw [View.RangeOk, hhashes, hnodes, h.firstLeaf_eq, h.leaves_eq]
  exact hrange

/-! ## undoing on a cache -/

variable {s : CoinState}

/-- **Undo.**  On a cache that shows the state after a block, undo data with a previous header gives
the state before the block. -/
theorem undoBlock_shows {cache : CacheLayer} {s' : CoinState} {undo : BlockUndo} {header : Header}
    (h : Shows blake3 (.cache base cache) s') (hs : s.Sound blake3) (hs' : s'.Sound blake3)
    (hundo : Undoes blake3 s undo s') (hheader : s.header = some header)
    (hnum : header.numTXOs = s.leaves.length)
    (hcheck : ∀ v, Shows blake3 v s → v.checkHeader blake3 header = .ok ()) :
    ∃ c, cache.undoBlock blake3 base undo = .ok c ∧ Shows blake3 (.cache base c) s := by
  obtain ⟨tail, htail⟩ := hundo.leaves_isPrefix
  -- the three parts of the cache, before the header is set
  let c₀ : CacheLayer := { cache with
    updates := cache.updates ++
      undo.coinsSpent.map (fun coin => (coin.output.getOutputId blake3, some coin)) ++
      undo.coinsAdded.map (fun id => (id, none)) }
  let c₁ := c₀.rewindLeafSet base header.numTXOs (undo.coinsSpent.map UTXO.leafIdx)
  have hoff : SameOffLeafSet c₀ c₁ := rewindLeafSet_off base c₀ _ _
  have hrange₀ : (View.cache base c₀).RangeOk blake3 := h.range
  obtain ⟨hrange₁, hhashes₁⟩ := hoff.rangeOk hrange₀
  have hleaves₁ : (View.cache base c₁).leafHashes = s'.leaves := hhashes₁.trans h.leaves_eq
  have hn : header.numTXOs ≤ (View.cache base c₁).leafHashes.length := by
    rw [hleaves₁, hnum, ← htail, List.length_append]
    omega
  obtain ⟨hrange₂, hhashes₂⟩ := CacheLayer.rewindRange_ok hrange₁ hn
  have hoff₂ := sameOffRange_cache base c₁ _ (rewindRange_off c₁ header.numTXOs)
  have hbound : LeafSetBounded base c₀ := by
    intro i hi
    have hmem : s'.unspent i = true := by
      rw [← h.unspent_eq i]
      exact hi
    show i < (View.cache base cache).nextLeafIdx
    rw [h.next_eq]
    exact hs'.unspent_lt hmem
  have hshows : Shows blake3
      (.cache base { c₁.rewindRange header.numTXOs with header := some header }) s := by
    refine ⟨hheader.symm, ?_, ?_, ?_, ?_, hrange₂⟩
    · intro id
      show (View.cache base (c₁.rewindRange header.numTXOs)).getUTXO id = _
      rw [hoff₂.getUTXO_eq]
      refine getUTXO_append h.coins_eq ?_ hundo.coins_run id
      rw [hoff.updates_eq]
      show cache.updates ++ _ ++ _ = _
      rw [List.append_assoc]
      rfl
    · intro i
      show BitTable.contains (View.cache base (c₁.rewindRange header.numTXOs)).getByte i = _
      rw [hoff₂.getByte_eq, hundo.unspent_eq i, ← h.unspent_eq i, ← hnum]
      exact rewindLeafSet_contains hbound _ _ i
    · show (View.cache base (c₁.rewindRange header.numTXOs)).nextLeafIdx = _
      rw [hoff₂.nextLeafIdx_eq, hs.next_eq, ← hnum]
      rfl
    · show (View.cache base (c₁.rewindRange header.numTXOs)).leafHashes = _
      rw [hhashes₂, hleaves₁, hnum, ← htail, List.take_left]
  refine ⟨_, ?_, hshows⟩
  unfold CacheLayer.undoBlock
  rw [hundo.prevHeader_eq, hheader]
  show (View.cache base _).checkHeader blake3 header >>= _ = _
  rw [Checked.bind_eq_ok]
  exact ⟨(), hcheck _ hshows, rfl⟩

theorem undoBlock_of_no_header (base : View) (cache : CacheLayer) {undo : BlockUndo}
    (h : undo.prevHeader = none) :
    ∃ c, cache.undoBlock blake3 base undo = .ok c ∧ c.header = none := by
  unfold CacheLayer.undoBlock
  rw [h]
  exact ⟨_, rfl, rfl⟩

/-! ## caches over caches -/

/-- `n` fresh caches over a view -/
def stack : Nat → View → View
  | 0, base => base
  | n + 1, base => .cache (stack n base) (.fresh (stack n base))

/-- flush the uppermost `n` caches, each into the next -/
def flushAll (blake3 : Bytes → Uint256) : Nat → View → Except Fault View
  | 0, v => .ok v
  | _ + 1, .db d => .ok (.db d)
  | n + 1, .cache base c => do
    let (base, _) ← flush blake3 base c
    flushAll blake3 n base

theorem stack_shows (h : Shows blake3 base s) (n : Nat) :
    Shows blake3 (stack n base) s := by
  induction n with
  | zero => exact h
  | succ n ih => exact fresh_shows ih

/-- `v` is a view with `n` caches, the lower ones arbitrary -/
inductive CachesOver : Nat → View → Prop
  | zero (v : View) : CachesOver 0 v
  | succ {n : Nat} {base : View} (c : CacheLayer) (h : CachesOver n base) :
      CachesOver (n + 1) (.cache base c)

theorem stack_cachesOver (n : Nat) (base : View) : CachesOver n (stack n base) := by
  induction n with
  | zero => exact .zero base
  | succ n ih => exact .succ _ ih

theorem CachesOver.flush {n : Nat} {base' : View} {c' : CacheLayer} (h : CachesOver n base)
    (hflush : Mw.flush blake3 base c = .ok (base', c')) : CachesOver n base' := by
  cases h with
  | zero => exact .zero base'
  | @succ n below d h =>
    unfold Mw.flush at hflush
    cases hc : c.header with
    | none =>
      rw [hc] at hflush
      obtain ⟨rfl, -⟩ := Prod.mk.inj (Except.ok.inj hflush)
      exact .succ d h
    | some header =>
      rw [hc] at hflush
      obtain ⟨base₁, hwrite, hflush⟩ := Checked.bind_eq_ok.mp hflush
      obtain rfl := Except.ok.inj hwrite
      obtain ⟨base₂, hleaves, hflush⟩ := Checked.bind_eq_ok.mp hflush
      obtain ⟨d', -, hd'⟩ := Checked.bind_eq_ok.mp hleaves
      obtain rfl := Except.ok.inj hd'
      obtain ⟨rfl, -⟩ := Prod.mk.inj (Except.ok.inj hflush)
      exact .succ d' h

/-- **All the way down.**  Flushing all caches hands the state of the uppermost to the view below. -/
theorem flushAll_shows {n : Nat} {v : View} {header : Header} (hcaches : CachesOver n v)
    (h : Shows blake3 v s) (hheader : s.header = some header) (hs : s.Sound blake3) :
    ∃ base, flushAll blake3 n v = .ok base ∧ Shows blake3 base s := by
  induction n generalizing v with
  | zero => exact ⟨v, rfl, h⟩
  | succ n ih =>
    cases hcaches with
    | @succ _ base c hcaches =>
      obtain ⟨base₁, c₁, hflush, h₁⟩ := flush_shows h hheader fun i hi => hs.unspent_lt hi
      obtain ⟨base', hrest, h'⟩ := ih (hcaches.flush hflush) h₁
      refine ⟨base', ?_, h'⟩
      rw [flushAll, hflush]
      exact hrest

/-! ## there and back -/

/-- nothing that can be read tells two views apart -/
structure SameView (blake3 : Bytes → Uint256) (v v' : View) : Prop where
  header_eq : v'.header = v.header
  getUTXO_eq : ∀ id, v'.getUTXO id = v.getUTXO id
  containsLeaf_eq : ∀ i, v'.containsLeaf i = v.containsLeaf i
  nextLeafIdx_eq : v'.nextLeafIdx = v.nextLeafIdx
  leafSetRoot_eq : v'.leafSetRoot blake3 = v.leafSetRoot blake3
  numLeaves_eq : v'.numLeaves = v.numLeaves
  outputRoot_eq : v'.outputRoot blake3 = v.outputRoot blake3

theorem Shows.sameView {v v' : View} (h : Shows blake3 v s) (h' : Shows blake3 v' s) :
    SameView blake3 v v' where
  header_eq := h'.header_eq.trans h.header_eq.symm
  getUTXO_eq := fun id => (h'.coins_eq id).trans (h.coins_eq id).symm
  containsLeaf_eq := fun i => (h'.unspent_eq i).trans (h.unspent_eq i).symm
  nextLeafIdx_eq := h'.next_eq.trans h.next_eq.symm
  leafSetRoot_eq := h'.leafSetRoot_congr h
  numLeaves_eq := h'.numLeaves_eq.trans h.numLeaves_eq.symm
  outputRoot_eq := h'.outputRoot_congr h

/-- after a block was applied on the uppermost of `m + 1` caches: they flush into the base, the block
is undone on the uppermost of `n + 1` fresh caches without a fault or a failed assertion, and flushing
those leaves the base as it was -/
def UndoRestores (blake3 : Bytes → Uint256) (base applied : View) (m n : Nat) (undo : BlockUndo) :
    Prop :=
  ∃ base₁ c base₂, flushAll blake3 (m + 1) applied = .ok base₁ ∧
    (CacheLayer.fresh (stack n base₁)).undoBlock blake3 (stack n base₁) undo = .ok c ∧
    (∀ id, ∃ coin, (View.cache (stack n base₁) c).getUTXO id = .ok coin) ∧
    flushAll blake3 (n + 1) (.cache (stack n base₁) c) = .ok base₂ ∧ SameView blake3 base base₂

/-- applying a block leaves the caches and shows a sound state that its undo data undoes -/
theorem applyBlock_shows {kernelSums : KernelSums} {applied : View} {block : Block} {allow : Bool}
    {undo : BlockUndo} {m : Nat} (h : Shows blake3 (.cache base c) s) (hs : s.Sound blake3)
    (hcaches : CachesOver m base)
    (happly : c.applyBlock blake3 kernelSums base block allow = .ok (undo, applied)) :
    ∃ s', Shows blake3 applied s' ∧ CachesOver (m + 1) applied ∧ s'.header = some block.header ∧
      s'.Sound blake3 ∧ applied.checkHeader blake3 block.header = .ok () ∧
      Undoes blake3 s undo s' ∧ Applies blake3 s block.body s' ∧
      CoinsFrom blake3 s block undo s' := by
  unfold CacheLayer.applyBlock at happly
  obtain ⟨⟨undo', validation⟩, hchanges, happly⟩ := Checked.bind_eq_ok.mp happly
  obtain ⟨⟨self, rest⟩, hflush, hend⟩ := Checked.bind_eq_ok.mp happly
  obtain ⟨rfl, rfl⟩ := Prod.mk.inj (Except.ok.inj hend)
  obtain ⟨s', hshows, hheader, hsound, hcheck, hundo, happlies, hfrom⟩ :=
    applyBlockChanges_shows h hs hchanges
  obtain ⟨self', rest', hflush', hself⟩ :=
    flush_shows hshows hheader fun i hi => hsound.unspent_lt hi
  obtain ⟨rfl, rfl⟩ := Prod.mk.inj (Except.ok.inj (hflush.symm.trans hflush'))
  refine ⟨s', hself, ?_, hheader, hsound, ?_, hundo, happlies, hfrom⟩
  · exact CachesOver.flush (.succ _ hcaches) hflush
  · rw [hself.checkHeader_congr hshows]
    exact hcheck

section
variable {kernelSums : KernelSums} {base applied : View} {block : Block} {allow : Bool}
  {undo : BlockUndo} {m : Nat}

theorem not_undoRestores_of_no_header (n : Nat) (hinv : ViewInvariant blake3 base)
    (happly : (CacheLayer.fresh (stack m base)).applyBlock blake3 kernelSums (stack m base) block
      allow = .ok (undo, applied)) (hnone : base.header = none) :
    ¬ UndoRestores blake3 base applied m n undo := by
  obtain ⟨s, hbase, hs, -⟩ := hinv
  obtain ⟨s', happlied, hcaches, hheader', hs', -, hundo, -⟩ :=
    applyBlock_shows (stack_shows hbase (m + 1)) hs (stack_cachesOver m base) happly
  obtain ⟨base₁, hflush₁, hbase₁⟩ := flushAll_shows hcaches happlied hheader' hs'
  have hprev : undo.prevHeader = none := by
    rw [hundo.prevHeader_eq, ← hbase.header_eq]
    exact hnone
  rintro ⟨b₁, c, base₂, hb₁, hc, -, hflush₂, hsame⟩
  obtain rfl := Except.ok.inj (hflush₁.symm.trans hb₁)
  obtain ⟨c', hc', hcnone⟩ := undoBlock_of_no_header (stack n base₁) (.fresh (stack n base₁)) hprev
  obtain rfl := Except.ok.inj (hc.symm.trans hc')
  -- the uppermost cache drops out; the fresh caches under it still show the block
  rw [flushAll, flush_of_no_header hcnone] at hflush₂
  obtain ⟨b₂, hb₂, hshows⟩ :=
    flushAll_shows (stack_cachesOver n base₁) (stack_shows hbase₁ n) hheader' hs'
  obtain rfl := Except.ok.inj (hb₂.symm.trans hflush₂)
  have hheader := hsame.header_eq
  rw [hnone, hshows.header_eq, hheader'] at hheader
  cases hheader

theorem undoRestores_of_header (n : Nat) (hinv : ViewInvariant blake3 base)
    (happly : (CacheLayer.fresh (stack m base)).applyBlock blake3 kernelSums (stack m base) block
      allow = .ok (undo, applied)) {header : Header} (hheader : base.header = some header) :
    UndoRestores blake3 base applied m n undo := by
  obtain ⟨s, hbase, hs, hcheck⟩ := hinv
  obtain ⟨s', happlied, hcaches, hheader', hs', -, hundo, -⟩ :=
    applyBlock_shows (stack_shows hbase (m + 1)) hs (stack_cachesOver m base) happly
  obtain ⟨base₁, hflush₁, hbase₁⟩ := flushAll_shows hcaches happlied hheader' hs'
  have hsheader : s.header = some header := hbase.header_eq.symm.trans hheader
  have hchecked := hcheck header hheader
  have hnum : header.numTXOs = s.leaves.length := by
    rw [(checkHeader_ok hchecked).2.1, hbase.numLeaves_eq]
  obtain ⟨c, hc, hshows⟩ :=
    undoBlock_shows (fresh_shows (stack_shows hbase₁ n)) hs hs' hundo hsheader hnum (by
      intro v hv
      rw [hv.checkHeader_congr hbase]
      exact hchecked)
  obtain ⟨base₂, hflush₂, hbase₂⟩ :=
    flushAll_shows (.succ c (stack_cachesOver n base₁)) hshows hsheader hs
  exact ⟨base₁, c, base₂, hflush₁, hc, fun id => ⟨_, hshows.coins_eq id⟩, hflush₂,
    hbase.sameView hbase₂⟩

theorem applyBlock_invariant (hinv : ViewInvariant blake3 base)
    (happly : (CacheLayer.fresh (stack m base)).applyBlock blake3 kernelSums (stack m base) block
      allow = .ok (undo, applied)) :
    ∃ base', flushAll blake3 (m + 1) applied = .ok base' ∧ base'.header = some block.header ∧
      ViewInvariant blake3 base' := by
  obtain ⟨s, hbase, hs, -⟩ := hinv
  obtain ⟨s', happlied, hcaches, hheader', hs', hcheck, -⟩ :=
    applyBlock_shows (stack_shows hbase (m + 1)) hs (stack_cachesOver m base) happly
  obtain ⟨base', hflush, hbase'⟩ := flushAll_shows hcaches happlied hheader' hs'
  have hheader : base'.header = some block.header := hbase'.header_eq.trans hheader'
  refine ⟨base', hflush, hheader, s', hbase', hs', ?_⟩
  intro header hh
  obtain rfl := Option.some.inj (hheader.symm.trans hh)
  rw [hbase'.checkHeader_congr happlied]
  exact hcheck

/-- **Undo inverts apply** exactly when the base had a best header.  For the first extension block
the cache on which it is undone ends without a header, is not flushed, and the block stays. -/
theorem undoBlock_restores_iff (n : Nat) (hinv : ViewInvariant blake3 base)
    (happly : (CacheLayer.fresh (stack m base)).applyBlock blake3 kernelSums (stack m base) block
      allow = .ok (undo, applied)) :
    UndoRestores blake3 base applied m n undo ↔ base.header ≠ none := by
  constructor
  · intro hrestores hnone
    exact not_undoRestores_of_no_header n hinv happly hnone hrestores
  · intro hsome
    obtain ⟨header, hheader⟩ := Option.ne_none_iff_exists'.mp hsome
    exact undoRestores_of_header n hinv happly hheader

end

/-! ## a block that creates and spends one output -/

def emptyView (header : Option Header) : View := .db ⟨header, fun _ => none, fun _ => 0, 0, []⟩

theorem emptyView_invariant (header : Option Header)
    (hcheck : ∀ h, header = some h → (emptyView header).checkHeader blake3 h = .ok ()) :
    ViewInvariant blake3 (emptyView header) := by
  refine ⟨⟨header, fun _ => none, fun _ => false, 0, []⟩, ?_, ?_, hcheck⟩
  · refine ⟨rfl, fun _ => rfl, ?_, rfl, rfl, Mmr.range_nil _⟩
    intro i
    simp [emptyView, View.containsLeaf, View.getByte, BitTable.contains, BitTable.testBit]
  · exact ⟨rfl, fun i => by simp, by simp, by simp, by simp⟩

def sampleOutput : Output :=
  ⟨.zero 33, .zero 33, .zero 33, ⟨0, .zero 33, 0, 0, .zero 16, []⟩, .zero 675, .zero 64⟩

def sampleBody : TxBody where
  inputs := [⟨0, sampleOutput.getOutputId Uint256.polyHash, .zero 33, none, .zero 33, [], .zero 64⟩]
  outputs := [sampleOutput]
  kernels := []

def sampleParent : Header where
  height := 1
  outputRoot := .null
  kernelRoot := .null
  leafsetRoot := Uint256.polyHash []
  kernelOffset := .zero 32
  stealthOffset := .zero 32
  numTXOs := 0
  numKernels := 0

def sampleBlock : Block where
  header := { sampleParent with
    height := 2
    outputRoot := UTXO.leafHash Uint256.polyHash ⟨2, 0, sampleOutput⟩
    leafsetRoot := Uint256.polyHash [0]
    numTXOs := 1
    height_range := by decide
    numTXOs_range := by decide }
  body := sampleBody

/-- apply the sample block on two caches over a database without coins -/
def sampleApply (header : Option Header) : Except Fault (BlockUndo × View) :=
  (CacheLayer.fresh (stack 1 (emptyView header))).applyBlock Uint256.polyHash
    (fun _ _ _ _ _ _ => true) (stack 1 (emptyView header)) sampleBlock false

theorem undoBlock_restores_sample : ∃ undo applied,
    sampleApply (some sampleParent) = .ok (undo, applied) ∧
      (UndoRestores Uint256.polyHash (emptyView (some sampleParent)) applied 1 0 undo ↔
        (emptyView (some sampleParent)).header ≠ none) := by
  have hok : (sampleApply (some sampleParent)).isOk = true := by decide +kernel
  obtain ⟨⟨undo, applied⟩, happly⟩ := Checked.exists_of_isOk hok
  refine ⟨undo, applied, happly, undoBlock_restores_iff 0 (emptyView_invariant _ ?_) happly⟩
  rintro header ⟨⟩
  decide +kernel

/-- the first extension block cannot be undone -/
theorem undoBlock_keeps_first_block : ViewInvariant Uint256.polyHash (emptyView none) ∧
    ∃ undo applied, sampleApply none = .ok (undo, applied) ∧
      ¬ UndoRestores Uint256.polyHash (emptyView none) applied 1 0 undo := by
  have hok : (sampleApply none).isOk = true := by decide +kernel
  obtain ⟨⟨undo, applied⟩, happly⟩ := Checked.exists_of_isOk hok
  have hinv : ViewInvariant Uint256.polyHash (emptyView none) := emptyView_invariant none nofun
  exact ⟨hinv, undo, applied, happly, not_undoRestores_of_no_header 0 hinv happly rfl⟩

/-! ## any number of blocks -/

/-- blocks are applied one after the other, each on caches that are flushed into the base; the undo data
of the last one comes first -/
inductive AppliedRun (blake3 : Bytes → Uint256) (kernelSums : KernelSums) (base : View) :
    List BlockUndo → View → Prop
  | nil : AppliedRun blake3 kernelSums base [] base
  | cons {undos : List BlockUndo} {undo : BlockUndo} {v applied v' : View} {block : Block} {m : Nat}
      {allow : Bool} (before : AppliedRun blake3 kernelSums base undos v)
      (apply_eq : (CacheLayer.fresh (stack m v)).applyBlock blake3 kernelSums (stack m v) block allow =
        .ok (undo, applied)) (flush_eq : flushAll blake3 (m + 1) applied = .ok v') :
      AppliedRun blake3 kernelSums base (undo :: undos) v'

/-- blocks are undone one after the other, each on `n + 1` fresh caches that are flushed -/
def undoAll (blake3 : Bytes → Uint256) (n : Nat) : List BlockUndo → View → Except Fault View
  | [], v => .ok v
  | undo :: undos, v => do
    let c ← (CacheLayer.fresh (stack n v)).undoBlock blake3 (stack n v) undo
    let v ← flushAll blake3 (n + 1) (.cache (stack n v) c)
    undoAll blake3 n undos v

/-- a sound state with the best header that commits to it -/
structure Committed (blake3 : Bytes → Uint256) (s : CoinState) (header : Header) : Prop where
  sound : s.Sound blake3
  header_eq : s.header = some header
  check : ∀ v, Shows blake3 v s → v.checkHeader blake3 header = .ok ()

theorem AppliedRun.undone {kernelSums : KernelSums} {base v : View} {undos : List BlockUndo}
    (h : AppliedRun blake3 kernelSums base undos v) (n : Nat) {s : CoinState} {header : Header}
    (hbase : Shows blake3 base s) (hs : Committed blake3 s header) :
    ∃ s' header', Shows blake3 v s' ∧ Committed blake3 s' header' ∧
      ∀ v', Shows blake3 v' s' → ∃ base', undoAll blake3 n undos v' = .ok base' ∧
        Shows blake3 base' s := by
  induction h with
  | nil => exact ⟨s, header, hbase, hs, fun v' hv' => ⟨v', rfl, hv'⟩⟩
  | @cons undos undo v applied v' block m allow before apply_eq flush_eq ih =>
    obtain ⟨s₁, header₁, hv, hs₁, hundone⟩ := ih
    obtain ⟨s₂, happlied, hcaches, hheader, hsound, hcheck, hundo, -⟩ :=
      applyBlock_shows (stack_shows hv (m + 1)) hs₁.sound (stack_cachesOver m v) apply_eq
    obtain ⟨v₂, hflush, hv₂⟩ := flushAll_shows hcaches happlied hheader hsound
    obtain rfl := Except.ok.inj (hflush.symm.trans flush_eq)
    refine ⟨s₂, block.header, hv₂, ⟨hsound, hheader, fun w hw => ?_⟩, fun w hw => ?_⟩
    · rw [hw.checkHeader_congr happlied]
      exact hcheck
    · have hnum : header₁.numTXOs = s₁.leaves.length := by
        rw [(checkHeader_ok (hs₁.check v hv)).2.1, hv.numLeaves_eq]
      obtain ⟨c, hc, hshows⟩ := undoBlock_shows (fresh_shows (stack_shows hw n)) hs₁.sound hsound hundo
        hs₁.header_eq hnum hs₁.check
      obtain ⟨w', hflush', hw'⟩ :=
        flushAll_shows (.succ c (stack_cachesOver n w)) hshows hs₁.header_eq hs₁.sound
      obtain ⟨base', hbase', hshows'⟩ := hundone w' hw'
      refine ⟨base', ?_, hshows'⟩
      rw [undoAll, hc]
      show flushAll blake3 (n + 1) _ >>= _ = _
      rw [hflush']
      exact hbase'

/-- **A reorganization.**  From a view with a best header, any number of blocks can be undone again, and
nothing that can be read tells the view that is left from the one before them. -/
theorem undoAll_restores {kernelSums : KernelSums} {base v : View} {undos : List BlockUndo}
    (hinv : ViewInvariant blake3 base) (hheader : base.header ≠ none)
    (h : AppliedRun blake3 kernelSums base undos v) (n : Nat) :
    ∃ base', undoAll blake3 n undos v = .ok base' ∧ SameView blake3 base base' := by
  obtain ⟨s, hbase, hs, hcheck⟩ := hinv
  obtain ⟨header, heq⟩ := Option.ne_none_iff_exists'.mp hheader
  have hcommitted : Committed blake3 s header := by
    refine ⟨hs, hbase.header_eq.symm.trans heq, fun w hw => ?_⟩
    rw [hw.checkHeader_congr hbase]
    exact hcheck header heq
  obtain ⟨s', header', hv, -, hundone⟩ := h.undone n hbase hcommitted
  obtain ⟨base', hrun, hbase'⟩ := hundone v hv
  exact ⟨base', hrun, hbase.sameView hbase'⟩

theorem undoAll_restores_sample : ∃ undo v base',
    AppliedRun Uint256.polyHash (fun _ _ _ _ _ _ => true) (emptyView (some sampleParent)) [undo] v ∧
      undoAll Uint256.polyHash 0 [undo] v = .ok base' ∧
      SameView Uint256.polyHash (emptyView (some sampleParent)) base' := by
  have hok : (sampleApply (some sampleParent)).isOk = true := by decide +kernel
  obtain ⟨⟨undo, applied⟩, happly⟩ := Checked.exists_of_isOk hok
  have hinv : ViewInvariant Uint256.polyHash (emptyView (some sampleParent)) := by
    refine emptyView_invariant _ ?_
    rintro header ⟨⟩
    decide +kernel
  obtain ⟨v, hflush, -⟩ := applyBlock_invariant hinv happly
  have hrun := AppliedRun.cons .nil happly hflush
  obtain ⟨base', hundo, hsame⟩ := undoAll_restores hinv (by decide) hrun 0
  exact ⟨undo, v, base', hrun, hundo, hsame⟩

end Mw
