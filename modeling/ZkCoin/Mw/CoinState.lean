import ZkCoin.Library.Journal
import ZkCoin.Mw.ViewRange

/-!
# What a view of the coins shows

Seen from above a view is a best header, a table of coins, a set of unspent leaves and a list of
leaf hashes, whatever differences its caches hold.  The operations of a cache change that state in the
expected way, and flushing a cache hands its state to the view below.

* `CoinState`             — the state, with `add` and `spend`.
* `Shows`                 — a view shows a state; `Shows.checkHeader_congr`.
* `writeBatch_ok`, `applyLeafSetUpdates_ok` — two parts of a flush; the third is `writeLeaves_ok`.
* `flush_shows`           — a flushed cache leaves its state below.
-/

open Bytes

namespace Mw

structure CoinState where
  header : Option Header
  coins : Uint256 → Option UTXO
  unspent : Nat → Bool
  next : Nat
  leaves : List Uint256

section
variable (blake3 : Bytes → Uint256)

def UTXO.id (u : UTXO) : Uint256 := u.output.getOutputId blake3

def UTXO.leafHash (u : UTXO) : Uint256 := (Leaf.create blake3 u.leafIdx (u.id blake3).data).hash

def CoinState.add (s : CoinState) (u : UTXO) : CoinState where
  header := s.header
  coins := Function.update s.coins (u.id blake3) (some u)
  unspent := fun j => s.unspent j || decide (u.leafIdx = j)
  next := if u.leafIdx ≥ s.next then u.leafIdx + 1 else s.next
  leaves := s.leaves ++ [u.leafHash blake3]

def CoinState.spend (s : CoinState) (id : Uint256) (u : UTXO) : CoinState where
  header := s.header
  coins := Function.update s.coins id none
  unspent := fun j => s.unspent j && !decide (u.leafIdx = j)
  next := s.next
  leaves := s.leaves

structure Shows (v : View) (s : CoinState) : Prop where
  header_eq : v.header = s.header
  coins_eq : ∀ id, v.getUTXO id = .ok (s.coins id)
  unspent_eq : ∀ i, v.containsLeaf i = s.unspent i
  next_eq : v.nextLeafIdx = s.next
  leaves_eq : v.leafHashes = s.leaves
  range : v.RangeOk blake3

end

variable {blake3 : Bytes → Uint256}

/-! ## views that show the same state -/

variable {s : CoinState}

theorem Shows.getByte_congr {v v' : View} (h : Shows blake3 v s) (h' : Shows blake3 v' s) :
    v.getByte = v'.getByte := by
  apply BitTable.table_ext
  intro i
  exact (h.unspent_eq i).trans (h'.unspent_eq i).symm

theorem Shows.leafSetRoot_congr {v v' : View} (h : Shows blake3 v s) (h' : Shows blake3 v' s) :
    v.leafSetRoot blake3 = v'.leafSetRoot blake3 := by
  unfold View.leafSetRoot View.leafSetBytes
  rw [h.getByte_congr h', h.next_eq, h'.next_eq]

theorem Shows.numLeaves_eq {v : View} (h : Shows blake3 v s) :
    v.numLeaves = s.leaves.length := by
  rw [h.range.numLeaves_eq, h.leaves_eq]

theorem Shows.outputRoot_congr {v v' : View} (h : Shows blake3 v s) (h' : Shows blake3 v' s) :
    v.outputRoot blake3 = v'.outputRoot blake3 :=
  h.range.outputRoot_congr h'.range (h.leaves_eq.trans h'.leaves_eq.symm)

theorem Shows.checkHeader_congr {v v' : View} (h : Shows blake3 v s) (h' : Shows blake3 v' s)
    (header : Header) :
    v.checkHeader blake3 header = v'.checkHeader blake3 header := by
  unfold View.checkHeader
  rw [h.outputRoot_congr h', h.leafSetRoot_congr h', h.numLeaves_eq, h'.numLeaves_eq]

theorem checkHeader_ok {v : View} {header : Header} (h : v.checkHeader blake3 header = .ok ()) :
    v.outputRoot blake3 = .ok header.outputRoot ∧ header.numTXOs = v.numLeaves ∧
      header.leafsetRoot = v.leafSetRoot blake3 := by
  unfold View.checkHeader at h
  obtain ⟨root, hroot, h⟩ := Checked.bind_eq_ok.mp h
  obtain ⟨hne, -⟩ := Checked.ite_error_eq_ok.mp h
  simp only [Bool.or_eq_true, bne_iff_ne, not_or, not_not] at hne
  obtain ⟨⟨rfl, hnum⟩, hleafset⟩ := hne
  exact ⟨hroot, hnum, hleafset⟩

variable {base : View}

theorem fresh_shows (h : Shows blake3 base s) :
    Shows blake3 (.cache base (.fresh base)) s where
  header_eq := h.header_eq
  coins_eq := by
    intro id
    show base.getUTXO id >>= _ = _
    rw [h.coins_eq id]
    rfl
  unspent_eq := h.unspent_eq
  next_eq := h.next_eq
  leaves_eq := (fresh_leafHashes h.range).trans h.leaves_eq
  range := fresh_rangeOk h.range

/-! ## the coins -/

theorem replayAction_eq : replayAction = Journal.replay Fault.assertion := by
  funext value action
  cases action with
  | none =>
    cases value with
    | none => rfl
    | some u => rfl
  | some a =>
    cases value with
    | none => rfl
    | some u => rfl

theorem getUTXO_cache (base : View) (c : CacheLayer) (id : Uint256) :
    (View.cache base c).getUTXO id = base.getUTXO id >>=
      (Journal.entriesOf id c.updates).foldlM (Journal.replay .assertion) := by
  rw [← replayAction_eq]
  rfl

variable {c : CacheLayer} {coins : Uint256 → Option UTXO}

theorem getUTXO_append {c' : CacheLayer} {coins' : Uint256 → Option UTXO}
    {actions : List (Uint256 × CoinAction)}
    (h : ∀ id, (View.cache base c).getUTXO id = .ok (coins id))
    (hactions : c'.updates = c.updates ++ actions)
    (hrun : actions.foldlM (Journal.record Fault.assertion) coins = .ok coins') (id : Uint256) :
    (View.cache base c').getUTXO id = .ok (coins' id) := by
  have hid := h id
  rw [getUTXO_cache] at hid ⊢
  obtain ⟨u, hu, hreplay⟩ := Checked.bind_eq_ok.mp hid
  rw [hu]
  show List.foldlM _ u _ = _
  rw [hactions, Journal.entriesOf_append, List.foldlM_append, hreplay]
  exact Journal.foldlM_record_iff.mp hrun id

theorem exists_coins_below (h : ∀ id, (View.cache base c).getUTXO id = .ok (coins id)) :
    ∃ below, (∀ id, base.getUTXO id = .ok (below id)) ∧
      c.updates.foldlM (Journal.record Fault.assertion) below = .ok coins := by
  have hbase : ∀ id, ∃ u, base.getUTXO id = .ok u ∧
      (Journal.entriesOf id c.updates).foldlM (Journal.replay Fault.assertion) u =
        .ok (coins id) := by
    intro id
    have hid := h id
    rw [getUTXO_cache] at hid
    exact Checked.bind_eq_ok.mp hid
  choose below hbelow hreplay using hbase
  exact ⟨below, hbelow, Journal.foldlM_record_iff.mpr hreplay⟩

theorem writeAction_run {committed added coins' : Uint256 → Option UTXO}
    {actions : List (Uint256 × CoinAction)}
    (hfound : ∀ id, (coins id).isSome → (added id).isSome ∨ (committed id).isSome)
    (hrun : actions.foldlM (Journal.record Fault.assertion) coins = .ok coins') :
    ∃ added', actions.foldlM (writeAction committed) (added, coins) = .ok (added', coins') := by
  induction actions generalizing coins added with
  | nil =>
    obtain rfl := Except.ok.inj hrun
    exact ⟨added, rfl⟩
  | cons action actions ih =>
    obtain ⟨id, action⟩ := action
    rw [List.foldlM_cons, Checked.bind_eq_ok] at hrun
    obtain ⟨next, hstep, hrun⟩ := hrun
    obtain ⟨hne, rfl⟩ := Journal.record_eq_ok.mp hstep
    cases action with
    | some u =>
      have hfound' : ∀ id', (Function.update coins id (some u) id').isSome →
          (Function.update added id (some u) id').isSome ∨ (committed id').isSome := by
        intro id' hid'
        by_cases hid : id' = id
        · subst hid
          exact .inl (by rw [Function.update_self]; rfl)
        · rw [Function.update_of_ne hid] at hid' ⊢
          exact hfound id' hid'
      obtain ⟨added', hrest⟩ := ih hfound' hrun
      exact ⟨added', hrest⟩
    | none =>
      have hsome : (coins id).isSome := Bool.eq_true_of_not_eq_false hne
      have hfound' : ∀ id', (Function.update coins id none id').isSome →
          (Function.update added id none id').isSome ∨ (committed id').isSome := by
        intro id' hid'
        by_cases hid : id' = id
        · subst hid
          rw [Function.update_self] at hid'
          cases hid'
        · rw [Function.update_of_ne hid] at hid' ⊢
          exact hfound id' hid'
      obtain ⟨added', hrest⟩ := ih hfound' hrun
      refine ⟨added', ?_⟩
      rw [List.foldlM_cons]
      have hthere : ¬ ((added id).isNone && (committed id).isNone) = true := by
        rcases hfound id hsome with h | h
        · simp [Option.isNone_eq_false_iff.mpr h]
        · simp [Option.isNone_eq_false_iff.mpr h]
      have hwrite : writeAction committed (added, coins) (id, none) =
          .ok (Function.update added id none, Function.update coins id none) := if_neg hthere
      rw [hwrite]
      exact hrest

/-- **Writing the coins.**  The view below takes over the table of the cache. -/
theorem writeBatch_ok (h : ∀ id, (View.cache base c).getUTXO id = .ok (coins id))
    (header : Option Header) (blake3 : Bytes → Uint256) :
    ∃ base', base.writeBatch c.updates header = .ok base' ∧ base'.header = header ∧
      (∀ id, base'.getUTXO id = .ok (coins id)) ∧ base'.getByte = base.getByte ∧
      base'.nextLeafIdx = base.nextLeafIdx ∧ base'.leafHashes = base.leafHashes ∧
      (base.RangeOk blake3 → base'.RangeOk blake3) := by
  obtain ⟨below, hbelow, hrun⟩ := exists_coins_below h
  cases base with
  | db d =>
    obtain rfl : d.coins = below := funext fun id => Except.ok.inj (hbelow id)
    obtain ⟨added', hwrite⟩ :
        ∃ added', c.updates.foldlM (writeAction d.coins) (fun _ => none, d.coins) =
          .ok (added', coins) :=
      writeAction_run (fun id hid => .inr hid) hrun
    refine ⟨.db { d with header := header, coins := coins }, ?_, rfl, fun id => rfl, ?_, rfl, rfl, id⟩
    · rw [View.writeBatch, Checked.bind_eq_ok]
      exact ⟨_, hwrite, rfl⟩
    · funext b
      rfl
  | cache base' c' =>
    refine ⟨_, rfl, rfl, ?_, ?_, rfl, rfl, id⟩
    · exact getUTXO_append hbelow rfl hrun
    · funext b
      rfl

/-! ## the leaf set -/

theorem getByte_update (base : View) (c : CacheLayer) (b : Nat) (byte : UInt8) (next : Nat) :
    (View.cache base { c with
      modifiedBytes := Function.update c.modifiedBytes b (some byte), nextLeafIdx := next }).getByte =
      Function.update (View.cache base c).getByte b byte := by
  funext b'
  rw [View.getByte]
  dsimp only
  by_cases hb : b' = b
  · subst hb
    rw [Function.update_self, Function.update_self]
  · rw [Function.update_of_ne hb, Function.update_of_ne hb]
    rfl

theorem containsLeaf_add (base : View) (c : CacheLayer) (i j : Nat) :
    (View.cache base (c.addToLeafSet base i)).containsLeaf j =
      ((View.cache base c).containsLeaf j || decide (i = j)) := by
  unfold View.containsLeaf CacheLayer.addToLeafSet
  rw [getByte_update]
  exact BitTable.contains_update_or _ i j

theorem containsLeaf_remove (base : View) (c : CacheLayer) (i j : Nat) :
    (View.cache base (c.removeFromLeafSet base i)).containsLeaf j =
      ((View.cache base c).containsLeaf j && !decide (i = j)) := by
  unfold View.containsLeaf CacheLayer.removeFromLeafSet
  rw [getByte_update base c (i / 8) _ c.nextLeafIdx]
  exact BitTable.contains_update_and _ i j

theorem contains_clearLeaves (is : List Nat) (bytes : Nat → UInt8) (j : Nat) :
    BitTable.contains (is.foldl clearLeaf bytes) j =
      (BitTable.contains bytes j && !decide (j ∈ is)) := by
  induction is generalizing bytes with
  | nil => simp
  | cons i is ih =>
    rw [List.foldl_cons, ih, clearLeaf, BitTable.contains_update_and, Bool.and_assoc]
    congr 1
    by_cases hij : i = j
    · simp [hij]
    · simp [hij, Ne.symm hij]

/-- **Writing the leaf set.**  The view below takes over the members of the cache, provided none lies
above the next index. -/
theorem applyLeafSetUpdates_ok (base base' : View) (c : CacheLayer)
    (hbytes : base'.getByte = base.getByte)
    (hbound : ∀ i, (View.cache base c).containsLeaf i = true → i < c.nextLeafIdx) (i : Nat) :
    (base'.applyLeafSetUpdates c.nextLeafIdx c.modifiedBytes).containsLeaf i =
      (View.cache base c).containsLeaf i := by
  have hread : ∀ b, (c.modifiedBytes b).getD (base'.getByte b) = (View.cache base c).getByte b := by
    intro b
    rw [hbytes, View.getByte]
    cases c.modifiedBytes b with
    | none => rfl
    | some byte => rfl
  cases base' with
  | db d =>
    show BitTable.contains ((List.range' c.nextLeafIdx (d.nextLeafIdx - c.nextLeafIdx)).foldl clearLeaf
      fun b => (c.modifiedBytes b).getD (d.leafBytes b)) i = _
    rw [contains_clearLeaves, show (fun b => (c.modifiedBytes b).getD (d.leafBytes b)) =
      (View.cache base c).getByte from funext hread]
    -- the cleared range has no members to begin with
    by_cases hi : i ∈ List.range' c.nextLeafIdx (d.nextLeafIdx - c.nextLeafIdx)
    · have hclear : (View.cache base c).containsLeaf i = false := by
        rw [Bool.eq_false_iff]
        intro hmem
        have hlt := hbound i hmem
        have hge := (List.mem_range'_1.mp hi).1
        omega
      rw [hclear, show BitTable.contains (View.cache base c).getByte i = false from hclear]
      rfl
    · rw [decide_eq_false hi, Bool.not_false, Bool.and_true]
      rfl
  | cache base' c' =>
    show BitTable.contains (View.cache base' _).getByte i = _
    rw [View.containsLeaf]
    congr 1
    funext b
    rw [← hread b]
    rw [View.getByte]
    dsimp only
    cases c.modifiedBytes b with
    | none => rfl
    | some byte => rfl

theorem applyLeafSetUpdates_off (v : View) (next : Nat) (modified : Nat → Option UInt8)
    (blake3 : Bytes → Uint256) :
    (v.applyLeafSetUpdates next modified).header = v.header ∧
      (v.applyLeafSetUpdates next modified).getUTXO = v.getUTXO ∧
      (v.applyLeafSetUpdates next modified).nextLeafIdx = next ∧
      (v.applyLeafSetUpdates next modified).leafHashes = v.leafHashes ∧
      (v.RangeOk blake3 → (v.applyLeafSetUpdates next modified).RangeOk blake3) := by
  cases v with
  | db d =>
    refine ⟨rfl, ?_, rfl, rfl, id⟩
    funext x
    rfl
  | cache base c =>
    refine ⟨rfl, ?_, rfl, rfl, id⟩
    funext x
    rfl

/-! ## flushing -/

/-- **Flushing.**  A cache with a best header hands its state to the view below. -/
theorem flush_shows (h : Shows blake3 (.cache base c) s) {header : Header}
    (hheader : s.header = some header) (hbound : ∀ i, s.unspent i = true → i < s.next) :
    ∃ base' c', flush blake3 base c = .ok (base', c') ∧ Shows blake3 base' s := by
  have hc : c.header = some header := h.header_eq.trans hheader
  have hnext : c.nextLeafIdx = s.next := h.next_eq
  obtain ⟨hbase, hfirst, hleaves, -⟩ := h.range
  obtain ⟨base₁, hwrite, hheader₁, hcoins₁, hbytes₁, -, hhashes₁, hrange₁⟩ :=
    writeBatch_ok h.coins_eq (some header) blake3
  obtain ⟨hheader₂, hcoins₂, hnext₂, hhashes₂, hrange₂⟩ :=
    applyLeafSetUpdates_off base₁ c.nextLeafIdx c.modifiedBytes blake3
  have hunspent₂ := applyLeafSetUpdates_ok base base₁ c hbytes₁ (by
    intro i hi
    rw [h.unspent_eq] at hi
    rw [hnext]
    exact hbound i hi)
  have hfirst₂ : c.firstLeaf ≤
      (base₁.applyLeafSetUpdates c.nextLeafIdx c.modifiedBytes).leafHashes.length := by
    rw [hhashes₂, hhashes₁]
    exact hfirst
  obtain ⟨base', hlast, hrange', hhashes', hoff⟩ :=
    View.writeLeaves_ok (hrange₂ (hrange₁ hbase)) hfirst₂ hleaves
  refine ⟨base', { c with
      updates := [], modifiedBytes := fun _ => none,
      firstLeaf := c.numLeaves, leaves := [], nodes := [] }, ?_, ?_⟩
  · unfold flush
    rw [hc]
    show base.writeBatch c.updates (some header) >>= _ = _
    rw [Checked.bind_eq_ok]
    refine ⟨base₁, hwrite, ?_⟩
    rw [Checked.bind_eq_ok]
    exact ⟨base', hlast, rfl⟩
  · refine ⟨?_, ?_, ?_, ?_, ?_, hrange'⟩
    · rw [hoff.header_eq, hheader₂, hheader₁, hheader]
    · intro id
      rw [hoff.getUTXO_eq, hcoins₂]
      exact hcoins₁ id
    · intro i
      rw [View.containsLeaf, hoff.getByte_eq, ← h.unspent_eq i]
      exact hunspent₂ i
    · rw [hoff.nextLeafIdx_eq, hnext₂, hnext]
    · rw [hhashes', hhashes₂, hhashes₁, ← h.leaves_eq]
      rfl

theorem flush_of_no_header (h : c.header = none) :
    flush blake3 base c = .ok (base, c) := by
  unfold flush
  rw [h]

end Mw
