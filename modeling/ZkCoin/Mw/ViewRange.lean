import ZkCoin.Library.MmrRoot
import ZkCoin.Mw.CoinsView

/-!
# The mountain range behind a view

A cache holds only the part of the range that lies behind its first leaf; the rest is read from the
view below.  Put together, the nodes of a view are a mountain range over its leaf hashes, and adding,
rewinding and writing leaves keep that.

* `View.nodes`, `View.leafHashes` — the range of a view, put together.
* `View.RangeOk`                  — all levels of a view hold proper ranges.
* `CacheLayer.addLeaf_ok`         — adding the next leaf never fails.
* `CacheLayer.rewindRange_ok`     — rewinding leaves the range of the first leaves.
* `View.writeLeaves_ok`           — so does writing the leaves of a cache above.
-/

open Bytes

namespace Mw

/-! ## the range of a view -/

def View.nodes : View → List Uint256
  | .db d => d.hashFile
  | .cache base c => base.nodes.take (Mmr.position c.firstLeaf) ++ c.nodes

def View.leafHashes : View → List Uint256
  | .db d => (List.range (Mmr.leafIndexAt d.hashFile.length)).map fun i =>
      d.hashFile.getD (Mmr.position i) .null
  | .cache base c => base.leafHashes.take c.firstLeaf ++ c.leaves.map Leaf.hash

variable (blake3 : Bytes → Uint256)

/-- the hashes of leaves with the given data, the first one at index `first` -/
def leafHashesFrom (first : Nat) (datas : List Bytes) : List Uint256 :=
  datas.mapIdx fun i data => (Leaf.create blake3 (first + i) data).hash

/-- leaves numbered on from `first`, each with its own hash -/
def LeavesFrom (first : Nat) (leaves : List Leaf) : Prop :=
  ∀ k leaf, leaves[k]? = some leaf → leaf = Leaf.create blake3 (first + k) leaf.data

def View.RangeOk : View → Prop
  | .db d => Mmr.Range (calcParentHash blake3) (View.db d).leafHashes d.hashFile
  | .cache base c => base.RangeOk ∧ c.firstLeaf ≤ base.leafHashes.length ∧
      LeavesFrom blake3 c.firstLeaf c.leaves ∧
      Mmr.Range (calcParentHash blake3) (View.cache base c).leafHashes (View.cache base c).nodes

variable {blake3}

theorem leafHashesFrom_cons (first : Nat) (data : Bytes) (datas : List Bytes) :
    leafHashesFrom blake3 first (data :: datas) =
      (Leaf.create blake3 first data).hash :: leafHashesFrom blake3 (first + 1) datas := by
  simp [leafHashesFrom, List.mapIdx_cons, Nat.add_assoc, Nat.add_comm 1]

theorem View.RangeOk.range {v : View} (h : v.RangeOk blake3) :
    Mmr.Range (calcParentHash blake3) v.leafHashes v.nodes := by
  cases v with
  | db d => exact h
  | cache base c => exact h.2.2.2

variable {base : View} {c : CacheLayer}

theorem leafHashes_length (hfirst : c.firstLeaf ≤ base.leafHashes.length) :
    (View.cache base c).leafHashes.length = c.firstLeaf + c.leaves.length := by
  rw [View.leafHashes, List.length_append, List.length_take, List.length_map]
  omega

theorem CacheLayer.numLeaves_eq (h : LeavesFrom blake3 c.firstLeaf c.leaves) :
    c.numLeaves = c.firstLeaf + c.leaves.length := by
  unfold CacheLayer.numLeaves
  cases hlast : c.leaves.getLast? with
  | none =>
    rw [List.getLast?_eq_none_iff.mp hlast]
    rfl
  | some leaf =>
    rw [List.getLast?_eq_getElem?] at hlast
    have hlt := (List.getElem?_eq_some_iff.mp hlast).1
    have hindex : leaf.index = c.firstLeaf + (c.leaves.length - 1) := by
      rw [h _ _ hlast]
      rfl
    show leaf.index + 1 = _
    omega

theorem View.RangeOk.numLeaves_eq {v : View} (h : v.RangeOk blake3) :
    v.numLeaves = v.leafHashes.length := by
  cases v with
  | db d => simp [View.numLeaves, View.leafHashes]
  | cache base c =>
    rw [leafHashes_length h.2.1]
    exact CacheLayer.numLeaves_eq h.2.2.1

theorem length_take_nodes (hbase : base.RangeOk blake3) {n : Nat} (hn : n ≤ base.leafHashes.length) :
    (base.nodes.take (Mmr.position n)).length = Mmr.position n := by
  have hmono := Mmr.position_strictMono.monotone hn
  rw [List.length_take, hbase.range.length_eq]
  omega

theorem View.RangeOk.getHash_eq {v : View} (h : v.RangeOk blake3) {p : Nat} {x : Uint256}
    (hp : v.nodes[p]? = some x) : v.getHash p = .ok x := by
  induction v with
  | db d =>
    have hfile : d.hashFile[p]? = some x := hp
    rw [View.getHash, hfile]
  | cache base c ih =>
    have hlen := length_take_nodes h.1 h.2.1
    rw [View.nodes] at hp
    rw [View.getHash]
    by_cases hlt : p < Mmr.position c.firstLeaf
    · rw [if_pos hlt]
      rw [List.getElem?_append_left (by omega), List.getElem?_take_of_lt hlt] at hp
      exact ih h.1 hp
    · rw [if_neg hlt]
      rw [List.getElem?_append_right (by omega), hlen] at hp
      rw [hp]

theorem View.RangeOk.outputRoot_eq {v : View} (h : v.RangeOk blake3) :
    v.outputRoot blake3 = .ok (Mmr.bag (calcParentHash blake3) Uint256.isNull .null v.nodes.length
      (Mmr.peaksOf v.nodes)) := by
  rw [View.outputRoot, h.numLeaves_eq]
  exact h.range.root_eq fun p x hp => h.getHash_eq hp

theorem View.RangeOk.outputRoot_congr {v v' : View} (h : v.RangeOk blake3) (h' : v'.RangeOk blake3)
    (hleaves : v.leafHashes = v'.leafHashes) : v.outputRoot blake3 = v'.outputRoot blake3 := by
  have hrange' := h'.range
  rw [← hleaves] at hrange'
  rw [h.outputRoot_eq, h'.outputRoot_eq, h.range.unique _ hrange']

/-! ## fresh caches and added leaves -/

theorem fresh_leafHashes (h : base.RangeOk blake3) :
    (View.cache base (.fresh base)).leafHashes = base.leafHashes := by
  show base.leafHashes.take base.numLeaves ++ [] = _
  rw [h.numLeaves_eq, List.take_length, List.append_nil]

theorem fresh_rangeOk (h : base.RangeOk blake3) :
    (View.cache base (.fresh base)).RangeOk blake3 := by
  have hnodes : (View.cache base (.fresh base)).nodes = base.nodes := by
    show base.nodes.take (Mmr.position base.numLeaves) ++ [] = _
    rw [h.numLeaves_eq, ← h.range.length_eq, List.take_length, List.append_nil]
  refine ⟨h, ?_, ?_, ?_⟩
  · exact h.numLeaves_eq.le
  · intro k leaf hk
    cases hk
  · rw [fresh_leafHashes h, hnodes]
    exact h.range

theorem store_holds (hbase : base.RangeOk blake3) (c : CacheLayer)
    (hfirst : c.firstLeaf ≤ base.leafHashes.length) :
    (CacheLayer.store base).Holds fun c' nodes =>
      c' = { c with nodes := c'.nodes } ∧ (View.cache base c').nodes = nodes := by
  refine ⟨?_, ?_⟩
  · rintro c' nodes p h ⟨hc', rfl⟩ hp
    have hfirst' : c'.firstLeaf = c.firstLeaf := by rw [hc']
    have hlen := length_take_nodes hbase hfirst
    show (View.cache base c').getHash p = .ok h
    rw [View.nodes, hfirst'] at hp
    rw [View.getHash, hfirst']
    by_cases hlt : p < Mmr.position c.firstLeaf
    · rw [if_pos hlt]
      rw [List.getElem?_append_left (by omega), List.getElem?_take_of_lt hlt] at hp
      exact hbase.getHash_eq hp
    · rw [if_neg hlt]
      rw [List.getElem?_append_right (by omega), hlen] at hp
      rw [hp]
  · rintro c' nodes h ⟨hc', rfl⟩
    refine ⟨?_, ?_⟩
    · show { c' with nodes := c'.nodes ++ [h] } = _
      rw [hc']
      rfl
    · show base.nodes.take (Mmr.position c'.firstLeaf) ++ (c'.nodes ++ [h]) = _
      rw [← List.append_assoc]
      rfl

variable {first : Nat} {leaves : List Leaf}

theorem LeavesFrom.append (h : LeavesFrom blake3 first leaves) (data : Bytes) :
    LeavesFrom blake3 first (leaves ++ [Leaf.create blake3 (first + leaves.length) data]) := by
  intro k leaf hk
  rcases Nat.lt_or_ge k leaves.length with hlt | hge
  · rw [List.getElem?_append_left hlt] at hk
    exact h k leaf hk
  · rw [List.getElem?_append_right hge, List.getElem?_singleton] at hk
    split at hk
    · obtain rfl : k = leaves.length := by omega
      rw [← Option.some.inj hk]
      rfl
    · cases hk

/-- **The next leaf.**  Adding it succeeds, changes nothing but leaves and nodes, and keeps the
range. -/
theorem CacheLayer.addLeaf_ok (h : (View.cache base c).RangeOk blake3) (leaf : Leaf)
    (hleaf : leaf = Leaf.create blake3 c.numLeaves leaf.data) :
    ∃ new, c.addLeaf blake3 base leaf =
        .ok { c with nodes := c.nodes ++ new, leaves := c.leaves ++ [leaf] } ∧
      (View.cache base { c with
        nodes := c.nodes ++ new, leaves := c.leaves ++ [leaf] }).RangeOk blake3 := by
  obtain ⟨hbase, hfirst, hleaves, hrange⟩ := h
  have hnum := numLeaves_eq hleaves
  have hlen := leafHashes_length hfirst
  obtain ⟨new, hlist, hrange'⟩ :=
    Mmr.addLeaf_list (calcParentHash blake3) Fault.file hrange leaf.hash
  obtain ⟨c', hrun, hc', hnodes⟩ := Mmr.Store.addLeaf_simulates (calcParentHash blake3)
    (store_holds hbase c hfirst) ⟨rfl, rfl⟩ hlist
  have hindex : leaf.index = (View.cache base c).leafHashes.length := by
    rw [hleaf, hlen, ← hnum]
    rfl
  have hnew : c'.nodes = c.nodes ++ new := by
    have hfirst' : c'.firstLeaf = c.firstLeaf := by rw [hc']
    rw [View.nodes, View.nodes, hfirst', List.append_assoc] at hnodes
    exact List.append_cancel_left hnodes
  refine ⟨new, ?_, hbase, hfirst, ?_, ?_⟩
  · unfold CacheLayer.addLeaf
    rw [hindex, hrun, hc', hnew]
    rfl
  · have happ := hleaves.append leaf.data
    rw [← hnum, ← hleaf] at happ
    exact happ
  · show Mmr.Range _ (base.leafHashes.take c.firstLeaf ++ (c.leaves ++ [leaf]).map Leaf.hash)
      (base.nodes.take (Mmr.position c.firstLeaf) ++ (c.nodes ++ new))
    rw [List.map_append, ← List.append_assoc, ← List.append_assoc]
    exact hrange'

/-! ## rewinding -/

theorem LeavesFrom.take (h : LeavesFrom blake3 first leaves) (n : Nat) :
    LeavesFrom blake3 first (leaves.take n) := by
  intro k leaf hk
  have hlt := (List.getElem?_eq_some_iff.mp hk).1
  rw [List.length_take] at hlt
  rw [List.getElem?_take_of_lt (by omega)] at hk
  exact h k leaf hk

theorem LeavesFrom.tail {leaf : Leaf} (h : LeavesFrom blake3 first (leaf :: leaves)) :
    LeavesFrom blake3 (first + 1) leaves := by
  intro k x hk
  rw [h (k + 1) x hk, Nat.add_assoc, Nat.add_comm 1 k]
  rfl

theorem LeavesFrom.takeWhile_eq (h : LeavesFrom blake3 first leaves) (n : Nat) :
    (leaves.takeWhile fun leaf => leaf.index < n) = leaves.take (n - first) := by
  induction leaves generalizing first with
  | nil => rw [List.takeWhile_nil, List.take_nil]
  | cons leaf leaves ih =>
    have hindex : leaf.index = first := by
      rw [h 0 leaf rfl]
      rfl
    by_cases hlt : first < n
    · obtain ⟨m, hm⟩ : ∃ m, n - first = m + 1 := ⟨n - first - 1, by omega⟩
      rw [List.takeWhile_cons_of_pos (by rw [hindex]; exact decide_eq_true hlt), hm,
        List.take_succ_cons, ih h.tail, show n - (first + 1) = m by omega]
    · rw [List.takeWhile_cons_of_neg (by rw [hindex]; simpa using hlt),
        show n - first = 0 by omega, List.take_zero]

theorem take_nodes (hbase : base.RangeOk blake3) (hfirst : c.firstLeaf ≤ base.leafHashes.length)
    {n : Nat} (hn : c.firstLeaf ≤ n) :
    (View.cache base c).nodes.take (Mmr.position n) = base.nodes.take (Mmr.position c.firstLeaf) ++
      c.nodes.take (Mmr.position n - Mmr.position c.firstLeaf) := by
  have hlen := length_take_nodes hbase hfirst
  have hmono := Mmr.position_strictMono.monotone hn
  rw [View.nodes, List.take_append, hlen, List.take_of_length_le (by omega)]

/-- **Rewinding.**  The view keeps its first `n` leaves. -/
theorem CacheLayer.rewindRange_ok (h : (View.cache base c).RangeOk blake3) {n : Nat}
    (hn : n ≤ (View.cache base c).leafHashes.length) :
    (View.cache base (c.rewindRange n)).RangeOk blake3 ∧
      (View.cache base (c.rewindRange n)).leafHashes = (View.cache base c).leafHashes.take n := by
  have hstart := h.range.take _ hn
  obtain ⟨hbase, hfirst, hleaves, hrange⟩ := h
  have hlen := leafHashes_length hfirst
  unfold CacheLayer.rewindRange
  by_cases hle : n ≤ c.firstLeaf
  · -- nothing of the cache stays
    rw [if_pos hle]
    have htake : (View.cache base c).leafHashes.take n = base.leafHashes.take n := by
      rw [View.leafHashes, List.take_append_of_le_length (by rw [List.length_take]; omega),
        List.take_take, Nat.min_eq_left hle]
    refine ⟨⟨hbase, hle.trans hfirst, ?_, ?_⟩, ?_⟩
    · intro k leaf hk
      cases hk
    · show Mmr.Range _ (base.leafHashes.take n ++ []) (base.nodes.take (Mmr.position n) ++ [])
      rw [List.append_nil, List.append_nil]
      exact hbase.range.take _ (hle.trans hfirst)
    · show base.leafHashes.take n ++ [] = _
      rw [List.append_nil, htake]
  · rw [if_neg hle]
    by_cases hempty : c.leaves.isEmpty
    · rw [List.isEmpty_iff.mp hempty, List.length_nil] at hlen
      omega
    · rw [if_neg hempty, hleaves.takeWhile_eq n]
      have hkeep := hleaves.take (n - c.firstLeaf)
      have hcount : (c.leaves.take (n - c.firstLeaf)).length = n - c.firstLeaf := by
        rw [List.length_take]
        omega
      have hnum : CacheLayer.numLeaves { c with leaves := c.leaves.take (n - c.firstLeaf) } = n := by
        rw [numLeaves_eq hkeep, hcount]
        show c.firstLeaf + (n - c.firstLeaf) = n
        omega
      have htake : (View.cache base c).leafHashes.take n = base.leafHashes.take c.firstLeaf ++
          (c.leaves.take (n - c.firstLeaf)).map Leaf.hash := by
        rw [View.leafHashes, List.take_append, List.length_take, Nat.min_eq_left hfirst,
          List.map_take, List.take_of_length_le (by rw [List.length_take]; omega)]
      refine ⟨⟨hbase, hfirst, hkeep, ?_⟩, htake.symm⟩
      show Mmr.Range _
        (base.leafHashes.take c.firstLeaf ++ (c.leaves.take (n - c.firstLeaf)).map Leaf.hash)
        (base.nodes.take (Mmr.position c.firstLeaf) ++ c.nodes.take
          (Mmr.position (CacheLayer.numLeaves { c with leaves := c.leaves.take (n - c.firstLeaf) }) -
            Mmr.position c.firstLeaf))
      rw [hnum, ← htake, ← take_nodes hbase hfirst (by omega)]
      exact hstart

/-! ## writing leaves to the view below -/

structure View.SameOffRange (v v' : View) : Prop where
  header_eq : v'.header = v.header
  getUTXO_eq : v'.getUTXO = v.getUTXO
  getByte_eq : v'.getByte = v.getByte
  nextLeafIdx_eq : v'.nextLeafIdx = v.nextLeafIdx

theorem sameOffRange_cache (base : View) (c c' : CacheLayer)
    (h : c' = { c with firstLeaf := c'.firstLeaf, nodes := c'.nodes, leaves := c'.leaves }) :
    (View.cache base c).SameOffRange (.cache base c') := by
  rw [h]
  refine ⟨rfl, ?_, ?_, rfl⟩
  · funext id
    rfl
  · funext b
    rfl

theorem rewindRange_off (c : CacheLayer) (n : Nat) : c.rewindRange n =
    { c with
      firstLeaf := (c.rewindRange n).firstLeaf
      nodes := (c.rewindRange n).nodes
      leaves := (c.rewindRange n).leaves } := by
  unfold CacheLayer.rewindRange
  split
  · rfl
  · split
    · rfl
    · rfl

theorem LeavesFrom.head {leaf : Leaf} (h : LeavesFrom blake3 first (leaf :: leaves)) :
    leaf = Leaf.create blake3 first leaf.data :=
  h 0 leaf rfl

theorem CacheLayer.addData_run (h : (View.cache base c).RangeOk blake3)
    (hleaves : LeavesFrom blake3 (View.cache base c).leafHashes.length leaves) :
    ∃ c', leaves.foldlM (fun c leaf => CacheLayer.addData blake3 base c leaf.data) c = .ok c' ∧
      (View.cache base c').RangeOk blake3 ∧
      (View.cache base c').leafHashes =
        (View.cache base c).leafHashes ++ leaves.map Leaf.hash ∧
      c' = { c with firstLeaf := c'.firstLeaf, nodes := c'.nodes, leaves := c'.leaves } := by
  induction leaves generalizing c with
  | nil => exact ⟨c, rfl, h, (List.append_nil _).symm, rfl⟩
  | cons leaf leaves ih =>
    have hnum : c.numLeaves = (View.cache base c).leafHashes.length := h.numLeaves_eq
    have hleaf := hleaves.head
    rw [← hnum] at hleaf
    obtain ⟨new, hadd, hok⟩ := addLeaf_ok h leaf hleaf
    have hhashes : (View.cache base { c with
        nodes := c.nodes ++ new, leaves := c.leaves ++ [leaf] }).leafHashes =
        (View.cache base c).leafHashes ++ [leaf.hash] := by
      show base.leafHashes.take c.firstLeaf ++ (c.leaves ++ [leaf]).map Leaf.hash = _
      rw [List.map_append, ← List.append_assoc]
      rfl
    have htail := hleaves.tail
    rw [show (View.cache base c).leafHashes.length + 1 = (View.cache base { c with
        nodes := c.nodes ++ new, leaves := c.leaves ++ [leaf] }).leafHashes.length by
      rw [hhashes, List.length_append, List.length_singleton]] at htail
    obtain ⟨c', hrun, hok', hhashes', hoff⟩ := ih hok htail
    refine ⟨c', ?_, hok', ?_, hoff⟩
    · rw [List.foldlM_cons, Checked.bind_eq_ok]
      refine ⟨_, ?_, hrun⟩
      unfold CacheLayer.addData
      rw [← hleaf]
      exact hadd
    · rw [hhashes', hhashes, List.append_assoc]
      rfl

theorem leafHashes_db {d : DbView} {leaves : List Uint256}
    (h : Mmr.Range (calcParentHash blake3) leaves d.hashFile) : (View.db d).leafHashes = leaves := by
  rw [View.leafHashes, h.length_eq, Mmr.leafIndexAt_position]
  apply List.ext_getElem?
  intro i
  rcases Nat.lt_or_ge i leaves.length with hi | hi
  · have hleaf : leaves[i]? = some leaves[i] := List.getElem?_eq_getElem hi
    rw [List.getElem?_map, List.getElem?_range hi, hleaf]
    show some (d.hashFile.getD (Mmr.position i) .null) = _
    rw [List.getD_eq_getElem?_getD, h.leaf_at i _ hleaf]
    rfl
  · rw [List.getElem?_eq_none (by rw [List.length_map, List.length_range]; exact hi),
      List.getElem?_eq_none hi]

theorem listStore_run (fault : Fault) {file leafHashes : List Uint256}
    (h : Mmr.Range (calcParentHash blake3) leafHashes file)
    (hleaves : LeavesFrom blake3 leafHashes.length leaves) :
    ∃ file', leaves.foldlM (fun file leaf => (Mmr.listStore fault).addLeaf (calcParentHash blake3)
        file (Mmr.position leaf.index) leaf.hash) file = .ok file' ∧
      Mmr.Range (calcParentHash blake3) (leafHashes ++ leaves.map Leaf.hash) file' := by
  induction leaves generalizing file leafHashes with
  | nil =>
    refine ⟨file, rfl, ?_⟩
    rw [List.map_nil, List.append_nil]
    exact h
  | cons leaf leaves ih =>
    have hindex : leaf.index = leafHashes.length := by
      rw [hleaves.head]
      rfl
    obtain ⟨new, hadd, hrange⟩ := Mmr.addLeaf_list _ fault h leaf.hash
    have htail := hleaves.tail
    rw [show leafHashes.length + 1 = (leafHashes ++ [leaf.hash]).length by
      rw [List.length_append, List.length_singleton]] at htail
    obtain ⟨file', hrun, hrange'⟩ := ih hrange htail
    refine ⟨file', ?_, ?_⟩
    · rw [List.foldlM_cons, Checked.bind_eq_ok]
      refine ⟨_, ?_, hrun⟩
      rw [hindex]
      exact hadd
    · rw [List.map_cons, List.append_cons]
      exact hrange'

/-- **Writing leaves.**  A view keeps its leaves before `n` and takes over the given ones. -/
theorem View.writeLeaves_ok {v : View} (h : v.RangeOk blake3) {n : Nat}
    (hn : n ≤ v.leafHashes.length) (hleaves : LeavesFrom blake3 n leaves) :
    ∃ v', v.writeLeaves blake3 n leaves = .ok v' ∧ v'.RangeOk blake3 ∧
      v'.leafHashes = v.leafHashes.take n ++ leaves.map Leaf.hash ∧ v.SameOffRange v' := by
  have hlen : (v.leafHashes.take n).length = n := by
    rw [List.length_take]
    omega
  cases v with
  | db d =>
    have hrange := h.range.take _ hn
    have hfile : ¬ d.hashFile.length < Mmr.position n := by
      have hlength : d.hashFile.length = Mmr.position (View.db d).leafHashes.length :=
        h.range.length_eq
      have := Mmr.position_strictMono.monotone hn
      omega
    rw [← hlen] at hleaves
    obtain ⟨file', hrun, hrange'⟩ := listStore_run .file hrange hleaves
    have hdb : (View.db { d with hashFile := file' }).leafHashes = _ := leafHashes_db hrange'
    refine ⟨.db { d with hashFile := file' }, ?_, ?_, hdb, ⟨rfl, ?_, ?_, rfl⟩⟩
    · rw [View.writeLeaves, if_neg hfile, Checked.bind_eq_ok]
      exact ⟨file', hrun, rfl⟩
    · show Mmr.Range _ (View.db { d with hashFile := file' }).leafHashes file'
      rw [hdb]
      exact hrange'
    · funext id
      rfl
    · funext b
      rfl
  | cache base c =>
    obtain ⟨hok, hhashes⟩ := CacheLayer.rewindRange_ok h hn
    rw [← hlen, ← hhashes] at hleaves
    obtain ⟨c', hrun, hok', hhashes', hoff⟩ := CacheLayer.addData_run hok hleaves
    refine ⟨.cache base c', ?_, hok', ?_, ?_⟩
    · rw [View.writeLeaves, Checked.bind_eq_ok]
      exact ⟨c', hrun, rfl⟩
    · rw [hhashes', hhashes]
    · apply sameOffRange_cache
      rw [rewindRange_off] at hoff
      exact hoff

end Mw
