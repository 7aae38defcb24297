import ZkCoin.Library.Checked
import ZkCoin.Library.MmrIndex

/-!
# Merkle mountain ranges over any node store

A mountain range only grows at its end: a new leaf is followed by the parents it completes, each one
hashed from an older node and the node just written.  The loop is the same for every store that can
read a node and append one, so it is written once; a store is described by the list of its nodes.

* `Store.addLeaf`          — append a leaf and the parents it completes.
* `Store.addLeaf_simulates` — every store does what the list of its nodes does.
* `addLeaf_list`           — on lists: the old nodes stay, and a whole range comes out.
* `Range`                  — the node lists of mountain ranges.
* `Range.take`, `Range.unique` — prefixes of ranges; the leaves determine the nodes.
* `root`                   — the bagged peaks.
-/

namespace Mmr

variable {F S H : Type}

structure Store (F S H : Type) where
  get : S → Nat → Except F H
  push : S → H → S

/-! ## growing -/

section
variable (nodeHash : Nat → H → H → H)

/-- append the parents from place `p` on, until the next place is a leaf's -/
def Store.addParents (st : Store F S H) : Nat → S → Nat → H → Except F S
  | 0, s, _, _ => .ok s
  | fuel + 1, s, p, right =>
    if heightAt p = 0 then .ok s
    else do
      let left ← st.get s (p - 2 ^ heightAt p)
      Store.addParents st fuel (st.push s (nodeHash p left right)) (p + 1) (nodeHash p left right)

/-- append a leaf with hash `leaf` at place `p` and the parents it completes -/
def Store.addLeaf (st : Store F S H) (s : S) (p : Nat) (leaf : H) : Except F S :=
  st.addParents nodeHash (p + 1) (st.push s leaf) (p + 1) leaf

def listStore (fault : F) : Store F (List H) H where
  get nodes p := match nodes[p]? with
    | some h => .ok h
    | none => .error fault
  push nodes h := nodes ++ [h]

/-- `s` holds `nodes`: every node can be read, and appending keeps this -/
structure Store.Holds (st : Store F S H) (inv : S → List H → Prop) : Prop where
  get_eq : ∀ s nodes p h, inv s nodes → nodes[p]? = some h → st.get s p = .ok h
  push_inv : ∀ s nodes h, inv s nodes → inv (st.push s h) (nodes ++ [h])

theorem listStore_get {fault : F} {nodes : List H} {p : Nat} {h : H} :
    (listStore fault).get nodes p = .ok h ↔ nodes[p]? = some h := by
  unfold listStore
  cases hp : nodes[p]? with
  | none => simp [hp]
  | some x => simp [hp]

theorem Store.addParents_simulates {st : Store F S H} {inv : S → List H → Prop}
    (hst : st.Holds inv) {fault : F} {fuel p : Nat} {s : S} {nodes nodes' : List H} {right : H}
    (hs : inv s nodes)
    (h : (listStore fault).addParents nodeHash fuel nodes p right = .ok nodes') :
    ∃ s', st.addParents nodeHash fuel s p right = .ok s' ∧ inv s' nodes' := by
  induction fuel generalizing s nodes p right with
  | zero =>
    obtain rfl := Except.ok.inj h
    exact ⟨s, rfl, hs⟩
  | succ fuel ih =>
    unfold Store.addParents at h ⊢
    split at h
    · rename_i hleaf
      obtain rfl := Except.ok.inj h
      rw [if_pos hleaf]
      exact ⟨s, rfl, hs⟩
    · rename_i hleaf
      rw [if_neg hleaf]
      obtain ⟨left, hleft, h⟩ := Checked.bind_eq_ok.mp h
      obtain ⟨s', hs', hinv⟩ := ih (hst.push_inv _ _ _ hs) h
      refine ⟨s', Checked.bind_eq_ok.mpr ⟨left, ?_, hs'⟩, hinv⟩
      exact hst.get_eq _ _ _ _ hs (listStore_get.mp hleft)

theorem Store.addLeaf_simulates {st : Store F S H} {inv : S → List H → Prop} (hst : st.Holds inv)
    {fault : F} {s : S} {nodes nodes' : List H} {p : Nat} {leaf : H} (hs : inv s nodes)
    (h : (listStore fault).addLeaf nodeHash nodes p leaf = .ok nodes') :
    ∃ s', st.addLeaf nodeHash s p leaf = .ok s' ∧ inv s' nodes' :=
  Store.addParents_simulates nodeHash hst (hst.push_inv _ _ _ hs) h

/-! ## ranges -/

/-- `nodes` is a mountain range over the leaf hashes `leaves`: leaf `i` stands at its place and every
parent is hashed from its two children -/
structure Range (leaves nodes : List H) : Prop where
  length_eq : nodes.length = position leaves.length
  leaf_at : ∀ i h, leaves[i]? = some h → nodes[position i]? = some h
  parent_at : ∀ i h, i < leaves.length → 0 < h → position i + h < position (i + 1) →
    ∃ l r, nodes[position i + h - 2 ^ h]? = some l ∧ nodes[position i + h - 1]? = some r ∧
      nodes[position i + h]? = some (nodeHash (position i + h) l r)

theorem range_nil : Range nodeHash ([] : List H) [] :=
  ⟨rfl, fun i h hi => by simp at hi, fun i h hi => by simp at hi⟩

/-- the loop on a list, from `k` parents already written: it ends with the place of the next leaf -/
theorem addParents_list {fault : F} {i k fuel : Nat} {nodes : List H} {right : H}
    (hk : 0 < k) (hp : nodes.length = position i + k) (hle : position i + k ≤ position (i + 1))
    (hfuel : position (i + 1) < position i + k + fuel)
    (hright : nodes[position i + k - 1]? = some right) :
    ∃ new, (listStore fault).addParents nodeHash fuel nodes (position i + k) right =
        .ok (nodes ++ new) ∧ (nodes ++ new).length = position (i + 1) ∧
      ∀ h, k ≤ h → position i + h < position (i + 1) →
        ∃ l r, (nodes ++ new)[position i + h - 2 ^ h]? = some l ∧
          (nodes ++ new)[position i + h - 1]? = some r ∧
          (nodes ++ new)[position i + h]? = some (nodeHash (position i + h) l r) := by
  induction fuel generalizing k nodes right with
  | zero => omega
  | succ fuel ih =>
    unfold Store.addParents
    rcases Nat.lt_or_ge (position i + k) (position (i + 1)) with hlt | hge
    · have hheight : heightAt (position i + k) = k := by
        rw [heightAt_eq (by omega) hlt]
        omega
      have hpow : 0 < 2 ^ k := Nat.two_pow_pos k
      have hchild : position i + k - 2 ^ k < nodes.length := by omega
      obtain ⟨left, hleft⟩ : ∃ left, nodes[position i + k - 2 ^ k]? = some left :=
        ⟨_, List.getElem?_eq_getElem hchild⟩
      have hnew : (nodes ++ [nodeHash (position i + k) left right])[position i + (k + 1) - 1]? =
          some (nodeHash (position i + k) left right) := by
        rw [show position i + (k + 1) - 1 = nodes.length by omega]
        simp
      have hlen : (nodes ++ [nodeHash (position i + k) left right]).length =
          position i + (k + 1) := by
        rw [List.length_append, List.length_singleton]
        omega
      obtain ⟨new, hrun, hlen, hparents⟩ := ih (by omega) hlen (by omega) (by omega) hnew
      refine ⟨nodeHash (position i + k) left right :: new, ?_, ?_, ?_⟩
      · rw [if_neg (by omega), hheight]
        refine Checked.bind_eq_ok.mpr ⟨left, listStore_get.mpr hleft, ?_⟩
        rw [List.append_cons]
        exact hrun
      · rw [List.append_cons]
        exact hlen
      · intro h hkh hh
        rw [List.append_cons]
        rcases Nat.eq_or_lt_of_le hkh with rfl | hkh
        · refine ⟨left, right, ?_, ?_, ?_⟩
          · rw [List.append_assoc, List.getElem?_append_left hchild]
            exact hleft
          · rw [List.append_assoc, List.getElem?_append_left (by omega)]
            exact hright
          · rw [List.getElem?_append_left (by simp; omega), ← hp]
            simp
        · exact hparents h hkh hh
    · refine ⟨[], ?_, ?_, ?_⟩
      · have hend : position i + k = position (i + 1) := by omega
        rw [hend, heightAt_position, if_pos rfl, List.append_nil]
      · rw [List.append_nil]
        omega
      · intro h hkh hh
        omega

/-- **Adding a leaf.**  On a range the loop keeps the old nodes and gives the range with one more
leaf. -/
theorem addLeaf_list (fault : F) {leaves nodes : List H} (hrange : Range nodeHash leaves nodes)
    (leaf : H) :
    ∃ new, (listStore fault).addLeaf nodeHash nodes (position leaves.length) leaf =
        .ok (nodes ++ new) ∧ Range nodeHash (leaves ++ [leaf]) (nodes ++ new) := by
  have hlen := hrange.length_eq
  have hpos := position_lt_succ leaves.length
  have hfuel : position (leaves.length + 1) <
      position leaves.length + 1 + (position leaves.length + 1) := by
    by_contra hcon
    have hdvd := pow_dvd_of_lt_position (i := leaves.length) (h := position leaves.length + 1)
      (by omega)
    have hle := Nat.le_of_dvd (by omega) hdvd
    have hlt := Nat.lt_two_pow_self (n := position leaves.length + 1)
    have := le_position leaves.length
    omega
  have hone : (nodes ++ [leaf]).length = position leaves.length + 1 := by
    rw [List.length_append, List.length_singleton, hlen]
  have hlast : (nodes ++ [leaf])[position leaves.length + 1 - 1]? = some leaf := by simp [← hlen]
  obtain ⟨new, hrun, hlen', hparents⟩ :=
    addParents_list nodeHash Nat.one_pos hone (by omega) hfuel hlast
  rw [← List.append_cons] at hlen' hparents
  refine ⟨leaf :: new, ?_, ?_, ?_, ?_⟩
  · rw [List.append_cons]
    exact hrun
  · rw [hlen', List.length_append, List.length_singleton]
  · intro i h hi
    rcases Nat.lt_or_ge i leaves.length with hlt | hge
    · rw [List.getElem?_append_left hlt] at hi
      have hold := hrange.leaf_at i h hi
      rw [List.getElem?_append_left (List.getElem?_eq_some_iff.mp hold).1]
      exact hold
    · rw [List.getElem?_append_right hge, List.getElem?_singleton] at hi
      split at hi
      · obtain rfl := Option.some.inj hi
        obtain rfl : i = leaves.length := by omega
        rw [← hlen]
        simp
      · cases hi
  · intro i h hi hh hlt
    rw [List.length_append, List.length_singleton] at hi
    rcases Nat.lt_or_ge i leaves.length with hold | hlast
    · obtain ⟨l, r, hl, hr, hp⟩ := hrange.parent_at i h hold hh hlt
      exact ⟨l, r, (List.getElem?_append_left (List.getElem?_eq_some_iff.mp hl).1).trans hl,
        (List.getElem?_append_left (List.getElem?_eq_some_iff.mp hr).1).trans hr,
        (List.getElem?_append_left (List.getElem?_eq_some_iff.mp hp).1).trans hp⟩
    · obtain rfl : i = leaves.length := by omega
      exact hparents h hh hlt

theorem Range.take {leaves nodes : List H} (hrange : Range nodeHash leaves nodes) {n : Nat}
    (hn : n ≤ leaves.length) : Range nodeHash (leaves.take n) (nodes.take (position n)) := by
  have hmono := position_strictMono.monotone
  have hlen : (leaves.take n).length = n := by rw [List.length_take]; omega
  have hbelow : ∀ p h, p < position n → nodes[p]? = some h →
      (nodes.take (position n))[p]? = some h := by
    intro p h hp hget
    rw [List.getElem?_take_of_lt hp]
    exact hget
  refine ⟨?_, ?_, ?_⟩
  · have := hmono hn
    rw [List.length_take, hrange.length_eq, hlen]
    omega
  · intro i h hi
    have hlt : i < n := by
      have := (List.getElem?_eq_some_iff.mp hi).1
      omega
    rw [List.getElem?_take_of_lt hlt] at hi
    exact hbelow _ _ (position_strictMono hlt) (hrange.leaf_at i h hi)
  · intro i h hi hh hlt
    rw [hlen] at hi
    obtain ⟨l, r, hl, hr, hp⟩ := hrange.parent_at i h (by omega) hh hlt
    have hend : position (i + 1) ≤ position n := hmono hi
    have hchild := Nat.sub_le (position i + h) (2 ^ h)
    exact ⟨l, r, hbelow _ _ (by omega) hl, hbelow _ _ (by omega) hr, hbelow _ _ (by omega) hp⟩

theorem Range.unique {leaves nodes nodes' : List H} (h : Range nodeHash leaves nodes)
    (h' : Range nodeHash leaves nodes') : nodes = nodes' := by
  apply List.ext_getElem?
  intro p
  induction p using Nat.strong_induction_on with
  | _ p ih =>
    rcases Nat.lt_or_ge p (position leaves.length) with hp | hp
    · obtain ⟨i, hi, hlo, hhi⟩ := exists_position_le hp
      obtain ⟨k, rfl⟩ : ∃ k, p = position i + k := ⟨p - position i, by omega⟩
      rcases Nat.eq_zero_or_pos k with rfl | hk
      · have hleaf : leaves[i]? = some leaves[i] := List.getElem?_eq_getElem hi
        rw [Nat.add_zero, h.leaf_at i _ hleaf, h'.leaf_at i _ hleaf]
      · -- both nodes are hashed from children that agree already
        obtain ⟨l, r, hl, hr, hnode⟩ := h.parent_at i k hi hk hhi
        obtain ⟨l', r', hl', hr', hnode'⟩ := h'.parent_at i k hi hk hhi
        have hpow : 0 < 2 ^ k := Nat.two_pow_pos k
        rw [ih _ (by omega), hl'] at hl
        rw [ih _ (by omega), hr'] at hr
        rw [hnode, hnode', Option.some.inj hl, Option.some.inj hr]
    · rw [List.getElem?_eq_none (by rw [h.length_eq]; exact hp),
        List.getElem?_eq_none (by rw [h'.length_eq]; exact hp)]

end

/-! ## roots -/

/-- the places of the peaks among the sizes `2 ^ k - 1, …, 3, 1`: `left` nodes from place `sum` on -/
def peakIndices : Nat → Nat → Nat → List Nat
  | 0, _, _ => []
  | k + 1, left, sum =>
    if left ≥ 2 ^ (k + 1) - 1 then
      (sum + (2 ^ (k + 1) - 1) - 1) ::
        peakIndices k (left - (2 ^ (k + 1) - 1)) (sum + (2 ^ (k + 1) - 1))
    else peakIndices k left sum

/-- the peaks of a range with `numNodes` nodes, highest first -/
def calcPeakIndices (numNodes : Nat) : List Nat := peakIndices numNodes.size numNodes 0

/-- the peaks bagged from the right; a zero hash counts as nothing yet -/
def bag (nodeHash : Nat → H → H → H) (isZero : H → Bool) (zero : H) (numNodes : Nat)
    (peaks : List H) : H :=
  peaks.foldr (fun peak bagged => if isZero bagged then peak else nodeHash numNodes peak bagged) zero

def root (get : Nat → Except F H) (nodeHash : Nat → H → H → H) (isZero : H → Bool) (zero : H)
    (numNodes : Nat) : Except F H := do
  let peaks ← (calcPeakIndices numNodes).mapM get
  .ok (bag nodeHash isZero zero numNodes peaks)

theorem lt_of_mem_peakIndices {k left sum p : Nat} (h : p ∈ peakIndices k left sum) :
    p < sum + left := by
  induction k generalizing left sum with
  | zero => cases h
  | succ k ih =>
    have hpow : 2 ≤ 2 ^ (k + 1) := by
      rw [pow_succ]
      have := Nat.two_pow_pos k
      omega
    unfold peakIndices at h
    split at h
    · rcases List.mem_cons.mp h with rfl | h
      · omega
      · have := ih h
        omega
    · exact ih h

end Mmr
