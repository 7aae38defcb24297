import ZkCoin.Library.MmrPeaks
import ZkCoin.Library.MmrRoot

/-!
# Recomputing nodes of a mountain range

A node that is not given is hashed from its children.  Whatever is computed from true hashes is true
again, and the computation ends as soon as the given nodes cover the leaves below it.  Peaks are bagged
from the right, onto what is bagged already.

* `recompute`      — the hash of a node, as given or from its children.
* `Covered`        — the nodes that can be computed.
* `recompute_eq`   — they come out as they stand in the range.
* `bagOnto`        — bag peaks onto an optional hash.
* `bagOnto_eq_bag` — the root, when no bag on the way is a zero hash.
-/

namespace Mmr

variable {H : Type}

/-! ## nodes -/

/-- the hash of the node of height `h` at place `p` -/
def recompute (nodeHash : Nat → H → H → H) (known : Nat → Option H) : Nat → Nat → Option H
  | 0, p => known p
  | h + 1, p =>
    match known p with
    | some x => some x
    | none => do
      let left ← recompute nodeHash known h (p - 2 ^ (h + 1))
      let right ← recompute nodeHash known h (p - 1)
      some (nodeHash p left right)

/-- node `k` of height `h` is given, or both its children are covered -/
inductive Covered (known : Nat → Option H) : Nat → Nat → Prop
  | given {h k : Nat} {x : H} : known (node h k) = some x → Covered known h k
  | children {h k : Nat} : Covered known h (2 * k) → Covered known h (2 * k + 1) →
      Covered known (h + 1) k

variable {nodeHash : Nat → H → H → H}

theorem recompute_of_known {known : Nat → Option H} {p : Nat} {x : H} (hx : known p = some x)
    (h : Nat) : recompute nodeHash known h p = some x := by
  cases h with
  | zero => exact hx
  | succ h => rw [recompute, hx]

theorem Range.node_succ {leaves nodes : List H} (hrange : Range nodeHash leaves nodes) {h k : Nat}
    (hin : Inside leaves.length (h + 1) k) :
    ∃ l r, nodes[node h (2 * k)]? = some l ∧ nodes[node h (2 * k + 1)]? = some r ∧
      nodes[node (h + 1) k]? = some (nodeHash (node (h + 1) k) l r) := by
  have hplace := node_lt_position (h + 1) k
  rw [← lastLeaf_succ] at hplace
  have hlast : (k + 1) * 2 ^ (h + 1) - 1 < leaves.length := by
    have := lastLeaf_succ (h + 1) k
    unfold Inside at hin
    omega
  obtain ⟨l, r, hl, hr, hnode⟩ := hrange.parent_at _ (h + 1) hlast h.succ_pos hplace
  refine ⟨l, r, ?_, ?_, hnode⟩
  · rw [← node_succ_sub_pow]
    exact hl
  · rw [← node_succ_sub_one]
    exact hr

/-- **Recomputing.**  From true hashes, every covered node comes out as it stands in the range. -/
theorem recompute_eq {leaves nodes : List H} {known : Nat → Option H}
    (hrange : Range nodeHash leaves nodes) (hsound : ∀ p x, known p = some x → nodes[p]? = some x)
    {h k : Nat} (hcov : Covered known h k) (hin : Inside leaves.length h k) :
    ∃ x, nodes[node h k]? = some x ∧ recompute nodeHash known h (node h k) = some x := by
  induction hcov with
  | given hx => exact ⟨_, hsound _ _ hx, recompute_of_known hx _⟩
  | @children h k _ _ ihl ihr =>
    obtain ⟨l, hl, hleft⟩ := ihl (inside_children hin).1
    obtain ⟨r, hr, hright⟩ := ihr (inside_children hin).2
    obtain ⟨l', r', hl', hr', hnode⟩ := hrange.node_succ hin
    obtain rfl := Option.some.inj (hl.symm.trans hl')
    obtain rfl := Option.some.inj (hr.symm.trans hr')
    refine ⟨_, hnode, ?_⟩
    cases hx : known (node (h + 1) k) with
    | some x =>
      rw [recompute_of_known hx, ← hsound _ _ hx]
      exact hnode
    | none =>
      rw [recompute, hx, node_succ_sub_pow, node_succ_sub_one, hleft, hright]
      rfl

/-! ## bagging -/

section
variable (nodeHash : Nat → H → H → H) (numNodes : Nat)

def bagPeak (peak : H) : Option H → H
  | some bagged => nodeHash numNodes peak bagged
  | none => peak

def bagOnto (peaks : List H) (bagged : Option H) : Option H :=
  peaks.foldr (fun peak bagged => some (bagPeak nodeHash numNodes peak bagged)) bagged

variable {nodeHash numNodes}

theorem bagOnto_cons (peak : H) (peaks : List H) (bagged : Option H) :
    bagOnto nodeHash numNodes (peak :: peaks) bagged =
      some (bagPeak nodeHash numNodes peak (bagOnto nodeHash numNodes peaks bagged)) := rfl

theorem bagOnto_append (peaks peaks' : List H) (bagged : Option H) :
    bagOnto nodeHash numNodes (peaks ++ peaks') bagged =
      bagOnto nodeHash numNodes peaks (bagOnto nodeHash numNodes peaks' bagged) :=
  List.foldr_append

/-- both ways to bag agree as long as no bag of some of the last peaks looks like nothing -/
theorem bagOnto_eq_bag (isZero : H → Bool) {zero : H} (hzero : isZero zero = true) (peaks : List H)
    (hbags : ∀ front back bagged, peaks = front ++ back →
      bagOnto nodeHash numNodes back none = some bagged → isZero bagged = false) :
    (bagOnto nodeHash numNodes peaks none).getD zero = bag nodeHash isZero zero numNodes peaks := by
  induction peaks with
  | nil => rfl
  | cons peak peaks ih =>
    have ih := ih fun front back bagged hsplit => hbags (peak :: front) back bagged (by
      rw [hsplit]
      rfl)
    have hbag : bag nodeHash isZero zero numNodes (peak :: peaks) =
        if isZero (bag nodeHash isZero zero numNodes peaks) then peak
        else nodeHash numNodes peak (bag nodeHash isZero zero numNodes peaks) := rfl
    rw [bagOnto_cons, hbag, ← ih]
    cases hrest : bagOnto nodeHash numNodes peaks none with
    | none =>
      rw [Option.getD_none, if_pos hzero]
      rfl
    | some bagged =>
      rw [Option.getD_some, Option.getD_some, hbags [peak] peaks bagged rfl hrest]
      rfl

end

end Mmr
