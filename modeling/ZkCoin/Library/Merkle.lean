import Mathlib.Algebra.Group.Nat.Defs
import Mathlib.Data.List.Chain
import Mathlib.Data.List.Induction
import Mathlib.Data.List.Nodup

/-!
# Merkle trees that repeat the last node

The root of a list of hashes: neighbours are hashed together, a last node without neighbour with
itself, level by level until one is left.  Lists of different lengths may share a root; between lists
of one length the root determines the list, as long as the node hash tells the hashed pairs apart.

* `nextLevel`, `computeMerkleRoot`   — root and the sign of repeated pairs.
* `merklePairs`                      — the pairs that are hashed.
* `computeMerkleRoot_inj`            — the root determines the list.
* `computeMerkleRoot_mutated`        — different leaves, the last one apart, show no repeated pair.
* `branchRoot`, `branchRoot_inj`     — the walk from a leaf to the root, and that it pins the leaf.
* `branchRoot_split`                 — a longer walk along the left edge passes through the leaf of a
                                       shorter one.
* `branchRoot_fullBranch`            — the branch of a leaf of a full tree leads to its root.
* `branchRoot_leftBranch`            — the branch of the first leaf leads to the root of a list.
-/

namespace Merkle

variable {H : Type} (nodeHash : H → H → H) (zero : H)

def nextLevel : List H → List H
  | a :: b :: rest => nodeHash a b :: nextLevel rest
  | [a] => [nodeHash a a]
  | [] => []

def hasEqualPair [DecidableEq H] : List H → Bool
  | a :: b :: rest => decide (a = b) || hasEqualPair rest
  | _ => false

/-- the loop over the levels, at most `fuel` of them: the root and whether equal neighbours were seen -/
def levels [DecidableEq H] : Nat → List H → Bool → H × Bool
  | fuel + 1, a :: b :: rest, mutated =>
    levels fuel (nextLevel nodeHash (a :: b :: rest)) (mutated || hasEqualPair (a :: b :: rest))
  | _, hashes, mutated => (hashes.headD zero, mutated)

def computeMerkleRoot [DecidableEq H] (hashes : List H) : H × Bool :=
  levels nodeHash zero hashes.length hashes false

/-! ## the hashed pairs -/

def levelPairs : List H → List (H × H)
  | a :: b :: rest => (a, b) :: levelPairs rest
  | [a] => [(a, a)]
  | [] => []

def pairsFrom : Nat → List H → List (H × H)
  | fuel + 1, a :: b :: rest =>
    levelPairs (a :: b :: rest) ++ pairsFrom fuel (nextLevel nodeHash (a :: b :: rest))
  | _, _ => []

def merklePairs (hashes : List H) : List (H × H) := pairsFrom nodeHash hashes.length hashes

/-- the node hash tells the listed pairs apart -/
def PairsApart (used : List (H × H)) : Prop :=
  ∀ t ∈ used, ∀ t' ∈ used, nodeHash t.1 t.2 = nodeHash t'.1 t'.2 → t = t'

instance [DecidableEq H] (used : List (H × H)) : Decidable (PairsApart nodeHash used) :=
  inferInstanceAs (Decidable (∀ t ∈ used, ∀ t' ∈ used,
    nodeHash t.1 t.2 = nodeHash t'.1 t'.2 → t = t'))

variable {nodeHash zero}

theorem PairsApart.mono {used used' : List (H × H)} (h : PairsApart nodeHash used)
    (hsub : used' ⊆ used) : PairsApart nodeHash used' :=
  fun t ht t' ht' => h t (hsub ht) t' (hsub ht')

theorem length_nextLevel (l : List H) : (nextLevel nodeHash l).length = (l.length + 1) / 2 := by
  fun_induction nextLevel nodeHash l with
  | case1 a b rest ih =>
    rw [List.length_cons, ih, List.length_cons, List.length_cons]
    omega
  | case2 a => simp
  | case3 => simp

/-! ## the root determines the list -/

theorem nextLevel_inj {l l' : List H} (hlen : l.length = l'.length)
    (hapart : PairsApart nodeHash (levelPairs l ++ levelPairs l'))
    (h : nextLevel nodeHash l = nextLevel nodeHash l') : l = l' := by
  fun_induction nextLevel nodeHash l generalizing l' with
  | case1 a b rest ih =>
    match l', hlen with
    | a' :: b' :: rest', hlen =>
      obtain ⟨hnode, hrest⟩ := List.cons.inj h
      have hpair : (a, b) = (a', b') := hapart (a, b) (by simp [levelPairs]) (a', b')
        (by simp [levelPairs]) hnode
      obtain ⟨rfl, rfl⟩ := Prod.mk.inj hpair
      have htail : rest.length = rest'.length := by simpa using hlen
      rw [ih htail (hapart.mono ?_) hrest]
      intro t ht
      rw [List.mem_append] at ht ⊢
      exact ht.imp (List.mem_cons_of_mem _) (List.mem_cons_of_mem _)
  | case2 a =>
    match l', hlen with
    | [a'], _ =>
      have hpair : (a, a) = (a', a') := hapart (a, a) (by simp [levelPairs]) (a', a')
        (by simp [levelPairs]) (List.cons.inj h).1
      rw [(Prod.mk.inj hpair).1]
  | case3 => exact (List.length_eq_zero_iff.mp hlen.symm).symm

theorem levels_inj [DecidableEq H] {fuel : Nat} {l l' : List H} {b b' : Bool} (hfuel : l.length ≤ fuel)
    (hlen : l.length = l'.length)
    (hapart : PairsApart nodeHash (pairsFrom nodeHash fuel l ++ pairsFrom nodeHash fuel l'))
    (h : (levels nodeHash zero fuel l b).1 = (levels nodeHash zero fuel l' b').1) : l = l' := by
  induction fuel generalizing l l' b b' with
  | zero =>
    obtain rfl := List.length_eq_zero_iff.mp (Nat.le_zero.mp hfuel)
    exact (List.length_eq_zero_iff.mp hlen.symm).symm
  | succ fuel ih =>
    match l, l', hlen with
    | [], [], _ => rfl
    | [a], [a'], _ => rw [show a = a' from h]
    | x :: y :: rest, x' :: y' :: rest', hlen =>
      -- one level up the lists are shorter, and its equality comes down by the pairs of this level
      apply nextLevel_inj hlen
      · refine hapart.mono fun t ht => ?_
        rw [List.mem_append] at ht ⊢
        exact ht.imp (List.mem_append_left _) (List.mem_append_left _)
      · refine ih ?_ ?_ (hapart.mono fun t ht => ?_) h
        · rw [length_nextLevel]
          simp only [List.length_cons] at hfuel ⊢
          omega
        · rw [length_nextLevel, length_nextLevel, hlen]
        · rw [List.mem_append] at ht ⊢
          exact ht.imp (List.mem_append_right _) (List.mem_append_right _)

/-- **The root.**  Two lists of one length with one root are equal. -/
theorem computeMerkleRoot_inj [DecidableEq H] {l l' : List H} (hlen : l.length = l'.length)
    (hapart : PairsApart nodeHash (merklePairs nodeHash l ++ merklePairs nodeHash l'))
    (h : (computeMerkleRoot nodeHash zero l).1 = (computeMerkleRoot nodeHash zero l').1) :
    l = l' := by
  unfold computeMerkleRoot merklePairs at *
  rw [← hlen] at h hapart
  exact levels_inj (Nat.le_refl _) hlen hapart h

/-! ## repeated pairs -/

theorem nextLevel_eq_map (l : List H) :
    nextLevel nodeHash l = (levelPairs l).map fun pair => nodeHash pair.1 pair.2 := by
  fun_induction nextLevel nodeHash l with
  | case1 a b rest ih => rw [levelPairs, List.map_cons, ih]
  | case2 a => rfl
  | case3 => rfl

theorem dropLast_sublist_cons (a : H) (l : List H) : l.dropLast.Sublist (a :: l).dropLast := by
  cases l with
  | nil => exact List.nil_sublist _
  | cons b l => exact List.sublist_cons_self a _

theorem fst_of_mem_levelPairs {l : List H} {pair : H × H} (h : pair ∈ levelPairs l) :
    pair.1 ∈ l.dropLast ∨ pair.1 = pair.2 := by
  fun_induction levelPairs l with
  | case1 a b rest ih =>
    show pair.1 ∈ a :: (b :: rest).dropLast ∨ pair.1 = pair.2
    rcases List.mem_cons.mp h with rfl | h
    · exact .inl List.mem_cons_self
    · refine (ih h).imp_left fun hmem => ?_
      exact List.mem_cons_of_mem a ((dropLast_sublist_cons b rest).subset hmem)
  | case2 a =>
    obtain rfl := List.mem_singleton.mp h
    exact .inr rfl
  | case3 => cases h

section
variable [DecidableEq H]

theorem levelPairs_nodup {l : List H} (hnodup : l.dropLast.Nodup) (hpair : hasEqualPair l = false) :
    (levelPairs l).Nodup := by
  fun_induction levelPairs l with
  | case1 a b rest ih =>
    obtain ⟨ha, hrest⟩ := List.nodup_cons.mp (show (a :: (b :: rest).dropLast).Nodup from hnodup)
    simp only [hasEqualPair, Bool.or_eq_false_iff, decide_eq_false_iff_not] at hpair
    refine List.nodup_cons.mpr ⟨?_, ih (hrest.sublist (dropLast_sublist_cons b rest)) hpair.2⟩
    intro hmem
    rcases fst_of_mem_levelPairs hmem with hmem | heq
    · exact ha ((dropLast_sublist_cons b rest).subset hmem)
    · exact hpair.1 heq
  | case2 a => exact List.nodup_singleton _
  | case3 => exact List.nodup_nil

theorem hasEqualPair_of_isChain {l : List H} (h : l.IsChain (· ≠ ·)) : hasEqualPair l = false := by
  fun_induction hasEqualPair l with
  | case1 a b rest ih =>
    obtain ⟨hne, hrest⟩ := List.isChain_cons_cons.mp h
    rw [decide_eq_false hne, ih hrest.tail]
    rfl
  | case2 => rfl

theorem nextLevel_nodup {l : List H} (hnodup : l.dropLast.Nodup) (hpair : hasEqualPair l = false)
    (hapart : PairsApart nodeHash (levelPairs l)) : (nextLevel nodeHash l).Nodup := by
  rw [nextLevel_eq_map]
  exact List.Nodup.map_on hapart (levelPairs_nodup hnodup hpair)

/-- from the second level on all nodes are different -/
theorem levels_mutated {fuel : Nat} {l : List H} {mutated : Bool} (hnodup : l.dropLast.Nodup)
    (hpair : hasEqualPair l = false) (hapart : PairsApart nodeHash (pairsFrom nodeHash fuel l)) :
    (levels nodeHash zero fuel l mutated).2 = mutated := by
  induction fuel generalizing l mutated with
  | zero => rfl
  | succ fuel ih =>
    match l with
    | [] => rfl
    | [a] => rfl
    | a :: b :: rest =>
      have hnext := nextLevel_nodup hnodup hpair (hapart.mono (List.subset_append_left _ _))
      rw [levels, hpair, Bool.or_false]
      refine ih (hnext.sublist (List.dropLast_sublist _)) ?_
        (hapart.mono (List.subset_append_right _ _))
      exact hasEqualPair_of_isChain (List.Pairwise.isChain hnext)

theorem computeMerkleRoot_mutated {l : List H} (hnodup : l.dropLast.Nodup) (hchain : l.IsChain (· ≠ ·))
    (hapart : PairsApart nodeHash (merklePairs nodeHash l)) :
    (computeMerkleRoot nodeHash zero l).2 = false :=
  levels_mutated hnodup (hasEqualPair_of_isChain hchain) hapart

end

/-! ## branches -/

section
variable (nodeHash)

/-- the walk from a leaf to the root: the bits of the index say on which side the walk comes in -/
def branchRoot : H → List H → Int → H
  | hash, [], _ => hash
  | hash, sibling :: branch, index =>
    branchRoot (if index % 2 = 1 then nodeHash sibling hash else nodeHash hash sibling) branch
      (index / 2)

def branchPairs : H → List H → Int → List (H × H)
  | _, [], _ => []
  | hash, sibling :: branch, index =>
    (if index % 2 = 1 then (sibling, hash) else (hash, sibling)) ::
      branchPairs (if index % 2 = 1 then nodeHash sibling hash else nodeHash hash sibling) branch
        (index / 2)

end

theorem branchRoot_inj {x y : H} {branch branch' : List H} {index : Int}
    (hlen : branch.length = branch'.length)
    (hapart : PairsApart nodeHash
      (branchPairs nodeHash x branch index ++ branchPairs nodeHash y branch' index))
    (h : branchRoot nodeHash x branch index = branchRoot nodeHash y branch' index) : x = y := by
  induction branch generalizing x y branch' index with
  | nil =>
    obtain rfl := List.length_eq_zero_iff.mp hlen.symm
    exact h
  | cons s branch ih =>
    match branch', hlen with
    | s' :: branch', hlen =>
      have hnode := ih (Nat.succ.inj hlen) (hapart.mono ?_) h
      · by_cases hodd : index % 2 = 1
        · rw [if_pos hodd, if_pos hodd] at hnode
          exact (Prod.mk.inj (hapart (s, x) (by simp [branchPairs, hodd]) (s', y)
            (by simp [branchPairs, hodd]) hnode)).2
        · rw [if_neg hodd, if_neg hodd] at hnode
          exact (Prod.mk.inj (hapart (x, s) (by simp [branchPairs, hodd]) (y, s')
            (by simp [branchPairs, hodd]) hnode)).1
      · intro t ht
        rw [List.mem_append] at ht ⊢
        exact ht.imp (List.mem_cons_of_mem _) (List.mem_cons_of_mem _)

/-! ### walks along the left edge -/

theorem branchRoot_zero_append (x : H) (branch : List H) (s : H) :
    branchRoot nodeHash x (branch ++ [s]) 0 = nodeHash (branchRoot nodeHash x branch 0) s := by
  induction branch generalizing x with
  | nil => rfl
  | cons s' branch ih => exact ih (nodeHash x s')

theorem branchPairs_zero_append (x : H) (branch : List H) (s : H) :
    branchPairs nodeHash x (branch ++ [s]) 0 =
      branchPairs nodeHash x branch 0 ++ [(branchRoot nodeHash x branch 0, s)] := by
  induction branch generalizing x with
  | nil => rfl
  | cons s' branch ih =>
    show (x, s') :: branchPairs nodeHash (nodeHash x s') (branch ++ [s]) 0 = _
    rw [ih]
    rfl

/-- of two walks along the left edge that meet, the longer one passes through the leaf of the other -/
theorem branchRoot_split {x y : H} {branch branch' : List H}
    (hlen : branch.length ≤ branch'.length)
    (hapart : PairsApart nodeHash (branchPairs nodeHash x branch 0 ++ branchPairs nodeHash y branch' 0))
    (h : branchRoot nodeHash x branch 0 = branchRoot nodeHash y branch' 0) :
    ∃ below, below <+: branch' ∧ below.length + branch.length = branch'.length ∧
      x = branchRoot nodeHash y below 0 := by
  induction branch using List.reverseRecOn generalizing branch' with
  | nil => exact ⟨branch', List.prefix_refl _, by simp, h⟩
  | append_singleton branch s ih =>
    cases branch' using List.reverseRecOn with
    | nil => simp at hlen
    | append_singleton front s' =>
      -- the last step of both walks hashes the same pair
      rw [branchRoot_zero_append, branchRoot_zero_append] at h
      rw [branchPairs_zero_append, branchPairs_zero_append] at hapart
      have hpair := hapart (branchRoot nodeHash x branch 0, s) (by simp)
        (branchRoot nodeHash y front 0, s') (by simp) h
      obtain ⟨below, hbelow, hcount, hx⟩ := ih (by simpa using hlen)
        (hapart.mono fun t ht => by
          rw [List.mem_append] at ht
          rcases ht with ht | ht
          · simp [ht]
          · simp [ht])
        (Prod.mk.inj hpair).1
      refine ⟨below, hbelow.trans (List.prefix_append _ _), ?_, hx⟩
      rw [List.length_append, List.length_append, ← hcount]
      simp [Nat.add_assoc]

theorem branchRoot_eq_node {y : H} {branch below : List H} (hbelow : below <+: branch)
    (hne : below ≠ []) : ∃ pair ∈ branchPairs nodeHash y branch 0,
      branchRoot nodeHash y below 0 = nodeHash pair.1 pair.2 := by
  obtain ⟨rest, rfl⟩ := hbelow
  cases below using List.reverseRecOn with
  | nil => exact absurd rfl hne
  | append_singleton front s hfront =>
    clear hfront
    refine ⟨(branchRoot nodeHash y front 0, s), ?_, branchRoot_zero_append y front s⟩
    clear hne
    induction rest using List.reverseRecOn with
    | nil =>
      rw [List.append_nil, branchPairs_zero_append]
      simp
    | append_singleton rest s' ih =>
      rw [← List.append_assoc, branchPairs_zero_append]
      exact List.mem_append_left _ ih

/-! ## the branches of a tree -/

section
variable (nodeHash)

def pairUp (leaves : Nat → H) (i : Nat) : H := nodeHash (leaves (2 * i)) (leaves (2 * i + 1))

def fullRoot : Nat → (Nat → H) → H
  | 0, leaves => leaves 0
  | height + 1, leaves => fullRoot height (pairUp nodeHash leaves)

/-- the neighbours on the way from leaf `i` to the root -/
def fullBranch : Nat → (Nat → H) → Nat → List H
  | 0, _, _ => []
  | height + 1, leaves, i =>
    leaves (if i % 2 = 1 then i - 1 else i + 1) :: fullBranch height (pairUp nodeHash leaves) (i / 2)

/-- the neighbours on the way from the first leaf of a list to the root -/
def leftBranchFrom : Nat → List H → List H
  | fuel + 1, a :: b :: rest => b :: leftBranchFrom fuel (nextLevel nodeHash (a :: b :: rest))
  | _, _ => []

def leftBranch (hashes : List H) : List H := leftBranchFrom nodeHash hashes.length hashes

end

@[simp] theorem length_fullBranch (height : Nat) (leaves : Nat → H) (i : Nat) :
    (fullBranch nodeHash height leaves i).length = height := by
  induction height generalizing leaves i with
  | zero => rfl
  | succ height ih => rw [fullBranch, List.length_cons, ih]

theorem branchRoot_fullBranch {height : Nat} (leaves : Nat → H) {i : Nat} (hi : i < 2 ^ height) :
    branchRoot nodeHash (leaves i) (fullBranch nodeHash height leaves i) i =
      fullRoot nodeHash height leaves := by
  induction height generalizing leaves i with
  | zero =>
    obtain rfl : i = 0 := by omega
    rfl
  | succ height ih =>
    rw [Nat.pow_succ] at hi
    rw [fullRoot, ← ih (pairUp nodeHash leaves) (show i / 2 < 2 ^ height by omega)]
    rw [fullBranch, branchRoot, pairUp]
    -- the neighbour stands on the side that the last bit of the index says
    rcases Nat.mod_two_eq_zero_or_one i with hbit | hbit
    · rw [if_neg (by omega), if_neg (by omega), show 2 * (i / 2) = i by omega]
      rfl
    · rw [if_pos (by omega), if_pos hbit, show 2 * (i / 2) = i - 1 by omega,
        show i - 1 + 1 = i by omega]
      rfl

theorem branchRoot_leftBranchFrom [DecidableEq H] {fuel : Nat} {x : H} {rest : List H} {b : Bool}
    (hfuel : rest.length ≤ fuel) :
    branchRoot nodeHash x (leftBranchFrom nodeHash fuel (x :: rest)) 0 =
      (levels nodeHash zero fuel (x :: rest) b).1 := by
  induction fuel generalizing x rest b with
  | zero =>
    obtain rfl := List.length_eq_zero_iff.mp (Nat.le_zero.mp hfuel)
    rfl
  | succ fuel ih =>
    cases rest with
    | nil => rfl
    | cons y rest =>
      rw [leftBranchFrom, levels]
      refine ih ?_
      rw [length_nextLevel]
      rw [List.length_cons] at hfuel
      omega

theorem branchRoot_leftBranch [DecidableEq H] (x : H) (rest : List H) :
    branchRoot nodeHash x (leftBranch nodeHash (x :: rest)) 0 =
      (computeMerkleRoot nodeHash zero (x :: rest)).1 :=
  branchRoot_leftBranchFrom (by simp)

end Merkle
