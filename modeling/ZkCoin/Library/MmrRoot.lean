import ZkCoin.Library.Mmr

/-!
# The root of a mountain range commits to its leaves

If the node hash has no collision among the pairs that two ranges of the same size hash, then equal
roots mean equal leaves.  A zero hash is skipped when the peaks are bagged; that does no harm, because
a node of the range is never hashed at the place that bagging uses.

* `hashedPairs`        — everything that is hashed over the leaves of a range.
* `bag_inj`            — bagged peaks determine the peaks.
* `block_leaves_eq`    — the root of a block of leaves determines the leaves.
* `Range.leaves_eq_of_bag_eq` — the root determines the leaves.
-/

namespace Mmr

variable {H : Type} (nodeHash : Nat → H → H → H) (isZero : H → Bool) (zero : H)

/-! ## hashed pairs -/

def parentPairs (nodes : List H) : List (Nat × H × H) :=
  (List.range nodes.length).flatMap fun p =>
    if heightAt p = 0 then []
    else
      match nodes[p - 2 ^ heightAt p]?, nodes[p - 1]? with
      | some l, some r => [(p, l, r)]
      | _, _ => []

def bagPairs (numNodes : Nat) : List H → List (Nat × H × H)
  | [] => []
  | peak :: peaks =>
    if isZero (bag nodeHash isZero zero numNodes peaks) then bagPairs numNodes peaks
    else (numNodes, peak, bag nodeHash isZero zero numNodes peaks) :: bagPairs numNodes peaks

def peaksOf (nodes : List H) : List H := (calcPeakIndices nodes.length).filterMap (nodes[·]?)

def hashedPairs (nodes : List H) : List (Nat × H × H) :=
  parentPairs nodes ++ bagPairs nodeHash isZero zero nodes.length (peaksOf nodes)

/-- the node hash tells the listed pairs apart -/
def PairsApart (used : List (Nat × H × H)) : Prop :=
  ∀ t ∈ used, ∀ t' ∈ used,
    nodeHash t.1 t.2.1 t.2.2 = nodeHash t'.1 t'.2.1 t'.2.2 → t = t'

instance [DecidableEq H] (used : List (Nat × H × H)) : Decidable (PairsApart nodeHash used) :=
  inferInstanceAs (Decidable (∀ t ∈ used, ∀ t' ∈ used,
    nodeHash t.1 t.2.1 t.2.2 = nodeHash t'.1 t'.2.1 t'.2.2 → t = t'))

variable {nodeHash isZero zero}

theorem mem_parentPairs {nodes : List H} {p : Nat} {l r : H} (hp : p < nodes.length)
    (hheight : heightAt p ≠ 0) (hl : nodes[p - 2 ^ heightAt p]? = some l)
    (hr : nodes[p - 1]? = some r) : (p, l, r) ∈ parentPairs nodes := by
  refine List.mem_flatMap.mpr ⟨p, List.mem_range.mpr hp, ?_⟩
  rw [if_neg hheight, hl, hr]
  exact List.mem_singleton_self _

/-! ## peaks -/

/-- every peak but the last is a parent, hashed at its own place -/
def InnerHashed (nodeHash : Nat → H → H → H) (used : List (Nat × H × H)) (numNodes : Nat) :
    List H → Prop
  | [] => True
  | peak :: peaks => (peaks ≠ [] → ∃ t ∈ used, t.1 ≠ numNodes ∧ peak = nodeHash t.1 t.2.1 t.2.2) ∧
      InnerHashed nodeHash used numNodes peaks

/-- a node of the range is not what bagging gives at the place behind the range -/
theorem PairsApart.inner_ne {used : List (Nat × H × H)} (h : PairsApart nodeHash used)
    {numNodes : Nat} {t : Nat × H × H} {l r : H} (ht : t ∈ used) (hplace : t.1 ≠ numNodes)
    (hmem : (numNodes, l, r) ∈ used) : nodeHash t.1 t.2.1 t.2.2 ≠ nodeHash numNodes l r := by
  intro heq
  have hsame := h t ht _ hmem heq
  rw [hsame] at hplace
  exact hplace rfl

theorem ne_nil_of_bag (hzero : ∀ x, isZero x = true ↔ x = zero) {numNodes : Nat} {peaks : List H}
    (h : isZero (bag nodeHash isZero zero numNodes peaks) = false) : peaks ≠ [] := by
  rintro rfl
  have hnil : isZero zero = true := (hzero zero).mpr rfl
  exact Bool.noConfusion (hnil.symm.trans h)

theorem bag_inj {used : List (Nat × H × H)} (h : PairsApart nodeHash used)
    (hzero : ∀ x, isZero x = true ↔ x = zero) {numNodes : Nat} {peaks peaks' : List H}
    (hlen : peaks.length = peaks'.length) (hin : InnerHashed nodeHash used numNodes peaks)
    (hin' : InnerHashed nodeHash used numNodes peaks')
    (hsub : ∀ t ∈ bagPairs nodeHash isZero zero numNodes peaks, t ∈ used)
    (hsub' : ∀ t ∈ bagPairs nodeHash isZero zero numNodes peaks', t ∈ used)
    (heq : bag nodeHash isZero zero numNodes peaks = bag nodeHash isZero zero numNodes peaks') :
    peaks = peaks' := by
  induction peaks generalizing peaks' with
  | nil => exact (List.length_eq_zero_iff.mp hlen.symm).symm
  | cons p ps ih =>
    cases peaks' with
    | nil => cases hlen
    | cons p' ps' =>
      have hlen' : ps.length = ps'.length := Nat.succ.inj hlen
      have hcons : bag nodeHash isZero zero numNodes (p :: ps) =
          if isZero (bag nodeHash isZero zero numNodes ps) then p
          else nodeHash numNodes p (bag nodeHash isZero zero numNodes ps) := rfl
      have hcons' : bag nodeHash isZero zero numNodes (p' :: ps') =
          if isZero (bag nodeHash isZero zero numNodes ps') then p'
          else nodeHash numNodes p' (bag nodeHash isZero zero numNodes ps') := rfl
      rw [hcons, hcons'] at heq
      unfold bagPairs at hsub hsub'
      -- an empty bag on one side only: the peak there would be hashed at two places
      cases hz : isZero (bag nodeHash isZero zero numNodes ps) with
      | true =>
        cases hz' : isZero (bag nodeHash isZero zero numNodes ps') with
        | true =>
          rw [if_pos hz, if_pos hz'] at heq
          rw [if_pos hz] at hsub
          rw [if_pos hz'] at hsub'
          have hbags := ((hzero _).mp hz).trans ((hzero _).mp hz').symm
          rw [heq, ih hlen' hin.2 hin'.2 hsub hsub' hbags]
        | false =>
          rw [hz, hz', if_pos rfl, if_neg (by simp)] at heq
          rw [hz', if_neg (by simp)] at hsub'
          have hne : ps ≠ [] := by
            rintro rfl
            exact ne_nil_of_bag hzero hz' (List.length_eq_zero_iff.mp hlen'.symm)
          obtain ⟨t, ht, hplace, rfl⟩ := hin.1 hne
          exact absurd heq (h.inner_ne ht hplace (hsub' _ List.mem_cons_self))
      | false =>
        cases hz' : isZero (bag nodeHash isZero zero numNodes ps') with
        | true =>
          rw [hz, hz', if_pos rfl, if_neg (by simp)] at heq
          rw [hz, if_neg (by simp)] at hsub
          have hne : ps' ≠ [] := by
            rintro rfl
            exact ne_nil_of_bag hzero hz (List.length_eq_zero_iff.mp hlen')
          obtain ⟨t, ht, hplace, rfl⟩ := hin'.1 hne
          exact absurd heq.symm (h.inner_ne ht hplace (hsub _ List.mem_cons_self))
        | false =>
          rw [hz, hz', if_neg (by simp), if_neg (by simp)] at heq
          rw [hz, if_neg (by simp)] at hsub
          rw [hz', if_neg (by simp)] at hsub'
          have hpair := h _ (hsub _ List.mem_cons_self) _ (hsub' _ List.mem_cons_self) heq
          obtain ⟨-, hp⟩ := Prod.mk.inj hpair
          obtain ⟨rfl, hbags⟩ := Prod.mk.inj hp
          rw [ih hlen' hin.2 hin'.2 (fun t ht => hsub t (List.mem_cons_of_mem _ ht))
            (fun t ht => hsub' t (List.mem_cons_of_mem _ ht)) hbags]

/-! ## blocks of leaves -/

section
variable {leaves nodes leaves' nodes' : List H} {used : List (Nat × H × H)}

theorem Range.mem_parentPairs (hrange : Range nodeHash leaves nodes) {i h : Nat}
    (hi : i < leaves.length) (hh : 0 < h) (hlt : position i + h < position (i + 1)) :
    ∃ l r, nodes[position i + h - 2 ^ h]? = some l ∧ nodes[position i + h - 1]? = some r ∧
      nodes[position i + h]? = some (nodeHash (position i + h) l r) ∧
      (position i + h, l, r) ∈ parentPairs nodes := by
  obtain ⟨l, r, hl, hr, hnode⟩ := hrange.parent_at i h hi hh hlt
  have hheight : heightAt (position i + h) = h := by
    rw [heightAt_eq (by omega) hlt]
    omega
  refine ⟨l, r, hl, hr, hnode, Mmr.mem_parentPairs (List.getElem?_eq_some_iff.mp hnode).1 ?_ ?_ hr⟩
  · omega
  · rw [hheight]
    exact hl

theorem block_leaves_eq (hrange : Range nodeHash leaves nodes)
    (hrange' : Range nodeHash leaves' nodes') (hlen : leaves.length = leaves'.length)
    (hinj : PairsApart nodeHash used) (hsub : ∀ t ∈ parentPairs nodes, t ∈ used)
    (hsub' : ∀ t ∈ parentPairs nodes', t ∈ used) {m a : Nat} (ha : 2 ^ m ∣ a)
    (hend : a + 2 ^ m ≤ leaves.length)
    (heq : nodes[position a + 2 ^ (m + 1) - 2]? = nodes'[position a + 2 ^ (m + 1) - 2]?) {i : Nat}
    (hlo : a ≤ i) (hhi : i < a + 2 ^ m) : leaves[i]? = leaves'[i]? := by
  induction m generalizing a i with
  | zero =>
    obtain rfl : i = a := by omega
    have hi : leaves[i]? = some (leaves.get ⟨i, by omega⟩) := List.getElem?_eq_getElem _
    have hi' : leaves'[i]? = some (leaves'.get ⟨i, by omega⟩) := List.getElem?_eq_getElem _
    rw [show position i + 2 ^ (0 + 1) - 2 = position i by omega, hrange.leaf_at i _ hi,
      hrange'.leaf_at i _ hi'] at heq
    rw [hi, hi', heq]
  | succ m ih =>
    have hpos : 0 < 2 ^ m := Nat.two_pow_pos m
    have hpow : 2 ^ (m + 1) = 2 * 2 ^ m := by rw [pow_succ]; omega
    have hpow' : 2 ^ (m + 1 + 1) = 2 * 2 ^ (m + 1) := by rw [pow_succ]; omega
    have hblock := position_block ha
    -- the last leaf of the block completes its root
    have hdvd : 2 ^ (m + 1) ∣ a + (2 ^ (m + 1) - 1) + 1 := by
      rw [show a + (2 ^ (m + 1) - 1) + 1 = a + 2 ^ (m + 1) by omega]
      exact Nat.dvd_add ha (dvd_refl _)
    have hlt := lt_position_of_pow_dvd hdvd
    obtain ⟨l, r, hl, hr, hnode, hmem⟩ := hrange.mem_parentPairs (by omega) (by omega) hlt
    obtain ⟨l', r', hl', hr', hnode', hmem'⟩ := hrange'.mem_parentPairs (by omega) (by omega) hlt
    have hplace : position a + 2 ^ (m + 1 + 1) - 2 = position (a + (2 ^ (m + 1) - 1)) + (m + 1) := by
      omega
    rw [hplace, hnode, hnode'] at heq
    have hpair := hinj _ (hsub _ hmem) _ (hsub' _ hmem') (Option.some.inj heq)
    obtain ⟨-, hchildren⟩ := Prod.mk.inj hpair
    obtain ⟨rfl, rfl⟩ := Prod.mk.inj hchildren
    have ha' : 2 ^ m ∣ a := (Nat.pow_dvd_pow 2 (Nat.le_succ m)).trans ha
    rcases Nat.lt_or_ge i (a + 2 ^ m) with hleft | hright
    · refine ih ha' (by omega) ?_ hlo hleft
      rw [show position a + 2 ^ (m + 1) - 2 =
        position (a + (2 ^ (m + 1) - 1)) + (m + 1) - 2 ^ (m + 1) by omega, hl, hl']
    · have hmid : position (a + 2 ^ m) = position a + (2 ^ (m + 1) - 1) := by
        rw [position_add ha (by omega), position_pow]
      refine ih (Nat.dvd_add ha' (dvd_refl _)) (by omega) ?_ hright (by omega)
      rw [show position (a + 2 ^ m) + 2 ^ (m + 1) - 2 =
        position (a + (2 ^ (m + 1) - 1)) + (m + 1) - 1 by omega, hr, hr']

/-! ## the whole range -/

theorem filterMap_length {nodes : List H} {ps : List Nat} (h : ∀ p ∈ ps, p < nodes.length) :
    (ps.filterMap (nodes[·]?)).length = ps.length := by
  induction ps with
  | nil => rfl
  | cons p ps ih =>
    have hp : nodes[p]? = some (nodes.get ⟨p, h p List.mem_cons_self⟩) := List.getElem?_eq_getElem _
    rw [List.filterMap_cons_some hp, List.length_cons, List.length_cons,
      ih fun q hq => h q (List.mem_cons_of_mem _ hq)]

theorem getElem?_eq_of_filterMap_eq {ps : List Nat} (h : ∀ p ∈ ps, p < nodes.length)
    (h' : ∀ p ∈ ps, p < nodes'.length)
    (heq : ps.filterMap (nodes[·]?) = ps.filterMap (nodes'[·]?)) :
    ∀ p ∈ ps, nodes[p]? = nodes'[p]? := by
  induction ps with
  | nil => exact fun p hp => absurd hp List.not_mem_nil
  | cons p ps ih =>
    have hp : nodes[p]? = some (nodes.get ⟨p, h p List.mem_cons_self⟩) := List.getElem?_eq_getElem _
    have hp' : nodes'[p]? = some (nodes'.get ⟨p, h' p List.mem_cons_self⟩) :=
      List.getElem?_eq_getElem _
    rw [List.filterMap_cons_some hp, List.filterMap_cons_some hp'] at heq
    obtain ⟨hhead, htail⟩ := List.cons.inj heq
    intro q hq
    rcases List.mem_cons.mp hq with rfl | hq
    · rw [hp, hp', hhead]
    · exact ih (fun q hq => h q (List.mem_cons_of_mem _ hq))
        (fun q hq => h' q (List.mem_cons_of_mem _ hq)) htail q hq

theorem leaves_eq_of_peaks (hrange : Range nodeHash leaves nodes)
    (hrange' : Range nodeHash leaves' nodes') (hlen : leaves.length = leaves'.length)
    (hinj : PairsApart nodeHash used) (hsub : ∀ t ∈ parentPairs nodes, t ∈ used)
    (hsub' : ∀ t ∈ parentPairs nodes', t ∈ used) {k a r : Nat} (hr : r < 2 ^ k) (ha : 2 ^ k ∣ a)
    (hend : a + r ≤ leaves.length)
    (heq : ∀ p ∈ peakIndices k (position r) (position a), nodes[p]? = nodes'[p]?) {i : Nat}
    (hlo : a ≤ i) (hhi : i < a + r) : leaves[i]? = leaves'[i]? := by
  induction k generalizing a r with
  | zero => omega
  | succ k ih =>
    have ha' : 2 ^ k ∣ a := (Nat.pow_dvd_pow 2 (Nat.le_succ k)).trans ha
    unfold peakIndices at heq
    rcases Nat.lt_or_ge r (2 ^ k) with hlt | hge
    · have hsmall : position r < 2 ^ (k + 1) - 1 := by
        rw [← position_pow]
        exact position_strictMono hlt
      rw [if_neg (by omega)] at heq
      exact ih hlt ha' hend heq hlo hhi
    · obtain ⟨r', rfl⟩ : ∃ r', r = 2 ^ k + r' := ⟨r - 2 ^ k, by omega⟩
      have hr' : r' < 2 ^ k := by rw [pow_succ] at hr; omega
      have hpos : 0 < 2 ^ k := Nat.two_pow_pos k
      have hpow : 2 ^ (k + 1) = 2 * 2 ^ k := by rw [pow_succ]; omega
      have hmid : position (a + 2 ^ k) = position a + (2 ^ (k + 1) - 1) := by
        rw [position_add ha (by omega), position_pow]
      rw [position_pow_add hr', if_pos (by omega), Nat.add_sub_cancel_left] at heq
      rcases Nat.lt_or_ge i (a + 2 ^ k) with hleft | hright
      · refine block_leaves_eq hrange hrange' hlen hinj hsub hsub' ha' (by omega) ?_ hlo hleft
        have hpeak := heq _ List.mem_cons_self
        rwa [show position a + (2 ^ (k + 1) - 1) - 1 = position a + 2 ^ (k + 1) - 2 by omega] at hpeak
      · refine ih hr' (Nat.dvd_add ha' (dvd_refl _)) (by omega) ?_ hright (by omega)
        intro p hp
        rw [hmid] at hp
        exact heq p (List.mem_cons_of_mem _ hp)

theorem peaks_innerHashed (hrange : Range nodeHash leaves nodes)
    (hsub : ∀ t ∈ parentPairs nodes, t ∈ used) {k a r : Nat} (hr : r < 2 ^ k) (ha : 2 ^ k ∣ a)
    (hend : a + r ≤ leaves.length) :
    InnerHashed nodeHash used nodes.length
      ((peakIndices k (position r) (position a)).filterMap (nodes[·]?)) := by
  induction k generalizing a r with
  | zero => trivial
  | succ k ih =>
    have ha' : 2 ^ k ∣ a := (Nat.pow_dvd_pow 2 (Nat.le_succ k)).trans ha
    unfold peakIndices
    rcases Nat.lt_or_ge r (2 ^ k) with hlt | hge
    · have hsmall : position r < 2 ^ (k + 1) - 1 := by
        rw [← position_pow]
        exact position_strictMono hlt
      rw [if_neg (by omega)]
      exact ih hlt ha' hend
    · obtain ⟨r', rfl⟩ : ∃ r', r = 2 ^ k + r' := ⟨r - 2 ^ k, by omega⟩
      have hr' : r' < 2 ^ k := by rw [pow_succ] at hr; omega
      have hpos : 0 < 2 ^ k := Nat.two_pow_pos k
      have hpow : 2 ^ (k + 1) = 2 * 2 ^ k := by rw [pow_succ]; omega
      have hmid : position (a + 2 ^ k) = position a + (2 ^ (k + 1) - 1) := by
        rw [position_add ha (by omega), position_pow]
      have hblock := position_block ha'
      have hfits := position_strictMono.monotone (show a + 2 ^ k ≤ leaves.length by omega)
      have hlength := hrange.length_eq
      rw [position_pow_add hr', if_pos (by omega), Nat.add_sub_cancel_left, ← hmid]
      obtain ⟨x, hx⟩ : ∃ x, nodes[position (a + 2 ^ k) - 1]? = some x :=
        ⟨_, List.getElem?_eq_getElem (show position (a + 2 ^ k) - 1 < nodes.length by omega)⟩
      rw [List.filterMap_cons_some hx]
      refine ⟨?_, ih hr' (Nat.dvd_add ha' (dvd_refl _)) (by omega)⟩
      intro hne
      have hk : 0 < k := by
        rcases Nat.eq_zero_or_pos k with rfl | hk
        · exact absurd rfl hne
        · exact hk
      have hdvd : 2 ^ k ∣ a + (2 ^ k - 1) + 1 := by
        rw [show a + (2 ^ k - 1) + 1 = a + 2 ^ k by omega]
        exact Nat.dvd_add ha' (dvd_refl _)
      obtain ⟨l, r, -, -, hnode, hmem⟩ :=
        hrange.mem_parentPairs (by omega) hk (lt_position_of_pow_dvd hdvd)
      have hplace : position (a + (2 ^ k - 1)) + k = position (a + 2 ^ k) - 1 := by omega
      rw [hplace] at hnode hmem
      refine ⟨_, hsub _ hmem, ?_, ?_⟩
      · show position (a + 2 ^ k) - 1 ≠ nodes.length
        omega
      · exact Option.some.inj (hx.symm.trans hnode)

end

/-- **The root commits to the leaves** of ranges of one size. -/
theorem Range.leaves_eq_of_bag_eq {leaves nodes leaves' nodes' : List H}
    (hrange : Range nodeHash leaves nodes) (hrange' : Range nodeHash leaves' nodes')
    (hlen : leaves.length = leaves'.length) (hzero : ∀ x, isZero x = true ↔ x = zero)
    (hinj : PairsApart nodeHash
      (hashedPairs nodeHash isZero zero nodes ++ hashedPairs nodeHash isZero zero nodes'))
    (heq : bag nodeHash isZero zero nodes.length (peaksOf nodes) =
      bag nodeHash isZero zero nodes'.length (peaksOf nodes')) : leaves = leaves' := by
  have hcount : nodes.length = nodes'.length := by
    rw [hrange.length_eq, hrange'.length_eq, hlen]
  have hsize : leaves.length < 2 ^ (position leaves.length).size :=
    (le_position _).trans_lt (Nat.lt_size_self _)
  have hindices : calcPeakIndices nodes.length =
      peakIndices (position leaves.length).size (position leaves.length) (position 0) := by
    rw [hrange.length_eq]
    rfl
  have hin : ∀ p ∈ calcPeakIndices nodes.length, p < nodes.length := by
    intro p hp
    have := lt_of_mem_peakIndices hp
    omega
  have hsub : ∀ t ∈ parentPairs nodes, t ∈
      hashedPairs nodeHash isZero zero nodes ++ hashedPairs nodeHash isZero zero nodes' :=
    fun t ht => List.mem_append_left _ (List.mem_append_left _ ht)
  have hsub' : ∀ t ∈ parentPairs nodes', t ∈
      hashedPairs nodeHash isZero zero nodes ++ hashedPairs nodeHash isZero zero nodes' :=
    fun t ht => List.mem_append_right _ (List.mem_append_left _ ht)
  have hinner := peaks_innerHashed hrange hsub hsize (dvd_zero _) (by omega)
  have hinner' := peaks_innerHashed hrange' hsub' (hlen ▸ hsize) (dvd_zero _) (by omega)
  rw [← hindices] at hinner
  rw [← hlen, ← hcount, ← hindices] at hinner'
  have hbags : ∀ t ∈ bagPairs nodeHash isZero zero nodes.length (peaksOf nodes), t ∈
      hashedPairs nodeHash isZero zero nodes ++ hashedPairs nodeHash isZero zero nodes' :=
    fun t ht => List.mem_append_left _ (List.mem_append_right _ ht)
  have hbags' : ∀ t ∈ bagPairs nodeHash isZero zero nodes'.length (peaksOf nodes'), t ∈
      hashedPairs nodeHash isZero zero nodes ++ hashedPairs nodeHash isZero zero nodes' :=
    fun t ht => List.mem_append_right _ (List.mem_append_right _ ht)
  unfold peaksOf at heq hbags hbags'
  rw [← hcount] at heq hbags'
  have hpeaks := bag_inj hinj hzero
    ((filterMap_length hin).trans (filterMap_length (hcount ▸ hin)).symm) hinner hinner' hbags
    hbags' heq
  have hnodes := getElem?_eq_of_filterMap_eq hin (hcount ▸ hin) hpeaks
  rw [hindices] at hnodes
  apply List.ext_getElem?
  intro i
  rcases Nat.lt_or_ge i leaves.length with hi | hi
  · exact leaves_eq_of_peaks hrange hrange' hlen hinj hsub hsub' hsize (dvd_zero _) (by omega) hnodes
      (Nat.zero_le i) (by omega)
  · rw [List.getElem?_eq_none hi, List.getElem?_eq_none (hlen ▸ hi)]

theorem Range.root_eq {F : Type} {leaves nodes : List H} (hrange : Range nodeHash leaves nodes)
    {get : Nat → Except F H} (hget : ∀ p x, nodes[p]? = some x → get p = .ok x) :
    root get nodeHash isZero zero (position leaves.length) =
      .ok (bag nodeHash isZero zero nodes.length (peaksOf nodes)) := by
  have hpeaks : ∀ ps : List Nat, (∀ p ∈ ps, p < nodes.length) →
      ps.mapM get = .ok (ps.filterMap (nodes[·]?)) := by
    intro ps
    induction ps with
    | nil => exact fun _ => rfl
    | cons p ps ih =>
      intro hps
      have hp : nodes[p]? = some (nodes.get ⟨p, hps p List.mem_cons_self⟩) :=
        List.getElem?_eq_getElem _
      rw [List.mapM_cons, hget p _ hp, List.filterMap_cons_some hp,
        ih fun q hq => hps q (List.mem_cons_of_mem _ hq)]
      rfl
  unfold root
  rw [← hrange.length_eq, hpeaks]
  · rfl
  · intro p hp
    have := lt_of_mem_peakIndices hp
    omega

end Mmr
