import Mathlib.Algebra.BigOperators.Finprod
import Mathlib.Data.Int.Basic
import Mathlib.Logic.Function.Basic

/-!
# Tables changed by deltas

A table gives some of its keys a value.  A delta removes keys and then adds keys with values; it is
reverted by removing what it added and putting back the values that it removed.  A reverted run of
deltas leaves every key that it touched as it was before the run, whatever the table held when the
reversal began.

* `removeAll`, `addAll`, `Delta.apply`   — going forward.
* `Delta.Allowed`                        — removed keys are there, added keys are not.
* `Delta.revert`, `revertAll`            — going back, from recorded values.
* `RemovalsThere`                        — what is absent cannot be removed.
* `Every`                                — a property of every value.
* `total`, `Delta.total_apply`           — the weight of a table.
-/

namespace TableDelta

variable {K V : Type} [DecidableEq K]

/-! ## going forward -/

def removeAll (ks : List K) (t : K → Option V) : K → Option V :=
  ks.foldl (fun t k => Function.update t k none) t

def addAll (kvs : List (K × V)) (t : K → Option V) : K → Option V :=
  kvs.foldl (fun t e => Function.update t e.1 (some e.2)) t

theorem removeAll_apply (ks : List K) (t : K → Option V) (k : K) :
    removeAll ks t k = if k ∈ ks then none else t k := by
  induction ks generalizing t with
  | nil => simp [removeAll]
  | cons k' ks ih =>
    show removeAll ks (Function.update t k' none) k = _
    rw [ih]
    by_cases hk : k ∈ ks
    · rw [if_pos hk, if_pos (List.mem_cons_of_mem _ hk)]
    · rw [if_neg hk]
      by_cases heq : k = k'
      · subst heq
        rw [Function.update_self, if_pos List.mem_cons_self]
      · rw [Function.update_of_ne heq, if_neg]
        exact List.not_mem_cons_of_ne_of_not_mem heq hk

variable {k : K}

theorem removeAll_of_mem {ks : List K} (h : k ∈ ks) (t : K → Option V) :
    removeAll ks t k = none := by
  rw [removeAll_apply, if_pos h]

theorem removeAll_of_notMem {ks : List K} (h : k ∉ ks) (t : K → Option V) :
    removeAll ks t k = t k := by
  rw [removeAll_apply, if_neg h]

variable {kvs : List (K × V)}

theorem addAll_of_notMem (h : k ∉ kvs.map Prod.fst) (t : K → Option V) : addAll kvs t k = t k := by
  induction kvs generalizing t with
  | nil => rfl
  | cons e kvs ih =>
    rw [List.map_cons, List.mem_cons, not_or] at h
    show addAll kvs (Function.update t e.1 (some e.2)) k = _
    rw [ih h.2, Function.update_of_ne h.1]

theorem addAll_of_nodup (hkeys : (kvs.map Prod.fst).Nodup) {v : V} (h : (k, v) ∈ kvs)
    (t : K → Option V) : addAll kvs t k = some v := by
  induction kvs generalizing t with
  | nil => cases h
  | cons e kvs ih =>
    rw [List.map_cons, List.nodup_cons] at hkeys
    show addAll kvs (Function.update t e.1 (some e.2)) k = _
    rcases List.mem_cons.mp h with heq | hmem
    · subst heq
      rw [addAll_of_notMem hkeys.1, Function.update_self]
    · exact ih hkeys.2 hmem _

structure Delta (K V : Type) where
  removed : List K
  added : List (K × V)

namespace Delta

def apply (δ : Delta K V) (t : K → Option V) : K → Option V := addAll δ.added (removeAll δ.removed t)

def keys (δ : Delta K V) : List K := δ.removed ++ δ.added.map Prod.fst

variable {δ : Delta K V}

omit [DecidableEq K] in
theorem mem_keys {k : K} :
    k ∈ δ.keys ↔ k ∈ δ.removed ∨ k ∈ δ.added.map Prod.fst := List.mem_append

theorem apply_of_notMem {k : K} (h : k ∉ δ.keys) (t : K → Option V) :
    δ.apply t k = t k := by
  rw [mem_keys, not_or] at h
  rw [apply, addAll_of_notMem h.2, removeAll_of_notMem h.1]

theorem apply_of_added (hkeys : (δ.added.map Prod.fst).Nodup) {k : K} {v : V} (h : (k, v) ∈ δ.added)
    (t : K → Option V) : δ.apply t k = some v :=
  addAll_of_nodup hkeys h _

/-- every removed key is there once, and every added key is absent by then -/
structure Allowed (δ : Delta K V) (t : K → Option V) : Prop where
  removed_nodup : δ.removed.Nodup
  removed_some : ∀ k ∈ δ.removed, ∃ v, t k = some v
  added_nodup : (δ.added.map Prod.fst).Nodup
  added_none : ∀ k ∈ δ.added.map Prod.fst, removeAll δ.removed t k = none

/-! ## going back -/

/-- `values` are what the delta removed, in order; what it added goes first, and the values are put
back from the last to the first -/
def revert (δ : Delta K V) (values : List V) (t : K → Option V) : K → Option V :=
  addAll (δ.removed.zip values).reverse (removeAll (δ.added.map Prod.fst) t)

def Recorded (δ : Delta K V) (t : K → Option V) (values : List V) : Prop :=
  δ.removed.map t = values.map some

omit [DecidableEq K] in
theorem Recorded.length_eq {t : K → Option V} {values : List V} (h : δ.Recorded t values) :
    δ.removed.length = values.length := by
  have hlen := congrArg List.length h
  rwa [List.length_map, List.length_map] at hlen

omit [DecidableEq K] in
theorem Recorded.zip_fst {t : K → Option V} {values : List V} (h : δ.Recorded t values)
    {values' : List V} (hlen : values'.length = values.length) :
    (δ.removed.zip values').map Prod.fst = δ.removed :=
  List.map_fst_zip (by rw [h.length_eq, hlen])

/-- **Going back one delta.**  The values may have been changed by `g` on the way. -/
theorem revert_apply {t : K → Option V} (h : δ.Allowed t) {values : List V}
    (hvalues : δ.Recorded t values) (g : V → V) (u : K → Option V) (k : K) :
    δ.revert (values.map g) u k = if k ∈ δ.keys then (t k).map g else u k := by
  have hfst : ((δ.removed.zip (values.map g)).reverse).map Prod.fst = δ.removed.reverse := by
    rw [List.map_reverse, hvalues.zip_fst (List.length_map g)]
  by_cases hrem : k ∈ δ.removed
  · obtain ⟨v, hv⟩ := h.removed_some k hrem
    obtain ⟨i, hi, rfl⟩ := List.mem_iff_getElem.mp hrem
    have hi' : i < values.length := by rw [← hvalues.length_eq]; exact hi
    have hval : values[i] = v := by
      have hat := congrArg (fun l => l[i]?) hvalues
      simp only [List.getElem?_map, List.getElem?_eq_getElem hi, List.getElem?_eq_getElem hi',
        Option.map_some, Option.some.injEq] at hat
      rw [hv] at hat
      exact (Option.some.inj hat).symm
    have hmem : (δ.removed[i], g v) ∈ (δ.removed.zip (values.map g)).reverse := by
      rw [List.mem_reverse, List.mem_iff_getElem]
      refine ⟨i, ?_, ?_⟩
      · rw [List.length_zip, List.length_map]
        omega
      · rw [List.getElem_zip, List.getElem_map, hval]
    rw [if_pos (mem_keys.mpr (.inl hrem)), hv]
    refine addAll_of_nodup ?_ hmem _
    rw [hfst, List.nodup_reverse]
    exact h.removed_nodup
  · have hzip : k ∉ ((δ.removed.zip (values.map g)).reverse).map Prod.fst := by
      rw [hfst, List.mem_reverse]
      exact hrem
    rw [revert, addAll_of_notMem hzip]
    by_cases hadd : k ∈ δ.added.map Prod.fst
    · have hnone := h.added_none k hadd
      rw [removeAll_of_notMem hrem] at hnone
      rw [removeAll_of_mem hadd, if_pos (mem_keys.mpr (.inr hadd)), hnone]
      rfl
    · rw [removeAll_of_notMem hadd, if_neg]
      intro hk
      exact (mem_keys.mp hk).elim hrem hadd

end Delta

/-! ## runs -/

def applyAll (δs : List (Delta K V)) (t : K → Option V) : K → Option V :=
  δs.foldl (fun t δ => δ.apply t) t

def AllowedAll : List (Delta K V) → (K → Option V) → Prop
  | [], _ => True
  | δ :: δs, t => δ.Allowed t ∧ AllowedAll δs (δ.apply t)

def RecordedAll : List (Delta K V) → (K → Option V) → List (List V) → Prop
  | [], _, [] => True
  | δ :: δs, t, values :: rest => δ.Recorded t values ∧ RecordedAll δs (δ.apply t) rest
  | _, _, _ => False

def revertAll : List (Delta K V) → List (List V) → (K → Option V) → K → Option V
  | δ :: δs, values :: rest, t => δ.revert values (revertAll δs rest t)
  | _, _, t => t

def keysAll (δs : List (Delta K V)) : List K := δs.flatMap Delta.keys

variable {δ : Delta K V} {δs : List (Delta K V)}

omit [DecidableEq K] in
theorem mem_keysAll_cons :
    k ∈ keysAll (δ :: δs) ↔ k ∈ δ.keys ∨ k ∈ keysAll δs := by
  rw [keysAll, List.flatMap_cons, List.mem_append]
  rfl

theorem applyAll_of_notMem (h : k ∉ keysAll δs) (t : K → Option V) : applyAll δs t k = t k := by
  induction δs generalizing t with
  | nil => rfl
  | cons δ δs ih =>
    rw [mem_keysAll_cons, not_or] at h
    show applyAll δs (δ.apply t) k = _
    rw [ih h.2, Delta.apply_of_notMem h.1]

variable {t : K → Option V}

/-- **Going back a run.**  Every touched key ends as it was before the run, up to what `g` did to the
recorded values; the table `u` that the reversal starts from does not matter. -/
theorem revertAll_apply (h : AllowedAll δs t) {values : List (List V)}
    (hvalues : RecordedAll δs t values) (g : V → V) (u : K → Option V) (k : K) :
    revertAll δs (values.map (List.map g)) u k =
      if k ∈ keysAll δs then (t k).map g else u k := by
  induction δs generalizing t values with
  | nil => simp [revertAll, keysAll]
  | cons δ δs ih =>
    cases values with
    | nil => cases hvalues
    | cons vs rest =>
      obtain ⟨hδ, hδs⟩ := h
      obtain ⟨hvs, hrest⟩ := hvalues
      show δ.revert (vs.map g) (revertAll δs (rest.map (List.map g)) u) k = _
      rw [Delta.revert_apply hδ hvs, ih hδs hrest]
      by_cases hk : k ∈ δ.keys
      · rw [if_pos hk, if_pos (mem_keysAll_cons.mpr (.inl hk))]
      · rw [if_neg hk, Delta.apply_of_notMem hk]
        by_cases hks : k ∈ keysAll δs
        · rw [if_pos hks, if_pos (mem_keysAll_cons.mpr (.inr hks))]
        · rw [if_neg hks, if_neg]
          intro hmem
          exact (mem_keysAll_cons.mp hmem).elim hk hks

/-! ## removals -/

/-- every delta of the run removes only keys that are there by then -/
def RemovalsThere : List (Delta K V) → (K → Option V) → Prop
  | [], _ => True
  | δ :: δs, t => (∀ k ∈ δ.removed, t k ≠ none) ∧ RemovalsThere δs (δ.apply t)

theorem applyAll_append (δs δs' : List (Delta K V)) (t : K → Option V) :
    applyAll (δs ++ δs') t = applyAll δs' (applyAll δs t) := List.foldl_append

theorem removalsThere_append {δs' : List (Delta K V)} :
    RemovalsThere (δs ++ δs') t ↔ RemovalsThere δs t ∧ RemovalsThere δs' (applyAll δs t) := by
  induction δs generalizing t with
  | nil => exact (and_iff_right trivial).symm
  | cons δ δs ih =>
    show (_ ∧ RemovalsThere (δs ++ δs') (δ.apply t)) ↔ (_ ∧ RemovalsThere δs (δ.apply t)) ∧ _
    rw [ih, and_assoc]
    rfl

theorem Delta.apply_of_removed (h : k ∈ δ.removed) (hadd : k ∉ δ.added.map Prod.fst)
    (t : K → Option V) : δ.apply t k = none := by
  rw [Delta.apply, addAll_of_notMem hadd, removeAll_of_mem h]

theorem RemovalsThere.none_stays (h : RemovalsThere δs t) (hk : t k = none)
    (hadd : ∀ δ ∈ δs, k ∉ δ.added.map Prod.fst) :
    (∀ δ ∈ δs, k ∉ δ.removed) ∧ applyAll δs t k = none := by
  induction δs generalizing t with
  | nil => exact ⟨nofun, hk⟩
  | cons δ δs ih =>
    rw [List.forall_mem_cons] at hadd ⊢
    have hnot : k ∉ δ.removed := fun hrem => h.1 k hrem hk
    have hnext : δ.apply t k = none := by
      rw [Delta.apply_of_notMem, hk]
      rw [Delta.mem_keys, not_or]
      exact ⟨hnot, hadd.1⟩
    obtain ⟨hrest, hend⟩ := ih h.2 hnext hadd.2
    exact ⟨⟨hnot, hrest⟩, hend⟩

/-- a key that the last delta of a run removes was removed by none before, unless it was added again -/
theorem RemovalsThere.notMem_of_last (h : RemovalsThere (δs ++ [δ]) t) (hlast : k ∈ δ.removed)
    (hadd : ∀ δ ∈ δs, k ∉ δ.added.map Prod.fst) : ∀ δ ∈ δs, k ∉ δ.removed := by
  induction δs generalizing t with
  | nil => exact nofun
  | cons δ' δs ih =>
    rw [List.forall_mem_cons] at hadd ⊢
    refine ⟨?_, ih h.2 hadd.2⟩
    intro hrem
    obtain ⟨hrest, hδ, -⟩ := removalsThere_append.mp h.2
    have hnone := Delta.apply_of_removed hrem hadd.1 t
    exact hδ k hlast (hrest.none_stays hnone hadd.2).2

/-! ## a property of every value -/

def Every (p : V → Prop) (t : K → Option V) : Prop := ∀ k v, t k = some v → p v

theorem Every.update {p : V → Prop} (h : Every p t) {x : Option V} (hx : ∀ v, x = some v → p v) :
    Every p (Function.update t k x) := by
  intro k' v hv
  by_cases heq : k' = k
  · subst heq
    rw [Function.update_self] at hv
    exact hx v hv
  · rw [Function.update_of_ne heq] at hv
    exact h k' v hv

theorem Every.removeAll {p : V → Prop} (h : Every p t) (ks : List K) :
    Every p (removeAll ks t) := by
  induction ks generalizing t with
  | nil => exact h
  | cons k ks ih => exact ih (h.update nofun)

theorem Every.addAll {p : V → Prop} (h : Every p t) (hkvs : ∀ e ∈ kvs, p e.2) :
    Every p (addAll kvs t) := by
  induction kvs generalizing t with
  | nil => exact h
  | cons e kvs ih =>
    rw [List.forall_mem_cons] at hkvs
    refine ih (h.update ?_) hkvs.2
    intro v hv
    obtain rfl := Option.some.inj hv
    exact hkvs.1

theorem Every.apply {p : V → Prop} (h : Every p t) (hδ : ∀ e ∈ δ.added, p e.2) :
    Every p (δ.apply t) :=
  (h.removeAll δ.removed).addAll hδ

/-! ## weights -/

def weightAt (w : V → Int) (x : Option V) : Int := (x.map w).getD 0

noncomputable def total (w : V → Int) (t : K → Option V) : Int := ∑ᶠ k, weightAt w (t k)

def Bounded (t : K → Option V) : Prop := {k | t k ≠ none}.Finite

theorem Bounded.update (h : Bounded t) (k : K) (x : Option V) :
    Bounded (Function.update t k x) := by
  refine (h.insert k).subset ?_
  intro k' hk'
  by_cases heq : k' = k
  · exact Set.mem_insert_iff.mpr (.inl heq)
  · refine Set.mem_insert_iff.mpr (.inr ?_)
    have hne : Function.update t k x k' ≠ none := hk'
    rw [Function.update_of_ne heq] at hne
    exact hne

omit [DecidableEq K] in
theorem Bounded.support (h : Bounded t) (w : V → Int) :
    (Function.support fun k => weightAt w (t k)).Finite := by
  refine h.subset ?_
  intro k hk hnone
  rw [Function.mem_support, hnone] at hk
  exact hk rfl

theorem total_update (h : Bounded t) (w : V → Int) (k : K) (x : Option V) :
    total w (Function.update t k x) = total w t - weightAt w (t k) + weightAt w x := by
  -- the new table is the old one plus the difference at `k`
  have hsplit : (fun k' => weightAt w (Function.update t k x k')) =
      fun k' => weightAt w (t k') + if k' = k then weightAt w x - weightAt w (t k) else 0 := by
    funext k'
    by_cases heq : k' = k
    · subst heq
      rw [Function.update_self, if_pos rfl]
      omega
    · rw [Function.update_of_ne heq, if_neg heq, Int.add_zero]
  have hsingle : (Function.support fun k' =>
      if k' = k then weightAt w x - weightAt w (t k) else 0).Finite := by
    refine (Set.finite_singleton k).subset ?_
    intro k' hk'
    by_contra hne
    exact hk' (if_neg hne)
  rw [total, hsplit, finsum_add_distrib (h.support w) hsingle,
    finsum_eq_single _ k (fun k' hne => if_neg hne), if_pos rfl]
  show total w t + (weightAt w x - weightAt w (t k)) = _
  omega

theorem Bounded.removeAll (h : Bounded t) (ks : List K) :
    Bounded (removeAll ks t) := by
  induction ks generalizing t with
  | nil => exact h
  | cons k ks ih => exact ih (h.update k none)

theorem Bounded.addAll (h : Bounded t) (kvs : List (K × V)) :
    Bounded (addAll kvs t) := by
  induction kvs generalizing t with
  | nil => exact h
  | cons e kvs ih => exact ih (h.update e.1 (some e.2))

theorem total_removeAll (h : Bounded t) (w : V → Int) {ks : List K} (hks : ks.Nodup) :
    total w (removeAll ks t) = total w t - (ks.map fun k => weightAt w (t k)).sum := by
  induction ks generalizing t with
  | nil => simp [removeAll]
  | cons k ks ih =>
    rw [List.nodup_cons] at hks
    have hrest : (ks.map fun k' => weightAt w (Function.update t k none k')) =
        ks.map fun k' => weightAt w (t k') := by
      apply List.map_congr_left
      intro k' hk'
      rw [Function.update_of_ne]
      rintro rfl
      exact hks.1 hk'
    show total w (removeAll ks (Function.update t k none)) = _
    rw [ih (h.update k none) hks.2, hrest, total_update h, List.map_cons, List.sum_cons]
    show total w t - weightAt w (t k) + 0 - _ = _
    omega

theorem total_addAll (h : Bounded t) (w : V → Int) (hkeys : (kvs.map Prod.fst).Nodup)
    (hnone : ∀ k ∈ kvs.map Prod.fst, t k = none) :
    total w (addAll kvs t) = total w t + (kvs.map fun e => w e.2).sum := by
  induction kvs generalizing t with
  | nil => simp [addAll]
  | cons e kvs ih =>
    rw [List.map_cons, List.nodup_cons] at hkeys
    rw [List.map_cons, List.forall_mem_cons] at hnone
    have hrest : ∀ k ∈ kvs.map Prod.fst, Function.update t e.1 (some e.2) k = none := by
      intro k hk
      rw [Function.update_of_ne]
      · exact hnone.2 k hk
      · rintro rfl
        exact hkeys.1 hk
    show total w (addAll kvs (Function.update t e.1 (some e.2))) = _
    rw [ih (h.update _ _) hkeys.2 hrest, total_update h, hnone.1, List.map_cons, List.sum_cons]
    show total w t - 0 + w e.2 + _ = _
    omega

theorem total_addAll_le (h : Bounded t) {w : V → Int} (ht : Every (0 ≤ w ·) t)
    (hkvs : ∀ e ∈ kvs, 0 ≤ w e.2) :
    total w (addAll kvs t) ≤ total w t + (kvs.map fun e => w e.2).sum := by
  induction kvs generalizing t with
  | nil => simp [addAll]
  | cons e kvs ih =>
    rw [List.forall_mem_cons] at hkvs
    have hnext : Every (0 ≤ w ·) (Function.update t e.1 (some e.2)) := by
      refine ht.update ?_
      intro v hv
      obtain rfl := Option.some.inj hv
      exact hkvs.1
    have hold : 0 ≤ weightAt w (t e.1) := by
      cases hval : t e.1 with
      | none => exact le_rfl
      | some v => exact ht e.1 v hval
    have hrest := ih (h.update e.1 (some e.2)) hnext hkvs.2
    rw [total_update h] at hrest
    rw [List.map_cons, List.sum_cons]
    show total w (addAll kvs (Function.update t e.1 (some e.2))) ≤ _
    have hnew : weightAt w (some e.2) = w e.2 := rfl
    omega

theorem Bounded.apply (h : Bounded t) (δ : Delta K V) : Bounded (δ.apply t) :=
  (h.removeAll δ.removed).addAll δ.added

/-- **The weight after a delta**: what it removed goes, what it added comes. -/
theorem Delta.total_apply (h : δ.Allowed t) (hb : Bounded t) (w : V → Int) :
    total w (δ.apply t) = total w t - (δ.removed.map fun k => weightAt w (t k)).sum +
      (δ.added.map fun e => w e.2).sum := by
  rw [Delta.apply, total_addAll (hb.removeAll _) w h.added_nodup h.added_none,
    total_removeAll hb w h.removed_nodup]

end TableDelta
