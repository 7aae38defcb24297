import Mathlib.Logic.Function.Basic
import ZkCoin.Library.Checked

/-!
# Journals of additions and removals

A journal is a list of entries, each of which adds a value under a key that has none or removes the
value of a key that has one.  A table can be kept as an older table with a journal; reading a key
then replays the entries of that key.

* `replay`        — one entry of one key.
* `record`        — one entry of a whole table.
* `foldlM_record_iff` — the entries of each key can be replayed on their own.
* `record_undo`   — adding back what was removed and removing what was added restores the table.
-/

namespace Journal

variable {F K V : Type} [DecidableEq K]

/-- the value of a key after an entry; an entry that repeats the state of the key is a fault -/
def replay (fault : F) (value entry : Option V) : Except F (Option V) :=
  if value.isSome = entry.isSome then .error fault else .ok entry

def record (fault : F) (table : K → Option V) (e : K × Option V) : Except F (K → Option V) := do
  let value ← replay fault (table e.1) e.2
  .ok (Function.update table e.1 value)

def entriesOf (k : K) (es : List (K × Option V)) : List (Option V) :=
  (es.filter fun e => e.1 = k).map Prod.snd

theorem entriesOf_append (k : K) (es es' : List (K × Option V)) :
    entriesOf k (es ++ es') = entriesOf k es ++ entriesOf k es' := by
  simp [entriesOf]

theorem entriesOf_cons_self (k : K) (a : Option V) (es : List (K × Option V)) :
    entriesOf k ((k, a) :: es) = a :: entriesOf k es := by
  simp [entriesOf]

theorem entriesOf_cons_of_ne {k k' : K} (h : k' ≠ k) (a : Option V) (es : List (K × Option V)) :
    entriesOf k ((k', a) :: es) = entriesOf k es := by
  simp [entriesOf, h]

variable {fault : F} {table table' : K → Option V}

theorem record_eq_ok {k : K} {a : Option V} :
    record fault table (k, a) = .ok table' ↔
      (table k).isSome ≠ a.isSome ∧ table' = Function.update table k a := by
  unfold record replay
  by_cases h : (table k).isSome = a.isSome
  · simp [h, bind, Except.bind]
  · simp [h, bind, Except.bind, eq_comm]

/-- **Key by key.**  A journal runs on a table exactly when the entries of every key run on their
own. -/
theorem foldlM_record_iff {es : List (K × Option V)} :
    es.foldlM (record fault) table = .ok table' ↔
      ∀ k, (entriesOf k es).foldlM (replay fault) (table k) = .ok (table' k) := by
  induction es generalizing table with
  | nil =>
    show Except.ok table = .ok table' ↔ ∀ k, Except.ok (table k) = .ok (table' k)
    constructor
    · intro h k
      rw [Except.ok.inj h]
    · intro h
      exact congrArg _ (funext fun k => Except.ok.inj (h k))
  | cons e es ih =>
    obtain ⟨key, a⟩ := e
    rw [List.foldlM_cons, Checked.bind_eq_ok]
    constructor
    · rintro ⟨next, hstep, hrun⟩ k
      obtain ⟨hne, rfl⟩ := record_eq_ok.mp hstep
      have hrest := ih.mp hrun k
      by_cases hk : key = k
      · subst hk
        rw [Function.update_self] at hrest
        rw [entriesOf_cons_self, List.foldlM_cons, Checked.bind_eq_ok]
        exact ⟨a, if_neg hne, hrest⟩
      · rw [Function.update_of_ne (Ne.symm hk)] at hrest
        rw [entriesOf_cons_of_ne hk]
        exact hrest
    · intro h
      have hkey := h key
      rw [entriesOf_cons_self, List.foldlM_cons, Checked.bind_eq_ok] at hkey
      obtain ⟨value, hvalue, hrest⟩ := hkey
      unfold replay at hvalue
      obtain ⟨hne, hvalue⟩ := Checked.ite_error_eq_ok.mp hvalue
      obtain rfl := Except.ok.inj hvalue
      refine ⟨_, record_eq_ok.mpr ⟨hne, rfl⟩, ih.mpr ?_⟩
      intro k
      by_cases hk : key = k
      · subst hk
        rw [Function.update_self]
        exact hrest
      · have hother := h k
        rw [entriesOf_cons_of_ne hk] at hother
        rw [Function.update_of_ne (Ne.symm hk)]
        exact hother

/-! ## undoing -/

theorem replay_adds {vs : List V} {x y : Option V}
    (h : (vs.map some).foldlM (replay fault) x = .ok y) :
    (vs = [] ∧ y = x) ∨ ∃ v, vs = [v] ∧ x = none ∧ y = some v := by
  match vs with
  | [] => exact .inl ⟨rfl, (Except.ok.inj h).symm⟩
  | [v] =>
    cases x with
    | none => exact .inr ⟨v, rfl, rfl, (Except.ok.inj h).symm⟩
    | some w => cases h
  | v :: w :: vs =>
    cases x with
    | none => cases h
    | some w => cases h

theorem replay_removes {vs : List V} {x y : Option V}
    (h : (vs.map fun _ => (none : Option V)).foldlM (replay fault) x = .ok y) :
    (vs = [] ∧ y = x) ∨ ∃ v w, vs = [v] ∧ x = some w ∧ y = none := by
  match vs with
  | [] => exact .inl ⟨rfl, (Except.ok.inj h).symm⟩
  | [v] =>
    cases x with
    | none => cases h
    | some w => exact .inr ⟨v, w, rfl, rfl, (Except.ok.inj h).symm⟩
  | v :: w :: vs =>
    cases x with
    | none => cases h
    | some w => cases h

def additions (kvs : List (K × V)) : List (K × Option V) := kvs.map fun e => (e.1, some e.2)

def removals (kvs : List (K × V)) : List (K × Option V) := kvs.map fun e => (e.1, none)

def valuesOf (k : K) (kvs : List (K × V)) : List V := (kvs.filter fun e => e.1 = k).map Prod.snd

theorem entriesOf_additions (k : K) (kvs : List (K × V)) :
    entriesOf k (additions kvs) = (valuesOf k kvs).map some := by
  simp only [entriesOf, additions, valuesOf, List.filter_map, List.map_map]
  rfl

theorem entriesOf_removals (k : K) (kvs : List (K × V)) :
    entriesOf k (removals kvs) = (valuesOf k kvs).map fun _ => none := by
  simp only [entriesOf, removals, valuesOf, List.filter_map, List.map_map]
  rfl

theorem mem_valuesOf {k : K} {v : V} {kvs : List (K × V)} : v ∈ valuesOf k kvs ↔ (k, v) ∈ kvs := by
  simp [valuesOf]

theorem record_additions {kvs : List (K × V)}
    (h : (additions kvs).foldlM (record fault) table = .ok table') (k : K) (v : V) :
    (table k = some v → table' k = some v) ∧
      (table' k = some v → table k = some v ∨ (k, v) ∈ kvs) := by
  have hk := foldlM_record_iff.mp h k
  rw [entriesOf_additions] at hk
  rcases replay_adds hk with ⟨-, hsame⟩ | ⟨w, hone, hnone, hsome⟩
  · rw [hsame]
    exact ⟨id, .inl⟩
  · rw [hnone, hsome]
    refine ⟨nofun, ?_⟩
    intro hv
    obtain rfl := Option.some.inj hv
    right
    exact mem_valuesOf.mp (by rw [hone]; exact List.mem_singleton_self w)

theorem record_removals {kvs : List (K × V)}
    (h : (removals kvs).foldlM (record fault) table = .ok table') (k : K) (v : V) :
    (table' k = some v → table k = some v) ∧
      (table k = some v → table' k = some v ∨ ∃ w, (k, w) ∈ kvs) := by
  have hk := foldlM_record_iff.mp h k
  rw [entriesOf_removals] at hk
  rcases replay_removes hk with ⟨-, hsame⟩ | ⟨w, x, hone, hsome, hnone⟩
  · rw [hsame]
    exact ⟨id, .inl⟩
  · rw [hsome, hnone]
    refine ⟨nofun, ?_⟩
    intro _
    refine .inr ⟨w, ?_⟩
    exact mem_valuesOf.mp (by rw [hone]; exact List.mem_singleton_self w)

/-- **Undoing a batch.**  A batch adds values and then removes some; adding the removed values back
and then removing the added ones gives the first table. -/
theorem record_undo {added removed : List (K × V)} {mid : K → Option V}
    (hadd : (additions added).foldlM (record fault) table = .ok mid)
    (hremove : (removals removed).foldlM (record fault) mid = .ok table')
    (hvalues : ∀ e ∈ removed, mid e.1 = some e.2) :
    (additions removed ++ removals added).foldlM (record fault) table' = .ok table := by
  rw [foldlM_record_iff] at hadd hremove ⊢
  intro k
  have hadd := hadd k
  have hremove := hremove k
  rw [entriesOf_additions] at hadd
  rw [entriesOf_removals] at hremove
  rw [entriesOf_append, entriesOf_additions, entriesOf_removals, List.foldlM_append,
    Checked.bind_eq_ok]
  refine ⟨mid k, ?_, ?_⟩
  · rcases replay_removes hremove with ⟨hnil, hsame⟩ | ⟨v, w, hone, hmid, hend⟩
    · rw [hnil, hsame]
      rfl
    · have hv := hvalues (k, v) (mem_valuesOf.mp (by rw [hone]; exact List.mem_singleton_self v))
      rw [hone, hend, hv]
      rfl
  · rcases replay_adds hadd with ⟨hnil, hsame⟩ | ⟨v, hone, hnone, hmid⟩
    · rw [hnil, hsame]
      rfl
    · rw [hone, hmid, hnone]
      rfl

end Journal
