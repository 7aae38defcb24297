import Mathlib.Data.List.Forall2
import ZkCoin.Library.Checked

/-!
# Towers of caches over one base

A cache stands over a base or over another cache and holds only what it changes.  The topmost cache is
edited, any cache can be written into the layer below it, and caches come and go at the top.  Each
layer stands for a value of its own; the values of all layers, the topmost first, are the abstract
state.

* `Tower`, `Op`, `Machine.step`   — the layers and what happens to them.
* `valueStep`                     — the same operations on the values alone.
* `Machine.Represents`            — what a kind of cache has to keep.
* `Machine.Represents.run_shows`  — every run of the tower follows the run of the values.
* `Machine.run_bottom`            — a base that ignores what is written into it never changes.
-/

namespace Layers

variable {F B C E V : Type}

inductive Tower (B C : Type)
  | base (b : B)
  | cache (below : Tower B C) (c : C)

inductive Op (E : Type)
  | push
  | pop
  | edit (e : E)
  | flush (level : Nat)

def Tower.bottom : Tower B C → B
  | .base b => b
  | .cache below _ => below.bottom

def Tower.layers : Tower B C → List (Tower B C)
  | .base b => [.base b]
  | .cache below c => .cache below c :: below.layers

variable {values : List V}

theorem Tower.forall₂_bottom {P : Tower B C → V → Prop} {t : Tower B C} {v : V}
    (h : List.Forall₂ P t.layers values) (hv : values.getLast? = some v) :
    P (.base t.bottom) v := by
  induction t generalizing values with
  | base b =>
    cases h with
    | cons hb htail =>
      cases htail
      rw [← Option.some.inj hv]
      exact hb
  | cache below c ih =>
    obtain ⟨w, rest, _, htail, rfl⟩ := List.forall₂_cons_left_iff.mp h
    cases rest with
    | nil =>
      have hlen := htail.length_eq
      cases below <;> cases hlen
    | cons w' rest => exact ih htail hv

/-! ## the operations -/

structure Machine (F B C E : Type) where
  fresh : Tower B C → C
  edit : Tower B C → C → E → Except F C
  writeBase : B → C → Except F B
  writeCache : Tower B C → C → C → Except F C
  emptied : C → C

def Machine.write (m : Machine F B C E) : Tower B C → C → Except F (Tower B C)
  | .base b, c => do
    let b ← m.writeBase b c
    .ok (.base b)
  | .cache below own, c => do
    let own ← m.writeCache below own c
    .ok (.cache below own)

/-- write the cache `level` steps under the top into the layer below it -/
def Machine.flush (m : Machine F B C E) : Tower B C → Nat → Except F (Tower B C)
  | .base b, _ => .ok (.base b)
  | .cache below c, 0 => do
    let below ← m.write below c
    .ok (.cache below (m.emptied c))
  | .cache below c, level + 1 => do
    let below ← m.flush below level
    .ok (.cache below c)

def Machine.step (m : Machine F B C E) : Tower B C → Op E → Except F (Tower B C)
  | t, .push => .ok (.cache t (m.fresh t))
  | .base b, .pop => .ok (.base b)
  | .cache below _, .pop => .ok below
  | .base b, .edit _ => .ok (.base b)
  | .cache below c, .edit e => do
    let c ← m.edit below c e
    .ok (.cache below c)
  | t, .flush level => m.flush t level

/-! ## the operations on the values -/

def flushValue : List V → Nat → Option (List V)
  | [], _ => none
  | v :: below, 0 =>
    match below with
    | [] => none
    | _ :: rest => some (v :: v :: rest)
  | v :: rest, level + 1 => (flushValue rest level).map (v :: ·)

/-- the values after an operation; `none` where there is no cache to do it or the edit is not meant for
the value -/
def valueStep (edit : V → E → Option V) : List V → Op E → Option (List V)
  | v :: rest, .push => some (v :: v :: rest)
  | _ :: v :: rest, .pop => some (v :: rest)
  | v :: v' :: rest, .edit e => (edit v e).map (· :: v' :: rest)
  | values, .flush level => flushValue values level
  | _, _ => none

theorem valueStep_flush {edit : V → E → Option V} {values' : List V} {level : Nat} :
    valueStep edit values (.flush level) = some values' ↔ flushValue values level = some values' := by
  match values with
  | [] => exact Iff.rfl
  | [_] => exact Iff.rfl
  | _ :: _ :: _ => exact Iff.rfl

/-- a flush into the base that `safe` does not allow -/
def Unsafe (safe : V → V → Prop) (values : List V) : Op E → Prop
  | .flush level => level + 2 = values.length ∧
      ∃ v v', values[level]? = some v ∧ values[level + 1]? = some v' ∧ ¬ safe v v'
  | _ => False

theorem not_unsafe {safe : V → V → Prop} (hsafe : ∀ v v', safe v v') (values : List V) (op : Op E) :
    ¬ Unsafe safe values op := by
  cases op with
  | flush level =>
    intro ⟨_, v, v', _, _, hnot⟩
    exact hnot (hsafe v v')
  | _ => exact id

theorem flushValue_length {values' : List V} {level : Nat}
    (h : flushValue values level = some values') : values'.length = values.length := by
  induction values generalizing level values' with
  | nil => cases level <;> cases h
  | cons v rest ih =>
    cases level with
    | zero =>
      cases rest with
      | nil => cases h
      | cons _ rest =>
        obtain rfl := Option.some.inj h
        rfl
    | succ level =>
      obtain ⟨rest', hrest, rfl⟩ := Option.map_eq_some_iff.mp h
      rw [List.length_cons, List.length_cons, ih hrest]

theorem flushValue_below {values' : List V} {level : Nat}
    (h : flushValue values level = some values') : values'[level + 1]? = values[level]? := by
  induction values generalizing level values' with
  | nil => cases level <;> cases h
  | cons v rest ih =>
    cases level with
    | zero =>
      cases rest with
      | nil => cases h
      | cons _ rest =>
        obtain rfl := Option.some.inj h
        rfl
    | succ level =>
      obtain ⟨rest', hrest, rfl⟩ := Option.map_eq_some_iff.mp h
      exact ih hrest

/-! ## representation -/

section
variable (baseShows : B → V → Prop) (cacheShows : C → V → V → Prop)

/-- the layers stand for the values; a cache is related to its own value and to the one below -/
def Shows : Tower B C → List V → Prop
  | .base b, [v] => baseShows b v
  | .cache below c, v :: v' :: rest => cacheShows c v v' ∧ Shows below (v' :: rest)
  | _, _ => False

/-- what the operations of a kind of cache keep; a write into the base is asked for only where `safe`
allows it -/
structure Machine.Represents (m : Machine F B C E) (edit : V → E → Option V) (safe : V → V → Prop) :
    Prop where
  fresh_shows : ∀ t v rest, Shows baseShows cacheShows t (v :: rest) → cacheShows (m.fresh t) v v
  edit_shows : ∀ t c v v' v₁ rest e, Shows baseShows cacheShows t (v' :: rest) →
    cacheShows c v v' → edit v e = some v₁ → ∃ c₁, m.edit t c e = .ok c₁ ∧ cacheShows c₁ v₁ v'
  writeBase_shows : ∀ b c v v', baseShows b v' → cacheShows c v v' → safe v v' →
    ∃ b', m.writeBase b c = .ok b' ∧ baseShows b' v
  writeCache_shows : ∀ t own c v v' v'' rest, Shows baseShows cacheShows t (v'' :: rest) →
    cacheShows own v' v'' → cacheShows c v v' →
      ∃ own', m.writeCache t own c = .ok own' ∧ cacheShows own' v v''
  emptied_shows : ∀ c v v', cacheShows c v v' → cacheShows (m.emptied c) v v

variable {baseShows cacheShows} {m : Machine F B C E} {edit : V → E → Option V} {safe : V → V → Prop}

variable {t : Tower B C} {values : List V}

theorem Shows.exists_cons (h : Shows baseShows cacheShows t values) :
    ∃ v rest, values = v :: rest := by
  cases values with
  | nil => cases t <;> exact h.elim
  | cons v rest => exact ⟨v, rest, rfl⟩

theorem Shows.forall₂_layers {P : Tower B C → V → Prop}
    (hP : ∀ t v rest, Shows baseShows cacheShows t (v :: rest) → P t v)
    (h : Shows baseShows cacheShows t values) : List.Forall₂ P t.layers values := by
  induction t generalizing values with
  | base b =>
    match values, h with
    | [v], h => exact .cons (hP _ _ _ h) .nil
  | cache below c ih =>
    match values, h with
    | v :: v' :: rest, h => exact .cons (hP _ _ _ h) (ih h.2)

theorem Machine.Represents.write_shows (hm : m.Represents baseShows cacheShows edit safe) {c : C}
    {v v' : V} {rest : List V} (ht : Shows baseShows cacheShows t (v' :: rest))
    (hc : cacheShows c v v') (hsafe : rest = [] → safe v v') :
    ∃ t', m.write t c = .ok t' ∧ Shows baseShows cacheShows t' (v :: rest) := by
  cases t with
  | base b =>
    match rest, ht, hsafe with
    | [], ht, hsafe =>
      obtain ⟨b', hwrite, hb'⟩ := hm.writeBase_shows b c v v' ht hc (hsafe rfl)
      exact ⟨.base b', Checked.bind_eq_ok.mpr ⟨b', hwrite, rfl⟩, hb'⟩
  | cache below own =>
    match rest, ht with
    | v'' :: rest, ⟨hown, hbelow⟩ =>
      obtain ⟨own', hwrite, hown'⟩ := hm.writeCache_shows below own c v v' v'' rest hbelow hown hc
      exact ⟨.cache below own', Checked.bind_eq_ok.mpr ⟨own', hwrite, rfl⟩, hown', hbelow⟩

theorem Machine.Represents.flush_shows (hm : m.Represents baseShows cacheShows edit safe)
    {values' : List V} {level : Nat} (ht : Shows baseShows cacheShows t values)
    (h : flushValue values level = some values')
    (hsafe : ¬ Unsafe safe values (.flush level : Op E)) :
    ∃ t', m.flush t level = .ok t' ∧ Shows baseShows cacheShows t' values' := by
  induction t generalizing values values' level with
  | base b =>
    match values, ht, h with
    | [_], _, h => cases level <;> cases h
  | cache below c ih =>
    match values, ht with
    | v :: v' :: rest, ⟨hc, hbelow⟩ =>
      cases level with
      | zero =>
        obtain rfl := Option.some.inj h
        have hbase : rest = [] → safe v v' := by
          intro hrest
          by_contra hcon
          exact hsafe ⟨by rw [hrest]; rfl, v, v', rfl, rfl, hcon⟩
        obtain ⟨t', hwrite, ht'⟩ := hm.write_shows hbelow hc hbase
        exact ⟨_, Checked.bind_eq_ok.mpr ⟨t', hwrite, rfl⟩, hm.emptied_shows c v v' hc, ht'⟩
      | succ level =>
        obtain ⟨rest', hrest, rfl⟩ := Option.map_eq_some_iff.mp h
        have hdeep : ¬ Unsafe safe (v' :: rest) (.flush level : Op E) := by
          intro ⟨hlen, w, w', hw, hw', hnot⟩
          exact hsafe ⟨congrArg (· + 1) hlen, w, w', hw, hw', hnot⟩
        obtain ⟨t', hflush, ht'⟩ := ih hbelow hrest hdeep
        -- the value directly below the cache stays: only a deeper layer is written
        obtain ⟨w, tail, rfl⟩ := ht'.exists_cons
        have hw : w = v' := by
          cases level with
          | zero =>
            cases rest with
            | nil => cases hrest
            | cons _ rest => exact (List.cons.inj (Option.some.inj hrest)).1.symm
          | succ level =>
            obtain ⟨tail', _, htail⟩ := Option.map_eq_some_iff.mp hrest
            exact (List.cons.inj htail).1.symm
        rw [hw] at ht'
        rw [hw]
        exact ⟨.cache t' c, Checked.bind_eq_ok.mpr ⟨t', hflush, rfl⟩, hc, ht'⟩

/-- **One step.** -/
theorem Machine.Represents.step_shows (hm : m.Represents baseShows cacheShows edit safe)
    {values' : List V} {op : Op E} (ht : Shows baseShows cacheShows t values)
    (h : valueStep edit values op = some values') (hsafe : ¬ Unsafe safe values op) :
    ∃ t', m.step t op = .ok t' ∧ Shows baseShows cacheShows t' values' := by
  obtain ⟨v, rest, rfl⟩ := ht.exists_cons
  cases op with
  | push =>
    obtain rfl := Option.some.inj h
    exact ⟨_, rfl, hm.fresh_shows t v rest ht, ht⟩
  | pop =>
    match rest, t, ht with
    | [], _, _ => cases h
    | v' :: rest, .cache below c, ht =>
      obtain rfl := Option.some.inj h
      exact ⟨below, rfl, ht.2⟩
  | edit e =>
    match rest, t, ht with
    | [], _, _ => cases h
    | v' :: rest, .cache below c, ⟨hc, hbelow⟩ =>
      obtain ⟨v₁, hv₁, rfl⟩ := Option.map_eq_some_iff.mp h
      obtain ⟨c₁, hedit, hc₁⟩ := hm.edit_shows below c v v' v₁ rest e hbelow hc hv₁
      exact ⟨.cache below c₁, Checked.bind_eq_ok.mpr ⟨c₁, hedit, rfl⟩, hc₁, hbelow⟩
  | flush level =>
    obtain ⟨t', hstep, ht'⟩ := hm.flush_shows ht (valueStep_flush.mp h) hsafe
    refine ⟨t', ?_, ht'⟩
    cases t <;> exact hstep

/-- **Every run.**  The tower follows the values as long as no flush into the base is unsafe. -/
theorem Machine.Represents.run_shows (hm : m.Represents baseShows cacheShows edit safe)
    {values' : List V} {ops : List (Op E)} (ht : Shows baseShows cacheShows t values)
    (h : ops.foldlM (valueStep edit) values = some values')
    (hsafe : ∀ done op rest before, ops = done ++ op :: rest → done.foldlM (valueStep edit) values
      = some before → ¬ Unsafe safe before op) :
    ∃ t', ops.foldlM m.step t = .ok t' ∧ Shows baseShows cacheShows t' values' := by
  induction ops generalizing t values with
  | nil =>
    obtain rfl := Option.some.inj h
    exact ⟨t, rfl, ht⟩
  | cons op ops ih =>
    rw [List.foldlM_cons, Option.bind_eq_bind, Option.bind_eq_some_iff] at h
    obtain ⟨next, hnext, h⟩ := h
    obtain ⟨t₁, hstep, ht₁⟩ := hm.step_shows ht hnext (hsafe [] op ops values rfl rfl)
    obtain ⟨t', hrun, ht'⟩ := ih ht₁ h (by
      intro done op' rest before heq hdone
      refine hsafe (op :: done) op' rest before (congrArg (op :: ·) heq) ?_
      rw [List.foldlM_cons, hnext]
      exact hdone)
    refine ⟨t', ?_, ht'⟩
    rw [List.foldlM_cons, Checked.bind_eq_ok]
    exact ⟨t₁, hstep, hrun⟩

end

/-! ## bases that ignore what is written -/

theorem Machine.flush_bottom {m : Machine F B C E} {t t' : Tower B C} {level : Nat}
    (hbase : ∀ c, m.writeBase t.bottom c = .ok t.bottom) (h : m.flush t level = .ok t') :
    t'.bottom = t.bottom := by
  induction t generalizing t' level with
  | base b =>
    obtain rfl := Except.ok.inj h
    rfl
  | cache below c ih =>
    have hbelow : ∀ c, m.writeBase below.bottom c = .ok below.bottom := hbase
    cases level with
    | zero =>
      obtain ⟨below', hwrite, h⟩ := Checked.bind_eq_ok.mp h
      obtain rfl := Except.ok.inj h
      cases below with
      | base b =>
        obtain ⟨b', hb', hwrite⟩ := Checked.bind_eq_ok.mp hwrite
        obtain rfl := Except.ok.inj hwrite
        exact Except.ok.inj (hb'.symm.trans (hbase c))
      | cache deeper own =>
        obtain ⟨own', _, hwrite⟩ := Checked.bind_eq_ok.mp hwrite
        obtain rfl := Except.ok.inj hwrite
        rfl
    | succ level =>
      obtain ⟨below', hflush, h⟩ := Checked.bind_eq_ok.mp h
      obtain rfl := Except.ok.inj h
      show below'.bottom = below.bottom
      exact ih hbelow hflush

theorem Machine.step_bottom {m : Machine F B C E} {t t' : Tower B C} {op : Op E}
    (hbase : ∀ c, m.writeBase t.bottom c = .ok t.bottom) (h : m.step t op = .ok t') :
    t'.bottom = t.bottom := by
  cases op with
  | push =>
    obtain rfl : Tower.cache t (m.fresh t) = t' := by cases t <;> exact Except.ok.inj h
    rfl
  | pop =>
    cases t with
    | base b =>
      obtain rfl := Except.ok.inj h
      rfl
    | cache below c =>
      obtain rfl := Except.ok.inj h
      rfl
  | edit e =>
    cases t with
    | base b =>
      obtain rfl := Except.ok.inj h
      rfl
    | cache below c =>
      obtain ⟨c', _, h⟩ := Checked.bind_eq_ok.mp h
      obtain rfl := Except.ok.inj h
      rfl
  | flush level =>
    have hflush : m.flush t level = .ok t' := by cases t <;> exact h
    exact Machine.flush_bottom hbase hflush

theorem Machine.run_bottom {m : Machine F B C E} {t t' : Tower B C} {ops : List (Op E)}
    (hbase : ∀ c, m.writeBase t.bottom c = .ok t.bottom) (h : ops.foldlM m.step t = .ok t') :
    t'.bottom = t.bottom := by
  induction ops generalizing t with
  | nil =>
    obtain rfl := Except.ok.inj h
    rfl
  | cons op ops ih =>
    rw [List.foldlM_cons, Checked.bind_eq_ok] at h
    obtain ⟨t₁, hstep, hrun⟩ := h
    have hbottom := Machine.step_bottom hbase hstep
    rw [← hbottom] at hbase
    exact (ih hbase hrun).trans hbottom

end Layers
