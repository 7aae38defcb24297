import Mathlib.Data.List.AList
import ZkCoin.Library.Checked

/-!
# Towers of write-back caches

A key-value map seen through a tower of caches, each of which holds some entries of the level below
it.  An entry is *dirty* when the level below may differ, and *fresh* when the level below has no
value for its key; a removed value stays in a cache as an entry with a spent value until a flush.

* `view`            what a tower shows: the newest entry of a key, else the level below;
* `Sound`           what the flags promise, level by level;
* `writeInto_ok`    a flush moves what the upper level shows to the lower one, and faults never;
* `step`, `run`     the calls on a tower;
* `specStep`        the same calls on one plain map for each level;
* `run_refines`     a run of the tower answers and ends as the plain maps do.
-/

namespace CacheTower

variable {K V : Type}

/-- what a tower knows of its values: which stand for nothing, and which are never added -/
structure Values (V : Type) where
  spent : V → Bool
  empty : V
  ignored : V → Bool
  spent_empty : spent empty = true

structure Entry (V : Type) where
  value : V
  dirty : Bool
  fresh : Bool
  deriving DecidableEq

abbrev Cache (K V : Type) := AList fun _ : K => Entry V

inductive Tower (K V : Type) where
  | base (m : AList fun _ : K => V)
  | layer (cache : Cache K V) (below : Tower K V)

inductive Fault where
  | overwriteUnspent
  | freshMisapplied
  deriving DecidableEq

variable (R : Values V)

def Values.live (v : V) : Option V := if R.spent v then none else some v

def Values.orEmpty (o : Option V) : V := o.getD R.empty

@[simp] theorem Values.live_empty : R.live R.empty = none := by
  simp [Values.live, R.spent_empty]

theorem Values.live_of_unspent {v : V} (h : R.spent v = false) : R.live v = some v := by
  simp [Values.live, h]

theorem Values.live_eq_none_iff {v : V} : R.live v = none ↔ R.spent v = true := by
  simp [Values.live]

theorem Values.unspent_of_live {v w : V} (h : R.live v = some w) : v = w ∧ R.spent v = false := by
  unfold Values.live at h
  split at h
  · cases h
  · rename_i hv
    exact ⟨Option.some.inj h, by simpa using hv⟩

section
variable [DecidableEq K]

theorem lookup_insert_eq {β : Type} (m : AList fun _ : K => β) (k : K) (b : β) (j : K) :
    (m.insert k b).lookup j = Function.update (fun i => m.lookup i) k (some b) j := by
  by_cases hj : j = k
  · subst hj
    rw [AList.lookup_insert, Function.update_self]
  · rw [AList.lookup_insert_ne hj, Function.update_of_ne hj]

theorem lookup_erase_eq {β : Type} (m : AList fun _ : K => β) (k j : K) :
    (m.erase k).lookup j = Function.update (fun i => m.lookup i) k none j := by
  by_cases hj : j = k
  · subst hj
    rw [AList.lookup_erase, Function.update_self]
  · rw [AList.lookup_erase_ne hj, Function.update_of_ne hj]

/-! ## calls -/

/-- look a key up in a cache; an entry that is missing is copied from what the level below answers -/
def fetchFrom (k : K) (cache : Cache K V) (below : Tower K V) (answer : Option V × Tower K V) :
    Option (Entry V) × Cache K V × Tower K V :=
  match cache.lookup k with
  | some e => (some e, cache, below)
  | none =>
    match answer with
    | (none, below') => (none, cache, below')
    | (some v, below') =>
      let e : Entry V := ⟨v, false, R.spent v⟩
      (some e, cache.insert k e, below')

def getValue (k : K) : Tower K V → Option V × Tower K V
  | .base m => (m.lookup k, .base m)
  | .layer cache below =>
    let r := fetchFrom R k cache below (getValue k below)
    (r.1.bind fun e => R.live e.value, .layer r.2.1 r.2.2)

def fetch (k : K) (cache : Cache K V) (below : Tower K V) :
    Option (Entry V) × Cache K V × Tower K V :=
  fetchFrom R k cache below (getValue R k below)

/-- read a key of the top cache, the empty value standing for nothing -/
def accessValue (k : K) : Tower K V → V × Tower K V
  | .base m => (R.orEmpty (m.lookup k), .base m)
  | .layer cache below =>
    let r := fetch R k cache below
    ((r.1.map Entry.value).getD R.empty, .layer r.2.1 r.2.2)

def haveValue (k : K) (t : Tower K V) : Bool × Tower K V :=
  ((getValue R k t).1.isSome, (getValue R k t).2)

def addEntry (k : K) (v : V) (overwrite : Bool) (cache : Cache K V) : Except Fault (Cache K V) :=
  if R.ignored v then .ok cache
  else
    let e := (cache.lookup k).getD ⟨R.empty, false, false⟩
    if !overwrite && !R.spent e.value then .error .overwriteUnspent
    else .ok (cache.insert k ⟨v, true, e.fresh || (!overwrite && !e.dirty)⟩)

def addValue (k : K) (v : V) (overwrite : Bool) : Tower K V → Except Fault (Tower K V)
  | .base m => .ok (.base m)
  | .layer cache below => (addEntry R k v overwrite cache).map fun c => .layer c below

/-- remove a key; the removed value is handed out -/
def spendValue (k : K) : Tower K V → V × Tower K V
  | .base m => (R.empty, .base m)
  | .layer cache below =>
    match fetch R k cache below with
    | (none, cache', below') => (R.empty, .layer cache' below')
    | (some e, cache', below') =>
      (e.value, .layer
        (if e.fresh then cache'.erase k else cache'.insert k ⟨R.empty, true, e.fresh⟩) below')

def uncache (k : K) : Tower K V → Tower K V
  | .base m => .base m
  | .layer cache below =>
    match cache.lookup k with
    | some e => if !e.dirty && !e.fresh then .layer (cache.erase k) below else .layer cache below
    | none => .layer cache below

def mergeEntry (cache : Cache K V) (x : Sigma fun _ : K => Entry V) : Except Fault (Cache K V) :=
  let e := x.2
  if !e.dirty then .ok cache
  else
    match cache.lookup x.1 with
    | none =>
      if e.fresh && R.spent e.value then .ok cache
      else .ok (cache.insert x.1 ⟨e.value, true, e.fresh⟩)
    | some u =>
      if e.fresh && !R.spent u.value then .error .freshMisapplied
      else if u.fresh && R.spent e.value then .ok (cache.erase x.1)
      else .ok (cache.insert x.1 ⟨e.value, true, u.fresh⟩)

def writeEntry (m : AList fun _ : K => V) (x : Sigma fun _ : K => Entry V) : AList fun _ : K => V :=
  if !x.2.dirty then m
  else if R.spent x.2.value then m.erase x.1
  else m.insert x.1 x.2.value

def writeInto (cache : Cache K V) : Tower K V → Except Fault (Tower K V)
  | .base m => .ok (.base (cache.entries.foldl (writeEntry R) m))
  | .layer parent below => (cache.entries.foldlM (mergeEntry R) parent).map fun c => .layer c below

def flush : Tower K V → Except Fault (Tower K V)
  | .base m => .ok (.base m)
  | .layer cache below => (writeInto R cache below).map fun b => .layer ∅ b

/-! ## what a tower shows -/

def overlay (cache : Cache K V) (w : K → Option V) (k : K) : Option V :=
  match cache.lookup k with
  | some e => R.live e.value
  | none => w k

def view : Tower K V → K → Option V
  | .base m => fun k => m.lookup k
  | .layer cache below => overlay R cache (view below)

def views : Tower K V → List (K → Option V)
  | .base m => [view R (.base m)]
  | .layer cache below => view R (.layer cache below) :: views below

/-- what the flags of a cache promise over a level that shows `w` -/
structure LayerSound (cache : Cache K V) (w : K → Option V) : Prop where
  fresh : ∀ k e, cache.lookup k = some e → e.fresh = true → w k = none
  clean : ∀ k e, cache.lookup k = some e → e.dirty = false → R.live e.value = w k
  spent : ∀ k e, cache.lookup k = some e → R.spent e.value = true → e.value = R.empty

def Sound : Tower K V → Prop
  | .base m => ∀ k v, m.lookup k = some v → R.spent v = false
  | .layer cache below => LayerSound R cache (view R below) ∧ Sound below

/-- in every cache, a key with a fresh entry has no value below -/
def FreshAbsent : Tower K V → Prop
  | .base _ => True
  | .layer cache below =>
    (∀ k e, cache.lookup k = some e → e.fresh = true → view R below k = none) ∧ FreshAbsent below

variable {R}

theorem views_eq_cons (t : Tower K V) : views R t = view R t :: (views R t).tail := by
  cases t with
  | base m => rfl
  | layer cache below => rfl

variable {t : Tower K V}

theorem freshAbsent_of_sound (h : Sound R t) : FreshAbsent R t := by
  induction t with
  | base m => trivial
  | layer cache below ih => exact ⟨h.1.fresh, ih h.2⟩

variable {cache : Cache K V} {w : K → Option V} {k : K}

theorem overlay_some {e : Entry V} (h : cache.lookup k = some e) :
    overlay R cache w k = R.live e.value := by
  simp [overlay, h]

theorem overlay_none (h : cache.lookup k = none) :
    overlay R cache w k = w k := by
  simp [overlay, h]

@[simp] theorem overlay_empty (w : K → Option V) : overlay R (∅ : Cache K V) w = w := by
  funext k
  exact overlay_none (AList.lookup_empty k)

theorem overlay_insert (cache : Cache K V) (w : K → Option V) (k : K) (e : Entry V) :
    overlay R (cache.insert k e) w = Function.update (overlay R cache w) k (R.live e.value) := by
  funext j
  by_cases hj : j = k
  · subst hj
    rw [Function.update_self, overlay_some (AList.lookup_insert cache)]
  · rw [Function.update_of_ne hj, overlay, AList.lookup_insert_ne hj, overlay]

theorem overlay_erase (cache : Cache K V) (w : K → Option V) (k : K) :
    overlay R (cache.erase k) w = Function.update (overlay R cache w) k (w k) := by
  funext j
  by_cases hj : j = k
  · subst hj
    rw [Function.update_self, overlay_none (AList.lookup_erase j cache)]
  · rw [Function.update_of_ne hj, overlay, AList.lookup_erase_ne hj, overlay]

theorem layerSound_empty (w : K → Option V) : LayerSound R (∅ : Cache K V) w where
  fresh k _ h := nomatch (AList.lookup_empty k).symm.trans h
  clean k _ h := nomatch (AList.lookup_empty k).symm.trans h
  spent k _ h := nomatch (AList.lookup_empty k).symm.trans h

theorem forall_lookup_insert {e : Entry V} {P : K → Entry V → Prop} (hnew : P k e)
    (h : ∀ j u, cache.lookup j = some u → P j u) (j : K) (u : Entry V)
    (hu : (cache.insert k e).lookup j = some u) : P j u := by
  by_cases hj : j = k
  · subst hj
    rw [AList.lookup_insert] at hu
    exact Option.some.inj hu ▸ hnew
  · rw [AList.lookup_insert_ne hj] at hu
    exact h j u hu

theorem LayerSound.insert {e : Entry V} (h : LayerSound R cache w)
    (hfresh : e.fresh = true → w k = none) (hclean : e.dirty = false → R.live e.value = w k)
    (hspent : R.spent e.value = true → e.value = R.empty) :
    LayerSound R (cache.insert k e) w :=
  ⟨forall_lookup_insert hfresh h.fresh, forall_lookup_insert hclean h.clean,
    forall_lookup_insert hspent h.spent⟩

theorem LayerSound.erase (h : LayerSound R cache w) (k : K) :
    LayerSound R (cache.erase k) w := by
  have hkept : ∀ j u, (cache.erase k).lookup j = some u → cache.lookup j = some u := by
    intro j u hu
    by_cases hj : j = k
    · subst hj
      rw [AList.lookup_erase] at hu
      cases hu
    · rwa [AList.lookup_erase_ne hj] at hu
  exact ⟨fun j u hu => h.fresh j u (hkept j u hu), fun j u hu => h.clean j u (hkept j u hu),
    fun j u hu => h.spent j u (hkept j u hu)⟩

theorem Sound.unspent (h : Sound R t) {v : V} (hv : view R t k = some v) :
    R.spent v = false := by
  induction t with
  | base m => exact h k v hv
  | layer cache below ih =>
    cases hk : cache.lookup k with
    | none => exact ih h.2 ((overlay_none hk).symm.trans hv)
    | some e =>
      obtain ⟨rfl, he⟩ := R.unspent_of_live ((overlay_some hk).symm.trans hv)
      exact he

/-! ## reads -/

variable {below : Tower K V}

variable (R) in
/-- a tower that shows on every level what `t` does -/
structure Kept (t t' : Tower K V) : Prop where
  sound : Sound R t'
  views_eq : views R t' = views R t

theorem Kept.view_eq {t' : Tower K V} (h : Kept R t t') : view R t' = view R t :=
  (List.cons.inj ((views_eq_cons t').symm.trans (h.views_eq.trans (views_eq_cons t)))).1

theorem Kept.layer {below' : Tower K V} (h : Kept R below below')
    (hcache : LayerSound R cache (view R below)) : Sound R (.layer cache below') ∧
      views R (.layer cache below') = overlay R cache (view R below) :: views R below := by
  refine ⟨⟨?_, h.sound⟩, ?_⟩
  · rw [h.view_eq]
    exact hcache
  · show overlay R cache (view R below') :: _ = _
    rw [h.view_eq, h.views_eq]

variable (R) in
/-- a fetched entry shows what the level showed, and nothing shown has changed -/
structure Fetched (k : K) (cache : Cache K V) (below : Tower K V)
    (r : Option (Entry V) × Cache K V × Tower K V) : Prop where
  kept : Kept R below r.2.2
  sound : LayerSound R r.2.1 (view R below)
  overlay_eq : overlay R r.2.1 (view R below) = overlay R cache (view R below)
  lookup_eq : r.2.1.lookup k = r.1
  value_eq : (r.1.bind fun e => R.live e.value) = overlay R cache (view R below) k

theorem Fetched.layer {r : Option (Entry V) × Cache K V × Tower K V} (h : Fetched R k cache below r) :
    Kept R (.layer cache below) (.layer r.2.1 r.2.2) := by
  obtain ⟨hsound, hviews⟩ := h.kept.layer h.sound
  rw [h.overlay_eq] at hviews
  exact ⟨hsound, hviews⟩

theorem fetchFrom_ok {answer : Option V × Tower K V} (hcache : LayerSound R cache (view R below))
    (hbelow : Sound R below) (hans : answer.1 = view R below k) (hkept : Kept R below answer.2) :
    Fetched R k cache below (fetchFrom R k cache below answer) := by
  unfold fetchFrom
  cases hk : cache.lookup k with
  | some e => exact ⟨⟨hbelow, rfl⟩, hcache, rfl, hk, (overlay_some hk).symm⟩
  | none =>
    obtain ⟨o, below'⟩ := answer
    cases o with
    | none => exact ⟨hkept, hcache, rfl, hk, hans.trans (overlay_none hk).symm⟩
    | some v =>
      have hspent : R.spent v = false := hbelow.unspent hans.symm
      have hv : R.live v = view R below k := (R.live_of_unspent hspent).trans hans
      have hnot : ∀ {p : Prop}, R.spent v = true → p := fun h =>
        absurd (hspent.symm.trans h) Bool.false_ne_true
      refine ⟨hkept, hcache.insert hnot (fun _ => hv) hnot, ?_, AList.lookup_insert cache, ?_⟩
      · rw [overlay_insert, hv, ← overlay_none (R := R) (w := view R below) hk,
          Function.update_eq_self]
      · show R.live v = _
        rw [overlay_none hk, hv]

theorem getValue_ok (h : Sound R t) :
    (getValue R k t).1 = view R t k ∧ Kept R t (getValue R k t).2 := by
  induction t with
  | base m => exact ⟨rfl, h, rfl⟩
  | layer cache below ih =>
    obtain ⟨hans, hkept⟩ := ih h.2
    have hfetched := fetchFrom_ok h.1 h.2 hans hkept
    exact ⟨hfetched.value_eq, hfetched.layer⟩

theorem fetch_ok (h : Sound R (.layer cache below)) :
    Fetched R k cache below (fetch R k cache below) := by
  obtain ⟨hans, hkept⟩ := getValue_ok (k := k) h.2
  exact fetchFrom_ok h.1 h.2 hans hkept

theorem LayerSound.orEmpty_eq (h : LayerSound R cache w) {e : Entry V}
    (he : cache.lookup k = some e) : R.orEmpty (R.live e.value) = e.value := by
  by_cases hs : R.spent e.value = true
  · rw [R.live_eq_none_iff.mpr hs]
    exact (h.spent k e he hs).symm
  · rw [R.live_of_unspent (by simpa using hs)]
    rfl

theorem accessValue_ok (h : Sound R t) :
    (accessValue R k t).1 = R.orEmpty (view R t k) ∧ Kept R t (accessValue R k t).2 := by
  cases t with
  | base m => exact ⟨rfl, h, rfl⟩
  | layer cache below =>
    have hfetched := fetch_ok (k := k) h
    refine ⟨?_, hfetched.layer⟩
    show Option.getD _ _ = R.orEmpty (overlay R cache (view R below) k)
    rw [← hfetched.value_eq]
    cases he : (fetch R k cache below).1 with
    | none => rfl
    | some e => exact (hfetched.sound.orEmpty_eq (hfetched.lookup_eq.trans he)).symm

theorem haveValue_ok (h : Sound R t) :
    (haveValue R k t).1 = (view R t k).isSome ∧ Kept R t (haveValue R k t).2 := by
  obtain ⟨hv, hkept⟩ := getValue_ok (k := k) h
  exact ⟨congrArg Option.isSome hv, hkept⟩

theorem uncache_ok (h : Sound R t) : Kept R t (uncache k t) := by
  cases t with
  | base m => exact ⟨h, rfl⟩
  | layer cache below =>
    simp only [uncache]
    cases hk : cache.lookup k with
    | none => exact ⟨h, rfl⟩
    | some e =>
      dsimp only
      by_cases hflags : (!e.dirty && !e.fresh) = true
      · have hclean : e.dirty = false := by simpa using (Bool.and_eq_true_iff.mp hflags).1
        rw [if_pos hflags]
        refine ⟨⟨h.1.erase k, h.2⟩, ?_⟩
        show overlay R (cache.erase k) (view R below) :: _ = _
        rw [overlay_erase, ← h.1.clean k e hk hclean, ← overlay_some (w := view R below) hk,
          Function.update_eq_self]
        rfl
      · rw [if_neg hflags]
        exact ⟨h, rfl⟩

/-! ## changes -/

def added (R : Values V) (m : K → Option V) (k : K) (v : V) : K → Option V :=
  if R.ignored v then m else Function.update m k (some v)

theorem addValue_ok {v : V} {overwrite : Bool} (h : Sound R (.layer cache below))
    (hv : R.spent v = false) (hnew : overwrite = true ∨ view R (.layer cache below) k = none) :
    ∃ cache', addValue R k v overwrite (.layer cache below) = .ok (.layer cache' below) ∧
      LayerSound R cache' (view R below) ∧
      overlay R cache' (view R below) = added R (view R (.layer cache below)) k v := by
  simp only [addValue, addEntry, added]
  by_cases hign : R.ignored v
  · exact ⟨cache, by rw [if_pos hign]; rfl, h.1, by rw [if_pos hign]; rfl⟩
  rw [if_neg hign, if_neg hign]
  -- the entry found, or the blank one that is put in its place
  obtain ⟨e, he⟩ : ∃ e, (cache.lookup k).getD ⟨R.empty, false, false⟩ = e := ⟨_, rfl⟩
  have hshow : (∃ f, cache.lookup k = some f ∧ f = e) ∨
      (cache.lookup k = none ∧ e = ⟨R.empty, false, false⟩) := by
    cases hk : cache.lookup k with
    | none => exact Or.inr ⟨rfl, by rw [← he, hk]; rfl⟩
    | some f => exact Or.inl ⟨f, rfl, by rw [← he, hk]; rfl⟩
  have hspent : overwrite = true ∨ R.spent e.value = true := by
    rcases hnew with ho | hnone
    · exact Or.inl ho
    rcases hshow with ⟨f, hf, rfl⟩ | ⟨-, rfl⟩
    · exact Or.inr (R.live_eq_none_iff.mp ((overlay_some hf).symm.trans hnone))
    · exact Or.inr R.spent_empty
  have hfresh : (e.fresh || (!overwrite && !e.dirty)) = true → view R below k = none := by
    intro hflag
    rcases hshow with ⟨f, hf, rfl⟩ | ⟨hk, rfl⟩
    · rcases Bool.or_eq_true_iff.mp hflag with hflag | hflag
      · exact h.1.fresh k f hf hflag
      · obtain ⟨ho, hd⟩ := Bool.and_eq_true_iff.mp hflag
        rcases hnew with ho' | hnone
        · simp [ho'] at ho
        · rw [← h.1.clean k f hf (by simpa using hd)]
          exact (overlay_some hf).symm.trans hnone
    · rcases hnew with ho | hnone
      · simp [ho] at hflag
      · exact (overlay_none hk).symm.trans hnone
  rw [he, if_neg (by rcases hspent with h' | h' <;> simp [h'])]
  refine ⟨_, rfl, h.1.insert hfresh nofun ?_, ?_⟩
  · intro hs
    exact absurd (hv.symm.trans hs) Bool.false_ne_true
  · rw [overlay_insert, R.live_of_unspent hv]
    rfl

theorem spendValue_ok (h : Sound R (.layer cache below)) :
    ∃ cache' below', spendValue R k (.layer cache below) =
        (R.orEmpty (view R (.layer cache below) k), .layer cache' below') ∧
      LayerSound R cache' (view R below) ∧ Kept R below below' ∧
      overlay R cache' (view R below) = Function.update (view R (.layer cache below)) k none := by
  obtain ⟨hkept, hc, hover, hlook, hv⟩ := fetch_ok (k := k) h
  simp only [spendValue]
  rcases hr : fetch R k cache below with ⟨o, cache', below'⟩
  simp only [hr] at hkept hc hover hlook hv ⊢
  have hshow : view R (.layer cache below) = overlay R cache' (view R below) := hover.symm
  cases o with
  | none =>
    have hnone : view R (.layer cache below) k = none := hv.symm
    refine ⟨cache', below', ?_, hc, hkept, ?_⟩
    · rw [hnone]
      rfl
    · rw [← hnone, Function.update_eq_self]
      exact hover
  | some e =>
    have hval : R.orEmpty (view R (.layer cache below) k) = e.value := by
      rw [show view R (.layer cache below) k = R.live e.value from hv.symm]
      exact hc.orEmpty_eq hlook
    by_cases hf : e.fresh = true
    · refine ⟨cache'.erase k, below', ?_, hc.erase k, hkept, ?_⟩
      · rw [hval]
        simp [hf]
      · rw [overlay_erase, hc.fresh k e hlook hf, hshow]
    · refine ⟨cache'.insert k ⟨R.empty, true, e.fresh⟩, below', ?_,
        hc.insert (fun h' => absurd h' hf) nofun (fun _ => rfl), hkept, ?_⟩
      · rw [hval]
        simp [hf]
      · rw [overlay_insert, R.live_empty, hshow]

/-! ## flushes -/

def writeOver (R : Values V) (f : K → Option V) (x : Sigma fun _ : K => Entry V) : K → Option V :=
  if x.2.dirty then Function.update f x.1 (R.live x.2.value) else f

/-- the entries of a list written over a map, one after the other -/
def written (R : Values V) (l : List (Sigma fun _ : K => Entry V)) (f : K → Option V) :
    K → Option V :=
  l.foldl (writeOver R) f

variable {x : Sigma fun _ : K => Entry V}

theorem writeOver_of_ne {f : K → Option V} (hk : k ≠ x.1) :
    writeOver R f x k = f k := by
  unfold writeOver
  split
  · exact Function.update_of_ne hk _ f
  · rfl

theorem writeOver_self (f : K → Option V) (k : K) (e : Entry V) :
    writeOver R f ⟨k, e⟩ k = if e.dirty then R.live e.value else f k := by
  unfold writeOver
  dsimp only
  split
  · exact Function.update_self k _ f
  · rfl

variable {l : List (Sigma fun _ : K => Entry V)}

theorem written_of_notMem {f : K → Option V} (hk : k ∉ l.keys) : written R l f k = f k := by
  induction l generalizing f with
  | nil => rfl
  | cons x l ih =>
    rw [List.keys_cons, List.mem_cons, not_or] at hk
    exact (ih hk.2).trans (writeOver_of_ne hk.1)

theorem written_of_mem (hl : l.NodupKeys) {f : K → Option V} {e : Entry V} (he : ⟨k, e⟩ ∈ l) :
    written R l f k = if e.dirty then R.live e.value else f k := by
  induction l generalizing f with
  | nil => cases he
  | cons x l ih =>
    obtain ⟨hx, hl⟩ := List.nodupKeys_cons.mp hl
    rcases List.mem_cons.mp he with rfl | he
    · exact (written_of_notMem hx).trans (writeOver_self f k e)
    · have hne : k ≠ x.1 := fun h => hx (h ▸ List.mem_keys_of_mem he)
      rw [← writeOver_of_ne (R := R) (f := f) hne]
      exact ih hl he

theorem LayerSound.written_eq (h : LayerSound R cache w) :
    written R cache.entries w = overlay R cache w := by
  funext k
  cases hk : cache.lookup k with
  | none =>
    rw [overlay_none hk]
    exact written_of_notMem (AList.lookup_eq_none.mp hk)
  | some e =>
    rw [overlay_some hk, written_of_mem cache.nodupKeys (AList.mem_lookup_iff.mp hk)]
    split
    · rfl
    · rename_i hd
      exact (h.clean k e hk (by simpa using hd)).symm

theorem mergeEntry_ok {parent : Cache K V} (h : LayerSound R parent w)
    (hfresh : x.2.fresh = true → overlay R parent w x.1 = none)
    (hspent : R.spent x.2.value = true → x.2.value = R.empty) :
    ∃ parent', mergeEntry R parent x = .ok parent' ∧ LayerSound R parent' w ∧
      overlay R parent' w = writeOver R (overlay R parent w) x := by
  obtain ⟨k, e⟩ := x
  dsimp only at hfresh hspent
  simp only [mergeEntry, writeOver]
  cases hd : e.dirty with
  | false => exact ⟨parent, rfl, h, rfl⟩
  | true =>
    simp only [Bool.not_true, Bool.false_eq_true, if_false, if_true]
    cases hk : parent.lookup k with
    | none =>
      rw [overlay_none hk] at hfresh
      dsimp only
      split
      · -- a value that came and went above this level
        rename_i hgone
        obtain ⟨hf, hs⟩ := Bool.and_eq_true_iff.mp hgone
        refine ⟨parent, rfl, h, ?_⟩
        rw [R.live_eq_none_iff.mpr hs, ← hfresh hf, ← overlay_none (R := R) (w := w) hk,
          Function.update_eq_self]
      · exact ⟨_, rfl, h.insert hfresh nofun hspent, overlay_insert _ _ _ _⟩
    | some u =>
      dsimp only
      rw [overlay_some hk] at hfresh
      have hok : (e.fresh && !R.spent u.value) = false := by
        cases hf : e.fresh with
        | false => rfl
        | true => simp [R.live_eq_none_iff.mp (hfresh hf)]
      rw [if_neg (by simp [hok])]
      split
      · rename_i hgone
        obtain ⟨hf, hs⟩ := Bool.and_eq_true_iff.mp hgone
        refine ⟨_, rfl, h.erase k, ?_⟩
        rw [overlay_erase, h.fresh k u hk hf, R.live_eq_none_iff.mpr hs]
      · exact ⟨_, rfl, h.insert (h.fresh k u hk) nofun hspent, overlay_insert _ _ _ _⟩

theorem mergeEntries_ok (hl : l.NodupKeys) {parent : Cache K V} (h : LayerSound R parent w)
    (hfresh : ∀ x ∈ l, x.2.fresh = true → overlay R parent w x.1 = none)
    (hspent : ∀ x ∈ l, R.spent x.2.value = true → x.2.value = R.empty) :
    ∃ parent', l.foldlM (mergeEntry R) parent = .ok parent' ∧ LayerSound R parent' w ∧
      overlay R parent' w = written R l (overlay R parent w) := by
  induction l generalizing parent with
  | nil => exact ⟨parent, rfl, h, rfl⟩
  | cons x l ih =>
    obtain ⟨hx, hl⟩ := List.nodupKeys_cons.mp hl
    obtain ⟨p, hp, hsound, hover⟩ := mergeEntry_ok h (hfresh x List.mem_cons_self)
      (hspent x List.mem_cons_self)
    -- the other keys show what they showed before `x` was written
    have hrest : ∀ y ∈ l, y.2.fresh = true → overlay R p w y.1 = none := by
      intro y hy hf
      have hne : y.1 ≠ x.1 := fun h => hx (h ▸ List.mem_keys_of_mem hy)
      rw [hover, writeOver_of_ne hne]
      exact hfresh y (List.mem_cons_of_mem x hy) hf
    obtain ⟨p', hp', hsound', hover'⟩ := ih hl hsound hrest
      fun y hy => hspent y (List.mem_cons_of_mem x hy)
    refine ⟨p', ?_, hsound', ?_⟩
    · rw [List.foldlM_cons, hp]
      exact hp'
    · rw [hover', hover]
      rfl

theorem writeEntry_ok {m : AList fun _ : K => V} (h : Sound R (.base m)) :
    Sound R (.base (writeEntry R m x)) ∧
      view R (.base (writeEntry R m x)) = writeOver R (view R (.base m)) x := by
  have hview : view R (.base (writeEntry R m x)) = writeOver R (view R (.base m)) x := by
    funext j
    simp only [view, writeEntry, writeOver]
    cases hd : x.2.dirty with
    | false => rfl
    | true =>
      simp only [Bool.not_true, Bool.false_eq_true, if_false, if_true]
      by_cases hs : R.spent x.2.value = true
      · rw [if_pos hs, R.live_eq_none_iff.mpr hs, lookup_erase_eq]
      · rw [if_neg hs, R.live_of_unspent (by simpa using hs), lookup_insert_eq]
  refine ⟨?_, hview⟩
  intro j v hv
  have hv : writeOver R (view R (.base m)) x j = some v := hview ▸ hv
  by_cases hj : j = x.1
  · subst hj
    rw [writeOver_self] at hv
    split at hv
    · obtain ⟨rfl, hs⟩ := R.unspent_of_live hv
      exact hs
    · exact h _ v hv
  · rw [writeOver_of_ne hj] at hv
    exact h j v hv

theorem writeEntries_ok (l : List (Sigma fun _ : K => Entry V)) {m : AList fun _ : K => V}
    (h : Sound R (.base m)) : Sound R (.base (l.foldl (writeEntry R) m)) ∧
      view R (.base (l.foldl (writeEntry R) m)) = written R l (view R (.base m)) := by
  induction l generalizing m with
  | nil => exact ⟨h, rfl⟩
  | cons x l ih =>
    obtain ⟨hsound, hview⟩ := writeEntry_ok (x := x) h
    obtain ⟨hsound', hview'⟩ := ih hsound
    exact ⟨hsound', hview'.trans (congrArg (written R l) hview)⟩

/-- **A flush.**  Writing a sound cache into the level below faults never, and the level below then
shows what the cache showed over it; deeper levels are as they were. -/
theorem writeInto_ok (h : Sound R (.layer cache below)) :
    ∃ below', writeInto R cache below = .ok below' ∧ Sound R below' ∧
      views R below' = view R (.layer cache below) :: (views R below).tail := by
  obtain ⟨hcache, hbelow⟩ := h
  have hspent : ∀ x ∈ cache.entries, R.spent x.2.value = true → x.2.value = R.empty := by
    intro x hx
    exact hcache.spent x.1 x.2 (AList.mem_lookup_iff.mpr hx)
  cases below with
  | base m =>
    obtain ⟨hsound, hview⟩ := writeEntries_ok cache.entries hbelow
    refine ⟨_, rfl, hsound, ?_⟩
    show [_] = [_]
    rw [hview, hcache.written_eq]
    rfl
  | layer parent below =>
    obtain ⟨p, hp, hsound, hover⟩ := mergeEntries_ok cache.nodupKeys hbelow.1
      (fun x hx => hcache.fresh x.1 x.2 (AList.mem_lookup_iff.mpr hx)) hspent
    refine ⟨.layer p below, ?_, ⟨hsound, hbelow.2⟩, ?_⟩
    · show Except.map _ _ = _
      rw [hp]
      rfl
    · show overlay R p (view R below) :: views R below = _
      rw [hover]
      exact congrArg (· :: views R below) hcache.written_eq

theorem flush_ok (h : Sound R (.layer cache below)) :
    ∃ t, flush R (.layer cache below) = .ok t ∧ Sound R t ∧
      views R t = view R (.layer cache below) :: view R (.layer cache below) ::
        (views R below).tail := by
  obtain ⟨below', hw, hsound, hviews⟩ := writeInto_ok h
  refine ⟨.layer ∅ below', ?_, ⟨layerSound_empty _, hsound⟩, ?_⟩
  · show Except.map _ _ = _
    rw [hw]
    rfl
  · have hview : view R below' = view R (.layer cache below) :=
      (List.cons.inj ((views_eq_cons below').symm.trans hviews)).1
    show overlay R ∅ (view R below') :: views R below' = _
    rw [overlay_empty, hviews, hview]

/-! ## runs -/

inductive Op (K V : Type) where
  | get (k : K)
  | access (k : K)
  | holds (k : K)
  | add (k : K) (v : V) (overwrite : Bool)
  | spend (k : K)
  | uncache (k : K)
  | flush

/-- an operation on the cache with `i` caches above it; a new top cache; the top cache dropped -/
inductive Call (K V : Type) where
  | on (i : Nat) (op : Op K V)
  | push
  | pop

inductive Answer (V : Type) where
  | found (o : Option V)
  | value (v : V)
  | present (b : Bool)
  | done
  deriving DecidableEq

variable (R) in
def perform : Op K V → Tower K V → Except Fault (Answer V × Tower K V)
  | .get k, t => .ok (.found (getValue R k t).1, (getValue R k t).2)
  | .access k, t => .ok (.value (accessValue R k t).1, (accessValue R k t).2)
  | .holds k, t => .ok (.present (haveValue R k t).1, (haveValue R k t).2)
  | .add k v overwrite, t => (addValue R k v overwrite t).map fun t' => (.done, t')
  | .spend k, t => .ok (.value (spendValue R k t).1, (spendValue R k t).2)
  | .uncache k, t => .ok (.done, CacheTower.uncache k t)
  | .flush, t => (CacheTower.flush R t).map fun t' => (.done, t')

variable (R) in
def performAt (op : Op K V) : Nat → Tower K V → Except Fault (Answer V × Tower K V)
  | 0, t => perform R op t
  | _ + 1, .base m => .ok (.done, .base m)
  | i + 1, .layer cache below => (performAt op i below).map fun r => (r.1, .layer cache r.2)

variable (R) in
def step (t : Tower K V) : Call K V → Except Fault (Answer V × Tower K V)
  | .on i op => performAt R op i t
  | .push => .ok (.done, .layer ∅ t)
  | .pop =>
    match t with
    | .base m => .ok (.done, .base m)
    | .layer _ below => .ok (.done, below)

variable (R) in
def run (t : Tower K V) : List (Call K V) → Except Fault (List (Answer V) × Tower K V)
  | [] => .ok ([], t)
  | c :: cs => do
    let r ← step R t c
    let rs ← run r.2 cs
    return (r.1 :: rs.1, rs.2)

/-! ## the same calls on plain maps, one for each level -/

def level (ms : List (K → Option V)) (i : Nat) : K → Option V := ms.getD i fun _ => none

variable (R) in
def specAnswer (m : K → Option V) : Op K V → Answer V
  | .get k => .found (m k)
  | .access k => .value (R.orEmpty (m k))
  | .holds k => .present (m k).isSome
  | .spend k => .value (R.orEmpty (m k))
  | .add _ _ _ | .uncache _ | .flush => .done

variable (R) in
def specPerform (ms : List (K → Option V)) (i : Nat) : Op K V → List (K → Option V)
  | .add k v _ => ms.set i (added R (level ms i) k v)
  | .spend k => ms.set i (Function.update (level ms i) k none)
  | .flush => ms.set (i + 1) (level ms i)
  | .get _ | .access _ | .holds _ | .uncache _ => ms

variable (R) in
def specStep (ms : List (K → Option V)) : Call K V → Answer V × List (K → Option V)
  | .on i op => (specAnswer R (level ms i) op, specPerform R ms i op)
  | .push => (.done, level ms 0 :: ms)
  | .pop => (.done, ms.tail)

variable (R) in
def specRun (ms : List (K → Option V)) : List (Call K V) → List (Answer V) × List (K → Option V)
  | [] => ([], ms)
  | c :: cs =>
    let rs := specRun (specStep R ms c).2 cs
    ((specStep R ms c).1 :: rs.1, rs.2)

variable (R) in
/-- the rule for changes: only the top cache is changed, and only an overwriting addition may find a
value in its place -/
def OpAllowed (ms : List (K → Option V)) (i : Nat) : Op K V → Prop
  | .add k v overwrite =>
    i = 0 ∧ R.spent v = false ∧ (overwrite = true ∨ level ms 0 k = none)
  | .spend _ => i = 0
  | .get _ | .access _ | .holds _ | .uncache _ | .flush => True

variable (R) in
def CallAllowed (ms : List (K → Option V)) : Call K V → Prop
  | .on i op => i + 1 < ms.length ∧ OpAllowed R ms i op
  | .push => True
  | .pop => 1 < ms.length

variable (R) in
def RunAllowed : List (K → Option V) → List (Call K V) → Prop
  | _, [] => True
  | ms, c :: cs => CallAllowed R ms c ∧ RunAllowed (specStep R ms c).2 cs

instance (ms : List (K → Option V)) (i : Nat) :
    (op : Op K V) → Decidable (OpAllowed R ms i op)
  | .add k v overwrite =>
    inferInstanceAs (Decidable (i = 0 ∧ R.spent v = false ∧
      (overwrite = true ∨ level ms 0 k = none)))
  | .spend _ => inferInstanceAs (Decidable (i = 0))
  | .get _ | .access _ | .holds _ | .uncache _ | .flush => inferInstanceAs (Decidable True)

instance (ms : List (K → Option V)) : (c : Call K V) → Decidable (CallAllowed R ms c)
  | .on i op => inferInstanceAs (Decidable (i + 1 < ms.length ∧ OpAllowed R ms i op))
  | .push => inferInstanceAs (Decidable True)
  | .pop => inferInstanceAs (Decidable (1 < ms.length))

instance decidableRunAllowed :
    (ms : List (K → Option V)) → (cs : List (Call K V)) → Decidable (RunAllowed R ms cs)
  | _, [] => inferInstanceAs (Decidable True)
  | ms, c :: cs =>
    have := decidableRunAllowed (specStep R ms c).2 cs
    inferInstanceAs (Decidable (CallAllowed R ms c ∧ RunAllowed R (specStep R ms c).2 cs))

theorem level_views (t : Tower K V) : level (views R t) 0 = view R t := by
  cases t with
  | base m => rfl
  | layer cache below => rfl

theorem perform_ok {op : Op K V} (h : Sound R (.layer cache below))
    (hop : OpAllowed R (views R (.layer cache below)) 0 op) :
    ∃ t, perform R op (.layer cache below) =
        .ok (specAnswer R (view R (.layer cache below)) op, t) ∧ Sound R t ∧
      views R t = specPerform R (views R (.layer cache below)) 0 op := by
  cases op with
  | get k =>
    obtain ⟨hv, hkept⟩ := getValue_ok (k := k) h
    exact ⟨_, by rw [specAnswer, ← hv]; rfl, hkept.1, hkept.2⟩
  | access k =>
    obtain ⟨hv, hkept⟩ := accessValue_ok (k := k) h
    exact ⟨_, by rw [specAnswer, ← hv]; rfl, hkept.1, hkept.2⟩
  | holds k =>
    obtain ⟨hv, hkept⟩ := haveValue_ok (k := k) h
    exact ⟨_, by rw [specAnswer, ← hv]; rfl, hkept.1, hkept.2⟩
  | uncache k =>
    have hkept := uncache_ok (k := k) h
    exact ⟨_, rfl, hkept.1, hkept.2⟩
  | add k v overwrite =>
    obtain ⟨-, hv, hnew⟩ := hop
    obtain ⟨cache', hadd, hs, hover⟩ := addValue_ok h hv hnew
    refine ⟨.layer cache' below, ?_, ⟨hs, h.2⟩, congrArg (· :: views R below) hover⟩
    show Except.map _ _ = _
    rw [hadd]
    rfl
  | spend k =>
    obtain ⟨cache', below', hspend, hc, hkept, hover⟩ := spendValue_ok (k := k) h
    obtain ⟨hs, hvs⟩ := hkept.layer hc
    refine ⟨.layer cache' below', ?_, hs, ?_⟩
    · show Except.ok _ = _
      rw [hspend]
      rfl
    · rw [hvs, hover]
      rfl
  | flush =>
    obtain ⟨t, ht, hs, hvs⟩ := flush_ok h
    refine ⟨t, ?_, hs, ?_⟩
    · show Except.map _ _ = _
      rw [ht]
      rfl
    · rw [hvs]
      show _ = _ :: (views R below).set 0 _
      rw [views_eq_cons below]
      rfl

variable {ms : List (K → Option V)}

theorem head_specPerform {m : K → Option V} {i : Nat} {op : Op K V}
    (hop : OpAllowed R (m :: ms) (i + 1) op) :
    OpAllowed R ms i op ∧ level (specPerform R ms i op) 0 = level ms 0 ∧
      specPerform R (m :: ms) (i + 1) op = m :: specPerform R ms i op ∧
      specAnswer R (level (m :: ms) (i + 1)) op = specAnswer R (level ms i) op := by
  cases op with
  | add k v overwrite => exact absurd hop.1 (Nat.succ_ne_zero i)
  | spend k => exact absurd hop (Nat.succ_ne_zero i)
  | flush =>
    refine ⟨trivial, ?_, rfl, rfl⟩
    cases ms with
    | nil => rfl
    | cons m' ms => rfl
  | get k => exact ⟨trivial, rfl, rfl, rfl⟩
  | access k => exact ⟨trivial, rfl, rfl, rfl⟩
  | holds k => exact ⟨trivial, rfl, rfl, rfl⟩
  | uncache k => exact ⟨trivial, rfl, rfl, rfl⟩

theorem performAt_ok {op : Op K V} {i : Nat} (h : Sound R t) (hi : i + 1 < (views R t).length)
    (hop : OpAllowed R (views R t) i op) :
    ∃ t', performAt R op i t = .ok (specAnswer R (level (views R t) i) op, t') ∧ Sound R t' ∧
      views R t' = specPerform R (views R t) i op := by
  -- induction on the number of caches above
  induction i generalizing t with
  | zero =>
    cases t with
    | base m => exact absurd hi (by simp [views])
    | layer cache below => exact perform_ok h hop
  | succ i ih =>
    cases t with
    | base m => exact absurd hi (by simp [views])
    | layer cache below =>
      obtain ⟨hop', hhead, hspec, hans⟩ := head_specPerform hop
      obtain ⟨b, hb, hs, hvs⟩ := ih h.2 (Nat.lt_of_succ_lt_succ hi) hop'
      have hview : view R b = view R below := by
        rw [← level_views b, hvs, hhead, level_views]
      refine ⟨.layer cache b, ?_, ⟨?_, hs⟩, ?_⟩
      · show Except.map _ (performAt R op i below) = _
        rw [hb]
        exact congrArg (fun a => Except.ok (a, Tower.layer cache b)) hans.symm
      · rw [hview]
        exact h.1
      · show overlay R cache (view R b) :: views R b = specPerform R (_ :: views R below) (i + 1) op
        rw [hspec, hvs, hview]
        rfl

theorem step_refines {c : Call K V} (h : Sound R t) (hc : CallAllowed R (views R t) c) :
    ∃ t', step R t c = .ok ((specStep R (views R t) c).1, t') ∧ Sound R t' ∧
      views R t' = (specStep R (views R t) c).2 := by
  cases c with
  | on i op => exact performAt_ok h hc.1 hc.2
  | push =>
    refine ⟨.layer ∅ t, rfl, ⟨layerSound_empty _, h⟩, ?_⟩
    show overlay R ∅ (view R t) :: views R t = level (views R t) 0 :: views R t
    rw [overlay_empty, level_views]
  | pop =>
    cases t with
    | base m => exact absurd hc (by simp [CallAllowed, views])
    | layer cache below => exact ⟨below, rfl, h.2, rfl⟩

/-- **Refinement.**  A run of calls on a sound tower faults never, answers each call as the plain maps
do, and ends in a sound tower that shows those maps. -/
theorem run_refines {cs : List (Call K V)} (h : Sound R t) (hcs : RunAllowed R (views R t) cs) :
    ∃ t', run R t cs = .ok ((specRun R (views R t) cs).1, t') ∧ Sound R t' ∧
      views R t' = (specRun R (views R t) cs).2 := by
  induction cs generalizing t with
  | nil => exact ⟨t, rfl, h, rfl⟩
  | cons c cs ih =>
    obtain ⟨t₁, hstep, hs₁, hvs₁⟩ := step_refines h hcs.1
    obtain ⟨t₂, hrun, hs₂, hvs₂⟩ := ih hs₁ (by rw [hvs₁]; exact hcs.2)
    refine ⟨t₂, ?_, hs₂, ?_⟩
    · show (do let r ← step R t c; _) = _
      rw [hstep]
      show (do let rs ← run R t₁ cs; _) = _
      rw [hrun, hvs₁]
      rfl
    · rw [hvs₂, hvs₁]
      rfl

/-! ## flushing every cache -/

def bottom : Tower K V → AList fun _ : K => V
  | .base m => m
  | .layer _ below => bottom below

def flushCalls (n : Nat) : List (Call K V) := (List.range n).map fun i => .on i .flush

theorem level_bottom (t : Tower K V) :
    level (views R t) ((views R t).length - 1) = fun k => (bottom t).lookup k := by
  induction t with
  | base m => rfl
  | layer cache below ih =>
    show level (_ :: views R below) (views R below).length = _
    rw [views_eq_cons below] at ih ⊢
    exact ih

theorem runAllowed_append {cs ds : List (Call K V)} :
    RunAllowed R ms (cs ++ ds) ↔ RunAllowed R ms cs ∧ RunAllowed R (specRun R ms cs).2 ds := by
  induction cs generalizing ms with
  | nil => exact ⟨fun h => ⟨trivial, h⟩, fun h => h.2⟩
  | cons c cs ih => exact (and_congr_right fun _ => ih).trans and_assoc.symm

theorem specRun_append (ms : List (K → Option V)) (cs ds : List (Call K V)) :
    (specRun R ms (cs ++ ds)).2 = (specRun R (specRun R ms cs).2 ds).2 := by
  induction cs generalizing ms with
  | nil => rfl
  | cons c cs ih => exact ih _

/-- after the flushes of the first `n` caches the top map has reached `n` levels down -/
theorem flushCalls_ok {n : Nat} (hn : n < ms.length) :
    RunAllowed R ms (flushCalls n) ∧ (specRun R ms (flushCalls n)).2.length = ms.length ∧
      ∀ i ≤ n, level (specRun R ms (flushCalls n)).2 i = level ms 0 := by
  induction n with
  | zero =>
    refine ⟨trivial, rfl, ?_⟩
    intro i hi
    rw [Nat.le_zero.mp hi]
    rfl
  | succ n ih =>
    obtain ⟨hrun, hlen, hlev⟩ := ih (Nat.lt_of_succ_lt hn)
    have hsplit : flushCalls (K := K) (V := V) (n + 1) = flushCalls n ++ [.on n .flush] := by
      simp [flushCalls, List.range_succ]
    rw [hsplit, runAllowed_append, specRun_append]
    generalize (specRun R ms (flushCalls n)).2 = ms' at *
    refine ⟨⟨hrun, ⟨by omega, trivial⟩, trivial⟩, ?_, ?_⟩
    · show (ms'.set (n + 1) (level ms' n)).length = ms.length
      rw [List.length_set, hlen]
    · intro i hi
      show level (ms'.set (n + 1) (level ms' n)) i = _
      by_cases hin : i = n + 1
      · subst hin
        rw [level, List.getD_eq_getElem?_getD, List.getElem?_set_self (by omega)]
        exact hlev n (Nat.le_refl n)
      · rw [level, List.getD_eq_getElem?_getD, List.getElem?_set_ne (Ne.symm hin),
          ← List.getD_eq_getElem?_getD]
        exact hlev i (by omega)

/-- **Flushing every cache.**  The map at the bottom then holds what the top cache showed. -/
theorem flush_all (h : Sound R t) :
    ∃ answers t', run R t (flushCalls ((views R t).length - 1)) = .ok (answers, t') ∧
      (fun k => (bottom t').lookup k) = view R t := by
  have hpos : 0 < (views R t).length := by
    rw [views_eq_cons]
    exact Nat.succ_pos _
  obtain ⟨hrun, hlen, hlev⟩ := flushCalls_ok (R := R) (Nat.sub_lt hpos Nat.one_pos)
  obtain ⟨t', ht, -, hvs⟩ := run_refines h hrun
  refine ⟨_, t', ht, ?_⟩
  rw [← level_bottom (R := R), hvs, hlen, hlev _ (Nat.le_refl _), level_views]

end

end CacheTower
