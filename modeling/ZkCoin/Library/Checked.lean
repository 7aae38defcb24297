import Mathlib.Data.List.Basic

/-!
# Checked computations

Inversion rules for computations in `Except`: a sequence of steps that succeeds has succeeded step
by step.  A loop with early return is a `foldlM` or a `mapM`; its rules turn one step lemma into a
statement about the whole loop.

* `bind_eq_ok`, `then_eq_ok`, `map_eq_ok`, `ite_error_eq_ok` — one step.
* `mapM_eq_ok_iff`           — a loop that collects results.
* `Raises`                   — the errors a computation can end with.
* `foldlM_take_perm`         — a loop that takes its items out of a list.
* `foldlM_eq_ok_iff`         — a loop with state refines a log of what it has seen.
-/

open List

namespace Checked

variable {ε α β γ : Type}

variable {x : Except ε α} {f : α → Except ε β} {b : β}

theorem bind_eq_ok :
    (x >>= f) = .ok b ↔ ∃ a, x = .ok a ∧ f a = .ok b := by
  cases x with
  | error e =>
    constructor
    · intro h
      cases h
    · rintro ⟨a, h, -⟩
      cases h
  | ok a =>
    constructor
    · intro h
      exact ⟨a, rfl, h⟩
    · rintro ⟨a', h, h'⟩
      cases h
      exact h'

theorem then_eq_ok {x : Except ε Unit} {y : Except ε β} :
    (x >>= fun _ => y) = .ok b ↔ x = .ok () ∧ y = .ok b := by
  rw [bind_eq_ok]
  constructor
  · intro ⟨u, hx, hy⟩
    exact ⟨hx, hy⟩
  · intro ⟨hx, hy⟩
    exact ⟨(), hx, hy⟩

theorem map_eq_ok {f : α → β} :
    x.map f = .ok b ↔ ∃ a, x = .ok a ∧ f a = b := by
  cases x with
  | error e =>
    constructor
    · intro h
      cases h
    · rintro ⟨a, h, -⟩
      cases h
  | ok a =>
    constructor
    · intro h
      exact ⟨a, rfl, Except.ok.inj h⟩
    · rintro ⟨a', h, rfl⟩
      cases h
      rfl

theorem ite_error_eq_ok {p : Prop} [Decidable p] {e : ε} {a : α} :
    (if p then .error e else x) = .ok a ↔ ¬ p ∧ x = .ok a := by
  by_cases h : p <;> simp [h]

theorem of_ite_then_eq_ok {p : Prop} [Decidable p] {x : Except ε Unit} {f : Unit → Except ε β}
    (h : (if p then x >>= f else f ()) = .ok b) : f () = .ok b := by
  by_cases hp : p
  · rw [if_pos hp] at h
    obtain ⟨u, -, hf⟩ := bind_eq_ok.mp h
    exact hf
  · rwa [if_neg hp] at h

theorem exists_of_isOk (h : x.isOk = true) : ∃ a, x = .ok a := by
  cases x with
  | error e => cases h
  | ok a => exact ⟨a, rfl⟩

theorem exists_of_any {p : α → Bool} (h : x.toOption.any p = true) :
    ∃ a, x = .ok a ∧ p a = true := by
  cases x with
  | error e => cases h
  | ok a => exact ⟨a, rfl, h⟩

theorem exists_of_fst_isOk {x : Except ε α × β} (h : x.1.isOk = true) : ∃ a b, x = (.ok a, b) := by
  obtain ⟨a, ha⟩ := exists_of_isOk h
  exact ⟨a, x.2, Prod.ext ha rfl⟩

variable {xs : List α}

theorem mapM_eq_ok_iff {ys : List β} :
    xs.mapM f = .ok ys ↔ List.Forall₂ (fun x y => f x = .ok y) xs ys := by
  induction xs generalizing ys with
  | nil =>
    constructor
    · intro h
      cases Except.ok.inj h
      exact .nil
    · intro h
      cases h
      rfl
  | cons x xs ih =>
    rw [mapM_cons]
    constructor
    · intro h
      obtain ⟨y, hy, h⟩ := bind_eq_ok.mp h
      obtain ⟨ys', hys, h⟩ := bind_eq_ok.mp h
      cases Except.ok.inj h
      exact .cons hy (ih.mp hys)
    · intro h
      cases h with
      | cons hy hys => exact bind_eq_ok.mpr ⟨_, hy, bind_eq_ok.mpr ⟨_, ih.mpr hys, rfl⟩⟩

theorem exists_of_mapM_eq_ok {ys : List β} (h : xs.mapM f = .ok ys) :
    ∀ x ∈ xs, ∃ y, f x = .ok y := by
  rw [mapM_eq_ok_iff] at h
  induction h with
  | nil => simp
  | cons hy _ ih =>
    intro x hx
    rcases mem_cons.mp hx with rfl | hx
    · exact ⟨_, hy⟩
    · exact ih x hx

theorem eq_map_of_mapM_eq_ok {g : α → β} {ys : List β} (h : xs.mapM f = .ok ys)
    (hg : ∀ x y, f x = .ok y → y = g x) : ys = xs.map g := by
  rw [mapM_eq_ok_iff] at h
  induction h with
  | nil => rfl
  | cons hy _ ih => rw [map_cons, hg _ _ hy, ih]

theorem forM_eq_ok_iff {f : α → Except ε Unit} :
    xs.forM f = .ok () ↔ ∀ x ∈ xs, f x = .ok () := by
  induction xs with
  | nil => simp [List.forM, pure, Except.pure]
  | cons x xs ih =>
    show (f x >>= fun _ => xs.forM f) = _ ↔ _
    rw [bind_eq_ok, List.forall_mem_cons, ← ih]
    constructor
    · rintro ⟨⟨⟩, hx, hxs⟩
      exact ⟨hx, hxs⟩
    · rintro ⟨hx, hxs⟩
      exact ⟨(), hx, hxs⟩

/-! ## the errors of a computation -/

/-- every error of the computation is one of `p` -/
def Raises (p : ε → Prop) (x : Except ε α) : Prop := ∀ e, x = .error e → p e

variable {p : ε → Prop}

@[simp] theorem raises_ok {a : α} : Raises p (.ok a) := nofun

@[simp] theorem raises_error {e : ε} : Raises p (.error e : Except ε α) ↔ p e := by
  constructor
  · intro h
    exact h e rfl
  · rintro h _ ⟨⟩
    exact h

theorem raises_bind :
    Raises p (x >>= f) ↔ Raises p x ∧ ∀ a, x = .ok a → Raises p (f a) := by
  cases x with
  | error e =>
    show Raises p (.error e) ↔ _
    simp
  | ok a =>
    show Raises p (f a) ↔ _
    simp

theorem raises_ite {c : Prop} [Decidable c] {y : Except ε α} :
    Raises p (if c then x else y) ↔ (c → Raises p x) ∧ (¬ c → Raises p y) := by
  by_cases h : c <;> simp [h]

variable {step : β → α → Except ε β}

theorem Raises.foldlM (hstep : ∀ b x, Raises p (step b x)) (xs : List α) (b : β) :
    Raises p (xs.foldlM step b) := by
  induction xs generalizing b with
  | nil => exact raises_ok
  | cons x xs ih =>
    rw [foldlM_cons, raises_bind]
    exact ⟨hstep b x, fun b' _ => ih b'⟩

theorem Raises.foldlM_of {P : β → Prop}
    (hstep : ∀ b, ∀ x ∈ xs, P b → Raises p (step b x) ∧ ∀ b', step b x = .ok b' → P b') (hb : P b) :
    Raises p (xs.foldlM step b) ∧ ∀ b', xs.foldlM step b = .ok b' → P b' := by
  induction xs generalizing b with
  | nil =>
    refine ⟨raises_ok, ?_⟩
    intro b' h
    obtain rfl := Except.ok.inj h
    exact hb
  | cons x xs ih =>
    have hrest : ∀ b, P b → Raises p (xs.foldlM step b) ∧ ∀ b', xs.foldlM step b = .ok b' → P b' :=
      fun b hb => ih (fun b x hx => hstep b x (mem_cons_of_mem _ hx)) hb
    obtain ⟨hraise, hkeep⟩ := hstep b x mem_cons_self hb
    rw [foldlM_cons, raises_bind]
    refine ⟨⟨hraise, fun b₁ hb₁ => (hrest b₁ (hkeep b₁ hb₁)).1⟩, ?_⟩
    intro b' h
    obtain ⟨b₁, hb₁, h⟩ := bind_eq_ok.mp h
    exact (hrest b₁ (hkeep b₁ hb₁)).2 b' h

theorem Raises.forM {f : α → Except ε Unit} (hf : ∀ x, Raises p (f x)) (xs : List α) :
    Raises p (xs.forM f) := by
  induction xs with
  | nil => exact raises_ok
  | cons x xs ih =>
    show Raises p (f x >>= fun _ => xs.forM f)
    rw [raises_bind]
    exact ⟨hf x, fun _ _ => ih⟩

/-! ## loops that take their items out of a list -/

theorem foldlM_take_perm {take : List α → α → Except ε (List α)}
    (htake : ∀ l x l', take l x = .ok l' → l.Perm (x :: l')) {l l' : List α}
    (h : xs.foldlM take l = .ok l') : l.Perm (xs ++ l') := by
  induction xs generalizing l with
  | nil =>
    obtain rfl := Except.ok.inj h
    exact .refl _
  | cons x xs ih =>
    rw [foldlM_cons, bind_eq_ok] at h
    obtain ⟨m, hm, h⟩ := h
    exact (htake l x m hm).trans ((ih h).cons x)

/-- a loop that finds all its items in a list of the same length uses the list up -/
theorem perm_of_foldlM_take {take : List α → α → Except ε (List α)}
    (htake : ∀ l x l', take l x = .ok l' → l.Perm (x :: l')) {l l' : List α}
    (hlen : xs.length = l.length) (h : xs.foldlM take l = .ok l') : xs.Perm l := by
  have hperm := foldlM_take_perm htake h
  have hcount := hperm.length_eq
  rw [length_append] at hcount
  obtain rfl := length_eq_zero_iff.mp (show l'.length = 0 by omega)
  rw [append_nil] at hperm
  exact hperm.symm

/-! ## loops that refine a log

`view log` is the state of the loop after the items of `log`; `Allowed log x` is the rule under which
the next item is taken. -/

/-- every item of `xs` is allowed after the items before it -/
def AllowedRun (Allowed : List α → α → Prop) : List α → List α → Prop
  | _, [] => True
  | log, x :: xs => Allowed log x ∧ AllowedRun Allowed (log ++ [x]) xs

variable {Allowed : List α → α → Prop}

theorem allowedRun_append {log ys : List α} :
    AllowedRun Allowed log (xs ++ ys) ↔
      AllowedRun Allowed log xs ∧ AllowedRun Allowed (log ++ xs) ys := by
  induction xs generalizing log with
  | nil => simp [AllowedRun]
  | cons x xs ih => simp [AllowedRun, ih, and_assoc]

theorem AllowedRun.split {log pre post : List α} {x : α}
    (h : AllowedRun Allowed log (pre ++ x :: post)) : Allowed (log ++ pre) x :=
  (allowedRun_append.mp h).2.1

theorem AllowedRun.invariant {P : List α → Prop} {log pre : List α} (h : AllowedRun Allowed log xs)
    (hpre : pre <+: xs) (hlog : P log) (hstep : ∀ log x, P log → Allowed log x → P (log ++ [x])) :
    P (log ++ pre) := by
  obtain ⟨post, rfl⟩ := hpre
  have hrun := (allowedRun_append.mp h).1
  clear h
  induction pre generalizing log with
  | nil => simpa using hlog
  | cons x pre ih =>
    rw [append_cons]
    exact ih (hstep log x hlog hrun.1) hrun.2

/-- a run on top of `front` under a rule that only looks at the whole log -/
theorem AllowedRun.shift {A B : List α → α → Prop} {front log : List α} (h : AllowedRun A log xs)
    (hAB : ∀ log x, A log x → B (front ++ log) x) :
    AllowedRun B (front ++ log) xs := by
  induction xs generalizing log with
  | nil => trivial
  | cons x xs ih =>
    refine ⟨hAB log x h.1, ?_⟩
    rw [append_assoc]
    exact ih h.2

theorem foldlM_eq_ok_iff {view : List α → β}
    (hstep : ∀ log x b, step (view log) x = .ok b ↔ Allowed log x ∧ b = view (log ++ [x]))
    (log xs : List α) (b : β) :
    xs.foldlM step (view log) = .ok b ↔ AllowedRun Allowed log xs ∧ b = view (log ++ xs) := by
  induction xs generalizing log with
  | nil =>
    constructor
    · intro h
      exact ⟨trivial, by simpa using (Except.ok.inj h).symm⟩
    · rintro ⟨-, rfl⟩
      rw [append_nil]
      rfl
  | cons x xs ih =>
    rw [foldlM_cons]
    constructor
    · intro h
      obtain ⟨b', hb', h⟩ := bind_eq_ok.mp h
      obtain ⟨hx, rfl⟩ := (hstep _ _ _).mp hb'
      obtain ⟨hxs, rfl⟩ := (ih _).mp h
      exact ⟨⟨hx, hxs⟩, by simp⟩
    · rintro ⟨⟨hx, hxs⟩, rfl⟩
      refine bind_eq_ok.mpr ⟨_, (hstep _ _ _).mpr ⟨hx, rfl⟩, (ih _).mpr ⟨hxs, ?_⟩⟩
      simp

theorem foldlM_preserves {P : β → Prop} (hstep : ∀ b x b', x ∈ xs → P b → step b x = .ok b' → P b')
    {b' : β} (hb : P b) (h : xs.foldlM step b = .ok b') : P b' := by
  induction xs generalizing b with
  | nil =>
    obtain rfl := Except.ok.inj h
    exact hb
  | cons x xs ih =>
    rw [foldlM_cons] at h
    obtain ⟨b₁, hb₁, h⟩ := bind_eq_ok.mp h
    refine ih (fun b x b' hx => hstep b x b' (mem_cons_of_mem _ hx)) ?_ h
    exact hstep b x b₁ mem_cons_self hb hb₁

/-- **Simulation of a loop.**  A second loop over related items that follows every step the first one
takes also follows the whole loop. -/
theorem foldlM_simulates {α' β' ε' : Type} {step' : β' → α' → Except ε' β'} {R : α → α' → Prop}
    (view : β → β') {ys : List α'} (hxy : List.Forall₂ R xs ys)
    (hstep : ∀ b b' x y, R x y → step b x = .ok b' → step' (view b) y = .ok (view b')) {b' : β}
    (h : xs.foldlM step b = .ok b') : ys.foldlM step' (view b) = .ok (view b') := by
  induction hxy generalizing b with
  | nil =>
    obtain rfl := Except.ok.inj h
    rfl
  | cons hx _ ih =>
    rw [foldlM_cons] at h ⊢
    obtain ⟨b₁, hb₁, h⟩ := bind_eq_ok.mp h
    exact bind_eq_ok.mpr ⟨_, hstep _ _ _ _ hx hb₁, ih h⟩

end Checked
