import ZkCoin.Library.Bytes

/-!
# Code on machine sizes that must not panic

A function with early `return None` whose every index, slice and sum on sizes may panic.  A run ends
with a value, with `None` or with a panic; a run that equals `ofOption` of a total function never
panics and computes that function.

* `Stop`                        — how a run ends without a value.
* `add`, `mul`, `sub`           — arithmetic that panics outside `0 .. limit`.
* `checkedAdd`, `checkedMul`    — arithmetic that returns `None` there.
* `index`, `sliceOf`            — reads that panic outside the bytes.
* `ofOption_bind`, `ofOption_guard`, `mapM_ofOption` — a total function, step by step.
-/

namespace Usize

inductive Stop
  | returnNone
  | panic
  deriving DecidableEq, Repr

variable {α β : Type}

/-- `x?` -/
def ofOption : Option α → Except Stop α
  | none => .error .returnNone
  | some a => .ok a

/-- `if !p { return None; }` -/
def ensure (p : Prop) [Decidable p] : Except Stop Unit :=
  if p then .ok () else .error .returnNone

section
variable (limit : Nat)

def add (a b : Nat) : Except Stop Nat := if a + b ≤ limit then .ok (a + b) else .error .panic

def mul (a b : Nat) : Except Stop Nat := if a * b ≤ limit then .ok (a * b) else .error .panic

def sub (a b : Nat) : Except Stop Nat := if b ≤ a then .ok (a - b) else .error .panic

def checkedAdd (a b : Nat) : Except Stop Nat :=
  if a + b ≤ limit then .ok (a + b) else .error .returnNone

def checkedMul (a b : Nat) : Except Stop Nat :=
  if a * b ≤ limit then .ok (a * b) else .error .returnNone

/-- `Vec::with_capacity(n)` for items of `size` bytes: half of the address space is the most -/
def withCapacity (n size : Nat) : Except Stop Unit :=
  if n * size ≤ limit / 2 then .ok () else .error .panic

end

/-- `xs[i]` -/
def index (xs : List α) (i : Nat) : Except Stop α :=
  match xs[i]? with
  | some x => .ok x
  | none => .error .panic

/-- `&bs[i..j]` -/
def sliceOf (bs : Bytes) (i j : Nat) : Except Stop Bytes :=
  if i ≤ j ∧ j ≤ bs.length then .ok (bs.slice i j) else .error .panic

/-! ## steps that do not panic -/

@[simp] theorem ok_bind (a : α) (f : α → Except Stop β) : (Except.ok a >>= f) = f a := rfl

@[simp] theorem error_bind (s : Stop) (f : α → Except Stop β) :
    ((Except.error s : Except Stop α) >>= f) = .error s := rfl

section
variable {limit a b i j : Nat}

theorem add_eq (h : a + b ≤ limit) : add limit a b = .ok (a + b) := if_pos h

theorem mul_eq (h : a * b ≤ limit) : mul limit a b = .ok (a * b) := if_pos h

theorem sub_eq (h : b ≤ a) : sub a b = .ok (a - b) := if_pos h

theorem withCapacity_eq (h : a * b ≤ limit / 2) : withCapacity limit a b = .ok () := if_pos h

theorem sliceOf_eq {bs : Bytes} (hij : i ≤ j) (hj : j ≤ bs.length) :
    sliceOf bs i j = .ok (bs.slice i j) := if_pos ⟨hij, hj⟩

theorem index_eq {xs : List α} (h : i < xs.length) : index xs i = ofOption xs[i]? := by
  rw [index, List.getElem?_eq_getElem h]
  rfl

end

/-! ## a total function, step by step -/

theorem ofOption_some (a : α) : ofOption (some a) = .ok a := rfl

theorem ofOption_bind (x : Option α) (f : α → Option β) :
    ofOption (x.bind f) = ofOption x >>= fun a => ofOption (f a) := by
  cases x <;> rfl

theorem ofOption_guard (p : Prop) [Decidable p] : ofOption (guard p : Option Unit) = ensure p := by
  by_cases h : p <;> simp [guard, ensure, ofOption, h]

theorem ensure_of {p : Prop} [Decidable p] (h : p) : ensure p = .ok () := if_pos h

theorem ensure_of_not {p : Prop} [Decidable p] (h : ¬ p) : ensure p = .error .returnNone := if_neg h

theorem ensure_bind_congr {p : Prop} [Decidable p] {f g : Unit → Except Stop α}
    (h : p → f () = g ()) : (ensure p >>= f) = (ensure p >>= g) := by
  by_cases hp : p
  · rw [ensure_of hp, ok_bind, ok_bind, h hp]
  · rw [ensure_of_not hp, error_bind, error_bind]

theorem ofOption_bind_congr {x : Option α} {f g : α → Except Stop β}
    (h : ∀ a, x = some a → f a = g a) : (ofOption x >>= f) = (ofOption x >>= g) := by
  cases x with
  | none => rfl
  | some a => exact h a rfl

theorem mapM_ofOption {f : α → Except Stop β} {g : α → Option β} {xs : List α}
    (h : ∀ x ∈ xs, f x = ofOption (g x)) : xs.mapM f = ofOption (xs.mapM g) := by
  induction xs with
  | nil => rfl
  | cons x xs ih =>
    rw [List.mapM_cons, List.mapM_cons, h x List.mem_cons_self,
      ih fun y hy => h y (List.mem_cons_of_mem x hy), Option.bind_eq_bind, ofOption_bind]
    refine ofOption_bind_congr fun y _ => ?_
    rw [Option.bind_eq_bind, ofOption_bind]
    rfl

end Usize
