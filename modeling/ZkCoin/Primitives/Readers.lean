import Mathlib.Tactic.Positivity
import ZkCoin.Primitives.Serialize

/-!
# Readers of composed data

A reader takes a value off the front of a stream.  It may give back less than was written, so what is
asked of it is that it reads every written value as its image under a map.

* `ReadsAs`                  — reading after writing.
* `readFixed`, `readInt`, `readByteVector`, `readVector` — readers, with their laws.
-/

open Bytes

namespace Serialize

/-- every good value is read as its image under `g`, whatever follows it -/
def ReadsAs {α β : Type} (ok : α → Prop) (g : α → β) (ser : α → Bytes)
    (read : Bytes → Option (β × Bytes)) : Prop :=
  ∀ a rest, ok a → read (ser a ++ rest) = some (g a, rest)

/-! ## fields -/

def readByte : Bytes → Option (UInt8 × Bytes)
  | [] => none
  | b :: s => some (b, s)

theorem readByte_cons (b : UInt8) (s : Bytes) : readByte (b :: s) = some (b, s) := rfl

def readFixed (n : Nat) (s : Bytes) : Option (FixedBytes n × Bytes) :=
  if h : n ≤ s.length then some (⟨s.take n, by simpa using h⟩, s.drop n) else none

theorem readFixed_data {n : Nat} (b : FixedBytes n) (rest : Bytes) :
    readFixed n (b.data ++ rest) = some (b, rest) := by
  have hlen : n ≤ (b.data ++ rest).length := by simp
  rw [readFixed, dif_pos hlen]
  simp only [Option.some.injEq, Prod.mk.injEq]
  refine ⟨?_, ?_⟩
  · have htake : (b.data ++ rest).take n = b.data := by
      rw [List.take_append_of_le_length (by simp), List.take_of_length_le (by simp)]
    cases b
    simp_all
  · rw [List.drop_append_of_le_length (by simp), List.drop_of_length_le (by simp)]
    rfl

def readUint256 (s : Bytes) : Option (Uint256 × Bytes) :=
  if h : 32 ≤ s.length then some (⟨s.take 32, by simpa using h⟩, s.drop 32) else none

theorem readUint256_append (hash : Uint256) (rest : Bytes) :
    readUint256 (hash.data ++ rest) = some (hash, rest) := by
  have hlen := hash.data_length
  rw [readUint256, dif_pos (by rw [List.length_append]; omega)]
  congr 2
  · apply Uint256.data_inj
    exact List.take_left' hlen
  · exact List.drop_left' hlen

/-- a field that is there only under a condition, and else has its default -/
def readWhen {α : Type} (c : Bool) (default : α) (read : Bytes → Option (α × Bytes)) (s : Bytes) :
    Option (α × Bytes) :=
  if c then read s else some (default, s)

theorem readWhen_append {α : Type} {c : Bool} {default a : α} {read : Bytes → Option (α × Bytes)}
    {bs rest : Bytes} (hthere : read (bs ++ rest) = some (a, rest)) (hnot : c = false → a = default) :
    readWhen c default read ((if c then bs else []) ++ rest) = some (a, rest) := by
  unfold readWhen
  cases c with
  | true => exact hthere
  | false => rw [hnot rfl]; rfl

/-- a signed integer of `n` bytes -/
def readInt (n : Nat) (s : Bytes) : Option (Int × Bytes) :=
  (readLe n s).map fun (v, rest) => (if 2 * v < 256 ^ n then (v : Int) else v - 256 ^ n, rest)

theorem readInt_intBytes {n : Nat} {v : Int} (h : IntFits n v) (rest : Bytes) :
    readInt n (intBytes n v ++ rest) = some (v, rest) := by
  have hpos : (0 : Int) < 256 ^ n := by positivity
  have hcast : (((256 : Nat) ^ n : Nat) : Int) = (256 : Int) ^ n := by push_cast; rfl
  have hlt : (v % 256 ^ n).toNat < 256 ^ n := by
    rw [Int.toNat_lt (Int.emod_nonneg v hpos.ne'), hcast]
    exact Int.emod_lt_of_pos v hpos
  have hnat : (((v % 256 ^ n).toNat : Nat) : Int) = v % 256 ^ n :=
    Int.toNat_of_nonneg (Int.emod_nonneg v hpos.ne')
  rw [readInt, intBytes, readLe_leBytes hlt]
  show some (_, rest) = _
  congr 2
  obtain ⟨hlow, hhigh⟩ := h
  rcases Int.lt_or_le v 0 with hneg | hnonneg
  · have hmod : v % 256 ^ n = v + 256 ^ n := by
      rw [← Int.add_emod_right]
      exact Int.emod_eq_of_lt (by omega) (by omega)
    rw [if_neg (by omega), hnat, hmod]
    omega
  · have hmod : v % 256 ^ n = v := Int.emod_eq_of_lt hnonneg (by omega)
    rw [if_pos (by omega), hnat, hmod]

/-! ## vectors -/

def readByteVector (s : Bytes) : Option (Bytes × Bytes) := do
  let (nSize, s) ← readCompactSize true s
  readBytes nSize s

/-- `n` values, one after the other -/
def readMany {α : Type} (read : Bytes → Option (α × Bytes)) : Nat → Bytes → Option (List α × Bytes)
  | 0, s => some ([], s)
  | n + 1, s => do
    let (x, s) ← read s
    let (xs, s) ← readMany read n s
    some (x :: xs, s)

def readVector {α : Type} (read : Bytes → Option (α × Bytes)) (s : Bytes) :
    Option (List α × Bytes) := do
  let (nSize, s) ← readCompactSize true s
  readMany read nSize s

theorem readByteVector_byteVector {bs : Bytes} (h : bs.length ≤ maxSize) (rest : Bytes) :
    readByteVector (byteVector bs ++ rest) = some (bs, rest) := by
  rw [byteVector, List.append_assoc, readByteVector,
    readCompactSize_of_le (by unfold maxSize at h; omega) fun _ => h]
  exact readBytes_append bs rest

theorem ReadsAs.many {α β : Type} {ok : α → Prop} {g : α → β} {ser : α → Bytes}
    {read : Bytes → Option (β × Bytes)} (h : ReadsAs ok g ser read) {xs : List α}
    (hxs : ∀ x ∈ xs, ok x) (rest : Bytes) :
    readMany read xs.length (xs.flatMap ser ++ rest) = some (xs.map g, rest) := by
  induction xs with
  | nil => rfl
  | cons x xs ih =>
    rw [List.forall_mem_cons] at hxs
    rw [List.flatMap_cons, List.append_assoc, List.length_cons, readMany, h x _ hxs.1]
    show (readMany read xs.length (xs.flatMap ser ++ rest) >>= _) = _
    rw [ih hxs.2]
    rfl

theorem ReadsAs.vector {α β : Type} {ok : α → Prop} {g : α → β} {ser : α → Bytes}
    {read : Bytes → Option (β × Bytes)} (h : ReadsAs ok g ser read) :
    ReadsAs (fun xs : List α => xs.length ≤ maxSize ∧ ∀ x ∈ xs, ok x) (List.map g)
      (Serialize.vector ser) (readVector read) := by
  intro xs rest hxs
  rw [Serialize.vector, List.append_assoc, readVector,
    readCompactSize_of_le (by have := hxs.1; unfold maxSize at this; omega) fun _ => hxs.1]
  exact h.many hxs.2 rest

end Serialize
