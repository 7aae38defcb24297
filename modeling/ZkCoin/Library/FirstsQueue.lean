import Mathlib.Data.List.Nodup

/-!
# Queues with repeated entries

A queue that gets an entry again does not move it.  What counts is the first occurrence of each entry:
taking an entry out of all its places takes it out of the list of firsts, and the front of the queue is
the front of that list.

* `firsts`            — each entry of a queue once, in the order of the first occurrences.
* `firsts_concat`     — one more entry at the end.
* `firsts_filter`     — entries taken out.
* `length_eq_firsts`  — any other list of the entries without repetition is as long.
-/

namespace FirstsQueue

variable {α : Type} [DecidableEq α]

def firsts : List α → List α
  | [] => []
  | x :: q => x :: (firsts q).filter (· ≠ x)

@[simp] theorem mem_firsts {q : List α} {y : α} : y ∈ firsts q ↔ y ∈ q := by
  induction q with
  | nil => exact Iff.rfl
  | cons x q ih =>
    rw [firsts, List.mem_cons, List.mem_cons, List.mem_filter, ih, decide_eq_true_eq]
    by_cases hy : y = x
    · exact iff_of_true (.inl hy) (.inl hy)
    · rw [and_iff_left hy]

theorem firsts_nodup (q : List α) : (firsts q).Nodup := by
  induction q with
  | nil => exact List.nodup_nil
  | cons x q ih =>
    refine List.nodup_cons.mpr ⟨?_, ih.filter _⟩
    intro hx
    exact of_decide_eq_true (List.mem_filter.mp hx).2 rfl

theorem firsts_concat (q : List α) (y : α) :
    firsts (q ++ [y]) = if y ∈ q then firsts q else firsts q ++ [y] := by
  induction q with
  | nil => rfl
  | cons x q ih =>
    rw [List.cons_append, firsts, ih]
    by_cases hq : y ∈ q
    · rw [if_pos hq, if_pos (List.mem_cons_of_mem x hq)]
      rfl
    · rw [if_neg hq, List.filter_append]
      by_cases hyx : y = x
      · rw [if_pos (List.mem_cons.mpr (.inl hyx)), List.filter_cons_of_neg (by simpa using hyx),
          List.filter_nil, List.append_nil]
        rfl
      · rw [if_neg (by simp [hq, hyx]), List.filter_cons_of_pos (by simpa using hyx), List.filter_nil]
        rfl

theorem firsts_filter (p : α → Bool) (q : List α) : firsts (q.filter p) = (firsts q).filter p := by
  induction q with
  | nil => rfl
  | cons x q ih =>
    by_cases hx : p x = true
    · rw [List.filter_cons_of_pos hx, firsts, ih, firsts, List.filter_cons_of_pos hx,
        List.filter_filter, List.filter_filter]
      congr 1
      refine List.filter_congr ?_
      intro y _
      exact Bool.and_comm _ _
    · rw [List.filter_cons_of_neg hx, ih, firsts, List.filter_cons_of_neg hx, List.filter_filter]
      refine List.filter_congr ?_
      intro y _
      by_cases hy : p y = true
      · have hne : y ≠ x := by
          rintro rfl
          exact hx hy
        rw [hy, decide_eq_true hne]
        rfl
      · rw [Bool.eq_false_iff.mpr hy]
        rfl

theorem firsts_drop_front (x : α) (q : List α) :
    firsts ((x :: q).filter (· ≠ x)) = (firsts (x :: q)).tail := by
  rw [firsts_filter, firsts, List.filter_cons_of_neg (by simp), List.filter_filter, List.tail_cons]
  refine List.filter_congr ?_
  intro y _
  exact Bool.and_self _

theorem length_eq_firsts {q keys : List α} (hkeys : keys.Nodup) (h : ∀ y, y ∈ q ↔ y ∈ keys) :
    keys.length = (firsts q).length := by
  refine List.Perm.length_eq ((List.perm_ext_iff_of_nodup hkeys (firsts_nodup q)).mpr ?_)
  intro y
  rw [mem_firsts, h]

end FirstsQueue
