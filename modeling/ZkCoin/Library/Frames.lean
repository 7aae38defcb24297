import ZkCoin.Library.Bytes

/-!
# Frames: a header, a 32-bit length and a body

A decoder of a frame checks its header field by field, reads the length and asks that nothing follows
the body.  Such a check accepts exactly the frames that a builder writes for bodies shorter than
`2 ^ 32`.

* `append_prefix_iff`   — a header of several fields, checked one after the other.
* `frame`, `frame_iff`  — the layout and its check.
* `frame_prefix`        — of two frames that start alike none is a part of the other.
-/

namespace Bytes

/-! ## headers -/

theorem append_prefix_iff {a b bs : Bytes} : a ++ b <+: bs ↔ a <+: bs ∧ b <+: bs.drop a.length := by
  constructor
  · rintro ⟨rest, rfl⟩
    rw [List.append_assoc, List.drop_left]
    exact ⟨List.prefix_append _ _, List.prefix_append _ _⟩
  · rintro ⟨⟨rest, rfl⟩, hb⟩
    rw [List.drop_left] at hb
    obtain ⟨rest', rfl⟩ := hb
    exact ⟨rest', List.append_assoc _ _ _⟩

theorem singleton_prefix_drop_iff {x : UInt8} {bs : Bytes} {i : Nat} :
    [x] <+: bs.drop i ↔ bs[i]? = some x := by
  rw [← List.head?_drop, List.head?_eq_some_iff]
  constructor
  · rintro ⟨rest, hrest⟩
    exact ⟨rest, hrest.symm⟩
  · rintro ⟨rest, hrest⟩
    exact ⟨rest, hrest.symm⟩

theorem prefix_drop_iff_slice {a bs : Bytes} {i : Nat} :
    a <+: bs.drop i ↔ slice bs i (i + a.length) = a := by
  rw [slice, Nat.add_sub_cancel_left, List.prefix_iff_eq_take]
  exact eq_comm

theorem leBytes_prefix_drop_iff {bs : Bytes} {n k v : Nat} (hroom : n + k ≤ bs.length)
    (hv : v < 256 ^ k) : leBytes k v <+: bs.drop n ↔ leNat (slice bs n (n + k)) = v := by
  have hlen : (slice bs n (n + k)).length = k := by
    rw [slice_length hroom]
    omega
  rw [prefix_drop_iff_slice, leBytes_length]
  constructor
  · intro h
    rw [h, leNat_leBytes_of_lt hv]
  · intro h
    have hread := leBytes_leNat (slice bs n (n + k))
    rw [hlen, h] at hread
    exact hread.symm

/-! ## frames -/

def frame (header body : Bytes) : Bytes := header ++ (leBytes 4 body.length ++ body)

@[simp] theorem length_frame (header body : Bytes) :
    (frame header body).length = header.length + 4 + body.length := by
  simp [frame, Nat.add_assoc]

/-- **The check of a frame.**  Room for the header, the header, and a length field that says how much
follows. -/
theorem frame_iff {header bs body : Bytes} {n : Nat} (hn : header.length = n) :
    bs = frame header body ∧ body.length < 2 ^ 32 ↔
      n + 4 ≤ bs.length ∧ header <+: bs ∧ leNat (slice bs n (n + 4)) = bs.length - (n + 4) ∧
        bs.drop (n + 4) = body := by
  subst hn
  constructor
  · rintro ⟨rfl, hlt⟩
    refine ⟨by simp, List.prefix_append _ _, ?_, ?_⟩
    · rw [frame, slice_append_of_le (Nat.le_refl _), Nat.sub_self, Nat.add_sub_cancel_left,
        slice_append_exact (by simp), leNat_leBytes_of_lt (by simpa using hlt)]
      simp
      omega
    · rw [frame, ← List.append_assoc]
      exact List.drop_left' (by simp)
  · rintro ⟨hroom, hheader, hlen, rfl⟩
    have hslice : (slice bs header.length (header.length + 4)).length = 4 := by
      rw [slice_length hroom]
      omega
    have hfield : slice bs header.length (header.length + 4) =
        leBytes 4 (bs.drop (header.length + 4)).length := by
      rw [List.length_drop, ← hlen]
      conv_lhs => rw [← leBytes_leNat (slice bs header.length (header.length + 4)), hslice]
    refine ⟨?_, ?_⟩
    · rw [frame, ← hfield]
      nth_rewrite 1 [List.prefix_iff_eq_take.mp hheader]
      exact (take_slice_drop bs (Nat.le_add_right _ _)).symm
    · have hlt := leNat_lt (slice bs header.length (header.length + 4))
      rw [hslice, hlen] at hlt
      rw [List.length_drop]
      exact hlt

theorem frame_inj {header header' body body' : Bytes} (hlen : header.length = header'.length)
    (h : frame header body = frame header' body') : header = header' ∧ body = body' := by
  obtain ⟨hheader, hrest⟩ := List.append_inj h hlen
  obtain ⟨-, hbody⟩ := List.append_inj hrest (by simp)
  exact ⟨hheader, hbody⟩

/-- a frame inside a frame with a header of the same length is the whole frame -/
theorem frame_prefix {header header' body body' : Bytes} (hlen : header.length = header'.length)
    (hbody : body.length < 2 ^ 32) (hbody' : body'.length < 2 ^ 32)
    (h : frame header body <+: frame header' body') : frame header body = frame header' body' := by
  refine h.eq_of_length ?_
  obtain ⟨rest, hrest⟩ := h
  rw [frame, frame, List.append_assoc] at hrest
  obtain ⟨-, hrest⟩ := List.append_inj hrest hlen
  rw [List.append_assoc] at hrest
  obtain ⟨hfield, -⟩ := List.append_inj hrest (by simp)
  have hsize := leBytes_inj (by simpa using hbody) (by simpa using hbody') hfield
  rw [length_frame, length_frame, hlen, hsize]

end Bytes
