import ZkCoin.Library.Bytes
import ZkCoin.Library.Checked

/-!
# DNS seeds of a launch profile

`DnsSeedShapeValid` reads a host name once, character by character.  It closes a label at each dot,
after a look at the characters on both sides of it.  Every read is checked here against the end of the
string.

* `dnsSeedStep`, `dnsSeedShapeValid` — the loop and the function.
* `DnsSeed`                          — the grammar.
* `dnsSeedLoop_labels`               — the loop accepts the labels one by one.
* `dnsSeedShapeValid_eq`             — the function decides the grammar and reads inside the string.
-/

open Bytes

namespace LaunchProfile

def literal (s : String) : Bytes := s.toList.map fun c => UInt8.ofNat c.toNat

def isAlpha (c : UInt8) : Bool := decide (c ≥ 0x61) && decide (c ≤ 0x7a)

def isLabelChar (c : UInt8) : Bool := isAlpha c || (decide (c ≥ 0x30) && decide (c ≤ 0x39)) || c == 0x2d

def dot : UInt8 := 0x2e

def hyphen : UInt8 := 0x2d

def reservedDnsSeedSuffixes : List Bytes :=
  [literal "example", literal "invalid", literal "local", literal "localhost", literal "test"]

/-- `ReservedDnsSeedSuffix` -/
def reservedDnsSeedSuffix (suffix : Bytes) : Bool := reservedDnsSeedSuffixes.contains suffix

/-! ## the function -/

/-- the ways to leave early: `return false`, or a read outside the string -/
inductive Exit
  | rejected
  | outside
  deriving DecidableEq

/-- `seed[i]` -/
def charAt (seed : Bytes) (i : Nat) : Except Exit UInt8 :=
  match seed[i]? with
  | some c => .ok c
  | none => .error .outside

/-- `seed.substr(i)` -/
def substr (seed : Bytes) (i : Nat) : Except Exit Bytes :=
  if i > seed.length then .error .outside else .ok (seed.drop i)

structure LabelState where
  labelCount : Nat
  labelLength : Nat
  finalLabelStart : Nat
  finalLabelHasAlpha : Bool

/-- a dot: the label before it has to end well and the one after it to begin well -/
def closeLabel (seed : Bytes) (st : LabelState) (i : Nat) : Except Exit LabelState := do
  if st.labelLength = 0 then .error .rejected
  else
    let before ← charAt seed (i - 1)
    if before = hyphen then .error .rejected
    else
      let after ← charAt seed (i + 1)
      if after = hyphen then .error .rejected
      else
        let after ← charAt seed (i + 1)
        if after = dot then .error .rejected
        else .ok ⟨st.labelCount + 1, 0, i + 1, false⟩

def dnsSeedStep (seed : Bytes) (st : LabelState) (i : Nat) : Except Exit LabelState := do
  let c ← charAt seed i
  if isLabelChar c then
    if st.labelLength + 1 > 63 then .error .rejected
    else .ok { st with
      labelLength := st.labelLength + 1
      finalLabelHasAlpha := if isAlpha c then true else st.finalLabelHasAlpha }
  else if c = dot then closeLabel seed st i
  else .error .rejected

/-- the checks before the loop; the characters are read only when the string has some -/
def checkEnds (seed : Bytes) : Except Exit Unit := do
  if seed.isEmpty ∨ seed.length > 253 then .error .rejected
  else
    let front ← charAt seed 0
    if front = hyphen ∨ front = dot then .error .rejected
    else
      let back ← charAt seed (seed.length - 1)
      if back = hyphen ∨ back = dot then .error .rejected else .ok ()

def dnsSeedRun (seed : Bytes) : Except Exit Bool := do
  checkEnds seed
  let st ← (List.range seed.length).foldlM (dnsSeedStep seed) ⟨1, 0, 0, false⟩
  if st.labelCount < 2 ∨ !st.finalLabelHasAlpha then .ok false
  else
    let suffix ← substr seed st.finalLabelStart
    .ok (!reservedDnsSeedSuffix suffix)

/-- `DnsSeedShapeValid`; `none` stands for a read outside the string -/
def dnsSeedShapeValid (seed : Bytes) : Option Bool :=
  match dnsSeedRun seed with
  | .ok valid => some valid
  | .error .rejected => some false
  | .error .outside => none

/-! ## the grammar -/

structure Label (label : Bytes) : Prop where
  nonempty : 1 ≤ label.length
  length_le : label.length ≤ 63
  chars : ∀ c ∈ label, isLabelChar c = true
  head_ne : label.head? ≠ some hyphen
  last_ne : label.getLast? ≠ some hyphen

structure DnsSeed (seed : Bytes) : Prop where
  length_le : seed.length ≤ 253
  labels : ∃ labels last, seed = [dot].intercalate (labels ++ [last]) ∧ labels ≠ [] ∧
    (∀ label ∈ labels, Label label) ∧ Label last ∧ (∃ c ∈ last, isAlpha c = true) ∧
    last ∉ reservedDnsSeedSuffixes

/-! ## one label -/

def dnsSeedLoop (seed : Bytes) (st : LabelState) (i n : Nat) : Except Exit LabelState :=
  (List.range' i n).foldlM (dnsSeedStep seed) st

/-- the state once `current` has been read of a label, the earlier text being `before` -/
def stateAt (count : Nat) (before current : Bytes) : LabelState :=
  ⟨count, current.length, before.length, current.any isAlpha⟩

def LabelChars (label : Bytes) : Prop := (∀ c ∈ label, isLabelChar c = true) ∧ label.length ≤ 63

instance (label : Bytes) : Decidable (LabelChars label) :=
  inferInstanceAs (Decidable (_ ∧ _))

theorem LabelChars.of_append {label rest : Bytes} (h : LabelChars (label ++ rest)) : LabelChars label := by
  have hlen := h.2
  rw [List.length_append] at hlen
  exact ⟨fun c hc => h.1 c (List.mem_append_left _ hc), by omega⟩

theorem labelChars_snoc {label : Bytes} {c : UInt8} (h : LabelChars label) :
    LabelChars (label ++ [c]) ↔ isLabelChar c = true ∧ ¬ label.length + 1 > 63 := by
  rw [LabelChars, List.length_append, List.length_singleton, List.forall_mem_append,
    List.forall_mem_singleton, not_lt]
  exact and_congr_left fun _ => and_iff_right h.1

theorem labelChars_of_label {label : Bytes} (h : Label label) : LabelChars label := ⟨h.chars, h.length_le⟩

section
variable {seed : Bytes} {st : LabelState}

theorem dnsSeedLoop_add (i m n : Nat) : dnsSeedLoop seed st i (m + n) =
    dnsSeedLoop seed st i m >>= fun st => dnsSeedLoop seed st (i + m) n := by
  rw [dnsSeedLoop, ← List.range'_append_1, List.foldlM_append]
  rfl

theorem dnsSeedLoop_succ (i n : Nat) : dnsSeedLoop seed st i (n + 1) =
    dnsSeedStep seed st i >>= fun st => dnsSeedLoop seed st (i + 1) n := by
  rw [dnsSeedLoop, List.range'_succ, List.foldlM_cons]
  rfl

theorem charAt_append (a b : Bytes) (k : Nat) : charAt (a ++ b) (a.length + k) = charAt b k := by
  rw [charAt, List.getElem?_append_right (Nat.le_add_right _ _), Nat.add_sub_cancel_left]
  rfl

variable {before current rest : Bytes} {count : Nat}

theorem dnsSeedStep_char {c : UInt8} (hseed : seed = before ++ current ++ c :: rest) (hc : c ≠ dot)
    (h : LabelChars current) :
    dnsSeedStep seed (stateAt count before current) (before ++ current).length =
      if LabelChars (current ++ [c]) then .ok (stateAt count before (current ++ [c]))
      else .error .rejected := by
  have hread : charAt seed (before ++ current).length = .ok c := by
    rw [hseed]
    exact charAt_append _ _ 0
  rw [dnsSeedStep, hread]
  show (if isLabelChar c then if current.length + 1 > 63 then _ else _ else if c = dot then _ else _) = _
  have hiff := labelChars_snoc (c := c) h
  by_cases hchar : isLabelChar c = true
  · by_cases hlen : current.length + 1 > 63
    · rw [if_pos hchar, if_pos hlen, if_neg fun hok => (hiff.mp hok).2 hlen]
    · rw [if_pos hchar, if_neg hlen, if_pos (hiff.mpr ⟨hchar, hlen⟩), stateAt, stateAt,
        List.length_append, List.any_append, Bool.or_comm, List.any_cons, List.any_nil, Bool.or_false]
      cases isAlpha c <;> rfl
  · rw [if_neg hchar, if_neg hc, if_neg fun hok => hchar (hiff.mp hok).1]

theorem dnsSeedLoop_chars (label : Bytes) (hseed : seed = before ++ current ++ (label ++ rest))
    (hdot : dot ∉ label) (h : LabelChars current) :
    dnsSeedLoop seed (stateAt count before current) (before ++ current).length label.length =
      if LabelChars (current ++ label) then .ok (stateAt count before (current ++ label))
      else .error .rejected := by
  induction label generalizing current with
  | nil =>
    rw [List.append_nil, if_pos h]
    rfl
  | cons c label ih =>
    rw [List.mem_cons, not_or] at hdot
    have hnext : (before ++ current).length + 1 = (before ++ (current ++ [c])).length := by
      simp [Nat.add_assoc]
    rw [List.length_cons, dnsSeedLoop_succ, dnsSeedStep_char hseed (Ne.symm hdot.1) h, hnext,
      List.append_cons current c label]
    by_cases hok : LabelChars (current ++ [c])
    · rw [if_pos hok]
      refine ih ?_ hdot.2 hok
      rw [hseed, ← List.append_assoc before, List.append_assoc (before ++ current)]
      rfl
    · rw [if_neg hok, if_neg fun h => hok h.of_append]
      rfl

/-- **One label.** -/
theorem dnsSeedLoop_label {label : Bytes} (hseed : seed = before ++ (label ++ rest)) (hdot : dot ∉ label)
    (count : Nat) : dnsSeedLoop seed (stateAt count before []) before.length label.length =
      if LabelChars label then .ok (stateAt count before label) else .error .rejected := by
  have hrun := @dnsSeedLoop_chars seed before [] rest count label (by rwa [List.append_nil]) hdot
    ⟨nofun, Nat.zero_le _⟩
  rwa [List.append_nil] at hrun

theorem dnsSeedStep_dot {b d : UInt8}
    (hseed : seed = before ++ current ++ (b :: dot :: d :: rest)) :
    dnsSeedStep seed (stateAt count before (current ++ [b])) ((before ++ current).length + 1) =
      if b = hyphen ∨ d = hyphen ∨ d = dot then .error .rejected
      else .ok (stateAt (count + 1) (before ++ current ++ [b, dot]) []) := by
  have hread : ∀ k, charAt seed ((before ++ current).length + k) = charAt (b :: dot :: d :: rest) k := by
    intro k
    rw [hseed, charAt_append]
  have hbefore : charAt seed (before ++ current).length = .ok b := hread 0
  have hpos : (stateAt count before (current ++ [b])).labelLength ≠ 0 := by
    show (current ++ [b]).length ≠ 0
    rw [List.length_append]
    exact Nat.succ_ne_zero _
  rw [dnsSeedStep, hread]
  show closeLabel seed _ _ = _
  rw [closeLabel, if_neg hpos, Nat.add_sub_cancel, hbefore, Nat.add_assoc, hread]
  show (if b = hyphen then _ else if d = hyphen then _ else if d = dot then _ else _) = _
  by_cases hb : b = hyphen
  · rw [if_pos hb, if_pos (.inl hb)]
  · by_cases hd : d = hyphen
    · rw [if_neg hb, if_pos hd, if_pos (.inr (.inl hd))]
    · by_cases hdot : d = dot
      · rw [if_neg hb, if_neg hd, if_pos hdot, if_pos (.inr (.inr hdot))]
      · rw [if_neg hb, if_neg hd, if_neg hdot, if_neg (by simp [hb, hd, hdot]), stateAt, stateAt,
          @List.length_append _ (before ++ current)]
        rfl

end

/-! ## all labels -/

/-- no hyphen and no dot: what the characters at the ends of the string and around dots have to be -/
def Inner (c : Option UInt8) : Prop := c ≠ none ∧ c ≠ some hyphen ∧ c ≠ some dot

theorem inner_some {c : UInt8} : Inner (some c) ↔ ¬ (c = hyphen ∨ c = dot) := by
  simp [Inner, not_or]

theorem dot_notMem {label : Bytes} (h : Label label) : dot ∉ label :=
  fun hmem => absurd (h.chars dot hmem) (by decide)

theorem Label.inner {label : Bytes} (h : Label label) : Inner label.head? ∧ Inner label.getLast? := by
  have hne : label ≠ [] := List.length_pos_iff.mp h.nonempty
  refine ⟨⟨?_, h.head_ne, ?_⟩, ?_, h.last_ne, ?_⟩
  · simpa using hne
  · exact fun hdot => dot_notMem h (List.mem_of_mem_head? hdot)
  · simpa using hne
  · exact fun hdot => dot_notMem h (List.mem_of_getLast? hdot)

theorem label_iff {label : Bytes} (hhead : Inner label.head?) :
    Label label ↔ LabelChars label ∧ label.getLast? ≠ some hyphen := by
  refine ⟨fun h => ⟨labelChars_of_label h, h.last_ne⟩, fun ⟨hchars, hlast⟩ => ?_⟩
  refine ⟨List.length_pos_iff.mpr ?_, hchars.2, hchars.1, hhead.2.1, hlast⟩
  simpa using hhead.1

theorem inner_head {label : Bytes} (labels : List Bytes) :
    Inner ([dot].intercalate (label :: labels)).head? ↔ Inner label.head? := by
  cases labels with
  | nil => rw [List.intercalate_singleton]
  | cons next labels =>
    rw [List.intercalate_cons_cons]
    cases label with
    | nil => simp [Inner]
    | cons c label => rfl

/-- **The loop.**  On a text that begins and ends well it accepts labels only, and it then knows the last
of them. -/
theorem dnsSeedLoop_labels {seed before label : Bytes} {labels : List Bytes} {count : Nat}
    (hseed : seed = before ++ [dot].intercalate (label :: labels))
    (hdots : ∀ l ∈ label :: labels, dot ∉ l) (hhead : Inner label.head?)
    (hlast : Inner ([dot].intercalate (label :: labels)).getLast?) :
    ((∀ l ∈ label :: labels, Label l) → ∃ front inits last, label :: labels = inits ++ [last] ∧
      seed = front ++ last ∧ dnsSeedLoop seed (stateAt count before []) before.length
        ([dot].intercalate (label :: labels)).length = .ok (stateAt (count + inits.length) front last)) ∧
    (¬ (∀ l ∈ label :: labels, Label l) → dnsSeedLoop seed (stateAt count before []) before.length
        ([dot].intercalate (label :: labels)).length = .error .rejected) := by
  induction labels generalizing before label count with
  | nil =>
    rw [List.intercalate_singleton] at hseed hlast ⊢
    rw [List.forall_mem_singleton] at hdots ⊢
    rw [dnsSeedLoop_label (show seed = before ++ (label ++ []) by rwa [List.append_nil]) hdots count,
      label_iff hhead, and_iff_left hlast.2.1]
    exact ⟨fun h => ⟨before, [], label, rfl, hseed, if_pos h⟩, fun h => if_neg h⟩
  | cons next labels ih =>
    rw [List.intercalate_cons_cons, List.append_assoc, List.singleton_append] at hseed hlast ⊢
    rw [List.forall_mem_cons] at hdots ⊢
    rw [List.length_append, dnsSeedLoop_add, dnsSeedLoop_label hseed hdots.1 count, label_iff hhead]
    by_cases hchars : LabelChars label
    · rw [if_pos hchars, and_iff_right hchars, List.length_cons]
      obtain ⟨current, b, rfl⟩ := (List.eq_nil_or_concat' label).resolve_left (by simpa using hhead.1)
      cases hrest : [dot].intercalate (next :: labels) with
      | nil =>
        rw [hrest, List.getLast?_append] at hlast
        exact absurd rfl hlast.2.2
      | cons d rest =>
        have hinner : Inner next.head? ↔ ¬ (d = hyphen ∨ d = dot) := by
          rw [← inner_head labels, hrest]
          exact inner_some
        rw [hrest, List.append_assoc, ← List.append_assoc before] at hseed
        have hplace : before.length + (current ++ [b]).length = (before ++ current).length + 1 := by
          rw [List.length_append, List.length_append, Nat.add_assoc]
          rfl
        show (_ → ∃ front inits last, _ ∧ _ ∧ dnsSeedLoop seed _ _ (_ + 1) = _) ∧
          (_ → dnsSeedLoop seed _ _ (_ + 1) = _)
        rw [dnsSeedLoop_succ, hplace, dnsSeedStep_dot hseed, List.getLast?_concat]
        by_cases hbad : b = hyphen ∨ d = hyphen ∨ d = dot
        · rw [if_pos hbad]
          refine ⟨?_, fun _ => rfl⟩
          intro ⟨hb, hlabels⟩
          have hnext := hinner.mp (hlabels next List.mem_cons_self).inner.1
          exact absurd (hbad.resolve_left fun h => hb (congrArg some h)) hnext
        · rw [if_neg hbad]
          rw [not_or] at hbad
          have hnext := @ih (before ++ current ++ [b, dot]) next (count + 1)
            (by rw [hseed, hrest, List.append_assoc _ [b, dot]]; rfl) hdots.2 (hinner.mpr hbad.2)
            (by
              rw [hrest] at hlast ⊢
              rwa [List.getLast?_append, List.getLast?_cons_cons, List.getLast?_cons,
                Option.some_or, ← List.getLast?_cons] at hlast)
          have hlen : (before ++ current ++ [b, dot]).length = (before ++ current).length + 1 + 1 :=
            List.length_append
          rw [hlen, hrest] at hnext
          have hb : some b ≠ some hyphen := fun h => hbad.1 (Option.some.inj h)
          rw [and_iff_right hb]
          refine ⟨?_, hnext.2⟩
          intro hlabels
          obtain ⟨front, inits, last, hsplit, hfront, hok⟩ := hnext.1 hlabels
          refine ⟨front, (current ++ [b]) :: inits, last, by rw [hsplit]; rfl, hfront, ?_⟩
          rw [Nat.add_assoc count, Nat.add_comm 1 inits.length] at hok
          exact hok
    · rw [if_neg hchars]
      exact ⟨fun h => absurd h.1.1 hchars, fun _ => rfl⟩

/-! ## the whole function -/

theorem exists_suffix (label : Bytes) (labels : List Bytes) :
    ∃ l ∈ label :: labels, l <:+ [dot].intercalate (label :: labels) := by
  induction labels generalizing label with
  | nil => exact ⟨label, List.mem_cons_self, [], List.intercalate_singleton.symm⟩
  | cons next labels ih =>
    obtain ⟨l, hl, hsuffix⟩ := ih next
    refine ⟨l, List.mem_cons_of_mem _ hl, ?_⟩
    rw [List.intercalate_cons_cons]
    exact hsuffix.trans (List.suffix_append _ _)

theorem inner_of_labels {label : Bytes} {labels : List Bytes} (h : ∀ l ∈ label :: labels, Label l) :
    Inner ([dot].intercalate (label :: labels)).head? ∧
      Inner ([dot].intercalate (label :: labels)).getLast? := by
  refine ⟨(inner_head labels).mpr (h label List.mem_cons_self).inner.1, ?_⟩
  obtain ⟨l, hl, front, heq⟩ := exists_suffix label labels
  have hinner := (h l hl).inner.2
  rw [← heq, List.getLast?_append]
  cases hlast : l.getLast? with
  | none => exact absurd hlast hinner.1
  | some c => rwa [hlast] at hinner

def EndsOk (seed : Bytes) : Prop := seed.length ≤ 253 ∧ Inner seed.head? ∧ Inner seed.getLast?

theorem checkEnds_cases (seed : Bytes) : (checkEnds seed = .ok () ∧ EndsOk seed) ∨
    (checkEnds seed = .error .rejected ∧ ¬ EndsOk seed) := by
  cases seed with
  | nil => exact .inr ⟨rfl, fun h => h.2.1.1 rfl⟩
  | cons front rest =>
    by_cases hlen : (front :: rest).length > 253
    · exact .inr ⟨if_pos (.inr hlen), fun h => absurd h.1 (not_le.mpr hlen)⟩
    · obtain ⟨init, back, hback⟩ := (List.eq_nil_or_concat' (front :: rest)).resolve_left
        (List.cons_ne_nil _ _)
      have hread : charAt (front :: rest) ((front :: rest).length - 1) = .ok back := by
        rw [hback, List.length_append]
        exact charAt_append _ _ 0
      have hrun : checkEnds (front :: rest) = if front = hyphen ∨ front = dot then .error .rejected
          else if back = hyphen ∨ back = dot then .error .rejected else .ok () := by
        rw [checkEnds, if_neg (by simpa using hlen), hread]
        rfl
      have hends : EndsOk (front :: rest) ↔
          ¬ (front = hyphen ∨ front = dot) ∧ ¬ (back = hyphen ∨ back = dot) := by
        rw [EndsOk, and_iff_right (not_lt.mp hlen), List.head?_cons, inner_some, hback,
          List.getLast?_concat, inner_some]
      rw [hrun, hends]
      by_cases hfront : front = hyphen ∨ front = dot
      · exact .inr ⟨if_pos hfront, fun h => h.1 hfront⟩
      · rw [if_neg hfront]
        by_cases hlast : back = hyphen ∨ back = dot
        · exact .inr ⟨if_pos hlast, fun h => h.2 hlast⟩
        · exact .inl ⟨if_neg hlast, hfront, hlast⟩

theorem exists_fields (seed : Bytes) : ∃ label labels,
    seed = [dot].intercalate (label :: labels) ∧ ∀ l ∈ label :: labels, dot ∉ l := by
  induction seed with
  | nil => exact ⟨[], [], rfl, by simp⟩
  | cons c seed ih =>
    obtain ⟨label, labels, heq, hdots⟩ := ih
    by_cases hc : c = dot
    · refine ⟨[], label :: labels, ?_, List.forall_mem_cons.mpr ⟨List.not_mem_nil, hdots⟩⟩
      rw [List.intercalate_cons_cons, ← heq, hc]
      rfl
    · rw [List.forall_mem_cons] at hdots
      refine ⟨c :: label, labels, ?_, List.forall_mem_cons.mpr ⟨?_, hdots.2⟩⟩
      · rw [heq]
        cases labels <;> rfl
      · rw [List.mem_cons, not_or]
        exact ⟨Ne.symm hc, hdots.1⟩

/-- the labels of a string are its fields between dots -/
theorem dnsSeed_iff {seed label : Bytes} {labels : List Bytes}
    (hjoin : seed = [dot].intercalate (label :: labels)) (hdots : ∀ l ∈ label :: labels, dot ∉ l) :
    DnsSeed seed ↔ seed.length ≤ 253 ∧ (∀ l ∈ label :: labels, Label l) ∧
      ∃ inits last, label :: labels = inits ++ [last] ∧ inits ≠ [] ∧ (∃ c ∈ last, isAlpha c = true) ∧
        last ∉ reservedDnsSeedSuffixes := by
  constructor
  · intro ⟨hlen, inits, last, hseed, hne, hinits, hlast, hrest⟩
    have hall : ∀ l ∈ inits ++ [last], Label l := by
      rw [List.forall_mem_append, List.forall_mem_singleton]
      exact ⟨hinits, hlast⟩
    have hfields : label :: labels = inits ++ [last] := by
      rw [← List.splitOn_intercalate dot hdots (List.cons_ne_nil _ _), ← hjoin, hseed,
        List.splitOn_intercalate dot (fun l hl => dot_notMem (hall l hl)) (by simp)]
    exact ⟨hlen, hfields ▸ hall, inits, last, hfields, hne, hrest⟩
  · intro ⟨hlen, hall, inits, last, hsplit, hne, hrest⟩
    rw [hsplit, List.forall_mem_append, List.forall_mem_singleton] at hall
    exact ⟨hlen, inits, last, hsplit ▸ hjoin, hne, hall.1, hall.2, hrest⟩

theorem dnsSeedRun_cases (seed : Bytes) : (DnsSeed seed ∧ dnsSeedRun seed = .ok true) ∨
    (¬ DnsSeed seed ∧ (dnsSeedRun seed = .ok false ∨ dnsSeedRun seed = .error .rejected)) := by
  obtain ⟨label, labels, hjoin, hdots⟩ := exists_fields seed
  rw [dnsSeed_iff hjoin hdots, dnsSeedRun]
  rcases checkEnds_cases seed with ⟨hends, hlen, hhead, hlast⟩ | ⟨hends, hnot⟩
  · rw [hjoin, inner_head labels] at hhead
    rw [hjoin] at hlast
    obtain ⟨hyes, hno⟩ := @dnsSeedLoop_labels seed [] label labels 1 hjoin hdots hhead hlast
    rw [← hjoin] at hyes hno
    have hloop : (List.range seed.length).foldlM (dnsSeedStep seed) ⟨1, 0, 0, false⟩ =
        dnsSeedLoop seed (stateAt 1 [] []) ([] : Bytes).length seed.length := by
      rw [List.range_eq_range']
      rfl
    rw [hends, hloop]
    by_cases hlabels : ∀ l ∈ label :: labels, Label l
    · obtain ⟨front, inits, last, hsplit, hseed, hrun⟩ := hyes hlabels
      have hsub : substr seed front.length = .ok last := by
        rw [substr, hseed, if_neg (by simp), List.drop_left]
      have hunique : ∀ inits' last', label :: labels = inits' ++ [last'] → inits' = inits ∧ last' = last := by
        intro inits' last' hsplit'
        obtain ⟨hinits, hsame⟩ := List.append_inj' (hsplit'.symm.trans hsplit) rfl
        exact ⟨hinits, List.singleton_inj.mp hsame⟩
      have hfinal : (∃ inits' last', label :: labels = inits' ++ [last'] ∧ inits' ≠ [] ∧
          (∃ c ∈ last', isAlpha c = true) ∧ last' ∉ reservedDnsSeedSuffixes) ↔
          inits ≠ [] ∧ (∃ c ∈ last, isAlpha c = true) ∧ last ∉ reservedDnsSeedSuffixes := by
        refine ⟨?_, fun h => ⟨inits, last, hsplit, h⟩⟩
        rintro ⟨inits', last', hsplit', h⟩
        obtain ⟨rfl, rfl⟩ := hunique inits' last' hsplit'
        exact h
      rw [hfinal, and_iff_right hlen, and_iff_right hlabels, hrun]
      show (_ ∧ (if 1 + inits.length < 2 ∨ (!last.any isAlpha) = true then Except.ok false
        else substr seed front.length >>= fun suffix => Except.ok (!reservedDnsSeedSuffix suffix)) = _) ∨
        _ ∧ ((if 1 + inits.length < 2 ∨ (!last.any isAlpha) = true then Except.ok false
        else substr seed front.length >>= fun suffix => Except.ok (!reservedDnsSeedSuffix suffix)) = _ ∨ _)
      by_cases hfew : 1 + inits.length < 2 ∨ (!last.any isAlpha) = true
      · rw [if_pos hfew]
        refine .inr ⟨?_, .inl rfl⟩
        intro ⟨hne, ⟨c, hc, halpha⟩, _⟩
        rcases hfew with hshort | hnone
        · have hpos := List.length_pos_of_ne_nil hne
          omega
        · rw [List.any_eq_true.mpr ⟨c, hc, halpha⟩] at hnone
          exact Bool.false_ne_true hnone
      · rw [if_neg hfew, hsub]
        have hne : inits ≠ [] := by
          rintro rfl
          exact hfew (.inl (by decide))
        have halpha : ∃ c ∈ last, isAlpha c = true := by simpa using (not_or.mp hfew).2
        show (_ ∧ Except.ok (!reservedDnsSeedSuffixes.contains last) = _) ∨
          _ ∧ (Except.ok (!reservedDnsSeedSuffixes.contains last) = _ ∨ _)
        by_cases hreserved : last ∈ reservedDnsSeedSuffixes
        · rw [List.contains_iff_mem.mpr hreserved]
          exact .inr ⟨fun h => h.2.2 hreserved, .inl rfl⟩
        · rw [Bool.eq_false_iff.mpr (mt List.contains_iff_mem.mp hreserved)]
          exact .inl ⟨⟨hne, halpha, hreserved⟩, rfl⟩
    · rw [hno hlabels]
      exact .inr ⟨fun h => hlabels h.2.1, .inr rfl⟩
  · rw [hends]
    refine .inr ⟨?_, .inr rfl⟩
    intro ⟨hlen, hlabels, _⟩
    have hinner := inner_of_labels hlabels
    rw [← hjoin] at hinner
    exact hnot ⟨hlen, hinner⟩

/-- **The grammar.**  For every string the function returns, having read inside the string only, and
it returns true for the host names of the grammar. -/
theorem dnsSeedShapeValid_eq (seed : Bytes) :
    ∃ valid, dnsSeedShapeValid seed = some valid ∧ (valid = true ↔ DnsSeed seed) := by
  rw [dnsSeedShapeValid]
  rcases dnsSeedRun_cases seed with ⟨hseed, hrun⟩ | ⟨hseed, hrun | hrun⟩
  · rw [hrun]
    exact ⟨true, rfl, fun _ => hseed, fun _ => rfl⟩
  · rw [hrun]
    exact ⟨false, rfl, Bool.false_ne_true.elim, fun h => absurd h hseed⟩
  · rw [hrun]
    exact ⟨false, rfl, Bool.false_ne_true.elim, fun h => absurd h hseed⟩

example : dnsSeedShapeValid (literal "seed.zk-coin.org") = some true := by decide

example : dnsSeedShapeValid (literal "seed..org") = some false := by decide

end LaunchProfile
