import Mathlib.Data.Nat.Bitwise
import ZkCoin.Primitives.Uint256

/-!
# The tree of block index entries and the active chain

Every header gets an entry with a pointer to its predecessor and one that skips further back, and the
tip of the active chain moves to any of them.  Seen from above an entry is a path from its first block:
its ancestors are the places of that path whichever pointers a search takes, and the active chain is
the path of its tip.

* `CBlockIndex`, `getAncestor` — the entries, and the search along both kinds of pointers.
* `addToBlockIndex`, `setTip`, `findFork` — a new entry, a new tip, and where a branch leaves it.
* `path`, `Linked`             — the path of an entry, and what every entry keeps.
* `getAncestor_run`, `setTip_run`, `findFork_run` — after every run of headers and tips.
-/

open List

namespace Chain

/-- `CBlockIndex`: a pointer is the entry that it points to, and only an entry without a predecessor
has no entry to skip to -/
inductive CBlockIndex
  | root (hash : Uint256)
  | child (hash : Uint256) (nHeight : Nat) (pprev pskip : CBlockIndex)
  deriving DecidableEq

namespace CBlockIndex

def hash : CBlockIndex → Uint256
  | root hash => hash
  | child hash _ _ _ => hash

def nHeight : CBlockIndex → Nat
  | root _ => 0
  | child _ nHeight _ _ => nHeight

end CBlockIndex

/-! ## ancestors -/

/-- `InvertLowestOne` -/
def invertLowestOne (n : Nat) : Nat := n &&& (n - 1)

/-- `GetSkipHeight` -/
def getSkipHeight (height : Nat) : Nat :=
  if height < 2 then 0
  else if height % 2 = 1 then invertLowestOne (invertLowestOne (height - 1)) + 1
  else invertLowestOne height

/-- whether `pskip` is followed: not when `pprev->pskip` is better than `pskip->pprev` -/
def followsSkip (height heightWalk : Nat) : Bool :=
  let heightSkip := getSkipHeight heightWalk
  let heightSkipPrev := getSkipHeight (heightWalk - 1)
  decide (heightSkip = height) || (decide (heightSkip > height) &&
    !(decide (heightSkipPrev + 2 < heightSkip) && decide (heightSkipPrev ≥ height)))

/-- the loop of `GetAncestor`; nothing when `assert(pindexWalk->pprev)` fails -/
def ancestorWalk (height : Nat) : Nat → CBlockIndex → Nat → Option CBlockIndex
  | 0, pindexWalk, heightWalk => if heightWalk > height then none else some pindexWalk
  | fuel + 1, pindexWalk, heightWalk =>
    if heightWalk > height then
      match pindexWalk with
      | .root _ => none
      | .child _ _ pprev pskip =>
        if followsSkip height heightWalk then ancestorWalk height fuel pskip (getSkipHeight heightWalk)
        else ancestorWalk height fuel pprev (heightWalk - 1)
    else some pindexWalk

/-- `CBlockIndex::GetAncestor` -/
def getAncestor (pindex : CBlockIndex) (height : Int) : Option CBlockIndex :=
  if height > pindex.nHeight ∨ height < 0 then none
  else ancestorWalk height.toNat pindex.nHeight pindex pindex.nHeight

/-- `AddToBlockIndex` with `BuildSkip`.  Nothing when there is no entry to skip to, or for a header that
names itself as its predecessor: its entry would point to itself. -/
def addToBlockIndex (m : List CBlockIndex) (hash hashPrevBlock : Uint256) : Option (List CBlockIndex) :=
  if m.any fun b => b.hash == hash then some m
  else if hashPrevBlock = hash then none
  else
    match m.find? fun b => b.hash == hashPrevBlock with
    | none => some (m ++ [.root hash])
    | some pprev => (getAncestor pprev (getSkipHeight (pprev.nHeight + 1))).map fun pskip =>
        m ++ [.child hash (pprev.nHeight + 1) pprev pskip]

/-! ## the tip -/

/-- `CChain::vChain`, whose pointers may be null -/
abbrev CChain := List (Option CBlockIndex)

/-- the loop of `CChain::SetTip` -/
def setTipLoop (vChain : CChain) (pindex : CBlockIndex) : CChain :=
  if vChain[pindex.nHeight]? = some (some pindex) then vChain
  else
    match pindex with
    | .root hash => vChain.set 0 (some (.root hash))
    | .child hash nHeight pprev pskip =>
      setTipLoop (vChain.set nHeight (some (.child hash nHeight pprev pskip))) pprev

/-- `CChain::SetTip` -/
def setTip (vChain : CChain) : Option CBlockIndex → CChain
  | none => []
  | some pindex =>
    setTipLoop ((vChain.rightpad (pindex.nHeight + 1) none).take (pindex.nHeight + 1)) pindex

/-- `CChain::Contains` -/
def contains (vChain : CChain) (pindex : CBlockIndex) : Bool :=
  vChain[pindex.nHeight]? = some (some pindex)

/-- the loop of `CChain::FindFork` -/
def findForkLoop (vChain : CChain) (pindex : CBlockIndex) : Option CBlockIndex :=
  if contains vChain pindex then some pindex
  else
    match pindex with
    | .root _ => none
    | .child _ _ pprev _ => findForkLoop vChain pprev

/-- `CChain::FindFork` -/
def findFork (vChain : CChain) (pindex : CBlockIndex) : Option CBlockIndex :=
  let height : Int := vChain.length - 1
  if pindex.nHeight > height then (getAncestor pindex height).bind (findForkLoop vChain)
  else findForkLoop vChain pindex

structure ChainState where
  mBlockIndex : List CBlockIndex
  vChain : CChain

inductive Op
  | header (hash hashPrevBlock : Uint256) (hne : hashPrevBlock ≠ hash)
  /-- the tip becomes the entry of a hash, or null when there is none -/
  | setTip (hash : Uint256)

def step (s : ChainState) : Op → Option ChainState
  | .header hash hashPrevBlock _ =>
    (addToBlockIndex s.mBlockIndex hash hashPrevBlock).map fun m => ⟨m, s.vChain⟩
  | .setTip hash =>
    some ⟨s.mBlockIndex, setTip s.vChain (s.mBlockIndex.find? fun b => b.hash == hash)⟩

def run (ops : List Op) : Option ChainState := ops.foldlM step ⟨[], []⟩

/-! ## paths -/

/-- the entries from the first one to an entry, along `pprev` -/
def path : CBlockIndex → List CBlockIndex
  | .root hash => [.root hash]
  | .child hash nHeight pprev pskip => path pprev ++ [.child hash nHeight pprev pskip]

/-- heights count from the first entry, and an entry skips to one on the path of its predecessor -/
def Linked : CBlockIndex → Prop
  | .root _ => True
  | .child _ nHeight pprev pskip =>
    Linked pprev ∧ nHeight = pprev.nHeight + 1 ∧ (path pprev)[getSkipHeight nHeight]? = some pskip

variable {b p : CBlockIndex} {h : Nat}

theorem Linked.path_length (hb : Linked b) : (path b).length = b.nHeight + 1 := by
  induction b with
  | root => rfl
  | child hash nHeight pprev pskip ih =>
    obtain ⟨hprev, hheight, -⟩ := hb
    rw [path, length_append, ih hprev, ← hheight]
    rfl

/-- the path of an entry on a path is the beginning of that path -/
theorem Linked.path_take (hb : Linked b) (hp : (path b)[h]? = some p) :
    Linked p ∧ path p = (path b).take (h + 1) := by
  have hlt := (List.getElem?_eq_some_iff.mp hp).1
  induction b with
  | root hash =>
    obtain rfl : h = 0 := by simpa [path] using hlt
    obtain rfl := Option.some.inj hp
    exact ⟨trivial, rfl⟩
  | child hash nHeight pprev pskip ih =>
    rw [path, length_append, length_singleton] at hlt
    rcases Nat.lt_or_ge h (path pprev).length with hbefore | hge
    · rw [path, getElem?_append_left hbefore] at hp
      rw [path, take_append_of_le_length hbefore]
      exact ih hb.1 hp hbefore
    · obtain rfl : h = (path pprev).length := by omega
      obtain rfl : _ = p := by simpa [path] using hp
      exact ⟨hb, (take_of_length_le (by simp [path])).symm⟩

theorem Linked.nHeight_eq (hb : Linked b) (hp : (path b)[h]? = some p) : p.nHeight = h := by
  obtain ⟨hlinked, htake⟩ := hb.path_take hp
  have hlen := hlinked.path_length
  have := (List.getElem?_eq_some_iff.mp hp).1
  rw [htake, length_take] at hlen
  omega

theorem Linked.getElem?_self (hb : Linked b) : (path b)[b.nHeight]? = some b := by
  cases b with
  | root => rfl
  | child hash nHeight pprev pskip =>
    obtain ⟨hprev, rfl, -⟩ := hb
    show (path pprev ++ _)[pprev.nHeight + 1]? = _
    rw [← hprev.path_length, getElem?_concat_length]

theorem getSkipHeight_lt (hpos : 0 < h) : getSkipHeight h < h := by
  have hinvert : ∀ n, invertLowestOne n ≤ n - 1 := fun n => Nat.and_le_right
  unfold getSkipHeight
  split
  · exact hpos
  · split
    · have h₁ := hinvert (invertLowestOne (h - 1))
      have h₂ := hinvert (h - 1)
      omega
    · have := hinvert h
      omega

/-! ## the search -/

theorem Linked.ancestorWalk_eq (hb : Linked b) {height fuel : Nat} (hle : height ≤ b.nHeight)
    (hfuel : b.nHeight ≤ height + fuel) :
    ancestorWalk height fuel b b.nHeight = (path b)[height]? := by
  induction fuel generalizing b with
  | zero =>
    rw [ancestorWalk, if_neg (by omega), show height = b.nHeight by omega, hb.getElem?_self]
  | succ fuel ih =>
    unfold ancestorWalk
    split
    · cases b with
      | root => cases ‹_›
      | child hash nHeight pprev pskip =>
        obtain ⟨hprev, hheight, hskip⟩ := hb
        have hlt : height < nHeight := ‹_›
        have hle : nHeight ≤ height + (fuel + 1) := hfuel
        have hpath : (path (.child hash nHeight pprev pskip))[height]? = (path pprev)[height]? :=
          getElem?_append_left (by rw [hprev.path_length]; omega)
        rw [hpath]
        show (if followsSkip height nHeight then ancestorWalk height fuel pskip (getSkipHeight nHeight)
          else ancestorWalk height fuel pprev (nHeight - 1)) = _
        split
        · rename_i hfollows
          simp only [followsSkip, Bool.or_eq_true, Bool.and_eq_true, decide_eq_true_eq] at hfollows
          have hskips := getSkipHeight_lt (h := nHeight) (by omega)
          obtain ⟨hlinked, htake⟩ := hprev.path_take hskip
          have hat := hprev.nHeight_eq hskip
          rw [← hat, ih hlinked (by omega) (by omega), htake, getElem?_take, if_pos (by omega)]
        · rw [show nHeight - 1 = pprev.nHeight by omega]
          exact ih hprev (by omega) (by omega)
    · rw [show height = b.nHeight by omega, hb.getElem?_self]

theorem Linked.getAncestor_eq (hb : Linked b) (height : Int) :
    getAncestor b height = if height < 0 then none else (path b)[height.toNat]? := by
  have hlen := hb.path_length
  unfold getAncestor
  split
  · split
    · rfl
    · exact (getElem?_eq_none (by omega)).symm
  · rw [if_neg (by omega), hb.ancestorWalk_eq (by omega) (by omega)]

theorem findForkLoop_eq (vChain : CChain) (b : CBlockIndex) :
    findForkLoop vChain b = (path b).reverse.find? (contains vChain) := by
  induction b with
  | root hash =>
    unfold findForkLoop
    split <;> simp [path, *]
  | child hash nHeight pprev pskip ih =>
    unfold findForkLoop
    split <;> simp [path, *]

theorem Linked.findFork_eq (hb : Linked b) (vChain : CChain) :
    findFork vChain b = (path b).reverse.find? (contains vChain) := by
  unfold findFork
  dsimp only
  split
  · -- what stands above the chain is not in it
    have habove : ((path b).drop vChain.length).reverse.find? (contains vChain) = none := by
      rw [find?_eq_none]
      intro x hx
      obtain ⟨i, hi⟩ := mem_iff_getElem?.mp (mem_reverse.mp hx)
      rw [getElem?_drop] at hi
      simp [contains, hb.nHeight_eq hi]
    rw [← take_append_drop vChain.length (path b), reverse_append, find?_append, habove,
      Option.none_or, hb.getAncestor_eq]
    split
    · rw [show vChain.length = 0 by omega]
      rfl
    · have hlt : (vChain.length - 1 : Int).toNat < (path b).length := by
        rw [hb.path_length]
        omega
      have hp := getElem?_eq_getElem hlt
      rw [hp, Option.bind_some, findForkLoop_eq, (hb.path_take hp).2,
        show (vChain.length - 1 : Int).toNat + 1 = vChain.length by omega]
  · exact findForkLoop_eq vChain b

theorem addToBlockIndex_linked {m : List CBlockIndex} (hm : ∀ b ∈ m, Linked b)
    {hash hashPrevBlock : Uint256} (hne : hashPrevBlock ≠ hash) :
    ∃ m', addToBlockIndex m hash hashPrevBlock = some m' ∧ ∀ b ∈ m', Linked b := by
  unfold addToBlockIndex
  split
  · exact ⟨m, rfl, hm⟩
  · split
    · exact ⟨_, rfl, forall_mem_append.mpr ⟨hm, forall_mem_singleton.mpr trivial⟩⟩
    · rename_i pprev hprev
      have hlinked := hm pprev (mem_of_find?_eq_some hprev)
      have hlt : getSkipHeight (pprev.nHeight + 1) < (path pprev).length := by
        rw [hlinked.path_length]
        exact getSkipHeight_lt (Nat.succ_pos _)
      have hskip := getElem?_eq_getElem hlt
      rw [hlinked.getAncestor_eq, if_neg (by omega), Int.toNat_natCast, hskip]
      exact ⟨_, rfl, forall_mem_append.mpr ⟨hm, forall_mem_singleton.mpr ⟨hlinked, rfl, hskip⟩⟩⟩

/-! ## the active chain -/

/-- under every entry of a chain stands its path -/
def Paths (vChain : CChain) : Prop :=
  ∀ k p, vChain[k]? = some (some p) → vChain.take (k + 1) = (path p).map some

theorem Paths.of_isPrefix {V W : CChain} (hW : Paths W) (h : V <+: W) : Paths V := by
  intro k p hk
  obtain ⟨R, rfl⟩ := h
  have hlt := (List.getElem?_eq_some_iff.mp hk).1
  have := hW k p (by rwa [getElem?_append_left hlt])
  rwa [take_append_of_le_length hlt] at this

/-- the loop stops at the first entry that stands in its place, with its path under it -/
theorem setTipLoop_eq (hb : Linked b) {V R : CChain} (hV : Paths V) (hlen : V.length = b.nHeight + 1) :
    setTipLoop (V ++ R) b = (path b).map some ++ R := by
  induction b generalizing V R with
  | root hash =>
    obtain ⟨x, rfl⟩ := length_eq_one_iff.mp hlen
    unfold setTipLoop
    split
    · rename_i hx
      obtain rfl : x = some (.root hash) := by simpa [CBlockIndex.nHeight] using hx
      rfl
    · rfl
  | child hash nHeight pprev pskip ih =>
    obtain ⟨hprev, hheight, -⟩ := id hb
    obtain rfl | ⟨V, x, rfl⟩ := V.eq_nil_or_concat
    · cases hlen
    rw [concat_eq_append] at hlen hV ⊢
    have hlast : V.length = nHeight := by simpa [CBlockIndex.nHeight] using hlen
    unfold setTipLoop
    split
    · rename_i hx
      rw [getElem?_append_left (by simp [CBlockIndex.nHeight, hlast])] at hx
      rw [← hV _ _ hx, take_of_length_le (by simp [CBlockIndex.nHeight, hlast])]
    · have hset : (V ++ [x] ++ R).set nHeight (some (.child hash nHeight pprev pskip)) =
          V ++ some (.child hash nHeight pprev pskip) :: R := by
        simp [hlast]
      dsimp only
      rw [hset, ih hprev (hV.of_isPrefix (prefix_append ..)) (by omega), path, map_append,
        append_assoc]
      rfl

theorem setTip_eq (hb : Linked b) {vChain : CChain} (hpaths : Paths vChain) :
    setTip vChain (some b) = (path b).map some := by
  have hpad : Paths (vChain.rightpad (b.nHeight + 1) none) := by
    intro k q hk
    rcases Nat.lt_or_ge k vChain.length with hlt | hge
    · rw [rightpad, getElem?_append_left hlt] at hk
      rw [rightpad, take_append_of_le_length hlt, hpaths k q hk]
    · rw [rightpad, getElem?_append_right hge, getElem?_replicate] at hk
      split at hk <;> cases hk
  have hlen : ((vChain.rightpad (b.nHeight + 1) none).take (b.nHeight + 1)).length =
      b.nHeight + 1 := by
    rw [length_take, length_rightpad]
    omega
  have := setTipLoop_eq hb (R := []) (hpad.of_isPrefix ( take_prefix ..)) hlen
  rwa [append_nil, append_nil] at this

theorem setTip_paths {tip : Option CBlockIndex} (ht : ∀ b ∈ tip, Linked b) {vChain : CChain}
    (hpaths : Paths vChain) : Paths (setTip vChain tip) := by
  cases tip with
  | none => exact fun k p hk => by cases hk
  | some b =>
    have hb := ht b rfl
    rw [setTip_eq hb hpaths]
    intro k p hk
    rw [getElem?_map, Option.map_eq_some_iff] at hk
    obtain ⟨q, hq, heq⟩ := hk
    obtain rfl := Option.some.inj heq
    rw [(hb.path_take hq).2, map_take]

structure Holds (s : ChainState) : Prop where
  linked : ∀ b ∈ s.mBlockIndex, Linked b
  paths : Paths s.vChain

theorem step_holds {s : ChainState} (hs : Holds s) (op : Op) : ∃ s', step s op = some s' ∧ Holds s' := by
  cases op with
  | header hash hashPrevBlock hne =>
    obtain ⟨m, hm, hlinked⟩ := addToBlockIndex_linked hs.linked hne
    exact ⟨⟨m, s.vChain⟩, by rw [step, hm]; rfl, hlinked, hs.paths⟩
  | setTip hash =>
    refine ⟨_, rfl, hs.linked, setTip_paths ?_ hs.paths⟩
    exact fun b hb => hs.linked b (mem_of_find?_eq_some hb)

theorem run_holds (ops : List Op) {s : ChainState} (hs : Holds s) :
    ∃ s', ops.foldlM step s = some s' ∧ Holds s' := by
  induction ops generalizing s with
  | nil => exact ⟨s, rfl, hs⟩
  | cons op ops ih =>
    obtain ⟨s₁, hstep, hs₁⟩ := step_holds hs op
    rw [foldlM_cons, hstep]
    exact ih hs₁

theorem holds_empty : Holds ⟨[], []⟩ := ⟨fun b hb => (by cases hb), fun k p hk => (by cases hk)⟩

/-- **Ancestors.**  After every run no assertion fails, and the entry that the search finds at a height
is the one that the predecessors lead to. -/
theorem getAncestor_run (ops : List Op) : ∃ s, run ops = some s ∧
    ∀ b ∈ s.mBlockIndex, ∀ height : Int,
      getAncestor b height = if height < 0 then none else (path b)[height.toNat]? := by
  obtain ⟨s, hrun, hs⟩ := run_holds ops holds_empty
  exact ⟨s, hrun, fun b hb => (hs.linked b hb).getAncestor_eq⟩

/-- **The active chain.**  Wherever the tip was before, moving it to an entry leaves the path of that
entry, although the loop stops where the old chain agrees. -/
theorem setTip_run (ops : List Op) : ∃ s, run ops = some s ∧
    ∀ b ∈ s.mBlockIndex, setTip s.vChain (some b) = (path b).map some := by
  obtain ⟨s, hrun, hs⟩ := run_holds ops holds_empty
  exact ⟨s, hrun, fun b hb => setTip_eq (hs.linked b hb) hs.paths⟩

/-- **Forks.**  The search starts at the height of the chain, and finds the last entry of a branch that
is in the chain. -/
theorem findFork_run (ops : List Op) : ∃ s, run ops = some s ∧
    ∀ b ∈ s.mBlockIndex, findFork s.vChain b = (path b).reverse.find? (contains s.vChain) := by
  obtain ⟨s, hrun, hs⟩ := run_holds ops holds_empty
  exact ⟨s, hrun, fun b hb => (hs.linked b hb).findFork_eq s.vChain⟩

end Chain
