import Mathlib.Logic.Function.Basic
import ZkCoin.Consensus.CheckBlock

/-!
# Storing blocks

The index of known headers and the blocks on disk, and the calls that a peer can cause.  What an index
entry says of the chain below it is fixed by the headers, so `Node.indexOf` gives it for each hash; the
status of an entry is what the calls change.

* `Node.acceptBlockHeader`, `Node.acceptBlock`, `Node.processNewBlock`
* `Call`, `Node.run`       — a sequence of calls.
* `Holds`, `run_holds`     — what every call keeps of an entry, a run keeps.
* `Blames`                 — the verdicts that mark an entry as invalid.
-/

open Bytes

namespace Consensus

/-- a node: its hashes, its verifiers and its chain parameters -/
structure Node where
  hash256 : Bytes → Uint256
  blake3 : Bytes → Uint256
  scrypt : Bytes → Uint256
  verifier : Shielded.Verifier
  crypto : Mw.Crypto
  signetSolution : CBlock → Bool
  params : Params
  /-- what the checks of a block read of the entry of its predecessor -/
  indexOf : Uint256 → CBlockIndex

/-- the part of `nStatus` and the transaction count that the calls read and change -/
structure BlockStatus where
  failedValid : Bool
  failedChild : Bool
  haveData : Bool
  nTx : Nat
  deriving DecidableEq

/-- `nStatus & BLOCK_FAILED_MASK` -/
def BlockStatus.failed (s : BlockStatus) : Bool := s.failedValid || s.failedChild

/-- the status that `AddToBlockIndex` gives -/
def BlockStatus.fresh : BlockStatus := ⟨false, false, false, 0⟩

structure BlockStore where
  index : Uint256 → Option BlockStatus
  /-- the blocks written, in order -/
  disk : List CBlock

namespace BlockStore

def setStatus (s : BlockStore) (hash : Uint256) (status : BlockStatus) : BlockStore :=
  { s with index := Function.update s.index hash (some status) }

@[simp] theorem setStatus_self (s : BlockStore) (hash : Uint256) (status : BlockStatus) :
    (s.setStatus hash status).index hash = some status := Function.update_self ..

theorem setStatus_of_ne (s : BlockStore) {hash hash' : Uint256} (h : hash ≠ hash')
    (status : BlockStatus) : (s.setStatus hash' status).index hash = s.index hash :=
  Function.update_of_ne h ..

/-- `nStatus |= BLOCK_FAILED_CHILD` along a list of known blocks -/
def markFailedChild (s : BlockStore) (hashes : List Uint256) : BlockStore :=
  { s with index := fun hash =>
      if hash ∈ hashes then (s.index hash).map fun status => { status with failedChild := true }
      else s.index hash }

/-- `nStatus |= BLOCK_FAILED_VALID` along a list of known blocks -/
def markFailedValid (s : BlockStore) (hashes : List Uint256) : BlockStore :=
  { s with index := fun hash =>
      if hash ∈ hashes then (s.index hash).map fun status => { status with failedValid := true }
      else s.index hash }

end BlockStore

/-- what a call reads of the clock, the chain and the disk -/
structure CallContext where
  header : HeaderContext
  /-- the blocks between a known invalid ancestor and the predecessor, when there is one -/
  failedWalk : Option (List Uint256)
  fHasMoreOrSameWork : Bool
  fTooFarAhead : Bool
  belowMinimumWork : Bool
  /-- `SaveBlockToDisk` finds a place -/
  saved : Bool
  /-- the blocks that `ActivateBestChain` finds invalid when it connects them, and those above them -/
  invalidFound : List Uint256
  invalidAbove : List Uint256

namespace Node

def checks (n : Node) : ProofChecks :=
  ⟨checkBlockProofOfWork n.hash256 n.blake3 n.scrypt n.params, n.signetSolution⟩

def blockHash (n : Node) (block : CBlock) : Uint256 := block.header.getHash n.hash256

def checkBlock (n : Node) (block : CBlock) : Except BlockFault Unit :=
  Consensus.checkBlock n.hash256 n.blake3 n.checks n.params block true true

def contextualCheckBlock (n : Node) (block : CBlock) : Except BlockFault Unit :=
  Consensus.contextualCheckBlock n.hash256 n.blake3 n.verifier n.crypto n.params
    (n.indexOf block.header.hashPrevBlock) block

/-- the two checks that decide whether a body is stored -/
def verdict (n : Node) (block : CBlock) : Except BlockFault Unit := do
  n.checkBlock block
  n.contextualCheckBlock block

/-- `BlockManager::AcceptBlockHeader`; the genesis block is added without any check -/
def acceptBlockHeader (n : Node) (ctx : CallContext) (header : CBlockHeader) (s : BlockStore) :
    Except BlockFault Unit × BlockStore :=
  let hash := header.getHash n.hash256
  match s.index hash with
  | some status =>
    if hash ≠ n.params.hashGenesisBlock ∧ status.failed then
      (.error (.invalid ⟨.cachedInvalid, "duplicate", ""⟩), s)
    else (.ok (), s)
  | none =>
    if hash = n.params.hashGenesisBlock then (.ok (), s.setStatus hash .fresh)
    else
      match checkBlockHeader n.checks header true with
      | .error fault => (.error fault, s)
      | .ok () =>
        match s.index header.hashPrevBlock with
        | none => (.error (.invalid ⟨.missingPrev, "prev-blk-not-found", ""⟩), s)
        | some prev =>
          if prev.failed then (.error (.invalid ⟨.invalidPrev, "bad-prevblk", ""⟩), s)
          else
            match contextualCheckBlockHeader n.params ctx.header (n.indexOf header.hashPrevBlock)
                header with
            | .error fault => (.error fault, s)
            | .ok () =>
              match ctx.failedWalk with
              | some walk =>
                (.error (.invalid ⟨.invalidPrev, "bad-prevblk", ""⟩), s.markFailedChild walk)
              | none => (.ok (), s.setStatus hash .fresh)

/-- `CChainState::AcceptBlock` once the header is known -/
def acceptBody (n : Node) (ctx : CallContext) (fRequested : Bool) (block : CBlock)
    (status : BlockStatus) (s : BlockStore) : Except BlockFault Unit × BlockStore :=
  if status.haveData then (.ok (), s)
  else if !fRequested && (decide (status.nTx ≠ 0) || !ctx.fHasMoreOrSameWork || ctx.fTooFarAhead ||
      ctx.belowMinimumWork) then (.ok (), s)
  else
    match n.verdict block with
    | .error (.invalid state) =>
      (.error (.invalid state),
        if state.result ≠ .mutated then
          s.setStatus (n.blockHash block) { status with failedValid := true }
        else s)
    | .error .aborted => (.error .aborted, s)
    | .ok () =>
      if !ctx.saved then (aborts, s)
      else (.ok (),
        { s.setStatus (n.blockHash block) { status with haveData := true, nTx := block.vtx.length } with
          disk := s.disk ++ [block] })

/-- `CChainState::AcceptBlock` -/
def acceptBlock (n : Node) (ctx : CallContext) (fRequested : Bool) (block : CBlock)
    (s : BlockStore) : Except BlockFault Unit × BlockStore :=
  match n.acceptBlockHeader ctx block.header s with
  | (.error fault, s) => (.error fault, s)
  | (.ok (), s) =>
    match s.index (n.blockHash block) with
    | none => (aborts, s)
    | some status => n.acceptBody ctx fRequested block status s

/-- `ChainstateManager::ProcessNewBlock` -/
def processNewBlock (n : Node) (ctx : CallContext) (fForceProcessing : Bool) (block : CBlock)
    (s : BlockStore) : Except BlockFault Unit × BlockStore :=
  match n.checkBlock block with
  | .error fault => (.error fault, s)
  | .ok () =>
    match n.acceptBlock ctx fForceProcessing block s with
    | (.error fault, s) => (.error fault, s)
    | (.ok (), s) =>
      (.ok (), (s.markFailedValid ctx.invalidFound).markFailedChild ctx.invalidAbove)

/-- the loop of `ChainstateManager::ProcessNewBlockHeaders` -/
def processNewBlockHeaders (n : Node) :
    List (CallContext × CBlockHeader) → BlockStore → Except BlockFault Unit × BlockStore
  | [], s => (.ok (), s)
  | (ctx, header) :: rest, s =>
    match n.acceptBlockHeader ctx header s with
    | (.error fault, s) => (.error fault, s)
    | (.ok (), s) => n.processNewBlockHeaders rest s

end Node

inductive Call
  | accept (ctx : CallContext) (fRequested : Bool) (block : CBlock)
  | process (ctx : CallContext) (fForceProcessing : Bool) (block : CBlock)
  | headers (headers : List (CallContext × CBlockHeader))

namespace Node

def step (n : Node) (s : BlockStore) : Call → BlockStore
  | .accept ctx fRequested block => (n.acceptBlock ctx fRequested block s).2
  | .process ctx fForceProcessing block => (n.processNewBlock ctx fForceProcessing block s).2
  | .headers headers => (n.processNewBlockHeaders headers s).2

def run (n : Node) (s : BlockStore) (calls : List Call) : BlockStore := calls.foldl n.step s

end Node

/-! ## what a call keeps of an entry -/

/-- the verdicts that `AcceptBlock` holds against the hash of the block -/
def Blames (verdict : Except BlockFault Unit) : Prop :=
  ∃ state, verdict = .error (.invalid state) ∧ state.result ≠ .mutated

theorem not_blames_of_acceptsOrMutated {verdict : Except BlockFault Unit}
    (h : AcceptsOrMutated verdict) : ¬ Blames verdict := by
  rintro ⟨state, rfl, hne⟩
  exact hne (of_decide_eq_true (h _ rfl))

/-- the entry of a hash, when there is one, is as `P` says -/
def Holds (P : BlockStatus → Prop) (s : BlockStore) (hash : Uint256) : Prop :=
  ∀ status, s.index hash = some status → P status

/-- a property of entries that neither a new header nor a stored body breaks -/
structure Stable (P : BlockStatus → Prop) : Prop where
  fresh : P .fresh
  data : ∀ status nTx, P status → P { status with haveData := true, nTx := nTx }

section
variable {P : BlockStatus → Prop} {s : BlockStore} {hash : Uint256}

theorem Holds.setStatus (h : Holds P s hash) {hash' : Uint256} {status : BlockStatus}
    (hset : hash = hash' → P status) : Holds P (s.setStatus hash' status) hash := by
  intro st hst
  by_cases heq : hash = hash'
  · subst heq
    rw [BlockStore.setStatus_self] at hst
    obtain rfl := Option.some.inj hst
    exact hset rfl
  · rw [BlockStore.setStatus_of_ne s heq] at hst
    exact h st hst

theorem Holds.markFailedChild (h : Holds P s hash) {hashes : List Uint256}
    (hmark : hash ∈ hashes → ∀ status, P status → P { status with failedChild := true }) :
    Holds P (s.markFailedChild hashes) hash := by
  intro st hst
  unfold BlockStore.markFailedChild at hst
  simp only at hst
  split at hst
  · rename_i hmem
    obtain ⟨status, hstatus, rfl⟩ := Option.map_eq_some_iff.mp hst
    exact hmark hmem status (h status hstatus)
  · exact h st hst

theorem Holds.markFailedValid (h : Holds P s hash) {hashes : List Uint256}
    (hmark : hash ∈ hashes → ∀ status, P status → P { status with failedValid := true }) :
    Holds P (s.markFailedValid hashes) hash := by
  intro st hst
  unfold BlockStore.markFailedValid at hst
  simp only at hst
  split at hst
  · rename_i hmem
    obtain ⟨status, hstatus, rfl⟩ := Option.map_eq_some_iff.mp hst
    exact hmark hmem status (h status hstatus)
  · exact h st hst

variable {n : Node} {ctx : CallContext}

/-- the walk to a known invalid ancestor does not break `P` at `hash` -/
def WalkKeeps (P : BlockStatus → Prop) (hash : Uint256) (ctx : CallContext) : Prop :=
  ∀ walk, ctx.failedWalk = some walk → hash ∈ walk →
    ∀ status, P status → P { status with failedChild := true }

theorem acceptBlockHeader_holds (hP : Stable P) (h : Holds P s hash) (hwalk : WalkKeeps P hash ctx)
    (header : CBlockHeader) : Holds P (n.acceptBlockHeader ctx header s).2 hash := by
  unfold Node.acceptBlockHeader
  simp only
  split
  · split
    · exact h
    · exact h
  · split
    · exact h.setStatus fun _ => hP.fresh
    · split
      · exact h
      · split
        · exact h
        · split
          · exact h
          · split
            · exact h
            · split
              · exact h.markFailedChild (hwalk _ ‹_›)
              · exact h.setStatus fun _ => hP.fresh

variable {block : CBlock}

theorem acceptBody_holds (hP : Stable P) (h : Holds P s hash) {fRequested : Bool}
    {status : BlockStatus} (hstatus : s.index (n.blockHash block) = some status)
    (hblame : n.blockHash block = hash → Blames (n.verdict block) → ∀ status, P status → P { status
      with failedValid := true }) :
    Holds P (n.acceptBody ctx fRequested block status s).2 hash := by
  have hold : hash = n.blockHash block → P status := by
    rintro rfl
    exact h status hstatus
  unfold Node.acceptBody
  split
  · exact h
  · split
    · exact h
    · split
      · rename_i state hverdict
        simp only
        split
        · rename_i hresult
          exact h.setStatus fun heq => hblame heq.symm ⟨state, hverdict, hresult⟩ status (hold heq)
        · exact h
      · exact h
      · split
        · exact h
        · exact (h.setStatus fun heq => hP.data status block.vtx.length (hold heq) :
            Holds P (s.setStatus (n.blockHash block) _) hash)

theorem acceptBlock_holds (hP : Stable P) (h : Holds P s hash) (hwalk : WalkKeeps P hash ctx)
    {fRequested : Bool}
    (hblame : n.blockHash block = hash → Blames (n.verdict block) → ∀ status, P status → P { status
      with failedValid := true }) :
    Holds P (n.acceptBlock ctx fRequested block s).2 hash := by
  have hheader := acceptBlockHeader_holds (n := n) hP h hwalk block.header
  unfold Node.acceptBlock
  split
  · rename_i heq
    rw [heq] at hheader
    exact hheader
  · rename_i heq
    rw [heq] at hheader
    split
    · exact hheader
    · rename_i hstatus
      exact acceptBody_holds hP hheader hstatus hblame

theorem processNewBlock_holds (hP : Stable P) (h : Holds P s hash) (hwalk : WalkKeeps P hash ctx)
    {fForceProcessing : Bool}
    (hblame : n.blockHash block = hash → n.checkBlock block = .ok () → Blames (n.verdict block) → ∀
      status, P status → P { status with failedValid := true })
    (hfound : hash ∈ ctx.invalidFound → ∀ status, P status → P { status with failedValid := true })
    (habove : hash ∈ ctx.invalidAbove → ∀ status, P status → P { status with failedChild := true }) :
    Holds P (n.processNewBlock ctx fForceProcessing block s).2 hash := by
  unfold Node.processNewBlock
  split
  · exact h
  · rename_i hcheck
    have haccept : Holds P (n.acceptBlock ctx fForceProcessing block s).2 hash :=
      acceptBlock_holds hP h hwalk fun heq => hblame heq hcheck
    split
    · rename_i heq
      rw [heq] at haccept
      exact haccept
    · rename_i heq
      rw [heq] at haccept
      exact (haccept.markFailedValid hfound).markFailedChild habove

theorem processNewBlockHeaders_holds (hP : Stable P) (h : Holds P s hash)
    {headers : List (CallContext × CBlockHeader)} (hwalk : ∀ c ∈ headers, WalkKeeps P hash c.1) :
    Holds P (n.processNewBlockHeaders headers s).2 hash := by
  induction headers generalizing s with
  | nil => exact h
  | cons c rest ih =>
    obtain ⟨ctx, header⟩ := c
    have hheader := acceptBlockHeader_holds (n := n) hP h
      (hwalk (ctx, header) List.mem_cons_self) header
    unfold Node.processNewBlockHeaders
    split
    · rename_i heq
      rw [heq] at hheader
      exact hheader
    · rename_i heq
      rw [heq] at hheader
      exact ih hheader fun c hc => hwalk c (List.mem_cons_of_mem _ hc)

/-- a call that does not break `P` at `hash` -/
def Keeps (n : Node) (P : BlockStatus → Prop) (hash : Uint256) : Call → Prop
  | .accept ctx _ block => WalkKeeps P hash ctx ∧
      (n.blockHash block = hash → Blames (n.verdict block) →
        ∀ status, P status → P { status with failedValid := true })
  | .process ctx _ block => WalkKeeps P hash ctx ∧
      (n.blockHash block = hash → n.checkBlock block = .ok () → Blames (n.verdict block) →
        ∀ status, P status → P { status with failedValid := true }) ∧
      (hash ∈ ctx.invalidFound → ∀ status, P status → P { status with failedValid := true }) ∧
      (hash ∈ ctx.invalidAbove → ∀ status, P status → P { status with failedChild := true })
  | .headers headers => ∀ c ∈ headers, WalkKeeps P hash c.1

theorem step_holds (hP : Stable P) (h : Holds P s hash) {call : Call} (hcall : Keeps n P hash call) :
    Holds P (n.step s call) hash := by
  cases call with
  | accept ctx fRequested block => exact acceptBlock_holds hP h hcall.1 hcall.2
  | process ctx fForceProcessing block =>
    exact processNewBlock_holds hP h hcall.1 hcall.2.1 hcall.2.2.1 hcall.2.2.2
  | headers headers => exact processNewBlockHeaders_holds hP h hcall

theorem run_holds (hP : Stable P) (h : Holds P s hash) {calls : List Call}
    (hcalls : ∀ call ∈ calls, Keeps n P hash call) : Holds P (n.run s calls) hash := by
  induction calls generalizing s with
  | nil => exact h
  | cons call rest ih =>
    exact ih (step_holds hP h (hcalls call List.mem_cons_self))
      fun c hc => hcalls c (List.mem_cons_of_mem _ hc)

def NotFailedValid (status : BlockStatus) : Prop := status.failedValid = false

theorem stable_notFailedValid : Stable NotFailedValid := ⟨rfl, fun _ _ h => h⟩

def NotFailed (status : BlockStatus) : Prop := status.failed = false

theorem stable_notFailed : Stable NotFailed := ⟨rfl, fun _ _ h => h⟩

/-! ## what is written -/

theorem acceptBlockHeader_disk (n : Node) (ctx : CallContext) (header : CBlockHeader)
    (s : BlockStore) : (n.acceptBlockHeader ctx header s).2.disk = s.disk := by
  unfold Node.acceptBlockHeader
  simp only
  repeat' split
  all_goals rfl

/-- a body is written only after both checks accepted it -/
theorem acceptBlock_disk (n : Node) (ctx : CallContext) (fRequested : Bool) (block : CBlock)
    (s : BlockStore) :
    (n.acceptBlock ctx fRequested block s).2.disk = s.disk ∨
      (n.acceptBlock ctx fRequested block s).2.disk = s.disk ++ [block] ∧
        n.verdict block = .ok () := by
  have hheader := acceptBlockHeader_disk n ctx block.header s
  unfold Node.acceptBlock
  split
  · rename_i heq
    rw [heq] at hheader
    exact .inl hheader
  · rename_i heq
    rw [heq] at hheader
    split
    · exact .inl hheader
    · unfold Node.acceptBody
      split
      · exact .inl hheader
      · split
        · exact .inl hheader
        · split
          · simp only
            split
            · exact .inl hheader
            · exact .inl hheader
          · exact .inl hheader
          · rename_i hverdict
            split
            · exact .inl hheader
            · exact .inr ⟨congrArg (· ++ [block]) hheader, hverdict⟩

theorem checkBlock_of_verdict (h : n.verdict block = .ok ()) :
    n.checkBlock block = .ok () := by
  obtain ⟨⟨⟩, hcheck, -⟩ := Checked.bind_eq_ok.mp h
  exact hcheck

theorem proofOfWork_of_checkBlock (h : n.checkBlock block = .ok ()) :
    checkBlockProofOfWork n.hash256 n.blake3 n.scrypt n.params block.header = true := by
  obtain ⟨⟨⟩, hheader, -⟩ := Checked.bind_eq_ok.mp h
  unfold checkBlockHeader at hheader
  have hwork := (Checked.ite_error_eq_ok.mp hheader).1
  rw [Bool.true_and, Bool.not_eq_true', Bool.not_eq_false] at hwork
  exact hwork

/-- every block on disk was there before, or carries its work -/
def DiskWorked (n : Node) (before after : BlockStore) : Prop :=
  ∀ block ∈ after.disk, block ∈ before.disk ∨
    checkBlockProofOfWork n.hash256 n.blake3 n.scrypt n.params block.header = true

theorem DiskWorked.trans {s₁ s₂ s₃ : BlockStore} (h : DiskWorked n s₁ s₂) (h' : DiskWorked n s₂ s₃) :
    DiskWorked n s₁ s₃ := by
  intro block hblock
  rcases h' block hblock with hmem | hwork
  · exact h block hmem
  · exact .inr hwork

theorem diskWorked_of_eq {s' : BlockStore} (h : s'.disk = s.disk) : DiskWorked n s s' := by
  intro block hblock
  rw [h] at hblock
  exact .inl hblock

theorem acceptBlock_diskWorked {fRequested : Bool} :
    DiskWorked n s (n.acceptBlock ctx fRequested block s).2 := by
  rcases acceptBlock_disk n ctx fRequested block s with h | ⟨h, hverdict⟩
  · exact diskWorked_of_eq h
  · intro b hb
    rw [h, List.mem_append, List.mem_singleton] at hb
    rcases hb with hb | rfl
    · exact .inl hb
    · exact .inr (proofOfWork_of_checkBlock (checkBlock_of_verdict hverdict))

theorem processNewBlockHeaders_disk (headers : List (CallContext × CBlockHeader)) (s : BlockStore) :
    (n.processNewBlockHeaders headers s).2.disk = s.disk := by
  induction headers generalizing s with
  | nil => rfl
  | cons c rest ih =>
    obtain ⟨ctx, header⟩ := c
    have hheader := acceptBlockHeader_disk n ctx header s
    unfold Node.processNewBlockHeaders
    split
    · rename_i heq
      rw [heq] at hheader
      exact hheader
    · rename_i heq
      rw [heq] at hheader
      exact (ih _).trans hheader

theorem step_diskWorked (call : Call) : DiskWorked n s (n.step s call) := by
  cases call with
  | accept ctx fRequested block => exact acceptBlock_diskWorked
  | process ctx fForceProcessing block =>
    have haccept : DiskWorked n s (n.acceptBlock ctx fForceProcessing block s).2 :=
      acceptBlock_diskWorked
    show DiskWorked n s (n.processNewBlock ctx fForceProcessing block s).2
    unfold Node.processNewBlock
    split
    · exact diskWorked_of_eq rfl
    · split
      · rename_i heq
        rw [heq] at haccept
        exact haccept
      · rename_i heq
        rw [heq] at haccept
        exact haccept
  | headers headers => exact diskWorked_of_eq (processNewBlockHeaders_disk headers s)

theorem run_diskWorked (s : BlockStore) (calls : List Call) : DiskWorked n s (n.run s calls) := by
  induction calls generalizing s with
  | nil => exact diskWorked_of_eq rfl
  | cons call rest ih => exact (step_diskWorked call).trans (ih (n.step s call))

end

end Consensus
