import Mathlib.Data.List.AList
import ZkCoin.Library.FirstsQueue
import ZkCoin.Mining.BlockAssembler

/-!
# The store of merge-mining candidates

Blocks that were handed out to miners wait in a map until work for them comes back.  A queue says which
one is evicted when the map is full, and two more maps find a block again for a payout script or for the
wallet.  A block that is stored again enters the queue a second time; what counts is its first place.

* `CandidateStore`            — the global variables, with the functions that change them.
* `createAuxBlockCandidate`   — the call that looks up or stores a candidate.
* `Shelf`                     — what is kept: the hashes in the order of their first store.
* `CandidateStore.Holds`      — a store and its shelf.
* `evict_holds`, `store_holds` — eviction ends, and takes from the front of the shelf.
* `candidate_store_run`       — every run of operations.
* `stored_again_evicted_first` — a block that is stored again does not wait longer.

Wallets and reserved destinations are of any types; the lock is held throughout.
-/

open Bytes Consensus

namespace Mining

def maxAuxpowCandidates : Nat := 32

def auxpowMempoolRefreshSeconds : Int := 60

structure AuxPowCandidate (W D : Type) where
  block : CBlock
  wallet : Option W
  reservedDestination : Option D

/-- the global variables; scripts are named by their ids -/
structure CandidateStore (W D : Type) where
  candidates : AList fun _ : Uint256 => AuxPowCandidate W D
  order : List Uint256
  byScript : AList fun _ : Bytes => Uint256
  walletCandidate : Uint256
  tip : Uint256
  transactionsUpdated : Nat
  startTime : Int

/-- the arguments of `StoreAuxPowCandidate`, and what it reads of mempool and clock -/
structure StoreRequest (W D : Type) where
  block : CBlock
  scriptPubKey : Bytes
  transactionsUpdated : Nat
  now : Int
  wallet : Option W
  reservedDestination : Option D
  walletCandidate : Bool

def eraseValue (m : AList fun _ : Bytes => Uint256) (hash : Uint256) : AList fun _ : Bytes => Uint256 :=
  ⟨m.entries.filter (·.2 ≠ hash), m.nodupKeys.sublist List.filter_sublist⟩

namespace CandidateStore

variable {W D : Type}

def initial : CandidateStore W D := ⟨∅, [], ∅, .null, .null, 0, 0⟩

def clearAuxPowCandidates (s : CandidateStore W D) : CandidateStore W D :=
  { s with candidates := ∅, order := [], byScript := ∅, walletCandidate := .null }

def removeAuxPowCandidate (s : CandidateStore W D) (hash : Uint256) : CandidateStore W D :=
  { s with
    candidates := s.candidates.erase hash
    order := s.order.filter (· ≠ hash)
    byScript := eraseValue s.byScript hash
    walletCandidate := if s.walletCandidate = hash then .null else s.walletCandidate }

def resetAuxPowCandidatesForTip (s : CandidateStore W D) (tipHash : Uint256) : CandidateStore W D :=
  if s.tip ≠ tipHash then { s.clearAuxPowCandidates with tip := tipHash } else s

def expireAuxPowScriptCandidatesForMempool (s : CandidateStore W D) (transactionsUpdated : Nat)
    (now : Int) : CandidateStore W D :=
  if s.byScript.entries ≠ [] ∧ transactionsUpdated ≠ s.transactionsUpdated ∧
      now - s.startTime > auxpowMempoolRefreshSeconds then
    { s with byScript := ∅, walletCandidate := .null }
  else s

def findAuxPowCandidate (scriptId : Bytes → Bytes) (s : CandidateStore W D) (scriptPubKey : Bytes) :
    Option CBlock × CandidateStore W D :=
  match s.byScript.lookup (scriptId scriptPubKey) with
  | none => (none, s)
  | some hash =>
    match s.candidates.lookup hash with
    | none => (none, { s with byScript := s.byScript.erase (scriptId scriptPubKey) })
    | some candidate => (some candidate.block, s)

def findWalletAuxPowCandidate (s : CandidateStore W D) : Option CBlock × CandidateStore W D :=
  if s.walletCandidate.isNull then (none, s)
  else
    match s.candidates.lookup s.walletCandidate with
    | none => (none, { s with walletCandidate := .null })
    | some candidate => (some candidate.block, s)

/-- `StoreAuxPowCandidate` before its loop -/
def insertAuxPowCandidate (hash256 : Bytes → Uint256) (scriptId : Bytes → Bytes)
    (s : CandidateStore W D) (r : StoreRequest W D) : CandidateStore W D :=
  let hash := r.block.header.getHash hash256
  { s with
    candidates := s.candidates.insert hash ⟨r.block, r.wallet, r.reservedDestination⟩
    order := s.order ++ [hash]
    byScript := s.byScript.insert (scriptId r.scriptPubKey) hash
    walletCandidate := if r.walletCandidate then hash else s.walletCandidate
    transactionsUpdated := r.transactionsUpdated
    startTime := r.now }

/-- the eviction loop; `none` if it does not end or asks for the front of an empty queue -/
def evict : Nat → CandidateStore W D → Option (CandidateStore W D)
  | 0, _ => none
  | fuel + 1, s =>
    if s.candidates.entries.length > maxAuxpowCandidates then
      match s.order with
      | [] => none
      | evicted :: _ => evict fuel (s.removeAuxPowCandidate evicted)
    else some s

def storeAuxPowCandidate (hash256 : Bytes → Uint256) (scriptId : Bytes → Bytes)
    (s : CandidateStore W D) (r : StoreRequest W D) : Option (CandidateStore W D) :=
  let s := s.insertAuxPowCandidate hash256 scriptId r
  evict (s.candidates.entries.length + 1) s

end CandidateStore

/-! ## the call that hands out candidates -/

inductive RPCErrorCode
  | internalError
  | miscError
  | clientNotConnected
  | clientInInitialDownload
  | clientP2pDisabled
  deriving DecidableEq

/-- what stops a call: an error of the interface, an exception of the assembler, a loop of
`StoreAuxPowCandidate` that does not end, or `std::map::at` -/
inductive CreateFault
  | rpc (code : RPCErrorCode) (message : String)
  | assembler
  | noEnd
  | outOfRange
  deriving DecidableEq

/-- a request to `CreateAuxBlockCandidate`, with what it reads of the node -/
structure AuxCall (W D : Type) where
  hasConnman : Bool
  isTestChain : Bool
  nodeCount : Nat
  isInitialBlockDownload : Bool
  /-- the tip of the active chain, as the assembler sees it -/
  tip : Option TemplateContext
  pedersen : Mw.Pedersen
  packages : List Package
  transactionsUpdated : Nat
  now : Int
  coinbaseScript : Bytes
  wallet : Option W
  reservedDestination : Option D
  walletCandidate : Bool

def AuxCall.request {W D : Type} (call : AuxCall W D) (block : CBlock) : StoreRequest W D where
  block := block
  scriptPubKey := call.coinbaseScript
  transactionsUpdated := call.transactionsUpdated
  now := call.now
  wallet := call.wallet
  reservedDestination := call.reservedDestination
  walletCandidate := call.walletCandidate

/-- a template that does not announce a payload gets the placeholder -/
def ensureAuxpow (n : Node) (block : CBlock) : CBlock :=
  if !block.header.isAuxpow || block.header.auxpow.isNone then
    { block with header := initAuxPow n (setBaseVersion
        (setAuxpowVersion block.header.toCPureBlockHeader false) versionbitsLastOldBlockVersion
        n.params.auxpow.nChainId) }
  else block

section
variable {W D : Type} (n : Node) (scriptId : Bytes → Bytes)

/-- `CreateAuxBlockCandidate` when no candidate was found -/
def createNewCandidate (call : AuxCall W D) (ctx : TemplateContext) (s : CandidateStore W D) :
    CandidateStore W D × Except CreateFault (CBlock × Int) :=
  if call.walletCandidate &&
      (call.wallet.isNone || call.reservedDestination.isNone || call.coinbaseScript.isEmpty) then
    (s, .error (.rpc .internalError "missing wallet payout reservation for getauxblock"))
  else
    match createNewBlock n call.pedersen ctx call.coinbaseScript call.packages with
    | none => (s, .error .assembler)
    | some block =>
      let block := ensureAuxpow n block
      match s.storeAuxPowCandidate n.hash256 scriptId (call.request block) with
      | none => (s, .error .noEnd)
      | some s =>
        match s.candidates.lookup (block.header.getHash n.hash256) with
        | none => (s, .error .outOfRange)
        | some candidate => (s, .ok (candidate.block, ctx.nHeight))

/-- `CreateAuxBlockCandidate` on a tip -/
def createOnTip (call : AuxCall W D) (ctx : TemplateContext) (s : CandidateStore W D) :
    CandidateStore W D × Except CreateFault (CBlock × Int) :=
  let s := s.resetAuxPowCandidatesForTip ctx.tipHash
  let s := s.expireAuxPowScriptCandidatesForMempool call.transactionsUpdated call.now
  let (candidate, s) := if call.walletCandidate then s.findWalletAuxPowCandidate
    else s.findAuxPowCandidate scriptId call.coinbaseScript
  match candidate with
  | some block => (s, .ok (block, ctx.nHeight))
  | none => createNewCandidate n scriptId call ctx s

def createAuxBlockCandidate (call : AuxCall W D) (s : CandidateStore W D) :
    CandidateStore W D × Except CreateFault (CBlock × Int) :=
  if !call.hasConnman then
    (s, .error (.rpc .clientP2pDisabled "Error: Peer-to-peer functionality missing or disabled"))
  else if !call.isTestChain && call.nodeCount == 0 then
    (s, .error (.rpc .clientNotConnected "zkCoin Core is not connected!"))
  else if !call.isTestChain && call.isInitialBlockDownload then
    (s, .error (.rpc .clientInInitialDownload
      "zkCoin Core is in initial sync and waiting for blocks..."))
  else
    match call.tip with
    | none => (s, .error (.rpc .internalError "No active chain tip"))
    | some ctx =>
      if !n.params.auxpow.isEnabled ctx.nHeight then
        (s, .error (.rpc .miscError "AuxPoW is not active for the next block"))
      else createOnTip n scriptId call ctx s

end

/-! ## operations -/

inductive StoreOp (W D : Type)
  | store (r : StoreRequest W D)
  | remove (hash : Uint256)
  | resetForTip (tipHash : Uint256)
  | expire (transactionsUpdated : Nat) (now : Int)
  | find (scriptPubKey : Bytes)
  | findWallet

section
variable {W D : Type} (hash256 : Bytes → Uint256) (scriptId : Bytes → Bytes)

def CandidateStore.step (s : CandidateStore W D) : StoreOp W D → Option (CandidateStore W D)
  | .store r => s.storeAuxPowCandidate hash256 scriptId r
  | .remove hash => some (s.removeAuxPowCandidate hash)
  | .resetForTip tipHash => some (s.resetAuxPowCandidatesForTip tipHash)
  | .expire transactionsUpdated now =>
    some (s.expireAuxPowScriptCandidatesForMempool transactionsUpdated now)
  | .find scriptPubKey => some (s.findAuxPowCandidate scriptId scriptPubKey).2
  | .findWallet => some s.findWalletAuxPowCandidate.2

/-- every stored block builds on the tip that is recorded when it is stored -/
def StoresOnTip : Uint256 → List (StoreOp W D) → Prop
  | _, [] => True
  | tip, .store r :: ops => r.block.header.hashPrevBlock = tip ∧ StoresOnTip tip ops
  | _, .resetForTip tipHash :: ops => StoresOnTip tipHash ops
  | tip, .remove _ :: ops => StoresOnTip tip ops
  | tip, .expire _ _ :: ops => StoresOnTip tip ops
  | tip, .find _ :: ops => StoresOnTip tip ops
  | tip, .findWallet :: ops => StoresOnTip tip ops

/-! ## what is kept -/

/-- the tip and the hashes on the shelf, those that were put there first in front -/
structure Shelf where
  tip : Uint256
  hashes : List Uint256

/-- a hash that is on the shelf keeps its place; what does not fit falls off the front -/
def Shelf.put (hashes : List Uint256) (hash : Uint256) : List Uint256 :=
  let hashes := if hash ∈ hashes then hashes else hashes ++ [hash]
  hashes.drop (hashes.length - maxAuxpowCandidates)

def Shelf.step (shelf : Shelf) : StoreOp W D → Shelf
  | .store r => { shelf with hashes := Shelf.put shelf.hashes (r.block.header.getHash hash256) }
  | .remove hash => { shelf with hashes := shelf.hashes.filter (· ≠ hash) }
  | .resetForTip tipHash => if shelf.tip ≠ tipHash then ⟨tipHash, []⟩ else shelf
  | .expire _ _ => shelf
  | .find _ => shelf
  | .findWallet => shelf

def shelfOf (ops : List (StoreOp W D)) : Shelf := ops.foldl (Shelf.step hash256) ⟨.null, []⟩

end

/-! ## a store and its shelf -/

open FirstsQueue

theorem lookup_eraseValue {m : AList fun _ : Bytes => Uint256} {hash h : Uint256} {id : Bytes} :
    (eraseValue m hash).lookup id = some h ↔ m.lookup id = some h ∧ h ≠ hash := by
  have hmem : ∀ m : AList fun _ : Bytes => Uint256, m.lookup id = some h ↔ ⟨id, h⟩ ∈ m.entries :=
    fun m => AList.mem_lookup_iff
  rw [hmem, hmem]
  show _ ∈ m.entries.filter _ ↔ _
  rw [List.mem_filter, decide_eq_true_eq]

theorem entries_length_eq {W D : Type} (m : AList fun _ : Uint256 => AuxPowCandidate W D) :
    m.entries.length = m.keys.length := by
  rw [AList.keys, List.keys, List.length_map]

theorem mem_of_lookup {W D : Type} {m : AList fun _ : Uint256 => AuxPowCandidate W D} {h : Uint256}
    {c : AuxPowCandidate W D} (hc : m.lookup h = some c) : h ∈ m :=
  AList.lookup_isSome.mp (by rw [hc]; rfl)

namespace CandidateStore

variable {W D : Type} (hash256 : Bytes → Uint256)

/-- the store has the hashes of the shelf, and both ways to find a block again lead to one of them -/
structure Holds (s : CandidateStore W D) (shelf : Shelf) : Prop where
  tip_eq : s.tip = shelf.tip
  firsts_eq : firsts s.order = shelf.hashes
  order_iff : ∀ h, h ∈ s.order ↔ h ∈ s.candidates
  keyed : ∀ h c, s.candidates.lookup h = some c → c.block.header.getHash hash256 = h
  script : ∀ id h, s.byScript.lookup id = some h → h ∈ s.candidates
  wallet : s.walletCandidate.isNull = true ∨ s.walletCandidate ∈ s.candidates

variable {hash256} {scriptId : Bytes → Bytes} {s : CandidateStore W D} {shelf : Shelf}

theorem initial_holds : (initial : CandidateStore W D).Holds hash256 ⟨.null, []⟩ := by
  refine ⟨rfl, rfl, fun h => ⟨nofun, nofun⟩, ?_, ?_, .inl ((Uint256.isNull_iff _).mpr rfl)⟩
  · intro h c hc
    cases hc
  · intro id h hid
    cases hid

theorem Holds.mem_iff (hs : s.Holds hash256 shelf) (h : Uint256) :
    h ∈ s.candidates ↔ h ∈ shelf.hashes := by
  rw [← hs.firsts_eq, mem_firsts, hs.order_iff]

theorem Holds.length_eq (hs : s.Holds hash256 shelf) :
    s.candidates.entries.length = shelf.hashes.length := by
  rw [entries_length_eq, ← hs.firsts_eq]
  exact length_eq_firsts s.candidates.keys_nodup fun h => (hs.order_iff h).trans AList.mem_keys

theorem remove_holds (hs : s.Holds hash256 shelf) (hash : Uint256) :
    (s.removeAuxPowCandidate hash).Holds hash256 { shelf with hashes := shelf.hashes.filter (· ≠ hash) } := by
  refine ⟨hs.tip_eq, ?_, ?_, ?_, ?_, ?_⟩
  · show firsts (s.order.filter _) = _
    rw [firsts_filter, hs.firsts_eq]
  · intro h
    show h ∈ s.order.filter _ ↔ h ∈ s.candidates.erase hash
    rw [List.mem_filter, decide_eq_true_eq, AList.mem_erase, hs.order_iff, and_comm]
  · intro h c hc
    have hne : h ≠ hash := (AList.mem_erase.mp (mem_of_lookup hc)).1
    exact hs.keyed h c ((AList.lookup_erase_ne hne).symm.trans hc)
  · intro id h hid
    obtain ⟨hid, hne⟩ := lookup_eraseValue.mp hid
    exact AList.mem_erase.mpr ⟨hne, hs.script id h hid⟩
  · show (if s.walletCandidate = hash then Uint256.null else s.walletCandidate).isNull = true ∨ _
    by_cases heq : s.walletCandidate = hash
    · rw [if_pos heq]
      exact .inl ((Uint256.isNull_iff _).mpr rfl)
    · rcases hs.wallet with hnull | hmem
      · rw [if_neg heq]
        exact .inl hnull
      · refine .inr ?_
        show (if s.walletCandidate = hash then Uint256.null else s.walletCandidate) ∈ s.candidates.erase hash
        rw [if_neg heq]
        exact AList.mem_erase.mpr ⟨heq, hmem⟩

theorem lookup_remove {hash h : Uint256} (hmem : h ∈ (s.removeAuxPowCandidate hash).candidates) :
    (s.removeAuxPowCandidate hash).candidates.lookup h = s.candidates.lookup h :=
  AList.lookup_erase_ne (AList.mem_erase.mp hmem).1

theorem insert_holds (hs : s.Holds hash256 shelf) (r : StoreRequest W D) :
    (s.insertAuxPowCandidate hash256 scriptId r).Holds hash256 { shelf with
      hashes := if r.block.header.getHash hash256 ∈ shelf.hashes then shelf.hashes
        else shelf.hashes ++ [r.block.header.getHash hash256] } := by
  refine ⟨hs.tip_eq, ?_, ?_, ?_, ?_, ?_⟩
  · have hsame : r.block.header.getHash hash256 ∈ s.order ↔
        r.block.header.getHash hash256 ∈ shelf.hashes := (hs.order_iff _).trans (hs.mem_iff _)
    show firsts (s.order ++ [_]) = if _ then _ else _
    rw [firsts_concat, hs.firsts_eq]
    exact if_congr hsame rfl rfl
  · intro h
    show h ∈ s.order ++ [_] ↔ h ∈ s.candidates.insert _ _
    rw [List.mem_append, List.mem_singleton, AList.mem_insert, hs.order_iff, or_comm]
  · intro h c hc
    by_cases heq : h = r.block.header.getHash hash256
    · subst heq
      obtain rfl := Option.some.inj ((AList.lookup_insert _).symm.trans hc)
      rfl
    · exact hs.keyed h c ((AList.lookup_insert_ne heq).symm.trans hc)
  · intro id h hid
    refine (AList.mem_insert _).mpr ?_
    by_cases heq : id = scriptId r.scriptPubKey
    · subst heq
      exact .inl (Option.some.inj ((AList.lookup_insert _).symm.trans hid)).symm
    · exact .inr (hs.script id h ((AList.lookup_insert_ne heq).symm.trans hid))
  · show (if r.walletCandidate then r.block.header.getHash hash256 else s.walletCandidate).isNull = true ∨
      (if r.walletCandidate then r.block.header.getHash hash256 else s.walletCandidate) ∈
        s.candidates.insert _ _
    cases r.walletCandidate with
    | true => exact .inr ((AList.mem_insert _).mpr (.inl rfl))
    | false =>
      rcases hs.wallet with hnull | hmem
      · exact .inl hnull
      · exact .inr ((AList.mem_insert _).mpr (.inr hmem))

/-- **Eviction.**  The loop ends, takes what is too much from the front of the shelf, and leaves the
other candidates as they are. -/
theorem evict_holds (hs : s.Holds hash256 shelf) {fuel : Nat}
    (hfuel : shelf.hashes.length < fuel) :
    ∃ s', evict fuel s = some s' ∧
      s'.Holds hash256 { shelf with
        hashes := shelf.hashes.drop (shelf.hashes.length - maxAuxpowCandidates) } ∧
      (∀ h ∈ s'.candidates, s'.candidates.lookup h = s.candidates.lookup h) := by
  induction fuel generalizing s shelf with
  | zero => omega
  | succ fuel ih =>
    unfold evict
    rw [hs.length_eq]
    rcases Nat.lt_or_ge maxAuxpowCandidates shelf.hashes.length with hfull | hfits
    · rw [if_pos hfull]
      cases horder : s.order with
      | nil =>
        have hempty := hs.firsts_eq
        rw [horder] at hempty
        rw [← hempty] at hfull
        exact absurd hfull (Nat.not_lt_zero _)
      | cons evicted rest =>
        have hfront : shelf.hashes.filter (· ≠ evicted) = shelf.hashes.tail := by
          rw [← hs.firsts_eq, horder, ← firsts_filter, firsts_drop_front]
        have hnext := remove_holds hs evicted
        rw [hfront] at hnext
        have hlen : shelf.hashes.tail.length = shelf.hashes.length - 1 := List.length_tail
        obtain ⟨s', hrun, hs', hlookup⟩ := ih hnext (by dsimp only; omega)
        refine ⟨s', hrun, ?_, ?_⟩
        · have hdrop : shelf.hashes.tail.drop (shelf.hashes.tail.length - maxAuxpowCandidates) =
              shelf.hashes.drop (shelf.hashes.length - maxAuxpowCandidates) := by
            rw [← List.drop_one, List.drop_drop]
            congr 1
            rw [List.drop_one]
            omega
          dsimp only at hs'
          rw [hdrop] at hs'
          exact hs'
        · intro h hh
          have hmem : h ∈ (s.removeAuxPowCandidate evicted).candidates := by
            rw [hnext.mem_iff]
            exact List.mem_of_mem_drop ((hs'.mem_iff h).mp hh)
          rw [hlookup h hh, lookup_remove hmem]
    · refine ⟨s, if_neg (by omega), ?_, fun h _ => rfl⟩
      rw [Nat.sub_eq_zero_of_le hfits, List.drop_zero]
      exact hs

theorem mem_put {hashes : List Uint256} (hlen : hashes.length ≤ maxAuxpowCandidates) (hash : Uint256) :
    hash ∈ Shelf.put hashes hash := by
  unfold Shelf.put
  dsimp only
  split
  · rename_i hmem
    rw [Nat.sub_eq_zero_of_le hlen, List.drop_zero]
    exact hmem
  · rw [List.drop_append_of_le_length]
    · exact List.mem_append_right _ List.mem_cons_self
    · rw [List.length_append, List.length_singleton]
      unfold maxAuxpowCandidates at hlen ⊢
      omega

theorem put_length_le (hashes : List Uint256) (hash : Uint256) :
    (Shelf.put hashes hash).length ≤ maxAuxpowCandidates := by
  unfold Shelf.put
  dsimp only
  rw [List.length_drop]
  omega

/-- **Storing.**  What is stored is there, and the other candidates that are left are as before. -/
theorem store_holds (hs : s.Holds hash256 shelf) (hlen : shelf.hashes.length ≤ maxAuxpowCandidates)
    (r : StoreRequest W D) :
    ∃ s', s.storeAuxPowCandidate hash256 scriptId r = some s' ∧
      s'.Holds hash256 { shelf with hashes := Shelf.put shelf.hashes (r.block.header.getHash hash256) } ∧
      s'.candidates.lookup (r.block.header.getHash hash256) =
        some ⟨r.block, r.wallet, r.reservedDestination⟩ ∧
      ∀ h c, s'.candidates.lookup h = some c → h ≠ r.block.header.getHash hash256 →
        s.candidates.lookup h = some c := by
  have hinsert : (s.insertAuxPowCandidate hash256 scriptId r).Holds hash256 _ := insert_holds hs r
  obtain ⟨s', hrun, hs', hlookup⟩ := evict_holds hinsert (Nat.lt_succ_of_le hinsert.length_eq.ge)
  refine ⟨s', hrun, hs', ?_, ?_⟩
  · rw [hlookup _ ((hs'.mem_iff _).mpr (mem_put hlen _))]
    exact AList.lookup_insert _
  · intro h c hc hne
    rw [hlookup h (mem_of_lookup hc)] at hc
    exact (AList.lookup_insert_ne hne).symm.trans hc

theorem reset_holds (hs : s.Holds hash256 shelf) (tipHash : Uint256) :
    (s.resetAuxPowCandidatesForTip tipHash).Holds hash256
      (if shelf.tip ≠ tipHash then ⟨tipHash, []⟩ else shelf) := by
  unfold resetAuxPowCandidatesForTip
  rw [hs.tip_eq]
  split
  · exact ⟨rfl, rfl, fun h => ⟨nofun, nofun⟩, (fun h c hc => nomatch hc), (fun id h hid => nomatch hid),
      .inl ((Uint256.isNull_iff _).mpr rfl)⟩
  · exact hs

theorem expire_holds (hs : s.Holds hash256 shelf) (transactionsUpdated : Nat) (now : Int) :
    (s.expireAuxPowScriptCandidatesForMempool transactionsUpdated now).Holds hash256 shelf := by
  unfold expireAuxPowScriptCandidatesForMempool
  split
  · exact ⟨hs.tip_eq, hs.firsts_eq, hs.order_iff, hs.keyed, (fun id h hid => nomatch hid),
      .inl ((Uint256.isNull_iff _).mpr rfl)⟩
  · exact hs

theorem expire_candidates (s : CandidateStore W D) (transactionsUpdated : Nat) (now : Int) :
    (s.expireAuxPowScriptCandidatesForMempool transactionsUpdated now).candidates = s.candidates ∧
      (s.expireAuxPowScriptCandidatesForMempool transactionsUpdated now).tip = s.tip := by
  unfold expireAuxPowScriptCandidatesForMempool
  split
  · exact ⟨rfl, rfl⟩
  · exact ⟨rfl, rfl⟩

variable (hash256) in
def Present (s : CandidateStore W D) (block : CBlock) : Prop :=
  ∃ c, s.candidates.lookup (block.header.getHash hash256) = some c ∧ c.block = block

/-- a lookup by script changes nothing, and gives a block that is there -/
theorem find_spec (hs : s.Holds hash256 shelf) (scriptPubKey : Bytes) :
    (s.findAuxPowCandidate scriptId scriptPubKey).2 = s ∧
      ∀ block, (s.findAuxPowCandidate scriptId scriptPubKey).1 = some block →
        s.Present hash256 block := by
  unfold findAuxPowCandidate
  cases hid : s.byScript.lookup (scriptId scriptPubKey) with
  | none => exact ⟨rfl, fun block hblock => absurd hblock.symm (Option.some_ne_none block)⟩
  | some hash =>
    obtain ⟨c, hc⟩ := Option.isSome_iff_exists.mp (AList.lookup_isSome.mpr (hs.script _ _ hid))
    dsimp only
    rw [hc]
    refine ⟨rfl, ?_⟩
    intro block hblock
    obtain rfl := Option.some.inj hblock
    refine ⟨c, ?_, rfl⟩
    rw [hs.keyed hash c hc]
    exact hc

theorem findWallet_spec (hs : s.Holds hash256 shelf) :
    s.findWalletAuxPowCandidate.2 = s ∧
      ∀ block, s.findWalletAuxPowCandidate.1 = some block → s.Present hash256 block := by
  unfold findWalletAuxPowCandidate
  by_cases hnull : s.walletCandidate.isNull = true
  · rw [if_pos hnull]
    exact ⟨rfl, fun block hblock => absurd hblock.symm (Option.some_ne_none block)⟩
  · rw [if_neg hnull]
    obtain ⟨c, hc⟩ := Option.isSome_iff_exists.mp
      (AList.lookup_isSome.mpr (hs.wallet.resolve_left hnull))
    rw [hc]
    refine ⟨rfl, ?_⟩
    intro block hblock
    obtain rfl := Option.some.inj hblock
    refine ⟨c, ?_, rfl⟩
    rw [hs.keyed _ c hc]
    exact hc

/-! ## runs -/

def OnTip (s : CandidateStore W D) : Prop :=
  ∀ h c, s.candidates.lookup h = some c → c.block.header.hashPrevBlock = s.tip

/-- **One step.**  It succeeds and does to the shelf what it should; if a stored block builds on the tip,
all candidates still do. -/
theorem step_holds (hs : s.Holds hash256 shelf) (hlen : shelf.hashes.length ≤ maxAuxpowCandidates)
    (op : StoreOp W D) :
    ∃ s', s.step hash256 scriptId op = some s' ∧ s'.Holds hash256 (shelf.step hash256 op) ∧
      (shelf.step hash256 op).hashes.length ≤ maxAuxpowCandidates ∧
      (StoresOnTip s.tip [op] → s.OnTip → s'.OnTip) := by
  cases op with
  | store r =>
    obtain ⟨s', hrun, hs', hstored, hothers⟩ := store_holds hs hlen r
    refine ⟨s', hrun, hs', put_length_le _ _, ?_⟩
    intro ⟨hprev, _⟩ htip h c hc
    have htip' : s'.tip = s.tip := hs'.tip_eq.trans hs.tip_eq.symm
    rw [htip']
    by_cases heq : h = r.block.header.getHash hash256
    · subst heq
      obtain rfl := Option.some.inj (hstored.symm.trans hc)
      exact hprev
    · exact htip h c (hothers h c hc heq)
  | remove hash =>
    refine ⟨_, rfl, remove_holds hs hash, (List.length_filter_le _ _).trans hlen, ?_⟩
    intro _ htip h c hc
    exact htip h c ((lookup_remove (mem_of_lookup hc)).symm.trans hc)
  | resetForTip tipHash =>
    refine ⟨_, rfl, reset_holds hs tipHash, ?_, ?_⟩
    · show (if shelf.tip ≠ tipHash then (⟨tipHash, []⟩ : Shelf) else shelf).hashes.length ≤ _
      split
      · exact Nat.zero_le _
      · exact hlen
    · intro _ htip
      unfold resetAuxPowCandidatesForTip
      split
      · intro h c hc
        cases hc
      · exact htip
  | expire transactionsUpdated now =>
    refine ⟨_, rfl, expire_holds hs transactionsUpdated now, hlen, ?_⟩
    obtain ⟨hcandidates, htip'⟩ := expire_candidates s transactionsUpdated now
    intro _ htip h c hc
    rw [htip']
    rw [hcandidates] at hc
    exact htip h c hc
  | find scriptPubKey =>
    have hsame : (s.findAuxPowCandidate scriptId scriptPubKey).2 = s := (find_spec hs scriptPubKey).1
    exact ⟨s, congrArg some hsame, hs, hlen, fun _ htip => htip⟩
  | findWallet => exact ⟨s, congrArg some (findWallet_spec hs).1, hs, hlen, fun _ htip => htip⟩

theorem storesOnTip_cons {op : StoreOp W D} {ops : List (StoreOp W D)}
    (h : StoresOnTip shelf.tip (op :: ops)) :
    StoresOnTip shelf.tip [op] ∧ StoresOnTip (shelf.step hash256 op).tip ops := by
  cases op with
  | store r => exact ⟨⟨h.1, trivial⟩, h.2⟩
  | resetForTip tipHash =>
    refine ⟨trivial, ?_⟩
    have htip : (shelf.step hash256 (.resetForTip tipHash : StoreOp W D)).tip = tipHash := by
      show (if shelf.tip ≠ tipHash then (⟨tipHash, []⟩ : Shelf) else shelf).tip = tipHash
      split
      · rfl
      · rename_i heq
        exact not_not.mp heq
    rw [htip]
    exact h
  | remove hash => exact ⟨trivial, h⟩
  | expire transactionsUpdated now => exact ⟨trivial, h⟩
  | find scriptPubKey => exact ⟨trivial, h⟩
  | findWallet => exact ⟨trivial, h⟩

/-- **Runs.**  Every run goes through, with the store on the shelf's way. -/
theorem run_holds (hs : s.Holds hash256 shelf) (hlen : shelf.hashes.length ≤ maxAuxpowCandidates)
    (ops : List (StoreOp W D)) :
    ∃ s', ops.foldlM (step hash256 scriptId) s = some s' ∧
      s'.Holds hash256 (ops.foldl (Shelf.step hash256) shelf) ∧
      (ops.foldl (Shelf.step hash256) shelf).hashes.length ≤ maxAuxpowCandidates ∧
      (StoresOnTip s.tip ops → s.OnTip → s'.OnTip) := by
  induction ops generalizing s shelf with
  | nil => exact ⟨s, rfl, hs, hlen, fun _ htip => htip⟩
  | cons op ops ih =>
    obtain ⟨s₁, hrun₁, hs₁, hlen₁, htip₁⟩ : ∃ s₁, s.step hash256 scriptId op = some s₁ ∧ _ :=
      step_holds hs hlen op
    obtain ⟨s₂, hrun₂, hs₂, hlen₂, htip₂⟩ := ih hs₁ hlen₁
    refine ⟨s₂, ?_, hs₂, hlen₂, ?_⟩
    · rw [List.foldlM_cons, hrun₁]
      exact hrun₂
    · intro hops htip
      rw [hs.tip_eq] at hops htip₁
      obtain ⟨hop, hops⟩ := storesOnTip_cons hops
      rw [hs₁.tip_eq] at htip₂
      exact htip₂ hops (htip₁ hop htip)

end CandidateStore

/-! ## handing out candidates -/

section
variable {n : Node}

theorem setAuxpowVersion_prev (header : CPureBlockHeader) (auxpow : Bool) :
    (setAuxpowVersion header auxpow).hashPrevBlock = header.hashPrevBlock := by
  unfold setAuxpowVersion
  split
  · rfl
  · split
    · rfl
    · rfl

theorem initAuxPow_prev (header : CPureBlockHeader) :
    (initAuxPow n header).hashPrevBlock = header.hashPrevBlock := by
  show (setAuxpowVersion (setAuxpowVersion header true) true).hashPrevBlock = _
  rw [setAuxpowVersion_prev, setAuxpowVersion_prev]

theorem ensureAuxpow_prev (block : CBlock) :
    (ensureAuxpow n block).header.hashPrevBlock = block.header.hashPrevBlock := by
  unfold ensureAuxpow
  split
  · show (initAuxPow n _).hashPrevBlock = _
    rw [initAuxPow_prev, setBaseVersion, setAuxpowVersion_prev]
  · rfl

theorem createNewBlock_prev {pedersen : Mw.Pedersen} {ctx : TemplateContext} {scriptPubKeyIn : Bytes}
    {packages : List Package} {block : CBlock}
    (h : createNewBlock n pedersen ctx scriptPubKeyIn packages = some block) :
    block.header.hashPrevBlock = ctx.tipHash := by
  obtain ⟨block', hassemble, h⟩ := Option.bind_eq_some_iff.mp h
  obtain ⟨_, _, h⟩ := Option.bind_eq_some_iff.mp h
  obtain rfl := Option.some.inj h
  obtain ⟨st, _, hfinish⟩ := Option.bind_eq_some_iff.mp hassemble
  obtain ⟨hogEx, _, hfinish⟩ := Option.bind_eq_some_iff.mp hfinish
  obtain rfl := Option.some.inj hfinish
  show (prepareAuxpow n ctx _).hashPrevBlock = _
  unfold prepareAuxpow
  split
  · rw [initAuxPow_prev, setBaseVersion, setAuxpowVersion_prev]
  · rfl

variable {W D : Type} {scriptId : Bytes → Bytes} {s : CandidateStore W D} {shelf : Shelf}

/-- what is said of a call in state `s` with the given outcome -/
def CallRuns (n : Node) (scriptId : Bytes → Bytes) (s : CandidateStore W D)
    (outcome : CandidateStore W D × Except CreateFault (CBlock × Int)) : Prop :=
  outcome.2 ≠ .error .noEnd ∧ outcome.2 ≠ .error .outOfRange ∧
    ∃ ops, ops.foldlM (CandidateStore.step n.hash256 scriptId) s = some outcome.1 ∧
      StoresOnTip s.tip ops

theorem callRuns_rpc (code : RPCErrorCode) (message : String) :
    CallRuns n scriptId s (s, .error (.rpc code message)) := ⟨nofun, nofun, [], rfl, trivial⟩

theorem createNewCandidate_run (hs : s.Holds n.hash256 shelf)
    (hlen : shelf.hashes.length ≤ maxAuxpowCandidates) (call : AuxCall W D) (ctx : TemplateContext)
    (htip : s.tip = ctx.tipHash) : CallRuns n scriptId s (createNewCandidate n scriptId call ctx s) := by
  unfold createNewCandidate
  split
  · exact callRuns_rpc _ _
  cases hblock : createNewBlock n call.pedersen ctx call.coinbaseScript call.packages with
  | none => exact ⟨nofun, nofun, [], rfl, trivial⟩
  | some block =>
    dsimp only
    obtain ⟨s', hrun, _, hstored, _⟩ : ∃ s', s.storeAuxPowCandidate n.hash256 scriptId
        (call.request (ensureAuxpow n block)) = some s' ∧ _ := CandidateStore.store_holds hs hlen _
    have hlookup : s'.candidates.lookup ((ensureAuxpow n block).header.getHash n.hash256) = some _ :=
      hstored
    rw [hrun]
    dsimp only
    rw [hlookup]
    refine ⟨nofun, nofun, [.store (call.request (ensureAuxpow n block))], ?_, ?_, trivial⟩
    · rw [List.foldlM_cons, CandidateStore.step, hrun]
      rfl
    · rw [htip, ← createNewBlock_prev hblock]
      exact ensureAuxpow_prev block

theorem CallRuns.cons (op : StoreOp W D) {s' : CandidateStore W D}
    {outcome : CandidateStore W D × Except CreateFault (CBlock × Int)}
    (hop : s.step n.hash256 scriptId op = some s')
    (htip : ∀ ops, StoresOnTip s'.tip ops → StoresOnTip s.tip (op :: ops))
    (h : CallRuns n scriptId s' outcome) : CallRuns n scriptId s outcome := by
  obtain ⟨hend, hrange, ops, hrun, hops⟩ := h
  refine ⟨hend, hrange, op :: ops, ?_, htip ops hops⟩
  rw [List.foldlM_cons, hop]
  exact hrun

theorem createOnTip_run (hs : s.Holds n.hash256 shelf)
    (hlen : shelf.hashes.length ≤ maxAuxpowCandidates) (call : AuxCall W D) (ctx : TemplateContext) :
    CallRuns n scriptId s (createOnTip n scriptId call ctx s) := by
  have hreset := CandidateStore.reset_holds hs ctx.tipHash
  have hlen' : (if shelf.tip ≠ ctx.tipHash then (⟨ctx.tipHash, []⟩ : Shelf) else shelf).hashes.length ≤
      maxAuxpowCandidates := by
    split
    · exact Nat.zero_le _
    · exact hlen
  have htip : (s.resetAuxPowCandidatesForTip ctx.tipHash).tip = ctx.tipHash := by
    unfold CandidateStore.resetAuxPowCandidatesForTip
    split
    · rfl
    · rename_i heq
      exact not_not.mp heq
  refine CallRuns.cons (.resetForTip ctx.tipHash) rfl (fun ops hops => htip ▸ hops) ?_
  have hexpire := CandidateStore.expire_holds hreset call.transactionsUpdated call.now
  have htip' := (CandidateStore.expire_candidates (s.resetAuxPowCandidatesForTip ctx.tipHash)
    call.transactionsUpdated call.now).2
  refine CallRuns.cons (.expire call.transactionsUpdated call.now) rfl
    (fun ops hops => htip' ▸ hops) ?_
  unfold createOnTip
  dsimp only
  generalize CandidateStore.expireAuxPowScriptCandidatesForMempool _ _ _ = t at hexpire htip' ⊢
  have hsame : (if call.walletCandidate then t.findWalletAuxPowCandidate
      else t.findAuxPowCandidate scriptId call.coinbaseScript).2 = t := by
    split
    · exact (CandidateStore.findWallet_spec hexpire).1
    · exact (CandidateStore.find_spec hexpire call.coinbaseScript).1
  generalize (if call.walletCandidate then t.findWalletAuxPowCandidate
    else t.findAuxPowCandidate scriptId call.coinbaseScript) = found at hsame ⊢
  obtain ⟨candidate, t'⟩ := found
  obtain rfl : t' = t := hsame
  cases candidate with
  | some block => exact ⟨nofun, nofun, [], rfl, trivial⟩
  | none => exact createNewCandidate_run hexpire hlen' call ctx (htip'.trans htip)

/-- **A call is a run.**  It never meets a missing candidate, and what it does to the store is a run of the
operations whose blocks build on the tip. -/
theorem create_run (hs : s.Holds n.hash256 shelf) (hlen : shelf.hashes.length ≤ maxAuxpowCandidates)
    (call : AuxCall W D) : CallRuns n scriptId s (createAuxBlockCandidate n scriptId call s) := by
  unfold createAuxBlockCandidate
  split
  · exact callRuns_rpc _ _
  split
  · exact callRuns_rpc _ _
  split
  · exact callRuns_rpc _ _
  split
  · exact callRuns_rpc _ _
  rename_i ctx _
  split
  · exact callRuns_rpc _ _
  exact createOnTip_run hs hlen call ctx

end

/-! ## every run -/

/-- what a store takes from a full shelf for a hash that is not on it -/
def Evicted (hashes : List Uint256) (hash h : Uint256) : Prop :=
  hash ∉ hashes ∧ hashes.length = maxAuxpowCandidates ∧ hashes.head? = some h

theorem evicted_iff {hashes : List Uint256} (hnodup : hashes.Nodup)
    (hlen : hashes.length ≤ maxAuxpowCandidates) {hash h : Uint256} (hh : h ∈ hashes) :
    h ∉ Shelf.put hashes hash ↔ Evicted hashes hash h := by
  unfold Shelf.put Evicted
  dsimp only
  by_cases hmem : hash ∈ hashes
  · rw [if_pos hmem, Nat.sub_eq_zero_of_le hlen, List.drop_zero]
    exact iff_of_false (not_not_intro hh) fun hcon => hcon.1 hmem
  · rw [if_neg hmem, List.length_append, List.length_singleton]
    rcases Nat.lt_or_ge hashes.length maxAuxpowCandidates with hroom | hfull
    · rw [Nat.sub_eq_zero_of_le hroom, List.drop_zero]
      exact iff_of_false (not_not_intro (List.mem_append_left _ hh)) fun hcon => by omega
    · have heq : hashes.length = maxAuxpowCandidates := le_antisymm hlen hfull
      rw [heq, Nat.add_sub_cancel_left]
      cases hashes with
      | nil => cases hh
      | cons first rest =>
        have hne : h ≠ hash := by
          rintro rfl
          exact hmem hh
        rw [List.cons_append, List.drop_succ_cons, List.drop_zero, List.mem_append, List.mem_singleton,
          or_iff_left hne, List.head?_cons, Option.some.injEq]
        have hfirst := (List.nodup_cons.mp hnodup).1
        constructor
        · intro hnot
          refine ⟨hmem, rfl, ?_⟩
          rcases List.mem_cons.mp hh with rfl | hrest
          · rfl
          · exact absurd hrest hnot
        · intro ⟨_, _, heq⟩
          exact heq ▸ hfirst

/-- **Every run of the operations.**  The queue has the hashes of the map, at most as many as fit.  A
store has its block in the map and evicts, from a full shelf, the hash put there first.  Lookups give
blocks of the map, all of which build on the recorded tip when all stored ones did. -/
theorem candidate_store_run {W D : Type} (n : Node) (scriptId : Bytes → Bytes)
    (ops : List (StoreOp W D)) :
    ∃ s, ops.foldlM (CandidateStore.step n.hash256 scriptId) .initial = some s ∧
      (∀ h, h ∈ s.order ↔ h ∈ s.candidates) ∧
      s.candidates.entries.length ≤ maxAuxpowCandidates ∧
      (∀ h, h ∈ s.candidates ↔ h ∈ (shelfOf n.hash256 ops).hashes) ∧
      (∀ r, ∃ s', s.storeAuxPowCandidate n.hash256 scriptId r = some s' ∧
        s'.candidates.lookup (r.block.header.getHash n.hash256) =
          some ⟨r.block, r.wallet, r.reservedDestination⟩ ∧
        s'.candidates.entries.length ≤ maxAuxpowCandidates ∧
        ∀ h ∈ s.candidates, h ∉ s'.candidates ↔
          Evicted (shelfOf n.hash256 ops).hashes (r.block.header.getHash n.hash256) h) ∧
      (∀ script block, (s.findAuxPowCandidate scriptId script).1 = some block →
        s.Present n.hash256 block) ∧
      (∀ block, s.findWalletAuxPowCandidate.1 = some block → s.Present n.hash256 block) ∧
      (StoresOnTip .null ops → s.OnTip) ∧
      ∀ call, CallRuns n scriptId s (createAuxBlockCandidate n scriptId call s) := by
  obtain ⟨s, hrun, hs, hlen, htip⟩ : ∃ s, ops.foldlM (CandidateStore.step n.hash256 scriptId)
      (.initial : CandidateStore W D) = some s ∧ _ :=
    CandidateStore.run_holds CandidateStore.initial_holds (Nat.zero_le _) ops
  refine ⟨s, hrun, hs.order_iff, hs.length_eq.trans_le hlen, hs.mem_iff, ?_, ?_, ?_, ?_, ?_⟩
  · intro r
    obtain ⟨s', hstore, hs', hstored, _⟩ : ∃ s', s.storeAuxPowCandidate n.hash256 scriptId r = some s' ∧ _ :=
      CandidateStore.store_holds hs hlen r
    refine ⟨s', hstore, hstored, hs'.length_eq.trans_le (CandidateStore.put_length_le _ _), ?_⟩
    intro h hh
    rw [hs'.mem_iff]
    refine evicted_iff ?_ hlen ((hs.mem_iff h).mp hh)
    have hnodup := firsts_nodup s.order
    rw [hs.firsts_eq] at hnodup
    exact hnodup
  · intro script
    exact (CandidateStore.find_spec hs script).2
  · exact (CandidateStore.findWallet_spec hs).2
  · intro hops
    refine htip hops ?_
    intro h c hc
    cases hc
  · intro call
    exact create_run hs hlen call

def nonceBlock (nonce : Nat) : CBlock :=
  ⟨⟨⟨4, .null, .null, 0, 0, UInt32.ofNat nonce⟩, none⟩, [], none⟩

def nonceStore (nonce : Nat) : StoreOp Unit Unit :=
  .store ⟨nonceBlock nonce, [UInt8.ofNat nonce], 0, 0, none, none, false⟩

def storedAgain : List (StoreOp Unit Unit) :=
  (List.range maxAuxpowCandidates).map nonceStore ++ [nonceStore 0, nonceStore maxAuxpowCandidates]

/-- **Stored again, evicted first.**  The first block was stored more recently than the second, and is
evicted before it. -/
theorem stored_again_evicted_first : ∃ s,
    storedAgain.foldlM (CandidateStore.step Uint256.polyHash id) .initial = some s ∧
    (nonceBlock 0).header.getHash Uint256.polyHash ∉ s.candidates ∧
    (nonceBlock 1).header.getHash Uint256.polyHash ∈ s.candidates := by
  obtain ⟨s, hrun, hs, _⟩ : ∃ s, storedAgain.foldlM (CandidateStore.step Uint256.polyHash id)
      (.initial : CandidateStore Unit Unit) = some s ∧ _ :=
    CandidateStore.run_holds CandidateStore.initial_holds (Nat.zero_le _) storedAgain
  refine ⟨s, hrun, ?_, ?_⟩
  · rw [hs.mem_iff]
    decide +kernel
  · rw [hs.mem_iff]
    decide +kernel

end Mining
