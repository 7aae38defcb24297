import ZkCoin.Library.CacheTower
import ZkCoin.Primitives.Transaction

/-!
# The coins caches

`CCoinsViewCache` over its base view: unspent outputs by outpoint, read through a stack of caches
whose entries carry the `DIRTY` and `FRESH` flags.  The cache protocol is that of
`Library.CacheTower` at coins: a spent coin is the cleared one, and a coin that nobody can spend is
never added.
-/

/-- an unspent output with what its spender has to know of its transaction -/
structure Coin where
  out : CTxOut
  fCoinBase : Bool
  nHeight : Nat
  fPegout : Bool
  deriving DecidableEq

/-- `CTxOut::SetNull` -/
def CTxOut.null : CTxOut := ⟨-1, []⟩

/-- `CTxOut::IsNull` -/
def CTxOut.isNull (out : CTxOut) : Bool := out.nValue == -1

namespace Coin

/-- `Coin::Clear`, and the coin that a view without the outpoint shows -/
def empty : Coin := ⟨CTxOut.null, false, 0, false⟩

def isSpent (coin : Coin) : Bool := coin.out.isNull

end Coin

namespace Coins

open CacheTower

def coinValues : Values Coin where
  spent := Coin.isSpent
  empty := Coin.empty
  ignored coin := Script.isUnspendable coin.out.scriptPubKey
  spent_empty := rfl

abbrev CCoinsCacheEntry := Entry Coin

abbrev CCoinsMap := Cache COutPoint Coin

/-- a `CCoinsViewCache` with the views it is backed by -/
abbrev CCoinsViewCache := Tower COutPoint Coin

/-- a view without flags: the coins database, or the logical state of a cache -/
abbrev PlainCoins := AList fun _ : COutPoint => Coin

/-! ## the calls of `CCoinsViewCache` -/

/-- `CCoinsViewCache::FetchCoin` -/
def fetchCoin (outpoint : COutPoint) (cacheCoins : CCoinsMap) (base : CCoinsViewCache) :
    Option CCoinsCacheEntry × CCoinsMap × CCoinsViewCache :=
  fetch coinValues outpoint cacheCoins base

def getCoin (outpoint : COutPoint) (view : CCoinsViewCache) : Option Coin × CCoinsViewCache :=
  getValue coinValues outpoint view

def accessCoin (outpoint : COutPoint) (view : CCoinsViewCache) : Coin × CCoinsViewCache :=
  accessValue coinValues outpoint view

def haveCoin (outpoint : COutPoint) (view : CCoinsViewCache) : Bool × CCoinsViewCache :=
  haveValue coinValues outpoint view

def addCoin (outpoint : COutPoint) (coin : Coin) (possibleOverwrite : Bool)
    (view : CCoinsViewCache) : Except Fault CCoinsViewCache :=
  addValue coinValues outpoint coin possibleOverwrite view

/-- `CCoinsViewCache::SpendCoin` with the coin it moves out -/
def spendCoin (outpoint : COutPoint) (view : CCoinsViewCache) : Coin × CCoinsViewCache :=
  spendValue coinValues outpoint view

def uncache (outpoint : COutPoint) (view : CCoinsViewCache) : CCoinsViewCache :=
  CacheTower.uncache outpoint view

/-- `CCoinsViewCache::BatchWrite`, and `CCoinsViewDB::BatchWrite` at the bottom -/
def batchWrite (mapCoins : CCoinsMap) (view : CCoinsViewCache) : Except Fault CCoinsViewCache :=
  writeInto coinValues mapCoins view

def flush (view : CCoinsViewCache) : Except Fault CCoinsViewCache :=
  CacheTower.flush coinValues view

/-- **The caches show a plain map.**  Any calls on a growing and shrinking stack of caches, with only
the top one changed and coins added under the contract of `AddCoin`, are answered as by a plain map
for each level; nothing throws, `FRESH` entries are absent below, and flushing all caches leaves the
top map in the base. -/
theorem coinsViewCache_refines (base : PlainCoins)
    (hbase : ∀ outpoint coin, base.lookup outpoint = some coin → coin.isSpent = false)
    (calls : List (Call COutPoint Coin))
    (hcalls : RunAllowed coinValues [fun outpoint => base.lookup outpoint] calls) :
    ∃ view, run coinValues (.base base) calls =
        .ok ((specRun coinValues [fun outpoint => base.lookup outpoint] calls).1, view) ∧
      views coinValues view = (specRun coinValues [fun outpoint => base.lookup outpoint] calls).2 ∧
      FreshAbsent coinValues view ∧
      ∃ answers flushed,
        run coinValues view (flushCalls ((views coinValues view).length - 1)) =
          .ok (answers, flushed) ∧
        (fun outpoint => (bottom flushed).lookup outpoint) =
          level (specRun coinValues [fun outpoint => base.lookup outpoint] calls).2 0 := by
  obtain ⟨view, hrun, hsound, hviews⟩ := run_refines (R := coinValues) (t := .base base) hbase hcalls
  obtain ⟨answers, flushed, hflush, hbottom⟩ := flush_all hsound
  refine ⟨view, hrun, hviews, freshAbsent_of_sound hsound, answers, flushed, hflush, ?_⟩
  rw [hbottom, ← level_views, hviews]
  rfl

def sampleOutpoint : COutPoint := ⟨Uint256.ofNat 1, 0⟩

def sampleCoin (nValue : Int) : Coin := ⟨⟨nValue, [0x51]⟩, false, 7, false⟩

/-- a coin of the base is spent, its spentness flushed one level, the outpoint added again as fresh,
read through every level and spent once more -/
def sampleCalls : List (Call COutPoint Coin) :=
  [.push, .push, .on 0 (.spend sampleOutpoint), .on 0 .flush,
    .on 0 (.add sampleOutpoint (sampleCoin 20) false), .on 0 (.get sampleOutpoint),
    .on 1 (.holds sampleOutpoint), .on 1 (.uncache sampleOutpoint), .on 1 .flush, .push,
    .on 0 (.access sampleOutpoint), .on 0 (.spend sampleOutpoint)]

theorem coinsViewCache_refines_sample :
    ∃ view, run coinValues (.base (AList.singleton sampleOutpoint (sampleCoin 10))) sampleCalls =
        .ok ([.done, .done, .value (sampleCoin 10), .done, .done, .found (some (sampleCoin 20)),
          .present false, .done, .done, .done, .value (sampleCoin 20), .value (sampleCoin 20)], view) ∧
      FreshAbsent coinValues view := by
  obtain ⟨view, hrun, -, hfresh, -⟩ := coinsViewCache_refines
    (AList.singleton sampleOutpoint (sampleCoin 10)) (by
      intro outpoint coin h
      have hmem := AList.mem_lookup_iff.mp h
      rw [AList.singleton_entries, List.mem_singleton] at hmem
      obtain ⟨rfl, hcoin⟩ := Sigma.mk.inj hmem
      rw [eq_of_heq hcoin]
      decide) sampleCalls (by decide)
  exact ⟨view, hrun.trans (congrArg (fun a => Except.ok (a, view)) (by decide)), hfresh⟩

end Coins
