import ZkCoin.Coins.Compress
import ZkCoin.Primitives.Readers

/-!
# The snapshot manifest

A manifest is a header followed by outpoints and coins up to the end of the file.  Importing one
reads it once, hashes it twice (as it stands, and with every coin normalized) and adds the normalized
coins to a cache on top of the given coins cache, which is flushed only when every check has passed.

* `decodeSnapshotManifestImpl`   the loop with its checks and its import cache;
* `decodeManifest`               what a file says, without the checks;
* `decodeCoins_ok_iff`           when the loop ends well, and what it then holds;
* `importSnapshotManifest_ok`    a successful import adds the normalized coins and nothing else;
* `importSnapshotManifest_error` a failed import changes nothing.
-/

open Bytes Serialize Compress CacheTower Checked

namespace Snapshot

/-! ## the file -/

structure SnapshotMetadata where
  baseHeight : Int
  baseBlockhash : Uint256
  coinsCount : Nat
  nchaintx : Nat
  deriving DecidableEq

/-- what a reader gets from a snapshot file: its bytes, and then its end or a read error -/
structure SnapshotFile where
  bytes : Bytes
  readError : Bool
  deriving DecidableEq

structure SnapshotManifestStats where
  metadata : SnapshotMetadata
  coinsCount : Nat
  totalAmount : Int
  hashSerialized : Uint256
  hashImport : Uint256
  deriving DecidableEq

def SnapshotMetadata.serialize (metadata : SnapshotMetadata) : Bytes :=
  intBytes 4 metadata.baseHeight ++ (metadata.baseBlockhash.data ++
    (leBytes 8 metadata.coinsCount ++ leBytes 4 metadata.nchaintx))

def readOutPoint (s : Bytes) : Option (COutPoint × Bytes) := do
  let (hash, s) ← readUint256 s
  let (n, s) ← readLe 4 s
  some (⟨hash, UInt32.ofNat n⟩, s)

def readMetadata (s : Bytes) : Option (SnapshotMetadata × Bytes) := do
  let (height, s) ← readLe 4 s
  let (baseBlockhash, s) ← readUint256 s
  let (coinsCount, s) ← readLe 8 s
  let (nchaintx, s) ← readLe 4 s
  some (⟨if height < 2 ^ 31 then height else height - 2 ^ 32, baseBlockhash, coinsCount, nchaintx⟩, s)

/-- `COutPoint::ToString` -/
def outPointText (outpoint : COutPoint) : String :=
  "COutPoint(" ++ String.ofList (outpoint.hash.toText.toList.take 10) ++ ", " ++
    toString outpoint.n.toNat ++ ")"

/-! ## the import -/

def snapshotImportCoinHeight : Nat := 1

def normalizeSnapshotCoinForImport (coin : Coin) : Coin :=
  ⟨coin.out, false, snapshotImportCoinHeight, false⟩

/-- the state of the loop; the two byte strings are what the hash writers have seen -/
structure DecodeState where
  coinsCount : Nat
  totalAmount : Int
  manifestHashed : Bytes
  importHashed : Bytes
  importCache : Option Coins.CCoinsViewCache

/-- a failure gives its text and what has become of the import cache -/
abbrev DecodeError := String × Option Coins.CCoinsViewCache

/-- the lines that put a normalized coin into the import cache -/
def addImported (resumeImport : Bool) (outpoint : COutPoint) (coin : Coin)
    (importCache : Coins.CCoinsViewCache) :
    Except (String × Coins.CCoinsViewCache) Coins.CCoinsViewCache :=
  match Coins.getCoin outpoint importCache with
  | (some existing, cache) =>
    if !resumeImport || existing ≠ coin then
      .error ("snapshot outpoint already exists in chainstate: " ++ outPointText outpoint, cache)
    else .ok cache
  | (none, cache) =>
    match Coins.addCoin outpoint coin false cache with
    | .error _ => .error ("snapshot decode failed", cache)
    | .ok cache => .ok cache

def importCoin (keys : KeyCodec) (resumeImport : Bool) (st : DecodeState) (x : COutPoint × Coin) :
    Except DecodeError DecodeState :=
  let (outpoint, coin) := x
  if coin.isSpent then
    .error ("snapshot contains spent coin for " ++ outPointText outpoint, st.importCache)
  else if !moneyRange coin.out.nValue || !moneyRange (st.totalAmount + coin.out.nValue) then
    .error ("snapshot amount out of range at " ++ outPointText outpoint, st.importCache)
  else
    let normalized := normalizeSnapshotCoinForImport coin
    let next (cache : Option Coins.CCoinsViewCache) : DecodeState :=
      ⟨st.coinsCount + 1, st.totalAmount + coin.out.nValue,
        st.manifestHashed ++ (outpoint.serialize ++ coin.serialize keys),
        st.importHashed ++ (outpoint.serialize ++ normalized.serialize keys), cache⟩
    match st.importCache with
    | none => .ok (next none)
    | some cache =>
      match addImported resumeImport outpoint normalized cache with
      | .error (text, cache) => .error (text, some cache)
      | .ok cache => .ok (next (some cache))

/-- the loop over the file; every coin takes at least one byte -/
def decodeCoins (keys : KeyCodec) (interrupts : Nat → Bool) (resumeImport readError : Bool) :
    Nat → Bytes → DecodeState → Except DecodeError DecodeState
  | 0, _, st => .error ("snapshot decode failed", st.importCache)
  | fuel + 1, s, st =>
    if s = [] ∧ readError = false then .ok st
    else if st.coinsCount % 5000 = 0 ∧ interrupts st.coinsCount = true then
      .error ("snapshot decode failed", st.importCache)
    else
      match readOutPoint s with
      | none => .error ("snapshot decode failed", st.importCache)
      | some (outpoint, s) =>
        match Coin.read keys s with
        | none => .error ("snapshot decode failed", st.importCache)
        | some (coin, s) => do
          let st ← importCoin keys resumeImport st (outpoint, coin)
          decodeCoins keys interrupts resumeImport readError fuel s st

/-- what an import is asked to check and how it may be stopped -/
structure ImportOptions where
  expectedBaseHeight : Option Int
  expectedBaseHash : Option Uint256
  expectedImportHash : Option Uint256
  interrupts : Nat → Bool
  resumeImport : Bool

def expectEq {α : Type} [DecidableEq α] (what : String) (text : α → String) (expected : Option α)
    (actual : α) : Except String Unit :=
  match expected with
  | none => .ok ()
  | some e =>
    if actual ≠ e then
      .error ("snapshot " ++ what ++ " mismatch: expected=" ++ text e ++ " actual=" ++ text actual)
    else .ok ()

def checkStats (options : ImportOptions) (stats : SnapshotManifestStats) : Except String Unit := do
  if stats.coinsCount ≠ stats.metadata.coinsCount then
    .error ("snapshot coin count mismatch: metadata=" ++ toString stats.metadata.coinsCount ++
      " decoded=" ++ toString stats.coinsCount)
  else do
    expectEq "base height" toString options.expectedBaseHeight stats.metadata.baseHeight
    expectEq "base hash" Uint256.toText options.expectedBaseHash stats.metadata.baseBlockhash
    expectEq "import hash" Uint256.toText options.expectedImportHash stats.hashImport

def dropTop : Coins.CCoinsViewCache → Coins.CCoinsViewCache
  | .base m => .base m
  | .layer _ below => below

/-- `DecodeSnapshotManifestImpl`, with the coins cache it leaves behind -/
def decodeSnapshotManifestImpl (hash256 : Bytes → Uint256) (keys : KeyCodec) (options : ImportOptions)
    (file : SnapshotFile) (coinsCache : Option Coins.CCoinsViewCache) :
    Except String SnapshotManifestStats × Option Coins.CCoinsViewCache :=
  match readMetadata file.bytes with
  | none => (.error "snapshot decode failed", coinsCache)
  | some (metadata, s) =>
    let start : DecodeState := ⟨0, 0, metadata.serialize, metadata.serialize, coinsCache.map (.layer ∅)⟩
    match decodeCoins keys options.interrupts options.resumeImport file.readError (s.length + 1) s
        start with
    | .error (text, importCache) => (.error text, importCache.map dropTop)
    | .ok st =>
      let stats : SnapshotManifestStats :=
        ⟨metadata, st.coinsCount, st.totalAmount, hash256 st.manifestHashed, hash256 st.importHashed⟩
      match checkStats options stats with
      | .error text => (.error text, st.importCache.map dropTop)
      | .ok () =>
        match st.importCache with
        | none => (.ok stats, none)
        | some cache =>
          match Coins.flush cache with
          | .error _ => (.error "failed to flush snapshot import into coins cache", some (dropTop cache))
          | .ok cache => (.ok stats, some (dropTop cache))

/-- `ReadSnapshotManifestFromFile` -/
def readSnapshotManifest (hash256 : Bytes → Uint256) (keys : KeyCodec) (file : SnapshotFile) :
    Except String SnapshotManifestStats :=
  (decodeSnapshotManifestImpl hash256 keys ⟨none, none, none, fun _ => false, false⟩ file none).1

/-- `ImportSnapshotManifest` and `ImportSnapshotManifestFromFile` -/
def importSnapshotManifest (hash256 : Bytes → Uint256) (keys : KeyCodec) (options : ImportOptions)
    (file : SnapshotFile) (coinsCache : Coins.CCoinsViewCache) :
    Except String SnapshotManifestStats × Coins.CCoinsViewCache :=
  let r := decodeSnapshotManifestImpl hash256 keys options file (some coinsCache)
  (r.1, r.2.getD coinsCache)

/-! ## what a file says -/

def readCoins (keys : KeyCodec) (readError : Bool) : Nat → Bytes → Option (List (COutPoint × Coin))
  | 0, _ => none
  | fuel + 1, s =>
    if s = [] ∧ readError = false then some []
    else do
      let (outpoint, s) ← readOutPoint s
      let (coin, s) ← Coin.read keys s
      let rest ← readCoins keys readError fuel s
      some ((outpoint, coin) :: rest)

def decodeManifest (keys : KeyCodec) (file : SnapshotFile) :
    Option (SnapshotMetadata × List (COutPoint × Coin)) := do
  let (metadata, s) ← readMetadata file.bytes
  let coins ← readCoins keys file.readError (s.length + 1) s
  some (metadata, coins)

def normalized (coins : List (COutPoint × Coin)) : List (COutPoint × Coin) :=
  coins.map fun x => (x.1, normalizeSnapshotCoinForImport x.2)

def importPreimage (keys : KeyCodec) (metadata : SnapshotMetadata) (coins : List (COutPoint × Coin)) :
    Bytes :=
  metadata.serialize ++ (normalized coins).flatMap fun x => x.1.serialize ++ x.2.serialize keys

def totalValue (coins : List (COutPoint × Coin)) : Int := (coins.map fun x => x.2.out.nValue).sum

/-- every coin is unspent, and every amount and every running total is one of money -/
def AmountsOk : Int → List (COutPoint × Coin) → Prop
  | _, [] => True
  | total, x :: xs =>
    x.2.isSpent = false ∧ moneyRange x.2.out.nValue = true ∧
      moneyRange (total + x.2.out.nValue) = true ∧ AmountsOk (total + x.2.out.nValue) xs

instance decidableAmountsOk : (total : Int) → (xs : List (COutPoint × Coin)) →
    Decidable (AmountsOk total xs)
  | _, [] => inferInstanceAs (Decidable True)
  | total, x :: xs =>
    have := decidableAmountsOk (total + x.2.out.nValue) xs
    inferInstanceAs (Decidable (x.2.isSpent = false ∧ moneyRange x.2.out.nValue = true ∧
      moneyRange (total + x.2.out.nValue) = true ∧ AmountsOk (total + x.2.out.nValue) xs))

/-- a plain map of coins after an import: what is there stays -/
def importAll (m : COutPoint → Option Coin) (xs : List (COutPoint × Coin)) : COutPoint → Option Coin :=
  xs.foldl (fun m x => if (m x.1).isSome then m else added Coins.coinValues m x.1 x.2) m

/-- an import meets no outpoint, or when resumed only outpoints with the coin it would add -/
def Importable (resumeImport : Bool) : (COutPoint → Option Coin) → List (COutPoint × Coin) → Prop
  | _, [] => True
  | m, x :: xs =>
    (m x.1 = none ∨ (resumeImport = true ∧ m x.1 = some x.2)) ∧
      Importable resumeImport (importAll m [x]) xs

/-- no interruption while coins `count`, `count + 1`, … are read -/
def Uninterrupted (interrupts : Nat → Bool) (count n : Nat) : Prop :=
  ∀ i < n, (count + i) % 5000 = 0 → interrupts (count + i) = false

/-! ## the import cache -/

/-- an import cache that shows `m`, over a coins cache whose levels show `ws` -/
def ImportOver (ws : List (COutPoint → Option Coin)) (m : COutPoint → Option Coin)
    (t : Coins.CCoinsViewCache) : Prop :=
  ∃ cache below, t = .layer cache below ∧ Sound Coins.coinValues t ∧
    views Coins.coinValues below = ws ∧ view Coins.coinValues t = m

variable {coinsCache : Coins.CCoinsViewCache}

theorem importOver_start (h : Sound Coins.coinValues coinsCache) :
    ImportOver (views Coins.coinValues coinsCache) (view Coins.coinValues coinsCache)
      (.layer ∅ coinsCache) :=
  ⟨∅, coinsCache, rfl, ⟨layerSound_empty _, h⟩, rfl, overlay_empty _⟩

variable {ws : List (COutPoint → Option Coin)} {m : COutPoint → Option Coin}
  {t : Coins.CCoinsViewCache}

theorem ImportOver.dropTop (h : ImportOver ws m t) :
    Sound Coins.coinValues (dropTop t) ∧ views Coins.coinValues (dropTop t) = ws := by
  obtain ⟨cache, below, rfl, hsound, hws, -⟩ := h
  exact ⟨hsound.2, hws⟩

theorem ImportOver.getCoin (h : ImportOver ws m t) (outpoint : COutPoint) :
    (Coins.getCoin outpoint t).1 = m outpoint ∧ ImportOver ws m (Coins.getCoin outpoint t).2 := by
  obtain ⟨cache, below, rfl, hsound, rfl, rfl⟩ := h
  obtain ⟨hget, hkept⟩ := getValue_ok (k := outpoint) hsound
  exact ⟨hget, _, _, rfl, hkept.sound, (List.cons.inj hkept.views_eq).2, hkept.view_eq⟩

theorem ImportOver.addCoin (h : ImportOver ws m t) {outpoint : COutPoint} {coin : Coin}
    (hcoin : coin.isSpent = false) (hnew : m outpoint = none) :
    ∃ t', Coins.addCoin outpoint coin false t = .ok t' ∧
      ImportOver ws (added Coins.coinValues m outpoint coin) t' := by
  obtain ⟨cache, below, rfl, hsound, hws, rfl⟩ := h
  obtain ⟨cache', hadd, hlayer, hover⟩ := addValue_ok hsound hcoin (Or.inr hnew)
  exact ⟨_, hadd, cache', below, rfl, ⟨hlayer, hsound.2⟩, hws, hover⟩

theorem ImportOver.addImported (h : ImportOver ws m t) (outpoint : COutPoint) {coin : Coin}
    (hcoin : coin.isSpent = false) (resumeImport : Bool) :
    (Importable resumeImport m [(outpoint, coin)] ∧
      ∃ t', addImported resumeImport outpoint coin t = .ok t' ∧
        ImportOver ws (importAll m [(outpoint, coin)]) t') ∨
    (¬ Importable resumeImport m [(outpoint, coin)] ∧
      ∃ text t', addImported resumeImport outpoint coin t = .error (text, t') ∧
        ImportOver ws m t') := by
  obtain ⟨hget, hover⟩ := h.getCoin outpoint
  rcases hr : Coins.getCoin outpoint t with ⟨existing, cache⟩
  rw [hr] at hget hover
  simp only [Importable, Snapshot.addImported, hr, importAll, List.foldl_cons, List.foldl_nil,
    and_true, ← hget]
  cases existing with
  | none =>
    obtain ⟨t', hadd, hover'⟩ := hover.addCoin hcoin hget.symm
    refine Or.inl ⟨Or.inl rfl, t', ?_, hover'⟩
    simp only [hadd]
  | some existing =>
    by_cases hok : resumeImport = true ∧ existing = coin
    · refine Or.inl ⟨Or.inr ⟨hok.1, congrArg some hok.2⟩, cache, ?_, hover⟩
      simp [hok.1, hok.2]
    · refine Or.inr ⟨?_, "snapshot outpoint already exists in chainstate: " ++ outPointText outpoint,
        cache, ?_, hover⟩
      · intro hor
        rcases hor with hnone | ⟨hresume, heq⟩
        · cases hnone
        · exact hok ⟨hresume, Option.some.inj heq⟩
      · exact if_pos (by
          cases hresume : resumeImport with
          | false => rfl
          | true => simpa [hresume] using hok)

/-! ## the loop -/

/-- the loop's cache shows `m` over `ws`, if there is one -/
def CacheAt (ws : List (COutPoint → Option Coin)) (m : COutPoint → Option Coin)
    (cache : Option Coins.CCoinsViewCache) : Prop :=
  ∀ t ∈ cache, ImportOver ws m t

structure Counted (keys : KeyCodec) (st : DecodeState) (coins : List (COutPoint × Coin))
    (st' : DecodeState) : Prop where
  coinsCount : st'.coinsCount = st.coinsCount + coins.length
  totalAmount : st'.totalAmount = st.totalAmount + totalValue coins
  importHashed : st'.importHashed = st.importHashed ++
    (normalized coins).flatMap fun x => x.1.serialize ++ x.2.serialize keys
  cached : st'.importCache.isSome = st.importCache.isSome

theorem importCoin_cases (keys : KeyCodec) (resumeImport : Bool) {st : DecodeState}
    (x : COutPoint × Coin) (h : CacheAt ws m st.importCache) :
    (AmountsOk st.totalAmount [x] ∧
        (st.importCache.isSome → Importable resumeImport m (normalized [x])) ∧
      ∃ st', importCoin keys resumeImport st x = .ok st' ∧ Counted keys st [x] st' ∧
        CacheAt ws (importAll m (normalized [x])) st'.importCache) ∨
    (¬ (AmountsOk st.totalAmount [x] ∧
        (st.importCache.isSome → Importable resumeImport m (normalized [x]))) ∧
      ∃ text cache, importCoin keys resumeImport st x = .error (text, cache) ∧
        cache.isSome = st.importCache.isSome ∧ CacheAt ws m cache) := by
  obtain ⟨outpoint, coin⟩ := x
  simp only [importCoin, AmountsOk, and_true]
  by_cases hspent : coin.isSpent = true
  · refine Or.inr ⟨fun hok => absurd (hok.1.1.symm.trans hspent) Bool.false_ne_true, _, _,
      if_pos hspent, rfl, h⟩
  rw [if_neg hspent]
  have hspent : coin.isSpent = false := by simpa using hspent
  by_cases hrange : (!moneyRange coin.out.nValue ||
      !moneyRange (st.totalAmount + coin.out.nValue)) = true
  · refine Or.inr ⟨?_, _, _, if_pos hrange, rfl, h⟩
    intro hok
    rw [hok.1.2.1, hok.1.2.2] at hrange
    cases hrange
  rw [if_neg hrange]
  have hmoney : moneyRange coin.out.nValue = true ∧
      moneyRange (st.totalAmount + coin.out.nValue) = true := by
    simpa using hrange
  cases hcache : st.importCache with
  | none =>
    refine Or.inl ⟨⟨hspent, hmoney⟩, nofun, _, rfl, ?_, nofun⟩
    exact ⟨rfl, by simp [totalValue], by simp [normalized], by simp [hcache]⟩
  | some cache =>
    have hover : ImportOver ws m cache := h cache hcache
    have hnorm : (normalizeSnapshotCoinForImport coin).isSpent = false := hspent
    rcases hover.addImported outpoint hnorm resumeImport with
      ⟨himp, t', hadd, hover'⟩ | ⟨himp, text, t', hadd, hover'⟩
    · refine Or.inl ⟨⟨hspent, hmoney⟩, fun _ => himp, _, by simp only [hadd]; rfl, ?_, ?_⟩
      · exact ⟨rfl, by simp [totalValue], by simp [normalized], by simp [hcache]⟩
      · intro t ht
        obtain rfl := Option.some.inj ht
        exact hover'
    · refine Or.inr ⟨fun hok => himp (hok.2 rfl), text, some t', by simp only [hadd], rfl, ?_⟩
      intro t ht
      obtain rfl := Option.some.inj ht
      exact hover'

variable {keys : KeyCodec} {xs : List (COutPoint × Coin)}

theorem Counted.trans {st₁ st₂ st₃ : DecodeState} {ys : List (COutPoint × Coin)}
    (h₁ : Counted keys st₁ xs st₂) (h₂ : Counted keys st₂ ys st₃) :
    Counted keys st₁ (xs ++ ys) st₃ := by
  refine ⟨?_, ?_, ?_, h₂.cached.trans h₁.cached⟩
  · rw [h₂.coinsCount, h₁.coinsCount, List.length_append, Nat.add_assoc]
  · rw [h₂.totalAmount, h₁.totalAmount, totalValue, totalValue, totalValue, List.map_append,
      List.sum_append, Int.add_assoc]
  · rw [h₂.importHashed, h₁.importHashed, normalized, normalized, normalized, List.map_append,
      List.flatMap_append, List.append_assoc]

theorem counted_nil (keys : KeyCodec) (st : DecodeState) : Counted keys st [] st :=
  ⟨rfl, by simp [totalValue], by simp [normalized], rfl⟩

theorem amountsOk_cons {total : Int} {x : COutPoint × Coin} :
    AmountsOk total (x :: xs) ↔ AmountsOk total [x] ∧ AmountsOk (total + totalValue [x]) xs := by
  simp [AmountsOk, totalValue, and_assoc]

theorem importable_cons {resumeImport : Bool} {x : COutPoint × Coin} :
    Importable resumeImport m (x :: xs) ↔
      Importable resumeImport m [x] ∧ Importable resumeImport (importAll m [x]) xs := by
  simp [Importable]

structure LoopPasses (interrupts : Nat → Bool) (resumeImport : Bool) (st : DecodeState)
    (m : COutPoint → Option Coin) (coins : List (COutPoint × Coin)) : Prop where
  uninterrupted : Uninterrupted interrupts st.coinsCount coins.length
  amountsOk : AmountsOk st.totalAmount coins
  importable : st.importCache.isSome → Importable resumeImport m (normalized coins)

variable {coins : List (COutPoint × Coin)}

theorem loopPasses_cons {interrupts : Nat → Bool} {resumeImport : Bool} {st st₁ : DecodeState}
    {x : COutPoint × Coin} (hcount : Counted keys st [x] st₁) :
    LoopPasses interrupts resumeImport st m (x :: coins) ↔
      (st.coinsCount % 5000 = 0 → interrupts st.coinsCount = false) ∧
      AmountsOk st.totalAmount [x] ∧
      (st.importCache.isSome → Importable resumeImport m (normalized [x])) ∧
      LoopPasses interrupts resumeImport st₁ (importAll m (normalized [x])) coins := by
  have hnext : st₁.coinsCount = st.coinsCount + 1 := hcount.coinsCount
  constructor
  · intro h
    obtain ⟨hamt, hamts⟩ := amountsOk_cons.mp h.amountsOk
    refine ⟨fun h5 => h.uninterrupted 0 (Nat.succ_pos _) h5, hamt,
      fun hsome => (importable_cons.mp (h.importable hsome)).1, ?_, ?_, ?_⟩
    · intro i hi h5
      have hlater := h.uninterrupted (i + 1) (Nat.succ_lt_succ hi)
      rw [hnext, show st.coinsCount + 1 + i = st.coinsCount + (i + 1) by omega] at *
      exact hlater h5
    · rw [hcount.totalAmount]
      exact hamts
    · intro hsome
      rw [hcount.cached] at hsome
      exact (importable_cons.mp (h.importable hsome)).2
  · intro ⟨hstop, hamt, himp, hrest⟩
    refine ⟨?_, amountsOk_cons.mpr ⟨hamt, hcount.totalAmount ▸ hrest.amountsOk⟩, ?_⟩
    · intro i hi h5
      cases i with
      | zero => exact hstop h5
      | succ i =>
        have hlater := hrest.uninterrupted i (Nat.lt_of_succ_lt_succ hi)
        rw [hnext, show st.coinsCount + 1 + i = st.coinsCount + (i + 1) by omega] at hlater
        exact hlater h5
    · intro hsome
      exact importable_cons.mpr ⟨himp hsome, hrest.importable (hcount.cached ▸ hsome)⟩

theorem decodeCoins_cases (keys : KeyCodec) (interrupts : Nat → Bool)
    (resumeImport readError : Bool) (fuel : Nat) (s : Bytes) {st : DecodeState}
    (h : CacheAt ws m st.importCache) :
    (∃ coins st', readCoins keys readError fuel s = some coins ∧
        LoopPasses interrupts resumeImport st m coins ∧
        decodeCoins keys interrupts resumeImport readError fuel s st = .ok st' ∧
        Counted keys st coins st' ∧ CacheAt ws (importAll m (normalized coins)) st'.importCache) ∨
    ((∀ coins, readCoins keys readError fuel s = some coins →
        ¬ LoopPasses interrupts resumeImport st m coins) ∧
      ∃ text cache, decodeCoins keys interrupts resumeImport readError fuel s st =
        .error (text, cache) ∧ cache.isSome = st.importCache.isSome ∧
        ∃ m', CacheAt ws m' cache) := by
  induction fuel generalizing s st m with
  | zero => exact Or.inr ⟨nofun, _, _, rfl, rfl, m, h⟩
  | succ fuel ih =>
    unfold decodeCoins readCoins
    by_cases hend : s = [] ∧ readError = false
    · rw [if_pos hend, if_pos hend]
      exact Or.inl ⟨[], st, rfl, ⟨nofun, trivial, fun _ => trivial⟩, rfl, counted_nil keys st, h⟩
    rw [if_neg hend, if_neg hend]
    by_cases hstop : st.coinsCount % 5000 = 0 ∧ interrupts st.coinsCount = true
    · rw [if_pos hstop]
      refine Or.inr ⟨?_, _, _, rfl, rfl, m, h⟩
      intro coins hcoins hok
      obtain ⟨r₁, -, hcoins⟩ := Option.bind_eq_some_iff.mp hcoins
      obtain ⟨r₂, -, hcoins⟩ := Option.bind_eq_some_iff.mp hcoins
      obtain ⟨rest, -, hcoins⟩ := Option.bind_eq_some_iff.mp hcoins
      obtain rfl := Option.some.inj hcoins
      have hgo := hok.uninterrupted 0 (Nat.succ_pos _) hstop.1
      exact absurd (hgo.symm.trans hstop.2) Bool.false_ne_true
    rw [if_neg hstop]
    have hgo : st.coinsCount % 5000 = 0 → interrupts st.coinsCount = false := by
      intro h5
      simpa using fun hint => hstop ⟨h5, hint⟩
    cases hout : readOutPoint s with
    | none => exact Or.inr ⟨nofun, _, _, rfl, rfl, m, h⟩
    | some r₁ =>
      obtain ⟨outpoint, s₁⟩ := r₁
      cases hcoin : Coin.read keys s₁ with
      | none =>
        refine Or.inr ⟨?_, "snapshot decode failed", st.importCache, by simp only [hcoin], rfl, m, h⟩
        intro coins hcoins
        simp [hcoin] at hcoins
      | some r₂ =>
        obtain ⟨coin, s₂⟩ := r₂
        have hread : ∀ coins, (do
            let (outpoint, s) ← some (outpoint, s₁)
            let (coin, s) ← Coin.read keys s
            let rest ← readCoins keys readError fuel s
            some ((outpoint, coin) :: rest)) = some coins ↔
            ∃ rest, readCoins keys readError fuel s₂ = some rest ∧ coins = (outpoint, coin) :: rest := by
          intro coins
          simp only [Option.bind_eq_bind, Option.bind_some, hcoin, Option.bind_eq_some_iff,
            Option.some.injEq, eq_comm (a := coins)]
        simp only [hread, hcoin]
        rcases importCoin_cases keys resumeImport (outpoint, coin) h
          with ⟨hamt, himp, st₁, hst₁, hcount₁, hcache₁⟩ | ⟨hbad, text, cache, herr, hsome, hcache⟩
        · rw [hst₁]
          rcases ih s₂ hcache₁ with ⟨rest, st', hrest, hpass, hrun, hcount, hcache⟩ |
            ⟨hbad, text, cache, herr, hsome, hcache⟩
          · exact Or.inl ⟨_, st', ⟨rest, hrest, rfl⟩,
              (loopPasses_cons hcount₁).mpr ⟨hgo, hamt, himp, hpass⟩, hrun,
              hcount₁.trans hcount, hcache⟩
          · refine Or.inr ⟨?_, text, cache, herr, hsome.trans hcount₁.cached, hcache⟩
            intro coins ⟨rest, hrest, hcoins⟩ hok
            subst hcoins
            exact hbad rest hrest ((loopPasses_cons hcount₁).mp hok).2.2.2
        · rw [herr]
          refine Or.inr ⟨?_, text, cache, rfl, hsome, m, hcache⟩
          intro coins ⟨rest, hrest, hcoins⟩ hok
          subst hcoins
          exact hbad ⟨(amountsOk_cons.mp hok.amountsOk).1,
            fun hsome => (importable_cons.mp (hok.importable hsome)).1⟩

/-! ## imports -/

theorem expectEq_eq_ok_iff {α : Type} [DecidableEq α] {what : String} {text : α → String}
    {expected : Option α} {actual : α} :
    expectEq what text expected actual = .ok () ↔ ∀ e ∈ expected, actual = e := by
  cases expected with
  | none => simp [expectEq]
  | some e => simp [expectEq]

variable {options : ImportOptions}

theorem checkStats_eq_ok_iff {stats : SnapshotManifestStats} :
    checkStats options stats = .ok () ↔
      stats.coinsCount = stats.metadata.coinsCount ∧
      (∀ h ∈ options.expectedBaseHeight, stats.metadata.baseHeight = h) ∧
      (∀ h ∈ options.expectedBaseHash, stats.metadata.baseBlockhash = h) ∧
      (∀ h ∈ options.expectedImportHash, stats.hashImport = h) := by
  unfold checkStats
  rw [ite_error_eq_ok, not_not, then_eq_ok, then_eq_ok, expectEq_eq_ok_iff, expectEq_eq_ok_iff,
    expectEq_eq_ok_iff]

/-- what an import into coins that show `m` asks of a manifest -/
structure ImportPasses (hash256 : Bytes → Uint256) (keys : KeyCodec) (options : ImportOptions)
    (m : COutPoint → Option Coin) (metadata : SnapshotMetadata) (coins : List (COutPoint × Coin)) :
    Prop where
  uninterrupted : Uninterrupted options.interrupts 0 coins.length
  amountsOk : AmountsOk 0 coins
  importable : Importable options.resumeImport m (normalized coins)
  coinsCount : coins.length = metadata.coinsCount
  baseHeight : ∀ h ∈ options.expectedBaseHeight, metadata.baseHeight = h
  baseHash : ∀ h ∈ options.expectedBaseHash, metadata.baseBlockhash = h
  importHash : ∀ h ∈ options.expectedImportHash, hash256 (importPreimage keys metadata coins) = h

structure Reports (hash256 : Bytes → Uint256) (keys : KeyCodec) (stats : SnapshotManifestStats)
    (metadata : SnapshotMetadata) (coins : List (COutPoint × Coin)) : Prop where
  metadata_eq : stats.metadata = metadata
  coinsCount : stats.coinsCount = coins.length
  totalAmount : stats.totalAmount = totalValue coins
  hashImport : stats.hashImport = hash256 (importPreimage keys metadata coins)

theorem ImportOver.flush (h : ImportOver ws m t) :
    ∃ t', Coins.flush t = .ok t' ∧ Sound Coins.coinValues (Snapshot.dropTop t') ∧
      views Coins.coinValues (Snapshot.dropTop t') = m :: ws.tail := by
  obtain ⟨cache, below, rfl, hsound, rfl, rfl⟩ := h
  obtain ⟨below', hwrite, hsound', hviews⟩ := writeInto_ok hsound
  refine ⟨.layer ∅ below', ?_, hsound', hviews⟩
  show Except.map _ (writeInto _ _ _) = _
  rw [hwrite]
  rfl

variable {metadata : SnapshotMetadata}

theorem loopPasses_start {hash256 : Bytes → Uint256} {hashed : Bytes}
    {cache : Coins.CCoinsViewCache} :
    ImportPasses hash256 keys options m metadata coins ↔
      LoopPasses options.interrupts options.resumeImport ⟨0, 0, hashed, hashed, some cache⟩ m coins ∧
      coins.length = metadata.coinsCount ∧
      (∀ h ∈ options.expectedBaseHeight, metadata.baseHeight = h) ∧
      (∀ h ∈ options.expectedBaseHash, metadata.baseBlockhash = h) ∧
      (∀ h ∈ options.expectedImportHash, hash256 (importPreimage keys metadata coins) = h) := by
  constructor
  · intro h
    exact ⟨⟨h.uninterrupted, h.amountsOk, fun _ => h.importable⟩, h.coinsCount, h.baseHeight,
      h.baseHash, h.importHash⟩
  · intro ⟨hloop, hcount, hheight, hhash, hroot⟩
    exact ⟨hloop.uninterrupted, hloop.amountsOk, hloop.importable rfl, hcount, hheight, hhash, hroot⟩

/-- **Imports.**  An import that passes adds the normalized coins of the manifest to what the coins
cache shows; any other import fails and changes nothing that any level shows. -/
theorem importSnapshotManifest_cases (hash256 : Bytes → Uint256) (keys : KeyCodec)
    (options : ImportOptions) (file : SnapshotFile) (h : Sound Coins.coinValues coinsCache) :
    (∃ metadata coins stats cache, decodeManifest keys file = some (metadata, coins) ∧
        ImportPasses hash256 keys options (view Coins.coinValues coinsCache) metadata coins ∧
        importSnapshotManifest hash256 keys options file coinsCache = (.ok stats, cache) ∧
        Reports hash256 keys stats metadata coins ∧ Sound Coins.coinValues cache ∧
        views Coins.coinValues cache =
          importAll (view Coins.coinValues coinsCache) (normalized coins) ::
            (views Coins.coinValues coinsCache).tail) ∨
    ((∀ metadata coins, decodeManifest keys file = some (metadata, coins) →
        ¬ ImportPasses hash256 keys options (view Coins.coinValues coinsCache) metadata coins) ∧
      ∃ text cache, importSnapshotManifest hash256 keys options file coinsCache = (.error text, cache) ∧
        Sound Coins.coinValues cache ∧
        views Coins.coinValues cache = views Coins.coinValues coinsCache) := by
  unfold importSnapshotManifest decodeSnapshotManifestImpl decodeManifest
  cases hmeta : readMetadata file.bytes with
  | none => exact Or.inr ⟨nofun, _, _, rfl, h, rfl⟩
  | some r =>
    obtain ⟨metadata, s⟩ := r
    dsimp only [Option.map_some, Option.bind_eq_bind, Option.bind_some]
    have hstart : CacheAt (views Coins.coinValues coinsCache) (view Coins.coinValues coinsCache)
        (some (.layer ∅ coinsCache)) := by
      intro t ht
      obtain rfl := Option.some.inj ht
      exact importOver_start h
    rcases decodeCoins_cases keys options.interrupts options.resumeImport file.readError (s.length + 1) s
      (show CacheAt _ _ (DecodeState.mk 0 0 metadata.serialize metadata.serialize
        (some (.layer ∅ coinsCache))).importCache from hstart)
      with ⟨coins, st, hcoins, hloop, hrun, hcount, hcache⟩ | ⟨hbad, text, cache, herr, hsome, m', hcache⟩
    · obtain ⟨t, ht⟩ := Option.isSome_iff_exists.mp hcount.cached
      have hover := hcache t ht
      have hnum : st.coinsCount = coins.length := hcount.coinsCount.trans (Nat.zero_add _)
      have hreports : Reports hash256 keys ⟨metadata, st.coinsCount, st.totalAmount,
          hash256 st.manifestHashed, hash256 st.importHashed⟩ metadata coins :=
        ⟨rfl, hnum, hcount.totalAmount.trans (Int.zero_add _), congrArg hash256 hcount.importHashed⟩
      rw [hrun, hcoins]
      dsimp only [Option.bind_some]
      cases hcheck : checkStats options ⟨metadata, st.coinsCount, st.totalAmount,
          hash256 st.manifestHashed, hash256 st.importHashed⟩ with
      | ok u =>
        obtain ⟨hcoinsCount, hheight, hhash, hroot⟩ := checkStats_eq_ok_iff.mp hcheck
        obtain ⟨t', hflush, hsound, hviews⟩ := hover.flush
        refine Or.inl ⟨metadata, coins, _, Snapshot.dropTop t', rfl, ?_, ?_, hreports, hsound, hviews⟩
        · rw [hreports.hashImport] at hroot
          exact loopPasses_start.mpr ⟨hloop, hnum.symm.trans hcoinsCount, hheight, hhash, hroot⟩
        · simp only [ht, hflush]
          rfl
      | error text =>
        obtain ⟨hsound, hviews⟩ := hover.dropTop
        refine Or.inr ⟨?_, text, Snapshot.dropTop t, by simp only [ht]; rfl, hsound, hviews⟩
        intro metadata' coins' hsome hpass
        obtain ⟨rfl, rfl⟩ := Prod.mk.inj (Option.some.inj hsome)
        have hok := checkStats_eq_ok_iff.mpr ⟨hnum.trans hpass.coinsCount, hpass.baseHeight,
          hpass.baseHash, hreports.hashImport ▸ hpass.importHash⟩
        rw [hcheck] at hok
        cases hok
    · rw [herr]
      obtain ⟨t, rfl⟩ := Option.isSome_iff_exists.mp hsome
      obtain ⟨hsound, hviews⟩ := (hcache t rfl).dropTop
      refine Or.inr ⟨?_, text, Snapshot.dropTop t, rfl, hsound, hviews⟩
      intro metadata' coins' hsome hpass
      obtain ⟨coins, hcoins, hsome⟩ := Option.bind_eq_some_iff.mp hsome
      obtain ⟨rfl, rfl⟩ := Prod.mk.inj (Option.some.inj hsome)
      exact hbad coins hcoins (loopPasses_start.mp hpass).1

theorem readSnapshotManifest_ok (hash256 : Bytes → Uint256) {file : SnapshotFile}
    (hdec : decodeManifest keys file = some (metadata, coins)) (hamt : AmountsOk 0 coins)
    (hcount : coins.length = metadata.coinsCount) :
    ∃ stats, readSnapshotManifest hash256 keys file = .ok stats ∧
      Reports hash256 keys stats metadata coins := by
  obtain ⟨⟨metadata', s⟩, hmeta, hdec⟩ := Option.bind_eq_some_iff.mp hdec
  obtain ⟨coins', hcoins, hdec⟩ := Option.bind_eq_some_iff.mp hdec
  obtain ⟨rfl, rfl⟩ := Prod.mk.inj (Option.some.inj hdec)
  have hstart : CacheAt [] (fun _ => none)
      (DecodeState.mk 0 0 metadata'.serialize metadata'.serialize none).importCache := nofun
  rcases decodeCoins_cases keys (fun _ => false) false file.readError (s.length + 1) s hstart
    with ⟨coins, st, hread, -, hrun, hcounted, -⟩ | ⟨hbad, -⟩
  · obtain rfl := Option.some.inj (hcoins.symm.trans hread)
    have hnum : st.coinsCount = coins'.length := hcounted.coinsCount.trans (Nat.zero_add _)
    have hnone : st.importCache = none := by simpa using hcounted.cached
    refine ⟨⟨metadata', st.coinsCount, st.totalAmount, hash256 st.manifestHashed,
      hash256 st.importHashed⟩, ?_, rfl, hnum, hcounted.totalAmount.trans (Int.zero_add _),
      congrArg hash256 hcounted.importHashed⟩
    have hcheck : checkStats ⟨none, none, none, fun _ => false, false⟩ ⟨metadata', st.coinsCount,
        st.totalAmount, hash256 st.manifestHashed, hash256 st.importHashed⟩ = .ok () :=
      checkStats_eq_ok_iff.mpr ⟨hnum.trans hcount, nofun, nofun, nofun⟩
    simp only [readSnapshotManifest, decodeSnapshotManifestImpl, hmeta, Option.map_none, hrun, hcheck,
      hnone]
  · exact absurd ⟨fun _ _ _ => rfl, hamt, nofun⟩ (hbad coins' hcoins)

/-! ## the import hash -/

theorem readOutPoint_serialize (outpoint : COutPoint) (rest : Bytes) :
    readOutPoint (outpoint.serialize ++ rest) = some (outpoint, rest) := by
  have hlt : outpoint.n.toNat < 256 ^ 4 := outpoint.n.toNat_lt
  rw [COutPoint.serialize, List.append_assoc, readOutPoint, readUint256_append]
  simp only [u32Bytes, Option.bind_eq_bind, Option.bind_some, readLe_leBytes hlt,
    UInt32.ofNat_toNat]

theorem entry_prefixFree (keys : KeyCodec) :
    PrefixFree (fun x : COutPoint × Coin => Storable x.2.out ∧ x.2.nHeight < 2 ^ 30)
      (fun x => x.1.serialize ++ x.2.serialize keys) := by
  let read (s : Bytes) : Option ((COutPoint × Coin) × Bytes) := do
    let (outpoint, s) ← readOutPoint s
    let (coin, s) ← Coin.read keys s
    some ((outpoint, coin), s)
  refine @PrefixFree.of_reads _ _ _ _ read ?_
  intro x rest hx
  show (do
    let (outpoint, s) ← readOutPoint _
    let (coin, s) ← Coin.read keys s
    some ((outpoint, coin), s)) = _
  rw [List.append_assoc, readOutPoint_serialize]
  show (Coin.read keys _ >>= _) = _
  rw [Coin.read_serialize hx.1 hx.2]
  rfl

theorem readLe_lt {n v : Nat} {s rest : Bytes} (h : readLe n s = some (v, rest)) : v < 256 ^ n := by
  obtain ⟨⟨bs, rest'⟩, hbs, hv⟩ := Option.map_eq_some_iff.mp h
  obtain ⟨rfl, rfl⟩ := Prod.mk.inj hv
  unfold readBytes at hbs
  split at hbs
  · cases hbs
  · obtain ⟨rfl, rfl⟩ := Prod.mk.inj (Option.some.inj hbs)
    have hlen : (s.take n).length = n := by
      rw [List.length_take]
      omega
    have hlt := leNat_lt (s.take n)
    rwa [hlen] at hlt

theorem readMetadata_coinsCount {s rest : Bytes} (h : readMetadata s = some (metadata, rest)) :
    metadata.coinsCount < 2 ^ 64 := by
  obtain ⟨⟨height, s₁⟩, -, h⟩ := Option.bind_eq_some_iff.mp h
  obtain ⟨⟨hash, s₂⟩, -, h⟩ := Option.bind_eq_some_iff.mp h
  obtain ⟨⟨count, s₃⟩, hcount, h⟩ := Option.bind_eq_some_iff.mp h
  obtain ⟨⟨nchaintx, s₄⟩, -, h⟩ := Option.bind_eq_some_iff.mp h
  obtain ⟨rfl, -⟩ := Prod.mk.inj (Option.some.inj h)
  exact readLe_lt hcount

theorem readCoins_script {readError : Bool} {fuel : Nat} {s : Bytes}
    (h : readCoins keys readError fuel s = some coins) :
    ∀ x ∈ coins, x.2.out.scriptPubKey.length ≤ maxScriptSize := by
  induction fuel generalizing s coins with
  | zero => cases h
  | succ fuel ih =>
    unfold readCoins at h
    split at h
    · obtain rfl := Option.some.inj h
      exact nofun
    · obtain ⟨⟨outpoint, s₁⟩, -, h⟩ := Option.bind_eq_some_iff.mp h
      obtain ⟨⟨coin, s₂⟩, hcoin, h⟩ := Option.bind_eq_some_iff.mp h
      obtain ⟨rest, hrest, h⟩ := Option.bind_eq_some_iff.mp h
      obtain rfl := Option.some.inj h
      intro x hx
      rcases List.mem_cons.mp hx with rfl | hx
      · obtain ⟨⟨code, s₃⟩, -, hcoin⟩ := Option.bind_eq_some_iff.mp hcoin
        obtain ⟨⟨out, s₄⟩, hout, hcoin⟩ := Option.bind_eq_some_iff.mp hcoin
        obtain ⟨rfl, -⟩ := Prod.mk.inj (Option.some.inj hcoin)
        obtain ⟨⟨v, s₅⟩, -, hout⟩ := Option.bind_eq_some_iff.mp hout
        obtain ⟨⟨script, s₆⟩, hscript, hout⟩ := Option.bind_eq_some_iff.mp hout
        obtain ⟨rfl, -⟩ := Prod.mk.inj (Option.some.inj hout)
        exact readScript_length hscript
      · exact ih hrest x hx

theorem AmountsOk.mem_moneyRange {total : Int} (h : AmountsOk total coins) :
    ∀ x ∈ coins, moneyRange x.2.out.nValue = true := by
  induction coins generalizing total with
  | nil => exact nofun
  | cons x coins ih =>
    intro y hy
    rcases List.mem_cons.mp hy with rfl | hy
    · exact h.2.1
    · exact ih h.2.2.2 y hy

theorem AmountsOk.total {total : Int} (h : AmountsOk total coins) (ht : moneyRange total = true) :
    moneyRange (total + totalValue coins) = true := by
  induction coins generalizing total with
  | nil => simpa [totalValue] using ht
  | cons x coins ih =>
    have hrest := ih h.2.2.2 h.2.2.1
    rwa [totalValue, List.map_cons, List.sum_cons, ← Int.add_assoc]

theorem storable_of_decodeManifest {file : SnapshotFile}
    (h : decodeManifest keys file = some (metadata, coins)) (hamt : AmountsOk 0 coins) :
    metadata.coinsCount < 2 ^ 64 ∧
      ∀ x ∈ normalized coins, Storable x.2.out ∧ x.2.nHeight < 2 ^ 30 := by
  obtain ⟨⟨metadata', s⟩, hmeta, h⟩ := Option.bind_eq_some_iff.mp h
  obtain ⟨coins', hcoins, h⟩ := Option.bind_eq_some_iff.mp h
  obtain ⟨rfl, rfl⟩ := Prod.mk.inj (Option.some.inj h)
  refine ⟨readMetadata_coinsCount hmeta, ?_⟩
  intro x hx
  obtain ⟨y, hy, rfl⟩ := List.mem_map.mp hx
  exact ⟨⟨hamt.mem_moneyRange y hy, readCoins_script hcoins y hy⟩, by
    show snapshotImportCoinHeight < 2 ^ 30
    decide⟩

theorem metadata_serialize_length (metadata : SnapshotMetadata) : metadata.serialize.length = 48 := by
  simp [SnapshotMetadata.serialize, intBytes]

/-- the import preimage names the coins, whatever heights and flags the manifest carried -/
theorem normalized_eq_of_importPreimage {metadata₁ metadata₂ : SnapshotMetadata}
    {coins₁ coins₂ : List (COutPoint × Coin)} (hcount₁ : coins₁.length = metadata₁.coinsCount)
    (hcount₂ : coins₂.length = metadata₂.coinsCount) (hlt₁ : metadata₁.coinsCount < 2 ^ 64)
    (hlt₂ : metadata₂.coinsCount < 2 ^ 64)
    (hok₁ : ∀ x ∈ normalized coins₁, Storable x.2.out ∧ x.2.nHeight < 2 ^ 30)
    (hok₂ : ∀ x ∈ normalized coins₂, Storable x.2.out ∧ x.2.nHeight < 2 ^ 30)
    (h : importPreimage keys metadata₁ coins₁ = importPreimage keys metadata₂ coins₂) :
    normalized coins₁ = normalized coins₂ := by
  obtain ⟨hmeta, hcoins⟩ := List.append_inj h (by
    rw [metadata_serialize_length, metadata_serialize_length])
  have hcount : metadata₁.coinsCount = metadata₂.coinsCount := by
    unfold SnapshotMetadata.serialize at hmeta
    obtain ⟨-, hmeta⟩ := List.append_inj hmeta (by simp [intBytes])
    obtain ⟨-, hmeta⟩ := List.append_inj hmeta (by simp)
    obtain ⟨hmeta, -⟩ := List.append_inj hmeta (by simp)
    exact leBytes_inj hlt₁ hlt₂ hmeta
  have hlen : (normalized coins₁).length = (normalized coins₂).length := by
    rw [normalized, normalized, List.length_map, List.length_map, hcount₁, hcount₂, hcount]
  apply ((entry_prefixFree keys).flatMap (x := []) (y := []) hlen hok₁ hok₂ ?_).1
  rw [List.append_nil, List.append_nil, hcoins]

theorem totalValue_normalized (coins : List (COutPoint × Coin)) :
    totalValue (normalized coins) = totalValue coins := by
  rw [totalValue, normalized, List.map_map]
  rfl

theorem importSnapshotManifest_ok {hash256 : Bytes → Uint256} {file : SnapshotFile}
    {cache : Coins.CCoinsViewCache} {stats : SnapshotManifestStats}
    (hcache : Sound Coins.coinValues coinsCache)
    (h : importSnapshotManifest hash256 keys options file coinsCache = (.ok stats, cache)) :
    ∃ metadata coins, decodeManifest keys file = some (metadata, coins) ∧
      ImportPasses hash256 keys options (view Coins.coinValues coinsCache) metadata coins ∧
      Reports hash256 keys stats metadata coins ∧ Sound Coins.coinValues cache ∧
      views Coins.coinValues cache =
        importAll (view Coins.coinValues coinsCache) (normalized coins) ::
          (views Coins.coinValues coinsCache).tail := by
  rcases importSnapshotManifest_cases hash256 keys options file hcache with ⟨metadata, coins, stats', cache', hdec, hpass, hrun, hrest⟩ |
      ⟨-, text, cache', hrun, -⟩
  · obtain ⟨hstats, rfl⟩ := Prod.mk.inj (hrun.symm.trans h)
    obtain rfl := Except.ok.inj hstats
    exact ⟨metadata, coins, hdec, hpass, hrest⟩
  · cases (Prod.mk.inj (hrun.symm.trans h)).1

/-- **The import hash determines the coins.**  Two files imported into the same coins cache with the
same import hash leave the same coins and report the same number and total, an amount of money, unless
the hash collides on their normalized manifests. -/
theorem importHash_determines_coins (hash256 : Bytes → Uint256) (keys : KeyCodec)
    (coinsCache : Coins.CCoinsViewCache) (hcache : Sound Coins.coinValues coinsCache)
    (options₁ options₂ : ImportOptions) (file₁ file₂ : SnapshotFile)
    (stats₁ stats₂ : SnapshotManifestStats) (cache₁ cache₂ : Coins.CCoinsViewCache)
    (h₁ : importSnapshotManifest hash256 keys options₁ file₁ coinsCache = (.ok stats₁, cache₁))
    (h₂ : importSnapshotManifest hash256 keys options₂ file₂ coinsCache = (.ok stats₂, cache₂))
    (hfree : ∀ metadata₁ coins₁ metadata₂ coins₂,
      decodeManifest keys file₁ = some (metadata₁, coins₁) →
      decodeManifest keys file₂ = some (metadata₂, coins₂) →
      CollisionFree hash256
        [importPreimage keys metadata₁ coins₁, importPreimage keys metadata₂ coins₂])
    (hhash : stats₁.hashImport = stats₂.hashImport) :
    view Coins.coinValues cache₁ = view Coins.coinValues cache₂ ∧
      stats₁.coinsCount = stats₂.coinsCount ∧ stats₁.totalAmount = stats₂.totalAmount ∧
      moneyRange stats₁.totalAmount = true ∧
      ∃ metadata coins, decodeManifest keys file₁ = some (metadata, coins) ∧
        stats₁.totalAmount = totalValue coins := by
  obtain ⟨metadata₁, coins₁, hdec₁, hpass₁, hrep₁, -, hviews₁⟩ := importSnapshotManifest_ok hcache h₁
  obtain ⟨metadata₂, coins₂, hdec₂, hpass₂, hrep₂, -, hviews₂⟩ := importSnapshotManifest_ok hcache h₂
  obtain ⟨hlt₁, hok₁⟩ := storable_of_decodeManifest hdec₁ hpass₁.amountsOk
  obtain ⟨hlt₂, hok₂⟩ := storable_of_decodeManifest hdec₂ hpass₂.amountsOk
  have hpre : importPreimage keys metadata₁ coins₁ = importPreimage keys metadata₂ coins₂ := by
    apply hfree metadata₁ coins₁ metadata₂ coins₂ hdec₁ hdec₂ _ (by simp) _ (by simp)
    rw [← hrep₁.hashImport, ← hrep₂.hashImport, hhash]
  have hsame := normalized_eq_of_importPreimage hpass₁.coinsCount hpass₂.coinsCount hlt₁ hlt₂ hok₁ hok₂
    hpre
  refine ⟨?_, ?_, ?_, ?_, metadata₁, coins₁, hdec₁, hrep₁.totalAmount⟩
  · rw [← level_views cache₁, ← level_views cache₂, hviews₁, hviews₂, hsame]
  · have hlen := congrArg List.length hsame
    rw [normalized, normalized, List.length_map, List.length_map] at hlen
    rw [hrep₁.coinsCount, hrep₂.coinsCount, hlen]
  · rw [hrep₁.totalAmount, hrep₂.totalAmount, ← totalValue_normalized, hsame, totalValue_normalized]
  · rw [hrep₁.totalAmount, ← Int.zero_add (totalValue coins₁)]
    exact hpass₁.amountsOk.total (by decide)

/-- a stand-in for the curve library: the keys whose second coordinate is its own parity -/
def sampleKeys : KeyCodec where
  isFullyValid key := decide (key.drop 33 = List.replicate 31 0 ++ [0] ∨
    key.drop 33 = List.replicate 31 0 ++ [1])
  decompress key :=
    match key with
    | parity :: x =>
      if x.length = 32 then some (0x04 :: (x ++ (List.replicate 31 0 ++ [parity &&& 0x01]))) else none
    | [] => none
  decompress_valid := by
    intro x y last hx hy hvalid
    have hdrop : (0x04 :: (x ++ (y ++ [last]))).drop 33 = y ++ [last] := by
      rw [List.drop_succ_cons, List.drop_left' hx]
    rw [hdrop, decide_eq_true_iff] at hvalid
    dsimp only
    rw [if_pos hx]
    rcases hvalid with hkey | hkey
    · obtain ⟨rfl, hlast⟩ := List.append_inj hkey (by simp [hy])
      obtain rfl := (List.cons.inj hlast).1
      rfl
    · obtain ⟨rfl, hlast⟩ := List.append_inj hkey (by simp [hy])
      obtain rfl := (List.cons.inj hlast).1
      rfl
  decompress_length := by
    intro b key h
    split at h
    · split at h
      · rename_i hx
        obtain rfl := Option.some.inj h
        simp [hx]
      · cases h
    · cases h

def sampleMetadata : SnapshotMetadata := ⟨100, Uint256.ofNat 5, 1, 9⟩

def sampleFile (coin : Coin) : SnapshotFile :=
  ⟨sampleMetadata.serialize ++ (Coins.sampleOutpoint.serialize ++ coin.serialize sampleKeys), false⟩

/-- one output, of a pegout at height 3 in one file and of a coinbase at height 8 in the other -/
def samplePegout : Coin := ⟨⟨50, 0x76 :: 0xa9 :: 20 :: (List.replicate 20 7 ++ [0x88, 0xac])⟩, false, 3,
  true⟩

def sampleCoinbase : Coin := { samplePegout with fCoinBase := true, nHeight := 8, fPegout := false }

def sampleOptions : ImportOptions := ⟨some 100, none, none, fun _ => false, false⟩

def sampleCoinsCache : Coins.CCoinsViewCache := .layer ∅ (.base ∅)

theorem sampleCoinsCache_sound : Sound Coins.coinValues sampleCoinsCache :=
  ⟨layerSound_empty _, fun outpoint _ h => nomatch (AList.lookup_empty outpoint).symm.trans h⟩

theorem importHash_determines_coins_sample :
    sampleFile samplePegout ≠ sampleFile sampleCoinbase ∧
    ∃ stats₁ stats₂ cache₁ cache₂,
      importSnapshotManifest Uint256.polyHash sampleKeys sampleOptions (sampleFile samplePegout)
        sampleCoinsCache = (.ok stats₁, cache₁) ∧
      importSnapshotManifest Uint256.polyHash sampleKeys sampleOptions (sampleFile sampleCoinbase)
        sampleCoinsCache = (.ok stats₂, cache₂) ∧
      view Coins.coinValues cache₁ = view Coins.coinValues cache₂ ∧
      moneyRange stats₁.totalAmount = true := by
  have hdec₁ : decodeManifest sampleKeys (sampleFile samplePegout) =
      some (sampleMetadata, [(Coins.sampleOutpoint, samplePegout)]) := by decide +kernel
  have hdec₂ : decodeManifest sampleKeys (sampleFile sampleCoinbase) =
      some (sampleMetadata, [(Coins.sampleOutpoint, sampleCoinbase)]) := by decide +kernel
  obtain ⟨stats₁, cache₁, hok₁⟩ := exists_of_fst_isOk (x := importSnapshotManifest Uint256.polyHash
    sampleKeys sampleOptions (sampleFile samplePegout) sampleCoinsCache) (by decide +kernel)
  obtain ⟨stats₂, cache₂, hok₂⟩ := exists_of_fst_isOk (x := importSnapshotManifest Uint256.polyHash
    sampleKeys sampleOptions (sampleFile sampleCoinbase) sampleCoinsCache) (by decide +kernel)
  have hhash : (importSnapshotManifest Uint256.polyHash sampleKeys sampleOptions
      (sampleFile samplePegout) sampleCoinsCache).1.map SnapshotManifestStats.hashImport =
      (importSnapshotManifest Uint256.polyHash sampleKeys sampleOptions
        (sampleFile sampleCoinbase) sampleCoinsCache).1.map SnapshotManifestStats.hashImport := by
    decide +kernel
  rw [hok₁, hok₂] at hhash
  obtain ⟨hview, -, -, hmoney, -⟩ := importHash_determines_coins Uint256.polyHash sampleKeys
    sampleCoinsCache sampleCoinsCache_sound sampleOptions sampleOptions _ _ stats₁ stats₂ cache₁
    cache₂ hok₁ hok₂ (by
      intro metadata₁ coins₁ metadata₂ coins₂ h₁ h₂
      obtain ⟨rfl, rfl⟩ := Prod.mk.inj (Option.some.inj (hdec₁.symm.trans h₁))
      obtain ⟨rfl, rfl⟩ := Prod.mk.inj (Option.some.inj (hdec₂.symm.trans h₂))
      decide +kernel) (Except.ok.inj hhash)
  exact ⟨by decide +kernel, stats₁, stats₂, cache₁, cache₂, hok₁, hok₂, hview, hmoney⟩

end Snapshot
