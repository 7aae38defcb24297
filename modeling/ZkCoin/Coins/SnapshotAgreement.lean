import ZkCoin.Coins.SnapshotImport

/-!
# Imports against verification, and resumed imports against fresh ones

Verification and the two kinds of import run the same loop.  They differ only in what stands in the
way of a record:

* verification     nothing;
* a fresh import   any coin at the outpoint, also one that an earlier record of the manifest put there;
* a resumed import a coin at the outpoint that differs from the normalized one.

So what they make of a manifest differs where the manifest has an outpoint twice.

* `read_of_import`       an import that passes reports what verification reports;
* `importable_fresh_iff` what a fresh import asks of the records;
* `importable_resume_iff` what a resumed import asks of them;
* `import_atomic`        an import changes nothing or adds the manifest; when it agrees with verification;
* `resumed_import_iff`   when a resumed import ends as a fresh one.
-/

open CacheTower Compress Checked Serialize

namespace Snapshot

/-! ## repeated outpoints -/

/-- no record has the outpoint of an earlier spendable one -/
def Unrepeated (xs : List (COutPoint × Coin)) : Prop :=
  xs.Pairwise fun x y => spendable x = true → x.1 ≠ y.1

instance (xs : List (COutPoint × Coin)) : Decidable (Unrepeated xs) :=
  inferInstanceAs (Decidable (xs.Pairwise fun x y => spendable x = true → x.1 ≠ y.1))

/-- every record has the coin that `m` has at its outpoint, or else that of each earlier spendable
record of the outpoint -/
def Unconflicted (m : COutPoint → Option Coin) (xs : List (COutPoint × Coin)) : Prop :=
  (∀ x ∈ xs, ∀ coin ∈ m x.1, coin = x.2) ∧
    xs.Pairwise fun x y => spendable x = true → m x.1 = none → x.1 = y.1 → x.2 = y.2

theorem importAll_singleton (m : COutPoint → Option Coin) (x : COutPoint × Coin)
    (outpoint : COutPoint) :
    importAll m [x] outpoint =
      (m outpoint).or (if x.1 = outpoint ∧ spendable x = true then some x.2 else none) := by
  rw [importAll_apply, manifestCoin_cons]
  rfl

variable {m : COutPoint → Option Coin} {xs : List (COutPoint × Coin)}

/-- **Fresh imports.**  Nothing is in the way exactly when no outpoint is there and none comes
twice. -/
theorem importable_fresh_iff :
    Importable false m xs ↔ (∀ x ∈ xs, m x.1 = none) ∧ Unrepeated xs := by
  constructor
  · intro h
    refine ⟨h.absent, ?_⟩
    induction xs generalizing m with
    | nil => exact List.Pairwise.nil
    | cons x xs ih =>
      refine List.pairwise_cons.mpr ⟨?_, ih h.2⟩
      intro y hy hspend heq
      have hnone := h.2.absent y hy
      rw [importAll_singleton, if_pos ⟨heq, hspend⟩] at hnone
      exact nomatch (Option.or_eq_none_iff.mp hnone).2
  · intro ⟨habsent, hxs⟩
    induction xs generalizing m with
    | nil => trivial
    | cons x xs ih =>
      obtain ⟨hx, hxs⟩ := List.pairwise_cons.mp hxs
      refine ⟨Or.inl (habsent x List.mem_cons_self), ih ?_ hxs⟩
      intro y hy
      rw [importAll_singleton, habsent y (List.mem_cons_of_mem x hy), Option.none_or]
      exact if_neg fun h => hx y hy h.2 h.1

theorem unconflicted_cons {x : COutPoint × Coin} :
    Unconflicted m (x :: xs) ↔
      (m x.1 = none ∨ m x.1 = some x.2) ∧ Unconflicted (importAll m [x]) xs := by
  have hhead : (∀ coin ∈ m x.1, coin = x.2) ↔ m x.1 = none ∨ m x.1 = some x.2 := by
    cases hm : m x.1 with
    | none => simp
    | some coin => simp
  -- the record leaves the map as it is unless it is spendable and the first of its outpoint
  by_cases hnew : spendable x = true ∧ m x.1 = none
  · obtain ⟨hspend, hnone⟩ := hnew
    have hself : ∀ y : COutPoint × Coin, x.1 = y.1 → importAll m [x] y.1 = some x.2 := by
      intro y hy
      rw [importAll_singleton, if_pos ⟨hy, hspend⟩, ← hy, hnone, Option.none_or]
    have hother : ∀ y : COutPoint × Coin, x.1 ≠ y.1 → importAll m [x] y.1 = m y.1 := by
      intro y hy
      rw [importAll_singleton, if_neg fun h => hy h.1, Option.or_none]
    constructor
    · intro ⟨hmap, hpairs⟩
      obtain ⟨hx, hpairs⟩ := List.pairwise_cons.mp hpairs
      refine ⟨Or.inl hnone, ?_, ?_⟩
      · intro y hy coin hcoin
        by_cases hxy : x.1 = y.1
        · rw [hself y hxy] at hcoin
          rw [← Option.some.inj hcoin]
          exact hx y hy hspend hnone hxy
        · rw [hother y hxy] at hcoin
          exact hmap y (List.mem_cons_of_mem x hy) coin hcoin
      · refine hpairs.imp ?_
        intro y z hyz hspend' hnone' heq
        by_cases hxy : x.1 = y.1
        · rw [hself y hxy] at hnone'
          cases hnone'
        · exact hyz hspend' ((hother y hxy).symm.trans hnone') heq
    · intro ⟨_, hmap, hpairs⟩
      have hsame : ∀ y ∈ xs, x.1 = y.1 → x.2 = y.2 := fun y hy hxy => hmap y hy x.2 (hself y hxy)
      refine ⟨?_, List.pairwise_cons.mpr ⟨fun y hy _ _ => hsame y hy, ?_⟩⟩
      · intro y hy coin hcoin
        rcases List.mem_cons.mp hy with rfl | hy
        · rw [hnone] at hcoin
          cases hcoin
        · by_cases hxy : x.1 = y.1
          · rw [← hxy, hnone] at hcoin
            cases hcoin
          · exact hmap y hy coin ((hother y hxy).trans hcoin)
      · refine List.Pairwise.imp_of_mem ?_ hpairs
        intro y z hy hz hyz hspend' hnone' heq
        by_cases hxy : x.1 = y.1
        · exact (hsame y hy hxy).symm.trans (hsame z hz (hxy.trans heq))
        · exact hyz hspend' ((hother y hxy).trans hnone') heq
  · have hsame : importAll m [x] = m := by
      funext outpoint
      rw [importAll_singleton]
      by_cases hx : x.1 = outpoint ∧ spendable x = true
      · obtain ⟨coin, hcoin⟩ := Option.ne_none_iff_exists'.mp fun hnone => hnew ⟨hx.2, hnone⟩
        rw [← hx.1, hcoin]
        rfl
      · rw [if_neg hx, Option.or_none]
    rw [hsame, ← hhead]
    constructor
    · intro ⟨hmap, hpairs⟩
      exact ⟨hmap x List.mem_cons_self, fun y hy => hmap y (List.mem_cons_of_mem x hy),
        (List.pairwise_cons.mp hpairs).2⟩
    · intro ⟨hx, hmap, hpairs⟩
      refine ⟨?_, List.pairwise_cons.mpr
        ⟨fun y _ hspend hnone => absurd ⟨hspend, hnone⟩ hnew, hpairs⟩⟩
      intro y hy
      rcases List.mem_cons.mp hy with rfl | hy
      · exact hx
      · exact hmap y hy

/-- **Resumed imports.**  What is in the way is a coin other than the one of the record. -/
theorem importable_resume_iff :
    Importable true m xs ↔ Unconflicted m xs := by
  induction xs generalizing m with
  | nil => exact ⟨fun _ => ⟨nofun, List.Pairwise.nil⟩, fun _ => trivial⟩
  | cons x xs ih =>
    rw [unconflicted_cons, ← ih]
    simp only [Importable, true_and]

theorem mem_of_manifestCoin {outpoint : COutPoint} {coin : Coin}
    (h : manifestCoin xs outpoint = some coin) :
    (outpoint, coin) ∈ xs ∧ spendable (outpoint, coin) = true := by
  obtain ⟨x, hfind, rfl⟩ := Option.map_eq_some_iff.mp h
  have hx := List.find?_some hfind
  rw [Bool.and_eq_true, decide_eq_true_iff] at hx
  obtain ⟨rfl, hspend⟩ := hx
  exact ⟨List.mem_of_find?_eq_some hfind, hspend⟩

theorem Unrepeated.manifestCoin_eq (h : Unrepeated xs) {x : COutPoint × Coin} (hx : x ∈ xs)
    (hspend : spendable x = true) :
    manifestCoin xs x.1 = some x.2 := by
  induction xs with
  | nil => cases hx
  | cons y ys ih =>
    obtain ⟨hy, hys⟩ := List.pairwise_cons.mp h
    rw [manifestCoin_cons]
    rcases List.mem_cons.mp hx with rfl | hx
    · exact if_pos ⟨rfl, hspend⟩
    · rw [if_neg fun h => hy x hx h.2 h.1]
      exact ih hys hx

/-! ## the loop without a cache -/

variable {keys : KeyCodec}

theorem importCoin_uncached {resumeImport : Bool} {st st' : DecodeState} {x : COutPoint × Coin}
    (h : importCoin keys resumeImport st x = .ok st') :
    importCoin keys false { st with importCache := none } x =
      .ok { st' with importCache := none } := by
  unfold importCoin at h ⊢
  dsimp only at h ⊢
  split at h
  · cases h
  rename_i hspent
  rw [if_neg hspent]
  split at h
  · cases h
  rename_i hrange
  rw [if_neg hrange]
  split at h
  · obtain rfl := Except.ok.inj h
    rfl
  · split at h
    · cases h
    · obtain rfl := Except.ok.inj h
      rfl

theorem decodeCoins_uncached {interrupts : Nat → Bool} {resumeImport readError : Bool} {fuel : Nat}
    {s : Bytes} {st st' : DecodeState}
    (h : decodeCoins keys interrupts resumeImport readError fuel s st = .ok st') :
    decodeCoins keys (fun _ => false) false readError fuel s { st with importCache := none } =
      .ok { st' with importCache := none } := by
  induction fuel generalizing s st with
  | zero => cases h
  | succ fuel ih =>
    unfold decodeCoins at h ⊢
    dsimp only
    split at h
    · rename_i hend
      obtain rfl := Except.ok.inj h
      rw [if_pos hend]
    rename_i hend
    rw [if_neg hend, if_neg fun hstop => Bool.false_ne_true hstop.2]
    split at h
    · cases h
    cases hout : readOutPoint s with
    | none =>
      rw [hout] at h
      cases h
    | some r =>
      obtain ⟨outpoint, s₁⟩ := r
      rw [hout] at h
      dsimp only at h ⊢
      cases hcoin : Coin.read keys s₁ with
      | none =>
        rw [hcoin] at h
        cases h
      | some r =>
        obtain ⟨coin, s₂⟩ := r
        rw [hcoin] at h
        dsimp only at h ⊢
        obtain ⟨st₁, hst₁, h⟩ := bind_eq_ok.mp h
        rw [importCoin_uncached hst₁]
        exact ih h

variable {hash256 : Bytes → Uint256} {options : ImportOptions} {file : SnapshotFile}
  {coinsCache : Coins.CCoinsViewCache} {stats : SnapshotManifestStats}

theorem read_of_import {cache : Coins.CCoinsViewCache}
    (h : importSnapshotManifest hash256 keys options file coinsCache = (.ok stats, cache)) :
    readSnapshotManifest hash256 keys file = .ok stats := by
  have h := congrArg Prod.fst h
  unfold importSnapshotManifest decodeSnapshotManifestImpl at h
  unfold readSnapshotManifest decodeSnapshotManifestImpl
  cases hmeta : readMetadata file.bytes with
  | none =>
    rw [hmeta] at h
    cases h
  | some r =>
    obtain ⟨metadata, s⟩ := r
    rw [hmeta] at h
    dsimp only [Option.map_some, Option.map_none] at h ⊢
    split at h
    · cases h
    rename_i st hrun
    have hrun' := decodeCoins_uncached hrun
    dsimp only at hrun'
    rw [hrun']
    dsimp only
    split at h
    · cases h
    rename_i hcheck
    obtain ⟨hcount, -⟩ := checkStats_eq_ok_iff.mp hcheck
    have hcheck' : checkStats ⟨none, none, none, fun _ => false, false⟩ ⟨metadata, st.coinsCount,
        st.totalAmount, hash256 st.manifestHashed, hash256 st.importHashed⟩ = .ok () :=
      checkStats_eq_ok_iff.mpr ⟨hcount, nofun, nofun, nofun⟩
    rw [hcheck']
    split at h
    · exact h
    · split at h
      · cases h
      · exact h

/-! ## verification -/

/-- what both kinds of import ask of a manifest apart from the coins that are there -/
structure ChecksPass (hash256 : Bytes → Uint256) (keys : KeyCodec) (options : ImportOptions)
    (metadata : SnapshotMetadata) (coins : List (COutPoint × Coin)) : Prop where
  uninterrupted : Uninterrupted options.interrupts 0 coins.length
  amountsOk : AmountsOk 0 coins
  coinsCount : coins.length = metadata.coinsCount
  baseHeight : ∀ h ∈ options.expectedBaseHeight, metadata.baseHeight = h
  baseHash : ∀ h ∈ options.expectedBaseHash, metadata.baseBlockhash = h
  importHash : ∀ h ∈ options.expectedImportHash, hash256 (importPreimage keys metadata coins) = h

variable {metadata : SnapshotMetadata} {coins : List (COutPoint × Coin)}

theorem importPasses_iff :
    ImportPasses hash256 keys options m metadata coins ↔
      ChecksPass hash256 keys options metadata coins ∧
        Importable options.resumeImport m (normalized coins) := by
  constructor
  · intro h
    exact ⟨⟨h.uninterrupted, h.amountsOk, h.coinsCount, h.baseHeight, h.baseHash, h.importHash⟩,
      h.importable⟩
  · intro ⟨h, himp⟩
    exact ⟨h.uninterrupted, h.amountsOk, himp, h.coinsCount, h.baseHeight, h.baseHash, h.importHash⟩

theorem checks_of_read (h : readSnapshotManifest hash256 keys file = .ok stats) :
    ∃ metadata coins, decodeManifest keys file = some (metadata, coins) ∧ AmountsOk 0 coins ∧
      coins.length = metadata.coinsCount ∧ Reports hash256 keys stats metadata coins := by
  unfold readSnapshotManifest decodeSnapshotManifestImpl at h
  unfold decodeManifest
  cases hmeta : readMetadata file.bytes with
  | none =>
    rw [hmeta] at h
    cases h
  | some r =>
    obtain ⟨metadata, s⟩ := r
    rw [hmeta] at h
    dsimp only [Option.map_none] at h
    have hstart : CacheAt [] (fun _ => none)
        (DecodeState.mk 0 0 metadata.serialize metadata.serialize none).importCache := nofun
    rcases decodeCoins_cases keys (fun _ => false) false file.readError (s.length + 1) s hstart
      with ⟨coins, st, hread, hloop, hrun, hcounted, -⟩ | ⟨-, text, cache, herr, -⟩
    · have hnum : st.coinsCount = coins.length := hcounted.coinsCount.trans (Nat.zero_add _)
      have hnone : st.importCache = none := by simpa using hcounted.cached
      rw [hrun] at h
      dsimp only at h
      split at h
      · cases h
      rename_i hcheck
      obtain ⟨hcount, -⟩ := checkStats_eq_ok_iff.mp hcheck
      rw [hnone] at h
      obtain rfl := Except.ok.inj h
      refine ⟨metadata, coins, ?_, hloop.amountsOk, hnum.symm.trans hcount, rfl, hnum,
        hcounted.totalAmount.trans (Int.zero_add _), congrArg hash256 hcounted.importHashed⟩
      simp only [Option.bind_eq_bind, Option.bind_some, hread]
    · rw [herr] at h
      cases h

theorem view_of_views {t : Coins.CCoinsViewCache} {ws : List (COutPoint → Option Coin)}
    (h : views Coins.coinValues t = m :: ws) :
    view Coins.coinValues t = m := by
  rw [← level_views, h]
  rfl

/-- the outcome of an import: what verification reports, and the coins of the manifest added -/
theorem import_eq_ok_iff (hsound : Sound Coins.coinValues coinsCache)
    (hdec : decodeManifest keys file = some (metadata, coins)) :
    (importSnapshotManifest hash256 keys options file coinsCache).1 = .ok stats ↔
      ImportPasses hash256 keys options (view Coins.coinValues coinsCache) metadata coins ∧
        readSnapshotManifest hash256 keys file = .ok stats := by
  rcases importSnapshotManifest_cases hash256 keys options file hsound with
    ⟨metadata', coins', stats', cache, hdec', hpass, hok, -⟩ | ⟨hbad, text, cache, herr, -⟩
  · obtain ⟨rfl, rfl⟩ := Prod.mk.inj (Option.some.inj (hdec.symm.trans hdec'))
    rw [hok, read_of_import hok]
    exact (and_iff_right hpass).symm
  · rw [herr]
    exact ⟨nofun, fun h => absurd h.1 (hbad metadata coins hdec)⟩

theorem view_of_importPasses (hsound : Sound Coins.coinValues coinsCache)
    (hdec : decodeManifest keys file = some (metadata, coins))
    (hpass : ImportPasses hash256 keys options (view Coins.coinValues coinsCache) metadata coins) :
    view Coins.coinValues (importSnapshotManifest hash256 keys options file coinsCache).2 =
      importAll (view Coins.coinValues coinsCache) (normalized coins) := by
  rcases importSnapshotManifest_cases hash256 keys options file hsound with
    ⟨metadata', coins', stats, cache, hdec', -, hok, -, -, hviews⟩ | ⟨hbad, -⟩
  · obtain ⟨rfl, rfl⟩ := Prod.mk.inj (Option.some.inj (hdec.symm.trans hdec'))
    rw [hok]
    exact view_of_views hviews
  · exact absurd hpass (hbad metadata coins hdec)

/-- **Imports are all or nothing.**  A refused import changes nothing that is shown; a fresh one that
passes adds the spendable coins of the manifest.  A manifest that verification accepts is accepted by
a fresh import exactly when no record repeats the outpoint of an earlier spendable one. -/
theorem import_atomic (hash256 : Bytes → Uint256) (keys : KeyCodec) (options : ImportOptions)
    (file : SnapshotFile) (coinsCache : Coins.CCoinsViewCache)
    (hsound : Sound Coins.coinValues coinsCache) :
    (∀ text cache,
      importSnapshotManifest hash256 keys options file coinsCache = (.error text, cache) →
      views Coins.coinValues cache = views Coins.coinValues coinsCache) ∧
    (∀ stats cache, options.resumeImport = false →
      importSnapshotManifest hash256 keys options file coinsCache = (.ok stats, cache) →
      ∃ metadata coins, decodeManifest keys file = some (metadata, coins) ∧
        (∀ x ∈ normalized coins, spendable x = true → view Coins.coinValues cache x.1 = some x.2) ∧
        (∀ outpoint coin, view Coins.coinValues coinsCache outpoint = some coin →
          view Coins.coinValues cache outpoint = some coin) ∧
        (∀ outpoint coin, view Coins.coinValues cache outpoint = some coin →
          view Coins.coinValues coinsCache outpoint = some coin ∨
            ((outpoint, coin) ∈ normalized coins ∧ spendable (outpoint, coin) = true))) ∧
    (∀ stats metadata coins, readSnapshotManifest hash256 keys file = .ok stats →
      decodeManifest keys file = some (metadata, coins) →
      options.resumeImport = false → (∀ n, options.interrupts n = false) →
      checkStats options stats = .ok () →
      (∀ x ∈ coins, view Coins.coinValues coinsCache x.1 = none) →
      ((importSnapshotManifest hash256 keys options file coinsCache).1 = .ok stats ↔
        Unrepeated (normalized coins))) := by
  have hcases := importSnapshotManifest_cases hash256 keys options file hsound
  refine ⟨?_, ?_, ?_⟩
  · intro text cache hrun
    rcases hcases with ⟨_, _, _, _, -, -, hok, -⟩ | ⟨-, text', cache', herr, -, hviews⟩
    · cases hok.symm.trans hrun
    · obtain ⟨-, rfl⟩ := Prod.mk.inj (herr.symm.trans hrun)
      exact hviews
  · intro stats cache hfresh hrun
    rcases hcases with ⟨metadata, coins, stats', cache', hdec, hpass, hok, -, -, hviews⟩ |
      ⟨-, text', cache', herr, -⟩
    · obtain ⟨-, rfl⟩ := Prod.mk.inj (hok.symm.trans hrun)
      have himp := hpass.importable
      rw [hfresh] at himp
      obtain ⟨habsent, hunrep⟩ := importable_fresh_iff.mp himp
      refine ⟨metadata, coins, hdec, ?_, ?_, ?_⟩
      · intro x hx hspend
        rw [view_of_views hviews, importAll_apply, habsent x hx, Option.none_or]
        exact hunrep.manifestCoin_eq hx hspend
      · intro outpoint coin hcoin
        rw [view_of_views hviews, importAll_apply, hcoin]
        rfl
      · intro outpoint coin hcoin
        rw [view_of_views hviews, importAll_apply] at hcoin
        cases hold : view Coins.coinValues coinsCache outpoint with
        | some coin' =>
          rw [hold] at hcoin
          exact Or.inl hcoin
        | none =>
          rw [hold, Option.none_or] at hcoin
          exact Or.inr (mem_of_manifestCoin hcoin)
    · cases herr.symm.trans hrun
  · intro stats metadata coins hread hdec hfresh hgo hcheck habsent
    obtain ⟨metadata', coins', hdec', hamounts, hcount, hreports⟩ := checks_of_read hread
    obtain ⟨rfl, rfl⟩ := Prod.mk.inj (Option.some.inj (hdec.symm.trans hdec'))
    obtain ⟨-, hheight, hhash, hroot⟩ := checkStats_eq_ok_iff.mp hcheck
    rw [hreports.metadata_eq] at hheight hhash
    rw [hreports.hashImport] at hroot
    have hchecks : ChecksPass hash256 keys options metadata coins :=
      ⟨fun i _ _ => hgo _, hamounts, hcount, hheight, hhash, hroot⟩
    have hnone : ∀ x ∈ normalized coins, view Coins.coinValues coinsCache x.1 = none := by
      intro x hx
      obtain ⟨y, hy, rfl⟩ := List.mem_map.mp hx
      exact habsent y hy
    have himp : Importable options.resumeImport (view Coins.coinValues coinsCache)
        (normalized coins) ↔ Unrepeated (normalized coins) := by
      rw [hfresh, importable_fresh_iff]
      exact and_iff_right hnone
    rw [import_eq_ok_iff hsound hdec, importPasses_iff, himp]
    exact ⟨fun h => h.1.2, fun hunrep => ⟨⟨hchecks, hunrep⟩, hread⟩⟩

def repeatedCoins : List (COutPoint × Coin) :=
  [(Coins.sampleOutpoint, samplePegout), (Coins.sampleOutpoint, samplePegout)]

def repeatedFile : SnapshotFile :=
  ⟨twoMetadata.serialize ++ repeatedCoins.flatMap fun x => x.1.serialize ++ x.2.serialize sampleKeys,
    false⟩

theorem import_atomic_sample :
    ∃ stats cache, importSnapshotManifest Uint256.polyHash sampleKeys sampleOptions twoFile
        sampleCoinsCache = (.ok stats, cache) ∧
      readSnapshotManifest Uint256.polyHash sampleKeys twoFile = .ok stats ∧
      ∀ x ∈ normalized twoCoins, view Coins.coinValues cache x.1 = some x.2 := by
  have hdec : decodeManifest sampleKeys twoFile = some (twoMetadata, twoCoins) := by decide +kernel
  have hspend : ∀ x ∈ normalized twoCoins, spendable x = true := by decide +kernel
  obtain ⟨stats, hread⟩ := exists_of_isOk
    (x := readSnapshotManifest Uint256.polyHash sampleKeys twoFile) (by decide +kernel)
  obtain ⟨-, hfresh, hverified⟩ := import_atomic Uint256.polyHash sampleKeys sampleOptions twoFile
    sampleCoinsCache sampleCoinsCache_sound
  obtain ⟨metadata, coins, hdec', -, hcount, hreports⟩ := checks_of_read hread
  obtain ⟨rfl, rfl⟩ := Prod.mk.inj (Option.some.inj (hdec.symm.trans hdec'))
  have hcheck : checkStats sampleOptions stats = .ok () := by
    refine checkStats_eq_ok_iff.mpr ⟨?_, ?_, fun _ h => (by cases h), fun _ h => (by cases h)⟩
    · rw [hreports.coinsCount, hreports.metadata_eq, hcount]
    · intro height hheight
      rw [hreports.metadata_eq]
      exact Option.some.inj hheight
  have hok := (hverified stats twoMetadata twoCoins hread hdec rfl (fun _ => rfl) hcheck
    (by decide +kernel)).mpr (by decide +kernel)
  rcases hrun : importSnapshotManifest Uint256.polyHash sampleKeys sampleOptions twoFile
    sampleCoinsCache with ⟨result, cache⟩
  rw [hrun] at hok
  obtain rfl : result = .ok stats := hok
  obtain ⟨metadata, coins, hdec', hadds, -⟩ := hfresh stats cache rfl hrun
  obtain ⟨rfl, rfl⟩ := Prod.mk.inj (Option.some.inj (hdec.symm.trans hdec'))
  exact ⟨stats, cache, rfl, hread, fun x hx => hadds x hx (hspend x hx)⟩

/-- verification accepts a file that repeats a record; a fresh import refuses it -/
theorem repeated_record_not_imported :
    (readSnapshotManifest Uint256.polyHash sampleKeys repeatedFile).isOk = true ∧
    view Coins.coinValues sampleCoinsCache Coins.sampleOutpoint = none ∧
    (importSnapshotManifest Uint256.polyHash sampleKeys sampleOptions repeatedFile
      sampleCoinsCache).1.isOk = false := by
  decide +kernel

/-! ## resumed imports -/

/-- `m'` has some of the records on top of `m`, which has none of their outpoints -/
def PartlyImported (xs : List (COutPoint × Coin)) (m m' : COutPoint → Option Coin) : Prop :=
  (∀ x ∈ xs, m x.1 = none) ∧
    ∀ outpoint, m' outpoint = m outpoint ∨ ∃ x ∈ xs, x.1 = outpoint ∧ m' outpoint = some x.2

/-- both imports succeed, with the same statistics and coins, or both fail -/
def SameImport (fresh resumed : Except String SnapshotManifestStats × Coins.CCoinsViewCache) : Prop :=
  (∀ stats, resumed.1 = .ok stats ↔ fresh.1 = .ok stats) ∧
    ∀ stats, fresh.1 = .ok stats →
      view Coins.coinValues resumed.2 = view Coins.coinValues fresh.2

/-- what a resumed import refuses a fresh one refuses as well and the other way round, and the records
that are there already are ones that an import adds -/
def Resumable (m : COutPoint → Option Coin) (xs : List (COutPoint × Coin)) : Prop :=
  (Unrepeated xs ↔ Unconflicted m xs) ∧
    (Unrepeated xs → ∀ x ∈ xs, m x.1 = some x.2 → spendable x = true)

theorem resumable_of_nodup {m' : COutPoint → Option Coin} (hxs : (xs.map Prod.fst).Nodup)
    (hpart : PartlyImported xs m m') (hspend : ∀ x ∈ xs, m' x.1 = some x.2 → spendable x = true) :
    Resumable m' xs := by
  have hne : xs.Pairwise fun x y => x.1 ≠ y.1 := List.pairwise_map.mp hxs
  have hunrep : Unrepeated xs := by
    refine List.Pairwise.imp ?_ hne
    intro x y h _
    exact h
  refine ⟨iff_of_true hunrep ⟨?_, hne.imp fun h _ _ heq => absurd heq h⟩, fun _ => hspend⟩
  intro x hx coin hcoin
  rcases hpart.2 x.1 with hsame | ⟨y, hy, heq, hsame⟩
  · rw [hsame, hpart.1 x hx] at hcoin
    cases hcoin
  · obtain rfl : y = x := List.inj_on_of_nodup_map hxs hy hx heq
    exact Option.some.inj (hcoin.symm.trans hsame)

theorem PartlyImported.importAll_eq_iff {m' : COutPoint → Option Coin} (h : PartlyImported xs m m')
    (hunrep : Unrepeated xs) :
    importAll m' xs = importAll m xs ↔ ∀ x ∈ xs, m' x.1 = some x.2 → spendable x = true := by
  constructor
  · intro hsame x hx hthere
    have heq := congrFun hsame x.1
    rw [importAll_apply, importAll_apply, hthere, h.1 x hx, Option.none_or] at heq
    exact (mem_of_manifestCoin heq.symm).2
  · intro hspend
    funext outpoint
    rw [importAll_apply, importAll_apply]
    rcases h.2 outpoint with hsame | ⟨x, hx, rfl, hthere⟩
    · rw [hsame]
    · rw [hthere, h.1 x hx, Option.none_or, hunrep.manifestCoin_eq hx (hspend x hx hthere)]
      rfl

/-- **Resumed imports.**  Resuming when some records are there already ends as a fresh import, unless
the manifest passes all checks and its repetitions, or records that no import adds, tell the two
apart. -/
theorem resumed_import_iff (hash256 : Bytes → Uint256) (keys : KeyCodec) (options : ImportOptions)
    (file : SnapshotFile) (fresh resumed : Coins.CCoinsViewCache)
    (hfresh : Sound Coins.coinValues fresh) (hresumed : Sound Coins.coinValues resumed)
    (hpart : ∀ metadata coins, decodeManifest keys file = some (metadata, coins) →
      PartlyImported (normalized coins) (view Coins.coinValues fresh)
        (view Coins.coinValues resumed)) :
    SameImport
      (importSnapshotManifest hash256 keys { options with resumeImport := false } file fresh)
      (importSnapshotManifest hash256 keys { options with resumeImport := true } file resumed) ↔
    ∀ metadata coins, decodeManifest keys file = some (metadata, coins) →
      ChecksPass hash256 keys options metadata coins →
      Resumable (view Coins.coinValues resumed) (normalized coins) := by
  cases hdec : decodeManifest keys file with
  | none =>
    -- a file that does not decode is refused by both
    have hread : ∀ options coinsCache stats, Sound Coins.coinValues coinsCache →
        (importSnapshotManifest hash256 keys options file coinsCache).1 ≠ .ok stats := by
      intro options coinsCache stats hsound hok
      obtain ⟨metadata, coins, hdec', -⟩ := checks_of_read (read_of_import (Prod.ext hok rfl))
      cases hdec.symm.trans hdec'
    refine iff_of_true ⟨fun stats => ?_, fun stats hok => absurd hok (hread _ fresh stats hfresh)⟩ nofun
    exact iff_of_false (hread _ resumed stats hresumed) (hread _ fresh stats hfresh)
  | some manifest =>
    obtain ⟨metadata, coins⟩ := manifest
    have hpart := hpart metadata coins hdec
    have hpass₀ : ImportPasses hash256 keys { options with resumeImport := false }
        (view Coins.coinValues fresh) metadata coins ↔
        ChecksPass hash256 keys options metadata coins ∧ Unrepeated (normalized coins) := by
      rw [importPasses_iff, importable_fresh_iff, and_iff_right hpart.1]
      exact and_congr_left' ⟨fun h => ⟨h.1, h.2, h.3, h.4, h.5, h.6⟩,
        fun h => ⟨h.1, h.2, h.3, h.4, h.5, h.6⟩⟩
    have hpass₁ : ImportPasses hash256 keys { options with resumeImport := true }
        (view Coins.coinValues resumed) metadata coins ↔
        ChecksPass hash256 keys options metadata coins ∧
          Unconflicted (view Coins.coinValues resumed) (normalized coins) := by
      rw [importPasses_iff, importable_resume_iff]
      exact and_congr_left' ⟨fun h => ⟨h.1, h.2, h.3, h.4, h.5, h.6⟩,
        fun h => ⟨h.1, h.2, h.3, h.4, h.5, h.6⟩⟩
    constructor
    · intro ⟨hstats, hviews⟩ metadata' coins' hdec' hchecks
      obtain ⟨rfl, rfl⟩ := Prod.mk.inj (Option.some.inj hdec')
      obtain ⟨stats, hread, -⟩ := readSnapshotManifest_ok hash256 hdec hchecks.amountsOk
        hchecks.coinsCount
      have hboth := hstats stats
      rw [import_eq_ok_iff hresumed hdec, import_eq_ok_iff hfresh hdec, hpass₀, hpass₁] at hboth
      have hiff : Unrepeated (normalized coins) ↔
          Unconflicted (view Coins.coinValues resumed) (normalized coins) :=
        ⟨fun h => (hboth.mpr ⟨⟨hchecks, h⟩, hread⟩).1.2, fun h => (hboth.mp ⟨⟨hchecks, h⟩, hread⟩).1.2⟩
      refine ⟨hiff, fun hunrep => ?_⟩
      have hok₀ := hpass₀.mpr ⟨hchecks, hunrep⟩
      have hok₁ := hpass₁.mpr ⟨hchecks, hiff.mp hunrep⟩
      have hview := hviews stats ((import_eq_ok_iff hfresh hdec).mpr ⟨hok₀, hread⟩)
      rw [view_of_importPasses hresumed hdec hok₁, view_of_importPasses hfresh hdec hok₀] at hview
      exact (hpart.importAll_eq_iff hunrep).mp hview
    · intro hresumable
      refine ⟨fun stats => ?_, fun stats hok => ?_⟩
      · rw [import_eq_ok_iff hresumed hdec, import_eq_ok_iff hfresh hdec, hpass₀, hpass₁]
        exact and_congr_left' (and_congr_right fun hchecks =>
          (hresumable metadata coins rfl hchecks).1.symm)
      · have hok₀ := ((import_eq_ok_iff hfresh hdec).mp hok).1
        obtain ⟨hchecks, hunrep⟩ := hpass₀.mp hok₀
        obtain ⟨hiff, hspend⟩ := hresumable metadata coins rfl hchecks
        rw [view_of_importPasses hresumed hdec (hpass₁.mpr ⟨hchecks, hiff.mp hunrep⟩),
          view_of_importPasses hfresh hdec hok₀]
        exact (hpart.importAll_eq_iff hunrep).mpr (hspend hunrep)

/-- the coins cache after an import that stopped with one of the two coins written -/
def partCoinsCache : Coins.CCoinsViewCache :=
  .layer ∅ (.base (AList.singleton ⟨Uint256.ofNat 1, 0⟩ (normalizeSnapshotCoinForImport samplePegout)))

theorem partCoinsCache_sound : Sound Coins.coinValues partCoinsCache :=
  ⟨layerSound_empty _, by
    intro outpoint coin h
    have hmem := AList.mem_lookup_iff.mp h
    obtain ⟨rfl, rfl⟩ : outpoint = _ ∧ coin = _ := by simpa using hmem
    decide⟩

theorem resumed_import_sample :
    ∃ stats, (importSnapshotManifest Uint256.polyHash sampleKeys
        { sampleOptions with resumeImport := false } twoFile sampleCoinsCache).1 = .ok stats ∧
      (importSnapshotManifest Uint256.polyHash sampleKeys
        { sampleOptions with resumeImport := true } twoFile partCoinsCache).1 = .ok stats := by
  have hdec : decodeManifest sampleKeys twoFile = some (twoMetadata, twoCoins) := by decide +kernel
  have hpart : PartlyImported (normalized twoCoins) (view Coins.coinValues sampleCoinsCache)
      (view Coins.coinValues partCoinsCache) := by
    refine ⟨by decide +kernel, fun outpoint => ?_⟩
    by_cases hfirst : outpoint = ⟨Uint256.ofNat 1, 0⟩
    · refine Or.inr ⟨_, List.mem_cons_self, hfirst.symm, ?_⟩
      rw [hfirst]
      decide +kernel
    · refine Or.inl ?_
      show AList.lookup outpoint (AList.singleton _ _) = AList.lookup outpoint ∅
      rw [AList.lookup_empty, AList.lookup_eq_none]
      simpa [AList.mem_keys] using hfirst
  obtain ⟨stats, cache, hok⟩ := exists_of_fst_isOk (x := importSnapshotManifest Uint256.polyHash
    sampleKeys { sampleOptions with resumeImport := false } twoFile sampleCoinsCache) (by decide +kernel)
  have hsame := (resumed_import_iff Uint256.polyHash sampleKeys sampleOptions twoFile sampleCoinsCache
    partCoinsCache sampleCoinsCache_sound partCoinsCache_sound (by
      intro metadata coins hdec'
      obtain ⟨rfl, rfl⟩ := Prod.mk.inj (Option.some.inj (hdec.symm.trans hdec'))
      exact hpart)).mpr (by
      intro metadata coins hdec' _
      obtain ⟨rfl, rfl⟩ := Prod.mk.inj (Option.some.inj (hdec.symm.trans hdec'))
      exact resumable_of_nodup (by decide +kernel) hpart (by decide +kernel))
  have hok := congrArg Prod.fst hok
  exact ⟨stats, hok, (hsame.1 stats).mpr hok⟩

/-- a resumed import takes the second of two equal records for one that was there before -/
theorem repeated_record_resumed :
    PartlyImported (normalized repeatedCoins) (view Coins.coinValues sampleCoinsCache)
        (view Coins.coinValues sampleCoinsCache) ∧
    decodeManifest sampleKeys repeatedFile = some (twoMetadata, repeatedCoins) ∧
    ¬ SameImport
      (importSnapshotManifest Uint256.polyHash sampleKeys { sampleOptions with resumeImport := false }
        repeatedFile sampleCoinsCache)
      (importSnapshotManifest Uint256.polyHash sampleKeys { sampleOptions with resumeImport := true }
        repeatedFile sampleCoinsCache) := by
  refine ⟨⟨by decide +kernel, fun _ => Or.inl rfl⟩, by decide +kernel, ?_⟩
  intro ⟨hstats, _⟩
  obtain ⟨stats, cache, hok⟩ := exists_of_fst_isOk (x := importSnapshotManifest Uint256.polyHash
    sampleKeys { sampleOptions with resumeImport := true } repeatedFile sampleCoinsCache)
    (by decide +kernel)
  have hfresh := (hstats stats).mp (congrArg Prod.fst hok)
  have hrefused : (importSnapshotManifest Uint256.polyHash sampleKeys
      { sampleOptions with resumeImport := false } repeatedFile sampleCoinsCache).1.isOk = false := by
    decide +kernel
  rw [hfresh] at hrefused
  cases hrefused

end Snapshot
