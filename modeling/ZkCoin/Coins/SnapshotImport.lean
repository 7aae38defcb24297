import ZkCoin.Coins.Snapshot

/-!
# Importing the configured snapshot

The snapshot is imported into a chainstate at genesis by the RPC or at startup.  An attempt writes an
in-progress marker, imports the file into the coins cache, flushes the cache batch by batch and
replaces the marker by a completion marker; a marker found on the way makes the attempt a resumed one.
A crash during the flush leaves any part of the coins on disk; a failed import takes the in-progress
marker away, also when an earlier attempt has left coins behind.

* `Chainstate`, `attempt`, `step`   the chainstate with its markers, and what an attempt does;
* `Kept`                            what every step keeps: disk and markers stay those of one import;
* `Recoverable`                     the promise of the protocol;
* `step_recoverable_iff`            when one step keeps the promise;
* `run_recoverable`                 runs without a bad step keep it in every state.
-/

open Bytes Serialize Compress CacheTower Checked

namespace Snapshot

structure LtcSnapshotImportInfo where
  nHeight : Int
  hashBlock : Uint256
  hashUTXORoot : Uint256
  deriving DecidableEq

/-- the coins cache of the active chainstate over its database, and the markers of the database -/
structure Chainstate where
  coinsTip : Coins.CCoinsViewCache
  importInfo : Option LtcSnapshotImportInfo
  inProgress : Option LtcSnapshotImportInfo

/-- who asks: the RPC reads the file once before it starts and can be interrupted -/
inductive Caller where
  | rpc (firstRead : SnapshotFile) (interrupts : Nat → Bool)
  | startup

/-- a crash after `count` entries of the coins cache were written, in some order of the entries -/
structure Crash where
  order : List (Sigma fun _ : COutPoint => Coins.CCoinsCacheEntry) →
    List (Sigma fun _ : COutPoint => Coins.CCoinsCacheEntry)
  order_perm : ∀ entries, (order entries).Perm entries
  count : Nat

structure Attempt where
  caller : Caller
  file : SnapshotFile
  crash : Option Crash

def diskOf : Coins.CCoinsViewCache → Coins.PlainCoins := bottom

/-- the coins after a restart in the middle of `CCoinsViewDB::BatchWrite` -/
def crashed (crash : Crash) : Coins.CCoinsViewCache → Coins.CCoinsViewCache
  | .layer cache (.base db) =>
    .layer ∅ (.base (((crash.order cache.entries).take crash.count).foldl
      (writeEntry Coins.coinValues) db))
  | view => view

def Caller.interrupts : Caller → Nat → Bool
  | .rpc _ interrupts => interrupts
  | .startup => fun _ => false

def importOptions (info : LtcSnapshotImportInfo) (caller : Caller) (resumeImport : Bool) :
    ImportOptions :=
  ⟨some info.nHeight, some info.hashBlock, some info.hashUTXORoot, caller.interrupts, resumeImport⟩

section
variable (hash256 : Bytes → Uint256) (keys : KeyCodec) (info : LtcSnapshotImportInfo)

/-- both callers from the in-progress marker on -/
def importAndComplete (resumeImport : Bool) (a : Attempt) (s : Chainstate) :
    Except String Unit × Chainstate :=
  let started : Chainstate := { s with inProgress := some info }
  match importSnapshotManifest hash256 keys (importOptions info a.caller resumeImport) a.file
      started.coinsTip with
  | (.error text, coinsTip) => (.error text, { started with coinsTip := coinsTip, inProgress := none })
  | (.ok _, coinsTip) =>
    match a.crash with
    | some crash => (.error "crash", { started with coinsTip := crashed crash coinsTip })
    | none =>
      match Coins.flush coinsTip with
      | .error _ => (.error "failed to flush snapshot import to disk", { started with coinsTip })
      | .ok coinsTip => (.ok (), ⟨coinsTip, some info, none⟩)

/-- a marker that an attempt finds: none, or one of this snapshot -/
def checkMarker (text : String) (marker : Option LtcSnapshotImportInfo) : Except String Bool :=
  match marker with
  | none => .ok false
  | some found => if found ≠ info then .error text else .ok true

/-- the checks of the RPC on its first reading of the file -/
def checkFirstRead (stats : SnapshotManifestStats) : Except String Unit := do
  expectEq "base height" toString (some info.nHeight) stats.metadata.baseHeight
  expectEq "base hash" Uint256.toText (some info.hashBlock) stats.metadata.baseBlockhash
  expectEq "import hash" Uint256.toText (some info.hashUTXORoot) stats.hashImport

/-- `importsnapshotmanifest` with the snapshot configured, at the genesis tip -/
def importByRpc (firstRead : SnapshotFile) (a : Attempt) (s : Chainstate) :
    Except String Unit × Chainstate :=
  match readSnapshotManifest hash256 keys firstRead with
  | .error text => (.error text, s)
  | .ok verified =>
    match checkFirstRead info verified with
    | .error text => (.error text, s)
    | .ok () =>
      match checkMarker info "different Litecoin snapshot has already been imported" s.importInfo with
      | .error text => (.error text, s)
      | .ok imported =>
        match checkMarker info "different Litecoin snapshot import already in progress" s.inProgress with
        | .error text => (.error text, s)
        | .ok progress => importAndComplete hash256 keys info (imported || progress) a s

/-- `ImportConfiguredLtcSnapshotForChainstate` -/
def importAtStartup (a : Attempt) (s : Chainstate) : Except String Unit × Chainstate :=
  match checkMarker info "different Litecoin snapshot has already been imported" s.importInfo with
  | .error text => (.error text, s)
  | .ok true => (.ok (), s)
  | .ok false =>
    match checkMarker info "different Litecoin snapshot import already in progress" s.inProgress with
    | .error text => (.error text, s)
    | .ok progress => importAndComplete hash256 keys info progress a s

def attempt (a : Attempt) (s : Chainstate) : Except String Unit × Chainstate :=
  match a.caller with
  | .rpc firstRead _ => importByRpc hash256 keys info firstRead a s
  | .startup => importAtStartup hash256 keys info a s

/-- an attempt, or a restart: the coins cache is new -/
inductive Step where
  | attempt (a : Attempt)
  | restart

def step (s : Chainstate) : Step → Chainstate
  | .attempt a => (attempt hash256 keys info a s).2
  | .restart => { s with coinsTip := .layer ∅ (.base (diskOf s.coinsTip)) }

def run (s : Chainstate) (steps : List Step) : Chainstate := steps.foldl (step hash256 keys info) s

end

/-! ## the configured snapshot -/

def spendable (x : COutPoint × Coin) : Bool := !Coins.coinValues.ignored x.2

def manifestCoin (xs : List (COutPoint × Coin)) (outpoint : COutPoint) : Option Coin :=
  (xs.find? fun x => decide (x.1 = outpoint) && spendable x).map Prod.snd

theorem manifestCoin_cons (x : COutPoint × Coin) (xs : List (COutPoint × Coin))
    (outpoint : COutPoint) :
    manifestCoin (x :: xs) outpoint =
      if x.1 = outpoint ∧ spendable x = true then some x.2 else manifestCoin xs outpoint := by
  unfold manifestCoin
  rw [List.find?_cons]
  by_cases hx : x.1 = outpoint ∧ spendable x = true
  · rw [if_pos hx]
    simp [hx.1, hx.2]
  · rw [if_neg hx]
    have hfalse : (decide (x.1 = outpoint) && spendable x) = false := by
      rw [Bool.eq_false_iff]
      intro h
      exact hx (by simpa using h)
    rw [hfalse]

theorem importAll_apply (m : COutPoint → Option Coin) (xs : List (COutPoint × Coin))
    (outpoint : COutPoint) :
    importAll m xs outpoint = (m outpoint).or (manifestCoin xs outpoint) := by
  induction xs generalizing m with
  | nil =>
    show m outpoint = (m outpoint).or none
    rw [Option.or_none]
  | cons x xs ih =>
    show importAll (if (m x.1).isSome then m else added Coins.coinValues m x.1 x.2) xs outpoint = _
    rw [ih, manifestCoin_cons]
    by_cases hsome : (m x.1).isSome
    · rw [if_pos hsome]
      by_cases hx : x.1 = outpoint ∧ spendable x = true
      · obtain ⟨c, hc⟩ := Option.isSome_iff_exists.mp hsome
        rw [if_pos hx, ← hx.1, hc]
        rfl
      · rw [if_neg hx]
    · rw [if_neg hsome]
      have hnone : m x.1 = none := by simpa using hsome
      by_cases hspend : spendable x = true
      · have hadd : added Coins.coinValues m x.1 x.2 = Function.update m x.1 (some x.2) :=
          if_neg (by simpa [spendable] using hspend)
        rw [hadd]
        by_cases hx : x.1 = outpoint
        · subst hx
          rw [Function.update_self, hnone, if_pos ⟨rfl, hspend⟩]
          rfl
        · rw [Function.update_of_ne (Ne.symm hx), if_neg (fun h => hx h.1)]
      · have hadd : added Coins.coinValues m x.1 x.2 = m :=
          if_pos (by simpa [spendable] using hspend)
        rw [hadd, if_neg (fun h => hspend h.2)]

variable {xs : List (COutPoint × Coin)}

theorem Importable.absent {m : COutPoint → Option Coin} (h : Importable false m xs) :
    ∀ x ∈ xs, m x.1 = none := by
  induction xs generalizing m with
  | nil => exact nofun
  | cons x xs ih =>
    intro y hy
    rcases List.mem_cons.mp hy with rfl | hy
    · rcases h.1 with hnone | ⟨hresume, -⟩
      · exact hnone
      · cases hresume
    · have hnone := ih h.2 y hy
      rw [importAll_apply] at hnone
      exact (Option.or_eq_none_iff.mp hnone).1

theorem importable_of_nodup {resumeImport : Bool} {m : COutPoint → Option Coin}
    (hxs : (xs.map Prod.fst).Nodup)
    (h : ∀ x ∈ xs, m x.1 = none ∨ (resumeImport = true ∧ m x.1 = some x.2)) :
    Importable resumeImport m xs := by
  induction xs generalizing m with
  | nil => trivial
  | cons x xs ih =>
    obtain ⟨hx, hxs⟩ := List.nodup_cons.mp hxs
    refine ⟨h x List.mem_cons_self, ih hxs ?_⟩
    intro y hy
    have hne : x.1 ≠ y.1 := fun heq => hx (heq ▸ List.mem_map_of_mem hy)
    have hsame : importAll m [x] y.1 = m y.1 := by
      rw [importAll_apply, manifestCoin_cons, if_neg (fun h => hne h.1)]
      exact Option.or_none
    rw [hsame]
    exact h y (List.mem_cons_of_mem x hy)

theorem manifestCoin_of_nodup (hxs : (xs.map Prod.fst).Nodup) {x : COutPoint × Coin} (hx : x ∈ xs) :
    manifestCoin xs x.1 = if spendable x = true then some x.2 else none := by
  induction xs with
  | nil => cases hx
  | cons y ys ih =>
    obtain ⟨hy, hys⟩ := List.nodup_cons.mp hxs
    rw [manifestCoin_cons]
    rcases List.mem_cons.mp hx with rfl | hx
    · by_cases hspend : spendable x = true
      · rw [if_pos ⟨rfl, hspend⟩, if_pos hspend]
      · rw [if_neg (fun h => hspend h.2), if_neg hspend, manifestCoin, List.find?_eq_none.mpr]
        · rfl
        · intro z hz
          have hne : z.1 ≠ x.1 := fun heq => hy (heq ▸ List.mem_map_of_mem hz)
          simp [hne]
    · have hne : y.1 ≠ x.1 := fun heq => hy (heq ▸ List.mem_map_of_mem hx)
      rw [if_neg (fun h => hne h.1)]
      exact ih hys hx

/-- the snapshot that the consensus parameters name, the coins of the genesis chainstate, and that
the one can be imported into the other -/
structure ConfiguredSnapshot (hash256 : Bytes → Uint256) (keys : KeyCodec) where
  info : LtcSnapshotImportInfo
  genesis : COutPoint → Option Coin
  file : SnapshotFile
  metadata : SnapshotMetadata
  coins : List (COutPoint × Coin)
  decodes : decodeManifest keys file = some (metadata, coins)
  amountsOk : AmountsOk 0 coins
  coinsCount : coins.length = metadata.coinsCount
  baseHeight : metadata.baseHeight = info.nHeight
  baseHash : metadata.baseBlockhash = info.hashBlock
  importHash : hash256 (importPreimage keys metadata coins) = info.hashUTXORoot
  importable : Importable false genesis (normalized coins)

namespace ConfiguredSnapshot

variable {hash256 : Bytes → Uint256} {keys : KeyCodec} (cfg : ConfiguredSnapshot hash256 keys)

def manifest : List (COutPoint × Coin) := normalized cfg.coins

/-- the spendable coins of the manifest in addition to those of genesis -/
def target (outpoint : COutPoint) : Option Coin :=
  (cfg.genesis outpoint).or (manifestCoin cfg.manifest outpoint)

def disk (s : Chainstate) (outpoint : COutPoint) : Option Coin := (diskOf s.coinsTip).lookup outpoint

/-- some but not all spendable coins of the manifest are on disk -/
def Unfinished (s : Chainstate) : Prop :=
  (∃ x ∈ cfg.manifest, spendable x = true ∧ disk s x.1 = some x.2) ∧
    ∃ x ∈ cfg.manifest, spendable x = true ∧ disk s x.1 ≠ some x.2

instance (s : Chainstate) : Decidable (cfg.Unfinished s) :=
  inferInstanceAs (Decidable ((∃ x ∈ cfg.manifest, spendable x = true ∧ disk s x.1 = some x.2) ∧
    ∃ x ∈ cfg.manifest, spendable x = true ∧ disk s x.1 ≠ some x.2))

def marked (s : Chainstate) : Bool := s.importInfo.isSome || s.inProgress.isSome

/-- an attempt that reads the configured snapshot to its end and does not crash -/
def Correct (a : Attempt) : Prop :=
  decodeManifest keys a.file = some (cfg.metadata, cfg.coins) ∧
    Uninterrupted a.caller.interrupts 0 cfg.coins.length ∧ a.crash = none ∧
    match a.caller with
    | .startup => True
    | .rpc firstRead _ => decodeManifest keys firstRead = some (cfg.metadata, cfg.coins)

/-- **The promise of the protocol.**  A completion marker stands for exactly the coins of the
manifest; and while only some of them are on disk a marker says so, with which an attempt that reads
the right file succeeds. -/
structure Recoverable (s : Chainstate) : Prop where
  complete : s.importInfo.isSome = true → disk s = cfg.target
  marked : cfg.Unfinished s → marked s = true
  retry : cfg.Unfinished s → (cfg.manifest.map Prod.fst).Nodup → ∀ a, cfg.Correct a →
    (attempt hash256 keys cfg.info a s).1 = .ok () ∧
      (attempt hash256 keys cfg.info a s).2.importInfo = some cfg.info ∧
      disk (attempt hash256 keys cfg.info a s).2 = cfg.target

/-- what no step changes: the coins cache shows what is on disk, each outpoint is as at genesis or as
in the end, and the markers are of this snapshot -/
structure Kept (s : Chainstate) : Prop where
  sound : Sound Coins.coinValues s.coinsTip
  views_eq : views Coins.coinValues s.coinsTip = [disk s, disk s]
  between : ∀ outpoint, disk s outpoint = cfg.genesis outpoint ∨ disk s outpoint = cfg.target outpoint
  imported : ∀ i ∈ s.importInfo, i = cfg.info
  progress : ∀ i ∈ s.inProgress, i = cfg.info
  complete : s.importInfo.isSome = true → disk s = cfg.target

structure AtGenesis (s : Chainstate) : Prop where
  sound : Sound Coins.coinValues s.coinsTip
  views_eq : views Coins.coinValues s.coinsTip = [cfg.genesis, cfg.genesis]
  importInfo : s.importInfo = none
  inProgress : s.inProgress = none

/-- the hash keeps the file of an attempt apart from the configured snapshot -/
def Honest : Step → Prop
  | .attempt a => ∀ metadata coins, decodeManifest keys a.file = some (metadata, coins) →
    CollisionFree hash256 [importPreimage keys cfg.metadata cfg.coins, importPreimage keys metadata coins]
  | .restart => True

def Reaches (s : Chainstate) (a : Attempt) : Prop :=
  match a.caller with
  | .startup => s.importInfo = none
  | .rpc firstRead _ => ∃ stats, readSnapshotManifest hash256 keys firstRead = .ok stats ∧
    checkFirstRead cfg.info stats = .ok ()

def Passes (s : Chainstate) (a : Attempt) : Prop :=
  ∃ metadata coins, decodeManifest keys a.file = some (metadata, coins) ∧
    ImportPasses hash256 keys (importOptions cfg.info a.caller (marked s)) (disk s) metadata coins

/-- the import of a file fails while an unfinished import has coins on disk -/
def Forgets (s : Chainstate) : Step → Prop
  | .attempt a => cfg.Reaches s a ∧ ¬ cfg.Passes s a ∧ cfg.Unfinished s ∧ s.importInfo = none
  | .restart => False

/-! ## what an attempt does -/

variable {cfg}

variable {v w : COutPoint → Option Coin}

theorem exists_of_views {t : Coins.CCoinsViewCache} (h : views Coins.coinValues t = [v, w]) :
    ∃ cache db, t = .layer cache (.base db) ∧ w = fun outpoint => db.lookup outpoint := by
  match t, h with
  | .layer cache (.base db), h =>
    exact ⟨cache, db, rfl, (List.cons.inj (List.cons.inj h).2).1.symm⟩
  | .layer cache (.layer cache' below), h =>
    rw [views, views, views_eq_cons] at h
    exact absurd (congrArg List.length h) (by simp)

variable {s : Chainstate}

theorem Kept.view_eq (h : cfg.Kept s) : view Coins.coinValues s.coinsTip = disk s := by
  rw [← level_views, h.views_eq]
  rfl

theorem Kept.importAll_eq (h : cfg.Kept s) : importAll (disk s) cfg.manifest = cfg.target := by
  funext outpoint
  rw [importAll_apply]
  rcases h.between outpoint with hdisk | hdisk
  · rw [hdisk]
    rfl
  · rw [hdisk, target, Option.or_assoc, Option.or_self]

variable {a : Attempt}

theorem Kept.import_passes (h : cfg.Kept s) (ha : cfg.Honest (.attempt a)) (hpass : cfg.Passes s a) :
    ∃ stats t, importSnapshotManifest hash256 keys (importOptions cfg.info a.caller (marked s)) a.file
        s.coinsTip = (.ok stats, t) ∧ Sound Coins.coinValues t ∧
      views Coins.coinValues t = [cfg.target, disk s] := by
  obtain ⟨metadata, coins, hdec, hpass⟩ := hpass
  have hsame : normalized coins = cfg.manifest := by
    obtain ⟨hlt, hok⟩ := storable_of_decodeManifest hdec hpass.amountsOk
    obtain ⟨hlt', hok'⟩ := storable_of_decodeManifest cfg.decodes cfg.amountsOk
    have hpre : importPreimage keys metadata coins = importPreimage keys cfg.metadata cfg.coins := by
      apply ha metadata coins hdec _ (by simp) _ (by simp)
      rw [hpass.importHash _ rfl, cfg.importHash]
    exact normalized_eq_of_importPreimage hpass.coinsCount cfg.coinsCount hlt hlt' hok hok' hpre
  rw [← h.view_eq] at hpass
  rcases importSnapshotManifest_cases hash256 keys (importOptions cfg.info a.caller (marked s))
    a.file h.sound with
    ⟨metadata', coins', stats, t, hdec', -, hrun, -, hsound, hviews⟩ | ⟨hbad, -⟩
  · obtain ⟨rfl, rfl⟩ := Prod.mk.inj (Option.some.inj (hdec.symm.trans hdec'))
    refine ⟨stats, t, hrun, hsound, ?_⟩
    rw [hviews, h.view_eq, hsame, h.importAll_eq, h.views_eq]
    rfl
  · exact absurd hpass (hbad metadata coins hdec)

theorem Kept.import_fails (h : cfg.Kept s) (hfail : ¬ cfg.Passes s a) :
    ∃ text t, importSnapshotManifest hash256 keys (importOptions cfg.info a.caller (marked s)) a.file
        s.coinsTip = (.error text, t) ∧ Sound Coins.coinValues t ∧
      views Coins.coinValues t = [disk s, disk s] := by
  rcases importSnapshotManifest_cases hash256 keys (importOptions cfg.info a.caller (marked s))
    a.file h.sound with
    ⟨metadata, coins, stats, t, hdec, hpass, -⟩ | ⟨-, text, t, hrun, hsound, hviews⟩
  · rw [h.view_eq] at hpass
    exact absurd ⟨metadata, coins, hdec, hpass⟩ hfail
  · exact ⟨text, t, hrun, hsound, hviews.trans h.views_eq⟩

/-- a crash leaves each outpoint as it was on disk or as the coins cache showed it -/
theorem crashed_ok (crash : Crash) {t : Coins.CCoinsViewCache} (hsound : Sound Coins.coinValues t)
    (hviews : views Coins.coinValues t = [v, w]) :
    ∃ d, Sound Coins.coinValues (crashed crash t) ∧
      views Coins.coinValues (crashed crash t) = [d, d] ∧
      ∀ outpoint, d outpoint = w outpoint ∨ d outpoint = v outpoint := by
  obtain ⟨cache, db, rfl, rfl⟩ := exists_of_views hviews
  have hv : overlay Coins.coinValues cache (view Coins.coinValues (.base db)) = v :=
    (List.cons.inj hviews).1
  have hperm : ∀ x ∈ (crash.order cache.entries).take crash.count, x ∈ cache.entries := fun x hx =>
    (crash.order_perm _).subset (List.mem_of_mem_take hx)
  have hkeys : ((crash.order cache.entries).take crash.count).NodupKeys :=
    List.NodupKeys.sublist (List.take_sublist _ _)
      ((List.perm_nodupKeys (crash.order_perm _)).mpr cache.nodupKeys)
  obtain ⟨hbase, hwritten⟩ := writeEntries_ok ((crash.order cache.entries).take crash.count) hsound.2
  refine ⟨_, ⟨layerSound_empty _, hbase⟩, congrArg (· :: _) (overlay_empty _), ?_⟩
  intro outpoint
  rw [hwritten]
  by_cases hmem : outpoint ∈ ((crash.order cache.entries).take crash.count).keys
  · obtain ⟨e, he⟩ := List.exists_of_mem_keys hmem
    rw [written_of_mem hkeys he]
    split
    · refine Or.inr ?_
      rw [← hv, overlay_some (AList.mem_lookup_iff.mpr (hperm _ he))]
    · exact Or.inl rfl
  · exact Or.inl (written_of_notMem hmem)

theorem disk_of_views (h : views Coins.coinValues s.coinsTip = [v, w]) : disk s = w := by
  obtain ⟨cache, db, hs, rfl⟩ := exists_of_views h
  funext outpoint
  rw [disk, hs]
  rfl

theorem importAndComplete_fails (h : cfg.Kept s) (hfail : ¬ cfg.Passes s a) :
    ∃ text t, importAndComplete hash256 keys cfg.info (marked s) a s =
        (.error text, ⟨t, s.importInfo, none⟩) ∧ Sound Coins.coinValues t ∧
      views Coins.coinValues t = [disk s, disk s] := by
  obtain ⟨text, t, hrun, hsound, hviews⟩ := h.import_fails hfail
  refine ⟨text, t, ?_, hsound, hviews⟩
  simp only [importAndComplete, hrun]

theorem importAndComplete_completes (h : cfg.Kept s) (ha : cfg.Honest (.attempt a))
    (hpass : cfg.Passes s a) (hcrash : a.crash = none) :
    ∃ t, importAndComplete hash256 keys cfg.info (marked s) a s = (.ok (), ⟨t, some cfg.info, none⟩) ∧
      Sound Coins.coinValues t ∧ views Coins.coinValues t = [cfg.target, cfg.target] := by
  obtain ⟨stats, t, hrun, hsound, hviews⟩ := h.import_passes ha hpass
  obtain ⟨cache, db, rfl, -⟩ := exists_of_views hviews
  obtain ⟨t', hflush, hsound', hviews'⟩ := flush_ok hsound
  refine ⟨t', ?_, hsound', ?_⟩
  · simp only [importAndComplete, hrun, hcrash, Coins.flush, hflush]
  · rw [hviews', (List.cons.inj hviews).1]
    rfl

theorem importAndComplete_crashes {crash : Crash} (h : cfg.Kept s) (ha : cfg.Honest (.attempt a))
    (hpass : cfg.Passes s a) (hcrash : a.crash = some crash) :
    ∃ t d, importAndComplete hash256 keys cfg.info (marked s) a s =
        (.error "crash", ⟨t, s.importInfo, some cfg.info⟩) ∧ Sound Coins.coinValues t ∧
      views Coins.coinValues t = [d, d] ∧
      ∀ outpoint, d outpoint = disk s outpoint ∨ d outpoint = cfg.target outpoint := by
  obtain ⟨stats, t, hrun, hsound, hviews⟩ := h.import_passes ha hpass
  obtain ⟨d, hsound', hviews', hd⟩ := crashed_ok crash hsound hviews
  refine ⟨crashed crash t, d, ?_, hsound', hviews', hd⟩
  simp only [importAndComplete, hrun, hcrash]

theorem checkMarker_ok {info : LtcSnapshotImportInfo} {text : String}
    {marker : Option LtcSnapshotImportInfo} (h : ∀ i ∈ marker, i = info) :
    checkMarker info text marker = .ok marker.isSome := by
  cases marker with
  | none => rfl
  | some found =>
    rw [checkMarker, if_neg (not_not.mpr (h found rfl))]
    rfl

theorem attempt_reaches (h : cfg.Kept s) (hr : cfg.Reaches s a) :
    attempt hash256 keys cfg.info a s = importAndComplete hash256 keys cfg.info (marked s) a s := by
  unfold Reaches at hr
  unfold attempt
  cases hcaller : a.caller with
  | startup =>
    simp only [hcaller] at hr
    simp only [importAtStartup, checkMarker_ok h.imported, checkMarker_ok h.progress, marked]
    simp only [hr, Option.isSome_none, Bool.false_or]
  | rpc firstRead interrupts =>
    simp only [hcaller] at hr
    obtain ⟨stats, hstats, hcheck⟩ := hr
    simp only [importByRpc, hstats, hcheck, checkMarker_ok h.imported, checkMarker_ok h.progress, marked]

theorem attempt_stops (h : cfg.Kept s) (hr : ¬ cfg.Reaches s a) :
    (attempt hash256 keys cfg.info a s).2 = s ∧
      (a.caller = .startup → (attempt hash256 keys cfg.info a s).1 = .ok ()) := by
  unfold Reaches at hr
  unfold attempt
  cases hcaller : a.caller with
  | startup =>
    simp only [hcaller] at hr
    obtain ⟨i, hi⟩ := Option.ne_none_iff_exists'.mp hr
    simp only [importAtStartup, checkMarker_ok h.imported]
    simp only [hi, Option.isSome_some, implies_true, and_self]
  | rpc firstRead interrupts =>
    simp only [hcaller] at hr
    refine ⟨?_, nofun⟩
    dsimp only
    unfold importByRpc
    cases hstats : readSnapshotManifest hash256 keys firstRead with
    | error text => rfl
    | ok stats =>
      cases hcheck : checkFirstRead cfg.info stats with
      | error text => simp only [hcheck]
      | ok u => exact absurd ⟨stats, hstats, hcheck⟩ hr

/-! ## steps -/

theorem Kept.of_views {d : COutPoint → Option Coin} (hsound : Sound Coins.coinValues s.coinsTip)
    (hviews : views Coins.coinValues s.coinsTip = [d, d])
    (hbetween : ∀ outpoint, d outpoint = cfg.genesis outpoint ∨ d outpoint = cfg.target outpoint)
    (himported : ∀ i ∈ s.importInfo, i = cfg.info) (hprogress : ∀ i ∈ s.inProgress, i = cfg.info)
    (hcomplete : s.importInfo.isSome = true → d = cfg.target) : cfg.Kept s := by
  have hd : disk s = d := disk_of_views hviews
  exact ⟨hsound, hd ▸ hviews, hd ▸ hbetween, himported, hprogress, hd ▸ hcomplete⟩

theorem AtGenesis.kept (h : cfg.AtGenesis s) : cfg.Kept s := by
  refine Kept.of_views h.sound h.views_eq (fun outpoint => Or.inl rfl) ?_ ?_ ?_
  · rw [h.importInfo]
    exact nofun
  · rw [h.inProgress]
    exact nofun
  · rw [h.importInfo]
    exact nofun

theorem kept_step {st : Step} (h : cfg.Kept s) (hst : cfg.Honest st) :
    cfg.Kept (step hash256 keys cfg.info s st) := by
  have hinfo : ∀ i ∈ some cfg.info, i = cfg.info := fun i hi => (Option.some.inj hi).symm
  cases st with
  | restart =>
    obtain ⟨cache, db, hs, hdb⟩ := exists_of_views h.views_eq
    have hbase : Sound Coins.coinValues (.base db) := (hs ▸ h.sound).2
    have hdisk : diskOf s.coinsTip = db := by
      rw [hs]
      rfl
    refine Kept.of_views (d := disk s) ⟨layerSound_empty _, ?_⟩ ?_ h.between h.imported h.progress
      h.complete
    · rw [hdisk]
      exact hbase
    · show [overlay Coins.coinValues ∅ _, _] = _
      rw [overlay_empty, hdisk, hdb]
      rfl
  | attempt a =>
    show cfg.Kept (attempt hash256 keys cfg.info a s).2
    by_cases hr : cfg.Reaches s a
    · rw [attempt_reaches h hr]
      by_cases hpass : cfg.Passes s a
      · cases hcrash : a.crash with
        | none =>
          obtain ⟨t, hrun, hsound, hviews⟩ := importAndComplete_completes h hst hpass hcrash
          rw [hrun]
          exact Kept.of_views hsound hviews (fun _ => Or.inr rfl) hinfo nofun (fun _ => rfl)
        | some crash =>
          obtain ⟨t, d, hrun, hsound, hviews, hd⟩ := importAndComplete_crashes h hst hpass hcrash
          rw [hrun]
          refine Kept.of_views hsound hviews ?_ h.imported hinfo ?_
          · intro outpoint
            rcases hd outpoint with hd | hd
            · rw [hd]
              exact h.between outpoint
            · exact Or.inr hd
          · intro hsome
            funext outpoint
            rcases hd outpoint with hd | hd
            · rw [hd, h.complete hsome]
            · exact hd
      · obtain ⟨text, t, hrun, hsound, hviews⟩ := importAndComplete_fails h hpass
        rw [hrun]
        exact Kept.of_views hsound hviews h.between h.imported nofun h.complete
    · rw [(attempt_stops h hr).1]
      exact h

theorem Kept.importable (h : cfg.Kept s) (hkeys : (cfg.manifest.map Prod.fst).Nodup) :
    Importable true (disk s) cfg.manifest := by
  apply importable_of_nodup hkeys
  intro x hx
  have hgen : cfg.genesis x.1 = none := cfg.importable.absent x hx
  rcases h.between x.1 with hd | hd
  · exact Or.inl (hd.trans hgen)
  · rw [hd, target, hgen, Option.none_or, manifestCoin_of_nodup hkeys hx]
    by_cases hspend : spendable x = true
    · rw [if_pos hspend]
      exact Or.inr ⟨rfl, rfl⟩
    · rw [if_neg hspend]
      exact Or.inl rfl

/-- the marker is what an attempt with the right file needs -/
theorem Kept.retry (h : cfg.Kept s) (hmarked : marked s = true)
    (hkeys : (cfg.manifest.map Prod.fst).Nodup) (ha : cfg.Correct a) :
    (attempt hash256 keys cfg.info a s).1 = .ok () ∧
      (attempt hash256 keys cfg.info a s).2.importInfo = some cfg.info ∧
      disk (attempt hash256 keys cfg.info a s).2 = cfg.target := by
  obtain ⟨hdec, hgo, hcrash, hcaller⟩ := ha
  have hhonest : cfg.Honest (.attempt a) := by
    intro metadata coins hdec'
    obtain ⟨rfl, rfl⟩ := Prod.mk.inj (Option.some.inj (hdec.symm.trans hdec'))
    intro p hp q hq _
    simp only [List.mem_cons, List.not_mem_nil, or_false, or_self] at hp hq
    rw [hp, hq]
  have hpass : cfg.Passes s a := by
    refine ⟨cfg.metadata, cfg.coins, hdec, hgo, cfg.amountsOk, ?_, cfg.coinsCount, ?_, ?_, ?_⟩
    · rw [hmarked]
      exact h.importable hkeys
    · intro height hh
      exact cfg.baseHeight.trans (Option.some.inj hh)
    · intro hash hh
      exact cfg.baseHash.trans (Option.some.inj hh)
    · intro hash hh
      exact cfg.importHash.trans (Option.some.inj hh)
  by_cases hr : cfg.Reaches s a
  · obtain ⟨t, hrun, -, hviews⟩ := importAndComplete_completes h hhonest hpass hcrash
    rw [attempt_reaches h hr, hrun]
    exact ⟨rfl, rfl, disk_of_views hviews⟩
  · cases hwho : a.caller with
    | startup =>
      obtain ⟨hsame, hok⟩ := attempt_stops h hr
      have himported : s.importInfo ≠ none := by
        simpa [Reaches, hwho] using hr
      obtain ⟨i, hi⟩ := Option.ne_none_iff_exists'.mp himported
      rw [hsame]
      refine ⟨hok hwho, ?_, h.complete (by rw [hi]; rfl)⟩
      rw [hi, h.imported i hi]
    | rpc firstRead interrupts =>
      simp only [hwho] at hcaller
      obtain ⟨stats, hstats, hrep⟩ := readSnapshotManifest_ok hash256 hcaller cfg.amountsOk cfg.coinsCount
      apply absurd _ hr
      simp only [Reaches, hwho]
      refine ⟨stats, hstats, ?_⟩
      simp only [checkFirstRead, then_eq_ok, expectEq_eq_ok_iff, hrep.metadata_eq, hrep.hashImport,
        cfg.baseHeight, cfg.baseHash, cfg.importHash, Option.mem_def, Option.some.injEq, forall_eq',
        and_self]

theorem Kept.recoverable_iff (h : cfg.Kept s) :
    cfg.Recoverable s ↔ (cfg.Unfinished s → marked s = true) := by
  constructor
  · intro hs
    exact hs.marked
  · intro hs
    exact ⟨h.complete, hs, fun hun hkeys a ha => h.retry (hs hun) hkeys ha⟩

theorem unfinished_congr {s' : Chainstate} (h : disk s' = disk s) :
    cfg.Unfinished s' ↔ cfg.Unfinished s := by
  unfold Unfinished
  rw [h]

/-- one step keeps the promise exactly when it does not forget an unfinished import -/
theorem Kept.step_recoverable_iff {st : Step} (h : cfg.Kept s) (hs : cfg.Recoverable s)
    (hst : cfg.Honest st) :
    cfg.Recoverable (step hash256 keys cfg.info s st) ↔ ¬ cfg.Forgets s st := by
  rw [(kept_step h hst).recoverable_iff]
  cases st with
  | restart =>
    refine ⟨fun _ hf => hf, fun _ hun => hs.marked ?_⟩
    rwa [unfinished_congr (s := s)] at hun
    funext outpoint
    rfl
  | attempt a =>
    show (cfg.Unfinished (attempt hash256 keys cfg.info a s).2 →
      marked (attempt hash256 keys cfg.info a s).2 = true) ↔ _
    by_cases hr : cfg.Reaches s a
    · by_cases hpass : cfg.Passes s a
      · have hmark : marked (attempt hash256 keys cfg.info a s).2 = true := by
          rw [attempt_reaches h hr]
          cases hcrash : a.crash with
          | none =>
            obtain ⟨t, hrun, -⟩ := importAndComplete_completes h hst hpass hcrash
            rw [hrun]
            rfl
          | some crash =>
            obtain ⟨t, d, hrun, -⟩ := importAndComplete_crashes h hst hpass hcrash
            rw [hrun]
            exact Bool.or_true _
        exact ⟨fun _ hf => hf.2.1 hpass, fun _ _ => hmark⟩
      · obtain ⟨text, t, hrun, -, hviews⟩ := importAndComplete_fails h hpass
        have hdisk : disk (attempt hash256 keys cfg.info a s).2 = disk s := by
          rw [attempt_reaches h hr, hrun]
          exact disk_of_views hviews
        have hmark : marked (attempt hash256 keys cfg.info a s).2 = s.importInfo.isSome := by
          rw [attempt_reaches h hr, hrun]
          exact Bool.or_false _
        rw [unfinished_congr hdisk, hmark]
        constructor
        · intro hkeep hf
          have hsome := hkeep hf.2.2.1
          rw [hf.2.2.2] at hsome
          cases hsome
        · intro hnf hun
          rw [Option.isSome_iff_ne_none]
          exact fun hnone => hnf ⟨hr, hpass, hun, hnone⟩
    · rw [(attempt_stops h hr).1]
      exact ⟨fun _ hf => hr hf.1, fun _ => hs.marked⟩

/-! ## runs -/

def NeverForgets (cfg : ConfiguredSnapshot hash256 keys) : Chainstate → List Step → Prop
  | _, [] => True
  | s, st :: steps => ¬ cfg.Forgets s st ∧ NeverForgets cfg (step hash256 keys cfg.info s st) steps

theorem kept_run {steps : List Step} (h : cfg.Kept s) (hsteps : ∀ st ∈ steps, cfg.Honest st) :
    cfg.Kept (run hash256 keys cfg.info s steps) := by
  induction steps generalizing s with
  | nil => exact h
  | cons st steps ih =>
    exact ih (kept_step h (hsteps st List.mem_cons_self))
      (fun st' hst' => hsteps st' (List.mem_cons_of_mem st hst'))

theorem recoverable_run {steps : List Step} (h : cfg.Kept s) (hs : cfg.Recoverable s)
    (hsteps : ∀ st ∈ steps, cfg.Honest st) (hnever : cfg.NeverForgets s steps) :
    cfg.Recoverable (run hash256 keys cfg.info s steps) := by
  induction steps generalizing s with
  | nil => exact hs
  | cons st steps ih =>
    have hst := hsteps st List.mem_cons_self
    exact ih (kept_step h hst) ((h.step_recoverable_iff hs hst).mpr hnever.1)
      (fun st' hst' => hsteps st' (List.mem_cons_of_mem st hst')) hnever.2

theorem AtGenesis.recoverable (h : cfg.AtGenesis s) : cfg.Recoverable s := by
  rw [h.kept.recoverable_iff]
  intro ⟨⟨x, hx, _, hdisk⟩, _⟩
  -- at genesis no coin of the manifest is there
  rw [disk_of_views h.views_eq, cfg.importable.absent x hx] at hdisk
  cases hdisk

end ConfiguredSnapshot

open ConfiguredSnapshot

/-! ## a run that loses the import -/

def twoCoins : List (COutPoint × Coin) :=
  [(⟨Uint256.ofNat 1, 0⟩, samplePegout), (⟨Uint256.ofNat 2, 0⟩, sampleCoinbase)]

def twoMetadata : SnapshotMetadata := ⟨100, Uint256.ofNat 5, 2, 9⟩

def twoFile : SnapshotFile :=
  ⟨twoMetadata.serialize ++ twoCoins.flatMap fun x => x.1.serialize ++ x.2.serialize sampleKeys, false⟩

def cutFile : SnapshotFile := ⟨twoMetadata.serialize, true⟩

def twoInfo : LtcSnapshotImportInfo :=
  ⟨100, Uint256.ofNat 5, Uint256.polyHash (importPreimage sampleKeys twoMetadata twoCoins)⟩

def twoSnapshot : ConfiguredSnapshot Uint256.polyHash sampleKeys where
  info := twoInfo
  genesis _ := none
  file := twoFile
  metadata := twoMetadata
  coins := twoCoins
  decodes := by decide +kernel
  amountsOk := by decide +kernel
  coinsCount := rfl
  baseHeight := rfl
  baseHash := rfl
  importHash := rfl
  importable := importable_of_nodup (by decide) (fun _ _ => Or.inl rfl)

def genesisChainstate : Chainstate := ⟨.layer ∅ (.base ∅), none, none⟩

def crashAfterOne : Crash := ⟨id, fun _ => .refl _, 1⟩

/-- a crash after the first coin, then a read error at the next start -/
def losingSteps : List Step :=
  [.attempt ⟨.startup, twoFile, some crashAfterOne⟩, .attempt ⟨.startup, cutFile, none⟩]

end Snapshot
