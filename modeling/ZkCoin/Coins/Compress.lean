import ZkCoin.Coins.Cache
import ZkCoin.Mw.Amounts

/-!
# The compact encodings of coins

Amounts are written without their trailing decimal zeros, scripts of the three common kinds without
their constant bytes.  The coins database, the snapshot manifest and the undo records all use these
encodings; the last two differ in what they keep besides the output.

* `compressAmount`, `compressScript`   the compressions of `compressor.cpp`;
* `readTxOut_txOutBytes`               an output that can be spent is read back as written;
* `compressAmountChecked_eq`           no amount of money overflows on the way;
* `Coin.serialize`, `Coin.read`        the database and manifest form;
* `Coin.undoBytes`, `Coin.readUndo`    the undo form, which has no place for the pegout flag.
-/

open Bytes Serialize Mw

namespace Compress

/-! ## amounts -/

/-- the loop of `CompressAmount`: divide by ten while nothing is lost, `fuel` times at most -/
def stripTens : Nat → Nat → Nat × Nat
  | 0, n => (n, 0)
  | fuel + 1, n =>
    if n % 10 = 0 then
      let (m, e) := stripTens fuel (n / 10)
      (m, e + 1)
    else (n, 0)

def compressAmount (nAmount : Nat) : Nat :=
  if nAmount = 0 then 0
  else
    let (n, e) := stripTens 9 nAmount
    if e < 9 then
      let d := n % 10
      (1 + (n / 10 * 9 + d - 1) * 10 + e) % 2 ^ 64
    else (1 + (n - 1) * 10 + 9) % 2 ^ 64

def decompressAmount (x : Nat) : Nat :=
  if x = 0 then 0
  else
    let x := x - 1
    let e := x % 10
    let x := x / 10
    let n := if e < 9 then x / 9 * 10 + (x % 9 + 1) else x + 1
    n * 10 ^ e % 2 ^ 64

variable {n : Nat}

theorem stripTens_spec {fuel m e : Nat} (h : stripTens fuel n = (m, e)) :
    n = m * 10 ^ e ∧ e ≤ fuel ∧ (e < fuel → m % 10 ≠ 0) := by
  induction fuel generalizing n m e with
  | zero =>
    obtain ⟨rfl, rfl⟩ := Prod.mk.inj h
    exact ⟨by simp, Nat.le_refl 0, fun h => absurd h (Nat.lt_irrefl 0)⟩
  | succ fuel ih =>
    unfold stripTens at h
    split at h
    · rename_i hzero
      obtain ⟨rfl, rfl⟩ := Prod.mk.inj h
      obtain ⟨hn, he, hm⟩ := ih (n := n / 10) rfl
      refine ⟨?_, Nat.succ_le_succ he, fun hlt => hm (Nat.lt_of_succ_lt_succ hlt)⟩
      rw [Nat.pow_succ, ← Nat.mul_assoc, ← hn]
      omega
    · rename_i hnz
      obtain ⟨rfl, rfl⟩ := Prod.mk.inj h
      exact ⟨by simp, Nat.zero_le _, fun _ => hnz⟩

theorem stripTens_bounds {fuel m e : Nat} (h : stripTens fuel n = (m, e)) (hn : n ≠ 0) :
    0 < m ∧ m ≤ n := by
  obtain ⟨heq, -, -⟩ := stripTens_spec h
  refine ⟨?_, ?_⟩
  · rcases Nat.eq_zero_or_pos m with rfl | hpos
    · rw [Nat.zero_mul] at heq
      exact absurd heq hn
    · exact hpos
  · rw [heq]
    exact Nat.le_mul_of_pos_right m (Nat.pow_pos (by omega))

theorem compressAmount_lt (n : Nat) : compressAmount n < 2 ^ 64 := by
  unfold compressAmount
  split
  · omega
  · dsimp only
    split
    · exact Nat.mod_lt _ (by omega)
    · exact Nat.mod_lt _ (by omega)

/-! ## amounts, with every operation checked -/

/-- a result of 64-bit arithmetic that has not wrapped around -/
def inUint64 (n : Nat) : Option Nat := if n < 2 ^ 64 then some n else none

/-- `CompressAmount` that stops at an overflow or a failed assertion -/
def compressAmountChecked (nAmount : Nat) : Option Nat :=
  if nAmount = 0 then some 0
  else
    let (n, e) := stripTens 9 nAmount
    if e < 9 then do
      let d := n % 10
      guard (1 ≤ d ∧ d ≤ 9)
      let n9 ← inUint64 (n / 10 * 9)
      let n9d ← inUint64 (n9 + d)
      let x ← inUint64 ((n9d - 1) * 10)
      let x ← inUint64 (1 + x)
      inUint64 (x + e)
    else do
      let x ← inUint64 ((n - 1) * 10)
      let x ← inUint64 (1 + x)
      inUint64 (x + 9)

/-- the last loop of `DecompressAmount` -/
def timesTens : Nat → Nat → Option Nat
  | 0, n => some n
  | e + 1, n => do
    let n ← inUint64 (n * 10)
    timesTens e n

/-- `DecompressAmount` that stops at an overflow -/
def decompressAmountChecked (x : Nat) : Option Nat :=
  if x = 0 then some 0
  else do
    let x := x - 1
    let e := x % 10
    let x := x / 10
    let n ← if e < 9 then do
        let n10 ← inUint64 (x / 9 * 10)
        inUint64 (n10 + (x % 9 + 1))
      else inUint64 (x + 1)
    timesTens e n

theorem inUint64_eq_some_iff {m : Nat} : inUint64 n = some m ↔ n < 2 ^ 64 ∧ m = n := by
  unfold inUint64
  split
  · rename_i hlt
    exact ⟨fun h => ⟨hlt, (Option.some.inj h).symm⟩, fun h => congrArg some h.2.symm⟩
  · rename_i hge
    exact ⟨nofun, fun h => absurd h.1 hge⟩

theorem inUint64_eq_some (h : n < 2 ^ 64) : inUint64 n = some n := if_pos h

theorem timesTens_eq_some {e : Nat} (h : n * 10 ^ e < 2 ^ 64) :
    timesTens e n = some (n * 10 ^ e) := by
  induction e generalizing n with
  | zero =>
    show some n = some (n * 1)
    rw [Nat.mul_one]
  | succ e ih =>
    have hpow : n * 10 ^ (e + 1) = n * 10 * 10 ^ e := by
      rw [Nat.pow_succ, Nat.mul_comm (10 ^ e) 10, Nat.mul_assoc]
    have hstep : n * 10 ≤ n * 10 * 10 ^ e := Nat.le_mul_of_pos_right _ (Nat.pow_pos (by omega))
    rw [hpow] at h ⊢
    show (inUint64 (n * 10) >>= timesTens e) = _
    rw [inUint64_eq_some (by omega)]
    exact ih h

theorem compressAmountChecked_eq (h : n < 2 ^ 57) :
    compressAmountChecked n = some (compressAmount n) := by
  unfold compressAmountChecked compressAmount
  by_cases hzero : n = 0
  · rw [if_pos hzero, if_pos hzero]
  rw [if_neg hzero, if_neg hzero]
  obtain ⟨⟨m, e⟩, hstrip⟩ : ∃ r, stripTens 9 n = r := ⟨_, rfl⟩
  obtain ⟨-, he, hm⟩ := stripTens_spec hstrip
  obtain ⟨hmpos, hmle⟩ := stripTens_bounds hstrip hzero
  rw [hstrip]
  dsimp only
  by_cases hlt : e < 9
  · have hdigit := hm hlt
    have hguard : (guard (1 ≤ m % 10 ∧ m % 10 ≤ 9) : Option Unit) = some () := if_pos (by omega)
    have hfits : 1 + (m / 10 * 9 + m % 10 - 1) * 10 + e < 2 ^ 64 := by omega
    rw [if_pos hlt, if_pos hlt, hguard, Nat.mod_eq_of_lt hfits]
    simp only [Option.bind_eq_bind, Option.bind_some]
    rw [inUint64_eq_some (by omega), Option.bind_some, inUint64_eq_some (by omega), Option.bind_some,
      inUint64_eq_some (by omega), Option.bind_some, inUint64_eq_some (by omega), Option.bind_some,
      inUint64_eq_some hfits]
  · have hfits : 1 + (m - 1) * 10 + 9 < 2 ^ 64 := by omega
    rw [if_neg hlt, if_neg hlt, Nat.mod_eq_of_lt hfits]
    simp only [Option.bind_eq_bind]
    rw [inUint64_eq_some (by omega), Option.bind_some, inUint64_eq_some (by omega), Option.bind_some,
      inUint64_eq_some hfits]

theorem decompressAmountChecked_compressAmount (h : n < 2 ^ 57) :
    decompressAmountChecked (compressAmount n) = some n := by
  unfold compressAmount
  by_cases hzero : n = 0
  · rw [if_pos hzero, hzero]
    rfl
  rw [if_neg hzero]
  obtain ⟨⟨m, e⟩, hstrip⟩ : ∃ r, stripTens 9 n = r := ⟨_, rfl⟩
  obtain ⟨hn, he, hm⟩ := stripTens_spec hstrip
  obtain ⟨hmpos, hmle⟩ := stripTens_bounds hstrip hzero
  have htens : timesTens e m = some n := by
    rw [timesTens_eq_some (by omega), ← hn]
  rw [hstrip]
  dsimp only
  split
  · rename_i hlt
    have hdigit := hm hlt
    rw [Nat.mod_eq_of_lt (by omega), decompressAmountChecked, if_neg (by omega)]
    dsimp only
    rw [show 1 + (m / 10 * 9 + m % 10 - 1) * 10 + e - 1 = (m / 10 * 9 + m % 10 - 1) * 10 + e by omega,
      show ((m / 10 * 9 + m % 10 - 1) * 10 + e) % 10 = e by omega,
      show ((m / 10 * 9 + m % 10 - 1) * 10 + e) / 10 = m / 10 * 9 + m % 10 - 1 by omega, if_pos hlt,
      inUint64_eq_some (by omega)]
    simp only [Option.bind_eq_bind, Option.bind_some]
    rw [inUint64_eq_some (by omega), Option.bind_some,
      show (m / 10 * 9 + m % 10 - 1) / 9 * 10 + ((m / 10 * 9 + m % 10 - 1) % 9 + 1) = m by omega]
    exact htens
  · rename_i hnine
    obtain rfl : e = 9 := by omega
    rw [Nat.mod_eq_of_lt (by omega), decompressAmountChecked, if_neg (by omega)]
    dsimp only
    rw [show 1 + (m - 1) * 10 + 9 - 1 = (m - 1) * 10 + 9 by omega,
      show ((m - 1) * 10 + 9) % 10 = 9 by omega, show ((m - 1) * 10 + 9) / 10 = m - 1 by omega,
      if_neg (by omega), show m - 1 + 1 = m by omega, inUint64_eq_some (by omega)]
    exact htens

theorem timesTens_spec {e r : Nat} (hn : n < 2 ^ 64) (h : timesTens e n = some r) :
    r = n * 10 ^ e ∧ r < 2 ^ 64 := by
  induction e generalizing n with
  | zero =>
    obtain rfl := Option.some.inj h
    exact ⟨(Nat.mul_one n).symm, hn⟩
  | succ e ih =>
    obtain ⟨n', hn', h⟩ := Option.bind_eq_some_iff.mp h
    obtain ⟨hlt, rfl⟩ := inUint64_eq_some_iff.mp hn'
    obtain ⟨rfl, hr⟩ := ih hlt h
    refine ⟨?_, hr⟩
    rw [Nat.pow_succ, Nat.mul_comm (10 ^ e) 10, Nat.mul_assoc]

theorem decompressAmount_of_checked {x : Nat} (h : decompressAmountChecked x = some n) :
    decompressAmount x = n := by
  unfold decompressAmountChecked at h
  unfold decompressAmount
  split at h
  · rename_i hzero
    rw [if_pos hzero]
    exact Option.some.inj h
  rename_i hzero
  rw [if_neg hzero]
  dsimp only at h ⊢
  split at h
  · rename_i hlt
    obtain ⟨n10, hn10, h⟩ := Option.bind_eq_some_iff.mp h
    obtain ⟨m, hm, h⟩ := Option.bind_eq_some_iff.mp h
    obtain ⟨-, rfl⟩ := inUint64_eq_some_iff.mp hn10
    obtain ⟨hmlt, rfl⟩ := inUint64_eq_some_iff.mp hm
    obtain ⟨rfl, hn⟩ := timesTens_spec hmlt h
    rw [if_pos hlt, Nat.mod_eq_of_lt hn]
  · rename_i hge
    obtain ⟨m, hm, h⟩ := Option.bind_eq_some_iff.mp h
    obtain ⟨hmlt, rfl⟩ := inUint64_eq_some_iff.mp hm
    obtain ⟨rfl, hn⟩ := timesTens_spec hmlt h
    rw [if_neg hge, Nat.mod_eq_of_lt hn]

theorem decompressAmount_compressAmount (h : n < 2 ^ 57) :
    decompressAmount (compressAmount n) = n :=
  decompressAmount_of_checked (decompressAmountChecked_compressAmount h)

/-! ## scripts -/

def opDup : UInt8 := 0x76
def opEqualVerify : UInt8 := 0x88

/-- the two calls of the curve library, on serialized public keys.  A valid uncompressed key is the
one that decompressing its first coordinate and the parity of its second gives. -/
structure KeyCodec where
  isFullyValid : Bytes → Bool
  decompress : Bytes → Option Bytes
  decompress_valid : ∀ (x y : Bytes) (last : UInt8), x.length = 32 → y.length = 31 →
    isFullyValid (0x04 :: (x ++ (y ++ [last]))) = true →
    decompress ((0x02 ||| (last &&& 0x01)) :: x) = some (0x04 :: (x ++ (y ++ [last])))
  decompress_length : ∀ b key, decompress b = some key → key.length = 65

/-- `IsToKeyID` -/
def isToKeyID (script : Bytes) : Option Bytes :=
  if script.length = 25 ∧ script.take 3 = [opDup, Script.opHash160, 20] ∧
      script.drop 23 = [opEqualVerify, Script.opCheckSig] then some (slice script 3 23)
  else none

/-- `IsToScriptID` -/
def isToScriptID (script : Bytes) : Option Bytes :=
  if script.length = 23 ∧ script.take 2 = [Script.opHash160, 20] ∧
      script.drop 22 = [Script.opEqual] then some (slice script 2 22)
  else none

/-- `IsToPubKey`, with the serialized key -/
def isToPubKey (keys : KeyCodec) (script : Bytes) : Option Bytes :=
  if script.length = 35 ∧ script.take 1 = [33] ∧ script.drop 34 = [Script.opCheckSig] ∧
      (script[1]? = some 0x02 ∨ script[1]? = some 0x03) then some (slice script 1 34)
  else if script.length = 67 ∧ script.take 1 = [65] ∧ script.drop 66 = [Script.opCheckSig] ∧
      script[1]? = some 0x04 then
    let pubkey := slice script 1 66
    if keys.isFullyValid pubkey then some pubkey else none
  else none

/-- `CompressScript` -/
def compressScript (keys : KeyCodec) (script : Bytes) : Option Bytes :=
  match isToKeyID script with
  | some keyID => some (0x00 :: keyID)
  | none =>
    match isToScriptID script with
    | some scriptID => some (0x01 :: scriptID)
    | none =>
      match isToPubKey keys script with
      | some pubkey =>
        let out := slice pubkey 1 33
        let first := pubkey.getD 0 0
        if first = 0x02 ∨ first = 0x03 then some (first :: out)
        else if first = 0x04 then some ((0x04 ||| (pubkey.getD 64 0 &&& 0x01)) :: out)
        else none
      | none => none

/-- `GetSpecialScriptSize` -/
def getSpecialScriptSize (nSize : Nat) : Nat :=
  if nSize = 0 ∨ nSize = 1 then 20
  else if nSize = 2 ∨ nSize = 3 ∨ nSize = 4 ∨ nSize = 5 then 32
  else 0

/-- `DecompressScript`, which leaves the empty script of the caller when the key is not on the curve -/
def decompressScript (keys : KeyCodec) (nSize : Nat) (input : Bytes) : Bytes :=
  if nSize = 0 then
    [opDup, Script.opHash160, 20] ++ (input ++ [opEqualVerify, Script.opCheckSig])
  else if nSize = 1 then [Script.opHash160, 20] ++ (input ++ [Script.opEqual])
  else if nSize = 2 ∨ nSize = 3 then
    [33, UInt8.ofNat nSize] ++ (input ++ [Script.opCheckSig])
  else if nSize = 4 ∨ nSize = 5 then
    match keys.decompress (UInt8.ofNat (nSize - 2) :: input) with
    | none => []
    | some pubkey => [65] ++ (pubkey ++ [Script.opCheckSig])
  else []

def nSpecialScripts : Nat := 6

def maxScriptSize : Nat := 10000

/-- `ScriptCompression::Ser` -/
def scriptBytes (keys : KeyCodec) (script : Bytes) : Bytes :=
  match compressScript keys script with
  | some compr => compr
  | none => varInt (script.length + nSpecialScripts) ++ script

/-- `CDataStream::ignore` -/
def ignoreBytes (nSize : Nat) (s : Bytes) : Option Bytes :=
  if 2 ^ 31 ≤ nSize ∨ s.length < nSize then none else some (s.drop nSize)

/-- `ScriptCompression::Unser` into an empty script -/
def readScript (keys : KeyCodec) (s : Bytes) : Option (Bytes × Bytes) := do
  let (nSize, s) ← readVarInt (2 ^ 32 - 1) s
  if nSize < nSpecialScripts then
    let (vch, s) ← readBytes (getSpecialScriptSize nSize) s
    some (decompressScript keys nSize vch, s)
  else
    let nSize := nSize - nSpecialScripts
    if nSize > maxScriptSize then
      let s ← ignoreBytes nSize s
      some ([Script.opReturn], s)
    else readBytes nSize s

/-! ## outputs -/

/-- `TxOutCompression::Ser` -/
def txOutBytes (keys : KeyCodec) (out : CTxOut) : Bytes :=
  varInt (compressAmount (out.nValue % 2 ^ 64).toNat) ++ scriptBytes keys out.scriptPubKey

/-- an unsigned 64-bit value stored in a signed one -/
def toInt64 (n : Nat) : Int := if n < 2 ^ 63 then n else n - 2 ^ 64

/-- `TxOutCompression::Unser` -/
def readTxOut (keys : KeyCodec) (s : Bytes) : Option (CTxOut × Bytes) := do
  let (v, s) ← readVarInt (2 ^ 64 - 1) s
  let (scriptPubKey, s) ← readScript keys s
  some (⟨toInt64 (decompressAmount v), scriptPubKey⟩, s)

/-! ## scripts are read back as written -/

variable {script : Bytes}

theorem isToKeyID_eq {keyID : Bytes} (h : isToKeyID script = some keyID) :
    keyID.length = 20 ∧
      script = [opDup, Script.opHash160, 20] ++ (keyID ++ [opEqualVerify, Script.opCheckSig]) := by
  unfold isToKeyID at h
  split at h
  · rename_i hscript
    obtain ⟨hlen, hfront, hback⟩ := hscript
    obtain rfl := Option.some.inj h
    refine ⟨slice_length (by omega), ?_⟩
    rw [← hfront, ← hback, take_slice_drop script (by omega)]
  · cases h

theorem isToScriptID_eq {scriptID : Bytes} (h : isToScriptID script = some scriptID) :
    scriptID.length = 20 ∧ script = [Script.opHash160, 20] ++ (scriptID ++ [Script.opEqual]) := by
  unfold isToScriptID at h
  split at h
  · rename_i hscript
    obtain ⟨hlen, hfront, hback⟩ := hscript
    obtain rfl := Option.some.inj h
    refine ⟨slice_length (by omega), ?_⟩
    rw [← hfront, ← hback, take_slice_drop script (by omega)]
  · cases h

variable {keys : KeyCodec}

theorem isToPubKey_eq {pubkey : Bytes} (h : isToPubKey keys script = some pubkey) :
    (∃ first x, (first = 0x02 ∨ first = 0x03) ∧ x.length = 32 ∧ pubkey = first :: x ∧
      script = [33] ++ (pubkey ++ [Script.opCheckSig])) ∨
    (∃ x y last, x.length = 32 ∧ y.length = 31 ∧ pubkey = 0x04 :: (x ++ (y ++ [last])) ∧
      keys.isFullyValid pubkey = true ∧ script = [65] ++ (pubkey ++ [Script.opCheckSig])) := by
  unfold isToPubKey at h
  split at h
  · rename_i hscript
    obtain ⟨hlen, hfront, hback, hfirst⟩ := hscript
    obtain rfl := Option.some.inj h
    have hsplit : script = [33] ++ (slice script 1 34 ++ [Script.opCheckSig]) := by
      rw [← hfront, ← hback, take_slice_drop script (by omega)]
    refine Or.inl ?_
    rcases hfirst with hfirst | hfirst
    · refine ⟨_, slice script 2 34, Or.inl rfl, slice_length (by omega), ?_, hsplit⟩
      rw [← slice_append_slice script (show 1 ≤ 2 by omega) (show 2 ≤ 34 by omega), slice_one hfirst]
      rfl
    · refine ⟨_, slice script 2 34, Or.inr rfl, slice_length (by omega), ?_, hsplit⟩
      rw [← slice_append_slice script (show 1 ≤ 2 by omega) (show 2 ≤ 34 by omega), slice_one hfirst]
      rfl
  · split at h
    · rename_i hscript
      obtain ⟨hlen, hfront, hback, hfirst⟩ := hscript
      dsimp only at h
      split at h
      · rename_i hvalid
        obtain rfl := Option.some.inj h
        have hsplit : script = [65] ++ (slice script 1 66 ++ [Script.opCheckSig]) := by
          rw [← hfront, ← hback, take_slice_drop script (by omega)]
        have hlast : script[65]? = some script[65] := List.getElem?_eq_getElem (by omega)
        refine Or.inr ⟨slice script 2 34, slice script 34 65, script[65], slice_length (by omega),
          slice_length (by omega), ?_, hvalid, hsplit⟩
        rw [← slice_one hlast, slice_append_slice script (by omega) (by omega),
          slice_append_slice script (by omega) (by omega),
          ← slice_append_slice script (show 1 ≤ 2 by omega) (show 2 ≤ 66 by omega), slice_one hfirst]
        rfl
      · cases h
    · cases h

theorem readVarInt_byte {max : Nat} {b : UInt8} (hb : b.toNat ≤ 0x7f) (rest : Bytes) :
    readVarInt max (b :: rest) = some (b.toNat, rest) := by
  rw [readVarInt, readVarIntFrom, if_neg (by omega), if_neg (by omega)]
  show some (0 * 128 + b.toNat % 128, rest) = _
  rw [show 0 * 128 + b.toNat % 128 = b.toNat by omega]

theorem readScript_special {b : UInt8} {payload : Bytes} (hb : b.toNat < nSpecialScripts)
    (hlen : payload.length = getSpecialScriptSize b.toNat) (rest : Bytes) :
    readScript keys (b :: (payload ++ rest)) =
      some (decompressScript keys b.toNat payload, rest) := by
  have hsmall : b.toNat ≤ 0x7f := Nat.le_trans (Nat.le_of_lt hb) (by decide)
  rw [readScript, readVarInt_byte hsmall]
  show (if b.toNat < nSpecialScripts then _ else _) = _
  rw [if_pos hb, ← hlen, readBytes_append]
  rfl

theorem parity_cases (last : UInt8) : last &&& 0x01 = 0 ∨ last &&& 0x01 = 1 := by
  have hlt : (last &&& 0x01).toNat < 2 := by
    rw [UInt8.toNat_and]
    exact Nat.lt_succ_of_le Nat.and_le_right
  rcases Nat.lt_succ_iff_lt_or_eq.mp hlt with h | h
  · exact Or.inl (UInt8.toNat_inj.mp (show _ = 0 by omega))
  · exact Or.inr (UInt8.toNat_inj.mp h)

theorem readScript_scriptBytes (h : script.length ≤ maxScriptSize) (rest : Bytes) :
    readScript keys (scriptBytes keys script ++ rest) = some (script, rest) := by
  unfold scriptBytes compressScript
  cases hkey : isToKeyID script with
  | some keyID =>
    obtain ⟨hlen, rfl⟩ := isToKeyID_eq hkey
    exact readScript_special (b := 0x00) (by decide) hlen rest
  | none =>
    cases hid : isToScriptID script with
    | some scriptID =>
      obtain ⟨hlen, rfl⟩ := isToScriptID_eq hid
      exact readScript_special (b := 0x01) (by decide) hlen rest
    | none =>
      cases hpub : isToPubKey keys script with
      | some pubkey =>
        rcases isToPubKey_eq hpub with ⟨first, x, hfirst, hx, rfl, rfl⟩ |
          ⟨x, y, last, hx, hy, rfl, hvalid, rfl⟩
        · have hout : slice (first :: x) 1 33 = x := by
            simp [slice, ← hx]
          have hhead : (first :: x).getD 0 0 = first := rfl
          dsimp only
          rw [hout, hhead, if_pos hfirst]
          rcases hfirst with rfl | rfl
          · exact readScript_special (b := 0x02) (by decide) hx rest
          · exact readScript_special (b := 0x03) (by decide) hx rest
        · have hout : slice (0x04 :: (x ++ (y ++ [last]))) 1 33 = x := by
            simp [slice, ← hx]
          have hlast : (0x04 :: (x ++ (y ++ [last]))).getD 64 0 = last := by
            rw [List.getD_cons_succ, List.getD_eq_getElem?_getD, List.getElem?_append_right (by omega),
              List.getElem?_append_right (by omega), hx, hy]
            rfl
          have hhead : (0x04 :: (x ++ (y ++ [last]))).getD 0 0 = 0x04 := rfl
          dsimp only
          rw [hout, hlast, hhead, if_neg (by decide), if_pos rfl]
          have hdec := keys.decompress_valid x y last hx hy hvalid
          rcases parity_cases last with hpar | hpar
          · rw [hpar] at hdec ⊢
            refine (readScript_special (b := 0x04) (by decide) hx rest).trans ?_
            show some (match keys.decompress (0x02 :: x) with | none => _ | some _ => _, rest) = _
            rw [show keys.decompress (0x02 :: x) = _ from hdec]
          · rw [hpar] at hdec ⊢
            refine (readScript_special (b := 0x05) (by decide) hx rest).trans ?_
            show some (match keys.decompress (0x03 :: x) with | none => _ | some _ => _, rest) = _
            rw [show keys.decompress (0x03 :: x) = _ from hdec]
      | none =>
        unfold maxScriptSize at h
        show readScript keys (varInt (script.length + nSpecialScripts) ++ script ++ rest) = _
        unfold nSpecialScripts
        rw [List.append_assoc, readScript, readVarInt_varInt (by omega) (by omega)]
        simp only [Option.bind_eq_bind, Option.bind_some]
        rw [if_neg (by unfold nSpecialScripts; omega),
          show script.length + 6 - nSpecialScripts = script.length from Nat.add_sub_cancel _ 6,
          if_neg (by unfold maxScriptSize; omega), readBytes_append]

/-- an output that a coin can have: an amount of money and a script that is not too long -/
def Storable (out : CTxOut) : Prop :=
  moneyRange out.nValue = true ∧ out.scriptPubKey.length ≤ maxScriptSize

/-- **Outputs are read back as written.** -/
theorem readTxOut_txOutBytes {out : CTxOut} (h : Storable out) (rest : Bytes) :
    readTxOut keys (txOutBytes keys out ++ rest) = some (out, rest) := by
  obtain ⟨hmoney, hscript⟩ := h
  obtain ⟨hnonneg, hmax⟩ := moneyRange_iff.mp hmoney
  unfold maxMoney coin at hmax
  have hvalue : out.nValue % 2 ^ 64 = out.nValue := Int.emod_eq_of_lt hnonneg (by omega)
  have hnat : out.nValue.toNat < 2 ^ 57 := by omega
  have hlt := compressAmount_lt out.nValue.toNat
  rw [txOutBytes, hvalue, List.append_assoc, readTxOut, readVarInt_varInt (by omega) hlt]
  show (readScript keys _ >>= _) = _
  rw [readScript_scriptBytes hscript]
  show some ((⟨toInt64 (decompressAmount (compressAmount out.nValue.toNat)), out.scriptPubKey⟩ :
    CTxOut), rest) = _
  rw [decompressAmount_compressAmount hnat, toInt64, if_pos (by omega), Int.toNat_of_nonneg hnonneg]

theorem readScript_length {s rest : Bytes} (h : readScript keys s = some (script, rest)) :
    script.length ≤ maxScriptSize := by
  unfold readScript at h
  obtain ⟨⟨nSize, s₁⟩, hsize, h⟩ := Option.bind_eq_some_iff.mp h
  dsimp only at h
  split at h
  · obtain ⟨⟨vch, s₂⟩, hvch, h⟩ := Option.bind_eq_some_iff.mp h
    have hlen : vch.length ≤ 32 := by
      unfold readBytes at hvch
      split at hvch
      · cases hvch
      · obtain ⟨rfl, -⟩ := Prod.mk.inj (Option.some.inj hvch)
        rw [List.length_take]
        have : getSpecialScriptSize nSize ≤ 32 := by
          unfold getSpecialScriptSize
          split_ifs <;> omega
        omega
    obtain ⟨rfl, -⟩ := Prod.mk.inj (Option.some.inj h)
    unfold decompressScript maxScriptSize
    split_ifs
    · simp
      omega
    · simp
      omega
    · simp
      omega
    · cases hkey : keys.decompress (UInt8.ofNat (nSize - 2) :: vch) with
      | none => simp
      | some pubkey =>
        have := keys.decompress_length _ _ hkey
        simp
        omega
    · simp
  · split at h
    · obtain ⟨s₂, -, h⟩ := Option.bind_eq_some_iff.mp h
      obtain ⟨rfl, -⟩ := Prod.mk.inj (Option.some.inj h)
      simp [maxScriptSize]
    · rename_i hle
      unfold readBytes at h
      split at h
      · cases h
      · obtain ⟨rfl, -⟩ := Prod.mk.inj (Option.some.inj h)
        rw [List.length_take]
        omega

end Compress

/-! ## coins -/

namespace Coin

open Compress

variable (keys : KeyCodec)

/-- the first number of `Coin::Serialize` -/
def code (coin : Coin) : Nat :=
  (coin.nHeight * 2 + coin.fCoinBase.toNat + (if coin.fPegout then 2 ^ 31 else 0)) % 2 ^ 32

/-- `Coin::Serialize` -/
def serialize (coin : Coin) : Bytes := varInt coin.code ++ txOutBytes keys coin.out

/-- `Coin::Unserialize` -/
def read (s : Bytes) : Option (Coin × Bytes) := do
  let (code, s) ← readVarInt (2 ^ 32 - 1) s
  let (out, s) ← readTxOut keys s
  some (⟨out, decide (code % 2 = 1), code % 2 ^ 31 / 2, decide (code / 2 ^ 31 = 1)⟩, s)

/-- `TxInUndoFormatter::Ser` -/
def undoBytes (coin : Coin) : Bytes :=
  varInt ((coin.nHeight * 2 + coin.fCoinBase.toNat) % 2 ^ 32) ++
    ((if coin.nHeight > 0 then [0] else []) ++ txOutBytes keys coin.out)

/-- the transaction version that old undo records stored -/
def skipVersionDummy (nHeight : Nat) (s : Bytes) : Option Bytes :=
  if nHeight > 0 then (readVarInt (2 ^ 32 - 1) s).map Prod.snd else some s

/-- `TxInUndoFormatter::Unser` into a new coin -/
def readUndo (s : Bytes) : Option (Coin × Bytes) := do
  let (nCode, s) ← readVarInt (2 ^ 32 - 1) s
  let nHeight := nCode / 2
  let s ← skipVersionDummy nHeight s
  let (out, s) ← readTxOut keys s
  some (⟨out, decide (nCode % 2 = 1), nHeight, false⟩, s)

variable {keys}

theorem code_lt (coin : Coin) : coin.code < 2 ^ 32 := Nat.mod_lt _ (by omega)

/-- below half of its range the height does not run into the pegout flag -/
theorem read_serialize {coin : Coin} (hout : Storable coin.out) (hheight : coin.nHeight < 2 ^ 30)
    (rest : Bytes) : read keys (coin.serialize keys ++ rest) = some (coin, rest) := by
  have hlt := coin.code_lt
  rw [serialize, List.append_assoc, read, readVarInt_varInt (by omega) (by omega)]
  show (readTxOut keys _ >>= _) = _
  rw [readTxOut_txOutBytes hout]
  obtain ⟨out, fCoinBase, nHeight, fPegout⟩ := coin
  dsimp only at hheight
  have hcode : code ⟨out, fCoinBase, nHeight, fPegout⟩ =
      nHeight * 2 + fCoinBase.toNat + (if fPegout then 2 ^ 31 else 0) := by
    apply Nat.mod_eq_of_lt
    cases fCoinBase <;> cases fPegout <;> simp <;> omega
  show some (_, rest) = _
  rw [hcode]
  cases fCoinBase <;> cases fPegout <;> simp <;> omega

/-- **The storage codec.**  A coin with an amount of money, a script that is not too long and a height
below `2 ^ 30` is read back as written, so no two such coins are stored alike; amounts are compressed
and decompressed without an overflow. -/
theorem storage_codec (keys : KeyCodec) :
    (∀ (coin : Coin) (rest : Bytes), coin.isSpent = false → coin.nHeight < 2 ^ 30 →
      moneyRange coin.out.nValue = true → coin.out.scriptPubKey.length ≤ 10000 →
      read keys (coin.serialize keys ++ rest) = some (coin, rest)) ∧
    (∀ n : Nat, (n : Int) ≤ maxMoney → compressAmountChecked n = some (compressAmount n) ∧
      decompressAmountChecked (compressAmount n) = some n ∧
      decompressAmount (compressAmount n) = n) ∧
    (∀ coin₁ coin₂ : Coin, (∀ coin ∈ [coin₁, coin₂], coin.isSpent = false ∧ coin.nHeight < 2 ^ 30 ∧
        moneyRange coin.out.nValue = true ∧ coin.out.scriptPubKey.length ≤ 10000) →
      coin₁.serialize keys = coin₂.serialize keys → coin₁ = coin₂) := by
  refine ⟨?_, ?_, ?_⟩
  · intro coin rest _ hheight hmoney hscript
    exact read_serialize ⟨hmoney, hscript⟩ hheight rest
  · intro n hn
    have hlt : n < 2 ^ 57 := by
      unfold maxMoney coin at hn
      omega
    exact ⟨compressAmountChecked_eq hlt, decompressAmountChecked_compressAmount hlt,
      decompressAmount_compressAmount hlt⟩
  · intro coin₁ coin₂ hcoins hsame
    obtain ⟨-, hheight₁, hmoney₁, hscript₁⟩ := hcoins coin₁ (by simp)
    obtain ⟨-, hheight₂, hmoney₂, hscript₂⟩ := hcoins coin₂ (by simp)
    have hread := @read_serialize keys coin₁ ⟨hmoney₁, hscript₁⟩ hheight₁ []
    rw [hsame, read_serialize ⟨hmoney₂, hscript₂⟩ hheight₂] at hread
    exact (Prod.mk.inj (Option.some.inj hread)).1.symm

def noKeys : KeyCodec := ⟨fun _ => false, fun _ => none, nofun, nofun⟩

/-- the largest amount and height, in a pegout output of a coinbase -/
def largestCoin : Coin := ⟨⟨maxMoney, List.replicate 34 0x51⟩, true, 2 ^ 30 - 1, true⟩

theorem storage_codec_largest :
    read noKeys (largestCoin.serialize noKeys) = some (largestCoin, []) ∧
      compressAmountChecked maxMoney.toNat = some (compressAmount maxMoney.toNat) := by
  obtain ⟨hread, hamount, -⟩ := storage_codec noKeys
  have hback := hread largestCoin [] (by decide) (by decide) (by decide) (by decide)
  rw [List.append_nil] at hback
  exact ⟨hback, (hamount maxMoney.toNat (by decide)).1⟩

/-- **The undo form forgets the pegout flag** and nothing else. -/
theorem readUndo_undoBytes {coin : Coin} (hout : Storable coin.out) (hheight : coin.nHeight < 2 ^ 31)
    (rest : Bytes) :
    readUndo keys (coin.undoBytes keys ++ rest) = some ({ coin with fPegout := false }, rest) := by
  obtain ⟨out, fCoinBase, nHeight, fPegout⟩ := coin
  dsimp only at hheight
  have hcb : fCoinBase.toNat < 2 := fCoinBase.toNat_lt
  have hcode : (nHeight * 2 + fCoinBase.toNat) % 2 ^ 32 = nHeight * 2 + fCoinBase.toNat :=
    Nat.mod_eq_of_lt (by omega)
  have hhalf : (nHeight * 2 + fCoinBase.toNat) / 2 = nHeight := by omega
  have hbit : decide ((nHeight * 2 + fCoinBase.toNat) % 2 = 1) = fCoinBase := by
    rw [show (nHeight * 2 + fCoinBase.toNat) % 2 = fCoinBase.toNat by omega]
    cases fCoinBase <;> rfl
  have hdummy : skipVersionDummy nHeight ((if nHeight > 0 then [0] else []) ++
      (txOutBytes keys out ++ rest)) = some (txOutBytes keys out ++ rest) := by
    unfold skipVersionDummy
    by_cases hpos : nHeight > 0
    · rw [if_pos hpos, if_pos hpos, List.singleton_append, readVarInt_byte (by decide)]
      rfl
    · rw [if_neg hpos, if_neg hpos, List.nil_append]
  rw [undoBytes]
  dsimp only
  rw [hcode, List.append_assoc, List.append_assoc, readUndo,
    readVarInt_varInt (by omega) (by omega)]
  show (skipVersionDummy ((nHeight * 2 + fCoinBase.toNat) / 2) _ >>= _) = _
  rw [hhalf, hdummy]
  show (readTxOut keys _ >>= _) = _
  rw [readTxOut_txOutBytes hout]
  show some ((⟨out, decide ((nHeight * 2 + fCoinBase.toNat) % 2 = 1),
    nHeight, false⟩ : Coin), rest) = _
  rw [hbit]

end Coin
