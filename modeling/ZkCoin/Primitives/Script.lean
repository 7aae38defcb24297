import ZkCoin.Primitives.Serialize

/-!
# Scripts

Opcode parsing and the script classes that consensus code asks about.

* `getOp`, `pushData`  — the parser's step, and the push it reads back.
* `PushHeader`         — the four forms of a push.
* `getOp_data_iff`     — an opcode with data is a push in one of these forms.
-/

open Bytes

namespace Script

/-! ## opcodes -/

def op0 : UInt8 := 0x00
def opPushData1 : UInt8 := 0x4c
def opPushData2 : UInt8 := 0x4d
def opPushData4 : UInt8 := 0x4e
def op1 : UInt8 := 0x51
def op16 : UInt8 := 0x60
def opReturn : UInt8 := 0x6a
def opEqual : UInt8 := 0x87
def opHash160 : UInt8 := 0xa9
def opCheckSig : UInt8 := 0xac
def opCheckSigVerify : UInt8 := 0xad
def opCheckMultiSig : UInt8 := 0xae
def opCheckMultiSigVerify : UInt8 := 0xaf

/-- the bytes after the opcode that hold a push's size, with the size -/
def pushSize (opcode : UInt8) (rest : Bytes) : Option (Nat × Bytes) :=
  if opcode < opPushData1 then some (opcode.toNat, rest)
  else
    let width := if opcode = opPushData1 then 1 else if opcode = opPushData2 then 2 else 4
    if rest.length < width then none else some (leNat (rest.take width), rest.drop width)

/-- `GetScriptOp`: the opcode, the data it pushes and the script after it -/
def getOp : Bytes → Option (UInt8 × Bytes × Bytes)
  | [] => none
  | opcode :: rest =>
    if opcode ≤ opPushData4 then
      match pushSize opcode rest with
      | none => none
      | some (size, body) =>
        if body.length < size then none else some (opcode, body.take size, body.drop size)
    else some (opcode, [], rest)

/-- `CScript::operator<<` of a byte vector -/
def pushData (b : Bytes) : Bytes :=
  (if b.length < opPushData1.toNat then [UInt8.ofNat b.length]
    else if b.length ≤ 0xff then opPushData1 :: leBytes 1 b.length
    else if b.length ≤ 0xffff then opPushData2 :: leBytes 2 b.length
    else opPushData4 :: leBytes 4 b.length) ++ b

/-! ## pushes -/

/-- the bytes before the data of a push of `n` bytes, in every form `getOp` takes -/
inductive PushHeader (n : Nat) : Bytes → Prop
  | direct (h : n < 0x4c) : PushHeader n [UInt8.ofNat n]
  | pushData1 (h : n < 256 ^ 1) : PushHeader n (opPushData1 :: leBytes 1 n)
  | pushData2 (h : n < 256 ^ 2) : PushHeader n (opPushData2 :: leBytes 2 n)
  | pushData4 (h : n < 256 ^ 4) : PushHeader n (opPushData4 :: leBytes 4 n)

theorem size_eq_some_iff {width n : Nat} {rest body : Bytes} :
    (if rest.length < width then none else some (leNat (rest.take width), rest.drop width)) =
        some (n, body) ↔ n < 256 ^ width ∧ rest = leBytes width n ++ body := by
  constructor
  · intro h
    split_ifs at h with hroom
    obtain ⟨rfl, rfl⟩ := Prod.mk.inj (Option.some.inj h)
    have hlen : (rest.take width).length = width := by
      rw [List.length_take]
      omega
    have hread := leBytes_leNat (rest.take width)
    have hlt := leNat_lt (rest.take width)
    rw [hlen] at hread hlt
    rw [hread, List.take_append_drop]
    exact ⟨hlt, rfl⟩
  · rintro ⟨hlt, rfl⟩
    rw [if_neg (by simp), List.take_left' (leBytes_length _ _), List.drop_left' (leBytes_length _ _),
      leNat_leBytes_of_lt hlt]

theorem pushSize_eq_some_iff {opcode : UInt8} {rest body : Bytes} {n : Nat}
    (hop : opcode ≤ opPushData4) :
    pushSize opcode rest = some (n, body) ↔
      ∃ tail, PushHeader n (opcode :: tail) ∧ rest = tail ++ body := by
  constructor
  · intro h
    rw [pushSize] at h
    by_cases hdirect : opcode < opPushData1
    · rw [if_pos hdirect] at h
      obtain ⟨rfl, rfl⟩ := Prod.mk.inj (Option.some.inj h)
      refine ⟨[], ?_, rfl⟩
      have hheader := PushHeader.direct (UInt8.lt_iff_toNat_lt.mp hdirect)
      rwa [UInt8.ofNat_toNat] at hheader
    · rw [if_neg hdirect] at h
      dsimp only at h
      rw [size_eq_some_iff] at h
      refine ⟨_, ?_, h.2⟩
      split_ifs at h ⊢ with hone htwo
      · rw [hone]
        exact .pushData1 h.1
      · rw [htwo]
        exact .pushData2 h.1
      · have hfour : opcode = opPushData4 := by
          simp only [UInt8.lt_iff_toNat_lt, UInt8.le_iff_toNat_le, ← UInt8.toNat_inj, opPushData1,
            opPushData2, opPushData4, UInt8.toNat_ofNat] at *
          omega
        rw [hfour]
        exact .pushData4 h.1
  · intro ⟨tail, hheader, hrest⟩
    rw [pushSize]
    generalize hop : opcode :: tail = header at hheader
    cases hheader with
    | direct h =>
      obtain ⟨rfl, rfl⟩ := List.cons.inj hop
      have hsize : (UInt8.ofNat n).toNat = n := UInt8.toNat_ofNat_of_lt' (Nat.lt_trans h (by decide))
      rw [if_pos (by rw [UInt8.lt_iff_toNat_lt, hsize]; exact h), hsize, hrest]
      rfl
    | pushData1 h =>
      obtain ⟨rfl, rfl⟩ := List.cons.inj hop
      exact size_eq_some_iff.mpr ⟨h, hrest⟩
    | pushData2 h =>
      obtain ⟨rfl, rfl⟩ := List.cons.inj hop
      exact size_eq_some_iff.mpr ⟨h, hrest⟩
    | pushData4 h =>
      obtain ⟨rfl, rfl⟩ := List.cons.inj hop
      exact size_eq_some_iff.mpr ⟨h, hrest⟩

theorem PushHeader.exists_cons {n : Nat} {header : Bytes} (h : PushHeader n header) :
    ∃ opcode tail, header = opcode :: tail ∧ opcode ≤ opPushData4 := by
  cases h with
  | direct h =>
    refine ⟨_, _, rfl, ?_⟩
    rw [UInt8.le_iff_toNat_le, UInt8.toNat_ofNat_of_lt' (Nat.lt_trans h (by decide))]
    exact Nat.le_trans (Nat.le_of_lt h) (by decide)
  | pushData1 h => exact ⟨_, _, rfl, by decide⟩
  | pushData2 h => exact ⟨_, _, rfl, by decide⟩
  | pushData4 h => exact ⟨_, _, rfl, by decide⟩

theorem getOp_data_iff {script data rest : Bytes} (hne : data ≠ []) :
    (∃ opcode, getOp script = some (opcode, data, rest)) ↔
      ∃ header, PushHeader data.length header ∧ script = header ++ (data ++ rest) := by
  constructor
  · intro ⟨opcode, h⟩
    cases script with
    | nil => cases h
    | cons op tail =>
      rw [getOp] at h
      split_ifs at h with hop
      · cases hsize : pushSize op tail with
        | none =>
          rw [hsize] at h
          cases h
        | some sized =>
          obtain ⟨size, body⟩ := sized
          rw [hsize] at h
          dsimp only at h
          split_ifs at h with hroom
          obtain ⟨-, rfl, rfl⟩ := by simpa using h
          obtain ⟨sizeBytes, hheader, rfl⟩ := (pushSize_eq_some_iff hop).mp hsize
          have hlen : (body.take size).length = size := by
            rw [List.length_take]
            omega
          refine ⟨op :: sizeBytes, ?_, ?_⟩
          · rw [hlen]
            exact hheader
          · rw [List.take_append_drop]
            rfl
      · obtain ⟨-, rfl, -⟩ := by simpa using h
        exact absurd rfl hne
  · rintro ⟨header, hheader, rfl⟩
    obtain ⟨op, tail, rfl, hop⟩ := hheader.exists_cons
    refine ⟨op, ?_⟩
    have hsize : pushSize op (tail ++ (data ++ rest)) = some (data.length, data ++ rest) :=
      (pushSize_eq_some_iff hop).mpr ⟨tail, hheader, rfl⟩
    rw [List.cons_append, getOp, if_pos hop, hsize]
    dsimp only
    rw [if_neg (by simp), List.take_left' rfl, List.drop_left' rfl]

theorem opcode_of_getOp {op opcode : UInt8} {tail data rest : Bytes}
    (h : getOp (op :: tail) = some (opcode, data, rest)) : opcode = op := by
  rw [getOp] at h
  split_ifs at h
  · split at h
    · cases h
    · split_ifs at h
      cases h
      rfl
  · cases h
    rfl

theorem getOp_opReturn {script data rest : Bytes} :
    getOp script = some (opReturn, data, rest) ↔ data = [] ∧ script = opReturn :: rest := by
  constructor
  · intro h
    cases script with
    | nil => cases h
    | cons op tail =>
      obtain rfl := opcode_of_getOp h
      have hget : getOp (opReturn :: tail) = some (opReturn, [], tail) := rfl
      rw [hget] at h
      cases h
      exact ⟨rfl, rfl⟩
  · rintro ⟨rfl, rfl⟩
    rfl

theorem exists_pushHeader_pushData {data : Bytes} (h : data.length < 256 ^ 4) :
    ∃ header, PushHeader data.length header ∧ pushData data = header ++ data := by
  rw [pushData]
  split_ifs with hdirect hone htwo
  · exact ⟨_, .direct hdirect, rfl⟩
  · exact ⟨_, .pushData1 (by omega), rfl⟩
  · exact ⟨_, .pushData2 (by omega), rfl⟩
  · exact ⟨_, .pushData4 h, rfl⟩

/-! ## numbers and script classes -/

def magnitudeBytes : Nat → Nat → Bytes
  | 0, _ => []
  | fuel + 1, n => if n = 0 then [] else UInt8.ofNat n :: magnitudeBytes fuel (n / 256)

/-- `CScriptNum::serialize`: the sign is the highest bit of the last byte -/
def scriptNum (value : Int) : Bytes :=
  let result := magnitudeBytes 8 value.natAbs
  match result.getLast? with
  | none => []
  | some last =>
    if last &&& 0x80 ≠ 0 then result ++ [if value < 0 then 0x80 else 0]
    else if value < 0 then result.dropLast ++ [last ||| 0x80]
    else result

/-- `CScript::push_int64` -/
def pushInt64 (n : Int) : Bytes :=
  if n = -1 ∨ (1 ≤ n ∧ n ≤ 16) then [UInt8.ofNat (n + 0x50).toNat]
  else if n = 0 then [op0]
  else pushData (scriptNum n)

def maxPubkeysPerMultisig : Nat := 20

/-- the loop of `CScript::GetSigOpCount`; every opcode takes at least one byte -/
def sigOpCountFrom (fAccurate : Bool) : Nat → UInt8 → Bytes → Nat
  | 0, _, _ => 0
  | fuel + 1, lastOpcode, script =>
    match getOp script with
    | none => 0
    | some (opcode, _, rest) =>
      (if opcode = opCheckSig ∨ opcode = opCheckSigVerify then 1
        else if opcode = opCheckMultiSig ∨ opcode = opCheckMultiSigVerify then
          if fAccurate ∧ op1 ≤ lastOpcode ∧ lastOpcode ≤ op16 then lastOpcode.toNat - (op1.toNat - 1)
          else maxPubkeysPerMultisig
        else 0) + sigOpCountFrom fAccurate fuel opcode rest

/-- `CScript::GetSigOpCount` -/
def getSigOpCount (fAccurate : Bool) (script : Bytes) : Nat :=
  sigOpCountFrom fAccurate script.length 0xff script

/-- `CScript::IsUnspendable` -/
def isUnspendable (script : Bytes) : Bool :=
  script.head? == some opReturn || decide (10000 < script.length)

/-- `CScript::IsPayToScriptHash` -/
def isPayToScriptHash (script : Bytes) : Bool :=
  script.length == 23 && script[0]? == some opHash160 && script[1]? == some 0x14 &&
    script[22]? == some opEqual

/-- `DecodeOP_N` -/
def decodeOpN (opcode : UInt8) : Nat :=
  if opcode = op0 then 0 else opcode.toNat - (op1.toNat - 1)

/-- `CScript::IsWitnessProgram`: version and program -/
def witnessProgram (script : Bytes) : Option (Nat × Bytes) :=
  match script with
  | v :: size :: program =>
    if script.length < 4 ∨ 42 < script.length then none
    else if v ≠ op0 ∧ (v < op1 ∨ op16 < v) then none
    else if size.toNat + 2 = script.length then some (decodeOpN v, program)
    else none
  | _ => none

def mwebHogAddrWitnessVersion : Nat := 8
def mwebPeginWitnessVersion : Nat := 9

def mwebProgram (version : Nat) (script : Bytes) : Option Uint256 :=
  match witnessProgram script with
  | none => none
  | some (v, program) =>
    if v = version then
      if h : program.length = 32 then some ⟨program, h⟩ else none
    else none

/-- `CScript::IsMWEBPegin`, with the kernel id it names -/
def mwebPegin (script : Bytes) : Option Uint256 := mwebProgram mwebPeginWitnessVersion script

/-- `CScript::IsMWEBHogAddr`, with the header hash it names -/
def mwebHogAddr (script : Bytes) : Option Uint256 := mwebProgram mwebHogAddrWitnessVersion script

def isMwebPegin (script : Bytes) : Bool := (mwebPegin script).isSome

end Script
