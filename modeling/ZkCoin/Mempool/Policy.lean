import Mathlib.Data.Finset.Dedup
import ZkCoin.Consensus.CheckBlock
import ZkCoin.Mw.BlockBuilder

/-!
# Relay policy

Which transactions a node takes into its mempool when it insists on standard ones.

* `solver`       — the class of an output script.
* `isStandardTx` — version, weight, inputs, outputs and peg-outs of a transaction.
-/

open Bytes Script Serialize

namespace Policy

/-! ## script classes -/

/-- `TxoutType`; a multisig script with the number of signatures and of keys -/
inductive TxoutType
  | nonstandard
  | pubkey
  | pubkeyhash
  | scripthash
  | multisig (required keys : Nat)
  | nullData
  | witnessV0Keyhash
  | witnessV0Scripthash
  | witnessV1Taproot
  | witnessMwebPegin
  | witnessMwebHogaddr
  | witnessUnknown
  deriving DecidableEq

/-- the loop of `CScript::IsPushOnly`; every opcode takes at least one byte -/
def isPushOnlyFrom : Nat → Bytes → Bool
  | 0, _ => true
  | fuel + 1, script =>
    if script = [] then true
    else
      match getOp script with
      | none => false
      | some (opcode, _, rest) => if opcode > op16 then false else isPushOnlyFrom fuel rest

/-- `CScript::IsPushOnly` -/
def isPushOnly (script : Bytes) : Bool := isPushOnlyFrom script.length script

/-- `CPubKey::GetLen` -/
def pubKeyLen (header : UInt8) : Nat :=
  if header = 2 ∨ header = 3 then 33
  else if header = 4 ∨ header = 6 ∨ header = 7 then 65
  else 0

/-- `CPubKey::ValidSize` -/
def validSize (key : Bytes) : Bool :=
  match key with
  | [] => false
  | header :: _ => pubKeyLen header == key.length

/-- `MatchPayToPubkey` for keys of one size -/
def matchPayToPubkeyOf (size : Nat) (script : Bytes) : Bool :=
  script.length == size + 2 && script[0]? == some (UInt8.ofNat size) &&
    script.getLast? == some opCheckSig && validSize (slice script 1 (size + 1))

/-- `MatchPayToPubkey` -/
def matchPayToPubkey (script : Bytes) : Bool :=
  matchPayToPubkeyOf 65 script || matchPayToPubkeyOf 33 script

def opDup : UInt8 := 0x76
def opEqualVerify : UInt8 := 0x88

/-- `MatchPayToPubkeyHash` -/
def matchPayToPubkeyHash (script : Bytes) : Bool :=
  script.length == 25 && script[0]? == some opDup && script[1]? == some opHash160 &&
    script[2]? == some 20 && script[23]? == some opEqualVerify && script[24]? == some opCheckSig

/-- `IsSmallInteger` -/
def isSmallInteger (opcode : UInt8) : Bool := decide (op1 ≤ opcode) && decide (opcode ≤ op16)

/-- the loop of `MatchMultisig`: the number of keys, the opcode that ended them and what follows -/
def multisigKeys : Nat → Bytes → Nat → Option (Nat × UInt8 × Bytes)
  | 0, _, _ => none
  | fuel + 1, script, keys =>
    match getOp script with
    | none => none
    | some (opcode, data, rest) =>
      if validSize data then multisigKeys fuel rest (keys + 1) else some (keys, opcode, rest)

/-- `MatchMultisig` -/
def matchMultisig (script : Bytes) : Option (Nat × Nat) := do
  guard (script.getLast? = some opCheckMultiSig)
  let (opcode, _, rest) ← getOp script
  guard (isSmallInteger opcode)
  let required := decodeOpN opcode
  let (keys, opcode, rest) ← multisigKeys rest.length rest 0
  guard (isSmallInteger opcode)
  guard (keys = decodeOpN opcode ∧ required ≤ keys)
  guard (rest.length = 1)
  some (required, keys)

def witnessType (version : Nat) (program : Bytes) : TxoutType :=
  if version = 0 ∧ program.length = 20 then .witnessV0Keyhash
  else if version = 0 ∧ program.length = 32 then .witnessV0Scripthash
  else if version = 1 ∧ program.length = 32 then .witnessV1Taproot
  else if version = mwebPeginWitnessVersion ∧ program.length = 32 then .witnessMwebPegin
  else if version = mwebHogAddrWitnessVersion ∧ program.length = 32 then .witnessMwebHogaddr
  else if version ≠ 0 then .witnessUnknown
  else .nonstandard

/-- `Solver` -/
def solver (script : Bytes) : TxoutType :=
  if isPayToScriptHash script then .scripthash
  else
    match witnessProgram script with
    | some (version, program) => witnessType version program
    | none =>
      if script.head? == some opReturn && isPushOnly (script.drop 1) then .nullData
      else if matchPayToPubkey script then .pubkey
      else if matchPayToPubkeyHash script then .pubkeyhash
      else
        match matchMultisig script with
        | some (required, keys) => .multisig required keys
        | none => .nonstandard

/-! ## outputs -/

structure Settings where
  fAcceptDatacarrier : Bool := true
  nMaxDatacarrierBytes : Nat := 83
  fIsBareMultisigStd : Bool := true
  /-- litoshis per kilobyte -/
  dustRelayFee : Int := 30000

/-- `CFeeRate::GetFee` -/
def getFee (nSatoshisPerK : Int) (nSize : Nat) : Int :=
  let nFee := (nSatoshisPerK * nSize).tdiv 1000
  if nFee = 0 ∧ nSize ≠ 0 then
    if nSatoshisPerK > 0 then 1 else if nSatoshisPerK < 0 then -1 else nFee
  else nFee

/-- `GetDustThreshold` -/
def getDustThreshold (txout : CTxOut) (dustRelayFee : Int) : Int :=
  if isUnspendable txout.scriptPubKey then 0
  else
    let nSize := txout.serialize.length
    if (witnessProgram txout.scriptPubKey).isSome then
      getFee dustRelayFee (nSize + (32 + 4 + 1 + 107 / 4 + 4))
    else getFee dustRelayFee (nSize + (32 + 4 + 1 + 107 + 4))

/-- `IsDust` -/
def isDust (txout : CTxOut) (dustRelayFee : Int) : Bool :=
  decide (txout.nValue < getDustThreshold txout dustRelayFee)

section
variable (settings : Settings)

/-- `IsStandard` of a script of the given class -/
def isStandardType (script : Bytes) : TxoutType → Bool
  | .nonstandard => false
  | .multisig m n => decide (1 ≤ n ∧ n ≤ 3) && decide (1 ≤ m ∧ m ≤ n)
  | .nullData => settings.fAcceptDatacarrier && decide (script.length ≤ settings.nMaxDatacarrierBytes)
  | _ => true

/-- one output of the loop of `IsStandardTx`; `nDataOut` counts the outputs that only carry data -/
def checkStandardOutput (nDataOut : Nat) (txout : CTxOut) : Except String Nat :=
  let whichType := solver txout.scriptPubKey
  if !isStandardType settings txout.scriptPubKey whichType then .error "scriptpubkey"
  else
    match whichType with
    | .nullData => .ok (nDataOut + 1)
    | .multisig _ _ =>
      if !settings.fIsBareMultisigStd then .error "bare-multisig"
      else if isDust txout settings.dustRelayFee then .error "dust"
      else .ok nDataOut
    | _ => if isDust txout settings.dustRelayFee then .error "dust" else .ok nDataOut

/-! ## transactions -/

def maxStandardTxWeight : Nat := 400000
def maxStandardVersion : Int := 2
def maxStandardScriptSigSize : Nat := 1650

def pegoutOutput (pegout : Mw.PegOutCoin) : CTxOut := ⟨pegout.amount, pegout.scriptPubKey⟩

/-- `GetTransactionWeight`: what the transaction adds to a block, its peg-ins and peg-outs included -/
def getTransactionWeight (tx : CTransaction) : Nat :=
  let pegoutWeight := ((Consensus.mwebPegOuts tx).map fun pegout =>
    (pegoutOutput pegout).serialize.length * Consensus.witnessScaleFactor).sum
  if tx.isMwebOnly then pegoutWeight
  else
    let pegins := match tx.mwebTx with
      | none => 0
      | some mwebTx => (mwebTx.body.kernels.filter Mw.Kernel.hasPegIn).length
    tx.serializeNoWitness.length * (Consensus.witnessScaleFactor - 1) + tx.serialize.length +
      pegoutWeight + 164 * pegins

def checkStandardInput (txin : CTxIn) : Except String Unit :=
  if txin.scriptSig.length > maxStandardScriptSigSize then .error "scriptsig-size"
  else if !isPushOnly txin.scriptSig then .error "scriptsig-not-pushonly"
  else .ok ()

/-- `MWEB::Policy::IsStandardTx` -/
def isStandardMwebTx (blake3 : Bytes → Uint256) (tx : CTransaction) : Except String Unit :=
  let peginKernels := tx.vout.filterMap fun txout => mwebPegin txout.scriptPubKey
  let kernelIds := match tx.mwebTx with
    | none => []
    | some mwebTx => mwebTx.body.getKernelIds blake3
  if !tx.isMwebOnly && decide (peginKernels.toFinset ≠ kernelIds.toFinset) then
    .error "kernel-mismatch"
  else if !(tx.mwebTx.all Mw.Transaction.isStandard) then .error "non-standard-mweb-tx"
  else .ok ()

/-- `IsStandardTx`, with the reason when it is not -/
def isStandardTx (blake3 : Bytes → Uint256) (tx : CTransaction) : Except String Unit := do
  if tx.nVersion > maxStandardVersion ∨ tx.nVersion < 1 then .error "version"
  else if getTransactionWeight tx > maxStandardTxWeight then .error "tx-size"
  else
    tx.vin.forM checkStandardInput
    let nDataOut ← (tx.vout ++ (Consensus.mwebPegOuts tx).map pegoutOutput).foldlM
      (checkStandardOutput settings) 0
    if nDataOut > 1 then .error "multi-op-return" else isStandardMwebTx blake3 tx

end

end Policy
