import ZkCoin.Primitives.Script
import ZkCoin.Mw.Tx

/-!
# Transactions

The node's transaction with its witness, its optional extension-block part and the HogEx marker,
and the serializations that the transaction id and the witness id are hashes of.  Neither id covers
the extension-block part or the HogEx marker.
-/

open Bytes Serialize

structure COutPoint where
  hash : Uint256
  n : UInt32
  deriving DecidableEq

structure CTxIn where
  prevout : COutPoint
  scriptSig : Bytes
  nSequence : UInt32
  scriptWitness : List Bytes
  deriving DecidableEq

structure CTxOut where
  nValue : Int
  scriptPubKey : Bytes
  deriving DecidableEq

structure CTransaction where
  vin : List CTxIn
  vout : List CTxOut
  nVersion : Int
  nLockTime : UInt32
  mwebTx : Option Mw.Transaction
  hogEx : Bool
  deriving DecidableEq

namespace COutPoint

/-- `COutPoint::IsNull` -/
def isNull (o : COutPoint) : Bool := o.hash.isNull && o.n == 0xffffffff

def serialize (o : COutPoint) : Bytes := o.hash.data ++ u32Bytes o.n

end COutPoint

def CTxIn.serialize (i : CTxIn) : Bytes :=
  i.prevout.serialize ++ byteVector i.scriptSig ++ u32Bytes i.nSequence

def CTxOut.serialize (o : CTxOut) : Bytes := intBytes 8 o.nValue ++ byteVector o.scriptPubKey

def CTxIn.stripWitness (i : CTxIn) : CTxIn := { i with scriptWitness := [] }

namespace CTransaction

/-- the transaction that the transaction id is about -/
def stripWitness (tx : CTransaction) : CTransaction :=
  { tx with vin := tx.vin.map CTxIn.stripWitness }

def isCoinBase (tx : CTransaction) : Bool :=
  match tx.vin with
  | [txin] => txin.prevout.isNull
  | _ => false

def hasWitness (tx : CTransaction) : Bool := tx.vin.any fun txin => !txin.scriptWitness.isEmpty

def hasMwebTx (tx : CTransaction) : Bool := tx.mwebTx.isSome

def isHogEx (tx : CTransaction) : Bool := tx.hogEx

def isMwebOnly (tx : CTransaction) : Bool := tx.hasMwebTx && tx.vin.isEmpty && tx.vout.isEmpty

/-- `SerializeTransaction` without witness and without the extension-block part -/
def serializeNoWitness (tx : CTransaction) : Bytes :=
  intBytes 4 tx.nVersion ++ vector CTxIn.serialize tx.vin ++ vector CTxOut.serialize tx.vout ++
    u32Bytes tx.nLockTime

def serializeWitness (tx : CTransaction) : Bytes :=
  tx.vin.flatMap fun txin => vector byteVector txin.scriptWitness

/-- `SerializeTransaction` with witness and without the extension-block part -/
def serialize (tx : CTransaction) : Bytes :=
  if tx.hasWitness then
    intBytes 4 tx.nVersion ++ [0x00, 0x01] ++ vector CTxIn.serialize tx.vin ++
      vector CTxOut.serialize tx.vout ++ tx.serializeWitness ++ u32Bytes tx.nLockTime
  else tx.serializeNoWitness

section
variable (hash256 blake3 : Bytes → Uint256)

/-- `CTransaction::ComputeHash`: a transaction without canonical data is named by its first kernel -/
def getHash (tx : CTransaction) : Uint256 :=
  match tx.mwebTx with
  | some mwebTx =>
    if tx.vin.isEmpty && tx.vout.isEmpty then
      match mwebTx.body.kernels with
      | kernel :: _ => kernel.getHash blake3
      | [] => hash256 tx.serializeNoWitness
    else hash256 tx.serializeNoWitness
  | none => hash256 tx.serializeNoWitness

/-- `CTransaction::ComputeWitnessHash` -/
def getWitnessHash (tx : CTransaction) : Uint256 :=
  if tx.hasWitness then hash256 tx.serialize else tx.getHash hash256 blake3

end

end CTransaction
