import ZkCoin.Primitives.AuxPow

/-!
# Blocks and consensus parameters

A block is a header, its transactions and a possibly null extension block.  The header hash covers
the 80 bytes of the pure header, so neither the merge-mining payload nor any witness, HogEx marker
or extension-block data enters it.
-/

open Bytes Serialize

structure CBlockHeader extends CPureBlockHeader where
  auxpow : Option CAuxPow
  deriving DecidableEq

structure CBlock where
  header : CBlockHeader
  vtx : List CTransaction
  mwebBlock : Option Mw.Block
  deriving DecidableEq

namespace CBlockHeader

/-- a header that announces a payload and has none cannot be serialized -/
def payloadMissing (h : CBlockHeader) : Bool := h.isAuxpow && h.auxpow.isNone

/-- the payload as it is serialized: only a header that announces it has one -/
def payloadBytes (serializeTx : CTransaction → Bytes) (h : CBlockHeader) : Bytes :=
  if h.isAuxpow then (h.auxpow.map (CAuxPow.serialize serializeTx)).getD [] else []

/-- a header with its payload; `serializeTx` says whether witnesses are part of a transaction -/
def serialize (serializeTx : CTransaction → Bytes) (h : CBlockHeader) : Bytes :=
  h.serializePure ++ h.payloadBytes serializeTx

end CBlockHeader

/-- `CBlock::GetHogEx` -/
def CBlock.getHogEx (b : CBlock) : Option CTransaction :=
  if b.vtx.length ≥ 2 then
    match b.vtx.getLast? with
    | some tx => if tx.isHogEx then some tx else none
    | none => none
  else none

def CBlock.stripWitness (b : CBlock) : CBlock := { b with vtx := b.vtx.map CTransaction.stripWitness }

namespace Consensus

structure LitecoinSnapshotParams where
  nHeight : Int
  hashBlock : Uint256
  hashUTXORoot : Uint256

def LitecoinSnapshotParams.isEnabled (p : LitecoinSnapshotParams) : Bool := decide (p.nHeight ≥ 0)

structure ShieldedPoolParams where
  nStartHeight : Int
  fAllowScaffoldProofs : Bool

def ShieldedPoolParams.isEnabled (p : ShieldedPoolParams) (nHeight : Int) : Bool :=
  decide (p.nStartHeight ≥ 0) && decide (nHeight ≥ p.nStartHeight)

structure AuxPowParams where
  nStartHeight : Int
  nChainId : Nat
  fStrictChainId : Bool

def AuxPowParams.isEnabled (p : AuxPowParams) (nHeight : Int) : Bool :=
  decide (p.nStartHeight ≥ 0) && decide (nHeight ≥ p.nStartHeight)

/-- the consensus parameters that the modelled functions read -/
structure Params where
  hashGenesisBlock : Uint256
  nSubsidyHalvingInterval : Nat
  bip34Height : Int
  bip34Hash : Uint256
  bip65Height : Int
  bip66Height : Int
  csvHeight : Int
  segwitHeight : Int
  mwebInputMetadataGrandfatherBlockhash : Uint256
  powLimit : Nat
  ltcSnapshot : LitecoinSnapshotParams
  auxpow : AuxPowParams
  shieldedPool : ShieldedPoolParams
  frozenMwebOutputIds : List Uint256
  signetBlocks : Bool

end Consensus
