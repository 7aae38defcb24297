import ZkCoin.Primitives.Transaction

/-!
# Headers and merge-mining payloads

The 80 bytes of a header, with the chain id and the merge-mining flag inside its version, and the
payload that binds a child block to a header of the parent chain.  The pointer to the parent coinbase
is never null in a payload that was read from a stream or built by the node.
-/

open Bytes Serialize

structure CPureBlockHeader where
  nVersion : Int
  hashPrevBlock : Uint256
  hashMerkleRoot : Uint256
  nTime : UInt32
  nBits : UInt32
  nNonce : UInt32
  deriving DecidableEq

structure CAuxPow where
  coinbaseTx : CTransaction
  hashBlock : Uint256
  vMerkleBranch : List Uint256
  vChainMerkleBranch : List Uint256
  nIndex : Int
  nChainIndex : Int
  parentBlock : CPureBlockHeader
  deriving DecidableEq

namespace CPureBlockHeader

def versionAuxpow : Int := 2 ^ 8
def versionChainStart : Int := 2 ^ 16

def serializePure (h : CPureBlockHeader) : Bytes :=
  intBytes 4 h.nVersion ++ h.hashPrevBlock.data ++ h.hashMerkleRoot.data ++ u32Bytes h.nTime ++
    u32Bytes h.nBits ++ u32Bytes h.nNonce

def getHash (hash256 : Bytes → Uint256) (h : CPureBlockHeader) : Uint256 := hash256 h.serializePure

/-- `nVersion & VERSION_AUXPOW` -/
def isAuxpow (h : CPureBlockHeader) : Bool := decide (h.nVersion / versionAuxpow % 2 = 1)

/-- `nVersion >> 16` -/
def getChainId (h : CPureBlockHeader) : Int := h.nVersion / versionChainStart

/-- `GetBaseVersion`, a remainder with the sign of the version -/
def getBaseVersion (h : CPureBlockHeader) : Int := h.nVersion.tmod versionAuxpow

end CPureBlockHeader

/-- the payload; `serializeTx` says whether the witness of the parent coinbase is part of it -/
def CAuxPow.serialize (serializeTx : CTransaction → Bytes) (a : CAuxPow) : Bytes :=
  serializeTx a.coinbaseTx ++ a.hashBlock.data ++ vector Uint256.data a.vMerkleBranch ++
    intBytes 4 a.nIndex ++ vector Uint256.data a.vChainMerkleBranch ++ intBytes 4 a.nChainIndex ++
    a.parentBlock.serializePure
