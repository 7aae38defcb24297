import ZkCoin.Shielded.ProofBinding
import ZkCoin.Primitives.Transaction
import ZkCoin.Shielded.Bundle
import ZkCoin.Primitives.Block
import ZkCoin.Shielded.ChainState
import ZkCoin.Library.Checked
import ZkCoin.Shielded.MarkerRules
import ZkCoin.Shielded.Ledger
import ZkCoin.Shielded.Envelope
import ZkCoin.Shielded.ChainInvariant
import ZkCoin.Shielded.ActionAccounting
import ZkCoin.Library.Mmr
import ZkCoin.Library.BitTable
import ZkCoin.Mw.CoinsView
import ZkCoin.Library.Journal
import ZkCoin.Mw.ViewRange
import ZkCoin.Mw.CoinState
import ZkCoin.Mw.ApplyBlock
import ZkCoin.Mw.UndoBlock
import ZkCoin.Library.MmrRoot
import ZkCoin.Mw.Validate
import ZkCoin.Consensus.Validation
import ZkCoin.Mweb.Node
import ZkCoin.Mw.Amounts
import ZkCoin.Mw.ApplyFaults
import ZkCoin.Mw.HeaderBinding
import ZkCoin.Mweb.HogExAmounts
import ZkCoin.Mweb.HogExVariants
import ZkCoin.Consensus.CheckBlock
import ZkCoin.Consensus.WitnessVariants
import ZkCoin.Consensus.AcceptBlock
import ZkCoin.Consensus.PayloadVariants
import ZkCoin.Coins.Cache
import ZkCoin.Coins.Compress
import ZkCoin.Coins.Snapshot
import ZkCoin.Coins.SnapshotImport
import ZkCoin.Shielded.Mempool
import ZkCoin.Ledger.UtxoView
import ZkCoin.Ledger.TxInputs
import ZkCoin.Ledger.ConnectBlock
import ZkCoin.Ledger.Conservation
import ZkCoin.Primitives.Readers
import ZkCoin.Mw.UndoCodec
import ZkCoin.Ledger.BlockUndo
import ZkCoin.Ledger.DisconnectBlock
import ZkCoin.Ledger.ConnectDisconnect
import ZkCoin.Ledger.PegAccounting
import ZkCoin.Consensus.AuxPowSlots
import ZkCoin.Shielded.LayerCodec
import ZkCoin.Shielded.EnvelopeScan
import ZkCoin.Shielded.CppVerifier
import ZkCoin.Shielded.FallbackAgreement
import ZkCoin.Library.Usize
import ZkCoin.Shielded.Halo2Run
import ZkCoin.Shielded.MarkerCodec
import ZkCoin.Shielded.RpcState
import ZkCoin.Shielded.OrchardRoots
import ZkCoin.Mempool.Policy
import ZkCoin.Mining.MwebMiner
import ZkCoin.Mining.BlockAssembler
import ZkCoin.Mempool.PreChecks
import ZkCoin.Mining.HogExMarkers
import ZkCoin.Mining.MergedMining
import ZkCoin.Coins.SnapshotAgreement
import ZkCoin.Ledger.ValueEquation
import ZkCoin.Primitives.Canonical
import ZkCoin.Mw.KernelCodec
import ZkCoin.Library.Layers
import ZkCoin.Mw.RangeTower
import ZkCoin.Mw.LeafSetTower
import ZkCoin.Library.MmrNode
import ZkCoin.Mw.Pruning
import ZkCoin.Library.MmrPeaks
import ZkCoin.Library.MmrProof
import ZkCoin.Mw.Segment
import ZkCoin.Library.FirstsQueue
import ZkCoin.Mining.CandidateStore
import ZkCoin.Library.Net
import ZkCoin.Mempool.Removal
import ZkCoin.Mempool.ShieldedConsistency
import ZkCoin.Launch.DnsSeed
import ZkCoin.Mining.SelfMined
import ZkCoin.Chain.BlockIndex
