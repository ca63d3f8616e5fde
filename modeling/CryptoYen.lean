import CryptoYen.Library.Limbs
import CryptoYen.Primitives.BaseUint
import CryptoYen.Library.Machine
import CryptoYen.Primitives.Script
import CryptoYen.Consensus.Work
import CryptoYen.Consensus.Params
import CryptoYen.Consensus.Validation
import CryptoYen.Coins.Record
import CryptoYen.Coins.View
import CryptoYen.Consensus.CheckTransaction
import CryptoYen.Library.WriteBack
import CryptoYen.Coins.Cache
import CryptoYen.Coins.CacheRefinement
import CryptoYen.Consensus.CheckInputs
import CryptoYen.Library.Assoc
import CryptoYen.Mempool.Pool
import CryptoYen.Mempool.Consistency
import CryptoYen.Mempool.Accept
import CryptoYen.Mempool.Runs
import CryptoYen.Consensus.Supply
import CryptoYen.Staking.Payments
import CryptoYen.Staking.CoinStake
import CryptoYen.Staking.Conservation
import CryptoYen.Consensus.CheckBlock
import CryptoYen.Consensus.Connect
import CryptoYen.Consensus.ContextualCheck
import CryptoYen.Consensus.Chainstate
import CryptoYen.Consensus.Mint
import CryptoYen.Coins.Restore
import CryptoYen.Coins.BlockUndo
import CryptoYen.Consensus.Disconnect
import CryptoYen.Library.UndoLog
import CryptoYen.Consensus.UndoData
import CryptoYen.Consensus.Reversal
import CryptoYen.Consensus.Uniqueness
import CryptoYen.Consensus.AcceptBlock
import CryptoYen.Consensus.ProofPhases
import CryptoYen.Index.Entry
import CryptoYen.Library.Ancestry
import CryptoYen.Index.Activate
import CryptoYen.Index.Invariant
import CryptoYen.Index.Receive
import CryptoYen.Index.Header
import CryptoYen.Index.Restatus
import CryptoYen.Index.Reorganize
import CryptoYen.Index.MostWork
import CryptoYen.Index.Advance
import CryptoYen.Index.Rounds
import CryptoYen.Index.Runs
import CryptoYen.SwiftTX.Locks
import CryptoYen.SwiftTX.Requests
import CryptoYen.SwiftTX.Votes
import CryptoYen.SwiftTX.Expiry
import CryptoYen.SwiftTX.Runs
import CryptoYen.SwiftTX.Backing
import CryptoYen.SwiftTX.LockedInputs
import CryptoYen.SwiftTX.Suppression
import CryptoYen.SwiftTX.Framing
import CryptoYen.Masternodes.Payees
import CryptoYen.Masternodes.Winners
import CryptoYen.Masternodes.Tally
import CryptoYen.Masternodes.Agreement
import CryptoYen.Staking.Modifier
import CryptoYen.Staking.ModifierAgreement
import CryptoYen.Staking.KernelModifier
import CryptoYen.Library.Search
import CryptoYen.Staking.StakeRules
import CryptoYen.Staking.StakeSearch
import CryptoYen.Consensus.BlockStore
import CryptoYen.Consensus.ForkSpend
import CryptoYen.SwiftTX.OwnIds
import CryptoYen.SwiftTX.Voters
import CryptoYen.SwiftTX.Traces
import CryptoYen.Consensus.PayeeRead
import CryptoYen.Masternodes.BlockHashes
import CryptoYen.Masternodes.WinnerMessages
import CryptoYen.Library.Election
import CryptoYen.Masternodes.Elections
import CryptoYen.Masternodes.OrderFree
import CryptoYen.Library.Codec
import CryptoYen.Masternodes.Storage
import CryptoYen.Masternodes.Restart
import CryptoYen.Index.Flags
import CryptoYen.Index.Invalidated
import CryptoYen.Index.Reconsidered
import CryptoYen.Index.Withdraw
import CryptoYen.Index.Readmit
import CryptoYen.Index.Settled
import CryptoYen.Index.FlagRuns
import CryptoYen.Index.Disk
import CryptoYen.Library.SkipList
import CryptoYen.Masternodes.VoteHistories
import CryptoYen.Masternodes.WinnerSync
import CryptoYen.Library.InverseIndex
import CryptoYen.Mempool.Orphans
import CryptoYen.Net.BlocksInFlight
import CryptoYen.Wallet.KeyPool
import CryptoYen.Wallet.KeyHolders
import CryptoYen.Library.PartialMap
import CryptoYen.Net.AddrMan
import CryptoYen.Net.AddrTables
import CryptoYen.Net.AddrSteps
import CryptoYen.Net.AddrEntries
import CryptoYen.Net.AddrMoves
import CryptoYen.Net.AddrCheck
import CryptoYen.Net.AddrRuns
import CryptoYen.Net.AddrDisk
import CryptoYen.Net.AddrRoundTrip
import CryptoYen.Net.AddrRestore
import CryptoYen.Index.BlockProof
import CryptoYen.Index.BlockTrust
import CryptoYen.Consensus.Compact
import CryptoYen.Staking.StakeTarget
import CryptoYen.Consensus.Retarget
import CryptoYen.Library.Draws
import CryptoYen.Staking.ModifierSelection
import CryptoYen.Coins.Compressor
import CryptoYen.Coins.Serialize
import CryptoYen.Coins.SerializeSize
import CryptoYen.Library.Bitmap
import CryptoYen.Masternodes.SeenBroadcasts
import CryptoYen.Masternodes.RandomChoice
import CryptoYen.Masternodes.RankLookup
import CryptoYen.Coins.UndoRecord
import CryptoYen.Index.Ancestor
import CryptoYen.Index.ChainVector
import CryptoYen.Index.Locator
import CryptoYen.Index.BestCandidate
import CryptoYen.Index.CommonAncestor
import CryptoYen.Net.DownloadPlan
import CryptoYen.Net.DownloadSound
import CryptoYen.Library.Merkle
import CryptoYen.Primitives.MerkleTree
import CryptoYen.Library.PartialMerkle
import CryptoYen.Net.PartialMerkleTree
import CryptoYen.Library.Metered
import CryptoYen.Script.Building
import CryptoYen.Script.Encoding
import CryptoYen.Script.Instructions
import CryptoYen.Script.Execution
import CryptoYen.Script.Interpreter
import CryptoYen.Script.SigOps
import CryptoYen.Script.SignatureHash
import CryptoYen.Script.Standard
import CryptoYen.Library.SubsetSum
import CryptoYen.Library.Threads
import CryptoYen.Wallet.CoinSelection
import CryptoYen.Wallet.AvailableCoins
import CryptoYen.Wallet.CreateTransaction
import CryptoYen.Wallet.MultiSend
import CryptoYen.Library.Memo
import CryptoYen.Wallet.CachedCredits
import CryptoYen.Wallet.Balances
import CryptoYen.Library.Components
import CryptoYen.Library.Heap
import CryptoYen.Wallet.AddressGroupings
import CryptoYen.Index.ChainRuns
import CryptoYen.Script.ScriptNumber
import CryptoYen.Library.Bytes
import CryptoYen.Coins.VarInt
import CryptoYen.Library.BitArray
import CryptoYen.Library.Cells
import CryptoYen.Library.Radix
import CryptoYen.Primitives.Base58
import CryptoYen.Library.Truncation
import CryptoYen.Consensus.CompactRounding
import CryptoYen.Primitives.Words
import CryptoYen.Primitives.WordsCorrect
import CryptoYen.Primitives.WordsArithmetic
import CryptoYen.Net.BloomFilter
import CryptoYen.Net.LimitedMap
import CryptoYen.Consensus.CheckQueue
import CryptoYen.Library.Framing
import CryptoYen.Net.Messages
import CryptoYen.Net.Connection
import CryptoYen.Mining.CreateNewBlock
import CryptoYen.Mining.Gathering
import CryptoYen.Mining.Filling
import CryptoYen.Mining.Connecting
