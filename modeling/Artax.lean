import Artax.Aal.Interleaved
import Artax.Chain.BestChain
import Artax.Chain.SequenceLocks
import Artax.Chain.SkipList
import Artax.Consensus.Emission
import Artax.Dgp.Reading
import Artax.Mining.ContractAttempt
import Artax.Mining.Orderings
import Artax.Mining.PackageScores
import Artax.Mining.TxHashes
import Artax.Net.BlocksInFlight
import Artax.Net.HeaderSpam
import Artax.Net.OrphanBlocks
import Artax.Primitives.VarInt
import Artax.Store.CoinRecords
import Artax.Store.CoinsStack
import Artax.Store.Restart
import Artax.Threads.CheckQueue
import Artax.Threads.Scheduler
import Artax.Threads.SchedulerClient
import Artax.Validation.ChainDependence
import Artax.Validation.Extraction
import Artax.Validation.NoInflation
import Artax.Validation.ReplayBlocks
import Artax.Validation.ScriptExecutionCache
import Artax.Validation.Versions
import Artax.Wallet.ScriptCache
