import DerivationCache.Metrics.Tally
import DerivationCache.Session
import DerivationCache.Proofs.View
import DerivationCache.Proofs.Awaiting
import DerivationCache.Proofs.Closure
import DerivationCache.Proofs.CommittedPass
import DerivationCache.Proofs.WriteOnce
import DerivationCache.Proofs.CyclicResult
import DerivationCache.Proofs.CommitDecision
import DerivationCache.Proofs.Path
import DerivationCache.Proofs.WithinPass
import DerivationCache.Proofs.PassBounds
import DerivationCache.Proofs.BuilderShape
import DerivationCache.Proofs.Search
import DerivationCache.Proofs.ReachableSubgraph
import DerivationCache.Proofs.CycleDetection
import DerivationCache.Proofs.Strategy
import DerivationCache.Proofs.Transparency
import DerivationCache.Proofs.Account
import DerivationCache.Proofs.Posting
import DerivationCache.Proofs.InFlight
import DerivationCache.Proofs.FailureMemo
import DerivationCache.Proofs.Ensemble
import DerivationCache.Proofs.Settled
import DerivationCache.Proofs.Replay
import DerivationCache.Proofs.LocalBuilder
import DerivationCache.Proofs.SingleFlight
import DerivationCache.Proofs.CommitOrder
import DerivationCache.Proofs.FailedRequest
import DerivationCache.Proofs.ForeignKey
import DerivationCache.Proofs.NestedCalls
import DerivationCache.Proofs.Reentry
import DerivationCache.Proofs.FailedBuild
import DerivationCache.Proofs.Retries
import DerivationCache.Proofs.ConflictCause
import DerivationCache.Proofs.Footprint
import DerivationCache.Proofs.Image
import DerivationCache.Proofs.Twin
import DerivationCache.Proofs.AddressedRequest
import DerivationCache.Proofs.Exchange
import DerivationCache.Proofs.Isolation
import DerivationCache.Proofs.Namespaces
import DerivationCache.Proofs.FirstValue
import DerivationCache.Proofs.Recommit
import DerivationCache.Proofs.TwoDoors
import DerivationCache.Proofs.Bookkeeping
import DerivationCache.Proofs.SideBySide
import DerivationCache.Proofs.HandDriven
import DerivationCache.Proofs.Decoding
import DerivationCache.Proofs.Counting
import DerivationCache.Proofs.Tallies
import DerivationCache.Proofs.Balance
import DerivationCache.Proofs.RunningPasses
import DerivationCache.Proofs.Furnished
import DerivationCache.Proofs.PassAccounts
