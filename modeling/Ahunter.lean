import Ahunter.Proofs.LotKeys
import Ahunter.Proofs.Sides
import Ahunter.Proofs.SettlementOrder
import Ahunter.Proofs.CostTotals
import Ahunter.Proofs.LedgerBatches
import Ahunter.Proofs.MarketLeases
import Ahunter.Proofs.Prices
import Ahunter.Proofs.Stranding
import Ahunter.Proofs.PassedOver
import Ahunter.Proofs.Convergence
import Ahunter.Proofs.Retention
import Ahunter.Proofs.Disclosure
import Ahunter.Proofs.Blindness
import Ahunter.Proofs.BuyReserve
import Ahunter.Proofs.WorkflowReleases
import Ahunter.Proofs.ConflictDetection
import Ahunter.Proofs.ExactBudgeting
import Ahunter.Proofs.UniverseSealing
import Ahunter.Proofs.TaxPartition
import Ahunter.Proofs.LedgerIsolation
import Ahunter.Proofs.SuspensionEvidence
import Ahunter.Proofs.RecordPages
import Ahunter.Proofs.EventIdentity
import Ahunter.Proofs.FeedCompleteness
import Ahunter.Proofs.MediaDrain
import Ahunter.Proofs.Fairness
import Ahunter.Proofs.MarketSafety
import Ahunter.Proofs.Ranking
import Ahunter.Proofs.Authority
import Ahunter.Proofs.ChannelChunks
import Ahunter.Proofs.Runner
import Ahunter.Proofs.Normalisation
import Ahunter.Proofs.Capacity
import Ahunter.Proofs.Fencing
