import StakeGuard.Attestation
import StakeGuard.Bls.Scheme
import StakeGuard.Configuration.Load
import StakeGuard.Host
import StakeGuard.Verifier
import StakeGuard.Proofs.Outcome
import StakeGuard.Proofs.StakeMap
import StakeGuard.Proofs.Consistent
import StakeGuard.Proofs.StakeRefinement
import StakeGuard.Proofs.Canonical
import StakeGuard.Proofs.SignerBits
import StakeGuard.Proofs.Accounting
import StakeGuard.Proofs.Verdict
import StakeGuard.Proofs.Throttling
import StakeGuard.Proofs.Chronicle
import StakeGuard.Proofs.NotedLists
import StakeGuard.Proofs.Soundness
import StakeGuard.Proofs.CanonicalForm
import StakeGuard.Proofs.HistoryRefinement
import StakeGuard.Proofs.Permanence
import StakeGuard.Proofs.Agreement
import StakeGuard.Proofs.KeyOrigin
import StakeGuard.Proofs.ErrorMap
import StakeGuard.Proofs.Entitlement
import StakeGuard.Proofs.Shares
import StakeGuard.Proofs.QuorumIntersection
import StakeGuard.Proofs.SignerEncoding
import StakeGuard.Proofs.SignedStake
import StakeGuard.Proofs.Assembly
import StakeGuard.Proofs.Following
import StakeGuard.Proofs.Interleaving
import StakeGuard.Proofs.Bookkeeping
import StakeGuard.Proofs.Transcript
import StakeGuard.Proofs.Isolation
import StakeGuard.Proofs.ReadBack
import StakeGuard.Proofs.JsonText
import StakeGuard.Proofs.JsonSize
import StakeGuard.Proofs.Faithful
import StakeGuard.Proofs.KeyValidity
import StakeGuard.Proofs.RoundTrip
import StakeGuard.Proofs.SafeSets
import StakeGuard.Proofs.Overrides
import StakeGuard.Proofs.Layering
import StakeGuard.Proofs.CheckedBudget
import StakeGuard.Proofs.Headroom
import StakeGuard.Proofs.Reversal
import StakeGuard.Proofs.Gauges
import StakeGuard.Proofs.ByteEvents
import StakeGuard.Proofs.Standing
import StakeGuard.Proofs.CalledOff
import StakeGuard.Proofs.Permits
import StakeGuard.Proofs.RefusalCounts
import StakeGuard.Proofs.MessageForm
import StakeGuard.Proofs.QuorumThreshold
import StakeGuard.Proofs.AssemblyFaults
import StakeGuard.Proofs.SignerLookup
import StakeGuard.Proofs.Rebuilding
import StakeGuard.Proofs.Scanning
import StakeGuard.Proofs.ListedWeight
import StakeGuard.Proofs.VerdictCounts
import StakeGuard.Proofs.CleanCut
import StakeGuard.Proofs.JsonGrammar
import StakeGuard.Proofs.PartialFiles
import StakeGuard.Proofs.HexText
import StakeGuard.Proofs.IdentifierText
