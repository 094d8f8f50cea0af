import EarnProof.Anchoring.Abandonment
import EarnProof.Anchoring.Attempts
import EarnProof.Anchoring.Coverage
import EarnProof.ApiKeys.CacheSafety
import EarnProof.ApiKeys.RequestSigning
import EarnProof.Approvals.Requests
import EarnProof.Audit.Retention
import EarnProof.Audit.Writers
import EarnProof.Auth.WalletRotation
import EarnProof.Common.CircuitBreaker
import EarnProof.Common.ClockSkew
import EarnProof.Credentials.Verification
import EarnProof.Disputes.Lifecycle
import EarnProof.Encryption.RetirementSafety
import EarnProof.Events.Completion
import EarnProof.Health.Incidents
import EarnProof.Idempotency.Replies
import EarnProof.Jobs.Leases
import EarnProof.Lifecycle.Renewal
import EarnProof.Lifecycle.Revocation
import EarnProof.Organizations.Members
import EarnProof.Payments.AccountFeeds
import EarnProof.Payments.AddressBackfill
import EarnProof.Payments.BackfillCoverage
import EarnProof.Payments.ClassificationHistory
import EarnProof.Payments.Identity
import EarnProof.Proofs.BoundedRefresh
import EarnProof.Proofs.FinalityHold
import EarnProof.Proofs.PurposeDeclarations
import EarnProof.Proofs.RecurringIntervals
import EarnProof.Proofs.RevocationCheckpoints
import EarnProof.Proofs.ShareTokens
import EarnProof.Webhooks.CircuitProbes
import EarnProof.Webhooks.Survival
