/-
  EarnProof.Database.Rows — the rows of `prisma/schema.prisma` that issuance,
  verification, renewal, revocation and anchoring read and write, and the store
  they live in. A table is the list of its rows; a column no modelled function
  reads or writes is left out, and one that a row is created without has its default.
-/
import EarnProof.Lib.Json
import EarnProof.Lib.Calendar

namespace EarnProof.Database

open Lib Lib.Calendar

inductive ResourceStatus where
  | active | pending | suspended | revoked | deleted | expired
  deriving DecidableEq

inductive PaymentClassification where
  | income | reimbursement | personalTransfer | unknown | excluded
  deriving DecidableEq

inductive ProofStatus where
  | active | expired | revoked | invalid
  deriving DecidableEq

inductive ProofType where
  | minimumIncome | recurringIncome | paymentReceipt | incomeRange
  | employerPayment | employmentContinuity | invoiceSettlement | aggregateEarnings
  deriving DecidableEq

inductive AttestationType where
  | payment | employment | invoice
  deriving DecidableEq

inductive RevocationActorType where
  | owner | admin
  deriving DecidableEq

inductive RevocationReasonCode where
  | ownerRequested | dataCorrection | fraudSuspected | complianceHold | duplicateProof | other
  deriving DecidableEq

inductive AnchoringOperation where
  | register | revoke
  deriving DecidableEq

inductive AnchoringStatus where
  | pending | processing | confirmed | failed | quarantined
  deriving DecidableEq

structure User where
  id : String
  walletAddress : String
  walletHash : String
  deriving DecidableEq

structure Payment where
  id : String
  userId : String
  operationId : String
  /-- Legacy plaintext; `none` once migrated. -/
  sourceAddress : Option String
  sourceAddressEncrypted : Option String := none
  ledgerSequence : Option Nat := none
  finalityHoldAt : Option Date := none
  assetCode : String
  assetIssuer : Option String
  amountEncrypted : Option String
  occurredAt : Date
  classification : PaymentClassification
  isEligible : Bool
  deriving DecidableEq

structure Organization where
  id : String
  createdById : String
  status : ResourceStatus
  createdAt : Date
  deriving DecidableEq

structure Issuer where
  id : String
  organizationId : String
  stellarAddress : String
  status : ResourceStatus
  deriving DecidableEq

structure TrustedSource where
  id : String
  userId : String
  sourceAddress : String
  issuerId : Option String
  status : ResourceStatus
  deriving DecidableEq

structure Attestation where
  id : String
  issuerId : String
  subjectWalletHash : String
  paymentReferenceHash : Option String
  type : AttestationType
  status : ResourceStatus
  expiresAt : Option Date
  revokedAt : Option Date
  deriving DecidableEq

structure SupportedAsset where
  id : String
  assetKey : String
  code : String
  issuer : Option String
  network : String
  status : ResourceStatus
  deriving DecidableEq

structure QuotaUsage where
  organizationId : String
  quota : String
  windowStart : Int
  count : Nat
  deriving DecidableEq

structure ProofClaim where
  operator : String
  thresholdEncrypted : Option String
  frequency : Option String
  result : Bool
  disclosurePolicy : Json
  deriving DecidableEq

structure Proof where
  id : String
  userId : String
  proofType : ProofType
  schemaVersion : String
  status : ProofStatus
  network : String
  assetCode : String
  assetIssuer : Option String
  periodStart : Option Date
  periodEnd : Option Date
  expiresAt : Date
  commitment : Option String
  credentialHash : String
  contractTransactionHash : Option String := none
  assetPolicyId : Option String := none
  assetPolicySnapshot : Option Json := none
  revokedAt : Option Date := none
  revokedByType : Option RevocationActorType := none
  revokedById : Option String := none
  revocationReasonCode : Option RevocationReasonCode := none
  revocationReasonPrivate : Option String := none
  revocationEvidenceHash : Option String := none
  supersedesId : Option String := none
  supersededAt : Option Date := none
  renewalRequestHash : Option String := none
  revocationPropagationConfirmedAt : Option Date := none
  createdAt : Date
  claim : Option ProofClaim
  deriving DecidableEq

structure InvoiceSettlement where
  proofId : String
  paymentId : String
  issuerId : String
  invoiceReferenceHash : String
  deriving DecidableEq

structure AnchoringIntent where
  proofId : String
  operation : AnchoringOperation
  status : AnchoringStatus
  attemptCount : Nat
  deriving DecidableEq

structure Db where
  users : List User := []
  payments : List Payment := []
  organizations : List Organization := []
  issuers : List Issuer := []
  trustedSources : List TrustedSource := []
  attestations : List Attestation := []
  supportedAssets : List SupportedAsset := []
  quotaUsage : List QuotaUsage := []
  proofs : List Proof := []
  invoiceSettlements : List InvoiceSettlement := []
  anchoringIntents : List AnchoringIntent := []
  /-- Whether the audit row made of column defaults, `("SYSTEM", 0)`, exists. A second
      insert through a transaction client collides with it. -/
  auditDefaultRow : Bool := false
  deriving DecidableEq

namespace Db

variable (db : Db) (id : String)

def user? : Option User := db.users.find? (·.id = id)

def proof? : Option Proof := db.proofs.find? (·.id = id)

/-- The row whose `supersedesId` is this proof, as the `supersededBy` relation loads it. -/
def supersededBy : Option Proof := db.proofs.find? (·.supersedesId = some id)

def intent? (proofId : String) (operation : AnchoringOperation) : Option AnchoringIntent :=
  db.anchoringIntents.find? fun i => i.proofId = proofId ∧ i.operation = operation

def issuer? : Option Issuer := db.issuers.find? (·.id = id)

def organization? : Option Organization := db.organizations.find? (·.id = id)

end Db

end EarnProof.Database
