/-
  EarnProof.Proofs.CreateEmployer — `createEmployerPaymentProof` and
  `createEmploymentContinuityProof` of `src/proofs/proofs.service.ts`, with their
  policies (`employer-payment.policy.ts`, `employment-continuity.policy.ts`).

  Both resolve an employer behind one of the caller's trusted sources and read it
  again, with the payments and attestations they count, under row locks in the
  issuing transaction.
-/
import EarnProof.Proofs.CreateAggregate

namespace EarnProof.Proofs

open Lib Lib.Calendar Lib.Result Database Common.Crypto

def EMPLOYER_PAYMENT_POLICY_VERSION : String := "earnproof.employer-payment.policy.v1"
def MAX_EMPLOYER_PAYMENT_PERIOD_DAYS : Nat := 366
def MAX_EMPLOYER_PAYMENT_CANDIDATES : Nat := 200

/-! ## The employer behind a trusted source -/

inductive EmployerSourceRefusal where
  | sourceInactive | sourceUnlinked | issuerInactive | organizationInactive | ambiguousIssuer
  deriving DecidableEq

structure EmployerSource where
  issuerId : String
  sourceAddress : String
  isIssuerAccount : Bool
  deriving DecidableEq

def employerSourceError : EmployerSourceRefusal → Failure
  | .ambiguousIssuer =>
    .unprocessable .employerSourceAmbiguous "The trusted source does not identify a single employer"
  | _ => .unprocessable .employerSourceUntrusted "The trusted source is not linked to an active, verified employer"

/-- `resolveEmployerSource`, on the source joined with its issuer and organization.
    `conflictingIssuerId` is the issuer registered under the source's address. -/
def resolveEmployerSource (source : TrustedSource) (issuer : Option Issuer) (organization : Option Organization)
    (conflictingIssuerId : Option String) : Except Failure EmployerSource := do
  require (source.status = .active) (employerSourceError .sourceInactive)
  let issuer ← orThrow issuer (employerSourceError .sourceUnlinked)
  require (issuer.status = .active) (employerSourceError .issuerInactive)
  require (organization.any fun o => o.status = .active) (employerSourceError .organizationInactive)
  require (conflictingIssuerId.all fun c => c = issuer.id) (employerSourceError .ambiguousIssuer)
  pure ⟨issuer.id, source.sourceAddress, issuer.stellarAddress = source.sourceAddress⟩

variable (E : Env) (db : Db)

def linkedIssuer (source : TrustedSource) : Option Issuer := source.issuerId.bind db.issuer?

def linkedOrganization (source : TrustedSource) : Option Organization :=
  (linkedIssuer db source).bind fun i => db.organization? i.organizationId

def resolveTrustedEmployer (v : View) (userId trustedSourceId : String) : Except Failure EmployerSource := do
  let source ← orThrow ((v.db 0).trustedSources.find? fun t => t.id = trustedSourceId ∧ t.userId = userId)
    (.notFound .notFound "Trusted source not found")
  let addressOwner := (v.db 1).issuers.find? fun i => i.stellarAddress = source.sourceAddress
  resolveEmployerSource source (linkedIssuer (v.db 0) source) (linkedOrganization (v.db 0) source)
    (addressOwner.map Issuer.id)

/-- The joined row read again under `FOR SHARE`. -/
def assertEmployerStillTrusted (sourceId userId : String) (r : EmployerSource) : Except Failure Unit :=
  require ((db.trustedSources.find? fun t => t.id = sourceId ∧ t.userId = userId).any fun t =>
      t.status = .active ∧ (linkedIssuer db t).any (fun i => i.status = .active) ∧
        (linkedOrganization db t).any (fun o => o.status = .active) ∧ t.issuerId = some r.issuerId ∧
        t.sourceAddress = r.sourceAddress)
    (employerSourceError .sourceInactive)

/-! ## Attestations -/

def attestationUsable (a : Attestation) (now : Date) : Bool :=
  a.status = .active ∧ a.revokedAt = none ∧ a.expiresAt.all fun e => now < e

/-- Active `PAYMENT` attestations by the payment reference they cover; the lowest id wins. -/
def findPaymentAttestations (issuerId subjectWalletHash : String) (payments : List Payment) (now : Date) :
    List (String × String) :=
  let references := payments.map fun p => paymentReferenceHash p.operationId
  let found := db.attestations.filter fun a =>
    a.issuerId = issuerId ∧ a.subjectWalletHash = subjectWalletHash ∧ a.type = .payment ∧
      attestationUsable a now ∧ a.paymentReferenceHash.any fun r => r ∈ references
  (found.insertionSort fun a b => Json.keyLe a.id b.id).foldl
    (fun m a =>
      match a.paymentReferenceHash with
      | some r => if (m.lookup r).isSome then m else m ++ [(r, a.id)]
      | none => m) []

def attestationFor (m : List (String × String)) (p : Payment) : Option String :=
  m.lookup (paymentReferenceHash p.operationId)

/-! ## Employer payment -/

structure CreateEmployerPaymentProofDto where
  trustedSourceId : String
  assetCode : String
  assetIssuer : Option String
  periodStart : String
  periodEnd : String
  expiresInDays : Option ExpiryDays
  deriving DecidableEq

inductive EmployerPaymentPeriodViolation where
  | invalidDate | emptyOrInverted | tooLong | endsInFuture
  deriving DecidableEq

def EMPLOYER_PERIOD_MESSAGES : EmployerPaymentPeriodViolation → String
  | .invalidDate => "periodStart and periodEnd must be valid dates"
  | .emptyOrInverted => "periodStart must be before periodEnd"
  | .tooLong => "The period must not exceed 366 days"
  | .endsInFuture => "periodEnd must not be in the future"

/-- The period, or the first rule it breaks. -/
def validateEmployerPaymentPeriod (periodStart periodEnd : Option Date) (now : Date) :
    Except EmployerPaymentPeriodViolation (Date × Date) := do
  let start ← orThrow periodStart .invalidDate
  let stop ← orThrow periodEnd .invalidDate
  require (start < stop) .emptyOrInverted
  require (stop.ms - start.ms ≤ MAX_EMPLOYER_PAYMENT_PERIOD_DAYS * dayMs) .tooLong
  require (stop ≤ now) .endsInFuture
  pure (start, stop)

def laterFirst (a b : Payment) : Prop :=
  b.occurredAt < a.occurredAt ∨ (a.occurredAt = b.occurredAt ∧ ¬ JsText.textLt b.operationId a.operationId)
  deriving Decidable

/-- The income payments of one source, asset and half-open period. -/
def employerCandidate (userId sourceAddress assetCode : String) (assetIssuer : Option String) (start stop : Date)
    (p : Payment) : Bool :=
  p.userId = userId ∧ p.sourceAddress = some sourceAddress ∧ p.assetCode = assetCode ∧ p.assetIssuer = assetIssuer ∧
    p.classification = .income ∧ p.isEligible ∧ start ≤ p.occurredAt ∧ p.occurredAt < stop

/-- The candidates the method loads, the newest two hundred. -/
def employerPool (userId sourceAddress : String) (input : CreateEmployerPaymentProofDto) (start stop : Date) :
    List Payment :=
  ((db.payments.filter (employerCandidate userId sourceAddress input.assetCode input.assetIssuer start
    stop)).insertionSort laterFirst).take MAX_EMPLOYER_PAYMENT_CANDIDATES

/-- The attestations that count: none are looked up for the issuer's own account. -/
def attestedFor (r : EmployerSource) (walletHash : String) (payments : List Payment) (now : Date) :
    List (String × String) :=
  if r.isIssuerAccount then [] else findPaymentAttestations db r.issuerId walletHash payments now

/-- `selectEmployerPayment`: the first corroborated candidate. -/
def selectEmployerPayment (candidates : List Payment) (isIssuerAccount : Bool) (attested : List (String × String)) :
    Option (Payment × String) :=
  (candidates.insertionSort laterFirst).findSome? fun p =>
    if isIssuerAccount then some (p, "issuer_account")
    else if (attestationFor attested p).isSome then some (p, "issuer_attestation")
    else none

def employerPaymentNotFound : Failure :=
  .unprocessable .employerPaymentNotFound
    "No eligible income payment from this employer source falls inside the requested period"

def employerPaymentClaim (i : EmployerPaymentInput) (operationId : String) : ProofClaim where
  operator := "employer_payment"
  thresholdEncrypted := none
  frequency := none
  result := true
  disclosurePolicy := .obj [("policyVersion", .str i.policyVersion), ("employerIssuerId", .str i.employerIssuerId),
    ("corroboration", .str i.corroboration), ("paymentReferenceDigest", .str (keyedDigest E operationId)),
    ("amountHidden", .bool true), ("senderHidden", .bool true), ("memoHidden", .bool true),
    ("sourceTransactionsHidden", .bool true)]

structure EmployerRecheck where
  source : EmployerSource
  payment : Payment
  attestationId : Option String
  deriving DecidableEq

section

variable (v : View) (proofId : String) (user : AuthenticatedUser)

variable (input : CreateEmployerPaymentProofDto)

def draftEmployerPayment : Except Failure (Draft × EmployerRecheck) := do
  let now := v.clock 0
  let (start, stop) ← (validateEmployerPaymentPeriod (E.newDate input.periodStart) (E.newDate input.periodEnd)
    now).mapError fun violation => .badRequest (some .invalidInput) (EMPLOYER_PERIOD_MESSAGES violation)
  let r ← resolveTrustedEmployer v user.id input.trustedSourceId
  let candidates := employerPool (v.db 2) user.id r.sourceAddress input start stop
  require (candidates ≠ []) employerPaymentNotFound
  let attested := attestedFor (v.db 3) r user.walletHash candidates now
  let (payment, corroboration) ← orThrow (selectEmployerPayment candidates r.isIssuerAccount attested)
    (.unprocessable .employerSourceUntrusted "No payment from this source is corroborated by the linked issuer")
  let attestationId := if corroboration = "issuer_attestation" then attestationFor attested payment else none
  let expiresAt ← validDate (expiryDate now input.expiresInDays)
  let i : EmployerPaymentInput := {
    id := proofId, walletHash := user.walletHash, assetCode := input.assetCode, assetIssuer := input.assetIssuer
    issuedAt := now, expiresAt, employerIssuerId := r.issuerId, corroboration
    periodStart := start, periodEnd := stop, policyVersion := EMPLOYER_PAYMENT_POLICY_VERSION }
  let credential := buildEmployerPaymentCredential i
  pure (⟨credential, newProof E user.id .employerPayment EMPLOYER_PAYMENT_SCHEMA_VERSION i.toHead start stop
    credential (employerPaymentClaim E i payment.operationId), [payment]⟩, ⟨r, payment, attestationId⟩)

/-- The rows the transaction locks: source, attestation, payment. The payment's
    classification and eligibility are read again, its hold is not. -/
def recheckEmployerPayment (user : AuthenticatedUser) (trustedSourceId : String) (now : Date) (c : EmployerRecheck) :
    Except Failure Unit := do
  assertEmployerStillTrusted db trustedSourceId user.id c.source
  require (c.attestationId.all fun id => (db.attestations.find? fun a => a.id = id).any fun a =>
      attestationUsable a now)
    (employerSourceError .sourceInactive)
  require ((db.payments.find? fun p => p.id = c.payment.id ∧ p.userId = user.id).any fun p =>
      p.classification = .income ∧ p.isEligible)
    employerPaymentNotFound

def createEmployerPaymentProof : Except Failure Issued := do
  let (d, c) ← draftEmployerPayment E v proofId user input
  issueUnderPolicy E v 4 user d fun db => do
    recheckEmployerPayment db user input.trustedSourceId (v.clock 0) c
    pure d

/-! ## Employment continuity -/

def EMPLOYMENT_CONTINUITY_POLICY_VERSION : String := "earnproof.employment-continuity.policy.v1"
def CONTINUITY_PERIOD_UNIT : String := "calendar-month-utc"
def MIN_CONTINUITY_PERIODS : Nat := 3
def MAX_CONTINUITY_PERIODS : Nat := 24
def MAX_MISSING_CONTINUITY_PERIODS : Nat := 1
def MAX_CONTINUITY_PAYMENTS : Nat := 2000

structure CreateEmploymentContinuityProofDto where
  trustedSourceId : String
  assetCode : String
  assetIssuer : Option String
  periodStart : String
  observedPeriods : Nat
  expiresInDays : Option ExpiryDays
  deriving DecidableEq

inductive ContinuityWindowViolation where
  | invalidDate | notPeriodAligned | invalidPeriodCount | windowNotComplete
  deriving DecidableEq

def CONTINUITY_WINDOW_MESSAGES : ContinuityWindowViolation → String
  | .invalidDate => "periodStart must be a valid date"
  | .notPeriodAligned => "periodStart must be the first instant of a UTC calendar month"
  | .invalidPeriodCount => "observedPeriods must be an integer between 3 and 24"
  | .windowNotComplete => "The observed window must have ended"

structure ContinuityWindow where
  start : Date
  /-- Exclusive; `none` when it lies beyond the last representable instant. -/
  stop : Option Date
  periods : Nat
  deriving DecidableEq

def civilOf (d : Date) : Civil := civil (d.ms / dayMs)

def isUtcMonthStart (d : Date) : Bool := (civilOf d).day = 1 ∧ d.ms % dayMs = 0

/-- `new Date(Date.UTC(year, month + months, 1))`; `Date.UTC` reads the years 0 to 99 as
    1900 to 1999. -/
def addUtcMonths (d : Date) (months : Nat) : Option Date :=
  let f := civilOf d
  let year := if 0 ≤ f.year ∧ f.year ≤ 99 then 1900 + f.year else f.year
  let m := f.month - 1 + months
  Date.ofMs? (daysOf ⟨year + m / 12, m % 12 + 1, 1⟩ * dayMs)

def buildContinuityWindow (start : Option Date) (periods : Nat) (now : Date) :
    Except ContinuityWindowViolation ContinuityWindow := do
  let start ← orThrow start .invalidDate
  require (isUtcMonthStart start) .notPeriodAligned
  require (MIN_CONTINUITY_PERIODS ≤ periods ∧ periods ≤ MAX_CONTINUITY_PERIODS) .invalidPeriodCount
  let stop := addUtcMonths start periods
  require (¬ dateLt (some now) stop) .windowNotComplete
  pure ⟨start, stop, periods⟩

/-- The period an instant falls in. -/
def continuityPeriodIndex (at_ : Date) (w : ContinuityWindow) : Option Nat :=
  if at_ < w.start ∨ dateGe (some at_) w.stop then none
  else
    let index := ((civilOf at_).year - (civilOf w.start).year) * 12 +
      ((civilOf at_).month - (civilOf w.start).month)
    if 0 ≤ index ∧ index < w.periods then some index.toNat else none

def earliestByOperation (payments : List Payment) : List (String × Payment) :=
  payments.foldl (fun m p =>
    match m.lookup p.operationId with
    | some q => if p.occurredAt < q.occurredAt then mapSet p.operationId p m else m
    | none => mapSet p.operationId p m) []

structure ContinuityEvaluation where
  continuous : Bool
  includedPayments : List Payment
  deriving DecidableEq

def evaluateContinuity (payments : List Payment) (w : ContinuityWindow) : ContinuityEvaluation :=
  let inside := ((earliestByOperation payments).map Prod.snd).filter fun p =>
    (continuityPeriodIndex p.occurredAt w).isSome
  let covered (k : Nat) : Bool := inside.any fun p => continuityPeriodIndex p.occurredAt w = some k
  let missing := ((List.range w.periods).filter fun k => !covered k).length
  ⟨missing ≤ MAX_MISSING_CONTINUITY_PERIODS && covered 0 && covered (w.periods - 1), inside.insertionSort earlier⟩

/-- The rows the method loads: one more than the cap, so exceeding it is seen. -/
def continuityPool (userId sourceAddress : String) (input : CreateEmploymentContinuityProofDto) (start stop : Date) :
    List Payment :=
  ((db.payments.filter (employerCandidate userId sourceAddress input.assetCode input.assetIssuer start
    stop)).insertionSort earlier).take (MAX_CONTINUITY_PAYMENTS + 1)

def corroborated (r : EmployerSource) (attested : List (String × String)) (p : Payment) : Bool :=
  r.isIssuerAccount || (attestationFor attested p).isSome

def continuityNotSatisfied : Failure :=
  .unprocessable .continuityNotSatisfied
    "Corroborated payments from this employer source do not satisfy the continuity policy for the requested window"

/-- `digest` is the keyed digest of the operation ids counted under the locks. -/
def continuityClaim (i : EmploymentContinuityInput) (digest : String) : ProofClaim where
  operator := "employment_continuity"
  thresholdEncrypted := none
  frequency := some CONTINUITY_PERIOD_UNIT
  result := true
  disclosurePolicy := .obj [("policyVersion", .str i.policyVersion), ("employerIssuerId", .str i.employerIssuerId),
    ("periodUnit", .str i.periodUnit), ("observedPeriods", .num i.observedPeriods),
    ("toleratedMissingPeriods", .num i.toleratedMissingPeriods), ("includedPaymentsDigest", .str digest),
    ("amountHidden", .bool true), ("senderHidden", .bool true), ("memoHidden", .bool true),
    ("sourceTransactionsHidden", .bool true), ("paymentDatesHidden", .bool true)]

/-- What the draft leaves for the transaction: the window, the payments it counted, the
    attestation of each and the credential's input. -/
structure ContinuityRecheck where
  source : EmployerSource
  window : ContinuityWindow
  included : List Payment
  attested : List (String × String)
  input : EmploymentContinuityInput
  deriving DecidableEq

/-- The draft with the payments and the claim of the counted payments. -/
def continuityDraft (user : AuthenticatedUser) (i : EmploymentContinuityInput) (counted : List Payment) : Draft :=
  let credential := buildEmploymentContinuityCredential i
  let digest := keyedDigest E (String.intercalate "\n" (counted.map Payment.operationId))
  ⟨credential, newProof E user.id .employmentContinuity EMPLOYMENT_CONTINUITY_SCHEMA_VERSION i.toHead i.periodStart
    i.periodEnd credential (continuityClaim i digest), counted⟩

variable (input : CreateEmploymentContinuityProofDto)

def draftEmploymentContinuity : Except Failure ContinuityRecheck := do
  let now := v.clock 0
  let w ← (buildContinuityWindow (E.newDate input.periodStart) input.observedPeriods now).mapError
    fun violation => .badRequest (some .invalidInput) (CONTINUITY_WINDOW_MESSAGES violation)
  let r ← resolveTrustedEmployer v user.id input.trustedSourceId
  let stop ← orThrow w.stop (.thrown "PrismaClientValidationError")
  let payments := continuityPool (v.db 2) user.id r.sourceAddress input w.start stop
  require (payments.length ≤ MAX_CONTINUITY_PAYMENTS)
    (.unprocessable .continuityLimitExceeded
      "The window contains more than 2000 payments; request a shorter window")
  let attested := attestedFor (v.db 3) r user.walletHash payments now
  let evaluation := evaluateContinuity (payments.filter (corroborated r attested)) w
  require evaluation.continuous continuityNotSatisfied
  let expiresAt ← validDate (expiryDate now input.expiresInDays)
  pure ⟨r, w, evaluation.includedPayments, attested,
    { id := proofId, walletHash := user.walletHash, assetCode := input.assetCode, assetIssuer := input.assetIssuer
      issuedAt := now, expiresAt, employerIssuerId := r.issuerId, periodStart := w.start
      periodEnd := stop, periodUnit := CONTINUITY_PERIOD_UNIT, observedPeriods := .ofNat w.periods
      toleratedMissingPeriods := .ofNat MAX_MISSING_CONTINUITY_PERIODS
      policyVersion := EMPLOYMENT_CONTINUITY_POLICY_VERSION }⟩

/-- Whether a counted payment still qualifies on the locked rows. Its hold is not read. -/
def stillQualifies (userId : String) (now : Date) (r : EmployerSource) (attested : List (String × String))
    (p : Payment) : Bool :=
  (db.payments.any fun q => q.id = p.id ∧ q.userId = userId ∧ q.classification = .income ∧ q.isEligible) &&
    (r.isIssuerAccount || (attestationFor attested p).any fun id =>
      db.attestations.any fun a => a.id = id ∧ attestationUsable a now)

def recheckContinuity (user : AuthenticatedUser) (trustedSourceId : String) (now : Date) (c : ContinuityRecheck) :
    Except Failure Draft := do
  assertEmployerStillTrusted db trustedSourceId user.id c.source
  let locked := evaluateContinuity (c.included.filter (stillQualifies db user.id now c.source c.attested)) c.window
  require locked.continuous continuityNotSatisfied
  pure (continuityDraft E user c.input locked.includedPayments)

def createEmploymentContinuityProof : Except Failure Issued := do
  let c ← draftEmploymentContinuity E v proofId user input
  issueUnderPolicy E v 4 user (continuityDraft E user c.input c.included) fun db =>
    recheckContinuity E db user input.trustedSourceId (v.clock 0) c

/-! ## Every kind of request -/

inductive Request where
  | paymentReceipt (input : CreatePaymentReceiptProofDto)
  | invoiceSettlement (input : CreateInvoiceSettlementProofDto)
  | minimumIncome (input : CreateMinimumIncomeProofDto)
  | incomeRange (input : CreateIncomeRangeProofDto)
  | recurringIncome (input : CreateRecurringIncomeProofDto)
  | aggregateEarnings (input : CreateAggregateEarningsProofDto)
  | employerPayment (input : CreateEmployerPaymentProofDto)
  | employmentContinuity (input : CreateEmploymentContinuityProofDto)
  deriving DecidableEq

/-- The method a request is for. -/
def create : Request → Except Failure Issued
  | .paymentReceipt i => createPaymentReceiptProof E v proofId user i
  | .invoiceSettlement i => createInvoiceSettlementProof E v proofId user i
  | .minimumIncome i => createMinimumIncomeProof E v proofId user i
  | .incomeRange i => createIncomeRangeProof E v proofId user i
  | .recurringIncome i => createRecurringIncomeProof E v proofId user i
  | .aggregateEarnings i => createAggregateEarningsProof E v proofId user i
  | .employerPayment i => createEmployerPaymentProof E v proofId user i
  | .employmentContinuity i => createEmploymentContinuityProof E v proofId user i

end

/-- The database access in which a method's transaction runs. -/
def commitAccess : Request → Nat
  | .paymentReceipt _ | .minimumIncome _ | .incomeRange _ | .recurringIncome _ => 1
  | .aggregateEarnings _ => 2
  | .invoiceSettlement _ | .employerPayment _ | .employmentContinuity _ => 4

end EarnProof.Proofs
