/-
  EarnProof.Proofs.CreateAggregate — `createInvoiceSettlementProof` of
  `src/proofs/proofs.service.ts`, and `createAggregateEarningsProof` with the
  calculator and policy it applies (`aggregate-earnings.calculator.ts`,
  `aggregate-earnings.policy.ts`). Both look payments up by the addresses they came
  from, and neither transaction re-reads anything.
-/
import EarnProof.Proofs.CreateIncome

namespace EarnProof.Proofs

open Lib Lib.Calendar Lib.Result Database Common.Crypto

/-! ## Invoice settlement -/

structure CreateInvoiceSettlementProofDto where
  invoiceReference : String
  issuerId : String
  assetCode : String
  assetIssuer : Option String
  expectedAmount : DecimalAmount
  periodStart : Option String
  periodEnd : Option String
  discloseAmount : Option Bool
  expiresInDays : Option ExpiryDays
  deriving DecidableEq

variable (E : Env) (R : Reader) (db : Db)

/-- `raw.trim().replace(/\s+/g, " ").toLowerCase()`. -/
def normalizeInvoiceReference (raw : String) : String :=
  E.host.toLowerCase (String.ofList (JsText.collapse (JsText.trim raw.toList)))

/-- The amount of a candidate; an unreadable one is no match. -/
def Reader.tryRevealProtectedAmount (amountEncrypted : Option String) : Option Int :=
  ((amountEncrypted.filter (· ≠ "")).bind R.decrypt).bind parseAmount

/-- A bound of a request's period: absent, or a date the query accepts. -/
def Env.periodBound (text : Option String) : Except Failure (Option Date) :=
  match text.filter (· ≠ "") with
  | none => .ok none
  | some t => some <$> orThrow (E.newDate t) (.thrown "PrismaClientValidationError")

variable (userId : String)

def invoiceCandidate (addresses : List String) (input : CreateInvoiceSettlementProofDto)
    (periodStart periodEnd : Option Date) (p : Payment) : Bool :=
  p.userId = userId ∧ (p.sourceAddress.any fun a => a ∈ addresses) ∧ p.assetCode = input.assetCode ∧
    p.assetIssuer = input.assetIssuer ∧ p.isEligible ∧ p.classification ≠ .excluded ∧
    (db.invoiceSettlements.all fun s => s.paymentId ≠ p.id) ∧
    (periodStart.all fun d => d ≤ p.occurredAt) ∧ (periodEnd.all fun d => p.occurredAt ≤ d)

/-- The active sources of the caller that are linked to the issuer. -/
def invoiceSources (issuerId : String) : List TrustedSource :=
  db.trustedSources.filter fun t => t.userId = userId ∧ t.issuerId = some issuerId ∧ t.status = .active

/-- The candidates of the expected amount. -/
def invoiceMatches (addresses : List String) (input : CreateInvoiceSettlementProofDto)
    (periodStart periodEnd : Option Date) (expectedAmount : Int) : List Payment :=
  (db.payments.filter (invoiceCandidate db userId addresses input periodStart periodEnd)).filter fun p =>
    R.tryRevealProtectedAmount p.amountEncrypted = some expectedAmount

def invoiceClaim (i : InvoiceSettlementInput) (amountEncrypted : Option String) : ProofClaim where
  operator := "settlement"
  thresholdEncrypted := if i.amountHidden then none else amountEncrypted
  frequency := none
  result := true
  disclosurePolicy := .obj [("amountHidden", .bool i.amountHidden),
    ("invoiceReferenceHash", .str i.invoiceReferenceHash), ("issuerId", .str i.issuerId),
    ("occurredAt", isoDate i.occurredAt)]

def noConfirmedPayment : Failure :=
  .notFound .paymentNotFound "No confirmed payment matches the requested issuer, asset, and amount."

def onlyMatch : List Payment → Except Failure Payment
  | [] => .error noConfirmedPayment
  | [p] => .ok p
  | _ => .error (.unprocessable .paymentAmbiguousMatch
      "Multiple confirmed payments match the requested criteria; narrow the period window or amount.")

variable (v : View)

variable (proofId : String)

variable (user : AuthenticatedUser)

variable (input : CreateInvoiceSettlementProofDto)

/-- The draft, and the settlement row that binds its payment to the invoice. -/
def draftInvoiceSettlement : Except Failure (Draft × InvoiceSettlement) := do
  let normalizedReference := normalizeInvoiceReference E input.invoiceReference
  require (normalizedReference ≠ "") (.badRequest none "invoiceReference must not be empty after normalization")
  let invoiceReferenceHash := sha256Tagged normalizedReference
  let early := (input.periodStart.filter (· ≠ "")).bind E.newDate
  let late := (input.periodEnd.filter (· ≠ "")).bind E.newDate
  require (¬ dateLt late early) (.badRequest none "periodStart must be before periodEnd")
  require (((v.db 0).issuer? input.issuerId).any fun i => i.status = .active)
    (.badRequest none "The specified issuer does not exist or is not active.")
  require ((v.db 1).invoiceSettlements.all fun s =>
      ¬ (s.issuerId = input.issuerId ∧ s.invoiceReferenceHash = invoiceReferenceHash))
    (.conflict .invoiceReferenceConflict "This invoice reference has already been settled for this issuer.")
  let trustedSources := invoiceSources (v.db 2) user.id input.issuerId
  require (trustedSources ≠ []) noConfirmedPayment
  let periodStart ← E.periodBound input.periodStart
  let periodEnd ← E.periodBound input.periodEnd
  let expectedAmount ← orThrow (parseAmount input.expectedAmount.text) (.thrown "SyntaxError")
  let payment ← onlyMatch (invoiceMatches E.reader (v.db 3) user.id (trustedSources.map (·.sourceAddress)) input
    periodStart periodEnd expectedAmount)
  let amountHidden := input.discloseAmount ≠ some true
  let amount ← E.reader.disclosedAmount amountHidden payment.amountEncrypted
  let now := v.clock 0
  let expiresAt ← validDate (expiryDate now input.expiresInDays)
  let i : InvoiceSettlementInput := {
    id := proofId, walletHash := user.walletHash, assetCode := payment.assetCode
    assetIssuer := payment.assetIssuer, issuedAt := now, expiresAt
    issuerId := input.issuerId, occurredAt := payment.occurredAt, invoiceReferenceHash
    amountHidden, amount }
  let credential := buildInvoiceSettlementCredential i
  pure (⟨credential, newProof E user.id .invoiceSettlement INVOICE_SETTLEMENT_SCHEMA_VERSION i.toHead
      payment.occurredAt payment.occurredAt credential (invoiceClaim i payment.amountEncrypted), [payment]⟩,
    ⟨proofId, payment.id, input.issuerId, invoiceReferenceHash⟩)

/-- `tx.proofInvoiceSettlement.create`, against its unique indexes. -/
def insertInvoiceSettlement (row : InvoiceSettlement) : Except Failure Db := do
  require (db.invoiceSettlements.all fun s => s.proofId ≠ row.proofId) (.uniqueViolation ["proofId"])
  require (db.invoiceSettlements.all fun s => s.paymentId ≠ row.paymentId) (.uniqueViolation ["paymentId"])
  require (db.invoiceSettlements.all fun s =>
      ¬ (s.issuerId = row.issuerId ∧ s.invoiceReferenceHash = row.invoiceReferenceHash))
    (.uniqueViolation ["issuerId", "invoiceReferenceHash"])
  pure { db with invoiceSettlements := db.invoiceSettlements ++ [row] }

/-- How the method answers a unique violation of its transaction. -/
def settlementFailure : Failure → Failure
  | .uniqueViolation target =>
    if "paymentId" ∈ target then
      .conflict .paymentAlreadySettled "This payment has already been used to settle a different invoice."
    else
      .conflict .invoiceReferenceConflict "This invoice reference has already been settled for this issuer."
  | f => f

def issueInvoiceSettlement (d : Draft) (settlement : InvoiceSettlement) : Except Failure Issued := do
  let db ← insertProof (v.db 4) d.proof
  let db ← insertInvoiceSettlement db settlement
  let db ← enqueueRegister E db d.proof.id
  pure ⟨db, d.proof, d.credential, d.payments⟩

def createInvoiceSettlementProof : Except Failure Issued := do
  let (d, settlement) ← draftInvoiceSettlement E v proofId user input
  (issueInvoiceSettlement E v d settlement).mapError settlementFailure

/-! ## Aggregate earnings -/

def MIN_COMPONENT_PAYMENTS : Nat := 2
def MAX_COMPONENT_PAYMENTS : Nat := 500
def MAX_PERIOD_DAYS : Nat := 366

inductive AggregationRejection where
  | invalidPeriod | futurePeriod | periodTooLong | crossAssetUnsupported | invalidSource
  | insufficientPayments | limitExceeded | amountUnavailable | belowRoundingIncrement
  deriving DecidableEq

/-- `aggregationException`: the API error of a policy refusal. -/
def aggregationException (reason : AggregationRejection) (message : String) : Failure :=
  match reason with
  | .invalidPeriod | .futurePeriod | .periodTooLong | .invalidSource => .badRequest (some .invalidInput) message
  | .crossAssetUnsupported => .unprocessable .aggregationCrossAssetUnsupported message
  | .limitExceeded => .unprocessable .aggregationLimitExceeded message
  | .amountUnavailable => .unprocessable .paymentNotEligible message
  | .insufficientPayments | .belowRoundingIncrement => .unprocessable .aggregationInsufficientPayments message

structure AssetRef where
  code : String
  issuer : Option String
  deriving DecidableEq

def AssetRef.key (a : AssetRef) : String := a.code ++ ":" ++ a.issuer.getD "native"

/-- `Map.set`: an existing key keeps its place. -/
def mapSet {α : Type} (key : String) (value : α) : List (String × α) → List (String × α)
  | [] => [(key, value)]
  | (k, v) :: rest => if k = key then (k, value) :: rest else (k, v) :: mapSet key value rest

/-- The single asset of a request; no conversion policy exists. -/
def resolveAsset (assets : List AssetRef) : Except Failure AssetRef :=
  match assets.foldl (fun m a => mapSet a.key a m) [] with
  | [] => .error (aggregationException .crossAssetUnsupported "At least one asset is required")
  | [(_, a)] => .ok a
  | _ => .error (aggregationException .crossAssetUnsupported
      "Aggregating across different assets requires a conversion policy, and none is supported")

structure AggregationPeriod where
  start : Date
  stop : Date
  deriving DecidableEq

def resolvePeriod (periodStart periodEnd : String) (now : Date) : Except Failure AggregationPeriod := do
  let start ← orThrow (E.newDate periodStart)
    (aggregationException .invalidPeriod "periodStart must be before periodEnd")
  let stop ← orThrow (E.newDate periodEnd)
    (aggregationException .invalidPeriod "periodStart must be before periodEnd")
  require (start < stop) (aggregationException .invalidPeriod "periodStart must be before periodEnd")
  require (stop ≤ now) (aggregationException .futurePeriod "periodEnd must not be in the future")
  require (stop.ms - start.ms ≤ MAX_PERIOD_DAYS * dayMs)
    (aggregationException .periodTooLong "The aggregation period must not exceed 366 days")
  pure ⟨start, stop⟩

structure CreateAggregateEarningsProofDto where
  assets : List AssetRef
  assets_nonempty : assets ≠ []
  periodStart : String
  periodEnd : String
  sourceScope : Option SourceScope
  issuerIds : Option (List String)
  roundingIncrement : Option RoundingIncrement
  expiresInDays : Option ExpiryDays
  deriving DecidableEq

/-- The addresses a scope admits; `none` when every source counts. -/
def sourceAddresses (scope : SourceScope) (issuerIds : Option (List String)) : Except Failure (Option (List String)) :=
  match scope with
  | .income => .ok none
  | .trustedSources =>
    .ok (some (((db.trustedSources.filter fun t => t.userId = userId ∧ t.status = .active).map
      (·.sourceAddress)).eraseDups))
  | .verifiedIssuers => do
    let ids := issuerIds.map List.eraseDups
    let issuers := db.issuers.filter fun i => i.status = .active ∧ ids.all fun ids => i.id ∈ ids
    require (ids.all fun ids => issuers.length = ids.length)
      (aggregationException .invalidSource "One or more requested issuers are unknown or not active")
    pure (some ((issuers.map (·.stellarAddress)).eraseDups))

/-- `occurredAt` ascending, then `operationId`. -/
def earlier (a b : Payment) : Prop :=
  a.occurredAt < b.occurredAt ∨ (a.occurredAt = b.occurredAt ∧ ¬ JsText.textLt b.operationId a.operationId)
  deriving Decidable

def aggregateCandidate (asset : AssetRef) (period : AggregationPeriod) (addresses : Option (List String))
    (p : Payment) : Bool :=
  p.userId = userId ∧ p.classification = .income ∧ p.isEligible ∧ p.assetCode = asset.code ∧
    p.assetIssuer = asset.issuer ∧ period.start ≤ p.occurredAt ∧ p.occurredAt < period.stop ∧
    addresses.all fun as => p.sourceAddress.any fun a => a ∈ as

/-- The rows the calculator loads: one more than the cap, so exceeding it is seen. -/
def aggregateRows (asset : AssetRef) (period : AggregationPeriod) (addresses : Option (List String)) : List Payment :=
  ((db.payments.filter (aggregateCandidate userId asset period addresses)).insertionSort earlier).take
    (MAX_COMPONENT_PAYMENTS + 1)

def Reader.readAmount (p : Payment) : Option String :=
  (p.amountEncrypted.filter (· ≠ "")).bind R.decrypt

/-- The payments of the asset and the period, one for each operation id. -/
def byOperation (R : Reader) (asset : AssetRef) (period : AggregationPeriod) :
    List Payment → List (String × Payment) → Except Failure (List (String × Payment))
  | [], m => .ok m
  | p :: ps, m =>
    if p.assetCode = asset.code ∧ p.assetIssuer = asset.issuer ∧ period.start ≤ p.occurredAt ∧
        p.occurredAt < period.stop then do
      require ((m.lookup p.operationId).all fun q => R.readAmount q = R.readAmount p)
        (aggregationException .amountUnavailable "A payment appears more than once with conflicting amounts")
      byOperation R asset period ps (mapSet p.operationId p m)
    else byOperation R asset period ps m

/-- The stroops of each component, in the order of operation ids. -/
def componentStroops (R : Reader) : List (String × Payment) → Except Failure (List (String × Int))
  | [] => .ok []
  | (op, p) :: rest => do
    let s ← orThrow ((R.readAmount p).bind parseStroops)
      (aggregationException .amountUnavailable "One or more payment amounts are unavailable")
    let ss ← componentStroops R rest
    pure ((op, s) :: ss)

structure AggregationResult where
  disclosedAmount : String
  paymentCount : Nat
  canonicalComponents : List (String × Int)
  deriving DecidableEq

def aggregateEarnings (candidates : List Payment) (asset : AssetRef) (period : AggregationPeriod)
    (increment : RoundingIncrement) : Except Failure AggregationResult := do
  let m ← byOperation R asset period candidates []
  require (MIN_COMPONENT_PAYMENTS ≤ m.length)
    (aggregationException .insufficientPayments
      "An aggregate requires at least 2 eligible payments in the period")
  require (m.length ≤ MAX_COMPONENT_PAYMENTS)
    (aggregationException .limitExceeded "An aggregate may include at most 500 payments; narrow the period")
  let components ← componentStroops R (m.insertionSort fun a b => Json.keyLe a.1 b.1)
  let total := (components.map Prod.snd).sum
  let disclosed := floorToIncrement total increment
  require (disclosed ≠ 0)
    (aggregationException .belowRoundingIncrement "The aggregate is below the requested rounding increment")
  pure ⟨formatStroops disclosed, m.length, components⟩

/-- `keyedDigest`: an HMAC under the active signing secret. -/
def keyedDigest (value : String) : String := "hmac-sha256:" ++ Sha256.hmacBase64url E.signingSecret value

def inputsDigest (components : List (String × Int)) : String :=
  keyedDigest E (canonicalize (.obj [("policyVersion", .str AGGREGATE_EARNINGS_POLICY_VERSION),
    ("components", .arr (components.map fun c => .arr [.str c.1, .str (toString c.2)]))]))

def aggregateClaim (i : AggregateEarningsInput) (digest : String) : ProofClaim where
  operator := "sum"
  thresholdEncrypted := some (protectAmount i.aggregateAmount)
  frequency := none
  result := true
  disclosurePolicy := .obj [("exactIncomeHidden", .bool true), ("sourceTransactionsHidden", .bool true),
    ("sourceIdentitiesHidden", .bool true), ("qualifyingPaymentCount", .num i.qualifyingPaymentCount),
    ("policyVersion", .str i.policyVersion), ("roundingIncrement", .str i.roundingIncrement),
    ("sourceScope", .str i.sourceScope), ("inputsDigest", .str digest)]

def draftAggregateEarnings
    (input : CreateAggregateEarningsProofDto) : Except Failure Draft := do
  let sourceScope := input.sourceScope.getD .income
  require (input.issuerIds.isSome → sourceScope = .verifiedIssuers)
    (.badRequest (some .invalidInput) "issuerIds is only allowed with sourceScope verified_issuers")
  let increment := input.roundingIncrement.getD .one
  let now := v.clock 0
  let asset ← resolveAsset input.assets
  let period ← resolvePeriod E input.periodStart input.periodEnd now
  let addresses ← sourceAddresses (v.db 0) user.id sourceScope input.issuerIds
  require (addresses ≠ some [])
    (aggregationException .insufficientPayments "No eligible payment sources match the requested scope")
  let rows := aggregateRows (v.db 1) user.id asset period addresses
  let result ← aggregateEarnings E.reader rows asset period increment
  let expiresAt ← validDate (expiryDate now input.expiresInDays)
  let i : AggregateEarningsInput := {
    id := proofId, walletHash := user.walletHash, assetCode := asset.code, assetIssuer := asset.issuer
    issuedAt := now, expiresAt, aggregateAmount := result.disclosedAmount
    roundingIncrement := increment.text, periodStart := period.start, periodEnd := period.stop
    sourceScope := sourceScope.text, qualifyingPaymentCount := .ofNat result.paymentCount
    policyVersion := AGGREGATE_EARNINGS_POLICY_VERSION }
  let credential := buildAggregateEarningsCredential i
  pure ⟨credential, newProof E user.id .aggregateEarnings AGGREGATE_EARNINGS_SCHEMA_VERSION i.toHead period.start
    period.stop credential (aggregateClaim i (inputsDigest E result.canonicalComponents)), rows⟩

def createAggregateEarningsProof
    (input : CreateAggregateEarningsProofDto) : Except Failure Issued := do
  let d ← draftAggregateEarnings E v proofId user input
  let db ← insertProof (v.db 2) d.proof
  let db ← enqueueRegister E db d.proof.id
  pure ⟨db, d.proof, d.credential, d.payments⟩

end EarnProof.Proofs
