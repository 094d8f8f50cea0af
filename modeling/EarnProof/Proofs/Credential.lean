/-
  EarnProof.Proofs.Credential — the credential bodies of
  `src/proofs/proofs.service.ts`: the eight `build…Credential` functions that
  issuance calls, and `rebuildCredential`, which verification calls on a stored
  proof and its claim.

  A credential is the JSON object the builder returns. A member whose value is
  `undefined` is left out, as serialisation leaves it out. `rebuildCredential`
  takes the owner's wallet hash as an argument: it is read from the `User` row,
  not from the proof.
-/
import EarnProof.Common.Crypto
import EarnProof.Database.Rows

namespace EarnProof.Proofs

open Lib Lib.Calendar Lib.Encoding Database Common.Crypto

def SCHEMA_VERSION : String := "earnproof.minimum-income.v1"
def PAYMENT_RECEIPT_SCHEMA_VERSION : String := "earnproof.payment-receipt.v1"
def RECURRING_INCOME_SCHEMA_VERSION : String := "earnproof.recurring-income.v1"
def INVOICE_SETTLEMENT_SCHEMA_VERSION : String := "earnproof.invoice-settlement.v1"
def INCOME_RANGE_SCHEMA_VERSION : String := "earnproof.income-range.v1"
def AGGREGATE_EARNINGS_SCHEMA_VERSION : String := "earnproof.aggregate-earnings.v1"
def EMPLOYER_PAYMENT_SCHEMA_VERSION : String := "earnproof.employer-payment.v1"
def EMPLOYMENT_CONTINUITY_SCHEMA_VERSION : String := "earnproof.employment-continuity.v1"

/-! ## Building -/

structure Head where
  id : String
  walletHash : String
  assetCode : String
  assetIssuer : Option String
  issuedAt : Date
  expiresAt : Date
  deriving DecidableEq

def isoDate (d : Date) : Json := .str d.toISOString

/-- The members every credential has around its `claim` and `privacy`. -/
def envelope (type schemaVersion : String) (h : Head) (claim privacy : List (String × Json)) : Json :=
  .obj [("id", .str h.id), ("type", .str type), ("schemaVersion", .str schemaVersion),
    ("issuer", .str "earnproof-backend"), ("subject", .obj [("walletHash", .str h.walletHash)]),
    ("claim", .obj claim), ("privacy", .obj privacy),
    ("issuedAt", isoDate h.issuedAt), ("expiresAt", isoDate h.expiresAt)]

def hiddenIncome : List (String × Json) :=
  [("exactIncomeHidden", .bool true), ("sourceTransactionsHidden", .bool true)]

structure MinimumIncomeInput extends Head where
  thresholdAmount : String
  periodStart : Date
  periodEnd : Date
  qualifyingPaymentCount : Lib.Num
  deriving DecidableEq

def buildCredential (i : MinimumIncomeInput) : Json :=
  envelope "EarnProofMinimumIncomeCredential" SCHEMA_VERSION i.toHead
    [("operator", .str "gte"), ("thresholdAmount", .str i.thresholdAmount),
      ("assetCode", .str i.assetCode), ("assetIssuer", orNull i.assetIssuer),
      ("periodStart", isoDate i.periodStart), ("periodEnd", isoDate i.periodEnd),
      ("qualifyingPaymentCount", .num i.qualifyingPaymentCount)]
    hiddenIncome

/-- The `SourceScope` of an aggregate, as stored text. -/
inductive SourceScope where
  | income | trustedSources | verifiedIssuers
  deriving DecidableEq

def SourceScope.text : SourceScope → String
  | .income => "income"
  | .trustedSources => "trusted_sources"
  | .verifiedIssuers => "verified_issuers"

def SOURCE_SCOPES : List String := ["income", "trusted_sources", "verified_issuers"]

inductive RoundingIncrement where
  | stroop | cent | one | ten | hundred | thousand
  deriving DecidableEq

def RoundingIncrement.text : RoundingIncrement → String
  | .stroop => "0.0000001"
  | .cent => "0.01"
  | .one => "1"
  | .ten => "10"
  | .hundred => "100"
  | .thousand => "1000"

def ROUNDING_INCREMENTS : List String := ["0.0000001", "0.01", "1", "10", "100", "1000"]

def AGGREGATE_EARNINGS_POLICY_VERSION : String := "earnproof.aggregate-earnings.policy.v1"

structure AggregateEarningsInput extends Head where
  aggregateAmount : String
  roundingIncrement : String
  periodStart : Date
  periodEnd : Date
  sourceScope : String
  qualifyingPaymentCount : Lib.Num
  policyVersion : String
  deriving DecidableEq

def buildAggregateEarningsCredential (i : AggregateEarningsInput) : Json :=
  envelope "EarnProofAggregateEarningsCredential" AGGREGATE_EARNINGS_SCHEMA_VERSION i.toHead
    [("operator", .str "sum"), ("aggregateAmount", .str i.aggregateAmount),
      ("rounding", .obj [("mode", .str "floor"), ("increment", .str i.roundingIncrement)]),
      ("assetCode", .str i.assetCode), ("assetIssuer", orNull i.assetIssuer),
      ("periodStart", isoDate i.periodStart), ("periodEnd", isoDate i.periodEnd),
      ("periodBoundary", .str "start-inclusive-end-exclusive"), ("sourceScope", .str i.sourceScope),
      ("qualifyingPaymentCount", .num i.qualifyingPaymentCount), ("policyVersion", .str i.policyVersion)]
    [("exactIncomeHidden", .bool true), ("sourceTransactionsHidden", .bool true),
      ("sourceIdentitiesHidden", .bool true)]

/-- A member present only when it is not hidden and has a value. -/
def disclosed (hidden : Bool) (key : String) : Option String → List (String × Json)
  | some v => if hidden then [] else [(key, .str v)]
  | none => []

structure PaymentReceiptInput extends Head where
  occurredAt : Date
  paymentReferenceHash : String
  senderHidden : Bool
  amountHidden : Bool
  sourceAddress : Option String
  amount : Option String
  deriving DecidableEq

def buildPaymentReceiptCredential (i : PaymentReceiptInput) : Json :=
  envelope "EarnProofPaymentReceiptCredential" PAYMENT_RECEIPT_SCHEMA_VERSION i.toHead
    ([("assetCode", .str i.assetCode), ("assetIssuer", orNull i.assetIssuer),
      ("occurredAt", isoDate i.occurredAt), ("paymentReferenceHash", .str i.paymentReferenceHash)] ++
      disclosed i.senderHidden "sourceAddress" i.sourceAddress ++ disclosed i.amountHidden "amount" i.amount)
    [("senderHidden", .bool i.senderHidden), ("amountHidden", .bool i.amountHidden)]

structure InvoiceSettlementInput extends Head where
  issuerId : String
  occurredAt : Date
  invoiceReferenceHash : String
  amountHidden : Bool
  amount : Option String
  deriving DecidableEq

def buildInvoiceSettlementCredential (i : InvoiceSettlementInput) : Json :=
  envelope "EarnProofInvoiceSettlementCredential" INVOICE_SETTLEMENT_SCHEMA_VERSION i.toHead
    ([("issuerId", .str i.issuerId), ("assetCode", .str i.assetCode), ("assetIssuer", orNull i.assetIssuer),
      ("occurredAt", isoDate i.occurredAt), ("invoiceReferenceHash", .str i.invoiceReferenceHash)] ++
      disclosed i.amountHidden "amount" i.amount)
    [("amountHidden", .bool i.amountHidden)]

inductive IntervalUnit where
  | day | week | month
  deriving DecidableEq

def IntervalUnit.text : IntervalUnit → String
  | .day => "day"
  | .week => "week"
  | .month => "month"

structure RecurringIncomeInput extends Head where
  cadence : String
  intervalUnit : IntervalUnit
  intervalCount : Nat
  periodStart : Date
  periodEnd : Date
  qualifyingPaymentCount : Lib.Num
  deriving DecidableEq

def buildRecurringIncomeCredential (i : RecurringIncomeInput) : Json :=
  envelope "EarnProofRecurringIncomeCredential" RECURRING_INCOME_SCHEMA_VERSION i.toHead
    [("cadence", .str i.cadence), ("intervalUnit", .str i.intervalUnit.text),
      ("intervalCount", .num (.ofNat i.intervalCount)), ("assetCode", .str i.assetCode),
      ("assetIssuer", orNull i.assetIssuer), ("periodStart", isoDate i.periodStart),
      ("periodEnd", isoDate i.periodEnd), ("qualifyingPaymentCount", .num i.qualifyingPaymentCount)]
    hiddenIncome

structure IncomeRangeInput extends Head where
  lowerBound : String
  upperBound : String
  periodStart : Date
  periodEnd : Date
  qualifyingPaymentCount : Lib.Num
  deriving DecidableEq

def buildIncomeRangeCredential (i : IncomeRangeInput) : Json :=
  envelope "EarnProofIncomeRangeCredential" INCOME_RANGE_SCHEMA_VERSION i.toHead
    [("operator", .str "range"), ("lowerBound", .str i.lowerBound), ("upperBound", .str i.upperBound),
      ("assetCode", .str i.assetCode), ("assetIssuer", orNull i.assetIssuer),
      ("periodStart", isoDate i.periodStart), ("periodEnd", isoDate i.periodEnd),
      ("qualifyingPaymentCount", .num i.qualifyingPaymentCount)]
    hiddenIncome

structure EmployerPaymentInput extends Head where
  employerIssuerId : String
  corroboration : String
  periodStart : Date
  periodEnd : Date
  policyVersion : String
  deriving DecidableEq

def buildEmployerPaymentCredential (i : EmployerPaymentInput) : Json :=
  envelope "EarnProofEmployerPaymentCredential" EMPLOYER_PAYMENT_SCHEMA_VERSION i.toHead
    [("employerIssuerId", .str i.employerIssuerId), ("corroboration", .str i.corroboration),
      ("assetCode", .str i.assetCode), ("assetIssuer", orNull i.assetIssuer),
      ("periodStart", isoDate i.periodStart), ("periodEnd", isoDate i.periodEnd),
      ("periodBoundary", .str "start-inclusive-end-exclusive"), ("paymentObserved", .bool true),
      ("policyVersion", .str i.policyVersion)]
    [("amountHidden", .bool true), ("senderHidden", .bool true), ("memoHidden", .bool true),
      ("sourceTransactionsHidden", .bool true)]

structure EmploymentContinuityInput extends Head where
  employerIssuerId : String
  periodStart : Date
  periodEnd : Date
  periodUnit : String
  observedPeriods : Lib.Num
  toleratedMissingPeriods : Lib.Num
  policyVersion : String
  deriving DecidableEq

def buildEmploymentContinuityCredential (i : EmploymentContinuityInput) : Json :=
  envelope "EarnProofEmploymentContinuityCredential" EMPLOYMENT_CONTINUITY_SCHEMA_VERSION i.toHead
    [("employerIssuerId", .str i.employerIssuerId), ("assetCode", .str i.assetCode),
      ("assetIssuer", orNull i.assetIssuer), ("periodStart", isoDate i.periodStart),
      ("periodEnd", isoDate i.periodEnd), ("periodUnit", .str i.periodUnit),
      ("observedPeriods", .num i.observedPeriods), ("toleratedMissingPeriods", .num i.toleratedMissingPeriods),
      ("continuous", .bool true), ("policyVersion", .str i.policyVersion)]
    [("amountHidden", .bool true), ("senderHidden", .bool true), ("memoHidden", .bool true),
      ("sourceTransactionsHidden", .bool true), ("paymentDatesHidden", .bool true)]

/-! ## Rebuilding -/

/-- What the platform supplies: how it reads a date text outside the ECMAScript
    format, its Unicode lower-casing, and AES-GCM. -/
structure Host where
  date : String → Option Date
  toLowerCase : String → String
  gcm : Gcm

structure Reader where
  host : Host
  ring : Keyring

def jsonPolicy : Json → Json
  | .obj ms => .obj ms
  | _ => .obj []

/-- `typeof policy[key] === "string" ? policy[key] : default`. -/
def textOr (default : String) (policy : Json) (key : String) : String :=
  match policy.get? key with
  | some (.str s) => s
  | _ => default

/-- `typeof policy[key] === "number" ? policy[key] : default`. -/
def numberOr (default : Lib.Num) (policy : Json) (key : String) : Lib.Num :=
  match policy.get? key with
  | some (.num n) => n
  | _ => default

/-- `policy[key] !== false`. -/
def hiddenUnlessFalse (policy : Json) (key : String) : Bool :=
  policy.get? key ≠ some (.bool false)

def qualifyingPaymentCount (claim : ProofClaim) : Lib.Num :=
  numberOr (.ofNat 1) claim.disclosurePolicy "qualifyingPaymentCount"

def protectAmount (amount : String) : String := "redacted:" ++ toBase64url amount

def revealThreshold : Option String → String
  | some t =>
    match stripLead redacted t.toList with
    | some rest => fromBase64url (String.ofList rest)
    | none => "0"
  | none => "0"

variable (R : Reader) (walletHash : String) (p : Proof) (claim : ProofClaim)

/-- `paymentEncryptionKeyring.decrypt`. -/
def Reader.decrypt (value : String) : Option String := decryptProtectedAmount R.host.gcm R.ring value

/-- The empty text where there is nothing to decrypt or it cannot be. -/
def Reader.revealPaymentAmountForVerification (amountEncrypted : Option String) : String :=
  match amountEncrypted.filter (· ≠ "") with
  | some a => (R.decrypt a).getD ""
  | none => ""

/-- The stored interval of a recurring proof: `/^(day|week|month):([1-9]\d*)$/`, at most 120. -/
def revealCadence (frequency : Option String) : Option (IntervalUnit × Nat) :=
  match JsText.splitOn ':' (frequency.getD "").toList with
  | [unit, c :: ds] =>
    if '1' ≤ c ∧ c ≤ '9' ∧ ds.all Char.isDigit ∧ Nat.ofDigitChars 10 (c :: ds) 0 ≤ 120 then
      if unit = "day".toList then some (.day, Nat.ofDigitChars 10 (c :: ds) 0)
      else if unit = "week".toList then some (.week, Nat.ofDigitChars 10 (c :: ds) 0)
      else if unit = "month".toList then some (.month, Nat.ofDigitChars 10 (c :: ds) 0)
      else none
    else none
  | _ => none

/-- The `occurredAt` of a stored policy, or the start of the period. -/
def Reader.storedOccurredAt (policy : Json) (p : Proof) : Date :=
  match policy.get? "occurredAt" with
  | some (.str s) => (parse R.host.date s).getD (p.periodStart.getD p.createdAt)
  | _ => p.periodStart.getD p.createdAt

def storedHead : Head :=
  ⟨p.id, walletHash, p.assetCode, p.assetIssuer, p.createdAt, p.expiresAt⟩

def rebuildAggregateEarningsCredential : Json :=
  let policy := jsonPolicy claim.disclosurePolicy
  let rounding := textOr "invalid" policy "roundingIncrement"
  let scope := textOr "invalid" policy "sourceScope"
  buildAggregateEarningsCredential {
    storedHead walletHash p with
    aggregateAmount := revealThreshold claim.thresholdEncrypted
    roundingIncrement := if rounding ∈ ROUNDING_INCREMENTS then rounding else "invalid"
    periodStart := p.periodStart.getD p.createdAt
    periodEnd := p.periodEnd.getD p.createdAt
    sourceScope := if scope ∈ SOURCE_SCOPES then scope else "invalid"
    qualifyingPaymentCount := numberOr (.ofNat 0) policy "qualifyingPaymentCount"
    policyVersion := textOr AGGREGATE_EARNINGS_POLICY_VERSION policy "policyVersion" }

def Reader.rebuildPaymentReceiptCredential : Json :=
  let policy := jsonPolicy claim.disclosurePolicy
  let amountHidden := hiddenUnlessFalse policy "amountHidden"
  buildPaymentReceiptCredential {
    storedHead walletHash p with
    occurredAt := R.storedOccurredAt policy p
    paymentReferenceHash := textOr "" policy "paymentReferenceHash"
    senderHidden := hiddenUnlessFalse policy "senderHidden"
    amountHidden
    sourceAddress :=
      match policy.get? "sourceAddress" with
      | some (.str s) => some s
      | _ => none
    amount := if amountHidden then none else some (R.revealPaymentAmountForVerification claim.thresholdEncrypted) }

def Reader.rebuildInvoiceSettlementCredential : Json :=
  let policy := jsonPolicy claim.disclosurePolicy
  let amountHidden := hiddenUnlessFalse policy "amountHidden"
  buildInvoiceSettlementCredential {
    storedHead walletHash p with
    issuerId := textOr "" policy "issuerId"
    occurredAt := R.storedOccurredAt policy p
    invoiceReferenceHash := textOr "" policy "invoiceReferenceHash"
    amountHidden
    amount := if amountHidden then none else some (R.revealPaymentAmountForVerification claim.thresholdEncrypted) }

def rebuildEmployerPaymentCredential : Json :=
  let policy := jsonPolicy claim.disclosurePolicy
  let corroboration := textOr "issuer_account" policy "corroboration"
  buildEmployerPaymentCredential {
    storedHead walletHash p with
    employerIssuerId := textOr "" policy "employerIssuerId"
    corroboration :=
      if corroboration = "issuer_account" ∨ corroboration = "issuer_attestation" then corroboration
      else "issuer_account"
    periodStart := p.periodStart.getD p.createdAt
    periodEnd := p.periodEnd.getD p.createdAt
    policyVersion := textOr "" policy "policyVersion" }

def rebuildEmploymentContinuityCredential : Json :=
  let policy := jsonPolicy claim.disclosurePolicy
  buildEmploymentContinuityCredential {
    storedHead walletHash p with
    employerIssuerId := textOr "" policy "employerIssuerId"
    periodStart := p.periodStart.getD p.createdAt
    periodEnd := p.periodEnd.getD p.createdAt
    periodUnit := textOr "" policy "periodUnit"
    observedPeriods := numberOr (.ofInt (-1)) policy "observedPeriods"
    toleratedMissingPeriods := numberOr (.ofInt (-1)) policy "toleratedMissingPeriods"
    policyVersion := textOr "" policy "policyVersion" }

def Reader.rebuildCredential : Json :=
  let policy := jsonPolicy claim.disclosurePolicy
  let cadence := revealCadence claim.frequency
  match p.proofType with
  | .aggregateEarnings => rebuildAggregateEarningsCredential walletHash p claim
  | .recurringIncome =>
    buildRecurringIncomeCredential {
      storedHead walletHash p with
      cadence := claim.frequency.getD "invalid"
      intervalUnit := (cadence.map Prod.fst).getD .month
      intervalCount := (cadence.map Prod.snd).getD 0
      periodStart := p.periodStart.getD p.createdAt
      periodEnd := p.periodEnd.getD p.createdAt
      qualifyingPaymentCount := numberOr (.ofNat 0) policy "qualifyingPaymentCount" }
  | .paymentReceipt => R.rebuildPaymentReceiptCredential walletHash p claim
  | .invoiceSettlement => R.rebuildInvoiceSettlementCredential walletHash p claim
  | .incomeRange =>
    buildIncomeRangeCredential {
      storedHead walletHash p with
      lowerBound := textOr "0" policy "lowerBound"
      upperBound := textOr "0" policy "upperBound"
      periodStart := p.periodStart.getD p.createdAt
      periodEnd := p.periodEnd.getD p.createdAt
      qualifyingPaymentCount := qualifyingPaymentCount claim }
  | .employerPayment => rebuildEmployerPaymentCredential walletHash p claim
  | .employmentContinuity => rebuildEmploymentContinuityCredential walletHash p claim
  | .minimumIncome =>
    buildCredential {
      storedHead walletHash p with
      thresholdAmount := revealThreshold claim.thresholdEncrypted
      periodStart := p.periodStart.getD p.createdAt
      periodEnd := p.periodEnd.getD p.createdAt
      qualifyingPaymentCount := qualifyingPaymentCount claim }

def credentialHash (credential : Json) : String := sha256Tagged (canonicalize credential)

end EarnProof.Proofs
