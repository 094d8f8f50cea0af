/-
  EarnProof.Proofs.CreateIncome — `createPaymentReceiptProof`,
  `createMinimumIncomeProof`, `createIncomeRangeProof` and
  `createRecurringIncomeProof` of `src/proofs/proofs.service.ts`, each as the draft
  it decides on and the transaction that issues it.
-/
import EarnProof.Proofs.Issuance

namespace EarnProof.Proofs

open Lib Lib.Calendar Lib.Result Database Common.Crypto

variable (R : Reader) (E : Env)

/-- `revealProtectedAmount`: the amount of a selected payment. -/
def Reader.revealProtectedAmount (amountEncrypted : Option String) : Except Failure Int :=
  orThrow ((amountEncrypted.filter (· ≠ "")).bind fun a => (R.decrypt a).bind parseAmount)
    (.badRequest none "Selected payment amount is unavailable")

/-- `revealPaymentAmount`: the amount to disclose. -/
def Reader.revealPaymentAmount (amountEncrypted : Option String) : Except Failure String :=
  orThrow ((amountEncrypted.filter (· ≠ "")).bind R.decrypt)
    (.unprocessable .paymentNotEligible "Payment amount is unavailable for disclosure")

def Reader.revealPaymentSender (p : Payment) : Except Failure String :=
  orThrow (reveal R.host.gcm R.ring p.sourceAddressEncrypted p.sourceAddress .source)
    (.unprocessable .paymentNotEligible "Payment sender is unavailable for disclosure")

/-- `hidden ? undefined : reveal…(payment)`. -/
def Reader.disclosedSender (senderHidden : Bool) (p : Payment) : Except Failure (Option String) :=
  if senderHidden then .ok none else (R.revealPaymentSender p).map some

def Reader.disclosedAmount (amountHidden : Bool) (amountEncrypted : Option String) : Except Failure (Option String) :=
  if amountHidden then .ok none else (R.revealPaymentAmount amountEncrypted).map some

def paymentReferenceHash (operationId : String) : String := sha256Tagged operationId

/-! ## Payment receipt -/

structure CreatePaymentReceiptProofDto where
  paymentId : String
  discloseSender : Option Bool
  discloseAmount : Option Bool
  expiresInDays : Option ExpiryDays
  deriving DecidableEq

def receiptClaim (i : PaymentReceiptInput) (amountEncrypted : Option String) : ProofClaim where
  operator := "receipt"
  thresholdEncrypted := if i.amountHidden then none else amountEncrypted
  frequency := none
  result := true
  disclosurePolicy := .obj ([("senderHidden", .bool i.senderHidden), ("amountHidden", .bool i.amountHidden),
    ("paymentReferenceHash", .str i.paymentReferenceHash), ("occurredAt", isoDate i.occurredAt)] ++
    disclosed i.senderHidden "sourceAddress" i.sourceAddress)

section

variable (v : View) (proofId : String) (user : AuthenticatedUser)

variable (input : CreatePaymentReceiptProofDto)

def draftPaymentReceipt : Except Failure Draft := do
  let payment ← orThrow ((v.db 0).payments.find? fun p => p.id = input.paymentId ∧ p.userId = user.id)
    (.notFound .paymentNotFound "Payment not found")
  require payment.isEligible (.unprocessable .paymentNotEligible "Payment is not eligible for proof issuance")
  require (payment.finalityHoldAt = none)
    (.unprocessable .paymentNotEligible "Payment is pending ledger reconciliation")
  require (payment.classification ≠ .excluded)
    (.unprocessable .paymentExcluded "Payment is excluded from proof issuance")
  let senderHidden := input.discloseSender ≠ some true
  let amountHidden := input.discloseAmount ≠ some true
  let sourceAddress ← E.reader.disclosedSender senderHidden payment
  let amount ← E.reader.disclosedAmount amountHidden payment.amountEncrypted
  let now := v.clock 0
  let expiresAt ← validDate (expiryDate now input.expiresInDays)
  let i : PaymentReceiptInput := {
    id := proofId, walletHash := user.walletHash, assetCode := payment.assetCode,
    assetIssuer := payment.assetIssuer, issuedAt := now, expiresAt,
    occurredAt := payment.occurredAt, paymentReferenceHash := paymentReferenceHash payment.operationId,
    senderHidden, amountHidden, sourceAddress, amount }
  let credential := buildPaymentReceiptCredential i
  pure ⟨credential, newProof E user.id .paymentReceipt PAYMENT_RECEIPT_SCHEMA_VERSION i.toHead payment.occurredAt
    payment.occurredAt credential (receiptClaim i payment.amountEncrypted), [payment]⟩

def createPaymentReceiptProof : Except Failure Issued := do
  let d ← draftPaymentReceipt E v proofId user input
  issueUnderPolicy E v 1 user d fun _ => .ok d

/-! ## Proofs over selected payments -/

/-- A decimal amount a request may carry: `/^\d+(\.\d{1,7})?$/`. -/
def isDecimalAmount (s : String) : Bool :=
  match JsText.splitOn '.' s.toList with
  | [w] => w ≠ [] ∧ w.all Char.isDigit
  | [w, d] => w ≠ [] ∧ w.all Char.isDigit ∧ d ≠ [] ∧ d.length ≤ 7 ∧ d.all Char.isDigit
  | _ => false

structure DecimalAmount where
  text : String
  wf : isDecimalAmount text
  deriving DecidableEq

structure SelectionDto where
  selectedPaymentIds : List String
  selected_nonempty : selectedPaymentIds ≠ []
  assetCode : String
  assetIssuer : Option String
  periodStart : String
  periodEnd : String
  expiresInDays : Option ExpiryDays
  deriving DecidableEq

/-- The user's payments among the selected ids; every id must be one of them. -/
def selectPayments (db : Db) (userId : String) (ids : List String) : Except Failure (List Payment) := do
  let ids := ids.eraseDups
  let payments := db.payments.filter fun p => p.id ∈ ids ∧ p.userId = userId
  require (payments.length = ids.length) (.badRequest none "One or more selected payments are invalid")
  pure payments

/-- The checks on one selected payment. `checksHold` is whether the method looks at
    `finalityHoldAt`. -/
def checkSelected (checksHold : Bool) (s : SelectionDto) (periodStart periodEnd : Option Date) (p : Payment) :
    Except Failure Unit := do
  require (p.classification = .income ∧ p.isEligible)
    (.badRequest none "Selected payments must be eligible income payments")
  require (checksHold = true → p.finalityHoldAt = none)
    (.badRequest none "Selected payments are pending ledger reconciliation")
  require (p.assetCode = s.assetCode ∧ p.assetIssuer = s.assetIssuer)
    (.badRequest none "Selected payments must use the requested asset")
  require (¬ dateLt (some p.occurredAt) periodStart ∧ ¬ dateLt periodEnd (some p.occurredAt))
    (.badRequest none "Selected payments must fall inside the requested period")

/-- The loop over the selected payments: the first failed check is thrown. -/
def checkAllSelected (checksHold : Bool) (s : SelectionDto) (periodStart periodEnd : Option Date) :
    List Payment → Except Failure Unit
  | [] => .ok ()
  | p :: ps => do
    checkSelected checksHold s periodStart periodEnd p
    checkAllSelected checksHold s periodStart periodEnd ps

/-- `payments.reduce((sum, payment) => sum + …, 0n)`. -/
def Reader.total (R : Reader) : List Payment → Except Failure Int
  | [] => .ok 0
  | p :: ps => do
    let a ← R.revealProtectedAmount p.amountEncrypted
    let rest ← R.total ps
    pure (a + rest)

def SelectionDto.head (s : SelectionDto) (proofId walletHash : String) (issuedAt expiresAt : Date) : Head :=
  ⟨proofId, walletHash, s.assetCode, s.assetIssuer, issuedAt, expiresAt⟩

def countPolicy (payments : List Payment) : List (String × Json) :=
  [("exactIncomeHidden", .bool true), ("sourceTransactionsHidden", .bool true),
    ("qualifyingPaymentCount", .num (.ofNat payments.length))]

structure CreateMinimumIncomeProofDto extends SelectionDto where
  thresholdAmount : DecimalAmount
  deriving DecidableEq

def minimumIncomeClaim (thresholdAmount : String) (payments : List Payment) : ProofClaim where
  operator := "gte"
  thresholdEncrypted := some (protectAmount thresholdAmount)
  frequency := none
  result := true
  disclosurePolicy := .obj (countPolicy payments)

def draftMinimumIncome (input : CreateMinimumIncomeProofDto) : Except Failure Draft := do
  let periodStart := E.newDate input.periodStart
  let periodEnd := E.newDate input.periodEnd
  require (¬ dateLt periodEnd periodStart) (.badRequest none "periodStart must be before periodEnd")
  let payments ← selectPayments (v.db 0) user.id input.selectedPaymentIds
  checkAllSelected true input.toSelectionDto periodStart periodEnd payments
  let total ← E.reader.total payments
  let threshold ← orThrow (parseAmount input.thresholdAmount.text) (.thrown "SyntaxError")
  require (threshold ≤ total) (.badRequest none "Selected payments do not satisfy the minimum income threshold")
  let now := v.clock 0
  let start ← validDate periodStart
  let stop ← validDate periodEnd
  let expiresAt ← validDate (expiryDate now input.expiresInDays)
  let i : MinimumIncomeInput := {
    input.head proofId user.walletHash now expiresAt with
    thresholdAmount := input.thresholdAmount.text, periodStart := start, periodEnd := stop
    qualifyingPaymentCount := .ofNat payments.length }
  let credential := buildCredential i
  pure ⟨credential, newProof E user.id .minimumIncome SCHEMA_VERSION i.toHead start stop credential
    (minimumIncomeClaim input.thresholdAmount.text payments), payments⟩

def createMinimumIncomeProof (input : CreateMinimumIncomeProofDto) : Except Failure Issued := do
  let d ← draftMinimumIncome E v proofId user input
  issueUnderPolicy E v 1 user d fun _ => .ok d

structure CreateIncomeRangeProofDto extends SelectionDto where
  lowerBound : DecimalAmount
  upperBound : DecimalAmount
  deriving DecidableEq

def incomeRangeClaim (lowerBound upperBound : String) (payments : List Payment) : ProofClaim where
  operator := "range"
  thresholdEncrypted := none
  frequency := none
  result := true
  disclosurePolicy := .obj (countPolicy payments ++ [("lowerBound", .str lowerBound), ("upperBound", .str upperBound)])

/-- The one selecting method that does not look at `finalityHoldAt`. -/
def draftIncomeRange (input : CreateIncomeRangeProofDto) : Except Failure Draft := do
  let periodStart := E.newDate input.periodStart
  let periodEnd := E.newDate input.periodEnd
  require (¬ dateLt periodEnd periodStart) (.badRequest none "periodStart must be before periodEnd")
  let lower ← orThrow (parseAmount input.lowerBound.text) (.thrown "SyntaxError")
  let upper ← orThrow (parseAmount input.upperBound.text) (.thrown "SyntaxError")
  require (lower < upper) (.badRequest none "lowerBound must be strictly less than upperBound")
  let payments ← selectPayments (v.db 0) user.id input.selectedPaymentIds
  checkAllSelected false input.toSelectionDto periodStart periodEnd payments
  let total ← E.reader.total payments
  require (lower ≤ total ∧ total ≤ upper)
    (.badRequest none "Selected payments do not fall within the requested income range")
  let now := v.clock 0
  let start ← validDate periodStart
  let stop ← validDate periodEnd
  let expiresAt ← validDate (expiryDate now input.expiresInDays)
  let i : IncomeRangeInput := {
    input.head proofId user.walletHash now expiresAt with
    lowerBound := input.lowerBound.text, upperBound := input.upperBound.text
    periodStart := start, periodEnd := stop, qualifyingPaymentCount := .ofNat payments.length }
  let credential := buildIncomeRangeCredential i
  pure ⟨credential, newProof E user.id .incomeRange INCOME_RANGE_SCHEMA_VERSION i.toHead start stop credential
    (incomeRangeClaim input.lowerBound.text input.upperBound.text payments), payments⟩

def createIncomeRangeProof (input : CreateIncomeRangeProofDto) : Except Failure Issued := do
  let d ← draftIncomeRange E v proofId user input
  issueUnderPolicy E v 1 user d fun _ => .ok d

/-! ## Recurring income -/

/-- The bounds are the request validation's. -/
structure CreateRecurringIncomeProofDto extends SelectionDto where
  intervalUnit : IntervalUnit
  intervalCount : Nat
  intervalCount_min : 2 ≤ intervalCount
  intervalCount_max : intervalCount ≤ 120
  deriving DecidableEq

def addIntervalUnit (d : Option Date) (unit : IntervalUnit) (amount : Nat) : Option Date :=
  d.bind fun d =>
    match unit with
    | .day => d.addDays amount
    | .week => d.addDays (amount * 7)
    | .month => d.addMonths amount

variable (periodStart periodEnd : Option Date)

variable (unit : IntervalUnit)

/-- The interval at an index, cut at the end of the period. -/
def recurringInterval (index : Nat) : Option Date × Option Date :=
  let naturalEnd := (addIntervalUnit periodStart unit (index + 1)).bind fun d => Date.ofMs? (d.ms - 1)
  (addIntervalUnit periodStart unit index, if dateLt naturalEnd periodEnd then naturalEnd else periodEnd)

def buildRecurringIntervals (count : Nat) :
    Except Failure (List (Option Date × Option Date)) := do
  let finalIntervalStart := addIntervalUnit periodStart unit (count - 1)
  let cadenceEnd := addIntervalUnit periodStart unit count
  require (¬ (dateLt periodEnd finalIntervalStart ∨ dateGe periodEnd cadenceEnd))
    (.badRequest none "The overall period must contain exactly the requested number of cadence intervals")
  pure ((List.range count).map (recurringInterval periodStart periodEnd unit))

def covers (interval : Option Date × Option Date) (p : Payment) : Bool :=
  dateGe (some p.occurredAt) interval.1 && dateGe interval.2 (some p.occurredAt)

def cadenceText (count : Nat) : String :=
  String.ofList (unit.text.toList ++ ':' :: Nat.toDigits 10 count)

def recurringIncomeClaim (count : Nat) (payments : List Payment) : ProofClaim where
  operator := "recurring"
  thresholdEncrypted := none
  frequency := some (cadenceText unit count)
  result := true
  disclosurePolicy := .obj (countPolicy payments ++
    [("intervalUnit", .str unit.text), ("intervalCount", .num (.ofNat count))])

variable (input : CreateRecurringIncomeProofDto)

def draftRecurringIncome : Except Failure Draft := do
  let periodStart := E.newDate input.periodStart
  let periodEnd := E.newDate input.periodEnd
  require (¬ dateGe periodStart periodEnd) (.badRequest none "periodStart must be before periodEnd")
  let intervals ← buildRecurringIntervals periodStart periodEnd input.intervalUnit input.intervalCount
  let payments ← selectPayments (v.db 0) user.id input.selectedPaymentIds
  checkAllSelected true input.toSelectionDto periodStart periodEnd payments
  let missingIntervals := intervals.filter fun interval => !payments.any (covers interval)
  require (missingIntervals.length = 0)
    (.badRequest none ("Recurring income proof unsatisfied: " ++ toString missingIntervals.length ++ " of " ++
      toString intervals.length ++ " interval(s) contain no qualifying payment"))
  let now := v.clock 0
  let start ← validDate periodStart
  let stop ← validDate periodEnd
  let expiresAt ← validDate (expiryDate now input.expiresInDays)
  let i : RecurringIncomeInput := {
    input.head proofId user.walletHash now expiresAt with
    cadence := cadenceText input.intervalUnit input.intervalCount
    intervalUnit := input.intervalUnit, intervalCount := input.intervalCount
    periodStart := start, periodEnd := stop, qualifyingPaymentCount := .ofNat payments.length }
  let credential := buildRecurringIncomeCredential i
  pure ⟨credential, newProof E user.id .recurringIncome RECURRING_INCOME_SCHEMA_VERSION i.toHead start stop
    credential (recurringIncomeClaim input.intervalUnit input.intervalCount payments), payments⟩

def createRecurringIncomeProof : Except Failure Issued := do
  let d ← draftRecurringIncome E v proofId user input
  issueUnderPolicy E v 1 user d fun _ => .ok d

end

end EarnProof.Proofs
