/-
  EarnProof.Proofs.RoundTrip — what verification rebuilds of what issuance hashed.

  Each of the eight kinds is built once from the request and rebuilt from the stored
  row and claim: thresholds through base64url, disclosed amounts through decryption,
  the cadence through its text, dates through ISO texts, the rest through the policy
  object. All of it comes back. The one field that is not stored with the proof is the
  wallet hash, which verification reads from the owner's row as it is then.
-/
import EarnProof.Auth.Accounts
import EarnProof.Proofs.CreateEmployer

namespace EarnProof.Proofs

open Lib Lib.Calendar Lib.Encoding Lib.Result Database Option
  EarnProof.Common.Crypto

/-! ## Stored fields come back -/

theorem revealThreshold_protectAmount (amount : String) : revealThreshold (some (protectAmount amount)) = amount := by
  have ht : (protectAmount amount).toList = redacted ++ (toBase64url amount).toList := String.toList_append
  simp only [revealThreshold, ht, stripLead_append, String.ofList_toList, fromBase64url_toBase64url]

/-- A positive count is printed without a leading zero. -/
theorem toDigits_head : ∀ n < 121, 0 < n → ∃ c ds, Nat.toDigits 10 n = c :: ds ∧ '1' ≤ c ∧ c ≤ '9' := by
  intro n hn h0
  have hlead : ∀ n < 121, 0 < n →
      '1' ≤ (Nat.toDigits 10 n).headD '0' ∧ (Nat.toDigits 10 n).headD '0' ≤ '9' := by decide
  have hle := hlead n hn h0
  cases hd : Nat.toDigits 10 n with
  | nil => exact absurd hd Nat.toDigits_ne_nil
  | cons c ds => exact ⟨c, ds, rfl, by simpa [hd] using hle⟩

theorem revealCadence_cadenceText (unit : IntervalUnit) {n : Nat} (h0 : 0 < n) (hn : n ≤ 120) :
    revealCadence (some (cadenceText unit n)) = some (unit, n) := by
  obtain ⟨c, ds, hd, hc⟩ := toDigits_head n (by omega) h0
  have hdigit : ∀ d ∈ Nat.toDigits 10 n, d.isDigit :=
    fun d h => Nat.isDigit_of_mem_toDigits (by decide) (by decide) h
  have hunit : ':' ∉ unit.text.toList := by cases unit <;> decide
  have hcount : ':' ∉ Nat.toDigits 10 n := fun h => absurd (hdigit _ h) (by decide)
  have hsplit : JsText.splitOn ':' (cadenceText unit n).toList = [unit.text.toList, c :: ds] := by
    rw [cadenceText, String.toList_ofList, JsText.splitOn_append_cons hunit, JsText.splitOn_eq_singleton hcount, hd]
  have hall : ds.all Char.isDigit :=
    List.all_eq_true.mpr fun d h => hdigit d (hd ▸ List.mem_cons_of_mem c h)
  have hval : Nat.ofDigitChars 10 (c :: ds) 0 = n := by rw [← hd, Nat.ofDigitChars_ten_toDigits]
  unfold revealCadence
  simp only [getD_some, hsplit, hval, hall, hc, hn, and_self, if_true]
  cases unit <;> rfl

variable {ring : Keyring} {amountEncrypted : Option String} {d : Draft} {p : Proof} {db db' : Db}

/-- A disclosed amount is revealed again as long as its key version stays loaded. -/
theorem revealPaymentAmountForVerification_keeps {host : Host} {ring ring' : Keyring} (hk : ring.Keeps ring')
    {amount : String}
    (h : (Reader.mk host ring).revealPaymentAmount amountEncrypted = .ok amount) :
    (Reader.mk host ring').revealPaymentAmountForVerification amountEncrypted = amount := by
  obtain ⟨a, ha, hd⟩ := bind_eq_some_iff.mp (orThrow_eq_ok.mp h)
  have hd' : (Reader.mk host ring').decrypt a = some amount := decryptProtectedAmount_keeps host.gcm hk hd
  simp only [Reader.revealPaymentAmountForVerification, ha, hd', getD_some]

/-! ## Rebuilding each kind -/

variable (R : Reader) (E : Env) (userId : String) (credential : Json)

/-- The credential rebuilt from a row as issuance writes it, under the wallet hash it was issued with. -/
abbrev Reader.restored (type : ProofType) (schema : String) (h : Head) (start stop : Date)
    (claim : ProofClaim) : Json :=
  R.rebuildCredential h.walletHash (newProof E userId type schema h start stop credential claim) claim

theorem rebuild_minimumIncome (i : MinimumIncomeInput) (payments : List Payment)
    (hcount : i.qualifyingPaymentCount = .ofNat payments.length) :
    buildCredential i =
      R.restored E userId credential .minimumIncome SCHEMA_VERSION i.toHead i.periodStart i.periodEnd
        (minimumIncomeClaim i.thresholdAmount payments) := by
  have ht := revealThreshold_protectAmount i.thresholdAmount
  have hc : qualifyingPaymentCount (minimumIncomeClaim i.thresholdAmount payments) = i.qualifyingPaymentCount :=
    hcount.symm ▸ rfl
  simp only [Reader.restored, Reader.rebuildCredential, newProof, hc]
  show _ = buildCredential { i with thresholdAmount := revealThreshold (some (protectAmount i.thresholdAmount)) }
  rw [ht]

theorem rebuild_incomeRange (i : IncomeRangeInput) (payments : List Payment)
    (hcount : i.qualifyingPaymentCount = .ofNat payments.length) :
    buildIncomeRangeCredential i =
      R.restored E userId credential .incomeRange INCOME_RANGE_SCHEMA_VERSION i.toHead i.periodStart i.periodEnd
        (incomeRangeClaim i.lowerBound i.upperBound payments) := by
  have hc : qualifyingPaymentCount (incomeRangeClaim i.lowerBound i.upperBound payments) =
      i.qualifyingPaymentCount := hcount.symm ▸ rfl
  simp only [Reader.restored, Reader.rebuildCredential, newProof, hc]
  rfl

theorem rebuild_recurringIncome (i : RecurringIncomeInput) (payments : List Payment)
    (hcount : i.qualifyingPaymentCount = .ofNat payments.length)
    (hcadence : i.cadence = cadenceText i.intervalUnit i.intervalCount) (hmin : 0 < i.intervalCount)
    (hmax : i.intervalCount ≤ 120) :
    buildRecurringIncomeCredential i =
      R.restored E userId credential .recurringIncome RECURRING_INCOME_SCHEMA_VERSION i.toHead i.periodStart i.periodEnd
        (recurringIncomeClaim i.intervalUnit i.intervalCount payments) := by
  have hf : (recurringIncomeClaim i.intervalUnit i.intervalCount payments).frequency = some i.cadence :=
    hcadence.symm ▸ rfl
  have hr : revealCadence (some i.cadence) = some (i.intervalUnit, i.intervalCount) :=
    hcadence.symm ▸ revealCadence_cadenceText i.intervalUnit hmin hmax
  simp only [Reader.restored, Reader.rebuildCredential, newProof, hf, hr]
  show _ = buildRecurringIncomeCredential { i with qualifyingPaymentCount := .ofNat payments.length }
  rw [← hcount]

/-- The policy's `occurredAt` text reads back as the instant it was printed from. -/
theorem storedOccurredAt_isoDate {policy : Json} {d : Date} (h : policy.get? "occurredAt" = some (isoDate d))
    (p : Proof) : R.storedOccurredAt policy p = d := by
  unfold Reader.storedOccurredAt
  rw [h]
  simp only [isoDate, parse_toISOString, getD_some]

/-- What a disclosing kind guarantees of its amount: hidden and absent, or the amount
    verification will reveal. -/
def AmountRevealed (amountHidden : Bool) (amount amountEncrypted : Option String) : Prop :=
  amount = if amountHidden then none else some (R.revealPaymentAmountForVerification amountEncrypted)

theorem rebuild_paymentReceipt (i : PaymentReceiptInput) (amountEncrypted : Option String)
    (hsender : i.senderHidden → i.sourceAddress = none)
    (hamount : AmountRevealed R i.amountHidden i.amount amountEncrypted) :
    buildPaymentReceiptCredential i =
      R.restored E userId credential .paymentReceipt PAYMENT_RECEIPT_SCHEMA_VERSION i.toHead i.occurredAt i.occurredAt
        (receiptClaim i amountEncrypted) := by
  obtain ⟨head, occurredAt, reference, senderHidden, amountHidden, sourceAddress, amount⟩ := i
  have hdate : ∀ p, R.storedOccurredAt (jsonPolicy (receiptClaim ⟨head, occurredAt, reference, senderHidden,
      amountHidden, sourceAddress, amount⟩ amountEncrypted).disclosurePolicy) p = occurredAt :=
    storedOccurredAt_isoDate R rfl
  simp only [Reader.restored, Reader.rebuildCredential, Reader.rebuildPaymentReceiptCredential, newProof, hdate]
  have hs : senderHidden = false ∨ sourceAddress = none := by
    cases senderHidden with
    | true => exact .inr (hsender rfl)
    | false => exact .inl rfl
  cases amountHidden with
  | true =>
    obtain rfl : amount = none := hamount
    rcases hs with rfl | rfl
    · cases sourceAddress <;> rfl
    · cases senderHidden <;> rfl
  | false =>
    obtain rfl : amount = some (R.revealPaymentAmountForVerification amountEncrypted) := hamount
    rcases hs with rfl | rfl
    · cases sourceAddress <;> rfl
    · cases senderHidden <;> rfl

theorem rebuild_invoiceSettlement (i : InvoiceSettlementInput) (amountEncrypted : Option String)
    (hamount : AmountRevealed R i.amountHidden i.amount amountEncrypted) :
    buildInvoiceSettlementCredential i =
      R.restored E userId credential .invoiceSettlement INVOICE_SETTLEMENT_SCHEMA_VERSION i.toHead
        i.occurredAt i.occurredAt (invoiceClaim i amountEncrypted) := by
  obtain ⟨head, issuerId, occurredAt, reference, amountHidden, amount⟩ := i
  have hdate : ∀ p, R.storedOccurredAt (jsonPolicy (invoiceClaim ⟨head, issuerId, occurredAt, reference,
      amountHidden, amount⟩ amountEncrypted).disclosurePolicy) p = occurredAt :=
    storedOccurredAt_isoDate R rfl
  simp only [Reader.restored, Reader.rebuildCredential, Reader.rebuildInvoiceSettlementCredential, newProof, hdate]
  cases amountHidden with
  | true => obtain rfl : amount = none := hamount; rfl
  | false => obtain rfl : amount = some (R.revealPaymentAmountForVerification amountEncrypted) := hamount; rfl

theorem rebuild_aggregateEarnings (i : AggregateEarningsInput) (digest : String)
    (hrounding : i.roundingIncrement ∈ ROUNDING_INCREMENTS) (hscope : i.sourceScope ∈ SOURCE_SCOPES) :
    buildAggregateEarningsCredential i =
      R.restored E userId credential .aggregateEarnings AGGREGATE_EARNINGS_SCHEMA_VERSION i.toHead
        i.periodStart i.periodEnd (aggregateClaim i digest) := by
  have ht := revealThreshold_protectAmount i.aggregateAmount
  have hr : textOr "invalid" (jsonPolicy (aggregateClaim i digest).disclosurePolicy) "roundingIncrement" =
      i.roundingIncrement := rfl
  have hs : textOr "invalid" (jsonPolicy (aggregateClaim i digest).disclosurePolicy) "sourceScope" =
      i.sourceScope := rfl
  have ha : (aggregateClaim i digest).thresholdEncrypted = some (protectAmount i.aggregateAmount) := rfl
  simp only [Reader.restored, Reader.rebuildCredential, rebuildAggregateEarningsCredential, newProof, hr, hs,
    ha, ht, hrounding, hscope, if_true]
  rfl

theorem rebuild_employerPayment (i : EmployerPaymentInput) (operationId : String)
    (hcorroboration : i.corroboration = "issuer_account" ∨ i.corroboration = "issuer_attestation") :
    buildEmployerPaymentCredential i =
      R.restored E userId credential .employerPayment EMPLOYER_PAYMENT_SCHEMA_VERSION i.toHead i.periodStart i.periodEnd
        (employerPaymentClaim E i operationId) := by
  have hc : textOr "issuer_account" (jsonPolicy (employerPaymentClaim E i operationId).disclosurePolicy)
      "corroboration" = i.corroboration := rfl
  simp only [Reader.restored, Reader.rebuildCredential, rebuildEmployerPaymentCredential, newProof, hc,
    hcorroboration, if_true]
  rfl

/-! ## Every accepted request -/

variable {E} {user : AuthenticatedUser} {v : View} {proofId : String} {issued : Issued} {request : Request}

/-- The draft of a request; that of a continuity proof counts again under the locks. -/
def Drafts (E : Env) (v : View) (proofId : String) (user : AuthenticatedUser) (d : Draft) : Request → Prop
  | .paymentReceipt i => draftPaymentReceipt E v proofId user i = .ok d
  | .invoiceSettlement i => ∃ s, draftInvoiceSettlement E v proofId user i = .ok (d, s)
  | .minimumIncome i => draftMinimumIncome E v proofId user i = .ok d
  | .incomeRange i => draftIncomeRange E v proofId user i = .ok d
  | .recurringIncome i => draftRecurringIncome E v proofId user i = .ok d
  | .aggregateEarnings i => draftAggregateEarnings E v proofId user i = .ok d
  | .employerPayment i => ∃ c, draftEmployerPayment E v proofId user i = .ok (d, c)
  | .employmentContinuity i => ∃ c, draftEmploymentContinuity E v proofId user i = .ok c ∧
      d = continuityDraft E user c.input (evaluateContinuity (c.included.filter
        (stillQualifies (v.db 4) user.id (v.clock 0) c.source c.attested)) c.window).includedPayments

/-- An accepted request issues its draft, under an asset policy or none, and ends with the insertion
    of its row into the state its transaction runs in, where it has changed no table but the
    quota's and the settlements'. -/
theorem create_drafts (h : create E v proofId user request = .ok issued) :
    ∃ d policy snapshot quota settlements, Drafts E v proofId user d request ∧
      issued.proof = { d.proof with assetPolicyId := policy, assetPolicySnapshot := snapshot } ∧
      issued.credential = d.credential ∧ issued.payments = d.payments ∧
      issueProof E { v.db (commitAccess request) with quotaUsage := quota, invoiceSettlements := settlements }
        issued.proof = .ok issued.db := by
  cases request with
  | invoiceSettlement =>
    obtain ⟨⟨d, s⟩, hd, h⟩ := bind_eq_ok.mp h
    obtain ⟨_, hrow, h⟩ := bind_eq_ok.mp (mapError_eq_ok.mp h)
    obtain ⟨hid, hhash, rfl⟩ := insertProof_eq_ok hrow
    obtain ⟨_, hset, h⟩ := bind_eq_ok.mp h
    obtain ⟨_, _, hset⟩ := bind_eq_ok.mp hset
    obtain ⟨_, _, hset⟩ := bind_eq_ok.mp hset
    obtain ⟨_, _, hset⟩ := bind_eq_ok.mp hset
    cases hset
    obtain ⟨_, hreg, h⟩ := bind_eq_ok.mp h
    cases h
    -- the settlement may as well be inserted first
    exact ⟨d, _, _, (v.db 4).quotaUsage, (v.db 4).invoiceSettlements ++ [s], ⟨s, hd⟩, rfl, rfl, rfl,
      bind_eq_ok.mpr ⟨_, insertProof_of_fresh hid hhash, hreg⟩⟩
  | aggregateEarnings =>
    obtain ⟨d, hd, h⟩ := bind_eq_ok.mp h
    obtain ⟨_, hrow, h⟩ := bind_eq_ok.mp h
    obtain ⟨_, hreg, h⟩ := bind_eq_ok.mp h
    cases h
    exact ⟨d, _, _, _, _, hd, rfl, rfl, rfl, bind_eq_ok.mpr ⟨_, hrow, hreg⟩⟩
  | paymentReceipt | minimumIncome | incomeRange | recurringIncome =>
    obtain ⟨d, hd, h⟩ := bind_eq_ok.mp h
    obtain ⟨quota, policy, snapshot, _, ⟨⟩, hissued⟩ := issueUnderPolicy_eq_ok h
    exact ⟨d, policy, snapshot, quota, _, hd, hissued⟩
  | employerPayment =>
    obtain ⟨⟨d, c⟩, hd, h⟩ := bind_eq_ok.mp h
    obtain ⟨quota, policy, snapshot, _, hd', hissued⟩ := issueUnderPolicy_eq_ok h
    obtain ⟨_, _, ⟨⟩⟩ := bind_eq_ok.mp hd'
    exact ⟨d, policy, snapshot, quota, _, ⟨c, hd⟩, hissued⟩
  | employmentContinuity =>
    obtain ⟨c, hc, h⟩ := bind_eq_ok.mp h
    obtain ⟨quota, policy, snapshot, _, hd', hissued⟩ := issueUnderPolicy_eq_ok h
    obtain ⟨_, _, hd'⟩ := bind_eq_ok.mp hd'
    obtain ⟨_, _, ⟨⟩⟩ := bind_eq_ok.mp hd'
    exact ⟨_, policy, snapshot, quota, _, ⟨c, hc, rfl⟩, hissued⟩

/-- What verification needs of a stored row: it is as issued, it is hashed, and with the
    wallet hash it was issued under it rebuilds to the credential. -/
structure Rebuilds (E : Env) (user : AuthenticatedUser) (credential : Json) (p : Proof) : Prop where
  owner : p.userId = user.id
  fresh : FreshRow p
  hashed : p.credentialHash = credentialHash credential
  rebuilt : ∃ claim, p.claim = some claim ∧ ∀ ring, E.ring.Keeps ring →
    credential = (Reader.mk E.host ring).rebuildCredential user.walletHash p claim

theorem rebuilds_newProof {type : ProofType} {schema : String} {h : Head} {start stop : Date} {credential : Json}
    {claim : ProofClaim}
    (hr : ∀ ring, E.ring.Keeps ring → credential = (Reader.mk E.host ring).rebuildCredential user.walletHash
      (newProof E user.id type schema h start stop credential claim) claim) :
    Rebuilds E user credential (newProof E user.id type schema h start stop credential claim) :=
  ⟨rfl, ⟨rfl, some_ne_none claim, rfl, rfl, rfl, rfl, rfl⟩, rfl, claim, rfl, hr⟩

/-- The payments a request names, as they were found and checked. -/
def Selected (v : View) (user : AuthenticatedUser) (checksHold : Bool) (s : SelectionDto)
    (payments : List Payment) : Prop :=
  selectPayments (v.db 0) user.id s.selectedPaymentIds = .ok payments ∧
    ∃ periodStart periodEnd, checkAllSelected checksHold s periodStart periodEnd payments = .ok ()

theorem draftMinimumIncome_eq_ok {input : CreateMinimumIncomeProofDto}
    (h : draftMinimumIncome E v proofId user input = .ok d) :
    Rebuilds E user d.credential d.proof ∧ Selected v user true input.toSelectionDto d.payments := by
  unfold draftMinimumIncome at h
  simp only [bind_eq_ok, pure_eq_ok] at h
  obtain ⟨_, _, payments, hsel, _, hcheck, _, _, _, _, _, _, start, _, stop, _, expiresAt, _, rfl⟩ := h
  exact ⟨rebuilds_newProof fun ring _ => rebuild_minimumIncome ⟨E.host, ring⟩ E user.id _ _ payments rfl,
    hsel, _, _, hcheck⟩

theorem draftIncomeRange_eq_ok {input : CreateIncomeRangeProofDto}
    (h : draftIncomeRange E v proofId user input = .ok d) :
    Rebuilds E user d.credential d.proof ∧ Selected v user false input.toSelectionDto d.payments := by
  unfold draftIncomeRange at h
  simp only [bind_eq_ok, pure_eq_ok] at h
  obtain ⟨_, _, _, _, _, _, _, _, payments, hsel, _, hcheck, _, _, _, _, start, _, stop, _, expiresAt, _, rfl⟩ := h
  exact ⟨rebuilds_newProof fun ring _ => rebuild_incomeRange ⟨E.host, ring⟩ E user.id _ _ payments rfl,
    hsel, _, _, hcheck⟩

theorem draftRecurringIncome_eq_ok {input : CreateRecurringIncomeProofDto}
    (h : draftRecurringIncome E v proofId user input = .ok d) :
    Rebuilds E user d.credential d.proof ∧ Selected v user true input.toSelectionDto d.payments := by
  unfold draftRecurringIncome at h
  simp only [bind_eq_ok, pure_eq_ok] at h
  obtain ⟨_, _, _, _, payments, hsel, _, hcheck, _, _, start, _, stop, _, expiresAt, _, rfl⟩ := h
  have hmin : 0 < input.intervalCount := Nat.lt_of_lt_of_le (by decide) input.intervalCount_min
  exact ⟨rebuilds_newProof fun ring _ =>
    rebuild_recurringIncome ⟨E.host, ring⟩ E user.id _ _ payments rfl rfl hmin input.intervalCount_max,
      hsel, _, _, hcheck⟩

/-- The amount a draft discloses is the one verification reveals. -/
theorem amountRevealed_of_disclosedAmount {amountHidden : Bool} {amountEncrypted amount : Option String}
    (h : E.reader.disclosedAmount amountHidden amountEncrypted = .ok amount)
    (hk : E.ring.Keeps ring) : AmountRevealed ⟨E.host, ring⟩ amountHidden amount amountEncrypted := by
  cases amountHidden with
  | true => exact (Except.ok.inj h).symm
  | false =>
    obtain ⟨a, hr, rfl⟩ := map_eq_ok.mp h
    exact congrArg some (revealPaymentAmountForVerification_keeps hk hr).symm

theorem draftPaymentReceipt_eq_ok {input : CreatePaymentReceiptProofDto}
    (h : draftPaymentReceipt E v proofId user input = .ok d) : Rebuilds E user d.credential d.proof ∧
      ∃ payment, (v.db 0).payments.find? (fun p => p.id = input.paymentId ∧ p.userId = user.id) = some payment ∧
        payment.finalityHoldAt = none ∧ d.payments = [payment] := by
  unfold draftPaymentReceipt at h
  simp only [bind_eq_ok, pure_eq_ok, orThrow_eq_ok, require_eq_ok] at h
  obtain ⟨payment, hfind, _, _, _, hhold, _, _, sourceAddress, hsender, amount, hamount, expiresAt, _, rfl⟩ := h
  refine ⟨rebuilds_newProof fun ring hk =>
    rebuild_paymentReceipt ⟨E.host, ring⟩ E user.id _ _ payment.amountEncrypted ?_
      (amountRevealed_of_disclosedAmount hamount hk), payment, hfind, hhold, rfl⟩
  intro hhidden
  rw [Reader.disclosedSender, if_pos hhidden] at hsender
  exact (Except.ok.inj hsender).symm

theorem draftInvoiceSettlement_rebuilds {input : CreateInvoiceSettlementProofDto} {s : InvoiceSettlement}
    (h : draftInvoiceSettlement E v proofId user input = .ok (d, s)) : Rebuilds E user d.credential d.proof := by
  unfold draftInvoiceSettlement at h
  simp only [bind_eq_ok, pure_eq_ok, Prod.mk.injEq] at h
  obtain ⟨_, _, _, _, _, _, _, _, _, _, _, _, _, _, _, _, payment, _, amount, hamount, expiresAt, _, rfl, _⟩ := h
  exact rebuilds_newProof fun ring hk =>
    rebuild_invoiceSettlement ⟨E.host, ring⟩ E user.id _ _ payment.amountEncrypted
      (amountRevealed_of_disclosedAmount hamount hk)

theorem draftAggregateEarnings_rebuilds {input : CreateAggregateEarningsProofDto}
    (h : draftAggregateEarnings E v proofId user input = .ok d) : Rebuilds E user d.credential d.proof := by
  unfold draftAggregateEarnings at h
  simp only [bind_eq_ok, pure_eq_ok] at h
  obtain ⟨_, _, asset, _, period, _, addresses, _, _, _, result, _, expiresAt, _, rfl⟩ := h
  refine rebuilds_newProof fun ring _ =>
    rebuild_aggregateEarnings ⟨E.host, ring⟩ E user.id _ _ (inputsDigest E result.canonicalComponents) ?_ ?_
  · show (input.roundingIncrement.getD .one).text ∈ ROUNDING_INCREMENTS
    cases input.roundingIncrement.getD .one <;> decide
  · show (input.sourceScope.getD .income).text ∈ SOURCE_SCOPES
    cases input.sourceScope.getD .income <;> decide

theorem draftEmployerPayment_rebuilds {input : CreateEmployerPaymentProofDto} {c : EmployerRecheck}
    (h : draftEmployerPayment E v proofId user input = .ok (d, c)) : Rebuilds E user d.credential d.proof := by
  unfold draftEmployerPayment at h
  simp only [bind_eq_ok, pure_eq_ok, orThrow_eq_ok, Prod.mk.injEq] at h
  obtain ⟨⟨start, stop⟩, _, r, _, _, _, ⟨payment, corroboration⟩, hsel, expiresAt, _, rfl, _⟩ := h
  refine rebuilds_newProof fun ring _ => rebuild_employerPayment ⟨E.host, ring⟩ E user.id _ _ payment.operationId ?_
  obtain ⟨_, _, hp⟩ := List.exists_of_findSome?_eq_some hsel
  split at hp
  · exact .inl (Prod.mk.inj (some.inj hp)).2.symm
  · split at hp
    · exact .inr (Prod.mk.inj (some.inj hp)).2.symm
    · cases hp

/-- Whatever the kind, an accepted request stores a row that rebuilds. -/
theorem create_rebuilds (h : create E v proofId user request = .ok issued) :
    Rebuilds E user issued.credential issued.proof := by
  obtain ⟨d, policy, snapshot, _, _, hd, hproof, hcred, -, -⟩ := create_drafts h
  have hdraft : Rebuilds E user d.credential d.proof := by
    cases request with
    | paymentReceipt => exact (draftPaymentReceipt_eq_ok hd).1
    | invoiceSettlement => exact hd.elim fun _ => draftInvoiceSettlement_rebuilds
    | minimumIncome => exact (draftMinimumIncome_eq_ok hd).1
    | incomeRange => exact (draftIncomeRange_eq_ok hd).1
    | recurringIncome => exact (draftRecurringIncome_eq_ok hd).1
    | aggregateEarnings => exact draftAggregateEarnings_rebuilds hd
    | employerPayment => exact hd.elim fun _ => draftEmployerPayment_rebuilds
    | employmentContinuity =>
      obtain ⟨c, hc, rfl⟩ := hd
      unfold draftEmploymentContinuity at hc
      simp only [bind_eq_ok, pure_eq_ok] at hc
      obtain ⟨_, _, _, _, _, _, _, _, _, _, _, _, rfl⟩ := hc
      exact rebuilds_newProof fun _ _ => rfl
  rw [hproof, hcred]
  -- the asset policy is stored with the row but not part of the credential
  obtain ⟨howner, hfresh, hhashed, hrebuilt⟩ := hdraft
  exact ⟨howner, { hfresh with }, hhashed, hrebuilt⟩

/-! ## The committed row is found -/

theorem find?_append_fresh {ps : List Proof} {row : Proof} (h : ∀ p ∈ ps, p.id ≠ row.id) :
    (ps ++ [row]).find? (·.id = row.id) = some row := by
  have hfresh : ps.find? (·.id = row.id) = none := by
    rw [List.find?_eq_none]
    intro p hp
    simpa using h p hp
  rw [List.find?_append, hfresh]
  simp

/-- An accepted request leaves its row in the committed state. -/
theorem create_stores (h : create E v proofId user request = .ok issued) :
    issued.db.proof? issued.proof.id = some issued.proof := by
  obtain ⟨_, _, _, _, _, -, -, -, -, hissue⟩ := create_drafts h
  obtain ⟨hid, _, hdb⟩ := issueProof_eq_ok hissue
  rw [hdb]
  exact find?_append_fresh hid

/-! ## The wallet hash is the one field that can differ -/

theorem rebuildCredential_envelope (w : String) (p : Proof) (claim : ProofClaim) : ∃ type schema members privacy,
      R.rebuildCredential w p claim = envelope type schema (storedHead w p) members privacy := by
  unfold Reader.rebuildCredential
  cases p.proofType <;> exact ⟨_, _, _, _, rfl⟩

/-- The wallet hash is found again in the sorted credential. -/
theorem walletHash_sortKeys_envelope (t s : String) (h : Head) (m q : List (String × Json)) :
    ((Json.sortKeys (envelope t s h m q)).get? "subject").bind (·.get? "walletHash") = some (.str h.walletHash) := by
  have hsubject : (envelope t s h m q).get? "subject" = some (.obj [("walletHash", .str h.walletHash)]) := rfl
  unfold envelope at hsubject ⊢
  rw [Json.get?_sortKeys (by simp) (by decide), hsubject, map_some, bind_some,
    Json.get?_sortKeys (by simp) (by decide)]
  simp [Json.get?, Json.sortKeys]

theorem canonicalize_rebuildCredential_iff {w w' : String} (p : Proof) (claim : ProofClaim) :
    canonicalize (R.rebuildCredential w p claim) = canonicalize (R.rebuildCredential w' p claim) ↔ w = w' := by
  refine ⟨fun e => ?_, fun e => e ▸ rfl⟩
  obtain ⟨type, schema, members, privacy, h⟩ := rebuildCredential_envelope R w p claim
  obtain ⟨_, _, _, _, h'⟩ := rebuildCredential_envelope R w' p claim
  rw [h, h'] at e
  have hwallet := walletHash_sortKeys_envelope type schema (storedHead w p) members privacy
  rw [Json.stringify_inj e, walletHash_sortKeys_envelope] at hwallet
  exact (Json.str.inj (some.inj hwallet)).symm

/-- The credential verification rebuilds for a stored proof. -/
def rebuiltFrom (E : Env) (db : Db) (proofId : String) : Option Json :=
  (db.proof? proofId).bind fun p => (db.user? p.userId).bind fun owner => p.claim.map fun claim =>
    E.reader.rebuildCredential owner.walletHash p claim

variable {E' : Env} {request : Request} {issued : Issued} {later : Db} {owner : User}

/-- A stored proof verifies to the credential it was issued with exactly while its
    owner's wallet hash is the one it was issued under. -/
theorem round_trip_iff_walletHash_kept (h : create E v proofId user request = .ok issued) (hhost : E'.host = E.host)
    (hkeys : E.ring.Keeps E'.ring) (hrow : later.proof? issued.proof.id = some issued.proof)
    (howner : later.user? user.id = some owner) :
    ((rebuiltFrom E' later issued.proof.id).map canonicalize = some (canonicalize issued.credential) ∧
      (rebuiltFrom E' later issued.proof.id).map credentialHash = some issued.proof.credentialHash ∧
      ∀ getProofStatus now,
        verifyProof E' getProofStatus now later issued.proof.id ≠ .ok .invalidSignature) ↔
      owner.walletHash = user.walletHash := by
  have hr := create_rebuilds h
  obtain ⟨claim, hclaim, hrebuilt⟩ := hr.rebuilt
  have ho : later.user? issued.proof.userId = some owner := hr.owner ▸ howner
  have hreader : E'.reader = ⟨E.host, E'.ring⟩ := by rw [← hhost]; rfl
  have hcred : issued.credential = E'.reader.rebuildCredential user.walletHash issued.proof claim :=
    hreader ▸ hrebuilt E'.ring hkeys
  have hfrom : rebuiltFrom E' later issued.proof.id =
      some (E'.reader.rebuildCredential owner.walletHash issued.proof claim) := by
    simp only [rebuiltFrom, hrow, bind_some, ho, hclaim, map_some]
  constructor
  · rintro ⟨hcanon, _, _⟩
    rw [hfrom, hcred] at hcanon
    exact (canonicalize_rebuildCredential_iff _ issued.proof claim).mp (some.inj hcanon)
  · intro hw
    rw [hfrom, hw, ← hcred]
    refine ⟨rfl, congrArg some hr.hashed.symm, fun getProofStatus now => ?_⟩
    rw [Ne, verifyProof_eq_invalidSignature E' getProofStatus now hrow ho hclaim hr.fresh.status
      hr.fresh.contractTransactionHash, hw, ← hcred]
    exact not_not_intro hr.hashed

/-! ## A rotation between issuance and verification -/

/-- A worker's account with one eligible payment, on a deployment without anchoring. -/
def sampleEnv : Env := { testnetEnv with anchoringEnabled := false }

def sampleNow : Date := ⟨1700000000000, by decide, by decide⟩

def sampleUser : AuthenticatedUser := ⟨"user-1", "GCURRENT", Auth.walletHash "GCURRENT"⟩

def samplePayment : Payment where
  id := "payment-1"
  userId := "user-1"
  operationId := "1001"
  sourceAddress := some "GEMPLOYER"
  ledgerSequence := some 50
  assetCode := "XLM"
  assetIssuer := none
  amountEncrypted := some "redacted:MTAw"
  occurredAt := ⟨1699990000000, by decide, by decide⟩
  classification := .income
  isEligible := true

def sampleDb : Db where
  users := [⟨"user-1", "GCURRENT", Auth.walletHash "GCURRENT"⟩]
  payments := [samplePayment]
  supportedAssets := [⟨"asset-1", "xlm", "XLM", none, "testnet", .active⟩]

def sampleView : View := ⟨fun _ => sampleDb, fun _ => sampleNow⟩

def sampleReceipt : Request := .paymentReceipt ⟨"payment-1", none, none, none⟩

/-- The digest of a credential's canonical text, from its characters. -/
def canonicalDigest (credential : Json) : String :=
  Sha256.toHex (Sha256.digest (utf8 (Json.render (Json.sortKeys credential))))

theorem credentialHash_eq_iff {a b : Json} :
    credentialHash a = credentialHash b ↔ canonicalDigest a = canonicalDigest b := by
  unfold credentialHash
  rw [sha256Tagged_eq, sha256, sha256, canonicalize, canonicalize, Json.stringify, Json.stringify, Sha256.hex_ofList,
    Sha256.hex_ofList]
  exact Iff.rfl

/-- Once the rebuilt hash differs from the stored one, the answer is `INVALID_SIGNATURE`. -/
theorem verifyProof_of_hash_ne (h : create E v proofId user request = .ok issued)
    (hrow : later.proof? issued.proof.id = some issued.proof) (howner : later.user? user.id = some owner)
    (hne : ∀ claim, issued.proof.claim = some claim →
      credentialHash (E.reader.rebuildCredential user.walletHash issued.proof claim) ≠
        credentialHash (E.reader.rebuildCredential owner.walletHash issued.proof claim))
    (getProofStatus : String → Except Failure ContractProofStatus) (now : Date) :
    verifyProof E getProofStatus now later issued.proof.id = .ok .invalidSignature := by
  have hr := create_rebuilds h
  obtain ⟨claim, hclaim, hrebuilt⟩ := hr.rebuilt
  have ho : later.user? issued.proof.userId = some owner := hr.owner ▸ howner
  rw [verifyProof_eq_invalidSignature E getProofStatus now hrow ho hclaim hr.fresh.status
    hr.fresh.contractTransactionHash, hr.hashed, hrebuilt E.ring fun _ _ hk => hk]
  exact hne claim hclaim

/-- A receipt is issued, its owner's wallet is rotated, and the untouched row is
    answered `INVALID_SIGNATURE`. -/
theorem rotation_invalidates_signature :
    ∃ issued rotated, create sampleEnv sampleView "proof-1" sampleUser sampleReceipt = .ok issued ∧
      Auth.completeRotation issued.db "user-1" "GCURRENT" "GREPLACEMENT" = .ok rotated ∧
      rotated.proof? issued.proof.id = some issued.proof ∧
      verifyProof sampleEnv (fun _ => .ok .unchecked) sampleNow rotated issued.proof.id = .ok .invalidSignature := by
  have hissue : (create sampleEnv sampleView "proof-1" sampleUser sampleReceipt).map (fun i =>
      (Auth.completeRotation i.db "user-1" "GCURRENT" "GREPLACEMENT").map fun db => db.user? "user-1") =
      .ok (.ok (some ⟨"user-1", "GREPLACEMENT", Auth.walletHash "GREPLACEMENT"⟩)) := by decide +kernel
  -- the two canonical texts really have different digests
  have hdigest : (create sampleEnv sampleView "proof-1" sampleUser sampleReceipt).map (fun i =>
      i.proof.claim.all fun claim =>
        canonicalDigest (sampleEnv.reader.rebuildCredential sampleUser.walletHash i.proof claim) ≠
          canonicalDigest (sampleEnv.reader.rebuildCredential (Auth.walletHash "GREPLACEMENT") i.proof claim)) =
      .ok true := by decide +kernel
  obtain ⟨issued, h, hrot⟩ := map_eq_ok.mp hissue
  obtain ⟨rotated, hrotated, howner⟩ := map_eq_ok.mp hrot
  obtain ⟨_, h', hne⟩ := map_eq_ok.mp hdigest
  obtain rfl := Except.ok.inj (h.symm.trans h')
  have hrow : rotated.proof? issued.proof.id = some issued.proof := by
    rw [Db.proof?, (Auth.completeRotation_eq_ok hrotated).2]
    exact create_stores h
  refine ⟨issued, rotated, h, hrotated, hrow, verifyProof_of_hash_ne h hrow howner ?_ _ _⟩
  intro claim hclaim e
  rw [hclaim, all_some, decide_eq_true_eq] at hne
  exact hne (credentialHash_eq_iff.mp e)

/-- Right after issuance the owner still has the wallet hash, and the receipt verifies. -/
theorem receipt_round_trips : ∃ issued, create sampleEnv sampleView "proof-1" sampleUser sampleReceipt = .ok issued ∧
      (rebuiltFrom sampleEnv issued.db issued.proof.id).map canonicalize = some (canonicalize issued.credential) ∧
      ∀ getProofStatus now,
        verifyProof sampleEnv getProofStatus now issued.db issued.proof.id ≠ .ok .invalidSignature := by
  have howner : (create sampleEnv sampleView "proof-1" sampleUser sampleReceipt).map (fun i => i.db.user? "user-1") =
      .ok (some ⟨"user-1", "GCURRENT", sampleUser.walletHash⟩) := by decide +kernel
  obtain ⟨issued, h, ho⟩ := map_eq_ok.mp howner
  have hrt := (round_trip_iff_walletHash_kept h rfl (fun _ _ hk => hk) (create_stores h) ho).mpr rfl
  exact ⟨issued, h, hrt.1, hrt.2.2⟩

end EarnProof.Proofs
