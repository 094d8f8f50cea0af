/-
  EarnProof.Payments.Eligibility — when a payment is eligible, by each of the three paths
  that decide it: the live sync (`src/payments/payments.service.ts`), the historical
  backfill (`payment-backfill.service.ts`) and the evaluator
  (`payment-eligibility.service.ts` with the policy of `eligibility-policy.ts`).

  All three look the asset up in the supported-asset registry. The sync takes the rows of
  its own network and compares canonical ids; the backfill and the evaluator take every
  active row and compare `code:issuer`, with `native` in the place of an absent issuer.

  Proved: where the codes and issuers are plain texts, the three agree on a payment exactly
  when this network lists its asset or none does (`eligibility_paths_agree_iff`). A row of
  another network alone splits them (`other_network_splits`).
-/
import EarnProof.Proofs.Issuance
import EarnProof.Stellar.LedgerFinality

namespace EarnProof.Payments

open Lib Database Stellar Common.Crypto List
open Proofs (Env canonicalAssetId normalizeIssuer testnetEnv)

/-! ## The policy -/

def ELIGIBILITY_POLICY_VERSION : String := "payment-eligibility.v1"

inductive ReasonCode where
  | assetSupported | assetNotSupported | classificationIncome | classificationNotIncome | classificationExcluded
  | sourceTrusted | sourceIssuerVerified | sourceNotTrusted
  deriving DecidableEq

structure EligibilityFactors where
  assetSupported : Bool
  classification : PaymentClassification
  sourceTrusted : Bool
  sourceIssuerVerified : Bool
  deriving DecidableEq

structure EligibilityDecision where
  policyVersion : String
  eligible : Bool
  factors : EligibilityFactors
  reasonCodes : List ReasonCode
  inputsHash : String
  deriving DecidableEq

def classificationText : PaymentClassification → String
  | .income => "INCOME"
  | .reimbursement => "REIMBURSEMENT"
  | .personalTransfer => "PERSONAL_TRANSFER"
  | .unknown => "UNKNOWN"
  | .excluded => "EXCLUDED"

variable (f : EligibilityFactors)

def EligibilityFactors.json : Json :=
  .obj [("assetSupported", .bool f.assetSupported), ("classification", .str (classificationText f.classification)),
    ("sourceTrusted", .bool f.sourceTrusted), ("sourceIssuerVerified", .bool f.sourceIssuerVerified)]

def EligibilityFactors.inputsHash : String :=
  sha256Tagged (canonicalize (.obj [("policyVersion", .str ELIGIBILITY_POLICY_VERSION), ("factors", f.json)]))

/-- The reasons, in a fixed order: asset, classification, source. -/
def EligibilityFactors.reasons : List ReasonCode :=
  [if f.assetSupported then .assetSupported else .assetNotSupported,
    match f.classification with
    | .income => .classificationIncome
    | .excluded => .classificationExcluded
    | _ => .classificationNotIncome,
    if f.sourceTrusted then .sourceTrusted else .sourceNotTrusted] ++
  (if f.sourceIssuerVerified then [.sourceIssuerVerified] else [])

def evaluateEligibility (input : EligibilityFactors) : EligibilityDecision :=
  let factors := { input with sourceIssuerVerified := input.sourceTrusted && input.sourceIssuerVerified }
  { policyVersion := ELIGIBILITY_POLICY_VERSION, eligible := factors.assetSupported, factors
    reasonCodes := factors.reasons, inputsHash := factors.inputsHash }

/-! ## Keys of an asset -/

/-- The private `assetKey` of the backfill, and that of the evaluator. -/
def assetKey (code : String) (issuer : Option String) : String := code ++ ":" ++ issuer.getD "native"

section

variable (registry : List SupportedAsset)

/-- The backfill's `supportedAssetKeys`, and the set the evaluator builds. -/
def supportedAssetKeys : List String :=
  (registry.filter fun a => a.status = .active).map fun a => assetKey a.code a.issuer

/-- The set `syncAccount` builds. -/
def syncAssetKeys (E : Env) (registry : List SupportedAsset) : List String :=
  (registry.filter fun a => a.status = .active ∧ a.network = E.stellarNetwork).map fun a =>
    canonicalAssetId E a.network a.code a.issuer

/-! ## The three paths -/

/-- `isEligible` of `writePayments`. -/
def syncEligible (E : Env) (registry : List SupportedAsset) (p : NormalizedPayment) : Bool :=
  canonicalAssetId E E.stellarNetwork p.assetCode p.assetIssuer ∈ syncAssetKeys E registry

/-- `isEligible` of `toPaymentRow`. -/
def backfillEligible (p : NormalizedPayment) : Bool :=
  assetKey p.assetCode p.assetIssuer ∈ supportedAssetKeys registry

structure EvaluablePayment where
  id : String
  userId : String
  assetCode : String
  assetIssuer : Option String
  classification : PaymentClassification
  sourceAddress : Option String
  deriving DecidableEq

structure TrustedLink where
  userId : String
  sourceAddress : String
  issuerActive : Bool
  deriving DecidableEq

def trustKey (userId : String) (sourceAddress : Option String) : String := userId ++ ":" ++ sourceAddress.getD "null"

/-- `trustedByOwner.get`: of two entries with one key the later stays in the map. -/
def trustOf (trusted : List TrustedLink) (payment : EvaluablePayment) : Option Bool :=
  (trusted.reverse.find? fun t => trustKey t.userId (some t.sourceAddress) =
    trustKey payment.userId payment.sourceAddress).map (·.issuerActive)

/-- The decision `evaluate` reaches about a payment. -/
def decisionFor (trusted : List TrustedLink) (payment : EvaluablePayment) : EligibilityDecision :=
  evaluateEligibility
    { assetSupported := assetKey payment.assetCode payment.assetIssuer ∈ supportedAssetKeys registry
      classification := payment.classification
      sourceTrusted := (trustOf trusted payment).isSome
      sourceIssuerVerified := trustOf trusted payment = some true }

end

/-- The stored payment an incoming one becomes. -/
def evaluableOf (id userId : String) (classification : PaymentClassification) (p : NormalizedPayment) :
    EvaluablePayment :=
  ⟨id, userId, p.assetCode, p.assetIssuer, classification, some p.sourceAddress⟩

/-! ## Plain assets -/

/-- The texts of an asset as Stellar has them: no white space around them, no colon in the
    code, and an issuer that is neither empty nor the word for none. -/
structure PlainAsset (code : String) (issuer : Option String) : Prop where
  code_trim : JsText.trim code.toList = code.toList
  code_colon : ':' ∉ code.toList
  issuer_trim : ∀ i, issuer = some i → JsText.trim i.toList = i.toList
  issuer_text : ∀ i, issuer = some i → i ≠ "" ∧ i ≠ "native"

variable {code code' : String} {issuer issuer' : Option String}

theorem PlainAsset.normalizeIssuer_eq (h : PlainAsset code issuer) : normalizeIssuer issuer = issuer := by
  cases issuer with
  | none => rfl
  | some i =>
    unfold normalizeIssuer
    rw [Option.map_some, h.issuer_trim i rfl, String.ofList_toList, Option.filter_some,
      if_pos (decide_eq_true (h.issuer_text i rfl).1)]

/-- The part of a canonical id behind the network. -/
def assetTail (code : String) : Option String → String
  | none => ":native:" ++ code
  | some i => ":issued:" ++ (code ++ ":" ++ i)

theorem PlainAsset.canonicalAssetId_eq (h : PlainAsset code issuer) (E : Env) (network : String) :
    canonicalAssetId E network code issuer =
      E.host.toLowerCase (String.ofList (JsText.trim network.toList)) ++ assetTail code issuer := by
  unfold canonicalAssetId
  rw [h.normalizeIssuer_eq, h.code_trim, String.ofList_toList]
  cases issuer with
  | none => exact String.append_assoc ..
  | some => simp only [assetTail, String.append_assoc]

/-- The tag keeps native and issued assets apart, whatever the code is. -/
theorem native_ne_issued (a b : String) : ":native:" ++ a ≠ ":issued:" ++ b := by
  intro h
  have htag : (":native:" ++ a).toList[1]? = (":issued:" ++ b).toList[1]? := by rw [h]
  rw [String.toList_append, String.toList_append, getElem?_append_left (by decide),
    getElem?_append_left (by decide)] at htag
  exact absurd htag (by decide)

theorem colon_inj {a a' b b' : String} (h : ':' ∉ a.toList) (h' : ':' ∉ a'.toList)
    (heq : a ++ ":" ++ b = a' ++ ":" ++ b') : a = a' ∧ b = b' := by
  have hlist : a.toList ++ ':' :: b.toList = a'.toList ++ ':' :: b'.toList := by
    have := congrArg String.toList heq
    simpa using this
  obtain ⟨ha, hb⟩ := JsText.append_cons_inj h h' hlist
  exact ⟨String.toList_inj.mp ha, String.toList_inj.mp hb⟩

section Plain

variable (h : PlainAsset code issuer) (h' : PlainAsset code' issuer')

include h h'

theorem assetTail_inj : assetTail code issuer = assetTail code' issuer' ↔ code = code' ∧ issuer = issuer' := by
  constructor
  · intro heq
    cases issuer with
    | none =>
      cases issuer' with
      | none => exact ⟨(String.append_right_inj _).mp heq, rfl⟩
      | some => exact absurd heq (native_ne_issued _ _)
    | some =>
      cases issuer' with
      | none => exact absurd heq.symm (native_ne_issued _ _)
      | some =>
        obtain ⟨hcode, hissuer⟩ := colon_inj h.code_colon h'.code_colon ((String.append_right_inj _).mp heq)
        exact ⟨hcode, congrArg some hissuer⟩
  · rintro ⟨rfl, rfl⟩
    rfl

theorem assetKey_inj : assetKey code issuer = assetKey code' issuer' ↔ code = code' ∧ issuer = issuer' := by
  constructor
  · intro heq
    obtain ⟨hcode, hissuer⟩ := colon_inj h.code_colon h'.code_colon heq
    refine ⟨hcode, ?_⟩
    cases issuer with
    | none =>
      cases issuer' with
      | none => rfl
      | some i' => exact absurd hissuer.symm (h'.issuer_text i' rfl).2
    | some i =>
      cases issuer' with
      | none => exact absurd hissuer (h.issuer_text i rfl).2
      | some => exact congrArg some hissuer
  · rintro ⟨rfl, rfl⟩
    rfl

end Plain

/-! ## One rule -/

section Rule

variable {E : Env} {registry : List SupportedAsset}

section

variable (hregistry : ∀ a ∈ registry, a.status = .active → PlainAsset a.code a.issuer)
  (hplain : PlainAsset code issuer)

include hregistry hplain

theorem mem_syncAssetKeys : canonicalAssetId E E.stellarNetwork code issuer ∈ syncAssetKeys E registry ↔
      ∃ a ∈ registry, a.status = .active ∧ a.network = E.stellarNetwork ∧ a.code = code ∧ a.issuer = issuer := by
  constructor
  · intro h
    obtain ⟨a, ha, hkey⟩ := mem_map.mp h
    obtain ⟨ha, hsel⟩ := mem_filter.mp ha
    obtain ⟨hactive, hnetwork⟩ := of_decide_eq_true hsel
    have ha' := hregistry a ha hactive
    rw [hnetwork, ha'.canonicalAssetId_eq, hplain.canonicalAssetId_eq, String.append_right_inj,
      assetTail_inj ha' hplain] at hkey
    exact ⟨a, ha, hactive, hnetwork, hkey⟩
  · rintro ⟨a, ha, hactive, hnetwork, rfl, rfl⟩
    exact mem_map.mpr ⟨a, mem_filter.mpr ⟨ha, decide_eq_true ⟨hactive, hnetwork⟩⟩, by rw [hnetwork]⟩

theorem mem_supportedAssetKeys : assetKey code issuer ∈ supportedAssetKeys registry ↔
      ∃ a ∈ registry, a.status = .active ∧ a.code = code ∧ a.issuer = issuer := by
  constructor
  · intro h
    obtain ⟨a, ha, hkey⟩ := mem_map.mp h
    obtain ⟨ha, hsel⟩ := mem_filter.mp ha
    have hactive := of_decide_eq_true hsel
    exact ⟨a, ha, hactive, (assetKey_inj (hregistry a ha hactive) hplain).mp hkey⟩
  · rintro ⟨a, ha, hactive, rfl, rfl⟩
    exact mem_map.mpr ⟨a, mem_filter.mpr ⟨ha, decide_eq_true hactive⟩, rfl⟩

end

end Rule

/-- If the payment's asset is active on some network, it is active on this one. -/
def ListedHere (E : Env) (registry : List SupportedAsset) (p : NormalizedPayment) : Prop :=
  ∀ a ∈ registry, a.status = .active → a.code = p.assetCode → a.issuer = p.assetIssuer →
    ∃ b ∈ registry, b.status = .active ∧ b.network = E.stellarNetwork ∧ b.code = p.assetCode ∧ b.issuer = p.assetIssuer

/-- Over plain assets, the three paths agree on a payment exactly when a row of another
    network that lists its asset is not the only one. -/
theorem eligibility_paths_agree_iff (E : Env) (registry : List SupportedAsset) (p : NormalizedPayment)
    (hregistry : ∀ a ∈ registry, a.status = .active → PlainAsset a.code a.issuer)
    (hplain : PlainAsset p.assetCode p.assetIssuer) (id userId : String) (classification : PaymentClassification)
    (trusted : List TrustedLink) :
    (backfillEligible registry p = syncEligible E registry p ∧
      (decisionFor registry trusted (evaluableOf id userId classification p)).eligible = syncEligible E registry p) ↔
    ListedHere E registry p := by
  have hsame : (decisionFor registry trusted (evaluableOf id userId classification p)).eligible =
      backfillEligible registry p := rfl
  rw [hsame, and_self, backfillEligible, syncEligible, decide_eq_decide, mem_supportedAssetKeys hregistry hplain,
    mem_syncAssetKeys hregistry hplain]
  constructor
  · intro hagree a ha hactive hcode hissuer
    exact hagree.mp ⟨a, ha, hactive, hcode, hissuer⟩
  · intro hlisted
    constructor
    · rintro ⟨a, ha, hactive, hcode, hissuer⟩
      exact hlisted a ha hactive hcode hissuer
    · rintro ⟨b, hb, hactive, -, hcode, hissuer⟩
      exact ⟨b, hb, hactive, hcode, hissuer⟩

/-! ## Registries -/

def lumensOn (network : String) : SupportedAsset :=
  ⟨"asset-" ++ network, network ++ ":native:XLM", "XLM", none, network, .active⟩

def publicUsdc : SupportedAsset :=
  ⟨"asset-usdc", "pubnet:issued:USDC:GISSUER", "USDC", some "GISSUER", "pubnet", .active⟩

def lumensPayment : NormalizedPayment where
  operationId := "4294967297"
  pagingToken := some 4294967297
  stellarTransactionHash := "tx-1"
  sourceAddress := "GPAYER"
  destinationAddress := "GOWNER"
  assetCode := "XLM"
  assetIssuer := none
  amount := "10.0000000"
  occurredAt := .epoch

/-- Lumens are supported on the public network only, and this deployment runs on testnet:
    the sync stores the payment as not eligible, the backfill and the evaluator as eligible. -/
theorem other_network_splits : syncEligible testnetEnv [lumensOn "pubnet"] lumensPayment = false ∧
      backfillEligible [lumensOn "pubnet"] lumensPayment ∧
      (decisionFor [lumensOn "pubnet"] [] (evaluableOf "payment-1" "user-1" .unknown lumensPayment)).eligible := by
  refine ⟨by decide, by decide, ?_⟩
  decide

theorem plain_lumens : PlainAsset "XLM" none where
  code_trim := by decide
  code_colon := by decide
  issuer_trim := nofun
  issuer_text := nofun

theorem plain_usdc : PlainAsset "USDC" (some "GISSUER") where
  code_trim := by decide
  code_colon := by decide
  issuer_trim := by
    rintro i ⟨⟩
    decide
  issuer_text := by
    rintro i ⟨⟩
    decide

/-- A registry of two networks, with lumens on both. -/
theorem eligibility_paths_agree_two_networks :
    syncEligible testnetEnv [lumensOn "pubnet", publicUsdc, lumensOn "testnet"] lumensPayment ∧
      backfillEligible [lumensOn "pubnet", publicUsdc, lumensOn "testnet"] lumensPayment =
        syncEligible testnetEnv [lumensOn "pubnet", publicUsdc, lumensOn "testnet"] lumensPayment := by
  refine ⟨by decide, ((eligibility_paths_agree_iff testnetEnv _ lumensPayment ?_ plain_lumens "payment-1" "user-1"
    .unknown []).mpr ?_).1⟩
  · intro a ha _
    simp only [mem_cons, not_mem_nil, or_false] at ha
    rcases ha with rfl | rfl | rfl
    · exact plain_lumens
    · exact plain_usdc
    · exact plain_lumens
  · intro a _ _ _ _
    exact ⟨lumensOn "testnet", by simp, rfl, rfl, rfl, rfl⟩

end EarnProof.Payments
