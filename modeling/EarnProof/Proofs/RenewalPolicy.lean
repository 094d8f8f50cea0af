/-
  EarnProof.Proofs.RenewalPolicy — `src/proofs/proof-renewal.policy.ts`: when a proof
  may be renewed, which proof may supersede which, the walk that looks for a cycle,
  and the hash that identifies a renewal request.

  Proved: two proofs judged compatible agree on everything a successor must share
  with its predecessor, whatever the clock and the successor's own links, and two
  requests with one canonical text are for the same successor.
-/
import EarnProof.Proofs.Issuance

namespace EarnProof.Proofs

open Lib Lib.Calendar Database Common.Crypto

def RENEWAL_GRACE_PERIOD_DAYS : Nat := 30
def MAX_SUPERSESSION_CHAIN_DEPTH : Nat := 256
def MAX_IDEMPOTENCY_KEY_LENGTH : Nat := 128

/-! ## Eligibility -/

inductive RenewalIneligibility where
  | revoked | invalid | expiredBeyondGrace | alreadySuperseded
  deriving DecidableEq

def RenewalIneligibility.text : RenewalIneligibility → String
  | .revoked => "revoked"
  | .invalid => "invalid"
  | .expiredBeyondGrace => "expired_beyond_grace"
  | .alreadySuperseded => "already_superseded"

/-- The reasons against renewing; the proof is eligible when there are none. -/
def evaluateRenewalEligibility (proof : Proof) (now : Date) (hasSuccessor : Bool) : List RenewalIneligibility :=
  (match proof.status with
    | .revoked => [.revoked]
    | .invalid => [.invalid]
    | _ => if proof.expiresAt.ms + RENEWAL_GRACE_PERIOD_DAYS * dayMs ≤ now.ms then [.expiredBeyondGrace] else []) ++
  (if hasSuccessor ∨ proof.supersededAt ≠ none then [.alreadySuperseded] else [])

/-! ## Compatibility -/

inductive SupersessionIncompatibility where
  | sameProof | ownerMismatch | proofTypeMismatch | issuerMismatch | assetMismatch | networkMismatch
  | policyMismatch | successorNotActive | successorExpired | successorAlreadyLinked | successorSuperseded
  | successorPredatesPredecessor | cycle
  deriving DecidableEq

def SupersessionIncompatibility.text : SupersessionIncompatibility → String
  | .sameProof => "same_proof"
  | .ownerMismatch => "owner_mismatch"
  | .proofTypeMismatch => "proof_type_mismatch"
  | .issuerMismatch => "issuer_mismatch"
  | .assetMismatch => "asset_mismatch"
  | .networkMismatch => "network_mismatch"
  | .policyMismatch => "policy_mismatch"
  | .successorNotActive => "successor_not_active"
  | .successorExpired => "successor_expired"
  | .successorAlreadyLinked => "successor_already_linked"
  | .successorSuperseded => "successor_superseded"
  | .successorPredatesPredecessor => "successor_predates_predecessor"
  | .cycle => "supersession_cycle"

def POLICY_FLAGS : List String := ["senderHidden", "amountHidden", "exactIncomeHidden", "sourceTransactionsHidden"]

/-- The text two proofs must share to supersede one another. -/
def policyFingerprint (proof : Proof) : String :=
  let policy := (proof.claim.map fun c => jsonPolicy c.disclosurePolicy).getD (.obj [])
  canonicalize (.obj [("schemaVersion", .str proof.schemaVersion),
    ("operator", orNull (proof.claim.map ProofClaim.operator)),
    ("frequency", orNull (proof.claim.bind ProofClaim.frequency)),
    ("flags", .obj (POLICY_FLAGS.map fun flag => (flag, (policy.get? flag).getD .null)))])

def reason (applies : Prop) [Decidable applies] (r : SupersessionIncompatibility) : List SupersessionIncompatibility :=
  if applies then [r] else []

/-- Every reason against the link; a proof row carries no issuer of its own, so the
    issuers always agree. -/
def evaluateSupersessionCompatibility (predecessor successor : Proof) (now : Date) (successorHasSuccessor : Bool) :
    List SupersessionIncompatibility :=
  if predecessor.id = successor.id then [.sameProof]
  else
    reason (predecessor.userId ≠ successor.userId) .ownerMismatch ++
    reason (predecessor.proofType ≠ successor.proofType) .proofTypeMismatch ++
    reason (predecessor.assetCode ≠ successor.assetCode ∨ predecessor.assetIssuer ≠ successor.assetIssuer)
      .assetMismatch ++
    reason (predecessor.network ≠ successor.network) .networkMismatch ++
    reason (policyFingerprint predecessor ≠ policyFingerprint successor) .policyMismatch ++
    (if successor.status ≠ .active then [.successorNotActive]
      else reason (successor.expiresAt ≤ now) .successorExpired) ++
    reason (successor.supersedesId.any (· ≠ "")) .successorAlreadyLinked ++
    reason (successor.supersededAt ≠ none ∨ successorHasSuccessor) .successorSuperseded ++
    reason (successor.createdAt < predecessor.createdAt) .successorPredatesPredecessor

theorem reason_eq_nil {applies : Prop} [Decidable applies] {r : SupersessionIncompatibility} :
    reason applies r = [] ↔ ¬ applies := by
  unfold reason
  by_cases h : applies
  · simp [h]
  · simp [h]

/-- What a successor shares with its predecessor, in columns no writer changes. -/
structure Compatible (predecessor successor : Proof) : Prop where
  owner : predecessor.userId = successor.userId
  type : predecessor.proofType = successor.proofType
  assetCode : predecessor.assetCode = successor.assetCode
  assetIssuer : predecessor.assetIssuer = successor.assetIssuer
  network : predecessor.network = successor.network
  policy : policyFingerprint predecessor = policyFingerprint successor

theorem compatible_of_no_reason {predecessor successor : Proof} {now : Date} {linked : Bool}
    (h : evaluateSupersessionCompatibility predecessor successor now linked = []) :
    predecessor.id ≠ successor.id ∧ Compatible predecessor successor := by
  unfold evaluateSupersessionCompatibility at h
  split at h
  · cases h
  · rename_i hid
    simp only [List.append_eq_nil_iff, reason_eq_nil, ne_eq, not_not, not_or] at h
    obtain ⟨⟨⟨⟨⟨⟨⟨⟨owner, type⟩, code, issuer⟩, network⟩, policy⟩, -⟩, -⟩, -⟩, -⟩ := h
    exact ⟨hid, owner, type, code, issuer, network, policy⟩

/-! ## The walk for a cycle -/

/-- One turn of the loop of `wouldCreateCycle`, before it loads the next ancestor: `true`
    when it has found a cycle. `seen.length` is the depth, since every turn adds one id. -/
def cycleFound (candidateSuccessorId current : String) (seen : List String) : Bool :=
  current = candidateSuccessorId ∨ current ∈ seen ∨ MAX_SUPERSESSION_CHAIN_DEPTH ≤ seen.length

/-! ## Requests -/

structure RenewProofDto where
  successorProofId : Option String
  expiresInDays : Option ExpiryDays
  deriving DecidableEq

structure RenewCall where
  user : AuthenticatedUser
  proofId : String
  input : RenewProofDto
  idempotencyKey : Option String
  deriving DecidableEq

section

variable (c : RenewCall)

/-- The proof to link; an empty id counts as none given. -/
def RenewCall.target : Option String := c.input.successorProofId.filter (· ≠ "")

/-- What `renewalRequestHash` hashes for a call. -/
def RenewCall.requestBody : Json :=
  .obj [("userId", .str c.user.id), ("predecessorId", .str c.proofId),
    ("successorProofId", orNull c.input.successorProofId),
    ("expiresInDays", if c.target ≠ none then .null
      else (c.input.expiresInDays.map fun d => Json.num (.ofNat d.days)).getD .null),
    ("idempotencyKey", orNull c.idempotencyKey)]

def RenewCall.requestText : String := canonicalize c.requestBody

def RenewCall.requestHash : String := sha256Tagged c.requestText

/-- An absent key is fine; a given one is not blank and at most 128 code units. -/
def idempotencyKeyValid : Option String → Bool
  | none => true
  | some key => JsText.trim key.toList ≠ [] ∧ (Json.codeUnits key).length ≤ MAX_IDEMPOTENCY_KEY_LENGTH

theorem get?_requestBody :
    (Json.sortKeys c.requestBody).get? "successorProofId" = some (orNull c.input.successorProofId) := by
  unfold RenewCall.requestBody
  rw [Json.get?_sortKeys (by simp) (by decide)]
  simp [Json.get?, List.lookup_cons]

end

/-- The request text carries the successor asked for. -/
theorem target_of_requestText {c c' : RenewCall} (h : c.requestText = c'.requestText) : c.target = c'.target := by
  have hmember := congrArg (fun j => j.get? "successorProofId") (Json.stringify_inj h)
  simp only [get?_requestBody] at hmember
  unfold RenewCall.target
  rw [orNull_inj (Option.some.inj hmember)]

end EarnProof.Proofs
