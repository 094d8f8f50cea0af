/-
  EarnProof.Audit.LegalHolds — legal holds on audit records: which records a hold protects
  and when (`src/audit/legal-holds/legal-hold-scope.ts`), and the decisions of
  `audit-legal-hold.service.ts` that create a hold and move it through its states.

  A decision is one conditional update on the hold's revision, so it is modelled as one
  step on the row; the count of holds in effect that a request is checked against is read
  before, and comes in as a parameter. The authority, the reason commitment and the
  columns that record who decided and when are read by nothing and left out.
-/
import EarnProof.Audit.Chain

namespace EarnProof.Audit

open Lib Lib.Calendar Lib.Result

/-! ## Scope -/

inductive AuditLegalHoldScope where
  | organization | platform
  deriving DecidableEq

inductive AuditLegalHoldStatus where
  | pendingApproval | active | releasePending | released | rejected
  deriving DecidableEq

def AuditLegalHoldStatus.text : AuditLegalHoldStatus → String
  | .pendingApproval => "PENDING_APPROVAL"
  | .active => "ACTIVE"
  | .releasePending => "RELEASE_PENDING"
  | .released => "RELEASED"
  | .rejected => "REJECTED"

structure AuditLegalHold where
  id : String
  scope : AuditLegalHoldScope
  organizationId : Option String
  rangeStart : Date
  rangeEnd : Date
  expiresAt : Date
  approvalDeadline : Date
  status : AuditLegalHoldStatus
  revision : Nat
  requestedById : String
  releaseRequestedById : Option String
  deriving DecidableEq

def MAX_HOLDS_IN_EFFECT : Nat := 100

/-- `isHoldInEffect`, and the rows `holdsInEffectWhere` selects. -/
def isHoldInEffect (hold : AuditLegalHold) (now : Date) : Bool :=
  if hold.expiresAt ≤ now then false
  else
    match hold.status with
    | .active | .releasePending => true
    | .pendingApproval => now < hold.approvalDeadline
    | .released | .rejected => false

variable (holds : List AuditLegalHold)

/-- The `where` fragment the sweep adds: it passes the rows no hold protects. -/
def auditLogHoldExclusion (r : AuditLog) : Bool :=
  holds.all fun hold =>
    !((if hold.scope = .organization then
        decide (r.organizationId = hold.organizationId) && r.organizationId.isSome else true) &&
      (decide (hold.rangeStart ≤ r.createdAt) && decide (r.createdAt ≤ hold.rangeEnd)))

def isAuditRecordHeld (r : AuditLog) (holds : List AuditLegalHold) : Bool :=
  holds.any fun hold =>
    decide (hold.rangeStart ≤ r.createdAt) && decide (r.createdAt ≤ hold.rangeEnd) &&
      (decide (hold.scope = .platform) || (r.organizationId.isSome && decide (r.organizationId = hold.organizationId)))

/-- The query and the predicate have one notion of a held record. -/
theorem auditLogHoldExclusion_eq (r : AuditLog) : auditLogHoldExclusion holds r = !isAuditRecordHeld r holds := by
  unfold auditLogHoldExclusion isAuditRecordHeld
  rw [List.not_any_eq_all_not]
  congr 1
  funext hold
  cases hold.scope with
  | organization => simp [Bool.and_comm, Bool.and_left_comm]
  | platform => simp

/-! ## Decisions -/

inductive HoldFailure where
  | badRequest (message : String)
  | notFound (message : String)
  | conflict (message : String)
  | forbidden (message : String)
  deriving DecidableEq

structure CreateAuditLegalHoldDto where
  scope : AuditLegalHoldScope
  organizationId : Option String
  rangeStart : Date
  rangeEnd : Date
  expiresAt : Date
  deriving DecidableEq

def MAX_HOLD_DAYS : Int := 730

def MAX_HOLD_RANGE_DAYS : Int := 3650

def HOLD_APPROVAL_WINDOW_MS : Int := 72 * 60 * 60 * 1000

def validateRequest (organizations : List String) (dto : CreateAuditLegalHoldDto) (now : Date) :
    Except HoldFailure Unit := do
  require (¬ (dto.scope = .organization ∧ dto.organizationId.all (· = "")))
    (.badRequest "organizationId is required for an ORGANIZATION hold.")
  require (¬ (dto.scope = .platform ∧ dto.organizationId.isSome))
    (.badRequest "organizationId must be omitted for a PLATFORM hold.")
  require (dto.rangeStart ≤ dto.rangeEnd) (.badRequest "rangeStart must not be after rangeEnd.")
  require (dto.rangeEnd.ms - dto.rangeStart.ms ≤ MAX_HOLD_RANGE_DAYS * dayMs)
    (.badRequest "A hold may cover at most 3650 days of records.")
  require (now < dto.expiresAt) (.badRequest "expiresAt must be in the future.")
  require (dto.expiresAt.ms ≤ now.ms + MAX_HOLD_DAYS * dayMs)
    (.badRequest "expiresAt may be at most 730 days ahead; renew with a new hold.")
  require (¬ (dto.scope = .organization ∧ dto.organizationId.all (· ∉ organizations)))
    (.notFound ("Organization " ++ dto.organizationId.getD "" ++ " not found"))

/-- `request`: the row it creates. -/
def request (organizations : List String) (inEffect : Nat) (id userId : String)
    (dto : CreateAuditLegalHoldDto) (now : Date) : Except HoldFailure AuditLegalHold := do
  validateRequest organizations dto now
  require (inEffect < MAX_HOLDS_IN_EFFECT)
    (.conflict "At most 100 legal holds may be in effect; release or let one expire first.")
  pure
    { id
      scope := dto.scope
      organizationId := if dto.scope = .organization then dto.organizationId else none
      rangeStart := dto.rangeStart
      rangeEnd := dto.rangeEnd
      expiresAt := dto.expiresAt
      approvalDeadline := ⟨min (now.ms + HOLD_APPROVAL_WINDOW_MS) dto.expiresAt.ms,
        le_min (by have := now.lower; unfold HOLD_APPROVAL_WINDOW_MS; omega) dto.expiresAt.lower,
        min_le_of_right_le dto.expiresAt.upper⟩
      status := .pendingApproval
      revision := 0
      requestedById := userId
      releaseRequestedById := none }

def staleRevision (expected : Nat) (actual : Nat) : HoldFailure :=
  .conflict ("Stale decision: expected revision " ++ toString expected ++ " but the hold is at revision " ++
    toString actual ++ ". Re-read the hold and retry.")

inductive HoldAction where
  | approve | reject | requestRelease | approveRelease
  deriving DecidableEq

/-- The status an action starts from. -/
def HoldAction.source : HoldAction → AuditLegalHoldStatus
  | .approve | .reject => .pendingApproval
  | .requestRelease => .active
  | .approveRelease => .releasePending

/-- What the action's callback checks and writes. -/
def HoldAction.decision (action : HoldAction) (userId : String) (hold : AuditLegalHold) (now : Date) :
    Except HoldFailure AuditLegalHold :=
  match action with
  | .approve => do
    require (hold.requestedById ≠ userId) (.forbidden "A legal hold cannot be approved by its requester.")
    require (isHoldInEffect hold now = true)
      (.conflict "The hold's approval deadline or expiry has passed; request a new hold.")
    pure { hold with status := .active }
  | .reject => do
    require (hold.requestedById ≠ userId) (.forbidden "A legal hold cannot be rejected by its requester.")
    pure { hold with status := .rejected }
  | .requestRelease => do
    require (isHoldInEffect hold now = true) (.conflict "The hold has already expired; there is nothing to release.")
    pure { hold with status := .releasePending, releaseRequestedById := some userId }
  | .approveRelease => do
    require (hold.releaseRequestedById ≠ some userId)
      (.forbidden "A release must be approved by a different administrator than the one who requested it.")
    require (isHoldInEffect hold now = true) (.conflict "The hold has already expired; there is nothing to release.")
    pure { hold with status := .released }

def transition (userId id : String) (expectedRevision : Nat) (action : HoldAction) (now : Date) :
    Except HoldFailure (List AuditLegalHold) := do
  let hold ← orThrow (holds.find? (·.id = id)) (.notFound ("Legal hold " ++ id ++ " not found"))
  require (hold.revision = expectedRevision) (staleRevision expectedRevision hold.revision)
  require (hold.status = action.source)
    (.conflict ("Legal hold is " ++ hold.status.text ++ "; this action requires " ++ action.source.text ++ "."))
  let decided ← action.decision userId hold now
  pure (Table.update (fun h => decide (h.id = id ∧ h.status = action.source ∧ h.revision = expectedRevision))
    (fun h => { h with
      status := decided.status
      releaseRequestedById := decided.releaseRequestedById
      revision := h.revision + 1 }) holds)

end EarnProof.Audit
