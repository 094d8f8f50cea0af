/-
  EarnProof.Lifecycle.System — the calls and jobs that act on stored proofs, running
  side by side: `renewProof` and `revokeProof` requests of `src/proofs/proofs.service.ts`, the
  expiration, anchoring and propagation reconcilers, and the anchoring worker of `src/jobs`.

  A write is a function on the store it commits to. Which rows it picks is decided
  there and then, by its `where`; what it was given may come from an older read.

  A process is one call, or one job on one row (a batch is several processes that read
  together). Between two of its accesses to the database or to the contract it holds
  what it read, and any other process may act: `advance` makes one access, with all the
  code up to the next one. A transaction is one access. Relations that a query loads
  (`supersededBy`) are read after the row itself.

  The contract is not in the repository. `ChainState.call` is what it accepts: a
  registration of an unknown proof and a revocation of a registered one. A call that is
  reported to have failed may have reached it (the command line tool is killed after two
  minutes); one reported to have succeeded has. What a status read returns is left open.
-/
import EarnProof.Proofs.RenewalPolicy
import EarnProof.Proofs.RoundTrip
import EarnProof.Lib.Run

namespace EarnProof.Lifecycle

open Lib Lib.Calendar Lib.Result Database Common.Crypto Proofs

/-- `proof.updateMany`. -/
def updateProofs (db : Db) (sel : Proof → Bool) (data : Proof → Proof) : Db :=
  { db with proofs := Table.update sel data db.proofs }

/-- `proof.updateMany` followed by `if (count !== 1) throw`. -/
def updateOne (db : Db) (sel : Proof → Bool) (data : Proof → Proof) (failure : Failure) : Except Failure Db := do
  require (db.proofs.countP sel = 1) failure
  pure (updateProofs db sel data)

def hasId (id : String) (p : Proof) : Bool := p.id = id

@[simp] theorem hasId_iff {id : String} {p : Proof} : hasId id p ↔ p.id = id := decide_eq_true_iff

structure IntentKey where
  proofId : String
  operation : AnchoringOperation
  deriving DecidableEq

def AnchoringIntent.key (i : AnchoringIntent) : IntentKey := ⟨i.proofId, i.operation⟩

variable (E : Env) (db : Db)

/-- `anchoringIntent.update({ where: { id } })`. -/
def updateIntent (k : IntentKey) (data : AnchoringIntent → AnchoringIntent) : Db :=
  { db with anchoringIntents := Table.update (fun i => AnchoringIntent.key i = k) data db.anchoringIntents }

def setStatus (s : AnchoringStatus) (i : AnchoringIntent) : AnchoringIntent := { i with status := s }

/-! ## Renewal -/

variable (predecessorId : String) (c : RenewCall) (predecessor : Proof) (now : Date)

/-- The `where` of `claimPredecessor`. -/
def claimable (p : Proof) : Bool :=
  p.id = predecessor.id ∧ p.userId = predecessor.userId ∧ p.supersededAt = none ∧
    p.status ≠ .revoked ∧ p.status ≠ .invalid

def markSuperseded (p : Proof) : Proof := { p with supersededAt := some now }

def claimPredecessor : Except Failure Db :=
  updateOne db (claimable predecessor) (markSuperseded now)
    (.conflict .conflict "Proof was renewed or changed concurrently")

/-- The `where` of the attaching update. -/
def attachable (userId successorId : String) (p : Proof) : Bool :=
  p.id = successorId ∧ p.userId = userId ∧ p.status = .active ∧ p.supersedesId = none ∧ p.supersededAt = none

def attach (requestHash : String) (p : Proof) : Proof :=
  { p with supersedesId := some predecessorId, renewalRequestHash := some requestHash }

/-- No row supersedes this proof yet, as the unique index on `supersedesId` demands of a new link. -/
def unlinked : Prop := db.proofs.all fun p => p.supersedesId ≠ some predecessorId
  deriving Decidable

def linkSuccessor (successor : Proof) (now : Date) : Except Failure Db := do
  let db ← claimPredecessor db predecessor now
  let linked ← updateOne db (attachable c.user.id successor.id) (attach predecessor.id c.requestHash)
    (.conflict .conflict "Successor proof changed during renewal")
  require (unlinked db predecessor.id) (.uniqueViolation ["supersedesId"])
  pure linked

structure Successor where
  id : String
  now : Date
  expiresAt : Date
  walletHash : String
  claim : ProofClaim
  deriving DecidableEq

/-- The row `issueSuccessor` inserts: the predecessor's claim under a new validity window. -/
def successorRow (s : Successor) : Proof :=
  let credential := E.reader.rebuildCredential s.walletHash
    { predecessor with id := s.id, createdAt := s.now, expiresAt := s.expiresAt } s.claim
  { id := s.id
    userId := c.user.id
    proofType := predecessor.proofType
    schemaVersion := predecessor.schemaVersion
    status := .active
    network := predecessor.network
    assetCode := predecessor.assetCode
    assetIssuer := predecessor.assetIssuer
    periodStart := predecessor.periodStart
    periodEnd := predecessor.periodEnd
    expiresAt := s.expiresAt
    commitment := some (sha256Tagged (credentialHash credential))
    credentialHash := credentialHash credential
    supersedesId := some predecessor.id
    renewalRequestHash := some c.requestHash
    createdAt := s.now
    claim := some s.claim }

def issueSuccessor (s : Successor) : Except Failure Db := do
  let db ← claimPredecessor db predecessor s.now
  require (unlinked db predecessor.id) (.uniqueViolation ["supersedesId"])
  let db ← insertProof db (successorRow E c predecessor s)
  enqueueRegister E db s.id

/-! ## Revocation -/

structure Revocation where
  revokedAt : Date
  revokedByType : RevocationActorType
  revokedById : String
  reasonCode : RevocationReasonCode
  reasonPrivate : Option String
  evidenceHash : Option String
  deriving DecidableEq

def revoked (r : Revocation) (p : Proof) : Proof :=
  { p with
    status := .revoked
    revokedAt := some r.revokedAt
    revokedByType := some r.revokedByType
    revokedById := some r.revokedById
    revocationReasonCode := some r.reasonCode
    revocationReasonPrivate := r.reasonPrivate
    revocationEvidenceHash := r.evidenceHash }

/-- `tx.auditLog.create`: the transaction client stores the column defaults, so the second
    such row collides with the first on `(chainKey, sequence)`. -/
def insertDefaultAudit : Except Failure Db := do
  require (db.auditDefaultRow = false) (.uniqueViolation ["chainKey", "sequence"])
  pure { db with auditDefaultRow := true }

/-- The transaction of `revokeProof`, on the row as it was read. -/
def revokeProof (read : Proof) (r : Revocation) : Except Failure Db := do
  require (db.proofs.any (hasId read.id)) (.thrown "P2025")
  let db ← insertDefaultAudit (updateProofs db (hasId read.id) (revoked r))
  if E.anchoringEnabled ∧ anchored read then insertIntent db read.id .revoke .pending else pure db

/-! ## Reconcilers -/

def EXPIRATION_BATCH_SIZE : Nat := 100

/-- The proofs one batch of the expiration reconciler picks: `ACTIVE`, past expiry, oldest first. -/
def expiredIds : List String :=
  let due := db.proofs.filter fun p => p.status = .active ∧ p.expiresAt ≤ now
  ((due.insertionSort fun a b => a.expiresAt ≤ b.expiresAt).take EXPIRATION_BATCH_SIZE).map Proof.id

def expire (ids : List String) : Db :=
  updateProofs db (fun p => p.id ∈ ids ∧ p.status = .active) fun p => { p with status := .expired }

/-- The repair of a locally active proof that the contract shows revoked. -/
def autoRepair (id : String) (now : Date) : Db :=
  updateProofs db (hasId id) fun p => { p with status := .revoked, revokedAt := some now }

/-- `enqueueRevoke`, once it has read whether a `REVOKE` intent exists and in which status. -/
def enqueueRevoke (proofId : String) : Option AnchoringStatus → Except Failure Db
  | none => insertIntent db proofId .revoke .pending
  | some .pending => .ok db
  | some .processing => .ok db
  | some _ => .ok (updateIntent db ⟨proofId, .revoke⟩ (setStatus .pending))

/-- `flagForManualReview`: an existing `REGISTER` intent makes it stop or fail, whatever its status. -/
def flagForManualReview (proofId : String) : Except Failure Db :=
  insertIntent db proofId .register .quarantined

def confirmPropagation (id : String) (now : Date) : Db :=
  updateProofs db (hasId id) fun p => { p with revocationPropagationConfirmedAt := some now }

/-! ## The anchoring worker -/

def MAX_ATTEMPTS : Nat := 10

def attempted (s : AnchoringStatus) (attemptCount : Nat) (i : AnchoringIntent) : AnchoringIntent :=
  { i with status := s, attemptCount }

inductive Report where
  /-- The last line the command line tool printed. -/
  | anchored (output : String)
  | circuitOpen
  | failed (permanent : Bool)
  deriving DecidableEq

/-- The part of the output before a colon, stored as the transaction hash. -/
def transactionHashOf (output : String) : String := String.ofList ((JsText.splitOn ':' output.toList).headD [])

/-- The write that ends `executeIntent`, by what the contract call reported. -/
def settleIntent (k : IntentKey) (attemptCount : Nat) : Report → Db
  | .anchored output =>
    updateProofs (updateIntent db k (attempted .confirmed (attemptCount + 1))) (hasId k.proofId)
      fun p => { p with contractTransactionHash := some (transactionHashOf output) }
  | .circuitOpen => updateIntent db k (setStatus .pending)
  | .failed permanent =>
    updateIntent db k (attempted (if permanent ∨ MAX_ATTEMPTS ≤ attemptCount + 1 then .quarantined else .pending)
      (attemptCount + 1))

/-! ## What each transaction can do -/

variable {db db' : Db} {c : RenewCall}

theorem updateOne_eq_ok {sel : Proof → Bool} {data : Proof → Proof} {failure : Failure}
    (h : updateOne db sel data failure = .ok db') :
    (∃ p ∈ db.proofs, sel p) ∧ db' = updateProofs db sel data := by
  obtain ⟨_, hone, h⟩ := bind_eq_ok.mp h
  have hpos : 0 < db.proofs.countP sel := by have := require_eq_ok.mp hone; omega
  exact ⟨List.countP_pos_iff.mp hpos, (pure_eq_ok.mp h).symm⟩

variable {predecessor : Proof}

theorem linkSuccessor_eq_ok {successor : Proof} {now : Date}
    (h : linkSuccessor db c predecessor successor now = .ok db') :
    (∃ p ∈ db.proofs, claimable predecessor p) ∧
      (∃ p ∈ (updateProofs db (claimable predecessor) (markSuperseded now)).proofs,
        attachable c.user.id successor.id p) ∧
      unlinked (updateProofs db (claimable predecessor) (markSuperseded now)) predecessor.id ∧
      db' = updateProofs (updateProofs db (claimable predecessor) (markSuperseded now))
        (attachable c.user.id successor.id) (attach predecessor.id c.requestHash) := by
  obtain ⟨_, hclaim, h⟩ := bind_eq_ok.mp h
  obtain ⟨hp, rfl⟩ := updateOne_eq_ok hclaim
  obtain ⟨_, hattach, h⟩ := bind_eq_ok.mp h
  obtain ⟨hs, rfl⟩ := updateOne_eq_ok hattach
  obtain ⟨_, hnew, h⟩ := bind_eq_ok.mp h
  exact ⟨hp, hs, require_eq_ok.mp hnew, (pure_eq_ok.mp h).symm⟩

theorem issueSuccessor_eq_ok {E : Env} {s : Successor}
    (h : issueSuccessor E db c predecessor s = .ok db') :
    (∃ p ∈ db.proofs, claimable predecessor p) ∧
      unlinked (updateProofs db (claimable predecessor) (markSuperseded s.now)) predecessor.id ∧
      (∀ p ∈ (updateProofs db (claimable predecessor) (markSuperseded s.now)).proofs, p.id ≠ s.id) ∧
      ∃ intents, db' = { db with
        proofs := Table.update (claimable predecessor) (markSuperseded s.now) db.proofs ++
          [successorRow E c predecessor s]
        anchoringIntents := intents } := by
  obtain ⟨_, hclaim, h⟩ := bind_eq_ok.mp h
  obtain ⟨hp, rfl⟩ := updateOne_eq_ok hclaim
  obtain ⟨_, hnew, h⟩ := bind_eq_ok.mp h
  obtain ⟨_, hrow, h⟩ := bind_eq_ok.mp h
  obtain ⟨hid, -, rfl⟩ := insertProof_eq_ok hrow
  obtain ⟨intents, rfl⟩ := enqueueRegister_eq_ok h
  exact ⟨hp, require_eq_ok.mp hnew, hid, intents, rfl⟩

/-! ## The contract -/

inductive ChainState where
  | unregistered | registered | revoked
  deriving DecidableEq

/-- The state after an accepted call; `none` where the contract refuses it. -/
def ChainState.call : AnchoringOperation → ChainState → Option ChainState
  | .register, .unregistered => some .registered
  | .revoke, .registered => some .revoked
  | _, _ => none

/-- What the platform supplies to one access: the clock, a random id, and how the outside
    answered. -/
structure Tick where
  now : Date
  uuid : String
  /-- Whether the contract call reached the contract, and what came back of it. -/
  reached : Bool
  report : Report
  /-- The answer of `getProofStatus`. -/
  status : ContractProofStatus
  /-- Whether every webhook delivery of the revocation has succeeded. -/
  delivered : Bool
  deriving DecidableEq

/-! ## Renewal -/

structure Renewal where
  proofId : String
  linked : Bool
  replayed : Bool
  deriving DecidableEq

inductive RenewPc where
  | start
  /-- The predecessor's row is read; whether something supersedes it is read next. -/
  | loaded (predecessor : Proof) (walletHash : String)
  | linking (predecessor : Proof) (now : Date)
  | candidate (predecessor successor : Proof) (now : Date)
  | walking (predecessor successor : Proof) (now : Date) (reasons : List SupersessionIncompatibility)
      (current : String) (seen : List String)
  | attaching (predecessor successor : Proof) (now : Date)
  | issuing (predecessor : Proof) (successor : Successor)
  | replaying
  | done (answer : Except Failure Renewal)
  deriving DecidableEq

def joinReasons (reasons : List String) : String := String.intercalate "," reasons

def ineligible (reasons : List RenewalIneligibility) : Failure :=
  .unprocessable .invalidInput
    ("Proof is not eligible for renewal: " ++ joinReasons (reasons.map RenewalIneligibility.text))

def incompatible (reasons : List SupersessionIncompatibility) : Failure :=
  .unprocessable .invalidInput
    ("Successor proof is incompatible: " ++ joinReasons (reasons.map SupersessionIncompatibility.text))

def alreadySuperseded : Failure := .conflict .conflict "Proof has already been superseded"

/-- The errors that count as a lost race. -/
def lostRace : Failure → Bool
  | .conflict _ _ => true
  | .uniqueViolation _ => true
  | _ => false

variable (E : Env) (db : Db) (t : Tick)

/-- The end of a renewal's transaction: the answer, the replay after a lost race, or the error. -/
def RenewPc.settle (answer : Renewal) : Except Failure Db → Db × RenewPc
  | .ok db' => (db', .done (.ok answer))
  | .error e => (db, if lostRace e then .replaying else .done (.error e))

/-- The head of the loop of `wouldCreateCycle`, which also ends it. -/
def RenewPc.walk (predecessor successor : Proof) (now : Date) (reasons : List SupersessionIncompatibility)
    (seen : List String) (current : Option String) : RenewPc :=
  match current.filter (· ≠ "") with
  | some id => .walking predecessor successor now reasons id seen
  | none => if reasons = [] then .attaching predecessor successor now else .done (.error (incompatible reasons))

/-- `renewProof`, one access at a time. -/
def advanceRenewal (c : RenewCall) (db : Db) (t : Tick) : RenewPc → Db × RenewPc
  | .start =>
    if idempotencyKeyValid c.idempotencyKey = false then
      (db, .done (.error (.badRequest (some .invalidInput) "Idempotency-Key must be 1-128 characters")))
    else
      match db.proof? c.proofId with
      | none => (db, .done (.error (.notFound .notFound "Proof not found")))
      | some p =>
        if p.userId ≠ c.user.id then (db, .done (.error (.forbidden "Proof does not belong to this user")))
        else match db.user? p.userId with
          | none => (db, .done (.error (.thrown "PrismaClientUnknownRequestError")))
          | some owner => (db, .loaded p owner.walletHash)
  | .loaded p walletHash =>
    if (db.supersededBy p.id).isSome then (db, .replaying)
    else if evaluateRenewalEligibility p t.now false ≠ [] then
      (db, .done (.error (ineligible (evaluateRenewalEligibility p t.now false))))
    else if c.target ≠ none then (db, .linking p t.now)
    else match p.claim, expiryDate t.now c.input.expiresInDays with
      | none, _ => (db, .done (.error (ineligible [.invalid])))
      | some _, none => (db, .done (.error (.thrown "RangeError: Invalid time value")))
      | some claim, some expiresAt => (db, .issuing p ⟨t.uuid, t.now, expiresAt, walletHash, claim⟩)
  | .linking p now =>
    match db.proofs.find? fun q => some q.id = c.target ∧ q.userId = c.user.id with
    | none => (db, .done (.error (.notFound .notFound "Successor proof not found")))
    | some q =>
      if q.claim = none then (db, .done (.error (.notFound .notFound "Successor proof not found")))
      else (db, .candidate p q now)
  | .candidate p q now =>
    let reasons := evaluateSupersessionCompatibility p q now (db.supersededBy q.id).isSome
    if .sameProof ∈ reasons then (db, .done (.error (incompatible reasons)))
    else (db, .walk p q now reasons [] (some p.id))
  | .walking p q now reasons current seen =>
    if cycleFound q.id current seen then (db, .done (.error (incompatible (reasons ++ [.cycle]))))
    else (db, .walk p q now reasons (current :: seen) ((db.proof? current).bind Proof.supersedesId))
  | .attaching p q now => RenewPc.settle db ⟨q.id, true, false⟩ (linkSuccessor db c p q now)
  | .issuing p s => RenewPc.settle db ⟨s.id, false, false⟩ (issueSuccessor E db c p s)
  | .replaying =>
    match db.supersededBy c.proofId with
    | none => (db, .done (.error alreadySuperseded))
    | some q =>
      if q.claim = none ∨ q.renewalRequestHash ≠ some c.requestHash then (db, .done (.error alreadySuperseded))
      else (db, .done (.ok ⟨q.id, c.target ≠ none, true⟩))
  | .done answer => (db, .done answer)

/-! ## Revocation -/

structure RevokeCall where
  userId : String
  isAdmin : Bool
  proofId : String
  reasonCode : Option RevocationReasonCode
  reasonPrivate : Option String
  evidenceHash : Option String
  deriving DecidableEq

inductive RevokePc where
  | start
  | read (proof : Proof)
  | done (answer : Except Failure (Option Proof))
  deriving DecidableEq

def RevokeCall.revocation (c : RevokeCall) (p : Proof) (now : Date) : Revocation where
  revokedAt := now
  revokedByType := if c.isAdmin ∧ p.userId ≠ c.userId then .admin else .owner
  revokedById := c.userId
  reasonCode := c.reasonCode.getD .ownerRequested
  reasonPrivate := c.reasonPrivate
  evidenceHash := c.evidenceHash

/-- `revokeProof`: the read with its checks, then the transaction. -/
def advanceRevocation (c : RevokeCall) (db : Db) (t : Tick) : RevokePc → Db × RevokePc
  | .start =>
    match db.proof? c.proofId with
    | none => (db, .done (.error (.notFound .notFound "Proof not found")))
    | some p =>
      if p.userId ≠ c.userId ∧ c.isAdmin = false then
        (db, .done (.error (.forbidden "Proof does not belong to this user")))
      else if p.status = .revoked then (db, .done (.ok (some p)))
      else (db, .read p)
  | .read p =>
    match revokeProof E db p (c.revocation p t.now) with
    | .ok db' => (db', .done (.ok (db'.proof? p.id)))
    | .error e => (db, .done (.error e))
  | .done answer => (db, .done answer)

/-! ## Reconcilers -/

inductive ExpirePc where
  | start
  | picked (ids : List String)
  | done
  deriving DecidableEq

def ExpirePc.advance : ExpirePc → Db × ExpirePc
  | .start => (db, .picked (expiredIds db t.now))
  | .picked ids => (expire db ids, .done)
  | .done => (db, .done)

inductive ReconcilePc where
  | start (proofId : String)
  | read (proof : Proof)
  | repairing (proof : Proof)
  | flagging (proof : Proof)
  | requeueing (proof : Proof)
  | enqueueing (proof : Proof) (existing : Option AnchoringStatus)
  | done
  deriving DecidableEq

/-- `reconcileProof` of the anchoring reconciler. The repair and the requeueing of
    `proof-reconciliation.service.ts` are the same. -/
def ReconcilePc.advance : ReconcilePc → Db × ReconcilePc
  | .start id =>
    match db.proof? id with
    | none => (db, .done)
    | some p =>
      if E.anchoringEnabled ∧ anchored p ∧ (p.status = .active ∨ p.status = .revoked) then (db, .read p)
      else (db, .done)
  | .read p =>
    match t.status with
    | .unchecked => (db, .done)
    | .checked onChainRevoked valid =>
      if p.status = .active then
        if onChainRevoked then (db, .repairing p) else if valid then (db, .done) else (db, .flagging p)
      else if onChainRevoked then (db, .done) else (db, .requeueing p)
  | .repairing p => (autoRepair db p.id t.now, .done)
  | .flagging p => (commit db (flagForManualReview db p.id), .done)
  | .requeueing p => (db, .enqueueing p ((db.intent? p.id .revoke).map AnchoringIntent.status))
  | .enqueueing p existing => (commit db (enqueueRevoke db p.id existing), .done)
  | .done => (db, .done)

inductive PropagatePc where
  | start (proofId : String)
  | read (proof : Proof)
  | checked (proof : Proof) (anchoring : Bool)
  | confirming (proof : Proof)
  | done
  deriving DecidableEq

/-- `checkAnchoringChannel`. -/
def anchoringConfirmed (p : Proof) : Bool :=
  E.anchoringEnabled = false ∨ anchored p = false ∨
    (db.intent? p.id .revoke).map AnchoringIntent.status = some .confirmed

def PropagatePc.advance : PropagatePc → Db × PropagatePc
  | .start id =>
    match db.proof? id with
    | none => (db, .done)
    | some p => if p.status = .revoked ∧ p.revocationPropagationConfirmedAt = none then (db, .read p) else (db, .done)
  | .read p => (db, .checked p (anchoringConfirmed E db p))
  | .checked p anchoring => (db, if anchoring ∧ t.delivered then .confirming p else .done)
  | .confirming p => (confirmPropagation db p.id t.now, .done)
  | .done => (db, .done)

/-! ## The worker -/

inductive WorkPc where
  | start (key : IntentKey)
  | claimed (key : IntentKey)
  | calling (key : IntentKey) (attemptCount : Nat)
  | reporting (key : IntentKey) (attemptCount : Nat) (report : Report)
  | done
  deriving DecidableEq

/-- The contract after a call, and `none` where nothing could have reported so. -/
def contractCall (op : AnchoringOperation) (s : ChainState) (t : Tick) : Option ChainState :=
  match t.report with
  | .anchored _ => if t.reached then s.call op else none
  | .circuitOpen => if t.reached then none else some s
  | .failed _ => some (if t.reached then (s.call op).getD s else s)

/-- `processBatch` and `executeIntent` on one intent. No other intent has its proof and
    operation, so the check for one already confirmed finds none. -/
def WorkPc.advance (chain : String → ChainState) (t : Tick) : WorkPc → Option (Db × (String → ChainState) × WorkPc)
  | .start k =>
    if E.anchoringEnabled ∧ (db.intent? k.proofId k.operation).map AnchoringIntent.status = some .pending then
      some (updateIntent db k (setStatus .processing), chain, .claimed k)
    else some (db, chain, .done)
  | .claimed k =>
    match db.intent? k.proofId k.operation with
    | none => some (db, chain, .done)
    | some i => some (db, chain, .calling k i.attemptCount)
  | .calling k n =>
    (contractCall k.operation (chain k.proofId) t).map fun s =>
      (db, Function.update chain k.proofId s, .reporting k n t.report)
  | .reporting k n report => some (settleIntent db k n report, chain, .done)
  | .done => some (db, chain, .done)

/-! ## The system -/

inductive Proc where
  | idle
  | renew (call : RenewCall) (pc : RenewPc)
  | revoke (call : RevokeCall) (pc : RevokePc)
  | expire (pc : ExpirePc)
  | reconcile (pc : ReconcilePc)
  | propagate (pc : PropagatePc)
  | work (pc : WorkPc)
  deriving DecidableEq

def Proc.starts : Proc → Bool
  | .renew _ .start => true
  | .revoke _ .start => true
  | .expire .start => true
  | .reconcile (.start _) => true
  | .propagate (.start _) => true
  | .work (.start _) => true
  | _ => false

structure World where
  db : Db
  chain : String → ChainState
  procs : Nat → Proc

/-- No proof stored, nothing on chain, nothing running. -/
def World.empty (tables : Db) : World where
  db := { tables with proofs := [], anchoringIntents := [] }
  chain := fun _ => .unregistered
  procs := fun _ => .idle

def Proc.advance (chain : String → ChainState) (t : Tick) : Proc → Option (Db × (String → ChainState) × Proc)
  | .idle => none
  | .renew c pc => some ((advanceRenewal E c db t pc).1, chain, .renew c (advanceRenewal E c db t pc).2)
  | .revoke c pc => some ((advanceRevocation E c db t pc).1, chain, .revoke c (advanceRevocation E c db t pc).2)
  | .expire pc => some ((pc.advance db t).1, chain, .expire (pc.advance db t).2)
  | .reconcile pc => some ((pc.advance E db t).1, chain, .reconcile (pc.advance E db t).2)
  | .propagate pc => some ((pc.advance E db t).1, chain, .propagate (pc.advance E db t).2)
  | .work pc => (pc.advance E db chain t).map fun r => (r.1, r.2.1, .work r.2.2)

inductive Ev where
  /-- A `create…Proof` call commits this row. -/
  | issue (row : Proof)
  /-- The rest of the application writes the other tables. -/
  | elsewhere (tables : Db)
  | spawn (pid : Nat) (p : Proc)
  | adv (pid : Nat) (t : Tick)
  /-- `resetStaleProcessing` gives an intent that was claimed long ago back to the queue. -/
  | resetStale (key : IntentKey)

def step (w : World) : Ev → Option World
  | .issue row =>
    if FreshRow row then
      match issueProof E w.db row with
      | .ok db => some { w with db }
      | .error _ => none
    else none
  | .elsewhere tables =>
    some { w with db := { tables with proofs := w.db.proofs, anchoringIntents := w.db.anchoringIntents } }
  | .spawn pid p =>
    if p.starts ∧ w.procs pid = .idle then some { w with procs := Function.update w.procs pid p } else none
  | .adv pid t =>
    ((w.procs pid).advance E w.db w.chain t).map fun r => ⟨r.1, r.2.1, Function.update w.procs pid r.2.2⟩
  | .resetStale k =>
    if (w.db.intent? k.proofId k.operation).map AnchoringIntent.status = some .processing then
      some { w with db := updateIntent w.db k (setStatus .pending) }
    else none

/-! ## A deployment to run examples on -/

def liveEnv : Env := testnetEnv

def liveTables : Db where
  users := [⟨"user-1", "GOWNER", "sha256:owner"⟩]

def moment (n : Fin 1000) : Date := ⟨1700000000000 + n, by omega, by omega⟩

/-- An issued minimum-income proof, valid for thirty days. -/
def liveRow (id : String) : Proof where
  id
  userId := "user-1"
  proofType := .minimumIncome
  schemaVersion := SCHEMA_VERSION
  status := .active
  network := "testnet"
  assetCode := "XLM"
  assetIssuer := none
  periodStart := some ⟨1690000000000, by decide, by decide⟩
  periodEnd := some ⟨1699000000000, by decide, by decide⟩
  expiresAt := ⟨1702592000000, by decide, by decide⟩
  commitment := some id
  credentialHash := id
  createdAt := moment 0
  claim := some ⟨"gte", some "redacted:MTAw", none, true, .obj [("exactIncomeHidden", .bool true)]⟩

def tickAt (n : Fin 1000) : Tick := ⟨moment n, "", false, .failed false, .unchecked, true⟩

/-- A worker that takes one intent through to a successful call and records it. -/
def workThrough (pid : Nat) (key : IntentKey) (output : String) (n : Fin 1000) : List Ev :=
  [.spawn pid (.work (.start key)), .adv pid (tickAt n), .adv pid (tickAt n),
    .adv pid { tickAt n with reached := true, report := .anchored output }, .adv pid (tickAt n)]

def linkCall (predecessor successor : String) : RenewCall :=
  ⟨⟨"user-1", "GOWNER", "sha256:owner"⟩, predecessor, ⟨some successor, none⟩, none⟩

def accesses (pid n : Nat) : List Ev := List.replicate n (.adv pid (tickAt 5))

/-! ## Issuance -/

/-- Whatever an accepted `create…Proof` call commits, of any kind, is the insertion of a fresh row
    next to a change of tables the lifecycle does not read: two events from the state its
    transaction ran in. -/
theorem run_of_create {E : Env} {v : View} {proofId : String} {user : AuthenticatedUser} {request : Request}
    {issued : Issued} (h : create E v proofId user request = .ok issued) (w : World)
    (hdb : v.db (commitAccess request) = w.db) : Run (step E) anyStep w { w with db := issued.db } := by
  obtain ⟨_, _, _, quota, settlements, -, -, -, -, hissue⟩ := create_drafts h
  rw [hdb] at hissue
  let tables : Db := { w.db with quotaUsage := quota, invoiceSettlements := settlements }
  have hother : step E w (.elsewhere tables) = some { w with db := tables } := rfl
  have hrow : step E { w with db := tables } (.issue issued.proof) = some { w with db := issued.db } := by
    simp only [step]
    rw [if_pos (create_rebuilds h).fresh, hissue]
  exact (Run.snoc (.elsewhere tables) .refl trivial hother).snoc (.issue issued.proof) trivial hrow

theorem run_of_create_receipt : ∃ issued, create sampleEnv sampleView "proof-1" sampleUser sampleReceipt = .ok issued ∧
    Run (step sampleEnv) anyStep (.empty sampleDb) { World.empty sampleDb with db := issued.db } := by
  have hok : (create sampleEnv sampleView "proof-1" sampleUser sampleReceipt).map (fun _ => ()) = .ok () := by
    decide +kernel
  obtain ⟨issued, h, -⟩ := map_eq_ok.mp hok
  exact ⟨issued, h, run_of_create h _ rfl⟩

end EarnProof.Lifecycle
