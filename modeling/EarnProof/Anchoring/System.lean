/-
  EarnProof.Anchoring.System — the `AnchoringIntent` rows and everything that writes them:
  the worker (`src/jobs/anchoring-worker.service.ts`), the operator's redrive and abandonment
  (`src/proofs/proofs.service.ts`) and the reconciler (`src/jobs/anchoring-reconciler.service.ts`).

  Each process makes one access to the database or to the contract at a time and may
  crash between any two; what it read stays in its hands meanwhile. A batch is claimed in
  one statement, its intents are then worked through one after the other, and a contract
  call may take as long as it likes. An outcome that cannot be written ends the cycle,
  unless the `catch` of `executeIntent` is still ahead. The reconciler is followed where it
  touches intents: the on-chain answer and the proof it read decide between doing nothing,
  flagging for review and re-queueing the revocation.

  Instants are milliseconds. Of a row, the times and names that are only shown to the
  operator are left out; the redaction of error texts is a parameter. `calls` counts the
  contract invocations made for an intent, and `marks` the count at its last redrive; both are
  ghost state, read by nothing.
-/
import EarnProof.Lib.Run
import EarnProof.Lib.Table
import EarnProof.Proofs.Issuance
import Mathlib.Logic.Function.Basic

namespace EarnProof.Anchoring

open Lib Lib.Result Database Proofs

/-! ## Rows -/

inductive QuarantineReasonCode where
  | poisonInput | chainRejected | maxAttemptsExceeded | manualReview
  deriving DecidableEq

inductive QuarantineDecision where
  | pending | redriven | abandoned
  deriving DecidableEq

structure Intent where
  id : String
  proofId : String
  operation : AnchoringOperation
  status : AnchoringStatus := .pending
  attemptCount : Nat := 0
  lastAttemptAt : Option Int := none
  nextRetryAt : Option Int := none
  transactionHash : Option String := none
  ledger : Option String := none
  lastErrorSafe : Option String := none
  permanentError : Bool := false
  quarantineReasonCode : Option QuarantineReasonCode := none
  quarantineDecision : QuarantineDecision := .pending
  createdAt : Int
  deriving DecidableEq

/-- A row with the column defaults. -/
def Intent.fresh (id proofId : String) (operation : AnchoringOperation) (createdAt : Int) : Intent :=
  { id, proofId, operation, createdAt }

variable (intents : List Intent) (E : Env) (now : Int)

/-- `anchoringIntent.update({ where: { id } })`. -/
def updateIntent (id : String) (data : Intent → Intent) : List Intent :=
  Table.update (fun i => decide (i.id = id)) data intents

/-- `anchoringIntent.create`, under the primary key and the index on `(proofId, operation)`. -/
def createIntent (i : Intent) : Option (List Intent) :=
  if intents.any fun o => decide (o.id = i.id ∨ (o.proofId = i.proofId ∧ o.operation = i.operation)) then none
  else some (intents ++ [i])

/-! ## The worker -/

def MAX_ATTEMPTS : Nat := 10

def BACKOFF_BASE_MS : Int := 30000

def BACKOFF_CAP_MS : Int := 60 * 60000

def BATCH_SIZE : Nat := 5

def STALE_PROCESSING_THRESHOLD_MS : Int := 5 * 60000

def POISON_INPUT_PATTERNS : List String := ["proof not found", "invalid contract id", "contract not found"]

def CHAIN_REJECTED_PATTERNS : List String := ["already registered", "already exists", "unauthorized", "access denied"]

variable (attemptCount : Nat) (message : String)

/-- `/pattern/i.test(message)` for a lower-case pattern without special characters. -/
def matchesPattern (pattern : String) : Bool :=
  (message.toList.map Char.toLower).tails.any fun tail => pattern.toList.isPrefixOf tail

def isPoisonInput : Bool := POISON_INPUT_PATTERNS.any (matchesPattern message)

/-- `isPermanentError`, and the same seven patterns in `isPermanentContractError`. -/
def isPermanentError : Bool :=
  (POISON_INPUT_PATTERNS ++ CHAIN_REJECTED_PATTERNS).any (matchesPattern message)

def computeNextRetryAt : Int :=
  now + min (BACKOFF_BASE_MS * 2 ^ (attemptCount - 1)) BACKOFF_CAP_MS

inductive CircuitState where
  | closed | halfOpen | opened
  deriving DecidableEq

def claimPlan (register revoke : CircuitState) : List AnchoringOperation × Nat :=
  let operations := (if register ≠ .opened then [AnchoringOperation.register] else []) ++
    (if revoke ≠ .opened then [AnchoringOperation.revoke] else [])
  if operations = [] then (operations, 0)
  else (operations, if register = .halfOpen ∨ revoke = .halfOpen then 1 else BATCH_SIZE)

/-- A row `resetStaleProcessing` picks. -/
def isStale (i : Intent) : Bool :=
  decide (i.status = .processing) && i.lastAttemptAt.any (· < now - STALE_PROCESSING_THRESHOLD_MS)

def resetStaleProcessing : List Intent :=
  Table.update (isStale now) (fun i => { i with status := .pending, nextRetryAt := some now }) intents

def claimable (operations : List AnchoringOperation) (i : Intent) : Bool :=
  decide (i.status = .pending) && i.nextRetryAt.all (· ≤ now) && operations.contains i.operation

/-- The candidates of the claim, oldest first. -/
def candidates (plan : List AnchoringOperation × Nat) : List String :=
  (((intents.filter (claimable now plan.1)).insertionSort fun a b => a.createdAt ≤ b.createdAt).take plan.2).map
    Intent.id

def claim (ids : List String) : List Intent :=
  Table.update (fun i => ids.contains i.id)
    (fun i => { i with status := .processing, lastAttemptAt := some now }) intents

/-- What `anchorProof` or `revokeProof` of the contract service came to. A failure is reported, or
    thrown when anchoring is required; then the contract need not have been invoked. -/
inductive Outcome where
  | anchored (output : String)
  | circuitOpen
  | disabled
  | failed (message : String) (invoked : Bool)
  deriving DecidableEq

def Outcome.invoked : Outcome → Bool
  | .anchored _ => true
  | .circuitOpen => false
  | .disabled => false
  | .failed _ invoked => invoked

structure Env where
  redact : String → String
  /-- The owner of a stored proof. -/
  owner : String → Option String

/-- The error an outcome is turned into, with the mark of a permanent one. -/
def Outcome.error (operation : AnchoringOperation) : Outcome → String × Bool
  | .failed message _ => (message, false)
  | _ => (if operation = .register then "Anchoring disabled" else "Revocation disabled", true)

/-- The update in the `catch` of `executeIntent`. -/
def recordFailure (explicitlyPermanent : Bool) (i : Intent) : Intent :=
  let poisonInput := isPoisonInput message
  let chainRejected := !poisonInput && (explicitlyPermanent || isPermanentError message)
  if poisonInput || chainRejected || decide (MAX_ATTEMPTS ≤ attemptCount) || isPermanentError message then
    { i with
      status := .quarantined
      attemptCount
      lastAttemptAt := some now
      nextRetryAt := none
      lastErrorSafe := some (E.redact message)
      permanentError := true
      quarantineReasonCode := some (if poisonInput then .poisonInput else if chainRejected then .chainRejected
        else .maxAttemptsExceeded)
      quarantineDecision := .pending }
  else
    { i with
      status := .pending
      attemptCount
      lastAttemptAt := some now
      nextRetryAt := some (computeNextRetryAt now attemptCount)
      lastErrorSafe := some (E.redact message)
      permanentError := false }

/-- The update of the transaction that records a success. -/
def recordSuccess (output : String) (i : Intent) : Intent :=
  let parts := JsText.splitOn ':' output.toList
  { i with
    status := .confirmed
    attemptCount
    lastAttemptAt := some now
    transactionHash := some (String.ofList (parts.headD []))
    ledger := (parts.tail.head?).map String.ofList
    lastErrorSafe := none
    permanentError := false }

/-- The write that ends `executeIntent`, on the row as it is stored now. -/
def settle (read : Intent) (outcome : Outcome) (i : Intent) : Intent :=
  match outcome with
  | .anchored output => recordSuccess now (read.attemptCount + 1) output i
  | .circuitOpen => { i with status := .pending, nextRetryAt := some now }
  | outcome => recordFailure E now (read.attemptCount + 1)
    (outcome.error read.operation).1 (outcome.error read.operation).2 i

structure Tick where
  now : Int
  register : CircuitState
  revoke : CircuitState
  outcome : Outcome
  /-- The error with which the database refuses a write. -/
  writeFails : Option String
  onChain : ContractProofStatus
  deriving DecidableEq

inductive WorkerPc where
  | reset
  | claim
  | loop (queue : List String)
  | check (intent : Intent) (queue : List String)
  | call (intent : Intent) (queue : List String)
  | write (intent : Intent) (outcome : Outcome) (queue : List String)
  deriving DecidableEq

/-- What an access leaves: the rows, the intent a contract call was made for, and where the process
    goes on. -/
structure Access (pc : Type) where
  intents : List Intent
  called : Option String
  next : Option pc

/-- `runCycle`, one access at a time. -/
def WorkerPc.access (t : Tick) (intents : List Intent) : WorkerPc → Access WorkerPc
  | .reset => ⟨resetStaleProcessing intents t.now, none, some .claim⟩
  | .claim =>
    let plan := claimPlan t.register t.revoke
    if plan.2 = 0 then ⟨intents, none, none⟩
    else ⟨Anchoring.claim intents t.now (candidates intents t.now plan), none,
      some (.loop (candidates intents t.now plan))⟩
  | .loop [] => ⟨intents, none, none⟩
  | .loop (id :: queue) =>
    match intents.find? fun i => decide (i.id = id) with
    | none => ⟨intents, none, some (.loop queue)⟩
    | some i => ⟨intents, none, some (.check i queue)⟩
  | .check i queue =>
    match intents.find? fun o =>
        decide (o.proofId = i.proofId ∧ o.operation = i.operation ∧ o.status = .confirmed ∧ o.id ≠ i.id) with
    | none => ⟨intents, none, some (.call i queue)⟩
    | some o =>
      ⟨updateIntent intents i.id fun r => { r with
        status := .confirmed, transactionHash := o.transactionHash, ledger := o.ledger, lastErrorSafe := none },
        none, some (.loop queue)⟩
  | .call i queue => ⟨intents, if t.outcome.invoked then some i.id else none, some (.write i t.outcome queue)⟩
  | .write i outcome queue =>
    match t.writeFails with
    | none => ⟨updateIntent intents i.id (settle E t.now i outcome), none, some (.loop queue)⟩
    | some message =>
      match outcome with
      | .anchored _ | .circuitOpen => ⟨intents, none, some (.write i (.failed message false) queue)⟩
      | .disabled | .failed _ _ => ⟨intents, none, none⟩

/-- The intents a worker has claimed and not yet finished. -/
def WorkerPc.inHand : WorkerPc → List String
  | .reset | .claim => []
  | .loop queue => queue
  | .check i queue | .call i queue | .write i _ queue => i.id :: queue

/-! ## Operator decisions -/

structure OperatorCall where
  userId : String
  isAdmin : Bool
  proofId : String
  intentId : String
  deriving DecidableEq

inductive OperatorFailure where
  | notFound (message : String)
  | unprocessable (message : String)
  deriving DecidableEq

def statusText : AnchoringStatus → String
  | .pending => "PENDING"
  | .processing => "PROCESSING"
  | .confirmed => "CONFIRMED"
  | .failed => "FAILED"
  | .quarantined => "QUARANTINED"

def decisionText : QuarantineDecision → String
  | .pending => "PENDING"
  | .redriven => "REDRIVEN"
  | .abandoned => "ABANDONED"

variable (E : Env) (c : OperatorCall) (i : Intent)

def findDecided (intents : List Intent) (c : OperatorCall) : Except OperatorFailure Intent := do
  require ((E.owner c.proofId).any fun owner => c.isAdmin || decide (owner = c.userId)) (.notFound "Proof not found")
  orThrow (intents.find? fun i => decide (i.id = c.intentId ∧ i.proofId = c.proofId))
    (.notFound "Anchoring intent not found for this proof")

/-- The check of `retryProofAnchoring` on the intent it read. -/
def mayRetry : Except OperatorFailure Unit :=
  require (¬ (i.status ≠ .quarantined ∨ i.quarantineDecision = .abandoned))
    (.unprocessable ("Anchoring intent " ++ c.intentId ++ " is not eligible for retry (status: " ++
      statusText i.status ++ ", quarantineDecision: " ++ decisionText i.quarantineDecision ++ ")"))

def redrive (requeuedAt : Int) (i : Intent) : Intent :=
  { i with
    status := .pending, permanentError := false, nextRetryAt := some requeuedAt, quarantineDecision := .redriven }

/-- The check of `abandonProofAnchoring` on the intent it read. -/
def mayAbandon : Except OperatorFailure Unit :=
  require (i.status = .quarantined)
    (.unprocessable ("Anchoring intent " ++ c.intentId ++ " is not eligible for abandonment (status: " ++
      statusText i.status ++ ")"))

def abandon : Intent := { i with quarantineDecision := .abandoned }

inductive OperatorPc where
  | retry
  | redriving
  | abandon
  | abandoning
  deriving DecidableEq

/-- The reads of a decision, or its transaction, which may be refused as a whole. -/
def OperatorPc.access (t : Tick) (intents : List Intent) : OperatorPc → Access OperatorPc
  | .retry =>
    match findDecided E intents c >>= fun i => mayRetry c i with
    | .ok _ => ⟨intents, none, some .redriving⟩
    | .error _ => ⟨intents, none, none⟩
  | .redriving => ⟨if t.writeFails = none then updateIntent intents c.intentId (redrive t.now) else intents, none, none⟩
  | .abandon =>
    match findDecided E intents c >>= fun i => (mayAbandon c i).map fun _ => i with
    | .ok i => ⟨intents, none, if i.quarantineDecision = .abandoned then none else some .abandoning⟩
    | .error _ => ⟨intents, none, none⟩
  | .abandoning => ⟨if t.writeFails = none then updateIntent intents c.intentId Anchoring.abandon
    else intents, none, none⟩

/-! ## The reconciler -/

structure ReconciledProof where
  id : String
  status : ProofStatus
  contractTransactionHash : Option String
  deriving DecidableEq

def MANUAL_REVIEW_REASON : String :=
  "reconciler: on-chain proof is neither valid nor revoked while local status is ACTIVE"

inductive ReconcilerPc where
  | read (proof : ReconciledProof)
  | flag (proofId : String)
  | flagging (proofId : String)
  | requeue (proofId : String)
  | requeueing (proofId : String) (existing : Option Intent)
  deriving DecidableEq

/-- What `reconcileProof` does about intents, by what it finds on chain. -/
def reconcileProof (proof : ReconciledProof) (onChain : ContractProofStatus) : Option ReconcilerPc :=
  if proof.contractTransactionHash.all (· = "") then none
  else
    match onChain with
    | .unchecked => none
    | .checked revoked valid =>
      if proof.status = .active then
        if revoked then none else if valid then none else some (.flag proof.id)
      else if proof.status = .revoked then
        if revoked then none else some (.requeue proof.id)
      else none

/-- The intent `flagForManualReview` looks for before it creates one. -/
def flagged (proofId : String) (i : Intent) : Bool :=
  decide (i.proofId = proofId ∧ i.operation = .register ∧ i.status = .quarantined ∧ i.permanentError = true ∧
    i.lastErrorSafe = some MANUAL_REVIEW_REASON)

def reviewIntent (id proofId : String) (now : Int) : Intent :=
  { Intent.fresh id proofId .register now with
    status := .quarantined
    permanentError := true
    lastErrorSafe := some MANUAL_REVIEW_REASON
    quarantineReasonCode := some .manualReview
    quarantineDecision := .pending }

def ReconcilerPc.access (freshId : String) (t : Tick) (intents : List Intent) : ReconcilerPc → Access ReconcilerPc
  | .read proof => ⟨intents, none, reconcileProof proof t.onChain⟩
  | .flag proofId => ⟨intents, none, if intents.any (flagged proofId) then none else some (.flagging proofId)⟩
  | .flagging proofId => ⟨(createIntent intents (reviewIntent freshId proofId t.now)).getD intents, none, none⟩
  | .requeue proofId =>
    let existing := intents.find? fun i => decide (i.proofId = proofId ∧ i.operation = .revoke)
    if existing.any fun i => decide (i.status = .pending ∨ i.status = .processing) then ⟨intents, none, none⟩
    else ⟨intents, none, some (.requeueing proofId existing)⟩
  | .requeueing proofId none => ⟨(createIntent intents (.fresh freshId proofId .revoke t.now)).getD intents, none, none⟩
  | .requeueing _ (some existing) =>
    ⟨updateIntent intents existing.id fun i =>
      { i with status := .pending, permanentError := false, lastErrorSafe := none, nextRetryAt := some t.now },
        none, none⟩

/-! ## The system -/

inductive Proc where
  | idle
  | worker (pc : WorkerPc)
  | operator (call : OperatorCall) (pc : OperatorPc)
  | reconciler (pc : ReconcilerPc)
  deriving DecidableEq

structure World where
  intents : List Intent
  calls : String → Nat
  marks : String → Nat
  procs : Nat → Proc

def World.start : World := ⟨[], fun _ => 0, fun _ => 0, fun _ => .idle⟩

def Proc.starts : Proc → Bool
  | .worker .reset => true
  | .operator _ .retry => true
  | .operator _ .abandon => true
  | .reconciler (.read _) => true
  | _ => false

inductive Event where
  /-- A proof is issued or revoked: its intent is created with it. -/
  | enqueue (id proofId : String) (operation : AnchoringOperation) (createdAt : Int)
  | start (p : Nat) (proc : Proc)
  | access (p : Nat) (freshId : String) (t : Tick)
  | crash (p : Nat)
  deriving DecidableEq

def Proc.access (freshId : String) (t : Tick) (intents : List Intent) : Proc → Option (Access Proc)
  | .idle => none
  | .worker pc => some
    ⟨(pc.access E t intents).intents, (pc.access E t intents).called, (pc.access E t intents).next.map .worker⟩
  | .operator c pc => some
    ⟨(pc.access E c t intents).intents, none, (pc.access E c t intents).next.map (.operator c)⟩
  | .reconciler pc => some
    ⟨(pc.access freshId t intents).intents, none, (pc.access freshId t intents).next.map .reconciler⟩

/-- The intent whose redrive the process is about to commit. -/
def Proc.redrives : Proc → Option String
  | .operator c .redriving => some c.intentId
  | _ => none

def bump (f : String → Nat) : Option String → String → Nat
  | none => f
  | some id => Function.update f id (f id + 1)

/-- A redrive takes the count of calls as its mark. -/
def mark (calls marks : String → Nat) : Option String → String → Nat
  | none => marks
  | some id => Function.update marks id (calls id)

def step (w : World) : Event → Option World
  | .enqueue id proofId operation createdAt =>
    (createIntent w.intents (.fresh id proofId operation createdAt)).map fun intents => { w with intents }
  | .start p proc =>
    if w.procs p = .idle ∧ proc.starts = true then some { w with procs := Function.update w.procs p proc } else none
  | .access p freshId t =>
    ((w.procs p).access E freshId t w.intents).map fun a =>
      { intents := a.intents
        calls := bump w.calls a.called
        marks := mark w.calls w.marks (if t.writeFails = none then (w.procs p).redrives else none)
        procs := Function.update w.procs p (a.next.getD .idle) }
  | .crash p => some { w with procs := Function.update w.procs p .idle }

def Proc.inHand : Proc → List String
  | .worker pc => pc.inHand
  | _ => []

end EarnProof.Anchoring
