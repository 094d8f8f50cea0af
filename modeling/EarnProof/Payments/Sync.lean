/-
  EarnProof.Payments.Sync — `syncAccount` of `src/payments/payments.service.ts` with
  `src/payments/payment-finality.service.ts` under it, for one user: the checkpoint, the
  stored payments, and any number of syncs acting on them one access at a time.

  A sync is where it is in the code, with what it has read so far: a plan keeps the
  checkpoint row it was made from, and every later write of the checkpoint is
  conditional on that row's id and version. What Horizon, the clock and the id generator
  answer is part of the event, so a run is one interleaving with one outside world. A
  crash, or an error that is thrown, ends the sync where it is.

  The checkpoint table has one row for a user. Audit rows, memos, the identity columns
  of a payment and the counts of a sync are read by nothing here and left out.
-/
import EarnProof.Stellar.LedgerFinality
import EarnProof.Database.Rows
import EarnProof.Lib.Run
import EarnProof.Lib.Table
import Mathlib.Logic.Function.Basic

namespace EarnProof.Payments

open Lib Lib.Calendar Database Stellar

/-! ## Rows -/

inductive CheckpointStatus where
  | verified | diverged
  deriving DecidableEq

structure PaymentSyncCheckpoint extends CheckpointClaim where
  id : String
  status : CheckpointStatus
  divergenceReason : Option DivergenceReason
  divergedAt : Option Date
  reconciliationCursor : Option Nat
  verifiedAt : Date
  version : Nat
  updatedAt : Date
  deriving DecidableEq

inductive HoldReason where
  | divergence (reason : DivergenceReason)
  | orphaned
  deriving DecidableEq

structure SyncedPayment extends Payment where
  stellarTransactionHash : String
  destinationAddress : Option String
  pagingToken : Option Nat := none
  finalityHoldReason : Option HoldReason := none
  deriving DecidableEq

structure Store where
  checkpoint : Option PaymentSyncCheckpoint
  payments : List SyncedPayment
  deriving DecidableEq

/-- The user whose payments are synced, the configuration, and what the modules outside
    this one compute. -/
structure Config where
  userId : String
  historyLedgers : Nat
  lower : String → String
  /-- `canonicalAssetId` on the deployment's network. -/
  assetId : String → Option String → String
  protectAmount : String → String

structure Answer where
  now : Date
  freshId : String
  ledger : Option HorizonLedgerSummary
  operation : Option HorizonOperationSummary
  read : HorizonReadResult
  supported : List String
  /-- The unique index on a payment's identity refuses the second upsert (`P2002`). -/
  identityTaken : Bool
  deriving DecidableEq

/-! ## The checkpoint row -/

def PaymentSyncCheckpoint.claim (c : PaymentSyncCheckpoint) : CheckpointClaim := c.toCheckpointClaim

/-- `where: { id, version }` of a row that was read earlier. -/
def PaymentSyncCheckpoint.guards (c row : PaymentSyncCheckpoint) : Bool := row.id = c.id ∧ row.version = c.version

variable (cfg : Config) (db : Store) (c : PaymentSyncCheckpoint) (userId : String)

/-- The row a conditional update writes, if its condition holds. -/
def Store.guarded (data : PaymentSyncCheckpoint → PaymentSyncCheckpoint) : Option PaymentSyncCheckpoint :=
  (db.checkpoint.filter c.guards).map data

/-- The store after an update that wrote this row, or none. -/
def Store.put : Option PaymentSyncCheckpoint → Store
  | none => db
  | some row => { db with checkpoint := some row }

def Store.withPayments (rows : List SyncedPayment) : Store := { db with payments := rows }

def markDiverged (reason : DivergenceReason) (now : Date) (row : PaymentSyncCheckpoint) : PaymentSyncCheckpoint :=
  { row with
    status := .diverged, divergenceReason := some reason, divergedAt := some now, reconciliationCursor := none
    version := row.version + 1, updatedAt := now }

/-- The refresh of an empty forward read. -/
def refreshed (now : Date) (row : PaymentSyncCheckpoint) : PaymentSyncCheckpoint :=
  { row with verifiedAt := now, version := row.version + 1, updatedAt := now }

def withCursor (cursor : Nat) (now : Date) (row : PaymentSyncCheckpoint) : PaymentSyncCheckpoint :=
  { row with reconciliationCursor := some cursor, version := row.version + 1, updatedAt := now }

variable (claim : CheckpointClaim)

/-- The row `advance` writes. -/
def movedTo (now : Date) (row : PaymentSyncCheckpoint) : PaymentSyncCheckpoint :=
  { row with
    toCheckpointClaim := claim, status := .verified, divergenceReason := none, divergedAt := none
    reconciliationCursor := none, verifiedAt := now, version := row.version + 1, updatedAt := now }

variable (id : String)

/-- The row `establish` creates. -/
def establishedAt (now : Date) : PaymentSyncCheckpoint :=
  { toCheckpointClaim := claim, id, status := .verified, divergenceReason := none, divergedAt := none
    reconciliationCursor := none, verifiedAt := now, version := 0, updatedAt := now }

/-! ## Payments -/

/-- `userId, ledgerSequence: { gte: floor }`. -/
def SyncedPayment.inWindow (floor : Nat) (p : SyncedPayment) : Bool :=
  p.userId = userId ∧ p.ledgerSequence.any fun l => floor ≤ l

variable (p : SyncedPayment)

def SyncedPayment.held : Bool := p.finalityHoldAt.isSome

/-- The range update of `diverge`. -/
def holdRows (floor : Nat) (reason : DivergenceReason) (now : Date) (rows : List SyncedPayment) : List SyncedPayment :=
  Table.update (fun p => p.inWindow userId floor && !p.held)
    (fun p => { p with finalityHoldAt := some now, finalityHoldReason := some (.divergence reason) }) rows

def SyncedPayment.undecided (floor : Nat) (p : SyncedPayment) : Bool :=
  p.inWindow userId floor && p.held && p.finalityHoldReason ≠ some .orphaned

/-- The update of `settleReconciliation`: what the read proves gone. -/
def orphanRows (coverage : Nat) (seen : List String) (rows : List SyncedPayment) : List SyncedPayment :=
  if coverage = MAX_SAFE_INTEGER then rows
  else Table.update (fun p => p.undecided userId coverage && p.operationId ∉ seen)
    (fun p => { p with isEligible := false, finalityHoldReason := some .orphaned }) rows

/-- `content`, as a new row. -/
def newRow (isEligible : Bool) (p : NormalizedPayment) : SyncedPayment :=
  { id, userId := cfg.userId, operationId := p.operationId, sourceAddress := some p.sourceAddress
    sourceAddressEncrypted := none, ledgerSequence := ledgerSequenceFromPagingToken p.pagingToken
    finalityHoldAt := none, assetCode := p.assetCode, assetIssuer := p.assetIssuer
    amountEncrypted := some (cfg.protectAmount p.amount), occurredAt := p.occurredAt, classification := .unknown
    isEligible, stellarTransactionHash := p.stellarTransactionHash
    destinationAddress := some p.destinationAddress, pagingToken := p.pagingToken, finalityHoldReason := none }

/-- The update of a row that still names the same payment: it lifts the hold. -/
def confirmRow (isEligible : Bool) (p : NormalizedPayment) (row : SyncedPayment) : SyncedPayment :=
  { row with
    isEligible, occurredAt := p.occurredAt, pagingToken := p.pagingToken
    ledgerSequence := ledgerSequenceFromPagingToken p.pagingToken, finalityHoldAt := none, finalityHoldReason := none }

/-- The update of a row whose operation id now names another payment. -/
def rebuildRow (isEligible : Bool) (p : NormalizedPayment) (row : SyncedPayment) : SyncedPayment :=
  { newRow cfg row.id isEligible p with
    operationId := row.operationId, sourceAddressEncrypted := row.sourceAddressEncrypted }

/-- `upsert` on the unique operation id. -/
def upsert (operationId : String) (update : SyncedPayment → SyncedPayment) (create : SyncedPayment)
    (rows : List SyncedPayment) : List SyncedPayment :=
  if rows.any fun r => r.operationId = operationId then Table.update (fun r => r.operationId = operationId) update rows
  else rows ++ [create]

def writePayment (isEligible isReplaced : Bool) (p : NormalizedPayment) (rows : List SyncedPayment) :
    List SyncedPayment :=
  upsert p.operationId (if isReplaced then rebuildRow cfg isEligible p else confirmRow isEligible p)
    (newRow cfg id isEligible p) rows

/-- The second, for the identity columns: it sets eligibility and date again. A row it
    had to create would have no ledger position. -/
def identifyPayment (isEligible : Bool) (p : NormalizedPayment) (rows : List SyncedPayment) : List SyncedPayment :=
  upsert p.operationId (fun row => { row with isEligible, occurredAt := p.occurredAt })
    { newRow cfg id isEligible p with pagingToken := none, ledgerSequence := none } rows

def storedOperation : StoredOperation := ⟨p.operationId, p.stellarTransactionHash, p.userId⟩

def storedFor (read : HorizonReadResult) (rows : List SyncedPayment) : List StoredOperation :=
  (rows.filter fun r => r.operationId ∈ read.payments.map (·.operationId)).map storedOperation

/-! ## Plans -/

inductive SyncPlan where
  | initial
  | resume (checkpoint : PaymentSyncCheckpoint)
  | reconcile (checkpoint : PaymentSyncCheckpoint) (floorLedger : Nat)
  deriving DecidableEq

def floorOf : Nat :=
  reconciliationFloorLedger c.ledgerSequence cfg.historyLedgers

def reconcilePlan : SyncPlan := .reconcile c (floorOf cfg c)

def inspect (plan : SyncPlan) (read : HorizonReadResult) (stored : List StoredOperation) (ownerId : String) :
    Option DivergenceReason :=
  match plan with
  | .initial => none
  | .resume c =>
    if !isReadOrdered read.payments .asc (some c.pagingToken) then some .outOfOrder
    else if replacedOperationIds read.payments stored ownerId ≠ [] then some .recordReplaced
    else none
  | .reconcile _ _ => if !isReadOrdered read.payments .desc none then some .outOfOrder else none

/-- The transaction of `diverge`: the store it leaves, and the row it returns. -/
def divergeTx (reason : DivergenceReason) (now : Date) (db : Store) :
    Store × Option PaymentSyncCheckpoint × Option PaymentSyncCheckpoint :=
  let transitioned := (db.checkpoint.filter fun row => c.guards row && row.status = .verified).map
    (markDiverged reason now)
  let db := db.put transitioned
  let current := db.checkpoint.filter fun row => row.id = c.id
  if current.any fun row => row.status = .diverged then
    (db.withPayments (holdRows cfg.userId (floorOf cfg c) reason now db.payments), transitioned, current)
  else (db, transitioned, current)

/-! ## Anchors -/

structure Anchor where
  operationId : String
  transactionHash : String
  pagingToken : Nat
  deriving DecidableEq

def readAnchor (payments : List NormalizedPayment) : Option Anchor :=
  (newestAnchor payments).map fun best => ⟨best.1.operationId, best.1.stellarTransactionHash, best.2⟩

/-- `claimFor`: the anchor bound to the hash of its ledger. -/
def claimFor (anchor : Anchor) (ledger : Option HorizonLedgerSummary) : Option CheckpointClaim :=
  match ledgerOf anchor.pagingToken, ledger with
  | some sequence, some l =>
    if l.sequence = sequence then
      some ⟨anchor.pagingToken, anchor.operationId, anchor.transactionHash, sequence, l.hash⟩
    else none
  | _, _ => none

/-- Not held, and positioned: the rows `confirmedAnchor` looks at. -/
def SyncedPayment.confirmed : Bool :=
  p.userId = userId ∧ !p.held ∧ p.ledgerSequence.isSome ∧ p.pagingToken.isSome

/-- The first query of `confirmedAnchor`: the newest ledger among those rows. Ledger 0 is
    falsy, and none. -/
def newestConfirmedLedger (rows : List SyncedPayment) : Option Nat :=
  ((rows.filter fun p => p.confirmed userId).filterMap (·.ledgerSequence)).max?.filter (0 < ·)

def anchorOf : Option Anchor :=
  match p.pagingToken with
  | none => none
  | some token => (ledgerOf token).map fun _ => ⟨p.operationId, p.stellarTransactionHash, token⟩

/-- The second query and the loop: the largest token in that ledger. -/
def newestIn (ledger : Nat) (rows : List SyncedPayment) : Option Anchor :=
  ((rows.filter fun p => p.confirmed userId && p.ledgerSequence = some ledger).filterMap anchorOf).foldl
    (fun best a => if best.all fun b => b.pagingToken < a.pagingToken then some a else best) none

/-! ## A sync -/

inductive FinalityStatus where
  | verified | unverified | reconciling | diverged
  deriving DecidableEq

structure FinalityOutcome where
  status : FinalityStatus
  reason : Option DivergenceReason
  heldPayments : Nat
  orphanedPayments : Nat
  deriving DecidableEq

inductive Target where
  | establish
  | advance (checkpoint : PaymentSyncCheckpoint)
  | complete (checkpoint : PaymentSyncCheckpoint)
  deriving DecidableEq

inductive Stage where
  /-- `plan`: the checkpoint is loaded, -/
  | load
  /-- and re-proved against Horizon. -/
  | prove (checkpoint : PaymentSyncCheckpoint)
  | diverge (checkpoint : PaymentSyncCheckpoint) (reason : DivergenceReason)
  | assets (plan : SyncPlan)
  | read (plan : SyncPlan)
  | lookup (plan : SyncPlan) (read : HorizonReadResult)
  | write (plan : SyncPlan) (read : HorizonReadResult) (replaced : List String) (rest : List NormalizedPayment)
  | identify (plan : SyncPlan) (read : HorizonReadResult) (replaced : List String) (payment : NormalizedPayment)
      (rest : List NormalizedPayment)
  | settle (plan : SyncPlan) (read : HorizonReadResult)
  | refresh (checkpoint : PaymentSyncCheckpoint)
  | claim (target : Target) (anchor : Anchor)
  | commit (target : Target) (claim : CheckpointClaim)
  | orphan (checkpoint : PaymentSyncCheckpoint) (floorLedger : Nat) (read : HorizonReadResult)
  | count (checkpoint : PaymentSyncCheckpoint) (floorLedger : Nat) (read : HorizonReadResult)
  | saveCursor (checkpoint : PaymentSyncCheckpoint) (cursor : Nat)
  | newest (checkpoint : PaymentSyncCheckpoint)
  | choose (checkpoint : PaymentSyncCheckpoint) (ledger : Nat)
  | remove (checkpoint : PaymentSyncCheckpoint)
  | report (status : FinalityStatus) (reason : Option DivergenceReason)
  | done (outcome : FinalityOutcome)
  deriving DecidableEq

def MAX_READS_PER_SYNC : Nat := 2

/-- A call of `syncAccount`: the account it reads, the reads it has made and the assets
    it has loaded. -/
structure Sync where
  account : String
  reads : Nat
  supported : List String
  stage : Stage
  deriving DecidableEq

def Sync.at (s : Sync) (stage : Stage) : Sync := { s with stage }

/-- A plan is made: the assets are loaded before the first read, and not again. -/
def Sync.planned (s : Sync) (plan : SyncPlan) : Sync := s.at (if s.reads = 0 then .assets plan else .read plan)

/-- What an access does: the store it leaves, the checkpoint row it wrote, and where the
    sync goes on. -/
structure Access where
  db : Store
  wrote : Option PaymentSyncCheckpoint
  next : Sync

def Access.reads (s : Sync) : Access := ⟨db, none, s⟩

/-- What a claim that fails, or a write that lost the race, is reported as. -/
def Target.lost : Target → Stage
  | .complete c => .report .reconciling c.divergenceReason
  | _ => .report .unverified none

def outcome (status : FinalityStatus) (reason : Option DivergenceReason) : FinalityOutcome where
  status
  reason
  heldPayments := (db.payments.filter fun p => p.userId = cfg.userId && p.held).length
  orphanedPayments :=
    (db.payments.filter fun p => p.userId = cfg.userId && p.finalityHoldReason = some .orphaned).length

/-- The stage `settle` begins with. -/
def settleStage (plan : SyncPlan) (read : HorizonReadResult) : Stage :=
  match plan, readAnchor read.payments with
  | .reconcile c floor, _ => .orphan c floor read
  | .initial, none => .report .unverified none
  | .initial, some anchor => .claim .establish anchor
  | .resume c, none => .refresh c
  | .resume c, some anchor =>
    if anchor.pagingToken ≤ c.pagingToken then .report .unverified none else .claim (.advance c) anchor

/-- The checkpoint write an anchor's claim ends in. -/
def Target.row (a : Answer) : Target → Option PaymentSyncCheckpoint
  | .establish => if db.checkpoint.isNone then some (establishedAt claim a.freshId a.now) else none
  | .advance c => db.guarded c (movedTo claim a.now)
  | .complete c => db.guarded c (movedTo claim a.now)

def isEligible (s : Sync) (p : NormalizedPayment) : Bool := cfg.assetId p.assetCode p.assetIssuer ∈ s.supported

def Sync.access (a : Answer) (db : Store) (s : Sync) : Access :=
  match s.stage with
  | .load =>
    match db.checkpoint with
    | none => .reads db (s.planned .initial)
    | some c => if c.status = .diverged then .reads db (s.planned (reconcilePlan cfg c))
      else .reads db (s.at (.prove c))
  | .prove c =>
    match checkpointDivergence cfg.lower c.claim a.ledger a.operation with
    | some reason => .reads db (s.at (.diverge c reason))
    | none => .reads db (s.planned (.resume c))
  | .diverge c reason =>
    let out := divergeTx cfg c reason a.now db
    -- Gone, re-verified by another sync, or diverged.
    ⟨out.1, out.2.1,
      match out.2.2 with
      | none => s.planned .initial
      | some row => if row.status = .verified then s.at .load else s.planned (reconcilePlan cfg row)⟩
  | .assets plan => .reads db { s with supported := a.supported, stage := .read plan }
  | .read plan => .reads db { s with reads := s.reads + 1, stage := .lookup plan a.read }
  | .lookup plan read =>
    match inspect plan read (storedFor read db.payments) cfg.userId with
    | none =>
      .reads db (s.at (.write plan read (replacedOperationIds read.payments (storedFor read db.payments) cfg.userId)
        read.payments))
    | some reason =>
      match plan with
      | .resume c =>
        if s.reads < MAX_READS_PER_SYNC then .reads db (s.at (.diverge c reason))
        else .reads db (s.at (.report .diverged (some reason)))
      | _ => .reads db (s.at (.report .diverged (some reason)))
  | .write plan read _ [] => .reads db (s.at (.settle plan read))
  | .write plan read replaced (p :: rest) =>
    .reads (db.withPayments (writePayment cfg a.freshId (isEligible cfg s p) (p.operationId ∈ replaced) p db.payments))
      (s.at (.identify plan read replaced p rest))
  | .identify plan read replaced p rest =>
    -- A conflict is counted, and the loop goes on.
    .reads (if a.identityTaken then db
        else db.withPayments (identifyPayment cfg a.freshId (isEligible cfg s p) p db.payments))
      (s.at (.write plan read replaced rest))
  | .settle plan read => .reads db (s.at (settleStage plan read))
  | .refresh c =>
    let row := db.guarded c (refreshed a.now)
    ⟨db.put row, row, s.at (.report .verified none)⟩
  | .claim target anchor =>
    match claimFor anchor a.ledger with
    | none => .reads db (s.at target.lost)
    | some claim => .reads db (s.at (.commit target claim))
  | .commit target claim =>
    let row := target.row db claim a
    ⟨db.put row, row, s.at (if row.isSome then .report .verified none else target.lost)⟩
  | .orphan c floor read =>
    let coverage := reconciliationCoverageLedger read.payments read.stopReason floor
    .reads (db.withPayments (orphanRows cfg.userId coverage (read.payments.map (·.operationId)) db.payments))
      (s.at (.count c floor read))
  | .count c floor read =>
    if db.payments.any fun p => p.undecided cfg.userId floor then
      match read.lastCursor with
      | some cursor => .reads db (s.at (.saveCursor c cursor))
      | none => .reads db (s.at (.report .reconciling c.divergenceReason))
    else .reads db (s.at (.newest c))
  | .saveCursor c cursor =>
    let row := db.guarded c (withCursor cursor a.now)
    ⟨db.put row, row, s.at (.report .reconciling c.divergenceReason)⟩
  | .newest c =>
    match newestConfirmedLedger cfg.userId db.payments with
    | none => .reads db (s.at (.remove c))
    | some ledger => .reads db (s.at (.choose c ledger))
  | .choose c ledger =>
    match newestIn cfg.userId ledger db.payments with
    | none => .reads db (s.at (.remove c))
    | some anchor => .reads db (s.at (.claim (.complete c) anchor))
  | .remove c =>
    if db.checkpoint.any c.guards then .reads { db with checkpoint := none } (s.at (.report .verified none))
    else .reads db (s.at (.report .reconciling c.divergenceReason))
  | .report status reason => .reads db (s.at (.done (outcome cfg db status reason)))
  | .done result => .reads db (s.at (.done result))

/-! ## The system -/

/-- The store and the running syncs. `writes` lists the checkpoint rows the syncs wrote,
    `rows` those and the row the run began with, `divergences` counts the recorded
    divergences and `readAt` keeps that count as it was at each sync's last read; all four
    are ghost state, and `rows` only keeps generated ids from coming twice. -/
structure World where
  db : Store
  syncs : Nat → Option Sync
  writes : List (Nat × PaymentSyncCheckpoint)
  rows : List PaymentSyncCheckpoint
  divergences : Nat
  readAt : Nat → Nat

def World.start : World := ⟨db, fun _ => none, [], db.checkpoint.toList, 0, fun _ => 0⟩

inductive Event where
  | start (p : Nat) (account : String)
  | access (p : Nat) (a : Answer)
  | crash (p : Nat)
  deriving DecidableEq

def newSync (account : String) : Sync := ⟨account, 0, [], .load⟩

def Stage.isRead : Stage → Bool
  | .read _ => true
  | _ => false

def World.put (w : World) (p : Nat) (s : Sync) (x : Access) : World where
  db := x.db
  syncs := Function.update w.syncs p (some x.next)
  writes := w.writes ++ x.wrote.toList.map fun row => (p, row)
  rows := w.rows ++ x.wrote.toList
  divergences :=
    match s.stage, x.wrote with
    | .diverge _ _, some _ => w.divergences + 1
    | _, _ => w.divergences
  readAt := if s.stage.isRead then Function.update w.readAt p w.divergences else w.readAt

/-- A generated id is not the id of a checkpoint row there has been. -/
def step (w : World) : Event → Option World
  | .start p account =>
    match w.syncs p with
    | none => some { w with syncs := Function.update w.syncs p (some (newSync account)) }
    | some _ => none
  | .access p a =>
    match w.syncs p with
    | none => none
    | some s => if a.freshId ∈ w.rows.map (·.id) then none else some (w.put p s (s.access cfg a w.db))
  | .crash p => some { w with syncs := Function.update w.syncs p none }

end EarnProof.Payments
