/-
  EarnProof.Payments.Backfill — the historical backfills of
  `src/payments/payment-backfill.service.ts`: jobs over a ledger range, and any number of
  workers (`payment-backfill-worker.service.ts`) that claim them under a lease and scan
  them page by page.

  A worker is one process, with one owner name, and runs one lease at a time. It is where
  it is in `runLease`, with the copy of the job it claimed. Every statement it makes is one
  event, and what the clock, Horizon and the other tables answer is part of the event. A
  crash, or an error that is thrown out of `runLease`, ends the lease where it is and
  leaves the job's row alone.

  The candidate of a claim is part of the event, because `SKIP LOCKED` may pass over any
  older job. A transaction may also commit without its worker learning of it.

  Jobs come from operators (`createJob`) and from an account rotation, which creates its
  job without the overlap check. Audit rows and the job's display columns (`requestedById`,
  `createdAt`, `updatedAt`) are left out; ids of payments are those of their operation.
-/
import EarnProof.Payments.Eligibility
import EarnProof.Payments.Sync
import EarnProof.Stellar.Horizon

namespace EarnProof.Payments.Backfill

open Lib Lib.Calendar Database Stellar

/-! ## Ranges -/

def MIN_BACKFILL_LEDGER : Nat := 2

def MAX_BACKFILL_LEDGER : Nat := 2147483647

def MAX_BACKFILL_LEDGER_SPAN : Nat := 120960

def BACKFILL_PAGE_LIMIT : Nat := 200

def BACKFILL_PAGES_PER_LEASE : Nat := 5

def BACKFILL_LEASE_MS : Int := 2 * 60000

def MAX_BACKFILL_ATTEMPTS : Nat := 5

inductive BackfillRangeViolation where
  | notInteger | belowMinimum | aboveMaximum | inverted | tooLarge
  deriving DecidableEq

/-- A number that is not an integer is `none`. -/
def validateBackfillRange : Option Int → Option Int → Option BackfillRangeViolation
  | some startLedger, some endLedger =>
    if startLedger < MIN_BACKFILL_LEDGER then some .belowMinimum
    else if endLedger > MAX_BACKFILL_LEDGER then some .aboveMaximum
    else if endLedger < startLedger then some .inverted
    else if endLedger - startLedger + 1 > MAX_BACKFILL_LEDGER_SPAN then some .tooLarge
    else none
  | _, _ => some .notInteger

def BackfillRangeViolation.message : BackfillRangeViolation → String
  | .notInteger => "startLedger and endLedger must be integers"
  | .belowMinimum => "startLedger must be at least 2"
  | .aboveMaximum => "endLedger must be at most 2147483647"
  | .inverted => "endLedger must not be before startLedger"
  | .tooLarge => "A backfill may cover at most 120960 ledgers"

/-- The two columns of a job, under the table's CHECK and the width of the column. -/
structure LedgerRange where
  startLedger : Nat
  endLedger : Nat
  minimum : MIN_BACKFILL_LEDGER ≤ startLedger
  ordered : startLedger ≤ endLedger
  span : endLedger - startLedger < MAX_BACKFILL_LEDGER_SPAN
  maximum : endLedger ≤ MAX_BACKFILL_LEDGER
  deriving DecidableEq

/-- What passes the validation fits the columns. -/
theorem range_of_valid {startLedger endLedger : Int}
    (h : validateBackfillRange (some startLedger) (some endLedger) = none) :
    MIN_BACKFILL_LEDGER ≤ startLedger.toNat ∧ startLedger.toNat ≤ endLedger.toNat ∧
      endLedger.toNat - startLedger.toNat < MAX_BACKFILL_LEDGER_SPAN ∧ endLedger.toNat ≤ MAX_BACKFILL_LEDGER := by
  simp only [validateBackfillRange] at h
  split_ifs at h with hmin hmax hinverted hspan
  omega

def rangeOf (startLedger endLedger : Int) (h : validateBackfillRange (some startLedger) (some endLedger) = none) :
    LedgerRange :=
  ⟨startLedger.toNat, endLedger.toNat, (range_of_valid h).1, (range_of_valid h).2.1, (range_of_valid h).2.2.1,
    (range_of_valid h).2.2.2⟩

/-- The paging token before every operation of a ledger. -/
def ledgerStartCursor (ledger : Nat) : Nat := ledger * 2 ^ LEDGER_SHIFT

/-- The first paging token after every operation of a ledger. -/
def ledgerEndExclusive (ledger : Nat) : Nat := (ledger + 1) * 2 ^ LEDGER_SHIFT

def LedgerRange.first (r : LedgerRange) : Nat := ledgerStartCursor r.startLedger

def LedgerRange.stop (r : LedgerRange) : Nat := ledgerEndExclusive r.endLedger

/-! ## Pages -/

/-- `/^\d{1,20}$/`, read by `BigInt`. -/
def parseToid (value : String) : Option Nat :=
  if value.toList ≠ [] ∧ value.toList.length ≤ 20 ∧ value.toList.all Char.isDigit then
    some (Nat.ofDigitChars 10 value.toList 0)
  else none

structure AscendingPaymentRecord where
  toid : Option Nat
  payment : Option NormalizedPayment
  deriving DecidableEq

structure AscendingPaymentsPage where
  records : List AscendingPaymentRecord
  nextCursor : Option String
  deriving DecidableEq

structure BackfillPagePlan where
  payments : List NormalizedPayment
  recordsSeen : Nat
  nextCheckpoint : Nat
  done : Bool
  stalled : Bool
  deriving DecidableEq

structure PageScan where
  payments : List NormalizedPayment
  recordsSeen : Nat
  lastToid : Option Nat
  reachedEnd : Bool
  deriving DecidableEq

def scanRecords (checkpoint endExclusive : Nat) : List AscendingPaymentRecord → PageScan → PageScan
  | [], s => s
  | record :: records, s =>
    match record.toid with
    | none => scanRecords checkpoint endExclusive records s
    | some toid =>
      if endExclusive ≤ toid then { s with reachedEnd := true }
      else if toid ≤ checkpoint then scanRecords checkpoint endExclusive records s
      else
        scanRecords checkpoint endExclusive records
          { s with
            payments := s.payments ++ record.payment.toList, recordsSeen := s.recordsSeen + 1, lastToid := some toid }

def planBackfillPage (page : AscendingPaymentsPage) (checkpoint endExclusive : Nat) : BackfillPagePlan :=
  let scan := scanRecords checkpoint endExclusive page.records ⟨[], 0, none, false⟩
  let exhausted := page.records.isEmpty || page.nextCursor.isNone
  let next := scan.lastToid.getD checkpoint
  if scan.reachedEnd || exhausted || scan.lastToid.isSome then
    ⟨scan.payments, scan.recordsSeen, next, scan.reachedEnd || exhausted, false⟩
  else
    -- Only malformed or already seen records: Horizon's own cursor, if it moves.
    match parseToid (page.nextCursor.getD "") with
    | none => ⟨scan.payments, scan.recordsSeen, next, false, true⟩
    | some cursor =>
      if checkpoint < cursor ∧ cursor < endExclusive then ⟨scan.payments, scan.recordsSeen, cursor, false, false⟩
      else if endExclusive ≤ cursor then ⟨scan.payments, scan.recordsSeen, next, true, false⟩
      else ⟨scan.payments, scan.recordsSeen, next, false, true⟩

variable (parseDate : String → Option Date)

/-- A record as a backfill reads it. -/
def ascendingRecord (address : String) (record : HorizonPaymentRecord) : AscendingPaymentRecord where
  toid := parseToid record.id
  payment :=
    match normalizeRecord parseDate record address with
    | .incoming p => some p
    | _ => none

/-- `readPaymentsPageAscending`, on a page that Horizon served. -/
def ascendingPage (address : String) (page : ParsedPage) : AscendingPaymentsPage where
  records := page.records.map (ascendingRecord parseDate address)
  nextCursor := page.nextCursor.map Nat.repr

/-! ## Jobs -/

inductive PaymentBackfillStatus where
  | pending | running | completed | cancelled | failed
  deriving DecidableEq

inductive BackfillFault where
  | userMissing | horizonUnavailable | horizonCursorStalled | databaseError
  deriving DecidableEq

structure ClaimedJob extends LedgerRange where
  id : String
  userId : String
  checkpointCursor : Option String := none
  attempts : Nat := 0
  accountId : Option String
  deriving DecidableEq

/-- A lease is owned by a worker, under its number; it expires at a time in milliseconds. -/
structure PaymentBackfillJob extends ClaimedJob where
  status : PaymentBackfillStatus := .pending
  pagesProcessed : Nat := 0
  recordsSeen : Nat := 0
  paymentsCreated : Nat := 0
  duplicatesSkipped : Nat := 0
  leaseOwner : Option Nat := none
  leaseExpiresAt : Option Int := none
  cancelRequestedAt : Option Date := none
  lastErrorSafe : Option BackfillFault := none
  completedAt : Option Date := none
  deriving DecidableEq

def newJob (id userId : String) (range : LedgerRange) (accountId : Option String) : PaymentBackfillJob :=
  { toLedgerRange := range, id, userId, accountId }

/-- The position a scan goes on from. -/
def ClaimedJob.checkpoint (job : ClaimedJob) : Nat := (job.checkpointCursor.bind parseToid).getD job.first

variable (cfg : Config) (w : World) (now : Date)

variable (job : PaymentBackfillJob)

def PaymentBackfillJob.expired : Bool := job.leaseExpiresAt.any fun t => t < now.ms

/-- `leaseOwner: owner, status: RUNNING` of the job. -/
def PaymentBackfillJob.runBy (id : String) (owner : Nat) (job : PaymentBackfillJob) : Bool :=
  job.id = id ∧ job.leaseOwner = some owner ∧ job.status = .running

def PaymentBackfillJob.active : Bool := job.status = .pending ∨ job.status = .running

/-! ## The operator's calls -/

inductive CreateFailure where
  | badRequest (message : String)
  | notFound (message : String)
  | conflict (message : String)
  deriving DecidableEq

def overlaps (userId : String) (startLedger endLedger : Nat) (job : PaymentBackfillJob) : Bool :=
  job.userId = userId ∧ job.active ∧ job.startLedger ≤ endLedger ∧ startLedger ≤ job.endLedger

/-- `createJob`: the row it creates under a generated id. -/
def createJob (wallet : String → Option String) (jobs : List PaymentBackfillJob) (id userId : String)
    (startLedger endLedger : Option Int) : Except CreateFailure PaymentBackfillJob :=
  match startLedger, endLedger with
  | some first, some last =>
    if h : validateBackfillRange (some first) (some last) = none then
      if (wallet userId).isNone then .error (.notFound "User not found")
      else if jobs.any (overlaps userId first.toNat last.toNat) then
        .error (.conflict "An active backfill for this user already covers part of the requested ledger range")
      else .ok (newJob id userId (rangeOf first last h) none)
    else .error (.badRequest (((validateBackfillRange (some first) (some last)).map (·.message)).getD ""))
  | _, _ => .error (.badRequest BackfillRangeViolation.notInteger.message)

/-- The updates of `cancelJob`, and those of a rotation that is rolled back. -/
def cancelRows (id : String) (now : Date) (jobs : List PaymentBackfillJob) : List PaymentBackfillJob :=
  if jobs.any fun job => job.id = id ∧ job.status = .pending then
    Table.update (fun job => job.id = id ∧ job.status = .pending)
      (fun job => { job with status := .cancelled, cancelRequestedAt := some now, completedAt := some now }) jobs
  else
    Table.update (fun job => job.id = id ∧ job.status = .running ∧ job.cancelRequestedAt = none)
      (fun job => { job with cancelRequestedAt := some now }) jobs

/-! ## The worker's statements -/

/-- `finalizeAbandonedCancellations`. -/
def finalizeRows (jobs : List PaymentBackfillJob) : List PaymentBackfillJob :=
  Table.update (fun job => job.status = .running ∧ job.cancelRequestedAt.isSome ∧ job.expired now)
    (fun job => { job with status := .cancelled, leaseOwner := none, leaseExpiresAt := none, completedAt := some now })
      jobs

def PaymentBackfillJob.claimable : Bool :=
  job.cancelRequestedAt = none ∧ (job.status = .pending ∨ job.status = .running ∧ job.expired now)

def PaymentBackfillJob.claimed (owner : Nat) (now : Date) (job : PaymentBackfillJob) : PaymentBackfillJob :=
  { job with
    status := .running, leaseOwner := some owner, leaseExpiresAt := some (now.ms + BACKFILL_LEASE_MS)
    attempts := job.attempts + 1 }

def claimRows (id : String) (owner : Nat) (now : Date) (jobs : List PaymentBackfillJob) : List PaymentBackfillJob :=
  Table.update (fun job => job.id = id) (.claimed owner now) jobs

/-- What outside this module computes: the users, the ids of new rows, the amounts' cipher. -/
structure Config where
  /-- The wallet of a user there is. -/
  wallet : String → Option String
  /-- The id generated for the row of an operation. -/
  cuid : String → String
  protectAmount : String → String

def toPaymentRow (userId : String) (eligibleAssets : List String) (p : NormalizedPayment) : SyncedPayment where
  id := cfg.cuid p.operationId
  userId
  operationId := p.operationId
  sourceAddress := some p.sourceAddress
  assetCode := p.assetCode
  assetIssuer := p.assetIssuer
  amountEncrypted := some (cfg.protectAmount p.amount)
  occurredAt := p.occurredAt
  classification := .unknown
  isEligible := assetKey p.assetCode p.assetIssuer ∈ eligibleAssets
  stellarTransactionHash := p.stellarTransactionHash
  destinationAddress := some p.destinationAddress

def hasOperation (operationId : String) (rows : List SyncedPayment) : Bool :=
  rows.any fun r => r.operationId = operationId

/-- `createMany` with `skipDuplicates`: a row whose operation is stored is skipped. -/
def createMany : List SyncedPayment → List SyncedPayment → List SyncedPayment
  | [], rows => rows
  | row :: rest, rows => createMany rest (if hasOperation row.operationId rows then rows else rows ++ [row])

/-- `count` of the result: the rows it inserted. -/
def insertedCount (data rows : List SyncedPayment) : Nat := (createMany data rows).length - rows.length

/-- The update of the job in a page's transaction. -/
def PaymentBackfillJob.committed (plan : BackfillPagePlan) (inserted : Nat) (now : Date) (job : PaymentBackfillJob) :
    PaymentBackfillJob :=
  let job :=
    { job with
      checkpointCursor := some plan.nextCheckpoint.repr
      pagesProcessed := job.pagesProcessed + 1
      recordsSeen := job.recordsSeen + plan.recordsSeen
      paymentsCreated := job.paymentsCreated + inserted
      duplicatesSkipped := job.duplicatesSkipped + (plan.payments.length - inserted)
      lastErrorSafe := none
      attempts := 0 }
  if plan.done then
    { job with status := .completed, completedAt := some now, leaseOwner := none, leaseExpiresAt := none }
  else { job with leaseExpiresAt := some (now.ms + BACKFILL_LEASE_MS) }

section

variable (id : String) (owner : Nat)

def PaymentBackfillJob.commits : Bool :=
  job.runBy id owner && job.cancelRequestedAt.isNone

/-- `stopAfterLostLease`. -/
def stopRows (now : Date) (jobs : List PaymentBackfillJob) : List PaymentBackfillJob :=
  Table.update (fun job => job.runBy id owner && job.cancelRequestedAt.isSome)
    (fun job => { job with status := .cancelled, leaseOwner := none, leaseExpiresAt := none, completedAt := some now })
      jobs

/-- `fail`: its update asks for the lease only, not for the status or a cancellation. -/
def failRows (job : ClaimedJob) (owner : Nat) (reason : BackfillFault) (permanent : Bool) (now : Date)
    (jobs : List PaymentBackfillJob) : List PaymentBackfillJob :=
  Table.update (fun row => row.id = job.id ∧ row.leaseOwner = some owner)
    (fun row =>
      if permanent || MAX_BACKFILL_ATTEMPTS ≤ job.attempts then
        { row with
          status := .failed, lastErrorSafe := some reason, leaseOwner := none, leaseExpiresAt := none
          completedAt := some now }
      else { row with status := .pending, lastErrorSafe := some reason, leaseOwner := none, leaseExpiresAt := none })
        jobs

/-- The release at the end of a lease: it does not ask for a cancellation. -/
def yieldRows (jobs : List PaymentBackfillJob) : List PaymentBackfillJob :=
  Table.update (fun job => job.runBy id owner)
    (fun job => { job with status := .pending, leaseOwner := none, leaseExpiresAt := none }) jobs

end

/-! ## A lease -/

inductive Stage where
  /-- `processPage`: the user is looked up, -/
  | user
  /-- a page is read behind the checkpoint, -/
  | read (account : String)
  /-- the registry is loaded, -/
  | assets (plan : BackfillPagePlan)
  /-- and the page and its checkpoint are committed. -/
  | commit (plan : BackfillPagePlan) (eligibleAssets : List String)
  | stopped
  | fail (reason : BackfillFault) (permanent : Bool)
  | yield
  deriving DecidableEq

/-- A call of `runLease`; `pages` counts the pages it has committed. -/
inductive Call where
  | finalize
  | claim
  | lease (job : ClaimedJob) (pages : Nat) (stage : Stage)
  deriving DecidableEq

inductive TxResult where
  | committed
  | rolledBack
  /-- Committed, but the worker gets an error. -/
  | unacknowledged
  deriving DecidableEq

structure Answer where
  now : Date
  /-- The job the claim's query picks. -/
  candidate : Option String
  /-- Horizon's page, or none when the read fails. -/
  page : Option AscendingPaymentsPage
  registry : List SupportedAsset
  tx : TxResult
  deriving DecidableEq

inductive Mark where
  | claim (job : String)
  | page (job : String) (inserted found : List String)
  deriving DecidableEq

structure World where
  jobs : List PaymentBackfillJob
  payments : List SyncedPayment
  workers : Nat → Option Call
  /-- Ghost: the claims and the committed pages so far, with the operations each page
      inserted and those it found stored. -/
  marks : List Mark

def World.start (payments : List SyncedPayment) : World := ⟨[], payments, fun _ => none, []⟩

def World.withWorker (p : Nat) (call : Option Call) : World :=
  { w with workers := Function.update w.workers p call }

def World.ending (p : Nat) (jobs : List PaymentBackfillJob) : World := { w with jobs }.withWorker p none

def pageRows (job : ClaimedJob) (eligibleAssets : List String) (plan : BackfillPagePlan) : List SyncedPayment :=
  plan.payments.map (toPaymentRow cfg job.userId eligibleAssets)

/-- The operations of a page that are stored already, or not. -/
def operationsStored (stored : Bool) (plan : BackfillPagePlan) (rows : List SyncedPayment) : List String :=
  (plan.payments.map (·.operationId)).filter fun op => hasOperation op rows = stored

/-- The writes of a page's transaction. -/
def World.commitPage (p : Nat) (job : ClaimedJob) (plan : BackfillPagePlan) (eligibleAssets : List String)
    (now : Date) : World :=
  { w with
    jobs := Table.update (·.commits job.id p)
      (.committed plan (insertedCount (pageRows cfg job eligibleAssets plan) w.payments) now) w.jobs
    payments := createMany (pageRows cfg job eligibleAssets plan) w.payments
    marks := w.marks ++
      [Mark.page job.id (operationsStored false plan w.payments) (operationsStored true plan w.payments)] }

def ClaimedJob.after (plan : BackfillPagePlan) (job : ClaimedJob) : ClaimedJob :=
  { job with checkpointCursor := some plan.nextCheckpoint.repr, attempts := 0 }

/-- The call that goes on after a page. -/
def afterPage (job : ClaimedJob) (pages : Nat) (plan : BackfillPagePlan) : Option Call :=
  if plan.done then none
  else if pages + 1 < BACKFILL_PAGES_PER_LEASE then some (.lease (job.after plan) (pages + 1) .user)
  else some (.lease (job.after plan) (pages + 1) .yield)

def World.proceed (p : Nat) (job : ClaimedJob) (pages : Nat) (stage : Stage) (a : Answer) : World :=
  let goOn (stage : Stage) : World := w.withWorker p (some (.lease job pages stage))
  match stage with
  | .user =>
    match cfg.wallet job.userId with
    | none => goOn (.fail .userMissing true)
    | some wallet => goOn (.read (job.accountId.getD wallet))
  | .read _ =>
    match a.page with
    | none => goOn (.fail .horizonUnavailable false)
    | some page =>
      let plan := planBackfillPage page job.checkpoint job.stop
      if plan.stalled then goOn (.fail .horizonCursorStalled false) else goOn (.assets plan)
  | .assets plan => goOn (.commit plan (supportedAssetKeys a.registry))
  | .commit plan eligibleAssets =>
    if a.tx = .rolledBack then goOn (.fail .databaseError false)
    -- The lease is lost or a cancellation is requested: the page is rolled back.
    else if !w.jobs.any (·.commits job.id p) then goOn .stopped
    else if a.tx = .committed then
      (w.commitPage cfg p job plan eligibleAssets a.now).withWorker p (afterPage job pages plan)
    else
      (w.commitPage cfg p job plan eligibleAssets a.now).withWorker p
        (some (.lease job pages (.fail .databaseError false)))
  | .stopped => w.ending p (stopRows job.id p a.now w.jobs)
  | .fail reason permanent => w.ending p (failRows job p reason permanent a.now w.jobs)
  | .yield => w.ending p (yieldRows job.id p w.jobs)

/-! ## The system -/

inductive Event where
  /-- An operator's `createJob`, with the id it would generate. -/
  | create (id userId : String) (startLedger endLedger : Option Int)
  /-- The job of an activated account rotation. -/
  | rotate (id userId : String) (range : LedgerRange) (accountId : String)
  | cancel (id : String) (now : Date)
  /-- Another writer of the payments, the live sync: it inserts a row, or rewrites one. -/
  | sync (row : SyncedPayment)
  | poll (p : Nat)
  | access (p : Nat) (a : Answer)
  | crash (p : Nat)
  deriving DecidableEq

/-- A row another writer rewrites stays the row of its operation. -/
def rewritten (row old : SyncedPayment) : SyncedPayment := { row with id := old.id, operationId := old.operationId }

/-- A generated id is not that of a job there is. -/
def World.addJob : Option World :=
  if job.id ∈ w.jobs.map (·.id) then none else some { w with jobs := w.jobs ++ [job] }

def step : Event → Option World
  | .create id userId startLedger endLedger =>
    match createJob cfg.wallet w.jobs id userId startLedger endLedger with
    | .error _ => some w
    | .ok job => w.addJob job
  | .rotate id userId range accountId => w.addJob (newJob id userId range (some accountId))
  | .cancel id now => some { w with jobs := cancelRows id now w.jobs }
  | .sync row =>
    some { w with payments := upsert row.operationId (rewritten row) row w.payments }
  | .poll p =>
    match w.workers p with
    | none => some (w.withWorker p (some .finalize))
    | some _ => none
  | .access p a =>
    match w.workers p with
    | none => none
    | some .finalize => some ({ w with jobs := finalizeRows a.now w.jobs }.withWorker p (some .claim))
    | some .claim =>
      match a.candidate with
      | none => some (w.withWorker p none)
      | some id =>
        match w.jobs.find? fun job => job.id = id with
        | none => none
        | some job =>
          if job.claimable a.now then
            some ({ w with
              jobs := claimRows id p a.now w.jobs
              marks := w.marks ++ [Mark.claim id] }.withWorker p
                (some (.lease (job.claimed p a.now).toClaimedJob 0 .user)))
          else none
    | some (.lease job pages stage) => some (w.proceed cfg p job pages stage a)
  | .crash p => some (w.withWorker p none)

end EarnProof.Payments.Backfill
