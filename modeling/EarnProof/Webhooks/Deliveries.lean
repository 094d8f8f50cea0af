/-
  EarnProof.Webhooks.Deliveries — webhook deliveries, their retries and the schedule that sends
  them (`src/webhooks/webhook-delivery.service.ts`), with the circuit breaker asked before every
  attempt (`src/webhooks/webhook-circuit-breaker.service.ts`) and the redrive of dead letters
  (`src/webhooks/webhook-dead-letter.service.ts`).

  A delivery is a row for one attempt; a retry is a row of its own. What is scheduled is held in
  memory only: a chain of promises for each endpoint, run one after another, each waiting out
  its delay before it asks the circuit breaker and reads its row. A call is cut at its awaits
  (`Call`): between any two of its statements other calls may run, the call may throw
  (`Event.breaks`) or the process may die. A process that starts schedules every PENDING row
  (`onModuleInit`).

  The deletion of an organization, which takes its endpoints and their deliveries away, is not
  an event here.
-/
import EarnProof.Lib.Table
import EarnProof.Lib.Run
import EarnProof.Database.Rows

namespace EarnProof.Webhooks

open Lib Database

/-! ## The circuit breaker -/

inductive WebhookCircuitState where
  | closed | open | halfOpen
  deriving DecidableEq

structure Circuit where
  webhookId : String
  state : WebhookCircuitState
  failureCount : Nat
  failureThreshold : Nat
  openedAt : Option Int
  recoveryWindowMs : Int
  deriving DecidableEq

/-- The row `initializeCircuit` creates, with the numbers of `DEFAULT_CONFIG`. -/
def Circuit.initial (webhookId : String) : Circuit := ⟨webhookId, .closed, 0, 5, none, 300000⟩

variable (circuits : List Circuit) (webhookId : String) (now : Int) (d : Delivery)

def updateCircuit (data : Circuit → Circuit) : List Circuit :=
  Table.update (fun c => c.webhookId = webhookId) data circuits

def initializeCircuit : List Circuit :=
  if circuits.any fun c => c.webhookId = webhookId then
    updateCircuit circuits webhookId fun c => { c with failureThreshold := 5, recoveryWindowMs := 300000 }
  else circuits ++ [Circuit.initial webhookId]

def getOrCreateCircuitState : Circuit × List Circuit :=
  match circuits.find? fun c => c.webhookId = webhookId with
  | some c => (c, circuits)
  | none => (Circuit.initial webhookId, initializeCircuit circuits webhookId)

def shouldTransitionToHalfOpen (c : Circuit) (now : Int) : Bool :=
  match c.openedAt with
  | none => false
  | some openedAt => c.recoveryWindowMs ≤ now - openedAt

/-- Whether an attempt may be made, and the circuits afterwards. -/
def canAttemptDelivery : Bool × List Circuit :=
  let (circuit, circuits) := getOrCreateCircuitState circuits webhookId
  match circuit.state with
  | .closed | .halfOpen => (true, circuits)
  | .open =>
    if shouldTransitionToHalfOpen circuit now then
      (true, updateCircuit circuits webhookId fun c => { c with state := .halfOpen })
    else (false, circuits)

def recordSuccess : List Circuit :=
  updateCircuit (getOrCreateCircuitState circuits webhookId).2 webhookId fun c =>
    { c with state := .closed, failureCount := 0 }

def recordFailure : List Circuit :=
  let (circuit, circuits) := getOrCreateCircuitState circuits webhookId
  let failureCount := circuit.failureCount + 1
  -- a failed probe reopens the circuit whatever the count is
  let opens := circuit.state = .halfOpen ∨ circuit.state = .closed ∧ circuit.failureThreshold ≤ failureCount
  updateCircuit circuits webhookId fun c =>
    if opens then { c with failureCount, state := .open, openedAt := some now }
    else { c with failureCount }

def deleteCircuitState : List Circuit :=
  circuits.filter fun c => c.webhookId ≠ webhookId

/-! ## Rows -/

inductive WebhookDeliveryStatus where
  | pending | success | failed
  deriving DecidableEq

inductive DeadLetterReason where
  | maxAttemptsExhausted | destinationBlocked | signingSecretUnavailable | endpointDisabled
  deriving DecidableEq

structure Webhook where
  id : String
  organizationId : String
  events : List String
  status : ResourceStatus
  deriving DecidableEq

/-- One attempt at an event. The payload and its bytes, which every attempt carries unchanged, and
    the columns of the response are left out. -/
structure Delivery where
  id : String
  webhookId : String
  eventId : String
  attempt : Nat
  status : WebhookDeliveryStatus
  failureReason : Option String
  replayKey : Option String
  nextRetryAt : Option Int
  deadLetteredAt : Option Int
  deadLetterReason : Option DeadLetterReason
  redrivenAt : Option Int
  deriving DecidableEq

/-- A row as it is created. -/
def Delivery.pending (id webhookId eventId : String) (attempt : Nat) (replayKey : Option String)
    (nextRetryAt : Option Int) : Delivery :=
  ⟨id, webhookId, eventId, attempt, .pending, none, replayKey, nextRetryAt, none, none, none⟩

/-- A new first attempt at an event that was attempted before. -/
def Delivery.again (original : Delivery) (id replayKey : String) : Delivery :=
  .pending id original.webhookId original.eventId 1 (some replayKey) none

def Delivery.retry (delivery : Delivery) (id : String) (nextRetryAt : Int) : Delivery :=
  .pending id delivery.webhookId delivery.eventId (delivery.attempt + 1) none (some nextRetryAt)

def archivedBeforeDelivery : String := "organization archived before delivery"

def Delivery.archived : Delivery :=
  { d with status := .failed, failureReason := some archivedBeforeDelivery }

def Delivery.delivered : Delivery := { d with status := .success }

def Delivery.failedWith (failureReason : String) (d : Delivery) : Delivery :=
  { d with status := .failed, failureReason := some failureReason }

def Delivery.deadLetter (reason : DeadLetterReason) (failureReason : String) (now : Int) (d : Delivery) : Delivery :=
  { d with
    status := .failed, failureReason := some failureReason
    deadLetteredAt := some now, deadLetterReason := some reason }

def Delivery.redriven : Delivery := { d with redrivenAt := some now }

def redriveKey (deadLetterId : String) : String := "redrive:" ++ deadLetterId

def replayKey (originalDeliveryId replayedBy : String) : String := originalDeliveryId ++ ":" ++ replayedBy

def backoffMs (attempt : Nat) : Nat := if attempt ≤ 1 then 0 else 1000 * 2 ^ (attempt - 2)

/-! ## Calls and the schedule -/

structure Scheduled where
  deliveryId : String
  webhookId : String
  delayMs : Int
  deriving DecidableEq

inductive Call where
  /-- `enqueueForOrganizations`: the endpoints that have no row yet. -/
  | enqueueing (eventId : String) (hooks : List String)
  /-- The row is created, the circuit is not initialized. -/
  | enqueued (deliveryId webhookId eventId : String) (hooks : List String)
  | replaying (originalDeliveryId replayedBy : String)
  | replayCreating (original : Delivery) (replayedBy : String)
  /-- A replay or a redrive whose row is created and not scheduled. -/
  | created (deliveryId webhookId : String)
  | waiting (deliveryId webhookId : String) (fireAt : Int)
  | checking (deliveryId webhookId : String)
  | reading (deliveryId webhookId : String)
  | archiving (deliveryId webhookId : String)
  /-- With whether the failure counts against the circuit: a last attempt's does. -/
  | deadLettering (deliveryId webhookId : String) (reason : DeadLetterReason) (failureReason : String) (counts : Bool)
  | sending (delivery : Delivery)
  | succeeding (deliveryId webhookId : String)
  | succeeded (webhookId : String)
  | exhausted (webhookId : String)
  | failing (delivery : Delivery) (failureReason : String) (nextRetryAt : Int)
  | retrying (delivery : Delivery) (nextRetryAt : Int)
  | retried (deliveryId webhookId : String) (delayMs : Int)
  deriving DecidableEq

/-- The endpoint whose chain the call is the running link of. -/
def Call.chain : Call → Option String
  | .enqueueing .. | .enqueued .. | .replaying .. | .replayCreating .. | .created .. => none
  | .waiting _ hook _ | .checking _ hook | .reading _ hook | .archiving _ hook | .deadLettering _ hook ..
  | .succeeding _ hook | .succeeded hook | .exhausted hook | .retried _ hook _ => some hook
  | .sending d | .failing d _ _ | .retrying d _ => some d.webhookId

/-- The call's next statement can run: its delay is over, or it has none. -/
def Call.isReady : Call → Bool
  | .waiting _ _ fireAt => fireAt ≤ now
  | .sending _ => false
  | _ => true

inductive Outcome where
  | secretUnavailable
  | blocked (message : String)
  | delivered
  | failed (failureReason : String)
  deriving DecidableEq

structure World where
  webhooks : List Webhook
  /-- The organizations with an `archivedAt`. -/
  archived : List String
  deliveries : List Delivery
  circuits : List Circuit
  /-- An audit record without chain columns is there; a second one fails. -/
  auditDefaultRow : Bool
  /-- The chains of all endpoints, in the order they were added to. -/
  queue : List Scheduled
  calls : List Call
  clock : Int
  maxAttempts : Nat

namespace World

variable (w : World)

def call (c : Call) : World := { w with calls := c :: w.calls }

def done (x : Call) : World := { w with calls := w.calls.erase x }

def schedule (deliveryId webhookId : String) (delayMs : Int) : World :=
  { w with queue := w.queue ++ [⟨deliveryId, webhookId, delayMs⟩] }

/-- `update` by id. -/
def update (deliveryId : String) (data : Delivery → Delivery) : World :=
  { w with deliveries := Table.update (fun d => d.id = deliveryId) data w.deliveries }

def create (row : Delivery) : World := { w with deliveries := w.deliveries ++ [row] }

def findDelivery (deliveryId : String) : Option Delivery := w.deliveries.find? fun d => d.id = deliveryId

def findWebhook (webhookId : String) : Option Webhook := w.webhooks.find? fun h => h.id = webhookId

def isActive (webhookId : String) : Bool := (w.findWebhook webhookId).any fun h => h.status = .active

/-- What the table asks of a new row: an id and a replay key of its own, and an endpoint. -/
def accepts (row : Delivery) : Bool :=
  (w.findWebhook row.webhookId).isSome
    && w.deliveries.all fun d => d.id ≠ row.id && (row.replayKey = none || d.replayKey ≠ row.replayKey)

/-! ## `runDelivery` -/

/-- What the row that was read makes the worker do. -/
def dispatch (w : World) (delivery : Delivery) (hook : Webhook) : World :=
  if w.archived.contains hook.organizationId then w.call (.archiving delivery.id hook.id)
  else if delivery.status ≠ .pending then w
  else if hook.status ≠ .active then
    w.call (.deadLettering delivery.id hook.id .endpointDisabled "webhook endpoint disabled before delivery" false)
  else if w.maxAttempts < delivery.attempt then
    w.call (.deadLettering delivery.id hook.id .maxAttemptsExhausted "retry threshold reached before dispatch" false)
  else w.call (.sending delivery)

/-- What follows an attempt at sending. -/
def conclude (delivery : Delivery) : Outcome → World
  | .secretUnavailable =>
    w.call (.deadLettering delivery.id delivery.webhookId .signingSecretUnavailable "signing secret decryption failure"
      false)
  | .blocked message => w.call (.deadLettering delivery.id delivery.webhookId .destinationBlocked message false)
  | .delivered => w.call (.succeeding delivery.id delivery.webhookId)
  | .failed failureReason =>
    if w.maxAttempts ≤ delivery.attempt then
      w.call (.deadLettering delivery.id delivery.webhookId .maxAttemptsExhausted failureReason true)
    else w.call (.failing delivery failureReason (w.clock + backoffMs (delivery.attempt + 1)))

/-! ## Statements -/

/-- The next statement of a call that has been taken off the list; `id` is a new one, for a row it
    creates. A call that goes on is put back. `sending` waits for an answer instead. -/
def next (id : String) : Call → World
  | .enqueueing _ [] => w
  | .enqueueing eventId (hook :: hooks) =>
    let row := Delivery.pending id hook eventId 1 none none
    if w.accepts row then (w.create row).call (.enqueued id hook eventId hooks) else w
  | .enqueued deliveryId hook eventId hooks =>
    ({ w with circuits := initializeCircuit w.circuits hook }.schedule deliveryId hook 0).call
      (.enqueueing eventId hooks)
  | .replaying originalDeliveryId replayedBy =>
    match w.findDelivery originalDeliveryId with
    | none => w
    | some original =>
      if w.isActive original.webhookId
          && w.deliveries.all fun d => d.replayKey ≠ some (replayKey originalDeliveryId replayedBy) then
        w.call (.replayCreating original replayedBy)
      else w
  | .replayCreating original replayedBy =>
    let row := original.again id (replayKey original.id replayedBy)
    if w.accepts row then (w.create row).call (.created id row.webhookId) else w
  | .created deliveryId hook => w.schedule deliveryId hook 0
  | .waiting deliveryId hook _ => w.call (.checking deliveryId hook)
  | .checking deliveryId hook =>
    let (allowed, circuits) := canAttemptDelivery w.circuits hook w.clock
    let w := { w with circuits }
    -- a refused attempt is over: its row stays PENDING and nothing is scheduled for it
    if allowed then w.call (.reading deliveryId hook) else w
  | .reading deliveryId _ =>
    match w.findDelivery deliveryId with
    | none => w
    | some delivery =>
      match w.findWebhook delivery.webhookId with
      | none => w
      | some hook => w.dispatch delivery hook
  | .archiving deliveryId _ => w.update deliveryId .archived
  | .deadLettering deliveryId hook reason failureReason counts =>
    let w := w.update deliveryId (.deadLetter reason failureReason w.clock)
    if counts then w.call (.exhausted hook) else w
  | .sending _ => w
  | .succeeding deliveryId hook => (w.update deliveryId .delivered).call (.succeeded hook)
  | .succeeded hook => { w with circuits := recordSuccess w.circuits hook }
  | .exhausted hook => { w with circuits := recordFailure w.circuits hook w.clock }
  | .failing delivery failureReason nextRetryAt =>
    (w.update delivery.id (.failedWith failureReason)).call (.retrying delivery nextRetryAt)
  | .retrying delivery nextRetryAt =>
    let row := delivery.retry id nextRetryAt
    if w.accepts row then (w.create row).call (.retried id row.webhookId (backoffMs row.attempt)) else w
  | .retried deliveryId hook delayMs =>
    { w with circuits := recordFailure w.circuits hook w.clock }.schedule deliveryId hook delayMs

/-- The promise may run: everything scheduled before it for its endpoint has ended. -/
def isTurn (t : Scheduled) : Bool :=
  (w.queue.find? fun t' => t'.webhookId = t.webhookId) = some t
    && w.calls.all fun c => c.chain ≠ some t.webhookId

/-- What `onModuleInit` schedules. -/
def pendingTasks : List Scheduled :=
  (w.deliveries.filter fun d => d.status = .pending).map fun d =>
    ⟨d.id, d.webhookId, match d.nextRetryAt with
      | none => 0
      | some t => max 0 (t - w.clock)⟩

/-- The active endpoints of the organizations that subscribe to the event. Whether the predicate
    of one holds and the event can be serialized for it is up to `serializable`. -/
def subscribers (orgIds : List String) (eventType : String) (serializable : List String) : List String :=
  (w.webhooks.filter fun h => orgIds.contains h.organizationId && h.status = .active && h.events.contains eventType
    && serializable.contains h.id).map (·.id)

end World

/-! ## The system -/

inductive Event where
  | tick (ms : Nat)
  | addWebhook (hook : Webhook)
  /-- `disable`, `enable`. -/
  | setStatus (webhookId : String) (status : ResourceStatus)
  | deleteWebhook (webhookId : String)
  | archive (organizationId : String)
  | restore (organizationId : String)
  | enqueue (orgIds : List String) (eventType eventId : String) (serializable : List String)
  | replay (organizationId deliveryId replayedById : String)
  | redrive (organizationId deliveryId id : String)
  /-- The first promise of a chain whose predecessors are settled begins its delay. -/
  | start (t : Scheduled)
  | proceed (x : Call) (id : String)
  /-- The signing secret is decrypted and the request is answered, or not. -/
  | respond (delivery : Delivery) (outcome : Outcome)
  /-- A call's next statement throws; what calls it swallows the error or answers with it. -/
  | breaks (x : Call)
  /-- The process dies and starts again, perhaps with another retry threshold. -/
  | restart (maxAttempts : Nat)
  | sweepAudit
  deriving DecidableEq

variable (w : World) (organizationId : String) (deliveryId : String)

/-- `findScoped` and the ownership check of `replayDelivery`. -/
def World.findScoped : Option Delivery :=
  w.deliveries.find? fun d =>
    d.id = deliveryId && (w.findWebhook d.webhookId).any fun h => h.organizationId = organizationId

def World.replay (replayedById : String) : Option World := do
  let _ ← w.findScoped organizationId deliveryId
  pure (w.call (.replaying deliveryId replayedById))

def World.redrive (id : String) : Option World := do
  let deadLetter ← w.findScoped organizationId deliveryId
  guard (deadLetter.deadLetteredAt.isSome ∧ deadLetter.redrivenAt = none ∧ w.isActive deadLetter.webhookId = true)
  let row := deadLetter.again id (redriveKey deadLetter.id)
  guard (w.accepts row = true ∧ w.auditDefaultRow = false)
  pure ((({ w with auditDefaultRow := true }.update deadLetter.id (.redriven w.clock)).create row).call
    (.created id row.webhookId))

def step : Event → Option World
  | .tick ms => some { w with clock := w.clock + ms }
  | .addWebhook hook =>
    if w.webhooks.all fun h => h.id ≠ hook.id then some { w with webhooks := w.webhooks ++ [hook] } else none
  | .setStatus webhookId status =>
    some { w with
      webhooks := Table.update (fun h => h.id = webhookId) (fun h => { h with status }) w.webhooks }
  | .deleteWebhook webhookId =>
    some { w with
      webhooks := Table.update (fun h => h.id = webhookId) (fun h => { h with status := .deleted }) w.webhooks
      circuits := deleteCircuitState w.circuits webhookId }
  | .archive organizationId => some { w with archived := organizationId :: w.archived }
  | .restore organizationId => some { w with archived := w.archived.filter (· ≠ organizationId) }
  | .enqueue orgIds eventType eventId serializable =>
    some (w.call (.enqueueing eventId (w.subscribers orgIds eventType serializable)))
  | .replay organizationId deliveryId replayedById => w.replay organizationId deliveryId replayedById
  | .redrive organizationId deliveryId id => w.redrive organizationId deliveryId id
  | .start t =>
    if w.isTurn t then
      some ({ w with queue := w.queue.erase t }.call (.waiting t.deliveryId t.webhookId (w.clock + t.delayMs)))
    else none
  | .proceed x id =>
    if x ∈ w.calls ∧ x.isReady w.clock = true ∧ (∀ d ∈ w.deliveries, d.id ≠ id) then some ((w.done x).next id x)
    else none
  | .respond delivery outcome =>
    if .sending delivery ∈ w.calls then some ((w.done (.sending delivery)).conclude delivery outcome) else none
  | .breaks x => if x ∈ w.calls then some (w.done x) else none
  | .restart maxAttempts => some { w with queue := w.pendingTasks, calls := [], maxAttempts }
  | .sweepAudit => some { w with auditDefaultRow := false }

end EarnProof.Webhooks
