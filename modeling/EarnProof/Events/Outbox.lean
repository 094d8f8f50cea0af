/-
  EarnProof.Events.Outbox — delivery of domain events from the transactional outbox
  (`src/common/events/domain-event-outbox.service.ts`).

  `processBatch` claims pending events under a lease and hands each one to the handlers
  registered for its type, in order. A handler that succeeds gets a consumer record and marks
  the event processed; one that fails puts the event back, or into quarantine. The event row
  has one status for all its handlers. Every write is a statement of its own, and the process
  may die before or after each of them; a batch that finds the lease of a dead process expired
  puts the event back and may claim it again.

  A batch is a function of the database, the clock and what happens at each handler of each
  event (`Outcome`), which is where it may die. The clock does not move during a batch, and
  batches follow one another: what one has left half done is what the next one finds.
-/
import Mathlib.Data.List.Sort
import EarnProof.Lib.Table

namespace EarnProof.Events

open Lib

def DEFAULT_OUTBOX_LEASE_MS : Int := 30000
def DEFAULT_MAX_OUTBOX_ATTEMPTS : Nat := 5

inductive DomainEventStatus where
  | pending | leased | processed | quarantined
  deriving DecidableEq

structure DomainEvent where
  id : String
  eventType : String
  status : DomainEventStatus
  leaseOwner : Option String
  leaseExpiresAt : Option Int
  attempts : Nat
  maxAttempts : Nat
  lastError : Option String
  processedAt : Option Int
  createdAt : Int
  deriving DecidableEq

structure ConsumerRecord where
  eventId : String
  consumerName : String
  processedAt : Int
  deriving DecidableEq

structure Db where
  events : List DomainEvent
  records : List ConsumerRecord
  ids : (events.map DomainEvent.id).Nodup

/-- `publish`: what delivery reads of the row. -/
def published (id eventType : String) (maxAttempts : Option Nat) (now : Int) : DomainEvent :=
  ⟨id, eventType, .pending, none, none, 0, maxAttempts.getD DEFAULT_MAX_OUTBOX_ATTEMPTS, none, none, now⟩

/-- `update` and `updateMany`; no update changes an id. -/
def Db.update (db : Db) (sel : DomainEvent → Bool) (data : DomainEvent → DomainEvent)
    (h : ∀ e, (data e).id = e.id) : Db :=
  ⟨Table.update sel data db.events, db.records, Table.nodup_update DomainEvent.id h db.ids⟩

def recorded (db : Db) (eventId consumerName : String) : Bool :=
  db.records.any fun r => r.eventId = eventId && r.consumerName = consumerName

def Db.record (db : Db) (eventId consumerName : String) (now : Int) : Db :=
  { db with records := db.records ++ [⟨eventId, consumerName, now⟩] }

/-! ## Claiming -/

def released (e : DomainEvent) : DomainEvent :=
  { e with status := .pending, leaseOwner := none, leaseExpiresAt := none }

theorem released_id (e : DomainEvent) : (released e).id = e.id := rfl

def releaseExpiredLeases (db : Db) (now : Int) : Db :=
  db.update (fun e => e.status = .leased && e.leaseExpiresAt.any (· ≤ now)) released released_id

/-- `createdAt` ascending, then `id`. -/
def Earlier (a b : DomainEvent) : Prop := a.createdAt < b.createdAt ∨ (a.createdAt = b.createdAt ∧ a.id ≤ b.id)
  deriving Decidable

def candidates (db : Db) (batchSize : Nat) : List DomainEvent :=
  ((db.events.filter fun e => e.status = .pending).insertionSort Earlier).take batchSize

section

variable (owner : String) (leaseExpiresAt : Int)

def leasedTo (e : DomainEvent) : DomainEvent :=
  { e with status := .leased, leaseOwner := some owner, leaseExpiresAt := some leaseExpiresAt }

theorem leasedTo_id (e : DomainEvent) : (leasedTo owner leaseExpiresAt e).id = e.id := rfl

/-- The conditional update of one candidate. -/
def claim (db : Db) (item : DomainEvent) : Db :=
  db.update (fun e => e.id = item.id && e.status = .pending) (leasedTo owner leaseExpiresAt)
    (leasedTo_id owner leaseExpiresAt)

end

/-- The claims, one by one, and the copies that are delivered. -/
def claimAll (owner : String) (leaseExpiresAt : Int) : Db → List DomainEvent → Db × List DomainEvent
  | db, [] => (db, [])
  | db, item :: items =>
    let rest := claimAll owner leaseExpiresAt (claim owner leaseExpiresAt db item) items
    if db.events.any fun e => e.id = item.id && e.status = .pending then
      (rest.1, leasedTo owner leaseExpiresAt item :: rest.2)
    else rest

/-- `reached` candidates are updated; the process dies when there are more. -/
def claimBatch (db : Db) (owner : String) (batchSize : Nat) (now : Int) (reached : Nat) : Db × List DomainEvent :=
  let db := releaseExpiredLeases db now
  claimAll owner (now + DEFAULT_OUTBOX_LEASE_MS) db ((candidates db batchSize).take reached)

/-! ## Delivering -/

/-- A character of `STELLAR_SECRET_SEED_PATTERN` after its first. -/
def isSeedChar (c : Char) : Bool := ('A' ≤ c && c ≤ 'Z') || ('2' ≤ c && c ≤ '7')

/-- `redactPayload` of a text: the first seed in it is replaced. -/
def redactSeed : List Char → List Char
  | [] => []
  | c :: cs =>
    if c = 'S' ∧ 55 ≤ cs.length ∧ (cs.take 55).all isSeedChar = true then "[REDACTED_SECRET_KEY]".toList ++ cs.drop 55
    else c :: redactSeed cs

def redactPayload (text : String) : String := String.ofList (redactSeed text.toList)

/-- What happens when an event is handed to a handler that has no record of it. -/
inductive Outcome where
  | processed
  /-- `handle` throws, or the record is not written. -/
  | failed (error : String)
  /-- The record is written; marking the event processed fails. -/
  | unmarked (error : String)
  /-- The process dies, or a statement outside the `try` or in the `catch` throws, before or
      after the record was written. -/
  | stopped (recorded : Bool)
  deriving DecidableEq

def Outcome.records : Outcome → Bool
  | .processed | .unmarked _ | .stopped true => true
  | .failed _ | .stopped false => false

inductive ProcessOutcome where
  | processed (eventId consumerName : String)
  | duplicateSkipped (eventId consumerName : String)
  | failedRetryable (eventId : String) (attempts : Nat) (error : String)
  | quarantined (eventId : String) (attempts : Nat) (error : String)
  deriving DecidableEq

def markProcessed (now : Int) (e : DomainEvent) : DomainEvent :=
  { e with status := .processed, processedAt := some now, leaseOwner := none, leaseExpiresAt := none }

section

variable (event : DomainEvent)

/-- The attempts are those of the copy that was claimed. -/
def isPoison : Bool := event.maxAttempts ≤ event.attempts + 1

def failureStatus : DomainEventStatus := if isPoison event then .quarantined else .pending

def markFailed (error : String) (e : DomainEvent) : DomainEvent :=
  { e with status := failureStatus event, attempts := event.attempts + 1, lastError := some (redactPayload error),
           leaseOwner := none, leaseExpiresAt := none }

theorem markProcessed_id (now : Int) (e : DomainEvent) : (markProcessed now e).id = e.id := rfl

theorem markFailed_id (error : String) (e : DomainEvent) : (markFailed event error e).id = e.id := rfl

def failureOutcome (error : String) : ProcessOutcome :=
  if isPoison event then .quarantined event.id (event.attempts + 1) (redactPayload error)
  else .failedRetryable event.id (event.attempts + 1) (redactPayload error)

end

def Db.markProcessed (db : Db) (id : String) (now : Int) : Db :=
  db.update (fun e => e.id = id) (Events.markProcessed now) (markProcessed_id now)

def Db.markFailed (db : Db) (event : DomainEvent) (error : String) : Db :=
  db.update (fun e => e.id = event.id) (Events.markFailed event error) (markFailed_id event error)

/-- `none`: the batch ends here. -/
def processEventWithConsumer (now : Int) (db : Db) (event : DomainEvent) (consumerName : String) (outcome : Outcome) :
    Db × Option ProcessOutcome :=
  if recorded db event.id consumerName then
    match outcome with
    | .stopped _ => (db, none)
    | _ => (db, some (.duplicateSkipped event.id consumerName))
  else
    match outcome with
    | .processed =>
      ((db.record event.id consumerName now).markProcessed event.id now, some (.processed event.id consumerName))
    | .failed error => (db.markFailed event error, some (failureOutcome event error))
    | .unmarked error => ((db.record event.id consumerName now).markFailed event error,
      some (failureOutcome event error))
    | .stopped true => (db.record event.id consumerName now, none)
    | .stopped false => (db, none)

structure Progress where
  db : Db
  outcomes : List ProcessOutcome
  /-- The events that were handed to all their handlers. -/
  finished : List DomainEvent
  /-- The batch goes on. -/
  alive : Bool

/-- The handlers of one event in turn. -/
def deliver (now : Int) (event : DomainEvent) : Db → List (String × Outcome) → Db × List ProcessOutcome × Bool
  | db, [] => (db, [], true)
  | db, (consumerName, outcome) :: runs =>
    match processEventWithConsumer now db event consumerName outcome with
    | (db, none) => (db, [], false)
    | (db, some result) =>
      let rest := deliver now event db runs
      (rest.1, result :: rest.2.1, rest.2.2)

/-- What happens at each handler of an event, by its position. -/
abbrev Happenings := String → Nat → Outcome

def runsOf (handlers : List String) (happens : Nat → Outcome) : List (String × Outcome) :=
  handlers.zipIdx.map fun h => (h.1, happens h.2)

def Outcome.isStop : Outcome → Bool
  | .stopped _ => true
  | _ => false

variable (consumers : String → List String)

def processEvent (now : Int) (happens : Happenings) (db : Db) (event : DomainEvent) :
    Db × List ProcessOutcome × Bool :=
  let handlers := consumers event.eventType
  if handlers = [] then
    if (happens event.id 0).isStop then (db, [], false)
    else (db.markProcessed event.id now, [.processed event.id "noop"], true)
  else deliver now event db (runsOf handlers (happens event.id))

def processAll (consumers : String → List String) (now : Int) (happens : Happenings) : Db → List DomainEvent → Progress
  | db, [] => ⟨db, [], [], true⟩
  | db, event :: events =>
    match processEvent consumers now happens db event with
    | (db, outcomes, false) => ⟨db, outcomes, [], false⟩
    | (db, outcomes, true) =>
      let rest := processAll consumers now happens db events
      ⟨rest.db, outcomes ++ rest.outcomes, event :: rest.finished, rest.alive⟩

/-- A batch and where it ends: `reached` bounds the claims it gets to make. -/
def processBatch (db : Db) (owner : String) (batchSize : Nat) (now : Int) (reached : Nat)
    (happens : Happenings) : Progress :=
  let claimed := claimBatch db owner batchSize now reached
  if reached < (candidates (releaseExpiredLeases db now) batchSize).length then ⟨claimed.1, [], [], false⟩
  else processAll consumers now happens claimed.1 claimed.2

end EarnProof.Events
