/-
  EarnProof.Idempotency.Records — idempotency records (`src/common/services/idempotency.service.ts`),
  the interceptor that runs a handler under them (`src/common/interceptors/idempotent.interceptor.ts`)
  and the client's cancellation (`src/common/idempotency/idempotent-operation.controller.ts`).

  A request looks its key up, reserves it, runs the handler and writes the outcome, each in a
  statement of its own; any number of requests are under way at once, on any servers. The
  outcome is written after the client has its answer. `reserve` is up to three statements: the
  insert, and when the unique `(organizationId, idempotencyKey)` refuses it, a read and an
  update of `attemptCount`. A cancellation reads the record and writes it. Records go when
  retention or the deletion of their organization removes them; `expiresAt` is read by neither
  `check` nor `reserve`.

  `runs` and `replies` are ghosts: the handler runs in the order they were started, with the
  record there was then, and the answers given from stored records.

  Two requests that look a key up before either has reserved it both go on: the one whose
  insert is refused counts itself as an attempt and runs the handler too (`raced`). Proved:
  where `reserve` never meets a record of its own key and fingerprint, a handler is started
  once for each record, so it succeeds at most once (`handler_runs_once`).
-/
import EarnProof.Lib.Run
import EarnProof.Lib.Table
import EarnProof.Lib.Result
import EarnProof.Common.Crypto

namespace EarnProof.Idempotency

open Lib Lib.Table Lib.Result List

/-! ## Records -/

inductive IdempotencyStatus where
  | pending | completed | failed | cancelled
  deriving DecidableEq

structure Call where
  organizationId : String
  idempotencyKey : String
  requestFingerprint : String
  deriving DecidableEq

structure IdempotencyRecord where
  id : Nat
  organizationId : String
  idempotencyKey : String
  requestFingerprint : String
  status : IdempotencyStatus
  responseBody : Option Json
  responseStatusCode : Option Nat
  attemptCount : Nat
  cancellationReason : Option String
  deriving DecidableEq

/-- The unique `organizationId_idempotencyKey`. -/
def IdempotencyRecord.key (r : IdempotencyRecord) : String × String := (r.organizationId, r.idempotencyKey)

def Call.key (c : Call) : String × String := (c.organizationId, c.idempotencyKey)

def IdempotencyRecord.call (r : IdempotencyRecord) : Call := ⟨r.organizationId, r.idempotencyKey, r.requestFingerprint⟩

def maxKeyLength : Nat := 255

/-- A character of `keyPattern`. -/
def isKeyChar (c : Char) : Bool := c.isAlphanum || c = '_' || c = '-'

def validateKey (key : String) : Except String Unit := do
  require (key ≠ "") "Idempotency key is required and must not be empty"
  require ((Json.codeUnits key).length ≤ maxKeyLength) "Idempotency key exceeds maximum length of 255 characters"
  require (key.toList.all isKeyChar = true)
    "Idempotency key must contain only alphanumeric characters, dashes, and underscores"

/-- `JSON.stringify` leaves an undefined body out. -/
def computeFingerprint (method path : String) (body : Option Json) : String :=
  Sha256.hex (Json.stringify
    (.obj ([("method", .str method), ("path", .str path)] ++ body.toList.map fun b => ("body", b))))

def findRecord (records : List IdempotencyRecord) (key : String × String) : Option IdempotencyRecord :=
  records.find? fun r => r.key = key

/-- `none` is `isNew`. -/
def check (records : List IdempotencyRecord) (c : Call) : Except String (Option IdempotencyRecord) :=
  match findRecord records c.key with
  | none => .ok none
  | some existing =>
    if existing.requestFingerprint ≠ c.requestFingerprint then
      .error ("Idempotency key was used with a different request payload. " ++
        "Use a new key or retry with the same payload.")
    else .ok (some existing)

def reserved (id : Nat) (c : Call) : IdempotencyRecord :=
  ⟨id, c.organizationId, c.idempotencyKey, c.requestFingerprint, .pending, none, none, 1, none⟩

/-! ### What is stored of a response -/

/-- The field patterns; the flag marks the one that ends in `$`. All ignore case. -/
def sensitivePatterns : List (String × Bool) :=
  [("secret", false), ("token", false), ("password", false), ("apikey", false), ("key", true), ("private", false),
    ("signature", false), ("amountencrypted", false), ("hash", false)]

def isSensitive (key : String) : Bool :=
  let lower := key.toList.map Char.toLower
  sensitivePatterns.any fun p => if p.2 then lower = p.1.toList else p.1.toList.isPrefixOf lower

mutual

def stripSensitiveFields : Json → Json
  | .arr xs => .arr (stripElems xs)
  | .obj ms => .obj (Json.assignAll (stripMembers ms))
  | v => v

def stripElems : List Json → List Json
  | [] => []
  | x :: xs => stripSensitiveFields x :: stripElems xs

def stripMembers : List (String × Json) → List (String × Json)
  | [] => []
  | (k, v) :: ms => if isSensitive k then stripMembers ms else (k, stripSensitiveFields v) :: stripMembers ms

end

variable (records : List IdempotencyRecord) (w : World)

/-- `updateMany` by organization and key, whatever the status. -/
def success (c : Call) (responseBody : Json) (responseStatusCode : Nat) : List IdempotencyRecord :=
  Table.update (fun r => r.key = c.key)
    (fun r => { r with status := .completed, responseBody := some (stripSensitiveFields responseBody),
                       responseStatusCode := some responseStatusCode }) records

def failure (c : Call) : List IdempotencyRecord :=
  Table.update (fun r => r.key = c.key) (fun r => { r with status := .failed }) records

/-- The checks of `cancel`: the record to be written. -/
def cancellable (key : String × String) : Except String IdempotencyRecord := do
  let existing ← orThrow (findRecord records key) "Idempotent operation not found"
  require (existing.status ≠ .completed) "Cannot cancel an operation that has already completed"
  pure existing

def cancelled (reason : Option String) (r : IdempotencyRecord) : IdempotencyRecord :=
  { r with status := .cancelled, cancellationReason := some (reason.getD "Operation cancelled by client") }

/-! ## The interceptor -/

structure IdempotentOptions where
  headerName : String
  required : Bool
  deriving DecidableEq

def routeOptions : IdempotentOptions := ⟨"idempotency-key", true⟩

structure Request where
  requestId : Option String
  /-- Set by middleware. The routes are behind `AuthGuard`, so there is a user. -/
  organizationId : Option String
  idempotencyKey : Option String
  method : String
  path : String
  body : Option Json
  deriving DecidableEq

/-- `intercept` before its first query; `none` runs the handler without a record. -/
def intercept (options : IdempotentOptions) (r : Request) : Except String (Option Call) :=
  match r.idempotencyKey.filter (· ≠ "") with
  | none =>
    if options.required then
      .error ("Idempotency key is required. Provide it via the \"" ++ options.headerName ++ "\" header.")
    else .ok none
  | some key => do
    validateKey key
    let organizationId := (r.organizationId.filter (· ≠ "")).getD "org-placeholder"
    pure (some ⟨organizationId, key, computeFingerprint r.method r.path r.body⟩)

structure Reply where
  statusCode : Nat
  body : Json
  deriving DecidableEq

/-- `code || fallback`. -/
def codeOr (code fallback : Nat) : Nat := if code = 0 then fallback else code

/-- The answer to a request whose key has a record; an absent body is sent as `null`. -/
def replay (requestId : Option String) (record : IdempotencyRecord) : Reply :=
  if record.status = .pending then
    ⟨408, .obj ([("statusCode", .num (Num.ofNat 408)), ("code", .str "REQUEST_TIMEOUT"),
        ("message", .str "Previous idempotent request is still being processed. Please retry.")] ++
        requestId.toList.map fun id => ("requestId", .str id))⟩
  else ⟨codeOr (record.responseStatusCode.getD 0) 200, record.responseBody.getD .null⟩

/-! ## The system -/

inductive Outcome where
  | succeeded (body : Json) (statusCode : Nat)
  | failed
  deriving DecidableEq

structure HandlerRun where
  id : Nat
  call : Call
  /-- The record there was for the key when the handler was started. -/
  record : Option Nat
  outcome : Option Outcome
  deriving DecidableEq

inductive Stage where
  /-- `check` found no record; the insert is next. -/
  | checked
  /-- The insert met a record; reading it is next. -/
  | conflicted
  /-- The record that was read, and its `attemptCount`; writing the next one follows. -/
  | counting (id attemptCount : Nat)
  | running (run : Nat)
  /-- The handler has ended; the outcome is yet to be written. -/
  | ended (run : Nat)
  deriving DecidableEq

structure Task where
  call : Call
  stage : Stage
  deriving DecidableEq

structure Answer where
  call : Call
  /-- The status of the record the request was answered from. -/
  status : IdempotencyStatus
  reply : Reply
  deriving DecidableEq

structure World where
  records : List IdempotencyRecord
  nextId : Nat
  tasks : List Task
  /-- Records that a cancellation has checked and is about to write. -/
  cancelling : List (Nat × Option String)
  runs : List HandlerRun
  replies : List Answer
  deriving DecidableEq

def World.start : World := ⟨[], 0, [], [], [], []⟩

variable (x : Task)

def World.advance (stage : Stage) : World :=
  { w with tasks := w.tasks.erase x ++ [⟨x.call, stage⟩] }

def World.leave : World := { w with tasks := w.tasks.erase x }

/-- `next.handle()`. -/
def World.startHandler (record : Option Nat) : World :=
  { w.advance x (.running w.runs.length) with runs := w.runs ++ [⟨w.runs.length, x.call, record, none⟩] }

def outcomeOf (runs : List HandlerRun) (run : Nat) : Option Outcome :=
  (runs.find? fun r => r.id = run).bind HandlerRun.outcome

def endRun (runs : List HandlerRun) (run : Nat) (outcome : Outcome) : List HandlerRun :=
  Table.update (fun r => r.id = run && r.outcome.isNone) (fun r => { r with outcome := some outcome }) runs

inductive Event where
  | check (r : Request)
  /-- The insert of `reserve`. -/
  | insert (x : Task)
  /-- Its read, after the insert was refused. -/
  | reread (x : Task)
  | count (x : Task)
  | handlerReturns (x : Task) (body : Json) (statusCode : Nat)
  | handlerThrows (x : Task)
  /-- `success` or `failure`. -/
  | store (x : Task)
  /-- A statement of the request fails, or its server dies. -/
  | abandon (x : Task)
  | cancel (key : String × String) (reason : Option String)
  | writeCancelled (c : Nat × Option String)
  /-- Retention, or the deletion of the organization. -/
  | remove (id : Nat)
  deriving DecidableEq

/-- `check`, and the answer where there is a record. -/
def World.check (r : Request) : World :=
  match intercept routeOptions r with
  | .ok (some c) =>
    match Idempotency.check w.records c with
    | .error _ => w
    | .ok none => { w with tasks := w.tasks ++ [⟨c, .checked⟩] }
    | .ok (some record) => { w with replies := w.replies ++ [⟨c, record.status, replay r.requestId record⟩] }
  | _ => w

def World.insert : World :=
  match findRecord w.records x.call.key with
  | some _ => w.advance x .conflicted
  | none =>
    { w.startHandler x (some w.nextId) with
        records := w.records ++ [reserved w.nextId x.call], nextId := w.nextId + 1 }

def World.reread : World :=
  match findRecord w.records x.call.key with
  | none => w.startHandler x none
  | some existing =>
    if existing.requestFingerprint ≠ x.call.requestFingerprint then w.leave x
    else w.advance x (.counting existing.id existing.attemptCount)

/-- The update by id throws when the record is gone. -/
def World.count (id attemptCount : Nat) : World :=
  if w.records.any fun r => r.id = id then
    { w.startHandler x (some id) with
        records := Table.update (fun r => r.id = id) (fun r => { r with attemptCount := attemptCount + 1 }) w.records }
  else w.leave x

def World.endHandler (run : Nat) (outcome : Outcome) : World :=
  { w.advance x (.ended run) with runs := endRun w.runs run outcome }

def World.store : Outcome → World
  | .succeeded body statusCode => { w.leave x with records := success w.records x.call body statusCode }
  | .failed => { w.leave x with records := failure w.records x.call }

def World.writeCancelled (c : Nat × Option String) : World :=
  { w with cancelling := w.cancelling.erase c, records := Table.update (fun r => r.id = c.1) (cancelled c.2) w.records }

/-- An event of a task is enabled while the task is at the stage the event is for. -/
def step : Event → Option World
  | .check r => some (w.check r)
  | .insert x => if x ∈ w.tasks ∧ x.stage = .checked then some (w.insert x) else none
  | .reread x => if x ∈ w.tasks ∧ x.stage = .conflicted then some (w.reread x) else none
  | .count x =>
    match x.stage with
    | .counting id attemptCount => if x ∈ w.tasks then some (w.count x id attemptCount) else none
    | _ => none
  | .handlerReturns x body statusCode =>
    match x.stage with
    | .running run => if x ∈ w.tasks then some (w.endHandler x run (.succeeded body (codeOr statusCode 201))) else none
    | _ => none
  | .handlerThrows x =>
    match x.stage with
    | .running run => if x ∈ w.tasks then some (w.endHandler x run .failed) else none
    | _ => none
  | .store x =>
    match x.stage with
    | .ended run => if x ∈ w.tasks then (outcomeOf w.runs run).map (w.store x) else none
    | _ => none
  | .abandon x => if x ∈ w.tasks then some (w.leave x) else none
  | .cancel key reason =>
    match cancellable w.records key with
    | .ok existing => some { w with cancelling := w.cancelling ++ [(existing.id, reason)] }
    | .error _ => some w
  | .writeCancelled c => if c ∈ w.cancelling then some (w.writeCancelled c) else none
  | .remove id => some { w with records := w.records.filter fun r => r.id ≠ id }

/-! ## What a step does -/

variable {records : List IdempotencyRecord} {key : String × String} {r : IdempotencyRecord} {c : Call} {w : World}
  {x : Task}

theorem findRecord_eq_some (h : findRecord records key = some r) : r ∈ records ∧ r.key = key :=
  of_find? h

theorem findRecord_eq_none (h : findRecord records key = none) (hr : r ∈ records) : r.key ≠ key := by
  intro he
  exact find?_eq_none.mp h r hr (decide_eq_true he)

/-- A record of the key with the fingerprint is a record of the call. -/
theorem call_eq_of_key (hkey : r.key = c.key)
    (hprint : r.requestFingerprint = c.requestFingerprint) : r.call = c := by
  obtain ⟨horg, hidem⟩ := Prod.ext_iff.mp hkey
  cases c
  simp only [IdempotencyRecord.call, Call.mk.injEq]
  exact ⟨horg, hidem, hprint⟩

theorem check_eq_some {record : IdempotencyRecord}
    (h : check records c = .ok (some record)) : record ∈ records ∧ record.call = c := by
  unfold check at h
  split at h
  · cases h
  · rename_i existing hfind
    obtain ⟨hmem, hkey⟩ := findRecord_eq_some hfind
    split at h
    · cases h
    · rename_i hprint
      obtain rfl := Option.some.inj (Except.ok.inj h)
      exact ⟨hmem, call_eq_of_key hkey (not_not.mp hprint)⟩

inductive Effect (w : World) : Event → World → Prop
  | idle (e : Event) : Effect w e w
  | checked (r : Request) (c : Call) : Effect w (.check r) { w with tasks := w.tasks ++ [⟨c, .checked⟩] }
  | answered (r : Request) record (hrecord : record ∈ w.records) :
      Effect w (.check r)
        { w with replies := w.replies ++ [⟨record.call, record.status, replay r.requestId record⟩] }
  | inserted x (hx : x ∈ w.tasks) (hnew : findRecord w.records x.call.key = none) :
      Effect w (.insert x) { w.startHandler x (some w.nextId) with
        records := w.records ++ [reserved w.nextId x.call], nextId := w.nextId + 1 }
  | refused x (hx : x ∈ w.tasks) r (hfind : findRecord w.records x.call.key = some r) :
      Effect w (.insert x) (w.advance x .conflicted)
  | unrecorded x (hx : x ∈ w.tasks) (hstage : x.stage = .conflicted) (hnone : findRecord w.records x.call.key = none) :
    Effect w (.reread x) (w.startHandler x none)
  | counting x (hx : x ∈ w.tasks) (hstage : x.stage = .conflicted) r (hfind : findRecord w.records x.call.key = some r)
      (hcall : r.call = x.call) : Effect w (.reread x) (w.advance x (.counting r.id r.attemptCount))
  | counted x (hx : x ∈ w.tasks) id attemptCount (hstage : x.stage = .counting id attemptCount) :
      Effect w (.count x) { w.startHandler x (some id) with
        records := Table.update (fun r => r.id = id) (fun r => { r with attemptCount := attemptCount + 1 }) w.records }
  | ended e x (hx : x ∈ w.tasks) run (hstage : x.stage = .running run) outcome
      (hcode : ∀ body code, outcome = .succeeded body code → code ≠ 0) : Effect w e (w.endHandler x run outcome)
  | stored x (hx : x ∈ w.tasks) run (hstage : x.stage = .ended run) outcome
    (hrun : outcomeOf w.runs run = some outcome) : Effect w (.store x) (w.store x outcome)
  | left e x (hx : x ∈ w.tasks) : Effect w e (w.leave x)
  | cancelling key reason (r : IdempotencyRecord) :
    Effect w (.cancel key reason) { w with cancelling := w.cancelling ++ [(r.id, reason)] }
  | cancelled c : Effect w (.writeCancelled c) (w.writeCancelled c)
  | removed id : Effect w (.remove id) { w with records := w.records.filter fun r => r.id ≠ id }

theorem check_effect (w : World) (r : Request) : Effect w (.check r) (w.check r) := by
  unfold World.check
  split
  · rename_i c _
    split
    · exact .idle _
    · exact .checked r c
    · rename_i record hcheck
      obtain ⟨hmem, rfl⟩ := check_eq_some hcheck
      exact .answered r record hmem
  · exact .idle _

theorem reread_effect (hx : x ∈ w.tasks) (hstage : x.stage = .conflicted) : Effect w (.reread x) (w.reread x) := by
  unfold World.reread
  split
  · rename_i hnone
    exact .unrecorded x hx hstage hnone
  · rename_i r hfind
    split
    · exact .left _ x hx
    · rename_i hprint
      exact .counting x hx hstage r hfind (call_eq_of_key (findRecord_eq_some hfind).2 (not_not.mp hprint))

theorem step_effect {w w' : World} {e : Event} (h : step w e = some w') : Effect w e w' := by
  cases e with
  | check r =>
    cases h
    exact check_effect w r
  | insert =>
    obtain ⟨⟨hx, -⟩, rfl⟩ := enabled h
    unfold World.insert
    split
    · exact .refused _ hx _ ‹_›
    · exact .inserted _ hx ‹_›
  | reread =>
    obtain ⟨⟨hx, hstage⟩, rfl⟩ := enabled h
    exact reread_effect hx hstage
  | count x =>
    simp only [step] at h
    split at h
    · rename_i id attemptCount hstage
      obtain ⟨hx, rfl⟩ := enabled h
      unfold World.count
      split
      · exact .counted x hx id attemptCount hstage
      · exact .left _ x hx
    · cases h
  | handlerReturns x body statusCode =>
    simp only [step] at h
    split at h
    · rename_i run hstage
      obtain ⟨hx, rfl⟩ := enabled h
      refine .ended _ x hx run hstage _ ?_
      intro body' code hout
      obtain ⟨-, rfl⟩ := Outcome.succeeded.inj hout
      unfold codeOr
      split
      · decide
      · assumption
    · cases h
  | handlerThrows x =>
    simp only [step] at h
    split at h
    · rename_i run hstage
      obtain ⟨hx, rfl⟩ := enabled h
      exact .ended _ x hx run hstage _ (by simp)
    · cases h
  | store x =>
    simp only [step] at h
    split at h
    · rename_i run hstage
      simp only [Option.ite_none_right_eq_some, Option.map_eq_some_iff] at h
      obtain ⟨hx, outcome, hrun, rfl⟩ := h
      exact .stored x hx run hstage outcome hrun
    · cases h
  | abandon x =>
    obtain ⟨hx, rfl⟩ := enabled h
    exact .left _ x hx
  | cancel key reason =>
    simp only [step] at h
    split at h
    · rename_i r _
      cases h
      exact .cancelling key reason r
    · cases h
      exact .idle _
  | writeCancelled c =>
    obtain ⟨-, rfl⟩ := enabled h
    exact .cancelled c
  | remove id =>
    cases h
    exact .removed id

theorem mem_advance {x y : Task} {stage : Stage} (h : y ∈ (w.advance x stage).tasks) :
    y ∈ w.tasks ∨ y = ⟨x.call, stage⟩ := by
  rcases mem_append.mp h with h | h
  · exact .inl (mem_of_mem_erase h)
  · exact .inr (mem_singleton.mp h)

def Outcome.isSuccess : Outcome → Bool
  | .succeeded _ _ => true
  | .failed => false

def HandlerRun.succeededUnder (r : HandlerRun) (id : Nat) : Bool :=
  r.record = some id && r.outcome.any Outcome.isSuccess

/-- During the lifetime of a record the handler is started again only after every earlier
    start for the key has failed. -/
def Exclusive (w : World) : Prop :=
  w.runs.Pairwise fun a b => a.call.key = b.call.key → a.record = b.record → a.outcome = some .failed
  deriving Decidable

/-- `reserve` never meets a record of its own key and fingerprint: no other request has
    reserved the key since this one looked it up. A record that refused an insert is still
    there when it is read. -/
def Unraced (w : World) : Event → Prop
  | .insert x => ∀ r ∈ w.records, r.call ≠ x.call
  | .reread x => ∃ r ∈ w.records, r.key = x.call.key ∧ ∀ s ∈ w.records, s.call ≠ x.call
  | _ => True

instance (e : Event) : Decidable (Unraced w e) := by
  cases e <;> unfold Unraced <;> infer_instance

/-- Every run was started under a record of its own. -/
structure Sole (w : World) : Prop where
  recorded : ∀ r ∈ w.runs, ∃ id < w.nextId, r.record = some id
  apart : (w.runs.map HandlerRun.record).Nodup
  uncounted : ∀ x ∈ w.tasks, ∀ id attemptCount, x.stage ≠ .counting id attemptCount

variable {w' : World}

/-- A step that starts no handler, and moves a task to a stage other than counting. -/
theorem Sole.frame (h : Sole w) (hruns : w'.runs.map HandlerRun.record = w.runs.map HandlerRun.record)
    (hid : w'.nextId = w.nextId)
    (htasks : ∀ y ∈ w'.tasks, y ∈ w.tasks ∨ ∀ id attemptCount, y.stage ≠ .counting id attemptCount) : Sole w' := by
  refine ⟨?_, ?_, ?_⟩
  · intro r hr
    have hm : r.record ∈ w.runs.map HandlerRun.record := hruns ▸ mem_map_of_mem hr
    obtain ⟨r₀, hr₀, he⟩ := mem_map.mp hm
    rw [hid, ← he]
    exact h.recorded r₀ hr₀
  · rw [hruns]
    exact h.apart
  · intro y hy
    rcases htasks y hy with hold | hnew
    · exact h.uncounted y hold
    · exact hnew

/-- A handler that is started with the record its request has just inserted. -/
theorem Sole.inserted (h : Sole w) (x : Task) (records : List IdempotencyRecord) :
    Sole { w.startHandler x (some w.nextId) with records, nextId := w.nextId + 1 } := by
  refine ⟨?_, ?_, ?_⟩
  · refine forall_append_row (fun r hr => ?_) ⟨w.nextId, Nat.lt_succ_self _, rfl⟩
    obtain ⟨id, hid, hrec⟩ := h.recorded r hr
    exact ⟨id, Nat.lt_succ_of_lt hid, hrec⟩
  · show ((w.runs ++ [_]).map HandlerRun.record).Nodup
    rw [map_append]
    refine List.Nodup.append h.apart (nodup_singleton _) ?_
    intro record hold hnew
    -- the record is new, so no earlier run has it
    obtain ⟨r, hr, rfl⟩ := mem_map.mp hold
    obtain ⟨id, hid, hrec⟩ := h.recorded r hr
    rw [map_singleton, mem_singleton, hrec] at hnew
    have := Option.some.inj hnew
    omega
  · intro y hy
    rcases mem_advance hy with hold | rfl
    · exact h.uncounted y hold
    · intro id attemptCount hstage
      cases hstage

theorem Sole.step {e : Event} (h : Sole w) (hok : Unraced w e) (hstep : step w e = some w') : Sole w' := by
  cases step_effect hstep with
  | idle => exact h
  | checked =>
    refine h.frame rfl rfl ?_
    exact forall_append_row (fun y hy => .inl hy) (.inr nofun)
  | inserted x => exact h.inserted x _
  | refused =>
    refine h.frame rfl rfl ?_
    intro y hy
    rcases mem_advance hy with hy | rfl
    · exact .inl hy
    · exact .inr nofun
  | unrecorded x hx hstage hnone =>
    obtain ⟨r, hr, hkey, -⟩ := hok
    exact absurd hkey (findRecord_eq_none hnone hr)
  | counting x hx hstage r hfind hcall =>
    obtain ⟨-, -, -, hdiffer⟩ := hok
    exact absurd hcall (hdiffer r (findRecord_eq_some hfind).1)
  | counted x hx id attemptCount hstage => exact absurd hstage (h.uncounted x hx id attemptCount)
  | ended =>
    refine h.frame (map_update HandlerRun.record fun _ => rfl) rfl ?_
    intro y hy
    rcases mem_advance hy with hy | rfl
    · exact .inl hy
    · exact .inr nofun
  | stored x hx run hstage outcome =>
    cases outcome with
    | succeeded | failed => exact h.frame rfl rfl fun y hy => .inl (mem_of_mem_erase hy)
  | left => exact h.frame rfl rfl fun y hy => .inl (mem_of_mem_erase hy)
  | _ => exact h.frame rfl rfl fun y hy => .inl hy

theorem Sole.exclusive (h : Sole w) : Exclusive w := by
  have hapart : w.runs.Pairwise fun a b => a.record ≠ b.record := pairwise_map.mp h.apart
  refine hapart.imp ?_
  intro a b hne _ heq
  exact absurd heq hne

theorem Sole.succeeded_le (h : Sole w) (id : Nat) : w.runs.countP (HandlerRun.succeededUnder · id) ≤ 1 :=
  calc w.runs.countP (HandlerRun.succeededUnder · id)
      ≤ w.runs.countP (fun r => r.record = some id) := by
        apply countP_mono_left
        intro r _ hr
        exact (Bool.and_eq_true_iff.mp hr).1
    _ = (w.runs.map HandlerRun.record).count (some id) := by
        rw [List.count, countP_map]
        apply countP_congr
        intro r _
        simp
    _ ≤ 1 := nodup_iff_count_le_one.mp h.apart (some id)

/-- Where no reservation meets another of the same request, the handler runs once for each
    record. -/
theorem handler_runs_once {w : World} (h : Run step Unraced World.start w) :
    Exclusive w ∧ ∀ id, w.runs.countP (HandlerRun.succeededUnder · id) ≤ 1 := by
  have hsole : Sole w :=
    h.invariant (by constructor <;> simp [World.start]) fun a e b ha hok hs => ha.step hok hs
  exact ⟨hsole.exclusive, hsole.succeeded_le⟩

/-! ## Two requests with one key -/

def sampleRequest : Request :=
  ⟨none, some "org_1", some "pay-1", "POST", "/proofs/minimum-income", some (.obj [("thresholdAmount", .str "100")])⟩

def sampleCall : Call :=
  ⟨"org_1", "pay-1", computeFingerprint sampleRequest.method sampleRequest.path sampleRequest.body⟩

def sampleBody : Json := .obj [("proofId", .str "prf_1")]

/-- A request that is first to reserve its key, up to its handler's result. -/
def reserving (run : Nat) : List Event :=
  [.insert ⟨sampleCall, .checked⟩, .handlerReturns ⟨sampleCall, .running run⟩ sampleBody 201]

/-- A retry that comes after the outcome was stored is answered from it. -/
theorem handler_runs_once_retried : ∃ w, Run step Unraced World.start w ∧ w.replies.length = 1 ∧ Exclusive w ∧
      w.runs.countP (HandlerRun.succeededUnder · 0) = 1 := by
  refine Run.exists_and (P := fun w => w.replies.length = 1 ∧ w.runs.countP (HandlerRun.succeededUnder · 0) = 1)
    ([.check sampleRequest] ++ reserving 0 ++ [.store ⟨sampleCall, .ended 0⟩, .check sampleRequest])
    fun w hrun ⟨hreplies, hcount⟩ => ?_
  exact ⟨hreplies, (handler_runs_once hrun).1, hcount⟩

/-- Both requests look the key up before either reserves it, and both run the handler. -/
theorem raced :
    ∃ w, Run step anyStep World.start w ∧ ¬ Exclusive w ∧ w.runs.countP (HandlerRun.succeededUnder · 0) = 2 :=
  Run.exists_of_replay
    ([.check sampleRequest, .check sampleRequest] ++ reserving 0 ++
      [.insert ⟨sampleCall, .checked⟩, .reread ⟨sampleCall, .conflicted⟩, .count ⟨sampleCall, .counting 0 1⟩,
      .handlerReturns ⟨sampleCall, .running 1⟩ sampleBody 201])

end EarnProof.Idempotency
