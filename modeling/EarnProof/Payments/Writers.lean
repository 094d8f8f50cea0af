/-
  EarnProof.Payments.Writers — everything that writes the payments table, as one system:
  the live syncs (`Payments.Sync`), the pages of historical backfills (`Payments.Backfill`),
  `updateClassification` of `src/payments/payments.service.ts`, and the evaluations of
  `src/payments/payment-eligibility.service.ts` with the decisions they record.

  A page may come at any time: what a backfill's lease allows is in `Payments.Backfill`. A
  classification update and an evaluation are tasks, one access at a time, like a sync. An
  evaluation begins with a query for payments (`evaluatePayments`, `reevaluateSource`,
  `reevaluateBatch`, and `explain` when it has to evaluate); which rows the query returns is
  part of the event, and so are the registry and the trusted sources. A transaction may fail
  (for `record`, the unique index on the active decision) and then writes nothing.

  The revision of a payment's classification is a column of its row, kept here by payment id.
  Audit rows, the dates and ids of history rows and what `explain` answers are left out.
  `trail` is ghost state: the classification updates and the resets by a sync, in order.

  What an event does is said once: to the tables (`step_effect`) and to a payment's row
  (`step_rows`). No row goes away (`step_continues`), and none changes its id or its operation.
-/
import EarnProof.Payments.Backfill
import EarnProof.Payments.SyncSteps

namespace EarnProof.Payments.Writers

open Lib Lib.Table Lib.Calendar Database Stellar List

/-! ## Tables -/

inductive DecisionTrigger where
  | sync | classificationChanged | trustedSourceChanged | assetPolicyChanged | policyMigration
  deriving DecidableEq

/-- `isActive` is TRUE or NULL. -/
structure PaymentEligibilityDecision extends EligibilityDecision where
  paymentId : String
  userId : String
  trigger : DecisionTrigger
  evaluatedAt : Date
  supersededAt : Option Date
  isActive : Bool
  deriving DecidableEq

structure PaymentClassificationHistory where
  paymentId : String
  actorId : String
  previousClassification : PaymentClassification
  newClassification : PaymentClassification
  reasonCode : String
  classificationRevision : Nat
  deriving DecidableEq

def PaymentEligibilityDecision.activeFor (paymentId : String) (d : PaymentEligibilityDecision) : Bool :=
  d.paymentId = paymentId ∧ d.isActive

def PaymentEligibilityDecision.repeats (d : PaymentEligibilityDecision) (decision : EligibilityDecision) : Bool :=
  d.policyVersion = decision.policyVersion ∧ d.inputsHash = decision.inputsHash

/-! ## Tasks -/

structure ReadPayment where
  id : String
  classification : PaymentClassification
  classificationRevision : Nat
  deriving DecidableEq

inductive Task where
  /-- `updateClassification`: the payment is read, -/
  | classify (userId paymentId : String) (classification : PaymentClassification) (reasonCode : String)
  /-- and updated together with its history. -/
  | reclassify (userId : String) (payment : ReadPayment) (classification : PaymentClassification) (reasonCode : String)
  /-- An evaluation: payments are selected, of one owner or of all, -/
  | select (userId : Option String) (ids : List String) (trigger : DecisionTrigger)
  /-- the policy's inputs and the active decisions are read, -/
  | evaluate (payments : List EvaluablePayment) (trigger : DecisionTrigger)
  /-- and what changed is recorded, payment by payment. -/
  | record (decided : List (EvaluablePayment × EligibilityDecision)) (trigger : DecisionTrigger)
  deriving DecidableEq

/-- What a call begins with. -/
def Task.entry : Task → Bool
  | .classify .. => true
  | .select .. => true
  | _ => false

structure TaskAnswer where
  now : Date
  registry : List SupportedAsset
  trusted : List TrustedLink
  /-- Whether a transaction commits. -/
  committed : Bool
  deriving DecidableEq

inductive Entry where
  | update (row : PaymentClassificationHistory)
  /-- A sync found another payment under the operation id. -/
  | reset
  deriving DecidableEq

structure Config where
  sync : Payments.Config
  backfill : Backfill.Config

structure World where
  sync : Payments.World
  revision : String → Nat
  decisions : List PaymentEligibilityDecision
  history : List PaymentClassificationHistory
  tasks : Nat → Option Task
  trail : List (String × Entry)

variable (w : World)

def World.payments : List SyncedPayment := w.sync.db.payments

/-- No decision yet, and no classification changed yet: revisions are the column's default. -/
def World.start (db : Store) : World := ⟨.start db, fun _ => 1, [], [], fun _ => none, []⟩

def World.withPayments (rows : List SyncedPayment) : World :=
  { w with sync := { w.sync with db := w.sync.db.withPayments rows } }

def World.withTask (p : Nat) (task : Option Task) : World :=
  { w with tasks := Function.update w.tasks p task }

def evaluable (r : SyncedPayment) : EvaluablePayment :=
  ⟨r.id, r.userId, r.assetCode, r.assetIssuer, r.classification, r.sourceAddress⟩

/-- The decisions `evaluate` goes on to record: those that differ from the active one it read. -/
def decided (a : TaskAnswer) (payments : List EvaluablePayment) : List (EvaluablePayment × EligibilityDecision) :=
  (payments.map fun payment => (payment, decisionFor a.registry a.trusted payment)).filter fun x =>
    !(w.decisions.find? (·.activeFor x.1.id)).any (·.repeats x.2)

variable (payment : EvaluablePayment) (decision : EligibilityDecision) (trigger : DecisionTrigger) (now : Date)

def superseded (d : PaymentEligibilityDecision) : PaymentEligibilityDecision :=
  { d with isActive := false, supersededAt := some now }

def newDecision : PaymentEligibilityDecision where
  toEligibilityDecision := decision
  paymentId := payment.id
  userId := payment.userId
  trigger
  evaluatedAt := now
  supersededAt := none
  isActive := true

def World.recorded : World :=
  let decisions := Table.update (PaymentEligibilityDecision.activeFor payment.id) (superseded now) w.decisions
  let w : World := { w with decisions := decisions ++ [newDecision payment decision trigger now] }
  w.withPayments (Table.update (fun r => r.id = payment.id)
    (fun r => { r with isEligible := decision.eligible }) w.payments)

/-- The transaction of `record`. -/
def World.recordDecision : World :=
  if (w.decisions.find? (·.activeFor payment.id)).any (·.repeats decision) then w
  -- The update of a payment that is gone throws.
  else if w.payments.any fun r => r.id = payment.id then w.recorded payment decision trigger now
  else w

def historyRow (userId : String) (payment : ReadPayment) (classification : PaymentClassification)
    (reasonCode : String) : PaymentClassificationHistory :=
  ⟨payment.id, userId, payment.classification, classification, reasonCode, payment.classificationRevision + 1⟩

/-- The transaction of `updateClassification`: revision and previous classification are those
    of the row as it was read before. -/
def World.reclassify (userId : String) (payment : ReadPayment) (classification : PaymentClassification)
    (reasonCode : String) : World :=
  let row := historyRow userId payment classification reasonCode
  let w : World :=
    { w with
      revision := Function.update w.revision payment.id row.classificationRevision
      history := w.history ++ [row]
      trail := w.trail ++ [(payment.id, Entry.update row)] }
  w.withPayments (Table.update (fun r => r.id = payment.id) (fun r => { r with classification }) w.payments)

def World.proceed (p : Nat) (a : TaskAnswer) : Task → World
  | .classify userId paymentId classification reasonCode =>
    match w.payments.find? fun r => r.id = paymentId ∧ r.userId = userId with
    | none => w.withTask p none
    | some r =>
      if r.classification = classification then w.withTask p none
      else w.withTask p (some (.reclassify userId ⟨r.id, r.classification, w.revision r.id⟩ classification reasonCode))
  | .reclassify userId payment classification reasonCode =>
    if a.committed && w.payments.any fun r => r.id = payment.id then
      (w.reclassify userId payment classification reasonCode).withTask p
        (some (.select (some userId) [payment.id] .classificationChanged))
    else w.withTask p none
  | .select userId ids trigger =>
    w.withTask p (some (.evaluate
      ((w.payments.filter fun r => userId.all (· = r.userId) && decide (r.id ∈ ids)).map evaluable) trigger))
  | .evaluate payments trigger => w.withTask p (some (.record (decided w a payments) trigger))
  | .record [] _ => w.withTask p none
  | .record ((payment, decision) :: rest) trigger =>
    (if a.committed then w.recordDecision payment decision trigger a.now else w).withTask p
      (some (.record rest trigger))

/-! ## The system -/

inductive Event where
  | sync (e : Payments.Event)
  /-- A page of a user's backfill is committed. -/
  | page (userId : String) (eligibleAssets : List String) (payments : List NormalizedPayment)
  | call (p : Nat) (task : Task)
  | access (p : Nat) (a : TaskAnswer)
  | crash (p : Nat)
  deriving DecidableEq

/-- The stored rows whose classification a sync's next access resets. -/
def resetsOf (rows : List SyncedPayment) : Option Sync → List (String × Entry)
  | some { stage := .write _ _ replaced (p :: _), .. } =>
    if p.operationId ∈ replaced then (rows.filter fun r => r.operationId = p.operationId).map fun r =>
      (r.id, Entry.reset)
    else []
  | _ => []

def World.syncOf : Payments.Event → Option Sync
  | .access p _ => w.sync.syncs p
  | _ => none

/-- The primary key: ids of payments are not used twice. -/
def World.keyed : Option World := if (w.payments.map (·.id)).Nodup then some w else none

def step (cfg : Config) (w : World) : Event → Option World
  | .sync e =>
    (Payments.step cfg.sync w.sync e).bind fun s =>
      ({ w with sync := s, trail := w.trail ++ resetsOf w.payments (w.syncOf e) } : World).keyed
  | .page userId eligibleAssets payments =>
    (w.withPayments
      (Backfill.createMany (payments.map (Backfill.toPaymentRow cfg.backfill userId eligibleAssets)) w.payments)).keyed
  | .call p task => if w.tasks p = none ∧ task.entry = true then some (w.withTask p (some task)) else none
  | .access p a => (w.tasks p).map fun task => w.proceed p a task
  | .crash p => some (w.withTask p none)

/-! ## Effects -/

inductive Effect (cfg : Config) (w : World) (e : Event) : World → Prop
  | sync e' (he : e = .sync e') s (hs : Payments.step cfg.sync w.sync e' = some s)
      (hkeyed : (s.db.payments.map (·.id)).Nodup) :
    Effect cfg w e { w with sync := s, trail := w.trail ++ resetsOf w.payments (w.syncOf e') }
  | page userId eligibleAssets (payments : List NormalizedPayment) rows
      (hrows : rows = Backfill.createMany
        (payments.map (Backfill.toPaymentRow cfg.backfill userId eligibleAssets)) w.payments)
      (hkeyed : (rows.map (·.id)).Nodup) : Effect cfg w e (w.withPayments rows)
  | task p task : Effect cfg w e (w.withTask p task)
  | reclassify p a (he : e = .access p a) userId payment classification reasonCode
      (hcall : w.tasks p = some (.reclassify userId payment classification reasonCode))
      (hcommitted : a.committed) (hrow : ∃ r ∈ w.payments, r.id = payment.id) (next : Option Task) :
    Effect cfg w e ((w.reclassify userId payment classification reasonCode).withTask p next)
  | record p a (he : e = .access p a) payment decision rest trigger
      (hcall : w.tasks p = some (.record ((payment, decision) :: rest) trigger))
      (hrow : ∃ r ∈ w.payments, r.id = payment.id) (next : Option Task) :
    Effect cfg w e ((w.recorded payment decision trigger a.now).withTask p next)

variable {w w' : World} {cfg : Config} {e : Event} {r : SyncedPayment} {rows : List SyncedPayment}

theorem keyed_eq (h : w.keyed = some w') : (w.payments.map (·.id)).Nodup ∧ w' = w := by
  obtain ⟨hids, rfl⟩ := enabled h
  exact ⟨hids, rfl⟩

variable {id : String} {a : Answer} {db' : Store} {s : Sync} {r' : SyncedPayment} {data : List SyncedPayment}

theorem proceed_effect {p : Nat} {a : TaskAnswer} {task : Task} (hcall : w.tasks p = some task) :
    Effect cfg w (.access p a) (w.proceed p a task) := by
  cases task with
  | classify =>
    simp only [World.proceed]
    repeat' split
    all_goals exact .task p _
  | reclassify userId payment classification reasonCode =>
    simp only [World.proceed]
    split
    · rename_i hsel
      obtain ⟨hcommitted, hany⟩ := Bool.and_eq_true_iff.mp hsel
      exact .reclassify p a rfl userId payment classification reasonCode hcall hcommitted (by simpa using hany) _
    · exact .task p _
  | select | evaluate => exact .task p _
  | record decided trigger =>
    cases decided with
    | nil => exact .task p _
    | cons x rest =>
      obtain ⟨payment, decision⟩ := x
      simp only [World.proceed, World.recordDecision]
      split
      · split
        · exact .task p _
        · split
          · rename_i hany
            exact .record p a rfl payment decision rest trigger hcall (by simpa using hany) _
          · exact .task p _
      · exact .task p _

theorem step_effect (h : step cfg w e = some w') : Effect cfg w e w' := by
  cases e with
  | sync e =>
    obtain ⟨s, hs, hw⟩ := Option.bind_eq_some_iff.mp h
    obtain ⟨hkeyed, rfl⟩ := keyed_eq hw
    exact .sync e rfl s hs hkeyed
  | page userId eligibleAssets payments =>
    obtain ⟨hkeyed, rfl⟩ := keyed_eq h
    exact .page userId eligibleAssets payments _ rfl hkeyed
  | call p =>
    obtain ⟨-, rfl⟩ := enabled h
    exact .task p _
  | access =>
    obtain ⟨task, hcall, rfl⟩ := Option.map_eq_some_iff.mp h
    exact proceed_effect hcall
  | crash p =>
    cases h
    exact .task p none

/-! ## The rows of a sync's step -/

/-- A step of the syncs leaves the payments alone, or is an access that changes them. -/
theorem sync_rows {cfg : Payments.Config} {w w' : Payments.World} {e : Payments.Event}
    (h : Payments.step cfg w e = some w') :
    w'.db.payments = w.db.payments ∨ ∃ p a s, e = .access p a ∧ w.syncs p = some s ∧
      RowsChange cfg a w'.db s w.db.payments w'.db.payments := by
  rcases step_cases h with ⟨p, account, rfl, -, rfl⟩ | ⟨p, a, s, rfl, hs, -, rfl⟩ | ⟨p, rfl, rfl⟩
  · exact .inl rfl
  · exact .inr ⟨p, a, s, rfl, hs, access_payments cfg a w.db s⟩
  · exact .inl rfl

theorem rowEffect_id {cfg : Payments.Config} (h : RowEffect cfg a db' s r r') : r'.id = r.id := by
  cases h <;> rfl

def Continues (r r' : SyncedPayment) : Prop := r'.id = r.id ∧ r'.operationId = r.operationId

theorem update_continues (sel : SyncedPayment → Bool) {data : SyncedPayment → SyncedPayment}
    (hdata : ∀ r, Continues r (data r)) (hr : r ∈ rows) : ∃ r' ∈ Table.update sel data rows, Continues r r' := by
  cases hsel : sel r with
  | true => exact ⟨data r, mem_update_of_sel hr hsel, hdata r⟩
  | false => exact ⟨r, mem_update_of_not hr hsel, rfl, rfl⟩

theorem upsert_continues {operationId : String} {update : SyncedPayment → SyncedPayment} {create : SyncedPayment}
    (hupdate : ∀ r, Continues r (update r)) (hr : r ∈ rows) :
    ∃ r' ∈ upsert operationId update create rows, Continues r r' := by
  unfold upsert
  split
  · exact update_continues _ hupdate hr
  · exact ⟨r, mem_append_left _ hr, rfl, rfl⟩

theorem rowsChange_continues {cfg : Payments.Config} {rows' : List SyncedPayment}
    (h : RowsChange cfg a db' s rows rows') (hr : r ∈ rows) : ∃ r' ∈ rows', Continues r r' := by
  cases h with
  | keep => exact ⟨r, hr, rfl, rfl⟩
  | hold =>
    refine update_continues _ (fun r => ?_) hr
    exact ⟨rfl, rfl⟩
  | write =>
    refine upsert_continues (fun r => ?_) hr
    split <;> exact ⟨rfl, rfl⟩
  | identify =>
    refine upsert_continues (fun r => ?_) hr
    exact ⟨rfl, rfl⟩
  | orphan =>
    unfold orphanRows
    split
    · exact ⟨r, hr, rfl, rfl⟩
    · refine update_continues _ (fun r => ?_) hr
      exact ⟨rfl, rfl⟩

/-! ## Rows -/

inductive RowStep (cfg : Config) (w : World) (e : Event) (r : SyncedPayment) : SyncedPayment → Prop
  | same : RowStep cfg w e r r
  | sync p a s (he : e = .sync (.access p a)) (hs : w.sync.syncs p = some s) db' r'
      (h : RowEffect cfg.sync a db' s r r') : RowStep cfg w e r r'
  | reclassified p a (he : e = .access p a) userId payment classification reasonCode
      (hcall : w.tasks p = some (.reclassify userId payment classification reasonCode)) (hid : r.id = payment.id) :
    RowStep cfg w e r { r with classification }
  | recorded p a (he : e = .access p a) payment decision rest trigger
      (hcall : w.tasks p = some (.record ((payment, decision) :: rest) trigger)) (hid : r.id = payment.id) :
    RowStep cfg w e r { r with isEligible := decision.eligible }

inductive Created (cfg : Config) (w : World) (e : Event) : SyncedPayment → Prop
  | sync p a s (he : e = .sync (.access p a)) (hs : w.sync.syncs p = some s) r (h : NewRow cfg.sync a s r) :
    Created cfg w e r
  | page userId eligibleAssets q : Created cfg w e (Backfill.toPaymentRow cfg.backfill userId eligibleAssets q)

theorem mem_createMany (h : r ∈ Backfill.createMany data rows) : r ∈ rows ∨ r ∈ data := by
  induction data generalizing rows with
  | nil => exact .inl h
  | cons row data ih =>
    rcases ih h with hr | hr
    · by_cases hstored : Backfill.hasOperation row.operationId rows
      · rw [if_pos hstored] at hr
        exact .inl hr
      · rw [if_neg hstored] at hr
        rcases mem_append_row.mp hr with hr | rfl
        · exact .inl hr
        · exact .inr mem_cons_self
    · exact .inr (mem_cons_of_mem _ hr)

theorem mem_of_createMany (h : r ∈ rows) : r ∈ Backfill.createMany data rows := by
  induction data generalizing rows with
  | nil => exact h
  | cons row data ih =>
    refine ih ?_
    split
    · exact h
    · exact mem_append_left _ h

/-- No row goes away. -/
theorem step_continues (h : step cfg w e = some w') (hr : r ∈ w.payments) : ∃ r' ∈ w'.payments, Continues r r' := by
  cases step_effect h with
  | sync e' he s hs =>
    rcases sync_rows hs with hsame | ⟨p, a, sync, rfl, hsync, hchange⟩
    · have hmem : r ∈ s.db.payments := hsame ▸ hr
      exact ⟨r, hmem, rfl, rfl⟩
    · exact rowsChange_continues hchange hr
  | page userId eligibleAssets payments rows hrows =>
    have hmem : r ∈ rows := hrows ▸ mem_of_createMany hr
    exact ⟨r, hmem, rfl, rfl⟩
  | task => exact ⟨r, hr, rfl, rfl⟩
  | _ =>
    refine update_continues _ (fun r => ?_) hr
    exact ⟨rfl, rfl⟩

theorem step_ids (h : step cfg w e = some w') (hid : id ∈ w.payments.map (·.id)) : id ∈ w'.payments.map (·.id) := by
  obtain ⟨r, hr, rfl⟩ := mem_map.mp hid
  obtain ⟨r', hr', hsame, -⟩ := step_continues h hr
  exact mem_map.mpr ⟨r', hr', hsame⟩

/-- A row after a page is stored is an old one, or one of the page with an id of its own. -/
theorem page_rows (hkeyed : ((Backfill.createMany data rows).map (·.id)).Nodup)
    (hr : r ∈ Backfill.createMany data rows) : r ∈ rows ∨ (r ∈ data ∧ r.id ∉ rows.map (·.id)) := by
  by_cases hid : r.id ∈ rows.map (·.id)
  · obtain ⟨old, hold, hid⟩ := mem_map.mp hid
    obtain rfl := eq_of_key hkeyed (mem_of_createMany hold) hr hid
    exact .inl hold
  · rcases mem_createMany hr with hold | hnew
    · exact .inl hold
    · exact .inr ⟨hnew, hid⟩

section Steps

variable (hkeyed : (w.payments.map (·.id)).Nodup) (h : step cfg w e = some w')

include hkeyed h

theorem step_keyed : (w'.payments.map (·.id)).Nodup := by
  cases step_effect h with
  | sync e' he s hs hnew | page userId eligibleAssets payments rows hrows hnew => exact hnew
  | task => exact hkeyed
  | _ => exact nodup_update _ (fun _ => rfl) hkeyed

/-- A row of an operation that was not stored has an id that was not used: no row goes away,
    and ids are unique afterwards too. -/
theorem step_fresh (hr' : r' ∈ w'.payments)
    (hother : ∀ r ∈ w.payments, r.operationId ≠ r'.operationId) : r'.id ∉ w.payments.map (·.id) := by
  intro hid
  obtain ⟨r, hr, hid⟩ := mem_map.mp hid
  obtain ⟨r'', hr'', hsame, hop⟩ := step_continues h hr
  obtain rfl := eq_of_key (step_keyed hkeyed h) hr'' hr' (hsame.trans hid)
  exact hother r hr hop.symm

/-- A row after an event comes from the row with its id, or is a new one with an id of its own. -/
theorem step_rows (hr' : r' ∈ w'.payments) :
    (∃ r ∈ w.payments, r'.id = r.id ∧ RowStep cfg w e r r') ∨ (Created cfg w e r' ∧ r'.id ∉ w.payments.map (·.id)) := by
  cases step_effect h with
  | sync e' he s hs =>
    rcases sync_rows hs with hsame | ⟨p, a, sync, rfl, hsync, hchange⟩
    · have hmem : r' ∈ s.db.payments := hr'
      rw [hsame] at hmem
      exact .inl ⟨r', hmem, rfl, .same⟩
    · rcases hchange.mem hr' with ⟨r, hr, -, heffect⟩ | ⟨hnew, hother⟩
      · exact .inl ⟨r, hr, rowEffect_id heffect, .sync p a sync he hsync _ r' heffect⟩
      · exact .inr ⟨.sync p a sync he hsync r' hnew, step_fresh hkeyed h hr' hother⟩
  | page userId eligibleAssets payments rows hrows hnodup =>
    subst hrows
    rcases page_rows hnodup hr' with hold | ⟨hnew, hid⟩
    · exact .inl ⟨r', hold, rfl, .same⟩
    · obtain ⟨q, -, rfl⟩ := mem_map.mp hnew
      exact .inr ⟨.page userId eligibleAssets q, hid⟩
  | task => exact .inl ⟨r', hr', rfl, .same⟩
  | reclassify p a he userId payment classification reasonCode hcall =>
    obtain ⟨r, hr, ⟨hsel, rfl⟩ | ⟨-, rfl⟩⟩ := mem_update_cases hr'
    · exact .inl ⟨r, hr, rfl, .reclassified p a he userId payment classification reasonCode hcall
        (of_decide_eq_true hsel)⟩
    · exact .inl ⟨_, hr, rfl, .same⟩
  | record p a he payment decision rest trigger hcall =>
    obtain ⟨r, hr, ⟨hsel, rfl⟩ | ⟨-, rfl⟩⟩ := mem_update_cases hr'
    · exact .inl ⟨r, hr, rfl, .recorded p a he payment decision rest trigger hcall (of_decide_eq_true hsel)⟩
    · exact .inl ⟨_, hr, rfl, .same⟩

end Steps

end EarnProof.Payments.Writers
