/-
  EarnProof.Events.Completion — the status of an event when a batch has finished it.

  Each handler that is run writes the status of the whole event, so the last one decides
  (`deliver_done`); a handler that has a record is skipped and writes nothing. An event
  whose first handler fails and whose second succeeds ends processed, and one whose handlers
  all ran before a crash is claimed again and stays leased (`wrongly_settled`,
  `never_processed`). Proved: which happenings leave the status right, for every database and
  every batch (`finished_settled_iff`).
-/
import EarnProof.Lib.Run
import EarnProof.Events.Outbox

namespace EarnProof.Events

open Lib Lib.Table List Option

/-! ## Rows and records -/

def Db.row (db : Db) (id : String) : Option DomainEvent := db.events.find? fun e => e.id = id

def Db.status (db : Db) (id : String) : Option DomainEventStatus := (db.row id).map DomainEvent.status

variable {sel : DomainEvent → Bool} {c : String} {event : DomainEvent} {now : Int} {known : String → Bool}
  {data : DomainEvent → DomainEvent} {db db' : Db} {id id' : String} {consumers : String → List String}

theorem row_update (db : Db) (h : ∀ e, (data e).id = e.id)
    (id : String) : (db.update sel data h).row id = (db.row id).map fun e => if sel e then data e else e :=
  find?_update fun e => by rw [h e]

variable {e item : DomainEvent} {runs : List (String × Outcome)} {P : Db → Prop} {owner : String}
  {leaseExpiresAt : Int}

theorem Db.row_eq_some : db.row id = some e ↔ e ∈ db.events ∧ e.id = id := by
  constructor
  · exact of_find?
  · rintro ⟨he, rfl⟩
    exact find?_of_mem db.ids he

/-- Nothing of the event has changed: neither its status nor its records. -/
structure Same (id : String) (db db' : Db) : Prop where
  row : db'.row id = db.row id
  records : ∀ c, recorded db' id c = recorded db id c

theorem Same.refl (id : String) (db : Db) : Same id db db := ⟨rfl, fun _ => rfl⟩

theorem Same.trans {a b c : Db} (h : Same id a b) (h' : Same id b c) : Same id a c :=
  ⟨h'.row.trans h.row, fun n => (h'.records n).trans (h.records n)⟩

theorem Same.update (hne : id' ≠ id) (db : Db)
    (data : DomainEvent → DomainEvent) (h : ∀ e, (data e).id = e.id) (hsel : ∀ e, sel e → e.id = id) :
    Same id' db (db.update sel data h) := by
  refine ⟨?_, fun _ => rfl⟩
  rw [row_update]
  cases hrow : db.row id' with
  | none => rfl
  | some e =>
    have hid := (Db.row_eq_some.mp hrow).2
    have hnot : ¬ sel e := fun hs => hne (hid.symm.trans (hsel e hs))
    rw [map_some, if_neg hnot]

theorem Same.markProcessed (hne : id' ≠ id) (db : Db) (now : Int) : Same id' db (db.markProcessed id now) :=
  .update hne db (Events.markProcessed now) (markProcessed_id now) fun _ => of_decide_eq_true

theorem Same.record (hne : id' ≠ id) (db : Db) (c : String) (now : Int) : Same id' db (db.record id c now) := by
  refine ⟨rfl, ?_⟩
  intro n
  simp [recorded, Db.record, Ne.symm hne]

/-- An update of the one row writes its status. -/
theorem status_update (data : DomainEvent → DomainEvent) (h : ∀ e, (data e).id = e.id)
    {s : DomainEventStatus} (hs : ∀ e, (data e).status = s) (hrow : (db.row id).isSome) :
    (db.update (fun e => e.id = id) data h).status id = some s := by
  obtain ⟨e, he⟩ := isSome_iff_exists.mp hrow
  have hid := (Db.row_eq_some.mp he).2
  rw [Db.status, row_update, he]
  simp [hid, hs e]

theorem status_markProcessed (db : Db) (now : Int) (hrow : (db.row id).isSome) :
    (db.markProcessed id now).status id = some .processed :=
  status_update (markProcessed now) (markProcessed_id now) (fun _ => rfl) hrow

theorem status_markFailed (db : Db) (error : String) (hrow : (db.row event.id).isSome) :
    (db.markFailed event error).status event.id = some (failureStatus event) :=
  status_update (markFailed event error) (markFailed_id event error) (fun _ => rfl) hrow

/-! ## One handler -/

/-- The status a handler that is run leaves the event in. -/
def Outcome.status (event : DomainEvent) : Outcome → DomainEventStatus
  | .processed => .processed
  | .failed _ | .unmarked _ => failureStatus event
  | .stopped _ => event.status

/-- A handler that is run writes its record and the status; one that has a record writes nothing. -/
inductive Handled (event : DomainEvent) (c : String) (o : Outcome) (db db' : Db) : Prop
  | skipped (hrec : recorded db event.id c) (heq : db' = db)
  | ran (hrec : recorded db event.id c = false)
      (hrecords : ∀ n, recorded db' event.id n = (recorded db event.id n || (n = c && o.records)))
      (hstatus : (db.row event.id).isSome → db'.status event.id = some (o.status event))
      (hrow : (db'.row event.id).isSome = (db.row event.id).isSome)

theorem recorded_ran (n : String) : recorded (db.record id c now) id n = (recorded db id n || (n = c && true)) := by
  by_cases h : c = n
  · simp [recorded, Db.record, h]
  · simp [recorded, Db.record, h, Ne.symm h]

theorem isSome_row_update (db : Db) (data : DomainEvent → DomainEvent)
    (h : ∀ e, (data e).id = e.id) (id : String) : ((db.update sel data h).row id).isSome = (db.row id).isSome := by
  rw [row_update, isSome_map]

theorem processEventWithConsumer_handled {o : Outcome}
    {result : ProcessOutcome} (h : processEventWithConsumer now db event c o = (db', some result)) :
    o.isStop = false ∧ Handled event c o db db' := by
  unfold processEventWithConsumer at h
  split at h
  · rename_i hrec
    cases o with
    | stopped => cases h
    | _ => exact ⟨rfl, .skipped hrec (Prod.ext_iff.mp h).1.symm⟩
  · rename_i hrec
    have hrec : recorded db event.id c = false := by simpa using hrec
    cases o with
    | stopped recorded => cases recorded <;> cases h
    | processed =>
      obtain rfl := (Prod.ext_iff.mp h).1
      exact ⟨rfl, .ran hrec recorded_ran (status_markProcessed (db.record event.id c now) now)
        (isSome_row_update (db.record event.id c now) (markProcessed now) (markProcessed_id now) _)⟩
    | failed error =>
      obtain rfl := (Prod.ext_iff.mp h).1
      refine ⟨rfl, .ran hrec ?_ (status_markFailed db error)
        (isSome_row_update db (markFailed event error) (markFailed_id event error) _)⟩
      intro n
      simp [Outcome.records, recorded, Db.markFailed, Db.update]
    | unmarked error =>
      obtain rfl := (Prod.ext_iff.mp h).1
      exact ⟨rfl, .ran hrec recorded_ran (status_markFailed (db.record event.id c now) error)
        (isSome_row_update (db.record event.id c now) (markFailed event error) (markFailed_id event error) _)⟩

/-- Other events are left alone, however the handler ends. -/
theorem processEventWithConsumer_same (now : Int) (db : Db) (c : String) (o : Outcome)
    (hne : id ≠ event.id) : Same id db (processEventWithConsumer now db event c o).1 := by
  have hrecord : Same id db (db.record event.id c now) := .record hne db c now
  have hmark : ∀ d : Db, Same id d (d.markProcessed event.id now) := fun d => .markProcessed hne d now
  have hfail : ∀ (d : Db) (error : String), Same id d (d.markFailed event error) := fun d error =>
    .update hne d (Events.markFailed event error) (markFailed_id event error) fun _ => of_decide_eq_true
  unfold processEventWithConsumer
  split
  · cases o <;> exact .refl id db
  · cases o with
    | processed => exact hrecord.trans (hmark _)
    | failed error => exact hfail db error
    | unmarked error => exact hrecord.trans (hfail _ error)
    | stopped recorded =>
      cases recorded with
      | true => exact hrecord
      | false => exact .refl id db

/-! ## All handlers of an event -/

/-- The handlers that are run: those without a record when their turn comes. -/
def executed (known : String → Bool) : List (String × Outcome) → List (String × Outcome)
  | [] => []
  | (c, o) :: runs =>
    if known c then executed known runs else (c, o) :: executed (fun n => known n || (n = c && o.records)) runs

def knownAfter (known : String → Bool) (runs : List (String × Outcome)) (c : String) : Bool :=
  known c || (executed known runs).any fun x => x.1 = c && x.2.records

theorem executed_of_known (h : known c) (o : Outcome)
    (runs : List (String × Outcome)) : executed known ((c, o) :: runs) = executed known runs := by
  rw [executed, if_pos h]

theorem executed_of_new (h : known c = false) (o : Outcome) (runs : List (String × Outcome)) :
    executed known ((c, o) :: runs) = (c, o) :: executed (fun n => known n || (n = c && o.records)) runs := by
  rw [executed, if_neg (by simp [h])]

theorem knownAfter_of_new (h : known c = false) (o : Outcome) (runs : List (String × Outcome)) (n : String) :
    knownAfter known ((c, o) :: runs) n = knownAfter (fun n => known n || (n = c && o.records)) runs n := by
  unfold knownAfter
  rw [executed_of_new h, any_cons]
  by_cases hc : c = n
  · simp [hc, Bool.or_assoc]
  · simp [hc, Ne.symm hc]

theorem known_of_executed_nil (h : executed known runs = []) : ∀ x ∈ runs, known x.1 := by
  induction runs with
  | nil => simp
  | cons x runs ih =>
    obtain ⟨c, o⟩ := x
    cases hc : known c with
    | false =>
      rw [executed_of_new hc] at h
      cases h
    | true =>
      rw [executed_of_known hc] at h
      exact forall_mem_cons.mpr ⟨hc, ih h⟩

theorem executed_sub {x : String × Outcome} (h : x ∈ executed known runs) : x ∈ runs := by
  induction runs generalizing known with
  | nil => exact h
  | cons y runs ih =>
    obtain ⟨c, o⟩ := y
    cases hc : known c with
    | true =>
      rw [executed_of_known hc] at h
      exact mem_cons_of_mem _ (ih h)
    | false =>
      rw [executed_of_new hc] at h
      rcases mem_cons.mp h with rfl | h
      · exact mem_cons_self
      · exact mem_cons_of_mem _ (ih h)

/-- The status after the handlers that were run: the last one's. -/
def lastStatus (event : DomainEvent) (before : Option DomainEventStatus) (ran : List (String × Outcome)) :
    Option DomainEventStatus :=
  match ran.getLast? with
  | none => before
  | some x => some (x.2.status event)

theorem lastStatus_cons (event : DomainEvent) (before : Option DomainEventStatus) (x : String × Outcome)
    (ran : List (String × Outcome)) : lastStatus event before (x :: ran) =
      lastStatus event (some (x.2.status event)) ran := by
  unfold lastStatus
  rw [getLast?_cons]
  cases ran.getLast? <;> rfl

/-- A delivery that reaches its end, on what it reads and writes of its event. -/
theorem deliver_done (now : Int) (event : DomainEvent) (runs : List (String × Outcome)) :
    ∀ db : Db, (db.row event.id).isSome → (deliver now event db runs).2.2 →
      (∀ x ∈ runs, x.2.isStop = false) ∧
      (∀ n, recorded (deliver now event db runs).1 event.id n = knownAfter (recorded db event.id) runs n) ∧
      (deliver now event db runs).1.status event.id =
        lastStatus event (db.status event.id) (executed (recorded db event.id) runs) := by
  induction runs with
  | nil =>
    intro db _ _
    exact ⟨by simp, by simp [deliver, knownAfter, executed], rfl⟩
  | cons x runs ih =>
    obtain ⟨c, o⟩ := x
    intro db hrow hdone
    unfold deliver at hdone ⊢
    split at hdone
    · cases hdone
    · rename_i db' result hprocess
      obtain ⟨hgoes, hhandled⟩ := processEventWithConsumer_handled hprocess
      cases hhandled with
      | skipped hrec heq =>
        subst heq
        obtain ⟨hstops, hrecords, hstatus⟩ := ih db' hrow hdone
        refine ⟨forall_mem_cons.mpr ⟨hgoes, hstops⟩, ?_, ?_⟩
        · intro n
          rw [hrecords n, knownAfter, knownAfter, executed_of_known hrec]
        · rw [hstatus, executed_of_known hrec]
      | ran hrec hrecords₁ hstatus₁ hrow₁ =>
        obtain ⟨hstops, hrecords, hstatus⟩ := ih db' (hrow₁.trans hrow) hdone
        have hknown : recorded db' event.id = fun n => recorded db event.id n || (n = c && o.records) :=
          funext hrecords₁
        refine ⟨forall_mem_cons.mpr ⟨hgoes, hstops⟩, ?_, ?_⟩
        · intro n
          rw [hrecords n, knownAfter_of_new hrec, hknown]
        · rw [hstatus, hstatus₁ hrow, executed_of_new hrec, lastStatus_cons, hknown]

/-- What every handler keeps a delivery keeps, also one that breaks off. -/
theorem deliver_keeps (runs : List (String × Outcome))
    (h : ∀ x ∈ runs, ∀ db, P db → P (processEventWithConsumer now db event x.1 x.2).1) :
    ∀ db, P db → P (deliver now event db runs).1 := by
  induction runs with
  | nil => exact fun db hdb => hdb
  | cons x runs ih =>
    intro db hdb
    have hone := h x mem_cons_self db hdb
    unfold deliver
    split
    · rename_i hprocess
      rw [hprocess] at hone
      exact hone
    · rename_i hprocess
      rw [hprocess] at hone
      exact ih (fun y hy => h y (mem_cons_of_mem _ hy)) _ hone

/-- When each handler has a record, nothing is written. -/
theorem deliver_recorded (now : Int) (runs : List (String × Outcome))
    (h : ∀ x ∈ runs, recorded db event.id x.1) : (deliver now event db runs).1 = db := by
  refine deliver_keeps (P := fun d => d = db) runs ?_ db rfl
  rintro x hx d rfl
  unfold processEventWithConsumer
  rw [if_pos (h x hx)]
  cases x.2 <;> rfl

/-! ## The status of a finished event -/

/-- Processed exactly when every handler has a record, and otherwise pending or in quarantine. -/
def Settled (db : Db) (id : String) (handlers : List String) : Prop :=
  (db.status id = some .processed ↔ ∀ h ∈ handlers, recorded db id h) ∧
    ((∃ h ∈ handlers, recorded db id h = false) → db.status id = some .pending ∨ db.status id = some .quarantined)
  deriving Decidable

/-- No handler is registered; or one is run, and the last that is run succeeds when every
    handler then has a record, and fails when one of them has none. -/
def Settles (known : String → Bool) (runs : List (String × Outcome)) : Prop :=
  match (executed known runs).getLast? with
  | none => runs = []
  | some (_, .processed) => ∀ x ∈ runs, knownAfter known runs x.1
  | some _ => ∃ x ∈ runs, knownAfter known runs x.1 = false

instance : Decidable (Settles known runs) := by
  unfold Settles
  split <;> infer_instance

theorem map_fst_runsOf (handlers : List String) (happens : Nat → Outcome) :
    (runsOf handlers happens).map Prod.fst = handlers := by
  rw [runsOf, List.map_map]
  exact List.zipIdx_map_fst 0 handlers

variable {handlers : List String}

theorem forall_runsOf {happens : Nat → Outcome} {p : String → Prop} :
    (∀ x ∈ runsOf handlers happens, p x.1) ↔ ∀ h ∈ handlers, p h := by
  constructor
  · intro hall h hh
    rw [← map_fst_runsOf handlers happens] at hh
    obtain ⟨x, hx, rfl⟩ := mem_map.mp hh
    exact hall x hx
  · intro hall x hx
    exact hall x.1 (map_fst_runsOf handlers happens ▸ mem_map_of_mem hx)

theorem failureStatus_cases (event : DomainEvent) :
    failureStatus event = .pending ∨ failureStatus event = .quarantined := by
  unfold failureStatus
  split
  · exact .inr rfl
  · exact .inl rfl

/-- An event that ends with a failure's status is settled when a handler has no record. -/
theorem settled_of_failure (hstatus : db.status id = some (failureStatus event)) :
    Settled db id handlers ↔ ∃ h ∈ handlers, recorded db id h = false := by
  have hne : db.status id ≠ some .processed := by
    rw [hstatus]
    rcases failureStatus_cases event with h | h <;> rw [h] <;> decide
  constructor
  · intro hsettled
    simpa using mt hsettled.1.mpr hne
  · rintro ⟨h, hh, hrec⟩
    refine ⟨⟨fun hp => absurd hp hne, fun hall => absurd (hall h hh) (by simp [hrec])⟩, fun _ => ?_⟩
    rw [hstatus]
    rcases failureStatus_cases event with hs | hs
    · exact .inl (congrArg some hs)
    · exact .inr (congrArg some hs)

theorem settled_of_processed (hstatus : db.status id = some .processed) :
    Settled db id handlers ↔ ∀ h ∈ handlers, recorded db id h := by
  constructor
  · exact fun hsettled => hsettled.1.mp hstatus
  · intro hall
    refine ⟨⟨fun _ => hall, fun _ => hstatus⟩, ?_⟩
    rintro ⟨h, hh, hrec⟩
    exact absurd (hall h hh) (by simp [hrec])

variable {happens : Happenings}

/-- One event, claimed and handed to all its handlers. -/
theorem processEvent_settled_iff (hleased : db.status event.id = some .leased)
    (hdone : (processEvent consumers now happens db event).2.2) :
    Settled (processEvent consumers now happens db event).1 event.id (consumers event.eventType) ↔
      Settles (recorded db event.id) (runsOf (consumers event.eventType) (happens event.id)) := by
  have hrow : (db.row event.id).isSome := by
    rw [← isSome_map (f := DomainEvent.status)]
    exact isSome_iff_exists.mpr ⟨_, hleased⟩
  unfold processEvent at hdone ⊢
  dsimp only at hdone ⊢
  split at hdone
  · rename_i hnone
    rw [if_pos hnone]
    split at hdone
    · cases hdone
    · rename_i hgoes
      rw [if_neg hgoes, hnone]
      -- no handler: the event is marked processed
      rw [settled_of_processed (status_markProcessed db now hrow)]
      simp [Settles, runsOf, executed]
  · rename_i hsome
    rw [if_neg hsome]
    obtain ⟨hstops, hrecords, hstatus⟩ := deliver_done now event _ db hrow hdone
    set runs := runsOf (consumers event.eventType) (happens event.id) with hruns
    set after := (deliver now event db runs).1
    have hall : (∀ h ∈ consumers event.eventType, recorded after event.id h) ↔
        ∀ x ∈ runs, knownAfter (recorded db event.id) runs x.1 := by
      rw [hruns, forall_runsOf (p := fun h => knownAfter (recorded db event.id) runs h)]
      simp only [hrecords]
    have hsome' : (∃ h ∈ consumers event.eventType, recorded after event.id h = false) ↔
        ∃ x ∈ runs, knownAfter (recorded db event.id) runs x.1 = false := by
      simpa using not_congr hall
    unfold Settles
    unfold lastStatus at hstatus
    split
    · -- no handler was run: each has a record, and the event is leased still
      rename_i hlast
      rw [hlast] at hstatus
      have hnil : executed (recorded db event.id) runs = [] := getLast?_eq_none_iff.mp hlast
      have hknown := known_of_executed_nil hnil
      constructor
      · intro hsettled
        have hrec : ∀ h ∈ consumers event.eventType, recorded after event.id h := by
          rw [hall]
          intro x hx
          rw [knownAfter, hknown x hx, Bool.true_or]
        have hprocessed := hsettled.1.mpr hrec
        rw [hstatus, hleased] at hprocessed
        cases hprocessed
      · intro hempty
        refine absurd ?_ hsome
        rw [← map_fst_runsOf (consumers event.eventType) (happens event.id), ← hruns, hempty, map_nil]
    · rename_i c hlast
      rw [hlast] at hstatus
      rw [settled_of_processed hstatus, hall]
    · rename_i x hnot hlast
      rw [hlast] at hstatus
      obtain ⟨c, o⟩ := x
      have hmem : (c, o) ∈ executed (recorded db event.id) runs := mem_of_getLast? hlast
      have hstop := executed_sub hmem
      cases o with
      | processed => exact absurd rfl (hnot c)
      | failed | unmarked => rw [settled_of_failure hstatus, hsome']
      | stopped => exact absurd (hstops _ hstop) (by simp [Outcome.isStop])

/-! ## A batch -/

theorem processEvent_same (consumers : String → List String) (now : Int) (happens : Happenings) (db : Db)
    (hne : id ≠ event.id) : Same id db (processEvent consumers now happens db event).1 := by
  unfold processEvent
  dsimp only
  split
  · split
    · exact .refl id db
    · exact .markProcessed hne db now
  · exact deliver_keeps _ (fun x _ d hd => hd.trans (processEventWithConsumer_same now d x.1 x.2 hne)) db (.refl id db)

theorem processAll_keeps
    (events : List DomainEvent) (h : ∀ e ∈ events, ∀ db, P db → P (processEvent consumers now happens db e).1) :
    ∀ db, P db → P (processAll consumers now happens db events).db := by
  induction events with
  | nil => exact fun db hdb => hdb
  | cons event events ih =>
    intro db hdb
    have hone := h event mem_cons_self db hdb
    unfold processAll
    split
    · rename_i hprocess
      rw [hprocess] at hone
      exact hone
    · rename_i hprocess
      rw [hprocess] at hone
      exact ih (fun e he => h e (mem_cons_of_mem _ he)) _ hone

theorem Same.status (h : Same id db db') : db'.status id = db.status id := by
  rw [Db.status, h.row, Db.status]

theorem finished_sub : ∀ (events : List DomainEvent) (db : Db) {e : DomainEvent},
      e ∈ (processAll consumers now happens db events).finished → e ∈ events := by
  intro events
  induction events with
  | nil => exact fun db e he => he
  | cons event events ih =>
    intro db e he
    unfold processAll at he
    split at he
    · cases he
    · rename_i db' outcomes hprocess
      rcases mem_cons.mp he with rfl | he
      · exact mem_cons_self
      · exact mem_cons_of_mem _ (ih db' he)

section

variable (consumers : String → List String)

theorem processAll_settled_iff (now : Int) (happens : Happenings) :
    ∀ (events : List DomainEvent) (db : Db), (events.map DomainEvent.id).Nodup →
      (∀ e ∈ events, db.status e.id = some .leased) →
      ∀ e ∈ (processAll consumers now happens db events).finished,
        Settled (processAll consumers now happens db events).db e.id (consumers e.eventType) ↔
          Settles (recorded db e.id) (runsOf (consumers e.eventType) (happens e.id)) := by
  intro events
  induction events with
  | nil =>
    intro db _ _ e he
    cases he
  | cons event events ih =>
    intro db hnodup hleased e he
    rw [map_cons, nodup_cons] at hnodup
    have hother : ∀ e' ∈ events, e'.id ≠ event.id := fun e' he' heq =>
      hnodup.1 (heq ▸ mem_map_of_mem he')
    unfold processAll at he ⊢
    split at he
    · cases he
    · rename_i db' outcomes hprocess
      rcases mem_cons.mp he with rfl | he
      · -- the later events leave this one as its handlers left it
        have hsettled := processEvent_settled_iff (hleased e mem_cons_self) (by rw [hprocess])
        rw [hprocess] at hsettled
        rw [← hsettled]
        have hsame : Same e.id db' (processAll consumers now happens db' events).db :=
          processAll_keeps events
            (fun e' he' d hd => hd.trans (processEvent_same consumers now happens d (hother e' he').symm))
            db' (.refl _ db')
        unfold Settled Db.status
        simp only [hsame.row, hsame.records]
      · -- and this one leaves the later events as they were claimed
        have hsame : ∀ e' ∈ events, Same e'.id db db' := by
          intro e' he'
          have hone := processEvent_same consumers now happens db (hother e' he')
          rw [hprocess] at hone
          exact hone
        have hleased' : ∀ e' ∈ events, db'.status e'.id = some .leased := fun e' he' =>
          (hsame e' he').status.trans (hleased e' (mem_cons_of_mem _ he'))
        rw [ih db' hnodup.2 hleased' e he]
        have hmem : e ∈ events := finished_sub events db' he
        rw [funext (hsame e hmem).records]

/-! ### The claims -/

theorem Same.claim (hne : id ≠ item.id) (owner : String) (leaseExpiresAt : Int) (db : Db) :
    Same id db (claim owner leaseExpiresAt db item) :=
  .update hne db (leasedTo owner leaseExpiresAt) (leasedTo_id owner leaseExpiresAt) fun _ he =>
    of_decide_eq_true (Bool.and_eq_true_iff.mp he).1

theorem claimAll_keeps (items : List DomainEvent)
    (h : ∀ item ∈ items, ∀ db, P db → P (claim owner leaseExpiresAt db item)) :
    ∀ db, P db → P (claimAll owner leaseExpiresAt db items).1 := by
  induction items with
  | nil => exact fun db hdb => hdb
  | cons item items ih =>
    intro db hdb
    have hrest := ih (fun i hi => h i (mem_cons_of_mem _ hi)) _ (h item mem_cons_self db hdb)
    unfold claimAll
    split <;> exact hrest

/-- A claimed copy is one of the candidates. -/
theorem claimAll_sub (owner : String) (leaseExpiresAt : Int) : ∀ (items : List DomainEvent) (db : Db),
      (claimAll owner leaseExpiresAt db items).2.Sublist (items.map (leasedTo owner leaseExpiresAt)) := by
  intro items
  induction items with
  | nil => exact fun db => Sublist.refl _
  | cons item items ih =>
    intro db
    unfold claimAll
    split
    · exact (ih _).cons_cons _
    · exact (ih _).cons _

theorem status_claimAll (owner : String) (leaseExpiresAt : Int) :
    ∀ (items : List DomainEvent) (db : Db), (items.map DomainEvent.id).Nodup →
      ∀ e ∈ (claimAll owner leaseExpiresAt db items).2,
        (claimAll owner leaseExpiresAt db items).1.status e.id = some .leased := by
  intro items
  induction items with
  | nil =>
    intro db _ e he
    cases he
  | cons item items ih =>
    intro db hnodup e he
    rw [map_cons, nodup_cons] at hnodup
    unfold claimAll at he ⊢
    split at he
    · rename_i hpending
      rw [if_pos hpending]
      rcases mem_cons.mp he with rfl | he
      · have hother : ∀ e' ∈ items, item.id ≠ e'.id := fun e' he' heq =>
          hnodup.1 (heq ▸ mem_map_of_mem he')
        have hsame := claimAll_keeps items (fun i hi d hd => hd.trans (.claim (hother i hi) owner leaseExpiresAt d)) _
          (Same.refl item.id (claim owner leaseExpiresAt db item))
        obtain ⟨e, he, hsel⟩ := any_eq_true.mp hpending
        have hid : e.id = item.id := of_decide_eq_true (Bool.and_eq_true_iff.mp hsel).1
        have hrow : db.row item.id = some e := Db.row_eq_some.mpr ⟨he, hid⟩
        refine hsame.status.trans ?_
        rw [Db.status, claim, row_update, hrow, map_some, if_pos hsel]
        rfl
      · exact ih _ hnodup.2 e he
    · rename_i hpending
      rw [if_neg hpending]
      exact ih _ hnodup.2 e he

theorem nodup_candidates (db : Db) (batchSize : Nat) : ((candidates db batchSize).map DomainEvent.id).Nodup := by
  have hperm := (perm_insertionSort Earlier (db.events.filter fun e => e.status = .pending)).map DomainEvent.id
  have hfilter := (filter_sublist (p := fun e : DomainEvent => e.status = .pending)).map DomainEvent.id |>.nodup db.ids
  exact ((take_sublist _ _).map DomainEvent.id).nodup (hperm.nodup_iff.mpr hfilter)

theorem nodup_claimed (db : Db) (owner : String) (batchSize : Nat) (now : Int) (reached : Nat) :
    ((claimBatch db owner batchSize now reached).2.map DomainEvent.id).Nodup := by
  have hsub := (claimAll_sub owner (now + DEFAULT_OUTBOX_LEASE_MS)
    ((candidates (releaseExpiredLeases db now) batchSize).take reached)
      (releaseExpiredLeases db now)).map DomainEvent.id
  rw [List.map_map] at hsub
  exact hsub.nodup (((List.take_sublist _ _).map DomainEvent.id).nodup (nodup_candidates _ _))

/-- For every database, whatever earlier batches have left in it, and every batch: a finished
    event is settled exactly when what happens at its handlers settles it. -/
theorem finished_settled_iff (consumers : String → List String) (db : Db) (owner : String) (batchSize : Nat) (now : Int)
    (reached : Nat) (happens : Happenings) (e : DomainEvent)
    (he : e ∈ (processBatch consumers db owner batchSize now reached happens).finished) :
    Settled (processBatch consumers db owner batchSize now reached happens).db e.id (consumers e.eventType) ↔
      Settles (recorded db e.id) (runsOf (consumers e.eventType) (happens e.id)) := by
  unfold processBatch at he ⊢
  split at he
  · cases he
  · rename_i hreached
    rw [if_neg hreached]
    have hnodup := nodup_claimed db owner batchSize now reached
    have hleased : ∀ x ∈ (claimBatch db owner batchSize now reached).2,
        (claimBatch db owner batchSize now reached).1.status x.id = some .leased :=
      status_claimAll _ _ _ _ (((take_sublist _ _).map DomainEvent.id).nodup (nodup_candidates _ _))
    rw [processAll_settled_iff consumers now happens _ _ hnodup hleased e he]
    have hrecords : recorded (claimBatch db owner batchSize now reached).1 = recorded db :=
      claimAll_keeps (P := fun d => recorded d = recorded db) _ (fun _ _ _ hd => hd) _ rfl
    rw [hrecords]

/-! ## Handlers that ran before a crash -/

structure BatchCall where
  owner : String
  batchSize : Nat
  now : Int
  reached : Nat
  happens : Happenings

def batchStep (db : Db) (b : BatchCall) : Option Db :=
  some (processBatch consumers db b.owner b.batchSize b.now b.reached b.happens).db

/-- Every handler of the event has its record, and the event is open. -/
structure Delivered (id eventType : String) (db : Db) : Prop where
  row : ∃ e, db.row id = some e ∧ e.eventType = eventType ∧ (e.status = .pending ∨ e.status = .leased)
  records : ∀ h ∈ consumers eventType, recorded db id h

end

section Delivered

variable {eventType : String} (h : Delivered consumers id eventType db)

include h

theorem Delivered.same (hs : Same id db db') : Delivered consumers id eventType db' := by
  refine ⟨hs.row.symm ▸ h.row, ?_⟩
  intro n hn
  rw [hs.records n]
  exact h.records n hn

/-- An update that leaves open what it picks. -/
theorem Delivered.update (hid : ∀ e, (data e).id = e.id)
    (hdata : ∀ e, (data e).eventType = e.eventType ∧ ((data e).status = .pending ∨ (data e).status = .leased)) :
    Delivered consumers id eventType (db.update sel data hid) := by
  refine ⟨?_, h.records⟩
  obtain ⟨e, hrow, htype, hopen⟩ := h.row
  refine ⟨if sel e then data e else e, ?_, ?_⟩
  · rw [row_update, hrow, map_some]
  · split
    · exact ⟨(hdata e).1.trans htype, (hdata e).2⟩
    · exact ⟨htype, hopen⟩

/-- Its handlers are skipped, so a delivery of the event writes nothing. -/
theorem Delivered.processEvent (hsome : consumers eventType ≠ []) (now : Int)
    (happens : Happenings) (htype : event.id = id → event.eventType = eventType) :
    Delivered consumers id eventType (processEvent consumers now happens db event).1 := by
  by_cases heq : event.id = id
  · have hrecords : ∀ x ∈ runsOf (consumers eventType) (happens event.id), recorded db event.id x.1 := by
      rw [heq]
      exact (forall_runsOf (p := fun n => recorded db id n)).mpr h.records
    unfold Events.processEvent
    rw [htype heq]
    dsimp only
    rw [if_neg hsome, deliver_recorded now _ hrecords]
    exact h
  · exact h.same (processEvent_same consumers now happens db (Ne.symm heq))

theorem Delivered.processBatch (hsome : consumers eventType ≠ []) (b : BatchCall) :
    Delivered consumers id eventType (processBatch consumers db b.owner b.batchSize b.now b.reached b.happens).db := by
  have hreleased : Delivered consumers id eventType (releaseExpiredLeases db b.now) :=
    h.update released_id fun _ => ⟨rfl, .inl rfl⟩
  have hclaimed : Delivered consumers id eventType (claimBatch db b.owner b.batchSize b.now b.reached).1 :=
    claimAll_keeps _ (fun _ _ _ hd => hd.update (leasedTo_id _ _) fun _ => ⟨rfl, .inr rfl⟩) _ hreleased
  unfold Events.processBatch
  dsimp only
  split
  · exact hclaimed
  · refine processAll_keeps _ (fun e he d hd => hd.processEvent hsome b.now b.happens fun hid => ?_) _ hclaimed
    -- a claimed copy of the event has the type of its row
    obtain ⟨item, hitem, rfl⟩ := mem_map.mp ((claimAll_sub _ _ _ _).subset he)
    have hevent := (mem_filter.mp ((mem_insertionSort _).mp (mem_of_mem_take (mem_of_mem_take hitem)))).1
    obtain ⟨r, hrow, htype, -⟩ := hreleased.row
    have hsame : r = item := some.inj (hrow.symm.trans (Db.row_eq_some.mpr ⟨hevent, hid⟩))
    exact hsame ▸ htype

/-- However many batches claim it, such an event is never marked processed. -/
theorem never_processed (hsome : consumers eventType ≠ [])
    (hrun : Run (batchStep consumers) anyStep db db') : Delivered consumers id eventType db' := by
  refine hrun.invariant h ?_
  intro a b c ha _ hstep
  cases hstep
  exact ha.processBatch hsome b

end Delivered

/-! ## One event, with two handlers or with one -/

variable (eventType : String)

def demoConsumers : List String :=
  if eventType = "proof.created" then ["ledger", "mailer"] else ["mailer"]

def onePublished : Db := ⟨[published "evt_1" eventType none 0], [], List.nodup_singleton _⟩

def happening (first second : Outcome) : Happenings := fun _ i => if i = 0 then first else second

def firstBatch (first second : Outcome) : Progress :=
  processBatch demoConsumers (onePublished eventType) "worker-1" 10 0 1 (happening first second)

def nextBatch (db : Db) : Progress :=
  processBatch demoConsumers db "worker-2" 10 60000 1 (happening .processed .processed)

def partlyFailed : Progress := firstBatch "proof.created" (.failed "down") .processed

/-- The process dies between the only handler's record and the mark, and the event is claimed again. -/
def reclaimed : Progress := nextBatch (firstBatch "proof.revoked" (.stopped true) .processed).db

theorem never_processed_reclaimed : Delivered demoConsumers "evt_1" "proof.revoked" reclaimed.db :=
  never_processed ⟨⟨_, rfl, rfl, .inr rfl⟩, by decide +kernel⟩ (by decide)
    (.snoc ⟨"worker-2", 10, 60000, 1, happening .processed .processed⟩ .refl trivial rfl)

def putBack : Progress := firstBatch "proof.created" .processed (.failed "down")

/-- In the one case the event is finished as processed without the first handler's record, in
    the other as leased with all records. -/
theorem wrongly_settled :
    ((∃ e ∈ partlyFailed.finished, e.id = "evt_1") ∧ partlyFailed.db.status "evt_1" = some .processed ∧
      recorded partlyFailed.db "evt_1" "ledger" = false ∧
      ¬ Settled partlyFailed.db "evt_1" (demoConsumers "proof.created")) ∧
    ((∃ e ∈ reclaimed.finished, e.id = "evt_1") ∧ reclaimed.db.status "evt_1" = some .leased ∧
      (∀ h ∈ demoConsumers "proof.revoked", recorded reclaimed.db "evt_1" h) ∧
      ¬ Settled reclaimed.db "evt_1" (demoConsumers "proof.revoked")) := by
  decide +kernel

/-- The second handler fails and the event is put back; the next batch runs it again, and the
    event is processed. -/
theorem finished_settled_iff_retried :
    Settled putBack.db "evt_1" (demoConsumers "proof.created") ∧ putBack.db.status "evt_1" = some .pending ∧
      Settled (nextBatch putBack.db).db "evt_1" (demoConsumers "proof.created") ∧
      (nextBatch putBack.db).db.status "evt_1" = some .processed := by
  have hfirst : ∃ e ∈ putBack.finished, e.id = "evt_1" ∧ e.eventType = "proof.created" ∧
      Settles (recorded (onePublished "proof.created") e.id)
        (runsOf (demoConsumers e.eventType) (happening .processed (.failed "down") e.id)) := by
    decide +kernel
  have hnext : ∃ e ∈ (nextBatch putBack.db).finished, e.id = "evt_1" ∧ e.eventType = "proof.created" ∧
      Settles (recorded putBack.db e.id)
        (runsOf (demoConsumers e.eventType) (happening .processed .processed e.id)) := by
    decide +kernel
  obtain ⟨e, he, hid, htype, hsettles⟩ := hfirst
  obtain ⟨e', he', hid', htype', hsettles'⟩ := hnext
  have hsettled := (finished_settled_iff demoConsumers _ "worker-1" 10 0 1 _ e he).mpr hsettles
  have hsettled' := (finished_settled_iff demoConsumers _ "worker-2" 10 60000 1 _ e' he').mpr hsettles'
  rw [hid, htype] at hsettled
  rw [hid', htype'] at hsettled'
  exact ⟨hsettled, by decide +kernel, hsettled', by decide +kernel⟩

end EarnProof.Events
