/-
  EarnProof.Payments.BackfillCoverage — what a completed backfill has stored, over every
  interleaving of operators, workers, crashes and other writers (`Payments.Backfill`), while
  Horizon serves one feed (`Serves`).

  A page and its checkpoint are committed together, and only by a worker whose copy is the
  row (`Leased`). So the pages of a job compose to the part of its range behind the
  checkpoint, whoever committed them (`Scanned`): a page that several workers read is
  committed once. A completed job has stored its whole range, its counters are the
  payments it inserted and those it found, and its checkpoint never moved back
  (`completed_covers`).
-/
import EarnProof.Payments.BackfillPages
import EarnProof.Payments.BackfillLeases
import EarnProof.Payments.SyncSteps

namespace EarnProof.Payments.Backfill

open Lib Lib.Table Lib.Calendar Database Stellar List Option

/-! ## The inserts of a page -/

variable {op : String} {data rows : List SyncedPayment} {j : PaymentBackfillJob} {p : Nat} {call : Option Call}

theorem hasOperation_iff : hasOperation op rows ↔ op ∈ rows.map (·.operationId) := by
  simp [hasOperation]

section

variable (hdata : (data.map (·.operationId)).Nodup)

include hdata

/-- The rows of distinct operations: those not stored yet are appended. -/
theorem createMany_eq (rows : List SyncedPayment) :
    createMany data rows = rows ++ data.filter fun r => hasOperation r.operationId rows = false := by
  induction data generalizing rows with
  | nil => rw [createMany, filter_nil, append_nil]
  | cons row data ih =>
    rw [map_cons, nodup_cons] at hdata
    cases hstored : hasOperation row.operationId rows with
    | true =>
      rw [createMany, if_pos hstored, ih hdata.2, filter_cons_of_neg (by simp [hstored])]
    | false =>
      -- The row just appended is of another operation than those that follow.
      have hrest : (data.filter fun r => hasOperation r.operationId (rows ++ [row]) = false) =
          data.filter fun r => hasOperation r.operationId rows = false := by
        refine filter_congr fun r hr => ?_
        have hne : row.operationId ≠ r.operationId := fun he => hdata.1 (mem_map.mpr ⟨r, hr, he.symm⟩)
        simp [hasOperation, hne]
      rw [createMany, if_neg (by simp [hstored]), ih hdata.2, hrest, filter_cons_of_pos (by simp [hstored]),
        append_assoc, singleton_append]

theorem hasOperation_createMany :
    hasOperation op (createMany data rows) ↔ hasOperation op rows ∨ op ∈ data.map (·.operationId) := by
  rw [createMany_eq hdata, hasOperation_iff, hasOperation_iff, map_append, mem_append]
  constructor
  · rintro (h | h)
    · exact .inl h
    · obtain ⟨r, hr, rfl⟩ := mem_map.mp h
      exact .inr (mem_map_of_mem (mem_filter.mp hr).1)
  · rintro (h | h)
    · exact .inl h
    · by_cases hstored : op ∈ rows.map (·.operationId)
      · exact .inl hstored
      · obtain ⟨r, hr, rfl⟩ := mem_map.mp h
        have hnew : hasOperation r.operationId rows = false := by
          rw [← Bool.not_eq_true, hasOperation_iff]
          exact hstored
        exact .inr (mem_map_of_mem (mem_filter.mpr ⟨hr, decide_eq_true hnew⟩))

theorem nodup_createMany
    (hrows : (rows.map (·.operationId)).Nodup) : ((createMany data rows).map (·.operationId)).Nodup := by
  rw [createMany_eq hdata, map_append, nodup_append']
  refine ⟨hrows, hdata.sublist (filter_sublist.map _), ?_⟩
  intro op hop hnew
  obtain ⟨r, hr, rfl⟩ := mem_map.mp hnew
  have hfalse := of_decide_eq_true (mem_filter.mp hr).2
  exact absurd ((hasOperation_iff.mpr hop).symm.trans hfalse) (by simp)

end

section PageInserts

variable (cfg : Config) (job : ClaimedJob) (eligibleAssets : List String) {plan : BackfillPagePlan}

theorem pageRows_operations (plan : BackfillPagePlan) :
    (pageRows cfg job eligibleAssets plan).map (·.operationId) = plan.payments.map (·.operationId) := by
  simp [pageRows, toPaymentRow]

/-- The count of a page's inserts is the number of its operations that were not stored. -/
theorem insertedCount_eq (hplan : (plan.payments.map (·.operationId)).Nodup) (rows : List SyncedPayment) :
    insertedCount (pageRows cfg job eligibleAssets plan) rows = (operationsStored false plan rows).length := by
  have hdata : ((pageRows cfg job eligibleAssets plan).map (·.operationId)).Nodup :=
    pageRows_operations cfg job eligibleAssets plan ▸ hplan
  unfold insertedCount operationsStored
  rw [createMany_eq hdata, List.length_append, Nat.add_sub_cancel_left,
    ← pageRows_operations cfg job eligibleAssets plan, List.filter_map, List.length_map]
  rfl

/-- The operations of a page are those it inserts and those it finds. -/
theorem operationsStored_perm (plan : BackfillPagePlan) (rows : List SyncedPayment) :
    (operationsStored false plan rows ++ operationsStored true plan rows).Perm (plan.payments.map (·.operationId)) := by
  have h := filter_append_perm (fun op => hasOperation op rows = false) (plan.payments.map (·.operationId))
  refine List.Perm.trans (.of_eq ?_) h
  congr 1
  exact filter_congr fun op _ => by cases hasOperation op rows <;> rfl

end PageInserts

/-! ## The part of the range a job has scanned -/

/-- The operations a mark adds to what a job inserted, or found. -/
def Mark.operations (stored : Bool) (id : String) : Mark → List String
  | .page job inserted found => if job = id then (if stored then found else inserted) else []
  | .claim _ => []

def operationsOf (stored : Bool) (id : String) (marks : List Mark) : List String :=
  marks.flatMap (Mark.operations stored id)

def insertedBy (id : String) (marks : List Mark) : List String := operationsOf false id marks

def foundBy (id : String) (marks : List Mark) : List String := operationsOf true id marks

theorem operationsOf_other {id job : String} (h : id ≠ job) (stored : Bool) (marks : List Mark)
    (inserted found : List String) :
    operationsOf stored id (marks ++ [Mark.page job inserted found]) = operationsOf stored id marks := by
  simp [operationsOf, Mark.operations, h.symm]

section

variable (id : String) (marks : List Mark) (inserted found : List String)

theorem insertedBy_page :
    insertedBy id (marks ++ [Mark.page id inserted found]) = insertedBy id marks ++ inserted := by
  simp [insertedBy, operationsOf, Mark.operations]

theorem foundBy_page : foundBy id (marks ++ [Mark.page id inserted found]) = foundBy id marks ++ found := by
  simp [foundBy, operationsOf, Mark.operations]

end

def scannedAccount (cfg : Config) (job : ClaimedJob) : Option String :=
  (cfg.wallet job.userId).map (job.accountId.getD ·)

section

variable (cfg : Config) (H : Horizon)

/-- What is due from the start of a job's range up to a TOID. -/
def dueTo (job : ClaimedJob) (hi : Nat) : List NormalizedPayment :=
  match scannedAccount cfg job with
  | some account => H.due account job.first hi
  | none => []

def ClaimedJob.reach (job : ClaimedJob) (completed : Bool) : Nat := if completed then job.stop else job.checkpoint + 1

structure Scanned (payments : List SyncedPayment) (marks : List Mark) (job : ClaimedJob)
    (completed : Bool) (created skipped : Nat) : Prop where
  starts : job.first ≤ job.checkpoint
  ends : job.checkpoint < job.stop
  account : completed → (scannedAccount cfg job).isSome
  covers : (insertedBy job.id marks ++ foundBy job.id marks).Perm
    ((dueTo cfg H job (job.reach completed)).map (·.operationId))
  inserted : created = (insertedBy job.id marks).length
  found : skipped = (foundBy job.id marks).length
  stored : ∀ op ∈ insertedBy job.id marks ++ foundBy job.id marks, hasOperation op payments

def ScannedRow (payments : List SyncedPayment) (marks : List Mark) (j : PaymentBackfillJob) : Prop :=
  Scanned cfg H payments marks j.toClaimedJob (decide (j.status = .completed)) j.paymentsCreated j.duplicatesSkipped

end

theorem append_swap_perm {α : Type} (a b c d : List α) : ((a ++ b) ++ (c ++ d)).Perm ((a ++ c) ++ (b ++ d)) := by
  have hswap : (b ++ c ++ d).Perm (c ++ b ++ d) := perm_append_comm.append_right d
  simpa only [append_assoc] using hswap.append_left a

section Scanned

variable {cfg : Config} {H : Horizon} {payments payments' : List SyncedPayment} {marks marks' : List Mark}
    {job : ClaimedJob} {completed : Bool} {created skipped : Nat}

/-- Neither the attempts nor other rows and marks matter, where what is stored stays stored. -/
theorem Scanned.frame (h : Scanned cfg H payments marks job completed created skipped) (attempts : Nat)
    (hpayments : ∀ op, hasOperation op payments → hasOperation op payments')
    (hinserted : insertedBy job.id marks' = insertedBy job.id marks)
    (hfound : foundBy job.id marks' = foundBy job.id marks) :
    Scanned cfg H payments' marks' { job with attempts } completed created skipped where
  starts := h.starts
  ends := h.ends
  account := h.account
  covers := by
    rw [hinserted, hfound]
    exact h.covers
  inserted := by
    rw [hinserted]
    exact h.inserted
  found := by
    rw [hfound]
    exact h.found
  stored := by
    rw [hinserted, hfound]
    exact fun op hop => hpayments op (h.stored op hop)

theorem ScannedRow.touched {j' : PaymentBackfillJob} (h : ScannedRow cfg H payments marks j) (ht : Touched j j') :
    ScannedRow cfg H payments marks j' := by
  have hcompleted : decide (j'.status = .completed) = decide (j.status = .completed) :=
    decide_eq_decide.mpr ⟨ht.completed, fun hj => (congrArg _ (ht.of_completed hj)).trans hj⟩
  unfold ScannedRow
  rw [hcompleted, ht.copy, ht.counts.1, ht.counts.2]
  exact h

theorem ScannedRow.claimed (h : ScannedRow cfg H payments marks j) (p : Nat) (now : Date)
    (hopen : j.status ≠ .completed) : ScannedRow cfg H payments marks (j.claimed p now) := by
  have hcompleted : decide (j.status = .completed) = false := decide_eq_false hopen
  unfold ScannedRow at h
  rw [hcompleted] at h
  exact h.frame (j.attempts + 1) (fun _ hop => hop) rfl rfl

/-- A job that is created has scanned nothing. -/
theorem scanned_new (id userId : String) (range : LedgerRange) (accountId : Option String)
    (payments : List SyncedPayment) (hinserted : insertedBy id marks = []) (hfound : foundBy id marks = []) :
    ScannedRow cfg H payments marks (newJob id userId range accountId) where
  starts := le_refl _
  ends := by
    have hordered := range.ordered
    show range.startLedger * 2 ^ LEDGER_SHIFT < (range.endLedger + 1) * 2 ^ LEDGER_SHIFT
    exact Nat.mul_lt_mul_of_pos_right (by omega) (by decide)
  account := nofun
  covers := by
    have hnone : dueTo cfg H (newJob id userId range accountId).toClaimedJob
        ((newJob id userId range accountId).toClaimedJob.reach false) = [] := by
      unfold dueTo
      split
      · exact due_empty _
      · rfl
    show (insertedBy id marks ++ foundBy id marks).Perm (List.map _ (dueTo cfg H _ (ClaimedJob.reach _ false)))
    rw [hinserted, hfound, hnone]
    exact .refl _
  inserted := by
    show 0 = (insertedBy id marks).length
    rw [hinserted]
    rfl
  found := by
    show 0 = (foundBy id marks).length
    rw [hfound]
    rfl
  stored := by
    show ∀ op ∈ insertedBy id marks ++ foundBy id marks, _
    rw [hinserted, hfound]
    exact nofun

theorem LedgerRange.stop_lt (r : LedgerRange) : r.stop < 10 ^ 20 := by
  have hmax := r.maximum
  calc (r.endLedger + 1) * 2 ^ LEDGER_SHIFT ≤ (MAX_BACKFILL_LEDGER + 1) * 2 ^ LEDGER_SHIFT :=
        Nat.mul_le_mul_right _ (by omega)
    _ < 10 ^ 20 := by decide

variable {plan : BackfillPagePlan}

/-- The checkpoint that is written is read back. -/
theorem after_checkpoint (h : plan.nextCheckpoint < job.stop) :
    (job.after plan).checkpoint = plan.nextCheckpoint := by
  have hlt := h.trans job.stop_lt
  simp only [ClaimedJob.checkpoint, ClaimedJob.after, bind_some, parseToid_repr_of_lt hlt, getD_some]

/-- A page adds what is due between the checkpoints. -/
theorem Scanned.page (h : Scanned cfg H payments marks job false created skipped) {account : String}
    (haccount : scannedAccount cfg job = some account)
    (hplan : PageSpec H account job.checkpoint job.stop plan) (copy : ClaimedJob) (eligibleAssets : List String) :
    Scanned cfg H (createMany (pageRows cfg copy eligibleAssets plan) payments)
      (marks ++ [Mark.page job.id (operationsStored false plan payments) (operationsStored true plan payments)])
      (job.after plan) plan.done (created + insertedCount (pageRows cfg copy eligibleAssets plan) payments)
      (skipped + (plan.payments.length - insertedCount (pageRows cfg copy eligibleAssets plan) payments)) := by
  have hnodup : (plan.payments.map (·.operationId)).Nodup := hplan.payments ▸ nodup_due _ _
  have hdata : ((pageRows cfg copy eligibleAssets plan).map (·.operationId)).Nodup :=
    pageRows_operations cfg copy eligibleAssets plan ▸ hnodup
  have hpage := operationsStored_perm plan payments
  have hall : ((insertedBy job.id marks ++ operationsStored false plan payments) ++
      (foundBy job.id marks ++ operationsStored true plan payments)).Perm
      ((insertedBy job.id marks ++ foundBy job.id marks) ++ plan.payments.map (·.operationId)) :=
    (append_swap_perm _ _ _ _).trans (hpage.append_left _)
  have hchecked := after_checkpoint hplan.within
  have hdue : dueTo cfg H (job.after plan) ((job.after plan).reach plan.done) =
      dueTo cfg H job (job.checkpoint + 1) ++ plan.payments := by
    have hto : ∀ hi, dueTo cfg H (job.after plan) hi = H.due account job.first hi := by
      intro hi
      simp only [dueTo, show scannedAccount cfg (job.after plan) = some account from haccount]
      rfl
    rw [hto, dueTo, haccount, hplan.payments]
    have hfirst := due_split H account h.starts (Nat.lt_succ_of_le hplan.forward)
    unfold ClaimedJob.reach
    split
    · rename_i hdone
      have hlast := due_split H account (h.starts.trans hplan.forward) hplan.within
      rw [hplan.rest hdone, append_nil] at hlast
      exact hlast.trans hfirst
    · rw [hchecked]
      exact hfirst
  refine ⟨?_, ?_, ?_, ?_, ?_, ?_, ?_⟩
  · rw [hchecked]
    exact h.starts.trans hplan.forward
  · rw [hchecked]
    exact hplan.within
  · intro _
    exact isSome_iff_exists.mpr ⟨account, haccount⟩
  · show (insertedBy job.id _ ++ foundBy job.id _).Perm _
    rw [insertedBy_page, foundBy_page, hdue, map_append]
    exact hall.trans (h.covers.append_right _)
  · show _ = (insertedBy job.id _).length
    rw [insertedBy_page, length_append, insertedCount_eq cfg copy eligibleAssets hnodup, h.inserted]
  · show _ = (foundBy job.id _).length
    have hlength := hpage.length_eq
    rw [length_append, length_map] at hlength
    rw [foundBy_page, length_append, insertedCount_eq cfg copy eligibleAssets hnodup, h.found]
    omega
  · show ∀ op ∈ insertedBy job.id _ ++ foundBy job.id _, _
    rw [insertedBy_page, foundBy_page]
    intro op hop
    rw [hasOperation_createMany hdata, pageRows_operations]
    rcases mem_append.mp (hall.mem_iff.mp hop) with hop | hop
    · exact .inl (h.stored op hop)
    · exact .inr hop

end Scanned

/-! ## Runs -/

/-- A read is answered from the feed, or it fails. -/
def Call.served (H : Horizon) (page : Option AscendingPaymentsPage) : Option Call → Prop
  | some (.lease job _ (.read account)) => page = none ∨ page = some (H.page account job.checkpoint)
  | _ => True

instance (H : Horizon) (page : Option AscendingPaymentsPage) : Decidable (Call.served H page call) := by
  induction call using Option.casesOn with
  | none => exact .isTrue trivial
  | some c =>
    induction c using Call.casesOn with
    | lease job pages stage => induction stage using Stage.casesOn <;> dsimp only [Call.served] <;> infer_instance
    | _ => exact .isTrue trivial

def Serves (H : Horizon) (w : World) : Event → Prop
  | .access p a => Call.served H a.page (w.workers p)
  | _ => True

instance (H : Horizon) (w : World) (e : Event) : Decidable (Serves H w e) := by
  induction e using Event.casesOn <;> dsimp only [Serves] <;> infer_instance

section

variable (cfg : Config) (H : Horizon)

/-- The plan is that of a page the feed has behind the job's checkpoint. -/
def PlanOf (job : ClaimedJob) (plan : BackfillPagePlan) : Prop :=
  ∃ account, scannedAccount cfg job = some account ∧
    plan = planBackfillPage (H.page account job.checkpoint) job.checkpoint job.stop ∧ plan.stalled = false

/-- What a stage carries comes from the feed. -/
def Stage.honest (job : ClaimedJob) : Stage → Prop
  | .read account => scannedAccount cfg job = some account
  | .assets plan => PlanOf cfg H job plan
  | .commit plan _ => PlanOf cfg H job plan
  | _ => True

structure Covered (w : World) : Prop where
  leased : Leased w.jobs w.workers
  unique : (w.payments.map (·.operationId)).Nodup
  honest : ∀ p job pages stage, w.workers p = some (.lease job pages stage) → stage.honest cfg H job
  scanned : ∀ j ∈ w.jobs, ScannedRow cfg H w.payments w.marks j
  /-- Marks are of jobs there are. -/
  named : ∀ id, id ∉ w.jobs.map (·.id) → insertedBy id w.marks = [] ∧ foundBy id w.marks = []

end

section Covered

variable {cfg : Config} {H : Horizon} {w w' : World} {job : ClaimedJob} {eligibleAssets : List String}

/-- What a worker does next, when it goes on without a write. -/
theorem Leads.honest {a : Answer} {stage next : Stage} (h : Leads cfg job a stage next)
    (hstage : stage.honest cfg H job)
    (hserves : ∀ account, stage = .read account → a.page = none ∨ a.page = some (H.page account job.checkpoint)) :
    next.honest cfg H job := by
  cases h with
  | account hwallet =>
    show scannedAccount cfg job = some _
    rw [scannedAccount, hwallet]
    rfl
  | planned hpage hstalled =>
    rename_i account page
    have hserved := hserves account rfl
    rw [hpage] at hserved
    obtain rfl := some.inj (hserved.resolve_left (by simp))
    exact ⟨account, hstage, rfl, hstalled⟩
  | assets => exact hstage
  | _ => trivial

variable {workers : Nat → Option Call} {pages : Nat} {e : Event}

section

variable (h : ∀ q job pages stage, workers q = some (.lease job pages stage) → stage.honest cfg H job)

include h

theorem honest_update (hcall : ∀ job pages stage, call = some (.lease job pages stage) → stage.honest cfg H job) :
    ∀ q job pages stage, Function.update workers p call q = some (.lease job pages stage) → stage.honest cfg H job := by
  intro q job pages stage hq
  rcases update_eq_some hq with ⟨rfl, hnew⟩ | ⟨-, hold⟩
  · exact hcall job pages stage hnew
  · exact h q job pages stage hold

/-- A worker that leases nothing has nothing to be honest about. -/
theorem honest_leave (hcall : ∀ job pages stage, call ≠ some (.lease job pages stage)) :
    ∀ q job pages stage, Function.update workers p call q = some (.lease job pages stage) → stage.honest cfg H job :=
  honest_update h fun job pages stage he => absurd he (hcall job pages stage)

end

section

variable (h : Covered cfg H w)

include h

theorem Covered.scanned_touched {jobs : List PaymentBackfillJob} (ht : TouchedRows w.jobs jobs) :
    (∀ j ∈ jobs, ScannedRow cfg H w.payments w.marks j) ∧
      ∀ id, id ∉ jobs.map (·.id) → insertedBy id w.marks = [] ∧ foundBy id w.marks = [] := by
  constructor
  · intro j' hj'
    obtain ⟨j, hj, htouched⟩ := exists_of_forall₂_right ht hj'
    exact (h.scanned j hj).touched htouched
  · intro id hid
    rw [ht.ids] at hid
    exact h.named id hid

/-- The plan a worker commits is right for the row the commit finds. -/
theorem Covered.plan {plan : BackfillPagePlan}
    (hcall : w.workers p = some (.lease job pages (.commit plan eligibleAssets)))
    (hj : j ∈ w.jobs) (hcommits : j.commits job.id p) :
    ∃ account, scannedAccount cfg j.toClaimedJob = some account ∧ PageSpec H account j.checkpoint j.stop plan := by
  obtain ⟨⟨hid, howner, -⟩, -⟩ := commits_iff.mp hcommits
  have hcopy := h.leased.copies p job pages _ hcall j hj hid howner
  have hcheckpoint : j.checkpoint = job.checkpoint := by
    unfold ClaimedJob.checkpoint
    rw [hcopy.checkpoint rfl, hcopy.range]
  have hstop : j.stop = job.stop := congrArg LedgerRange.stop hcopy.range
  obtain ⟨account, haccount, hplan, hstalled⟩ := h.honest p job pages _ hcall
  refine ⟨account, ?_, ?_⟩
  · rw [← haccount]
    unfold scannedAccount
    rw [hcopy.userId, hcopy.accountId]
  · have hends := (h.scanned j hj).ends
    rw [hcheckpoint, hstop] at hends ⊢
    subst hplan
    exact plan_spec H account hends hstalled

theorem Covered.commit {plan : BackfillPagePlan}
    (hcall : w.workers p = some (.lease job pages (.commit plan eligibleAssets)))
    {row : PaymentBackfillJob} (hrow : row ∈ w.jobs) (hcommits : row.commits job.id p) (now : Date)
    (hnext : call = afterPage job pages plan ∨ call = some (.lease job pages (.fail .databaseError false))) :
    Covered cfg H ((w.commitPage cfg p job plan eligibleAssets now).withWorker p call) := by
  obtain ⟨account, haccount, hplan⟩ := h.plan hcall hrow hcommits
  have hid := (commits_iff.mp hcommits).1.1
  have hnodup : (plan.payments.map (·.operationId)).Nodup := hplan.payments ▸ nodup_due _ _
  have hdata : ((pageRows cfg job eligibleAssets plan).map (·.operationId)).Nodup :=
    pageRows_operations cfg job eligibleAssets plan ▸ hnodup
  have hids : (Table.update (·.commits job.id p) (.committed plan
      (insertedCount (pageRows cfg job eligibleAssets plan) w.payments) now) w.jobs).map (·.id) = w.jobs.map (·.id) :=
    map_update _ (committed_id plan _ now)
  refine ⟨h.leased.page hcall hrow hcommits plan _ now hnext, nodup_createMany hdata h.unique, ?_, ?_, ?_⟩
  · refine honest_update h.honest ?_
    intro copy pages' stage he
    rcases hnext with rfl | rfl
    · obtain ⟨-, rfl | rfl⟩ := afterPage_lease he <;> trivial
    · cases he
      trivial
  · intro j' hj'
    obtain ⟨j, hj, ⟨hsel, rfl⟩ | ⟨hsel, rfl⟩⟩ := mem_update_cases hj'
    · -- The row of the job: ids are unique.
      have hjid := (commits_iff.mp hsel).1.1
      obtain rfl := eq_of_key h.leased.ids hj hrow (hjid.trans hid.symm)
      have hrunning := (commits_iff.mp hsel).1.2.2
      have hopen : decide (j.status = .completed) = false := by rw [hrunning]; rfl
      have hscanned := h.scanned j hj
      unfold ScannedRow at hscanned
      rw [hopen] at hscanned
      have hpage := hscanned.page haccount hplan job eligibleAssets
      unfold ScannedRow
      rw [hid] at hpage
      unfold PaymentBackfillJob.committed
      split
      · rename_i hdone
        rw [hdone] at hpage
        exact hpage
      · rename_i hdone
        rw [Bool.eq_false_of_not_eq_true hdone] at hpage
        rw [hopen]
        exact hpage
    · have hne : j'.id ≠ job.id := by
        intro he
        obtain rfl := eq_of_key h.leased.ids hj hrow (he.trans hid.symm)
        exact absurd (hcommits.symm.trans hsel) (by simp)
      exact (h.scanned _ hj).frame j'.attempts (fun op hop => (hasOperation_createMany hdata).mpr (.inl hop))
        (operationsOf_other hne false w.marks _ _) (operationsOf_other hne true w.marks _ _)
  · intro id hmissing
    have hmissing : id ∉ w.jobs.map (·.id) := hids ▸ hmissing
    have hne : id ≠ job.id := by
      rintro rfl
      exact hmissing (mem_map.mpr ⟨row, hrow, hid⟩)
    obtain ⟨hinserted, hfound⟩ := h.named id hmissing
    exact ⟨(operationsOf_other hne false w.marks _ _).trans hinserted,
      (operationsOf_other hne true w.marks _ _).trans hfound⟩

theorem Covered.claim {job : PaymentBackfillJob} (hjob : job ∈ w.jobs) (p : Nat) (now : Date)
    (hclaimable : job.claimable now) :
    Covered cfg H ({ w with
      jobs := claimRows job.id p now w.jobs
      marks := w.marks ++ [Mark.claim job.id] }.withWorker p
        (some (.lease (job.claimed p now).toClaimedJob 0 .user))) := by
  have hinserted : ∀ id, insertedBy id (w.marks ++ [Mark.claim job.id]) = insertedBy id w.marks :=
    fun id => by simp [insertedBy, operationsOf, Mark.operations]
  have hfound : ∀ id, foundBy id (w.marks ++ [Mark.claim job.id]) = foundBy id w.marks :=
    fun id => by simp [foundBy, operationsOf, Mark.operations]
  have hids : (claimRows job.id p now w.jobs).map (·.id) = w.jobs.map (·.id) := map_update _ fun _ => rfl
  refine ⟨h.leased.claim hjob p now, h.unique, ?_, ?_, ?_⟩
  · refine honest_update h.honest ?_
    intro copy pages stage he
    cases he
    trivial
  · intro j' hj'
    obtain ⟨j, hj, ⟨hjid, rfl⟩ | ⟨-, rfl⟩⟩ := mem_claimRows hj'
    · obtain rfl := eq_of_key h.leased.ids hj hjob hjid
      have hopen : j.status ≠ .completed := by
        intro hcompleted
        rcases (claimable_iff.mp hclaimable).2 with hpending | ⟨hrunning, -⟩
        · exact absurd (hcompleted.symm.trans hpending) (by decide)
        · exact absurd (hcompleted.symm.trans hrunning) (by decide)
      exact ((h.scanned j hj).claimed p now hopen).frame _ (fun _ hop => hop) (hinserted _) (hfound _)
    · exact (h.scanned _ hj).frame _ (fun _ hop => hop) (hinserted _) (hfound _)
  · intro id hmissing
    have hmissing : id ∉ w.jobs.map (·.id) := hids ▸ hmissing
    show insertedBy id (w.marks ++ [_]) = [] ∧ foundBy id (w.marks ++ [_]) = []
    rw [hinserted, hfound]
    exact h.named id hmissing

theorem step_covered (hserves : Serves H w e) (hstep : step cfg w e = some w') : Covered cfg H w' := by
  have hleased := step_leased h.leased hstep
  cases step_effect hstep with
  | refused => exact h
  | create id userId range accountId hfresh =>
    refine ⟨hleased, h.unique, h.honest, forall_append_row h.scanned ?_, ?_⟩
    · exact scanned_new id userId range accountId w.payments (h.named id hfresh).1 (h.named id hfresh).2
    · intro other hother
      refine h.named other fun hmem => hother ?_
      rw [map_append]
      exact mem_append_left _ hmem
  | cancel id now =>
    obtain ⟨hscanned, hnamed⟩ := h.scanned_touched (cancelRows_touched h.leased.owned id now)
    exact ⟨hleased, h.unique, h.honest, hscanned, hnamed⟩
  | sync =>
    refine ⟨hleased, nodup_upsert (fun _ => rfl) rfl h.unique, h.honest, ?_, h.named⟩
    intro j hj
    refine (h.scanned j hj).frame j.attempts (fun _ hop => ?_) rfl rfl
    rw [hasOperation_iff] at hop ⊢
    unfold upsert
    split
    · rwa [map_update _ (by intro r; rfl)]
    · rw [map_append]
      exact mem_append_left _ hop
  | turns p call hcall => exact ⟨hleased, h.unique, honest_leave h.honest hcall, h.scanned, h.named⟩
  | finalize p now =>
    obtain ⟨hscanned, hnamed⟩ := h.scanned_touched (finalizeRows_touched now w.jobs)
    exact ⟨hleased, h.unique, honest_leave h.honest (by rintro _ _ _ ⟨⟩), hscanned, hnamed⟩
  | claim p a he hcall job hcandidate hjob hclaimable => exact h.claim hjob p a.now hclaimable
  | lease p a he job pages stage hcall w' hw =>
    subst he
    cases hw with
    | goesOn next hnext =>
      refine ⟨hleased, h.unique, honest_update h.honest ?_, h.scanned, h.named⟩
      intro copy pages' stage' he
      cases he
      refine hnext.honest (h.honest p job pages stage hcall) ?_
      intro account hread
      subst hread
      simp only [Serves, hcall] at hserves
      exact hserves
    | page plan eligibleAssets hstage row hrow hcommits call hnext =>
      subst hstage
      exact h.commit hcall hrow hcommits a.now hnext
    | stops =>
      obtain ⟨hscanned, hnamed⟩ := h.scanned_touched (stopRows_touched job.id p a.now w.jobs)
      exact ⟨hleased, h.unique, honest_leave h.honest (by rintro _ _ _ ⟨⟩), hscanned, hnamed⟩
    | fails reason permanent =>
      obtain ⟨hscanned, hnamed⟩ := h.scanned_touched (failRows_touched h.leased.owned job p reason permanent a.now)
      exact ⟨hleased, h.unique, honest_leave h.honest (by rintro _ _ _ ⟨⟩), hscanned, hnamed⟩
    | yields =>
      obtain ⟨hscanned, hnamed⟩ := h.scanned_touched (yieldRows_touched job.id p w.jobs)
      exact ⟨hleased, h.unique, honest_leave h.honest (by rintro _ _ _ ⟨⟩), hscanned, hnamed⟩

end

/-- No step takes a job away or its checkpoint back. -/
def Forward (w w' : World) : Prop := ∀ j ∈ w.jobs, ∃ j' ∈ w'.jobs, j'.id = j.id ∧ j.checkpoint ≤ j'.checkpoint

theorem Forward.of_jobs (h : w'.jobs = w.jobs) : Forward w w' := fun j hj => ⟨j, h ▸ hj, rfl, le_refl _⟩

theorem TouchedRows.forward (h : TouchedRows w.jobs w'.jobs) : Forward w w' := by
  intro j hj
  obtain ⟨j', hj', ht⟩ := exists_of_forall₂ h hj
  exact ⟨j', hj', congrArg ClaimedJob.id ht.copy, le_of_eq (congrArg ClaimedJob.checkpoint ht.copy).symm⟩

theorem step_forward (h : Covered cfg H w) (hstep : step cfg w e = some w') : Forward w w' := by
  cases step_effect hstep with
  | create => exact fun j hj => ⟨j, mem_append_left _ hj, rfl, le_refl _⟩
  | cancel id now => exact (cancelRows_touched h.leased.owned id now).forward
  | finalize p now => exact (finalizeRows_touched now w.jobs).forward
  | claim p a he hcall job =>
    intro j hj
    by_cases hid : j.id = job.id
    · exact ⟨_, mem_update_of_sel hj (decide_eq_true hid), rfl, le_refl _⟩
    · exact ⟨j, mem_update_of_not hj (decide_eq_false hid), rfl, le_refl _⟩
  | lease p a he job pages stage hcall w' hw =>
    cases hw with
    | goesOn => exact .of_jobs rfl
    | page plan eligibleAssets hstage =>
      subst hstage
      intro j hj
      cases hsel : j.commits job.id p with
      | true =>
        obtain ⟨account, -, hplan⟩ := h.plan hcall hj hsel
        refine ⟨_, mem_update_of_sel hj hsel, committed_id _ _ _ _, ?_⟩
        rw [committed_copy, after_checkpoint hplan.within]
        exact hplan.forward
      | false => exact ⟨j, mem_update_of_not hj hsel, rfl, le_refl _⟩
    | stops => exact (stopRows_touched job.id p a.now w.jobs).forward
    | fails reason permanent => exact (failRows_touched h.leased.owned job p reason permanent a.now).forward
    | yields => exact (yieldRows_touched job.id p w.jobs).forward
  | _ => exact .of_jobs rfl

end Covered

/-! ## What a completed job has stored -/

section Completed

variable {cfg : Config} {H : Horizon} {payments : List SyncedPayment} {w : World}

theorem run_covered (hunique : (payments.map (·.operationId)).Nodup)
    (hrun : Run (step cfg) (Serves H) (World.start payments) w) : Covered cfg H w :=
  hrun.invariant ⟨leased_start payments, hunique, fun _ _ _ _ hcall => (nomatch hcall), fun _ hj => (nomatch hj),
    fun _ _ => ⟨rfl, rfl⟩⟩ fun _ _ _ => step_covered

theorem run_forward {u : World} (hu : Covered cfg H u) (hrun : Run (step cfg) (Serves H) u w) : Forward u w :=
  hrun.related hu (fun _ _ _ => step_covered) (fun _ => .of_jobs rfl)
    (fun _ _ _ hab hbc j hj => by
      obtain ⟨i, hi, hid, hle⟩ := hab j hj
      obtain ⟨k, hk, hid', hle'⟩ := hbc i hi
      exact ⟨k, hk, hid'.trans hid, hle.trans hle'⟩)
    (fun _ _ _ h _ hstep => step_forward h hstep)

/-- The operations of a completed job's range. -/
theorem Covered.completed (h : Covered cfg H w) (hj : j ∈ w.jobs) (hcompleted : j.status = .completed) :
    ∃ account, scannedAccount cfg j.toClaimedJob = some account ∧
      (insertedBy j.id w.marks ++ foundBy j.id w.marks).Perm ((H.due account j.first j.stop).map (·.operationId)) := by
  have hscanned := h.scanned j hj
  have hdecide : decide (j.status = .completed) := decide_eq_true hcompleted
  unfold ScannedRow at hscanned
  rw [hdecide] at hscanned
  obtain ⟨account, haccount⟩ := isSome_iff_exists.mp (hscanned.account rfl)
  refine ⟨account, haccount, ?_⟩
  have hcovers := hscanned.covers
  rw [dueTo, haccount] at hcovers
  exact hcovers

/-- Of a completed job, every incoming payment of its range is stored once; the operations its
    pages inserted and those they found are distinct, are those of the range, and are as many
    as its counters say. Of every job, the checkpoint was never ahead of where it is. -/
theorem completed_covers (cfg : Config) (H : Horizon) (payments : List SyncedPayment)
    (hunique : (payments.map (·.operationId)).Nodup) {w : World}
    (hrun : Run (step cfg) (Serves H) (World.start payments) w) {j : PaymentBackfillJob} (hj : j ∈ w.jobs) :
    (j.status = .completed → ∃ account, scannedAccount cfg j.toClaimedJob = some account ∧
      (∀ p t, H.Receives account p → parseToid p.operationId = some t → j.first ≤ t → t < j.stop →
        w.payments.countP (·.operationId = p.operationId) = 1) ∧
      (insertedBy j.id w.marks ++ foundBy j.id w.marks).Perm ((H.due account j.first j.stop).map (·.operationId)) ∧
      (insertedBy j.id w.marks ++ foundBy j.id w.marks).Nodup ∧
      j.paymentsCreated = (insertedBy j.id w.marks).length ∧ j.duplicatesSkipped = (foundBy j.id w.marks).length) ∧
    ∀ u, Run (step cfg) (Serves H) (World.start payments) u → Run (step cfg) (Serves H) u w →
      ∀ i ∈ u.jobs, i.id = j.id → i.checkpoint ≤ j.checkpoint := by
  have h := run_covered hunique hrun
  constructor
  · intro hcompleted
    obtain ⟨account, haccount, hperm⟩ := h.completed hj hcompleted
    have hnodup := hperm.nodup_iff.mpr (nodup_due _ _)
    refine ⟨account, haccount, ?_, hperm, hnodup, (h.scanned j hj).inserted, (h.scanned j hj).found⟩
    intro p t hreceives ht hfirst hstop
    have hmem := mem_map_of_mem (f := (·.operationId)) (mem_due hreceives ht hfirst hstop)
    have hstored := (h.scanned j hj).stored _ (hperm.mem_iff.mpr hmem)
    obtain ⟨row, hrow, hop⟩ := mem_map.mp (hasOperation_iff.mp hstored)
    refine countP_eq_one_of_key h.unique hrow ?_ ?_
    · exact decide_eq_true hop
    · intro r _ hr
      exact (of_decide_eq_true hr).trans hop.symm
  · intro u hu hafter i hi hid
    obtain ⟨j', hj', hid', hle⟩ := run_forward (run_covered hunique hu) hafter i hi
    obtain rfl := eq_of_key h.leased.ids hj' hj (hid'.trans hid)
    exact hle

end Completed

/-! ## A trace -/

def incomingRecord (token : Nat) : FeedRecord where
  token
  record :=
    { id := token.repr, paging_token := some token.repr, type := "payment", transaction_hash := "tx", created_at := ""
      «from» := some "GPAYER", «to» := some "GOWNER", asset_type := some "native", asset_code := none
      asset_issuer := none, amount := some "1" }

/-- The account has a payment of ledger 100 and one of ledger 105. -/
def twoPayments : Horizon where
  parseDate := fun _ => some (demoAnswer 0).now
  feed := fun _ => [incomingRecord 450971570177, incomingRecord 429496733697]
  sorted := fun _ => List.pairwise_pair.mpr (by decide)
  position := by
    intro _ r hr t ht
    rcases List.mem_pair.mp hr with rfl | rfl
    · exact parseToid_repr ht
    · exact parseToid_repr ht
  inside := by
    intro _ r hr t ht
    rcases List.mem_pair.mp hr with rfl | rfl
    · rw [parseToid_repr ht]
      decide
    · rw [parseToid_repr ht]
      decide

/-- The first payment, stored by the live sync. -/
def syncedFirst : SyncedPayment where
  id := "payment-1"
  userId := "user-1"
  operationId := "429496733697"
  sourceAddress := some "GPAYER"
  ledgerSequence := some 100
  assetCode := "XLM"
  assetIssuer := none
  amountEncrypted := some "1"
  occurredAt := (demoAnswer 0).now
  classification := .unknown
  isEligible := false
  stellarTransactionHash := "tx"
  destinationAddress := some "GOWNER"

/-- The statements of a page, with what Horizon has behind a cursor. -/
def pageBy (p : Nat) (minute : Fin 1000) (cursor : Nat) : List Event :=
  List.replicate 4 (.access p { demoAnswer minute with page := some (twoPayments.page "GOWNER" cursor) })

/-- A worker reads the first page and dies; the lease expires, and another worker scans the
    range. The payment of ledger 100 is found, that of ledger 105 inserted. -/
theorem completed_covers_second_worker :
    ∃ w, Run (step demoConfig) (Serves twoPayments) (World.start [syncedFirst]) w ∧
      ∃ j ∈ w.jobs, j.status = .completed ∧ j.paymentsCreated = 1 ∧ j.duplicatesSkipped = 1 ∧
        (insertedBy j.id w.marks).length = 1 ∧ (insertedBy j.id w.marks ++ foundBy j.id w.marks).Nodup := by
  refine Run.exists_and (P := fun w => ∃ j ∈ w.jobs, j.status = .completed ∧ j.paymentsCreated = 1 ∧
      j.duplicatesSkipped = 1)
    (requested :: claimedBy 0 0 ++ (pageBy 0 0 429496729600).take 2 ++ .crash 0 :: claimedBy 1 3 ++
      pageBy 1 3 429496729600 ++ pageBy 1 3 450971570177)
    fun w hrun ⟨j, hj, hcompleted, hcreated, hskipped⟩ => ?_
  obtain ⟨account, -, -, -, hnodup, hinserted, -⟩ :=
    (completed_covers demoConfig twoPayments [syncedFirst] (by decide) hrun hj).1 hcompleted
  exact ⟨j, hj, hcompleted, hcreated, hskipped, hinserted.symm.trans hcreated, hnodup⟩

end EarnProof.Payments.Backfill
