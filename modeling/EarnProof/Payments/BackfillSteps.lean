/-
  EarnProof.Payments.BackfillSteps — what an event of `Payments.Backfill` can do, said once
  (`step_effect`, and `proceed_effect` for the statements of a lease), and what a worker's
  copy of its job has to do with the row.

  A worker that was overtaken still holds its copy, but no row names it as the owner. So
  whatever a worker writes, it writes to a row that is running under its lease, and there
  the copy is the row: the same range, user and account, no fewer attempts, and the same
  checkpoint unless the worker has been told of a fault (`Leased`).
-/
import EarnProof.Payments.Backfill

namespace EarnProof.Payments.Backfill

open Lib Lib.Table Lib.Calendar Database Stellar

/-! ## Effects -/

/-- The stage a statement that writes nothing leads to. -/
inductive Leads (cfg : Config) (job : ClaimedJob) (a : Answer) : Stage → Stage → Prop
  | noUser : cfg.wallet job.userId = none → Leads cfg job a .user (.fail .userMissing true)
  | account {wallet : String} : cfg.wallet job.userId = some wallet →
      Leads cfg job a .user (.read (job.accountId.getD wallet))
  | noPage {account : String} : a.page = none → Leads cfg job a (.read account) (.fail .horizonUnavailable false)
  | stalled {account : String} : Leads cfg job a (.read account) (.fail .horizonCursorStalled false)
  | planned {account : String} {page : AscendingPaymentsPage} : a.page = some page →
      (planBackfillPage page job.checkpoint job.stop).stalled = false →
      Leads cfg job a (.read account) (.assets (planBackfillPage page job.checkpoint job.stop))
  | assets {plan : BackfillPagePlan} : Leads cfg job a (.assets plan) (.commit plan (supportedAssetKeys a.registry))
  | rolledBack {plan : BackfillPagePlan} {eligibleAssets : List String} :
      Leads cfg job a (.commit plan eligibleAssets) (.fail .databaseError false)
  | lost {plan : BackfillPagePlan} {eligibleAssets : List String} :
    Leads cfg job a (.commit plan eligibleAssets) .stopped

inductive Proceeds (cfg : Config) (w : World) (p : Nat) (job : ClaimedJob) (pages : Nat) (stage : Stage) (a : Answer) :
    World → Prop
  | goesOn next (hnext : Leads cfg job a stage next)
      (hlost : next = .stopped → w.jobs.any (·.commits job.id p) = false) :
    Proceeds cfg w p job pages stage a (w.withWorker p (some (.lease job pages next)))
  | page plan eligibleAssets (hstage : stage = .commit plan eligibleAssets) row (hrow : row ∈ w.jobs)
      (hcommits : row.commits job.id p) call
      (hcall : call = afterPage job pages plan ∨ call = some (.lease job pages (.fail .databaseError false))) :
    Proceeds cfg w p job pages stage a ((w.commitPage cfg p job plan eligibleAssets a.now).withWorker p call)
  | stops (hstage : stage = .stopped) : Proceeds cfg w p job pages stage a (w.ending p (stopRows job.id p a.now w.jobs))
  | fails reason permanent (hstage : stage = .fail reason permanent) :
    Proceeds cfg w p job pages stage a (w.ending p (failRows job p reason permanent a.now w.jobs))
  | yields (hstage : stage = .yield) : Proceeds cfg w p job pages stage a (w.ending p (yieldRows job.id p w.jobs))

theorem proceed_effect (cfg : Config) (w : World) (p : Nat) (job : ClaimedJob) (pages : Nat)
    (stage : Stage) (a : Answer) : Proceeds cfg w p job pages stage a (w.proceed cfg p job pages stage a) := by
  cases stage with
  | user =>
    simp only [World.proceed]
    split
    · exact .goesOn _ (.noUser ‹_›) nofun
    · exact .goesOn _ (.account ‹_›) nofun
  | read account =>
    simp only [World.proceed]
    split
    · exact .goesOn _ (.noPage ‹_›) nofun
    · split
      · exact .goesOn _ .stalled nofun
      · rename_i hstalled
        exact .goesOn _ (.planned ‹_› (by simpa using hstalled)) nofun
  | assets => exact .goesOn _ .assets nofun
  | commit plan eligibleAssets =>
    simp only [World.proceed]
    split
    · exact .goesOn _ .rolledBack nofun
    · split
      · exact .goesOn _ .lost fun _ => by simp_all
      · rename_i hany
        have hany : w.jobs.any (·.commits job.id p) := by simpa using hany
        obtain ⟨row, hrow, hcommits⟩ := List.any_eq_true.mp hany
        split
        · exact .page plan eligibleAssets rfl row hrow hcommits _ (.inl rfl)
        · exact .page plan eligibleAssets rfl row hrow hcommits _ (.inr rfl)
  | stopped => exact .stops rfl
  | fail reason permanent => exact .fails reason permanent rfl
  | yield => exact .yields rfl

inductive Effect (cfg : Config) (w : World) (e : Event) : World → Prop
  | refused : Effect cfg w e w
  | create id userId range accountId (hfresh : id ∉ w.jobs.map (·.id)) :
    Effect cfg w e { w with jobs := w.jobs ++ [newJob id userId range accountId] }
  | cancel id now : Effect cfg w e { w with jobs := cancelRows id now w.jobs }
  | sync row : Effect cfg w e { w with payments := upsert row.operationId (rewritten row) row w.payments }
  /-- A worker begins or ends. -/
  | turns p call (hcall : ∀ job pages stage, call ≠ some (.lease job pages stage))
      (hleft : e = .crash p ∨ ∀ job pages stage, w.workers p ≠ some (.lease job pages stage)) :
    Effect cfg w e (w.withWorker p call)
  | finalize p now (hcall : w.workers p = some .finalize) :
    Effect cfg w e ({ w with jobs := finalizeRows now w.jobs }.withWorker p (some .claim))
  | claim p a (he : e = .access p a) (hcall : w.workers p = some .claim) job (hcandidate : a.candidate = some job.id)
      (hjob : job ∈ w.jobs) (hclaimable : job.claimable a.now) :
    Effect cfg w e ({ w with
      jobs := claimRows job.id p a.now w.jobs
      marks := w.marks ++ [Mark.claim job.id] }.withWorker p
        (some (.lease (job.claimed p a.now).toClaimedJob 0 .user)))
  | lease p a (he : e = .access p a) job pages stage (hcall : w.workers p = some (.lease job pages stage)) w'
      (hw : Proceeds cfg w p job pages stage a w') : Effect cfg w e w'

variable {id : String} {j j' job : PaymentBackfillJob} {now : Date} {plan : BackfillPagePlan} {stage : Stage}
  {jobs : List PaymentBackfillJob}

theorem addJob_eq {w w' : World} (h : w.addJob job = some w') :
    job.id ∉ w.jobs.map (·.id) ∧ w' = { w with jobs := w.jobs ++ [job] } := by
  unfold World.addJob at h
  split at h
  · cases h
  · exact ⟨‹_›, (Option.some.inj h).symm⟩

theorem step_effect {cfg : Config} {w w' : World} {e : Event} (h : step cfg w e = some w') : Effect cfg w e w' := by
  cases e with
  | create id userId startLedger endLedger =>
    simp only [step] at h
    split at h
    · cases h
      exact .refused
    · rename_i job hjob
      unfold createJob at hjob
      split at hjob
      · split_ifs at hjob
        cases hjob
        obtain ⟨hfresh, rfl⟩ := addJob_eq h
        exact .create id userId _ none hfresh
      · cases hjob
  | rotate id userId range accountId =>
    obtain ⟨hfresh, rfl⟩ := addJob_eq h
    exact .create id userId range (some accountId) hfresh
  | cancel id now =>
    cases h
    exact .cancel id now
  | sync row =>
    cases h
    exact .sync row
  | poll p =>
    simp only [step] at h
    split at h
    · rename_i hcall
      cases h
      exact .turns p _ nofun (.inr (by simp [hcall]))
    · cases h
  | access p a =>
    simp only [step] at h
    split at h
    · cases h
    · cases h
      exact .finalize p a.now ‹_›
    · rename_i hcall
      split at h
      · cases h
        exact .turns p none nofun (.inr (by simp [hcall]))
      · rename_i id hcandidate
        split at h
        · cases h
        · rename_i job hfind
          split at h
          · rename_i hclaimable
            obtain ⟨hjob, rfl⟩ := of_find? hfind
            cases h
            exact .claim p a rfl hcall job hcandidate hjob hclaimable
          · cases h
    · rename_i job pages stage hcall
      cases h
      exact .lease p a rfl job pages stage hcall _ (proceed_effect cfg w p job pages stage a)
  | crash p =>
    cases h
    exact .turns p none nofun (.inl rfl)

/-! ## Rows -/

theorem runBy_iff {owner : Nat} :
    job.runBy id owner ↔ job.id = id ∧ job.leaseOwner = some owner ∧ job.status = .running := by
  simp [PaymentBackfillJob.runBy]

theorem commits_iff {owner : Nat} :
    job.commits id owner ↔
      (job.id = id ∧ job.leaseOwner = some owner ∧ job.status = .running) ∧ job.cancelRequestedAt = none := by
  simp [PaymentBackfillJob.commits, PaymentBackfillJob.runBy]

theorem claimable_iff :
    job.claimable now ↔
      job.cancelRequestedAt = none ∧ (job.status = .pending ∨ job.status = .running ∧ job.expired now) := by
  simp [PaymentBackfillJob.claimable]

/-- What a statement other than a claim or a page does to a row: it may set the flag of a
    running job, or take the lease away and with it the running status. -/
inductive Touched (j : PaymentBackfillJob) : PaymentBackfillJob → Prop
  | same : Touched j j
  | flagged (now : Date) : j.status = .running → Touched j { j with cancelRequestedAt := some now }
  | released (j' : PaymentBackfillJob) (hcopy : j'.toClaimedJob = j.toClaimedJob)
      (hcounts : j'.paymentsCreated = j.paymentsCreated ∧ j'.duplicatesSkipped = j.duplicatesSkipped)
      (howner : j'.leaseOwner = none) (hopen : j.status = .pending ∨ j.status = .running)
      (hstatus : j'.status ≠ .running ∧ j'.status ≠ .completed) : Touched j j'

section

variable (h : Touched j j')

include h

theorem Touched.copy : j'.toClaimedJob = j.toClaimedJob := by
  cases h with
  | same | flagged => rfl
  | released _ hcopy => exact hcopy

theorem Touched.counts : j'.paymentsCreated = j.paymentsCreated ∧ j'.duplicatesSkipped = j.duplicatesSkipped := by
  cases h with
  | same | flagged => exact ⟨rfl, rfl⟩
  | released _ _ hcounts => exact hcounts

/-- A touched row that still has an owner had it before, and keeps a flag. -/
theorem Touched.owner {p : Nat} (hp : j'.leaseOwner = some p) :
    (j.leaseOwner = some p ∧ j'.status = j.status) ∧ (j'.cancelRequestedAt = none → j.cancelRequestedAt = none) := by
  cases h with
  | same => exact ⟨⟨hp, rfl⟩, id⟩
  | flagged => exact ⟨⟨hp, rfl⟩, nofun⟩
  | released _ _ _ howner => exact absurd (howner.symm.trans hp) (by simp)

theorem Touched.completed (hj : j'.status = .completed) : j.status = .completed := by
  cases h with
  | same | flagged => exact hj
  | released _ _ _ _ _ hstatus => exact absurd hj hstatus.2

theorem Touched.of_completed (hj : j.status = .completed) : j' = j := by
  cases h with
  | same => rfl
  | flagged _ hrunning => exact absurd (hj.symm.trans hrunning) (by decide)
  | released _ _ _ _ hopen => exact absurd (hj ▸ hopen) (by decide)

end

def TouchedRows (jobs jobs' : List PaymentBackfillJob) : Prop := List.Forall₂ Touched jobs jobs'

theorem touched_update {sel : PaymentBackfillJob → Bool}
    {data : PaymentBackfillJob → PaymentBackfillJob} (h : ∀ j ∈ jobs, sel j → Touched j (data j)) :
    TouchedRows jobs (Table.update sel data jobs) :=
  forall₂_update (fun _ => .same) h

def Owned (jobs : List PaymentBackfillJob) : Prop := ∀ j ∈ jobs, ∀ p, j.leaseOwner = some p → j.status = .running

theorem Owned.pending (h : Owned jobs) (hj : j ∈ jobs) (hpending : j.status = .pending) : j.leaseOwner = none := by
  cases howner : j.leaseOwner with
  | none => rfl
  | some p => exact absurd (hpending.symm.trans (h j hj p howner)) (by decide)

theorem cancelRows_touched (h : Owned jobs) (id : String) (now : Date) :
    TouchedRows jobs (cancelRows id now jobs) := by
  unfold cancelRows
  split
  · refine touched_update fun j hj hsel => ?_
    have hpending := (of_decide_eq_true hsel).2
    have howner := h.pending hj hpending
    exact .released _ rfl ⟨rfl, rfl⟩ howner (.inl hpending) ⟨by simp, by simp⟩
  · exact touched_update fun j _ hsel => .flagged now (of_decide_eq_true hsel).2.1

theorem finalizeRows_touched (now : Date) (jobs : List PaymentBackfillJob) : TouchedRows jobs (finalizeRows now jobs) :=
  touched_update fun _ _ hsel => .released _ rfl ⟨rfl, rfl⟩ rfl (.inr (of_decide_eq_true hsel).1) ⟨by simp, by simp⟩

theorem stopRows_touched (id : String) (owner : Nat) (now : Date) (jobs : List PaymentBackfillJob) :
    TouchedRows jobs (stopRows id owner now jobs) := by
  refine touched_update fun j _ hsel => ?_
  have hrun := runBy_iff.mp (Bool.and_eq_true_iff.mp hsel).1
  exact .released _ rfl ⟨rfl, rfl⟩ rfl (.inr hrun.2.2) ⟨by simp, by simp⟩

theorem failRows_touched (h : Owned jobs) (job : ClaimedJob) (owner : Nat)
    (reason : BackfillFault) (permanent : Bool) (now : Date) :
    TouchedRows jobs (failRows job owner reason permanent now jobs) := by
  refine touched_update fun j hj hsel => ?_
  have hrunning := h j hj owner (of_decide_eq_true hsel).2
  split <;> exact .released _ rfl ⟨rfl, rfl⟩ rfl (.inr hrunning) ⟨by simp, by simp⟩

theorem yieldRows_touched (id : String) (owner : Nat) (jobs : List PaymentBackfillJob) :
    TouchedRows jobs (yieldRows id owner jobs) := by
  refine touched_update fun j _ hsel => ?_
  have hrun := runBy_iff.mp hsel
  exact .released _ rfl ⟨rfl, rfl⟩ rfl (.inr hrun.2.2) ⟨by simp, by simp⟩

theorem TouchedRows.ids {jobs' : List PaymentBackfillJob} (h : TouchedRows jobs jobs') :
    jobs'.map (·.id) = jobs.map (·.id) :=
  map_of_forall₂ h _ fun _ _ ht => congrArg ClaimedJob.id ht.copy

/-! ## A page and a claim, row by row -/

section

variable (plan : BackfillPagePlan) (inserted : Nat) (now : Date) (j : PaymentBackfillJob)

theorem committed_copy : (j.committed plan inserted now).toClaimedJob = j.toClaimedJob.after plan := by
  unfold PaymentBackfillJob.committed
  split <;> rfl

theorem committed_id : (j.committed plan inserted now).id = j.id := by
  rw [committed_copy]
  rfl

end

theorem committed_owner {inserted : Nat} {p : Nat} (h : (j.committed plan inserted now).leaseOwner = some p) :
    j.leaseOwner = some p ∧ (j.committed plan inserted now).status = j.status := by
  unfold PaymentBackfillJob.committed at h ⊢
  split at h
  · cases h
  · rename_i hdone
    exact ⟨h, by rw [if_neg hdone]⟩

/-! ## The copy and the row -/

def Stage.faulty : Stage → Bool
  | .fail _ _ => true
  | _ => false

/-- What a worker's copy has to do with the row it leases. -/
structure Copy (j : PaymentBackfillJob) (job : ClaimedJob) (stage : Stage) : Prop where
  range : j.toLedgerRange = job.toLedgerRange
  userId : j.userId = job.userId
  accountId : j.accountId = job.accountId
  attempts : j.attempts ≤ job.attempts
  checkpoint : stage.faulty = false → j.checkpointCursor = job.checkpointCursor
  /-- A worker that stops has not lost its lease. -/
  flagged : stage = .stopped → j.cancelRequestedAt ≠ none

structure Leased (jobs : List PaymentBackfillJob) (workers : Nat → Option Call) : Prop where
  ids : (jobs.map (·.id)).Nodup
  owned : Owned jobs
  copies : ∀ p job pages stage, workers p = some (.lease job pages stage) →
    ∀ j ∈ jobs, j.id = job.id → j.leaseOwner = some p → Copy j job stage
  /-- A lease yields after a page. -/
  yielding : ∀ p job pages, workers p = some (.lease job pages .yield) → job.attempts = 0

theorem Copy.of_eq {job : ClaimedJob} (h : Copy j job stage)
    (heq : j'.toClaimedJob = j.toClaimedJob) (hflag : j'.cancelRequestedAt = none → j.cancelRequestedAt = none) :
    Copy j' job stage where
  range := heq ▸ h.range
  userId := heq ▸ h.userId
  accountId := heq ▸ h.accountId
  attempts := heq ▸ h.attempts
  checkpoint := fun hf => heq ▸ h.checkpoint hf
  flagged := fun hs => mt hflag (h.flagged hs)

section Steps

variable {cfg : Config} {jobs jobs' : List PaymentBackfillJob} {workers : Nat → Option Call}

section

variable (h : Leased jobs workers)

include h

theorem Leased.touched (ht : TouchedRows jobs jobs') : Leased jobs' workers where
  ids := ht.ids ▸ h.ids
  owned := by
    intro j' hj' p hp
    obtain ⟨j, hj, htouched⟩ := exists_of_forall₂_right ht hj'
    obtain ⟨⟨howner, hstatus⟩, -⟩ := htouched.owner hp
    exact hstatus.trans (h.owned j hj p howner)
  copies := by
    intro p job pages stage hcall j' hj' hid hp
    obtain ⟨j, hj, htouched⟩ := exists_of_forall₂_right ht hj'
    have hsame := congrArg ClaimedJob.id htouched.copy
    obtain ⟨⟨howner, -⟩, hflag⟩ := htouched.owner hp
    exact (h.copies p job pages stage hcall j hj (hsame.symm.trans hid) howner).of_eq htouched.copy hflag
  yielding := h.yielding

/-- A worker goes on, under what its new call needs. -/
theorem Leased.turn (p : Nat) (call : Option Call)
    (hcopies : ∀ job pages stage, call = some (.lease job pages stage) →
      ∀ j ∈ jobs, j.id = job.id → j.leaseOwner = some p → Copy j job stage)
    (hyielding : ∀ job pages, call = some (.lease job pages .yield) → job.attempts = 0) :
    Leased jobs (Function.update workers p call) where
  ids := h.ids
  owned := h.owned
  copies := by
    intro q job pages stage hcall
    rcases update_eq_some hcall with ⟨rfl, hnew⟩ | ⟨-, hold⟩
    · exact hcopies job pages stage hnew
    · exact h.copies q job pages stage hold
  yielding := by
    intro q job pages hcall
    rcases update_eq_some hcall with ⟨rfl, hnew⟩ | ⟨-, hold⟩
    · exact hyielding job pages hnew
    · exact h.yielding q job pages hold

theorem Leased.leave (p : Nat) (call : Option Call)
    (hcall : ∀ job pages stage, call ≠ some (.lease job pages stage)) : Leased jobs (Function.update workers p call) :=
  h.turn p call (fun job pages stage he => absurd he (hcall job pages stage))
    (fun job pages he => absurd he (hcall job pages _))

theorem Leased.create (hfresh : id ∉ jobs.map (·.id)) (userId : String)
    (range : LedgerRange) (accountId : Option String) :
    Leased (jobs ++ [newJob id userId range accountId]) workers where
  ids := nodup_append_row h.ids fun r hr he => hfresh (List.mem_map.mpr ⟨r, hr, he⟩)
  owned := forall_append_row h.owned nofun
  copies := by
    intro p job pages stage hcall
    exact forall_append_row (h.copies p job pages stage hcall) nofun
  yielding := h.yielding

end

theorem mem_claimRows {owner : Nat} (h : j' ∈ claimRows id owner now jobs) :
    ∃ j ∈ jobs, (j.id = id ∧ j' = j.claimed owner now) ∨ (j.id ≠ id ∧ j' = j) := by
  obtain ⟨j, hj, ⟨hsel, heq⟩ | ⟨hsel, heq⟩⟩ := mem_update_cases h
  · exact ⟨j, hj, .inl ⟨of_decide_eq_true hsel, heq⟩⟩
  · exact ⟨j, hj, .inr ⟨of_decide_eq_false hsel, heq⟩⟩

/-- A worker writes rows that no other worker leases, and goes on. -/
theorem Leased.rewrite (h : Leased jobs workers) {sel : PaymentBackfillJob → Bool}
    {data : PaymentBackfillJob → PaymentBackfillJob} {p : Nat} {call : Option Call} (hid : ∀ j, (data j).id = j.id)
    (howner : ∀ j, sel j → ∀ q, (data j).leaseOwner = some q → q = p ∧ (data j).status = .running)
    (hcopies : ∀ copy pages stage, call = some (.lease copy pages stage) →
      ∀ j ∈ Table.update sel data jobs, j.id = copy.id → Copy j copy stage)
    (hyielding : ∀ copy pages, call = some (.lease copy pages .yield) → copy.attempts = 0) :
    Leased (Table.update sel data jobs) (Function.update workers p call) where
  ids := nodup_update _ hid h.ids
  owned := forall_update h.owned fun j _ hsel q hq => (howner j hsel q hq).2
  copies := by
    intro q copy pages stage hcall j' hj' hjob hq
    rcases update_eq_some hcall with ⟨-, hnew⟩ | ⟨hqp, hold⟩
    · exact hcopies copy pages stage hnew j' hj' hjob
    · obtain ⟨j, hj, ⟨hsel, rfl⟩ | ⟨-, rfl⟩⟩ := mem_update_cases hj'
      · exact absurd (howner j hsel q hq).1 hqp
      · exact h.copies q copy pages stage hold _ hj hjob hq
  yielding := by
    intro q copy pages hcall
    rcases update_eq_some hcall with ⟨-, hnew⟩ | ⟨-, hold⟩
    · exact hyielding copy pages hnew
    · exact h.yielding q copy pages hold

theorem Leased.claim (h : Leased jobs workers) (hjob : job ∈ jobs) (p : Nat) (now : Date) :
    Leased (claimRows job.id p now jobs)
      (Function.update workers p (some (.lease (job.claimed p now).toClaimedJob 0 .user))) := by
  refine h.rewrite (fun _ => rfl) (fun j _ q hq => ⟨(Option.some.inj hq).symm, rfl⟩) ?_ fun _ _ hcall => nomatch hcall
  intro copy pages stage hcall j' hj' hid
  cases hcall
  obtain ⟨j, hj, ⟨-, rfl⟩ | ⟨hne, rfl⟩⟩ := mem_claimRows hj'
  · obtain rfl := eq_of_key h.ids hj hjob hid
    exact ⟨rfl, rfl, rfl, le_refl _, fun _ => rfl, nofun⟩
  · exact absurd hid hne

variable {job : ClaimedJob}

theorem Copy.after (h : Copy j job stage)
    (heq : j'.toClaimedJob = j.toClaimedJob.after plan) {next : Stage} (hnext : next ≠ .stopped) :
    Copy j' (job.after plan) next where
  range := heq ▸ h.range
  userId := heq ▸ h.userId
  accountId := heq ▸ h.accountId
  attempts := (congrArg ClaimedJob.attempts heq).le
  checkpoint := fun _ => heq ▸ rfl
  flagged := fun hs => absurd hs hnext

/-- The page was committed, but the worker does not know. -/
theorem Copy.unaware (h : Copy j job stage)
    (heq : j'.toClaimedJob = j.toClaimedJob.after plan) {next : Stage} (hnext : next.faulty) :
    Copy j' job next where
  range := heq ▸ h.range
  userId := heq ▸ h.userId
  accountId := heq ▸ h.accountId
  attempts := (congrArg ClaimedJob.attempts heq).trans_le (Nat.zero_le _)
  checkpoint := fun hf => absurd (hnext.symm.trans hf) (by simp)
  flagged := by
    rintro rfl
    cases hnext

theorem afterPage_lease {copy : ClaimedJob} {pages pages' : Nat}
    (h : afterPage job pages plan = some (.lease copy pages' stage)) :
    copy = job.after plan ∧ (stage = .user ∨ stage = .yield) := by
  unfold afterPage at h
  split at h
  · cases h
  · split at h
    · cases h
      exact ⟨rfl, .inl rfl⟩
    · cases h
      exact ⟨rfl, .inr rfl⟩

theorem Leased.page (h : Leased jobs workers) {p : Nat} {pages : Nat}
    (hcall : workers p = some (.lease job pages stage)) {row : PaymentBackfillJob} (hrow : row ∈ jobs)
    (hcommits : row.commits job.id p) (plan : BackfillPagePlan) (inserted : Nat) (now : Date) {call : Option Call}
    (hnext : call = afterPage job pages plan ∨ call = some (.lease job pages (.fail .databaseError false))) :
    Leased (Table.update (·.commits job.id p) (.committed plan inserted now) jobs)
      (Function.update workers p call) := by
  -- The rows this worker leases are those the update picked: ids are unique.
  have hpicked : ∀ j' ∈ Table.update (·.commits job.id p) (.committed plan inserted now) jobs, j'.id = job.id →
      ∃ j, Copy j job stage ∧ j'.toClaimedJob = j.toClaimedJob.after plan := by
    intro j' hj' hid
    obtain ⟨hrun, -⟩ := commits_iff.mp hcommits
    obtain ⟨j, hj, ⟨-, rfl⟩ | ⟨hsel, rfl⟩⟩ := mem_update_cases hj'
    · rw [committed_id] at hid
      obtain rfl := eq_of_key h.ids hj hrow (hid.trans hrun.1.symm)
      exact ⟨_, h.copies p job pages stage hcall _ hrow hrun.1 hrun.2.1, committed_copy plan inserted now _⟩
    · obtain rfl := eq_of_key h.ids hj hrow (hid.trans hrun.1.symm)
      exact absurd (hcommits.symm.trans hsel) (by simp)
  refine h.rewrite (committed_id plan inserted now) (fun j hsel q hq => ?_) ?_ ?_
  · obtain ⟨howner, hstatus⟩ := committed_owner hq
    have hrun := (commits_iff.mp hsel).1.2
    exact ⟨Option.some.inj (howner.symm.trans hrun.1), hstatus.trans hrun.2⟩
  · intro copy pages' stage' he j' hj' hid
    rcases hnext with rfl | rfl
    · obtain ⟨rfl, hgoes⟩ := afterPage_lease he
      obtain ⟨j, hcopy, heq⟩ := hpicked j' hj' hid
      exact hcopy.after heq (by rcases hgoes with rfl | rfl <;> nofun)
    · cases he
      obtain ⟨j, hcopy, heq⟩ := hpicked j' hj' hid
      exact hcopy.unaware heq rfl
  · intro copy pages' he
    rcases hnext with rfl | rfl
    · obtain ⟨rfl, -⟩ := afterPage_lease he
      rfl
    · cases he

/-- A stage that follows another without a write keeps the copy. -/
theorem Leads.faulty {a : Answer} {next : Stage} (h : Leads cfg job a stage next) :
    stage.faulty = false ∧ next ≠ .yield := by
  cases h <;> exact ⟨rfl, by simp⟩

end Steps

theorem step_leased {cfg : Config} {w w' : World} {e : Event} (h : Leased w.jobs w.workers)
    (hstep : step cfg w e = some w') : Leased w'.jobs w'.workers := by
  cases step_effect hstep with
  | refused | sync => exact h
  | create id userId range accountId hfresh => exact h.create hfresh userId range accountId
  | cancel id now => exact h.touched (cancelRows_touched h.owned id now)
  | turns p call hcall => exact h.leave p call hcall
  | finalize p now => exact (h.touched (finalizeRows_touched now w.jobs)).leave p _ nofun
  | claim p a he hcall job hcandidate hjob => exact h.claim hjob p a.now
  | lease p a he job pages stage hcall w' hw =>
    cases hw with
    | goesOn next hnext hlost =>
      refine h.turn p _ ?_ ?_
      · intro copy pages' stage' he j hj hid howner
        cases he
        have hcopy := h.copies p job pages stage hcall j hj hid howner
        refine { hcopy with checkpoint := fun _ => hcopy.checkpoint hnext.faulty.1, flagged := fun hs hflag => ?_ }
        have hcommits := commits_iff.mpr ⟨⟨hid, howner, h.owned j hj p howner⟩, hflag⟩
        exact absurd hcommits (List.any_eq_false.mp (hlost hs) j hj)
      · intro copy pages' he
        cases he
        exact absurd rfl hnext.faulty.2
    | page plan eligibleAssets hstage row hrow hcommits call hnext =>
      exact h.page hcall hrow hcommits plan _ a.now hnext
    | stops => exact (h.touched (stopRows_touched job.id p a.now w.jobs)).leave p none nofun
    | fails reason permanent =>
      exact (h.touched (failRows_touched h.owned job p reason permanent a.now)).leave p none nofun
    | yields => exact (h.touched (yieldRows_touched job.id p w.jobs)).leave p none nofun

theorem leased_start (payments : List SyncedPayment) :
    Leased (World.start payments).jobs (World.start payments).workers where
  ids := List.nodup_nil
  owned := fun _ hj => nomatch hj
  copies := nofun
  yielding := nofun

end EarnProof.Payments.Backfill
