/-
  EarnProof.Payments.BackfillLeases — how the lease of a backfill job ends, over every
  interleaving of operators, workers and crashes (`Payments.Backfill`).

  Cancellation. A running job is flagged, and claims pass over flagged jobs. A page's
  commit and the end of an abandoned lease honour the flag; the yield after the last page
  and the retry after a fault do not look at it, and put the job back to PENDING. Such a
  job is claimed by nobody and still blocks its range (`stranded_blocks`). The shortest way
  there is a cancellation while Horizon fails (`cancelled_job_stranded`). It is the only
  way: where every job that is put back has no flag, no job is stranded (`no_job_stranded`).

  Attempts. `attempts` counts the claims since the last committed page
  (`claimsInARow`). A fault at the fifth fails the job, so a PENDING job always has fewer
  (`Counted.pending`); but a claim of an expired lease does not look at the count, and a
  worker that dies each time is followed by another without end (`claimed_six_times`).
  Where an expired lease is taken over only below the limit and the worker of the last claim
  does not die (`LastClaimEnds`), the limit holds, and a job at it is in that worker's hand or
  over (`claims_bounded`).
-/
import EarnProof.Payments.BackfillSteps

namespace EarnProof.Payments.Backfill

open Lib Lib.Table Lib.Calendar Database Stellar

/-! ## Stranded jobs -/

def PaymentBackfillJob.stranded (job : PaymentBackfillJob) : Bool :=
  job.status = .pending ∧ job.cancelRequestedAt.isSome

variable {j : PaymentBackfillJob} {job : ClaimedJob} {p : Nat} {cfg : Config} {w w' : World} {e : Event}

theorem not_stranded_of_status (h : j.status ≠ .pending) : j.stranded = false := by
  simp [PaymentBackfillJob.stranded, h]

theorem not_stranded_of_unflagged (h : j.cancelRequestedAt = none) : j.stranded = false := by
  simp [PaymentBackfillJob.stranded, h]

/-- Nobody can claim a stranded job, and its range is refused to every new one. -/
theorem stranded_blocks (h : j.stranded) :
    (∀ now, j.claimable now = false) ∧ overlaps j.userId j.startLedger j.endLedger j := by
  obtain ⟨hpending, hflag⟩ := of_decide_eq_true h
  constructor
  · intro now
    cases hc : j.claimable now with
    | false => rfl
    | true =>
      rw [(claimable_iff.mp hc).1] at hflag
      cases hflag
  · exact decide_eq_true ⟨rfl, decide_eq_true (.inl hpending), j.ordered, j.ordered⟩

/-- Whether the stage puts the job back for another lease. -/
def Stage.releases (job : ClaimedJob) : Stage → Bool
  | .yield => true
  | .fail _ permanent => !(permanent || decide (MAX_BACKFILL_ATTEMPTS ≤ job.attempts))
  | _ => false

/-- The job a worker puts back has no cancellation requested. -/
def Call.releasesUnflagged (jobs : List PaymentBackfillJob) (p : Nat) : Option Call → Prop
  | some (.lease job _ stage) =>
    stage.releases job → ∀ j ∈ jobs, j.id = job.id → j.leaseOwner = some p → j.cancelRequestedAt = none
  | _ => True

instance (jobs : List PaymentBackfillJob) (call : Option Call) : Decidable (Call.releasesUnflagged jobs p call) := by
  unfold Call.releasesUnflagged
  split <;> infer_instance

def ReleasesUnflagged (w : World) : Event → Prop
  | .access p _ => Call.releasesUnflagged w.jobs p (w.workers p)
  | _ => True

instance : Decidable (ReleasesUnflagged w e) := by
  unfold ReleasesUnflagged
  split <;> infer_instance

variable {jobs : List PaymentBackfillJob} {sel : PaymentBackfillJob → Bool}
  {data : PaymentBackfillJob → PaymentBackfillJob}

theorem step_unstranded (h : ∀ j ∈ w.jobs, j.stranded = false)
    (hok : ReleasesUnflagged w e) (hstep : step cfg w e = some w') : ∀ j ∈ w'.jobs, j.stranded = false := by
  cases step_effect hstep with
  | create =>
    exact forall_append_row h (not_stranded_of_unflagged rfl)
  | cancel id now =>
    show ∀ j ∈ cancelRows id now w.jobs, j.stranded = false
    unfold cancelRows
    split
    · exact forall_update h fun j _ _ => not_stranded_of_status (by simp)
    · refine forall_update h fun j _ hsel => not_stranded_of_status ?_
      have hrunning := (of_decide_eq_true hsel).2.1
      simp [hrunning]
  | finalize => exact forall_update h fun j _ _ => not_stranded_of_status (by simp)
  | claim =>
    exact forall_update h fun j _ _ => not_stranded_of_status (by simp [PaymentBackfillJob.claimed])
  | lease p a he job pages stage hcall w' hw =>
    subst he
    have hok : Call.releasesUnflagged w.jobs p (w.workers p) := hok
    rw [hcall] at hok
    cases hw with
    | goesOn => exact h
    | page =>
      refine forall_update h fun j _ hsel => not_stranded_of_status ?_
      have hrunning := (commits_iff.mp hsel).1.2.2
      unfold PaymentBackfillJob.committed
      split
      · simp
      · simp [hrunning]
    | stops => exact forall_update h fun j _ _ => not_stranded_of_status (by simp)
    | fails reason permanent hstage =>
      subst hstage
      refine forall_update h fun j hj hsel => ?_
      obtain ⟨hid, howner⟩ := of_decide_eq_true hsel
      by_cases hend : (permanent || decide (MAX_BACKFILL_ATTEMPTS ≤ job.attempts))
      · rw [if_pos hend]
        exact not_stranded_of_status (by simp)
      · rw [if_neg hend]
        exact not_stranded_of_unflagged (hok (by simpa [Stage.releases] using hend) j hj hid howner)
    | yields hstage =>
      subst hstage
      refine forall_update h fun j hj hsel => ?_
      obtain ⟨hid, howner, -⟩ := runBy_iff.mp hsel
      exact not_stranded_of_unflagged (hok rfl j hj hid howner)
  | _ => exact h

/-- In every run in which no flagged job is put back, no job is PENDING with a cancellation
    requested. -/
theorem no_job_stranded (cfg : Config) (payments : List SyncedPayment) {w : World}
    (hrun : Run (step cfg) ReleasesUnflagged (World.start payments) w) : ∀ j ∈ w.jobs, j.stranded = false :=
  hrun.invariant (I := fun w => ∀ j ∈ w.jobs, j.stranded = false) (fun _ hj => nomatch hj)
    fun _ _ _ => step_unstranded

/-! ## Claims in a row -/

/-- The claims of a job since its last committed page. -/
def claimsInARow (id : String) (marks : List Mark) : Nat :=
  marks.foldl (fun n mark =>
    match mark with
    | .claim job => if job = id then n + 1 else n
    | .page job _ _ => if job = id then 0 else n) 0

@[simp] theorem claimsInARow_claim (id job : String) (marks : List Mark) :
    claimsInARow id (marks ++ [.claim job]) = if job = id then claimsInARow id marks + 1
      else claimsInARow id marks := by
  simp [claimsInARow]

@[simp] theorem claimsInARow_page (id job : String) (inserted found : List String) (marks : List Mark) :
    claimsInARow id (marks ++ [.page job inserted found]) = if job = id then 0 else claimsInARow id marks := by
  simp [claimsInARow]

/-- The column is that count, and a PENDING job is below the limit. -/
structure Counted (jobs : List PaymentBackfillJob) (marks : List Mark) : Prop where
  attempts : ∀ j ∈ jobs, j.attempts = claimsInARow j.id marks
  pending : ∀ j ∈ jobs, j.status = .pending → j.attempts < MAX_BACKFILL_ATTEMPTS
  fresh : ∀ id, id ∉ jobs.map (·.id) → claimsInARow id marks = 0

section Steps

variable {jobs' : List PaymentBackfillJob} {marks : List Mark}

section Counted

variable (h : Counted jobs marks)

include h

theorem Counted.touched (ht : TouchedRows jobs jobs')
    (hpending : ∀ j ∈ jobs', j.status = .pending → j.attempts < MAX_BACKFILL_ATTEMPTS) : Counted jobs' marks where
  attempts := by
    intro j' hj'
    obtain ⟨j, hj, htouched⟩ := exists_of_forall₂_right ht hj'
    rw [htouched.copy]
    exact h.attempts j hj
  pending := hpending
  fresh := by
    intro id hid
    rw [ht.ids] at hid
    exact h.fresh id hid

/-- A statement that leaves no row PENDING which was not. -/
theorem Counted.closed (ht : TouchedRows jobs (Table.update sel data jobs))
    (hdata : ∀ j ∈ jobs, sel j → (data j).status ≠ .pending) : Counted (Table.update sel data jobs) marks := by
  refine h.touched ht (forall_update h.pending fun j hj hsel hpending => ?_)
  exact absurd hpending (hdata j hj hsel)

theorem Counted.cancel (howned : Owned jobs) (id : String) (now : Date) : Counted (cancelRows id now jobs) marks := by
  have ht := cancelRows_touched howned id now
  unfold cancelRows at ht ⊢
  split at ht
  · rename_i hany
    rw [if_pos hany]
    exact h.closed ht fun j _ _ => by simp
  · rename_i hany
    rw [if_neg hany]
    refine h.closed ht fun j _ hsel => ?_
    have hrunning := (of_decide_eq_true hsel).2.1
    simp [hrunning]

variable {workers : Nat → Option Call} {pages : Nat} {id : String}

theorem Counted.fail (hleased : Leased jobs workers)
    {stage : Stage} (hcall : workers p = some (.lease job pages stage))
    (reason : BackfillFault) (permanent : Bool) (now : Date) :
    Counted (failRows job p reason permanent now jobs) marks := by
  refine h.touched (failRows_touched hleased.owned job p reason permanent now) fun j' hj' hpending => ?_
  obtain ⟨j, hj, ⟨hsel, rfl⟩ | ⟨-, rfl⟩⟩ := mem_update_cases hj'
  · obtain ⟨hid, howner⟩ := of_decide_eq_true hsel
    have hcopy := hleased.copies p job pages stage hcall j hj hid howner
    by_cases hend : (permanent || decide (MAX_BACKFILL_ATTEMPTS ≤ job.attempts))
    · rw [if_pos hend] at hpending
      cases hpending
    · rw [if_neg hend]
      have hle := hcopy.attempts
      simp only [Bool.or_eq_true, decide_eq_true_eq, not_or, not_le] at hend
      exact lt_of_le_of_lt hle hend.2
  · exact h.pending _ hj hpending

theorem Counted.yield (hleased : Leased jobs workers) (hcall : workers p = some (.lease job pages .yield)) :
    Counted (yieldRows job.id p jobs) marks := by
  refine h.touched (yieldRows_touched job.id p jobs) (forall_update h.pending fun j hj hsel _ => ?_)
  obtain ⟨hid, howner, -⟩ := runBy_iff.mp hsel
  have hle := (hleased.copies p job pages .yield hcall j hj hid howner).attempts
  rw [hleased.yielding p job pages hcall] at hle
  exact lt_of_le_of_lt hle (by decide)

theorem Counted.create (hfresh : id ∉ jobs.map (·.id)) (userId : String)
    (range : LedgerRange) (accountId : Option String) : Counted (jobs ++ [newJob id userId range accountId]) marks where
  attempts := forall_append_row h.attempts (h.fresh id hfresh).symm
  pending := by
    refine forall_append_row h.pending fun _ => ?_
    show 0 < MAX_BACKFILL_ATTEMPTS
    decide
  fresh := by
    intro other hother
    refine h.fresh other fun hmem => hother ?_
    rw [List.map_append]
    exact List.mem_append_left _ hmem

theorem Counted.claim {job : PaymentBackfillJob} (hjob : job ∈ jobs) (p : Nat) (now : Date) :
    Counted (claimRows job.id p now jobs) (marks ++ [.claim job.id]) where
  attempts := by
    intro j' hj'
    rw [claimsInARow_claim]
    obtain ⟨j, hj, ⟨hid, rfl⟩ | ⟨hid, rfl⟩⟩ := mem_claimRows hj'
    · show j.attempts + 1 = if job.id = j.id then claimsInARow j.id marks + 1 else claimsInARow j.id marks
      rw [if_pos hid.symm, h.attempts j hj]
    · rw [if_neg (Ne.symm hid)]
      exact h.attempts _ hj
  pending := by
    intro j' hj' hpending
    obtain ⟨j, hj, ⟨-, rfl⟩ | ⟨-, rfl⟩⟩ := mem_claimRows hj'
    · cases hpending
    · exact h.pending _ hj hpending
  fresh := by
    intro id hid
    rw [claimRows, map_update _ (by intro j; rfl)] at hid
    rw [claimsInARow_claim, if_neg]
    · exact h.fresh id hid
    · rintro rfl
      exact hid (List.mem_map_of_mem hjob)

theorem Counted.page (hids : (jobs.map (·.id)).Nodup)
    {row : PaymentBackfillJob} (hrow : row ∈ jobs) (hcommits : row.commits id p) (plan : BackfillPagePlan)
    (count : Nat) (now : Date) (inserted found : List String) :
    Counted (Table.update (·.commits id p) (.committed plan count now) jobs) (marks ++ [.page id inserted found]) where
  attempts := by
    intro j' hj'
    rw [claimsInARow_page]
    obtain ⟨hrun, -⟩ := commits_iff.mp hcommits
    obtain ⟨j, hj, ⟨hsel, rfl⟩ | ⟨hsel, rfl⟩⟩ := mem_update_cases hj'
    · rw [committed_id, if_pos (commits_iff.mp hsel).1.1.symm, committed_copy]
      rfl
    · rw [if_neg]
      · exact h.attempts _ hj
      · intro hid
        obtain rfl := eq_of_key hids hj hrow (hid.symm.trans hrun.1.symm)
        exact absurd (hcommits.symm.trans hsel) (by simp)
  pending := by
    refine forall_update h.pending fun j hj _ _ => ?_
    rw [committed_copy]
    show 0 < MAX_BACKFILL_ATTEMPTS
    decide
  fresh := by
    intro other hother
    rw [map_update _ (committed_id plan count now)] at hother
    rw [claimsInARow_page, if_neg]
    · exact h.fresh other hother
    · rintro rfl
      exact hother (List.mem_map.mpr ⟨row, hrow, (commits_iff.mp hcommits).1.1⟩)

end Counted

end Steps

theorem step_counted (hleased : Leased w.jobs w.workers)
    (h : Counted w.jobs w.marks) (hstep : step cfg w e = some w') : Counted w'.jobs w'.marks := by
  cases step_effect hstep with
  | create id userId range accountId hfresh => exact h.create hfresh userId range accountId
  | cancel id now => exact h.cancel hleased.owned id now
  | finalize p now => exact h.closed (finalizeRows_touched now w.jobs) fun j _ _ => by simp
  | claim p a he hcall job hcandidate hjob => exact h.claim hjob p a.now
  | lease p a he job pages stage hcall w' hw =>
    cases hw with
    | goesOn => exact h
    | page plan eligibleAssets hstage row hrow hcommits =>
      exact h.page hleased.ids hrow hcommits plan _ a.now _ _
    | stops => exact h.closed (stopRows_touched job.id p a.now w.jobs) fun j _ _ => by simp
    | fails reason permanent => exact h.fail hleased hcall reason permanent a.now
    | yields hstage =>
      subst hstage
      exact h.yield hleased hcall
  | _ => exact h

/-! ## The bound -/

/-- An expired lease is taken over only while its job is below the limit. -/
def Call.takesOverInTime (jobs : List PaymentBackfillJob) (candidate : Option String) : Option Call → Prop
  | some .claim =>
    ∀ j ∈ jobs, candidate = some j.id → j.status = .running → j.attempts < MAX_BACKFILL_ATTEMPTS
  | _ => True

instance (candidate : Option String) (call : Option Call) : Decidable (Call.takesOverInTime jobs candidate call) := by
  unfold Call.takesOverInTime
  split <;> infer_instance

/-- Nobody takes the last permitted claim over, and its worker does not die. -/
def LastClaimEnds (w : World) : Event → Prop
  | .access p a => Call.takesOverInTime w.jobs a.candidate (w.workers p)
  | .crash p => ∀ j ∈ w.jobs, j.leaseOwner = some p → j.attempts ≠ MAX_BACKFILL_ATTEMPTS
  | _ => True

instance : Decidable (LastClaimEnds w e) := by
  unfold LastClaimEnds
  split <;> infer_instance

/-- A call that has the job in hand. -/
def Call.leases (id : String) : Option Call → Prop
  | some (.lease job _ _) => job.id = id
  | _ => False

def PaymentBackfillJob.atLimit (j : PaymentBackfillJob) : Prop :=
  j.status = .running ∧ j.attempts = MAX_BACKFILL_ATTEMPTS

/-- A job that runs under the last permitted claim is in its worker's hand. -/
def Held (jobs : List PaymentBackfillJob) (workers : Nat → Option Call) : Prop :=
  ∀ j ∈ jobs, j.atLimit → ∃ p, j.leaseOwner = some p ∧ Call.leases j.id (workers p)

section Held

variable {workers : Nat → Option Call} {call : Option Call} {pages : Nat} {stage : Stage}
  {jobs' : List PaymentBackfillJob}

theorem TouchedRows.atLimit (ht : TouchedRows jobs jobs') (hj : j ∈ jobs') (hlimit : j.atLimit) :
    ∃ i ∈ jobs, i.atLimit ∧ i.id = j.id ∧ i.leaseOwner = j.leaseOwner := by
  obtain ⟨i, hi, htouched⟩ := exists_of_forall₂_right ht hj
  cases htouched with
  | same => exact ⟨_, hi, hlimit, rfl, rfl⟩
  | flagged => exact ⟨_, hi, hlimit, rfl, rfl⟩
  | released _ _ _ _ _ hstatus => exact absurd hlimit.1 hstatus.1

variable (h : Held jobs workers)

include h

theorem Held.own (hj : j ∈ jobs) (hlimit : j.atLimit) (howner : j.leaseOwner = some p) :
    Call.leases j.id (workers p) := by
  obtain ⟨q, hq, hleases⟩ := h j hj hlimit
  obtain rfl := Option.some.inj (hq.symm.trans howner)
  exact hleases

/-- A worker moves: the jobs at the limit are its own or those of others, as before. -/
theorem Held.moves (hrows : ∀ j ∈ jobs', j.atLimit → (j.leaseOwner = some p ∧ Call.leases j.id call) ∨
      ∃ i ∈ jobs, i.atLimit ∧ i.id = j.id ∧ i.leaseOwner = j.leaseOwner ∧ i.leaseOwner ≠ some p) :
    Held jobs' (Function.update workers p call) := by
  intro j hj hlimit
  rcases hrows j hj hlimit with ⟨howner, hleases⟩ | ⟨i, hi, hbefore, hid, hsame, hother⟩
  · refine ⟨p, howner, ?_⟩
    rw [Function.update_self]
    exact hleases
  · obtain ⟨q, hq, hleases⟩ := h i hi hbefore
    refine ⟨q, hsame.symm.trans hq, ?_⟩
    rw [Function.update_of_ne (by rintro rfl; exact hother hq), ← hid]
    exact hleases

/-- A statement of the lease's worker that picks the row if it is at the limit, and ends that. -/
theorem Held.picks (hcall : workers p = some (.lease job pages stage))
    (hdata : ∀ j, sel j → ¬(data j).atLimit)
    (hsel : ∀ j ∈ jobs, j.atLimit → j.id = job.id → j.leaseOwner = some p → sel j) :
    Held (Table.update sel data jobs) (Function.update workers p call) := by
  refine h.moves fun j' hj' hlimit => ?_
  obtain ⟨j, hj, ⟨hs, rfl⟩ | ⟨hs, rfl⟩⟩ := mem_update_cases hj'
  · exact absurd hlimit (hdata j hs)
  · refine .inr ⟨_, hj, hlimit, rfl, rfl, fun howner => ?_⟩
    have hleases := h.own hj hlimit howner
    rw [hcall] at hleases
    exact absurd ((hsel _ hj hlimit hleases.symm howner).symm.trans hs) (by simp)

end Held

theorem step_held (hleased : Leased w.jobs w.workers) (h : Held w.jobs w.workers) (hok : LastClaimEnds w e)
    (hstep : step cfg w e = some w') : Held w'.jobs w'.workers := by
  cases step_effect hstep with
  | refused | sync => exact h
  | create id userId range accountId => exact forall_append_row h nofun
  | cancel id now =>
    intro j hj hlimit
    obtain ⟨i, hi, hbefore, hid, howner⟩ := (cancelRows_touched hleased.owned id now).atLimit hj hlimit
    rw [← hid, ← howner]
    exact h i hi hbefore
  | turns p call hcall hleft =>
    refine h.moves fun j hj hlimit => .inr ⟨j, hj, hlimit, rfl, rfl, fun howner => ?_⟩
    rcases hleft with rfl | hleft
    · exact hok j hj howner hlimit.2
    · have hleases := h.own hj hlimit howner
      unfold Call.leases at hleases
      split at hleases
      · exact hleft _ _ _ ‹_›
      · exact hleases
  | finalize p now hcall =>
    refine h.moves fun j hj hlimit => ?_
    obtain ⟨i, hi, hbefore, hid, hsame⟩ := (finalizeRows_touched now w.jobs).atLimit hj hlimit
    refine .inr ⟨i, hi, hbefore, hid, hsame, fun howner => ?_⟩
    have hleases := h.own hi hbefore howner
    rw [hcall] at hleases
    exact hleases
  | claim p a he hcall job =>
    refine h.moves fun j' hj' hlimit => ?_
    obtain ⟨j, hj, ⟨hid, rfl⟩ | ⟨-, rfl⟩⟩ := mem_claimRows hj'
    · exact .inl ⟨rfl, hid.symm⟩
    · refine .inr ⟨_, hj, hlimit, rfl, rfl, fun howner => ?_⟩
      have hleases := h.own hj hlimit howner
      rw [hcall] at hleases
      exact hleases
  | lease p a he job pages stage hcall w' hw =>
    cases hw with
    | goesOn =>
      refine h.moves fun j hj hlimit => ?_
      by_cases howner : j.leaseOwner = some p
      · have hleases := h.own hj hlimit howner
        rw [hcall] at hleases
        exact .inl ⟨howner, hleases⟩
      · exact .inr ⟨j, hj, hlimit, rfl, rfl, howner⟩
    | page plan eligibleAssets hstage row hrow hcommits =>
      refine h.picks hcall (fun j _ hlimit => ?_) fun j hj _ hid _ => ?_
      · rw [PaymentBackfillJob.atLimit, committed_copy] at hlimit
        cases hlimit.2
      · obtain rfl := eq_of_key hleased.ids hj hrow (hid.trans (commits_iff.mp hcommits).1.1.symm)
        exact hcommits
    | stops hstage =>
      subst hstage
      refine h.picks hcall (fun _ _ => nofun) fun j hj hlimit hid howner => ?_
      have hflag := (hleased.copies p job pages _ hcall j hj hid howner).flagged rfl
      exact Bool.and_eq_true_iff.mpr
        ⟨runBy_iff.mpr ⟨hid, howner, hlimit.1⟩, Option.isSome_iff_ne_none.mpr hflag⟩
    | fails =>
      refine h.picks hcall (fun j _ => ?_) fun j _ _ hid howner => decide_eq_true ⟨hid, howner⟩
      split <;> nofun
    | yields =>
      exact h.picks hcall (fun _ _ => nofun)
        fun j _ hlimit hid howner => runBy_iff.mpr ⟨hid, howner, hlimit.1⟩

structure Bounded (w : World) : Prop where
  leased : Leased w.jobs w.workers
  counted : Counted w.jobs w.marks
  held : Held w.jobs w.workers
  bounded : ∀ id, claimsInARow id w.marks ≤ MAX_BACKFILL_ATTEMPTS

theorem bounded_start (payments : List SyncedPayment) : Bounded (World.start payments) where
  leased := leased_start payments
  counted := ⟨(fun _ hj => nomatch hj), (fun _ hj => nomatch hj), fun _ _ => rfl⟩
  held := fun _ hj => nomatch hj
  bounded := fun _ => Nat.zero_le _

theorem step_bounded (h : Bounded w) (hok : LastClaimEnds w e) (hstep : step cfg w e = some w') : Bounded w' := by
  refine ⟨step_leased h.leased hstep, step_counted h.leased h.counted hstep, step_held h.leased h.held hok hstep, ?_⟩
  intro id
  have hold := h.bounded id
  cases step_effect hstep with
  | claim p a he hcall job hcandidate hjob hclaimable =>
    subst he
    have hok : Call.takesOverInTime w.jobs a.candidate (w.workers p) := hok
    rw [hcall] at hok
    have hbelow : job.attempts < MAX_BACKFILL_ATTEMPTS := by
      rcases (claimable_iff.mp hclaimable).2 with hpending | ⟨hrunning, -⟩
      · exact h.counted.pending job hjob hpending
      · exact hok job hjob hcandidate hrunning
    rw [h.counted.attempts job hjob] at hbelow
    show claimsInARow id (w.marks ++ [.claim job.id]) ≤ _
    rw [claimsInARow_claim]
    split
    · rename_i hid
      rw [← hid]
      exact hbelow
    · exact hold
  | lease p a he job pages stage hcall w' hw =>
    cases hw with
    | page =>
      show claimsInARow id (w.marks ++ [.page job.id _ _]) ≤ _
      rw [claimsInARow_page]
      split
      · exact Nat.zero_le _
      · exact hold
    | _ => exact hold
  | _ => exact hold

/-- In every run in which nobody takes the last permitted claim over and its worker does not die,
    no job is claimed more than `MAX_BACKFILL_ATTEMPTS` times without a page, and one that was
    claimed so often is in the hand of the worker that runs it, or over. -/
theorem claims_bounded (cfg : Config) (payments : List SyncedPayment) {w : World}
    (hrun : Run (step cfg) LastClaimEnds (World.start payments) w) :
    (∀ id, claimsInARow id w.marks ≤ MAX_BACKFILL_ATTEMPTS) ∧
      ∀ j ∈ w.jobs, claimsInARow j.id w.marks = MAX_BACKFILL_ATTEMPTS →
        (j.status = .running ∧ ∃ p, j.leaseOwner = some p ∧ Call.leases j.id (w.workers p)) ∨
          j.status = .failed ∨ j.status = .cancelled ∨ j.status = .completed := by
  have h := hrun.invariant (bounded_start payments) fun _ _ _ => step_bounded
  refine ⟨h.bounded, fun j hj hmax => ?_⟩
  have hattempts := h.counted.attempts j hj
  cases hstatus : j.status with
  | pending =>
    have hbelow := h.counted.pending j hj hstatus
    omega
  | running => exact .inl ⟨rfl, h.held j hj ⟨hstatus, hattempts.trans hmax⟩⟩
  | failed => exact .inr (.inl rfl)
  | cancelled => exact .inr (.inr (.inl rfl))
  | completed => exact .inr (.inr (.inr rfl))

/-! ## Traces -/

def demoConfig : Config := ⟨fun _ => some "GOWNER", id, id⟩

def demoAnswer (minute : Fin 1000) : Answer where
  now := ⟨1700000000000 + 60000 * minute, by omega, by omega⟩
  candidate := some "job-1"
  page := none
  registry := []
  tx := .committed

def requested : Event := .create "job-1" "user-1" (some 100) (some 110)

def claimedBy (p : Nat) (minute : Fin 1000) : List Event :=
  [.poll p, .access p (demoAnswer minute), .access p (demoAnswer minute)]

/-- The operator cancels the running job while its worker waits for Horizon, and Horizon
    fails: the job is PENDING again, with the cancellation requested. -/
theorem cancelled_job_stranded : ∃ w, Run (step demoConfig) anyStep (World.start []) w ∧ ∃ j ∈ w.jobs, j.stranded :=
  Run.exists_of_replay
    (requested :: claimedBy 0 0 ++ [.access 0 (demoAnswer 0), .cancel "job-1" (demoAnswer 1).now,
      .access 0 (demoAnswer 1), .access 0 (demoAnswer 1)])

/-- A fault without a cancellation puts the job back; cancelled then, it is over at once. -/
theorem no_job_stranded_retry :
    ∃ w, Run (step demoConfig) ReleasesUnflagged (World.start []) w ∧ (∃ j ∈ w.jobs, j.status = .cancelled) ∧
      ∀ j ∈ w.jobs, j.stranded = false :=
  Run.exists_and
    (requested :: claimedBy 0 0 ++ [.access 0 (demoAnswer 0), .access 0 (demoAnswer 0), .access 0 (demoAnswer 0),
      .cancel "job-1" (demoAnswer 1).now])
    fun _ hrun hcancelled => ⟨hcancelled, no_job_stranded demoConfig [] hrun⟩

/-- Six workers claim the job one after the other, each after the lease of the last has
    expired; each dies before it commits a page. -/
theorem claimed_six_times :
    ∃ w, Run (step demoConfig) anyStep (World.start []) w ∧ MAX_BACKFILL_ATTEMPTS < claimsInARow "job-1" w.marks ∧
      ∃ j ∈ w.jobs, j.status = .running :=
  Run.exists_of_replay
    (requested :: claimedBy 0 0 ++ .crash 0 :: claimedBy 1 3 ++ .crash 1 :: claimedBy 2 6 ++
      .crash 2 :: claimedBy 3 9 ++ .crash 3 :: claimedBy 4 12 ++ .crash 4 :: claimedBy 5 15)

/-- One worker dies, and the next fails four times in order: the job is FAILED at the fifth claim. -/
theorem claims_bounded_failed : ∃ w, Run (step demoConfig) LastClaimEnds (World.start []) w ∧
      (∃ j ∈ w.jobs, j.status = .failed ∧ claimsInARow j.id w.marks = MAX_BACKFILL_ATTEMPTS) ∧
      claimsInARow "job-1" w.marks ≤ MAX_BACKFILL_ATTEMPTS :=
  Run.exists_and
    (requested :: claimedBy 0 0 ++ .crash 0 :: (List.replicate 4
      (claimedBy 1 3 ++ List.replicate 3 (.access 1 (demoAnswer 3)))).flatten)
    fun _ hrun hfailed => ⟨hfailed, (claims_bounded demoConfig [] hrun).1 "job-1"⟩

end EarnProof.Payments.Backfill
