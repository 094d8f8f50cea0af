/-
  EarnProof.Payments.SyncSteps — what one access of a sync can do, said once: to the
  checkpoint (`access_change`), to the payments (`access_payments`) and to where the sync
  goes on (`access_next`); and the events of the system by their effect (`step_cases`).
-/
import EarnProof.Payments.Sync

namespace EarnProof.Payments

open Lib Lib.Table Lib.Calendar Database Stellar Option

/-! ## What one access does to the checkpoint -/

/-- The ways an access of a sync at `stage` can change the checkpoint `before`: the row
    it writes, and what is stored then. -/
inductive Change (a : Answer) (stage : Stage) (before : Option PaymentSyncCheckpoint) :
    Option PaymentSyncCheckpoint → Option PaymentSyncCheckpoint → Prop
  | keep : Change a stage before none before
  | establish claim (hstage : stage = .commit .establish claim) (hnone : before = none) :
    Change a stage before (some (establishedAt claim a.freshId a.now)) (some (establishedAt claim a.freshId a.now))
  | diverge c row reason (hstage : stage = .diverge c reason) (hrow : before = some row) (hguard : c.guards row)
      (hstatus : row.status = .verified) :
    Change a stage before (some (markDiverged reason a.now row)) (some (markDiverged reason a.now row))
  | refresh c row (hstage : stage = .refresh c) (hrow : before = some row) (hguard : c.guards row) :
    Change a stage before (some (refreshed a.now row)) (some (refreshed a.now row))
  | cursor c row k (hstage : stage = .saveCursor c k) (hrow : before = some row) (hguard : c.guards row) :
    Change a stage before (some (withCursor k a.now row)) (some (withCursor k a.now row))
  | advance c row claim (hstage : stage = .commit (.advance c) claim) (hrow : before = some row)
      (hguard : c.guards row) :
    Change a stage before (some (movedTo claim a.now row)) (some (movedTo claim a.now row))
  | complete c row claim (hstage : stage = .commit (.complete c) claim) (hrow : before = some row)
      (hguard : c.guards row) :
    Change a stage before (some (movedTo claim a.now row)) (some (movedTo claim a.now row))
  | remove c row (hstage : stage = .remove c) (hrow : before = some row) (hguard : c.guards row) :
    Change a stage before none none

/-- A conditional update writes the row it matches, or nothing. -/
theorem change_of_update {a : Answer} {stage : Stage} (db : Store) (sel : PaymentSyncCheckpoint → Bool)
    (data : PaymentSyncCheckpoint → PaymentSyncCheckpoint)
    (h : ∀ row, db.checkpoint = some row → sel row →
      Change a stage db.checkpoint (some (data row)) (some (data row))) :
    Change a stage db.checkpoint ((db.checkpoint.filter sel).map data)
      (db.put ((db.checkpoint.filter sel).map data)).checkpoint := by
  cases hwrote : db.checkpoint.filter sel with
  | none => exact .keep
  | some row =>
    obtain ⟨hrow, hsel⟩ := filter_eq_some_iff.mp hwrote
    exact h row hrow hsel

/-- The checkpoint `diverge` leaves is the one its own transition wrote, if it wrote one, and
    it goes on with that row. -/
theorem divergeTx_leaves (cfg : Config) (c : PaymentSyncCheckpoint) (reason : DivergenceReason) (now : Date)
    (db : Store) : let tx := divergeTx cfg c reason now db
    tx.1.checkpoint = (db.put tx.2.1).checkpoint ∧ tx.2.2 = tx.1.checkpoint.filter fun r => r.id = c.id := by
  unfold divergeTx
  dsimp only
  split <;> exact ⟨rfl, rfl⟩

theorem divergeTx_change (cfg : Config) (a : Answer) (c : PaymentSyncCheckpoint) (reason : DivergenceReason)
    (db : Store) :
    Change a (.diverge c reason) db.checkpoint (divergeTx cfg c reason a.now db).2.1
      (divergeTx cfg c reason a.now db).1.checkpoint := by
  rw [(divergeTx_leaves cfg c reason a.now db).1]
  have hwrote : (divergeTx cfg c reason a.now db).2.1 =
      (db.checkpoint.filter fun row => c.guards row && row.status = .verified).map (markDiverged reason a.now) := by
    unfold divergeTx
    dsimp only
    split <;> rfl
  rw [hwrote]
  refine change_of_update db _ _ fun row hrow hsel => ?_
  obtain ⟨hguard, hstatus⟩ := Bool.and_eq_true_iff.mp hsel
  exact .diverge c row reason rfl hrow hguard (of_decide_eq_true hstatus)

/-- What an access can do to the checkpoint, case by case. -/
theorem access_change (cfg : Config) (a : Answer) (db : Store) (s : Sync) :
    Change a s.stage db.checkpoint (s.access cfg a db).wrote (s.access cfg a db).db.checkpoint := by
  obtain ⟨account, reads, supported, stage⟩ := s
  cases stage with
  | load =>
    simp only [Sync.access]
    split
    · rename_i h; exact h ▸ .keep
    · rename_i c h
      split <;> exact h ▸ .keep
  | diverge c reason => exact divergeTx_change cfg a c reason db
  | write plan read replaced rest =>
    cases rest with
    | nil | cons => exact .keep
  | refresh c => exact change_of_update db c.guards _ fun row => .refresh c row rfl
  | commit target claim =>
    show Change a _ _ (target.row db claim a) (db.put (target.row db claim a)).checkpoint
    cases target with
    | establish =>
      simp only [Target.row]
      split
      · rename_i hnone
        exact .establish claim rfl (isNone_iff_eq_none.mp hnone)
      · exact .keep
    | advance c => exact change_of_update db c.guards _ fun row => .advance c row claim rfl
    | complete c => exact change_of_update db c.guards _ fun row => .complete c row claim rfl
  | saveCursor c k => exact change_of_update db c.guards _ fun row => .cursor c row k rfl
  | remove c =>
    simp only [Sync.access]
    split
    · rename_i hany
      obtain ⟨row, hrow, hguard⟩ := (any_eq_true _ _).mp hany
      exact .remove c row rfl hrow hguard
    · exact .keep
  | _ =>
    simp only [Sync.access]
    repeat' split
    all_goals exact .keep

variable {a : Answer} {s : Sync} {cfg : Config} {db' : Store} {rows : List SyncedPayment} {stage : Stage}
  {before after : Option PaymentSyncCheckpoint} {P : Stage → Prop} {plan : SyncPlan} {c : PaymentSyncCheckpoint}
  {reason : DivergenceReason} {db : Store} {t : Sync} {operationId : String} {update : SyncedPayment → SyncedPayment}
  {create r' : SyncedPayment} {rows' : List SyncedPayment}

/-- A write stores its row: a new one under the generated id, or the next version. -/
theorem Change.of_some {row' : PaymentSyncCheckpoint} (h : Change a stage before (some row') after) :
    after = some row' ∧ ((before = none ∧ row'.id = a.freshId) ∨
      ∃ row, before = some row ∧ row'.id = row.id ∧ row'.version = row.version + 1) := by
  cases h with
  | establish claim _ hnone => exact ⟨rfl, .inl ⟨hnone, rfl⟩⟩
  | diverge c row reason _ hrow _ _ | refresh c row _ hrow _ | cursor c row k _ hrow _
  | advance c row claim _ hrow _ | complete c row claim _ hrow _ => exact ⟨rfl, .inr ⟨row, hrow, rfl, rfl⟩⟩

/-- An access that writes no row leaves the checkpoint, or removes it. -/
theorem Change.of_none (h : Change a stage before none after) : after = before ∨ after = none := by
  cases h with
  | keep => exact .inl rfl
  | remove => exact .inr rfl

/-! ## Where a sync goes on -/

/-- The stages that end in a plan. -/
def Stage.plans : Stage → Bool
  | .load => true
  | .diverge _ _ => true
  | _ => false

/-- The stages a plan is made at. -/
theorem planned_cases (assets : P (.assets plan)) (read : P (.read plan)) : P (s.planned plan).stage := by
  unfold Sync.planned Sync.at
  split
  · exact assets
  · exact read

/-- The stages `settle` begins with: an anchor that does not move the checkpoint forward is
    not claimed. -/
theorem settleStage_cases {read : HorizonReadResult}
    (orphan : ∀ c floor, plan = .reconcile c floor → P (.orphan c floor read)) (report : P (.report .unverified none))
    (establish : ∀ anchor, P (.claim .establish anchor)) (refresh : ∀ c, plan = .resume c → P (.refresh c))
    (advance : ∀ c anchor, plan = .resume c → c.pagingToken < anchor.pagingToken → P (.claim (.advance c) anchor)) :
    P (settleStage plan read) := by
  unfold settleStage
  split
  · exact orphan _ _ rfl
  · exact report
  · exact establish _
  · exact refresh _ rfl
  · split
    · exact report
    · rename_i hlt
      exact advance _ _ rfl (not_le.mp hlt)

/-- The ways a sync goes on after an access to `db` that left `db'`. -/
inductive Next (cfg : Config) (a : Answer) (db db' : Store) (s : Sync) : Sync → Prop
  | initial (hstage : s.stage.plans)
      (hgone : ∀ row, db'.checkpoint = some row → ∃ c reason, s.stage = .diverge c reason ∧ row.id ≠ c.id) :
    Next cfg a db db' s (s.planned .initial)
  | reconcile c (hstage : s.stage.plans) (hrow : db'.checkpoint = some c) (hstatus : c.status = .diverged) :
    Next cfg a db db' s (s.planned (reconcilePlan cfg c))
  | prove c (hstage : s.stage = .load) (hrow : db'.checkpoint = some c) (hstatus : c.status = .verified) :
    Next cfg a db db' s (s.at (.prove c))
  | resume c (hstage : s.stage = .prove c) : Next cfg a db db' s (s.planned (.resume c))
  | refute c reason (hstage : s.stage = .prove c) : Next cfg a db db' s (s.at (.diverge c reason))
  | diverge c read reason (hstage : s.stage = .lookup (.resume c) read) : Next cfg a db db' s (s.at (.diverge c reason))
  | again c row reason (hstage : s.stage = .diverge c reason) (hrow : db'.checkpoint = some row)
      (hstatus : row.status = .verified) : Next cfg a db db' s (s.at .load)
  | assets plan (hstage : s.stage = .assets plan) :
    Next cfg a db db' s { s with supported := a.supported, stage := .read plan }
  | read plan (hstage : s.stage = .read plan) :
    Next cfg a db db' s { s with reads := s.reads + 1, stage := .lookup plan a.read }
  | write plan read (hstage : s.stage = .lookup plan read)
      (hinspect : inspect plan read (storedFor read db.payments) cfg.userId = none) :
    Next cfg a db db' s (s.at (.write plan read
      (replacedOperationIds read.payments (storedFor read db.payments) cfg.userId) read.payments))
  | identify plan read replaced p rest (hstage : s.stage = .write plan read replaced (p :: rest)) :
    Next cfg a db db' s (s.at (.identify plan read replaced p rest))
  | written plan read replaced p rest (hstage : s.stage = .identify plan read replaced p rest) :
    Next cfg a db db' s (s.at (.write plan read replaced rest))
  | settle plan read replaced (hstage : s.stage = .write plan read replaced []) :
    Next cfg a db db' s (s.at (.settle plan read))
  | settled plan read (hstage : s.stage = .settle plan read) : Next cfg a db db' s (s.at (settleStage plan read))
  | commit target anchor k (hstage : s.stage = .claim target anchor) (hclaim : claimFor anchor a.ledger = some k) :
    Next cfg a db db' s (s.at (.commit target k))
  | count c floor read (hstage : s.stage = .orphan c floor read) : Next cfg a db db' s (s.at (.count c floor read))
  | saveCursor c floor read k (hstage : s.stage = .count c floor read) (hcursor : read.lastCursor = some k) :
    Next cfg a db db' s (s.at (.saveCursor c k))
  | newest c floor read (hstage : s.stage = .count c floor read) : Next cfg a db db' s (s.at (.newest c))
  | choose c ledger (hstage : s.stage = .newest c)
      (hledger : newestConfirmedLedger cfg.userId db.payments = some ledger) :
    Next cfg a db db' s (s.at (.choose c ledger))
  | complete c ledger anchor (hstage : s.stage = .choose c ledger)
      (hanchor : newestIn cfg.userId ledger db.payments = some anchor) :
    Next cfg a db db' s (s.at (.claim (.complete c) anchor))
  | remove c (hstage : s.stage = .newest c ∨ ∃ ledger, s.stage = .choose c ledger) :
    Next cfg a db db' s (s.at (.remove c))
  | report status reason : Next cfg a db db' s (s.at (.report status reason))
  | done result : Next cfg a db db' s (s.at (.done result))

section Accesses

variable (cfg : Config) (a : Answer) (db : Store)

/-- After `diverge` the checkpoint is gone, another sync has re-verified it, or it is
    reconciled as it is stored. -/
theorem access_diverge (hstage : s.stage = .diverge c reason) : ((s.access cfg a db).next = s.planned .initial ∧
      ∀ row, (s.access cfg a db).db.checkpoint = some row → row.id ≠ c.id) ∨
    ∃ row, (s.access cfg a db).db.checkpoint = some row ∧ row.id = c.id ∧
      ((row.status = .verified ∧ (s.access cfg a db).next = s.at .load) ∨
        (row.status = .diverged ∧ (s.access cfg a db).next = s.planned (reconcilePlan cfg row))) := by
  have hcurrent := (divergeTx_leaves cfg c reason a.now db).2
  unfold Sync.access
  rw [hstage]
  dsimp only
  cases hrow : (divergeTx cfg c reason a.now db).2.2 with
  | none =>
    refine .inl ⟨rfl, fun row hstored hid => ?_⟩
    rw [hrow, hstored, filter_some, if_pos (decide_eq_true hid)] at hcurrent
    cases hcurrent
  | some row =>
    obtain ⟨hstored, hid⟩ := filter_eq_some_iff.mp (hcurrent.symm.trans hrow)
    refine .inr ⟨row, hstored, of_decide_eq_true hid, ?_⟩
    cases hstatus : row.status with
    | verified => exact .inl ⟨rfl, if_pos hstatus⟩
    | diverged => exact .inr ⟨rfl, if_neg (by rw [hstatus]; decide)⟩

theorem diverge_next (hstage : s.stage = .diverge c reason) :
    Next cfg a db (s.access cfg a db).db s (s.access cfg a db).next := by
  have hplans : s.stage.plans := by rw [hstage]; rfl
  rcases access_diverge cfg a db hstage with ⟨hnext, hgone⟩ | ⟨row, hrow, -, ⟨hstatus, hnext⟩ | ⟨hstatus, hnext⟩⟩
  · rw [hnext]
    exact .initial hplans fun row hrow => ⟨c, reason, hstage, hgone row hrow⟩
  · rw [hnext]
    exact .again c row reason hstage hrow hstatus
  · rw [hnext]
    exact .reconcile row hplans hrow hstatus

theorem access_next (s : Sync) : Next cfg a db (s.access cfg a db).db s (s.access cfg a db).next := by
  obtain ⟨account, reads, supported, stage⟩ := s
  unfold Sync.access
  cases stage with
  | load =>
    cases hrow : db.checkpoint with
    | none => exact .initial rfl fun row h => nomatch hrow.symm.trans h
    | some c =>
      dsimp only
      cases hstatus : c.status with
      | verified =>
        exact .prove c rfl hrow hstatus
      | diverged =>
        exact .reconcile c rfl hrow hstatus
  | prove c =>
    dsimp only
    split
    · exact .refute c _ rfl
    · exact .resume c rfl
  | diverge c reason => exact diverge_next (s := ⟨account, reads, supported, .diverge c reason⟩) cfg a db rfl
  | assets plan => exact .assets plan rfl
  | read plan => exact .read plan rfl
  | lookup plan read =>
    dsimp only
    split
    · rename_i hinspect
      exact .write plan read rfl hinspect
    · split
      · split
        · exact .diverge _ read _ rfl
        · exact .report _ _
      · exact .report _ _
  | write plan read replaced rest =>
    cases rest with
    | nil => exact .settle plan read replaced rfl
    | cons p rest => exact .identify plan read replaced p rest rfl
  | identify plan read replaced p rest => exact .written plan read replaced p rest rfl
  | settle plan read => exact .settled plan read rfl
  | refresh | saveCursor => exact .report _ _
  | claim target anchor =>
    dsimp only
    split
    · cases target <;> exact .report _ _
    · rename_i k hclaim
      exact .commit target anchor k rfl hclaim
  | commit target =>
    dsimp only
    split
    · exact .report _ _
    · cases target <;> exact .report _ _
  | orphan c floor read => exact .count c floor read rfl
  | count c floor read =>
    dsimp only
    split
    · split
      · rename_i k hcursor
        exact .saveCursor c floor read k rfl hcursor
      · exact .report _ _
    · exact .newest c floor read rfl
  | newest c =>
    dsimp only
    split
    · exact .remove c (.inl rfl)
    · rename_i ledger hledger
      exact .choose c ledger rfl hledger
  | choose c ledger =>
    dsimp only
    split
    · exact .remove c (.inr ⟨ledger, rfl⟩)
    · rename_i anchor hanchor
      exact .complete c ledger anchor rfl hanchor
  | remove =>
    dsimp only
    split <;> exact .report _ _
  | _ => exact .done _

end Accesses

theorem Next.account (h : Next cfg a db db' s t) : t.account = s.account := by
  cases h <;> rfl

/-- The checkpoint write a stage leads to. -/
def Stage.target? : Stage → Option Target
  | .claim target _ => some target
  | .commit target _ => some target
  | _ => none

/-- A sync comes to write the checkpoint by settling its read or by choosing an anchor for
    a completed reconciliation, and then by claiming the anchor's ledger. -/
theorem Next.target (h : Next cfg a db db' s t) {target : Target} (ht : t.stage.target? = some target) :
    (∃ plan read, t.stage = settleStage plan read) ∨
    (∃ c ledger anchor, s.stage = .choose c ledger ∧ t.stage = .claim (.complete c) anchor ∧
      newestIn cfg.userId ledger db.payments = some anchor) ∨
    ∃ anchor k, s.stage = .claim target anchor ∧ t.stage = .commit target k ∧ claimFor anchor a.ledger = some k := by
  cases h with
  | settled plan read => exact .inl ⟨plan, read, rfl⟩
  | complete c ledger anchor hstage hanchor => exact .inr (.inl ⟨c, ledger, anchor, hstage, rfl, hanchor⟩)
  | commit target' anchor k hstage hclaim =>
    cases ht
    exact .inr (.inr ⟨anchor, k, hstage, rfl, hclaim⟩)
  | initial | reconcile | resume => rw [planned_cases (P := (·.target? = none)) rfl rfl] at ht; cases ht
  | _ => cases ht

/-! ## What one access does to the payments -/

inductive RowsChange (cfg : Config) (a : Answer) (db' : Store) (s : Sync) (rows : List SyncedPayment) :
    List SyncedPayment → Prop
  | keep : RowsChange cfg a db' s rows rows
  | hold c row reason (hstage : s.stage = .diverge c reason) (hrow : db'.checkpoint = some row) (hid : row.id = c.id)
      (hstatus : row.status = .diverged) :
    RowsChange cfg a db' s rows (holdRows cfg.userId (floorOf cfg c) reason a.now rows)
  | write plan read replaced p rest (hstage : s.stage = .write plan read replaced (p :: rest)) :
    RowsChange cfg a db' s rows
      (writePayment cfg a.freshId (isEligible cfg s p) (p.operationId ∈ replaced) p rows)
  | identify plan read replaced p rest (hstage : s.stage = .identify plan read replaced p rest) :
    RowsChange cfg a db' s rows (identifyPayment cfg a.freshId (isEligible cfg s p) p rows)
  | orphan c floor read (hstage : s.stage = .orphan c floor read) :
    RowsChange cfg a db' s rows
      (orphanRows cfg.userId (reconciliationCoverageLedger read.payments read.stopReason floor)
        (read.payments.map (·.operationId)) rows)

theorem put_payments (db : Store) (row : Option PaymentSyncCheckpoint) : (db.put row).payments = db.payments := by
  cases row <;> rfl

theorem divergeTx_rows (cfg : Config) (a : Answer) (db : Store) (s : Sync) (hstage : s.stage = .diverge c reason) :
    RowsChange cfg a (divergeTx cfg c reason a.now db).1 s db.payments
      (divergeTx cfg c reason a.now db).1.payments := by
  have hpayments : ∀ row, (db.put row).payments = db.payments := put_payments db
  unfold divergeTx
  dsimp only
  split
  · rename_i hcurrent
    obtain ⟨row, hrow, hstatus⟩ := (any_eq_true _ _).mp hcurrent
    obtain ⟨hstored, hid⟩ := filter_eq_some_iff.mp hrow
    show RowsChange cfg a _ s db.payments (holdRows _ _ _ _ (db.put _).payments)
    rw [hpayments]
    exact .hold c row reason hstage hstored (of_decide_eq_true hid) (of_decide_eq_true hstatus)
  · rw [hpayments]
    exact .keep

/-- What an access can do to the payments, case by case. -/
theorem access_payments (cfg : Config) (a : Answer) (db : Store) (s : Sync) :
    RowsChange cfg a (s.access cfg a db).db s db.payments (s.access cfg a db).db.payments := by
  unfold Sync.access
  cases hstage : s.stage with
  | diverge => exact divergeTx_rows cfg a db s hstage
  | write plan read replaced rest =>
    cases rest with
    | nil => exact .keep
    | cons p rest => exact .write plan read replaced p rest hstage
  | identify plan read replaced p rest =>
    dsimp only
    split
    · exact .keep
    · exact .identify plan read replaced p rest hstage
  | refresh | commit | saveCursor =>
    rw [put_payments]
    exact .keep
  | orphan c floor read => exact .orphan c floor read hstage
  | _ =>
    dsimp only
    repeat' split
    all_goals exact .keep

/-! ## What one access does to a row -/

inductive RowEffect (cfg : Config) (a : Answer) (db' : Store) (s : Sync) (r : SyncedPayment) : SyncedPayment → Prop
  | same : RowEffect cfg a db' s r r
  | hold c row reason (hstage : s.stage = .diverge c reason) (hrow : db'.checkpoint = some row) (hid : row.id = c.id)
      (hstatus : row.status = .diverged) (hwindow : r.inWindow cfg.userId (floorOf cfg c))
      (hfree : r.held = false) :
    RowEffect cfg a db' s r { r with finalityHoldAt := some a.now, finalityHoldReason := some (.divergence reason) }
  | confirm plan read replaced p rest (hstage : s.stage = .write plan read replaced (p :: rest))
      (hop : r.operationId = p.operationId) : RowEffect cfg a db' s r (confirmRow (isEligible cfg s p) p r)
  | rebuild plan read replaced p rest (hstage : s.stage = .write plan read replaced (p :: rest))
      (hop : r.operationId = p.operationId) : RowEffect cfg a db' s r (rebuildRow cfg (isEligible cfg s p) p r)
  | identify isEligible occurredAt :
    RowEffect cfg a db' s r { r with isEligible, occurredAt }
  | orphan c floor read (hstage : s.stage = .orphan c floor read)
      (hcoverage : reconciliationCoverageLedger read.payments read.stopReason floor ≠ MAX_SAFE_INTEGER)
      (hundecided : r.undecided cfg.userId (reconciliationCoverageLedger read.payments read.stopReason floor))
      (hunseen : r.operationId ∉ read.payments.map (·.operationId)) :
    RowEffect cfg a db' s r { r with isEligible := false, finalityHoldReason := some .orphaned }

inductive NewRow (cfg : Config) (a : Answer) (s : Sync) : SyncedPayment → Prop
  | write plan read replaced p rest (hstage : s.stage = .write plan read replaced (p :: rest)) :
    NewRow cfg a s (newRow cfg a.freshId (isEligible cfg s p) p)
  | identify p isEligible :
    NewRow cfg a s { newRow cfg a.freshId isEligible p with pagingToken := none, ledgerSequence := none }

theorem mem_upsert (h : r' ∈ upsert operationId update create rows) :
    (∃ r ∈ rows, r.operationId = operationId ∧ r' = update r) ∨ (r' ∈ rows ∧ r'.operationId ≠ operationId) ∨
      (r' = create ∧ ∀ r ∈ rows, r.operationId ≠ operationId) := by
  unfold upsert at h
  split at h
  · obtain ⟨r, hr, ⟨hop, rfl⟩ | ⟨hop, rfl⟩⟩ := mem_update_cases h
    · exact .inl ⟨r, hr, of_decide_eq_true hop, rfl⟩
    · exact .inr (.inl ⟨hr, of_decide_eq_false hop⟩)
  · rename_i hnone
    have hfresh : ∀ r ∈ rows, r.operationId ≠ operationId := by simpa using hnone
    rcases List.mem_append.mp h with hr | hr
    · exact .inr (.inl ⟨hr, hfresh r' hr⟩)
    · exact .inr (.inr ⟨List.mem_singleton.mp hr, hfresh⟩)

/-- A row after an access comes from the row of its operation, or is a new one. -/
theorem RowsChange.mem (h : RowsChange cfg a db' s rows rows') (hr' : r' ∈ rows') :
    (∃ r ∈ rows, r.operationId = r'.operationId ∧ RowEffect cfg a db' s r r') ∨
      (NewRow cfg a s r' ∧ ∀ r ∈ rows, r.operationId ≠ r'.operationId) := by
  cases h with
  | keep => exact .inl ⟨r', hr', rfl, .same⟩
  | hold c row reason hstage hrow hid hstatus =>
    left
    obtain ⟨r, hr, ⟨hsel, rfl⟩ | ⟨-, rfl⟩⟩ := mem_update_cases hr'
    · obtain ⟨hwindow, hfree⟩ := Bool.and_eq_true_iff.mp hsel
      exact ⟨r, hr, rfl, .hold c row reason hstage hrow hid hstatus hwindow (by simpa using hfree)⟩
    · exact ⟨_, hr, rfl, .same⟩
  | write plan read replaced p rest hstage =>
    rcases mem_upsert hr' with ⟨r, hr, hop, rfl⟩ | ⟨hr, hop⟩ | ⟨rfl, hfresh⟩
    · left
      split
      · exact ⟨r, hr, rfl, .rebuild plan read replaced p rest hstage hop⟩
      · exact ⟨r, hr, rfl, .confirm plan read replaced p rest hstage hop⟩
    · exact .inl ⟨r', hr, rfl, .same⟩
    · exact .inr ⟨.write plan read replaced p rest hstage, hfresh⟩
  | identify plan read replaced p =>
    rcases mem_upsert hr' with ⟨r, hr, hop, rfl⟩ | ⟨hr, hop⟩ | ⟨rfl, hfresh⟩
    · exact .inl ⟨r, hr, rfl, .identify _ _⟩
    · exact .inl ⟨r', hr, rfl, .same⟩
    · exact .inr ⟨.identify p _, hfresh⟩
  | orphan c floor read hstage =>
    left
    unfold orphanRows at hr'
    split at hr'
    · exact ⟨r', hr', rfl, .same⟩
    · rename_i hcoverage
      obtain ⟨r, hr, ⟨hsel, rfl⟩ | ⟨-, rfl⟩⟩ := mem_update_cases hr'
      · obtain ⟨hundecided, hunseen⟩ := Bool.and_eq_true_iff.mp hsel
        exact ⟨r, hr, rfl, .orphan c floor read hstage hcoverage hundecided (of_decide_eq_true hunseen)⟩
      · exact ⟨_, hr, rfl, .same⟩

theorem nodup_upsert (hupdate : ∀ r, (update r).operationId = r.operationId)
    (hcreate : create.operationId = operationId) (h : (rows.map (·.operationId)).Nodup) :
    ((upsert operationId update create rows).map (·.operationId)).Nodup := by
  unfold upsert
  split
  · exact nodup_update _ hupdate h
  · rename_i hnone
    have hfresh : ∀ r ∈ rows, r.operationId ≠ operationId := by simpa using hnone
    exact nodup_append_row h fun r hr => hcreate ▸ hfresh r hr

theorem RowsChange.nodup (h : RowsChange cfg a db' s rows rows') (hnodup : (rows.map (·.operationId)).Nodup) :
    (rows'.map (·.operationId)).Nodup := by
  cases h with
  | keep => exact hnodup
  | hold => exact nodup_update _ (fun _ => rfl) hnodup
  | write =>
    refine nodup_upsert (fun r => ?_) rfl hnodup
    split <;> rfl
  | identify => exact nodup_upsert (fun _ => rfl) rfl hnodup
  | orphan =>
    unfold orphanRows
    split
    · exact hnodup
    · exact nodup_update _ (fun _ => rfl) hnodup

/-! ## The events of the system -/

/-- An event starts a sync, ends one, or lets one make an access. -/
theorem step_cases {w w' : World} {e : Event} (h : step cfg w e = some w') :
    (∃ p account, e = .start p account ∧ w.syncs p = none ∧
      w' = { w with syncs := Function.update w.syncs p (some (newSync account)) }) ∨
    (∃ p a s, e = .access p a ∧ w.syncs p = some s ∧ a.freshId ∉ w.rows.map (·.id) ∧
      w' = w.put p s (s.access cfg a w.db)) ∨
    (∃ p, e = .crash p ∧ w' = { w with syncs := Function.update w.syncs p none }) := by
  cases e with
  | start p account =>
    simp only [step] at h
    split at h
    · rename_i hnone
      exact .inl ⟨p, account, rfl, hnone, (some.inj h).symm⟩
    · cases h
  | access p a =>
    simp only [step] at h
    split at h
    · cases h
    · rename_i s hs
      split at h
      · cases h
      · rename_i hfresh
        exact .inr (.inl ⟨p, a, s, rfl, hs, hfresh, (some.inj h).symm⟩)
  | crash p => exact .inr (.inr ⟨p, rfl, (some.inj h).symm⟩)

end EarnProof.Payments
