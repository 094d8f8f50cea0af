/-
  EarnProof.Payments.Decisions — what holds and decisions say of a payment, over every
  interleaving of the writers (`Payments.Writers`).

  `diverge` holds the rows of the user whose `ledgerSequence` is at or above its floor. A
  sync writes that column from the paging token, which is the operation's TOID, so it agrees
  with the operation id (`run_located`). A backfill leaves it null. So the hold is complete
  exactly when no free payment of the window is without its ledger (`diverge_holds_iff`), and
  a backfilled payment that no sync has read since escapes it (`backfilled_payment_escapes`).

  `record` writes the decision and the column `isEligible` in one transaction, so no
  evaluation breaks their agreement. The sync writes the column from the registry and the
  reconciliation clears it, both without a look at the decisions; and `record` does not look
  at the hold. So a reconciliation leaves a payment with an active decision that says the
  opposite (`orphaned_decision_stays`), and a change of its classification makes an orphaned
  payment eligible again (`orphaned_payment_eligible_again`). Where none of the three happens
  (`InStep`), the column follows the decision in every state, and an orphaned payment stays
  ineligible until a sync writes it again (`column_follows_decision`).
-/
import EarnProof.Payments.Writers
import EarnProof.Payments.Orphans

namespace EarnProof.Payments.Writers

open Lib Lib.Table Lib.Calendar Database Stellar List Option

/-! ## Positions -/

/-- Horizon's paging token of an operation is its id. -/
def Positions (_ : World) : Event → Prop
  | .sync (.access _ a) => ∀ q ∈ a.read.payments, Positioned q
  | _ => True

instance (w : World) (e : Event) : Decidable (Positions w e) := by
  unfold Positions
  split <;> infer_instance

/-- Stored ledgers are those of the operation ids, and will be. -/
structure Located (w : World) : Prop where
  placed : ∀ r ∈ w.payments, r.Placed
  unwritten : ∀ p s, w.sync.syncs p = some s → ∀ q ∈ s.stage.unwritten, Positioned q

variable {cfg : Config} {w : World} {db : Store}

theorem located_sync {e : Payments.Event} {s' : Payments.World} (h : Located w)
    (hpositions : Positions w (.sync e)) (hstep : Payments.step cfg.sync w.sync e = some s') :
    (∀ r ∈ s'.db.payments, r.Placed) ∧ ∀ p s, s'.syncs p = some s → ∀ q ∈ s.stage.unwritten, Positioned q := by
  rcases step_cases hstep with ⟨p, account, rfl, -, rfl⟩ | ⟨p, a, s, rfl, hs, -, rfl⟩ | ⟨p, rfl, rfl⟩
  · refine ⟨h.placed, forall_moved (fun t hnew q hq => ?_) h.unwritten⟩
    cases hnew
    cases hq
  · refine ⟨(access_payments cfg.sync a w.sync.db s).placed h.placed (h.unwritten p s hs),
      forall_moved (fun t hnew q hq => ?_) h.unwritten⟩
    cases hnew
    rcases (access_next cfg.sync a w.sync.db s).unwritten hq with hq | ⟨plan, -, hq⟩
    · exact h.unwritten p s hs q hq
    · exact hpositions q hq
  · exact ⟨h.placed, forall_gone h.unwritten⟩

theorem step_located {w w' : World} {e : Event} (h : Located w) (hpositions : Positions w e)
    (hstep : step cfg w e = some w') : Located w' := by
  cases step_effect hstep with
  | sync e' he s hs =>
    subst he
    obtain ⟨hplaced, hunwritten⟩ := located_sync h hpositions hs
    exact ⟨hplaced, hunwritten⟩
  | page userId eligibleAssets payments rows hrows =>
    refine ⟨fun r hr => ?_, h.unwritten⟩
    have hmem : r ∈ rows := hr
    rw [hrows] at hmem
    rcases mem_createMany hmem with hr | hr
    · exact h.placed r hr
    · -- A backfilled row has no ledger at all.
      obtain ⟨q, -, rfl⟩ := mem_map.mp hr
      intro ledger hledger
      cases hledger
  | task => exact ⟨h.placed, h.unwritten⟩
  | _ => exact ⟨forall_update h.placed fun r hr _ => h.placed r hr, h.unwritten⟩

theorem run_located (hplaced : ∀ r ∈ db.payments, r.Placed)
    (hrun : Run (step cfg) Positions (World.start db) w) : Located w :=
  hrun.invariant ⟨hplaced, fun _ _ hs => nomatch hs⟩ fun _ _ _ => step_located

/-! ## What `diverge` holds -/

def toidLedger (operationId : String) : Option Nat :=
  (parsePagingToken operationId).map fun toid => toid / 2 ^ LEDGER_SHIFT

/-- A payment of the user whose operation is of a ledger at or above the floor. -/
def InHistory (userId : String) (floor : Nat) (r : SyncedPayment) : Prop :=
  r.userId = userId ∧ ∃ ledger, toidLedger r.operationId = some ledger ∧ floor ≤ ledger

/-- The transaction of `diverge` finds its checkpoint DIVERGED, or VERIFIED as it was read. -/
def Diverges (c : PaymentSyncCheckpoint) (db : Store) : Prop :=
  ∃ row, db.checkpoint = some row ∧ row.id = c.id ∧ (row.status = .diverged ∨ row.version = c.version)

theorem diverges_some {c row : PaymentSyncCheckpoint} (hrow : db.checkpoint = some row) :
    Diverges c db ↔ row.id = c.id ∧ (row.status = .diverged ∨ row.version = c.version) := by
  constructor
  · rintro ⟨row', hsome, h⟩
    obtain rfl := some.inj (hrow.symm.trans hsome)
    exact h
  · intro h
    exact ⟨row, hrow, h⟩

/-- The row the transaction reads back is diverged. -/
theorem current_diverged (c : PaymentSyncCheckpoint) (reason : DivergenceReason) (now : Date) (db : Store) :
    (((db.put ((db.checkpoint.filter fun row => c.guards row && row.status = .verified).map
      (markDiverged reason now))).checkpoint.filter fun row => row.id = c.id).any fun row => row.status = .diverged) ↔
    Diverges c db := by
  cases hrow : db.checkpoint with
  | none => simp [Store.put, hrow, Diverges]
  | some row =>
    rw [diverges_some hrow]
    cases hguard : c.guards row && decide (row.status = .verified) with
    | true =>
      obtain ⟨hguards, -⟩ := Bool.and_eq_true_iff.mp hguard
      obtain ⟨hid, hversion⟩ := of_decide_eq_true hguards
      rw [filter_some, if_pos hguard]
      simp [Store.put, markDiverged, hid, hversion]
    | false =>
      rw [filter_some, if_neg (by simp [hguard])]
      by_cases hid : row.id = c.id
      · -- The row is diverged already, or another version is verified.
        cases hstatus : row.status with
        | diverged => simp [Store.put, hrow, hid, hstatus]
        | verified =>
          have hversion : row.version ≠ c.version := by
            intro hversion
            simp [PaymentSyncCheckpoint.guards, hid, hversion, hstatus] at hguard
          simp [Store.put, hrow, hstatus, hversion]
      · simp [Store.put, hrow, hid]

/-- A payment whose stored ledger agrees with its id is in the window `diverge` updates. -/
theorem inWindow_of_inHistory {r : SyncedPayment} (hplaced : r.Placed) {userId : String} {floor : Nat}
    (h : InHistory userId floor r) (hledger : r.ledgerSequence ≠ none) : r.inWindow userId floor := by
  obtain ⟨huser, ledger, hoperation, hfloor⟩ := h
  obtain ⟨stored, hstored⟩ := ne_none_iff_exists'.mp hledger
  have hsame := hplaced stored hstored
  cases htoid : parsePagingToken r.operationId with
  | none =>
    rw [htoid] at hsame
    cases hsame
  | some =>
    rw [htoid] at hsame
    rw [toidLedger, htoid, map_some] at hoperation
    have hledgers := (ledgerOf_eq_some hsame).1
    have hequal := some.inj hoperation
    refine decide_eq_true ⟨huser, ?_⟩
    rw [hstored]
    exact decide_eq_true (by omega)

/-- After `diverge` every payment of the window is held exactly when each one that was free
    before had its ledger stored, and the checkpoint was there to diverge. -/
theorem diverge_holds_iff (cfg : Config) (db : Store) (hplaced : ∀ r ∈ db.payments, r.Placed) {w : World}
    (hrun : Run (step cfg) Positions (World.start db) w) (c : PaymentSyncCheckpoint)
    (reason : DivergenceReason) (now : Date) :
    (∀ r ∈ (divergeTx cfg.sync c reason now w.sync.db).1.payments,
      InHistory cfg.sync.userId (floorOf cfg.sync c) r → r.held) ↔
    ∀ r ∈ w.payments, InHistory cfg.sync.userId (floorOf cfg.sync c) r → r.held = false →
      r.ledgerSequence ≠ none ∧ Diverges c w.sync.db := by
  have hlocated := run_located hplaced hrun
  have hcurrent := current_diverged c reason now w.sync.db
  unfold divergeTx
  dsimp only
  split
  · rename_i hdiverged
    have hdiverges := hcurrent.mp hdiverged
    rw [put_payments]
    constructor
    · intro hheld r hr hhistory hfree
      refine ⟨fun hnone => ?_, hdiverges⟩
      -- Without a ledger the row is not picked, and stays free.
      have hout : r.inWindow cfg.sync.userId (floorOf cfg.sync c) = false := by simp [SyncedPayment.inWindow, hnone]
      have hmem : r ∈ holdRows cfg.sync.userId (floorOf cfg.sync c) reason now w.payments :=
        mem_update_of_not hr (by simp [hout])
      exact absurd (hfree.symm.trans (hheld r hmem hhistory)) (by simp)
    · intro hstored r' hr' hhistory
      obtain ⟨r, hr, ⟨hsel, rfl⟩ | ⟨hsel, rfl⟩⟩ := mem_update_cases hr'
      · rfl
      · by_contra hfree
        have hfree : r'.held = false := by simpa using hfree
        have hwindow := inWindow_of_inHistory (hlocated.placed _ hr) hhistory (hstored _ hr hhistory hfree).1
        rw [hwindow, hfree] at hsel
        cases hsel
  · rename_i hkept
    rw [put_payments]
    constructor
    · intro hheld r hr hhistory hfree
      exact absurd (hfree.symm.trans (hheld r hr hhistory)) (by simp)
    · intro hstored r hr hhistory
      by_contra hfree
      exact hkept (hcurrent.mpr (hstored r hr hhistory (by simpa using hfree)).2)

/-! ## Traces -/

def demoWriters : Config := ⟨demoConfig, ⟨fun _ => some "GWALLET", id, id⟩⟩

/-- A first sync finds a payment of ledger 101 and takes its checkpoint there. -/
def syncedFirst : List Event := (firstSync 0 "GWALLET" "ck_1" "433791696896" 101).map .sync

def backfilled : Event := .page "usr_1" ["XLM:native"] [demoPayment "429496729600" "GWALLET" 100]

/-- The payment a backfill inserted is of the window (its floor is ledger 91), and `diverge`
    leaves it free. -/
theorem backfilled_payment_escapes :
    ∃ w, Run (step demoWriters) Positions (World.start ⟨none, []⟩) w ∧ ∃ c, Diverges c w.sync.db ∧
      ∃ r ∈ (divergeTx demoConfig c .ledgerMissing demoNow w.sync.db).1.payments,
        InHistory "usr_1" (floorOf demoConfig c) r ∧ r.held = false := by
  refine Run.exists_and (P := fun w => ∃ c ∈ w.sync.db.checkpoint,
    ∃ r ∈ (divergeTx demoConfig c .ledgerMissing demoNow w.sync.db).1.payments, r.userId = "usr_1" ∧
      toidLedger r.operationId = some 100 ∧ floorOf demoConfig c ≤ 100 ∧ r.held = false)
    (syncedFirst ++ [backfilled]) fun w _ hw => ?_
  obtain ⟨c, hc, r, hr, huser, hledger, hfloor, hfree⟩ := hw
  exact ⟨c, ⟨c, hc, rfl, .inr rfl⟩, r, hr, ⟨huser, 100, hledger, hfloor⟩, hfree⟩

/-- Once a sync has read the backfilled payment again, it is held with the other. -/
theorem diverge_holds_after_sync :
    ∃ w c, Run (step demoWriters) Positions (World.start ⟨none, []⟩) w ∧ w.payments.length = 2 ∧
      ∀ r ∈ (divergeTx demoConfig c .ledgerMissing demoNow w.sync.db).1.payments,
        InHistory "usr_1" (floorOf demoConfig c) r → r.held := by
  have hreplay : ∃ w ∈ Run.replay (step demoWriters) Positions (World.start ⟨none, []⟩)
      (backfilled :: (syncing 0 "GWALLET" ([silence, silence, answersRead [demoPayment "429496729600" "GWALLET" 100,
        demoPayment "433791696896" "GWALLET" 101]] ++ List.replicate 7 silence ++
        [answersLedger 101, answersId "ck_1"])).map .sync),
      ∃ c ∈ w.sync.db.checkpoint, w.payments.length = 2 ∧ ∀ r ∈ w.payments, r.ledgerSequence ≠ none := by
    decide +kernel
  obtain ⟨w, hw, c, hc, hlength, hledgers⟩ := hreplay
  have hrun := Run.of_replay _ hw
  refine ⟨w, c, hrun, hlength, (diverge_holds_iff demoWriters ⟨none, []⟩ (fun _ hr => nomatch hr) hrun c .ledgerMissing
    demoNow).mpr ?_⟩
  intro r hr _ _
  exact ⟨hledgers r hr, c, hc, rfl, .inr rfl⟩

/-! ## Steps that keep the column and the decision in step -/

def World.agrees (w : World) (r : SyncedPayment) (eligible : Bool) : Bool :=
  w.decisions.all fun d => d.activeFor r.id → d.eligible = eligible

def isOrphaned (r : SyncedPayment) : Bool := r.finalityHoldReason = some .orphaned

def orphans (userId : String) (coverage : Nat) (seen : List String) (r : SyncedPayment) : Bool :=
  coverage ≠ MAX_SAFE_INTEGER ∧ r.undecided userId coverage ∧ r.operationId ∉ seen

/-- The value a sync is about to write agrees with the active decision; a payment that is
    orphaned is not identified as eligible. -/
def World.syncInStep (cfg : Payments.Config) (w : World) (s : Sync) : Bool :=
  match s.stage with
  | .write _ _ _ (q :: _) =>
    w.payments.all fun r => r.operationId = q.operationId → w.agrees r (isEligible cfg s q)
  | .identify _ _ _ q _ =>
    w.payments.all fun r => r.operationId = q.operationId → w.agrees r (isEligible cfg s q) ∧
      (isEligible cfg s q → !isOrphaned r)
  | .orphan _ floor read =>
    w.payments.all fun r => orphans cfg.userId (reconciliationCoverageLedger read.payments read.stopReason floor)
      (read.payments.map (·.operationId)) r → w.agrees r false
  | _ => true

/-- An evaluation is not about to record an orphaned payment as eligible. -/
def World.taskInStep (w : World) : Task → Bool
  | .record ((payment, decision) :: _) _ =>
    w.payments.all fun r => r.id = payment.id → decision.eligible → !isOrphaned r
  | _ => true

def InStep (cfg : Config) (w : World) : Event → Prop
  | .sync (.access p _) => (w.sync.syncs p).all (w.syncInStep cfg.sync)
  | .access p _ => (w.tasks p).all w.taskInStep
  | _ => True

instance (e : Event) : Decidable (InStep cfg w e) := by
  unfold InStep
  split <;> infer_instance

/-! ## The invariant -/

structure Follows (decisions : List PaymentEligibilityDecision) (r : SyncedPayment) : Prop where
  column : ∀ d ∈ decisions, d.activeFor r.id → r.isEligible = d.eligible
  orphaned : isOrphaned r → r.isEligible = false ∧ r.held

structure Mirrored (w : World) : Prop where
  keyed : (w.payments.map (·.id)).Nodup
  /-- Decisions are about payments there are. -/
  known : ∀ d ∈ w.decisions, d.paymentId ∈ w.payments.map (·.id)
  follows : ∀ r ∈ w.payments, Follows w.decisions r

variable {w' : World} {r r' : SyncedPayment} {e : Event}

theorem agrees_iff {eligible : Bool} :
    w.agrees r eligible ↔ ∀ d ∈ w.decisions, d.activeFor r.id → d.eligible = eligible := by
  simp only [World.agrees, List.all_eq_true, decide_eq_true_eq]

/-- A payment without a decision, that is not orphaned. -/
theorem Mirrored.fresh (h : Mirrored w) (hid : r.id ∉ w.payments.map (·.id))
    (hreason : r.finalityHoldReason = none) : Follows w.decisions r where
  column := by
    intro d hd hactive
    have hpayment := (of_decide_eq_true hactive).1
    exact absurd (hpayment ▸ h.known d hd) hid
  orphaned := by
    intro horphaned
    simp [isOrphaned, hreason] at horphaned

/-- A row that is written anew: its hold is lifted. -/
theorem follows_written (hid : r'.id = r.id) (hagrees : w.agrees r r'.isEligible)
    (hreason : r'.finalityHoldReason = none) : Follows w.decisions r' where
  column := by
    intro d hd hactive
    rw [hid] at hactive
    exact (agrees_iff.mp hagrees d hd hactive).symm
  orphaned := by
    intro horphaned
    simp [isOrphaned, hreason] at horphaned

theorem Mirrored.sync {a : Answer} {s : Sync} {db' : Store} {rows : List SyncedPayment}
    (h : Mirrored w) (hstep : w.syncInStep cfg.sync s) (hchange : RowsChange cfg.sync a db' s w.payments rows)
    (hfresh : ∀ r' ∈ rows, (∀ r ∈ w.payments, r.operationId ≠ r'.operationId) → r'.id ∉ w.payments.map (·.id)) :
    ∀ r ∈ rows, Follows w.decisions r := by
  intro r' hr'
  cases hchange with
  | keep => exact h.follows r' hr'
  | hold =>
    obtain ⟨r, hr, ⟨-, rfl⟩ | ⟨-, rfl⟩⟩ := mem_update_cases hr'
    · exact ⟨(h.follows r hr).column, fun horphaned => by simp [isOrphaned] at horphaned⟩
    · exact h.follows _ hr
  | write plan read replaced p rest hstage =>
    simp only [World.syncInStep, hstage, List.all_eq_true, decide_eq_true_eq] at hstep
    rcases mem_upsert hr' with ⟨r, hr, hop, rfl⟩ | ⟨hr, -⟩ | ⟨rfl, hother⟩
    · have hagrees := hstep r hr hop
      split
      · exact follows_written rfl hagrees rfl
      · exact follows_written rfl hagrees rfl
    · exact h.follows r' hr
    · exact h.fresh (hfresh _ hr' hother) rfl
  | identify plan read replaced p rest hstage =>
    simp only [World.syncInStep, hstage, List.all_eq_true, decide_eq_true_eq] at hstep
    rcases mem_upsert hr' with ⟨r, hr, hop, rfl⟩ | ⟨hr, -⟩ | ⟨rfl, hother⟩
    · obtain ⟨hagrees, hfree⟩ := hstep r hr hop
      refine ⟨fun d hd hactive => (agrees_iff.mp hagrees d hd hactive).symm, fun horphaned => ?_⟩
      have horphaned : isOrphaned r := horphaned
      refine ⟨?_, ((h.follows r hr).orphaned horphaned).2⟩
      show isEligible cfg.sync s p = false
      by_contra heligible
      have hnot := hfree (by simpa using heligible)
      rw [horphaned] at hnot
      cases hnot
    · exact h.follows r' hr
    · exact h.fresh (hfresh _ hr' hother) rfl
  | orphan c floor read hstage =>
    simp only [World.syncInStep, hstage, List.all_eq_true, decide_eq_true_eq] at hstep
    unfold orphanRows at hr'
    split at hr'
    · exact h.follows r' hr'
    · rename_i hcoverage
      obtain ⟨r, hr, ⟨hsel, rfl⟩ | ⟨-, rfl⟩⟩ := mem_update_cases hr'
      · obtain ⟨hundecided, hunseen⟩ := Bool.and_eq_true_iff.mp hsel
        have hagrees := hstep r hr (decide_eq_true ⟨hcoverage, hundecided, of_decide_eq_true hunseen⟩)
        have hheld := undecided_held hundecided
        exact ⟨fun d hd hactive => (agrees_iff.mp hagrees d hd hactive).symm, fun _ => ⟨rfl, hheld⟩⟩
      · exact h.follows _ hr

/-- After `record`, the one active decision about the payment is the new one. -/
theorem Mirrored.record (h : Mirrored w) {payment : EvaluablePayment} {decision : EligibilityDecision}
    {rest : List (EvaluablePayment × EligibilityDecision)} {trigger : DecisionTrigger}
    (hstep : w.taskInStep (.record ((payment, decision) :: rest) trigger)) (now : Date) :
    ∀ r ∈ (w.recorded payment decision trigger now).payments,
      Follows (w.recorded payment decision trigger now).decisions r := by
  simp only [World.taskInStep, List.all_eq_true, decide_eq_true_eq] at hstep
  -- A decision that is active was active before, about another payment, or is the new one.
  have hactive : ∀ d ∈ (w.recorded payment decision trigger now).decisions, d.isActive →
      (d ∈ w.decisions ∧ d.paymentId ≠ payment.id) ∨ (d.paymentId = payment.id ∧ d.eligible = decision.eligible) := by
    intro d hd hisActive
    rcases mem_append_row.mp hd with hd | rfl
    · obtain ⟨d', hd', ⟨-, rfl⟩ | ⟨hother, rfl⟩⟩ := mem_update_cases hd
      · cases hisActive
      · refine .inl ⟨hd', fun hpayment => ?_⟩
        exact of_decide_eq_false hother ⟨hpayment, hisActive⟩
    · exact .inr ⟨rfl, rfl⟩
  intro r' hr'
  obtain ⟨r, hr, ⟨hsel, rfl⟩ | ⟨hsel, rfl⟩⟩ := mem_update_cases hr'
  · have hid := of_decide_eq_true hsel
    refine ⟨fun d hd hd' => ?_, fun horphaned => ?_⟩
    · obtain ⟨hpayment, hisActive⟩ := of_decide_eq_true hd'
      rcases hactive d hd hisActive with ⟨-, hother⟩ | ⟨-, heligible⟩
      · exact absurd (hpayment.trans hid) hother
      · exact heligible.symm
    · have horphaned : isOrphaned r := horphaned
      refine ⟨?_, ((h.follows r hr).orphaned horphaned).2⟩
      show decision.eligible = false
      by_contra heligible
      have hnot := hstep r hr hid (by simpa using heligible)
      rw [horphaned] at hnot
      cases hnot
  · have hid := of_decide_eq_false hsel
    refine ⟨fun d hd hd' => ?_, (h.follows _ hr).orphaned⟩
    obtain ⟨hpayment, hisActive⟩ := of_decide_eq_true hd'
    rcases hactive d hd hisActive with ⟨hold, -⟩ | ⟨hsame, -⟩
    · exact (h.follows _ hr).column d hold hd'
    · exact absurd (hpayment.symm.trans hsame) hid

theorem step_mirrored (h : Mirrored w) (hinStep : InStep cfg w e) (hstep : step cfg w e = some w') : Mirrored w' := by
  have hkeyed := step_keyed h.keyed hstep
  have hids : ∀ id ∈ w.payments.map (·.id), id ∈ w'.payments.map (·.id) := fun _ hid => step_ids hstep hid
  have hfresh := fun r' (hr' : r' ∈ w'.payments) => step_fresh h.keyed hstep hr'
  cases step_effect hstep with
  | sync e' he s hs =>
    subst he
    refine ⟨hkeyed, fun d hd => hids _ (h.known d hd), ?_⟩
    rcases sync_rows hs with hsame | ⟨p, a, sync, rfl, hsync, hchange⟩
    · intro r hr
      have hmem : r ∈ s.db.payments := hr
      rw [hsame] at hmem
      exact h.follows r hmem
    · simp only [InStep, hsync, all_some] at hinStep
      exact h.sync hinStep hchange hfresh
  | page userId eligibleAssets payments rows hrows hnodup =>
    refine ⟨hkeyed, fun d hd => hids _ (h.known d hd), fun r hr => ?_⟩
    subst hrows
    rcases page_rows hnodup hr with hold | ⟨hnew, hid⟩
    · exact h.follows r hold
    · obtain ⟨q, -, rfl⟩ := mem_map.mp hnew
      exact h.fresh hid rfl
  | task => exact { h with }
  | reclassify =>
    refine ⟨hkeyed, fun d hd => hids _ (h.known d hd), forall_update h.follows fun r hr _ => ?_⟩
    exact ⟨(h.follows r hr).column, (h.follows r hr).orphaned⟩
  | record p a he payment decision rest trigger hcall hrow =>
    subst he
    simp only [InStep, hcall, all_some] at hinStep
    have hknown := fun d hd => hids _ (h.known d hd)
    refine ⟨hkeyed, forall_append_row (forall_update hknown fun d hd _ => hknown d hd) ?_, h.record hinStep a.now⟩
    · obtain ⟨r, hr, hid⟩ := hrow
      exact hids _ (mem_map.mpr ⟨r, hr, hid⟩)

/-- The event is a sync's write of the operation, which it has read from Horizon. -/
def Rereads (w : World) (e : Event) (operationId : String) : Prop :=
  ∃ p a s plan read replaced q rest, e = .sync (.access p a) ∧ w.sync.syncs p = some s ∧
    s.stage = .write plan read replaced (q :: rest) ∧ q.operationId = operationId

/-- An orphaned payment stays orphaned until a sync writes it. -/
theorem orphaned_until_reread (h : Mirrored w) (hstep : step cfg w e = some w')
    (hr : r ∈ w.payments) (horphaned : isOrphaned r) (hr' : r' ∈ w'.payments)
    (hid : r'.id = r.id) : isOrphaned r' ∨ Rereads w e r.operationId := by
  rcases step_rows h.keyed hstep hr' with ⟨old, hold, hsame, hrow⟩ | ⟨-, hnew⟩
  · obtain rfl := eq_of_key h.keyed hold hr (hsame.symm.trans hid)
    cases hrow with
    | sync p a s he hs db' _ heffect =>
      cases heffect with
      | same | identify => exact .inl horphaned
      | hold c row reason hstage hrow hid hstatus hwindow hfree =>
        have hheld := ((h.follows _ hr).orphaned horphaned).2
        exact absurd (hfree.symm.trans hheld) (by simp)
      | confirm plan read replaced q rest hstage hop | rebuild plan read replaced q rest hstage hop =>
        exact .inr ⟨p, a, s, plan, read, replaced, q, rest, he, hs, hstage, hop.symm⟩
      | orphan => exact .inl rfl
    | _ => exact .inl horphaned
  · exact absurd (List.mem_map.mpr ⟨r, hr, hid.symm⟩) hnew

/-- In every run whose steps keep in step, the column is the active decision's outcome, and a
    payment that is orphaned becomes eligible only when a sync writes it again. -/
theorem column_follows_decision (cfg : Config) (db : Store) (hkeyed : (db.payments.map (·.id)).Nodup)
    (hfree : ∀ r ∈ db.payments, isOrphaned r = false) {w : World}
    (hrun : Run (step cfg) (InStep cfg) (World.start db) w) :
    (∀ r ∈ w.payments, ∀ d ∈ w.decisions, d.activeFor r.id → r.isEligible = d.eligible) ∧
      (∀ r ∈ w.payments, isOrphaned r → r.isEligible = false) ∧
      ∀ e w', InStep cfg w e → step cfg w e = some w' → ∀ r ∈ w.payments, isOrphaned r →
        ∀ r' ∈ w'.payments, r'.id = r.id → r'.isEligible → Rereads w e r.operationId := by
  have hstart : Mirrored (World.start db) :=
    ⟨hkeyed, (fun _ hd => nomatch hd), fun r hr => ⟨(fun _ hd => nomatch hd), fun horphaned => by
      rw [hfree r hr] at horphaned
      cases horphaned⟩⟩
  have h := hrun.invariant hstart fun _ _ _ => step_mirrored
  refine ⟨fun r hr => (h.follows r hr).column, fun r hr horphaned => ((h.follows r hr).orphaned horphaned).1, ?_⟩
  intro e w' hinStep hstep r hr horphaned r' hr' hid heligible
  have h' := step_mirrored h hinStep hstep
  rcases orphaned_until_reread h hstep hr horphaned hr' hid with hstill | hreread
  · exact absurd (heligible.symm.trans ((h'.follows r' hr').orphaned hstill).1) (by simp)
  · exact hreread

/-! ## Traces -/

/-- The first sync, with lumens in its registry. -/
def eligibleSync : List Event :=
  (syncing 0 "GWALLET" ([silence, { silence with supported := ["XLM"] },
    answersRead [demoPayment "429496729600" "GWALLET" 100]] ++ List.replicate 5 silence ++
    [answersLedger 100, answersId "ck_1"])).map .sync

def taskAnswer : TaskAnswer := ⟨demoNow, [lumensOn "testnet"], [], true⟩

def explained : List Event :=
  .call 0 (.select (some "usr_1") [""] .policyMigration) :: List.replicate 3 (.access 0 taskAnswer)

/-- The owner classifies the payment as income, and it is evaluated again. -/
def reclassified : List Event :=
  .call 0 (.classify "usr_1" "" .income "USER_RECLASSIFICATION") :: List.replicate 5 (.access 0 taskAnswer)

/-- A reconciliation orphans a payment that was decided eligible: the decision stays. -/
theorem orphaned_decision_stays : ∃ w, Run (step demoWriters) anyStep (World.start ⟨none, []⟩) w ∧
      ∃ r ∈ w.payments, ∃ d ∈ w.decisions, d.activeFor r.id ∧ d.eligible ∧ r.isEligible = false :=
  Run.exists_of_replay (eligibleSync ++ explained ++ (losingSync 1 "GWALLET").map .sync)

/-- A payment that a reconciliation orphaned is classified, and eligible again. -/
theorem orphaned_payment_eligible_again : ∃ w, Run (step demoWriters) anyStep (World.start ⟨none, []⟩) w ∧
      ∃ r ∈ w.payments, isOrphaned r ∧ r.isEligible :=
  Run.exists_of_replay (eligibleSync ++ (losingSync 1 "GWALLET").map .sync ++ reclassified)

/-- A payment is decided, and the next sync stores another one. -/
theorem column_follows_decision_synced : ∃ w, Run (step demoWriters) (InStep demoWriters) (World.start ⟨none, []⟩) w ∧
      (∃ r ∈ w.payments, ∃ d ∈ w.decisions, d.activeFor r.id ∧ d.eligible) ∧
      ∀ r ∈ w.payments, ∀ d ∈ w.decisions, d.activeFor r.id → r.isEligible = d.eligible :=
  Run.exists_and
    (eligibleSync ++ explained ++ (syncing 1 "GWALLET" [silence, { answersLedger 100 with
        operation := some ⟨"429496729600", ledgerStart 100, "tx_429496729600"⟩ }, { silence with supported := ["XLM"] },
        answersRead [demoPayment "433791696896" "GWALLET" 101], silence, answersId "payment-2", silence]).map .sync)
    fun _ hrun hdecided =>
      ⟨hdecided, (column_follows_decision demoWriters ⟨none, []⟩ nodup_nil (fun _ hr => nomatch hr) hrun).1⟩

end EarnProof.Payments.Writers
