/-
  EarnProof.Payments.Holds — what lifts the hold a divergence puts on payments, and
  what a sync that reports a divergence leaves behind.

  A write of `writePayments` lifts the hold whatever plan it is made under: the version
  guard protects the checkpoint row and not the payments. A sync that planned before a
  divergence was recorded can so release what the divergence has just held
  (`stale_write_releases`).

  Proved: where no other sync is between loading the checkpoint and its last payment
  write when a divergence is recorded (`Quiet`), a payment of the window is released,
  while the checkpoint is diverged, only by the write of a reconciliation read made after
  the divergence (`released_by_reconciliation`). And a lone sync that reports `diverged`
  leaves a diverged checkpoint with every payment of the window held exactly when it did
  not find the checkpoint diverged already and its read out of order with a payment
  released (`diverged_enforced_iff`).
-/
import EarnProof.Payments.Checkpoints

namespace EarnProof.Payments

open Lib Lib.Table Lib.Calendar Database Stellar

/-! ## Syncs with writes to come -/

/-- The plan a sync may still write payments under. -/
def Stage.plan? : Stage → Option SyncPlan
  | .assets plan => some plan
  | .read plan => some plan
  | .lookup plan _ => some plan
  | .write plan _ _ _ => some plan
  | .identify plan _ _ _ _ => some plan
  | _ => none

/-- Between loading the checkpoint and the last payment write. -/
def Stage.pending : Stage → Bool
  | .prove _ => true
  | .diverge _ _ => true
  | stage => stage.plan?.isSome

def Stage.hasRead : Stage → Bool
  | .lookup _ _ => true
  | .write _ _ _ _ => true
  | .identify _ _ _ _ _ => true
  | _ => false

variable (w : World)

@[simp] theorem plan?_planned (s : Sync) (plan : SyncPlan) : (s.planned plan).stage.plan? = some plan :=
  planned_cases (P := fun stage => stage.plan? = some plan) rfl rfl

@[simp] theorem hasRead_planned (s : Sync) (plan : SyncPlan) : (s.planned plan).stage.hasRead = false :=
  planned_cases (P := fun stage => stage.hasRead = false) rfl rfl

def Records (p : Nat) : Prop :=
  ∃ s c reason row, w.syncs p = some s ∧ s.stage = .diverge c reason ∧ w.db.checkpoint = some row ∧
    c.guards row ∧ row.status = .verified

/-- A divergence is recorded only while no other sync is between loading the checkpoint
    and its last payment write. -/
def Quiet : Event → Prop
  | .access p _ => Records w p → ∀ q s, q ≠ p → w.syncs q = some s → s.stage.pending = false
  | _ => True

/-- A sync that has yet to write reconciles, and from a read since the last divergence. -/
def Reconciles (p : Nat) (stage : Stage) : Prop :=
  (∃ c floor, stage.plan? = some (.reconcile c floor)) ∧ (stage.hasRead → w.readAt p = w.divergences)

/-- While the checkpoint is diverged, every sync with writes to come reconciles. -/
def Confirming : Prop :=
  ∀ c, w.db.checkpoint = some c → c.status = .diverged →
    ∀ p s, w.syncs p = some s → s.stage.pending → Reconciles w p s.stage

/-! ## One access -/

variable {a : Answer} {w : World} {c : PaymentSyncCheckpoint} {cfg : Config} {db : Store} {s : Sync}

/-- An access that ends with a diverged checkpoint began with one, or records it. -/
theorem Change.diverged {stage : Stage} {before wrote : Option PaymentSyncCheckpoint}
    {after : PaymentSyncCheckpoint} (h : Change a stage before wrote (some after)) (hafter : after.status = .diverged) :
    (∃ c, before = some c ∧ c.status = .diverged) ∨
      ∃ c reason row, stage = .diverge c reason ∧ before = some row ∧ c.guards row ∧ row.status = .verified ∧
        after = markDiverged reason a.now row := by
  generalize heq : some after = stored at h
  cases h with
  | keep => exact .inl ⟨after, heq.symm, hafter⟩
  | diverge c row reason hstage hrow hguard hstatus =>
    exact .inr ⟨c, reason, row, hstage, hrow, hguard, hstatus, Option.some.inj heq⟩
  | refresh c row _ hrow | cursor c row k _ hrow =>
    cases heq
    exact .inl ⟨row, hrow, hafter⟩
  | remove => cases heq
  | _ =>
    cases heq
    cases hafter

/-- Only a recorded divergence counts. -/
theorem divergences_put (cfg : Config) (p : Nat) (s : Sync) (a : Answer)
    (hrow : w.db.checkpoint = some c) (hstatus : c.status = .diverged) :
    (w.put p s (s.access cfg a w.db)).divergences = w.divergences := by
  have hchange := access_change cfg a w.db s
  unfold World.put
  generalize s.access cfg a w.db = x at hchange
  cases hstage : s.stage with
  | diverge =>
    cases hw : x.wrote with
    | none => rfl
    | some =>
      rw [hw, hstage] at hchange
      generalize x.db.checkpoint = after at hchange
      cases hchange with
      | diverge _ row _ _ hrow' _ hverified =>
        obtain rfl := Option.some.inj (hrow.symm.trans hrow')
        rw [hstatus] at hverified
        cases hverified
      | establish _ h | refresh _ _ h | cursor _ _ _ h | advance _ _ _ h | complete _ _ _ h => cases h
  | _ => rfl

variable {db' : Store} {row : PaymentSyncCheckpoint} {answers : Nat → Answer} {account : String} {m n : Nat}
  {result : FinalityOutcome}

/-- Where a reconciling sync goes on while the checkpoint stays diverged. -/
theorem Next.reconciles {t : Sync} (h : Next cfg a db db' s t)
    (hrow : db'.checkpoint = some row) (hstatus : row.status = .diverged)
    (hs : s.stage.pending → ∃ c floor, s.stage.plan? = some (.reconcile c floor))
    (ht : t.stage.pending) :
    (∃ c floor, t.stage.plan? = some (.reconcile c floor)) ∧
      (t.stage.hasRead → s.stage.isRead ∨ (s.stage.hasRead ∧ s.stage.pending)) := by
  cases h with
  | initial _ hgone =>
    obtain ⟨c, reason, hstage, -⟩ := hgone row hrow
    obtain ⟨_, _, hplan⟩ := hs (by rw [hstage]; rfl)
    rw [hstage] at hplan
    cases hplan
  | reconcile c => exact ⟨⟨c, _, plan?_planned s _⟩, fun hr => by rw [hasRead_planned] at hr; cases hr⟩
  | prove c _ hrow' hverified =>
    obtain rfl := Option.some.inj (hrow.symm.trans hrow')
    rw [hstatus] at hverified
    cases hverified
  | resume c hstage | refute c reason hstage | diverge c read reason hstage =>
    obtain ⟨_, _, hplan⟩ := hs (by rw [hstage]; rfl)
    rw [hstage] at hplan
    cases hplan
  | assets plan hstage =>
    rw [hstage] at hs
    exact ⟨hs rfl, nofun⟩
  | read plan hstage =>
    rw [hstage] at hs
    exact ⟨hs rfl, fun _ => .inl (by rw [hstage]; rfl)⟩
  | write plan read hstage _ | identify plan read replaced p rest hstage
  | written plan read replaced p rest hstage =>
    rw [hstage] at hs
    exact ⟨hs rfl, fun _ => .inr (by rw [hstage]; exact ⟨rfl, rfl⟩)⟩
  | settled plan read =>
    have hnot : (settleStage plan read).pending = false :=
      settleStage_cases (P := fun t => t.pending = false) (fun _ _ _ => rfl) rfl (fun _ => rfl) (fun _ _ => rfl)
        fun _ _ _ _ => rfl
    rw [show (s.at (settleStage plan read)).stage.pending = false from hnot] at ht
    cases ht
  | _ => cases ht

/-! ## Every run -/

theorem Confirming.access (h : Confirming w) {p : Nat}
    (hs : w.syncs p = some s) (hquiet : Quiet w (.access p a)) : Confirming (w.put p s (s.access cfg a w.db)) := by
  have hchange := access_change cfg a w.db s
  have hnext := access_next cfg a w.db s
  intro row hrow hstatus q t ht hpending
  replace hrow : (s.access cfg a w.db).db.checkpoint = some row := hrow
  rw [hrow] at hchange
  rcases hchange.diverged hstatus with ⟨c, hc, hdiverged⟩ | ⟨c, reason, old, hstage, hold, hguard, hverified, rfl⟩
  · -- It was diverged before: nothing is counted, and the sync that moved still reconciles.
    have hcount := divergences_put cfg p s a hc hdiverged
    have hreadAt : ∀ q', s.stage.isRead = false ∨ q' ≠ p →
        (w.put p s (s.access cfg a w.db)).readAt q' = w.readAt q' := by
      intro q' hq'
      show (if s.stage.isRead then Function.update w.readAt p w.divergences else w.readAt) q' = _
      rcases hq' with hno | hne
      · rw [hno]; rfl
      · split
        · exact Function.update_of_ne hne _ _
        · rfl
    rcases update_eq_some ht with ⟨rfl, hx⟩ | ⟨hne, hx⟩
    · cases hx
      have hbefore := h c hc hdiverged q s hs
      obtain ⟨hplan, hread⟩ := hnext.reconciles hrow hstatus (fun hp => (hbefore hp).1) hpending
      refine ⟨hplan, fun hr => ?_⟩
      rw [hcount]
      cases hisRead : s.stage.isRead with
      | true =>
        show (if s.stage.isRead then Function.update w.readAt q w.divergences else w.readAt) q = _
        rw [hisRead, if_pos rfl, Function.update_self]
      | false =>
        rw [hreadAt q (.inl hisRead)]
        rcases hread hr with hyes | ⟨hhas, hp⟩
        · rw [hisRead] at hyes; cases hyes
        · exact (hbefore hp).2 hhas
    · obtain ⟨hplan, hread⟩ := h c hc hdiverged q t hx hpending
      refine ⟨hplan, fun hr => ?_⟩
      rw [hcount, hreadAt q (.inr hne)]
      exact hread hr
  · -- It is recorded now: no other sync has writes to come.
    rcases update_eq_some ht with ⟨rfl, hx⟩ | ⟨hne, hx⟩
    · cases hx
      have hid : (markDiverged reason a.now old).id = c.id := (of_decide_eq_true hguard).1
      rcases access_diverge cfg a w.db hstage with ⟨-, hgone⟩ | ⟨found, -, -, ⟨-, hnext⟩ | ⟨-, hnext⟩⟩
      · exact absurd hid (hgone _ hrow)
      · rw [hnext] at hpending
        cases hpending
      · rw [hnext]
        exact ⟨⟨found, _, plan?_planned _ _⟩, fun hr => by rw [hasRead_planned] at hr; cases hr⟩
    · have hnone := hquiet ⟨s, c, reason, old, hs, hstage, hold, hguard, hverified⟩ q t hne hx
      rw [hnone] at hpending
      cases hpending

theorem step_confirming (cfg : Config) (w : World) (e : Event) (w' : World) (h : Confirming w) (hquiet : Quiet w e)
    (hstep : step cfg w e = some w') : Confirming w' := by
  rcases step_cases hstep with ⟨p, account, rfl, -, rfl⟩ | ⟨p, a, s, rfl, hs, -, rfl⟩ | ⟨p, rfl, rfl⟩
  · intro c hc hstatus
    refine forall_moved (fun t hx hpending => ?_) (h c hc hstatus)
    cases hx
    cases hpending
  · exact h.access hs hquiet
  · exact fun c hc hstatus => forall_gone (h c hc hstatus)

theorem operationIds_of_run {db : Store} {ok : World → Event → Prop} (hids : (db.payments.map (·.operationId)).Nodup)
    (hrun : Run (step cfg) ok (World.start db) w) : (w.db.payments.map (·.operationId)).Nodup := by
  refine hrun.invariant (I := fun w : World => (w.db.payments.map (·.operationId)).Nodup) hids
    fun w e w' h _ hstep => ?_
  rcases step_cases hstep with ⟨p, account, -, -, rfl⟩ | ⟨p, a, s, -, -, -, rfl⟩ | ⟨p, -, rfl⟩
  · exact h
  · exact (access_payments cfg a w.db s).nodup h
  · exact h

/-- Only the write of a payment lifts its hold. -/
theorem RowEffect.of_released {r r' : SyncedPayment}
    (h : RowEffect cfg a db' s r r') (hheld : r.held) (hfree : r'.held = false) :
    ∃ plan read replaced p rest, s.stage = .write plan read replaced (p :: rest) := by
  cases h with
  | same => rw [hheld] at hfree; cases hfree
  | hold => cases hfree
  | confirm plan read replaced p rest hstage | rebuild plan read replaced p rest hstage =>
    exact ⟨plan, read, replaced, p, rest, hstage⟩
  | _ => exact absurd (hfree.symm.trans hheld) (by decide)

/-- In a run in which divergences are recorded quietly, a payment, of the window or not,
    is released while the checkpoint is diverged only by the write of a reconciliation
    read made since the divergence was recorded. -/
theorem released_by_reconciliation (cfg : Config) (db : Store) (w : World) (e : Event) (w' : World)
    (hids : (db.payments.map (·.operationId)).Nodup) (hrun : Run (step cfg) Quiet (World.start db) w)
    (hstep : step cfg w e = some w') (c : PaymentSyncCheckpoint) (hrow : w.db.checkpoint = some c)
    (hstatus : c.status = .diverged) (r r' : SyncedPayment) (hr : r ∈ w.db.payments) (hheld : r.held)
    (hr' : r' ∈ w'.db.payments) (hop : r'.operationId = r.operationId) (hfree : r'.held = false) :
    ∃ p a s c' floor read replaced q rest, e = .access p a ∧ w.syncs p = some s ∧
      s.stage = .write (.reconcile c' floor) read replaced (q :: rest) ∧ w.readAt p = w.divergences := by
  have hconfirming : Confirming w := hrun.invariant (fun _ _ _ p s hs => nomatch hs) (step_confirming cfg)
  have hunique := operationIds_of_run hids hrun
  rcases step_cases hstep with ⟨p, account, -, -, rfl⟩ | ⟨p, a, s, rfl, hs, -, rfl⟩ | ⟨p, -, rfl⟩
  · obtain rfl := eq_of_key hunique hr' hr hop
    rw [hheld] at hfree
    cases hfree
  · rcases (access_payments cfg a w.db s).mem hr' with ⟨r₀, hr₀, hop₀, heffect⟩ | ⟨-, hnew⟩
    · obtain rfl := eq_of_key hunique hr₀ hr (hop₀.trans hop)
      obtain ⟨plan, read, replaced, q, rest, hstage⟩ := heffect.of_released hheld hfree
      obtain ⟨⟨c', floor, hplan⟩, hread⟩ := hconfirming c hrow hstatus p s hs (by rw [hstage]; rfl)
      rw [hstage] at hplan hread
      cases hplan
      exact ⟨p, a, s, c', floor, read, replaced, q, rest, rfl, hs, hstage, hread rfl⟩
    · exact absurd hop.symm (hnew r hr)
  · obtain rfl := eq_of_key hunique hr' hr hop
    rw [hheld] at hfree
    cases hfree

/-! ## A stale write, and a quiet run -/

/-- The hold of an operation's payment, with the status of the checkpoint. -/
def holdOf (db : Store) (operationId : String) : Option CheckpointStatus × Option Bool :=
  (db.checkpoint.map (·.status), (db.payments.find? fun r => r.operationId = operationId).map SyncedPayment.held)

/-- Load, refute, diverge: the sync that no longer finds the checkpoint's ledger. -/
def refutingSync (p : Nat) (account : String) : List Event := syncing p account (List.replicate 3 silence)

/-- Sync 0 has read the payment and planned without a checkpoint when sync 1 creates one
    and sync 2 finds its ledger gone. Its write then releases the payment sync 2 has held. -/
theorem stale_write_releases : ∃ w w', Run (step demoConfig) anyStep (World.start ⟨none, []⟩) w ∧
      step demoConfig w (.access 0 silence) = some w' ∧ (w.syncs 0).map (·.stage.plan?) = some (some .initial) ∧
      w.db.checkpoint.map (floorOf demoConfig) = some 90 ∧
      w.db.payments.map (fun r => (r.operationId, r.ledgerSequence)) = [("op_1", some 100)] ∧
      holdOf w.db "op_1" = (some .diverged, some true) ∧ holdOf w'.db "op_1" = (some .diverged, some false) :=
  Run.exists_step_of_replay ((firstSync 0 "GWALLET" "ck_1" "op_1" 100).take 5 ++
    firstSync 1 "GWALLET" "ck_2" "op_1" 100 ++ refutingSync 2 "GWALLET") (.access 0 silence)

def Event.slot : Event → Nat
  | .start p _ => p
  | .access p _ => p
  | .crash p => p

def alone (_ : World) (e : Event) : Prop := e.slot = 0
  deriving Decidable

theorem step_idle {e : Event} {w' : World} (hidle : ∀ q, q ≠ 0 → w.syncs q = none)
    (halone : e.slot = 0) (hstep : step cfg w e = some w') : ∀ q, q ≠ 0 → w'.syncs q = none := by
  intro q hq
  rcases step_cases hstep with ⟨p, account, rfl, -, rfl⟩ | ⟨p, a, s, rfl, -, -, rfl⟩ | ⟨p, rfl, rfl⟩ <;>
    obtain rfl : p = 0 := halone <;> exact (Function.update_of_ne hq _ _).trans (hidle q hq)

/-- Where syncs run one at a time, divergences are recorded quietly. -/
theorem run_quiet_of_alone (h : Run (step cfg) alone (World.start db) w) :
    Run (step cfg) Quiet (World.start db) w := by
  refine (h.mono_invariant (I := fun w => ∀ q, q ≠ 0 → w.syncs q = none) (fun _ _ => rfl)
    (fun w e w' hidle halone hstep => step_idle hidle halone hstep) fun w e hidle halone => ?_).2
  cases e with
  | start | crash => exact trivial
  | access p =>
    obtain rfl : p = 0 := halone
    intro _ q s hq hs
    rw [hidle q hq] at hs
    cases hs

/-- A divergence and its reconciliation, one sync after the other: the read that finds the
    payment again releases it. -/
def healed : List Event :=
  firstSync 0 "GWALLET" "ck_1" "op_1" 100 ++ [.crash 0] ++ syncing 0 "GWALLET"
    [silence, silence, silence, silence, answersRead [demoPayment "op_1" "GWALLET" 100], silence]

theorem released_after_divergence :
    ∃ w w', Run (step demoConfig) Quiet (World.start ⟨none, []⟩) w ∧ step demoConfig w (.access 0 silence) = some w' ∧
      holdOf w.db "op_1" = (some .diverged, some true) ∧ holdOf w'.db "op_1" = (some .diverged, some false) ∧
      ∃ p a s c' floor read replaced q rest, Event.access 0 silence = .access p a ∧ w.syncs p = some s ∧
        s.stage = .write (.reconcile c' floor) read replaced (q :: rest) ∧ w.readAt p = w.divergences := by
  obtain ⟨w, w', hw, hw', hbefore, hafter, c, hc, hdiverged, r, hr, hheld, r', hr', hop, hfree⟩ : ∃ w w',
      Run (step demoConfig) alone (World.start ⟨none, []⟩) w ∧ step demoConfig w (.access 0 silence) = some w' ∧
        holdOf w.db "op_1" = (some .diverged, some true) ∧ holdOf w'.db "op_1" = (some .diverged, some false) ∧
          ∃ c ∈ w.db.checkpoint, c.status = .diverged ∧ ∃ r ∈ w.db.payments, r.held ∧
            ∃ r' ∈ w'.db.payments, r'.operationId = r.operationId ∧ r'.held = false :=
    Run.exists_step_of_replay healed _
  have hrun := run_quiet_of_alone hw
  exact ⟨w, w', hrun, hw', hbefore, hafter, released_by_reconciliation demoConfig ⟨none, []⟩ w (.access 0 silence) w'
    List.nodup_nil hrun hw' c hc hdiverged r r' hr hheld hr' hop hfree⟩

/-! ## A sync that reports a divergence -/

/-- A sync with no other beside it, after `n` accesses: `answers` is what the outside
    world answers each of them. -/
def solo (cfg : Config) (answers : Nat → Answer) (db : Store) (account : String) : Nat → Store × Sync
  | 0 => (db, newSync account)
  | n + 1 =>
    let x := (solo cfg answers db account n).2.access cfg (answers n) (solo cfg answers db account n).1
    (x.db, x.next)

section

variable (cfg : Config) (db : Store)

def Enforced : Prop :=
  ∃ c, db.checkpoint = some c ∧ c.status = .diverged ∧
    ∀ r ∈ db.payments, r.inWindow cfg.userId (floorOf cfg c) → r.held

def Proving (c : PaymentSyncCheckpoint) : Prop := db.checkpoint = some c ∧ c.status = .verified

/-- What a plan rests on before its read: a sync that resumes has made none, and one that
    reconciles has recorded the divergence. -/
def Founded (reads : Nat) : SyncPlan → Prop
  | .initial => True
  | .resume c => Proving db c ∧ reads = 0
  | .reconcile _ _ => Enforced cfg db

/-- And before the read is judged. -/
def Judged (reads : Nat) (read : HorizonReadResult) : SyncPlan → Prop
  | .initial => True
  | .resume c => Proving db c ∧ reads = 1
  | .reconcile _ _ => isReadOrdered read.payments .desc none = false → Enforced cfg db

/-- What holds between the accesses of a lone sync whose reports are enforced. -/
def Sound (s : Sync) : Prop :=
  match s.stage with
  | .load => (∀ c, db.checkpoint = some c → c.status = .verified) ∧ s.reads = 0
  | .prove c => Proving db c ∧ s.reads = 0
  | .diverge c _ => Proving db c
  | .assets plan => Founded cfg db s.reads plan
  | .read plan => Founded cfg db s.reads plan
  | .lookup plan read => Judged cfg db s.reads read plan
  | .report status _ => status = .diverged → Enforced cfg db
  | .done result => result.status = .diverged → Enforced cfg db
  | _ => True

end

theorem Sound.planned {plan : SyncPlan} (h : Founded cfg db s.reads plan) : Sound cfg db (s.planned plan) := by
  unfold Sync.planned Sync.at
  split <;> exact h

theorem Sound.lost (cfg : Config) (db : Store) (s : Sync) (target : Target) : Sound cfg db (s.at target.lost) := by
  cases target <;> exact nofun

theorem Sound.settled (cfg : Config) (db : Store) (s : Sync) (plan : SyncPlan) (read : HorizonReadResult) :
    Sound cfg db (s.at (settleStage plan read)) :=
  settleStage_cases (P := fun stage => Sound cfg db (s.at stage)) (fun _ _ _ => trivial) nofun
    (fun _ => trivial) (fun _ _ => trivial) fun _ _ _ _ => trivial

/-- `diverge` on the row it read enforces the divergence, and returns the diverged row. -/
theorem divergeTx_enforces (cfg : Config) (h : Proving db c) (reason : DivergenceReason) (now : Date) :
    (divergeTx cfg c reason now db).2.2 = some (markDiverged reason now c) ∧
      Enforced cfg (divergeTx cfg c reason now db).1 := by
  obtain ⟨hrow, hstatus⟩ := h
  have heq : divergeTx cfg c reason now db =
      ((db.put (some (markDiverged reason now c))).withPayments
        (holdRows cfg.userId (floorOf cfg c) reason now db.payments),
        some (markDiverged reason now c), some (markDiverged reason now c)) := by
    have hmatch : db.checkpoint.filter (fun row => c.guards row && row.status = .verified) = some c := by
      rw [hrow, Option.filter_some, if_pos (by simp [PaymentSyncCheckpoint.guards, hstatus])]
    have hcurrent : (some (markDiverged reason now c)).filter (fun row => row.id = c.id) =
        some (markDiverged reason now c) := by
      exact if_pos (decide_eq_true rfl)
    unfold divergeTx
    rw [hmatch]
    show (if ((some (markDiverged reason now c)).filter fun row => row.id = c.id).any _ then _ else _) = _
    rw [if_pos (by rw [hcurrent]; rfl)]
    exact congrArg (fun x => (_, _, x)) hcurrent
  rw [heq]
  refine ⟨rfl, markDiverged reason now c, rfl, rfl, fun r' hr' hwindow => ?_⟩
  obtain ⟨r, -, ⟨-, rfl⟩ | ⟨hsel, rfl⟩⟩ := mem_update_cases hr'
  · rfl
  · have hin : r'.inWindow cfg.userId (floorOf cfg c) := hwindow
    simpa [hin] using hsel

theorem Sound.access (a : Answer) (h : Sound cfg db s) :
    Sound cfg (s.access cfg a db).db (s.access cfg a db).next := by
  obtain ⟨account, reads, supported, stage⟩ := s
  unfold Sync.access
  cases stage with
  | load =>
    obtain ⟨hverified, hreads⟩ := h
    dsimp only
    split
    · exact .planned trivial
    · rename_i c hrow
      rw [if_neg (by rw [hverified c hrow]; decide)]
      exact ⟨⟨hrow, hverified c hrow⟩, hreads⟩
  | prove =>
    dsimp only
    split
    · exact h.1
    · exact .planned h
  | diverge c reason =>
    obtain ⟨hcurrent, henforced⟩ := divergeTx_enforces cfg h reason a.now
    dsimp only
    rw [hcurrent]
    exact .planned henforced
  | read plan =>
    cases plan with
    | initial => exact trivial
    | resume => exact ⟨h.1, congrArg (· + 1) h.2⟩
    | reconcile => exact fun _ => h
  | lookup plan read =>
    dsimp only
    split
    · exact trivial
    · rename_i reason hinspect
      cases plan with
      | initial => cases hinspect
      | resume c =>
        -- The first read: the divergence is recorded next.
        obtain ⟨hproving, rfl⟩ : Proving db c ∧ reads = 1 := h
        exact hproving
      | reconcile =>
        have hread : isReadOrdered read.payments .desc none = false := by
          by_contra hordered
          simp [inspect, hordered] at hinspect
        exact fun _ => h hread
  | write plan read replaced rest => cases rest <;> exact trivial
  | identify | orphan => exact trivial
  | settle plan read => exact .settled cfg db _ plan read
  | refresh | saveCursor => exact nofun
  | claim target =>
    dsimp only
    split
    · exact .lost cfg db _ target
    · exact trivial
  | commit target =>
    dsimp only
    split
    · exact nofun
    · exact .lost _ _ _ target
  | count =>
    dsimp only
    split
    · split
      · exact trivial
      · exact nofun
    · exact trivial
  | newest | choose =>
    dsimp only
    split <;> exact trivial
  | remove =>
    dsimp only
    split <;> exact nofun
  | _ => exact h

/-- What a sound sync reports later on is enforced. -/
theorem Sound.run (h : Sound cfg (solo cfg answers db account m).1 (solo cfg answers db account m).2) (hn : m ≤ n) :
    Sound cfg (solo cfg answers db account n).1 (solo cfg answers db account n).2 := by
  induction n, hn using Nat.le_induction with
  | base => exact h
  | succ n _ ih => exact ih.access (answers n)

theorem Sound.reported (h : Sound cfg db s)
    (hdone : s.stage = .done result) (hstatus : result.status = .diverged) : Enforced cfg db := by
  unfold Sound at h
  rw [hdone] at h
  exact h hstatus

section

variable (cfg : Config)
  (answers : Nat → Answer)
  (account : String)
  (hrow : db.checkpoint = some c)
  (hstatus : c.status = .diverged)

include hrow hstatus

/-- A sync that finds the checkpoint diverged: load, assets and read. -/
theorem solo_reads : solo cfg answers db account 3 =
      (db, ⟨account, 1, (answers 1).supported, .lookup (reconcilePlan cfg c) (answers 2).read⟩) := by
  have hload : solo cfg answers db account 1 = (db, ⟨account, 0, [], .assets (reconcilePlan cfg c)⟩) := by
    simp [solo, newSync, Sync.access, hrow, hstatus, Access.reads, Sync.planned, Sync.at]
  have hassets : solo cfg answers db account 2 =
      (db, ⟨account, 0, (answers 1).supported, .read (reconcilePlan cfg c)⟩) := by
    unfold solo
    rw [hload]
    rfl
  unfold solo
  rw [hassets]
  rfl

/-- Its read is out of order: it reports the divergence and leaves the store as it was. -/
theorem solo_reports (hread : isReadOrdered (answers 2).read.payments .desc none = false) :
    solo cfg answers db account 5 =
      (db, ⟨account, 1, (answers 1).supported, .done (outcome cfg db .diverged (some .outOfOrder))⟩) := by
  have hinspect : ∀ stored, inspect (.reconcile c (floorOf cfg c)) (answers 2).read stored cfg.userId =
      some .outOfOrder := by
    intro stored
    simp [inspect, hread]
  have hjudged : solo cfg answers db account 4 =
      (db, ⟨account, 1, (answers 1).supported, .report .diverged (some .outOfOrder)⟩) := by
    unfold solo
    rw [solo_reads cfg answers account hrow hstatus]
    simp only [Sync.access, reconcilePlan, hinspect]
    rfl
  unfold solo
  rw [hjudged]
  rfl

end

theorem solo_done (h : (solo cfg answers db account m).2.stage = .done result) (hn : m ≤ n) :
    (solo cfg answers db account n).2.stage = .done result := by
  induction n, hn using Nat.le_induction with
  | base => exact h
  | succ n _ ih =>
    show (Sync.access cfg (answers n) _ (solo cfg answers db account n).2).next.stage = _
    unfold Sync.access
    rw [ih]
    rfl

/-- The reports of a lone sync are all enforced exactly when it does not find the
    checkpoint diverged, its read out of order and a payment of the window released. -/
theorem diverged_enforced_iff (cfg : Config) (answers : Nat → Answer) (db : Store) (account : String) :
    (∀ n result, (solo cfg answers db account n).2.stage = .done result → result.status = .diverged →
        Enforced cfg (solo cfg answers db account n).1) ↔
      ∀ c, db.checkpoint = some c → c.status = .diverged →
        isReadOrdered (answers 2).read.payments .desc none = false →
        ∀ r ∈ db.payments, r.inWindow cfg.userId (floorOf cfg c) → r.held := by
  constructor
  · intro h c hrow hstatus hread
    have hreport := solo_reports cfg answers account hrow hstatus hread
    obtain ⟨c', hrow', -, hheld⟩ := h 5 (outcome cfg db .diverged (some .outOfOrder)) (by rw [hreport]) rfl
    rw [hreport] at hrow' hheld
    obtain rfl := Option.some.inj (hrow.symm.trans hrow')
    exact hheld
  · intro h n result hdone hdiverged
    by_cases hfound : ∃ c, db.checkpoint = some c ∧ c.status = .diverged
    · obtain ⟨c, hrow, hstatus⟩ := hfound
      have hreads := solo_reads cfg answers account hrow hstatus
      have hlate : 3 ≤ n := by
        by_contra hearly
        have hstage := solo_done hdone (show n ≤ 3 by omega)
        rw [hreads] at hstage
        cases hstage
      have hsound : Sound cfg (solo cfg answers db account 3).1 (solo cfg answers db account 3).2 := by
        rw [hreads]
        exact fun hread => ⟨c, hrow, hstatus, h c hrow hstatus hread⟩
      exact (hsound.run hlate).reported hdone hdiverged
    · have hsound : Sound cfg (solo cfg answers db account 0).1 (solo cfg answers db account 0).2 := by
        refine ⟨fun c hrow => ?_, rfl⟩
        cases hstatus : c.status with
        | verified => rfl
        | diverged => exact absurd ⟨c, hrow, hstatus⟩ hfound
      exact (hsound.run (Nat.zero_le n)).reported hdone hdiverged

/-- A checkpoint whose reconciliation has released a payment and not reached the rest. -/
def halfReconciled : Store where
  checkpoint := some (markDiverged .ledgerMissing demoNow
    (establishedAt ⟨ledgerStart 100, "op_1", "tx_op_1", 100, "hash"⟩ "ck_1" demoNow))
  payments := [newRow demoConfig "pay_1" true (demoPayment "op_1" "GWALLET" 100)]

/-- The next read comes back out of order. -/
def disorder : Nat → Answer := fun _ => answersRead [demoPayment "op_1" "GWALLET" 100, demoPayment "op_2" "GWALLET" 101]

/-- The sync reports `diverged`, with no payment held. -/
theorem diverged_not_enforced :
    (solo demoConfig disorder halfReconciled "GWALLET" 5).2.stage = .done ⟨.diverged, some .outOfOrder, 0, 0⟩ ∧
      (solo demoConfig disorder halfReconciled "GWALLET" 5).1 = halfReconciled ∧
      halfReconciled.checkpoint.map (floorOf demoConfig) = some 90 ∧
      halfReconciled.payments.map (fun r => (r.ledgerSequence, r.held)) = [(some 100, false)] := by
  decide +kernel

end EarnProof.Payments
