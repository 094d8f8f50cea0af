/-
  EarnProof.Payments.Orphans — what a reconciliation may conclude from not finding a
  payment.

  `settleReconciliation` orphans every held payment of the ledgers its read covered that
  the read did not return. A read that was cut short is continued from its saved cursor,
  so a later read says nothing about payments above it: that none of them is still held
  rests on the read before having released them, and on nothing holding them again. And
  the read is of one account's feed, while the held payments are the user's, whatever
  account they were received on: after a payment account rotation those of the earlier
  account are orphaned because the new account's feed does not have them
  (`earlier_account_orphaned`). And a sync that finds the divergence recorded already holds
  the window again, with what has been confirmed above the cursor (`reheld_payment_orphaned`).

  `Horizon` is the outside world of the statement: for each account a feed of well-formed
  records, which every reconciliation read is a read of. Proved, over every interleaving of
  any number of syncs and for every page size and bound: a payment that is newly orphaned
  is in no feed (`orphaned_gone`), provided that no payment in doubt belongs to an account
  other than the one read, that a divergence is recorded by the first sync to act on it and
  while no other sync reconciles, and that the record bound does not cut a page.
-/
import EarnProof.Payments.Holds
import EarnProof.Stellar.Horizon

namespace EarnProof.Payments

open Lib Lib.Table Lib.Calendar Database Stellar List

/-! ## The outside world -/

/-- The feeds of all accounts, each of well-formed records in order. -/
structure Horizon where
  parseDate : String → Option Date
  feed : String → Feed
  sorted : ∀ account, (feed account).Sorted
  wellFormed : ∀ account, ∀ r ∈ feed account, r.WellFormed parseDate account

/-- `stellar.finality.reconciliationMaxPages`, and the bounds of the client. -/
structure ReadBounds where
  pageLimit : Nat
  maxPages : Nat
  maxRecords : Nat
  deriving DecidableEq

def readOptions (bounds : ReadBounds) : SyncPlan → HorizonReadOptions
  | .initial => ⟨none, none, .desc, none, bounds.pageLimit, DEFAULT_MAX_PAGES, bounds.maxRecords⟩
  | .resume c => ⟨none, some c.pagingToken, .asc, none, bounds.pageLimit, DEFAULT_MAX_PAGES, bounds.maxRecords⟩
  | .reconcile c floorLedger =>
    ⟨none, c.reconciliationCursor, .desc, some (pagingTokenFloorForLedger floorLedger), bounds.pageLimit,
      bounds.maxPages, bounds.maxRecords⟩

/-- The read a sync makes of an account's feed under a plan. -/
def Horizon.read (h : Horizon) (bounds : ReadBounds) (account : String) (plan : SyncPlan) : HorizonReadResult :=
  (readOptions bounds plan).read (normalizeRecord h.parseDate · account)
    fun _ => (h.feed account).serve (readOptions bounds plan).order bounds.pageLimit

def Horizon.has (h : Horizon) (account operationId : String) : Prop :=
  ∃ r ∈ h.feed account, ∃ p, normalizeRecord h.parseDate r.record account = .incoming p ∧ p.operationId = operationId

def Positioned (p : NormalizedPayment) : Prop := p.pagingToken = parsePagingToken p.operationId
  deriving Decidable

/-- A stored ledger position is that of the payment's id. -/
def SyncedPayment.Placed (r : SyncedPayment) : Prop :=
  ∀ ledger, r.ledgerSequence = some ledger →
    ledgerSequenceFromPagingToken (parsePagingToken r.operationId) = some ledger

variable {bounds : ReadBounds} {cfg : Config} {a : Answer} {s : Sync} {db' : Store} {operationId account : String}
  {c : PaymentSyncCheckpoint} {read : HorizonReadResult} {rows : List SyncedPayment}

theorem Horizon.read_positioned (h : Horizon) (hlimit : 0 < bounds.pageLimit) (account : String)
    (plan : SyncPlan) : ∀ q ∈ (h.read bounds account plan).payments, Positioned q := by
  intro q hq
  have hpage : (readOptions bounds plan).pageLimit = bounds.pageLimit := by cases plan <;> rfl
  unfold Horizon.read at hq
  rw [← hpage] at hq hlimit
  obtain ⟨r, hr, hn⟩ := read_mem (h.sorted account) hlimit hq
  obtain ⟨htoken, hid⟩ := (h.wellFormed account r hr).payment hn
  exact htoken.trans hid.symm

/-! ## The condition -/

def SyncPlan.isReconcile : SyncPlan → Bool
  | .reconcile _ _ => true
  | _ => false

/-- A reconciliation that may still save its cursor. -/
def Stage.reconciling : Stage → Bool
  | .assets plan => plan.isReconcile
  | .read plan => plan.isReconcile
  | .lookup plan _ => plan.isReconcile
  | .write plan _ _ _ => plan.isReconcile
  | .identify plan _ _ _ _ => plan.isReconcile
  | .settle plan _ => plan.isReconcile
  | .orphan _ _ _ => true
  | .count _ _ _ => true
  | .saveCursor _ _ => true
  | _ => false

section

variable (h : Horizon) (bounds : ReadBounds)

/-- A reconciliation reads the feed; what any other read returned is well formed. -/
def Answers (account : String) (read : HorizonReadResult) : SyncPlan → Prop
  | .reconcile c floor => read = h.read bounds account (.reconcile c floor)
  | _ => ∀ q ∈ read.payments, Positioned q

instance (plan : SyncPlan) : Decidable (Answers h bounds account read plan) := by
  unfold Answers
  split <;> infer_instance

/-- What a sync at this stage reads. -/
def Stage.Honest (account : String) (found : HorizonReadResult) : Stage → Prop
  | .read plan => Answers h bounds account found plan
  | _ => True

instance (found : HorizonReadResult) (stage : Stage) : Decidable (stage.Honest h bounds account found) := by
  unfold Stage.Honest
  split <;> infer_instance

/-- The feeds do not change, and every reconciliation reads them. -/
def Honest (w : World) : Event → Prop
  | .access p a => ∀ s ∈ w.syncs p, s.stage.Honest h bounds s.account a.read
  | _ => True

instance (w : World) (e : Event) : Decidable (Honest h bounds w e) := by
  unfold Honest
  split <;> infer_instance

end

structure Orderly (cfg : Config) (h : Horizon) (w : World) (p : Nat) (s : Sync) : Prop where
  /-- The payments in doubt that some feed has are of the account the sync reads. -/
  own : ∀ c floor read, s.stage = .orphan c floor read → ∀ r ∈ w.db.payments, r.undecided cfg.userId floor →
    ∀ account, h.has account r.operationId → account = s.account
  /-- The divergence is not recorded already. -/
  first : ∀ c reason row, s.stage = .diverge c reason → w.db.checkpoint = some row → row.id = c.id →
    row.status = .verified
  /-- When it is recorded, no other sync reconciles an earlier one. -/
  alone : Records w p → ∀ q t, q ≠ p → w.syncs q = some t → t.stage.reconciling = false

def Steady (cfg : Config) (h : Horizon) (bounds : ReadBounds) (w : World) (e : Event) : Prop :=
  Honest h bounds w e ∧ ∀ p a s, e = .access p a → w.syncs p = some s → Orderly cfg h w p s

/-! ## What the syncs rely on -/

/-- A reconciliation plan meets `P`. -/
def SyncPlan.Reconciling (P : PaymentSyncCheckpoint → Nat → Prop) : SyncPlan → Prop
  | .reconcile c floor => P c floor
  | _ => True

variable {plan : SyncPlan} {r : SyncedPayment} {userId : String} {floor : Nat} {w : World}

theorem SyncPlan.Reconciling.imp {P Q : PaymentSyncCheckpoint → Nat → Prop} (hplan : plan.Reconciling P)
    (himp : ∀ c floor, P c floor → Q c floor) : plan.Reconciling Q := by
  cases plan with
  | initial | resume => exact trivial
  | reconcile c floor => exact himp c floor hplan

variable {P : PaymentSyncCheckpoint → Nat → Prop} {r' : SyncedPayment} {p : Nat}

section

variable (cfg : Config) (h : Horizon) (bounds : ReadBounds)

/-- Every payment in doubt that some feed has lies below the cursor. -/
def Below (rows : List SyncedPayment) (floor : Nat) (cursor : Option Nat) : Prop :=
  ∀ r ∈ rows, r.undecided cfg.userId floor → ∀ account, h.has account r.operationId →
    ∀ k token, cursor = some k → parsePagingToken r.operationId = some token → token < k

def Released (rows : List SyncedPayment) (operationId : String) : Prop :=
  ∀ r ∈ rows, r.operationId = operationId → r.held = false

/-- A reconciliation read and what it rests on. -/
structure Reading (account : String) (rows : List SyncedPayment) (c : PaymentSyncCheckpoint) (floor : Nat)
    (read : HorizonReadResult) : Prop where
  floor_eq : floor = floorOf cfg c
  below : Below cfg h rows floor c.reconciliationCursor
  read_eq : read = h.read bounds account (.reconcile c floor)

/-- What a reconciling sync relies on at each stage: first that the payments above its
    cursor are released, then those it has written, and in the end those above its next
    cursor. -/
def Covered (account : String) (rows : List SyncedPayment) : Stage → Prop
  | .assets plan => plan.Reconciling fun c floor => floor = floorOf cfg c ∧
    Below cfg h rows floor c.reconciliationCursor
  | .read plan => plan.Reconciling fun c floor => floor = floorOf cfg c ∧ Below cfg h rows floor c.reconciliationCursor
  | .lookup plan found => plan.Reconciling fun c floor => Reading cfg h bounds account rows c floor found
  | .write plan found _ rest => plan.Reconciling fun c floor => Reading cfg h bounds account rows c floor found ∧
      ∃ done, found.payments = done ++ rest ∧ ∀ q ∈ done, Released rows q.operationId
  | .identify plan found _ _ rest => plan.Reconciling fun c floor => Reading cfg h bounds account rows c floor found ∧
      ∃ done, found.payments = done ++ rest ∧ ∀ q ∈ done, Released rows q.operationId
  | .settle plan found => plan.Reconciling fun c floor => Reading cfg h bounds account rows c floor found ∧
      ∀ q ∈ found.payments, Released rows q.operationId
  | .orphan c floor found => Reading cfg h bounds account rows c floor found ∧
      ∀ q ∈ found.payments, Released rows q.operationId
  | .count c floor found => floor = floorOf cfg c ∧ Below cfg h rows floor found.lastCursor
  | .saveCursor c k => Below cfg h rows (floorOf cfg c) (some k)
  | _ => True

end

/-- The payments a sync has read and not written. -/
def Stage.unwritten : Stage → List NormalizedPayment
  | .lookup _ found => found.payments
  | .write _ _ _ rest => rest
  | .identify _ _ _ _ rest => rest
  | _ => []

structure Reconciled (cfg : Config) (h : Horizon) (bounds : ReadBounds) (w : World) : Prop where
  stored : ∀ c, w.db.checkpoint = some c → c.status = .diverged →
    Below cfg h w.db.payments (floorOf cfg c) c.reconciliationCursor
  covered : ∀ p s, w.syncs p = some s → Covered cfg h bounds s.account w.db.payments s.stage
  placed : ∀ r ∈ w.db.payments, r.Placed
  unwritten : ∀ p s, w.syncs p = some s → ∀ q ∈ s.stage.unwritten, Positioned q

/-! ## One access, but for a divergence -/

/-- The access holds payments. -/
def Holds (db' : Store) (s : Sync) : Prop :=
  ∃ c row reason, s.stage = .diverge c reason ∧ db'.checkpoint = some row ∧ row.id = c.id ∧ row.status = .diverged

theorem NewRow.free (hnew : NewRow cfg a s r) : r.held = false := by
  cases hnew <;> rfl

theorem undecided_held (hr : r.undecided userId floor) : r.held :=
  (Bool.and_eq_true_iff.mp (Bool.and_eq_true_iff.mp hr).1).2

theorem undecided_window (hr : r.undecided userId floor) :
    ∃ ledger, r.ledgerSequence = some ledger ∧ floor ≤ ledger := by
  have hwindow := (Bool.and_eq_true_iff.mp (Bool.and_eq_true_iff.mp hr).1).1
  obtain ⟨ledger, hledger, hle⟩ := (Option.any_eq_true _ _).mp (of_decide_eq_true hwindow).2
  exact ⟨ledger, hledger, of_decide_eq_true hle⟩

theorem undecided_mono {coverage : Nat} (hle : floor ≤ coverage)
    (hr : r.undecided userId coverage) : r.undecided userId floor := by
  obtain ⟨ledger, hledger, hc⟩ := undecided_window hr
  obtain ⟨hfront, hreason⟩ := Bool.and_eq_true_iff.mp hr
  obtain ⟨hwindow, hheld⟩ := Bool.and_eq_true_iff.mp hfront
  have hwider : r.inWindow userId floor :=
    decide_eq_true ⟨(of_decide_eq_true hwindow).1, by rw [hledger]; exact decide_eq_true (hle.trans hc)⟩
  unfold SyncedPayment.undecided
  rw [hwider, hheld, hreason]
  rfl

/-- A payment in doubt was in doubt before. -/
theorem RowEffect.undecided (heffect : RowEffect cfg a db' s r r') (hquiet : ¬Holds db' s)
    (hr' : r'.undecided userId floor) : r.undecided userId floor := by
  cases heffect with
  | same | identify => exact hr'
  | hold c row reason hstage hrow hid hstatus => exact absurd ⟨c, row, reason, hstage, hrow, hid, hstatus⟩ hquiet
  | confirm | rebuild => cases undecided_held hr'
  | orphan => simp [SyncedPayment.undecided] at hr'

theorem RowEffect.free
    (heffect : RowEffect cfg a db' s r r') (hquiet : ¬Holds db' s) (hr : r.held = false) : r'.held = false := by
  cases heffect with
  | hold c row reason hstage hrow hid hstatus => exact absurd ⟨c, row, reason, hstage, hrow, hid, hstatus⟩ hquiet
  | confirm => rfl
  | rebuild => rfl
  | _ => exact hr

section

variable {h : Horizon} {rows' : List SyncedPayment}

section Kept

variable (hchange : RowsChange cfg a db' s rows rows') (hquiet : ¬Holds db' s)

include hchange hquiet

theorem Below.mono
    {cursor : Option Nat} (hbelow : Below cfg h rows floor cursor) : Below cfg h rows' floor cursor := by
  intro r' hr' hundecided account hhas k token hk htoken
  rcases hchange.mem hr' with ⟨r, hr, hop, heffect⟩ | ⟨hnew, -⟩
  · rw [← hop] at hhas htoken
    exact hbelow r hr (heffect.undecided hquiet hundecided) account hhas k token hk htoken
  · cases (undecided_held hundecided).symm.trans hnew.free

theorem Released.mono (hreleased : Released rows operationId) : Released rows' operationId := by
  intro r' hr' hid
  rcases hchange.mem hr' with ⟨r, hr, hop, heffect⟩ | ⟨hnew, -⟩
  · exact heffect.free hquiet (hreleased r hr (hop.trans hid))
  · exact hnew.free

theorem Reading.mono
    (hreading : Reading cfg h bounds account rows c floor read) : Reading cfg h bounds account rows' c floor read :=
  ⟨hreading.floor_eq, hreading.below.mono hchange hquiet, hreading.read_eq⟩

variable {stage : Stage}

/-- What a sync relies on survives every access that holds nothing. -/
theorem Covered.mono
    (hcovered : Covered cfg h bounds account rows stage) : Covered cfg h bounds account rows' stage := by
  have hall : ∀ qs : List NormalizedPayment, (∀ q ∈ qs, Released rows q.operationId) →
      ∀ q ∈ qs, Released rows' q.operationId := fun qs hqs q hq => (hqs q hq).mono hchange hquiet
  cases stage with
  | assets | read => exact hcovered.imp fun c floor => And.imp id (Below.mono hchange hquiet)
  | lookup => exact hcovered.imp fun c floor => Reading.mono hchange hquiet
  | write | identify =>
    exact hcovered.imp fun c floor => And.imp (Reading.mono hchange hquiet) fun ⟨done, hdone, hreleased⟩ =>
      ⟨done, hdone, hall done hreleased⟩
  | settle plan read =>
    exact hcovered.imp fun c floor => And.imp (Reading.mono hchange hquiet) (hall read.payments)
  | orphan c floor read => exact ⟨hcovered.1.mono hchange hquiet, hall read.payments hcovered.2⟩
  | count => exact hcovered.imp id (Below.mono hchange hquiet)
  | saveCursor => exact Below.mono hchange hquiet hcovered
  | _ => exact trivial

end Kept

/-- A sync that does not reconcile relies on nothing. -/
theorem covered_of_not_reconciling (hstage : stage.reconciling = false) :
    Covered cfg h bounds account rows stage := by
  cases stage with
  | assets plan | read plan | lookup plan read | write plan read replaced rest
  | identify plan read replaced p rest | settle plan read => cases plan <;> first | exact trivial | cases hstage
  | orphan | count | saveCursor => cases hstage
  | _ => exact trivial

end

/-! ## What a read decides -/

variable (hlimit : 0 < bounds.pageLimit) (hbounds : bounds.pageLimit * bounds.maxPages ≤ bounds.maxRecords)

section

variable {h : Horizon} (hreading : Reading cfg h bounds account rows c floor read)
  (hreleased : ∀ q ∈ read.payments, Released rows q.operationId)

include hreading hlimit hbounds hreleased

/-- A payment in doubt that the account's feed has is due to the read, and was not among
    what it returned: all of that is released. -/
theorem Reading.due (hr : r ∈ rows)
    (hplaced : r.Placed) (hundecided : r.undecided cfg.userId floor) (hhas : h.has account r.operationId) :
    ∃ token ledger, parsePagingToken r.operationId = some token ∧ r.ledgerSequence = some ledger ∧
      ledgerOf token = some ledger ∧ Covers read token r.operationId ∧
      r.operationId ∉ read.payments.map (·.operationId) := by
  obtain ⟨x, hx, p, hn, hid⟩ := hhas
  obtain ⟨-, hparse⟩ := (h.wellFormed account x hx).payment hn
  rw [hid] at hparse
  obtain ⟨ledger, hledger, hfloor⟩ := undecided_window hundecided
  have htoken : ledgerOf x.token = some ledger := by
    have hposition := hplaced ledger hledger
    rw [hparse] at hposition
    exact hposition
  refine ⟨x.token, ledger, hparse, hledger, htoken, ?_, fun hseen => ?_⟩
  · rw [hreading.read_eq, ← hid]
    refine read_covers (readOptions bounds (.reconcile c floor)) (h.sorted account) (h.wellFormed account) rfl rfl
      hlimit hbounds hx (fun k hk => ?_) hn (fun least hl => ?_)
    · exact hreading.below r hr hundecided account ⟨x, hx, p, hn, hid⟩ k x.token hk hparse
    · cases hl
      exact floor_le_token htoken hfloor
  · obtain ⟨q, hq, hqid⟩ := mem_map.mp hseen
    cases (undecided_held hundecided).symm.trans (hreleased q hq r hr hqid.symm)

/-- The next cursor is above every payment in doubt. -/
theorem Reading.next_below (hplaced : ∀ r ∈ rows, r.Placed)
    (hown : ∀ r ∈ rows, r.undecided cfg.userId floor → ∀ other, h.has other r.operationId → other = account) :
    Below cfg h rows floor read.lastCursor := by
  intro r hr hundecided other hhas k token hk htoken
  obtain rfl := hown r hr hundecided other hhas
  obtain ⟨token', _, hparse, -, -, hcovers, hunseen⟩ :=
    hreading.due hlimit hbounds hreleased hr (hplaced r hr) hundecided hhas
  obtain rfl := Option.some.inj (htoken.symm.trans hparse)
  by_contra hle
  exact hunseen (hcovers.cursor k hk (not_lt.mp hle))

/-- A payment of the ledgers the read covered that it did not return is not in the feed. -/
theorem Reading.gone (hr : r ∈ rows)
    (hplaced : r.Placed)
    (hcoverage : reconciliationCoverageLedger read.payments read.stopReason floor ≠ MAX_SAFE_INTEGER)
    (hundecided : r.undecided cfg.userId (reconciliationCoverageLedger read.payments read.stopReason floor)) :
    ¬h.has account r.operationId := by
  intro hhas
  have hfloor : r.undecided cfg.userId floor := undecided_mono (floor_le_coverage hcoverage) hundecided
  obtain ⟨token, ledger, -, hledger, htoken, hcovers, hunseen⟩ :=
    hreading.due hlimit hbounds hreleased hr hplaced hfloor hhas
  obtain ⟨ledger', hledger', hcovered⟩ := undecided_window hundecided
  obtain rfl := Option.some.inj (hledger.symm.trans hledger')
  unfold reconciliationCoverageLedger at hcovered hcoverage
  split at hcovered
  · rename_i hstop
    exact hunseen (hcovers.whole hstop)
  · rename_i hstop
    rw [if_neg hstop] at hcoverage
    cases ho : oldestLedger read.payments with
    | none => rw [ho] at hcoverage; exact hcoverage rfl
    | some oldest =>
      rw [ho] at hcovered
      obtain ⟨q, hq, hledger⟩ := mem_filterMap.mp (min?_mem ho)
      obtain ⟨t, ht, hl⟩ := Option.bind_eq_some_iff.mp hledger
      have hlt : oldest < ledger := lt_of_lt_of_le (Nat.lt_succ_self oldest) (le_trans (le_max_right _ _) hcovered)
      exact hunseen (hcovers.payment q hq t ht (le_of_lt (token_lt_of_ledger_lt hl htoken hlt)))

end

/-! ## One access -/

/-- An access that holds payments records the divergence, from no cursor. -/
theorem records_of_holds {h : Horizon}
    (hs : w.syncs p = some s) (horderly : Orderly cfg h w p s) (hholds : Holds (s.access cfg a w.db).db s) :
    Records w p ∧ ∀ c, (s.access cfg a w.db).db.checkpoint = some c → c.reconciliationCursor = none := by
  obtain ⟨c, row, reason, hstage, hrow, hid, hstatus⟩ := hholds
  have hchange := access_change cfg a w.db s
  rw [hstage] at hchange
  generalize (s.access cfg a w.db).wrote = wrote at hchange
  generalize (s.access cfg a w.db).db.checkpoint = after at hchange hrow ⊢
  cases hchange with
  | keep =>
    rw [horderly.first c reason row hstage hrow hid] at hstatus
    cases hstatus
  | diverge c' old reason' hstage' hold hguard hverified =>
    refine ⟨⟨s, c', reason', old, hs, hstage.trans hstage', hold, hguard, hverified⟩, fun c hc => ?_⟩
    cases hc
    rfl
  | establish _ hstage' _ | refresh _ _ hstage' _ _ | cursor _ _ _ hstage' _ _ | advance _ _ _ hstage' _ _
  | complete _ _ _ hstage' _ _ | remove _ _ hstage' _ _ => cases hstage'

/-- A stored cursor is above every payment in doubt: it is the one there was, or the one
    the sync that saves it has read down to. -/
theorem Reconciled.stored_after {h : Horizon}
    (hinv : Reconciled cfg h bounds w) (hledgered : Ledgered w) (hs : w.syncs p = some s)
    {wrote : Option PaymentSyncCheckpoint} {after : PaymentSyncCheckpoint}
    (hchange : Change a s.stage w.db.checkpoint wrote (some after)) (hstatus : after.status = .diverged)
    (hmono : ∀ floor cursor, Below cfg h w.db.payments floor cursor → Below cfg h rows floor cursor) :
    Below cfg h rows (floorOf cfg after) after.reconciliationCursor := by
  generalize heq : some after = stored at hchange
  cases hchange with
  | keep => exact hmono _ _ (hinv.stored after heq.symm hstatus)
  | diverge =>
    cases heq
    exact fun _ _ _ _ _ _ _ hk => nomatch hk
  | refresh c row _ hrow =>
    cases heq
    exact hmono _ _ (hinv.stored row hrow hstatus)
  | cursor c row k hstage hrow hguard =>
    cases heq
    have hcovered := hinv.covered p s hs
    have hheld := (hledgered.held p s hs).1
    rw [hstage] at hcovered hheld
    obtain rfl := hledgered.eq_of_guards (hheld c rfl) hrow hguard
    exact hmono _ _ hcovered
  | remove => cases heq
  | _ =>
    cases heq
    cases hstatus

theorem access_write (cfg : Config) (a : Answer) (db : Store)
    {replaced : List String} {p : NormalizedPayment} {rest : List NormalizedPayment}
    (hstage : s.stage = .write plan read replaced (p :: rest)) :
    Released (s.access cfg a db).db.payments p.operationId := by
  unfold Sync.access
  rw [hstage]
  intro r hr hid
  rcases mem_upsert hr with ⟨r₀, -, -, rfl⟩ | ⟨-, hne⟩ | ⟨rfl, -⟩
  · split <;> rfl
  · exact absurd hid hne
  · rfl

section

variable {h : Horizon} {db : Store} {t : Sync}

theorem covered_planned
    (hplan : plan.Reconciling fun c floor => floor = floorOf cfg c ∧ Below cfg h rows floor c.reconciliationCursor) :
    Covered cfg h bounds account rows (s.planned plan).stage :=
  planned_cases (P := Covered cfg h bounds account rows) hplan hplan

include hlimit hbounds in
/-- What a sync relies on after an access of its own that holds nothing. -/
theorem Next.covered (hnext : Next cfg a db db' s t)
    (hstored : ∀ c, db'.checkpoint = some c → c.status = .diverged →
      Below cfg h db'.payments (floorOf cfg c) c.reconciliationCursor)
    (hbefore : Covered cfg h bounds s.account db.payments s.stage)
    (hafter : Covered cfg h bounds s.account db'.payments s.stage)
    (hmono : ∀ floor cursor, Below cfg h db.payments floor cursor → Below cfg h db'.payments floor cursor)
    (hwrites : ∀ plan read replaced p rest, s.stage = .write plan read replaced (p :: rest) →
      Released db'.payments p.operationId)
    (hanswers : ∀ plan, s.stage = .read plan → Answers h bounds s.account a.read plan)
    (hplaced : ∀ r ∈ db.payments, r.Placed)
    (hown : ∀ c floor read, s.stage = .orphan c floor read → ∀ r ∈ db.payments, r.undecided cfg.userId floor →
      ∀ account, h.has account r.operationId → account = s.account) :
    Covered cfg h bounds t.account db'.payments t.stage := by
  cases hnext with
  | initial | resume => exact covered_planned trivial
  | reconcile c _ hrow hstatus => exact covered_planned ⟨rfl, hstored c hrow hstatus⟩
  | assets plan hstage | written plan read replaced p rest hstage => rw [hstage] at hafter; exact hafter
  | read plan hstage =>
    have hread := hanswers plan hstage
    rw [hstage] at hafter
    cases plan with
    | initial | resume => exact trivial
    | reconcile => exact ⟨hafter.1, hafter.2, hread⟩
  | write plan read hstage =>
    rw [hstage] at hafter
    exact SyncPlan.Reconciling.imp hafter fun c floor hreading => ⟨hreading, [], rfl, fun q hq => nomatch hq⟩
  | identify plan read replaced p rest hstage =>
    have hp := hwrites plan read replaced p rest hstage
    rw [hstage] at hafter
    refine SyncPlan.Reconciling.imp hafter fun c floor ⟨hreading, front, hfront, hreleased⟩ =>
      ⟨hreading, front ++ [p], ?_, ?_⟩
    · rw [hfront, append_assoc]
      rfl
    · exact forall_append_row hreleased hp
  | settle plan read replaced hstage =>
    rw [hstage] at hafter
    refine SyncPlan.Reconciling.imp hafter fun c floor ⟨hreading, front, hfront, hreleased⟩ => ⟨hreading, ?_⟩
    rw [hfront, append_nil]
    exact hreleased
  | settled plan read hstage =>
    rw [hstage] at hafter
    refine settleStage_cases (fun c floor hreconcile => ?_) trivial (fun _ => trivial) (fun _ _ => trivial)
      fun _ _ _ _ => trivial
    rw [hreconcile] at hafter
    exact hafter
  | count c floor read hstage =>
    have hown := hown c floor read hstage
    rw [hstage] at hbefore
    obtain ⟨hreading, hreleased⟩ := hbefore
    exact ⟨hreading.floor_eq, hmono _ _ (hreading.next_below hlimit hbounds hreleased hplaced hown)⟩
  | saveCursor c floor read k hstage hcursor =>
    rw [hstage] at hafter
    obtain ⟨hfloor, hbelow⟩ := hafter
    rw [hfloor, hcursor] at hbelow
    exact hbelow
  | _ => exact trivial

@[simp] theorem unwritten_planned (s : Sync) (plan : SyncPlan) : (s.planned plan).stage.unwritten = [] :=
  planned_cases (P := fun stage => stage.unwritten = []) rfl rfl

/-- What a sync has to write comes from its last read. -/
theorem Next.unwritten (hnext : Next cfg a db db' s t) {q : NormalizedPayment} (hq : q ∈ t.stage.unwritten) :
    q ∈ s.stage.unwritten ∨ ∃ plan, s.stage = .read plan ∧ q ∈ a.read.payments := by
  cases hnext with
  | initial | reconcile | resume => rw [unwritten_planned] at hq; cases hq
  | read plan hstage => exact .inr ⟨plan, hstage, hq⟩
  | write plan read hstage | written plan read replaced p rest hstage => rw [hstage]; exact .inl hq
  | identify plan read replaced p rest hstage => rw [hstage]; exact .inl (mem_cons_of_mem p hq)
  | settled plan read =>
    have hnil : (settleStage plan read).unwritten = [] :=
      settleStage_cases (P := fun t => t.unwritten = []) (fun _ _ _ => rfl) rfl (fun _ => rfl) (fun _ _ => rfl)
        fun _ _ _ _ => rfl
    rw [show (s.at (settleStage plan read)).stage.unwritten = [] from hnil] at hq
    cases hq
  | _ => cases hq

theorem newRow_placed {p : NormalizedPayment} (hp : Positioned p) (cfg : Config) (id : String) (isEligible : Bool) :
    (newRow cfg id isEligible p).Placed := by
  intro ledger hledger
  show ledgerSequenceFromPagingToken (parsePagingToken p.operationId) = _
  rw [← hp]
  exact hledger

/-- Rows are written at the position of their id. -/
theorem RowsChange.placed {rows rows' : List SyncedPayment} (hchange : RowsChange cfg a db' s rows rows')
    (hplaced : ∀ r ∈ rows, r.Placed) (hunwritten : ∀ q ∈ s.stage.unwritten, Positioned q) : ∀ r ∈ rows', r.Placed := by
  have hfirst : ∀ plan read replaced p rest, s.stage = .write plan read replaced (p :: rest) → Positioned p := by
    intro plan read replaced p rest hstage
    rw [hstage] at hunwritten
    exact hunwritten p mem_cons_self
  intro r' hr'
  rcases hchange.mem hr' with ⟨r, hr, -, heffect⟩ | ⟨hnew, -⟩
  · cases heffect with
    | same => exact hplaced r' hr
    | confirm plan read replaced p rest hstage hop | rebuild plan read replaced p rest hstage hop =>
      intro ledger hledger
      show ledgerSequenceFromPagingToken (parsePagingToken r.operationId) = _
      rw [hop, ← hfirst plan read replaced p rest hstage]
      exact hledger
    | _ => exact hplaced r hr
  · cases hnew with
    | write plan read replaced p rest hstage => exact newRow_placed (hfirst plan read replaced p rest hstage) _ _ _
    | identify => exact nofun

end

/-! ## Every run -/

section

variable {h : Horizon}

include hlimit hbounds

theorem Reconciled.access (hinv : Reconciled cfg h bounds w) (hledgered : Ledgered w)
    (hs : w.syncs p = some s) (hsteady : Steady cfg h bounds w (.access p a)) :
    Reconciled cfg h bounds (w.put p s (s.access cfg a w.db)) := by
  have horderly := hsteady.2 p a s rfl hs
  have hanswers : ∀ plan, s.stage = .read plan → Answers h bounds s.account a.read plan := by
    intro plan hstage
    have hhonest := hsteady.1 s hs
    rw [hstage] at hhonest
    exact hhonest
  have hchange := access_change cfg a w.db s
  have hrows := access_payments cfg a w.db s
  have hnext := access_next cfg a w.db s
  have hread : ∀ plan, s.stage = .read plan → ∀ q ∈ a.read.payments, Positioned q := by
    intro plan hstage q hq
    have hread := hanswers plan hstage
    cases plan with
    | initial | resume => exact hread q hq
    | reconcile =>
      rw [show a.read = _ from hread] at hq
      exact h.read_positioned hlimit s.account _ q hq
  have hplaced := hrows.placed hinv.placed (hinv.unwritten p s hs)
  have hunwritten : ∀ q t, (w.put p s (s.access cfg a w.db)).syncs q = some t →
      ∀ x ∈ t.stage.unwritten, Positioned x := by
    refine forall_moved (fun t ht x hx => ?_) hinv.unwritten
    cases ht
    rcases hnext.unwritten hx with hx | ⟨plan, hstage, hx⟩
    · exact hinv.unwritten p s hs x hx
    · exact hread plan hstage x hx
  by_cases hholds : Holds (s.access cfg a w.db).db s
  · -- The divergence is recorded: the syncs beside it do not reconcile, and it starts anew.
    obtain ⟨hrecords, hnone⟩ := records_of_holds hs horderly hholds
    have hfresh : ∀ c, (s.access cfg a w.db).db.checkpoint = some c →
        Below cfg h (s.access cfg a w.db).db.payments (floorOf cfg c) c.reconciliationCursor := by
      intro c hc r _ _ account _ k token hk
      rw [hnone c hc] at hk
      cases hk
    refine ⟨fun c hc _ => hfresh c hc, fun q t ht => ?_, hplaced, hunwritten⟩
    rcases update_eq_some ht with ⟨rfl, htt⟩ | ⟨hne, htt⟩
    · cases htt
      obtain ⟨c, row, reason, hstage, -⟩ := hholds
      rcases access_diverge cfg a w.db hstage with ⟨hnext, -⟩ | ⟨row, hrow, -, ⟨-, hnext⟩ | ⟨-, hnext⟩⟩
      · rw [hnext]
        exact covered_planned trivial
      · rw [hnext]
        exact trivial
      · rw [hnext]
        exact covered_planned ⟨rfl, hfresh row hrow⟩
    · exact covered_of_not_reconciling (horderly.alone hrecords q t hne htt)
  · have hmono : ∀ floor cursor, Below cfg h w.db.payments floor cursor →
        Below cfg h (s.access cfg a w.db).db.payments floor cursor := fun _ _ => Below.mono hrows hholds
    have hstored : ∀ c, (s.access cfg a w.db).db.checkpoint = some c → c.status = .diverged →
        Below cfg h (s.access cfg a w.db).db.payments (floorOf cfg c) c.reconciliationCursor := by
      intro c hc hstatus
      rw [hc] at hchange
      exact hinv.stored_after hledgered hs hchange hstatus hmono
    refine ⟨hstored, forall_moved (fun t ht => ?_) fun q t ht => (hinv.covered q t ht).mono hrows hholds,
      hplaced, hunwritten⟩
    cases ht
    have hbefore := hinv.covered p s hs
    exact hnext.covered hlimit hbounds hstored hbefore (hbefore.mono hrows hholds) hmono
      (fun plan read replaced p rest hstage => access_write cfg a w.db hstage) hanswers hinv.placed horderly.own

theorem step_reconciled (w : World) (e : Event) (w' : World)
    (hinv : Reconciled cfg h bounds w) (hledgered : Ledgered w) (hsteady : Steady cfg h bounds w e)
    (hstep : step cfg w e = some w') : Reconciled cfg h bounds w' := by
  rcases step_cases hstep with ⟨p, account, rfl, -, rfl⟩ | ⟨p, a, s, rfl, hs, -, rfl⟩ | ⟨p, rfl, rfl⟩
  · refine ⟨hinv.stored, forall_moved (fun t hx => ?_) hinv.covered, hinv.placed,
      forall_moved (fun t hx => ?_) hinv.unwritten⟩ <;> cases hx
    · exact trivial
    · exact fun x hx => nomatch hx
  · exact hinv.access hlimit hbounds hledgered hs hsteady
  · exact ⟨hinv.stored, forall_gone hinv.covered, hinv.placed, forall_gone hinv.unwritten⟩

end

/-- In a run whose steps are steady, a payment that is newly orphaned is in the feed of no
    account. -/
theorem orphaned_gone (cfg : Config) (h : Horizon) (bounds : ReadBounds) (hlimit : 0 < bounds.pageLimit)
    (hbounds : bounds.pageLimit * bounds.maxPages ≤ bounds.maxRecords) (db : Store)
    (hids : (db.payments.map (·.operationId)).Nodup) (hplaced : ∀ r ∈ db.payments, r.Placed)
    (hcursor : ∀ c, db.checkpoint = some c → c.status = .diverged → c.reconciliationCursor = none)
    (w : World) (e : Event) (w' : World) (hrun : Run (step cfg) (Steady cfg h bounds) (World.start db) w)
    (hsteady : Steady cfg h bounds w e) (hstep : step cfg w e = some w') (r r' : SyncedPayment) (hr : r ∈ w.db.payments)
    (hr' : r' ∈ w'.db.payments) (hop : r'.operationId = r.operationId)
    (hbefore : r.finalityHoldReason ≠ some .orphaned) (hafter : r'.finalityHoldReason = some .orphaned) :
    ∀ account, ¬h.has account r.operationId := by
  have hstart : Reconciled cfg h bounds (World.start db) := by
    refine ⟨fun c hc hstatus r hr _ account _ k token hk => ?_, fun p s hs => (nomatch hs), hplaced,
      fun p s hs => nomatch hs⟩
    rw [hcursor c hc hstatus] at hk
    cases hk
  have hinv : Reconciled cfg h bounds w :=
    (hrun.invariant (I := fun w => Ledgered w ∧ Reconciled cfg h bounds w)
      ⟨ledgered_start db, hstart⟩ fun w e w' hinv hok hs =>
        ⟨step_ledgered cfg w e w' hinv.1 hs, step_reconciled hlimit hbounds w e w' hinv.2 hinv.1 hok hs⟩).2
  have hunique := operationIds_of_run hids hrun
  have hsame : w'.db.payments = w.db.payments → False := by
    intro heq
    obtain rfl := eq_of_key hunique (heq ▸ hr') hr hop
    exact hbefore hafter
  rcases step_cases hstep with ⟨p, account, -, -, rfl⟩ | ⟨p, a, s, rfl, hs, -, rfl⟩ | ⟨p, -, rfl⟩
  · exact (hsame rfl).elim
  · rcases (access_payments cfg a w.db s).mem hr' with ⟨r₀, hr₀, hop₀, heffect⟩ | ⟨-, hnew⟩
    · obtain rfl := eq_of_key hunique hr₀ hr (hop₀.trans hop)
      cases heffect with
      | same | identify => exact absurd hafter hbefore
      | orphan c floor read hstage hcoverage hundecided =>
        have hcovered := hinv.covered p s hs
        rw [hstage] at hcovered
        obtain ⟨hreading, hreleased⟩ := hcovered
        intro account hhas
        obtain rfl := (hsteady.2 p a s rfl hs).own c floor read hstage r₀ hr₀
          (undecided_mono (floor_le_coverage hcoverage) hundecided) account hhas
        exact hreading.gone hlimit hbounds hreleased hr₀ (hinv.placed r₀ hr₀) hcoverage hundecided hhas
      | _ => cases hafter
    · exact absurd hop.symm (hnew r hr)
  · exact (hsame rfl).elim

/-! ## After a rotation -/

def demoRecord (id account : String) : HorizonPaymentRecord where
  id
  paging_token := some id
  type := "payment"
  transaction_hash := "tx_" ++ id
  created_at := ""
  «from» := some "GPAYER"
  «to» := some account
  asset_type := some "native"
  asset_code := none
  asset_issuer := none
  amount := some "1"

/-- The new account's feed has a payment of ledger 101, and the earlier account's one of
    ledger 100, or nothing. -/
def demoFeed (earlier : Feed) (account : String) : Feed :=
  if account = "GNEW" then [⟨ledgerStart 101, demoRecord "433791696896" "GNEW"⟩]
  else if account = "GOLD" then earlier
  else []

def demoHorizon (earlier : Feed) (hsorted : earlier.Sorted)
    (hformed : ∀ r ∈ earlier, r.WellFormed (fun _ => some demoNow) "GOLD") : Horizon where
  parseDate := fun _ => some demoNow
  feed := demoFeed earlier
  sorted := by
    intro account
    unfold demoFeed
    split
    · exact List.pairwise_singleton _ _
    · split
      · exact hsorted
      · exact List.Pairwise.nil
  wellFormed := by
    intro account r hr
    unfold demoFeed at hr
    split at hr
    · rename_i hnew
      subst hnew
      obtain rfl := List.mem_singleton.mp hr
      exact ⟨by decide +kernel, rfl, by decide +kernel⟩
    · split at hr
      · rename_i hold
        subst hold
        exact hformed r hr
      · cases hr

/-- Both accounts have their payment. -/
def rotatedHorizon : Horizon :=
  demoHorizon [⟨ledgerStart 100, demoRecord "429496729600" "GOLD"⟩] (List.pairwise_singleton _ _) fun _ hr => by
    obtain rfl := List.mem_singleton.mp hr
    exact ⟨by decide +kernel, rfl, by decide +kernel⟩

def prunedHorizon : Horizon := demoHorizon [] List.Pairwise.nil nofun

/-- A user whose payments of ledgers 100 and 101 are confirmed. -/
def demoStore (earlier later : String) : Store where
  checkpoint := some (establishedAt ⟨ledgerStart 101, "433791696896", "tx_433791696896", 101, "hash"⟩ "ck_1" demoNow)
  payments := [newRow demoConfig "pay_1" true (demoPayment "429496729600" earlier 100),
    newRow demoConfig "pay_2" true (demoPayment "433791696896" later 101)]

def demoBounds : ReadBounds := ⟨DEFAULT_PAGE_LIMIT, DEFAULT_MAX_PAGES, DEFAULT_MAX_RECORDS⟩

/-- A sync of the new account that finds the checkpoint's ledger gone, and reconciles: up
    to the update that orphans. -/
def reconciling : List Event :=
  syncing 0 "GNEW" (List.replicate 4 silence ++
    [{ silence with read := ⟨[demoPayment "433791696896" "GNEW" 101], .exhausted, some (ledgerStart 101)⟩ }] ++
    List.replicate 5 silence)

/-- What a sync decides of a payment. -/
structure Decision where
  operationId : String
  isEligible : Bool
  finalityHoldReason : Option HoldReason
  deriving DecidableEq

def decisions (db : Store) : List Decision :=
  db.payments.map fun r => ⟨r.operationId, r.isEligible, r.finalityHoldReason⟩

/-- The payment of the earlier account is orphaned, though its feed has it. -/
theorem earlier_account_orphaned :
    ∃ w w', Run (step demoConfig) (Honest rotatedHorizon demoBounds) (World.start (demoStore "GOLD" "GNEW")) w ∧
      step demoConfig w (.access 0 silence) = some w' ∧
      decisions w.db = [⟨"429496729600", true, some (.divergence .ledgerMissing)⟩, ⟨"433791696896", false, none⟩] ∧
      decisions w'.db = [⟨"429496729600", false, some .orphaned⟩, ⟨"433791696896", false, none⟩] ∧
      rotatedHorizon.has "GOLD" "429496729600" := by
  have hhas : rotatedHorizon.has "GOLD" "429496729600" :=
    ⟨⟨ledgerStart 100, demoRecord "429496729600" "GOLD"⟩, mem_singleton.mpr rfl,
      demoPayment "429496729600" "GOLD" 100, by decide +kernel, rfl⟩
  refine Run.exists_step_of_replay reconciling (.access 0 silence) ?_
  simp only [hhas, and_true]
  decide +kernel

/-- One account with both payments, read a record at a time. -/
def wholeHorizon : Horizon :=
  demoHorizon [⟨ledgerStart 101, demoRecord "433791696896" "GOLD"⟩, ⟨ledgerStart 100, demoRecord "429496729600" "GOLD"⟩]
    (List.pairwise_pair.mpr (by decide +kernel)) fun r hr => by
      rcases List.mem_pair.mp hr with rfl | rfl
      · exact ⟨by decide +kernel, rfl, by decide +kernel⟩
      · exact ⟨by decide +kernel, rfl, by decide +kernel⟩

/-- A reconciliation read that returns one payment and leaves its cursor there. -/
def answersOne (operationId : String) (ledger : Nat) : Answer :=
  { silence with read := ⟨[demoPayment operationId "GOLD" ledger], .recordBound, some (ledgerStart ledger)⟩ }

/-- Sync 1 finds the divergence and stalls; sync 0 records it, confirms the first payment
    and saves its cursor. Sync 1 then holds that payment again and reads on below it. -/
def overtaken : List Event :=
  syncing 1 "GOLD" (List.replicate 2 silence) ++
    syncing 0 "GOLD" (List.replicate 4 silence ++ [answersOne "433791696896" 101] ++ List.replicate 8 silence) ++
    (List.replicate 2 silence ++ [answersOne "429496729600" 100] ++ List.replicate 5 silence).map (.access 1)

/-- So the slower sync orphans a payment that the feed it reads has. -/
theorem reheld_payment_orphaned :
    ∃ w w', Run (step demoConfig) (Honest wholeHorizon ⟨1, 1, 1⟩) (World.start (demoStore "GOLD" "GOLD")) w ∧
      step demoConfig w (.access 1 silence) = some w' ∧
      decisions w'.db = [⟨"429496729600", false, none⟩, ⟨"433791696896", false, some .orphaned⟩] :=
  Run.exists_step_of_replay overtaken (.access 1 silence)

/-- A lone sync of the new account that is the first to find the divergence. -/
def tidy (w : World) : Event → Bool
  | .access p _ => p = 0 && (w.syncs p).all fun s => s.account = "GNEW" &&
      match s.stage with
      | .diverge c _ => w.db.checkpoint.all fun row => row.id ≠ c.id || row.status = .verified
      | _ => true
  | .start p _ => p = 0
  | .crash p => p = 0

theorem prunedHorizon_has (hhas : prunedHorizon.has account operationId) : account = "GNEW" := by
  obtain ⟨r, hr, -⟩ := hhas
  by_contra hne
  have hnil : prunedHorizon.feed account = [] := by simp [prunedHorizon, demoHorizon, demoFeed, hne]
  rw [hnil] at hr
  cases hr

theorem steady_of_tidy {e : Event} (hidle : ∀ q, q ≠ 0 → w.syncs q = none) (htidy : tidy w e)
    (hhonest : Honest prunedHorizon demoBounds w e) : Steady demoConfig prunedHorizon demoBounds w e := by
  refine ⟨hhonest, fun p a s he hs => ?_⟩
  subst he
  obtain ⟨hslot, hall⟩ := Bool.and_eq_true_iff.mp htidy
  obtain rfl := of_decide_eq_true hslot
  rw [hs] at hall
  obtain ⟨haccount, hfirst⟩ := Bool.and_eq_true_iff.mp hall
  refine ⟨fun c floor read _ r _ _ account hhas => ?_, fun c reason row hstage hrow hid => ?_, fun _ q t hq ht => ?_⟩
  · exact (prunedHorizon_has hhas).trans (of_decide_eq_true haccount).symm
  · rw [hstage, hrow] at hfirst
    simpa [hid] using hfirst
  · rw [hidle q hq] at ht
    cases ht

theorem demoStore_placed : ∀ r ∈ (demoStore "GNEW" "GNEW").payments, r.Placed := by
  intro r hr
  rcases mem_cons.mp hr with rfl | hr
  · refine newRow_placed ?_ _ _ _
    decide +kernel
  · obtain rfl := mem_singleton.mp hr
    refine newRow_placed ?_ _ _ _
    decide +kernel

/-- The payment that is gone from every feed is orphaned. -/
theorem orphaned_gone_pruned :
    ∃ w w', Run (step demoConfig) (Steady demoConfig prunedHorizon demoBounds)
      (World.start (demoStore "GNEW" "GNEW")) w ∧ step demoConfig w (.access 0 silence) = some w' ∧
      decisions w'.db = [⟨"429496729600", false, some .orphaned⟩, ⟨"433791696896", false, none⟩] ∧
      ∀ account, ¬prunedHorizon.has account "429496729600" := by
  have hreplay : ∃ w ∈ Run.replay (step demoConfig)
      (fun w e => tidy w e ∧ Honest prunedHorizon demoBounds w e) (World.start (demoStore "GNEW" "GNEW")) reconciling,
      (tidy w (.access 0 silence) ∧ Honest prunedHorizon demoBounds w (.access 0 silence)) ∧
      ∃ w' ∈ step demoConfig w (.access 0 silence),
        (∃ r ∈ w.db.payments, r.operationId = "429496729600" ∧ r.finalityHoldReason ≠ some .orphaned) ∧
        (∃ r' ∈ w'.db.payments, r'.operationId = "429496729600" ∧ r'.finalityHoldReason = some .orphaned) ∧
        decisions w'.db = [⟨"429496729600", false, some .orphaned⟩, ⟨"433791696896", false, none⟩] := by
    decide +kernel
  obtain ⟨w, hw, ⟨htidy, hhonest⟩, w', hw', ⟨r, hr, hid, hbefore⟩, ⟨r', hr', hid', horphaned⟩, hafter⟩ := hreplay
  have hslot : ∀ {w e}, tidy w e → e.slot = 0 := by
    intro w e h
    cases e with
    | start | crash => exact of_decide_eq_true h
    | access => exact of_decide_eq_true (Bool.and_eq_true_iff.mp h).1
  obtain ⟨hidle, hrun⟩ := (Run.of_replay _ hw).mono_invariant (I := fun w => ∀ q, q ≠ 0 → w.syncs q = none)
    (fun _ _ => rfl) (fun w e w' hidle hok hstep => step_idle hidle (hslot hok.1) hstep)
    fun w e hidle hok => steady_of_tidy hidle hok.1 hok.2
  refine ⟨w, w', hrun, hw', hafter, ?_⟩
  rw [← hid]
  exact orphaned_gone demoConfig prunedHorizon demoBounds (by decide) (by decide) (demoStore "GNEW" "GNEW")
    (by decide +kernel)
    demoStore_placed (fun c hc hstatus => by obtain rfl := Option.some.inj hc; cases hstatus) w _ w' hrun
    (steady_of_tidy hidle htidy hhonest) hw' r r' hr hr' (hid'.trans hid.symm) hbefore horphaned

end EarnProof.Payments
