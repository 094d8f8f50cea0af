/-
  EarnProof.Audit.Retention — the retention sweep of audit records
  (`src/jobs/retention/retention-cleanup.service.ts`, class `audit_logs`) beside appends and
  legal-hold decisions, and what the verifier says of the chains it leaves.

  A sweep fixes `now` and its cutoff, then works in batches of four accesses: it reads the
  holds in effect, selects a page of expired records they leave unprotected, reads the holds
  again and deletes the page's records they leave unprotected. Any number of sweeps run, each
  may stop anywhere, and appends and decisions fall between any two accesses. An append
  has an id never used before, and is not older than the records of its chain. Dry runs
  and the report write nothing and are left out; so is the parsing of the number of days.

  The verifier takes a chain that begins late for a consequence of retention. So, proved:
  every chain verifies in every reachable state (`verifies_under_retention`) of a run in
  which no sweep meets a protected record before an expired unprotected one of its chain,
  nor expired records of one instant and chain whose ids are not in chain order. A hold
  on the older of two expired records leaves a hole (`hold_leaves_hole`).

  A hold protects its records from the deletes that read the holds after it was made
  (`held_record_kept`), not from one that has read them already (`deleted_under_hold`).
-/
import EarnProof.Audit.LegalHolds
import EarnProof.Audit.Verification
import EarnProof.Lib.Run
import Mathlib.Data.Prod.Lex
import Mathlib.Data.String.Basic
import Mathlib.Logic.Function.Basic

namespace EarnProof.Audit.Retention

open Lib Lib.Table Lib.Calendar Lib.Result List

/-! ## Sweeps -/

def BATCH_SIZE : Nat := 500

def MAX_BATCHES_PER_RUN : Nat := 20

def cutoffFor (days : Nat) (now : Date) : Int := now.ms - days * dayMs

inductive Sweep where
  | idle
  | batch (now : Date) (cutoff : Int) (batches : Nat)
  | selecting (now : Date) (cutoff : Int) (batches : Nat) (holds : List AuditLegalHold)
  | selected (now : Date) (cutoff : Int) (batches : Nat) (ids : List String)
  | deleting (now : Date) (cutoff : Int) (batches : Nat) (ids : List String) (holds : List AuditLegalHold)
  deriving DecidableEq

variable (logs : List AuditLog) (cutoff : Int) (holds : List AuditLegalHold) (w : State)

/-- `holdExclusion`: the holds in effect, or the refusal to go on without all of them. -/
def readHolds (now : Date) : Option (List AuditLegalHold) :=
  let page := (holds.filter (isHoldInEffect · now)).take (MAX_HOLDS_IN_EFFECT + 1)
  if MAX_HOLDS_IN_EFFECT < page.length then none else some page

def expired (r : AuditLog) : Bool := r.createdAt.ms < cutoff

/-- `orderBy: [{ createdAt: "asc" }, { id: "asc" }]`. -/
def sweepKey (r : AuditLog) : Int ×ₗ String := toLex (r.createdAt.ms, r.id)

def eligible (r : AuditLog) : Bool :=
  expired cutoff r && auditLogHoldExclusion holds r

def selectPage : List AuditLog :=
  (Pages.inOrder sweepKey (logs.filter (eligible cutoff holds))).take BATCH_SIZE

/-- The row `deleteMany` picks. -/
def deletes (ids : List String) (holds : List AuditLegalHold) (r : AuditLog) : Bool :=
  ids.contains r.id && auditLogHoldExclusion holds r

def deleteMany (ids : List String) (holds : List AuditLegalHold) : List AuditLog :=
  logs.filter fun r => !deletes ids holds r

/-! ## The system -/

structure State where
  tables : AuditTables
  holds : List AuditLegalHold
  /-- Every id a record was ever given. -/
  issued : List String
  sweeps : Nat → Sweep

def State.start : State := ⟨⟨[], []⟩, [], [], fun _ => .idle⟩

inductive Event where
  | append (data : AuditData) (stamp : Stamp)
  | requestHold (organizations : List String) (inEffect : Nat) (id userId : String)
      (dto : CreateAuditLegalHoldDto) (now : Date)
  | decideHold (userId id : String) (expectedRevision : Nat) (action : HoldAction) (now : Date)
  | startSweep (p : Nat) (now : Date) (days : Nat)
  | sweep (p : Nat)
  | stop (p : Nat)

def State.set (p : Nat) (x : Sweep) : State := { w with sweeps := Function.update w.sweeps p x }

/-- The record an append brings is new, and not older than its chain. -/
def Admits (d : AuditData) (s : Stamp) : Prop :=
  s.id ∉ w.issued ∧ ∀ r ∈ chainRows w.tables.logs d.chainKey, r.createdAt ≤ d.createdAt.getD s.now
  deriving Decidable

def sweepStep (p : Nat) : Option State :=
  match w.sweeps p with
  | .idle => none
  | .batch now cutoff batches =>
    match readHolds w.holds now with
    | none => some (w.set p .idle)
    | some holds => some (w.set p (.selecting now cutoff batches holds))
  | .selecting now cutoff batches holds =>
    let page := selectPage w.tables.logs cutoff holds
    if page = [] then some (w.set p .idle)
    else some (w.set p (.selected now cutoff batches (page.map AuditLog.id)))
  | .selected now cutoff batches ids =>
    match readHolds w.holds now with
    | none => some (w.set p .idle)
    | some holds => some (w.set p (.deleting now cutoff batches ids holds))
  | .deleting now cutoff batches ids holds =>
    let w' := { w with tables := { w.tables with logs := deleteMany w.tables.logs ids holds } }
    if ids.length < BATCH_SIZE then some (w'.set p .idle)
    else if batches + 1 < MAX_BATCHES_PER_RUN then some (w'.set p (.batch now cutoff (batches + 1)))
    else some (w'.set p .idle)

def step : Event → Option State
  | .append d s =>
    if Admits w d s then
      some { w with tables := commit w.tables (appendAuditLog w.tables d s), issued := s.id :: w.issued }
    else none
  | .requestHold organizations inEffect id userId dto now =>
    match request organizations inEffect id userId dto now with
    | .ok hold => some { w with holds := w.holds ++ [hold] }
    | .error _ => some w
  | .decideHold userId id expectedRevision action now =>
    some { w with holds := commit w.holds (transition w.holds userId id expectedRevision action now) }
  | .startSweep p now days =>
    if w.sweeps p = .idle then some (w.set p (.batch now (cutoffFor days now) 0)) else none
  | .sweep p => sweepStep w p
  | .stop p => some (w.set p .idle)

/-! ## The condition -/

def Before (r r' : AuditLog) : Prop := r.chainKey = r'.chainKey ∧ r.sequence < r'.sequence
  deriving Decidable

/-- No protected record precedes an expired unprotected one of its chain. -/
def HoldsLast : Prop :=
  ∀ r ∈ logs, ∀ r' ∈ logs, Before r r' → expired cutoff r' → isAuditRecordHeld r holds →
    isAuditRecordHeld r' holds
  deriving Decidable

/-- Expired records of one chain and instant have ids in chain order. -/
def TiesInOrder : Prop :=
  ∀ r ∈ logs, ∀ r' ∈ logs, Before r r' → expired cutoff r' → r.createdAt = r'.createdAt → r.id < r'.id
  deriving Decidable

/-- What a sweep about to select or to delete finds. -/
def SweepFinds : Sweep → Prop
  | .selecting _ cutoff _ holds => HoldsLast logs cutoff holds ∧ TiesInOrder logs cutoff
  | .deleting _ cutoff _ _ holds => HoldsLast logs cutoff holds
  | _ => True

def LeavesNoHole : Event → Prop
  | .sweep p => SweepFinds w.tables.logs (w.sweeps p)
  | _ => True

/-! ## What a page holds -/

/-- The ids a sweep has selected: of expired records, and of every record before one of them. -/
structure Page (logs : List AuditLog) (issued : List String) (cutoff : Int) (ids : List String) : Prop where
  issued : ∀ i ∈ ids, i ∈ issued
  expired : ∀ r ∈ logs, r.id ∈ ids → expired cutoff r
  downward : ∀ r ∈ logs, ∀ r' ∈ logs, Before r r' → r'.id ∈ ids → r.id ∈ ids

variable {logs : List AuditLog} {ids issued : List String} {cutoff : Int} {holds : List AuditLegalHold} {w : State}
  {logs' : List AuditLog} {r : AuditLog} {c : AuditChainCursor} {x : Sweep} {p : Nat} {d : AuditData} {s : Stamp}
  {w' : State} {e : Event} {now : Date}

/-- A record that ends its chain and has a new id is in no page and before none. -/
theorem Page.append {r₀ : AuditLog}
    (h : Page logs issued cutoff ids) (hnew : r₀.id ∉ issued) (hlast : ∀ r ∈ logs ++ [r₀], ¬ Before r₀ r) :
    Page (logs ++ [r₀]) (r₀.id :: issued) cutoff ids := by
  have hout : r₀.id ∉ ids := fun hin => hnew (h.issued _ hin)
  refine ⟨fun i hi => mem_cons_of_mem _ (h.issued i hi), fun r hr hin => ?_, fun r hr r' hr' hbefore hin => ?_⟩
  · rcases mem_append_row.mp hr with hr | rfl
    · exact h.expired r hr hin
    · exact absurd hin hout
  · rcases mem_append_row.mp hr' with hold' | rfl
    · rcases mem_append_row.mp hr with hold | rfl
      · exact h.downward r hold r' hold' hbefore hin
      · exact absurd hbefore (hlast r' hr')
    · exact absurd hin hout

def Aging (logs : List AuditLog) : Prop := ∀ r ∈ logs, ∀ r' ∈ logs, Before r r' → r.createdAt ≤ r'.createdAt

theorem nodup_sweepKey {rows : List AuditLog} (h : (rows.map AuditLog.id).Nodup) : (rows.map sweepKey).Nodup := by
  have hid : rows.map AuditLog.id = (rows.map sweepKey).map fun k => (ofLex k).2 := by
    rw [map_map]
    rfl
  rw [hid] at h
  exact h.of_map _

theorem eligible_eq_true : eligible cutoff holds r ↔ expired cutoff r ∧ isAuditRecordHeld r holds = false := by
  unfold eligible
  rw [auditLogHoldExclusion_eq, Bool.and_eq_true_iff, Bool.not_eq_true']

/-- A selected page holds, of each chain, the first of the expired records. -/
theorem page_selectPage
    (hids : (logs.map AuditLog.id).Nodup) (hissued : ∀ r ∈ logs, r.id ∈ issued) (haging : Aging logs)
    (hholds : HoldsLast logs cutoff holds) (hties : TiesInOrder logs cutoff) :
    Page logs issued cutoff ((selectPage logs cutoff holds).map AuditLog.id) := by
  have hkeys : ((logs.filter (eligible cutoff holds)).map sweepKey).Nodup :=
    nodup_sweepKey ((filter_sublist.map _).nodup hids)
  have hpage : ∀ r ∈ selectPage logs cutoff holds, r ∈ logs ∧ eligible cutoff holds r := fun r hr =>
    mem_filter.mp (Pages.mem_inOrder.mp (mem_of_mem_take hr))
  -- ids are unique, so a record with a selected id is the selected record
  have hmem : ∀ r ∈ logs, r.id ∈ (selectPage logs cutoff holds).map AuditLog.id → r ∈ selectPage logs cutoff holds := by
    intro r hr hin
    obtain ⟨x, hx, hxid⟩ := mem_map.mp hin
    exact eq_of_key hids (hpage x hx).1 hr hxid ▸ hx
  refine ⟨fun i hi => ?_, fun r hr hin => ?_, fun r hr r' hr' hbefore hin => ?_⟩
  · obtain ⟨x, hx, rfl⟩ := mem_map.mp hi
    exact hissued x (hpage x hx).1
  · exact (eligible_eq_true.mp (hpage r (hmem r hr hin)).2).1
  · have hselected := hmem r' hr' hin
    obtain ⟨hexpired', hfree'⟩ := eligible_eq_true.mp (hpage r' hselected).2
    have hle : r.createdAt.ms ≤ r'.createdAt.ms := haging r hr r' hr' hbefore
    have hlt' : r'.createdAt.ms < cutoff := of_decide_eq_true hexpired'
    have hexpired : expired cutoff r := decide_eq_true (show r.createdAt.ms < cutoff by omega)
    have hfree : isAuditRecordHeld r holds = false := by
      by_contra hheld
      have := hholds r hr r' hr' hbefore hexpired' (Bool.eq_true_of_not_eq_false hheld)
      rw [hfree'] at this
      cases this
    have hkey : sweepKey r < sweepKey r' := by
      refine Prod.Lex.toLex_lt_toLex.mpr ?_
      by_cases htie : r.createdAt.ms = r'.createdAt.ms
      · exact .inr ⟨htie, hties r hr r' hr' hbefore hexpired' (Date.ext_ms htie)⟩
      · exact .inl (show r.createdAt.ms < r'.createdAt.ms by omega)
    have hin' : r ∈ logs.filter (eligible cutoff holds) := mem_filter.mpr ⟨hr, eligible_eq_true.mpr ⟨hexpired, hfree⟩⟩
    exact mem_map.mpr ⟨r, Pages.mem_take_of_lt hkeys hin' hselected hkey, rfl⟩

/-! ## What a delete leaves -/

/-- The deleted records of a chain are its first ones. -/
theorem linked_deleteMany
    (hpage : Page logs issued cutoff ids) (hholds : HoldsLast logs cutoff holds) {key : String}
    {c c' : AuditChainCursor} (hlinked : Linked key c (chainRows logs key) c') :
    ∃ d, Linked key d (chainRows (deleteMany logs ids holds) key) c' := by
  have hdown : ∀ r ∈ logs, ∀ r' ∈ logs, Before r r' → deletes ids holds r' → deletes ids holds r := by
    intro r hr r' hr' hbefore hdel
    unfold deletes at hdel ⊢
    rw [auditLogHoldExclusion_eq, Bool.and_eq_true_iff, Bool.not_eq_true'] at hdel ⊢
    obtain ⟨hin, hfree⟩ := hdel
    have hid : r'.id ∈ ids := contains_iff_mem.mp hin
    refine ⟨contains_iff_mem.mpr (hpage.downward r hr r' hr' hbefore hid), ?_⟩
    by_contra hheld
    have := hholds r hr r' hr' hbefore (hpage.expired r' hr' hid) (Bool.eq_true_of_not_eq_false hheld)
    rw [hfree] at this
    cases this
  have hkeep : (chainRows logs key).Pairwise fun a b => (!deletes ids holds a) → (!deletes ids holds b) := by
    refine (strict_of_linked hlinked).imp_of_mem fun {a b} ha hb hlt hkept => ?_
    obtain ⟨ha, hakey⟩ := mem_filter.mp ha
    obtain ⟨hb, hbkey⟩ := mem_filter.mp hb
    have hbefore : Before a b := ⟨(of_decide_eq_true hakey).trans (of_decide_eq_true hbkey).symm, hlt⟩
    rw [Bool.not_eq_true'] at hkept ⊢
    by_contra hdel
    have := hdown a ha b hb hbefore (Bool.eq_true_of_not_eq_false hdel)
    rw [hkept] at this
    cases this
  obtain ⟨gone, hgone⟩ := Pages.filter_suffix hkeep
  have hrows : chainRows (deleteMany logs ids holds) key = (chainRows logs key).filter fun r =>
      !deletes ids holds r := by
    unfold chainRows deleteMany
    rw [filter_comm]
  rw [← hgone] at hlinked
  obtain ⟨d, -, hrest⟩ := linked_append.mp hlinked
  exact ⟨d, hrows ▸ hrest⟩

/-! ## Every run -/

def SweepInv (logs : List AuditLog) (issued : List String) : Sweep → Prop
  | .selected _ cutoff _ ids => Page logs issued cutoff ids
  | .deleting _ cutoff _ ids _ => Page logs issued cutoff ids
  | _ => True

structure Inv (w : State) : Prop where
  linked : ∀ key, ∃ c, Linked key c (chainRows w.tables.logs key) (w.tables.cursor key)
  aging : Aging w.tables.logs
  ids : (w.tables.logs.map AuditLog.id).Nodup
  issued : ∀ r ∈ w.tables.logs, r.id ∈ w.issued
  sweeps : ∀ p, SweepInv w.tables.logs w.issued (w.sweeps p)

theorem inv_start : Inv State.start where
  linked key := ⟨genesis key, rfl⟩
  aging _ hr := nomatch hr
  ids := nodup_nil
  issued _ hr := nomatch hr
  sweeps _ := trivial

theorem SweepInv.of_page {issued' : List String} (h : SweepInv logs issued x)
    (hpage : ∀ cutoff ids, Page logs issued cutoff ids → Page logs' issued' cutoff ids) : SweepInv logs' issued' x := by
  cases x with
  | selected _ cutoff _ ids | deleting _ cutoff _ ids => exact hpage cutoff ids h
  | _ => trivial

theorem Inv.set (h : Inv w) (hx : SweepInv w.tables.logs w.issued x) : Inv (w.set p x) :=
  have hall := (Function.forall_update_iff w.sweeps fun _ x => SweepInv w.tables.logs w.issued x).mpr
    ⟨hx, fun q _ => h.sweeps q⟩
  { h with sweeps := hall }

/-- The appended record ends its chain. -/
theorem not_before_appended {t : AuditTables}
    (hlinked : Linked d.chainKey c (chainRows t.logs d.chainKey) (t.cursor d.chainKey)) :
    ∀ r ∈ t.logs ++ [nextRecord (t.cursor d.chainKey) d s], ¬ Before (nextRecord (t.cursor d.chainKey) d s) r := by
  rintro r hr ⟨hkey, hlt⟩
  have hkey' : d.chainKey = r.chainKey := hkey
  have hlt' : (t.cursor d.chainKey).lastSequence + 1 < r.sequence := hlt
  rcases mem_append_row.mp hr with hold | rfl
  · have hmem : r ∈ chainRows t.logs d.chainKey := mem_filter.mpr ⟨hold, decide_eq_true hkey'.symm⟩
    have := (sequence_le_of_linked hlinked).1 r hmem
    omega
  · exact lt_irrefl _ hlt

theorem Inv.append (h : Inv w) (hadmits : Admits w d s) :
    Inv { w with tables := commit w.tables (appendAuditLog w.tables d s), issued := s.id :: w.issued } := by
  obtain ⟨c, hlinked⟩ := h.linked d.chainKey
  obtain ⟨t', happend⟩ := exists_append_of_linked s hlinked
  obtain ⟨hlogs, -⟩ := appendAuditLog_eq_ok happend
  have hlast := not_before_appended (s := s) hlinked
  rw [happend]
  show Inv { w with tables := t', issued := s.id :: w.issued }
  refine ⟨fun key => ?_, ?_, ?_, ?_, fun p => ?_⟩
  · obtain ⟨c, hc⟩ := h.linked key
    exact ⟨c, linked_of_append happend hc⟩
  · show Aging t'.logs
    rw [hlogs]
    intro r hr r' hr' hbefore
    rcases mem_append_row.mp hr with hold | rfl
    · rcases mem_append_row.mp hr' with hold' | rfl
      · exact h.aging r hold r' hold' hbefore
      · exact hadmits.2 r (mem_filter.mpr ⟨hold, decide_eq_true hbefore.1⟩)
    · exact absurd hbefore (hlast r' hr')
  · show (t'.logs.map AuditLog.id).Nodup
    rw [hlogs]
    refine nodup_append_row h.ids fun r hr heq => ?_
    have hid : r.id = s.id := heq
    exact hadmits.1 (hid ▸ h.issued r hr)
  · show ∀ r ∈ t'.logs, r.id ∈ s.id :: w.issued
    rw [hlogs]
    intro r hr
    rcases mem_append_row.mp hr with hold | rfl
    · exact mem_cons_of_mem _ (h.issued r hold)
    · exact mem_cons_self
  · show SweepInv t'.logs (s.id :: w.issued) (w.sweeps p)
    rw [hlogs]
    exact (h.sweeps p).of_page fun _ _ hpage => hpage.append hadmits.1 hlast

theorem Inv.delete (h : Inv w)
    (hpage : Page w.tables.logs w.issued cutoff ids) (hholds : HoldsLast w.tables.logs cutoff holds) :
    Inv { w with tables := { w.tables with logs := deleteMany w.tables.logs ids holds } } := by
  have hsub : ∀ r ∈ deleteMany w.tables.logs ids holds, r ∈ w.tables.logs := fun r hr => mem_of_mem_filter hr
  refine ⟨fun key => ?_, fun r hr r' hr' => h.aging r (hsub r hr) r' (hsub r' hr'), ?_,
    fun r hr => h.issued r (hsub r hr),
    fun p => (h.sweeps p).of_page fun _ _ hpage' => ⟨hpage'.issued, fun r hr => hpage'.expired r (hsub r hr),
      fun r hr r' hr' => hpage'.downward r (hsub r hr) r' (hsub r' hr')⟩⟩
  · obtain ⟨c, hc⟩ := h.linked key
    exact linked_deleteMany hpage hholds hc
  · exact (filter_sublist.map _).nodup h.ids

theorem sweepStep_inv (h : Inv w) (hok : SweepFinds w.tables.logs (w.sweeps p))
    (hstep : sweepStep w p = some w') : Inv w' := by
  have hinv := h.sweeps p
  unfold sweepStep at hstep
  generalize w.sweeps p = x at hok hinv hstep
  cases x with
  | idle => cases hstep
  | batch =>
    simp only at hstep
    split at hstep
    all_goals
      cases hstep
      exact h.set trivial
  | selecting =>
    simp only at hstep
    split at hstep
    · cases hstep
      exact h.set trivial
    · cases hstep
      exact h.set (page_selectPage h.ids h.issued h.aging hok.1 hok.2)
  | selected =>
    simp only at hstep
    split at hstep
    · cases hstep
      exact h.set trivial
    · cases hstep
      exact h.set hinv
  | deleting =>
    have hdeleted := h.delete hinv hok
    simp only at hstep
    split at hstep
    · cases hstep
      exact hdeleted.set trivial
    · split at hstep
      all_goals
        cases hstep
        exact hdeleted.set trivial

theorem step_inv (h : Inv w) (hok : LeavesNoHole w e) (hstep : step w e = some w') : Inv w' := by
  cases e with
  | append =>
    obtain ⟨hfresh, rfl⟩ := enabled hstep
    exact h.append hfresh
  | requestHold =>
    simp only [step] at hstep
    split at hstep
    all_goals
      cases hstep
      exact { h with }
  | decideHold =>
    cases hstep
    exact { h with }
  | startSweep =>
    obtain ⟨-, rfl⟩ := enabled hstep
    exact h.set trivial
  | sweep => exact sweepStep_inv h hok hstep
  | stop =>
    cases hstep
    exact h.set trivial

/-- Every chain verifies wherever such a run has come. -/
theorem verifies_under_retention (w : State) (hrun : Run step LeavesNoHole State.start w)
    (organizationId : Option String) : Verifies w.tables.logs organizationId := by
  have hinv : Inv w := hrun.invariant inv_start fun _ _ _ => step_inv
  obtain ⟨c, hc⟩ := hinv.linked (resolveChainKey organizationId)
  exact verifies_of_linked hc

/-! ## Three records and a hold -/

def logged : AuditData := ⟨"User", some "user-1", "API_KEY_CREATED", "ApiKey", some "key-1", none, none, none⟩

def today : Date := ⟨40000000000, by decide, by decide⟩

def threeAppends : List Event :=
  [.append logged ⟨"log-1", .epoch⟩, .append logged ⟨"log-2", ⟨1000, by decide, by decide⟩⟩,
    .append logged ⟨"log-3", today⟩]

def holdOnFirst : CreateAuditLegalHoldDto :=
  { scope := .platform
    organizationId := none
    rangeStart := .epoch
    rangeEnd := .epoch
    expiresAt := ⟨41000000000, by decide, by decide⟩ }

def oneSweep : List Event := [.startSweep 0 today 365, .sweep 0, .sweep 0, .sweep 0, .sweep 0]

instance : Decidable (LeavesNoHole w e) := by
  unfold LeavesNoHole SweepFinds
  split
  · split <;> infer_instance
  · infer_instance

/-- Without the hold the sweep removes the two expired records, and what is left verifies. -/
theorem swept_prefix_verifies : ∃ w, Run step LeavesNoHole State.start w ∧
    w.tables.logs.map AuditLog.sequence = [3] ∧ Verifies w.tables.logs none :=
  Run.exists_and (threeAppends ++ oneSweep) fun w hrun hleft =>
    ⟨hleft, verifies_under_retention w hrun none⟩

/-- The hold keeps the first record, the sweep removes the second, and the verifier reports a break. -/
theorem hold_leaves_hole : ∃ w : State, Run step anyStep State.start w ∧ ¬ Verifies w.tables.logs none := by
  refine Run.exists_and (P := fun w => ((chainRows w.tables.logs SYSTEM_CHAIN_KEY).map AuditLog.sequence).Nodup ∧
    (chainInOrder w.tables.logs SYSTEM_CHAIN_KEY).map AuditLog.sequence = [1, 3]) (threeAppends ++
      [.requestHold [] 0 "hold-1" "admin-1" holdOnFirst today] ++ oneSweep) fun w _ hleft hverified => ?_
  have hintact := (@verifyChain_ok_iff _ none hleft.1).mp hverified
  have hjoins : ((chainInOrder w.tables.logs SYSTEM_CHAIN_KEY).map AuditLog.sequence).IsChain fun n m => m = n + 1 :=
    isChain_map_of_isChain _ (fun _ _ h => h.2) hintact.2
  rw [hleft.2] at hjoins
  exact absurd (isChain_cons_cons.mp hjoins).1 (by decide)

/-! ## Holds made during a sweep -/

def Sweep.now? : Sweep → Option Date
  | .idle => none
  | .batch now .. | .selecting now .. | .selected now .. | .deleting now .. => some now

/-- A hold that covers the record is in effect, by the clock of the sweep that takes the step. -/
def Protected (r : AuditLog) (w : State) : Event → Prop
  | .sweep p => ∀ now ∈ (w.sweeps p).now?, ∃ hold ∈ w.holds, isHoldInEffect hold now ∧ isAuditRecordHeld r [hold]
  | _ => True

/-- The holds a sweep deletes by are those in effect: none has come or changed since it read them. -/
def ReadsCurrent (w : State) : Event → Prop
  | .sweep p =>
    match w.sweeps p with
    | .deleting now _ _ _ holds => readHolds w.holds now = some holds
    | _ => True
  | _ => True

theorem readHolds_eq_some {page : List AuditLegalHold} (h : readHolds holds now = some page) :
    page = holds.filter (isHoldInEffect · now) := by
  unfold readHolds at h
  simp only at h
  split at h
  · cases h
  · rename_i hfew
    rw [length_take] at hfew
    rw [← Option.some.inj h]
    exact take_of_length_le (by omega)

theorem step_keeps (hr : r ∈ w.tables.logs) (hprotected : Protected r w e)
    (hcurrent : ReadsCurrent w e) (hstep : step w e = some w') : r ∈ w'.tables.logs := by
  cases e with
  | append =>
    obtain ⟨-, rfl⟩ := enabled hstep
    refine commit_rule (P := fun t : AuditTables => r ∈ t.logs) hr fun t' hok => ?_
    rw [(appendAuditLog_eq_ok hok).1]
    exact mem_append_left _ hr
  | requestHold =>
    simp only [step] at hstep
    split at hstep
    all_goals
      cases hstep
      exact hr
  | decideHold | stop =>
    cases hstep
    exact hr
  | startSweep =>
    obtain ⟨-, rfl⟩ := enabled hstep
    exact hr
  | sweep p =>
    simp only [step, sweepStep] at hstep
    simp only [Protected, ReadsCurrent] at hprotected hcurrent
    generalize w.sweeps p = x at hstep hprotected hcurrent
    cases x with
    | deleting now cutoff batches ids holds =>
      obtain ⟨hold, hhold, heffect, hcovers⟩ := hprotected now rfl
      have hkept : r ∈ deleteMany w.tables.logs ids holds := by
        have hheld : isAuditRecordHeld r holds := by
          rw [readHolds_eq_some hcurrent]
          refine any_eq_true.mpr ⟨hold, mem_filter.mpr ⟨hhold, heffect⟩, ?_⟩
          simpa [isAuditRecordHeld] using hcovers
        refine mem_filter.mpr ⟨hr, ?_⟩
        simp [deletes, auditLogHoldExclusion_eq, hheld]
      simp only at hstep
      split at hstep
      · cases hstep
        exact hkept
      · split at hstep
        all_goals
          cases hstep
          exact hkept
    | idle => cases hstep
    | _ =>
      -- the other accesses read, and move the sweep on
      simp only at hstep
      split at hstep
      all_goals
        cases hstep
        exact hr

/-- From any state, a record stays as long as a hold that covers it is in effect and sweeps delete
    by the holds that are in effect. -/
theorem held_record_kept {r : AuditLog} {w w' : State} (hr : r ∈ w.tables.logs)
    (hrun : Run step (fun w e => Protected r w e ∧ ReadsCurrent w e) w w') : r ∈ w'.tables.logs :=
  hrun.invariant (I := fun w => r ∈ w.tables.logs) hr fun _ _ _ hr hok hstep => step_keeps hr hok.1 hok.2 hstep

instance : Decidable (Protected r w e ∧ ReadsCurrent w e) := by
  have : Decidable (Protected r w e) := by unfold Protected; split <;> infer_instance
  have : Decidable (ReadsCurrent w e) := by
    unfold ReadsCurrent; split <;> first | infer_instance | (split <;> infer_instance)
  infer_instance

def holdRequested : Event := .requestHold [] 0 "hold-1" "admin-1" holdOnFirst today

/-- The hold is made before the sweep starts: the first record outlives it, the second does not. -/
theorem held_record_kept_swept : ∃ w w' r, Run step anyStep State.start w ∧ r ∈ w.tables.logs ∧ r.id = "log-1" ∧
    Run step (fun w e => Protected r w e ∧ ReadsCurrent w e) w w' ∧ w'.tables.logs.length = 2 ∧ r ∈ w'.tables.logs := by
  have hreplay : ∃ w ∈ Run.replay step anyStep State.start (threeAppends ++ [holdRequested]), ∃ r ∈ w.tables.logs,
      r.id = "log-1" ∧ ∃ w' ∈ Run.replay step (fun w e => Protected r w e ∧ ReadsCurrent w e) w oneSweep,
        w'.tables.logs.length = 2 := by
    decide +kernel
  obtain ⟨w, hw, r, hr, hid, w', hw', hlength⟩ := hreplay
  have hrun := Run.of_replay _ hw'
  exact ⟨w, w', r, Run.of_replay _ hw, hr, hid, hrun, hlength, held_record_kept hr hrun⟩

/-- The hold is made between the sweep's second read of the holds and its delete: in effect, it
    covers the first record, which goes. -/
theorem deleted_under_hold : ∃ w w', Run step anyStep State.start w ∧ step w (.sweep 0) = some w' ∧
    ∃ hold ∈ w.holds, isHoldInEffect hold today ∧ ∃ r ∈ w.tables.logs, isAuditRecordHeld r [hold] ∧
      r ∉ w'.tables.logs :=
  Run.exists_step_of_replay (threeAppends ++ oneSweep.take 4 ++ [holdRequested]) (.sweep 0)

end EarnProof.Audit.Retention
