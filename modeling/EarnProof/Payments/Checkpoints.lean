/-
  EarnProof.Payments.Checkpoints — what racing syncs can do to a user's checkpoint.

  Every write of the row is conditional on the id and version its sync has read, and
  raises the version. So the row a write is made against is the very row its sync holds
  (`Ledgered.eq_of_guards`), and the forward check of `advance`, made against the plan,
  is a check against the stored row.

  Proved, over every interleaving of any number of syncs: a row's token goes down in no
  write but one that completes a reconciliation, no version of a row is written twice,
  and a sync whose guard fails leaves the checkpoint alone (`checkpoint_monotone`). A
  reconciliation that confirms nothing deletes the row, and the next one starts at
  version 0 again, wherever its feed begins (`versions_start_over`).
-/
import EarnProof.Payments.SyncSteps

namespace EarnProof.Payments

open Lib Lib.Table Lib.Calendar Database Stellar List

/-! ## What a sync holds -/

def SyncPlan.checkpoint? : SyncPlan → Option PaymentSyncCheckpoint
  | .initial => none
  | .resume c => some c
  | .reconcile c _ => some c

def Target.checkpoint? : Target → Option PaymentSyncCheckpoint
  | .establish => none
  | .advance c => some c
  | .complete c => some c

/-- The checkpoint row a sync has read and still uses. -/
def Stage.holds : Stage → Option PaymentSyncCheckpoint
  | .load => none
  | .prove c => some c
  | .diverge c _ => some c
  | .assets plan => plan.checkpoint?
  | .read plan => plan.checkpoint?
  | .lookup plan _ => plan.checkpoint?
  | .write plan _ _ _ => plan.checkpoint?
  | .identify plan _ _ _ _ => plan.checkpoint?
  | .settle plan _ => plan.checkpoint?
  | .refresh c => some c
  | .claim target _ => target.checkpoint?
  | .commit target _ => target.checkpoint?
  | .orphan c _ _ => some c
  | .count c _ _ => some c
  | .saveCursor c _ => some c
  | .newest c => some c
  | .choose c _ => some c
  | .remove c => some c
  | .report _ _ => none
  | .done _ => none

/-- The row a sync's next write of the checkpoint is conditional on. -/
def Stage.guard : Stage → Option PaymentSyncCheckpoint
  | .diverge c _ => some c
  | .refresh c => some c
  | .commit target _ => target.checkpoint?
  | .saveCursor c _ => some c
  | .remove c => some c
  | _ => none

/-- An anchor that moves the checkpoint is past the row the sync holds. -/
def Stage.Forward : Stage → Prop
  | .claim (.advance c) anchor => c.pagingToken < anchor.pagingToken
  | .commit (.advance c) k => c.pagingToken < k.pagingToken
  | _ => True

@[simp] theorem holds_planned (s : Sync) (plan : SyncPlan) : (s.planned plan).stage.holds = plan.checkpoint? :=
  planned_cases (P := fun stage => stage.holds = plan.checkpoint?) rfl rfl

variable {c : PaymentSyncCheckpoint} {cfg : Config} {a : Answer} {s : Sync} {w : World}

theorem settleStage_holds {plan : SyncPlan} {read : HorizonReadResult}
    (h : (settleStage plan read).holds = some c) : plan.checkpoint? = some c := by
  revert h
  refine settleStage_cases (P := fun stage => stage.holds = some c → plan.checkpoint? = some c) ?_ ?_ ?_ ?_ ?_
  · exact fun _ _ hplan hc => hplan ▸ hc
  · exact nofun
  · exact nofun
  · exact fun _ hplan hc => hplan ▸ hc
  · exact fun _ _ hplan _ hc => hplan ▸ hc

variable {db db' : Store} {t : Sync} {stage : Stage} {row : PaymentSyncCheckpoint}
  {after wrote : Option PaymentSyncCheckpoint} {rows : List PaymentSyncCheckpoint} {p : Nat}

/-- What a sync holds after an access it held before, or a plan took it from the store. -/
theorem Next.holds (h : Next cfg a db db' s t) (hc : t.stage.holds = some c) :
    s.stage.holds = some c ∨ (s.stage.plans ∧ db'.checkpoint = some c) := by
  cases h with
  | initial => rw [holds_planned] at hc; cases hc
  | reconcile row hplans hrow =>
    rw [holds_planned] at hc
    exact .inr ⟨hplans, hrow.trans hc⟩
  | prove row hstage hrow => exact .inr ⟨by rw [hstage]; rfl, hrow.trans hc⟩
  | resume row hstage =>
    rw [holds_planned] at hc
    rw [hstage]
    exact .inl hc
  | refute row reason hstage | diverge row read reason hstage | assets plan hstage | read plan hstage
  | write plan read hstage _ | identify plan read replaced p rest hstage
  | written plan read replaced p rest hstage | settle plan read replaced hstage
  | commit target anchor k hstage _ | count row floor read hstage | saveCursor row floor read k hstage _
  | newest row floor read hstage | choose row ledger hstage _ | complete row ledger anchor hstage _ =>
    rw [hstage]; exact .inl hc
  | settled plan read hstage => rw [hstage]; exact .inl (settleStage_holds hc)
  | remove row hstage =>
    rcases hstage with hstage | ⟨ledger, hstage⟩
    · rw [hstage]; exact .inl hc
    · rw [hstage]; exact .inl hc
  | _ => cases hc

theorem Next.forward (h : Next cfg a db db' s t) (hs : s.stage.Forward) : t.stage.Forward := by
  cases htarget : t.stage.target? with
  | none =>
    unfold Stage.Forward
    split
    · next hstage => cases hstage ▸ htarget
    · next hstage => cases hstage ▸ htarget
    · exact trivial
  | some target =>
    rcases h.target htarget with ⟨plan, read, ht⟩ | ⟨c, ledger, anchor, -, ht, -⟩ | ⟨anchor, k, hstage, ht, hclaim⟩
    · rw [ht]
      exact settleStage_cases (fun _ _ _ => trivial) trivial (fun _ => trivial) (fun _ _ => trivial)
        fun _ _ _ hlt => hlt
    · rw [ht]
      exact trivial
    · rw [hstage] at hs
      rw [ht]
      cases target with
      | establish | complete => exact trivial
      | advance =>
        unfold claimFor at hclaim
        split at hclaim
        · split at hclaim
          · cases hclaim
            exact hs
          · cases hclaim
        · cases hclaim

/-! ## Every version is stored once -/

def PaymentSyncCheckpoint.key (c : PaymentSyncCheckpoint) : String × Nat := (c.id, c.version)

/-- The stored row and the rows in hand are rows there have been, each version of one
    once, and the stored row is the latest of its id. -/
structure Ledgered (w : World) : Prop where
  unique : (w.rows.map PaymentSyncCheckpoint.key).Nodup
  current : ∀ c, w.db.checkpoint = some c → c ∈ w.rows
  latest : ∀ c, w.db.checkpoint = some c → ∀ r ∈ w.rows, r.id = c.id → r.version ≤ c.version
  held : ∀ p s, w.syncs p = some s → (∀ c, s.stage.holds = some c → c ∈ w.rows) ∧ s.stage.Forward
  logged : (w.writes.map Prod.snd).Sublist w.rows

theorem ledgered_start (db : Store) : Ledgered (World.start db) where
  unique := by
    unfold World.start
    cases db.checkpoint <;> simp
  current := fun c hc => Option.mem_toList.mpr hc
  latest := by
    intro c hc r hr _
    obtain rfl := Option.some.inj (hc.symm.trans (Option.mem_toList.mp hr))
    exact le_refl _
  held := fun p s hs => nomatch hs
  logged := nil_sublist _

/-- A row in hand that guards the stored row is the stored row. -/
theorem Ledgered.eq_of_guards (h : Ledgered w) (hc : c ∈ w.rows)
    (hrow : w.db.checkpoint = some row) (hguard : c.guards row) : row = c := by
  obtain ⟨hid, hversion⟩ := of_decide_eq_true hguard
  exact eq_of_key h.unique (h.current row hrow) hc (Prod.ext hid hversion)

/-- A written row is newer than every row of its id. -/
theorem Ledgered.newer (h : Ledgered w) (hfresh : a.freshId ∉ w.rows.map (·.id)) {row' : PaymentSyncCheckpoint}
    (hchange : Change a stage w.db.checkpoint (some row') after) :
    ∀ r ∈ w.rows, r.id = row'.id → r.version < row'.version := by
  intro r hr hid
  obtain ⟨-, hnew | ⟨row, hrow, hsame, hnext⟩⟩ := hchange.of_some
  · exact absurd (mem_map.mpr ⟨r, hr, hid.trans hnew.2⟩) hfresh
  · have hle := h.latest row hrow r hr (hid.trans hsame)
    omega

theorem key_ne_of_newer
    (hnewer : ∀ r ∈ rows, r.id = row.id → r.version < row.version) : ∀ r ∈ rows, r.key ≠ row.key := by
  intro r hr hkey
  obtain ⟨hid, hversion⟩ := Prod.mk.inj hkey
  have hlt := hnewer r hr hid
  omega

/-- A row that is newer than every row of its id can be added. -/
theorem versions_append (hunique : (rows.map PaymentSyncCheckpoint.key).Nodup)
    (hnewer : ∀ r ∈ rows, r.id = row.id → r.version < row.version) :
    ((rows ++ [row]).map PaymentSyncCheckpoint.key).Nodup ∧ ∀ r ∈ rows ++ [row], r.id = row.id →
      r.version ≤ row.version := by
  constructor
  · exact nodup_append_row hunique (key_ne_of_newer hnewer)
  · intro r hr hid
    rcases mem_append.mp hr with hr | hr
    · exact le_of_lt (hnewer r hr hid)
    · rw [mem_singleton.mp hr]

theorem Ledgered.access (h : Ledgered w)
    (hs : w.syncs p = some s) (hfresh : a.freshId ∉ w.rows.map (·.id)) :
    Ledgered (w.put p s (s.access cfg a w.db)) := by
  have hchange := access_change cfg a w.db s
  have hnext := access_next cfg a w.db s
  generalize s.access cfg a w.db = x at hchange hnext
  -- Whatever the access wrote, its sync holds a row it held or the stored one.
  have hheld : (∀ c, x.db.checkpoint = some c → c ∈ w.rows ++ x.wrote.toList) → ∀ q t, (w.put p s x).syncs q = some t →
      (∀ c, t.stage.holds = some c → c ∈ w.rows ++ x.wrote.toList) ∧ t.stage.Forward := by
    intro hstored q t ht
    rcases update_eq_some ht with ⟨rfl, hx⟩ | ⟨-, hx⟩
    · cases hx
      obtain ⟨hrows, hforward⟩ := h.held q s hs
      refine ⟨fun c hc => ?_, hnext.forward hforward⟩
      rcases hnext.holds hc with hc | ⟨-, hc⟩
      · exact mem_append_left _ (hrows c hc)
      · exact hstored c hc
    · obtain ⟨hrows, hforward⟩ := h.held q t hx
      exact ⟨fun c hc => mem_append_left _ (hrows c hc), hforward⟩
  have hlogged : ((w.put p s x).writes.map Prod.snd).Sublist (w.rows ++ x.wrote.toList) := by
    show ((w.writes ++ x.wrote.toList.map fun row => (p, row)).map Prod.snd).Sublist (w.rows ++ x.wrote.toList)
    rw [map_append, map_map]
    exact h.logged.append (by simp)
  cases hw : x.wrote with
  | none =>
    have hrows : (w.put p s x).rows = w.rows := by simp [World.put, hw]
    rw [hw] at hchange
    have hbefore : ∀ c, x.db.checkpoint = some c → w.db.checkpoint = some c := by
      intro c hc
      rcases hchange.of_none with heq | heq
      · exact heq.symm.trans hc
      · rw [heq] at hc; cases hc
    have hstored : ∀ c, x.db.checkpoint = some c → c ∈ w.rows ++ x.wrote.toList :=
      fun c hc => mem_append_left _ (h.current c (hbefore c hc))
    refine ⟨hrows ▸ h.unique, hstored, fun c hc => ?_, hheld hstored, hlogged⟩
    rw [hrows]
    exact h.latest c (hbefore c hc)
  | some row' =>
    have hrows : (w.put p s x).rows = w.rows ++ [row'] := by simp [World.put, hw]
    rw [hw] at hchange
    obtain ⟨hunique, hlatest⟩ := versions_append h.unique (h.newer hfresh hchange)
    have hrow : ∀ c, x.db.checkpoint = some c → c = row' :=
      fun c hc => Option.some.inj (hc.symm.trans hchange.of_some.1)
    have hstored : ∀ c, x.db.checkpoint = some c → c ∈ w.rows ++ x.wrote.toList := by
      intro c hc
      rw [hrow c hc, hw]
      exact mem_append_right _ mem_cons_self
    refine ⟨hrows ▸ hunique, hstored, fun c hc => ?_, hheld hstored, hlogged⟩
    rw [hrows, hrow c hc]
    exact hlatest

theorem step_ledgered (cfg : Config) (w : World) (e : Event) (w' : World) (h : Ledgered w)
    (hstep : step cfg w e = some w') : Ledgered w' := by
  rcases step_cases hstep with ⟨p, account, -, -, rfl⟩ | ⟨p, a, s, -, hs, hfresh, rfl⟩ | ⟨p, -, rfl⟩
  · refine { h with held := forall_moved (fun t hx => ?_) h.held }
    cases hx
    exact ⟨(fun c hc => nomatch hc), trivial⟩
  · exact h.access hs hfresh
  · exact { h with held := forall_gone h.held }

/-! ## Monotonicity -/

def Completes (w : World) (e : Event) : Prop :=
  ∃ p a s c k, e = .access p a ∧ w.syncs p = some s ∧ s.stage = .commit (.complete c) k

/-- The event is a write whose row is no longer the one its sync has read. -/
def GuardFails (w : World) (e : Event) : Prop :=
  ∃ p a s c, e = .access p a ∧ w.syncs p = some s ∧ s.stage.guard = some c ∧ w.db.checkpoint.any c.guards = false

/-- A write that does not complete a reconciliation does not lower the token. -/
theorem Change.token_le (h : Ledgered w) (hs : w.syncs p = some s)
    {before after : PaymentSyncCheckpoint} (hchange : Change a s.stage w.db.checkpoint wrote (some after))
    (hbefore : w.db.checkpoint = some before) :
    before.pagingToken ≤ after.pagingToken ∨ ∃ c k, s.stage = .commit (.complete c) k := by
  obtain ⟨hrows, hforward⟩ := h.held p s hs
  generalize hafter : some after = stored at hchange
  cases hchange with
  | keep =>
    obtain rfl := Option.some.inj (hafter.trans hbefore)
    exact .inl (le_refl _)
  | establish k _ hnone => rw [hnone] at hbefore; cases hbefore
  | diverge c row reason _ hrow | refresh c row _ hrow | cursor c row k _ hrow =>
    obtain rfl := Option.some.inj (hrow.symm.trans hbefore)
    cases hafter
    exact .inl (le_refl _)
  | advance c row k hstage hrow hguard =>
    -- The plan's row is the stored row, so past the one is past the other.
    rw [hstage] at hrows hforward
    obtain rfl := h.eq_of_guards (hrows c rfl) hrow hguard
    obtain rfl := Option.some.inj (hrow.symm.trans hbefore)
    cases hafter
    exact .inl (le_of_lt hforward)
  | complete c row k hstage => exact .inr ⟨c, k, hstage⟩
  | remove => cases hafter

/-- A change made under a guard needs the guard to hold. -/
theorem Change.keep_of_guard {before wrote after : Option PaymentSyncCheckpoint}
    (h : Change a stage before wrote after) (hguard : stage.guard = some c)
    (hfails : before.any c.guards = false) : after = before := by
  have hnot : ∀ row, before = some row → c.guards row → False := by
    intro row hrow hg
    rw [hrow, Option.any_some, hg] at hfails
    cases hfails
  cases h with
  | keep => rfl
  | establish k hstage => rw [hstage] at hguard; cases hguard
  | diverge c' row reason hstage hrow hg _ | refresh c' row hstage hrow hg | cursor c' row k hstage hrow hg
  | advance c' row k hstage hrow hg | complete c' row k hstage hrow hg | remove c' row hstage hrow hg =>
    rw [hstage] at hguard
    cases hguard
    exact (hnot row hrow hg).elim

/-- Over every interleaving of syncs: no version of a checkpoint row is written twice; a
    row's token goes down only where a reconciliation is completed; and a sync whose guard
    fails changes nothing of the checkpoint. -/
theorem checkpoint_monotone (cfg : Config) (db : Store) (w : World)
    (hrun : Run (step cfg) anyStep (World.start db) w) :
    (w.writes.map fun x => (x.2.id, x.2.version)).Nodup ∧
    ∀ e w', step cfg w e = some w' →
      (∀ before after, w.db.checkpoint = some before → w'.db.checkpoint = some after →
        before.pagingToken ≤ after.pagingToken ∨ Completes w e) ∧
      (GuardFails w e → w'.db.checkpoint = w.db.checkpoint) := by
  have h := hrun.invariant (ledgered_start db) fun w e w' hinv _ hstep => step_ledgered cfg w e w' hinv hstep
  refine ⟨?_, fun e w' hstep => ?_⟩
  · have hnodup := (h.logged.map PaymentSyncCheckpoint.key).nodup h.unique
    rw [map_map] at hnodup
    exact hnodup
  · rcases step_cases hstep with ⟨p, account, he, -, rfl⟩ | ⟨p, a, s, he, hs, -, rfl⟩ | ⟨p, he, rfl⟩
    · refine ⟨fun before after hb ha => ?_, fun _ => rfl⟩
      obtain rfl := Option.some.inj (hb.symm.trans ha)
      exact .inl (le_refl _)
    · have hchange := access_change cfg a w.db s
      refine ⟨fun before after hb ha => ?_, ?_⟩
      · rw [show (s.access cfg a w.db).db.checkpoint = some after from ha] at hchange
        refine (hchange.token_le h hs hb).imp_right ?_
        rintro ⟨c, k, hstage⟩
        exact ⟨p, a, s, c, k, he, hs, hstage⟩
      · rintro ⟨q, b, t, c, he', ht, hguard, hfails⟩
        obtain ⟨rfl, rfl⟩ := Event.access.inj (he.symm.trans he')
        obtain rfl := Option.some.inj (hs.symm.trans ht)
        exact hchange.keep_of_guard hguard hfails
    · refine ⟨fun before after hb ha => ?_, fun _ => rfl⟩
      obtain rfl := Option.some.inj (hb.symm.trans ha)
      exact .inl (le_refl _)

/-! ## A checkpoint that starts over -/

def demoConfig : Config := ⟨"usr_1", 10, id, fun code _ => code, id⟩

def demoNow : Date := .epoch

def ledgerStart (ledger : Nat) : Nat := ledger * 2 ^ LEDGER_SHIFT

def demoPayment (operationId account : String) (ledger : Nat) : NormalizedPayment where
  operationId
  pagingToken := some (ledgerStart ledger)
  stellarTransactionHash := "tx_" ++ operationId
  sourceAddress := "GPAYER"
  destinationAddress := account
  assetCode := "XLM"
  assetIssuer := none
  amount := "1"
  occurredAt := demoNow

def silence : Answer := ⟨demoNow, "", none, none, ⟨[], .exhausted, none⟩, [], false⟩

def answersRead (payments : List NormalizedPayment) : Answer := { silence with read := ⟨payments, .exhausted, none⟩ }

def answersLedger (ledger : Nat) : Answer := { silence with ledger := some ⟨ledger, "hash"⟩ }

def answersId (id : String) : Answer := { silence with freshId := id }

def syncing (p : Nat) (account : String) (answers : List Answer) : List Event :=
  .start p account :: answers.map (.access p)

/-- What a first sync that finds one payment is answered: load, assets, read, lookup, the
    two upserts and the end of the loop, settle, claim, create. -/
def firstAnswers (account checkpointId operationId : String) (ledger : Nat) : List Answer :=
  [silence, silence, answersRead [demoPayment operationId account ledger]] ++ List.replicate 5 silence ++
    [answersLedger ledger, answersId checkpointId]

def firstSync (p : Nat) (account checkpointId operationId : String) (ledger : Nat) : List Event :=
  syncing p account (firstAnswers account checkpointId operationId ledger)

/-- A sync that no longer finds the checkpoint's ledger, nor anything in the feed: it
    holds the payment, orphans it and deletes the checkpoint. -/
def losingSync (p : Nat) (account : String) : List Event := syncing p account (List.replicate 12 silence)

/-- Three syncs, one after the other: the first and the third both write version 0, and
    the checkpoint falls from ledger 100 to ledger 50 in a write that completes nothing. -/
theorem versions_start_over : ∃ w, Run (step demoConfig) anyStep (World.start ⟨none, []⟩) w ∧
      w.writes.map (fun x => (x.1, x.2.id, x.2.version, x.2.pagingToken)) =
        [(0, "ck_1", 0, ledgerStart 100), (1, "ck_1", 1, ledgerStart 100), (2, "ck_2", 0, ledgerStart 50)] :=
  Run.exists_of_replay
    (firstSync 0 "GWALLET" "ck_1" "op_1" 100 ++ losingSync 1 "GWALLET" ++ firstSync 2 "GWALLET" "ck_2" "op_2" 50)

/-- Two syncs find that the checkpoint's ledger is gone; the second to say so finds the row changed. -/
theorem checkpoint_monotone_race :
    ∃ w w', Run (step demoConfig) anyStep (World.start ⟨none, []⟩) w ∧ step demoConfig w (.access 1 silence) = some w' ∧
      w.writes.map (fun x => (x.1, x.2.id, x.2.version)) = [(0, "ck_1", 0), (2, "ck_1", 1)] ∧
      (w.writes.map fun x => (x.2.id, x.2.version)).Nodup ∧ w'.db.checkpoint = w.db.checkpoint := by
  obtain ⟨w, w', hrun, hstep, hwrites, s, hs, c, hc, hfails⟩ : ∃ w w',
      Run (step demoConfig) anyStep (World.start ⟨none, []⟩) w ∧ step demoConfig w (.access 1 silence) = some w' ∧
        w.writes.map (fun x => (x.1, x.2.id, x.2.version)) = [(0, "ck_1", 0), (2, "ck_1", 1)] ∧
          ∃ s ∈ w.syncs 1, ∃ c ∈ s.stage.guard, w.db.checkpoint.any c.guards = false :=
    Run.exists_step_of_replay (firstSync 0 "GWALLET" "ck_1" "op_1" 100 ++ (losingSync 1 "GWALLET").take 3 ++
      (losingSync 2 "GWALLET").take 4) _
  obtain ⟨hnodup, hsteps⟩ := checkpoint_monotone demoConfig ⟨none, []⟩ w hrun
  exact ⟨w, w', hrun, hstep, hwrites, hnodup, (hsteps _ w' hstep).2 ⟨1, silence, s, c, rfl, hs, hc, hfails⟩⟩

end EarnProof.Payments
