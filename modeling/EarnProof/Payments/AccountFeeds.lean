/-
  EarnProof.Payments.AccountFeeds — whether the checkpoint a sync resumes from is of the
  feed it reads.

  Nothing compares the two. The code keeps them together by deleting the checkpoint where
  a rotation changes the account, and by a cleanup step of every sync.

  Proved: no sync reads a feed from a checkpoint of another one (`feed_and_checkpoint_agree`)
  in a run in which a sync loads or creates a checkpoint only while its account is the
  user's, a reconciliation finds only payments of its own account in the newest ledger, and
  a user without a monitored account has no checkpoint when the wallet changes, nor when
  an activation is asked for with an old one. Activations, rollbacks and crashes may then
  come at any time. A wallet rotation on its own breaks it (`resumed_from_old_wallet`), and
  so does an activation that overtakes a first sync (`resumed_after_activation`).
-/
import EarnProof.Payments.MonitoredAccount

namespace EarnProof.Payments

open Lib Lib.Table Lib.Calendar Database Stellar List Option Function

/-! ## The condition -/

variable (cfg : Config) (w : UserWorld)

/-- What a sync that reads `account` has to find before it acts: it takes and makes
    checkpoints while the account is the user's, and anchors to its own payments. -/
def Stage.Own (account : String) : Stage → Prop
  | .load => w.sync.db.checkpoint = none ∨ account = w.account
  | .commit .establish _ => w.sync.db.checkpoint = none → account = w.account
  | .choose _ ledger => ∀ r ∈ w.sync.db.payments, r.confirmed cfg.userId → r.ledgerSequence = some ledger →
    r.destinationAddress = some account
  | _ => True

instance (account : String) (stage : Stage) : Decidable (stage.Own cfg w account) := by
  unfold Stage.Own
  split <;> infer_instance

/-- The wallet of a user without a monitored account changes, and an old one of theirs is
    used to activate a rotation, only where there is no checkpoint. -/
def Apart : UserEvent → Prop
  | .access p _ => ∀ s ∈ w.sync.syncs p, s.stage.Own cfg w s.account
  | .activate _ _ wallet _ _ _ => activeEpoch w.epochs = none → w.sync.db.checkpoint = none ∨ wallet = w.walletAddress
  | .rotateWallet _ => activeEpoch w.epochs = none → w.sync.db.checkpoint = none
  | _ => True

instance (e : UserEvent) : Decidable (Apart cfg w e) := by
  unfold Apart
  split <;> infer_instance

/-! ## One feed for a checkpoint -/

/-- Stages whose anchor comes from the stored payments. -/
def Stage.completing : Stage → Bool
  | .claim (.complete _) _ => true
  | .commit (.complete _) _ => true
  | _ => false

/-- What a sync holds is of the account it reads. -/
structure Indexes (feedOf : String × Nat → Option String) (anchorFeed : Option String) (s : Sync) : Prop where
  held : ∀ c, s.stage.holds = some c → feedOf c.key = some s.account
  anchor : s.stage.completing → anchorFeed = some s.account

/-- A rotation can be rolled back to the account it was made from. -/
structure Reversible (epochs : List PaymentMonitoredAccount) (r : PaymentAccountRotation) : Prop where
  epoch : ∃ e ∈ epochs, r.fromEpochId = some e.id ∧ e.accountId = r.fromAccountId
  feed : r.final.isSome → r.finalFeed = some r.fromAccountId

/-- The stored checkpoint is of the user's account, and every version of a row of one
    account. -/
structure Bound (w : UserWorld) : Prop where
  ledgered : Ledgered w.sync
  stored : ∀ c, w.sync.db.checkpoint = some c → w.feedOf c.key = some w.account
  uniform : ∀ r ∈ w.sync.rows, ∀ r' ∈ w.sync.rows, r.id = r'.id → w.feedOf r.key = w.feedOf r'.key
  syncs : ∀ p s, w.sync.syncs p = some s → Indexes w.feedOf (w.anchorFeed p) s
  epochIds : (w.epochs.map (·.id)).Nodup
  rotationIds : (w.rotations.map (·.id)).Nodup
  reversible : ∀ r ∈ w.rotations, r.status = .activated → Reversible w.epochs r

theorem bound_start (walletAddress : String) (db : Store) : Bound (UserWorld.start walletAddress db) where
  ledgered := ledgered_start db
  stored := fun _ _ => rfl
  uniform := fun _ _ _ _ _ => rfl
  syncs := fun _ _ hs => nomatch hs
  epochIds := nodup_nil
  rotationIds := nodup_nil
  reversible := fun _ hr => nomatch hr

/-! ### The account -/

variable {epochs : List PaymentMonitoredAccount} {c row : PaymentSyncCheckpoint} {rotation : PaymentAccountRotation}

theorem current_of_active {e : PaymentMonitoredAccount}
    (h : activeEpoch epochs = some e) (walletAddress : String) :
    current epochs walletAddress = ⟨e.accountId, some e.id⟩ := by
  unfold current
  rw [h]

variable {account userId retiredId wallet : String} {rows : List SyncedPayment} {anchor : Anchor}
  {ledger version : Nat} {stage : Stage} {sel : PaymentMonitoredAccount → Bool}
  {data : PaymentMonitoredAccount → PaymentMonitoredAccount} {epochs' : List PaymentMonitoredAccount} {now : Date}

/-! ### The checkpoint table -/

theorem Ledgered.drop {w : World} (h : Ledgered w) (gone : PaymentSyncCheckpoint → Bool) : Ledgered (w.drop gone) :=
  { h with
    current := fun c hc => h.current c (filter_eq_some_iff.mp hc).1
    latest := fun c hc => h.latest c (filter_eq_some_iff.mp hc).1 }

theorem Ledgered.create {w : World} (h : Ledgered w) (hfresh : row.id ∉ w.rows.map (·.id)) :
    Ledgered (w.create row) := by
  have hnewer : ∀ r ∈ w.rows, r.id = row.id → r.version < row.version :=
    fun r hr hid => absurd (mem_map.mpr ⟨r, hr, hid⟩) hfresh
  obtain ⟨hunique, hlatest⟩ := versions_append h.unique hnewer
  refine ⟨hunique, fun c hc => ?_, fun c hc => ?_, fun p s hs => ?_, h.logged.trans (sublist_append_left _ _)⟩
  · cases hc
    exact mem_append_right _ mem_cons_self
  · cases hc
    exact hlatest
  · obtain ⟨hrows, hforward⟩ := h.held p s hs
    exact ⟨fun c hc => mem_append_left _ (hrows c hc), hforward⟩

/-- A new row of the table, under a key of its own, takes the feed of its id. -/
theorem uniform_append {rows : List PaymentSyncCheckpoint} {feedOf : String × Nat → Option String}
    (h : ∀ r ∈ rows, ∀ r' ∈ rows, r.id = r'.id → feedOf r.key = feedOf r'.key)
    {feed : Option String} (hnew : ∀ r ∈ rows, r.key ≠ row.key)
    (hfeed : ∀ r ∈ rows, r.id = row.id → feedOf r.key = feed) :
    ∀ r ∈ rows ++ [row], ∀ r' ∈ rows ++ [row], r.id = r'.id →
      Function.update feedOf row.key feed r.key = Function.update feedOf row.key feed r'.key := by
  have hold : ∀ r ∈ rows, Function.update feedOf row.key feed r.key = feedOf r.key :=
    fun r hr => update_of_ne (hnew r hr) _ _
  intro r hr r' hr' hid
  rcases mem_append_row.mp hr with hmem | rfl <;> rcases mem_append_row.mp hr' with hmem' | rfl
  · rw [hold r hmem, hold r' hmem', h r hmem r' hmem' hid]
  · rw [hold r hmem, update_self, hfeed r hmem hid]
  · rw [hold r' hmem', update_self, hfeed r' hmem' hid.symm]
  · rfl

/-! ### An access of a sync -/

theorem mem_of_foldl_newest {anchors : List Anchor} {best : Option Anchor}
    (h : anchors.foldl (fun best a => if best.all fun b => b.pagingToken < a.pagingToken then some a else best) best =
      some anchor) : best = some anchor ∨ anchor ∈ anchors := by
  induction anchors generalizing best with
  | nil => exact .inl h
  | cons a anchors ih =>
    rw [foldl_cons] at h
    rcases ih h with h | h
    · split at h
      · exact .inr (some.inj h ▸ mem_cons_self)
      · exact .inl h
    · exact .inr (mem_cons_of_mem _ h)

theorem mem_of_newestIn (h : newestIn userId ledger rows = some anchor) :
    ∃ r ∈ rows, r.confirmed userId ∧ r.ledgerSequence = some ledger ∧ r.operationId = anchor.operationId := by
  rcases mem_of_foldl_newest h with h | h
  · cases h
  · obtain ⟨r, hr, hanchor⟩ := mem_filterMap.mp h
    obtain ⟨hmem, hsel⟩ := mem_filter.mp hr
    obtain ⟨hconfirmed, hledger⟩ := Bool.and_eq_true_iff.mp hsel
    refine ⟨r, hmem, hconfirmed, of_decide_eq_true hledger, ?_⟩
    unfold anchorOf at hanchor
    split at hanchor
    · cases hanchor
    · obtain ⟨_, -, rfl⟩ := map_eq_some_iff.mp hanchor
      rfl

/-- The chosen anchor is of the account the sync reads. -/
theorem receivedOn_own
    (hown : ∀ r ∈ rows, r.confirmed userId → r.ledgerSequence = some ledger → r.destinationAddress = some account)
    (h : newestIn userId ledger rows = some anchor) :
    receivedOn userId ledger anchor.operationId rows = some account := by
  obtain ⟨r, hr, hconfirmed, hledger, hop⟩ := mem_of_newestIn h
  unfold receivedOn
  cases hfind : rows.find? fun r => r.confirmed userId && r.ledgerSequence = some ledger &&
      r.operationId = anchor.operationId with
  | none =>
    have hnot := find?_eq_none.mp hfind r hr
    simp [hconfirmed, hledger, hop] at hnot
  | some r' =>
    have hsel := find?_some hfind
    obtain ⟨hfront, -⟩ := Bool.and_eq_true_iff.mp hsel
    obtain ⟨hconfirmed', hledger'⟩ := Bool.and_eq_true_iff.mp hfront
    exact hown r' (mem_of_find?_eq_some hfind) hconfirmed' (of_decide_eq_true hledger')

variable {w : UserWorld} {p : Nat} {s : Sync} {cfg : Config} {a : Answer}

/-- A written row has the feed of the user's account. -/
theorem Bound.source (h : Bound w) (hs : w.sync.syncs p = some s)
    (hown : s.stage.Own cfg w s.account) {after : Option PaymentSyncCheckpoint}
    (hchange : Change a s.stage w.sync.db.checkpoint (some row) after) : w.sourceFeed p s = some w.account := by
  -- A row that keeps its anchor keeps its feed, and a guarded row is of the sync's account.
  have hkeep : ∀ old, w.sync.db.checkpoint = some old →
      (w.sync.db.checkpoint.bind fun c => w.feedOf c.key) = some w.account := by
    intro old hold
    rw [hold]
    exact h.stored old hold
  have hholds : ∀ c, s.stage.holds = some c → ∀ old, w.sync.db.checkpoint = some old → c.guards old →
      s.account = w.account := by
    intro c hc old hold hguard
    obtain rfl := h.ledgered.eq_of_guards ((h.ledgered.held p s hs).1 c hc) hold hguard
    exact some.inj (((h.syncs p s hs).held old hc).symm.trans (h.stored old hold))
  have hanchor := (h.syncs p s hs).anchor
  unfold UserWorld.sourceFeed
  cases hchange with
  | establish k hstage hnone =>
    rw [hstage] at hown ⊢
    exact congrArg some (hown hnone)
  | diverge c old reason hstage hold | refresh c old hstage hold | cursor c old k hstage hold =>
    rw [hstage]; exact hkeep old hold
  | advance c old k hstage hold hguard =>
    rw [hstage] at hholds ⊢
    exact congrArg some (hholds c rfl old hold hguard)
  | complete c old k hstage hold hguard =>
    rw [hstage] at hholds hanchor ⊢
    exact (hanchor rfl).trans (congrArg some (hholds c rfl old hold hguard))

theorem target_of_completing (h : stage.completing) : ∃ c, stage.target? = some (.complete c) := by
  unfold Stage.completing at h
  split at h
  · exact ⟨_, rfl⟩
  · exact ⟨_, rfl⟩
  · cases h

/-- A sync is completing only after it has chosen its anchor. -/
theorem Next.completing {db db' : Store} {s t : Sync} (h : Next cfg a db db' s t) (ht : t.stage.completing) :
    s.stage.completing ∨ ∃ c ledger anchor, s.stage = .choose c ledger ∧ t.stage = .claim (.complete c) anchor ∧
      newestIn cfg.userId ledger db.payments = some anchor := by
  obtain ⟨c, hc⟩ := target_of_completing ht
  rcases h.target hc with ⟨plan, read, hsettled⟩ | hchosen | ⟨anchor, k, hstage, -, -⟩
  · rw [hsettled] at ht
    have hnot : (settleStage plan read).completing = false :=
      settleStage_cases (P := fun t => t.completing = false) (fun _ _ _ => rfl) rfl (fun _ => rfl) (fun _ _ => rfl)
        fun _ _ _ _ => rfl
    exact absurd (hnot.symm.trans ht) nofun
  · exact .inr hchosen
  · rw [hstage]
    exact .inl rfl

theorem anchorsAfter_of_kept {q : Nat} {stage' : Stage} (h : q ≠ p ∨ stage.completing) :
    w.anchorsAfter cfg p stage stage' q = w.anchorFeed q := by
  unfold UserWorld.anchorsAfter
  split
  · exact update_of_ne (h.resolve_right nofun) _ _
  · rfl

/-- The row `diverge` goes on with is a version of the one it was called with. -/
theorem holds_diverge (cfg : Config) (a : Answer) (db : Store)
    {reason : DivergenceReason} (hstage : s.stage = .diverge c reason)
    (hrow : (s.access cfg a db).next.stage.holds = some row) : row.id = c.id := by
  rcases access_diverge cfg a db hstage with ⟨hnext, -⟩ | ⟨found, -, hid, ⟨-, hnext⟩ | ⟨-, hnext⟩⟩
  · rw [hnext, holds_planned] at hrow
    cases hrow
  · rw [hnext] at hrow
    cases hrow
  · rw [hnext, holds_planned] at hrow
    cases hrow
    exact hid

section Access

/-- An access leaves the feeds of the rows there have been. -/
theorem Bound.feedsAfter_old (h : Bound w) (hfresh : a.freshId ∉ w.sync.rows.map (·.id)) {r : PaymentSyncCheckpoint}
    (hr : r ∈ w.sync.rows) : w.feedsAfter p s (s.access cfg a w.sync.db).wrote r.key = w.feedOf r.key := by
  have hchange := access_change cfg a w.sync.db s
  cases hwrote : (s.access cfg a w.sync.db).wrote with
  | none => rfl
  | some =>
    rw [hwrote] at hchange
    exact update_of_ne (key_ne_of_newer (h.ledgered.newer hfresh hchange) r hr) _ _

variable (h : Bound w) (hs : w.sync.syncs p = some s) (hown : s.stage.Own cfg w s.account)

include h hs hown

/-- The checkpoint an access leaves is of the user's account. -/
theorem Bound.stored_access (hc : (s.access cfg a w.sync.db).db.checkpoint = some c) :
    w.feedsAfter p s (s.access cfg a w.sync.db).wrote c.key = some w.account := by
  have hchange := access_change cfg a w.sync.db s
  cases hwrote : (s.access cfg a w.sync.db).wrote with
  | none =>
    rw [hwrote] at hchange
    rcases hchange.of_none with heq | heq
    · exact h.stored c (heq.symm.trans hc)
    · rw [heq] at hc; cases hc
  | some =>
    rw [hwrote] at hchange
    obtain rfl := some.inj (hc.symm.trans hchange.of_some.1)
    exact (update_self _ _ _).trans (h.source hs hown hchange)

variable (hfresh : a.freshId ∉ w.sync.rows.map (·.id))

include hfresh

theorem Bound.uniform_access : ∀ r ∈ w.sync.rows ++ (s.access cfg a w.sync.db).wrote.toList,
    ∀ r' ∈ w.sync.rows ++ (s.access cfg a w.sync.db).wrote.toList, r.id = r'.id →
      w.feedsAfter p s (s.access cfg a w.sync.db).wrote r.key =
        w.feedsAfter p s (s.access cfg a w.sync.db).wrote r'.key := by
  have hchange := access_change cfg a w.sync.db s
  cases hwrote : (s.access cfg a w.sync.db).wrote with
  | none =>
    rw [toList_none, append_nil]
    exact h.uniform
  | some =>
    rw [hwrote] at hchange
    refine uniform_append h.uniform (key_ne_of_newer (h.ledgered.newer hfresh hchange)) fun r hr hid => ?_
    obtain ⟨-, hnew | ⟨old, hold, hsame, -⟩⟩ := hchange.of_some
    · exact absurd (mem_map.mpr ⟨r, hr, hid.trans hnew.2⟩) hfresh
    · rw [h.source hs hown hchange, h.uniform r hr old (h.ledgered.current old hold) (hid.trans hsame)]
      exact h.stored old hold

/-- What a sync holds after an access is of the account it reads. -/
theorem Bound.held_access (hc : (s.access cfg a w.sync.db).next.stage.holds = some c) :
    w.feedsAfter p s (s.access cfg a w.sync.db).wrote c.key = some s.account := by
  have hrows := (h.ledgered.held p s hs).1
  have hheld := (h.syncs p s hs).held
  rcases (access_next cfg a w.sync.db s).holds hc with hkept | ⟨hplans, hstored⟩
  · rw [h.feedsAfter_old hfresh (hrows c hkept)]
    exact hheld c hkept
  · cases hstage : s.stage with
    | load =>
      -- Loading changes nothing, so the row is the stored one and the condition is about it.
      rw [h.stored_access hs hown hstored]
      rw [hstage] at hown
      rcases hown with hnone | haccount
      · have hsame : (s.access cfg a w.sync.db).db.checkpoint = w.sync.db.checkpoint := by
          unfold Sync.access
          rw [hstage]
          dsimp only
          split
          · rfl
          · split <;> rfl
        rw [hsame, hnone] at hstored
        cases hstored
      · rw [haccount]
    | diverge c₀ =>
      have hc₀ : s.stage.holds = some c₀ := by rw [hstage]; rfl
      have hafter : Ledgered (w.sync.put p s (s.access cfg a w.sync.db)) := h.ledgered.access hs hfresh
      have hmem := hafter.current c hstored
      rw [h.uniform_access hs hown hfresh c hmem c₀ (mem_append_left _ (hrows c₀ hc₀))
        (holds_diverge cfg a w.sync.db hstage hc), h.feedsAfter_old hfresh (hrows c₀ hc₀)]
      exact hheld c₀ hc₀
    | _ => rw [hstage] at hplans; cases hplans

theorem Bound.access :
    Bound (w.put cfg p s (s.access cfg a w.sync.db) (w.sync.put p s (s.access cfg a w.sync.db))) where
  ledgered := h.ledgered.access hs hfresh
  stored := fun c hc => h.stored_access hs hown hc
  uniform := h.uniform_access hs hown hfresh
  syncs := by
    intro q t ht
    have hnext := access_next cfg a w.sync.db s
    rcases update_eq_some ht with ⟨rfl, hx⟩ | ⟨hne, hx⟩
    · cases hx
      refine ⟨fun c hc => ?_, fun hcompleting => ?_⟩
      · rw [hnext.account]
        exact h.held_access hs hown hfresh hc
      · rw [hnext.account]
        show w.anchorsAfter cfg q s.stage _ q = _
        rcases hnext.completing hcompleting with hbefore | ⟨c, ledger, anchor, hstage, hclaim, hanchor⟩
        · rw [anchorsAfter_of_kept (.inr hbefore)]
          exact (h.syncs q s hs).anchor hbefore
        · rw [hstage] at hown
          rw [hstage, hclaim]
          exact (update_self _ _ _).trans (receivedOn_own hown hanchor)
    · refine ⟨fun c hc => ?_, fun hcompleting => ?_⟩
      · show w.feedsAfter p s _ c.key = _
        rw [h.feedsAfter_old hfresh ((h.ledgered.held q t hx).1 c hc)]
        exact (h.syncs q t hx).held c hc
      · show w.anchorsAfter cfg p s.stage _ q = _
        rw [anchorsAfter_of_kept (.inl hne)]
        exact (h.syncs q t hx).anchor hcompleting
  epochIds := h.epochIds
  rotationIds := h.rotationIds
  reversible := h.reversible

end Access

/-! ### Requests -/

theorem Bound.session (h : Bound w) {event : Event} (hevent : ∀ p a, event ≠ .access p a)
    {sync : World} (hstep : step cfg w.sync event = some sync) (calls : Nat → Option Call) :
    Bound { w with sync, calls } := by
  have hledgered := step_ledgered cfg w.sync event sync h.ledgered hstep
  rcases step_cases hstep with ⟨p, account, -, -, rfl⟩ | ⟨p, a, s, he, -⟩ | ⟨p, -, rfl⟩
  · refine { h with ledgered := hledgered, syncs := forall_moved (fun t hx => ?_) h.syncs }
    cases hx
    exact ⟨(fun _ hc => nomatch hc), nofun⟩
  · exact absurd he (hevent p a)
  · exact { h with ledgered := hledgered, syncs := forall_gone h.syncs }

theorem Bound.discard (h : Bound w) (gone : PaymentSyncCheckpoint → Bool) (calls : Nat → Option Call) :
    Bound { w with sync := w.sync.drop gone, calls } :=
  { h with
    ledgered := h.ledgered.drop gone
    stored := fun c hc => h.stored c (filter_eq_some_iff.mp hc).1 }

/-! ### Activation and rollback -/

def Keeps (epochs epochs' : List PaymentMonitoredAccount) : Prop :=
  ∀ e ∈ epochs, ∃ e' ∈ epochs', e'.id = e.id ∧ e'.accountId = e.accountId

theorem keeps_append (epochs new : List PaymentMonitoredAccount) : Keeps epochs (epochs ++ new) :=
  fun e he => ⟨e, mem_append_left _ he, rfl, rfl⟩

section

variable (epochs : List PaymentMonitoredAccount) (hdata : ∀ e, (data e).id = e.id ∧ (data e).accountId = e.accountId)

include hdata

theorem keeps_update : Keeps epochs (Table.update sel data epochs) := by
  intro e he
  refine ⟨_, mem_update.mpr ⟨e, he, rfl⟩, ?_⟩
  split
  · exact hdata e
  · exact ⟨rfl, rfl⟩

theorem keeps_of_update : Keeps (Table.update sel data epochs) epochs := by
  intro e' he'
  obtain ⟨e, he, rfl⟩ := mem_update.mp he'
  refine ⟨e, he, ?_⟩
  split
  · exact ⟨(hdata e).1.symm, (hdata e).2.symm⟩
  · exact ⟨rfl, rfl⟩

end

theorem Keeps.trans {epochs' epochs'' : List PaymentMonitoredAccount} (h : Keeps epochs epochs')
    (h' : Keeps epochs' epochs'') : Keeps epochs epochs'' := by
  intro e he
  obtain ⟨e', he', hid, haccount⟩ := h e he
  obtain ⟨e'', he'', hid', haccount'⟩ := h' e' he'
  exact ⟨e'', he'', hid'.trans hid, haccount'.trans haccount⟩

theorem Reversible.mono {r : PaymentAccountRotation}
    (h : Reversible epochs r) (hkeeps : Keeps epochs epochs') : Reversible epochs' r := by
  obtain ⟨e, he, hfrom, haccount⟩ := h.epoch
  obtain ⟨e', he', hid, haccount'⟩ := hkeeps e he
  exact ⟨⟨e', he', hid ▸ hfrom, haccount'.trans haccount⟩, h.feed⟩

theorem retiredEpochs_keeps (w : UserWorld) (used : MonitoredAccount) (retiredId : String) (now : Date) :
    Keeps w.epochs (retiredEpochs w used retiredId now) := by
  unfold retiredEpochs
  split
  · exact keeps_update _ fun _ => ⟨rfl, rfl⟩
  · exact keeps_append _ _

/-- The retired epoch of the account that was used. -/
theorem mem_retiredEpochs (w : UserWorld) (wallet retiredId : String) (now : Date) :
    ∃ e ∈ retiredEpochs w (current w.epochs wallet) retiredId now,
      some ((current w.epochs wallet).epochId.getD retiredId) = some e.id ∧
      e.accountId = (current w.epochs wallet).accountId := by
  cases hactive : activeEpoch w.epochs with
  | none =>
    unfold current
    rw [hactive]
    exact ⟨_, mem_append_right _ mem_cons_self, rfl, rfl⟩
  | some e =>
    rw [current_of_active hactive]
    obtain ⟨e', he', hid, haccount⟩ :=
      retiredEpochs_keeps w ⟨e.accountId, some e.id⟩ retiredId now e (mem_of_find?_eq_some hactive)
    exact ⟨e', he', congrArg some hid.symm, haccount⟩

/-- A request that holds the present wallet, or whose user has a monitored account,
    resolves to the present account. -/
theorem current_account (h : activeEpoch w.epochs = none → wallet = w.walletAddress) :
    (current w.epochs wallet).accountId = w.account := by
  unfold UserWorld.account
  cases hactive : activeEpoch w.epochs with
  | none => rw [h hactive]
  | some => rw [current_of_active hactive, current_of_active hactive]

theorem drop_all (w : World) : (w.drop fun _ => true).db.checkpoint = none := by
  show w.db.checkpoint.filter (fun _ => false) = none
  cases w.db.checkpoint <;> rfl

theorem Bound.activate (h : Bound w) (rollbackWindowMs : Int)
    {retiredId activeId : String} (hrotation : rotation ∈ w.rotations)
    (hactivates : activates w rotation version (current w.epochs wallet) retiredId activeId now)
    (hwallet : activeEpoch w.epochs = none → w.sync.db.checkpoint = none ∨ wallet = w.walletAddress) :
    Bound (w.activate rollbackWindowMs rotation (current w.epochs wallet) retiredId activeId now) := by
  simp only [activates, Bool.and_eq_true, decide_eq_true_eq] at hactivates
  obtain ⟨⟨⟨⟨⟨_, hfrom⟩, -⟩, -⟩, hretired⟩, hactive⟩ := hactivates
  refine ⟨h.ledgered.drop _, fun c hc => ?_, h.uniform, h.syncs, ?_, ?_, fun r' hr' hstatus => ?_⟩
  · exact nomatch (drop_all w.sync).symm.trans hc
  · refine nodup_append_row ?_ fun e he hid => hactive (mem_map.mpr ⟨e, he, hid⟩)
    unfold retiredEpochs
    split
    · exact nodup_update _ (fun _ => rfl) h.epochIds
    · exact nodup_append_row h.epochIds fun e he hid => hretired (mem_map.mpr ⟨e, he, hid⟩)
  · exact nodup_update _ (fun _ => rfl) h.rotationIds
  · obtain ⟨r, hr, rfl⟩ := mem_update.mp hr'
    by_cases hid : r.id = rotation.id
    · obtain rfl := eq_of_key h.rotationIds hr hrotation hid
      rw [if_pos (decide_eq_true hid)]
      obtain ⟨e, he, hepoch, haccount⟩ := mem_retiredEpochs w wallet retiredId now
      refine ⟨⟨e, mem_append_left _ he, hepoch, haccount.trans hfrom⟩, fun hfinal => ?_⟩
      -- The final checkpoint is the stored one, so it is of the user's account.
      cases hc : w.sync.db.checkpoint with
      | none => simp [PaymentAccountRotation.activate, hc] at hfinal
      | some c =>
        have haccount' : (current w.epochs wallet).accountId = w.account :=
          current_account fun hnone => (hwallet hnone).resolve_left (by rw [hc]; exact some_ne_none c)
        show (w.sync.db.checkpoint.bind fun c => w.feedOf c.key) = some r.fromAccountId
        rw [hc, ← hfrom, haccount']
        exact h.stored c hc
    · rw [if_neg (by simpa using hid)] at hstatus ⊢
      exact (h.reversible r hr hstatus).mono ((retiredEpochs_keeps w _ retiredId now).trans (keeps_append _ _))

/-- A rollback makes the account the rotation was made from the user's. -/
theorem current_restored (h : Bound w) (hreversible : Reversible w.epochs rotation)
    (hsome : (rotation.retired w.epochs now).any (fun e => some e.id = rotation.fromEpochId && e.status = .retired))
    (hnone : (rotation.retired w.epochs now).any (fun e => e.status = .active) = false) (wallet : String) :
    (current (rotation.restored w.epochs now) wallet).accountId = rotation.fromAccountId := by
  cases hfind : activeEpoch (rotation.restored w.epochs now) with
  | none =>
    obtain ⟨e, he, hsel⟩ := any_eq_true.mp hsome
    exact absurd (decide_eq_true rfl) (find?_eq_none.mp hfind (e.restore now) (mem_update_of_sel he hsel))
  | some e' =>
    rw [current_of_active hfind]
    have hactive : e'.status = .active := by simpa using find?_some hfind
    obtain ⟨e, he, rfl⟩ := mem_update.mp (mem_of_find?_eq_some hfind)
    split at hactive
    · rename_i hsel
      rw [if_pos hsel]
      obtain ⟨hid, -⟩ := Bool.and_eq_true_iff.mp hsel
      have hkeeps : Keeps (rotation.retired w.epochs now) w.epochs := keeps_of_update _ fun _ => ⟨rfl, rfl⟩
      obtain ⟨e₀, he₀, hid₀, haccount₀⟩ := hkeeps e he
      obtain ⟨e₁, he₁, hfrom, haccount⟩ := hreversible.epoch
      have hkey : e₀.id = e₁.id := hid₀.trans (some.inj ((of_decide_eq_true hid).trans hfrom))
      obtain rfl := eq_of_key h.epochIds he₀ he₁ hkey
      exact haccount₀.symm.trans haccount
    · exact absurd (any_eq_true.mpr ⟨e, he, decide_eq_true hactive⟩) (by rw [hnone]; decide)

theorem Bound.rollBack (h : Bound w) {checkpointId : String} (hrotation : rotation ∈ w.rotations)
    (hrolls : rollsBack w rotation version now checkpointId) : Bound (w.rollBack rotation now checkpointId) := by
  simp only [rollsBack, Bool.and_eq_true, decide_eq_true_eq, Bool.not_eq_true'] at hrolls
  obtain ⟨⟨⟨⟨⟨⟨hstatus, -⟩, -⟩, -⟩, hsome⟩, hnone⟩, hfresh⟩ := hrolls
  have hreversible := h.reversible rotation hrotation hstatus
  have haccount := current_restored h hreversible hsome hnone
  have hretired : Keeps w.epochs (rotation.retired w.epochs now) := keeps_update _ fun _ => ⟨rfl, rfl⟩
  have hkeeps : Keeps w.epochs (rotation.restored w.epochs now) := hretired.trans (keeps_update _ fun _ => ⟨rfl, rfl⟩)
  have hepochs : ((rotation.restored w.epochs now).map (·.id)).Nodup :=
    nodup_update _ (fun _ => rfl) (nodup_update _ (fun _ => rfl) h.epochIds)
  have hrotations : ((Table.update (fun r => r.id = rotation.id) .rollBack w.rotations).map (·.id)).Nodup :=
    nodup_update _ (fun _ => rfl) h.rotationIds
  have hothers : ∀ r ∈ Table.update (fun r => r.id = rotation.id) .rollBack w.rotations, r.status = .activated →
      Reversible (rotation.restored w.epochs now) r := by
    intro r' hr' hactivated
    obtain ⟨r, hr, ⟨-, rfl⟩ | ⟨-, rfl⟩⟩ := mem_update_cases hr'
    · cases hactivated
    · exact (h.reversible _ hr hactivated).mono hkeeps
  unfold UserWorld.rollBack
  cases hfinal : rotation.final with
  | none =>
    refine ⟨h.ledgered.drop _, fun c hc => ?_, h.uniform, h.syncs, hepochs, hrotations, hothers⟩
    exact nomatch (drop_all w.sync).symm.trans hc
  | some final =>
    have hdrop := h.ledgered.drop fun _ => true
    have hnew : ∀ r ∈ w.sync.rows, r.key ≠ (final.row checkpointId now).key :=
      fun r hr hkey => hfresh (mem_map.mpr ⟨r, hr, congrArg Prod.fst hkey⟩)
    refine ⟨hdrop.create hfresh, fun c hc => ?_, ?_, fun p s hs => ⟨fun c hc => ?_, (h.syncs p s hs).anchor⟩, hepochs,
      hrotations, hothers⟩
    · cases hc
      refine (update_self _ _ _).trans ((hreversible.feed (by rw [hfinal]; rfl)).trans ?_)
      exact congrArg some (haccount w.walletAddress).symm
    · exact uniform_append h.uniform hnew fun r hr hid => absurd (mem_map.mpr ⟨r, hr, hid⟩) hfresh
    · have hrow := (h.ledgered.held p s hs).1 c hc
      exact (update_of_ne (hnew c hrow) _ _).trans ((h.syncs p s hs).held c hc)

/-! ## The theorem -/

theorem Bound.rotateWallet (h : Bound w)
    (hnone : activeEpoch w.epochs = none → w.sync.db.checkpoint = none) (new : String) :
    Bound { w with walletAddress := new } := by
  refine { h with stored := fun c hc => ?_ }
  cases hactive : activeEpoch w.epochs with
  | none =>
    rw [hnone hactive] at hc
    cases hc
  | some =>
    have hstored := h.stored c hc
    unfold UserWorld.account at hstored ⊢
    rw [current_of_active hactive] at hstored ⊢
    exact hstored

theorem Bound.verify (h : Bound w) (hstatus : rotation.status = .verified)
    (hfresh : rotation.id ∉ w.rotations.map (·.id)) : Bound { w with rotations := w.rotations ++ [rotation] } := by
  refine { h with rotationIds := ?_, reversible := fun r hr hactivated => ?_ }
  · exact nodup_append_row h.rotationIds fun r hr hid => hfresh (mem_map.mpr ⟨r, hr, hid⟩)
  · rcases mem_append.mp hr with hr | hr
    · exact h.reversible r hr hactivated
    · rw [mem_singleton.mp hr, hstatus] at hactivated
      cases hactivated

theorem step_bound (cfg : Config) (rollbackWindowMs : Int) (w : UserWorld) (e : UserEvent)
    (w' : UserWorld) (h : Bound w)
    (hapart : Apart cfg w e) (hstep : userStep cfg rollbackWindowMs w e = some w') : Bound w' := by
  cases userStep_effect hstep with
  | calls => exact { h with }
  | session sync calls event hevent hevent' => exact h.session hevent hevent' calls
  | access p a s he hs hfresh =>
    subst he
    exact h.access hs (hapart s hs) hfresh
  | discard gone calls => exact h.discard gone calls
  | verify rotation hstatus hfresh => exact h.verify hstatus hfresh
  | activate rotation id version wallet now retiredId activeId he hrotation hactivates =>
    subst he
    exact h.activate rollbackWindowMs hrotation hactivates hapart
  | rollBack rotation version now checkpointId hrotation hrolls => exact h.rollBack hrotation hrolls
  | rotateWallet new he =>
    subst he
    exact h.rotateWallet hapart new

/-- A sync that reads a feed, from a checkpoint it resumes or reconciles, reads the feed
    the checkpoint is anchored on. -/
theorem feed_and_checkpoint_agree (cfg : Config) (rollbackWindowMs : Int) (walletAddress : String) (db : Store)
    (w : UserWorld) (hrun : Run (userStep cfg rollbackWindowMs) (Apart cfg) (UserWorld.start walletAddress db) w)
    (p : Nat) (s : Sync) (hs : w.sync.syncs p = some s) (plan : SyncPlan) (hread : s.stage = .read plan)
    (c : PaymentSyncCheckpoint) (hc : plan.checkpoint? = some c) : w.feedOf c.key = some s.account := by
  have hbound : Bound w := hrun.invariant (bound_start walletAddress db) (step_bound cfg rollbackWindowMs)
  refine (hbound.syncs p s hs).held c ?_
  rw [hread]
  exact hc

/-! ## Where they part -/

def requesting (p : Nat) (answers : List Answer) : List UserEvent := [.request p, .resolve p] ++ answers.map (.access p)

/-- A request whose first sync finds one payment, to its end. -/
def firstRequest (p : Nat) (account checkpointId operationId : String) (ledger : Nat) : List UserEvent :=
  requesting p (firstAnswers account checkpointId operationId ledger ++ [silence]) ++ [.recheck p]

def answersProof (operationId : String) (ledger : Nat) : Answer :=
  { answersLedger ledger with operation := some ⟨operationId, ledgerStart ledger, "tx_" ++ operationId⟩ }

/-- A request up to the read of its sync, which resumes from that operation. -/
def resuming (p : Nat) (operationId : String) (ledger : Nat) : List UserEvent :=
  requesting p [silence, answersProof operationId ledger, silence]

def demoRotation : PaymentAccountRotation :=
  ⟨"rot_1", "GWALLET", "GNEW", .verified, 2, none, none, none, none, none⟩

def demoHandoff : List UserEvent := [.verify demoRotation, .activate "rot_1" 2 "GWALLET" demoNow "ep_0" "ep_1"]

/-- The checkpoint sync `p` is about to resume from, and the two accounts. -/
def Resumes (w : UserWorld) (p : Nat) (account feed : String) : Prop :=
  ∃ s ∈ w.sync.syncs p, ∃ c ∈ s.stage.holds, s.stage = .read (.resume c) ∧ s.account = account ∧
    w.feedOf c.key = some feed
  deriving Decidable

/-- A user without a monitored account rotates the wallet. The checkpoint stays, and the
    next sync reads the new wallet's feed from it. -/
theorem resumed_from_old_wallet :
    ∃ w, Run (userStep demoConfig 0) anyStep (UserWorld.start "GWALLET" ⟨none, []⟩) w ∧ Resumes w 1 "GNEW" "GWALLET" :=
  Run.exists_of_replay
    (firstRequest 0 "GWALLET" "ck_1" "op_1" 100 ++ [.rotateWallet "GNEW"] ++ resuming 1 "op_1" 100)

/-- A first sync is overtaken by an activation, creates the old account's checkpoint and
    crashes before it could discard it. -/
theorem resumed_after_activation :
    ∃ w, Run (userStep demoConfig 0) anyStep (UserWorld.start "GWALLET" ⟨none, []⟩) w ∧ Resumes w 1 "GNEW" "GWALLET" :=
  Run.exists_of_replay
    ([.request 0, .resolve 0] ++ demoHandoff ++ (firstAnswers "GWALLET" "ck_1" "op_1" 100).map (.access 0) ++
      [.crash 0] ++ resuming 1 "op_1" 100)

/-- An activation in the middle of a sync: the old account is read from its own checkpoint
    still, and the new one from its own. -/
theorem feed_and_checkpoint_agree_handoff :
    ∃ w, Run (userStep demoConfig 0) (Apart demoConfig) (UserWorld.start "GWALLET" ⟨none, []⟩) w ∧
      Resumes w 1 "GWALLET" "GWALLET" ∧ Resumes w 3 "GNEW" "GNEW" := by
  refine Run.exists_and (P := fun w =>
      (∃ s ∈ w.sync.syncs 1, ∃ c ∈ s.stage.holds, s.stage = .read (.resume c) ∧ s.account = "GWALLET") ∧
      (∃ s ∈ w.sync.syncs 3, ∃ c ∈ s.stage.holds, s.stage = .read (.resume c) ∧ s.account = "GNEW"))
    (firstRequest 0 "GWALLET" "ck_1" "op_1" 100 ++ resuming 1 "op_1" 100 ++ demoHandoff ++
      firstRequest 2 "GNEW" "ck_2" "op_2" 50 ++ resuming 3 "op_2" 50)
    fun w hrun ⟨⟨s, hs, c, hc, hread, haccount⟩, t, ht, d, hd, hread', haccount'⟩ => ?_
  have hagree := feed_and_checkpoint_agree demoConfig 0 "GWALLET" ⟨none, []⟩ w hrun
  have hold := hagree 1 s hs (.resume c) hread c rfl
  have hnew := hagree 3 t ht (.resume d) hread' d rfl
  rw [haccount] at hold
  rw [haccount'] at hnew
  exact ⟨⟨s, hs, c, hc, hread, haccount, hold⟩, t, ht, d, hd, hread', haccount', hnew⟩

end EarnProof.Payments
