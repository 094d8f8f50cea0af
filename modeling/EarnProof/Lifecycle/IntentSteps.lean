/-
  EarnProof.Lifecycle.IntentSteps — what one step of the system can do to an anchoring
  intent (`intentStep`), to the contract (`chain_of_step`), to the columns of a proof row
  that anchoring and propagation write (`rowStep_back`, `rowStep_forth`), and to the work
  a process has in hand.
-/
import EarnProof.Lifecycle.StoreSteps

namespace EarnProof.Lifecycle

open Lib Lib.Table Lib.Calendar Lib.Result Database Proofs List Option Function

/-! ## The status of an intent -/

def intentStatus (db : Db) (k : IntentKey) : Option AnchoringStatus :=
  (db.intent? k.proofId k.operation).map AnchoringIntent.status

variable {db db' : Db} {k : IntentKey} {data : AnchoringIntent → AnchoringIntent} {E : Env} {w w' : World} {e : Ev}
  {pid : Nat}

theorem intentStatus_congr (h : db'.anchoringIntents = db.anchoringIntents) (k : IntentKey) :
    intentStatus db' k = intentStatus db k := by
  unfold intentStatus Db.intent?
  rw [h]

theorem key_of_intent? {i : AnchoringIntent}
    (h : db.intent? k.proofId k.operation = some i) : AnchoringIntent.key i = k := by
  obtain ⟨-, hid, hop⟩ := of_find? h
  show (⟨i.proofId, i.operation⟩ : IntentKey) = k
  rw [hid, hop]

theorem intent?_updateIntent (db : Db) (k k' : IntentKey)
    (hkey : ∀ i, AnchoringIntent.key (data i) = AnchoringIntent.key i) :
    (updateIntent db k' data).intent? k.proofId k.operation =
      (db.intent? k.proofId k.operation).map fun i => if AnchoringIntent.key i = k' then data i else i := by
  refine (find?_update fun i => ?_).trans (by simp only [decide_eq_true_eq]; rfl)
  obtain ⟨hid, hop⟩ := IntentKey.mk.inj (hkey i)
  rw [hid, hop]

variable {k' : IntentKey} {s : AnchoringStatus} {proofId id : String} {op : AnchoringOperation} {p : Proc}
  {pc : WorkPc} {t : Tick} {read p' : Proof}

/-- An inserted intent is new, and no other one changes. -/
theorem intentStatus_insert (h : insertIntent db proofId op s = .ok db') (k : IntentKey) :
    intentStatus db' k = intentStatus db k ∨
      (k = ⟨proofId, op⟩ ∧ intentStatus db k = none ∧ intentStatus db' k = some s) := by
  obtain ⟨hnone, rfl⟩ := insertIntent_eq_ok h
  by_cases hk : k = ⟨proofId, op⟩
  · subst hk
    refine .inr ⟨rfl, by rw [intentStatus, hnone]; rfl, ?_⟩
    unfold intentStatus Db.intent?
    unfold Db.intent? at hnone
    rw [find?_append, hnone]
    simp
  · refine .inl ?_
    have hne : ¬ (proofId = k.proofId ∧ op = k.operation) := fun ⟨hid, hop⟩ => hk (by rw [hid, hop])
    unfold intentStatus Db.intent?
    simp [hne]

/-! ## Work in hand -/

/-- The intent a worker has claimed and not yet settled. -/
def Proc.holds : Proc → Option IntentKey
  | .work (.claimed k) => some k
  | .work (.calling k _) => some k
  | .work (.reporting k _ _) => some k
  | _ => none

/-- The intent whose success a worker knows of and has not recorded. -/
def Proc.reports : Proc → Option IntentKey
  | .work (.reporting k _ (.anchored _)) => some k
  | _ => none

/-- The row a process read with a transaction hash, and on the strength of which it may ask
    for a revocation on chain or repeat one locally. -/
def Proc.anchoredRead : Proc → Option Proof
  | .revoke _ (.read p) => if anchored p then some p else none
  | .reconcile (.read p) => some p
  | .reconcile (.repairing p) => some p
  | .reconcile (.flagging p) => some p
  | .reconcile (.requeueing p) => some p
  | .reconcile (.enqueueing p _) => some p
  | _ => none

theorem reports_of_records {id hash : String} (h : p.records = some (id, hash)) :
    ∃ op, p.reports = some ⟨id, op⟩ := by
  unfold Proc.records at h
  split at h
  · rename_i k n output
    obtain ⟨rfl, -⟩ := Prod.mk.inj (some.inj h)
    exact ⟨k.operation, rfl⟩
  · cases h

/-- Where a worker in flight was one step ago. -/
theorem work_of_step (h : step E w e = some w') (hproc : w'.procs pid = .work pc) :
    w'.procs pid = w.procs pid ∨ (∃ k, pc = .start k) ∨ ∃ t pc' r, e = .adv pid t ∧ w.procs pid = .work pc' ∧
      pc'.advance E w.db w.chain t = some r ∧ w'.db = r.1 ∧ w'.chain = r.2.1 ∧ pc = r.2.2 := by
  rcases procStep h pid with hsame | ⟨p, -, hstart, hnew⟩ | ⟨t, r, he, hadv, hnew, hdb, hchain⟩
  · exact .inl hsame
  · obtain rfl := hnew.symm.trans hproc
    cases pc with
    | start k => exact .inr (.inl ⟨k, rfl⟩)
    | _ => cases hstart
  · refine .inr (.inr ?_)
    have hr : r.2.2 = .work pc := hnew.symm.trans hproc
    generalize hp : w.procs pid = proc at hadv
    cases advance_inv hadv with
    | work pc' r' hr' => exact ⟨t, pc', r', he, rfl, hr', hdb, hchain, (Proc.work.inj hr).symm⟩
    | _ => cases hr

/-- A worker gets an intent in hand by claiming it from the queue. -/
theorem holds_of_step (h : step E w e = some w') (hk : (w'.procs pid).holds = some k) :
    (w.procs pid).holds = some k ∨ (E.anchoringEnabled ∧ intentStatus w.db k = some .pending) := by
  obtain ⟨pc, hproc⟩ : ∃ pc, w'.procs pid = .work pc := by
    unfold Proc.holds at hk
    split at hk
    · exact ⟨_, ‹_›⟩
    · exact ⟨_, ‹_›⟩
    · exact ⟨_, ‹_›⟩
    · cases hk
  rw [hproc] at hk
  rcases work_of_step h hproc with hsame | ⟨k', rfl⟩ | ⟨t, pc', r, -, hold, hadv, -, -, rfl⟩
  · rw [← hsame, hproc]
    exact .inl hk
  · cases hk
  · rw [hold]
    cases pc' with
    | start k' =>
      simp only [WorkPc.advance] at hadv
      split at hadv
      · rename_i hpending
        cases hadv
        cases hk
        exact .inr hpending
      · cases hadv
        cases hk
    | claimed =>
      simp only [WorkPc.advance] at hadv
      split at hadv
      · cases hadv
        cases hk
      · cases hadv
        exact .inl hk
    | calling =>
      obtain ⟨s, -, rfl⟩ := map_eq_some_iff.mp hadv
      exact .inl hk
    | reporting | done =>
      cases hadv
      cases hk

theorem reads_of_starts (h : p.starts) : p.anchoredRead = none ∧ p.revokes = none := by
  unfold Proc.starts at h
  split at h
  case h_7 => cases h
  all_goals exact ⟨rfl, rfl⟩

/-- A process that holds such a row has just read it, or held it before, and what it is about to
    revoke it has just read unrevoked. -/
theorem reads_of_advance {chain : String → ChainState}
    {r : Db × (String → ChainState) × Proc} (h : p.advance E db chain t = some r) :
    (r.2.2.anchoredRead = some read → p.anchoredRead = some read ∨ (read ∈ db.proofs ∧ anchored read)) ∧
      (r.2.2.revokes = some read → read.status ≠ .revoked) := by
  cases advance_inv h with
  | revoke c pc =>
    cases pc with
    | start =>
      simp only [advanceRevocation]
      split
      · constructor <;> rintro ⟨⟩
      · rename_i p hp
        split
        · constructor <;> rintro ⟨⟩
        · split
          · constructor <;> rintro ⟨⟩
          · rename_i hstatus
            constructor
            · intro hr
              obtain ⟨hanchored, hr⟩ := ite_none_right_eq_some.mp hr
              cases hr
              exact .inr ⟨(mem_of_proof? hp).1, hanchored⟩
            · rintro ⟨⟩
              exact hstatus
    | read =>
      simp only [advanceRevocation]
      split <;> constructor <;> rintro ⟨⟩
    | done => constructor <;> rintro ⟨⟩
  | reconcile pc =>
    cases pc with
    | start id =>
      simp only [ReconcilePc.advance]
      split
      · constructor <;> rintro ⟨⟩
      · rename_i p hp
        split
        · rename_i hpick
          refine ⟨?_, by rintro ⟨⟩⟩
          rintro ⟨⟩
          exact .inr ⟨(mem_of_proof? hp).1, hpick.2.1⟩
        · constructor <;> rintro ⟨⟩
    | read q =>
      simp only [ReconcilePc.advance]
      split
      · constructor <;> rintro ⟨⟩
      · split
        · rename_i hactive
          split
          · refine ⟨.inl, ?_⟩
            rintro ⟨⟩
            rw [hactive]
            decide
          · split
            · constructor <;> rintro ⟨⟩
            · exact ⟨.inl, by rintro ⟨⟩⟩
        · split
          · constructor <;> rintro ⟨⟩
          · exact ⟨.inl, by rintro ⟨⟩⟩
    | requeueing => exact ⟨.inl, by rintro ⟨⟩⟩
    | _ => constructor <;> rintro ⟨⟩
  | _ => constructor <;> rintro ⟨⟩

/-! ## The contract -/

theorem contractCall_cases {s s' : ChainState} (h : contractCall op s t = some s') :
    s' = s ∨ s.call op = some s' := by
  unfold contractCall at h
  split at h
  · split at h
    · exact .inr h
    · cases h
  · split at h
    · cases h
    · exact .inl (some.inj h).symm
  · split at h
    · cases h
      cases hc : s.call op with
      | none => exact .inl rfl
      | some => exact .inr rfl
    · exact .inl (some.inj h).symm

/-- The contract moves only by an accepted call of a worker that holds the intent. -/
theorem chain_of_step (h : step E w e = some w') (i : String) : w'.chain i = w.chain i ∨
      ∃ pid op, (w.procs pid).holds = some ⟨i, op⟩ ∧ (w.chain i).call op = some (w'.chain i) := by
  cases e with
  | issue =>
    obtain ⟨-, h⟩ := ite_none_right_eq_some.mp h
    split at h <;> cases h
    exact .inl rfl
  | elsewhere =>
    cases h
    exact .inl rfl
  | spawn | resetStale =>
    obtain ⟨-, rfl⟩ := enabled h
    exact .inl rfl
  | adv pid =>
    obtain ⟨r, hr, rfl⟩ := map_eq_some_iff.mp h
    show r.2.1 i = w.chain i ∨ ∃ pid op, (w.procs pid).holds = some ⟨i, op⟩ ∧ (w.chain i).call op = some (r.2.1 i)
    generalize hp : w.procs pid = proc at hr
    cases advance_inv hr with
    | work pc r' hr' =>
      cases pc with
      | calling k =>
        obtain ⟨s, hs, rfl⟩ := map_eq_some_iff.mp hr'
        by_cases hi : i = k.proofId
        · subst hi
          have hself : Function.update w.chain k.proofId s k.proofId = s := update_self _ _ _
          rcases contractCall_cases hs with hsame | hcall
          · exact .inl (hself.trans hsame)
          · exact .inr ⟨pid, k.operation, by rw [hp]; rfl, hcall.trans (congrArg some hself.symm)⟩
        · exact .inl (update_of_ne hi s w.chain)
      | start | claimed =>
        simp only [WorkPc.advance] at hr'
        split at hr' <;> exact .inl (some.inj hr' ▸ rfl)
      | reporting | done => exact .inl (some.inj hr' ▸ rfl)
    | _ => exact .inl rfl

theorem call_ne_unregistered {s s' : ChainState} (h : s.call op = some s') : s' ≠ .unregistered := by
  cases op <;> cases s <;> simp [ChainState.call] at h <;> simp [← h]

/-- A worker comes to know of a success by a call the contract accepted, and forgets it when
    it makes its next access. -/
theorem reports_of_step (h : step E w e = some w') (hk : (w'.procs pid).reports = some k) :
    ((w.procs pid).reports = some k ∧ ∀ t, e ≠ .adv pid t) ∨
      ∃ t, e = .adv pid t ∧ (w.chain k.proofId).call k.operation = some (w'.chain k.proofId) := by
  obtain ⟨n, output, hproc⟩ : ∃ n output, w'.procs pid = .work (.reporting k n (.anchored output)) := by
    unfold Proc.reports at hk
    split at hk
    · rename_i k' n output hproc
      cases hk
      exact ⟨n, output, hproc⟩
    · cases hk
  rcases work_of_step h hproc with hsame | ⟨k', hstart⟩ | ⟨t, pc', r, he, hold, hadv, -, hchain, hpc⟩
  · refine .inl ⟨hsame ▸ hk, fun t he => ?_⟩
    -- the access would have recorded the success and ended the worker
    subst he
    obtain ⟨r, hr, rfl⟩ := map_eq_some_iff.mp h
    rw [← hsame, hproc] at hr
    cases hr
    cases (update_self pid (.work .done) w.procs).symm.trans hproc
  · cases hstart
  · refine .inr ⟨t, he, ?_⟩
    rw [hchain]
    cases pc' with
    | calling =>
      obtain ⟨s, hs, rfl⟩ := map_eq_some_iff.mp hadv
      obtain ⟨rfl, rfl, hreport⟩ := WorkPc.reporting.inj hpc
      have hself : Function.update w.chain k.proofId s k.proofId = s := update_self _ _ _
      refine Eq.trans ?_ (congrArg some hself.symm)
      unfold contractCall at hs
      rw [← hreport] at hs
      simp only at hs
      split at hs
      · exact hs
      · cases hs
    | start | claimed =>
      simp only [WorkPc.advance] at hadv
      split at hadv <;> cases (congrArg (fun r => r.2.2) (some.inj hadv)).trans hpc.symm
    | reporting | done => cases (congrArg (fun r => r.2.2) (some.inj hadv)).trans hpc.symm

/-! ## The anchoring columns of a row -/

/-- What becomes of the columns by which a row takes part in anchoring and propagation. -/
structure RowStep (proc : Proc) (p p' : Proof) : Prop where
  id : p'.id = p.id
  revoked : p'.status = .revoked → p.status = .revoked ∨ ∃ read, proc.revokes = some read ∧ read.id = p.id
  anchor : p'.contractTransactionHash = p.contractTransactionHash ∨ ∃ hash, proc.records = some (p.id, hash)
  confirm : p'.revocationPropagationConfirmedAt = p.revocationPropagationConfirmedAt ∨ proc.confirms = some p.id

variable {p : Proof}

theorem RowChange.rowStep {p' : Proof} (h : RowChange w e p p') : RowStep (acting w e) p p' := by
  cases h with
  | touch ht => exact ⟨id_of_core ht.core, fun hr => .inl (ht.unrevoked hr), ht.anchor, ht.confirm⟩
  | revoke read hread hid hr =>
    exact ⟨id_of_core hr.core, fun _ => .inr ⟨read, hread, hid⟩, .inl hr.anchor, .inl hr.confirm⟩
  | mark | attach => exact ⟨rfl, .inl, .inl rfl, .inl rfl⟩

/-- A row inserted by a step: nothing anchored, revoked or propagated. -/
structure Newborn (p : Proof) : Prop where
  status : p.status ≠ .revoked
  anchor : p.contractTransactionHash = none
  confirm : p.revocationPropagationConfirmedAt = none

theorem rowStep_forth (h : step E w e = some w') (hp : p ∈ w.db.proofs) :
    ∃ p' ∈ w'.db.proofs, RowStep (acting w e) p p' := by
  obtain ⟨p', hp', hchange⟩ := (storeStep h).forth hp
  exact ⟨p', hp', hchange.rowStep⟩

theorem rowStep_back (h : step E w e = some w') (hp : p' ∈ w'.db.proofs) :
    (∃ p ∈ w.db.proofs, RowStep (acting w e) p p') ∨ Newborn p' := by
  rcases (storeStep h).back hp with ⟨p, hp, hchange⟩ | hnew
  · exact .inl ⟨p, hp, hchange.rowStep⟩
  · refine .inr ?_
    cases hnew with
    | issue row hrow => exact ⟨by rw [hrow.status]; decide, hrow.contractTransactionHash, hrow.propagation⟩
    | succeed => exact ⟨by simp [successorRow], rfl, rfl⟩

/-! ## What a step does to an intent -/

/-- The ways the status of one intent moves, by the process that acts. -/
inductive IntentStep (w : World) (e : Ev) (k : IntentKey) : Option AnchoringStatus → Option AnchoringStatus → Prop
  | same s : IntentStep w e k s s
  /-- A proof is issued. -/
  | issued : k.operation = .register → (∀ p ∈ w.db.proofs, p.id ≠ k.proofId) → IntentStep w e k none (some .pending)
  | flagged : k.operation = .register → IntentStep w e k none (some .quarantined)
  /-- `revokeProof` or the anchoring reconciler asks for the revocation of a proof it read anchored. -/
  | requested s read : k.operation = .revoke →
      (acting w e).anchoredRead = some read → read.id = k.proofId → IntentStep w e k s (some .pending)
  | claimed : IntentStep w e k (some .pending) (some .processing)
  | released : IntentStep w e k (some .processing) (some .pending)
  | settled n report s s' : acting w e = .work (.reporting k n report) →
      (s' = .confirmed → ∃ output, report = .anchored output) → IntentStep w e k (some s) (some s')

/-- The step moves the intent to where the database it leaves has it. -/
abbrev Moves (w : World) (e : Ev) (k : IntentKey) (db' : Db) : Prop :=
  IntentStep w e k (intentStatus w.db k) (intentStatus db' k)

theorem intentStep_of_congr (h : db.anchoringIntents = w.db.anchoringIntents) : Moves w e k db := by
  rw [Moves, intentStatus_congr h]
  exact .same _

/-- An insert moves the new intent alone. -/
theorem intentStep_of_insert {db₀ : Db} (h : insertIntent db₀ proofId op s = .ok db')
    (hdb : db₀.anchoringIntents = w.db.anchoringIntents) (hnew : IntentStep w e ⟨proofId, op⟩ none (some s))
    (k : IntentKey) : Moves w e k db' := by
  rw [Moves, ← intentStatus_congr hdb]
  rcases intentStatus_insert h k with heq | ⟨rfl, hnone, hstatus⟩
  · rw [heq]
    exact .same _
  · rw [hnone, hstatus]
    exact hnew

/-- A transaction that inserts a proof queues its registration and nothing else. -/
theorem intentStep_of_issued {row : Proof} (k : IntentKey)
    (hrow : insertProof db row = .ok db') {db'' : Db} (hreg : enqueueRegister E db' id = .ok db'') (hid : row.id = id)
    (hintents : db.anchoringIntents = w.db.anchoringIntents) (hids : ∀ p ∈ w.db.proofs, ∃ q ∈ db.proofs, q.id = p.id) :
    Moves w e k db'' := by
  obtain ⟨hnew, -, rfl⟩ := insertProof_eq_ok hrow
  unfold enqueueRegister at hreg
  split at hreg
  · refine intentStep_of_insert hreg hintents (.issued rfl fun p hp hpid => ?_) k
    obtain ⟨q, hq, hqp⟩ := hids p hp
    exact hnew q hq ((hqp.trans hpid).trans hid.symm)
  · cases hreg
    exact intentStep_of_congr hintents

theorem intentStep_renewal {c : RenewCall} (pc : RenewPc) (t : Tick) (k : IntentKey) :
    Moves w (.adv pid t) k (advanceRenewal E c w.db t pc).1 := by
  cases hpc : pc.commits with
  | false =>
    rw [advanceRenewal_reads hpc]
    exact .same _
  | true =>
    cases pc with
    | attaching p q now =>
      simp only [advanceRenewal, RenewPc.settle]
      split
      · rename_i db' hok
        obtain ⟨-, -, -, rfl⟩ := linkSuccessor_eq_ok hok
        exact intentStep_of_congr rfl
      · exact .same _
    | issuing p s =>
      simp only [advanceRenewal, RenewPc.settle]
      split
      · rename_i db' hok
        obtain ⟨_, hclaim, hok⟩ := bind_eq_ok.mp hok
        obtain ⟨-, rfl⟩ := updateOne_eq_ok hclaim
        obtain ⟨_, -, hok⟩ := bind_eq_ok.mp hok
        obtain ⟨_, hrow, hreg⟩ := bind_eq_ok.mp hok
        refine intentStep_of_issued k hrow hreg rfl rfl fun q hq => ?_
        refine ⟨_, mem_update.mpr ⟨q, hq, rfl⟩, ?_⟩
        split <;> rfl
      · exact .same _
    | _ => cases hpc

theorem intentStep_revocation {c : RevokeCall} {pc : RevokePc} (t : Tick) (k : IntentKey)
    (hp : w.procs pid = .revoke c pc) : Moves w (.adv pid t) k (advanceRevocation E c w.db t pc).1 := by
  cases pc with
  | start =>
    simp only [advanceRevocation]
    repeat' split
    all_goals exact .same _
  | read p =>
    simp only [advanceRevocation]
    split
    · rename_i db' hok
      obtain ⟨_, -, hok⟩ := bind_eq_ok.mp hok
      obtain ⟨_, haudit, hok⟩ := bind_eq_ok.mp hok
      obtain ⟨_, -, haudit⟩ := bind_eq_ok.mp haudit
      cases haudit
      split at hok
      · rename_i hask
        refine intentStep_of_insert hok rfl (.requested _ p rfl ?_ rfl) k
        show (w.procs pid).anchoredRead = some p
        rw [hp]
        exact if_pos hask.2
      · rw [← pure_eq_ok.mp hok]
        exact intentStep_of_congr rfl
    · exact .same _
  | done => exact .same _

/-- An update by key moves that intent, if there is one, to the new status. -/
theorem intentStep_of_update (k k' : IntentKey)
    (hkey : ∀ i, AnchoringIntent.key (data i) = AnchoringIntent.key i) (hs : ∀ i, (data i).status = s)
    (hmove : ∀ s₀, intentStatus w.db k' = some s₀ → IntentStep w e k' (some s₀) (some s)) :
    Moves w e k (updateIntent w.db k' data) := by
  unfold Moves
  unfold intentStatus at hmove ⊢
  rw [intent?_updateIntent w.db k k' hkey]
  cases hi : w.db.intent? k.proofId k.operation with
  | none => exact .same _
  | some i =>
    by_cases hk : k = k'
    · subst hk
      rw [hi] at hmove
      rw [map_some, map_some, map_some, if_pos (key_of_intent? hi), hs]
      exact hmove i.status rfl
    · rw [map_some, map_some, if_neg (key_of_intent? hi ▸ hk)]
      exact .same _

theorem intentStep_enqueueRevoke (existing : Option AnchoringStatus) (k : IntentKey)
    (hread : (acting w e).anchoredRead = some p) : Moves w e k (commit w.db (enqueueRevoke w.db p.id existing)) := by
  have hreset : ∀ s₀, intentStatus w.db ⟨p.id, .revoke⟩ = some s₀ →
      IntentStep w e ⟨p.id, .revoke⟩ (some s₀) (some .pending) := fun s₀ _ => .requested _ p rfl hread rfl
  unfold enqueueRevoke
  split
  · refine commit_rule (P := Moves w e k) (.same _) ?_
    exact fun db' hok => intentStep_of_insert hok rfl (.requested _ p rfl hread rfl) k
  · exact .same _
  · exact .same _
  · exact intentStep_of_update k _ (fun _ => rfl) (fun _ => rfl) hreset

theorem intentStep_reconciliation {pc : ReconcilePc} (t : Tick) (k : IntentKey) (hp : w.procs pid = .reconcile pc) :
    Moves w (.adv pid t) k (pc.advance E w.db t).1 := by
  cases pc with
  | start =>
    simp only [ReconcilePc.advance]
    split
    · exact .same _
    · split <;> exact .same _
  | read =>
    simp only [ReconcilePc.advance]
    repeat' split
    all_goals exact .same _
  | repairing => exact intentStep_of_congr rfl
  | flagging =>
    refine commit_rule (P := Moves w (.adv pid t) k) (.same _) ?_
    exact fun db' hok => intentStep_of_insert hok rfl (.flagged rfl) k
  | requeueing | done => exact .same _
  | enqueueing p existing =>
    refine intentStep_enqueueRevoke existing k ?_
    show (w.procs pid).anchoredRead = some p
    rw [hp]
    rfl

theorem intentStep_settle {n : Nat} {report : Report} (k : IntentKey)
    (hacts : acting w e = .work (.reporting k' n report)) : Moves w e k (settleIntent w.db k' n report) := by
  cases report with
  | anchored output =>
    exact intentStep_of_update k k' (fun _ => rfl) (fun _ => rfl) fun s₀ _ =>
      .settled n _ s₀ _ hacts fun _ => ⟨output, rfl⟩
  | circuitOpen =>
    exact intentStep_of_update k k' (fun _ => rfl) (fun _ => rfl) fun s₀ _ =>
      .settled n _ s₀ .pending hacts nofun
  | failed permanent =>
    have hnot : (if permanent ∨ MAX_ATTEMPTS ≤ n + 1 then AnchoringStatus.quarantined else .pending) ≠ .confirmed := by
      split <;> decide
    exact intentStep_of_update k k' (fun _ => rfl) (fun _ => rfl) fun s₀ _ =>
      .settled n _ s₀ _ hacts fun hc => absurd hc hnot

theorem intentStep_work {r : Db × (String → ChainState) × WorkPc}
    (hp : w.procs pid = .work pc) (h : pc.advance E w.db w.chain t = some r) (k : IntentKey) :
    Moves w (.adv pid t) k r.1 := by
  cases pc with
  | start k' =>
    simp only [WorkPc.advance] at h
    split at h
    · rename_i hpending
      cases h
      refine intentStep_of_update k k' (fun _ => rfl) (fun _ => rfl) fun s₀ hs₀ => ?_
      obtain rfl := some.inj (hs₀.symm.trans hpending.2)
      exact .claimed
    · cases h
      exact .same _
  | claimed =>
    simp only [WorkPc.advance] at h
    split at h
    · cases h
      exact .same _
    · cases h
      exact .same _
  | calling =>
    obtain ⟨s, -, rfl⟩ := map_eq_some_iff.mp h
    exact .same _
  | reporting =>
    cases h
    exact intentStep_settle k hp
  | done =>
    cases h
    exact .same _

theorem intentStep (h : step E w e = some w') (k : IntentKey) :
    IntentStep w e k (intentStatus w.db k) (intentStatus w'.db k) := by
  cases e with
  | issue row =>
    obtain ⟨-, h⟩ := ite_none_right_eq_some.mp h
    split at h
    · rename_i db hok
      cases h
      obtain ⟨_, hrow, hreg⟩ := bind_eq_ok.mp hok
      exact intentStep_of_issued k hrow hreg rfl rfl fun p hp => ⟨p, hp, rfl⟩
    · cases h
  | elsewhere =>
    cases h
    exact intentStep_of_congr rfl
  | spawn =>
    obtain ⟨-, rfl⟩ := enabled h
    exact .same _
  | adv pid t =>
    obtain ⟨r, hr, rfl⟩ := map_eq_some_iff.mp h
    show Moves w (.adv pid t) k r.1
    generalize hp : w.procs pid = proc at hr
    cases advance_inv hr with
    | renew c pc => exact intentStep_renewal pc t k
    | revoke => exact intentStep_revocation t k hp
    | expire pc => cases pc <;> exact intentStep_of_congr rfl
    | reconcile => exact intentStep_reconciliation t k hp
    | propagate pc =>
      cases pc with
      | start =>
        simp only [PropagatePc.advance]
        split
        · exact .same _
        · split <;> exact .same _
      | _ => exact intentStep_of_congr rfl
    | work pc r' hr' => exact intentStep_work hp hr' k
  | resetStale k' =>
    obtain ⟨hprocessing, rfl⟩ := enabled h
    refine intentStep_of_update k k' (fun _ => rfl) (fun _ => rfl) fun s₀ hs₀ => ?_
    obtain rfl := some.inj (hs₀.symm.trans hprocessing)
    exact .released

end EarnProof.Lifecycle
