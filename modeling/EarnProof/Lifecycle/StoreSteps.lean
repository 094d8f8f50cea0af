/-
  EarnProof.Lifecycle.StoreSteps — what one step of the system can do to the stored
  proofs (`storeStep`) and to a process (`procStep`). Every invariant of the lifecycle
  is derived from these two.

  A step changes the proof table in one of five ways: it touches rows without moving
  them in the supersession graph or revoking them, it revokes one, it inserts an issued
  row, it issues a successor, or it links one. Every row keeps its core (owner, type,
  asset, claim), its status moves only from `ACTIVE` to `EXPIRED` or to `REVOKED`, and
  a link once made stays (`evolve_of_storeStep`).
-/
import EarnProof.Lifecycle.System

namespace EarnProof.Lifecycle

open Lib Lib.Table Lib.Calendar Lib.Result Database Proofs List Option Function

/-! ## Rows -/

structure Core where
  id : String
  userId : String
  proofType : ProofType
  schemaVersion : String
  network : String
  assetCode : String
  assetIssuer : Option String
  claim : Option ProofClaim

def core (p : Proof) : Core :=
  ⟨p.id, p.userId, p.proofType, p.schemaVersion, p.network, p.assetCode, p.assetIssuer, p.claim⟩

variable {p q : Proof} {c : RenewCall} {db : Db} {E : Env} {w : World} {pid : Nat} {pc : RenewPc} {t : Tick} {e : Ev}

theorem id_of_core (h : core p = core q) : p.id = q.id := congrArg Core.id h

theorem claim_of_core (h : core p = core q) : p.claim = q.claim := congrArg Core.claim h

def StatusStep (a b : ProofStatus) : Prop := b = a ∨ (a = .active ∧ b = .expired) ∨ b = .revoked

theorem StatusStep.refl (a : ProofStatus) : StatusStep a a := .inl rfl

theorem StatusStep.trans {a b c : ProofStatus} (h : StatusStep a b) (h' : StatusStep b c) : StatusStep a c := by
  rcases h with rfl | ⟨rfl, rfl⟩ | rfl
  · exact h'
  · rcases h' with rfl | ⟨hb, -⟩ | rfl
    · exact .inr (.inl ⟨rfl, rfl⟩)
    · exact absurd hb (by decide)
    · exact .inr (.inr rfl)
  · rcases h' with rfl | ⟨hb, -⟩ | rfl
    · exact .inr (.inr rfl)
    · exact absurd hb (by decide)
    · exact .inr (.inr rfl)

variable {b : ProofStatus} {proc : Proc} {ps : List Proof} {r : Db × (String → ChainState) × Proc}
  {chain : String → ChainState} {id userId successorId : String} {w' : World}

theorem StatusStep.revoked (h : StatusStep .revoked b) : b = .revoked := by
  rcases h with rfl | ⟨ha, -⟩ | rfl
  · rfl
  · exact absurd ha (by decide)
  · rfl

structure Evidence where
  revokedAt : Option Date
  revokedByType : Option RevocationActorType
  revokedById : Option String
  reasonCode : Option RevocationReasonCode
  reasonPrivate : Option String
  evidenceHash : Option String
  deriving DecidableEq

def evidence (p : Proof) : Evidence :=
  ⟨p.revokedAt, p.revokedByType, p.revokedById, p.revocationReasonCode, p.revocationReasonPrivate,
    p.revocationEvidenceHash⟩

/-- A change to a row that leaves its place in the supersession graph alone. -/
structure Stays (p p' : Proof) : Prop where
  core : core p' = core p
  status : StatusStep p.status p'.status
  supersedesId : p'.supersedesId = p.supersedesId
  supersededAt : p'.supersededAt = p.supersededAt
  renewalRequestHash : p'.renewalRequestHash = p.renewalRequestHash

/-- The proof whose `contractTransactionHash` the process is about to store, and the text. -/
def Proc.records : Proc → Option (String × String)
  | .work (.reporting k _ (.anchored output)) => some (k.proofId, transactionHashOf output)
  | _ => none

/-- The proof whose revocation the process is about to confirm as propagated. -/
def Proc.confirms : Proc → Option String
  | .propagate (.confirming p) => some p.id
  | _ => none

structure Touch (proc : Proc) (p p' : Proof) : Prop extends Stays p p' where
  evidence : evidence p' = evidence p
  unrevoked : p'.status = .revoked → p.status = .revoked
  anchor : p'.contractTransactionHash = p.contractTransactionHash ∨ ∃ hash, proc.records = some (p.id, hash)
  confirm : p'.revocationPropagationConfirmedAt = p.revocationPropagationConfirmedAt ∨ proc.confirms = some p.id

structure Revoking (p p' : Proof) : Prop extends Stays p p' where
  revoked : p'.status = .revoked
  anchor : p'.contractTransactionHash = p.contractTransactionHash
  confirm : p'.revocationPropagationConfirmedAt = p.revocationPropagationConfirmedAt

theorem Stays.refl (p : Proof) : Stays p p := ⟨rfl, .refl _, rfl, rfl, rfl⟩

theorem Touch.refl (proc : Proc) (p : Proof) : Touch proc p p := ⟨.refl p, rfl, id, .inl rfl, .inl rfl⟩

abbrev Touched (proc : Proc) : List Proof → List Proof → Prop := Forall₂ (Touch proc)

theorem Touched.refl (proc : Proc) (ps : List Proof) : Touched proc ps ps := forall₂_same.mpr fun p _ => .refl proc p

theorem touched_of_eq {ps ps' : List Proof} (h : ps' = ps) : Touched proc ps ps' := h ▸ .refl proc ps

theorem touched_update {sel : Proof → Bool} {data : Proof → Proof}
    (h : ∀ p ∈ db.proofs, sel p → Touch proc p (data p)) :
    Touched proc db.proofs (updateProofs db sel data).proofs :=
  forall₂_update (Touch.refl proc) h

/-! ## What a step does to the table -/

/-- The row, as it was read, of the proof a process is about to revoke by its id. -/
def Proc.revokes : Proc → Option Proof
  | .revoke _ (.read p) => some p
  | .reconcile (.repairing p) => some p
  | _ => none

def acting (w : World) : Ev → Proc
  | .adv pid _ => w.procs pid
  | _ => .idle

/-- The five ways. A revocation and the two ways to make a link name the process that acts. -/
inductive StoreStep (E : Env) (w : World) (e : Ev) : List Proof → Prop
  | touch {ps : List Proof} : Touched (acting w e) w.db.proofs ps → StoreStep E w e ps
  | revoke pid t read data : e = .adv pid t → (w.procs pid).revokes = some read →
      (∀ p, Revoking p (data p)) → StoreStep E w e (Table.update (hasId read.id) data w.db.proofs)
  | issue row : FreshRow row → (∀ p ∈ w.db.proofs, p.id ≠ row.id) → StoreStep E w e (w.db.proofs ++ [row])
  | succeed pid t c p s : e = .adv pid t →
      w.procs pid = .renew c (.issuing p s) →
      (∃ q ∈ w.db.proofs, claimable p q) → (∀ q ∈ w.db.proofs, q.supersedesId ≠ some p.id) →
      (∀ q ∈ w.db.proofs, q.id ≠ s.id) →
      StoreStep E w e (Table.update (claimable p) (markSuperseded s.now) w.db.proofs ++ [successorRow E c p s])
  | link pid t c p q now : e = .adv pid t →
      w.procs pid = .renew c (.attaching p q now) →
      (∃ r ∈ w.db.proofs, claimable p r) → (∀ r ∈ w.db.proofs, r.supersedesId ≠ some p.id) →
      (∃ r ∈ Table.update (claimable p) (markSuperseded now) w.db.proofs, attachable c.user.id q.id r) →
      StoreStep E w e (Table.update (attachable c.user.id q.id) (attach p.id c.requestHash)
        (Table.update (claimable p) (markSuperseded now) w.db.proofs))

/-! ## What each process does to the table -/

theorem revokeProof_eq_ok {db' : Db} {read : Proof} {r : Revocation}
    (h : revokeProof E db read r = .ok db') : db'.proofs = Table.update (hasId read.id) (revoked r) db.proofs := by
  obtain ⟨_, -, h⟩ := bind_eq_ok.mp h
  obtain ⟨_, haudit, h⟩ := bind_eq_ok.mp h
  obtain ⟨_, -, haudit⟩ := bind_eq_ok.mp haudit
  cases haudit
  split at h
  · rw [(insertIntent_eq_ok h).2]
    rfl
  · rw [← pure_eq_ok.mp h]
    rfl

theorem storeStep_revocation {c : RevokeCall} {pc : RevokePc} (t : Tick)
    (hp : w.procs pid = .revoke c pc) : StoreStep E w (.adv pid t) (advanceRevocation E c w.db t pc).1.proofs := by
  cases pc with
  | start =>
    simp only [advanceRevocation]
    refine .touch (touched_of_eq ?_)
    repeat' split
    all_goals rfl
  | read p =>
    simp only [advanceRevocation]
    split
    · rename_i db' hok
      rw [revokeProof_eq_ok hok]
      exact .revoke pid t p _ rfl (by rw [hp]; rfl) fun q =>
        ⟨⟨rfl, .inr (.inr rfl), rfl, rfl, rfl⟩, rfl, rfl, rfl⟩
    · exact .touch (.refl _ _)
  | done => exact .touch (.refl _ _)

theorem touched_expiration (proc : Proc) (db : Db) (t : Tick) (pc : ExpirePc) :
    Touched proc db.proofs (pc.advance db t).1.proofs := by
  cases pc with
  | start | done => exact .refl _ _
  | picked =>
    refine touched_update fun p _ hs => ?_
    refine ⟨⟨rfl, .inr (.inl ⟨(of_decide_eq_true hs).2, rfl⟩), rfl, rfl, rfl⟩, rfl, ?_, .inl rfl, .inl rfl⟩
    exact fun hrevoked => absurd hrevoked (by simp)

theorem proofs_commit_insertIntent (db : Db) (proofId : String) (op : AnchoringOperation) (s : AnchoringStatus) :
    (commit db (insertIntent db proofId op s)).proofs = db.proofs :=
  commit_rule (P := fun d : Db => d.proofs = db.proofs) rfl fun _ h => by rw [(insertIntent_eq_ok h).2]

theorem storeStep_reconciliation {pc : ReconcilePc} (t : Tick)
    (hp : w.procs pid = .reconcile pc) : StoreStep E w (.adv pid t) (pc.advance E w.db t).1.proofs := by
  cases pc with
  | start =>
    simp only [ReconcilePc.advance]
    refine .touch (touched_of_eq ?_)
    split
    · rfl
    · split <;> rfl
  | read =>
    simp only [ReconcilePc.advance]
    refine .touch (touched_of_eq ?_)
    repeat' split
    all_goals rfl
  | repairing p =>
    refine .revoke pid t p _ rfl (by rw [hp]; rfl) fun q => ?_
    exact ⟨⟨rfl, .inr (.inr rfl), rfl, rfl, rfl⟩, rfl, rfl, rfl⟩
  | flagging p => exact .touch (touched_of_eq (proofs_commit_insertIntent w.db p.id .register .quarantined))
  | requeueing | done => exact .touch (.refl _ _)
  | enqueueing p existing =>
    refine .touch (touched_of_eq (show (commit w.db (enqueueRevoke w.db p.id existing)).proofs = _ from ?_))
    unfold enqueueRevoke
    split
    · exact proofs_commit_insertIntent w.db p.id .revoke .pending
    · rfl
    · rfl
    · rfl

theorem touched_propagation (E : Env) (db : Db) (t : Tick) (pc : PropagatePc) :
    Touched (.propagate pc) db.proofs (pc.advance E db t).1.proofs := by
  cases pc with
  | start =>
    simp only [PropagatePc.advance]
    refine touched_of_eq ?_
    split
    · rfl
    · split <;> rfl
  | confirming =>
    refine touched_update fun q _ hq => ?_
    exact ⟨⟨rfl, .refl _, rfl, rfl, rfl⟩, rfl, id, .inl rfl, .inr (congrArg some (hasId_iff.mp hq).symm)⟩
  | _ => exact .refl _ _

theorem touched_settleIntent (db : Db) (k : IntentKey) (n : Nat) (report : Report) :
    Touched (.work (.reporting k n report)) db.proofs (settleIntent db k n report).proofs := by
  cases report with
  | anchored output =>
    show Touched _ (updateIntent db k (attempted .confirmed (n + 1))).proofs _
    refine touched_update fun q _ hq => ?_
    refine ⟨⟨rfl, .refl _, rfl, rfl, rfl⟩, rfl, id, .inr ⟨transactionHashOf output, ?_⟩, .inl rfl⟩
    exact congrArg some (Prod.ext (hasId_iff.mp hq).symm rfl)
  | circuitOpen | failed => exact .refl _ _

theorem touched_work {pc : WorkPc} {r : Db × (String → ChainState) × WorkPc} (h : pc.advance E db chain t = some r) :
    Touched (.work pc) db.proofs r.1.proofs := by
  cases pc with
  | start | claimed =>
    simp only [WorkPc.advance] at h
    split at h
    · cases h
      exact .refl _ _
    · cases h
      exact .refl _ _
  | calling =>
    obtain ⟨s, -, rfl⟩ := map_eq_some_iff.mp h
    exact .refl _ _
  | reporting k n report =>
    cases h
    exact touched_settleIntent db k n report
  | done =>
    cases h
    exact .refl _ _

/-- A claim marks rows; it moves no link. -/
theorem unlinked_of_claimed {now : Date} (h : unlinked (updateProofs db (claimable p) (markSuperseded now)) id) :
    ∀ q ∈ db.proofs, q.supersedesId ≠ some id := by
  intro q hq
  have hmem : (if claimable p q then markSuperseded now q else q) ∈
      (updateProofs db (claimable p) (markSuperseded now)).proofs := mem_update.mpr ⟨q, hq, rfl⟩
  have hne := of_decide_eq_true (all_eq_true.mp h _ hmem)
  split at hne
  · exact hne
  · exact hne

/-- The two points at which a renewal's next access is its transaction. -/
def RenewPc.commits : RenewPc → Bool
  | .attaching _ _ _ => true
  | .issuing _ _ => true
  | _ => false

/-- Every other access of a renewal only reads. -/
theorem advanceRenewal_reads (h : pc.commits = false) : (advanceRenewal E c db t pc).1 = db := by
  cases pc with
  | start | loaded =>
    simp only [advanceRenewal]
    repeat' split
    all_goals rfl
  | linking | replaying =>
    simp only [advanceRenewal]
    split
    · rfl
    · split <;> rfl
  | candidate | walking =>
    simp only [advanceRenewal]
    split <;> rfl
  | attaching | issuing => cases h
  | done => rfl

theorem storeStep_renewal (t : Tick)
    (hp : w.procs pid = .renew c pc) : StoreStep E w (.adv pid t) (advanceRenewal E c w.db t pc).1.proofs := by
  cases hpc : pc.commits with
  | false =>
    rw [advanceRenewal_reads hpc]
    exact .touch (.refl _ _)
  | true =>
    cases pc with
    | attaching p q now =>
      simp only [advanceRenewal, RenewPc.settle]
      split
      · rename_i db' hok
        obtain ⟨hclaim, hattach, hnew, rfl⟩ := linkSuccessor_eq_ok hok
        exact .link pid t c p q now rfl hp hclaim (unlinked_of_claimed hnew) hattach
      · exact .touch (.refl _ _)
    | issuing p s =>
      simp only [advanceRenewal, RenewPc.settle]
      split
      · rename_i db' hok
        obtain ⟨hclaim, hnew, hid, intents, rfl⟩ := issueSuccessor_eq_ok hok
        refine .succeed pid t c p s rfl hp hclaim (unlinked_of_claimed hnew) fun q hq he => ?_
        refine hid _ (mem_update.mpr ⟨q, hq, rfl⟩) ?_
        split <;> exact he
      · exact .touch (.refl _ _)
    | _ => cases hpc

/-- What one access leaves behind, by the process that makes it. -/
inductive Advance (E : Env) (db : Db) (chain : String → ChainState) (t : Tick) :
    Proc → Db × (String → ChainState) × Proc → Prop
  | renew c pc : Advance E db chain t (.renew c pc)
      ((advanceRenewal E c db t pc).1, chain, .renew c (advanceRenewal E c db t pc).2)
  | revoke c pc : Advance E db chain t (.revoke c pc)
      ((advanceRevocation E c db t pc).1, chain, .revoke c (advanceRevocation E c db t pc).2)
  | expire pc : Advance E db chain t (.expire pc)
      ((pc.advance db t).1, chain, .expire (pc.advance db t).2)
  | reconcile pc : Advance E db chain t (.reconcile pc)
      ((pc.advance E db t).1, chain, .reconcile (pc.advance E db t).2)
  | propagate pc : Advance E db chain t (.propagate pc)
      ((pc.advance E db t).1, chain, .propagate (pc.advance E db t).2)
  | work pc r : pc.advance E db chain t = some r →
      Advance E db chain t (.work pc) (r.1, r.2.1, .work r.2.2)

theorem advance_inv {p : Proc} (h : p.advance E db chain t = some r) : Advance E db chain t p r := by
  cases p with
  | idle => cases h
  | renew c pc => exact some.inj h ▸ .renew c pc
  | revoke c pc => exact some.inj h ▸ .revoke c pc
  | expire pc => exact some.inj h ▸ .expire pc
  | reconcile pc => exact some.inj h ▸ .reconcile pc
  | propagate pc => exact some.inj h ▸ .propagate pc
  | work pc =>
    obtain ⟨r', hr', rfl⟩ := map_eq_some_iff.mp h
    exact .work pc r' hr'

theorem storeStep (h : step E w e = some w') : StoreStep E w e w'.db.proofs := by
  cases e with
  | issue row =>
    obtain ⟨hrow, h⟩ := ite_none_right_eq_some.mp h
    split at h
    · rename_i db hok
      cases h
      obtain ⟨hid, intents, rfl⟩ := issueProof_eq_ok hok
      exact .issue row hrow hid
    · cases h
  | elsewhere =>
    cases h
    exact .touch (.refl _ _)
  | spawn | resetStale =>
    obtain ⟨-, rfl⟩ := enabled h
    exact .touch (.refl _ _)
  | adv pid t =>
    obtain ⟨r, hr, rfl⟩ := map_eq_some_iff.mp h
    show StoreStep E w (.adv pid t) r.1.proofs
    generalize hp : w.procs pid = proc at hr
    cases advance_inv hr with
    | renew => exact storeStep_renewal t hp
    | revoke => exact storeStep_revocation t hp
    | expire pc => exact .touch (touched_expiration _ w.db t pc)
    | reconcile => exact storeStep_reconciliation t hp
    | propagate pc =>
      refine .touch ?_
      show Touched (w.procs pid) _ _
      rw [hp]
      exact touched_propagation E w.db t pc
    | work pc r' hr' =>
      refine .touch ?_
      show Touched (w.procs pid) _ _
      rw [hp]
      exact touched_work hr'

/-- What a step does to one process: nothing, start it, or make its next access. -/
inductive ProcStep (E : Env) (w w' : World) (e : Ev) (pid : Nat) : Prop
  | same : w'.procs pid = w.procs pid → ProcStep E w w' e pid
  | started p : e = .spawn pid p → p.starts → w'.procs pid = p → ProcStep E w w' e pid
  | advanced t r : e = .adv pid t →
      (w.procs pid).advance E w.db w.chain t = some r → w'.procs pid = r.2.2 → w'.db = r.1 → w'.chain = r.2.1 →
      ProcStep E w w' e pid

theorem procStep (h : step E w e = some w') (pid : Nat) : ProcStep E w w' e pid := by
  cases e with
  | issue =>
    obtain ⟨-, h⟩ := ite_none_right_eq_some.mp h
    split at h <;> cases h
    exact .same rfl
  | elsewhere =>
    cases h
    exact .same rfl
  | spawn pid' p =>
    obtain ⟨hstart, rfl⟩ := enabled h
    by_cases hpid : pid = pid'
    · subst hpid
      exact .started p rfl hstart.1 (update_self pid p w.procs)
    · exact .same (update_of_ne hpid p w.procs)
  | adv pid' t =>
    obtain ⟨r, hr, rfl⟩ := map_eq_some_iff.mp h
    by_cases hpid : pid = pid'
    · subst hpid
      exact .advanced t r rfl hr (update_self pid r.2.2 w.procs) rfl rfl
    · exact .same (update_of_ne hpid r.2.2 w.procs)
  | resetStale =>
    obtain ⟨-, rfl⟩ := enabled h
    exact .same rfl

/-- Where a renewal in flight was one step ago. -/
theorem renewal_of_step (h : step E w e = some w') (hproc : w'.procs pid = .renew c pc) :
    w.procs pid = .renew c pc ∨ (pc = .start ∧ e = .spawn pid (.renew c .start)) ∨ ∃ t pc', e = .adv pid t ∧
      w.procs pid = .renew c pc' ∧
      w'.db = (advanceRenewal E c w.db t pc').1 ∧ pc = (advanceRenewal E c w.db t pc').2 := by
  rcases procStep h pid with hsame | ⟨p, he, hstart, hnew⟩ | ⟨t, r, he, hadv, hnew, hdb, -⟩
  · exact .inl (hsame ▸ hproc)
  · obtain rfl := hnew.symm.trans hproc
    cases pc with
    | start => exact .inr (.inl ⟨rfl, he⟩)
    | _ => cases hstart
  · rw [hproc] at hnew
    generalize w.procs pid = proc at hadv ⊢
    cases advance_inv hadv with
    | renew c' pc' =>
      obtain ⟨rfl, rfl⟩ := Proc.renew.inj hnew
      exact .inr (.inr ⟨t, pc', he, rfl, hdb, rfl⟩)
    | _ => cases hnew

/-! ## What a step keeps of a row -/

/-- Not to be attached to a predecessor any more. -/
def Blocked (p : Proof) : Prop := p.status ≠ .active ∨ p.supersedesId ≠ none ∨ p.supersededAt ≠ none

/-- What becomes of a row in one step: a link stays with the hash of the request that made
    it, a mark stays, and only an attachable row gains a link, only a claimable one a mark. -/
structure Evolve (p p' : Proof) : Prop where
  core : core p' = core p
  status : StatusStep p.status p'.status
  link : ∀ i, p.supersedesId = some i → p'.supersedesId = some i ∧ p'.renewalRequestHash = p.renewalRequestHash
  mark : p.supersededAt ≠ none → p'.supersededAt ≠ none
  blocked : Blocked p → p'.supersedesId = p.supersedesId
  unclaimable : p.status = .revoked ∨ p.status = .invalid → p'.supersededAt = p.supersededAt

theorem Stays.evolve {p' : Proof} (h : Stays p p') : Evolve p p' where
  core := h.core
  status := h.status
  link := fun _ hi => ⟨h.supersedesId.trans hi, h.renewalRequestHash⟩
  mark := fun hm => h.supersededAt ▸ hm
  blocked := fun _ => h.supersedesId
  unclaimable := fun _ => h.supersededAt

theorem claimable_iff : claimable p q ↔ q.id = p.id ∧ q.userId = p.userId ∧
    q.supersededAt = none ∧ q.status ≠ .revoked ∧ q.status ≠ .invalid := by
  exact decide_eq_true_iff

theorem attachable_iff : attachable userId successorId q ↔
    q.id = successorId ∧ q.userId = userId ∧ q.status = .active ∧ q.supersedesId = none ∧ q.supersededAt = none := by
  exact decide_eq_true_iff

theorem evolve_mark (now : Date) (h : claimable p q) : Evolve q (markSuperseded now q) where
  core := rfl
  status := .refl _
  link := fun _ hi => ⟨hi, rfl⟩
  mark := fun _ => by simp [markSuperseded]
  blocked := fun _ => rfl
  unclaimable := fun hs => by
    obtain ⟨-, -, -, hr, hi⟩ := claimable_iff.mp h
    rcases hs with hs | hs
    · exact absurd hs hr
    · exact absurd hs hi

theorem evolve_attach (i h' : String) (h : attachable userId successorId q) : Evolve q (attach i h' q) := by
  obtain ⟨-, -, hactive, hlink, hmark⟩ := attachable_iff.mp h
  refine ⟨rfl, .refl _, fun j hj => ?_, fun hm => hm, fun hb => ?_, fun _ => rfl⟩
  · exact absurd (hlink.symm.trans hj) (by simp)
  · rcases hb with hb | hb | hb
    · exact absurd hactive hb
    · exact absurd hlink hb
    · exact absurd hmark hb

/-- What a step does to one row. -/
inductive RowChange (w : World) (e : Ev) (p : Proof) : Proof → Prop
  | touch {p' : Proof} : Touch (acting w e) p p' → RowChange w e p p'
  | revoke {p' : Proof} read : (acting w e).revokes = some read → read.id = p.id → Revoking p p' → RowChange w e p p'
  | mark q now : claimable q p → RowChange w e p (markSuperseded now p)
  | attach pid c q r now : w.procs pid = .renew c (.attaching q r now) → attachable c.user.id r.id p →
      RowChange w e p (attach q.id c.requestHash p)

inductive NewRow (E : Env) (w : World) : Proof → Prop
  | issue row : FreshRow row → NewRow E w row
  | succeed pid c p s : w.procs pid = .renew c (.issuing p s) → NewRow E w (successorRow E c p s)

theorem RowChange.refl (w : World) (e : Ev) (p : Proof) : RowChange w e p p := .touch (.refl _ p)

/-- The next table is the old one, row by row, with perhaps one row more. -/
theorem StoreStep.rows (h : StoreStep E w e ps) : ∃ kept news, ps = kept ++ news ∧
    Forall₂ (RowChange w e) w.db.proofs kept ∧ ∀ p ∈ news, NewRow E w p := by
  have hmark : ∀ (q : Proof) (now : Date), Forall₂ (RowChange w e) w.db.proofs
      (Table.update (claimable q) (markSuperseded now) w.db.proofs) :=
    fun q now => forall₂_update (RowChange.refl w e) fun p _ hc => .mark q now hc
  cases h with
  | touch ht => exact ⟨ps, [], (append_nil ps).symm, ht.imp fun _ _ => .touch, fun _ hp => nomatch hp⟩
  | revoke pid t read data he hread hdata =>
    subst he
    refine ⟨_, [], (append_nil _).symm, ?_, fun _ hp => nomatch hp⟩
    exact forall₂_update (RowChange.refl w _) fun p _ hid => .revoke read hread (hasId_iff.mp hid).symm (hdata p)
  | issue row hrow =>
    exact ⟨_, [row], rfl, forall₂_same.mpr fun p _ => .refl w e p, forall_mem_singleton.mpr (.issue row hrow)⟩
  | succeed pid t c q s _ hproc =>
    exact ⟨_, _, rfl, hmark q s.now, forall_mem_singleton.mpr (.succeed pid c q s hproc)⟩
  | link pid t c q r now _ hproc _ _ _ =>
    refine ⟨_, [], (append_nil _).symm, ?_, fun _ hp => nomatch hp⟩
    unfold Table.update
    rw [List.map_map, forall₂_map_right_iff, forall₂_same]
    intro p _
    simp only [Function.comp]
    by_cases hc : claimable q p
    · -- a row just marked is not attachable
      have hna : ¬ attachable c.user.id r.id (markSuperseded now p) := by simp [attachable, markSuperseded]
      rw [if_pos hc, if_neg hna]
      exact .mark q now hc
    · rw [if_neg hc]
      split
      · rename_i ha
        exact .attach pid c q r now hproc ha
      · exact .refl w e p

theorem StoreStep.forth (h : StoreStep E w e ps) (hp : p ∈ w.db.proofs) : ∃ p' ∈ ps, RowChange w e p p' := by
  obtain ⟨kept, news, rfl, hrel, -⟩ := h.rows
  obtain ⟨p', hp', hchange⟩ := exists_of_forall₂ hrel hp
  exact ⟨p', mem_append_left _ hp', hchange⟩

theorem StoreStep.back (h : StoreStep E w e ps) (hp : p ∈ ps) :
    (∃ q ∈ w.db.proofs, RowChange w e q p) ∨ NewRow E w p := by
  obtain ⟨kept, news, rfl, hrel, hnews⟩ := h.rows
  rcases mem_append.mp hp with hp | hp
  · exact .inl (exists_of_forall₂_right hrel hp)
  · exact .inr (hnews p hp)

/-- Every row of the table lives on in the next one. -/
theorem evolve_of_storeStep (h : StoreStep E w e ps) (hp : p ∈ w.db.proofs) : ∃ p' ∈ ps, Evolve p p' := by
  obtain ⟨p', hp', hchange⟩ := h.forth hp
  refine ⟨p', hp', ?_⟩
  cases hchange with
  | touch ht => exact ht.toStays.evolve
  | revoke read _ _ hr => exact hr.toStays.evolve
  | mark q now hc => exact evolve_mark now hc
  | attach pid c q r now _ ha => exact evolve_attach q.id c.requestHash ha

def UniqueIds (ps : List Proof) : Prop := (ps.map Proof.id).Nodup

theorem uniqueIds_of_storeStep (h : StoreStep E w e ps) (hu : UniqueIds w.db.proofs) : UniqueIds ps := by
  unfold UniqueIds at *
  have hclaim : ∀ (q : Proof) (now : Date),
      (Table.update (claimable q) (markSuperseded now) w.db.proofs).map Proof.id = w.db.proofs.map Proof.id :=
    fun q now => map_update Proof.id fun _ => rfl
  cases h with
  | touch ht => rwa [map_of_forall₂ ht Proof.id fun a b hab => id_of_core hab.core]
  | revoke pid t read data _ _ hdata =>
    rw [map_update Proof.id fun p => id_of_core (hdata p).core]
    exact hu
  | issue row _ hid => exact nodup_append_row hu hid
  | succeed pid t c q s _ _ _ _ hid =>
    refine nodup_append_row ((hclaim q s.now).symm ▸ hu) ?_
    exact forall_update hid fun r hr _ => hid r hr
  | link pid t c q r now =>
    rw [map_update Proof.id (by intro p; rfl), hclaim q now]
    exact hu

theorem uniqueIds_of_run {tables : Db} {ok : World → Ev → Prop}
    (h : Run (step E) ok (World.empty tables) w) : UniqueIds w.db.proofs :=
  h.invariant (I := fun w : World => UniqueIds w.db.proofs) (show UniqueIds [] from nodup_nil) fun _ _ _ hu _ hs =>
    uniqueIds_of_storeStep (storeStep hs) hu

theorem mem_of_proof? (h : db.proof? id = some p) : p ∈ db.proofs ∧ p.id = id :=
  of_find? h

end EarnProof.Lifecycle
