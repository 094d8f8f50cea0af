/-
  EarnProof.Lifecycle.Revocation — revocation over every interleaving of the writers of
  a stored proof, each working from what it read earlier, and what
  `revocationPropagationConfirmedAt` says about the contract.

  Proved: `REVOKED` is final (`revoked_stays`). Revocation evidence is not:
  `revokeProof` and the repair of the anchoring reconciler decide on a row read earlier
  and then update it by id, so a repair that read the proof `ACTIVE` overwrites the
  `revokedAt` of a revocation committed in between (`stale_repair_overwrites`). It does
  stay in every run in which each of these writes finds the status it read
  (`evidence_stays`).

  In every run the store and the contract agree as far as the worker has told them
  (`AnchorInv`): a `REVOKE` intent that is `CONFIRMED` means the contract has revoked the
  proof, a transaction hash means it knows the proof. The converse fails: a proof without
  a hash may be queued for registration, in flight, or registered and not yet recorded.
  The propagation reconciler takes such a proof as never anchored and confirms it
  (`confirmed_then_registered`). The confirmation is truthful in every run in which a
  proof is revoked only once its registration is recorded or can no longer happen
  (`propagation_truthful`).
-/
import EarnProof.Lifecycle.IntentSteps

namespace EarnProof.Lifecycle

open Lib Lib.Table Lib.Calendar Lib.Result Database Proofs

/-! ## A revoked proof stays revoked -/

def Outlived (w w' : World) : Prop :=
  ∀ p ∈ w.db.proofs, ∃ p' ∈ w'.db.proofs, p'.id = p.id ∧ StatusStep p.status p'.status

variable {E : Env} {ok : World → Ev → Prop} {w w' : World} {p : Proof} {e : Ev}

theorem outlived_of_run (h : Run (step E) ok w w') : Outlived w w' := by
  refine h.related (I := fun _ => True) trivial (fun _ _ _ _ _ _ => trivial) ?_ ?_ ?_
  · exact fun a p hp => ⟨p, hp, rfl, .refl _⟩
  · intro a b c hab hbc p hp
    obtain ⟨q, hq, hqid, hq'⟩ := hab p hp
    obtain ⟨r, hr, hrid, hr'⟩ := hbc q hq
    exact ⟨r, hr, hrid.trans hqid, hq'.trans hr'⟩
  · intro a e b _ _ hs p hp
    obtain ⟨p', hp', hev⟩ := evolve_of_storeStep (storeStep hs) hp
    exact ⟨p', hp', id_of_core hev.core, hev.status⟩

/-- A proof that is `REVOKED` in a state of a run is `REVOKED` in every later one. -/
theorem revoked_stays (E : Env) (tables : Db) (w w' : World) (id : String) (p : Proof)
    (hrun : Run (step E) anyStep (World.empty tables) w) (hlater : Run (step E) anyStep w w')
    (hp : w.db.proof? id = some p) (hrevoked : p.status = .revoked) :
    ∃ p', w'.db.proof? id = some p' ∧ p'.status = .revoked := by
  obtain ⟨hmem, rfl⟩ := mem_of_proof? hp
  obtain ⟨p', hp', hid, hstatus⟩ := outlived_of_run hlater p hmem
  refine ⟨p', ?_, ?_⟩
  · rw [← hid]
    exact find?_of_mem (uniqueIds_of_run (hrun.trans hlater)) hp'
  · rw [hrevoked] at hstatus
    exact hstatus.revoked

def ownerRevokes : RevokeCall := ⟨"user-1", false, "proof-1", none, none, some "sha256:evidence"⟩

/-- The expiration reconciler has picked an active proof when its owner revokes it. -/
def revokedUnderExpiration : List Ev :=
  [.issue { liveRow "proof-1" with expiresAt := moment 5 }, .spawn 0 (.expire .start), .adv 0 (tickAt 6),
    .spawn 1 (.revoke ownerRevokes .start), .adv 1 (tickAt 7), .adv 1 (tickAt 8)]

/-- The expiration that follows leaves it revoked. -/
theorem revoked_under_expiration_stays :
    ∃ w w' p p', Run (step liveEnv) anyStep (World.empty liveTables) w ∧ Run (step liveEnv) anyStep w w' ∧
      w.db.proof? "proof-1" = some p ∧ p.status = .revoked ∧ w'.procs 0 = .expire .done ∧
      w'.db.proof? "proof-1" = some p' ∧ p'.status = .revoked := by
  obtain ⟨w, w', h, h', p, hp, hrevoked, hdone⟩ : ∃ w w', Run (step liveEnv) anyStep (World.empty liveTables) w ∧
      Run (step liveEnv) anyStep w w' ∧ ∃ p ∈ w.db.proof? "proof-1", p.status = .revoked ∧ w'.procs 0 = .expire .done :=
    Run.exists_both_of_replay revokedUnderExpiration [.adv 0 (tickAt 9)]
  obtain ⟨p', hp', hrevoked'⟩ := revoked_stays liveEnv liveTables w w' "proof-1" p h h' hp hrevoked
  exact ⟨w, w', p, p', h, h', hp, hrevoked, hdone, hp', hrevoked'⟩

/-! ## Revocation evidence -/

/-- The proof still has the status in which it was read. -/
def Unmoved (db : Db) : Option Proof → Prop
  | some read => ∀ p ∈ db.proofs, p.id = read.id → p.status = read.status
  | none => True

instance (db : Db) (read : Option Proof) : Decidable (Unmoved db read) := by
  unfold Unmoved
  split <;> infer_instance

/-- A revoking write finds the proof in the status its process read. -/
def FreshRead (w : World) : Ev → Prop
  | .adv pid _ => Unmoved w.db (w.procs pid).revokes
  | _ => True

instance : Decidable (FreshRead w e) := by
  unfold FreshRead
  split <;> infer_instance

/-- A revocation time is on revoked proofs only, and no process is about to revoke a proof
    it read revoked. -/
structure EvidenceInv (w : World) : Prop where
  ids : UniqueIds w.db.proofs
  timed : ∀ p ∈ w.db.proofs, p.revokedAt ≠ none → p.status = .revoked
  reads : ∀ pid read, (w.procs pid).revokes = some read → read.status ≠ .revoked

theorem revokedAt_of_evidence {p q : Proof} (h : evidence p = evidence q) : p.revokedAt = q.revokedAt :=
  congrArg Evidence.revokedAt h

theorem timed_of_storeStep {ps : List Proof} (h : StoreStep E w e ps)
    (ht : ∀ p ∈ w.db.proofs, p.revokedAt ≠ none → p.status = .revoked) :
    ∀ p ∈ ps, p.revokedAt ≠ none → p.status = .revoked := by
  intro p hp hset
  rcases h.back hp with ⟨q, hq, hchange⟩ | hnew
  · cases hchange with
    | touch htouch =>
      have hstatus := htouch.status
      rw [ht q hq (revokedAt_of_evidence htouch.evidence ▸ hset)] at hstatus
      exact hstatus.revoked
    | revoke read _ _ hr => exact hr.revoked
    | mark | attach => exact ht q hq hset
  · cases hnew with
    | issue row hrow => exact absurd hrow.revokedAt hset
    | succeed => exact absurd rfl hset

theorem evidenceInv_step (hi : EvidenceInv w) (h : step E w e = some w') : EvidenceInv w' where
  ids := uniqueIds_of_storeStep (storeStep h) hi.ids
  timed := timed_of_storeStep (storeStep h) hi.timed
  reads := by
    intro pid read hread
    rcases procStep h pid with hsame | ⟨p, -, hstart, hproc⟩ | ⟨t, r, -, hadv, hproc, -, -⟩
    · exact hi.reads pid read (hsame ▸ hread)
    · rw [hproc, (reads_of_starts hstart).2] at hread
      cases hread
    · exact (reads_of_advance hadv).2 (hproc ▸ hread)

/-- One step that revokes only what it finds as it read it leaves recorded evidence alone. -/
theorem evidence_kept (hi : EvidenceInv w) (hok : FreshRead w e)
    (h : step E w e = some w') (hp : p ∈ w.db.proofs) (hset : p.revokedAt ≠ none) :
    ∃ p' ∈ w'.db.proofs, p'.id = p.id ∧ evidence p' = evidence p := by
  obtain ⟨p', hp', hchange⟩ := (storeStep h).forth hp
  refine ⟨p', hp', ?_⟩
  cases hchange with
  | touch ht => exact ⟨id_of_core ht.core, ht.evidence⟩
  | revoke read hread hid =>
    -- the row has its evidence, so it is revoked; the process read it unrevoked and it has not moved
    cases e with
    | adv pid =>
      have hunmoved : Unmoved w.db (w.procs pid).revokes := hok
      rw [show (w.procs pid).revokes = some read from hread] at hunmoved
      have hstatus : p.status = read.status := hunmoved p hp hid.symm
      exact absurd (hstatus.symm.trans (hi.timed p hp hset)) (hi.reads pid read hread)
    | _ => cases hread
  | mark | attach => exact ⟨rfl, rfl⟩

/-- Rows with evidence live on with the same evidence. -/
def EvidenceKept (w w' : World) : Prop :=
  ∀ p ∈ w.db.proofs, p.revokedAt ≠ none → ∃ p' ∈ w'.db.proofs, p'.id = p.id ∧ evidence p' = evidence p

/-- In a run in which every revoking write finds the proof in the status its process read, a
    recorded revocation never changes again. -/
theorem evidence_stays (E : Env) (tables : Db) (w w' : World) (id : String) (p : Proof)
    (hrun : Run (step E) FreshRead (World.empty tables) w) (hlater : Run (step E) FreshRead w w')
    (hp : w.db.proof? id = some p) (hset : p.revokedAt ≠ none) :
    ∃ p', w'.db.proof? id = some p' ∧ evidence p' = evidence p := by
  obtain ⟨hmem, rfl⟩ := mem_of_proof? hp
  have hkept : EvidenceKept w w' := by
    have hinv : EvidenceInv w :=
      hrun.invariant ⟨List.nodup_nil, fun _ hp => (nomatch hp), fun _ _ hr => (nomatch hr)⟩ fun _ _ _ hi _ hs =>
        evidenceInv_step hi hs
    refine hlater.related hinv (fun _ _ _ hi _ hs => evidenceInv_step hi hs) ?_ ?_ ?_
    · exact fun a q hq _ => ⟨q, hq, rfl, rfl⟩
    · intro a b c hab hbc q hq hqset
      obtain ⟨q', hq', hid', hev'⟩ := hab q hq hqset
      obtain ⟨q'', hq'', hid'', hev''⟩ := hbc q' hq' (revokedAt_of_evidence hev' ▸ hqset)
      exact ⟨q'', hq'', hid''.trans hid', hev''.trans hev'⟩
    · exact fun a e b hi hok hs q hq hqset => evidence_kept hi hok hs hq hqset
  obtain ⟨p', hp', hid, hev⟩ := hkept p hmem hset
  refine ⟨p', ?_, hev⟩
  rw [← hid]
  exact find?_of_mem (uniqueIds_of_run (hrun.trans hlater)) hp'

/-- An anchored proof is read `ACTIVE` by the reconciler, and then revoked by its owner. -/
def revokedUnderReconciliation : List Ev :=
  [.issue (liveRow "proof-1")] ++ workThrough 0 ⟨"proof-1", .register⟩ "tx-1" 1 ++
  [.spawn 1 (.reconcile (.start "proof-1")), .adv 1 (tickAt 2),
    .spawn 2 (.revoke ownerRevokes .start), .adv 2 (tickAt 3), .adv 2 (tickAt 4)]

/-- The revocation reaches the contract; the reconciler sees it there and repairs the proof it
    still holds as `ACTIVE`. -/
def repairedFromStaleRead : List Ev :=
  workThrough 3 ⟨"proof-1", .revoke⟩ "tx-2" 5 ++
  [.adv 1 { tickAt 6 with status := .checked true false }, .adv 1 (tickAt 7)]

/-- The repair moves `revokedAt` of a revocation that was already recorded. -/
theorem stale_repair_overwrites :
    ∃ w w' p p', Run (step liveEnv) anyStep (World.empty liveTables) w ∧ Run (step liveEnv) anyStep w w' ∧
      w.db.proof? "proof-1" = some p ∧ p.revokedAt = some (moment 4) ∧
      w'.db.proof? "proof-1" = some p' ∧ p'.revokedAt = some (moment 7) := by
  obtain ⟨w, w', h, h', p, hp, hp4, p', hp'⟩ : ∃ w w', Run (step liveEnv) anyStep (World.empty liveTables) w ∧
      Run (step liveEnv) anyStep w w' ∧ ∃ p ∈ w.db.proof? "proof-1", p.revokedAt = some (moment 4) ∧
        ∃ p' ∈ w'.db.proof? "proof-1", p'.revokedAt = some (moment 7) :=
    Run.exists_both_of_replay revokedUnderReconciliation repairedFromStaleRead
  exact ⟨w, w', p, p', h, h', hp, hp4, hp'⟩

/-- With the status read after the revocation, the reconciler leaves the evidence in place. -/
theorem fresh_read_keeps_evidence :
    ∃ w w' p p', Run (step liveEnv) FreshRead (World.empty liveTables) w ∧ Run (step liveEnv) FreshRead w w' ∧
      w.db.proof? "proof-1" = some p ∧ p.revokedAt = some (moment 4) ∧
      w'.db.proof? "proof-1" = some p' ∧ evidence p' = evidence p := by
  obtain ⟨w, w', h, h', p, hp, hp4⟩ : ∃ w w', Run (step liveEnv) FreshRead (World.empty liveTables) w ∧
      Run (step liveEnv) FreshRead w w' ∧ ∃ p ∈ w.db.proof? "proof-1", p.revokedAt = some (moment 4) :=
    Run.exists_both_of_replay revokedUnderReconciliation
      (workThrough 3 ⟨"proof-1", .revoke⟩ "tx-2" 5 ++ [.spawn 4 (.reconcile (.start "proof-1")), .adv 4 (tickAt 6),
        .adv 4 { tickAt 7 with status := .checked true false }])
  obtain ⟨p', hp', hev⟩ := evidence_stays liveEnv liveTables w w' "proof-1" p h h' hp (by rw [hp4]; simp)
  exact ⟨w, w', p, p', h, h', hp, hp4, hp', hev⟩

/-! ## The store and the contract -/

/-- The store shows the proof anchored, or the contract has it revoked already. -/
def Anchored (w : World) (i : String) : Prop :=
  (∃ p ∈ w.db.proofs, p.id = i ∧ anchored p) ∨ w.chain i = .revoked

def Unhashed (w : World) (i : String) : Prop := ∀ p ∈ w.db.proofs, p.id = i → p.contractTransactionHash = none

/-- What the worker keeps between the store and the contract. A registration that succeeded
    is known to one worker only until it is recorded. -/
structure AnchorInv (w : World) : Prop where
  unknown : ∀ i, w.chain i = .unregistered → Unhashed w i ∧ ∀ pid op, (w.procs pid).reports ≠ some ⟨i, op⟩
  registering : ∀ pid i, (w.procs pid).reports = some ⟨i, .register⟩ → w.chain i = .registered ∧ Unhashed w i ∧
    ∀ pid', (w.procs pid').reports = some ⟨i, .register⟩ → pid' = pid
  revoking : ∀ pid i, (w.procs pid).reports = some ⟨i, .revoke⟩ → w.chain i = .revoked
  confirmed : ∀ i, intentStatus w.db ⟨i, .revoke⟩ = some .confirmed → w.chain i = .revoked
  requested : ∀ i, intentStatus w.db ⟨i, .revoke⟩ ≠ none → Anchored w i
  working : ∀ pid i, (w.procs pid).holds = some ⟨i, .revoke⟩ → Anchored w i
  reads : ∀ pid read, (w.procs pid).anchoredRead = some read → Anchored w read.id

variable {i : String} {pid : Nat} {pc : PropagatePc} {tables : Db}

theorem not_anchored_of_unhashed (h : Unhashed w i) (hp : p ∈ w.db.proofs) (hid : p.id = i) : ¬ anchored p := by
  simp [anchored, h p hp hid]

theorem revoked_of_step (h : step E w e = some w') (hr : w.chain i = .revoked) : w'.chain i = .revoked := by
  rcases chain_of_step h i with hsame | ⟨pid, op, -, hcall⟩
  · exact hsame.trans hr
  · rw [hr] at hcall
    cases op <;> cases hcall

theorem unregistered_of_step (h : step E w e = some w')
    (hu : w'.chain i = .unregistered) : w.chain i = .unregistered := by
  rcases chain_of_step h i with hsame | ⟨pid, op, -, hcall⟩
  · exact hsame.symm.trans hu
  · exact absurd hu (call_ne_unregistered hcall)

/-- The process that stores a hash reports a success. -/
theorem reporter_of_records {hash : String} (h : (acting w e).records = some (i, hash)) :
    ∃ pid t op, e = .adv pid t ∧ (w.procs pid).reports = some ⟨i, op⟩ := by
  cases e with
  | adv pid t =>
    obtain ⟨op, hop⟩ := reports_of_records h
    exact ⟨pid, t, op, rfl, hop⟩
  | _ => cases h

/-- A hash is stored on a proof only by a worker that reports a success for it. -/
theorem unhashed_of_step (h : step E w e = some w') (hu : Unhashed w i)
    (hnone : ∀ pid t op, e = .adv pid t → (w.procs pid).reports ≠ some ⟨i, op⟩) : Unhashed w' i := by
  intro p' hp' hid
  rcases rowStep_back h hp' with ⟨p, hp, hpp'⟩ | hnew
  · have hpid : p.id = i := hpp'.id.symm.trans hid
    rcases hpp'.anchor with hsame | ⟨hash, hrec⟩
    · exact hsame.trans (hu p hp hpid)
    · rw [hpid] at hrec
      obtain ⟨pid, t, op, he, hrep⟩ := reporter_of_records hrec
      exact absurd hrep (hnone pid t op he)
  · exact hnew.anchor

section

variable (hi : AnchorInv w) (h : step E w e = some w')

include hi h

/-- An anchored proof stays so: its hash is overwritten only by the worker that revoked it. -/
theorem anchored_of_step (ha : Anchored w i) : Anchored w' i := by
  rcases ha with ⟨p, hp, rfl, hanchored⟩ | hrevoked
  · obtain ⟨p', hp', hpp'⟩ := rowStep_forth h hp
    rcases hpp'.anchor with hsame | ⟨hash, hrec⟩
    · refine .inl ⟨p', hp', hpp'.id, ?_⟩
      unfold anchored at hanchored ⊢
      rw [hsame]
      exact hanchored
    · obtain ⟨pid, t, op, -, hrep⟩ := reporter_of_records hrec
      cases op with
      | register =>
        obtain ⟨-, hunhashed, -⟩ := hi.registering pid p.id hrep
        exact absurd hanchored (not_anchored_of_unhashed hunhashed hp rfl)
      | revoke => exact .inr (revoked_of_step h (hi.revoking pid p.id hrep))
  · exact .inr (revoked_of_step h hrevoked)

theorem registering_of_step
    (hr : (w'.procs pid).reports = some ⟨i, .register⟩) : w'.chain i = .registered ∧ Unhashed w' i ∧
      ∀ pid', (w'.procs pid').reports = some ⟨i, .register⟩ → pid' = pid := by
  rcases reports_of_step h hr with ⟨hold, hidle⟩ | ⟨t, he, hcall⟩
  · obtain ⟨hchain, hunhashed, honly⟩ := hi.registering pid i hold
    refine ⟨?_, ?_, ?_⟩
    · rcases chain_of_step h i with hsame | ⟨pid', op, hholds, hcall⟩
      · exact hsame.trans hchain
      · cases op with
        | register =>
          rw [hchain] at hcall
          cases hcall
        | revoke =>
          rcases hi.working pid' i hholds with ⟨p, hp, hpid, hanchored⟩ | hrevoked
          · exact absurd hanchored (not_anchored_of_unhashed hunhashed hp hpid)
          · exact nomatch hchain.symm.trans hrevoked
    · refine unhashed_of_step h hunhashed fun pid' t op he hrep => ?_
      cases op with
      | register => exact hidle t (honly pid' hrep ▸ he)
      | revoke => exact nomatch hchain.symm.trans (hi.revoking pid' i hrep)
    · intro pid' hr'
      rcases reports_of_step h hr' with ⟨hold', -⟩ | ⟨t, -, hcall⟩
      · exact honly pid' hold'
      · rw [hchain] at hcall
        cases hcall
  · -- the call was accepted just now, so the contract did not know the proof before
    have hbefore : w.chain i = .unregistered := by
      cases hs : w.chain i with
      | unregistered => rfl
      | registered | revoked => rw [hs] at hcall; cases hcall
    obtain ⟨hunhashed, hnone⟩ := hi.unknown i hbefore
    refine ⟨?_, unhashed_of_step h hunhashed fun pid' _ op _ => hnone pid' op, ?_⟩
    · rw [hbefore] at hcall
      exact (Option.some.inj hcall).symm
    · intro pid' hr'
      rcases reports_of_step h hr' with ⟨hold', -⟩ | ⟨t', he', -⟩
      · exact absurd hold' (hnone pid' .register)
      · exact (Ev.adv.inj (he'.symm.trans he)).1

theorem anchorInv_step : AnchorInv w' where
  unknown := by
    intro i hu
    obtain ⟨hunhashed, hnone⟩ := hi.unknown i (unregistered_of_step h hu)
    refine ⟨unhashed_of_step h hunhashed fun pid _ op _ => hnone pid op, ?_⟩
    intro pid op hr
    rcases reports_of_step h hr with ⟨hold, -⟩ | ⟨t, -, hcall⟩
    · exact hnone pid op hold
    · exact call_ne_unregistered hcall hu
  registering := fun pid i hr => registering_of_step hi h hr
  revoking := by
    intro pid i hr
    rcases reports_of_step h hr with ⟨hold, -⟩ | ⟨t, -, hcall⟩
    · exact revoked_of_step h (hi.revoking pid i hold)
    · cases hs : w.chain i with
      | registered => rw [hs] at hcall; exact (Option.some.inj hcall).symm
      | unregistered | revoked => rw [hs] at hcall; cases hcall
  confirmed := by
    intro i hc
    have hstep := intentStep h ⟨i, .revoke⟩
    rw [hc] at hstep
    refine revoked_of_step h ?_
    generalize hs : intentStatus w.db ⟨i, .revoke⟩ = s at hstep
    cases hstep with
    | same => exact hi.confirmed i hs
    | settled n report s₀ _ hacts hreport =>
      obtain ⟨output, rfl⟩ := hreport rfl
      cases e with
      | adv pid =>
        refine hi.revoking pid i ?_
        have hproc : w.procs pid = .work (.reporting ⟨i, .revoke⟩ n (.anchored output)) := hacts
        rw [hproc]
        rfl
      | _ => cases hacts
  requested := by
    intro i hne
    refine anchored_of_step hi h ?_
    have hstep := intentStep h ⟨i, .revoke⟩
    generalize hs : intentStatus w.db ⟨i, .revoke⟩ = s at hstep
    have hexists : s ≠ none → Anchored w i := fun hsome => hi.requested i (hs ▸ hsome)
    generalize intentStatus w'.db ⟨i, .revoke⟩ = s' at hstep hne
    cases hstep with
    | same => exact hexists hne
    | issued hop | flagged hop => cases hop
    | requested _ read _ hread hid =>
      cases e with
      | adv pid =>
        obtain rfl : read.id = i := hid
        exact hi.reads pid read hread
      | _ => cases hread
    | _ => exact hexists (by simp)
  working := by
    intro pid i hr
    refine anchored_of_step hi h ?_
    rcases holds_of_step h hr with hold | ⟨-, hpending⟩
    · exact hi.working pid i hold
    · exact hi.requested i (by rw [hpending]; simp)
  reads := by
    intro pid read hr
    refine anchored_of_step hi h ?_
    rcases procStep h pid with hsame | ⟨p, -, hstart, hnew⟩ | ⟨t, r, -, hadv, hnew, -, -⟩
    · exact hi.reads pid read (hsame ▸ hr)
    · rw [hnew, (reads_of_starts hstart).1] at hr
      cases hr
    · rcases (reads_of_advance hadv).1 (hnew ▸ hr) with hold | ⟨hmem, hanchored⟩
      · exact hi.reads pid read hold
      · exact Or.inl ⟨read, hmem, rfl, hanchored⟩

end

theorem anchorInv_empty (tables : Db) : AnchorInv (World.empty tables) where
  unknown := fun _ _ => ⟨fun _ hp => (nomatch hp), nofun⟩
  registering := nofun
  revoking := nofun
  confirmed := nofun
  requested := fun _ hne => absurd rfl hne
  working := nofun
  reads := fun _ _ hr => nomatch hr

/-! ## Confirmation -/

def Stored (w : World) (i : String) : Prop := ∃ p ∈ w.db.proofs, p.id = i

/-- The contract does not know the proof and nothing is left that would tell it: no
    `REGISTER` intent is queued or claimed, and no worker has one in hand. -/
structure Unregistrable (w : World) (i : String) : Prop where
  chain : w.chain i = .unregistered
  queue : intentStatus w.db ⟨i, .register⟩ ≠ some .pending
  claims : intentStatus w.db ⟨i, .register⟩ ≠ some .processing
  workers : ∀ pid, (w.procs pid).holds ≠ some ⟨i, .register⟩

/-- What a confirmation may rest on: revoked on chain, or never to be registered there. -/
def Settled (w : World) (i : String) : Prop := Stored w i ∧ (w.chain i = .revoked ∨ Unregistrable w i)

theorem Settled.not_registered (h : Settled w i) : w.chain i ≠ .registered := by
  intro hr
  rcases h.2 with hrevoked | hun
  · exact nomatch hr.symm.trans hrevoked
  · exact nomatch hr.symm.trans hun.chain

theorem stored_of_step (h : step E w e = some w') (hs : Stored w i) : Stored w' i := by
  obtain ⟨p, hp, hid⟩ := hs
  obtain ⟨p', hp', hpp'⟩ := rowStep_forth h hp
  exact ⟨p', hp', hpp'.id.trans hid⟩

theorem unregistrable_of_step (h : step E w e = some w') (hs : Stored w i)
    (hu : Unregistrable w i) : Unregistrable w' i := by
  have hqueue : intentStatus w'.db ⟨i, .register⟩ ≠ some .pending ∧
      intentStatus w'.db ⟨i, .register⟩ ≠ some .processing := by
    have hstep := intentStep h ⟨i, .register⟩
    have hpending := hu.queue
    have hprocessing := hu.claims
    generalize intentStatus w.db ⟨i, .register⟩ = s at hstep hpending hprocessing
    generalize intentStatus w'.db ⟨i, .register⟩ = s' at hstep
    cases hstep with
    | same => exact ⟨hpending, hprocessing⟩
    | issued _ hnew =>
      obtain ⟨p, hp, hid⟩ := hs
      exact absurd hid (hnew p hp)
    | flagged => exact ⟨by simp, by simp⟩
    | requested _ read hop => cases hop
    | claimed => exact absurd rfl hpending
    | released => exact absurd rfl hprocessing
    | settled n report s₀ s₁ hacts =>
      -- the worker that settles the intent would have it in hand
      cases e with
      | adv pid =>
        have hproc : w.procs pid = .work (.reporting ⟨i, .register⟩ n report) := hacts
        exact absurd (by rw [hproc]; rfl) (hu.workers pid)
      | _ => cases hacts
  refine ⟨?_, hqueue.1, hqueue.2, ?_⟩
  · rcases chain_of_step h i with hsame | ⟨pid, op, hholds, hcall⟩
    · exact hsame.trans hu.chain
    · cases op with
      | register => exact absurd hholds (hu.workers pid)
      | revoke =>
        rw [hu.chain] at hcall
        cases hcall
  · intro pid hholds
    rcases holds_of_step h hholds with hold | ⟨-, hpending⟩
    · exact hu.workers pid hold
    · exact hu.queue hpending

theorem settled_of_step (h : step E w e = some w') (hs : Settled w i) : Settled w' i := by
  refine ⟨stored_of_step h hs.1, ?_⟩
  rcases hs.2 with hrevoked | hun
  · exact .inl (revoked_of_step h hrevoked)
  · exact .inr (unregistrable_of_step h hs.1 hun)

/-- With anchoring on, `revokeProof` commits on a proof whose registration is recorded, or
    can no longer happen. -/
def RegistrationSettled (E : Env) (w : World) : Ev → Prop
  | .adv pid _ => ∀ c read, w.procs pid = .revoke c (.read read) → E.anchoringEnabled →
      (∃ p ∈ w.db.proofs, p.id = read.id ∧ anchored p) ∨ Unregistrable w read.id
  | _ => True

/-- What a propagation check has established by the point it has reached. -/
def Truthful (w : World) : PropagatePc → Prop
  | .read p => Stored w p.id ∧ (anchored p = false → Settled w p.id)
  | .checked p anchoring => anchoring → Settled w p.id
  | .confirming p => Settled w p.id
  | _ => True

theorem truthful_of_step (h : step E w e = some w') (ht : Truthful w pc) : Truthful w' pc := by
  cases pc with
  | read => exact ⟨stored_of_step h ht.1, fun hn => settled_of_step h (ht.2 hn)⟩
  | checked => exact fun ha => settled_of_step h (ht ha)
  | confirming => exact settled_of_step h ht
  | _ => trivial

structure PropagationInv (w : World) : Prop where
  ids : UniqueIds w.db.proofs
  anchors : AnchorInv w
  revoked : ∀ p ∈ w.db.proofs, p.status = .revoked → Anchored w p.id ∨ Unregistrable w p.id
  propagating : ∀ pid pc, w.procs pid = .propagate pc → Truthful w pc
  propagated : ∀ p ∈ w.db.proofs, p.revocationPropagationConfirmedAt ≠ none → Settled w p.id

/-- A proof that is about to be revoked is recorded as registered, or beyond registration. -/
theorem revokes_settled (hi : AnchorInv w) (hon : E.anchoringEnabled)
    (hok : RegistrationSettled E w e) {read : Proof} (hr : (acting w e).revokes = some read) :
    Anchored w read.id ∨ Unregistrable w read.id := by
  cases e with
  | adv pid t =>
    have hproc : (w.procs pid).revokes = some read := hr
    unfold Proc.revokes at hproc
    split at hproc
    · rename_i c p hp
      obtain rfl := Option.some.inj hproc
      rcases hok c p hp hon with hanchored | hun
      · exact .inl (.inl hanchored)
      · exact .inr hun
    · rename_i p hp
      obtain rfl := Option.some.inj hproc
      exact .inl (hi.reads pid p (by rw [hp]; rfl))
    · cases hproc
  | _ => cases hr

theorem truthful_of_advance (hi : PropagationInv w) (hon : E.anchoringEnabled) (t : Tick)
    (ht : Truthful w pc) : Truthful w (pc.advance E w.db t).2 := by
  cases pc with
  | start id =>
    simp only [PropagatePc.advance]
    split
    · trivial
    · rename_i p hp
      obtain ⟨hmem, -⟩ := mem_of_proof? hp
      split
      · rename_i hpick
        -- a revoked proof the reconciler finds without a hash is settled
        refine ⟨⟨p, hmem, rfl⟩, fun hnone => ⟨⟨p, hmem, rfl⟩, ?_⟩⟩
        rcases hi.revoked p hmem hpick.1 with (⟨q, hq, hid, hanchored⟩ | hchain) | hun
        · obtain rfl : q = p := eq_of_key hi.ids hq hmem hid
          exact absurd hanchored (by rw [hnone]; decide)
        · exact .inl hchain
        · exact .inr hun
      · trivial
  | read p =>
    intro hconfirmed
    obtain ⟨hstored, hnone⟩ := ht
    rcases of_decide_eq_true hconfirmed with hoff | hun | hintent
    · cases hon.symm.trans hoff
    · exact hnone hun
    · exact ⟨hstored, .inl (hi.anchors.confirmed p.id hintent)⟩
  | checked p anchoring =>
    simp only [PropagatePc.advance]
    split
    · rename_i hall
      exact ht hall.1
    · trivial
  | confirming | done => trivial

theorem propagating_of_step (hi : PropagationInv w) (hon : E.anchoringEnabled)
    (h : step E w e = some w') (hproc : w'.procs pid = .propagate pc) : Truthful w' pc := by
  refine truthful_of_step h ?_
  rcases procStep h pid with hsame | ⟨p, -, hstart, hnew⟩ | ⟨t, r, -, hadv, hnew, -, -⟩
  · exact hi.propagating pid pc (hsame ▸ hproc)
  · obtain rfl := hnew.symm.trans hproc
    cases pc with
    | start => trivial
    | _ => cases hstart
  · have hr : r.2.2 = .propagate pc := hnew.symm.trans hproc
    generalize hp : w.procs pid = proc at hadv
    cases advance_inv hadv with
    | propagate pc' =>
      obtain rfl := Proc.propagate.inj hr
      exact truthful_of_advance hi hon t (hi.propagating pid pc' hp)
    | _ => cases hr

theorem confirms_settled (hi : PropagationInv w) (h : (acting w e).confirms = some i) : Settled w i := by
  cases e with
  | adv pid t =>
    have hproc : (w.procs pid).confirms = some i := h
    unfold Proc.confirms at hproc
    split at hproc
    · rename_i p hp
      cases hproc
      exact hi.propagating pid _ hp
    · cases hproc
  | _ => cases h

theorem propagationInv_step (hon : E.anchoringEnabled) (hi : PropagationInv w)
    (hok : RegistrationSettled E w e) (h : step E w e = some w') : PropagationInv w' where
  ids := uniqueIds_of_storeStep (storeStep h) hi.ids
  anchors := anchorInv_step hi.anchors h
  revoked := by
    intro p' hp' hrevoked
    rcases rowStep_back h hp' with ⟨p, hp, hpp'⟩ | hnew
    · have hbefore : Anchored w p.id ∨ Unregistrable w p.id := by
        rcases hpp'.revoked hrevoked with hold | ⟨read, hread, hid⟩
        · exact hi.revoked p hp hold
        · exact hid ▸ revokes_settled hi.anchors hon hok hread
      rw [hpp'.id]
      rcases hbefore with hanchored | hun
      · exact .inl (anchored_of_step hi.anchors h hanchored)
      · exact .inr (unregistrable_of_step h ⟨p, hp, rfl⟩ hun)
    · exact absurd hrevoked hnew.status
  propagating := fun pid pc hproc => propagating_of_step hi hon h hproc
  propagated := by
    intro p' hp' hset
    rcases rowStep_back h hp' with ⟨p, hp, hpp'⟩ | hnew
    · rw [hpp'.id]
      refine settled_of_step h ?_
      rcases hpp'.confirm with hsame | hconf
      · exact hi.propagated p hp (hsame ▸ hset)
      · exact confirms_settled hi hconf
    · exact absurd hnew.confirm hset

/-- Without anchoring no intent is ever claimed and the contract is never called. -/
theorem unregistered_of_disabled {ok : World → Ev → Prop}
    (hoff : E.anchoringEnabled = false) (h : Run (step E) ok (World.empty tables) w) (i : String) :
    w.chain i = .unregistered := by
  have hinv : (∀ i, w.chain i = .unregistered) ∧ ∀ pid, (w.procs pid).holds = none := by
    refine h.invariant (I := fun w : World => (∀ i, w.chain i = .unregistered) ∧ ∀ pid, (w.procs pid).holds = none)
      ⟨fun _ => rfl, fun _ => rfl⟩ ?_
    intro w e w' ⟨hchain, hidle⟩ _ hs
    refine ⟨fun i => ?_, fun pid => ?_⟩
    · rcases chain_of_step hs i with hsame | ⟨pid, op, hholds, -⟩
      · exact hsame.trans (hchain i)
      · exact nomatch (hidle pid).symm.trans hholds
    · cases hholds : (w'.procs pid).holds with
      | none => rfl
      | some =>
        rcases holds_of_step hs hholds with hold | ⟨hon, -⟩
        · exact nomatch (hidle pid).symm.trans hold
        · exact nomatch hoff.symm.trans hon
  exact hinv.1 i

/-- In a run in which `revokeProof` commits only on proofs whose registration is recorded or
    can no longer happen, a proof confirmed as propagated is not registered on chain, then
    or in any later state. -/
theorem propagation_truthful (E : Env) (tables : Db) (w w' : World) (id : String) (p : Proof)
    (hrun : Run (step E) (RegistrationSettled E) (World.empty tables) w)
    (hlater : Run (step E) (RegistrationSettled E) w w') (hp : w.db.proof? id = some p)
    (hset : p.revocationPropagationConfirmedAt ≠ none) : w'.chain id ≠ .registered := by
  cases hon : E.anchoringEnabled with
  | false =>
    rw [unregistered_of_disabled hon (hrun.trans hlater) id]
    decide
  | true =>
    obtain ⟨hmem, rfl⟩ := mem_of_proof? hp
    have hinv : PropagationInv w := by
      refine hrun.invariant ?_ fun _ _ _ => propagationInv_step hon
      exact ⟨List.nodup_nil, anchorInv_empty tables, fun _ hp => (nomatch hp), fun _ _ hp => (nomatch hp),
        fun _ hp => nomatch hp⟩
    have hsettled : Settled w p.id := hinv.propagated p hmem hset
    have hlate : Settled w' p.id :=
      hlater.invariant (I := fun v : World => Settled v p.id) hsettled fun _ _ _ hs _ hstep => settled_of_step hstep hs
    exact hlate.not_registered

/-- Four accesses of the propagation reconciler, the last of which confirms. -/
def propagate (pid : Nat) (proofId : String) : List Ev :=
  .spawn pid (.propagate (.start proofId)) :: accesses pid 4

/-- The owner revokes a proof whose registration is still queued, and the reconciler looks at it. -/
def revokedBeforeRegistration : List Ev :=
  [.issue (liveRow "proof-1"),
    .spawn 0 (.revoke ⟨"user-1", false, "proof-1", none, none, none⟩ .start), .adv 0 (tickAt 1), .adv 0 (tickAt 2)] ++
  propagate 1 "proof-1"

/-- The revocation is confirmed as propagated, and then the worker registers the proof. -/
theorem confirmed_then_registered :
    ∃ w w' p, Run (step liveEnv) anyStep (World.empty liveTables) w ∧ Run (step liveEnv) anyStep w w' ∧
      w.db.proof? "proof-1" = some p ∧ p.revocationPropagationConfirmedAt = some (moment 5) ∧
      w'.chain "proof-1" = .registered := by
  obtain ⟨w, w', h, h', p, hp⟩ : ∃ w w', Run (step liveEnv) anyStep (World.empty liveTables) w ∧
      Run (step liveEnv) anyStep w w' ∧ ∃ p ∈ w.db.proof? "proof-1",
        p.revocationPropagationConfirmedAt = some (moment 5) ∧ w'.chain "proof-1" = .registered :=
    Run.exists_both_of_replay revokedBeforeRegistration (workThrough 2 ⟨"proof-1", .register⟩ "tx-1" 6)
  exact ⟨w, w', p, h, h', hp⟩

/-- The half of `RegistrationSettled` that can be read off the store. -/
def recordedBy (db : Db) : Proc → Bool
  | .revoke _ (.read read) => db.proofs.any fun p => p.id = read.id ∧ anchored p = true
  | _ => true

def RegistrationRecorded (w : World) (e : Ev) : Prop := recordedBy w.db (acting w e)
  deriving Decidable

theorem RegistrationRecorded.settled (E : Env) (h : RegistrationRecorded w e) : RegistrationSettled E w e := by
  cases e with
  | adv pid =>
    intro c read hproc _
    have hrec : recordedBy w.db (w.procs pid) := h
    rw [hproc] at hrec
    obtain ⟨p, hp, hpick⟩ := List.any_eq_true.mp hrec
    exact .inl ⟨p, hp, of_decide_eq_true hpick⟩
  | _ => trivial

/-- The same proof revoked after its registration: confirmed once the revocation is on chain,
    and still revoked there after the anchoring reconciler has looked at it. -/
theorem confirmed_after_anchored_revocation :
    ∃ w w' p, Run (step liveEnv) (RegistrationSettled liveEnv) (World.empty liveTables) w ∧
      Run (step liveEnv) (RegistrationSettled liveEnv) w w' ∧ w.db.proof? "proof-1" = some p ∧
      p.revocationPropagationConfirmedAt = some (moment 5) ∧ w'.chain "proof-1" ≠ .registered := by
  obtain ⟨w, w', hw, hw', p, hp, hp5⟩ : ∃ w w', Run (step liveEnv) RegistrationRecorded (World.empty liveTables) w ∧
      Run (step liveEnv) RegistrationRecorded w w' ∧ ∃ p ∈ w.db.proof? "proof-1",
        p.revocationPropagationConfirmedAt = some (moment 5) :=
    Run.exists_both_of_replay ([.issue (liveRow "proof-1")] ++ workThrough 0 ⟨"proof-1", .register⟩ "tx-1" 1 ++
        [.spawn 1 (.revoke ⟨"user-1", false, "proof-1", none, none, none⟩ .start), .adv 1 (tickAt 2),
          .adv 1 (tickAt 3)] ++
        workThrough 2 ⟨"proof-1", .revoke⟩ "tx-2" 4 ++ propagate 3 "proof-1")
      (.spawn 4 (.reconcile (.start "proof-1")) :: accesses 4 2)
  have h := hw.mono fun _ _ => RegistrationRecorded.settled liveEnv
  have h' := hw'.mono fun _ _ => RegistrationRecorded.settled liveEnv
  have hnot := propagation_truthful liveEnv liveTables w w' "proof-1" p h h' hp (by rw [hp5]; simp)
  exact ⟨w, w', p, h, h', hp, hp5, hnot⟩

end EarnProof.Lifecycle
