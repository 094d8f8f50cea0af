/-
  EarnProof.Lifecycle.Renewal — the answers of concurrent renewals.

  Whoever commits first supersedes the predecessor for good. A call that finds this out
  when it reads the predecessor, at its conditional updates or at a unique index ends in
  `replayOrConflict`, which compares request hashes: the successor again for the same
  request, a conflict for another.

  The calls that find it out in between do not. `linkSuccessor` checks the successor row
  it reads before its transaction, and the winner's commit has changed that row: an
  identical call that read the predecessor before the commit and the successor after it
  is refused as incompatible (`identical_call_refused`), although "losers are answered
  as replays when their request is identical to the winner's".

  Proved: in every run in which no call fails a check it makes before its transaction,
  every call returns after a bounded number of accesses, at most one of them commits a
  successor, and each is answered by replay or conflict as its hash says
  (`renewal_replays_or_conflicts`).
-/
import EarnProof.Lifecycle.Supersession

namespace EarnProof.Lifecycle

open Lib Lib.Table Lib.Calendar Lib.Result Database Common.Crypto List Option
open Proofs

/-! ## Calls that pass their checks -/

section Condition

variable (E : Env) (calls : List RenewCall)

/-- The checks before the transaction, on the rows the call reads, come out in its favour; and
    the id and the credential hash of a new successor are not in use. -/
def Passes (c : RenewCall) (db : Db) (t : Tick) : RenewPc → Prop
  | .start => idempotencyKeyValid c.idempotencyKey ∧
      ((db.proof? c.proofId).any fun p => p.userId = c.user.id ∧ (db.user? p.userId).isSome)
  | .loaded p _ => (db.supersededBy p.id).isSome ∨ (evaluateRenewalEligibility p t.now false = [] ∧
      (c.target = none → (expiryDate t.now c.input.expiresInDays).isSome))
  | .linking _ _ => (db.proofs.find? fun q => some q.id = c.target ∧ q.userId = c.user.id).isSome
  | .candidate p q now => evaluateSupersessionCompatibility p q now (db.supersededBy q.id).isSome = []
  | .walking _ q _ _ current seen => cycleFound q.id current seen = false
  | .issuing p s => (∀ r ∈ db.proofs, r.id ≠ s.id ∧ r.credentialHash ≠ (successorRow E c p s).credentialHash) ∧
      db.intent? s.id .register = none
  | _ => True

instance (c : RenewCall) (db : Db) (t : Tick) (pc : RenewPc) : Decidable (Passes E c db t pc) := by
  unfold Passes
  split <;> infer_instance

def ProcPasses (db : Db) (t : Tick) : Proc → Prop
  | .renew c pc => Passes E c db t pc
  | _ => True

instance (db : Db) (t : Tick) (p : Proc) : Decidable (ProcPasses E db t p) := by
  unfold ProcPasses
  split <;> infer_instance

def Proc.among (calls : List RenewCall) : Proc → Prop
  | .renew c _ => c ∈ calls
  | _ => True

instance (p : Proc) : Decidable (p.among calls) := by
  unfold Proc.among
  split <;> infer_instance

/-- The renewals are these calls, each as often as one likes, and they pass their checks. -/
def Passing (w : World) : Ev → Prop
  | .spawn _ p => p.among calls
  | .adv pid t => ProcPasses E w.db t (w.procs pid)
  | _ => True

instance (w : World) (e : Ev) : Decidable (Passing E calls w e) := by
  induction e using Ev.casesOn <;> dsimp only [Passing] <;> infer_instance

end Condition

/-! ## Why a call cannot win any more -/

/-- The call can never make its predecessor's successor: another request has, or the
    predecessor is out of use, or the proof to link is out of use. -/
inductive Doomed (ps : List Proof) (c : RenewCall) : Prop
  | beaten (q : Proof) : q ∈ ps → q.supersedesId = some c.proofId → q.renewalRequestHash ≠ some c.requestHash →
      Doomed ps c
  | withdrawn (p : Proof) : p ∈ ps → p.id = c.proofId → p.supersededAt = none →
      (p.status = .revoked ∨ p.status = .invalid) → Doomed ps c
  | taken (q : Proof) : q ∈ ps → some q.id = c.target → Blocked q → q.supersedesId ≠ some c.proofId → Doomed ps c

/-- The predecessor has its successor, or the call is doomed. -/
def Decided (ps : List Proof) (c : RenewCall) : Prop := (∃ q ∈ ps, q.supersedesId = some c.proofId) ∨ Doomed ps c

theorem Evolve.blocked_stays {p p' : Proof} (h : Evolve p p') (hb : Blocked p) : Blocked p' := by
  rcases hb with hb | hb | hb
  · refine .inl fun ha => ?_
    have hs := h.status
    rw [ha] at hs
    rcases hs with hs | ⟨-, hs⟩ | hs
    · exact hb hs.symm
    · exact absurd hs (by decide)
    · exact absurd hs (by decide)
  · obtain ⟨i, hi⟩ := ne_none_iff_exists'.mp hb
    exact .inr (.inl (by rw [(h.link i hi).1]; simp))
  · exact .inr (.inr (h.mark hb))

variable {p q : Proof} {ps ps' : List Proof} {c : RenewCall} {s : Successor} {pc : RenewPc} {now : Date} {e : Failure}

theorem Doomed.mono (h : Doomed ps c) (hps : ∀ p ∈ ps, ∃ p' ∈ ps', Evolve p p') : Doomed ps' c := by
  cases h with
  | beaten q hq hlink hhash =>
    obtain ⟨q', hq', hev⟩ := hps q hq
    obtain ⟨hlink', hhash'⟩ := hev.link _ hlink
    exact .beaten q' hq' hlink' (hhash' ▸ hhash)
  | withdrawn p hp hid hmark hstatus =>
    obtain ⟨p', hp', hev⟩ := hps p hp
    refine .withdrawn p' hp' ((id_of_core hev.core).trans hid) ((hev.unclaimable hstatus).trans hmark) ?_
    have hs := hev.status
    rcases hstatus with hst | hst
    · rw [hst] at hs
      exact .inl hs.revoked
    · rw [hst] at hs
      rcases hs with hs | ⟨hs, -⟩ | hs
      · exact .inr hs
      · exact absurd hs (by decide)
      · exact .inl hs
  | taken q hq hid hb hlink =>
    obtain ⟨q', hq', hev⟩ := hps q hq
    refine .taken q' hq' (by rw [id_of_core hev.core]; exact hid) (hev.blocked_stays hb) ?_
    rw [hev.blocked hb]
    exact hlink

theorem Decided.mono (h : Decided ps c) (hps : ∀ p ∈ ps, ∃ p' ∈ ps', Evolve p p') : Decided ps' c := by
  rcases h with ⟨q, hq, hlink⟩ | h
  · obtain ⟨q', hq', hev⟩ := hps q hq
    exact .inl ⟨q', hq', (hev.link _ hlink).1⟩
  · exact .inr (h.mono hps)

/-! ## An undecided call wins -/

variable {db : Db}

theorem updateOne_of_unique {sel : Proof → Bool} (data : Proof → Proof) (failure : Failure)
    (hu : UniqueIds db.proofs) (hp : p ∈ db.proofs) (hsel : sel p)
    (hid : ∀ q, sel q → q.id = p.id) : updateOne db sel data failure = .ok (updateProofs db sel data) := by
  exact bind_eq_ok.mpr ⟨(), require_eq_ok.mpr (countP_eq_one_of_key hu hp hsel fun x _ => hid x), rfl⟩

section Undecided

variable {E : Env} {db : Db} (hund : ¬ Decided db.proofs c)

include hund

/-- The stored successor to link, of an undecided call, is there to be attached. -/
theorem attachable_of_undecided (hcand : Candidate db.proofs c q) :
    ∃ s ∈ db.proofs, attachable c.user.id q.id s := by
  obtain ⟨s, hs, hcore⟩ := hcand.stored
  have hfree : ¬ Blocked s := by
    intro hb
    by_cases hlink : s.supersedesId = some c.proofId
    · exact hund (.inl ⟨s, hs, hlink⟩)
    · exact hund (.inr (.taken s hs (by rw [id_of_core hcore]; exact hcand.asked) hb hlink))
  simp only [Blocked, not_or, not_not, ne_eq] at hfree
  exact ⟨s, hs, attachable_iff.mpr ⟨id_of_core hcore, (congrArg Core.userId hcore).trans hcand.owner, hfree⟩⟩

variable (hown : Owned db.proofs c p)

include hown

theorem unlinked_of_undecided (now : Date) :
    unlinked (updateProofs db (claimable p) (markSuperseded now)) p.id := by
  refine all_eq_true.mpr fun x hx => decide_eq_true fun hlink => ?_
  obtain ⟨y, hy, rfl⟩ := mem_update.mp hx
  refine hund (.inl ⟨y, hy, ?_⟩)
  rw [← hown.asked, ← hlink]
  split <;> rfl

variable (hc : Chains db.proofs)

include hc

/-- The stored predecessor of an undecided call is there to be claimed. -/
theorem claimable_of_undecided : ∃ r ∈ db.proofs, claimable p r := by
  obtain ⟨r, hr, hcore⟩ := hown.stored
  have hid : r.id = c.proofId := (id_of_core hcore).trans hown.asked
  have hmark : r.supersededAt = none := by
    by_contra hset
    obtain ⟨s, hs, hlink⟩ := (hc.marked r hr).mp hset
    exact hund (.inl ⟨s, hs, hid ▸ hlink⟩)
  refine ⟨r, hr, claimable_iff.mpr ⟨id_of_core hcore, congrArg Core.userId hcore, hmark, ?_, ?_⟩⟩
  · exact fun hs => hund (.inr (.withdrawn r hr hid hmark (.inl hs)))
  · exact fun hs => hund (.inr (.withdrawn r hr hid hmark (.inr hs)))

theorem claimPredecessor_of_undecided (now : Date) :
    claimPredecessor db p now = .ok (updateProofs db (claimable p) (markSuperseded now)) := by
  obtain ⟨r, hr, hclaim⟩ := claimable_of_undecided hund hown hc
  refine updateOne_of_unique _ _ hc.ids hr hclaim fun x hx => ?_
  exact (claimable_iff.mp hx).1.trans (claimable_iff.mp hclaim).1.symm

theorem linkSuccessor_of_undecided (hcand : Candidate db.proofs c q) (hne : p.id ≠ q.id) (now : Date) :
    ∃ db', linkSuccessor db c p q now = .ok db' := by
  obtain ⟨s, hs, hattach⟩ := attachable_of_undecided hund hcand
  have hsid := (attachable_iff.mp hattach).1
  have hs' : s ∈ (updateProofs db (claimable p) (markSuperseded now)).proofs :=
    mem_update_of_not hs (Bool.eq_false_of_not_eq_true fun hcl =>
      hne ((claimable_iff.mp hcl).1.symm.trans hsid))
  have hids : UniqueIds (updateProofs db (claimable p) (markSuperseded now)).proofs :=
    nodup_update Proof.id (fun _ => rfl) hc.ids
  have hlink := updateOne_of_unique (attach p.id c.requestHash)
    (.conflict .conflict "Successor proof changed during renewal") hids hs' hattach fun x hx =>
      (attachable_iff.mp hx).1.trans hsid.symm
  exact ⟨_, bind_eq_ok.mpr ⟨_, claimPredecessor_of_undecided hund hown hc now, bind_eq_ok.mpr ⟨_, hlink,
    bind_eq_ok.mpr ⟨(), require_eq_ok.mpr (unlinked_of_undecided hund hown now), rfl⟩⟩⟩⟩

theorem issueSuccessor_of_undecided
    (hfresh : ∀ r ∈ db.proofs, r.id ≠ s.id ∧ r.credentialHash ≠ (successorRow E c p s).credentialHash)
    (hintent : db.intent? s.id .register = none) :
    ∃ db', issueSuccessor E db c p s = .ok db' := by
  have hclaim := claimPredecessor_of_undecided hund hown hc s.now
  have hfresh' : ∀ r ∈ (updateProofs db (claimable p) (markSuperseded s.now)).proofs,
      r.id ≠ s.id ∧ r.credentialHash ≠ (successorRow E c p s).credentialHash := by
    exact forall_update hfresh fun y hy _ => hfresh y hy
  have hinsert : insertProof _ (successorRow E c p s) = .ok _ :=
    insertProof_of_fresh (fun r hr => (hfresh' r hr).1) fun r hr => (hfresh' r hr).2
  have hregister : ∀ db' : Db, db'.anchoringIntents = db.anchoringIntents →
      ∃ db'', enqueueRegister E db' s.id = .ok db'' := by
    intro db' hsame
    unfold enqueueRegister
    split
    · refine ⟨_, bind_eq_ok.mpr ⟨(), require_eq_ok.mpr ?_, rfl⟩⟩
      unfold Db.intent? at hintent ⊢
      rw [hsame]
      exact hintent
    · exact ⟨_, rfl⟩
  obtain ⟨db', hdb'⟩ := hregister
    { updateProofs db (claimable p) (markSuperseded s.now) with
      proofs := (updateProofs db (claimable p) (markSuperseded s.now)).proofs ++ [successorRow E c p s] } rfl
  exact ⟨db', bind_eq_ok.mpr ⟨_, hclaim, bind_eq_ok.mpr ⟨(), require_eq_ok.mpr (unlinked_of_undecided hund hown s.now),
    bind_eq_ok.mpr ⟨_, hinsert, hdb'⟩⟩⟩⟩

end Undecided

/-! ## Answers -/

/-- The successor the call made or found, stored under the call's own hash. -/
def Returned (ps : List Proof) (c : RenewCall) (a : Renewal) : Prop :=
  ∃ q ∈ ps, q.id = a.proofId ∧ q.supersedesId = some c.proofId ∧ q.renewalRequestHash = some c.requestHash

/-- What is true of a call that has passed its checks, by where it stands. -/
def Answered (ps : List Proof) (c : RenewCall) : RenewPc → Prop
  | .walking _ _ _ reasons _ _ => reasons = []
  | .replaying => Decided ps c
  | .done (.ok a) => Returned ps c a
  | .done (.error e) => e = alreadySuperseded ∧ Doomed ps c
  | _ => True

theorem Answered.mono (h : Answered ps c pc) (hps : ∀ p ∈ ps, ∃ p' ∈ ps', Evolve p p') : Answered ps' c pc := by
  cases pc with
  | replaying => exact Decided.mono h hps
  | done answer =>
    cases answer with
    | ok =>
      obtain ⟨q, hq, hid, hlink, hhash⟩ := h
      obtain ⟨q', hq', hev⟩ := hps q hq
      obtain ⟨hlink', hhash'⟩ := hev.link _ hlink
      exact ⟨q', hq', (id_of_core hev.core).trans hid, hlink', hhash'.trans hhash⟩
    | error => exact ⟨h.1, Doomed.mono h.2 hps⟩
  | _ => exact h

/-- Every way a renewal's transaction can fail counts as a lost race. -/
theorem updateOne_lostRace {sel : Proof → Bool} {data : Proof → Proof} {failure : Failure}
    (h : lostRace failure) : Fails (lostRace ·) (updateOne db sel data failure) :=
  .bind (.require h) fun _ => .ok _

theorem linkSuccessor_lostRace : Fails (lostRace ·) (linkSuccessor db c p q now) := by
  refine .bind (updateOne_lostRace rfl) fun _ => .bind (updateOne_lostRace rfl) fun _ => ?_
  exact .bind (.require rfl) fun _ => .ok _

theorem issueSuccessor_lostRace {E : Env} : Fails (lostRace ·) (issueSuccessor E db c p s) := by
  refine .bind (updateOne_lostRace rfl) fun _ => .bind (.require rfl) fun _ => .bind ?_ fun db' => ?_
  · exact .bind (.require rfl) fun _ => .bind (.require rfl) fun _ => .ok _
  · unfold enqueueRegister
    split
    · exact .bind (.require rfl) fun _ => .ok _
    · exact .ok db'

section Advance

variable {E : Env} {db : Db} {t : Tick}

theorem supersededBy_eq_some {db : Db} {id : String} (h : db.supersededBy id = some q) :
    q ∈ db.proofs ∧ q.supersedesId = some id :=
  of_find? h

theorem answered_walk (ps : List Proof) (c : RenewCall) (p q : Proof) (now : Date) (seen : List String)
    (current : Option String) : Answered ps c (.walk p q now [] seen current) := by
  unfold RenewPc.walk
  split
  · exact rfl
  · exact trivial

/-- One access of a call that passes its checks, against the store it leaves. -/
theorem answered_advance (hc : Chains db.proofs) (hclaims : ∀ p ∈ db.proofs, p.claim ≠ none)
    (hheld : Held db.proofs c pc) (hpass : Passes E c db t pc) (hans : Answered db.proofs c pc) :
    Answered (advanceRenewal E c db t pc).1.proofs c (advanceRenewal E c db t pc).2 := by
  cases pc with
  | start =>
    obtain ⟨hkey, hrow⟩ := hpass
    simp only [advanceRenewal]
    rw [if_neg (by simp [hkey])]
    split
    · rename_i hnone
      exact absurd hrow (by simp [hnone])
    · rename_i p hp
      simp only [hp, any_some, decide_eq_true_eq] at hrow
      rw [if_neg (not_not.mpr hrow.1)]
      split
      · rename_i hnone
        exact absurd hrow.2 (by simp [hnone])
      · trivial
  | loaded p walletHash =>
    simp only [advanceRenewal]
    split
    · rename_i hsome
      obtain ⟨q, hq⟩ := isSome_iff_exists.mp hsome
      obtain ⟨hmem, hlink⟩ := supersededBy_eq_some hq
      exact .inl ⟨q, hmem, hheld.asked ▸ hlink⟩
    · rename_i hnone
      obtain ⟨heligible, hexpiry⟩ := Or.resolve_left hpass hnone
      rw [if_neg (not_not.mpr heligible)]
      split
      · trivial
      · rename_i htarget
        split
        · rename_i hclaim
          obtain ⟨p', hp', hcore⟩ := hheld.stored
          exact absurd hclaim (claim_of_core hcore ▸ hclaims p' hp')
        · rename_i hinvalid
          exact absurd (hexpiry (not_not.mp htarget)) (by simp [hinvalid])
        · trivial
  | linking p now =>
    simp only [advanceRenewal]
    split
    · rename_i hnone
      have hsome : (db.proofs.find? fun q => some q.id = c.target ∧ q.userId = c.user.id).isSome := hpass
      rw [hnone] at hsome
      cases hsome
    · rename_i q hq
      rw [if_neg (hclaims q (mem_of_find?_eq_some hq))]
      trivial
  | candidate p q now =>
    have hnil : evaluateSupersessionCompatibility p q now (db.supersededBy q.id).isSome = [] := hpass
    simp only [advanceRenewal, hnil]
    exact answered_walk _ _ _ _ _ _ _
  | walking p q now reasons current seen =>
    have hnocycle : cycleFound q.id current seen = false := hpass
    obtain rfl : reasons = [] := hans
    simp only [advanceRenewal, hnocycle]
    exact answered_walk _ _ _ _ _ _ _
  | attaching p q now =>
    obtain ⟨hown, hcand, hne, -⟩ := hheld
    simp only [advanceRenewal, RenewPc.settle]
    split
    · rename_i db' hok
      obtain ⟨-, ⟨s, hs, hattach⟩, -, rfl⟩ := linkSuccessor_eq_ok hok
      exact ⟨_, mem_update_of_sel hs hattach, (attachable_iff.mp hattach).1, congrArg some hown.asked, rfl⟩
    · rename_i e hfail
      simp only [linkSuccessor_lostRace e hfail]
      by_contra hund
      obtain ⟨db', hok⟩ := linkSuccessor_of_undecided hund hown hc hcand hne now
      exact absurd (hok.symm.trans hfail) (by simp)
  | issuing p s =>
    obtain ⟨hfresh, hintent⟩ := hpass
    simp only [advanceRenewal, RenewPc.settle]
    split
    · rename_i db' hok
      obtain ⟨-, -, -, intents, rfl⟩ := issueSuccessor_eq_ok hok
      exact ⟨_, mem_append_right _ (mem_singleton_self _), rfl, congrArg some hheld.1.asked, rfl⟩
    · rename_i e hfail
      simp only [issueSuccessor_lostRace e hfail]
      by_contra hund
      obtain ⟨db', hok⟩ := issueSuccessor_of_undecided hund hheld.1 hc hfresh hintent
      exact absurd (hok.symm.trans hfail) (by simp)
  | replaying =>
    simp only [advanceRenewal]
    split
    · rename_i hnone
      refine ⟨rfl, Or.resolve_left hans ?_⟩
      rintro ⟨q, hq, hlink⟩
      have := find?_eq_none.mp hnone q hq
      exact this (decide_eq_true hlink)
    · rename_i q hq
      obtain ⟨hmem, hlink⟩ := supersededBy_eq_some hq
      split
      · rename_i hdiffers
        exact ⟨rfl, .beaten q hmem hlink (hdiffers.resolve_left (hclaims q hmem))⟩
      · rename_i hmatches
        exact ⟨q, hmem, rfl, hlink, not_not.mp (not_or.mp hmatches).2⟩
  | done => exact hans

/-- An access that answers with a new successor is the transaction that makes it the first. -/
theorem first_of_commit {a : Renewal} (hheld : Held db.proofs c pc) (h : (advanceRenewal E c db t pc).2 = .done (.ok a))
    (hnew : a.replayed = false) : pc = .done (.ok a) ∨ ∀ q ∈ db.proofs, q.supersedesId ≠ some c.proofId := by
  cases pc with
  | attaching p q now =>
    right
    simp only [advanceRenewal, RenewPc.settle] at h
    split at h
    · rename_i db' hok
      obtain ⟨-, -, hunlinked, -⟩ := linkSuccessor_eq_ok hok
      rw [← hheld.1.asked]
      exact unlinked_of_claimed hunlinked
    · split at h <;> cases h
  | issuing p s =>
    right
    simp only [advanceRenewal, RenewPc.settle] at h
    split at h
    · rename_i db' hok
      obtain ⟨-, hunlinked, -⟩ := issueSuccessor_eq_ok hok
      rw [← hheld.1.asked]
      exact unlinked_of_claimed hunlinked
    · split at h <;> cases h
  | replaying =>
    simp only [advanceRenewal] at h
    split at h
    · cases h
    · split at h
      · cases h
      · obtain rfl := Except.ok.inj (RenewPc.done.inj h)
        cases hnew
  | done => exact .inl h
  | _ =>
    simp only [advanceRenewal, RenewPc.walk] at h
    repeat' split at h
    all_goals cases h

/-- A renewal's access that changes the store ends it with a successor of its own. -/
theorem commit_of_write (h : (advanceRenewal E c db t pc).1 ≠ db) :
    ∃ a, (advanceRenewal E c db t pc).2 = .done (.ok a) ∧ a.replayed = false := by
  cases hpc : pc.commits with
  | false => exact absurd (advanceRenewal_reads hpc) h
  | true =>
    cases pc with
    | attaching | issuing =>
      simp only [advanceRenewal, RenewPc.settle] at h ⊢
      split at h
      · exact ⟨_, rfl, rfl⟩
      · exact absurd rfl h
    | _ => cases hpc

end Advance

/-! ## Every call returns -/

/-- A bound on the accesses a renewal has left to make. The walk adds one id to `seen` at each
    turn and stops at the depth limit. -/
def RenewPc.left : RenewPc → Nat
  | .start => 264
  | .loaded _ _ => 263
  | .linking _ _ => 262
  | .candidate _ _ _ => 261
  | .walking _ _ _ _ _ seen => 3 + (257 - seen.length)
  | .attaching _ _ _ => 2
  | .issuing _ _ => 2
  | .replaying => 1
  | .done _ => 0

theorem left_walk (p q : Proof) (now : Date) (reasons : List SupersessionIncompatibility) (seen : List String)
    (current : Option String) : (RenewPc.walk p q now reasons seen current).left ≤ 3 + (257 - seen.length) := by
  unfold RenewPc.walk
  split
  · exact Nat.le_refl _
  · split
    · show 2 ≤ _
      omega
    · exact Nat.zero_le _

theorem left_advance (E : Env) (c : RenewCall) (db : Db) (t : Tick) (h : pc.left ≠ 0) :
    (advanceRenewal E c db t pc).2.left < pc.left := by
  cases pc with
  | start | loaded | linking | replaying =>
    simp only [advanceRenewal]
    repeat' split
    all_goals simp [RenewPc.left]
  | candidate p q now =>
    simp only [advanceRenewal]
    split
    · simp [RenewPc.left]
    · refine Nat.lt_of_le_of_lt (left_walk p q now _ [] (some p.id)) ?_
      show 3 + (257 - 0) < 261
      omega
  | walking p q now reasons current seen =>
    simp only [advanceRenewal]
    split
    · simp only [RenewPc.left]
      omega
    · rename_i hcycle
      have hdepth : seen.length < 256 := by
        by_contra hlong
        refine hcycle (decide_eq_true (.inr (.inr ?_)))
        exact Nat.not_lt.mp hlong
      refine Nat.lt_of_le_of_lt (left_walk p q now reasons (current :: seen) _) ?_
      show 3 + (257 - (seen.length + 1)) < 3 + (257 - seen.length)
      omega
  | attaching | issuing =>
    simp only [advanceRenewal, RenewPc.settle]
    split
    · simp [RenewPc.left]
    · split <;> simp [RenewPc.left]
  | done => exact absurd rfl h

/-! ## Every step keeps the answers -/

/-- Every link carries the hash of the call that made it, and is to the proof that call named. -/
def Stamped (calls : List RenewCall) (ps : List Proof) : Prop :=
  ∀ q ∈ ps, ∀ i, q.supersedesId = some i → ∃ c ∈ calls, c.proofId = i ∧ q.renewalRequestHash = some c.requestHash ∧
    ∀ target, c.target = some target → q.id = target

structure RenewalInv (calls : List RenewCall) (w : World) : Prop where
  base : SupersessionInv w
  claims : ∀ p ∈ w.db.proofs, p.claim ≠ none
  stamped : Stamped calls w.db.proofs
  made : ∀ pid c pc, w.procs pid = .renew c pc → c ∈ calls
  answered : ∀ pid c pc, w.procs pid = .renew c pc → Answered w.db.proofs c pc
  /-- At most one call for a predecessor answers with a successor it made. -/
  first : ∀ pid pid' c c' a a', w.procs pid = .renew c (.done (.ok a)) → w.procs pid' = .renew c' (.done (.ok a')) →
    c.proofId = c'.proofId → a.replayed = false → a'.replayed = false → pid = pid'

section Steps

variable {E : Env} {calls : List RenewCall} {w w' : World} {e : Ev}

theorem claims_of_storeStep (h : StoreStep E w e ps) (hclaims : ∀ p ∈ w.db.proofs, p.claim ≠ none) :
    ∀ p ∈ ps, p.claim ≠ none := by
  intro p hp
  rcases h.back hp with ⟨q, hq, hchange⟩ | hnew
  · cases hchange with
    | touch ht => exact claim_of_core ht.core ▸ hclaims q hq
    | revoke read _ _ hr => exact claim_of_core hr.core ▸ hclaims q hq
    | mark | attach => exact hclaims q hq
  · cases hnew with
    | issue row hrow => exact hrow.claim
    | succeed pid c q s => exact some_ne_none s.claim

theorem stamped_of_storeStep (h : StoreStep E w e ps) (hi : RenewalInv calls w) : Stamped calls ps := by
  intro q hq i hlink
  have hstays : ∀ q0 ∈ w.db.proofs, Stays q0 q → ∃ c ∈ calls, c.proofId = i ∧
      q.renewalRequestHash = some c.requestHash ∧ ∀ target, c.target = some target → q.id = target := by
    intro q0 hq0 hqq0
    rw [hqq0.renewalRequestHash, id_of_core hqq0.core]
    exact hi.stamped q0 hq0 i (hqq0.supersedesId.symm.trans hlink)
  rcases h.back hq with ⟨q0, hq0, hchange⟩ | hnew
  · cases hchange with
    | touch ht => exact hstays q0 hq0 ht.toStays
    | revoke read _ _ hr => exact hstays q0 hq0 hr.toStays
    | mark => exact hi.stamped q0 hq0 i hlink
    | attach pid c p r now hproc hattach =>
      obtain ⟨hown, hcand, -⟩ := hi.base.held pid c _ hproc
      refine ⟨c, hi.made pid c _ hproc, hown.asked.symm.trans (some.inj hlink), rfl, fun target ht => ?_⟩
      exact (attachable_iff.mp hattach).1.trans (some.inj (hcand.asked.trans ht))
  · cases hnew with
    | issue row hrow => exact absurd (hrow.supersedesId.symm.trans hlink) (by simp)
    | succeed pid c p s hproc =>
      obtain ⟨hown, htarget, -⟩ := hi.base.held pid c _ hproc
      refine ⟨c, hi.made pid c _ hproc, hown.asked.symm.trans (some.inj hlink), rfl, fun target ht => ?_⟩
      exact absurd (htarget.symm.trans ht) (by simp)

theorem renewalInv_step (hi : RenewalInv calls w) (hok : Passing E calls w e) (h : step E w e = some w') :
    RenewalInv calls w' := by
  have hstore := storeStep h
  have hps : ∀ p ∈ w.db.proofs, ∃ p' ∈ w'.db.proofs, Evolve p p' := fun p hp => evolve_of_storeStep hstore hp
  refine ⟨supersessionInv_step hi.base h, claims_of_storeStep hstore hi.claims, stamped_of_storeStep hstore hi,
    ?_, ?_, ?_⟩
  · intro pid c pc hproc
    rcases renewal_of_step h hproc with hsame | ⟨-, rfl⟩ | ⟨t, pc', -, hold, -, -⟩
    · exact hi.made pid c pc hsame
    · exact hok
    · exact hi.made pid c pc' hold
  · intro pid c pc hproc
    rcases renewal_of_step h hproc with hsame | ⟨rfl, -⟩ | ⟨t, pc', rfl, hold, hdb, rfl⟩
    · exact (hi.answered pid c pc hsame).mono hps
    · trivial
    · have hpass : ProcPasses E w.db t (w.procs pid) := hok
      rw [hold] at hpass
      rw [hdb]
      exact answered_advance hi.base.chains hi.claims (hi.base.held pid c pc' hold) hpass (hi.answered pid c pc' hold)
  · intro pid pid' c c' a a' hproc hproc' hsame hnew hnew'
    -- an answer is an old one, or the one this step gives, to a predecessor without a successor
    have cases_of : ∀ {pid c a}, w'.procs pid = .renew c (.done (.ok a)) → a.replayed = false →
        w.procs pid = .renew c (.done (.ok a)) ∨
          ((∃ t, e = .adv pid t) ∧ ∀ q ∈ w.db.proofs, q.supersedesId ≠ some c.proofId) := by
      intro pid c a hproc hnew
      rcases renewal_of_step h hproc with hsame | ⟨hstart, -⟩ | ⟨t, pc', he, hold, -, hpc⟩
      · exact .inl hsame
      · cases hstart
      · rcases first_of_commit (hi.base.held pid c pc' hold) hpc.symm hnew with rfl | hfirst
        · exact .inl hold
        · exact .inr ⟨⟨t, he⟩, hfirst⟩
    have returned : ∀ {pid c a}, w.procs pid = .renew c (.done (.ok a)) →
        ∃ q ∈ w.db.proofs, q.supersedesId = some c.proofId := by
      intro pid c a hold
      obtain ⟨q, hq, -, hlink, -⟩ := hi.answered pid c _ hold
      exact ⟨q, hq, hlink⟩
    rcases cases_of hproc hnew with hold | ⟨⟨t, he⟩, hfirst⟩ <;> rcases cases_of hproc' hnew' with hold' |
      ⟨⟨t', he'⟩, hfirst'⟩
    · exact hi.first pid pid' c c' a a' hold hold' hsame hnew hnew'
    · obtain ⟨q, hq, hlink⟩ := returned hold
      exact absurd (hlink.trans (congrArg some hsame)) (hfirst' q hq)
    · obtain ⟨q, hq, hlink⟩ := returned hold'
      exact absurd (hlink.trans (congrArg some hsame.symm)) (hfirst q hq)
    · exact (Ev.adv.inj (he.symm.trans he')).1

theorem renewalInv_of_run {tables : Db} (h : Run (step E) (Passing E calls) (World.empty tables) w) :
    RenewalInv calls w := by
  have hstart : Run (step E) anyStep (World.empty tables) (World.empty tables) := .refl
  refine h.invariant ⟨supersessionInv_of_run hstart, fun _ hp => (nomatch hp), fun _ hq => (nomatch hq),
    fun _ _ _ hproc => (nomatch hproc), fun _ _ _ hproc => (nomatch hproc), fun _ _ _ _ _ _ hproc => (nomatch hproc)⟩
    fun _ _ _ => renewalInv_step

/-- A doomed call's hash is not the successor's. -/
theorem unmatched_of_doomed (hi : RenewalInv calls w) (hcf : CollisionFree { s | ∃ c ∈ calls, s = c.requestText })
    (hmem : c ∈ calls) (hdoomed : Doomed w.db.proofs c) :
    ∀ q ∈ w.db.proofs, q.supersedesId = some c.proofId → q.renewalRequestHash ≠ some c.requestHash := by
  intro q hq hlink
  have hchains := hi.base.chains
  cases hdoomed with
  | beaten q' hq' hlink' hhash =>
    have hid := hchains.oneSuccessor c.proofId q.id q'.id ⟨q, hq, rfl, hlink⟩ ⟨q', hq', rfl, hlink'⟩
    rw [eq_of_key hchains.ids hq hq' hid]
    exact hhash
  | withdrawn p hp hid hmark =>
    exact absurd hmark ((hchains.marked p hp).mpr ⟨q, hq, hid ▸ hlink⟩)
  | taken q' hq' hid _ hother =>
    intro hhash
    -- the link was made by a call with this hash, so by one for the same successor
    obtain ⟨c', hmem', -, hhash', htarget⟩ := hi.stamped q hq c.proofId hlink
    have htext : c.requestText = c'.requestText :=
      hcf _ ⟨c, hmem, rfl⟩ _ ⟨c', hmem', rfl⟩ (sha256Tagged_eq.mp (some.inj (hhash.symm.trans hhash')))
    have hsame := htarget q'.id ((target_of_requestText htext).symm.trans hid.symm)
    rw [eq_of_key hchains.ids hq hq' hsame] at hlink
    exact hother hlink

end Steps

/-! ## The answers of a run -/

/-- What an answer says: the successor, under the call's own hash; or a conflict, and the
    successor, if there is one, has another hash. -/
def Outcome (ps : List Proof) (c : RenewCall) : Except Failure Renewal → Prop
  | .ok a => Returned ps c a
  | .error e => e = alreadySuperseded ∧
      ∀ q ∈ ps, q.supersedesId = some c.proofId → q.renewalRequestHash ≠ some c.requestHash

/-- What the renewals of a run have come to in a state, and in a later one. -/
structure ReplaySafe (E : Env) (w w' : World) : Prop where
  /-- A proof has one successor, the same at any two times. -/
  oneSuccessor : ∀ i, ∀ q ∈ w.db.proofs, ∀ q' ∈ w'.db.proofs, q.supersedesId = some i → q'.supersedesId = some i →
    q.id = q'.id
  answers : ∀ pid c answer, w'.procs pid = .renew c (.done answer) → Outcome w'.db.proofs c answer
  /-- Of the calls for one predecessor at most one made its successor; the others' is a replay. -/
  oneMaker : ∀ pid pid' c c' a a', w'.procs pid = .renew c (.done (.ok a)) →
    w'.procs pid' = .renew c' (.done (.ok a')) → c.proofId = c'.proofId → a.replayed = false → a'.replayed = false →
    pid = pid'
  /-- An access of a renewal writes nothing, or ends it with the successor it has made. -/
  writes : ∀ pid c pc t v, w'.procs pid = .renew c pc → step E w' (.adv pid t) = some v →
    v.db = w'.db ∨ ∃ a, v.procs pid = .renew c (.done (.ok a)) ∧ a.replayed = false
  /-- A renewal that has not answered can go on, and does so a bounded number of times. -/
  returns : ∀ pid c pc t, w'.procs pid = .renew c pc → (∃ answer, pc = .done answer) ∨
    ∃ v pc', step E w' (.adv pid t) = some v ∧ v.procs pid = .renew c pc' ∧ pc'.left < pc.left

theorem left_eq_zero (h : pc.left = 0) : ∃ answer, pc = .done answer := by
  cases pc with
  | done answer => exact ⟨answer, rfl⟩
  | walking p q now reasons current seen =>
    have h' : 3 + (257 - seen.length) = 0 := h
    omega
  | _ => cases h

theorem step_renewal (E : Env) {w : World} {pid : Nat} (t : Tick)
    (hproc : w.procs pid = .renew c pc) : step E w (.adv pid t) = some ⟨(advanceRenewal E c w.db t pc).1, w.chain,
      Function.update w.procs pid (.renew c (advanceRenewal E c w.db t pc).2)⟩ := by
  simp only [step, hproc, Proc.advance, map_some]

/-- In every run in which the renewals are from a set of calls without colliding request
    texts and no call fails a check before its transaction, renewal is at most once and
    replay-safe. -/
theorem renewal_replays_or_conflicts (E : Env) (tables : Db) (calls : List RenewCall)
    (hcf : CollisionFree { s | ∃ c ∈ calls, s = c.requestText }) (w w' : World)
    (hrun : Run (step E) (Passing E calls) (World.empty tables) w) (hlater : Run (step E) (Passing E calls) w w') :
    ReplaySafe E w w' := by
  have hi := renewalInv_of_run (hrun.trans hlater)
  have hchains := hi.base.chains
  refine ⟨?_, ?_, hi.first, ?_, ?_⟩
  · intro i q hq q' hq' hlink hlink'
    -- the link of the earlier state is still there
    have hkept : ∃ p ∈ w'.db.proofs, p.id = q.id ∧ p.supersedesId = some i := by
      refine hlater.invariant (I := fun v : World => ∃ p ∈ v.db.proofs, p.id = q.id ∧ p.supersedesId = some i)
        ⟨q, hq, rfl, hlink⟩ fun a e b hex _ hs => ?_
      obtain ⟨p, hp, hid, hl⟩ := hex
      obtain ⟨p', hp', hev⟩ := evolve_of_storeStep (storeStep hs) hp
      exact ⟨p', hp', (id_of_core hev.core).trans hid, (hev.link i hl).1⟩
    obtain ⟨p, hp, hid, hl⟩ := hkept
    rw [← hid]
    exact hchains.oneSuccessor i p.id q'.id ⟨p, hp, rfl, hl⟩ ⟨q', hq', rfl, hlink'⟩
  · intro pid c answer hproc
    have hans := hi.answered pid c _ hproc
    cases answer with
    | ok => exact hans
    | error => exact ⟨hans.1, unmatched_of_doomed hi hcf (hi.made pid c _ hproc) hans.2⟩
  · intro pid c pc t v hproc hs
    rw [step_renewal E t hproc] at hs
    cases hs
    by_cases hwrite : (advanceRenewal E c w'.db t pc).1 = w'.db
    · exact .inl hwrite
    · obtain ⟨a, ha, hnew⟩ := commit_of_write hwrite
      refine .inr ⟨a, ?_, hnew⟩
      show Function.update w'.procs pid _ pid = _
      rw [Function.update_self, ha]
  · intro pid c pc t hproc
    by_cases hdone : pc.left = 0
    · exact .inl (left_eq_zero hdone)
    · exact .inr ⟨_, _, step_renewal E t hproc, Function.update_self _ _ _, left_advance E c w'.db t hdone⟩

/-- Two identical calls that have both passed their checks before either commits. -/
def racingLinks : List Ev :=
  [.issue (liveRow "proof-1"), .issue (liveRow "proof-2"),
    .spawn 0 (.renew (linkCall "proof-1" "proof-2") .start), .spawn 1 (.renew (linkCall "proof-1" "proof-2") .start)] ++
  accesses 1 5 ++ accesses 0 6 ++ accesses 1 2

/-- The one that loses the race is answered with the winner's successor. -/
theorem racing_call_replayed :
    ∃ w, Run (step liveEnv) (Passing liveEnv [linkCall "proof-1" "proof-2"]) (World.empty liveTables) w ∧
      w.procs 0 = .renew (linkCall "proof-1" "proof-2") (.done (.ok ⟨"proof-2", true, false⟩)) ∧
      w.procs 1 = .renew (linkCall "proof-1" "proof-2") (.done (.ok ⟨"proof-2", true, true⟩)) ∧
      ReplaySafe liveEnv w w := by
  refine Run.exists_and (P := fun w =>
    w.procs 0 = .renew (linkCall "proof-1" "proof-2") (.done (.ok ⟨"proof-2", true, false⟩)) ∧
      w.procs 1 = .renew (linkCall "proof-1" "proof-2") (.done (.ok ⟨"proof-2", true, true⟩)))
    racingLinks fun w h hw => ?_
  have hcf : CollisionFree { s | ∃ c ∈ [linkCall "proof-1" "proof-2"], s = c.requestText } := by
    rintro _ ⟨c, hc, rfl⟩ _ ⟨c', hc', rfl⟩ -
    rw [mem_singleton.mp hc, mem_singleton.mp hc']
  exact ⟨hw.1, hw.2, renewal_replays_or_conflicts liveEnv liveTables _ hcf w w h .refl⟩

/-- Two identical calls: the second reads the predecessor before the first commits, and the
    successor after. -/
def identicalLinks : List Ev :=
  [.issue (liveRow "proof-1"), .issue (liveRow "proof-2"),
    .spawn 0 (.renew (linkCall "proof-1" "proof-2") .start), .spawn 1 (.renew (linkCall "proof-1" "proof-2") .start)] ++
  accesses 1 2 ++ accesses 0 6

/-- The same request as the one that made the link is refused as incompatible. -/
theorem identical_call_refused : ∃ w, Run (step liveEnv) anyStep (World.empty liveTables) w ∧
      w.procs 0 = .renew (linkCall "proof-1" "proof-2") (.done (.ok ⟨"proof-2", true, false⟩)) ∧
      w.procs 1 = .renew (linkCall "proof-1" "proof-2") (.done (.error (incompatible [.successorAlreadyLinked]))) :=
  Run.exists_of_replay (identicalLinks ++ accesses 1 3)

end EarnProof.Lifecycle
