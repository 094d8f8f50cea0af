/-
  EarnProof.Anchoring.Coverage — which proofs the anchoring reconciler comes to
  (`src/jobs/anchoring-reconciler.service.ts`), cycle after cycle, with nobody else writing
  and a contract whose answers stay the same.

  A cycle takes the 20 anchored proofs that were updated least recently. Only a repair
  updates a proof, so every other one keeps its place. A proof to flag for review that
  already has a `REGISTER` intent, as every proof anchored by the worker has, makes the
  creation of the review intent fail on the index, and the rest of the batch is not reached.

  Proved: after as many cycles as there are proofs, all are compared and all that are revoked on
  chain are repaired if and only if, leaving out the last one in the order, fewer than 20
  are not repaired and none collides (`all_compared_iff`). Twenty healthy proofs hide the next
  (`healthy_proofs_hide_the_next`).

  The order of rows with one `updatedAt` is not specified; it is any fixed order of ids here.
-/
import EarnProof.Anchoring.Ownership
import EarnProof.Lib.Pages
import EarnProof.Lib.Rounds
import Mathlib.Algebra.Order.BigOperators.Group.List
import Mathlib.Data.Prod.Lex
import Mathlib.Data.String.Basic

namespace EarnProof.Anchoring

open Lib Lib.Table Lib.Result Database Proofs List

/-! ## A cycle -/

def RECONCILE_BATCH_SIZE : Nat := 20

structure AnchoredProof where
  id : String
  status : ProofStatus
  contractTransactionHash : Option String
  revokedAt : Option Int
  updatedAt : Int
  deriving DecidableEq

/-- The contract's answers, the order of rows with one `updatedAt`, and the generator of ids. -/
structure Platform (κ : Type) where
  revoked : String → Bool
  valid : String → Bool
  seat : String → κ
  seat_inj : Function.Injective seat
  freshId : List Intent → String
  fresh : ∀ intents, ∀ i ∈ intents, i.id ≠ freshId intents

/-- `compared` lists the proofs whose on-chain status was read; it is ghost state. -/
structure Books where
  proofs : List AnchoredProof
  intents : List Intent
  compared : List String
  deriving DecidableEq

variable {κ : Type} (P : Platform κ)

/-- `where: { contractTransactionHash: { not: null }, status: { in: [ACTIVE, REVOKED] } }`. -/
def reconcilable (p : AnchoredProof) : Bool :=
  p.contractTransactionHash.isSome && (decide (p.status = .active) || decide (p.status = .revoked))

def readKey (p : AnchoredProof) : Lex (Int × κ) := toLex (p.updatedAt, P.seat p.id)

/-- The proofs of `runReconcile`, in the order it asks for. -/
def inReadOrder [LinearOrder κ] (proofs : List AnchoredProof) : List AnchoredProof :=
  Pages.inOrder (readKey P) (proofs.filter reconcilable)

variable (now : Int) (intents : List Intent) (p : AnchoredProof) (proofId : String)

/-- The update of the auto-repair, with the `updatedAt` that goes with it. -/
def repair : AnchoredProof :=
  { p with status := .revoked, revokedAt := some now, updatedAt := now }

/-- `flagForManualReview`; `none` when it throws. -/
def flagForManualReview : Option (List Intent) :=
  if intents.any (flagged proofId) then some intents
  else createIntent intents (reviewIntent (P.freshId intents) proofId now)

def enqueueRevoke : Option (List Intent) :=
  match intents.find? fun i => decide (i.proofId = proofId ∧ i.operation = .revoke) with
  | none => createIntent intents (.fresh (P.freshId intents) proofId .revoke now)
  | some existing =>
    if existing.status = .pending ∨ existing.status = .processing then some intents
    else some (updateIntent intents existing.id fun i =>
      { i with status := .pending, permanentError := false, lastErrorSafe := none, nextRetryAt := some now })

/-- `reconcileProof` behind the read of the on-chain status; `none` when it throws. -/
def reconcileChecked (b : Books) (p : AnchoredProof) : Option Books :=
  if p.status = .active then
    if P.revoked p.id then some { b with proofs := Table.update (fun r => decide (r.id = p.id)) (repair now) b.proofs }
    else if P.valid p.id then some b
    else (flagForManualReview P now b.intents p.id).map fun intents => { b with intents }
  else if p.status = .revoked then
    if P.revoked p.id then some b
    else (enqueueRevoke P now b.intents p.id).map fun intents => { b with intents }
  else some b

/-- The loop of `runReconcile`; what it throws ends it. -/
def runBatch (now : String → Int) : Books → List AnchoredProof → Books
  | b, [] => b
  | b, p :: ps =>
    if p.contractTransactionHash.all (· = "") then runBatch now b ps
    else
      match reconcileChecked P (now p.id) { b with compared := p.id :: b.compared } p with
      | none => { b with compared := p.id :: b.compared }
      | some b' => runBatch now b' ps

/-- One cycle; `now` is the instant at which each proof is worked on. -/
def runReconcile [LinearOrder κ] (now : String → Int) (b : Books) : Books :=
  runBatch P now b ((inReadOrder P b.proofs).take RECONCILE_BATCH_SIZE)

def cycles [LinearOrder κ] (clock : Nat → String → Int) : Nat → Books → Books
  | 0, b => b
  | n + 1, b => cycles (fun m => clock (m + 1)) n (runReconcile P (clock 0) b)

def repairs : Bool := decide (p.status = .active) && P.revoked p.id

def hasIntent (operation : AnchoringOperation) : Bool :=
  intents.any fun i => decide (i.proofId = proofId ∧ i.operation = operation)

/-- There is a `REGISTER` intent of the proof, and it is not the one of an earlier flag. -/
def collides : Bool :=
  !intents.any (flagged proofId) && hasIntent intents proofId .register

def jams : Bool :=
  decide (p.status = .active) && !P.revoked p.id && !P.valid p.id && collides intents p.id

variable {P}

/-! ## The writes of one proof -/

variable {intents intents' : List Intent} {now : String → Int} {b b' : Books} {p : AnchoredProof}
  {front : List AnchoredProof} {i : Intent} {proofId : String} {done proofs back : List AnchoredProof}
  {r' : AnchoredProof}

theorem createIntent_fresh (hid : i.id = P.freshId intents) :
    createIntent intents i = if hasIntent intents i.proofId i.operation then none else some (intents ++ [i]) := by
  have hany : (intents.any fun o => decide (o.id = i.id ∨ (o.proofId = i.proofId ∧ o.operation = i.operation))) =
      hasIntent intents i.proofId i.operation := by
    unfold hasIntent
    refine Bool.eq_iff_iff.mpr ?_
    simp only [any_eq_true, decide_eq_true_eq]
    refine exists_congr fun o => and_congr_right fun ho => or_iff_right ?_
    rw [hid]
    exact P.fresh intents o ho
  unfold createIntent
  rw [hany]

theorem flagForManualReview_eq_none {now : Int} :
    flagForManualReview P now intents proofId = none ↔ collides intents proofId := by
  unfold flagForManualReview collides
  cases intents.any (flagged proofId) with
  | true => simp
  | false =>
    rw [if_neg Bool.false_ne_true, createIntent_fresh rfl]
    show (if hasIntent intents proofId .register then none else _) = none ↔ _
    cases hasIntent intents proofId .register <;> simp

/-- A flag does not make anything collide, or stop it. -/
theorem collides_of_flag {now : Int}
    (h : flagForManualReview P now intents proofId = some intents') (id : String) :
    collides intents' id = collides intents id := by
  unfold flagForManualReview at h
  split at h
  · exact Option.some.inj h ▸ rfl
  · rw [createIntent_fresh rfl] at h
    split at h
    · cases h
    · rename_i hregister
      cases h
      unfold collides
      rw [any_append, hasIntent, any_append, ← hasIntent]
      by_cases hid : proofId = id
      · -- the proof had no `REGISTER` intent, and now has the flagged one
        subst hid
        have hbefore : hasIntent intents proofId .register = false := Bool.eq_false_iff.mpr hregister
        rw [hbefore]
        simp [flagged, reviewIntent, Intent.fresh]
      · simp [flagged, reviewIntent, Intent.fresh, hid]

/-- Queueing a revocation succeeds, and leaves the `REGISTER` intents alone. -/
theorem enqueueRevoke_spec (P : Platform κ) (now : Int) (proofId : String) (hids : (intents.map Intent.id).Nodup) :
    ∃ intents', enqueueRevoke P now intents proofId = some intents' ∧ (intents'.map Intent.id).Nodup ∧
      ∀ id, collides intents' id = collides intents id := by
  unfold enqueueRevoke
  split
  · rename_i hnone
    have hfree : hasIntent intents proofId .revoke = false := any_eq_false.mpr (find?_eq_none.mp hnone)
    have hcreate : createIntent intents (.fresh (P.freshId intents) proofId .revoke now) =
        some (intents ++ [.fresh (P.freshId intents) proofId .revoke now]) := by
      rw [createIntent_fresh rfl]
      exact if_neg (Bool.eq_false_iff.mp hfree)
    refine ⟨_, hcreate, nodup_append_row hids (createIntent_eq_some hcreate).1, fun id => ?_⟩
    unfold collides
    rw [any_append, hasIntent, any_append, ← hasIntent]
    simp [flagged, Intent.fresh]
  · rename_i existing hexisting
    obtain ⟨hmem, -, hrevoke⟩ := of_find? hexisting
    split
    · exact ⟨intents, rfl, hids, fun _ => rfl⟩
    · refine ⟨_, rfl, nodup_update _ (fun _ => rfl) hids, fun id => ?_⟩
      -- the updated row is a revocation, before and after
      have hrow : ∀ r ∈ intents, decide (r.id = existing.id) → r.operation = .revoke := fun r hr hs =>
        eq_of_key hids hr hmem (of_decide_eq_true hs) ▸ hrevoke
      unfold collides hasIntent updateIntent
      rw [any_update fun r hr hs => by simp [flagged, hrow r hr hs],
        any_update fun r hr hs => by simp [hrow r hr hs]]

/-- What a reconciler does to the intents when nobody comes between its accesses. -/
def uninterrupted (freshId : String) (t : Tick) (intents : List Intent) (pc : ReconcilerPc) : List Intent :=
  match (pc.access freshId t intents).next with
  | none => (pc.access freshId t intents).intents
  | some pc' => (pc'.access freshId t (pc.access freshId t intents).intents).intents

/-- The two writes, as the accesses of the reconciler of the whole system make them. -/
theorem uninterrupted_eq (t : Tick) (intents : List Intent) (proofId : String) :
    uninterrupted (P.freshId intents) t intents (.flag proofId) =
      (flagForManualReview P t.now intents proofId).getD intents ∧
      uninterrupted (P.freshId intents) t intents (.requeue proofId) =
        (enqueueRevoke P t.now intents proofId).getD intents := by
  constructor
  · unfold uninterrupted flagForManualReview
    cases hflagged : intents.any (flagged proofId) <;> simp [ReconcilerPc.access, hflagged]
  · unfold uninterrupted enqueueRevoke
    cases hexisting : intents.find? fun i => decide (i.proofId = proofId ∧ i.operation = .revoke) with
    | none => simp only [ReconcilerPc.access, hexisting, Option.any_none, Bool.false_eq_true, if_false]
    | some existing =>
      by_cases hqueued : existing.status = .pending ∨ existing.status = .processing
      · simp only [ReconcilerPc.access, hexisting, Option.any_some, decide_eq_true_eq, if_pos hqueued, Option.getD_some]
      · simp only [ReconcilerPc.access, hexisting, Option.any_some, decide_eq_true_eq, if_neg hqueued, Option.getD_some]

/-! ## A batch -/

/-- The write of one proof: it fails exactly on a jam, and otherwise repairs what is to repair. -/
theorem reconcileChecked_spec (now : Int) (p : AnchoredProof) (hids : (b.intents.map Intent.id).Nodup) :
    if jams P b.intents p then reconcileChecked P now b p = none
    else ∃ intents, (intents.map Intent.id).Nodup ∧ (∀ id, collides intents id = collides b.intents id) ∧
      reconcileChecked P now b p = some { b with
        proofs := if repairs P p then Table.update (fun r => decide (r.id = p.id)) (repair now) b.proofs else b.proofs
        intents } := by
  have hkept : (b.intents.map Intent.id).Nodup ∧ ∀ id, collides b.intents id = collides b.intents id :=
    ⟨hids, fun _ => rfl⟩
  unfold jams repairs reconcileChecked
  by_cases hactive : p.status = .active
  · rw [if_pos hactive, decide_eq_true hactive]
    cases hrevoked : P.revoked p.id with
    | true => exact ⟨b.intents, hkept.1, hkept.2, rfl⟩
    | false =>
      cases hvalid : P.valid p.id with
      | true => exact ⟨b.intents, hkept.1, hkept.2, rfl⟩
      | false =>
        simp only [Bool.not_false, Bool.and_true, Bool.true_and, Bool.false_eq_true, if_false]
        cases hflag : flagForManualReview P now b.intents p.id with
        | none =>
          rw [if_pos (flagForManualReview_eq_none.mp hflag)]
          rfl
        | some intents =>
          rw [if_neg fun hcollides => by rw [flagForManualReview_eq_none.mpr hcollides] at hflag; exact nomatch hflag]
          refine ⟨intents, ?_, collides_of_flag hflag, rfl⟩
          unfold flagForManualReview at hflag
          split at hflag
          · exact Option.some.inj hflag ▸ hids
          · obtain ⟨hnew, rfl⟩ := createIntent_eq_some hflag
            exact nodup_append_row hids hnew
  · rw [if_neg hactive, decide_eq_false hactive]
    simp only [Bool.false_and, Bool.false_eq_true, if_false]
    by_cases hstatus : p.status = .revoked
    · rw [if_pos hstatus]
      split
      · exact ⟨b.intents, hkept.1, hkept.2, rfl⟩
      · obtain ⟨intents, henqueue, hnodup, hcollides⟩ := enqueueRevoke_spec P now p.id hids
        exact ⟨intents, hnodup, hcollides, by rw [henqueue]; rfl⟩
    · rw [if_neg hstatus]
      exact ⟨b.intents, hkept.1, hkept.2, rfl⟩

theorem not_repairs_of_jams (p : AnchoredProof) (h : jams P intents p) : repairs P p = false := by
  unfold jams at h
  simp only [Bool.and_eq_true, Bool.not_eq_true'] at h
  simp [repairs, h.1.1.2]

def repairAt (now : String → Int) (p : AnchoredProof) : AnchoredProof := repair (now p.id) p

def repairedBy (P : Platform κ) (done : List AnchoredProof) (r : AnchoredProof) : Bool :=
  done.any fun p => repairs P p && decide (r.id = p.id)

theorem repairedBy_cons (p : AnchoredProof) (done : List AnchoredProof) (now : String → Int)
    (proofs : List AnchoredProof) : Table.update (repairedBy P done) (repairAt now)
      (if repairs P p then Table.update (fun r => decide (r.id = p.id)) (repair (now p.id)) proofs else proofs) =
    Table.update (repairedBy P (p :: done)) (repairAt now) proofs := by
  have hcons : repairedBy P (p :: done) = fun r => (repairs P p && decide (r.id = p.id)) || repairedBy P done r := rfl
  rw [hcons]
  cases repairs P p with
  | false => simp
  | true =>
    have hown : Table.update (fun r => decide (r.id = p.id)) (repair (now p.id)) proofs =
        Table.update (fun r => decide (r.id = p.id)) (repairAt now) proofs := by
      refine map_congr_left fun r _ => ?_
      by_cases hid : r.id = p.id
      · simp [repairAt, hid]
      · simp [hid]
    rw [if_pos rfl, hown, update_update (by intro r; rfl) (by intro r; rfl)]
    rfl

/-- A batch serves its proofs up to the first jam: it compares them, and repairs what is to repair. -/
theorem runBatch_spec (now : String → Int) (ps : List AnchoredProof) : ∀ (b : Books), (b.intents.map Intent.id).Nodup →
    (∀ p ∈ ps, p.contractTransactionHash.all (· = "") = false) →
    (runBatch P now b ps).proofs = Table.update (repairedBy P (Rounds.served (jams P b.intents) ps))
      (repairAt now) b.proofs ∧
    ((runBatch P now b ps).intents.map Intent.id).Nodup ∧ jams P (runBatch P now b ps).intents = jams P b.intents ∧
    ∀ id, id ∈ (runBatch P now b ps).compared ↔
      id ∈ b.compared ∨ id ∈ (Rounds.served (jams P b.intents) ps).map AnchoredProof.id := by
  induction ps with
  | nil =>
    intro b hids _
    refine ⟨?_, hids, rfl, by simp [runBatch, Rounds.served]⟩
    exact (update_of_none fun _ _ => rfl).symm
  | cons p ps ih =>
    intro b hids hhash
    have hp : p.contractTransactionHash.all (· = "") = false := hhash p mem_cons_self
    have hspec := reconcileChecked_spec (P := P) (now p.id) (b := { b with compared := p.id :: b.compared }) p hids
    unfold runBatch Rounds.served
    rw [hp, if_neg Bool.false_ne_true]
    by_cases hjam : jams P b.intents p
    · rw [if_pos hjam] at hspec
      rw [hspec, if_pos hjam]
      have hnone : repairedBy P [p] = fun _ => false := by
        funext r
        simp [repairedBy, not_repairs_of_jams p hjam]
      refine ⟨?_, hids, rfl, fun id => ?_⟩
      · rw [hnone]
        exact (update_of_none fun _ _ => rfl).symm
      · simp [or_comm]
    · rw [if_neg hjam] at hspec
      obtain ⟨intents, hnodup, hcollides, hspec⟩ := hspec
      -- whether the flag of a proof collides does not change from proof to proof
      have hjams : jams P intents = jams P b.intents := by
        unfold jams
        simp only [hcollides]
      rw [hspec, if_neg hjam]
      obtain ⟨hproofs, hnodup', hjams', hcompared⟩ := ih
        ⟨if repairs P p then Table.update (fun r => decide (r.id = p.id)) (repair (now p.id)) b.proofs
          else b.proofs, intents, p.id :: b.compared⟩ hnodup fun q hq => hhash q (mem_cons_of_mem p hq)
      simp only [hjams] at hproofs hjams' hcompared
      refine ⟨hproofs.trans ?_, hnodup', hjams', fun id => ?_⟩
      · exact repairedBy_cons p _ now b.proofs
      · rw [hcompared id]
        simp only [mem_cons, map_cons]
        tauto

theorem repairedBy_iff (hids : (b.proofs.map AnchoredProof.id).Nodup)
    (hdone : ∀ p ∈ done, p ∈ b.proofs) {r : AnchoredProof} (hr : r ∈ b.proofs) :
    repairedBy P done r ↔ r ∈ done ∧ repairs P r := by
  unfold repairedBy
  rw [any_eq_true]
  constructor
  · rintro ⟨p, hp, hsel⟩
    obtain ⟨hrepairs, hid⟩ := Bool.and_eq_true_iff.mp hsel
    obtain rfl := eq_of_key hids hr (hdone p hp) (of_decide_eq_true hid)
    exact ⟨hp, hrepairs⟩
  · rintro ⟨hmem, hrepairs⟩
    exact ⟨r, hmem, by simp [hrepairs]⟩

/-- What one cycle does, in terms of the front of the line: `done` is what it serves of it. -/
structure Cycled (P : Platform κ) (now : String → Int) (b b' : Books) (done : List AnchoredProof) : Prop where
  proofs : b'.proofs = Table.update (repairedBy P done) (repairAt now) b.proofs
  intentIds : (b'.intents.map Intent.id).Nodup
  jams : jams P b'.intents = jams P b.intents
  compared : ∀ id, id ∈ b'.compared ↔ id ∈ b.compared ∨ id ∈ done.map AnchoredProof.id

/-- The clock of the cycles: each later than the ones before and than what is stored. -/
structure Ticking (clock : Nat → String → Int) (b : Books) : Prop where
  later : ∀ n id id', clock n id < clock (n + 1) id'
  stored : ∀ p ∈ b.proofs, ∀ id, p.updatedAt < clock 0 id

theorem Ticking.cycle {clock : Nat → String → Int} (h : Ticking clock b)
    (hc : Cycled P (clock 0) b b' done) : Ticking (fun m => clock (m + 1)) b' := by
  refine ⟨fun n => h.later (n + 1), fun p hp id => ?_⟩
  rw [hc.proofs] at hp
  obtain ⟨r, hr, rfl⟩ := mem_update.mp hp
  split
  · exact h.later 0 r.id id
  · exact (h.stored r hr id).trans (h.later 0 id id)

/-! ## A cycle over the line of proofs -/

/-- The proofs in read order: a front that was never repaired, and behind it repaired ones, with nothing left
    to do and compared before. -/
structure Lined [LinearOrder κ] (P : Platform κ) (b : Books) (front : List AnchoredProof) : Prop where
  proofIds : (b.proofs.map AnchoredProof.id).Nodup
  intentIds : (b.intents.map Intent.id).Nodup
  anchored : ∀ p ∈ b.proofs, reconcilable p → p.contractTransactionHash.all (· = "") = false
  line : ∃ back, inReadOrder P b.proofs = front ++ back ∧
    ∀ p ∈ back, repairs P p = false ∧ jams P b.intents p = false ∧ p.id ∈ b.compared
  settled : ∀ p ∈ b.proofs, p.id ∈ b.compared → P.revoked p.id → p.status = .revoked

theorem nodup_readKey (h : (proofs.map AnchoredProof.id).Nodup) : (proofs.map (readKey P)).Nodup := by
  refine List.Nodup.of_map (fun k => (ofLex k).2) ?_
  rw [map_map]
  have hseats : (proofs.map AnchoredProof.id).map P.seat = proofs.map ((fun k => (ofLex k).2) ∘ readKey P) := by
    rw [map_map]
    rfl
  rw [← hseats]
  exact h.map P.seat_inj

variable [LinearOrder κ]

theorem mem_inReadOrder : p ∈ inReadOrder P proofs ↔ p ∈ proofs ∧ reconcilable p := by
  unfold inReadOrder
  rw [Pages.mem_inOrder, mem_filter]

theorem inReadOrder_strict (h : (proofs.map AnchoredProof.id).Nodup) :
    (inReadOrder P proofs).Pairwise fun a b => readKey P a < readKey P b :=
  Pages.inOrder_strict (nodup_readKey ((filter_sublist.map _).nodup h))

theorem Lined.mem_proofs (h : Lined P b front) (hp : p ∈ front) : p ∈ b.proofs ∧ reconcilable p := by
  obtain ⟨back, hline, -⟩ := h.line
  rw [← mem_inReadOrder (P := P), hline]
  exact mem_append_left _ hp

theorem Lined.nodup (h : Lined P b front) : front.Nodup := by
  obtain ⟨back, hline, -⟩ := h.line
  have hstrict := inReadOrder_strict (P := P) h.proofIds
  rw [hline] at hstrict
  exact (pairwise_append.mp hstrict).1.imp fun hlt heq => absurd (heq ▸ hlt) (lt_irrefl _)

/-- What a cycle compares of a front, and what it leaves of it. -/
abbrev taken (P : Platform κ) (b : Books) (front : List AnchoredProof) : List AnchoredProof :=
  Rounds.batch RECONCILE_BATCH_SIZE (jams P b.intents) front

abbrev left (P : Platform κ) (b : Books) (front : List AnchoredProof) : List AnchoredProof :=
  Rounds.remaining RECONCILE_BATCH_SIZE (repairs P) (jams P b.intents) front

/-- The repaired proofs behind the front add nothing to what the cycle does. -/
theorem Lined.cycled (h : Lined P b front) (now : String → Int) :
    Cycled P now b (runReconcile P now b) (taken P b front) := by
  obtain ⟨back, hline, hback⟩ := h.line
  obtain ⟨rest, hserved, hrest⟩ := Rounds.exists_served_append (jams P b.intents) (front.take RECONCILE_BATCH_SIZE)
    (back.take (RECONCILE_BATCH_SIZE - front.length))
  have hsettled : ∀ p ∈ rest, repairs P p = false ∧ p.id ∈ b.compared := fun p hp =>
    let hp' := hback p (mem_of_mem_take (hrest p hp))
    ⟨hp'.1, hp'.2.2⟩
  have hhash : ∀ p ∈ (inReadOrder P b.proofs).take RECONCILE_BATCH_SIZE,
      p.contractTransactionHash.all (· = "") = false := by
    intro p hp
    obtain ⟨hmem, hrec⟩ := mem_inReadOrder.mp (mem_of_mem_take hp)
    exact h.anchored p hmem hrec
  obtain ⟨hproofs, hids, hjams, hcompared⟩ := runBatch_spec now _ b h.intentIds hhash
  rw [hline, take_append, hserved] at hproofs hcompared
  unfold runReconcile
  rw [hline, take_append] at hids hjams ⊢
  refine ⟨hproofs.trans ?_, hids, hjams, fun id => (hcompared id).trans ?_⟩
  · congr 1
    funext r
    unfold repairedBy taken Rounds.batch
    rw [any_append, Bool.or_eq_left_iff_imp]
    intro hany
    obtain ⟨p, hp, hrepairs⟩ := any_eq_true.mp hany
    rw [(hsettled p hp).1] at hrepairs
    cases hrepairs
  · rw [map_append, mem_append]
    refine ⟨fun hid => ?_, fun hid => hid.imp_right .inl⟩
    rcases hid with hold | hnew | hbehind
    · exact .inl hold
    · exact .inr hnew
    · obtain ⟨p, hp, rfl⟩ := mem_map.mp hbehind
      exact .inl (hsettled p hp).2

section Cycle

variable (h : Lined P b front) (hc : Cycled P now b b' (taken P b front))

include h hc

/-- A row after a cycle: one that was not repaired, or a repaired one of the front. -/
theorem Lined.row_cases (hr' : r' ∈ b'.proofs) :
    ∃ r ∈ b.proofs, r'.id = r.id ∧
      ((r' = repairAt now r ∧ r ∈ taken P b front ∧ repairs P r) ∨
        (r' = r ∧ ¬ (r ∈ taken P b front ∧ repairs P r))) := by
  have hdone : ∀ p ∈ taken P b front, p ∈ b.proofs := fun p hp =>
    (h.mem_proofs (Rounds.mem_of_mem_batch hp)).1
  rw [hc.proofs] at hr'
  obtain ⟨r, hr, rfl⟩ := mem_update.mp hr'
  have hiff := repairedBy_iff (P := P) h.proofIds hdone hr
  refine ⟨r, hr, ?_⟩
  cases hs : repairedBy P (taken P b front) r with
  | true => exact ⟨rfl, .inl ⟨rfl, hiff.mp hs⟩⟩
  | false =>
    refine ⟨rfl, .inr ⟨rfl, fun hboth => ?_⟩⟩
    rw [hiff.mpr hboth] at hs
    cases hs

/-- The new front is stored as it was. -/
theorem Lined.remaining_stored (hp : p ∈ left P b front) : p ∈ b'.proofs := by
  have hmem := (h.mem_proofs (Rounds.mem_of_mem_remaining hp)).1
  rw [hc.proofs]
  refine mem_update_of_not hmem (Bool.eq_false_iff.mpr fun hs => ?_)
  have hdone := (repairedBy_iff h.proofIds (fun q hq => (h.mem_proofs (Rounds.mem_of_mem_batch hq)).1) hmem).mp hs
  rw [Rounds.not_moves_of_remaining h.nodup hp hdone.1] at hdone
  exact nomatch hdone.2

/-- A proof that was compared and is revoked on chain is revoked after the cycle. -/
theorem Lined.settled_cycle (hp : p ∈ b'.proofs) (hcompared : p.id ∈ b'.compared) (hrevoked : P.revoked p.id) :
    p.status = .revoked := by
  obtain ⟨r, hr, hid, ⟨rfl, -, -⟩ | ⟨rfl, hnot⟩⟩ := h.row_cases hc hp
  · rfl
  · rcases (hc.compared p.id).mp hcompared with hold | hbatch
    · exact h.settled p hr hold hrevoked
    · -- compared just now and not repaired: it was not active
      obtain ⟨q, hq, hqp⟩ := mem_map.mp hbatch
      obtain ⟨hqstored, hqrec⟩ := h.mem_proofs (Rounds.mem_of_mem_batch hq)
      obtain rfl := eq_of_key h.proofIds hqstored hr hqp
      have hinactive : q.status ≠ .active := fun hactive => hnot ⟨hq, by simp [repairs, hactive, hrevoked]⟩
      simpa [hinactive] using (Bool.and_eq_true_iff.mp hqrec).2

/-- The new line: the new front, and behind it the old back and the proofs just repaired. -/
theorem Lined.line_cycle (hclock : ∀ p ∈ b.proofs, ∀ id, p.updatedAt < now id)
    (hproofIds : (b'.proofs.map AnchoredProof.id).Nodup) (hline : inReadOrder P b.proofs = front ++ back) :
    ∃ behind, inReadOrder P b'.proofs =
        left P b front ++ behind ∧
      ∀ p ∈ behind, p ∈ back ∨ ∃ r ∈ taken P b front, p = repairAt now r := by
  have hstrict := inReadOrder_strict (P := P) h.proofIds
  rw [hline] at hstrict
  obtain ⟨hfront, -, hcross⟩ := pairwise_append.mp hstrict
  have hkeys : ((b'.proofs.filter reconcilable).map (readKey P)).Nodup :=
    nodup_readKey ((filter_sublist.map _).nodup hproofIds)
  have hcases : ∀ q ∈ b'.proofs.filter reconcilable,
      q ∉ left P b front →
      q ∈ back ∨ ∃ r ∈ taken P b front, q = repairAt now r := by
    intro q hq hbehind
    obtain ⟨hstored, hrec⟩ := mem_filter.mp hq
    obtain ⟨r, hr, -, ⟨hrepaired, hbatch, -⟩ | ⟨rfl, hnot⟩⟩ := h.row_cases hc hstored
    · exact .inr ⟨r, hbatch, hrepaired⟩
    · have hin : q ∈ front ++ back := hline ▸ mem_inReadOrder.mpr ⟨hr, hrec⟩
      refine .inl ((mem_append.mp hin).resolve_left fun hfront => hnot ?_)
      exact Rounds.moves_of_not_remaining hfront hbehind
  obtain ⟨behind, hline', hmem⟩ := Pages.inOrder_of_front hkeys (hfront.sublist (Rounds.remaining_sublist front))
    (fun p hp => mem_filter.mpr ⟨h.remaining_stored hc hp, (h.mem_proofs (Rounds.mem_of_mem_remaining hp)).2⟩)
    fun p hp q hq hnot => by
      have hpfront := Rounds.mem_of_mem_remaining hp
      rcases hcases q hq hnot with hq | ⟨r, -, rfl⟩
      · exact hcross p hpfront q hq
      · exact Prod.Lex.toLex_lt_toLex.mpr (.inl (hclock p (h.mem_proofs hpfront).1 _))
  exact ⟨behind, hline', fun p hp => hcases p ((hmem p).mp hp).1 ((hmem p).mp hp).2⟩

/-- One cycle moves what it repairs behind the front. -/
theorem Lined.cycle (hclock : ∀ p ∈ b.proofs, ∀ id, p.updatedAt < now id) : Lined P b' (left P b front) := by
  obtain ⟨back, hline, hback⟩ := h.line
  have hproofIds : (b'.proofs.map AnchoredProof.id).Nodup := by
    rw [hc.proofs]
    exact nodup_update _ (fun _ => rfl) h.proofIds
  obtain ⟨behind, hline', hcases⟩ := h.line_cycle hc hclock hproofIds hline
  refine ⟨hproofIds, hc.intentIds, fun p hp hrec => ?_, ⟨behind, hline', fun p hp => ?_⟩,
    fun p hp hcompared hrevoked => h.settled_cycle hc hp hcompared hrevoked⟩
  · obtain ⟨r, hr, -, ⟨rfl, hbatch, -⟩ | ⟨rfl, -⟩⟩ := h.row_cases hc hp
    · exact h.anchored r hr (h.mem_proofs (Rounds.mem_of_mem_batch hbatch)).2
    · exact h.anchored p hr hrec
  · rw [hc.jams]
    rcases hcases p hp with hp | ⟨r, hr, rfl⟩
    · obtain ⟨hrepairs, hjams, hcompared⟩ := hback p hp
      exact ⟨hrepairs, hjams, (hc.compared p.id).mpr (.inl hcompared)⟩
    · exact ⟨rfl, rfl, (hc.compared r.id).mpr (.inr (mem_map_of_mem hr))⟩

end Cycle

/-! ## All cycles -/

theorem cycles_spec (n : Nat) : ∀ {b : Books} {front : List AnchoredProof} {clock : Nat → String → Int},
    Lined P b front → Ticking clock b → (∃ front', Lined P (cycles P clock n b) front') ∧
      (cycles P clock n b).proofs.map AnchoredProof.id = b.proofs.map AnchoredProof.id ∧
      ∀ id, id ∈ (cycles P clock n b).compared ↔ id ∈ b.compared ∨
        id ∈ (Rounds.seen RECONCILE_BATCH_SIZE (repairs P) (jams P b.intents) n front).map AnchoredProof.id := by
  induction n with
  | zero => exact fun h _ => ⟨⟨_, h⟩, rfl, fun id => by simp [cycles, Rounds.seen]⟩
  | succ n ih =>
    intro b front clock h hclock
    have hc := h.cycled (clock 0)
    obtain ⟨hlined, hids, hcompared⟩ := ih (h.cycle hc hclock.stored) (hclock.cycle hc)
    refine ⟨hlined, hids.trans ?_, fun id => (hcompared id).trans ?_⟩
    · rw [hc.proofs, map_update AnchoredProof.id (show ∀ r, (repairAt (clock 0) r).id = r.id from fun _ => rfl)]
    · rw [hc.jams, hc.compared, or_assoc, ← mem_append, ← map_append]
      rfl

/-- After as many cycles as there are proofs, all are compared and all that are revoked on chain are repaired,
    if and only if the proofs before the last leave room for it and none of them jams. -/
theorem all_compared_iff (P : Platform κ) (b : Books) (hproofs : (b.proofs.map AnchoredProof.id).Nodup)
    (hintents : (b.intents.map Intent.id).Nodup)
    (hanchored : ∀ p ∈ b.proofs, reconcilable p → p.contractTransactionHash.all (· = "") = false)
    (hnew : b.compared = []) (clock : Nat → String → Int) (hclock : Ticking clock b) :
    (∀ p ∈ inReadOrder P b.proofs, p.id ∈ (cycles P clock (inReadOrder P b.proofs).length b).compared ∧
      (p.status = .active → P.revoked p.id →
        ∃ r ∈ (cycles P clock (inReadOrder P b.proofs).length b).proofs, r.id = p.id ∧ r.status = .revoked)) ↔
    ((inReadOrder P b.proofs).dropLast.countP fun p => !repairs P p) < RECONCILE_BATCH_SIZE ∧
      ∀ p ∈ (inReadOrder P b.proofs).dropLast, jams P b.intents p = false := by
  have hlined : Lined P b (inReadOrder P b.proofs) :=
    ⟨hproofs, hintents, hanchored, ⟨[], (append_nil _).symm, nofun⟩, by simp [hnew]⟩
  obtain ⟨⟨front', hfinal⟩, hids, hcompared⟩ := cycles_spec (inReadOrder P b.proofs).length hlined hclock
  have hjams : ∀ p, jams P b.intents p → repairs P p = false := not_repairs_of_jams
  have hall := Rounds.seen_all_iff (k := RECONCILE_BATCH_SIZE) (by decide) hjams hlined.nodup
  refine Iff.trans ?_ hall
  constructor
  · intro h p hp
    have hseen := (hcompared p.id).mp (h p hp).1
    rw [hnew] at hseen
    obtain ⟨q, hq, hid⟩ := mem_map.mp (hseen.resolve_left not_mem_nil)
    have hqp := eq_of_key hproofs (hlined.mem_proofs (Rounds.mem_of_mem_seen _ hq)).1 (hlined.mem_proofs hp).1 hid
    exact hqp ▸ hq
  · intro h p hp
    have hcomp := (hcompared p.id).mpr (.inr (mem_map_of_mem (h p hp)))
    refine ⟨hcomp, fun _ hrevoked => ?_⟩
    have hid : p.id ∈ (cycles P clock (inReadOrder P b.proofs).length b).proofs.map AnchoredProof.id :=
      hids ▸ mem_map_of_mem (hlined.mem_proofs hp).1
    obtain ⟨r, hr, hrid⟩ := mem_map.mp hid
    exact ⟨r, hr, hrid, hfinal.settled r hr (hrid ▸ hcomp) (hrid ▸ hrevoked)⟩

/-! ## Twenty healthy proofs -/

def longId (intents : List Intent) : String :=
  String.ofList (List.replicate ((intents.map fun i => i.id.length).sum + 1) 'i')

theorem longId_fresh (intents : List Intent) (i : Intent) (hi : i ∈ intents) : i.id ≠ longId intents := by
  intro heq
  have hlen := congrArg String.length heq
  have hle : i.id.length ≤ (intents.map fun i => i.id.length).sum := le_sum_of_mem (mem_map_of_mem hi)
  simp only [longId, String.length_ofList, length_replicate] at hlen
  omega

/-- A contract that knows the proofs with the ids `revoked` as revoked and all others as valid. -/
def contractOf (revoked : List String) : Platform String where
  revoked id := revoked.contains id
  valid id := !revoked.contains id
  seat := id
  seat_inj := fun _ _ h => h
  freshId := longId
  fresh := longId_fresh

def sampleProof (n : Nat) : AnchoredProof := ⟨String.ofList (List.replicate (n + 1) 'p'), .active, some "hash", none, n⟩

def healthyBooks : Books := ⟨(List.range 21).map sampleProof, [], []⟩

def sampleClock (n : Nat) (_ : String) : Int := 100 + n

/-- The newest of twenty-one healthy proofs is not compared in twenty-one cycles. -/
theorem healthy_proofs_hide_the_next : sampleProof 20 ∈ inReadOrder (contractOf []) healthyBooks.proofs ∧
    (inReadOrder (contractOf []) healthyBooks.proofs).length = 21 ∧
    (sampleProof 20).id ∉ (cycles (contractOf []) sampleClock 21 healthyBooks).compared := by
  decide +kernel

/-- A proof that is revoked on chain and a healthy one: in two cycles both are compared, and the first is repaired. -/
theorem revoked_proof_repaired :
    (sampleProof 1).id ∈ (cycles (contractOf ["p"]) sampleClock 2 ⟨[sampleProof 0, sampleProof 1], [], []⟩).compared ∧
      ∃ r ∈ (cycles (contractOf ["p"]) sampleClock 2 ⟨[sampleProof 0, sampleProof 1], [], []⟩).proofs,
        r.id = (sampleProof 0).id ∧ r.status = .revoked := by
  have hclock : Ticking sampleClock ⟨[sampleProof 0, sampleProof 1], [], []⟩ := by
    refine ⟨fun n _ _ => ?_, by simp [sampleProof, sampleClock]⟩
    show (100 : Int) + n < 100 + (n + 1 : Nat)
    omega
  have hall := (all_compared_iff (contractOf ["p"]) ⟨[sampleProof 0, sampleProof 1], [], []⟩ (by decide) (by decide)
    (by decide) rfl sampleClock hclock).mpr (by decide +kernel)
  exact ⟨(hall (sampleProof 1) (by decide +kernel)).1,
    (hall (sampleProof 0) (by decide +kernel)).2 rfl (by decide +kernel)⟩

end EarnProof.Anchoring
