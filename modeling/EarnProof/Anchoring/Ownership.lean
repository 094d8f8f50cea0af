/-
  EarnProof.Anchoring.Ownership — who has an intent in hand.

  A claim moves intents from `PENDING` to `PROCESSING` and into the hands of one worker.
  Nothing in a row says whose it is, and every later write goes by id alone: the worker
  relies on `PROCESSING` intents being left to it. `Change` says once what an access can do;
  `Owned` is what holds while nobody returns an intent to `PENDING` that a worker still
  has in hand (`KeepsHands`): an intent in hand is in one hand, and is `PROCESSING`.

  Proved: then no worker moves a `CONFIRMED` intent (`confirmed_kept`). The stale reset goes by
  the age of the claim, and a batch of five calls may outlive it: a second worker confirms
  the intent and the first one's failure takes it back (`confirmed_taken_back`).
-/
import EarnProof.Anchoring.System

namespace EarnProof.Anchoring

open Lib Lib.Table Lib.Result Database Proofs List Function

/-! ## What an access can do -/

def handOf (next : Option Proc) : List String := (next.map Proc.inHand).getD []

/-- The accesses, by what they do to the rows and to what the process has in hand. -/
inductive Change (t : Tick) (intents : List Intent) : Proc → Access Proc → Prop
  | keep {proc : Proc} {called : Option String} {next : Option Proc} (hhand : (handOf next).Sublist proc.inHand)
      (hcalled : ∀ id, called = some id → id ∈ proc.inHand) : Change t intents proc ⟨intents, called, next⟩
  | finish {pc : WorkerPc} {i : Intent} {queue : List String} {data : Intent → Intent}
      (hhand : pc.inHand = i.id :: queue)
      (hdata : ∀ r, (data r).id = r.id)
        (hdecision : ∀ r, (data r).quarantineDecision = .abandoned → r.quarantineDecision = .abandoned) :
      Change t intents (.worker pc) ⟨updateIntent intents i.id data, none, some (.worker (.loop queue))⟩
  | claim plan : Change t intents (.worker .claim)
      ⟨claim intents t.now (candidates intents t.now plan), none,
        some (.worker (.loop (candidates intents t.now plan)))⟩
  | reset : Change t intents (.worker .reset) ⟨resetStaleProcessing intents t.now, none, some (.worker .claim)⟩
  | redrive c : Change t intents (.operator c .redriving) ⟨updateIntent intents c.intentId (redrive t.now), none, none⟩
  | abandon c :
      Change t intents (.operator c .abandoning) ⟨updateIntent intents c.intentId Anchoring.abandon, none, none⟩
  | requeue proofId existing : Change t intents (.reconciler (.requeueing proofId (some existing)))
      ⟨updateIntent intents existing.id fun i =>
        { i with status := .pending, permanentError := false, lastErrorSafe := none, nextRetryAt := some t.now },
          none, none⟩
  | create {pc : ReconcilerPc} {i : Intent} (hnew : ∀ r ∈ intents, r.id ≠ i.id)
      (hdecision : i.quarantineDecision = .pending) : Change t intents (.reconciler pc) ⟨intents ++ [i], none, none⟩

variable {intents : List Intent} {i : Intent} {t : Tick} {E : Env} {w : World} {calls marks : String → Nat} {p : Nat}
  {sel : Intent → Bool} {data : Intent → Intent}

theorem createIntent_eq_some {intents' : List Intent} (h : createIntent intents i = some intents') :
    (∀ r ∈ intents, r.id ≠ i.id) ∧ intents' = intents ++ [i] := by
  unfold createIntent at h
  split at h
  · cases h
  · rename_i hnone
    refine ⟨fun r hr heq => hnone ?_, (Option.some.inj h).symm⟩
    exact any_eq_true.mpr ⟨r, hr, decide_eq_true (.inl heq)⟩

/-- A creation the index refuses changes nothing. -/
theorem change_of_create {pc : ReconcilerPc} (hdecision : i.quarantineDecision = .pending) :
    Change t intents (.reconciler pc) ⟨(createIntent intents i).getD intents, none, none⟩ := by
  cases h : createIntent intents i with
  | none => exact .keep (nil_sublist _) nofun
  | some =>
    obtain ⟨hnew, rfl⟩ := createIntent_eq_some h
    exact .create hnew hdecision

theorem settle_id (E : Env) (now : Int) (read : Intent) (outcome : Outcome) (i : Intent) :
    (settle E now read outcome i).id = i.id := by
  cases outcome with
  | anchored => rfl
  | circuitOpen => rfl
  | _ => unfold settle recordFailure; simp only; split <;> rfl

/-- An outcome does not abandon an intent. -/
theorem settle_decision (E : Env) (now : Int) (read : Intent) (outcome : Outcome) (i : Intent)
    (h : (settle E now read outcome i).quarantineDecision = .abandoned) : i.quarantineDecision = .abandoned := by
  have hfailure : ∀ attemptCount message explicitlyPermanent,
      (recordFailure E now attemptCount message explicitlyPermanent i).quarantineDecision = .abandoned →
        i.quarantineDecision = .abandoned := by
    intro attemptCount message explicitlyPermanent h
    unfold recordFailure at h
    simp only at h
    split at h
    · cases h
    · exact h
  cases outcome with
  | anchored | circuitOpen => exact h
  | _ => exact hfailure _ _ _ h

theorem change_of_worker (E : Env) (t : Tick) (intents : List Intent) (pc : WorkerPc) : Change t intents (.worker pc)
      ⟨(pc.access E t intents).intents, (pc.access E t intents).called, (pc.access E t intents).next.map .worker⟩ := by
  cases pc with
  | reset => exact .reset
  | claim =>
    simp only [WorkerPc.access]
    split
    · exact .keep (nil_sublist _) nofun
    · exact .claim _
  | loop queue =>
    cases queue with
    | nil => exact .keep (nil_sublist _) nofun
    | cons id queue =>
      simp only [WorkerPc.access]
      split
      · exact .keep (sublist_cons_self id queue) nofun
      · rename_i i hi
        obtain ⟨-, rfl⟩ := of_find? hi
        exact .keep (Sublist.refl _) nofun
  | check =>
    simp only [WorkerPc.access]
    split
    · exact .keep (Sublist.refl _) nofun
    · exact .finish rfl (fun _ => rfl) fun _ h => h
  | call i =>
    refine .keep (Sublist.refl _) fun id hid => ?_
    replace hid : (if t.outcome.invoked then some i.id else none) = some id := hid
    split at hid
    · exact Option.some.inj hid ▸ mem_cons_self
    · cases hid
  | write i outcome =>
    simp only [WorkerPc.access]
    split
    · exact .finish rfl (settle_id E t.now i outcome) (settle_decision E t.now i outcome)
    · cases outcome with
      | anchored | circuitOpen => exact .keep (Sublist.refl _) nofun
      | _ => exact .keep (nil_sublist _) nofun

theorem change_of_operator (E : Env) (c : OperatorCall) (t : Tick) (intents : List Intent) (pc : OperatorPc) :
    Change t intents (.operator c pc)
      ⟨(pc.access E c t intents).intents, none, (pc.access E c t intents).next.map (.operator c)⟩ := by
  have hnone : ∀ next : Option OperatorPc, (handOf (next.map (.operator c))).Sublist
      (Proc.inHand (.operator c pc)) := by
    intro next
    cases next <;> exact nil_sublist _
  cases pc with
  | retry | abandon =>
    simp only [OperatorPc.access]
    split
    all_goals exact .keep (hnone _) nofun
  | redriving =>
    simp only [OperatorPc.access]
    split
    · exact .redrive c
    · exact .keep (hnone none) nofun
  | abandoning =>
    simp only [OperatorPc.access]
    split
    · exact .abandon c
    · exact .keep (hnone none) nofun

theorem change_of_reconciler (freshId : String) (t : Tick) (intents : List Intent) (pc : ReconcilerPc) :
    Change t intents (.reconciler pc)
      ⟨(pc.access freshId t intents).intents, none, (pc.access freshId t intents).next.map .reconciler⟩ := by
  have hnone : ∀ next : Option ReconcilerPc, (handOf (next.map .reconciler)).Sublist
      (Proc.inHand (.reconciler pc)) := by
    intro next
    cases next <;> exact nil_sublist _
  cases pc with
  | read | flag => exact .keep (hnone _) nofun
  | flagging => exact change_of_create rfl
  | requeue =>
    simp only [ReconcilerPc.access]
    split
    all_goals exact .keep (hnone _) nofun
  | requeueing proofId existing =>
    cases existing with
    | none => exact change_of_create rfl
    | some existing => exact .requeue proofId existing

variable {next proc : Proc} {a : Access Proc} {now : Int} {plan : List AnchoringOperation × Nat} {w' : World}
  {freshId : String} {e : Event}

theorem change_of_access (h : proc.access E freshId t intents = some a) : Change t intents proc a := by
  cases proc with
  | idle => cases h
  | worker pc => exact Option.some.inj h ▸ change_of_worker E t intents pc
  | operator c pc => exact Option.some.inj h ▸ change_of_operator E c t intents pc
  | reconciler pc => exact Option.some.inj h ▸ change_of_reconciler freshId t intents pc

/-! ## Hands -/

structure Owned (w : World) : Prop where
  ids : (w.intents.map Intent.id).Nodup
  nodup : ∀ p, (w.procs p).inHand.Nodup
  disjoint : ∀ p q, p ≠ q → ∀ id ∈ (w.procs p).inHand, id ∉ (w.procs q).inHand
  stored : ∀ p, ∀ id ∈ (w.procs p).inHand, ∃ i ∈ w.intents, i.id = id
  processing : ∀ p, ∀ id ∈ (w.procs p).inHand, ∀ i ∈ w.intents, i.id = id → i.status = .processing

/-- The rows an access returns to `PENDING` from outside. -/
def Proc.returns (t : Tick) (i : Intent) : Proc → Bool
  | .worker .reset => isStale t.now i
  | .operator c .redriving => decide (i.id = c.intentId)
  | .reconciler (.requeueing _ (some existing)) => decide (i.id = existing.id)
  | _ => false

/-- No intent that a running worker has in hand is returned to `PENDING`. -/
def KeepsHands (w : World) : Event → Prop
  | .access p _ t => ∀ i ∈ w.intents, (w.procs p).returns t i → ∀ q, i.id ∉ (w.procs q).inHand
  | _ => True

theorem owned_start : Owned World.start where
  ids := nodup_nil
  nodup _ := nodup_nil
  disjoint _ _ _ _ h := nomatch h
  stored _ _ h := nomatch h
  processing _ _ h := nomatch h

/-- One process goes on with less in hand, or with intents nobody else has; the rows in the hands of
    the others are as they were. -/
theorem Owned.proceed (h : Owned w) (hids : (intents.map Intent.id).Nodup) (hnodup : next.inHand.Nodup)
    (hfree : ∀ id ∈ next.inHand, ∀ q, q ≠ p → id ∉ (w.procs q).inHand)
    (hstored : ∀ i ∈ w.intents, ∃ i' ∈ intents, i'.id = i.id) (hown : ∀ id ∈ next.inHand, ∃ i ∈ intents, i.id = id)
    (hprocessing : ∀ id ∈ next.inHand, ∀ i ∈ intents, i.id = id → i.status = .processing)
    (hothers : ∀ q, q ≠ p → ∀ id ∈ (w.procs q).inHand, ∀ i ∈ intents, i.id = id → i.status = .processing) :
    Owned ⟨intents, calls, marks, Function.update w.procs p next⟩ := by
  refine ⟨hids, (forall_update_iff w.procs fun _ proc => proc.inHand.Nodup).mpr ⟨hnodup, fun q _ => h.nodup q⟩,
    forall_pairs_moved w.procs (fun _ _ proc other => ∀ id ∈ proc.inHand, id ∉ other.inHand) h.disjoint fun q hq =>
      ⟨fun id hid => hfree id hid q hq, fun id hid hin => hfree id hin q hq hid⟩,
    (forall_update_iff w.procs fun _ proc => ∀ id ∈ proc.inHand, ∃ i ∈ intents, i.id = id).mpr
      ⟨hown, fun q _ id hid => ?_⟩,
    (forall_update_iff w.procs fun _ proc => ∀ id ∈ proc.inHand, ∀ i ∈ intents, i.id = id → i.status = .processing).mpr
      ⟨hprocessing, hothers⟩⟩
  obtain ⟨i, hi, rfl⟩ := h.stored q id hid
  exact hstored i hi

/-- An update leaves the row, or replaces it by its new data. -/
theorem mem_table_update {i' : Intent} (h : i' ∈ Table.update sel data intents) (hdata : ∀ r, (data r).id = r.id) :
    ∃ i ∈ intents, i.id = i'.id ∧ (sel i ∧ i' = data i ∨ sel i = false ∧ i' = i) := by
  obtain ⟨i, hi, ⟨hs, rfl⟩ | ⟨hs, rfl⟩⟩ := mem_update_cases h
  · exact ⟨i, hi, (hdata i).symm, .inl ⟨hs, rfl⟩⟩
  · exact ⟨_, hi, rfl, .inr ⟨hs, rfl⟩⟩

theorem stored_table_update
    (h : i ∈ intents) (hdata : ∀ r, (data r).id = r.id) : ∃ i' ∈ Table.update sel data intents, i'.id = i.id := by
  cases hs : sel i with
  | true => exact ⟨data i, mem_update_of_sel h hs, hdata i⟩
  | false => exact ⟨i, mem_update_of_not h hs, rfl⟩

theorem inHand_getD (next : Option Proc) : (next.getD .idle).inHand = handOf next := by
  cases next <;> rfl

/-- An update from outside of rows that nobody has in hand, or that keep their status. -/
theorem Owned.outside (h : Owned w) (hnext : next.inHand = []) (hdata : ∀ r, (data r).id = r.id)
    (hsel : ∀ i ∈ w.intents, sel i → (∀ q, i.id ∉ (w.procs q).inHand) ∨ (data i).status = i.status) :
    Owned ⟨Table.update sel data w.intents, calls, marks, Function.update w.procs p next⟩ := by
  refine h.proceed (nodup_update _ hdata h.ids) (by simp [hnext]) (by simp [hnext])
    (fun i hi => stored_table_update hi hdata) (by simp [hnext]) (by simp [hnext]) fun q _ id hid i' hi' hid' => ?_
  obtain ⟨i, hi, hii', hcase⟩ := mem_table_update hi' hdata
  have hstatus := h.processing q id hid i hi (hii'.trans hid')
  rcases hcase with ⟨hs, rfl⟩ | ⟨-, rfl⟩
  · rcases hsel i hi hs with hout | hsame
    · exact absurd (hii'.trans hid' ▸ hid) (hout q)
    · rw [hsame, hstatus]
  · exact hstatus

/-- The worker's own update of the intent at the head of its hand. -/
theorem Owned.finish (h : Owned w) {id₀ : String}
    {queue : List String} (hhand : (w.procs p).inHand = id₀ :: queue) (hdata : ∀ r, (data r).id = r.id) :
    Owned ⟨updateIntent w.intents id₀ data, calls, marks, Function.update w.procs p (.worker (.loop queue))⟩ := by
  have hnodup := h.nodup p
  rw [hhand] at hnodup
  obtain ⟨hnot, hqueue⟩ := nodup_cons.mp hnodup
  have hmem : ∀ id ∈ queue, id ∈ (w.procs p).inHand := fun id hid => hhand ▸ mem_cons_of_mem id₀ hid
  have hkept : ∀ q id, id ∈ (w.procs q).inHand → id ≠ id₀ → ∀ i' ∈ updateIntent w.intents id₀ data, i'.id = id →
      i'.status = .processing := by
    intro q id hid hne i' hi' hid'
    obtain ⟨i, hi, hii', hcase⟩ := mem_table_update hi' hdata
    rcases hcase with ⟨hs, -⟩ | ⟨-, rfl⟩
    · exact absurd ((hii'.trans hid').symm.trans (of_decide_eq_true hs)) hne
    · exact h.processing q id hid i' hi hid'
  refine h.proceed (nodup_update _ hdata h.ids) hqueue
    (fun id hid q hq => h.disjoint p q hq.symm id (hmem id hid)) (fun i hi => stored_table_update hi hdata)
    (fun id hid => ?_) (fun id hid => hkept p id (hmem id hid) fun heq => hnot (heq ▸ hid))
    (fun q hq id hid => hkept q id hid fun heq => ?_)
  · obtain ⟨i, hi, rfl⟩ := h.stored p id (hmem id hid)
    exact stored_table_update hi hdata
  · exact h.disjoint q p hq id hid (by rw [hhand, heq]; exact mem_cons_self)

theorem mem_candidates {id : String} (h : id ∈ candidates intents now plan) :
    ∃ i ∈ intents, i.id = id ∧ i.status = .pending := by
  obtain ⟨i, hi, rfl⟩ := mem_map.mp h
  obtain ⟨hi, hclaim⟩ := mem_filter.mp ((mem_insertionSort _).mp (mem_of_mem_take hi))
  unfold claimable at hclaim
  simp only [Bool.and_eq_true, decide_eq_true_eq] at hclaim
  exact ⟨i, hi, rfl, hclaim.1.1⟩

theorem nodup_candidates (h : (intents.map Intent.id).Nodup) : (candidates intents now plan).Nodup := by
  have hfilter : ((intents.filter (claimable now plan.1)).map Intent.id).Nodup := (filter_sublist.map _).nodup h
  have hsorted := ((perm_insertionSort (fun a b : Intent => a.createdAt ≤ b.createdAt)
    (intents.filter (claimable now plan.1))).map Intent.id).nodup_iff.mpr hfilter
  exact ((take_sublist _ _).map _).nodup hsorted

/-- With unique ids, a claimed id is that of `PENDING` rows only. -/
theorem pending_of_candidate
    (h : (intents.map Intent.id).Nodup) (hi : i ∈ intents) (hid : i.id ∈ candidates intents now plan) :
    i.status = .pending := by
  obtain ⟨i', hi', heq, hpending⟩ := mem_candidates hid
  exact eq_of_key h hi' hi heq ▸ hpending

theorem Owned.claim (h : Owned w) (now : Int) (plan : List AnchoringOperation × Nat) :
    Owned ⟨Anchoring.claim w.intents now (candidates w.intents now plan), calls, marks,
      Function.update w.procs p (.worker (.loop (candidates w.intents now plan)))⟩ := by
  have hstatus : ∀ i' ∈ Anchoring.claim w.intents now (candidates w.intents now plan),
      i'.id ∈ candidates w.intents now plan → i'.status = .processing := by
    intro i' hi' hid
    obtain ⟨i, hi, hii', ⟨hs, rfl⟩ | ⟨hs, rfl⟩⟩ := mem_table_update hi' fun _ => rfl
    · rfl
    · exact absurd (contains_iff_mem.mpr hid) (by rw [hs]; exact Bool.false_ne_true)
  refine h.proceed (nodup_update _ (fun _ => rfl) h.ids) (nodup_candidates h.ids) (fun id hid q _ hin => ?_)
    (fun i hi => stored_table_update hi fun _ => rfl) (fun id hid => ?_)
      (fun id hid i' hi' heq => hstatus i' hi' (heq ▸ hid))
    (fun q _ id hid i' hi' hid' => ?_)
  · obtain ⟨i, hi, rfl, hpending⟩ := mem_candidates hid
    have := h.processing q i.id hin i hi rfl
    rw [hpending] at this
    cases this
  · obtain ⟨i, hi, rfl, -⟩ := mem_candidates hid
    exact stored_table_update hi fun _ => rfl
  · obtain ⟨i, hi, hii', ⟨-, rfl⟩ | ⟨-, rfl⟩⟩ := mem_table_update hi' fun _ => rfl
    · rfl
    · exact h.processing q id hid i' hi hid'

theorem Owned.append (h : Owned w) {i₀ : Intent} (hnew : ∀ r ∈ w.intents, r.id ≠ i₀.id) :
    Owned { w with intents := w.intents ++ [i₀] } := by
  refine ⟨nodup_append_row h.ids hnew, h.nodup, h.disjoint, fun p id hid => ?_, fun p id hid i hi heq => ?_⟩
  · obtain ⟨i, hi, heq⟩ := h.stored p id hid
    exact ⟨i, mem_append_left _ hi, heq⟩
  · rcases mem_append_row.mp hi with hold | rfl
    · exact h.processing p id hid i hold heq
    · obtain ⟨r, hr, hrid⟩ := h.stored p id hid
      exact absurd (hrid.trans heq.symm) (hnew r hr)

/-- A process that goes on with part of what it had in hand. -/
theorem Owned.keep (h : Owned w)
    (hhand : next.inHand.Sublist (w.procs p).inHand) :
    Owned ⟨w.intents, calls, marks, Function.update w.procs p next⟩ :=
  h.proceed h.ids (hhand.nodup (h.nodup p)) (fun id hid q hq => h.disjoint p q hq.symm id (hhand.subset hid))
    (fun i hi => ⟨i, hi, rfl⟩) (fun id hid => h.stored p id (hhand.subset hid))
    (fun id hid => h.processing p id (hhand.subset hid)) fun q _ => h.processing q

theorem Owned.change (h : Owned w) (hc : Change t w.intents (w.procs p) a)
    (hkeeps : ∀ i ∈ w.intents, (w.procs p).returns t i → ∀ q, i.id ∉ (w.procs q).inHand) :
    Owned ⟨a.intents, calls, marks, Function.update w.procs p (a.next.getD .idle)⟩ := by
  generalize hproc : w.procs p = proc at hc hkeeps
  cases hc with
  | keep hhand =>
    rw [← inHand_getD, ← hproc] at hhand
    exact h.keep hhand
  | finish hhand hdata =>
    refine h.finish ?_ hdata
    rw [hproc]
    exact hhand
  | claim plan => exact h.claim t.now plan
  | reset | redrive | requeue => exact h.outside rfl (fun _ => rfl) fun i hi hs => .inl (hkeeps i hi hs)
  | abandon => exact h.outside rfl (fun _ => rfl) fun i _ _ => .inr rfl
  | create hnew =>
    have hkept : Owned ⟨w.intents, calls, marks, Function.update w.procs p .idle⟩ := h.keep (nil_sublist _)
    exact hkept.append hnew

theorem start_inv (h : step E w (.start p proc) = some w') :
    w.procs p = .idle ∧ proc.inHand = [] ∧ w' = { w with procs := Function.update w.procs p proc } := by
  obtain ⟨hidle, rfl⟩ := enabled h
  refine ⟨hidle.1, ?_, rfl⟩
  cases proc with
  | worker pc => cases pc <;> first | rfl | cases hidle.2
  | _ => rfl

theorem step_owned (h : Owned w) (hok : KeepsHands w e) (hstep : step E w e = some w') : Owned w' := by
  cases e with
  | enqueue =>
    obtain ⟨intents, hcreate, rfl⟩ := Option.map_eq_some_iff.mp hstep
    obtain ⟨hnew, rfl⟩ := createIntent_eq_some hcreate
    exact h.append hnew
  | start =>
    obtain ⟨-, hhand, rfl⟩ := start_inv hstep
    exact h.keep (by rw [hhand]; exact nil_sublist _)
  | access =>
    obtain ⟨a, ha, rfl⟩ := Option.map_eq_some_iff.mp hstep
    exact h.change (change_of_access ha) hok
  | crash =>
    cases hstep
    exact h.keep (nil_sublist _)

/-! ## Confirmed intents -/

/-- The event is a worker's: it begins a cycle, makes an access, or crashes. -/
def ByWorker (w : World) : Event → Prop
  | .start _ proc => ∃ pc, proc = .worker pc
  | .access p _ _ => ∃ pc, w.procs p = .worker pc
  | .crash _ => True
  | .enqueue _ _ _ _ => False

/-- A worker's access changes rows it has in hand, `PENDING` ones and `PROCESSING` ones. -/
theorem confirmed_of_change (h : Owned w) {pc : WorkerPc}
    (hp : w.procs p = .worker pc) (hc : Change t w.intents (w.procs p) a)
    (hsame : ∀ r ∈ w.intents, r.id = i.id → r.status = .confirmed) :
    ∀ i' ∈ a.intents, i'.id = i.id → i'.status = .confirmed := by
  have hupdate : ∀ (sel : Intent → Bool) (data : Intent → Intent), (∀ r, (data r).id = r.id) →
      (∀ r ∈ w.intents, sel r → r.status ≠ .confirmed) →
      ∀ i' ∈ Table.update sel data w.intents, i'.id = i.id → i'.status = .confirmed := by
    intro sel data hdata hsel i' hi' hid
    obtain ⟨r, hr, hrid, ⟨hs, -⟩ | ⟨-, rfl⟩⟩ := mem_table_update hi' hdata
    · exact absurd (hsame r hr (hrid.trans hid)) (hsel r hr hs)
    · exact hsame i' hr hid
  have hhand := h.processing p
  rw [hp] at hc hhand
  cases hc with
  | keep => exact hsame
  | finish hinHand hdata =>
    refine hupdate _ _ hdata fun r hr hs hstatus => ?_
    have hin : r.id ∈ Proc.inHand (.worker pc) := by
      show r.id ∈ pc.inHand
      rw [hinHand, of_decide_eq_true hs]
      exact mem_cons_self
    have := hhand r.id hin r hr rfl
    rw [hstatus] at this
    cases this
  | claim =>
    refine hupdate _ _ (fun _ => rfl) fun r hr hs hstatus => ?_
    have := pending_of_candidate h.ids hr (contains_iff_mem.mp hs)
    rw [hstatus] at this
    cases this
  | reset =>
    refine hupdate _ _ (fun _ => rfl) fun r _ hs hstatus => ?_
    have hprocessing := (Bool.and_eq_true_iff.mp hs).1
    rw [hstatus] at hprocessing
    cases hprocessing

/-- No worker moves a confirmed intent. -/
theorem confirmed_kept (E : Env) (w w' : World) (hrun : Run (step E) KeepsHands World.start w) (e : Event)
    (hworker : ByWorker w e) (hok : KeepsHands w e) (hstep : step E w e = some w') (i : Intent) (hi : i ∈ w.intents)
    (hconfirmed : i.status = .confirmed) : ∀ i' ∈ w'.intents, i'.id = i.id → i'.status = .confirmed := by
  have howned : Owned w := hrun.invariant owned_start fun _ _ _ => step_owned
  have hsame : ∀ r ∈ w.intents, r.id = i.id → r.status = .confirmed := fun r hr hid =>
    eq_of_key howned.ids hi hr hid.symm ▸ hconfirmed
  cases e with
  | enqueue => exact hworker.elim
  | start =>
    obtain ⟨-, -, rfl⟩ := start_inv hstep
    exact hsame
  | access =>
    obtain ⟨pc, hp⟩ := hworker
    obtain ⟨a, ha, rfl⟩ := Option.map_eq_some_iff.mp hstep
    exact confirmed_of_change howned hp (change_of_access ha) hsame
  | crash =>
    cases hstep
    exact hsame

/-! ## Two workers and one intent -/

def plainEnv : Env := ⟨id, fun _ => some "user-1"⟩

/-- An access at an instant, with the outcome of a contract call if it makes one. -/
def tick (now : Int) (outcome : Outcome) : Tick := ⟨now, .closed, .closed, outcome, none, .unchecked⟩

section

variable (p : Nat) (now : Int)

def accessAt (outcome : Outcome) : Event := .access p "fresh" (tick now outcome)

/-- Worker `p` begins a cycle: it resets, claims, and comes to the contract call of its first intent. -/
def toCall : List Event :=
  [.start p (.worker .reset), accessAt p now .disabled, accessAt p now .disabled, accessAt p now .disabled,
    accessAt p now .disabled]

def anchoredAt : List Event := [accessAt p now (.anchored "hash"), accessAt p now .disabled]

def failedAt : List Event :=
  [accessAt p now (.failed "connection reset" true), accessAt p now .disabled]

end

def claimedByFirst : List Event := .enqueue "intent-1" "proof-1" .register 0 :: toCall 1 0

/-- Worker 1 waits for the contract for more than five minutes; worker 2 resets the intent, claims and
    confirms it; then the call of worker 1 fails and its update takes the intent back. -/
theorem confirmed_taken_back : ∃ (w w' : World) (e : Event) (i i' : Intent), Run (step plainEnv) anyStep World.start w ∧
    ByWorker w e ∧ step plainEnv w e = some w' ∧ i ∈ w.intents ∧ i.status = .confirmed ∧
      i' ∈ w'.intents ∧ i'.id = i.id ∧ i'.status = .pending := by
  obtain ⟨w, w', hrun, hw', hhand, i, hi, hstatus, i', hi'⟩ : ∃ w w', Run (step plainEnv) anyStep World.start w ∧
      step plainEnv w (accessAt 1 400003 .disabled) = some w' ∧ (w.procs 1).inHand = ["intent-1"] ∧
        ∃ i ∈ w.intents, i.status = .confirmed ∧ ∃ i' ∈ w'.intents, i'.id = i.id ∧ i'.status = .pending :=
    Run.exists_step_of_replay (claimedByFirst ++ toCall 2 400000 ++ anchoredAt 2 400001 ++
      [accessAt 1 400002 (.failed "connection reset" true)]) _
  have hworker : ∃ pc, w.procs 1 = .worker pc := by
    cases hp : w.procs 1 with
    | worker pc => exact ⟨pc, rfl⟩
    | _ => rw [hp] at hhand; cases hhand
  exact ⟨w, w', accessAt 1 400003 .disabled, i, i', hrun, hworker, hw', hi, hstatus, hi'⟩

/-- No row is returned to `PENDING` at all. -/
def ReturnsNothing (w : World) : Event → Prop
  | .access p _ t => ∀ i ∈ w.intents, (w.procs p).returns t i = false
  | _ => True

instance : Decidable (ReturnsNothing w e) := by
  unfold ReturnsNothing
  split <;> infer_instance

theorem keepsHands_of_returnsNothing (h : ReturnsNothing w e) : KeepsHands w e := by
  cases e with
  | access =>
    intro i hi hreturns
    rw [h i hi] at hreturns
    cases hreturns
  | _ => trivial

/-- Worker 1 confirms the intent, and the later cycle of worker 2 leaves it. -/
theorem confirmed_survives_cycle : ∃ w w' i, Run (step plainEnv) KeepsHands World.start w ∧
    step plainEnv w (accessAt 2 400000 .disabled) = some w' ∧ i ∈ w.intents ∧ i.status = .confirmed ∧
    ∀ i' ∈ w'.intents, i'.id = i.id → i'.status = .confirmed := by
  obtain ⟨w, w', hrun, hw', hnothing, hproc, i, hi, hstatus⟩ :
      ∃ w w', Run (step plainEnv) ReturnsNothing World.start w ∧
      step plainEnv w (accessAt 2 400000 .disabled) = some w' ∧ ReturnsNothing w (accessAt 2 400000 .disabled) ∧
        w.procs 2 = .worker .reset ∧ ∃ i ∈ w.intents, i.status = .confirmed :=
    Run.exists_step_of_replay (claimedByFirst ++ anchoredAt 1 1000 ++ [.start 2 (.worker .reset)]) _
  have hkeeps := hrun.mono fun _ _ => keepsHands_of_returnsNothing
  exact ⟨w, w', i, hkeeps, hw', hi, hstatus, confirmed_kept plainEnv w w' hkeeps (accessAt 2 400000 .disabled)
    ⟨.reset, hproc⟩ (keepsHands_of_returnsNothing hnothing) hw' i hi hstatus⟩

end EarnProof.Anchoring
