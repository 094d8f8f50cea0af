/-
  EarnProof.Anchoring.Attempts — how often the contract is invoked for one intent.

  An attempt is counted in the row when its outcome is written, after the call, from the count
  that was read before it. Proved: if no intent in hand is returned to `PENDING`, if every
  call's outcome is written, and as long as no settled intent is queued again by the
  reconciler, an intent is invoked at most `MAX_ATTEMPTS` times from its creation, or its last
  redrive, on (`calls_bounded`). The invariant behind it: a live intent either has a count below
  the limit that covers its calls, or no call since its redrive (`Room`). A worker that crashes
  in every cycle between the call and the write is reset and calls again without end
  (`crashes_exceed_attempts`).
-/
import EarnProof.Anchoring.Ownership

namespace EarnProof.Anchoring

open Lib Lib.Table Lib.Result Database Proofs List Option Function

/-! ## What a worker has read and owes -/

/-- The row a worker works from. -/
def Proc.copy : Proc → Option Intent
  | .worker (.check i _) => some i
  | .worker (.call i _) => some i
  | .worker (.write i _ _) => some i
  | _ => none

/-- The row whose attempt is made and not yet written. A refusal of the circuit is no attempt. -/
def Proc.owes : Proc → Option Intent
  | .worker (.write _ .circuitOpen _) => none
  | .worker (.write i _ _) => some i
  | _ => none

/-- No attempt is left unwritten: not by a crash, and not by a write that is refused for good. -/
def WritesOutcomes (w : World) : Event → Prop
  | .crash p => (w.procs p).owes = none
  | .access p _ t => t.writeFails ≠ none → ∀ i queue, w.procs p ≠ .worker (.write i .disabled queue) ∧
      ∀ message invoked, w.procs p ≠ .worker (.write i (.failed message invoked) queue)
  | _ => True

/-- The reconciler does not queue an existing intent again. -/
def QueuesOnce (w : World) : Event → Prop
  | .access p _ _ => ∀ proofId existing, w.procs p ≠ .reconciler (.requeueing proofId (some existing))
  | _ => True

/-! ## The count -/

def Live (i : Intent) : Prop := i.status = .pending ∨ i.status = .processing

/-- The counted attempts cover the calls and leave one, or there was no call since the mark. -/
def Room (calls marks : String → Nat) (i : Intent) : Prop :=
  (i.attemptCount < MAX_ATTEMPTS ∧ calls i.id ≤ marks i.id + i.attemptCount) ∨ calls i.id ≤ marks i.id

variable {calls marks : String → Nat} {i r : Intent} {w : World} {intents : List Intent} {p : Nat} {outcome : Outcome}
  {E : Env}

theorem Room.call_le (h : Room calls marks i) :
    calls i.id + 1 ≤ marks i.id + MAX_ATTEMPTS ∧ calls i.id + 1 ≤ marks i.id + (i.attemptCount + 1) := by
  unfold Room MAX_ATTEMPTS at h
  unfold MAX_ATTEMPTS
  omega

structure Counted (w : World) : Prop where
  owned : Owned w
  bound : ∀ id, w.calls id ≤ w.marks id + MAX_ATTEMPTS
  absent : ∀ id, (∀ i ∈ w.intents, i.id ≠ id) → w.calls id ≤ w.marks id
  room : ∀ i ∈ w.intents, Live i → (∀ p r, (w.procs p).owes = some r → r.id ≠ i.id) → Room w.calls w.marks i
  copies : ∀ p r, (w.procs p).copy = some r → ∀ i ∈ w.intents, i.id = r.id → i.attemptCount = r.attemptCount
  owing : ∀ p r, (w.procs p).owes = some r → w.calls r.id ≤ w.marks r.id + (r.attemptCount + 1)

theorem counted_start : Counted World.start where
  owned := owned_start
  bound _ := Nat.zero_le _
  absent _ _ := Nat.le_refl _
  room _ h := nomatch h
  copies _ _ h := nomatch h
  owing _ _ h := nomatch h

variable {proc next : Proc} {queue : List String} {now : Int} {freshId : String} {t : Tick}
  {e : Event}

theorem mem_inHand_of_copy (h : proc.copy = some r) : r.id ∈ proc.inHand := by
  cases proc with
  | worker pc =>
    cases pc with
    | check | call | write => exact some.inj h ▸ mem_cons_self
    | _ => cases h
  | _ => cases h

theorem copy_of_owes (h : proc.owes = some r) : proc.copy = some r := by
  cases proc with
  | worker pc =>
    cases pc with
    | write i outcome =>
      cases outcome with
      | circuitOpen => cases h
      | _ => exact h
    | _ => cases h
  | _ => cases h

theorem owes_of_copy (h : proc.copy = none) : proc.owes = none := by
  cases ho : proc.owes with
  | none => rfl
  | some => exact nomatch h.symm.trans (copy_of_owes ho)

/-- One process acts; what the others have read and owe is judged against the new rows and counts. -/
theorem Counted.proceed (howned : Owned ⟨intents, calls, marks, Function.update w.procs p next⟩)
    (hbound : ∀ id, calls id ≤ marks id + MAX_ATTEMPTS)
    (habsent : ∀ id, (∀ i ∈ intents, i.id ≠ id) → calls id ≤ marks id)
    (hroom : ∀ i ∈ intents, Live i → (∀ r, next.owes = some r → r.id ≠ i.id) →
      (∀ q, q ≠ p → ∀ r, (w.procs q).owes = some r → r.id ≠ i.id) → Room calls marks i)
    (hcopies : ∀ r, next.copy = some r → ∀ i ∈ intents, i.id = r.id → i.attemptCount = r.attemptCount)
    (hcopies' : ∀ q, q ≠ p → ∀ r, (w.procs q).copy = some r → ∀ i ∈ intents, i.id = r.id →
      i.attemptCount = r.attemptCount)
    (howing : ∀ r, next.owes = some r → calls r.id ≤ marks r.id + (r.attemptCount + 1))
    (howing' : ∀ q, q ≠ p → ∀ r, (w.procs q).owes = some r → calls r.id ≤ marks r.id + (r.attemptCount + 1)) :
    Counted ⟨intents, calls, marks, Function.update w.procs p next⟩ := by
  refine ⟨howned, hbound, habsent, fun i hi hlive hunowed => ?_,
    (forall_update_iff w.procs fun _ proc => ∀ r, proc.copy = some r → ∀ i ∈ intents, i.id = r.id →
      i.attemptCount = r.attemptCount).mpr ⟨hcopies, hcopies'⟩,
    (forall_update_iff w.procs fun _ proc => ∀ r, proc.owes = some r →
      calls r.id ≤ marks r.id + (r.attemptCount + 1)).mpr ⟨howing, howing'⟩⟩
  obtain ⟨hmine, hothers⟩ :=
    (forall_update_iff w.procs fun _ proc => ∀ r, proc.owes = some r → r.id ≠ i.id).mp hunowed
  exact hroom i hi hlive hmine hothers

/-! ## The steps -/

variable (redriven : Option String)

/-- A redrive only raises the mark, to the count of calls. -/
theorem le_mark {id : String} {n : Nat} (h : calls id ≤ marks id + n) :
    calls id ≤ mark calls marks redriven id + n := by
  cases redriven with
  | none => exact h
  | some id' =>
    by_cases hid : id = id'
    · subst hid
      simp [mark]
    · simpa [mark, update_of_ne hid] using h

section

variable (h : Counted w)

include h

/-- A row for which neither this process nor another owes an outcome has room. -/
theorem Counted.unowed (hi : i ∈ w.intents) (hlive : Live i)
    (hmine : ∀ r, (w.procs p).owes = some r → r.id ≠ i.id)
    (hothers : ∀ q, q ≠ p → ∀ r, (w.procs q).owes = some r → r.id ≠ i.id) : Room w.calls w.marks i := by
  refine h.room i hi hlive fun q => ?_
  by_cases hq : q = p
  · exact hq ▸ hmine
  · exact hothers q hq

/-- A step without a call or an outcome: every row has the count it had, and is live only if it was, or
    has just been redriven. -/
theorem Counted.rows
    (howned : Owned ⟨intents, w.calls, mark w.calls w.marks redriven, Function.update w.procs p next⟩)
    (hidle : (w.procs p).owes = none) (hnext : next.owes = none)
    (hrows : ∀ i' ∈ intents, ∃ i ∈ w.intents, i.id = i'.id ∧ i.attemptCount = i'.attemptCount ∧
      (Live i' → Live i ∨ redriven = some i'.id))
    (hstored : ∀ i ∈ w.intents, ∃ i' ∈ intents, i'.id = i.id)
    (hcopies : ∀ r, next.copy = some r → ∀ i ∈ intents, i.id = r.id → i.attemptCount = r.attemptCount) :
    Counted ⟨intents, w.calls, mark w.calls w.marks redriven, Function.update w.procs p next⟩ := by
  refine Counted.proceed howned (fun id => le_mark redriven (h.bound id)) (fun id hid => ?_)
    (fun i' hi' hlive' _ hunowed => ?_) hcopies
    (fun q _ r hr i' hi' hid => ?_) (fun r hr => ?_) fun q _ r hr => le_mark redriven (h.owing q r hr)
  · refine le_mark redriven (n := 0) (h.absent id fun i hi heq => ?_)
    obtain ⟨i', hi', hid'⟩ := hstored i hi
    exact hid i' hi' (hid'.trans heq)
  · obtain ⟨i, hi, hid, hcount, hlive⟩ := hrows i' hi'
    rcases hlive hlive' with hlive | rfl
    · have hroom := h.unowed hi hlive (fun r hr => nomatch hidle.symm.trans hr) (hid ▸ hunowed)
      unfold Room at hroom ⊢
      rw [← hid, ← hcount]
      exact hroom.imp (fun hleft => ⟨hleft.1, le_mark redriven hleft.2⟩) fun hright => le_mark redriven (n := 0) hright
    · exact .inr (by simp [mark])
  · obtain ⟨i, hi, hii', hcount, -⟩ := hrows i' hi'
    exact hcount ▸ h.copies q r hr i hi (hii'.trans hid)
  · rw [hnext] at hr
    cases hr

/-- An update that keeps ids and counts, by a process that is then without a row. -/
theorem Counted.update {sel : Intent → Bool} {data : Intent → Intent}
    (howned : Owned ⟨Table.update sel data w.intents, w.calls, mark w.calls w.marks redriven,
      Function.update w.procs p next⟩)
    (hdata : ∀ r, (data r).id = r.id) (hcount : ∀ r, (data r).attemptCount = r.attemptCount)
    (hidle : (w.procs p).owes = none) (hcopy : next.copy = none)
    (hlive : ∀ r ∈ w.intents, sel r → Live (data r) → Live r ∨ redriven = some r.id) :
    Counted ⟨Table.update sel data w.intents, w.calls, mark w.calls w.marks redriven,
      Function.update w.procs p next⟩ := by
  refine h.rows redriven howned hidle (owes_of_copy hcopy) (fun i' hi' => ?_) (fun i hi => stored_table_update hi hdata)
    fun r hr => nomatch hcopy.symm.trans hr
  obtain ⟨i, hi, hid, ⟨hs, rfl⟩ | ⟨-, rfl⟩⟩ := mem_table_update hi' hdata
  · exact ⟨i, hi, hid, (hcount i).symm, fun hl => hid ▸ hlive i hi hs hl⟩
  · exact ⟨i', hi, rfl, rfl, .inl⟩

theorem Counted.append {i₀ : Intent} (hnew : ∀ r ∈ w.intents, r.id ≠ i₀.id) :
    Counted { w with intents := w.intents ++ [i₀] } := by
  refine ⟨h.owned.append hnew, h.bound, fun id hid => ?_, fun i hi hlive hunowed => ?_,
    fun p r hr i hi hid => ?_, h.owing⟩
  · exact h.absent id fun i hi => hid i (mem_append_left _ hi)
  · rcases mem_append_row.mp hi with hold | rfl
    · exact h.room i hold hlive hunowed
    · exact .inr (h.absent i.id hnew)
  · rcases mem_append_row.mp hi with hold | rfl
    · exact h.copies p r hr i hold hid
    · obtain ⟨i', hi', hid'⟩ := h.owned.stored p r.id (mem_inHand_of_copy hr)
      exact absurd (hid'.trans hid.symm) (hnew i' hi')

/-- What another worker owes is not for a row in this one's hand. -/
theorem Counted.other_ne {q : Nat} (hq : q ≠ p) {o : Intent} (hcopy : (w.procs p).copy = some r)
    (ho : (w.procs q).copy = some o) : o.id ≠ r.id := fun heq =>
  h.owned.disjoint q p hq o.id (mem_inHand_of_copy ho) (heq ▸ mem_inHand_of_copy hcopy)

/-- The row a worker has in hand and owes nothing for has room for a call. -/
theorem Counted.room_of_copy (hcopy : (w.procs p).copy = some r)
    (howes : (w.procs p).owes = none) : Room w.calls w.marks r := by
  have hin := mem_inHand_of_copy hcopy
  obtain ⟨i, hi, hid⟩ := h.owned.stored p r.id hin
  have hroom := h.unowed hi (.inr (h.owned.processing p r.id hin i hi hid)) (fun o ho => nomatch howes.symm.trans ho)
    fun q hq o ho => hid ▸ h.other_ne hq hcopy (copy_of_owes ho)
  unfold Room at hroom ⊢
  rw [← hid, ← h.copies p r hcopy i hi hid]
  exact hroom

theorem Counted.call (hp : w.procs p = .worker (.call i queue)) :
    Counted ⟨w.intents, bump w.calls (if outcome.invoked then some i.id else none), w.marks,
      Function.update w.procs p (.worker (.write i outcome queue))⟩ := by
  have hcopy : (w.procs p).copy = some i := by rw [hp]; rfl
  have hroom := h.room_of_copy hcopy (by rw [hp]; rfl)
  have hcall := hroom.call_le
  have hsame : ∀ id, id ≠ i.id → bump w.calls (if outcome.invoked then some i.id else none) id = w.calls id := by
    intro id hid
    split
    · exact update_of_ne hid _ _
    · rfl
  have hself : bump w.calls (if outcome.invoked then some i.id else none) i.id ≤ w.calls i.id + 1 := by
    split
    · simp [bump]
    · exact Nat.le_succ _
  have howned : Owned ⟨w.intents, bump w.calls (if outcome.invoked then some i.id else none), w.marks,
      Function.update w.procs p (.worker (.write i outcome queue))⟩ := h.owned.keep (by rw [hp]; exact Sublist.refl _)
  refine Counted.proceed howned (fun id => ?_) (fun id hid => ?_) (fun j hj hlive hmine hothers => ?_) (fun r hr => ?_)
    (fun q _ r hr => h.copies q r hr) (fun r hr => ?_) fun q hq r hr => ?_
  · by_cases hid : id = i.id
    · subst hid
      omega
    · rw [hsame id hid]
      exact h.bound id
  · rw [hsame id]
    · exact h.absent id hid
    · obtain ⟨j, hj, hji⟩ := h.owned.stored p i.id (mem_inHand_of_copy hcopy)
      exact fun heq => hid j hj (hji.trans heq.symm)
  · by_cases hji : j.id = i.id
    · -- only a refusal of the circuit leaves the row unowed, and then nothing was called
      have hopen : outcome = .circuitOpen := by
        cases outcome with
        | circuitOpen => rfl
        | _ => exact absurd hji.symm (hmine i rfl)
      subst hopen
      unfold Room at hroom ⊢
      rw [hji, h.copies p i hcopy j hj hji]
      exact hroom
    · have hold := h.unowed hj hlive (fun r hr => by rw [hp] at hr; cases hr) hothers
      unfold Room at hold ⊢
      rw [hsame j.id hji]
      exact hold
  · cases hr
    exact h.copies p i hcopy
  · have hri : r = i := (some.inj (copy_of_owes hr)).symm
    subst hri
    omega
  · rw [hsame r.id (h.other_ne hq hcopy (copy_of_owes hr))]
    exact h.owing q r hr

/-- The outcome is not written, and the worker will try to write a failure instead. -/
theorem Counted.rewrite {message : String} (hp : w.procs p = .worker (.write i outcome queue)) :
    Counted ⟨w.intents, w.calls, w.marks, Function.update w.procs p
      (.worker (.write i (.failed message false) queue))⟩ := by
  have hcopy : (w.procs p).copy = some i := by rw [hp]; rfl
  have howing : w.calls i.id ≤ w.marks i.id + (i.attemptCount + 1) := by
    cases howes : (w.procs p).owes with
    | none => exact Nat.le_of_succ_le (h.room_of_copy hcopy howes).call_le.2
    | some r =>
      have hri := some.inj ((copy_of_owes howes).symm.trans hcopy)
      exact hri ▸ h.owing p r howes
  refine Counted.proceed (h.owned.keep (by rw [hp]; exact Sublist.refl _)) h.bound h.absent
    (fun j hj hlive hmine hothers => h.unowed hj hlive (fun r hr => ?_) hothers) (fun r hr => ?_)
    (fun q _ r hr => h.copies q r hr) (fun r hr => ?_) fun q _ r hr => h.owing q r hr
  · have hri := some.inj ((copy_of_owes hr).symm.trans hcopy)
    exact hri ▸ hmine i rfl
  · cases hr
    exact h.copies p i hcopy
  · cases hr
    exact howing

end

/-- A written outcome leaves the row settled, or with room for the next call. -/
theorem room_of_settle {read j : Intent} (hid : j.id = read.id) (hcount : j.attemptCount = read.attemptCount)
    (hopen : outcome = .circuitOpen → Room calls marks read)
    (howing : outcome ≠ .circuitOpen → calls read.id ≤ marks read.id + (read.attemptCount + 1))
    (hlive : Live (settle E now read outcome j)) : Room calls marks (settle E now read outcome j) := by
  have hfailure : ∀ message explicitlyPermanent, outcome ≠ .circuitOpen →
      Live (recordFailure E now (read.attemptCount + 1) message explicitlyPermanent j) →
        Room calls marks (recordFailure E now (read.attemptCount + 1) message explicitlyPermanent j) := by
    intro message explicitlyPermanent hne hlive
    unfold recordFailure at hlive ⊢
    simp only at hlive ⊢
    split at hlive
    · rcases hlive with hlive | hlive <;> cases hlive
    · rename_i hretry
      rw [if_neg hretry]
      simp only [Bool.or_eq_true, decide_eq_true_eq, not_or] at hretry
      have howing := howing hne
      refine .inl ⟨Nat.lt_of_not_le hretry.1.2, ?_⟩
      simpa [hid] using howing
  cases outcome with
  | anchored => rcases hlive with hlive | hlive <;> cases hlive
  | circuitOpen =>
    have hroom := hopen rfl
    unfold Room at hroom ⊢
    rw [← hid, ← hcount] at hroom
    exact hroom
  | _ => exact hfailure _ _ nofun hlive

theorem Counted.write (h : Counted w) (hp : w.procs p = .worker (.write i outcome queue)) :
    Counted ⟨updateIntent w.intents i.id (settle E now i outcome), w.calls, w.marks,
      Function.update w.procs p (.worker (.loop queue))⟩ := by
  have hcopy : (w.procs p).copy = some i := by rw [hp]; rfl
  have hid := settle_id E now i outcome
  have howned : Owned ⟨updateIntent w.intents i.id (settle E now i outcome), w.calls, w.marks,
      Function.update w.procs p (.worker (.loop queue))⟩ := h.owned.finish (by rw [hp]; rfl) hid
  refine Counted.proceed howned h.bound (fun id hmissing => ?_) (fun j' hj' hlive _ hothers => ?_)
    (fun _ hr => nomatch hr) (fun q hq r hr j' hj' hjr => ?_) (fun _ hr => nomatch hr) fun q _ r hr => h.owing q r hr
  · refine h.absent id fun j hj heq => ?_
    obtain ⟨j', hj', hid'⟩ := stored_table_update hj hid
    exact hmissing j' hj' (hid'.trans heq)
  · obtain ⟨j, hj, hjj', ⟨hs, rfl⟩ | ⟨hs, rfl⟩⟩ := mem_table_update hj' hid
    · have hji : j.id = i.id := of_decide_eq_true hs
      refine room_of_settle hji (h.copies p i hcopy j hj hji) (fun hopen => ?_) (fun hne => ?_) hlive
      · exact h.room_of_copy hcopy (by rw [hp, hopen]; rfl)
      · refine h.owing p i ?_
        rw [hp]
        cases outcome with
        | circuitOpen => exact absurd rfl hne
        | _ => rfl
    · refine h.unowed hj hlive (fun r hr => ?_) hothers
      rw [some.inj ((copy_of_owes hr).symm.trans hcopy)]
      exact fun heq => of_decide_eq_false hs heq.symm
  · obtain ⟨j, hj, hjj', ⟨hs, rfl⟩ | ⟨-, rfl⟩⟩ := mem_table_update hj' hid
    · have hji : j.id = i.id := of_decide_eq_true hs
      exact absurd (hjr.symm.trans (hjj'.symm.trans hji)) (h.other_ne hq hcopy hr)
    · exact h.copies q r hr j' hj hjr

def CountsAttempts (w : World) (e : Event) : Prop := KeepsHands w e ∧ WritesOutcomes w e ∧ QueuesOnce w e

theorem Counted.move (h : Counted w) (hhand : next.inHand.Sublist (w.procs p).inHand)
    (hidle : (w.procs p).owes = none) (hnext : next.owes = none)
    (hcopies : ∀ r, next.copy = some r → ∀ i ∈ w.intents, i.id = r.id → i.attemptCount = r.attemptCount) :
    Counted { w with procs := Function.update w.procs p next } :=
  h.rows none (h.owned.keep hhand) hidle hnext (fun i hi => ⟨i, hi, rfl, rfl, .inl⟩) (fun i hi => ⟨i, hi, rfl⟩) hcopies

theorem Counted.rest (h : Counted w) (hhand : next.inHand.Sublist (w.procs p).inHand)
    (hidle : (w.procs p).owes = none) (hcopy : next.copy = none) :
    Counted { w with procs := Function.update w.procs p next } :=
  h.move hhand hidle (owes_of_copy hcopy) fun _ hr => nomatch hcopy.symm.trans hr

theorem Counted.worker (h : Counted w) {pc : WorkerPc}
    (hp : w.procs p = .worker pc) (hok : CountsAttempts w (.access p freshId t)) :
    Counted ⟨(pc.access E t w.intents).intents, bump w.calls (pc.access E t w.intents).called, w.marks,
      Function.update w.procs p (((pc.access E t w.intents).next.map Proc.worker).getD .idle)⟩ := by
  obtain ⟨hkeeps, hwrites, -⟩ := hok
  cases pc with
  | reset =>
    have hfree : ∀ i ∈ w.intents, isStale t.now i → ∀ q, i.id ∉ (w.procs q).inHand := fun i hi hs =>
      hkeeps i hi (by rw [hp]; exact hs)
    refine h.update none (h.owned.outside rfl (fun _ => rfl) fun i hi hs => .inl (hfree i hi hs)) (fun _ => rfl)
      (fun _ => rfl) (by rw [hp]; rfl) rfl fun r _ hs _ => .inl ?_
    exact .inr (of_decide_eq_true (Bool.and_eq_true_iff.mp hs).1)
  | claim =>
    simp only [WorkerPc.access]
    split
    · exact h.rest (nil_sublist _) (by rw [hp]; rfl) rfl
    · refine h.update none (h.owned.claim t.now _) (fun _ => rfl) (fun _ => rfl) (by rw [hp]; rfl) rfl
        fun r hr hs _ => .inl ?_
      exact .inl (pending_of_candidate h.owned.ids hr (contains_iff_mem.mp hs))
  | loop queue =>
    cases queue with
    | nil => exact h.rest (nil_sublist _) (by rw [hp]; rfl) rfl
    | cons id queue =>
      simp only [WorkerPc.access]
      split
      · exact h.rest (by rw [hp]; exact sublist_cons_self id queue) (by rw [hp]; rfl) rfl
      · rename_i i hi
        obtain ⟨hmem, rfl⟩ := of_find? hi
        refine h.move (by rw [hp]; exact Sublist.refl _) (by rw [hp]; rfl) rfl fun r hr j hj hjr => ?_
        cases hr
        rw [eq_of_key h.owned.ids hj hmem hjr]
  | check i =>
    have hcopy : (w.procs p).copy = some i := by rw [hp]; rfl
    simp only [WorkerPc.access]
    split
    · refine h.move (by rw [hp]; exact Sublist.refl _) (by rw [hp]; rfl) rfl fun r hr => ?_
      cases hr
      exact h.copies p i hcopy
    · refine h.update none (h.owned.finish (by rw [hp]; rfl) fun _ => rfl) (fun _ => rfl) (fun _ => rfl)
        (by rw [hp]; rfl) rfl fun r _ _ hlive => ?_
      rcases hlive with hlive | hlive <;> cases hlive
  | call => exact h.call hp
  | write i outcome queue =>
    simp only [WorkerPc.access]
    split
    · exact h.write hp
    · rename_i message hfails
      obtain ⟨hdisabled, hfailed⟩ := hwrites (by rw [hfails]; exact some_ne_none _) i queue
      cases outcome with
      | anchored | circuitOpen => exact h.rewrite hp
      | disabled => exact absurd hp hdisabled
      | failed message' invoked => exact absurd hp (hfailed message' invoked)

theorem mark_none {c : Prop} [Decidable c] {redrives : Option String} (h : redrives = none) :
    mark calls marks (if c then redrives else none) = marks := by
  rw [h, ite_self]
  rfl

theorem Counted.operator (h : Counted w) {c : OperatorCall}
    {pc : OperatorPc} (hp : w.procs p = .operator c pc) (hok : CountsAttempts w (.access p freshId t)) :
    Counted ⟨(pc.access E c t w.intents).intents, w.calls,
      mark w.calls w.marks (if t.writeFails = none then (w.procs p).redrives else none),
      Function.update w.procs p (((pc.access E c t w.intents).next.map (Proc.operator c)).getD .idle)⟩ := by
  have howes : (w.procs p).owes = none := by rw [hp]; rfl
  have hstay : ∀ next : Option OperatorPc,
      Counted { w with procs := Function.update w.procs p ((next.map (Proc.operator c)).getD .idle) } := by
    intro next
    cases next <;> exact h.rest (nil_sublist _) howes rfl
  cases pc with
  | retry | abandon =>
    rw [mark_none (by rw [hp]; rfl)]
    simp only [OperatorPc.access]
    split <;> exact hstay _
  | redriving =>
    simp only [OperatorPc.access]
    by_cases hwrite : t.writeFails = none
    · rw [if_pos hwrite, if_pos hwrite, hp]
      refine h.update (some c.intentId) (h.owned.outside rfl (fun _ => rfl) fun i hi hs => .inl ?_) (fun _ => rfl)
        (fun _ => rfl) howes rfl fun r _ hs _ => .inr ?_
      · exact hok.1 i hi (by rw [hp]; exact hs)
      · rw [of_decide_eq_true hs]
    · rw [if_neg hwrite, if_neg hwrite]
      exact hstay none
  | abandoning =>
    rw [mark_none (by rw [hp]; rfl)]
    simp only [OperatorPc.access]
    split
    · exact h.update none (h.owned.outside rfl (fun _ => rfl) fun _ _ _ => .inr rfl) (fun _ => rfl) (fun _ => rfl) howes
        rfl fun r _ _ hlive => .inl hlive
    · exact hstay none

theorem Counted.reconciler (h : Counted w) {pc : ReconcilerPc}
    (hp : w.procs p = .reconciler pc) (hok : CountsAttempts w (.access p freshId t)) :
    Counted ⟨(pc.access freshId t w.intents).intents, w.calls, w.marks,
      Function.update w.procs p (((pc.access freshId t w.intents).next.map Proc.reconciler).getD .idle)⟩ := by
  have hstay : ∀ next : Option ReconcilerPc,
      Counted { w with procs := Function.update w.procs p ((next.map Proc.reconciler).getD .idle) } := by
    intro next
    cases next <;> exact h.rest (nil_sublist _) (by rw [hp]; rfl) rfl
  have hcreate : ∀ i : Intent,
      Counted ⟨(createIntent w.intents i).getD w.intents, w.calls, w.marks, Function.update w.procs p .idle⟩ := by
    intro i
    cases hi : createIntent w.intents i with
    | none => exact hstay none
    | some =>
      obtain ⟨hnew, rfl⟩ := createIntent_eq_some hi
      exact (hstay none).append hnew
  cases pc with
  | read | flag => exact hstay _
  | flagging => exact hcreate _
  | requeue =>
    simp only [ReconcilerPc.access]
    split <;> exact hstay _
  | requeueing proofId existing =>
    cases existing with
    | none => exact hcreate _
    | some existing => exact absurd hp (hok.2.2 proofId existing)

theorem step_counted {w' : World} (h : Counted w) (hok : CountsAttempts w e)
    (hstep : step E w e = some w') : Counted w' := by
  cases e with
  | enqueue =>
    obtain ⟨intents, hcreate, rfl⟩ := map_eq_some_iff.mp hstep
    obtain ⟨hnew, rfl⟩ := createIntent_eq_some hcreate
    exact h.append hnew
  | start p proc =>
    obtain ⟨hidle, hhand, rfl⟩ := start_inv hstep
    have hcopy : proc.copy = none := by
      cases hc : proc.copy with
      | none => rfl
      | some =>
        have hin := mem_inHand_of_copy hc
        rw [hhand] at hin
        cases hin
    exact h.rest (by rw [hhand]; exact nil_sublist _) (by rw [hidle]; rfl) hcopy
  | access p =>
    obtain ⟨a, ha, rfl⟩ := map_eq_some_iff.mp hstep
    cases hp : w.procs p with
    | idle =>
      rw [hp] at ha
      cases ha
    | worker pc =>
      rw [hp] at ha
      cases ha
      rw [mark_none (show (Proc.worker pc).redrives = none from rfl)]
      exact h.worker hp hok
    | operator =>
      rw [hp] at ha
      cases ha
      have hcounted := h.operator (E := E) hp hok
      rw [hp] at hcounted
      exact hcounted
    | reconciler pc =>
      rw [hp] at ha
      cases ha
      rw [mark_none (show (Proc.reconciler pc).redrives = none from rfl)]
      exact h.reconciler hp hok
  | crash =>
    cases hstep
    exact h.rest (nil_sublist _) hok.2.1 rfl

/-- An intent is called at most `MAX_ATTEMPTS` times since it was created or last redriven. -/
theorem calls_bounded (E : Env) (w : World) (hrun : Run (step E) CountsAttempts World.start w) (id : String) :
    w.calls id ≤ w.marks id + MAX_ATTEMPTS := by
  have hcounted : Counted w := hrun.invariant counted_start fun _ _ _ => step_counted
  exact hcounted.bound id

/-! ## A worker that never writes -/

/-- One cycle: the stale intent is reset and claimed, the contract is invoked, and the worker crashes. -/
def crashedCycle (now : Int) : List Event :=
  toCall 1 now ++ [accessAt 1 now (.failed "connection reset" true), .crash 1]

/-- Eleven cycles that crash between the call and its write make eleven calls. -/
theorem crashes_exceed_attempts : ∃ w, Run (step plainEnv) anyStep World.start w ∧ w.marks "intent-1" = 0 ∧
    MAX_ATTEMPTS < w.calls "intent-1" :=
  Run.exists_of_replay (.enqueue "intent-1" "proof-1" .register 0 ::
    (List.range 11).flatMap fun n => crashedCycle (400000 * n))

/-- Workers alone, that are not stopped, whose writes go through, and that return nothing to `PENDING`. -/
def workerWrites (w : World) : Event → Bool
  | .access p _ t => (w.intents.all fun i => !(w.procs p).returns t i) && t.writeFails.isNone &&
      match w.procs p with
      | .worker _ => true
      | _ => false
  | .crash _ => false
  | _ => true

theorem countsAttempts_of_workerWrites (h : workerWrites w e) : CountsAttempts w e := by
  cases e with
  | access =>
    obtain ⟨hleft, hworker⟩ := Bool.and_eq_true_iff.mp h
    obtain ⟨hnothing, hwrites⟩ := Bool.and_eq_true_iff.mp hleft
    refine ⟨fun i hi hreturns => ?_, fun hfails => ?_, fun proofId existing hp => ?_⟩
    · have := all_eq_true.mp hnothing i hi
      rw [hreturns] at this
      cases this
    · exact absurd (isNone_iff_eq_none.mp hwrites) hfails
    · rw [hp] at hworker
      cases hworker
  | crash => cases h
  | enqueue | start => exact ⟨trivial, trivial, trivial⟩

/-- Two cycles whose calls fail and are counted. -/
theorem failures_counted : ∃ w, Run (step plainEnv) CountsAttempts World.start w ∧ w.calls "intent-1" = 2 ∧
    w.calls "intent-1" ≤ w.marks "intent-1" + MAX_ATTEMPTS := by
  obtain ⟨w, hrun, hcalls⟩ : ∃ w, Run (step plainEnv) (fun w e => workerWrites w e) World.start w ∧
      w.calls "intent-1" = 2 :=
    Run.exists_of_replay (claimedByFirst ++ failedAt 1 1000 ++ [accessAt 1 1000 .disabled] ++ toCall 1 100000 ++
      failedAt 1 100000)
  have hcounts := hrun.mono fun _ _ => countsAttempts_of_workerWrites
  exact ⟨w, hcounts, hcalls, calls_bounded plainEnv w hcounts "intent-1"⟩

end EarnProof.Anchoring
