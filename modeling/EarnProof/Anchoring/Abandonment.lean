/-
  EarnProof.Anchoring.Abandonment — whether an abandoned intent stays abandoned.

  `abandonProofAnchoring` reads the row, and writes the decision in a later transaction that
  goes by id; the claim of the worker reads only the status. So the decision is final as
  long as the row is still `QUARANTINED`, and in nobody's hand, when it is written, and
  as long as whoever returns a row to `PENDING` looks at its decision (`RespectsDecision`).

  Proved: in such runs an abandoned intent is never `PENDING` or `PROCESSING` again and the
  contract is not called for it (`abandoned_final`). `enqueueRevoke` of the reconciler does not
  look: it queues the abandoned revocation again, and the worker calls (`abandoned_called_again`).
-/
import EarnProof.Anchoring.Ownership

namespace EarnProof.Anchoring

open Lib Lib.Table Lib.Result Database Proofs List Option

/-- What a write that goes by id finds: a row to queue again is not abandoned, and a row to abandon is
    still quarantined and nobody works on it. -/
def Proc.Respects (w : World) : Proc → Prop
  | .operator c .redriving => ∀ i ∈ w.intents, i.id = c.intentId → i.quarantineDecision ≠ .abandoned
  | .operator c .abandoning => ∀ i ∈ w.intents, i.id = c.intentId →
      i.status = .quarantined ∧ ∀ q, i.id ∉ (w.procs q).inHand
  | .reconciler (.requeueing _ (some existing)) => ∀ i ∈ w.intents, i.id = existing.id →
    i.quarantineDecision ≠ .abandoned
  | _ => True

def RespectsDecision (w : World) : Event → Prop
  | .access p _ _ => (w.procs p).Respects w
  | _ => True

/-- Abandoned intents lie still: quarantined, and in nobody's hand. -/
structure Still (w : World) : Prop where
  ids : (w.intents.map Intent.id).Nodup
  quarantined : ∀ i ∈ w.intents, i.quarantineDecision = .abandoned → i.status = .quarantined
  unheld : ∀ i ∈ w.intents, i.quarantineDecision = .abandoned → ∀ p, i.id ∉ (w.procs p).inHand

/-! ## What an access does to abandoned rows -/

/-- After an access: the abandoned rows lie still, those there were are still abandoned, and none of
    them was called. -/
structure Spares (w : World) (a : Access Proc) : Prop where
  quarantined : ∀ i ∈ a.intents, i.quarantineDecision = .abandoned → i.status = .quarantined
  unheld : ∀ i ∈ a.intents, i.quarantineDecision = .abandoned → (∀ q, i.id ∉ (w.procs q).inHand) ∧ i.id ∉ handOf a.next
  kept : ∀ i ∈ w.intents, i.quarantineDecision = .abandoned → ∃ i' ∈ a.intents, i'.id = i.id ∧
    i'.quarantineDecision = .abandoned
  uncalled : ∀ i ∈ w.intents, i.quarantineDecision = .abandoned → a.called ≠ some i.id

variable {w : World} {intents : List Intent} {a : Access Proc} {p : Nat} {t : Tick} {E : Env} {w' : World} {e : Event}
  {id : String}

/-- An access that leaves the abandoned rows as they are and takes none of them in hand. -/
theorem Still.spares (h : Still w) (hrows : ∀ i, i.quarantineDecision = .abandoned → (i ∈ a.intents ↔ i ∈ w.intents))
    (hhand : ∀ i ∈ w.intents, i.quarantineDecision = .abandoned → i.id ∉ handOf a.next)
    (hcalled : ∀ i ∈ w.intents, i.quarantineDecision = .abandoned → a.called ≠ some i.id) : Spares w a where
  quarantined i hi hab := h.quarantined i ((hrows i hab).mp hi) hab
  unheld i hi hab := ⟨h.unheld i ((hrows i hab).mp hi) hab, hhand i ((hrows i hab).mp hi) hab⟩
  kept i hi hab := ⟨i, (hrows i hab).mpr hi, rfl, hab⟩
  uncalled := hcalled

theorem Still.spares_rows (h : Still w) {next : Option Proc}
    (hrows : ∀ i, i.quarantineDecision = .abandoned → (i ∈ intents ↔ i ∈ w.intents))
    (hhand : ∀ i ∈ w.intents, i.quarantineDecision = .abandoned → i.id ∉ handOf next) :
    Spares w ⟨intents, none, next⟩ :=
  h.spares hrows hhand fun i _ _ => (some_ne_none i.id).symm

/-- An update that neither picks nor makes abandoned rows. -/
theorem mem_update_abandoned {sel : Intent → Bool} {data : Intent → Intent}
    (hsel : ∀ r ∈ intents, sel r → r.quarantineDecision ≠ .abandoned)
    (hdata : ∀ r, (data r).quarantineDecision = .abandoned → r.quarantineDecision = .abandoned) (i : Intent)
    (hab : i.quarantineDecision = .abandoned) : i ∈ Table.update sel data intents ↔ i ∈ intents := by
  constructor
  · intro hi
    obtain ⟨r, hr, ⟨hs, rfl⟩ | ⟨-, rfl⟩⟩ := mem_update_cases hi
    · exact absurd (hdata r hab) (hsel r hr hs)
    · exact hr
  · intro hi
    refine mem_update_of_not hi ?_
    cases hs : sel i with
    | true => exact absurd hab (hsel i hi hs)
    | false => rfl

/-- The write of the decision itself. -/
theorem Still.abandon (h : Still w) (c : OperatorCall)
    (hok : ∀ i ∈ w.intents, i.id = c.intentId → i.status = .quarantined ∧ ∀ q, i.id ∉ (w.procs q).inHand) :
    Spares w ⟨updateIntent w.intents c.intentId Anchoring.abandon, none, none⟩ := by
  have hrow : ∀ i' ∈ updateIntent w.intents c.intentId Anchoring.abandon, i'.quarantineDecision = .abandoned →
      i'.status = .quarantined ∧ ∀ q, i'.id ∉ (w.procs q).inHand := by
    intro i' hi' hab
    obtain ⟨i, hi, -, ⟨hs, rfl⟩ | ⟨-, rfl⟩⟩ := mem_table_update hi' fun _ => rfl
    · exact hok i hi (of_decide_eq_true hs)
    · exact ⟨h.quarantined i' hi hab, h.unheld i' hi hab⟩
  refine ⟨fun i hi hab => (hrow i hi hab).1, fun i hi hab => ⟨(hrow i hi hab).2, not_mem_nil⟩, fun i hi hab => ?_,
    fun i _ _ => (some_ne_none i.id).symm⟩
  by_cases hid : i.id = c.intentId
  · exact ⟨Anchoring.abandon i, mem_update_of_sel hi (decide_eq_true hid), rfl, rfl⟩
  · exact ⟨i, mem_update_of_not hi (decide_eq_false hid), rfl, hab⟩

theorem Still.change (h : Still w)
    (hc : Change t w.intents (w.procs p) a) (hok : (w.procs p).Respects w) : Spares w a := by
  have hunheld : ∀ i ∈ w.intents, i.quarantineDecision = .abandoned → i.id ∉ (w.procs p).inHand := fun i hi hab =>
    h.unheld i hi hab p
  generalize w.procs p = proc at hc hunheld hok
  cases hc with
  | keep hhand hcalled =>
    refine h.spares (fun _ _ => Iff.rfl) (fun i hi hab hin => hunheld i hi hab (hhand.subset hin))
      fun i hi hab hcall => ?_
    exact hunheld i hi hab (hcalled i.id hcall)
  | @finish pc row queue data hhand _ hdecision =>
    have hin : ∀ id ∈ row.id :: queue, id ∈ Proc.inHand (.worker pc) := fun id hid => by
      show id ∈ pc.inHand
      rw [hhand]
      exact hid
    refine h.spares_rows (mem_update_abandoned (fun r hr hs hab => ?_) hdecision) fun i hi hab hin' => ?_
    · exact hunheld r hr hab (hin r.id (of_decide_eq_true hs ▸ mem_cons_self))
    · exact hunheld i hi hab (hin i.id (mem_cons_of_mem _ hin'))
  | claim plan =>
    -- only `PENDING` rows are candidates
    have hpending : ∀ r ∈ w.intents, r.id ∈ candidates w.intents t.now plan → r.quarantineDecision ≠ .abandoned := by
      intro r hr hcand
      refine mt (h.quarantined r hr) ?_
      rw [pending_of_candidate h.ids hr hcand]
      exact nofun
    refine h.spares_rows (mem_update_abandoned (fun r hr hs => hpending r hr (contains_iff_mem.mp hs)) fun _ h => h) ?_
    exact fun i hi hab hin => hpending i hi hin hab
  | reset =>
    refine h.spares_rows (mem_update_abandoned (fun r hr hs => mt (h.quarantined r hr) ?_) fun _ h => h)
      fun _ _ _ => not_mem_nil
    rw [of_decide_eq_true (Bool.and_eq_true_iff.mp hs).1]
    exact nofun
  | redrive =>
    refine h.spares_rows (mem_update_abandoned (fun r hr hs => hok r hr (of_decide_eq_true hs)) fun r hab => ?_)
      fun _ _ _ => not_mem_nil
    exact nomatch (show QuarantineDecision.redriven = .abandoned from hab)
  | abandon c => exact h.abandon c hok
  | requeue =>
    exact h.spares_rows (mem_update_abandoned (fun r hr hs => hok r hr (of_decide_eq_true hs)) fun _ h => h)
      fun _ _ _ => not_mem_nil
  | create hnew hdecision =>
    refine h.spares_rows (fun i hab => ?_) fun _ _ _ => not_mem_nil
    rw [mem_append, mem_singleton, or_iff_left]
    rintro rfl
    rw [hdecision] at hab
    cases hab

/-! ## Runs -/

structure Finished (id : String) (n : Nat) (w : World) : Prop where
  still : Still w
  abandoned : ∃ i ∈ w.intents, i.id = id ∧ i.quarantineDecision = .abandoned
  calls : w.calls id = n

/-- A process that goes on from rows that lie still, with none of them in hand. -/
theorem still_proceed {calls marks : String → Nat} {next : Proc} (hids : (intents.map Intent.id).Nodup)
    (hquarantined : ∀ i ∈ intents, i.quarantineDecision = .abandoned → i.status = .quarantined)
    (hunheld : ∀ i ∈ intents, i.quarantineDecision = .abandoned → (∀ q, i.id ∉ (w.procs q).inHand) ∧
      i.id ∉ next.inHand) : Still ⟨intents, calls, marks, Function.update w.procs p next⟩ := by
  refine ⟨hids, hquarantined, fun i hi hab =>
    (Function.forall_update_iff w.procs fun _ proc => i.id ∉ proc.inHand).mpr ?_⟩
  exact ⟨(hunheld i hi hab).2, fun q _ => (hunheld i hi hab).1 q⟩

theorem step_still (h : Still w) (hok : RespectsDecision w e) (hstep : step E w e = some w') :
    Still w' ∧ ∀ i ∈ w.intents, i.quarantineDecision = .abandoned →
      (∃ i' ∈ w'.intents, i'.id = i.id ∧ i'.quarantineDecision = .abandoned) ∧ w'.calls i.id = w.calls i.id := by
  -- the other events keep the rows and add at most a fresh one
  have hidle : ∀ (p : Nat) (proc : Proc), proc.inHand = [] →
      Still { w with procs := Function.update w.procs p proc } := by
    intro p proc hhand
    refine still_proceed h.ids h.quarantined fun i hi hab => ⟨h.unheld i hi hab, ?_⟩
    rw [hhand]
    exact not_mem_nil
  cases e with
  | enqueue id proofId operation createdAt =>
    obtain ⟨intents, hcreate, rfl⟩ := map_eq_some_iff.mp hstep
    obtain ⟨hnew, rfl⟩ := createIntent_eq_some hcreate
    have hold : ∀ i ∈ w.intents ++ [Intent.fresh id proofId operation createdAt], i.quarantineDecision = .abandoned →
        i ∈ w.intents := by
      intro i hi hab
      rcases mem_append_row.mp hi with hi | rfl
      · exact hi
      · cases hab
    refine ⟨⟨nodup_append_row h.ids hnew, fun i hi hab => h.quarantined i (hold i hi hab) hab,
      fun i hi hab => h.unheld i (hold i hi hab) hab⟩, fun i hi hab => ⟨⟨i, mem_append_left _ hi, rfl, hab⟩, rfl⟩⟩
  | start p proc =>
    obtain ⟨-, hhand, rfl⟩ := start_inv hstep
    exact ⟨hidle p proc hhand, fun i hi hab => ⟨⟨i, hi, rfl, hab⟩, rfl⟩⟩
  | access =>
    obtain ⟨a, ha, rfl⟩ := map_eq_some_iff.mp hstep
    have hc := change_of_access ha
    have hspares := h.change hc hok
    have hids : (a.intents.map Intent.id).Nodup := by
      generalize w.procs _ = proc at hc
      cases hc with
      | keep => exact h.ids
      | finish _ hdata => exact nodup_update _ hdata h.ids
      | create hnew => exact nodup_append_row h.ids hnew
      | _ => exact nodup_update _ (fun _ => rfl) h.ids
    refine ⟨still_proceed hids hspares.quarantined fun i hi hab => ?_, fun i hi hab => ?_⟩
    · rw [inHand_getD]
      exact hspares.unheld i hi hab
    · refine ⟨hspares.kept i hi hab, ?_⟩
      have hcalled := hspares.uncalled i hi hab
      show bump w.calls a.called i.id = w.calls i.id
      cases hcall : a.called with
      | none => rfl
      | some =>
        rw [hcall] at hcalled
        exact Function.update_of_ne (fun heq => hcalled (by rw [heq])) _ _
  | crash p =>
    cases hstep
    exact ⟨hidle p .idle rfl, fun i hi hab => ⟨⟨i, hi, rfl, hab⟩, rfl⟩⟩

theorem step_finished {n : Nat} (h : Finished id n w)
    (hok : RespectsDecision w e) (hstep : step E w e = some w') : Finished id n w' := by
  obtain ⟨hstill, hkept⟩ := step_still h.still hok hstep
  obtain ⟨i, hi, rfl, hab⟩ := h.abandoned
  obtain ⟨hthere, hcalls⟩ := hkept i hi hab
  exact ⟨hstill, hthere, hcalls.trans h.calls⟩

/-- An abandoned intent is final. -/
theorem abandoned_final (E : Env) (w w' : World) (hrun : Run (step E) RespectsDecision World.start w) (i : Intent)
    (hi : i ∈ w.intents) (hab : i.quarantineDecision = .abandoned) (hlater : Run (step E) RespectsDecision w w') :
    (∀ i' ∈ w'.intents, i'.id = i.id → i'.status ≠ .pending ∧ i'.status ≠ .processing) ∧
      w'.calls i.id = w.calls i.id := by
  have hstill : Still w :=
    hrun.invariant ⟨nodup_nil, fun _ h => (nomatch h), fun _ h => nomatch h⟩ fun _ _ _ h hok hs =>
      (step_still h hok hs).1
  have hfinished : Finished i.id (w.calls i.id) w' :=
    hlater.invariant ⟨hstill, ⟨i, hi, rfl, hab⟩, rfl⟩ fun _ _ _ => step_finished
  refine ⟨fun i' hi' hid => ?_, hfinished.calls⟩
  obtain ⟨r, hr, hrid, hrab⟩ := hfinished.abandoned
  obtain rfl := eq_of_key hfinished.still.ids hr hi' (hrid.trans hid.symm)
  rw [hfinished.still.quarantined r hr hrab]
  exact ⟨nofun, nofun⟩

/-! ## An abandoned revocation -/

def abandonCall : OperatorCall := ⟨"user-1", false, "proof-1", "intent-1"⟩

/-- The contract refuses the revocation for good, and the operator abandons it. -/
def abandonedRevocation : List Event :=
  .enqueue "intent-1" "proof-1" .revoke 0 :: toCall 1 0 ++
    [accessAt 1 1000 (.failed "unauthorized" true), accessAt 1 1000 .disabled,
    .start 2 (.operator abandonCall .abandon), accessAt 2 2000 .disabled, accessAt 2 2000 .disabled]

/-- The reconciler finds the proof revoked here and not on chain. -/
def requeuedRevocation : List Event :=
  .start 3 (.reconciler (.read ⟨"proof-1", .revoked, some "hash"⟩)) ::
    .access 3 "fresh" ⟨3000, .closed, .closed, .disabled, none, .checked false true⟩ ::
    [accessAt 3 3000 .disabled, accessAt 3 3000 .disabled]

/-- Abandoned, queued again by the reconciler, and called again by the worker. -/
theorem abandoned_called_again : ∃ (w w' w'' : World) (i i' : Intent), Run (step plainEnv) anyStep World.start w ∧
    i ∈ w.intents ∧ i.quarantineDecision = .abandoned ∧ Run (step plainEnv) anyStep w w' ∧
      i' ∈ w'.intents ∧ i'.id = i.id ∧
    i'.status = .pending ∧ Run (step plainEnv) anyStep w' w'' ∧ w''.calls i.id = w.calls i.id + 1 := by
  obtain ⟨w, w', hrun, hrun', i, hi, hab, i', hi', hid, hpending, w'', hw'', hcalls⟩ : ∃ w w',
      Run (step plainEnv) anyStep World.start w ∧ Run (step plainEnv) anyStep w w' ∧ ∃ i ∈ w.intents,
        i.quarantineDecision = .abandoned ∧ ∃ i' ∈ w'.intents, i'.id = i.id ∧ i'.status = .pending ∧
          ∃ w'' ∈ Run.replay (step plainEnv) anyStep w' (toCall 4 4000 ++ [accessAt 4 4000 (.anchored "hash")]),
            w''.calls i.id = w.calls i.id + 1 :=
    Run.exists_both_of_replay abandonedRevocation requeuedRevocation
  exact ⟨w, w', w'', i, i', hrun, hi, hab, hrun', hi', hid, hpending, Run.of_replay _ hw'', hcalls⟩

/-- The row a decision to abandon is written to is still quarantined. -/
def Proc.abandonsQuarantined (intents : List Intent) : Proc → Bool
  | .operator c .abandoning => intents.all fun i => decide (i.id = c.intentId → i.status = .quarantined)
  | _ => true

/-- Nothing is queued again, and what is abandoned is quarantined. -/
def AbandonsOnly (w : World) (e : Event) : Prop :=
  ReturnsNothing w e ∧ ∀ p freshId t, e = .access p freshId t → (w.procs p).abandonsQuarantined w.intents

instance : (e : Event) → Decidable (AbandonsOnly w e)
  | .access p freshId t => decidable_of_iff
      (ReturnsNothing w (.access p freshId t) ∧ (w.procs p).abandonsQuarantined w.intents = true)
      ⟨fun h => ⟨h.1, fun _ _ _ heq => by cases heq; exact h.2⟩, fun h => ⟨h.1, h.2 p freshId t rfl⟩⟩
  | .enqueue _ _ _ _ => .isTrue ⟨trivial, nofun⟩
  | .start _ _ => .isTrue ⟨trivial, nofun⟩
  | .crash _ => .isTrue ⟨trivial, nofun⟩

/-- While hands are kept, a quarantined intent is in nobody's. -/
theorem respectsDecision_of_owned (h : Owned w) (hok : AbandonsOnly w e) : RespectsDecision w e := by
  cases e with
  | access p freshId t =>
    obtain ⟨hnothing, habandons⟩ := hok
    replace hnothing : ∀ i ∈ w.intents, (w.procs p).returns t i = false := hnothing
    replace habandons := habandons p freshId t rfl
    show (w.procs p).Respects w
    generalize w.procs p = proc at hnothing habandons
    cases proc with
    | operator c pc =>
      cases pc with
      | redriving => exact fun i hi hid => absurd hid (of_decide_eq_false (hnothing i hi))
      | abandoning =>
        intro i hi hid
        have hquarantined := of_decide_eq_true (all_eq_true.mp habandons i hi) hid
        refine ⟨hquarantined, fun q hin => ?_⟩
        have hprocessing := h.processing q i.id hin i hi rfl
        rw [hquarantined] at hprocessing
        cases hprocessing
      | retry | abandon => trivial
    | reconciler pc =>
      cases pc with
      | requeueing proofId existing =>
        cases existing with
        | none => trivial
        | some => exact fun i hi hid => absurd hid (of_decide_eq_false (hnothing i hi))
      | _ => trivial
    | _ => trivial
  | _ => trivial

/-- The next cycle of a worker leaves the abandoned revocation alone. -/
theorem abandoned_survives_cycle : ∃ w w' i, Run (step plainEnv) RespectsDecision World.start w ∧
    Run (step plainEnv) RespectsDecision w w' ∧ i ∈ w.intents ∧ i.quarantineDecision = .abandoned ∧
    (∀ i' ∈ w'.intents, i'.id = i.id → i'.status ≠ .pending ∧ i'.status ≠ .processing) ∧
    w'.calls i.id = w.calls i.id := by
  obtain ⟨w, w', hw, hw', i, hi, hab⟩ : ∃ w w', Run (step plainEnv) AbandonsOnly World.start w ∧
      Run (step plainEnv) AbandonsOnly w w' ∧ ∃ i ∈ w.intents, i.quarantineDecision = .abandoned :=
    Run.exists_both_of_replay abandonedRevocation [.start 3 (.worker .reset), accessAt 3 400000 .disabled,
      accessAt 3 400000 .disabled, accessAt 3 400000 .disabled]
  have hkeeps : ∀ a e b, Owned a → AbandonsOnly a e → step plainEnv a e = some b → Owned b := fun _ _ _ h hok hs =>
    step_owned h (keepsHands_of_returnsNothing hok.1) hs
  obtain ⟨howned, hrun⟩ := hw.mono_invariant owned_start hkeeps fun _ _ => respectsDecision_of_owned
  obtain ⟨-, hlater⟩ := hw'.mono_invariant howned hkeeps fun _ _ => respectsDecision_of_owned
  exact ⟨w, w', i, hrun, hlater, hi, hab, abandoned_final plainEnv w w' hrun i hi hab hlater⟩

end EarnProof.Anchoring
