/-
  EarnProof.Encryption.RewrapCompletion — what a COMPLETED rewrap says, over every interleaving
  of executions, stored amounts, faults and crashes (`Encryption.Rewrap`).

  In runs whose steps are `Quiet` (`completed_rewrap_complete`), an intent that becomes
  COMPLETED leaves no payment under its source version, and every access of an execution
  leaves what every payment opens to. The first is what `Sound` says of an execution that is
  about to complete; the second needs that a batch about to be written still opens to what the
  stored payments open to (`Faithful`).

  Traces, outside of those runs: completion looks only at the count and the cursor, so a
  payment that does not decrypt is counted, passed over and left (`corrupt_payment_left`), and
  so is one stored under the source version behind the cursor (`inserted_payment_left`). The
  transaction writes by id alone, so an amount stored between the batch's read and its write
  is lost (`replaced_amount_lost`).
-/
import EarnProof.Encryption.RewrapInvariant

namespace EarnProof.Encryption

open Lib Lib.Table Common.Crypto

/-! ## What the payments open to -/

/-- A batch that is about to be written opens to what the payments open to. -/
def Faithful (cfg : Config) (w : World) : Prop :=
  ∀ p i rewrapped, w.workers p = some (.write i rewrapped) →
    ∀ x ∈ rewrapped, ∀ r ∈ w.db.payments, r.id = x.id → plain cfg.keyring r = plain cfg.keyring x

variable {e : Event}

section Faithful

variable {cfg : Config} {w w' : World}

/-- No worker comes to a write, and the payments open as before. -/
theorem Faithful.frame (h : Faithful cfg w)
    (hworkers : ∀ q i rewrapped, w'.workers q = some (.write i rewrapped) → w.workers q = some (.write i rewrapped))
    (hrows : ∀ r' ∈ w'.db.payments, ∃ r ∈ w.db.payments, r.id = r'.id ∧ plain cfg.keyring r = plain cfg.keyring r') :
    Faithful cfg w' := by
  intro q i rewrapped hq x hx r' hr' hid
  obtain ⟨r, hr, hsame, hplain⟩ := hrows r' hr'
  rw [← hplain]
  exact h q i rewrapped (hworkers q i rewrapped hq) x hx r hr (hsame.trans hid)

variable {p : Nat}

/-- A worker goes on to a stage that is not a write, or stops. -/
theorem Faithful.goes (h : Faithful cfg w) {next : Option Stage} {db : Db} (hpayments : db.payments = w.db.payments)
    (hnext : ∀ i rewrapped, next ≠ some (.write i rewrapped)) : Faithful cfg ({ w with db }.withWorker p next) := by
  refine h.frame (fun q i rewrapped hq => ?_) fun r hr => ?_
  · rcases update_eq_some hq with ⟨-, hnew⟩ | ⟨-, hold⟩
    · exact absurd hnew (hnext i rewrapped)
    · exact hold
  · have hr : r ∈ db.payments := hr
    rw [hpayments] at hr
    exact ⟨r, hr, rfl, rfl⟩

/-- The rows of a written batch open as the payments they replace. -/
theorem Faithful.written (h : Faithful cfg w) {i : EncryptionKeyRewrapIntent} {rewrapped : List AmountRow}
    (hstage : w.workers p = some (.write i rewrapped)) {r' : AmountRow}
    (hr' : r' ∈ writeBatch rewrapped w.db.payments) :
    ∃ r ∈ w.db.payments, r.id = r'.id ∧ plain cfg.keyring r = plain cfg.keyring r' := by
  obtain ⟨r, hr, hid, rfl | ⟨x, hx, hxid, hvalue⟩⟩ := mem_writeBatch hr'
  · exact ⟨r', hr, rfl, rfl⟩
  · have hsame : plain cfg.keyring r' = plain cfg.keyring x := by
      unfold plain
      rw [hvalue]
    exact ⟨r, hr, hid, (h p i rewrapped hstage x hx r hr (hid.trans hxid.symm)).trans hsame.symm⟩

theorem step_faithful (hstanding : Standing cfg w) (h : Faithful cfg w) (hquiet : Quiet cfg w e)
    (hstep : step cfg w e = some w') : Faithful cfg w' := by
  cases step_effect hstep with
  | create | resetStale => exact h.frame (fun _ _ _ hq => hq) fun r hr => ⟨r, hr, rfl, rfl⟩
  | store id =>
    intro q i rewrapped hq x hx r' hr' hid
    -- No execution is about to write the payment.
    have hother : x.id ≠ id := by
      intro heq
      have hfree := hquiet.2 q (hstanding.bounded q _ hq)
      rw [show w.workers q = _ from hq] at hfree
      have hholds : Stage.holds id (.write i rewrapped) :=
        List.any_eq_true.mpr ⟨x, hx, decide_eq_true heq⟩
      simp only [Option.all_some, hholds] at hfree
      cases hfree
    have hold : r' ∈ w.db.payments := by
      rcases mem_storeAmount hr' with hold | ⟨hstored, -⟩
      · exact hold
      · exact absurd (hid.symm.trans hstored) hother
    exact h q i rewrapped hq x hx r' hold hid
  | begin p a i => exact h.goes rfl fun j _ hs => (begin_ne _ i j 0 _).2 (Option.some.inj hs)
  | total p a i found => exact h.goes rfl fun j _ hs => (afterTotal_ne i j found 0 _).2 (Option.some.inj hs)
  | batch p a i hstage =>
    intro q j rewrapped hq x hx r hr hid
    rcases update_eq_some hq with ⟨-, hnew⟩ | ⟨-, hold⟩
    · obtain ⟨rfl, rfl⟩ := Stage.write.inj (Option.some.inj hnew)
      obtain ⟨taken, htaken, rfl⟩ := List.mem_map.mp hx
      obtain ⟨hmem, hunder⟩ := mem_batchOf htaken
      rw [rewrapPayment_id] at hid
      obtain rfl := eq_of_key hstanding.keyed hr hmem hid
      have hrewraps := of_decide_eq_true (List.all_eq_true.mp (quiet_stage hquiet hstage) r hr) hunder
      exact (rewrapPayment_spec hrewraps (a.iv r.id)).1.symm
    · exact h q j rewrapped hold x hx r hr hid
  | write p a i rewrapped hstage =>
    refine h.frame (fun q j items hq => ?_) fun r' hr' => h.written hstage hr'
    rcases update_eq_some hq with ⟨-, hnew⟩ | ⟨-, hold⟩
    · cases hnew
    · exact hold
  | fault =>
    refine h.goes rfl fun j rewrapped hs => ?_
    obtain ⟨i, permanent, -, -, heq⟩ := thrown_cases hs
    cases heq
  | _ => exact h.goes rfl nofun

theorem access_plain {a : Answer} (h : Faithful cfg w) (hstep : step cfg w (.access p a) = some w') {r : AmountRow}
    (hr : r ∈ w.db.payments) (hkeyed : (w.db.payments.map (·.id)).Nodup) :
    ∃ r' ∈ w'.db.payments, r'.id = r.id ∧ plain cfg.keyring r' = plain cfg.keyring r := by
  cases step_effect hstep with
  | write p a i rewrapped hstage =>
    have hids : r.id ∈ (writeBatch rewrapped w.db.payments).map (·.id) := by
      rw [writeBatch_ids]
      exact List.mem_map_of_mem hr
    obtain ⟨r', hr', hid⟩ := List.mem_map.mp hids
    obtain ⟨old, hold, hsame, hplain⟩ := h.written hstage hr'
    obtain rfl := eq_of_key hkeyed hold hr (hsame.trans hid)
    exact ⟨r', hr', hid, hplain.symm⟩
  | _ => exact ⟨r, hr, rfl, rfl⟩

end Faithful

/-! ## Completion -/

section Completion

variable {cfg : Config} {w w' : World} {i' : EncryptionKeyRewrapIntent}

theorem completed_of_update {intents : List EncryptionKeyRewrapIntent} {sel : EncryptionKeyRewrapIntent → Bool}
    {data : EncryptionKeyRewrapIntent → EncryptionKeyRewrapIntent}
    (hi' : i' ∈ Table.update sel data intents) (hdone : i'.status = .completed)
    (hdata : ∀ j, (data j).id = j.id ∧ ((data j).status = .completed → j.status = .completed)) :
    ∃ i ∈ intents, i.id = i'.id ∧ i.status = .completed := by
  obtain ⟨j, hj, ⟨-, rfl⟩ | ⟨-, rfl⟩⟩ := mem_update_cases hi'
  · obtain ⟨hid, hstatus⟩ := hdata j
    exact ⟨j, hj, hid.symm, hstatus hdone⟩
  · exact ⟨_, hj, rfl, hdone⟩

/-- An intent that is completed after a step was, or an execution has just completed it. -/
theorem completed_cases (hstep : step cfg w e = some w') (hi' : i' ∈ w'.db.intents) (hdone : i'.status = .completed) :
    (∃ i ∈ w.db.intents, i.id = i'.id ∧ i.status = .completed) ∨
      ∃ p i processed, w.workers p = some (.complete i processed) ∧ w'.db.payments = w.db.payments ∧
        ∃ j ∈ w.db.intents, j.id = i.id ∧ j.sourceKeyVersion = i'.sourceKeyVersion := by
  cases step_effect hstep with
  | create =>
    rcases mem_append_row.mp hi' with hold | rfl
    · exact .inl ⟨i', hold, rfl, hdone⟩
    · cases hdone
  | resetStale | claim | total => exact .inl (completed_of_update hi' hdone fun _ => ⟨rfl, nofun⟩)
  | progress => exact .inl (completed_of_update hi' hdone fun _ => ⟨rfl, id⟩)
  | complete p a i processed hstage =>
    obtain ⟨j, hj, ⟨hsel, rfl⟩ | ⟨-, rfl⟩⟩ := mem_update_cases hi'
    · exact .inr ⟨p, i, processed, hstage, rfl, j, hj, of_decide_eq_true hsel, rfl⟩
    · exact .inl ⟨_, hj, rfl, hdone⟩
  | fail p a i permanent =>
    refine .inl (completed_of_update hi' hdone fun j => ?_)
    cases permanent with
    | false | true => exact ⟨rfl, nofun⟩
  | _ => exact .inl ⟨i', hi', rfl, hdone⟩

end Completion

/-- In quiet runs an intent that becomes COMPLETED leaves no payment under its source version,
    and every access of an execution leaves what every payment opens to. -/
theorem completed_rewrap_complete {cfg : Config} {w w' : World} {payments : List AmountRow}
    (hkeyed : (payments.map (·.id)).Nodup) {e : Event}
    (hrun : Run (step cfg) (Quiet cfg) (World.start payments) w) (hquiet : Quiet cfg w e)
    (hstep : step cfg w e = some w') :
    (∀ i' ∈ w'.db.intents, i'.status = .completed → (∀ i ∈ w.db.intents, i.id = i'.id → i.status ≠ .completed) →
      ∀ r ∈ w'.db.payments, r.under i'.sourceKeyVersion = false) ∧
    ∀ p a, e = .access p a → ∀ r ∈ w.db.payments,
      ∃ r' ∈ w'.db.payments, r'.id = r.id ∧ plain cfg.keyring r' = plain cfg.keyring r := by
  obtain ⟨hsound, hfaithful⟩ : Sound cfg w ∧ Faithful cfg w := by
    have hstart : Sound cfg (World.start payments) ∧ Faithful cfg (World.start payments) :=
      ⟨start_sound cfg hkeyed, nofun⟩
    refine hrun.invariant (I := fun w => Sound cfg w ∧ Faithful cfg w) hstart fun a e b ⟨hs, hf⟩ hok hab => ?_
    exact ⟨step_sound hs hok hab, step_faithful hs.toStanding hf hok hab⟩
  refine ⟨fun i' hi' hdone hnew r hr => ?_, fun p a he r hr => ?_⟩
  · rcases completed_cases hstep hi' hdone with ⟨i, hi, hid, hbefore⟩ |
      ⟨p, i, processed, hstage, hpayments, j, hj, hid, hsource⟩
    · exact absurd hbefore (hnew i hi hid)
    · obtain ⟨hleft, -⟩ := hsound.running p _ i hstage rfl
      rw [← hsource, hsound.source_of_worker hstage rfl hj hid]
      rw [hpayments] at hr
      cases hunder : r.under i.sourceKeyVersion with
      | false => rfl
      | true =>
        have hmem : r.id ∈ underIds i.sourceKeyVersion w.db.payments := mem_underIds.mpr ⟨r, hr, hunder, rfl⟩
        rw [hleft] at hmem
        cases hmem
  · subst he
    exact access_plain hfaithful hstep hr hsound.keyed

/-! ## Traces -/

/-- A cipher whose tag is one zero byte, under the versions 0 and 1; one worker. -/
def demo : Config where
  keyring :=
    { gcm := plainGcm
      ring := fun v => if v ≤ 1 then some "0000000000000000000000000000000000000000000000000000000000000000" else none }
  workers := 1

def zeroIv : Nonce := .zero

def answerAt (now : Nat) : Answer := ⟨now, fun _ => zeroIv⟩

def firstRun (id : String) : List Event := .claim 0 id 0 :: List.replicate 4 (.access 0 (answerAt 0))

/-- The batch's write and progress; five minutes later the intent is given back, claimed and
    loaded again. -/
def secondRun (id : String) : List Event :=
  List.replicate 2 (.access 0 (answerAt 0)) ++ [.resetStale 300001, .claim 0 id 300001, .access 0 (answerAt 300001)]

/-- Some intent becomes COMPLETED in the step, with a payment left under its source version. -/
def leavesPayment (w w' : World) : Bool :=
  w'.db.intents.any fun i' => i'.status = .completed &&
    w.db.intents.all (fun i => i.id = i'.id → i.status ≠ .completed) && w'.db.payments.any (·.under i'.sourceKeyVersion)

/-- Two payments are rewrapped, and their intent completed. -/
theorem completed_rewrap_of_two : ∃ w w' : World, Run (step demo) (Quiet demo) (World.start []) w ∧
    step demo w (.access 0 (answerAt 300001)) = some w' ∧ w.db.payments.length = 2 ∧
    (∃ i' ∈ w'.db.intents, i'.status = .completed ∧ ∀ r ∈ w'.db.payments, r.under i'.sourceKeyVersion = false) ∧
    ∀ r ∈ w.db.payments, ∃ r' ∈ w'.db.payments, r'.id = r.id ∧ plain demo.keyring r' = plain demo.keyring r := by
  obtain ⟨w, hrun, hquiet, hlength, w', hstep, i', hi', hdone, hnew⟩ :
      ∃ w, Run (step demo) (Quiet demo) (World.start []) w ∧
      Quiet demo w (.access 0 (answerAt 300001)) ∧ w.db.payments.length = 2 ∧
        ∃ w' ∈ step demo w (.access 0 (answerAt 300001)), ∃ i' ∈ w'.db.intents, i'.status = .completed ∧
          ∀ i ∈ w.db.intents, i.id = i'.id → i.status ≠ .completed :=
    Run.exists_of_replay ([.store "p" 0 zeroIv "5", .store "q" 0 zeroIv "7", .create "r" 0 1] ++ firstRun "r" ++
      secondRun "r")
  have hkeyed : (([] : List AmountRow).map (·.id)).Nodup := List.nodup_nil
  obtain ⟨hcomplete, hplain⟩ := completed_rewrap_complete hkeyed hrun hquiet hstep
  exact ⟨w, w', hrun, hstep, hlength, ⟨i', hi', hdone, hcomplete i' hi' hdone hnew⟩, hplain 0 _ rfl⟩

/-- The tag of the payment does not verify: it is counted as processed, and left. -/
theorem corrupt_payment_left : ∃ w w' : World,
    Run (step demo) anyStep (World.start [⟨"p", some "enc:v0:AAAA:AAAA:AAAA"⟩]) w ∧
    step demo w (.access 0 (answerAt 300001)) = some w' ∧ leavesPayment w w' :=
  Run.exists_step_of_replay ([.create "r" 0 1] ++ firstRun "r" ++ secondRun "r") (.access 0 (answerAt 300001))

/-- A payment stored under the source version after the count is left. -/
theorem inserted_payment_left : ∃ w w' : World, Run (step demo) anyStep (World.start []) w ∧
    step demo w (.access 0 (answerAt 300001)) = some w' ∧ leavesPayment w w' :=
  Run.exists_step_of_replay
    ([.store "q" 0 zeroIv "5", .create "r" 0 1] ++ firstRun "r" ++ .store "p" 0 zeroIv "7" :: secondRun "r")
    (.access 0 (answerAt 300001))

/-- An amount stored between the read of its batch and the write is overwritten. -/
theorem replaced_amount_lost : ∃ w w' : World, Run (step demo) anyStep (World.start []) w ∧
    step demo w (.access 0 (answerAt 0)) = some w' ∧
    w.db.payments.map (plain demo.keyring) = [some "7"] ∧ w'.db.payments.map (plain demo.keyring) = [some "5"] :=
  Run.exists_step_of_replay ([.store "p" 0 zeroIv "5", .create "r" 0 1] ++ firstRun "r" ++ [.store "p" 1 zeroIv "7"])
    (.access 0 (answerAt 0))

end EarnProof.Encryption
