/-
  EarnProof.Encryption.RetirementSafety — what it means that a key version is reported as free
  (`Encryption.Retirement`): by SAFE_TO_RETIRE, by `canRetireKeyVersion` or by
  `guardKeyRetirement`.

  In runs whose steps are `Guarded` (`retirement_safe`), nothing is stored under a version when
  it is reported, and nothing is in any later state in which no process writes with it. Three
  facts about one step carry this: which versions it can bring in (`Brings`), which it counts
  as free (`Counts`), and that only a restart changes the versions of the processes.

  Traces, outside of those runs: the count looks at the payments' amounts alone, so a version
  is reported while a webhook's secret is sealed under it (`webhook_secret_left`), and while a
  proof holds the copy of an amount that has been rewrapped since (`threshold_copy_left`).
-/
import EarnProof.Encryption.Retirement
import EarnProof.Encryption.RewrapCompletion

namespace EarnProof.Encryption.Retirement

open Lib Common.Crypto List Option

variable (cfg : Config) (w : World)

/-! ## Guarded steps -/

def World.holds (version : Nat) : Bool :=
  w.payments.any (·.under version) || w.sealed.any (·.under version)

def World.active (version : Nat) : Bool :=
  (List.range cfg.processes).any fun p => w.writeVersion p = version

/-- The version an execution has counted as free and is about to report. -/
def Stage.clears : Stage → Option Nat
  | .safe i => some i.keyVersion
  | .load _ | .count _ | .guarded _ _ | .fail _ _ => none

/-- The versions that are reported as free, or about to be. -/
def World.vouched : List Nat :=
  w.reported ++ (List.range cfg.workers).filterMap fun p => (w.workers p).bind fun c => c.stage.clears

/-- Nothing outside of the payments' amounts is under a version the count finds free. -/
def World.countGuarded (version : Nat) : Bool :=
  countPaymentsWithKeyVersion version w.payments = 0 → w.sealed.all fun s => !s.under version

/-- A ciphertext may be stored: its version is not vouched for, or a process writes with it. -/
def World.storable (ciphertext : String) : Bool :=
  (w.vouched cfg).all fun v => isUnder v ciphertext → w.active cfg v

def World.stageGuarded : Stage → Bool
  | .count i => w.countGuarded i.keyVersion
  | .safe i => !w.active cfg i.keyVersion
  | .load _ | .guarded _ _ | .fail _ _ => true

def World.batchGuarded : Encryption.Stage → Bool
  | .write _ rewrapped => rewrapped.all fun x => x.amountEncrypted.all (w.storable cfg)
  | _ => true

/-- A version is counted only while no other column holds it, and set SAFE_TO_RETIRE only while
    no process writes with it; a batch or a copy under a version that is vouched for is stored
    only while a process writes with it; and the last process that writes with such a version
    leaves it only while nothing is stored under it. -/
def Guarded : Event → Prop
  | .access p _ => (w.workers p).all (fun c => w.stageGuarded cfg c.stage)
  | .canRetire v | .guardRetirement v => w.countGuarded v
  | .rewrap (.access p _) => (w.rewrap.workers p).all (w.batchGuarded cfg)
  | .issue copy _ => w.storable cfg copy.ciphertext
  | .configure p version =>
    w.writeVersion p ∈ w.vouched cfg →
      (∃ q < cfg.processes, Function.update w.writeVersion p version q = w.writeVersion p) ∨
        w.holds (w.writeVersion p) = false
  | _ => True

instance (e : Event) : Decidable (Guarded cfg w e) := by
  unfold Guarded
  split <;> infer_instance

variable {v version : Nat} {c : Cycle} {column : Column} {row text : String} {store : List Sealed} {s : Sealed}
  {k : PaymentEncryptionKeyring} {iv : Nonce} {e : Event}

section Facts

variable {cfg : Config} {w w' : World}

theorem holds_iff : w.holds v ↔ (∃ r ∈ w.payments, r.under v) ∨ ∃ s ∈ w.sealed, s.under v := by
  simp only [World.holds, Bool.or_eq_true, List.any_eq_true]

theorem active_iff : w.active cfg v ↔ ∃ p < cfg.processes, w.writeVersion p = v := by
  simp only [World.active, List.any_eq_true, List.mem_range, decide_eq_true_eq]

theorem active_congr (h : w'.writeVersion = w.writeVersion) (v : Nat) : w'.active cfg v = w.active cfg v := by
  unfold World.active
  rw [h]

theorem mem_vouched : v ∈ w.vouched cfg ↔
      v ∈ w.reported ∨ ∃ p < cfg.workers, ∃ c, w.workers p = some c ∧ c.stage.clears = some v := by
  simp only [World.vouched, mem_append, mem_filterMap, mem_range, bind_eq_some_iff]

/-- A version that is counted as free, with no other column under it, is free. -/
theorem free_of_count (hguard : w.countGuarded v) (hcount : countPaymentsWithKeyVersion v w.payments = 0) :
    w.holds v = false := by
  have hsealed := of_decide_eq_true hguard hcount
  rw [Bool.eq_false_iff, Ne, holds_iff]
  rintro (⟨r, hr, hunder⟩ | ⟨s, hs, hunder⟩)
  · exact countP_eq_zero.mp hcount r hr hunder
  · have hout := all_eq_true.mp hsealed s hs
    rw [hunder] at hout
    cases hout

variable {ciphertext : String} {p now : Nat} {store' : List Sealed}

theorem guarded_stage (h : Guarded cfg w (.access p now)) (hc : w.workers p = some c) :
    w.stageGuarded cfg c.stage := by
  have hall : (w.workers p).all (fun c => w.stageGuarded cfg c.stage) := h
  rw [hc] at hall
  exact hall

/-! ## What is written -/

theorem mem_put (h : s ∈ put column row ciphertext store) : s ∈ store ∨ s.ciphertext = ciphertext := by
  rcases Table.mem_append_row.mp h with hold | rfl
  · exact .inl (mem_filter.mp hold).1
  · exact .inr rfl

/-- What is sealed anew is under the version of the process. -/
theorem sealed_under
    (hvalue : k.encryptProtectedAmount iv version text = some ciphertext) (hs : s ∈ put column row ciphertext store)
    (hunder : s.under v) : s ∈ store ∨ v = version := by
  rcases mem_put hs with hold | hnew
  · exact .inl hold
  · unfold Sealed.under at hunder
    rw [hnew, PaymentEncryptionKeyring.isUnder_encryptProtectedAmount hvalue] at hunder
    exact .inr (of_decide_eq_true hunder)

theorem run_under {op : SecretOperation} (h : op.run k version iv row text store = some store')
    (hs : s ∈ store') (hunder : s.under v) : s ∈ store ∨ v = version := by
  cases op with
  | rotateWebhook =>
    change updateSealed k version iv row text store _ = _ at h
    unfold updateSealed at h
    split at h
    · obtain ⟨ciphertext, hvalue, rfl⟩ := map_eq_some_iff.mp h
      exact sealed_under hvalue hs hunder
    · cases h
  | _ =>
    change createSealed k version iv row text store _ = _ at h
    unfold createSealed at h
    split at h
    · cases h
    · obtain ⟨ciphertext, hvalue, rfl⟩ := map_eq_some_iff.mp h
      exact sealed_under hvalue hs hunder

theorem putMemo_under {memo : NormalizedMemo}
    (hs : s ∈ putMemo row ((encodeStoredMemo k version iv memo).getD .none) store)
    (hunder : s.under v) : s ∈ store ∨ v = version := by
  cases hstored : (encodeStoredMemo k version iv memo).getD .none with
  | none =>
    rw [hstored] at hs
    exact .inl (mem_filter.mp hs).1
  | sealed =>
    rw [hstored] at hs
    cases memo with
    | none => cases hstored
    | value memoType value =>
      simp only [encodeStoredMemo] at hstored
      cases hvalue : k.encryptProtectedAmount iv version (boundPlaintext memoType value) with
      | none =>
        rw [hvalue] at hstored
        cases hstored
      | some =>
        rw [hvalue] at hstored
        simp only [map_some, getD_some] at hstored
        split at hstored
        · cases hstored
        · obtain ⟨rfl, rfl⟩ := StoredMemo.sealed.inj hstored
          exact sealed_under hvalue hs hunder

theorem storeSynced_under {id : String} {replaced : Bool} {amount : String} {payments payments' : List AmountRow}
    (h : storeSynced k version id replaced iv amount payments = some payments') {r : AmountRow} (hr : r ∈ payments')
    (hunder : r.under v) : r ∈ payments ∨ v = version := by
  unfold storeSynced at h
  split at h
  · cases h
    exact .inl hr
  · obtain ⟨value, hvalue, rfl⟩ := map_eq_some_iff.mp h
    rcases mem_storeAmount hr with hold | ⟨-, hamount⟩
    · exact .inl hold
    · unfold AmountRow.under at hunder
      rw [hamount, any_some, PaymentEncryptionKeyring.isUnder_encryptProtectedAmount hvalue] at hunder
      exact .inr (of_decide_eq_true hunder)

/-! ## One step -/

/-- The system after a step, apart from what the step reports. -/
inductive Effect (cfg : Config) (w : World) : Event → World → Prop
  | intents e intents : Effect cfg w e { w with intents }
  | worker e p intents cycle (hclears : ∀ c, cycle = some c → c.stage.clears = none) :
    Effect cfg w e ({ w with intents }.withWorker p cycle)
  | counted p now c i (hc : w.workers p = some c) (hstage : c.stage = .count i)
      (hcount : countPaymentsWithKeyVersion i.keyVersion w.payments = 0) :
    Effect cfg w (.access p now) (w.withWorker p (some { c with stage := .safe i }))
  | rewrap e rewrap (hstep : Encryption.step cfg.rewrap w.rewrap e = some rewrap)
      (hstore : ∀ id version iv amount, e ≠ .store id version iv amount) :
    Effect cfg w (.rewrap e) { w with rewrap }
  | backfill p id iv amount payments (hp : p < cfg.processes)
      (hpayments : storeSynced cfg.rewrap.keyring (w.writeVersion p) id false iv amount w.payments = some payments) :
    Effect cfg w (.backfill p id iv amount) (w.withPayments payments)
  | sync p id replaced iv amount memoIv memo payments (hp : p < cfg.processes)
      (hpayments : storeSynced cfg.rewrap.keyring (w.writeVersion p) id replaced iv amount w.payments = some payments) :
    Effect cfg w (.sync p id replaced iv amount memoIv memo)
      { w.withPayments payments with
        sealed := putMemo id ((encodeStoredMemo cfg.rewrap.keyring (w.writeVersion p) memoIv memo).getD .none)
          w.sealed }
  | secret p op row iv text store (hp : p < cfg.processes)
      (hrun : op.run cfg.rewrap.keyring (w.writeVersion p) iv row text w.sealed = some store) :
    Effect cfg w (.secret p op row iv text) { w with sealed := store }
  | remove column row : Effect cfg w (.remove column row) { w with sealed := clear column row w.sealed }
  | read e copies : Effect cfg w e { w with copies }
  | issue copy row copies :
    Effect cfg w (.issue copy row) { w with sealed := put .threshold row copy.ciphertext w.sealed, copies }
  | configure p version copies :
    Effect cfg w (.configure p version) { w with writeVersion := Function.update w.writeVersion p version, copies }

theorem next_clears (ids : List String) : ∀ c, Cycle.next ids = some c → c.stage.clears = none := by
  intro c hc
  cases ids with
  | nil => cases hc
  | cons =>
    cases hc
    rfl

theorem access_effect (hc : w.workers p = some c) : Effect cfg w (.access p now)
      ({ w with intents := (c.stage.access now w.payments w.intents).1 }.withWorker p
        (match (c.stage.access now w.payments w.intents).2 with
        | some stage => some { c with stage }
        | none => Cycle.next c.rest)) := by
  cases hstage : c.stage with
  | load id =>
    simp only [Stage.access]
    split
    · exact .worker _ p _ _ (next_clears c.rest)
    · refine .worker _ p _ _ fun c' hc' => ?_
      split at hc'
      · rename_i stage heq
        cases hc'
        split at heq
        · cases heq
        · cases heq
          rfl
      · exact next_clears c.rest c' hc'
  | count i =>
    simp only [Stage.access]
    split
    · rename_i hcount
      exact .counted p now c i hc hstage hcount
    · refine .worker _ p _ _ fun c' hc' => ?_
      cases hc'
      rfl
  | _ => exact .worker _ p _ _ (next_clears c.rest)

theorem advance_effect (h : advance cfg w e = some w') : Effect cfg w e w' := by
  cases e with
  | create =>
    obtain ⟨-, rfl⟩ := enabled h
    exact .intents _ _
  | claim p ids =>
    obtain ⟨-, rfl⟩ := enabled h
    exact .worker _ p _ _ (next_clears ids)
  | access =>
    simp only [advance, ite_none_right_eq_some] at h
    obtain ⟨c, hc, rfl⟩ := map_eq_some_iff.mp h.2
    exact access_effect hc
  | fault p =>
    obtain ⟨c, hc, rfl⟩ := map_eq_some_iff.mp h
    refine .worker _ p w.intents _ fun c' hc' => ?_
    obtain ⟨stage, hstage, rfl⟩ := map_eq_some_iff.mp hc'
    cases hat : c.stage with
    | load | fail =>
      rw [hat] at hstage
      cases hstage
    | _ =>
      rw [hat] at hstage
      cases hstage
      rfl
  | crash p =>
    cases h
    exact .worker _ p w.intents none nofun
  | rewrap e =>
    cases e with
    | store => cases h
    | _ =>
      simp only [advance] at h
      obtain ⟨rewrap, hstep, rfl⟩ := map_eq_some_iff.mp h
      exact .rewrap _ rewrap hstep nofun
  | backfill p id iv amount =>
    simp only [advance, ite_none_right_eq_some] at h
    obtain ⟨payments, hpayments, rfl⟩ := map_eq_some_iff.mp h.2
    exact .backfill p id iv amount payments h.1 hpayments
  | sync p id replaced iv amount memoIv memo =>
    simp only [advance, ite_none_right_eq_some] at h
    obtain ⟨payments, hpayments, rfl⟩ := map_eq_some_iff.mp h.2
    exact .sync p id replaced iv amount memoIv memo payments h.1 hpayments
  | secret p op row iv text =>
    simp only [advance, ite_none_right_eq_some] at h
    obtain ⟨store, hrun, rfl⟩ := map_eq_some_iff.mp h.2
    exact .secret p op row iv text store h.1 hrun
  | remove column row =>
    obtain ⟨-, rfl⟩ := enabled h
    exact .remove column row
  | readAmount =>
    obtain ⟨value, -, rfl⟩ := map_eq_some_iff.mp h
    exact .read _ _
  | readThreshold =>
    obtain ⟨s, -, rfl⟩ := map_eq_some_iff.mp h
    exact .read _ _
  | issue copy row =>
    obtain ⟨-, rfl⟩ := enabled h
    exact .issue copy row _
  | configure p version =>
    cases h
    exact .configure p version _
  | _ =>
    cases h
    exact .intents _ _

/-- The versions a step can bring into the store. -/
def World.Brings (cfg : Config) (w : World) (v : Nat) : Event → Prop
  | .backfill p .. | .sync p .. | .secret p .. => p < cfg.processes ∧ v = w.writeVersion p
  | .rewrap (.access p _) =>
    ∃ i rewrapped, w.rewrap.workers p = some (.write i rewrapped) ∧ ∃ x ∈ rewrapped, x.under v
  | .issue copy _ => isUnder v copy.ciphertext
  | _ => False

/-- The versions a step counts as free. -/
def World.Counts (w : World) (v : Nat) : Event → Prop
  | .access p _ => ∃ c i, w.workers p = some c ∧ c.stage = .count i ∧ v = i.keyVersion ∧
      countPaymentsWithKeyVersion v w.payments = 0
  | .canRetire u | .guardRetirement u => v = u ∧ countPaymentsWithKeyVersion v w.payments = 0
  | _ => False

theorem holds_or {P : Prop} (h : w'.holds v)
    (hpayments : ∀ r ∈ w'.payments, r.under v → r ∈ w.payments ∨ P)
    (hsealed : ∀ s ∈ w'.sealed, s.under v → s ∈ w.sealed ∨ P) : w.holds v ∨ P := by
  rcases holds_iff.mp h with ⟨r, hr, hunder⟩ | ⟨s, hs, hunder⟩
  · exact (hpayments r hr hunder).imp_left fun hmem => holds_iff.mpr (.inl ⟨r, hmem, hunder⟩)
  · exact (hsealed s hs hunder).imp_left fun hmem => holds_iff.mpr (.inr ⟨s, hmem, hunder⟩)

/-- What is stored after a step was stored before it, or the step can bring it in. -/
theorem holds_of_effect (heffect : Effect cfg w e w') (h : w'.holds v) : w.holds v ∨ w.Brings cfg v e := by
  cases heffect with
  | rewrap e rewrap hstep hstore =>
    refine holds_or h (fun r hr hunder => ?_) fun s hs _ => .inl hs
    cases Encryption.step_effect hstep with
    | write p a i rewrapped hstage =>
      obtain ⟨old, hmem, -, rfl | ⟨x, hx, -, hvalue⟩⟩ := mem_writeBatch hr
      · exact .inl hmem
      · refine .inr ⟨i, rewrapped, hstage, x, hx, ?_⟩
        unfold AmountRow.under at hunder ⊢
        rw [← hvalue]
        exact hunder
    | store id version iv amount => exact absurd rfl (hstore id version iv amount)
    | _ => exact .inl hr
  | backfill p id iv amount payments hp hpayments =>
    refine holds_or h (fun r hr hunder => ?_) fun s hs _ => .inl hs
    exact (storeSynced_under hpayments hr hunder).imp_right fun heq => ⟨hp, heq⟩
  | sync p id replaced iv amount memoIv memo payments hp hpayments =>
    refine holds_or h (fun r hr hunder => ?_) fun s hs hunder => ?_
    · exact (storeSynced_under hpayments hr hunder).imp_right fun heq => ⟨hp, heq⟩
    · exact (putMemo_under hs hunder).imp_right fun heq => ⟨hp, heq⟩
  | secret p op row iv text store hp hrun =>
    refine holds_or h (fun r hr _ => .inl hr) fun s hs hunder => ?_
    exact (run_under hrun hs hunder).imp_right fun heq => ⟨hp, heq⟩
  | remove => exact holds_or h (fun r hr _ => .inl hr) fun s hs _ => .inl (mem_filter.mp hs).1
  | issue =>
    refine holds_or h (fun r hr _ => .inl hr) fun s hs hunder => ?_
    refine (mem_put hs).imp_right fun heq => ?_
    unfold Sealed.under at hunder
    rw [heq] at hunder
    exact hunder
  | _ => exact .inl h

/-- Only a restart changes the version of a process. -/
theorem writeVersion_of_effect (heffect : Effect cfg w e w') : w'.writeVersion = w.writeVersion ∨
      ∃ p version, e = .configure p version ∧ w'.writeVersion = Function.update w.writeVersion p version := by
  cases heffect with
  | configure p version => exact .inr ⟨p, version, rfl, rfl⟩
  | _ => exact .inl rfl

/-- An execution that is about to report a version after a step was before it, or the step is
    its count. -/
theorem clears_of_effect {q : Nat} (heffect : Effect cfg w e w') (hc : w'.workers q = some c)
    (hclears : c.stage.clears = some v) : w.workers q = some c ∨ w.Counts v e := by
  cases heffect with
  | worker _ p intents cycle hnone =>
    by_cases hq : q = p
    · subst hq
      have hnew : cycle = some c := by simpa [World.withWorker] using hc
      rw [hnone c hnew] at hclears
      cases hclears
    · exact .inl (by simpa [World.withWorker, Function.update_of_ne hq] using hc)
  | counted p now old i hold hstage hcount =>
    by_cases hq : q = p
    · subst hq
      have hnew : { old with stage := Stage.safe i } = c := by simpa [World.withWorker] using hc
      subst hnew
      cases hclears
      exact .inr ⟨old, i, hold, hstage, rfl, hcount⟩
    · exact .inl (by simpa [World.withWorker, Function.update_of_ne hq] using hc)
  | _ => exact .inl hc

/-- A step reports a version an execution has counted as free, or one it counts itself. -/
theorem report_cases (h : w.report e = some v) :
    (∃ p now c i, e = .access p now ∧ w.workers p = some c ∧ c.stage = .safe i ∧ v = i.keyVersion) ∨ w.Counts v e := by
  cases e with
  | access p now =>
    simp only [World.report] at h
    split at h
    · rename_i i hstage
      obtain ⟨c, hc, hsafe⟩ := map_eq_some_iff.mp hstage
      exact .inl ⟨p, now, c, i, rfl, hc, hsafe, (some.inj h).symm⟩
    · cases h
  | canRetire =>
    simp only [World.report, ite_none_right_eq_some, Option.some.injEq] at h
    obtain ⟨hcount, rfl⟩ := h
    exact .inr ⟨rfl, of_decide_eq_true hcount⟩
  | guardRetirement u =>
    simp only [World.report, guardKeyRetirement] at h
    split at h
    · rename_i hok
      cases h
      split at hok
      · cases hok
      · exact .inr ⟨rfl, by omega⟩
    · cases h
  | _ => cases h

/-! ## The invariant -/

def Cleared (cfg : Config) (w : World) : Prop := ∀ v ∈ w.vouched cfg, w.active cfg v ∨ w.holds v = false

/-- A guarded step brings in a version that is vouched for only while a process writes with it. -/
theorem active_of_brings (hguard : Guarded cfg w e) (hv : v ∈ w.vouched cfg) (h : w.Brings cfg v e) :
    w.active cfg v := by
  cases e with
  | backfill | sync | secret =>
    obtain ⟨hp, rfl⟩ := h
    exact active_iff.mpr ⟨_, hp, rfl⟩
  | issue => exact of_decide_eq_true (all_eq_true.mp hguard v hv) h
  | rewrap e =>
    cases e with
    | access p =>
      obtain ⟨i, rewrapped, hstage, x, hx, hunder⟩ := h
      have hbatch : (w.rewrap.workers p).all (w.batchGuarded cfg) := hguard
      rw [hstage] at hbatch
      have hrow := all_eq_true.mp hbatch x hx
      obtain ⟨ciphertext, hvalue, hisUnder⟩ := (any_eq_true _ _).mp hunder
      rw [hvalue] at hrow
      exact of_decide_eq_true (all_eq_true.mp hrow v hv) hisUnder
    | _ => cases h
  | _ => cases h

/-- A guarded count finds a version free that is, and leaves the store alone. -/
theorem free_of_counts (hguard : Guarded cfg w e) (h : w.Counts v e) :
    w.holds v = false ∧ ∀ u, ¬w.Brings cfg u e := by
  cases e with
  | access =>
    obtain ⟨c, i, hc, hstage, rfl, hcount⟩ := h
    have hcountGuarded := guarded_stage hguard hc
    rw [hstage] at hcountGuarded
    exact ⟨free_of_count hcountGuarded hcount, fun _ hbrings => hbrings⟩
  | canRetire | guardRetirement =>
    obtain ⟨rfl, hcount⟩ := h
    exact ⟨free_of_count hguard hcount, fun _ hbrings => hbrings⟩
  | _ => cases h

/-- A version that is free, and that the step does not bring in, stays free. -/
theorem free_of_effect (heffect : Effect cfg w e w') (hfree : w.holds v = false)
    (hbrings : ¬w.Brings cfg v e) : w'.holds v = false := by
  rw [Bool.eq_false_iff]
  intro hholds
  rcases holds_of_effect heffect hholds with hbefore | hnew
  · rw [hfree] at hbefore
    cases hbefore
  · exact hbrings hnew

/-- One step, on a version that was vouched for. -/
theorem cleared_of_effect (h : Cleared cfg w) (hguard : Guarded cfg w e) (heffect : Effect cfg w e w')
    (hv : v ∈ w.vouched cfg) : w'.active cfg v ∨ w'.holds v = false := by
  by_cases hbrings : w.Brings cfg v e
  · -- What the step brings in is written with by a process, before it and after it.
    rcases writeVersion_of_effect heffect with hsame | ⟨p, version, rfl, -⟩
    · exact .inl ((active_congr hsame v).trans (active_of_brings hguard hv hbrings))
    · cases hbrings
  · rcases h v hv with hactive | hfree
    · rcases writeVersion_of_effect heffect with hsame | ⟨p, version, rfl, hupdate⟩
      · exact .inl ((active_congr hsame v).trans hactive)
      · obtain ⟨q, hq, rfl⟩ := active_iff.mp hactive
        by_cases hother : w.writeVersion q = w.writeVersion p
        · -- The version the process leaves.
          rw [hother] at hv hbrings ⊢
          rcases hguard hv with ⟨r, hr, hstill⟩ | hfree
          · refine .inl (active_iff.mpr ⟨r, hr, ?_⟩)
            rw [hupdate]
            exact hstill
          · exact .inr (free_of_effect heffect hfree hbrings)
        · refine .inl (active_iff.mpr ⟨q, hq, ?_⟩)
          have hne : q ≠ p := fun heq => hother (congrArg w.writeVersion heq)
          rw [hupdate, Function.update_of_ne hne]
    · exact .inr (free_of_effect heffect hfree hbrings)

/-- An execution that is about to report vouches for its version. -/
theorem vouched_of_safe {i : EncryptionKeyRetirementIntent}
    (h : advance cfg w (.access p now) = some w') (hc : w.workers p = some c) (hstage : c.stage = .safe i) :
    i.keyVersion ∈ w.vouched cfg := by
  have hp : p < cfg.workers := by
    simp only [advance, ite_none_right_eq_some] at h
    exact h.1
  refine mem_vouched.mpr (.inr ⟨p, hp, c, hc, ?_⟩)
  rw [hstage]
  rfl

theorem step_cleared (h : Cleared cfg w) (hguard : Guarded cfg w e) (hstep : step cfg w e = some w') :
    Cleared cfg w' := by
  obtain ⟨u, hu, rfl⟩ := map_eq_some_iff.mp hstep
  have heffect := advance_effect hu
  intro v hv
  show u.active cfg v ∨ u.holds v = false
  have hcounted : w.Counts v e → u.active cfg v ∨ u.holds v = false := by
    intro hcounts
    obtain ⟨hfree, hbrings⟩ := free_of_counts hguard hcounts
    exact .inr (free_of_effect heffect hfree (hbrings v))
  rcases mem_vouched.mp hv with hreported | ⟨q, hq, c, hc, hclears⟩
  · rcases mem_append.mp hreported with hbefore | hnew
    · exact cleared_of_effect h hguard heffect (mem_vouched.mpr (.inl hbefore))
    · rcases report_cases (mem_toList.mp hnew) with ⟨p, now, c, i, rfl, hc, hstage, rfl⟩ | hcounts
      · exact cleared_of_effect h hguard heffect (vouched_of_safe hu hc hstage)
      · exact hcounted hcounts
  · rcases clears_of_effect heffect hc hclears with hbefore | hcounts
    · exact cleared_of_effect h hguard heffect (mem_vouched.mpr (.inr ⟨q, hq, c, hbefore, hclears⟩))
    · exact hcounted hcounts

/-- Nothing is stored under a version when a guarded step reports it. -/
theorem report_free (h : Cleared cfg w) (hguard : Guarded cfg w e) (hstep : step cfg w e = some w')
    (hreport : w.report e = some v) : w'.holds v = false := by
  obtain ⟨u, hu, rfl⟩ := map_eq_some_iff.mp hstep
  have heffect := advance_effect hu
  show u.holds v = false
  rcases report_cases hreport with ⟨p, now, c, i, rfl, hc, hstage, rfl⟩ | hcounts
  · have hidle := guarded_stage hguard hc
    rw [hstage] at hidle
    have hfree : w.holds i.keyVersion = false := by
      rcases h i.keyVersion (vouched_of_safe hu hc hstage) with hactive | hfree
      · simp only [World.stageGuarded, hactive] at hidle
        cases hidle
      · exact hfree
    exact free_of_effect heffect hfree fun hbrings => hbrings
  · obtain ⟨hfree, hbrings⟩ := free_of_counts hguard hcounts
    exact free_of_effect heffect hfree (hbrings v)

end Facts

/-- In guarded runs nothing is stored under a version when it is reported as free, and nothing
    is in any later state in which no process writes with it. -/
theorem retirement_safe {cfg : Config} {payments : List AmountRow} {store : List Sealed}
    {versions : Nat → Nat} {w : World} (hrun : Run (step cfg) (Guarded cfg) (World.start payments store versions) w) :
    (∀ v ∈ w.reported, w.active cfg v = false → w.holds v = false) ∧
      ∀ e w' v, Guarded cfg w e → step cfg w e = some w' → w.report e = some v → w'.holds v = false := by
  have hcleared : Cleared cfg w := by
    refine hrun.invariant (I := Cleared cfg) (fun v hv => ?_) fun a e b ha hok hab => step_cleared ha hok hab
    rcases mem_vouched.mp hv with hreported | ⟨p, -, c, hc, -⟩
    · cases hreported
    · cases hc
  refine ⟨fun v hv hidle => ?_, fun e w' v hguard hstep hreport => report_free hcleared hguard hstep hreport⟩
  rcases hcleared v (mem_vouched.mpr (.inl hv)) with hactive | hfree
  · rw [hidle] at hactive
    cases hactive
  · exact hfree

/-! ## Traces -/

def oneProcess : Config := ⟨demo, 1, 1⟩

def retireZero : List Event := [.create "i" 0, .claim 0 ["i"] 0, .access 0 0, .access 0 0]

/-- A rewrap from 0 to 1, up to the progress of its first batch. -/
def rewrapZero : List Event :=
  .rewrap (.create "r" 0 1) :: (firstRun "r" ++ List.replicate 2 (Encryption.Event.access 0 (answerAt 0))).map .rewrap

/-- A payment is rewrapped from 0 to 1, a webhook is created under 1, and 0 is set
    SAFE_TO_RETIRE. -/
theorem retirement_safe_of_rewrapped : ∃ w w' : World,
    Run (step oneProcess) (Guarded oneProcess) (World.start [] [] fun _ => 0) w ∧
    step oneProcess w (.access 0 0) = some w' ∧ w.report (.access 0 0) = some 0 ∧
    w'.payments.length = 1 ∧ w'.sealed.length = 1 ∧ w'.holds 0 = false := by
  obtain ⟨w, hrun, hguard, hreport, w', hstep, hpayments, hsealed⟩ :
      ∃ w, Run (step oneProcess) (Guarded oneProcess) (World.start [] [] fun _ => 0) w ∧
      Guarded oneProcess w (.access 0 0) ∧ w.report (.access 0 0) = some 0 ∧
        ∃ w' ∈ step oneProcess w (.access 0 0), w'.payments.length = 1 ∧ w'.sealed.length = 1 :=
    Run.exists_of_replay
      ([.backfill 0 "p" zeroIv "5", .configure 0 1, .secret 0 .createWebhook "hook" zeroIv "secret"] ++
        rewrapZero ++ retireZero)
  exact ⟨w, w', hrun, hstep, hreport, hpayments, hsealed, (retirement_safe hrun).2 _ _ _ hguard hstep hreport⟩

/-- The secret of a webhook is sealed under 0, and 0 is reported: by both checks and by
    SAFE_TO_RETIRE. -/
theorem webhook_secret_left : ∃ w w' : World, Run (step oneProcess) anyStep (World.start [] [] fun _ => 0) w ∧
    step oneProcess w (.access 0 0) = some w' ∧ w.report (.access 0 0) = some 0 ∧ w.report (.canRetire 0) = some 0 ∧
    w.report (.guardRetirement 0) = some 0 ∧ w'.active oneProcess 0 = false ∧ w'.holds 0 :=
  Run.exists_step_of_replay ([.secret 0 .createWebhook "hook" zeroIv "secret", .configure 0 1] ++ retireZero)
    (.access 0 0)

/-- A proof holds the amount of a payment as it was before the rewrap, and 0 is reported. -/
theorem threshold_copy_left : ∃ w w' : World, Run (step oneProcess) anyStep (World.start [] [] fun _ => 0) w ∧
    step oneProcess w (.access 0 0) = some w' ∧ w.report (.access 0 0) = some 0 ∧ w'.active oneProcess 0 = false ∧
    w'.payments.any (·.under 0) = false ∧ w'.holds 0 :=
  Run.exists_step_of_replay ([.backfill 0 "p" zeroIv "5", .readAmount 0 "p",
    .issue ⟨0, "enc:v0:AAAAAAAAAAAAAAAA:AA:NQ"⟩ "claim", .configure 0 1] ++ rewrapZero ++ retireZero)
    (.access 0 0)

end EarnProof.Encryption.Retirement
