/-
  EarnProof.Encryption.Rewrap — `src/jobs/encryption/payment-encryption-rewrap.service.ts` and
  its worker: intents that move the payments' amounts from one key version to another, a batch
  at a time.

  An execution of an intent is where it is in the code, with the intent as it read it; every
  access of the database is one step, so any number of workers, the syncs and backfills that
  store amounts, faults and crashes interleave between any two of them. A worker claims an
  intent by setting PROCESSING; one that has been PROCESSING for five minutes is given back,
  whether or not its worker still runs, so two executions of one intent can overlap.

  Times are milliseconds. The claim takes the oldest intent no other claim has locked; here it
  takes any that is due. The redacted error text and the dates of a row are read by nothing.

  What one step can do is said once (`step_effect`), and what its writes do to the payments that
  are left under a version (`underIds`) and to the amounts they open to (`plain`).
-/
import EarnProof.Common.Crypto
import EarnProof.Lib.Pages
import EarnProof.Lib.Run
import EarnProof.Lib.Table
import Mathlib.Data.String.Basic
import Mathlib.Logic.Function.Basic

namespace EarnProof.Encryption

open Lib Lib.Table Common.Crypto List Option

/-! ## Rows -/

inductive EncryptionKeyRewrapStatus where
  | pending | processing | completed | failed
  deriving DecidableEq

structure EncryptionKeyRewrapIntent where
  id : String
  sourceKeyVersion : Nat
  targetKeyVersion : Nat
  status : EncryptionKeyRewrapStatus := .pending
  processedCount : Nat := 0
  totalCount : Option Nat := none
  lastProcessedPaymentId : Option String := none
  attemptCount : Nat := 0
  lastAttemptAt : Option Nat := none
  nextRetryAt : Option Nat := none
  permanentError : Bool := false
  deriving DecidableEq

structure AmountRow where
  id : String
  amountEncrypted : Option String
  deriving DecidableEq

/-- `amountEncrypted: { startsWith: "enc:v<version>:" }`. -/
def AmountRow.under (version : Nat) (r : AmountRow) : Bool := r.amountEncrypted.any (isUnder version)

def countPaymentsWithKeyVersion (version : Nat) (payments : List AmountRow) : Nat := payments.countP (·.under version)

structure Config where
  keyring : PaymentEncryptionKeyring
  workers : Nat

/-! ## The batch -/

def BATCH_SIZE : Nat := 100

/-- The cursor of an intent. An empty text is none. -/
def EncryptionKeyRewrapIntent.cursor (i : EncryptionKeyRewrapIntent) : Option String :=
  i.lastProcessedPaymentId.filter (· ≠ "")

def batchOf (i : EncryptionKeyRewrapIntent) (payments : List AmountRow) : List AmountRow :=
  Pages.page AmountRow.id BATCH_SIZE (payments.filter (·.under i.sourceKeyVersion)) i.cursor

variable (k : PaymentEncryptionKeyring)

/-- The loop body: decrypt and encrypt again. A payment that cannot be is logged, and written
    back as it was. -/
def rewrapPayment (iv : Nonce) (targetKeyVersion : Nat) (r : AmountRow) : AmountRow :=
  match r.amountEncrypted.filter (· ≠ "") with
  | none => r
  | some value =>
    match (k.decrypt value).bind (k.encryptProtectedAmount iv targetKeyVersion) with
    | none => r
    | some rewrapped => { r with amountEncrypted := some rewrapped }

/-- The transaction: an update by id for each payment. -/
def writeBatch (rewrapped payments : List AmountRow) : List AmountRow :=
  rewrapped.foldl
    (fun payments x => Table.update (fun r => r.id = x.id)
      (fun r => { r with amountEncrypted := x.amountEncrypted }) payments)
    payments

/-! ## Intents -/

def MAX_ATTEMPTS : Nat := 10
def BACKOFF_BASE_MS : Nat := 30000
def BACKOFF_CAP_MS : Nat := 60 * 60000
def STALE_PROCESSING_THRESHOLD_MS : Nat := 5 * 60000

def computeNextRetryAt (now attemptCount : Nat) : Nat :=
  now + min (BACKOFF_BASE_MS * 2 ^ (attemptCount - 1)) BACKOFF_CAP_MS

namespace EncryptionKeyRewrapIntent

def newIntent (id : String) (sourceKeyVersion targetKeyVersion : Nat) : EncryptionKeyRewrapIntent :=
  { id, sourceKeyVersion, targetKeyVersion }

def counted (total now : Nat) (i : EncryptionKeyRewrapIntent) : EncryptionKeyRewrapIntent :=
  { i with totalCount := some total, status := .processing, lastAttemptAt := some now }

/-- The update to COMPLETED; where the batch was empty it writes the count again. -/
def complete (processed : Option Nat) (now : Nat) (i : EncryptionKeyRewrapIntent) : EncryptionKeyRewrapIntent :=
  { i with
    status := .completed, processedCount := processed.getD i.processedCount, lastAttemptAt := some now
    permanentError := false }

def progress (processed : Nat) (last : Option String) (now : Nat) (i : EncryptionKeyRewrapIntent) :
    EncryptionKeyRewrapIntent :=
  { i with
    processedCount := processed, lastProcessedPaymentId := last, lastAttemptAt := some now, nextRetryAt := none
    permanentError := false }

/-- The update of the `catch`. -/
def fail (permanent : Bool) (attemptCount now : Nat) (i : EncryptionKeyRewrapIntent) : EncryptionKeyRewrapIntent :=
  if permanent then
    { i with
      status := .failed, attemptCount, lastAttemptAt := some now, nextRetryAt := none
      permanentError := true }
  else
    { i with
      status := .pending, attemptCount, lastAttemptAt := some now
      nextRetryAt := some (computeNextRetryAt now attemptCount), permanentError := false }

variable (now : Nat) (i : EncryptionKeyRewrapIntent)

def isDue : Bool := i.status = .pending ∧ i.nextRetryAt.all fun at' => at' ≤ now

def claimed : EncryptionKeyRewrapIntent :=
  { i with status := .processing, lastAttemptAt := some now }

def isStale : Bool :=
  i.status = .processing ∧ i.lastAttemptAt.any fun at' => at' + STALE_PROCESSING_THRESHOLD_MS < now

def givenBack : EncryptionKeyRewrapIntent :=
  { i with status := .pending, nextRetryAt := some now }

end EncryptionKeyRewrapIntent

/-! ## An execution -/

inductive Stage where
  | load (id : String)
  | count (intent : EncryptionKeyRewrapIntent)
  | total (intent : EncryptionKeyRewrapIntent) (found : Nat)
  | fetch (intent : EncryptionKeyRewrapIntent)
  | write (intent : EncryptionKeyRewrapIntent) (rewrapped : List AmountRow)
  | progress (intent : EncryptionKeyRewrapIntent) (rewrapped : List AmountRow)
  | complete (intent : EncryptionKeyRewrapIntent) (processed : Option Nat)
  | fail (intent : EncryptionKeyRewrapIntent) (permanent : Bool)
  deriving DecidableEq

def Stage.intent? : Stage → Option EncryptionKeyRewrapIntent
  | .load _ => none
  | .count i | .total i _ | .fetch i | .write i _ | .progress i _ | .complete i _ | .fail i _ => some i

def Stage.id : Stage → String
  | .load id => id
  | .count i | .total i _ | .fetch i | .write i _ | .progress i _ | .complete i _ | .fail i _ => i.id

variable (i : EncryptionKeyRewrapIntent)

/-- `if (processedCount >= current)`. -/
def afterTotal (total : Nat) : Stage :=
  if total ≤ i.processedCount then .complete i none else .fetch i

/-- The `catch`, by whether the message is one of the permanent errors. -/
def caught (matched : Bool) : Stage := .fail i (matched || MAX_ATTEMPTS ≤ i.attemptCount + 1)

/-- The start of `executeIntent`: both versions have to be loaded. The message of a missing
    one is none of the permanent errors. -/
def begin : Stage :=
  if !k.isLoaded i.sourceKeyVersion || !k.isLoaded i.targetKeyVersion then caught i false
  else
    match i.totalCount with
    | none => .count i
    | some total => afterTotal i total

structure Db where
  payments : List AmountRow
  intents : List EncryptionKeyRewrapIntent
  deriving DecidableEq

/-- `encryptionKeyRewrapIntent.update({ where: { id }, data })`. -/
def Db.updateIntent (db : Db) (id : String) (data : EncryptionKeyRewrapIntent → EncryptionKeyRewrapIntent) : Db :=
  { db with intents := Table.update (fun i => i.id = id) data db.intents }

structure Answer where
  now : Nat
  iv : String → Nonce

/-- One access of an execution: the database it leaves, and where it goes on, if it does. -/
def Stage.access (a : Answer) (db : Db) : Stage → Db × Option Stage
  | .load id =>
    match db.intents.find? fun i => i.id = id with
    | none => (db, none)
    | some i => (db, if i.status = .completed ∨ i.status = .failed then none else some (begin k i))
  | .count i => (db, some (.total i (countPaymentsWithKeyVersion i.sourceKeyVersion db.payments)))
  | .total i found => (db.updateIntent i.id (·.counted found a.now), some (afterTotal i found))
  | .fetch i =>
    match batchOf i db.payments with
    | [] => (db, some (.complete i (some i.processedCount)))
    | batch => (db, some (.write i (batch.map fun r => rewrapPayment k (a.iv r.id) i.targetKeyVersion r)))
  | .write i rewrapped => ({ db with payments := writeBatch rewrapped db.payments }, some (.progress i rewrapped))
  | .progress i rewrapped =>
    (db.updateIntent i.id (·.progress (i.processedCount + rewrapped.length)
      (rewrapped.getLast?.map AmountRow.id) a.now), none)
  | .complete i processed => (db.updateIntent i.id (·.complete processed a.now), none)
  | .fail i permanent => (db.updateIntent i.id (·.fail permanent (i.attemptCount + 1) a.now), none)

/-- What an error thrown in an access leads to: the `catch`, if it is inside the `try`. -/
def Stage.thrown (matched : Bool) : Stage → Option Stage
  | .load _ | .fail _ _ => none
  | .count i | .total i _ | .fetch i | .write i _ | .progress i _ | .complete i _ => some (caught i matched)

/-! ## The system -/

structure World where
  db : Db
  workers : Nat → Option Stage

def World.start (payments : List AmountRow) : World := ⟨⟨payments, []⟩, fun _ => none⟩

inductive Event where
  /-- `createRewrapIntent`. -/
  | create (id : String) (sourceKeyVersion targetKeyVersion : Nat)
  /-- A sync or a backfill stores a payment's amount: of a new payment, or of one that was
      replaced. -/
  | store (id : String) (version : Nat) (iv : Nonce) (amount : String)
  | resetStale (now : Nat)
  | claim (p : Nat) (id : String) (now : Nat)
  | access (p : Nat) (a : Answer)
  | fault (p : Nat) (matched : Bool)
  | crash (p : Nat)

def storeAmount (id value : String) (payments : List AmountRow) : List AmountRow :=
  if payments.any fun r => r.id = id then
    Table.update (fun r => r.id = id) (fun r => { r with amountEncrypted := some value }) payments
  else payments ++ [⟨id, some value⟩]

def World.withWorker (w : World) (p : Nat) (stage : Option Stage) : World :=
  { w with workers := Function.update w.workers p stage }

/-- Ids and version pairs of intents are unique. -/
def step (cfg : Config) (w : World) : Event → Option World
  | .create id source target =>
    if source ≠ target ∧ w.db.intents.all fun i => i.id ≠ id ∧
      ¬(i.sourceKeyVersion = source ∧ i.targetKeyVersion = target) then
      some { w with db := { w.db with intents := w.db.intents ++ [.newIntent id source target] } }
    else none
  | .store id version iv amount =>
    (cfg.keyring.encryptProtectedAmount iv version amount).map fun value =>
      { w with db := { w.db with payments := storeAmount id value w.db.payments } }
  | .resetStale now =>
    some { w with db := { w.db with intents := Table.update (·.isStale now) (·.givenBack now) w.db.intents } }
  | .claim p id now =>
    if p < cfg.workers ∧ w.workers p = none ∧ w.db.intents.any fun i => i.id = id ∧ i.isDue now then
      some ({ w with db := w.db.updateIntent id (·.claimed now) }.withWorker p (some (.load id)))
    else none
  | .access p a =>
    (w.workers p).map fun stage =>
      let out := stage.access cfg.keyring a w.db
      { w with db := out.1 }.withWorker p out.2
  | .fault p matched => (w.workers p).map fun stage => w.withWorker p (stage.thrown matched)
  | .crash p => some (w.withWorker p none)

/-! ## Steps -/

/-- The database and the workers after a step, case by case. -/
inductive Effect (cfg : Config) (w : World) : Event → World → Prop
  | create id source target (hne : source ≠ target) (hfresh : id ∉ w.db.intents.map (·.id)) :
    Effect cfg w (.create id source target)
      { w with db := { w.db with intents := w.db.intents ++ [.newIntent id source target] } }
  | store id version iv amount value (hvalue : cfg.keyring.encryptProtectedAmount iv version amount = some value) :
    Effect cfg w (.store id version iv amount)
      { w with db := { w.db with payments := storeAmount id value w.db.payments } }
  | resetStale now :
    Effect cfg w (.resetStale now)
      { w with db := { w.db with intents := Table.update (·.isStale now) (·.givenBack now) w.db.intents } }
  | claim p i now (hp : p < cfg.workers) (hi : i ∈ w.db.intents) (hpending : i.status = .pending) :
    Effect cfg w (.claim p i.id now)
      ({ w with db := w.db.updateIntent i.id (·.claimed now) }.withWorker p (some (.load i.id)))
  | closed p a : Effect cfg w (.access p a) (w.withWorker p none)
  | begin p a i (hstage : w.workers p = some (.load i.id)) (hi : i ∈ w.db.intents) :
    Effect cfg w (.access p a) (w.withWorker p (some (begin cfg.keyring i)))
  | count p a i (hstage : w.workers p = some (.count i)) :
    Effect cfg w (.access p a)
      (w.withWorker p (some (.total i (countPaymentsWithKeyVersion i.sourceKeyVersion w.db.payments))))
  | total p a i found (hstage : w.workers p = some (.total i found)) :
    Effect cfg w (.access p a)
      ({ w with db := w.db.updateIntent i.id (·.counted found a.now) }.withWorker p (some (afterTotal i found)))
  | empty p a i (hstage : w.workers p = some (.fetch i)) (hbatch : batchOf i w.db.payments = []) :
    Effect cfg w (.access p a) (w.withWorker p (some (.complete i (some i.processedCount))))
  | batch p a i (hstage : w.workers p = some (.fetch i)) :
    Effect cfg w (.access p a) (w.withWorker p (some (.write i
      ((batchOf i w.db.payments).map fun r => rewrapPayment cfg.keyring (a.iv r.id) i.targetKeyVersion r))))
  | write p a i rewrapped (hstage : w.workers p = some (.write i rewrapped)) :
    Effect cfg w (.access p a)
      ({ w with db := { w.db with payments := writeBatch rewrapped w.db.payments } }.withWorker p
        (some (.progress i rewrapped)))
  | progress p a i rewrapped (hstage : w.workers p = some (.progress i rewrapped)) :
    Effect cfg w (.access p a)
      ({ w with
          db := w.db.updateIntent i.id fun j =>
            j.progress (i.processedCount + rewrapped.length)
              (rewrapped.getLast?.map AmountRow.id) a.now }.withWorker p none)
  | complete p a i processed (hstage : w.workers p = some (.complete i processed)) :
    Effect cfg w (.access p a)
      ({ w with db := w.db.updateIntent i.id (·.complete processed a.now) }.withWorker p none)
  | fail p a i permanent (hstage : w.workers p = some (.fail i permanent)) :
    Effect cfg w (.access p a)
      ({ w with db := w.db.updateIntent i.id (·.fail permanent (i.attemptCount + 1) a.now) }.withWorker p none)
  | fault p matched stage (hstage : w.workers p = some stage) :
    Effect cfg w (.fault p matched) (w.withWorker p (stage.thrown matched))
  | crash p : Effect cfg w (.crash p) (w.withWorker p none)

variable {cfg : Config} {w : World} {version : Nat} {payments : List AmountRow} {id : String} {p : Nat} {w' : World}
  {e : Event} {value : String} {r' : AmountRow} {rewrapped : List AmountRow}

theorem access_effect {stage : Stage} (a : Answer) (hstage : w.workers p = some stage) : Effect cfg w (.access p a)
      ({ w with db := (stage.access cfg.keyring a w.db).1 }.withWorker p (stage.access cfg.keyring a w.db).2) := by
  cases stage with
  | load id =>
    simp only [Stage.access]
    split
    · exact .closed p a
    · rename_i i hfind
      obtain ⟨hi, rfl⟩ := of_find? hfind
      split
      · exact .closed p a
      · exact .begin p a i hstage hi
  | count i => exact .count p a i hstage
  | total i found => exact .total p a i found hstage
  | fetch i =>
    simp only [Stage.access]
    split
    · rename_i hbatch
      exact .empty p a i hstage hbatch
    · exact .batch p a i hstage
  | write i rewrapped => exact .write p a i rewrapped hstage
  | progress i rewrapped => exact .progress p a i rewrapped hstage
  | complete i processed => exact .complete p a i processed hstage
  | fail i permanent => exact .fail p a i permanent hstage

theorem step_effect (h : step cfg w e = some w') : Effect cfg w e w' := by
  cases e with
  | create id source target =>
    obtain ⟨⟨hne, hfresh⟩, rfl⟩ := enabled h
    refine .create id source target hne fun hmem => ?_
    obtain ⟨i, hi, rfl⟩ := mem_map.mp hmem
    have := all_eq_true.mp hfresh i hi
    simp at this
  | store id version iv amount =>
    obtain ⟨value, hvalue, rfl⟩ := map_eq_some_iff.mp h
    exact .store id version iv amount value hvalue
  | resetStale now =>
    cases h
    exact .resetStale now
  | claim p id now =>
    obtain ⟨⟨hp, -, hdue⟩, rfl⟩ := enabled h
    obtain ⟨i, hi, hsel⟩ := any_eq_true.mp hdue
    obtain ⟨rfl, hisDue⟩ := of_decide_eq_true hsel
    exact .claim p i now hp hi (of_decide_eq_true hisDue).1
  | access p a =>
    obtain ⟨stage, hstage, rfl⟩ := map_eq_some_iff.mp h
    exact access_effect a hstage
  | fault p matched =>
    obtain ⟨stage, hstage, rfl⟩ := map_eq_some_iff.mp h
    exact .fault p matched stage hstage
  | crash p =>
    cases h
    exact .crash p

/-! ## What is left under a version -/

def underIds (version : Nat) (payments : List AmountRow) : List String := (payments.filter (·.under version)).map (·.id)

theorem mem_underIds : id ∈ underIds version payments ↔ ∃ r ∈ payments, r.under version ∧ r.id = id := by
  simp only [underIds, List.mem_map, List.mem_filter, and_assoc]

/-- An update of one payment to another version takes it out. -/
theorem underIds_update (id : String) {value : Option String}
    (hvalue : value.any (isUnder version) = false) (payments : List AmountRow) :
    underIds version (Table.update (fun r => r.id = id) (fun r => { r with amountEncrypted := value }) payments) =
      (underIds version payments).filter (· ≠ id) := by
  unfold underIds Table.update
  rw [List.filter_map, List.map_map, List.filter_map, List.filter_filter]
  have hids : ∀ r : AmountRow, (if decide (r.id = id) then { r with amountEncrypted := value } else r).id = r.id := by
    intro r
    split <;> rfl
  have hunder : ∀ r : AmountRow, (if decide (r.id = id) then { r with amountEncrypted := value } else r).under version =
      (decide (r.id ≠ id) && r.under version) := by
    intro r
    by_cases hid : r.id = id
    · simpa [hid, AmountRow.under] using hvalue
    · simp [hid]
  exact congrArg₂ List.map (funext hids) (List.filter_congr fun r _ => hunder r)

theorem underIds_storeAmount (hvalue : isUnder version value = false)
    (payments : List AmountRow) : (underIds version (storeAmount id value payments)).Sublist
      (underIds version payments) := by
  unfold storeAmount
  split
  · have hsome : (some value).any (isUnder version) = false := hvalue
    rw [underIds_update id hsome payments]
    exact filter_sublist
  · unfold underIds
    simp [AmountRow.under, hvalue]

/-- A row after an amount is stored: the payment that was stored, or an old row. -/
theorem mem_storeAmount (h : r' ∈ storeAmount id value payments) :
    r' ∈ payments ∨ (r'.id = id ∧ r'.amountEncrypted = some value) := by
  unfold storeAmount at h
  split at h
  · obtain ⟨r, hr, ⟨hsel, rfl⟩ | ⟨-, rfl⟩⟩ := mem_update_cases h
    · exact .inr ⟨of_decide_eq_true hsel, rfl⟩
    · exact .inl hr
  · rcases mem_append_row.mp h with hold | rfl
    · exact .inl hold
    · exact .inr ⟨rfl, rfl⟩

/-- A batch of other versions takes its payments out. -/
theorem underIds_writeBatch (h : ∀ x ∈ rewrapped, x.under version = false) (payments : List AmountRow) :
    (underIds version (writeBatch rewrapped payments)).Sublist (underIds version payments) ∧
      ∀ id ∈ underIds version (writeBatch rewrapped payments), id ∉ rewrapped.map (·.id) := by
  induction rewrapped generalizing payments with
  | nil => exact ⟨Sublist.refl _, fun _ _ => not_mem_nil⟩
  | cons x rest ih =>
    obtain ⟨hsub, hout⟩ := ih (fun y hy => h y (mem_cons_of_mem x hy))
      (Table.update (fun r => r.id = x.id) (fun r => { r with amountEncrypted := x.amountEncrypted }) payments)
    rw [underIds_update x.id (h x mem_cons_self) payments] at hsub
    refine ⟨hsub.trans filter_sublist, fun id hid => ?_⟩
    rw [map_cons, mem_cons, not_or]
    exact ⟨of_decide_eq_true (mem_filter.mp (hsub.subset hid)).2, hout id hid⟩

/-! ## What the payments open to -/

section

variable (k : PaymentEncryptionKeyring)

/-- The amount of a payment; `none` where reading it throws, or there is none. -/
def plain (r : AmountRow) : Option String := r.amountEncrypted.bind k.decrypt

/-- The payment opens to some text, and the target version has a key. -/
def AmountRow.rewraps (targetKeyVersion : Nat) (r : AmountRow) : Bool :=
  (plain k r).any (· ≠ "") && ((k.ring targetKeyVersion).bind decodeKey).isSome

theorem rewrapPayment_id (iv : Nonce) (targetKeyVersion : Nat) (r : AmountRow) :
    (rewrapPayment k iv targetKeyVersion r).id = r.id := by
  unfold rewrapPayment
  split
  · rfl
  · split <;> rfl

end

/-- Such a payment is rewrapped: it is under the target version and opens as before. -/
theorem rewrapPayment_spec {k : PaymentEncryptionKeyring} {targetKeyVersion : Nat} {r : AmountRow}
    (h : r.rewraps k targetKeyVersion) (iv : Nonce) :
    plain k (rewrapPayment k iv targetKeyVersion r) = plain k r ∧
      ∀ v, (rewrapPayment k iv targetKeyVersion r).under v = decide (v = targetKeyVersion) := by
  obtain ⟨hopens, hkey⟩ := Bool.and_eq_true_iff.mp h
  obtain ⟨amount, hplain, hne⟩ := (any_eq_true _ _).mp hopens
  have hne : amount ≠ "" := of_decide_eq_true hne
  obtain ⟨value, hvalue, hdecrypt⟩ := bind_eq_some_iff.mp hplain
  obtain ⟨key, hkey⟩ := isSome_iff_exists.mp hkey
  have htext : value ≠ "" := by
    rintro rfl
    cases hdecrypt
  obtain ⟨rewrapped, hrewrapped⟩ : ∃ e, k.encryptProtectedAmount iv targetKeyVersion amount = some e := by
    unfold PaymentEncryptionKeyring.encryptProtectedAmount
    rw [hkey]
    exact ⟨_, rfl⟩
  have hresult : rewrapPayment k iv targetKeyVersion r = { r with amountEncrypted := some rewrapped } := by
    unfold rewrapPayment
    rw [hvalue, filter_some, if_pos (decide_eq_true htext)]
    simp only [hdecrypt, bind_some, hrewrapped]
  rw [hresult, hplain]
  refine ⟨?_, fun v => PaymentEncryptionKeyring.isUnder_encryptProtectedAmount hrewrapped v⟩
  show k.decrypt rewrapped = some amount
  rw [PaymentEncryptionKeyring.decrypt_encryptProtectedAmount hrewrapped, if_neg hne]

/-- A row after a batch: one of the batch has its value, or it is an old row. -/
theorem mem_writeBatch (h : r' ∈ writeBatch rewrapped payments) : ∃ r ∈ payments, r.id = r'.id ∧
      (r' = r ∨ ∃ x ∈ rewrapped, x.id = r'.id ∧ r'.amountEncrypted = x.amountEncrypted) := by
  induction rewrapped generalizing payments with
  | nil => exact ⟨r', h, rfl, .inl rfl⟩
  | cons x rest ih =>
    obtain ⟨r, hr, hid, hrow⟩ := ih h
    obtain ⟨old, hold, hcase⟩ := mem_update_cases hr
    rcases hrow with rfl | ⟨y, hy, hyid, hvalue⟩
    · rcases hcase with ⟨hsel, rfl⟩ | ⟨-, rfl⟩
      · exact ⟨old, hold, rfl, .inr ⟨x, mem_cons_self, (of_decide_eq_true hsel).symm, rfl⟩⟩
      · exact ⟨_, hold, rfl, .inl rfl⟩
    · have hrow := mem_cons_of_mem x hy
      rcases hcase with ⟨-, rfl⟩ | ⟨-, rfl⟩ <;> exact ⟨_, hold, hid, .inr ⟨y, hrow, hyid, hvalue⟩⟩

theorem writeBatch_ids (rewrapped payments : List AmountRow) :
    (writeBatch rewrapped payments).map (·.id) = payments.map (·.id) := by
  induction rewrapped generalizing payments with
  | nil => rfl
  | cons x rest ih =>
    have hstep :
        (Table.update (fun r => r.id = x.id) (fun r => { r with amountEncrypted := x.amountEncrypted }) payments).map
        (·.id) = payments.map (·.id) := map_update AmountRow.id fun _ => rfl
    exact (ih _).trans hstep

end EarnProof.Encryption
