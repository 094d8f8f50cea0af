/-
  EarnProof.Encryption.Retirement — `src/jobs/encryption/payment-encryption-retirement.service.ts`
  and its worker: the intents to retire a version of the payment-encryption keyring and the two
  checks before it, beside everything that writes through that keyring.

  Who writes. Syncs and backfills store amounts, and syncs memos; the webhook services store
  signing secrets, their versions and the private keys of client certificates; rewraps move
  amounts to another version (`Encryption.Rewrap`). An issued proof stores the ciphertext of a
  payment's amount as it read it, and a renewed one the ciphertext of its predecessor. The
  retirement service counts one column, the payments' amounts.

  Every process writes with the version it was started with. A restart loses what a process
  has not stored, so a ciphertext has the version its process has when it is stored; only
  copies and rewrapped batches carry other versions. The reason why a memo is left out, the
  redacted error text and the dates of a row are read by nothing here. The retry rule and its
  constants are those of the rewrap service, letter by letter.
-/
import EarnProof.Encryption.Rewrap

namespace EarnProof.Encryption.Retirement

open Lib Lib.Encoding Common.Crypto

/-! ## The other columns -/

inductive Column where
  | memo | threshold | webhookSecret | webhookSecretVersion | privateKey
  deriving DecidableEq

/-- A ciphertext of the keyring outside of the payments' amounts. -/
structure Sealed where
  column : Column
  row : String
  ciphertext : String
  deriving DecidableEq

def Sealed.under (version : Nat) (s : Sealed) : Bool := isUnder version s.ciphertext

def Sealed.isAt (column : Column) (row : String) (s : Sealed) : Bool := s.column = column ∧ s.row = row

def clear (column : Column) (row : String) (store : List Sealed) : List Sealed :=
  store.filter fun s => !s.isAt column row

def put (column : Column) (row ciphertext : String) (store : List Sealed) : List Sealed :=
  clear column row store ++ [⟨column, row, ciphertext⟩]

/-! ### Secrets -/

section Secrets

variable (k : PaymentEncryptionKeyring) (writeVersion : Nat) (iv : Nonce) (row text : String) (store : List Sealed)

/-- `paymentEncryptionKeyring.encrypt`, into a new row. -/
def createSealed (column : Column) : Option (List Sealed) :=
  if store.any (·.isAt column row) then none
  else (k.encryptProtectedAmount iv writeVersion text).map fun ciphertext => put column row ciphertext store

/-- `paymentEncryptionKeyring.encrypt`, into a row there is. -/
def updateSealed (column : Column) : Option (List Sealed) :=
  if store.any (·.isAt column row) then
    (k.encryptProtectedAmount iv writeVersion text).map fun ciphertext => put column row ciphertext store
  else none

def WebhooksService.create : Option (List Sealed) := createSealed k writeVersion iv row text store .webhookSecret

def WebhooksService.rotateSecret : Option (List Sealed) := updateSealed k writeVersion iv row text store .webhookSecret

def WebhookSecretVersioningService.createInitialSecret : Option (List Sealed) :=
  createSealed k writeVersion iv row text store .webhookSecretVersion

/-- The secret before it keeps its row, in OVERLAP. -/
def WebhookSecretVersioningService.rotateSecret : Option (List Sealed) :=
  createSealed k writeVersion iv row text store .webhookSecretVersion

def WebhookClientCertificateService.register : Option (List Sealed) :=
  createSealed k writeVersion iv row text store .privateKey

end Secrets

inductive SecretOperation where
  | createWebhook | rotateWebhook | createInitialSecret | rotateSecretVersion | registerCertificate
  deriving DecidableEq

variable (k : PaymentEncryptionKeyring)

def SecretOperation.run (writeVersion : Nat) (iv : Nonce) (row text : String)
    (store : List Sealed) : SecretOperation → Option (List Sealed)
  | .createWebhook => WebhooksService.create k writeVersion iv row text store
  | .rotateWebhook => WebhooksService.rotateSecret k writeVersion iv row text store
  | .createInitialSecret => WebhookSecretVersioningService.createInitialSecret k writeVersion iv row text store
  | .rotateSecretVersion => WebhookSecretVersioningService.rotateSecret k writeVersion iv row text store
  | .registerCertificate => WebhookClientCertificateService.register k writeVersion iv row text store

/-- What is deleted: webhooks and what hangs on them with their organization, and the retired
    versions of a secret. -/
def Column.isDeletable : Column → Bool
  | .webhookSecret | .webhookSecretVersion | .privateKey => true
  | .memo | .threshold => false

/-! ### Memos -/

inductive MemoType where
  | text | id | hash | returnHash
  deriving DecidableEq

def MemoType.name : MemoType → String
  | .text => "text"
  | .id => "id"
  | .hash => "hash"
  | .returnHash => "return_hash"

inductive NormalizedMemo where
  | none
  | value (type : MemoType) (value : String)
  deriving DecidableEq

inductive StoredMemo where
  | none
  | sealed (type : MemoType) (ciphertext : String)
  deriving DecidableEq

def MAX_STORED_MEMO_BYTES : Nat := 512

variable (type : MemoType)

def boundPlaintext (value : String) : String := type.name ++ ":" ++ value

/-- `JSON.stringify` of a stored memo with a value; nothing in it has to be escaped. -/
def storedMemoText (ciphertext : String) : String :=
  "\x7b\"version\":2,\"type\":\"" ++ type.name ++ "\",\"ciphertext\":\"" ++ ciphertext ++ "\"\x7d"

def storedMemoBytes (ciphertext : String) : Nat := (utf8 (storedMemoText type ciphertext).toList).length

/-- `encodeStoredMemo`; `none` where it throws. A memo that gets too long is left out. -/
def encodeStoredMemo (writeVersion : Nat) (iv : Nonce) : NormalizedMemo → Option StoredMemo
  | .none => some .none
  | .value type value =>
    (k.encryptProtectedAmount iv writeVersion (boundPlaintext type value)).map fun ciphertext =>
      if MAX_STORED_MEMO_BYTES < storedMemoBytes type ciphertext then .none else .sealed type ciphertext

/-- The memo column of a payment, written. -/
def putMemo (row : String) (memo : StoredMemo) (store : List Sealed) : List Sealed :=
  match memo with
  | .none => clear .memo row store
  | .sealed _ ciphertext => put .memo row ciphertext store

/-! ## Intents -/

inductive EncryptionKeyRetirementStatus where
  | pending | guarding | safeToRetire | failed
  deriving DecidableEq

structure EncryptionKeyRetirementIntent where
  id : String
  keyVersion : Nat
  status : EncryptionKeyRetirementStatus := .pending
  dependentPaymentCount : Nat := 0
  attemptCount : Nat := 0
  lastAttemptAt : Option Nat := none
  nextRetryAt : Option Nat := none
  permanentError : Bool := false
  deriving DecidableEq

def STALE_GUARDING_THRESHOLD_MS : Nat := 5 * 60000

def CLAIM_SIZE : Nat := 5

namespace EncryptionKeyRetirementIntent

def newIntent (id : String) (keyVersion : Nat) : EncryptionKeyRetirementIntent :=
  { id, keyVersion }

variable (now : Nat) (i : EncryptionKeyRetirementIntent)

def safe : EncryptionKeyRetirementIntent :=
  { i with status := .safeToRetire, dependentPaymentCount := 0, lastAttemptAt := some now, permanentError := false }

def guarded (dependentCount attemptCount now : Nat) (i : EncryptionKeyRetirementIntent) :
    EncryptionKeyRetirementIntent :=
  { i with
    status := .guarding, dependentPaymentCount := dependentCount, lastAttemptAt := some now
    nextRetryAt := some (computeNextRetryAt now attemptCount), permanentError := false, attemptCount }

/-- The update of the `catch`. -/
def fail (permanent : Bool) (attemptCount now : Nat) (i : EncryptionKeyRetirementIntent) :
    EncryptionKeyRetirementIntent :=
  if permanent then
    { i with
      status := .failed, attemptCount, lastAttemptAt := some now, nextRetryAt := none
      permanentError := true }
  else
    { i with
      status := .pending, attemptCount, lastAttemptAt := some now
      nextRetryAt := some (computeNextRetryAt now attemptCount), permanentError := false }

def isDue : Bool :=
  i.status = .pending ∧ i.nextRetryAt.all fun at' => at' ≤ now

def claimed : EncryptionKeyRetirementIntent :=
  { i with status := .guarding, lastAttemptAt := some now }

def isStale : Bool :=
  i.status = .guarding ∧ i.lastAttemptAt.any fun at' => at' + STALE_GUARDING_THRESHOLD_MS < now

def givenBack : EncryptionKeyRetirementIntent :=
  { i with status := .pending, nextRetryAt := some now }

end EncryptionKeyRetirementIntent

/-! ## The service -/

def canRetireKeyVersion (keyVersion : Nat) (payments : List AmountRow) : Bool :=
  countPaymentsWithKeyVersion keyVersion payments = 0

def guardKeyRetirement (keyVersion : Nat) (payments : List AmountRow) : Except String Unit :=
  let dependentCount := countPaymentsWithKeyVersion keyVersion payments
  if 0 < dependentCount then
    .error ("Cannot retire encryption key version " ++ toString keyVersion ++ ": " ++ toString dependentCount ++
      " payment(s) still encrypted with this version. Run a rewrap job first.")
  else .ok ()

inductive Stage where
  | load (id : String)
  | count (intent : EncryptionKeyRetirementIntent)
  | safe (intent : EncryptionKeyRetirementIntent)
  | guarded (intent : EncryptionKeyRetirementIntent) (dependentCount : Nat)
  | fail (intent : EncryptionKeyRetirementIntent) (permanent : Bool)
  deriving DecidableEq

/-- A worker's cycle: the execution it is at, and the claimed intents after it. -/
structure Cycle where
  stage : Stage
  rest : List String
  deriving DecidableEq

def Cycle.next : List String → Option Cycle
  | [] => none
  | id :: rest => some ⟨.load id, rest⟩

def updateIntent (id : String) (data : EncryptionKeyRetirementIntent → EncryptionKeyRetirementIntent)
    (intents : List EncryptionKeyRetirementIntent) : List EncryptionKeyRetirementIntent :=
  Table.update (fun i => i.id = id) data intents

/-- One access of an execution: the intents it leaves, and where it goes on, if it does. -/
def Stage.access (now : Nat) (payments : List AmountRow) (intents : List EncryptionKeyRetirementIntent) :
    Stage → List EncryptionKeyRetirementIntent × Option Stage
  | .load id =>
    match intents.find? fun i => i.id = id with
    | none => (intents, none)
    | some i => (intents, if i.status = .safeToRetire ∨ i.status = .failed then none else some (.count i))
  | .count i =>
    let dependentCount := countPaymentsWithKeyVersion i.keyVersion payments
    (intents, some (if dependentCount = 0 then .safe i else .guarded i dependentCount))
  | .safe i => (updateIntent i.id (·.safe now) intents, none)
  | .guarded i dependentCount => (updateIntent i.id (·.guarded dependentCount (i.attemptCount + 1) now) intents, none)
  | .fail i permanent => (updateIntent i.id (·.fail permanent (i.attemptCount + 1) now) intents, none)

/-- What an error thrown in an access leads to: the `catch`, if it is inside the `try`. -/
def Stage.thrown (matched : Bool) : Stage → Option Stage
  | .load _ | .fail _ _ => none
  | .count i | .safe i | .guarded i _ => some (.fail i (matched || MAX_ATTEMPTS ≤ i.attemptCount + 1))

/-! ## The system -/

structure Config where
  rewrap : Encryption.Config
  processes : Nat
  workers : Nat

structure Copy where
  process : Nat
  ciphertext : String
  deriving DecidableEq

structure World where
  rewrap : Encryption.World
  sealed : List Sealed
  copies : List Copy
  /-- The version each process writes with. -/
  writeVersion : Nat → Nat
  intents : List EncryptionKeyRetirementIntent
  workers : Nat → Option Cycle
  /-- The versions the service has reported as free, over the whole run. -/
  reported : List Nat

variable (w : World)

def World.payments : List AmountRow := w.rewrap.db.payments

def World.start (payments : List AmountRow) (store : List Sealed) (writeVersion : Nat → Nat) : World :=
  ⟨.start payments, store, [], writeVersion, [], fun _ => none, []⟩

inductive Event where
  /-- `createRetirementIntent`. -/
  | create (id : String) (keyVersion : Nat)
  | resetStale (now : Nat)
  | claim (p : Nat) (ids : List String) (now : Nat)
  | access (p : Nat) (now : Nat)
  | fault (p : Nat) (matched : Bool)
  | crash (p : Nat)
  | canRetire (keyVersion : Nat)
  | guardRetirement (keyVersion : Nat)
  /-- A step of the rewrap jobs. -/
  | rewrap (e : Encryption.Event)
  /-- A backfill stores a payment, unless it is stored. -/
  | backfill (p : Nat) (id : String) (iv : Nonce) (amount : String)
  /-- A sync writes a payment: its amount if it is new or replaced, and its memo. -/
  | sync (p : Nat) (id : String) (replaced : Bool) (iv : Nonce) (amount : String) (memoIv : Nonce)
      (memo : NormalizedMemo)
  | secret (p : Nat) (op : SecretOperation) (row : String) (iv : Nonce) (text : String)
  | remove (column : Column) (row : String)
  /-- An issuance reads a payment. -/
  | readAmount (p : Nat) (id : String)
  /-- A renewal reads the claim of its predecessor. -/
  | readThreshold (p : Nat) (row : String)
  | issue (copy : Copy) (row : String)
  /-- A process is started again, with this version. -/
  | configure (p : Nat) (version : Nat)

/-- The version a step reports as free. -/
def World.report : Event → Option Nat
  | .access p _ =>
    match (w.workers p).map Cycle.stage with
    | some (.safe i) => some i.keyVersion
    | _ => none
  | .canRetire v => if canRetireKeyVersion v w.payments then some v else none
  | .guardRetirement v =>
    match guardKeyRetirement v w.payments with
    | .ok _ => some v
    | .error _ => none
  | _ => none

def World.withWorker (p : Nat) (cycle : Option Cycle) : World :=
  { w with workers := Function.update w.workers p cycle }

def World.withPayments (payments : List AmountRow) : World :=
  { w with rewrap := { w.rewrap with db := { w.rewrap.db with payments } } }

/-- `revealPaymentAmount`; `none` where it throws. -/
def revealPaymentAmount (amountEncrypted : Option String) : Option String :=
  (amountEncrypted.filter (· ≠ "")).bind k.decrypt

/-- The amount of a payment that is new, or replaced. -/
def storeSynced (version : Nat) (id : String) (replaced : Bool) (iv : Nonce) (amount : String)
    (payments : List AmountRow) : Option (List AmountRow) :=
  if payments.any (fun r => r.id = id) && !replaced then some payments
  else (k.encryptProtectedAmount iv version amount).map fun value => storeAmount id value payments

/-- What a step does, apart from what it reports. -/
def advance (cfg : Config) (w : World) : Event → Option World
  | .create id keyVersion =>
    if w.intents.all fun i => i.id ≠ id ∧ i.keyVersion ≠ keyVersion then
      some { w with intents := w.intents ++ [.newIntent id keyVersion] }
    else none
  | .resetStale now => some { w with intents := Table.update (·.isStale now) (·.givenBack now) w.intents }
  | .claim p ids now =>
    if p < cfg.workers ∧ w.workers p = none ∧ ids.length ≤ CLAIM_SIZE ∧
        ∀ id ∈ ids, w.intents.any fun i => i.id = id ∧ i.isDue now then
      some ({ w with intents := Table.update (fun i => i.id ∈ ids) (·.claimed now) w.intents }.withWorker p
        (Cycle.next ids))
    else none
  | .access p now =>
    if p < cfg.workers then
      (w.workers p).map fun cycle =>
        let out := cycle.stage.access now w.payments w.intents
        { w with intents := out.1 }.withWorker p
          (match out.2 with
          | some stage => some { cycle with stage }
          | none => Cycle.next cycle.rest)
    else none
  | .fault p matched =>
    -- Outside of the `try` the error ends the cycle.
    (w.workers p).map fun cycle => w.withWorker p ((cycle.stage.thrown matched).map fun stage => { cycle with stage })
  | .crash p => some (w.withWorker p none)
  | .canRetire _ | .guardRetirement _ => some w
  | .rewrap (.store ..) => none
  | .rewrap e => (Encryption.step cfg.rewrap w.rewrap e).map fun rewrap => { w with rewrap }
  | .backfill p id iv amount =>
    if p < cfg.processes then
      (storeSynced cfg.rewrap.keyring (w.writeVersion p) id false iv amount w.payments).map w.withPayments
    else none
  | .sync p id replaced iv amount memoIv memo =>
    if p < cfg.processes then
      let stored := (encodeStoredMemo cfg.rewrap.keyring (w.writeVersion p) memoIv memo).getD .none
      (storeSynced cfg.rewrap.keyring (w.writeVersion p) id replaced iv amount w.payments).map fun payments =>
        { w.withPayments payments with sealed := putMemo id stored w.sealed }
    else none
  | .secret p op row iv text =>
    if p < cfg.processes then
      (op.run cfg.rewrap.keyring (w.writeVersion p) iv row text w.sealed).map fun store => { w with sealed := store }
    else none
  | .remove column row => if column.isDeletable then some { w with sealed := clear column row w.sealed } else none
  | .readAmount p id =>
    -- What an issuance copies, it has opened.
    ((w.payments.find? fun r => r.id = id && (revealPaymentAmount cfg.rewrap.keyring r.amountEncrypted).isSome).bind
      (·.amountEncrypted)).map fun value => { w with copies := ⟨p, value⟩ :: w.copies }
  | .readThreshold p row =>
    (w.sealed.find? (·.isAt .threshold row)).map fun s => { w with copies := ⟨p, s.ciphertext⟩ :: w.copies }
  | .issue copy row =>
    if copy ∈ w.copies ∧ ¬w.sealed.any (·.isAt .threshold row) then
      some { w with sealed := put .threshold row copy.ciphertext w.sealed, copies := w.copies.erase copy }
    else none
  | .configure p version =>
    some { w with
      writeVersion := Function.update w.writeVersion p version, copies := w.copies.filter fun c => c.process ≠ p }

def step (cfg : Config) (w : World) (e : Event) : Option World :=
  (advance cfg w e).map fun w' => { w' with reported := w.reported ++ (w.report e).toList }

end EarnProof.Encryption.Retirement
