/-
  EarnProof.Payments.MonitoredAccount — which account a user's payments are read from:
  `syncPayments` of `src/payments/payments.service.ts` around the sync, `current` and
  `discardStaleCheckpoint` of `payment-account.resolver.ts`, `activate` and `rollback` of
  `payment-account-rotation.service.ts`, and the wallet change of
  `src/auth/wallet-rotation.service.ts`, for one user and network.

  A request holds the user it was authenticated as, so also the wallet address of that
  moment. It resolves its account, runs the sync of `Payments.Sync` on it, and in the
  `finally` asks again and discards the checkpoint when the account has changed; it can
  crash anywhere, and an error ends the sync wherever it is. A verified rotation enters as
  it is; refusals that concern other users, the audit records and the backfill job change
  nothing here and are left out.

  The checkpoint row does not say which account it is of. `feedOf` is ghost state: the
  account on whose feed the anchor of a row was established. For the anchor of a completed
  reconciliation, which is taken from the stored payments, it is the account the payment
  was received on.

  `userStep_effect` says once what an event can do.
-/
import EarnProof.Payments.Checkpoints

namespace EarnProof.Payments

open Lib Lib.Calendar Database Stellar

/-! ## Rows -/

inductive PaymentMonitoredAccountStatus where
  | active | retired
  deriving DecidableEq

structure PaymentMonitoredAccount where
  id : String
  accountId : String
  status : PaymentMonitoredAccountStatus
  updatedAt : Date
  deriving DecidableEq

inductive PaymentAccountRotationStatus where
  | pendingVerification | verified | activated | rolledBack | cancelled | expired | failed
  deriving DecidableEq

/-- The columns of the old account's last checkpoint, null together. -/
structure FinalCheckpoint where
  claim : CheckpointClaim
  verifiedAt : Date
  deriving DecidableEq

structure PaymentAccountRotation where
  id : String
  fromAccountId : String
  toAccountId : String
  status : PaymentAccountRotationStatus
  version : Nat
  final : Option FinalCheckpoint
  fromEpochId : Option String
  toEpochId : Option String
  rollbackDeadline : Option Date
  /-- Ghost: the account on whose feed the final checkpoint is anchored. -/
  finalFeed : Option String
  deriving DecidableEq

structure MonitoredAccount where
  accountId : String
  epochId : Option String
  deriving DecidableEq

variable (epochs : List PaymentMonitoredAccount)

def activeEpoch : Option PaymentMonitoredAccount :=
  epochs.find? fun e => e.status = .active

def current (walletAddress : String) : MonitoredAccount :=
  match activeEpoch epochs with
  | some epoch => ⟨epoch.accountId, some epoch.id⟩
  | none => ⟨walletAddress, none⟩

/-! ## Requests -/

inductive Phase where
  | resolving
  | syncing (used : MonitoredAccount)
  /-- The account has changed: the date of its epoch is read, -/
  | dating (epochId : String)
  /-- and what was written since is discarded. -/
  | discarding (since : Option Date)
  deriving DecidableEq

structure Call where
  walletAddress : String
  phase : Phase
  deriving DecidableEq

structure UserWorld where
  sync : World
  walletAddress : String
  epochs : List PaymentMonitoredAccount
  rotations : List PaymentAccountRotation
  calls : Nat → Option Call
  /-- Ghost: the feed of each version of a checkpoint row, -/
  feedOf : String × Nat → Option String
  /-- and of the anchor a completing sync has chosen. -/
  anchorFeed : Nat → Option String

def UserWorld.start (walletAddress : String) (db : Store) : UserWorld where
  sync := World.start db
  walletAddress
  epochs := []
  rotations := []
  calls := fun _ => none
  feedOf := fun _ => some walletAddress
  anchorFeed := fun _ => none

variable (cfg : Config) (w : UserWorld)

def UserWorld.account : String := (current w.epochs w.walletAddress).accountId

inductive UserEvent where
  | request (p : Nat)
  | resolve (p : Nat)
  | access (p : Nat) (a : Answer)
  | recheck (p : Nat)
  | date (p : Nat)
  | discard (p : Nat)
  | crash (p : Nat)
  | verify (rotation : PaymentAccountRotation)
  | activate (rotationId : String) (expectedVersion : Nat) (walletAddress : String) (now : Date)
      (retiredId activeId : String)
  | rollback (rotationId : String) (expectedVersion : Nat) (now : Date) (checkpointId : String)
  | rotateWallet (newWalletAddress : String)
  deriving DecidableEq

/-! ## What a request does -/

def World.drop (w : World) (gone : PaymentSyncCheckpoint → Bool) : World :=
  { w with db := { w.db with checkpoint := w.db.checkpoint.filter fun c => !gone c } }

def World.create (w : World) (row : PaymentSyncCheckpoint) : World :=
  { w with db := { w.db with checkpoint := some row }, rows := w.rows ++ [row] }

/-- The account the payment of a chosen anchor was received on. -/
def receivedOn (userId : String) (ledger : Nat) (operationId : String) (rows : List SyncedPayment) : Option String :=
  (rows.find? fun r => r.confirmed userId && r.ledgerSequence = some ledger && r.operationId = operationId).bind
    (·.destinationAddress)

variable (p : Nat)

/-- The feed of the anchor a write of the checkpoint stores. A write that is not of a new
    anchor keeps that of the row. -/
def UserWorld.sourceFeed (s : Sync) : Option String :=
  match s.stage with
  | .commit .establish _ => some s.account
  | .commit (.advance _) _ => some s.account
  | .commit (.complete _) _ => w.anchorFeed p
  | _ => w.sync.db.checkpoint.bind fun c => w.feedOf c.key

def UserWorld.feedsAfter (s : Sync) : Option PaymentSyncCheckpoint → String × Nat → Option String
  | none => w.feedOf
  | some row => Function.update w.feedOf row.key (w.sourceFeed p s)

def UserWorld.anchorsAfter : Stage → Stage → Nat → Option String
  | .choose _ ledger, .claim _ anchor =>
    Function.update w.anchorFeed p (receivedOn cfg.userId ledger anchor.operationId w.sync.db.payments)
  | _, _ => w.anchorFeed

def UserWorld.put (s : Sync) (x : Access) (sync : World) : UserWorld :=
  { w with
    sync, feedOf := w.feedsAfter p s x.wrote, anchorFeed := w.anchorsAfter cfg p s.stage x.next.stage }

def UserWorld.withCall (call : Option Call) : UserWorld :=
  { w with calls := Function.update w.calls p call }

variable (rotation : PaymentAccountRotation) (used : MonitoredAccount) (now : Date)

/-- The `finally` of `syncPayments`: where `discardStaleCheckpoint` goes on. -/
def rechecked (now : MonitoredAccount) : Option Phase :=
  if now.accountId = used.accountId ∧ now.epochId = used.epochId then none
  else some (now.epochId.elim (.discarding none) .dating)

/-! ## Activation and rollback -/

def PaymentMonitoredAccount.retire (e : PaymentMonitoredAccount) : PaymentMonitoredAccount :=
  { e with status := .retired, updatedAt := now }

def PaymentMonitoredAccount.restore (e : PaymentMonitoredAccount) : PaymentMonitoredAccount :=
  { e with status := .active, updatedAt := now }

/-- The old account's epoch is retired; a user who never rotated gets a retired one. -/
def retiredEpochs (retiredId : String) (now : Date) : List PaymentMonitoredAccount :=
  match used.epochId with
  | some id => Table.update (fun e => e.id = id && e.status = .active) (.retire now) w.epochs
  | none => w.epochs ++ [⟨retiredId, used.accountId, .retired, now⟩]

def finalOf (c : PaymentSyncCheckpoint) : FinalCheckpoint := ⟨c.claim, c.verifiedAt⟩

/-- The rotation row after `activate`. -/
def PaymentAccountRotation.activate (retiredId activeId : String) (now : Date) (rollbackWindowMs : Int)
    (r : PaymentAccountRotation) : PaymentAccountRotation :=
  { r with
    status := .activated, version := r.version + 1, final := w.sync.db.checkpoint.map finalOf
    fromEpochId := some (used.epochId.getD retiredId), toEpochId := some activeId
    rollbackDeadline := Date.ofMs? (now.ms + rollbackWindowMs)
    finalFeed := w.sync.db.checkpoint.bind fun c => w.feedOf c.key }

def PaymentAccountRotation.rollBack (r : PaymentAccountRotation) : PaymentAccountRotation :=
  { r with status := .rolledBack, version := r.version + 1 }

/-- Whether `activate` goes through. The unique key lets one epoch be active. -/
def activates (expectedVersion : Nat) (used : MonitoredAccount) (retiredId activeId : String) (now : Date) : Bool :=
  rotation.status = .verified && rotation.version = expectedVersion && used.accountId = rotation.fromAccountId &&
    w.sync.db.checkpoint.all (fun c => c.status = .verified) &&
    !(retiredEpochs w used retiredId now).any (fun e => e.status = .active) &&
    retiredId ∉ w.epochs.map (·.id) && activeId ∉ (retiredEpochs w used retiredId now).map (·.id)

def UserWorld.activate (rollbackWindowMs : Int) (rotation : PaymentAccountRotation) (used : MonitoredAccount)
    (retiredId activeId : String) (now : Date) : UserWorld :=
  { w with
    sync := w.sync.drop fun _ => true
    epochs := retiredEpochs w used retiredId now ++ [⟨activeId, rotation.toAccountId, .active, now⟩]
    rotations := Table.update (fun r => r.id = rotation.id) (.activate w used retiredId activeId now rollbackWindowMs)
      w.rotations }

/-- The epochs after the new account is retired. -/
def PaymentAccountRotation.retired (now : Date) : List PaymentMonitoredAccount :=
  Table.update (fun e => some e.id = rotation.toEpochId && e.status = .active) (.retire now) epochs

/-- The epochs after the old account is active again. -/
def PaymentAccountRotation.restored (now : Date) : List PaymentMonitoredAccount :=
  Table.update (fun e => some e.id = rotation.fromEpochId && e.status = .retired) (.restore now)
    (rotation.retired epochs now)

def rollsBack (expectedVersion : Nat) (now : Date) (checkpointId : String) : Bool :=
  rotation.status = .activated && rotation.version = expectedVersion &&
    rotation.rollbackDeadline.any (fun deadline => now.ms ≤ deadline.ms) &&
    w.epochs.any (fun e => some e.id = rotation.toEpochId && e.status = .active) &&
    (rotation.retired w.epochs now).any (fun e => some e.id = rotation.fromEpochId && e.status = .retired) &&
    !(rotation.retired w.epochs now).any (fun e => e.status = .active) && checkpointId ∉ w.sync.rows.map (·.id)

/-- The old account's final checkpoint, as a new row. -/
def FinalCheckpoint.row (final : FinalCheckpoint) (id : String) (now : Date) : PaymentSyncCheckpoint :=
  { establishedAt final.claim id now with verifiedAt := final.verifiedAt }

def UserWorld.rollBack (checkpointId : String) : UserWorld :=
  let restored : UserWorld :=
    { w with
      epochs := rotation.restored w.epochs now
      rotations := Table.update (fun r => r.id = rotation.id) .rollBack w.rotations }
  match rotation.final with
  | none => { restored with sync := w.sync.drop fun _ => true }
  | some final =>
    { restored with
      sync := (w.sync.drop fun _ => true).create (final.row checkpointId now)
      feedOf := Function.update w.feedOf (final.row checkpointId now).key rotation.finalFeed }

/-! ## The system -/

def userStep (rollbackWindowMs : Int) (w : UserWorld) : UserEvent → Option UserWorld
  | .request p =>
    match w.calls p with
    | none => some (w.withCall p (some ⟨w.walletAddress, .resolving⟩))
    | some _ => none
  | .resolve p =>
    match w.calls p with
    | some ⟨wallet, .resolving⟩ =>
      let used := current w.epochs wallet
      (step cfg w.sync (.start p used.accountId)).map fun sync =>
        { w with sync }.withCall p (some ⟨wallet, .syncing used⟩)
    | _ => none
  | .access p a =>
    match w.sync.syncs p with
    | none => none
    | some s => (step cfg w.sync (.access p a)).map (w.put cfg p s (s.access cfg a w.sync.db))
  | .recheck p =>
    match w.calls p with
    | some ⟨wallet, .syncing used⟩ =>
      (step cfg w.sync (.crash p)).map fun sync =>
        { w with sync }.withCall p ((rechecked used (current w.epochs wallet)).map (⟨wallet, ·⟩))
    | _ => none
  | .date p =>
    match w.calls p with
    | some ⟨wallet, .dating epochId⟩ =>
      some (w.withCall p (some ⟨wallet, .discarding ((w.epochs.find? fun e => e.id = epochId).map (·.updatedAt))⟩))
    | _ => none
  | .discard p =>
    match w.calls p with
    | some ⟨_, .discarding since⟩ =>
      some ({ w with sync := w.sync.drop fun c => since.all fun t : Date => t.ms ≤ c.updatedAt.ms }.withCall p none)
    | _ => none
  | .crash p => (step cfg w.sync (.crash p)).map fun sync => { w with sync }.withCall p none
  | .verify rotation =>
    if rotation.status = .verified ∧ rotation.id ∉ w.rotations.map (·.id) then
      some { w with rotations := w.rotations ++ [rotation] }
    else none
  | .activate id expectedVersion wallet now retiredId activeId =>
    match w.rotations.find? fun r => r.id = id with
    | none => none
    | some rotation =>
      let used := current w.epochs wallet
      if activates w rotation expectedVersion used retiredId activeId now then
        some (w.activate rollbackWindowMs rotation used retiredId activeId now)
      else none
  | .rollback id expectedVersion now checkpointId =>
    match w.rotations.find? fun r => r.id = id with
    | none => none
    | some rotation =>
      if rollsBack w rotation expectedVersion now checkpointId
        then some (w.rollBack rotation now checkpointId) else none
  | .rotateWallet new => some { w with walletAddress := new }

/-! ## What an event does -/

inductive Effect (cfg : Config) (rollbackWindowMs : Int) (w : UserWorld) (e : UserEvent) : UserWorld → Prop
  | calls calls : Effect cfg rollbackWindowMs w e { w with calls }
  /-- A sync starts or ends. -/
  | session sync calls event (hevent : ∀ p a, event ≠ .access p a) (hstep : step cfg w.sync event = some sync) :
    Effect cfg rollbackWindowMs w e { w with sync, calls }
  | access p a s (he : e = .access p a) (hs : w.sync.syncs p = some s) (hfresh : a.freshId ∉ w.sync.rows.map (·.id)) :
    Effect cfg rollbackWindowMs w e
      (w.put cfg p s (s.access cfg a w.sync.db) (w.sync.put p s (s.access cfg a w.sync.db)))
  | discard gone calls : Effect cfg rollbackWindowMs w e { w with sync := w.sync.drop gone, calls }
  | verify rotation (hstatus : rotation.status = .verified) (hfresh : rotation.id ∉ w.rotations.map (·.id)) :
    Effect cfg rollbackWindowMs w e { w with rotations := w.rotations ++ [rotation] }
  | activate rotation id version wallet now retiredId activeId
      (he : e = .activate id version wallet now retiredId activeId) (hrotation : rotation ∈ w.rotations)
      (hactivates : activates w rotation version (current w.epochs wallet) retiredId activeId now) :
    Effect cfg rollbackWindowMs w e
      (w.activate rollbackWindowMs rotation (current w.epochs wallet) retiredId activeId now)
  | rollBack rotation version now checkpointId (hrotation : rotation ∈ w.rotations)
      (hrolls : rollsBack w rotation version now checkpointId) :
    Effect cfg rollbackWindowMs w e (w.rollBack rotation now checkpointId)
  | rotateWallet new (he : e = .rotateWallet new) : Effect cfg rollbackWindowMs w e { w with walletAddress := new }

theorem userStep_effect {cfg : Config} {rollbackWindowMs : Int} {w w' : UserWorld} {e : UserEvent}
    (h : userStep cfg rollbackWindowMs w e = some w') : Effect cfg rollbackWindowMs w e w' := by
  cases e with
  | request | date =>
    simp only [userStep] at h
    split at h
    · cases h
      exact .calls _
    · cases h
  | resolve p =>
    simp only [userStep] at h
    split at h
    · obtain ⟨sync, hstep, rfl⟩ := Option.map_eq_some_iff.mp h
      exact .session sync _ (.start p _) (fun _ _ he => nomatch he) hstep
    · cases h
  | access p a =>
    simp only [userStep] at h
    split at h
    · cases h
    · rename_i s hs
      obtain ⟨sync, hstep, rfl⟩ := Option.map_eq_some_iff.mp h
      rcases step_cases hstep with ⟨_, _, he, -, -⟩ | ⟨q, b, t, he, ht, hfresh, rfl⟩ | ⟨_, he, -⟩
      · cases he
      · obtain ⟨rfl, rfl⟩ := Event.access.inj he
        obtain rfl := Option.some.inj (hs.symm.trans ht)
        exact .access p a s rfl hs hfresh
      · cases he
  | recheck p =>
    simp only [userStep] at h
    split at h
    · obtain ⟨sync, hstep, rfl⟩ := Option.map_eq_some_iff.mp h
      exact .session sync _ (.crash p) (fun _ _ he => nomatch he) hstep
    · cases h
  | discard =>
    simp only [userStep] at h
    split at h
    · cases h
      exact .discard _ _
    · cases h
  | crash p =>
    simp only [userStep] at h
    obtain ⟨sync, hstep, rfl⟩ := Option.map_eq_some_iff.mp h
    exact .session sync _ (.crash p) (fun _ _ he => nomatch he) hstep
  | verify rotation =>
    obtain ⟨hok, rfl⟩ := enabled h
    exact .verify rotation hok.1 hok.2
  | activate id version wallet now retiredId activeId =>
    simp only [userStep] at h
    split at h
    · cases h
    · rename_i rotation hfind
      obtain ⟨hactivates, rfl⟩ := enabled h
      exact .activate rotation id version wallet now retiredId activeId rfl (List.mem_of_find?_eq_some hfind) hactivates
  | rollback id version now checkpointId =>
    simp only [userStep] at h
    split at h
    · cases h
    · rename_i rotation hfind
      obtain ⟨hrolls, rfl⟩ := enabled h
      exact .rollBack rotation version now checkpointId (List.mem_of_find?_eq_some hfind) hrolls
  | rotateWallet new =>
    cases h
    exact .rotateWallet new rfl

end EarnProof.Payments
