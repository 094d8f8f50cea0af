/-
  EarnProof.Auth.WalletRotation — rotations of an account's wallet
  (`src/auth/wallet-rotation.service.ts`) and their removal (`src/auth/cleanup.job.ts`).

  A request cancels the account's pending rotations and creates a new one, in one
  transaction. A completion consumes its rotation, reads it, checks it and both signatures,
  and commits: the account's wallet, the rotation's status and the cancellation of the other
  pending ones in one transaction. Its statements come one after another, and other requests
  and completions may run in between; a completion that fails records why, where the rotation
  is pending still, and any of them may break off.

  The committing transaction writes the rotation by its id alone. A rotation that a newer
  request has cancelled since it was consumed is completed all the same, and the wallet
  changes (`cancelled_then_completed`). Proved: where a transaction commits only while its
  rotation is pending, a rotation that was ever cancelled changes no account and is never
  completed (`superseded_never_applied`).

  `superseded` and `applied` are ghosts: the rotations that became cancelled, and those whose
  transaction changed an account (`db_of_step`).
-/
import EarnProof.Lib.Run
import EarnProof.Auth.Accounts

namespace EarnProof.Auth.Rotation

open Lib Lib.Table Lib.Result Lib.Calendar Database Common.Crypto List

def WALLET_ROTATION_TTL_MS : Int := 5 * 60 * 1000

inductive WalletRotationFailure where
  | networkMismatch | originMismatch | identityChanged | currentSignatureInvalid | replacementSignatureInvalid
  | replacementUnavailable | superseded
  deriving DecidableEq

inductive WalletRotationStatus where
  | pending | completed | failed | cancelled
  deriving DecidableEq

inductive WalletRotationSigner where
  | current | replacement
  deriving DecidableEq

structure AuthenticatedUser where
  id : String
  walletAddress : String
  deriving DecidableEq

structure WalletRotation where
  id : String
  userId : String
  currentWalletAddress : String
  newWalletAddress : String
  nonceHash : String
  currentMessage : String
  newMessage : String
  networkPassphrase : String
  origin : String
  status : WalletRotationStatus
  failureReason : Option WalletRotationFailure
  expiresAt : Date
  consumedAt : Option Date
  completedAt : Option Date
  deriving DecidableEq

/-- The deployment, and what the service calls in libraries: an origin is rejected with a reason. -/
structure Config where
  appUrl : String
  networkPassphrase : String
  normalizeOrigin : String → Except String String
  isValidWalletAddress : String → Bool
  verifyWalletSignature : String → String → String → Bool

/-! ## Requests -/

structure Binding where
  rotationId : String
  nonce : String
  origin : String
  userId : String
  currentWalletAddress : String
  newWalletAddress : String
  expiresAt : Date

variable (cfg : Config) (w : World)

def buildMessage (b : Binding) (signer : WalletRotationSigner) : String :=
  "\n".intercalate
    ["EarnProof wallet rotation",
      "Signer: " ++ (match signer with | .current => "current wallet" | .replacement => "replacement wallet"),
      "Domain: " ++ cfg.appUrl,
      "Origin: " ++ b.origin,
      "Network: " ++ cfg.networkPassphrase,
      "Account: " ++ b.userId,
      "Current Wallet: " ++ b.currentWalletAddress,
      "Replacement Wallet: " ++ b.newWalletAddress,
      "Rotation: " ++ b.rotationId,
      "Nonce: " ++ b.nonce,
      "Expires At: " ++ b.expiresAt.toISOString]

def resolveOrigin (requestOrigin : Option String) : Except String String :=
  (cfg.normalizeOrigin ((requestOrigin.filter (· ≠ "")).getD cfg.appUrl)).mapError ("Invalid origin: " ++ ·)

/-- `initiate` before its transaction: the row it creates. -/
def initiate (user : AuthenticatedUser) (newWalletAddress : String) (requestOrigin : Option String)
    (rotationId nonce : String) (now : Date) : Except String WalletRotation := do
  require (cfg.isValidWalletAddress newWalletAddress = true) "Invalid Stellar public key"
  require (newWalletAddress ≠ user.walletAddress) "Replacement wallet must differ from the current wallet"
  let origin ← resolveOrigin cfg requestOrigin
  let expiresAt ← orThrow (Date.ofMs? (now.ms + WALLET_ROTATION_TTL_MS)) "Invalid time value"
  let binding : Binding := ⟨rotationId, nonce, origin, user.id, user.walletAddress, newWalletAddress, expiresAt⟩
  pure
    { id := rotationId, userId := user.id, currentWalletAddress := user.walletAddress,
      newWalletAddress, nonceHash := sha256 nonce,
      currentMessage := buildMessage cfg binding .current, newMessage := buildMessage cfg binding .replacement,
      networkPassphrase := cfg.networkPassphrase, origin, status := .pending, failureReason := none,
      expiresAt, consumedAt := none, completedAt := none }

/-- The other pending rotations of an account, which a newer one supersedes. -/
def supersedable (userId except : String) (r : WalletRotation) : Bool :=
  r.userId = userId && r.status = .pending && r.id ≠ except

def cancelRow (r : WalletRotation) : WalletRotation :=
  { r with status := .cancelled, failureReason := some .superseded }

/-! ## Completions -/

structure Completion where
  user : AuthenticatedUser
  rotationId : String
  currentSignature : String
  newSignature : String
  requestOrigin : Option String
  /-- The time the completion read when it began. -/
  now : Date
  deriving DecidableEq

def consumable (c : Completion) (r : WalletRotation) : Bool :=
  r.id = c.rotationId && r.userId = c.user.id && r.status = .pending && r.consumedAt = none && c.now < r.expiresAt

/-- The checks between the read and the transaction: the failure that is recorded and the
    answer. -/
def checkRotation (c : Completion) (r : WalletRotation) : Except (WalletRotationFailure × String) Unit := do
  require (r.networkPassphrase = cfg.networkPassphrase) (.networkMismatch, "Rotation network mismatch")
  let origin ← (resolveOrigin cfg c.requestOrigin).mapError fun text => (.originMismatch, text)
  require (r.origin = origin) (.originMismatch, "Rotation origin mismatch")
  require (r.currentWalletAddress = c.user.walletAddress)
    (.identityChanged, "Account wallet changed since the rotation began")
  require (cfg.verifyWalletSignature r.currentWalletAddress r.currentMessage c.currentSignature = true)
    (.currentSignatureInvalid, "Invalid signature for the current wallet")
  require (cfg.verifyWalletSignature r.newWalletAddress r.newMessage c.newSignature = true)
    (.replacementSignatureInvalid, "Invalid signature for the replacement wallet")

/-- The failure of a transaction that was rolled back. -/
def rolledBack : AccountFailure → WalletRotationFailure × String
  | .replacementUnavailable | .uniqueViolation =>
    (.replacementUnavailable, "Replacement wallet is already bound to an account")
  | .identityChanged => (.identityChanged, "Account wallet changed since the rotation began")

def completeRow (now : Date) (r : WalletRotation) : WalletRotation :=
  { r with status := .completed, completedAt := some now }

def failRow (reason : WalletRotationFailure) (r : WalletRotation) : WalletRotation :=
  { r with status := .failed, failureReason := some reason }

/-! ## The system -/

inductive Stage where
  | consumed
  /-- The rotation as it was read, with everything checked. -/
  | checked (r : WalletRotation)
  /-- The failure that is about to be recorded, and the answer. -/
  | failing (failure : WalletRotationFailure × String)
  deriving DecidableEq

structure Task where
  call : Completion
  stage : Stage
  deriving DecidableEq

structure World where
  db : Db
  rotations : List WalletRotation
  tasks : List Task
  /-- The ids that were drawn; a random UUID does not come twice. -/
  issued : List String
  superseded : List String
  applied : List String

def World.start (db : Db) : World := ⟨db, [], [], [], [], []⟩

inductive Event where
  | initiate (user : AuthenticatedUser) (newWalletAddress : String) (requestOrigin : Option String)
      (rotationId nonce : String) (now : Date)
  | consume (c : Completion)
  | read (x : Task)
  | commit (x : Task)
  | recordFailure (x : Task)
  /-- A statement of the completion fails, or its server dies. -/
  | abandon (x : Task)
  | cleanup (cutoff : Date)
  /-- The retention sweep of the audit log takes the row with the default chain columns. -/
  | sweepAudit
  deriving DecidableEq

section

variable (x : Task)

def World.advance (stage : Stage) : World :=
  { w with tasks := w.tasks.erase x ++ [⟨x.call, stage⟩] }

def World.leave : World := { w with tasks := w.tasks.erase x }

def World.supersede (userId except : String) : World :=
  { w with rotations := Table.update (supersedable userId except) cancelRow w.rotations,
           superseded := w.superseded ++ (w.rotations.filter (supersedable userId except)).map WalletRotation.id }

def World.create (row : WalletRotation) : World :=
  let w := w.supersede row.userId row.id
  { w with rotations := w.rotations ++ [row], issued := w.issued ++ [row.id] }

def World.read : World :=
  match w.rotations.find? fun r => r.id = x.call.rotationId with
  | none => w.leave x
  | some r =>
    match checkRotation cfg x.call r with
    | .ok () => w.advance x (.checked r)
    | .error failure => w.advance x (.failing failure)

/-- The rotation is updated by its id, and then the others are cancelled. -/
def World.applyRotation (db : Db) : World :=
  let completed : World :=
    { w.leave x with
      db, applied := w.applied ++ [x.call.rotationId],
      rotations := Table.update (fun r => r.id = x.call.rotationId) (completeRow x.call.now) w.rotations }
  completed.supersede x.call.user.id x.call.rotationId

/-- The transaction of `complete`; it is rolled back also when the rotation's row is gone. -/
def World.commit (r : WalletRotation) : World :=
  match completeRotation w.db x.call.user.id r.currentWalletAddress r.newWalletAddress with
  | .error failure => w.advance x (.failing (rolledBack failure))
  | .ok db => if w.rotations.any fun r => r.id = x.call.rotationId then w.applyRotation x db else w.leave x

def World.recordFailure (reason : WalletRotationFailure) : World :=
  { w.leave x with
    rotations := Table.update (fun r => r.id = x.call.rotationId && r.status = .pending) (failRow reason) w.rotations }

end

def World.consume (c : Completion) : World :=
  { w with rotations := Table.update (consumable c) (fun r => { r with consumedAt := some c.now }) w.rotations,
           tasks := w.tasks ++ [⟨c, .consumed⟩] }

def step : Event → Option World
  | .initiate user newWalletAddress requestOrigin rotationId nonce now =>
    match Rotation.initiate cfg user newWalletAddress requestOrigin rotationId nonce now with
    | .error _ => some w
    | .ok row =>
      if row.id ∈ w.issued then none
      else if w.rotations.any fun r => r.nonceHash = row.nonceHash then some w
      else some (w.create row)
  | .consume c => if w.rotations.any (consumable c) then some (w.consume c) else some w
  | .read x => if x ∈ w.tasks ∧ x.stage = .consumed then some (w.read cfg x) else none
  | .commit x =>
    match x.stage with
    | .checked r => if x ∈ w.tasks then some (w.commit x r) else none
    | _ => none
  | .recordFailure x =>
    match x.stage with
    | .failing failure => if x ∈ w.tasks then some (w.recordFailure x failure.1) else none
    | _ => none
  | .abandon x => if x ∈ w.tasks then some (w.leave x) else none
  | .cleanup cutoff => some { w with rotations := w.rotations.filter fun r => cutoff ≤ r.expiresAt }
  | .sweepAudit => some { w with db := { w.db with auditDefaultRow := false } }

/-! ## What a step does to the rotations -/

/-- What a step leaves of the rotations and of the ghosts. -/
inductive Effect (w : World) : Event → World → Prop
  | same e {w' : World} (husers : w'.db.users = w.db.users) (hrows : w'.rotations = w.rotations)
      (hissued : w'.issued = w.issued)
      (hsup : w'.superseded = w.superseded) (happ : w'.applied = w.applied) : Effect w e w'
  | created e row (hpending : row.status = .pending) (hnew : row.id ∉ w.issued) : Effect w e (w.create row)
  | consumed c : Effect w (.consume c) (w.consume c)
  | applied x r db (hstage : x.stage = .checked r)
      (hdb : completeRotation w.db x.call.user.id r.currentWalletAddress r.newWalletAddress = .ok db)
      (hrow : ∃ row ∈ w.rotations, row.id = x.call.rotationId) : Effect w (.commit x) (w.applyRotation x db)
  | failed x reason : Effect w (.recordFailure x) (w.recordFailure x reason)
  | removed cutoff : Effect w (.cleanup cutoff) { w with rotations := w.rotations.filter fun r => cutoff ≤ r.expiresAt }

variable {cfg : Config} {w w' : World} {row r : WalletRotation} {e : Event}

theorem commit_effect {x : Task} (hstage : x.stage = .checked r) : Effect w (.commit x) (w.commit x r) := by
  unfold World.commit
  split
  · exact .same _ rfl rfl rfl rfl rfl
  · rename_i db hdb
    split
    · rename_i hrow
      obtain ⟨row, hmem, hid⟩ := any_eq_true.mp hrow
      exact .applied x r db hstage hdb ⟨row, hmem, of_decide_eq_true hid⟩
    · exact .same _ rfl rfl rfl rfl rfl

theorem step_effect (h : step cfg w e = some w') : Effect w e w' := by
  cases e with
  | initiate user newWalletAddress requestOrigin rotationId nonce now =>
    simp only [step] at h
    split at h
    · cases h
      exact .same _ rfl rfl rfl rfl rfl
    · rename_i row hrow
      split at h
      · cases h
      · rename_i hnew
        split at h
        · cases h
          exact .same _ rfl rfl rfl rfl rfl
        · cases h
          refine .created _ row ?_ hnew
          obtain ⟨_, _, hrow⟩ := bind_eq_ok.mp hrow
          obtain ⟨_, _, hrow⟩ := bind_eq_ok.mp hrow
          obtain ⟨_, _, hrow⟩ := bind_eq_ok.mp hrow
          obtain ⟨_, _, hrow⟩ := bind_eq_ok.mp hrow
          exact pure_eq_ok.mp hrow ▸ rfl
  | consume c =>
    simp only [step] at h
    split at h
    · cases h
      exact .consumed c
    · cases h
      exact .same _ rfl rfl rfl rfl rfl
  | read x =>
    obtain ⟨-, rfl⟩ := enabled h
    unfold World.read
    repeat' split
    all_goals exact .same _ rfl rfl rfl rfl rfl
  | commit x =>
    simp only [step] at h
    split at h
    · rename_i r hstage
      obtain ⟨-, rfl⟩ := enabled h
      exact commit_effect hstage
    · cases h
  | recordFailure x =>
    simp only [step] at h
    split at h
    · rename_i failure _
      obtain ⟨-, rfl⟩ := enabled h
      exact .failed x failure.1
    · cases h
  | abandon =>
    obtain ⟨-, rfl⟩ := enabled h
    exact .same _ rfl rfl rfl rfl rfl
  | cleanup cutoff =>
    cases h
    exact .removed cutoff
  | sweepAudit =>
    cases h
    exact .same _ rfl rfl rfl rfl rfl

/-- An account changes only in the transaction of a rotation that is then applied. -/
theorem db_of_step (h : step cfg w e = some w') : (w'.db.users = w.db.users ∧ w'.applied = w.applied) ∨
      ∃ x r, e = .commit x ∧ x.stage = .checked r ∧ w'.applied = w.applied ++ [x.call.rotationId] ∧
        completeRotation w.db x.call.user.id r.currentWalletAddress r.newWalletAddress = .ok w'.db := by
  cases step_effect h with
  | same _ husers _ _ _ happ => exact .inl ⟨husers, happ⟩
  | applied x r db hstage hdb => exact .inr ⟨x, r, rfl, hstage, rfl, hdb⟩
  | _ => exact .inl ⟨rfl, rfl⟩

/-! ## Superseded rotations -/

/-- No rotation that was ever cancelled has changed an account, or is completed. -/
def Safe (w : World) : Prop :=
  (∀ id ∈ w.superseded, id ∉ w.applied) ∧ ∀ r ∈ w.rotations, r.id ∈ w.superseded → r.status ≠ .completed
  deriving Decidable

/-- A transaction that goes through finds its rotation pending. -/
def StillPending (w : World) : Event → Prop
  | .commit ⟨c, .checked r⟩ =>
    (completeRotation w.db c.user.id r.currentWalletAddress r.newWalletAddress).isOk →
      ∀ row ∈ w.rotations, row.id = c.rotationId → row.status = .pending
  | _ => True

instance : Decidable (StillPending w e) := by
  unfold StillPending
  split <;> infer_instance

structure Inv (w : World) : Prop where
  ids : (w.rotations.map WalletRotation.id).Nodup
  issued : ∀ r ∈ w.rotations, r.id ∈ w.issued
  cancelled : ∀ r ∈ w.rotations, r.id ∈ w.superseded → r.status = .cancelled
  completed : ∀ r ∈ w.rotations, r.id ∈ w.applied → r.status = .completed
  drawn : ∀ id, id ∈ w.superseded ∨ id ∈ w.applied → id ∈ w.issued
  apart : ∀ id ∈ w.superseded, id ∉ w.applied

theorem inv_start (db : Db) : Inv (World.start db) := by
  refine ⟨?_, ?_, ?_, ?_, ?_, ?_⟩ <;> simp [World.start]

theorem Inv.safe (h : Inv w) : Safe w := by
  refine ⟨h.apart, ?_⟩
  intro r hr hsup hcompleted
  rw [h.cancelled r hr hsup] at hcompleted
  cases hcompleted

/-- A pending rotation is neither cancelled nor applied. -/
theorem Inv.fresh (h : Inv w) (hr : r ∈ w.rotations) (hpending : r.status = .pending) :
    r.id ∉ w.superseded ∧ r.id ∉ w.applied := by
  constructor
  · intro hsup
    rw [h.cancelled r hr hsup] at hpending
    cases hpending
  · intro happ
    rw [h.completed r hr happ] at hpending
    cases hpending

section

variable (h : Inv w)
  (sel : WalletRotation → Bool)
  (data : WalletRotation → WalletRotation)
  (hid : ∀ r, (data r).id = r.id)
  (hpending : ∀ r ∈ w.rotations, sel r → r.status = .pending)

include h hid hpending

/-- An update of pending rotations, which are then cancelled or completed as the ghosts say. -/
theorem Inv.update (hrows : w'.rotations = Table.update sel data w.rotations) (hissued : w'.issued = w.issued)
    (hsup : ∀ id, id ∈ w'.superseded ↔ id ∈ w.superseded ∨ ∃ r ∈ w.rotations, sel r ∧ r.id = id ∧
      (data r).status = .cancelled)
    (happ : ∀ id, id ∈ w'.applied ↔ id ∈ w.applied ∨ ∃ r ∈ w.rotations, sel r ∧ r.id = id ∧
      (data r).status = .completed) : Inv w' := by
  -- the rows of one id are one row, so the ghosts of an updated row are the new ones
  have hone : ∀ {r s : WalletRotation}, r ∈ w.rotations → s ∈ w.rotations → r.id = s.id → r = s := fun hr hs he =>
    eq_of_key h.ids hr hs he
  have hmarked : ∀ {ids ids' : List String} {status : WalletRotationStatus},
      (∀ r ∈ w.rotations, r.id ∈ ids → r.status = status) →
      (∀ id, id ∈ ids' ↔ id ∈ ids ∨ ∃ r ∈ w.rotations, sel r ∧ r.id = id ∧ (data r).status = status) →
      (∀ {r}, r ∈ w.rotations → sel r → r.id ∉ ids) → ∀ r ∈ w'.rotations, r.id ∈ ids' → r.status = status := by
    intro ids ids' status hmarks hids hfresh r' hr' hin
    rw [hrows] at hr'
    obtain ⟨r, hr, ⟨hsel, rfl⟩ | ⟨hsel, rfl⟩⟩ := mem_update_cases hr'
    · rw [hid] at hin
      rcases (hids r.id).mp hin with hold | ⟨s, hmem, -, heq, hstatus⟩
      · exact absurd hold (hfresh hr hsel)
      · obtain rfl := hone hmem hr heq
        exact hstatus
    · rcases (hids _).mp hin with hold | ⟨s, hmem, hs, heq, -⟩
      · exact hmarks _ hr hold
      · obtain rfl := hone hmem hr heq
        rw [hs] at hsel
        cases hsel
  refine ⟨?_, ?_, ?_, ?_, ?_, ?_⟩
  · rw [hrows]
    exact nodup_update WalletRotation.id hid h.ids
  · rw [hrows, hissued]
    exact forall_update h.issued fun r hr _ => (hid r).symm ▸ h.issued r hr
  · exact hmarked h.cancelled hsup fun hr hsel => (h.fresh hr (hpending _ hr hsel)).1
  · exact hmarked h.completed happ fun hr hsel => (h.fresh hr (hpending _ hr hsel)).2
  · intro id hid'
    rw [hissued]
    rcases hid' with hs | ha
    · rcases (hsup id).mp hs with hold | ⟨s, hmem, -, rfl, -⟩
      · exact h.drawn id (.inl hold)
      · exact h.issued s hmem
    · rcases (happ id).mp ha with hold | ⟨s, hmem, -, rfl, -⟩
      · exact h.drawn id (.inr hold)
      · exact h.issued s hmem
  · intro id hs ha
    rcases (hsup id).mp hs with hold | ⟨r, hr, hsel, rfl, hstatus⟩
    · rcases (happ id).mp ha with hold' | ⟨s, hmem, hsel, rfl, -⟩
      · exact h.apart id hold hold'
      · exact (h.fresh hmem (hpending s hmem hsel)).1 hold
    · rcases (happ _).mp ha with hold' | ⟨s, hmem, -, heq, hstatus'⟩
      · exact (h.fresh hr (hpending r hr hsel)).2 hold'
      · obtain rfl := hone hmem hr heq
        rw [hstatus] at hstatus'
        cases hstatus'

/-- An update of pending rotations that leaves them open, or failed. -/
theorem Inv.update_open
    (hopen : ∀ r, r.status = .pending → (data r).status ≠ .cancelled ∧ (data r).status ≠ .completed)
    (hrows : w'.rotations = Table.update sel data w.rotations) (hissued : w'.issued = w.issued)
    (hsup : w'.superseded = w.superseded) (happ : w'.applied = w.applied) : Inv w' := by
  refine h.update sel data hid hpending hrows hissued ?_ ?_
  · intro id
    rw [hsup]
    refine ⟨.inl, ?_⟩
    rintro (hold | ⟨r, hr, hsel, -, hstatus⟩)
    · exact hold
    · exact absurd hstatus (hopen r (hpending r hr hsel)).1
  · intro id
    rw [happ]
    refine ⟨.inl, ?_⟩
    rintro (hold | ⟨r, hr, hsel, -, hstatus⟩)
    · exact hold
    · exact absurd hstatus (hopen r (hpending r hr hsel)).2

end

theorem Inv.supersede (h : Inv w) (userId except : String) : Inv (w.supersede userId except) := by
  refine h.update (supersedable userId except) cancelRow (fun _ => rfl) ?_ rfl rfl ?_ ?_
  · intro r _ hsel
    simp only [supersedable, Bool.and_eq_true, decide_eq_true_eq] at hsel
    exact hsel.1.2
  · intro id
    simp only [World.supersede, mem_append, mem_map, mem_filter]
    constructor
    · rintro (hold | ⟨r, ⟨hr, hsel⟩, rfl⟩)
      · exact .inl hold
      · exact .inr ⟨r, hr, hsel, rfl, rfl⟩
    · rintro (hold | ⟨r, hr, hsel, rfl, -⟩)
      · exact .inl hold
      · exact .inr ⟨r, ⟨hr, hsel⟩, rfl⟩
  · intro id
    simp [World.supersede, cancelRow]

/-- A new pending row with an id that was never drawn. -/
theorem Inv.append (h : Inv w) (hnew : row.id ∉ w.issued) :
    Inv { w with rotations := w.rotations ++ [row], issued := w.issued ++ [row.id] } := by
  have hghost : ∀ {ids : List String}, (∀ id ∈ ids, id ∈ w.issued) → row.id ∉ ids := fun hsub hmem => hnew (hsub _ hmem)
  refine ⟨?_, ?_, ?_, ?_, ?_, h.apart⟩
  · refine nodup_append_row h.ids ?_
    intro r hr heq
    exact hnew (heq ▸ h.issued r hr)
  · refine forall_append_row (fun r hr => mem_append_left _ (h.issued r hr)) ?_
    exact mem_append_right _ (mem_singleton_self _)
  · refine forall_append_row h.cancelled fun hs => ?_
    exact absurd hs (hghost fun id hid => h.drawn id (.inl hid))
  · refine forall_append_row h.completed fun ha => ?_
    exact absurd ha (hghost fun id hid => h.drawn id (.inr hid))
  · intro id hid
    exact mem_append_left _ (h.drawn id hid)

theorem Inv.removed (h : Inv w) (keep : WalletRotation → Bool) :
    Inv { w with rotations := w.rotations.filter keep } := by
  have hsub : ∀ {r : WalletRotation}, r ∈ w.rotations.filter keep → r ∈ w.rotations := fun hr => (mem_filter.mp hr).1
  exact ⟨(filter_sublist.map WalletRotation.id).nodup h.ids, fun r hr => h.issued r (hsub hr),
    fun r hr => h.cancelled r (hsub hr), fun r hr => h.completed r (hsub hr), h.drawn, h.apart⟩

/-- The transaction of a rotation that is pending. -/
theorem Inv.applied (h : Inv w) (x : Task) (db : Db)
    (hpending : ∀ r ∈ w.rotations, r.id = x.call.rotationId → r.status = .pending)
    (hrow : ∃ r ∈ w.rotations, r.id = x.call.rotationId) : Inv (w.applyRotation x db) := by
  refine Inv.supersede ?_ _ _
  refine h.update (fun r => r.id = x.call.rotationId) (completeRow x.call.now) (fun _ => rfl)
    (fun r hr hsel => hpending r hr (of_decide_eq_true hsel)) rfl rfl ?_ ?_
  · intro id
    simp [World.leave, completeRow]
  · intro id
    simp only [mem_append, mem_singleton, decide_eq_true_eq, completeRow, and_true]
    constructor
    · rintro (hold | rfl)
      · exact .inl hold
      · obtain ⟨r, hr, heq⟩ := hrow
        exact .inr ⟨r, hr, heq, heq⟩
    · rintro (hold | ⟨r, hr, heq, rfl⟩)
      · exact .inl hold
      · exact .inr heq

theorem Inv.step (h : Inv w) (hok : StillPending w e) (hstep : step cfg w e = some w') : Inv w' := by
  cases step_effect hstep with
  | same _ _ hrows hissued hsup happ =>
    obtain ⟨a, b, c, d, f, g⟩ := h
    refine ⟨?_, ?_, ?_, ?_, ?_, ?_⟩ <;> simp only [hrows, hissued, hsup, happ] <;> assumption
  | created _ row hpending hnew => exact (h.supersede row.userId row.id).append hnew
  | consumed c =>
    refine h.update_open (consumable c) (fun r => { r with consumedAt := some c.now })
      (fun _ => rfl) ?_ ?_ rfl rfl rfl rfl
    · intro r _ hsel
      unfold consumable at hsel
      simp only [Bool.and_eq_true, decide_eq_true_eq] at hsel
      exact hsel.1.1.2
    · intro r hpending
      simp [hpending]
  | applied x r db hstage hdb hrow =>
    obtain ⟨c, stage⟩ := x
    subst hstage
    exact h.applied _ db (hok (by rw [hdb]; rfl)) hrow
  | failed x reason =>
    refine h.update_open (fun r => r.id = x.call.rotationId && r.status = .pending) (failRow reason)
      (fun _ => rfl) ?_ ?_ rfl rfl rfl rfl
    · intro r _ hsel
      exact of_decide_eq_true (Bool.and_eq_true_iff.mp hsel).2
    · intro r _
      simp [failRow]
  | removed => exact h.removed _

/-- Where every transaction that goes through finds its rotation pending, no rotation that was
    ever cancelled changes an account or is completed. -/
theorem superseded_never_applied (cfg : Config) (db : Db) {w : World}
    (h : Run (step cfg) StillPending (World.start db) w) : Safe w := by
  have hinv : Inv w := h.invariant (inv_start db) fun a e b ha hok hs => ha.step hok hs
  exact hinv.safe

/-! ## A newer request while a completion is under way -/

def demoConfig : Config :=
  ⟨"https://app.earnproof.io", "Test SDF Network ; September 2015", .ok, fun _ => true, fun _ _ _ => true⟩

def demoUser : AuthenticatedUser := ⟨"usr_1", "GOLD"⟩

def demoTime (seconds : Nat) : Date := (Date.ofMs? (1724400000000 + seconds * 1000)).getD .epoch

def demoDb : Db where
  users := [⟨"usr_1", "GOLD", walletHash "GOLD"⟩]

def requested (id address : String) (seconds : Nat) : Event :=
  .initiate demoUser address none id ("nonce of " ++ id) (demoTime seconds)

def completing : Completion := ⟨demoUser, "rot_1", "current", "replacement", none, demoTime 20⟩

/-- The first rotation, as the completion that consumed it reads it. -/
def readRotation : WalletRotation :=
  let binding : Binding := ⟨"rot_1", "nonce of rot_1", demoConfig.appUrl, "usr_1", "GOLD", "GNEW1", demoTime 300⟩
  { id := "rot_1", userId := "usr_1", currentWalletAddress := "GOLD", newWalletAddress := "GNEW1",
    nonceHash := sha256 "nonce of rot_1", currentMessage := buildMessage demoConfig binding .current,
    newMessage := buildMessage demoConfig binding .replacement, networkPassphrase := demoConfig.networkPassphrase,
    origin := demoConfig.appUrl, status := .pending, failureReason := none, expiresAt := demoTime 300,
    consumedAt := some (demoTime 20), completedAt := none }

def underWay : List Event := [requested "rot_1" "GNEW1" 0, .consume completing, .read ⟨completing, .consumed⟩]

/-- A second request cancels the rotation before its transaction. It commits all the same: the
    wallet changes, and the cancelled rotation is completed. -/
theorem cancelled_then_completed :
    ∃ w, Run (step demoConfig) anyStep (World.start demoDb) w ∧ ¬ Safe w ∧ "rot_1" ∈ w.superseded ∧
      (∃ r ∈ w.rotations, r.id = "rot_1" ∧ r.status = .completed) ∧ ∃ u ∈ w.db.users, u.walletAddress = "GNEW1" :=
  Run.exists_of_replay
    (underWay ++ [requested "rot_2" "GNEW2" 21, .commit ⟨completing, .checked readRotation⟩])

/-- The transaction comes first: it is the second request that finds nothing to cancel. -/
theorem superseded_never_applied_completed :
    ∃ w, Run (step demoConfig) StillPending (World.start demoDb) w ∧ Safe w ∧ w.applied = ["rot_1"] ∧
      w.superseded = ["rot_0"] :=
  Run.exists_and
    ([requested "rot_0" "GNEW0" 0] ++ underWay ++
      [.commit ⟨completing, .checked readRotation⟩, requested "rot_2" "GNEW2" 21])
    fun _ hrun hfacts => ⟨superseded_never_applied demoConfig demoDb hrun, hfacts⟩

end EarnProof.Auth.Rotation
