/-
  EarnProof.ApiKeys.Keys — an organization's API keys (`src/api-keys/api-key.service.ts`) and
  their rotations (`src/api-keys/api-key-rotation.service.ts`), as each call reads and writes
  the database, with the writers elsewhere: the sweep of expired keys
  (`src/jobs/api-key-expiration.job.ts`) and the archival and deletion of organizations
  (`src/organizations/organization-lifecycle.service.ts`).

  A rotation leaves two keys: the old one until the overlap's deadline, and its replacement,
  both within the scopes they share. Who is let in with what is decided by the latest rotation
  the key is the old key of and, where there is none, by the latest it is the replacement in
  (`evaluateScopeIntersection`).

  Creation, rotation, cutover and archival write an audit row through the transaction's own
  client, which leaves the chain's columns at their defaults: a second such row violates the
  unique index until the retention sweep has taken the first (`auditDefaultRow`).

  What a write may do to the rows is said once (`Revises`): keys are revoked, rotations leave
  their overlap, and nothing else of either changes.
-/
import EarnProof.Lib.Table
import EarnProof.Lib.Result
import EarnProof.Common.Crypto
import EarnProof.Database.Rows

namespace EarnProof.ApiKeys

open Lib Lib.Table Lib.Result Database Common.Crypto List

/-! ## Rows -/

inductive ApiKeyScope where
  | proofRead | proofVerify | bundlesCreate | paymentRead | paymentWrite | orgRead | orgAdmin
  deriving DecidableEq

inductive ApiKeyRotationStatus where
  | inOverlap | cutover | expired | revoked
  deriving DecidableEq

structure Organization where
  id : String
  archivedAt : Option Int
  deletedAt : Option Int
  deriving DecidableEq

/-- A key with its scope assignments. Times are in milliseconds. -/
structure ApiKey where
  id : String
  organizationId : String
  keyPrefix : String
  keyHash : String
  scopes : List ApiKeyScope
  status : ResourceStatus
  rotatedAt : Option Int
  revokedAt : Option Int
  expiresAt : Option Int
  rotationFamilyId : Option String
  overlapExpiresAt : Option Int
  deriving DecidableEq

structure ApiKeyRotation where
  id : String
  organizationId : String
  familyId : String
  oldKeyId : String
  newKeyId : String
  overlapExpiresAt : Int
  cutoverAt : Option Int
  status : ApiKeyRotationStatus
  createdAt : Int
  deriving DecidableEq

structure Store where
  organizations : List Organization
  keys : List ApiKey
  rotations : List ApiKeyRotation
  /-- Whether an audit row with the default chain columns is stored. -/
  auditDefaultRow : Bool
  deriving DecidableEq

/-- `tx.auditLog.create`. -/
def Store.writeAudit (db : Store) : Except String Store := do
  require (db.auditDefaultRow = false) "Unique constraint failed"
  pure { db with auditDefaultRow := true }

/-! ## Secrets -/

/-- What the guard takes for an API key: 43 characters of base64url. -/
def isRawKey (text : String) : Bool := text.toList.length = 43 && text.toList.all isBase64urlChar

/-- `generateSecret`: 32 random bytes in base64url. -/
structure RawKey where
  text : String
  wellFormed : isRawKey text
  deriving DecidableEq

/-- `secret.substring(0, 8)`. -/
def prefixOf (secret : String) : String := String.ofList (secret.toList.take 8)

def hashSecret (secret : String) : String := sha256 secret

def verifySecret (secret storedHash : String) : Bool :=
  let stored := storedHash.toList
  let storedBuffer := if stored.length = 64 && stored.all isHex then hexBytes stored else List.replicate 32 0
  hexBytes (hashSecret secret).toList = storedBuffer

/-! ## Authentication -/

def calculateScopeIntersection (scopesA scopesB : List ApiKeyScope) : List ApiKeyScope :=
  scopesA.filter fun s => scopesB.contains s

@[simp] theorem mem_calculateScopeIntersection {a b : List ApiKeyScope} {s : ApiKeyScope} :
    s ∈ calculateScopeIntersection a b ↔ s ∈ a ∧ s ∈ b := by
  simp [calculateScopeIntersection]

section

variable (db : Store) (now : Int) (keyId : String) (keyScopes : List ApiKeyScope) (organizationId : String)
  (r : ApiKeyRotation) (p : RotationPlan)

def Store.scopesOf : List ApiKeyScope :=
  ((db.keys.find? fun k => k.id = keyId).map (·.scopes)).getD []

def Store.oldKeyRotation : Option ApiKeyRotation :=
  Table.latest (·.createdAt) (fun r => r.oldKeyId = keyId && r.organizationId = organizationId) db.rotations

def Store.newKeyRotation : Option ApiKeyRotation :=
  Table.latest (·.createdAt) (fun r => r.newKeyId = keyId && r.organizationId = organizationId) db.rotations

structure ScopeIntersectionPolicyEvaluation where
  allowed : Bool
  effectiveScopes : List ApiKeyScope
  isOldKeyInOverlap : Bool
  rotationId : Option String
  reason : Option String
  deriving DecidableEq

/-- The policy for the old key of a rotation. -/
def evaluateOldKey : ScopeIntersectionPolicyEvaluation :=
  if r.status = .cutover ∨ r.status = .revoked then
    ⟨false, [], true, some r.id, some "Key has been cut over or revoked"⟩
  else if r.overlapExpiresAt ≤ now then
    ⟨false, [], true, some r.id, some "Rotation overlap deadline expired"⟩
  else
    ⟨true, calculateScopeIntersection keyScopes (db.scopesOf r.newKeyId), true, some r.id, none⟩

/-- The policy for a key that is the old key of no rotation. -/
def evaluateNewKey : Option ApiKeyRotation → ScopeIntersectionPolicyEvaluation
  | some r =>
    if r.status = .inOverlap then
      if r.overlapExpiresAt ≤ now then ⟨true, keyScopes, false, some r.id, none⟩
      else ⟨true, calculateScopeIntersection keyScopes (db.scopesOf r.oldKeyId), false, some r.id, none⟩
    else ⟨true, keyScopes, false, none, none⟩
  | none => ⟨true, keyScopes, false, none, none⟩

def evaluateScopeIntersection : ScopeIntersectionPolicyEvaluation :=
  match db.oldKeyRotation keyId organizationId with
  | some r => evaluateOldKey db now keyScopes r
  | none => evaluateNewKey db now keyScopes (db.newKeyRotation keyId organizationId)

/-- The rotation an evaluation moves to EXPIRED on its way, without waiting for the write. -/
def expiringRotation : Option String :=
  ((db.oldKeyRotation keyId organizationId).filter fun r =>
    r.status = .inOverlap && r.overlapExpiresAt ≤ now).map (·.id)

def ApiKey.unexpired (k : ApiKey) (now : Int) : Bool :=
  match k.expiresAt with
  | none => true
  | some t => now < t

/-- `organization: { archivedAt: null }`. -/
def Store.live : Bool :=
  db.organizations.any fun o => o.id = organizationId && o.archivedAt = none

/-- The key an uncached lookup finds. -/
def Store.findKey (dbNow : Int) (keyPrefix organizationId : String) : Option ApiKey :=
  db.keys.find? fun k =>
    k.keyPrefix = keyPrefix && k.organizationId = organizationId && k.status = .active && k.unexpired dbNow
      && db.live k.organizationId

/-- What an uncached lookup returns, and whether it is put in the cache. -/
structure Verified where
  apiKey : ApiKey
  cached : Bool
  deriving DecidableEq

/-- `lookupAndVerifyKey` past the cache. -/
def Store.lookupKey (keyPrefix secret organizationId : String) : Option Verified := do
  let apiKey ← db.findKey now keyPrefix organizationId
  guard (verifySecret secret apiKey.keyHash = true)
  let evalResult := evaluateScopeIntersection db now apiKey.id apiKey.scopes organizationId
  guard (evalResult.allowed = true)
  pure ⟨{ apiKey with scopes := evalResult.effectiveScopes }, !evalResult.isOldKeyInOverlap⟩

/-! ## Creation and rotation -/

structure Quotas where
  maxActiveApiKeys : Nat
  deriving DecidableEq

def assertCapacity (quotas : Quotas) (db : Store) (now : Int) (organizationId : String) : Except String Unit :=
  require
    ((db.keys.countP fun k => k.organizationId = organizationId && k.status = .active && k.unexpired now)
      < quotas.maxActiveApiKeys)
    (s!"Organization active API key quota of {quotas.maxActiveApiKeys} reached; "
      ++ "remove unused resources to free capacity.")

/-- `tx.apiKey.create`: the id, the hash and each scope of a key are unique. -/
def Store.insertKey (row : ApiKey) : Except String Store := do
  require (db.organizations.any (fun o => o.id = row.organizationId) = true) "Foreign key constraint violated"
  require (db.keys.all (fun k => k.id ≠ row.id && k.keyHash ≠ row.keyHash) = true) "Unique constraint failed"
  require row.scopes.Nodup "Unique constraint failed"
  pure { db with keys := db.keys ++ [row] }

structure Fresh where
  keyId : String
  rotationId : String
  secret : RawKey
  deriving DecidableEq

section

variable (quotas : Quotas) (db : Store)

def createKey (now : Int) (organizationId : String)
    (scopes : Option (List ApiKeyScope)) (expiresAt : Option Int) (fresh : Fresh) : Except String Store := do
  assertCapacity quotas db now organizationId
  let db ← db.insertKey
    { id := fresh.keyId, organizationId, keyPrefix := prefixOf fresh.secret.text,
      keyHash := hashSecret fresh.secret.text, scopes := scopes.getD [], status := .active, rotatedAt := none,
      revokedAt := none, expiresAt, rotationFamilyId := none, overlapExpiresAt := none }
  db.writeAudit

def DEFAULT_ROTATION_OVERLAP_MS : Int := 24 * 60 * 60 * 1000
def MIN_ROTATION_OVERLAP_MS : Int := 60 * 1000
def MAX_ROTATION_OVERLAP_MS : Int := 30 * 24 * 60 * 60 * 1000

structure RotateApiKeyDto where
  overlapDurationMs : Option Int
  scopes : Option (List ApiKeyScope)
  bounded : ∀ d ∈ overlapDurationMs, MIN_ROTATION_OVERLAP_MS ≤ d ∧ d ≤ MAX_ROTATION_OVERLAP_MS
  deriving DecidableEq

/-- The checks of `rotateKey` on the key it read. -/
def checkExisting (existing : Option ApiKey) : Except String Unit :=
  match existing with
  | none => pure ()
  | some k => do
    require (k.organizationId = organizationId) "Key does not belong to this organization"
    require (k.status = .active) "Cannot rotate an inactive, revoked, or expired API key"

/-- The replay guard, on the latest rotation of the key. -/
def checkReplay (latest : Option ApiKeyRotation) : Except String Unit :=
  match latest with
  | none => pure ()
  | some r => do
    require (r.status ≠ .inOverlap) "Key already has an active rotation in progress"
    require (r.status ≠ .cutover ∧ r.status ≠ .expired) "Cannot rotate an API key that has already been rotated"

structure RotationPlan where
  keyId : String
  organizationId : String
  familyId : String
  newScopes : List ApiKeyScope
  now : Int
  overlapExpiresAt : Int
  deriving DecidableEq

def rotationPlan (dto : RotateApiKeyDto) (existing : Option ApiKey) (now : Int) : RotationPlan :=
  let overlapEnd := now + dto.overlapDurationMs.getD DEFAULT_ROTATION_OVERLAP_MS
  { keyId, organizationId,
    familyId := (existing.bind (·.rotationFamilyId)).getD keyId,
    newScopes := dto.scopes.getD ((existing.map (·.scopes)).getD []),
    now,
    overlapExpiresAt := match existing.bind (·.expiresAt) with
      | some t => min t overlapEnd
      | none => overlapEnd }

def RotationPlan.oldRow (k : ApiKey) : ApiKey :=
  { k with
    rotatedAt := some p.now
    rotationFamilyId := some p.familyId
    overlapExpiresAt := some p.overlapExpiresAt
    expiresAt := some p.overlapExpiresAt }

def RotationPlan.newRow (fresh : Fresh) : ApiKey :=
  { id := fresh.keyId, organizationId := p.organizationId, keyPrefix := prefixOf fresh.secret.text,
    keyHash := hashSecret fresh.secret.text, scopes := p.newScopes, status := .active, rotatedAt := none,
    revokedAt := none, expiresAt := none, rotationFamilyId := some p.familyId, overlapExpiresAt := none }

def RotationPlan.rotation (fresh : Fresh) (createdAt : Int) : ApiKeyRotation :=
  { id := fresh.rotationId, organizationId := p.organizationId, familyId := p.familyId, oldKeyId := p.keyId,
    newKeyId := fresh.keyId, overlapExpiresAt := p.overlapExpiresAt, cutoverAt := none, status := .inOverlap,
    createdAt }

def commitRotation (clock : Int) (p : RotationPlan) (fresh : Fresh) :
    Except String Store := do
  require (db.rotations.all (fun r => !(r.oldKeyId = p.keyId && r.status = .inOverlap)) = true)
    "Key already has an active rotation in progress"
  assertCapacity quotas db clock p.organizationId
  require (db.keys.any (fun k => k.id = p.keyId && k.organizationId = p.organizationId) = true)
    "Record to update not found"
  let db ← { db with keys := Table.update (fun k => k.id = p.keyId) p.oldRow db.keys }.insertKey (p.newRow fresh)
  require (db.rotations.all (fun r => r.id ≠ fresh.rotationId) = true) "Unique constraint failed"
  { db with rotations := db.rotations ++ [p.rotation fresh clock] }.writeAudit

/-- `rotateKey`, with nothing in between its statements. -/
def rotateKey (now : Int) (keyId organizationId : String) (dto : RotateApiKeyDto)
    (fresh : Fresh) : Except String Store := do
  let existing := db.keys.find? fun k => k.id = keyId
  checkExisting organizationId existing
  checkReplay (db.oldKeyRotation keyId organizationId)
  commitRotation quotas db now (rotationPlan keyId organizationId dto existing now) fresh

end

/-! ## Revocation and cutover -/

def ApiKey.revoke (k : ApiKey) : ApiKey := { k with status := .revoked, revokedAt := some now }

def ApiKeyRotation.close (status : ApiKeyRotationStatus) (r : ApiKeyRotation) : ApiKeyRotation :=
  { r with status }

def ApiKeyRotation.cutOver : ApiKeyRotation :=
  { r with status := .cutover, cutoverAt := some now }

/-- `findFirst` without an order: any row the condition picks, and `choice` says which. -/
def pick (choice : String) (sel : ApiKeyRotation → Bool) (rows : List ApiKeyRotation) : Option ApiKeyRotation :=
  (rows.find? fun r => r.id = choice && sel r).or (rows.find? sel)

def COMPROMISE : String := "COMPROMISE"

structure FamilyRevocation where
  affectedKeyIds : List String
  wasFamilyRevocation : Bool
  deriving DecidableEq

/-- The rotations `handleFamilyRevocation` looks among. -/
def inFamily : Bool :=
  r.organizationId = organizationId && (r.oldKeyId = keyId || r.newKeyId = keyId) && r.status = .inOverlap

def handleFamilyRevocation (reason : Option String) (choice : String) : Except String (Store × FamilyRevocation) :=
  match pick choice (inFamily keyId organizationId) db.rotations with
  | none => pure (db, ⟨[keyId], false⟩)
  | some r =>
    if reason = some COMPROMISE then do
      let db ← { db with
        keys := Table.update (fun k => (k.id = r.oldKeyId || k.id = r.newKeyId) && k.organizationId = organizationId)
          (ApiKey.revoke now) db.keys
        rotations := Table.update (fun x => x.id = r.id) (ApiKeyRotation.close .revoked) db.rotations }.writeAudit
      pure (db, ⟨[r.oldKeyId, r.newKeyId], true⟩)
    else if keyId = r.oldKeyId then do
      let db ← { db with
        keys := Table.update (fun k => k.id = r.oldKeyId) (ApiKey.revoke now) db.keys
        rotations := Table.update (fun x => x.id = r.id) (ApiKeyRotation.cutOver now) db.rotations }.writeAudit
      pure (db, ⟨[r.oldKeyId], true⟩)
    else
      -- the replacement key: the rotation is aborted, and no audit row is written
      pure
        ({ db with
            keys := Table.update (fun k => k.id = r.newKeyId) (ApiKey.revoke now) db.keys
            rotations := Table.update (fun x => x.id = r.id) (ApiKeyRotation.close .revoked) db.rotations },
          ⟨[r.newKeyId], true⟩)

/-- `revokeKey` of a key in no overlap. Its audit row is chained, outside a transaction. -/
def revokeSingle : Except String Store := do
  require (db.keys.any (fun k => k.id = keyId && k.organizationId = organizationId) = true) "Key not found"
  pure { db with
    keys := Table.update (fun k => k.id = keyId && k.organizationId = organizationId) (ApiKey.revoke now) db.keys }

/-- `revokeKey`, with nothing in between its statements. -/
def revokeKey (reason : Option String) (choice : String) : Except String Store := do
  let (db, familyResult) ← handleFamilyRevocation db now keyId organizationId reason choice
  if familyResult.wasFamilyRevocation then pure db else revokeSingle db now keyId organizationId

def ofFamily : Bool :=
  r.organizationId = organizationId && (r.oldKeyId = keyId || r.newKeyId = keyId || r.familyId = keyId)

def earlyCutover (choice : String) : Except String Store :=
  match pick choice (fun r => ofFamily keyId organizationId r && r.status = .inOverlap) db.rotations with
  | none =>
    if db.rotations.any (fun r => ofFamily keyId organizationId r && r.status = .cutover) then
      .error "API key rotation has already been cut over"
    else .error "No active rotation in overlap found for this API key"
  | some r =>
    { db with
      keys := Table.update (fun k => k.id = r.oldKeyId) (ApiKey.revoke now) db.keys
      rotations := Table.update (fun x => x.id = r.id) (ApiKeyRotation.cutOver now) db.rotations }.writeAudit

/-- The write an evaluation leaves behind; it is by id alone. -/
def expireRotation (rotationId : String) : Store :=
  { db with rotations := Table.update (fun r => r.id = rotationId) (ApiKeyRotation.close .expired) db.rotations }

def sweepKey (dbNow : Int) (keyId : String) : Store :=
  { db with keys := Table.update (fun k => k.id = keyId && k.status = .active) (ApiKey.revoke dbNow) db.keys }

def sweepCandidates (dbNow : Int) : List String :=
  (db.keys.filter fun k => k.status = .active && !k.unexpired dbNow).map (·.id)

/-! ## Organizations -/

def archive : Except String Store := do
  require
    (db.organizations.any (fun o => o.id = organizationId && o.archivedAt = none && o.deletedAt = none) = true)
    "Organization is already archived"
  { db with
    organizations := Table.update (fun o => o.id = organizationId && o.archivedAt = none && o.deletedAt = none)
      (fun o => { o with archivedAt := some now }) db.organizations }.writeAudit

def restore : Except String Store := do
  require
    (db.organizations.any (fun o => o.id = organizationId && o.archivedAt ≠ none && o.deletedAt = none) = true)
    "Organization is not archived"
  { db with
    organizations := Table.update (fun o => o.id = organizationId && o.archivedAt ≠ none && o.deletedAt = none)
      (fun o => { o with archivedAt := none }) db.organizations }.writeAudit

/-- What deletion does to the keys of an archived organization. The other blockers (the archive's
    retention period, a legal hold, its issuers) only refuse it for longer. -/
def deleteOrganization : Except String Store := do
  require
    (db.organizations.any (fun o => o.id = organizationId && o.archivedAt ≠ none && o.deletedAt = none) = true)
    "Organization cannot be deleted"
  { db with
    keys := Table.update (fun k => k.organizationId = organizationId && k.status ≠ ResourceStatus.revoked)
      (ApiKey.revoke now) db.keys
    organizations := Table.update (fun o => o.id = organizationId) (fun o => { o with deletedAt := some now })
      db.organizations }.writeAudit

/-! ## What the writes may change -/

def KeyRevised (revoked : String → Prop) (k k' : ApiKey) : Prop :=
  k' = k ∨ revoked k.id ∧ ∃ t, k' = k.revoke t

/-- A rotation keeps what it was made with, and its status moves out of the overlap only; EXPIRED it
    becomes no earlier than its deadline. -/
structure RotationRevised (now : Int) (r r' : ApiKeyRotation) : Prop where
  id : r'.id = r.id
  organizationId : r'.organizationId = r.organizationId
  oldKeyId : r'.oldKeyId = r.oldKeyId
  newKeyId : r'.newKeyId = r.newKeyId
  overlapExpiresAt : r'.overlapExpiresAt = r.overlapExpiresAt
  createdAt : r'.createdAt = r.createdAt
  status : r'.status = r.status ∨ r'.status = .cutover ∨ r'.status = .revoked
    ∨ r'.status = .expired ∧ r.overlapExpiresAt ≤ now

/-- A write that only revokes keys and closes rotations. -/
structure Revises (now : Int) (revoked : String → Prop) (db db' : Store) : Prop where
  keys : Forall₂ (KeyRevised revoked) db.keys db'.keys
  rotations : Forall₂ (RotationRevised now) db.rotations db'.rotations

end

variable {revoked : String → Prop} {now : Int} {db db' : Store} {choice keyId : String}

theorem KeyRevised.refl (k : ApiKey) : KeyRevised revoked k k := .inl rfl

theorem RotationRevised.refl (r : ApiKeyRotation) : RotationRevised now r r :=
  ⟨rfl, rfl, rfl, rfl, rfl, rfl, .inl rfl⟩

theorem RotationRevised.close (r : ApiKeyRotation) : RotationRevised now r (r.close .revoked) :=
  ⟨rfl, rfl, rfl, rfl, rfl, rfl, .inr (.inr (.inl rfl))⟩

theorem RotationRevised.cutOver (t : Int) (r : ApiKeyRotation) : RotationRevised now r (r.cutOver t) :=
  ⟨rfl, rfl, rfl, rfl, rfl, rfl, .inr (.inl rfl)⟩

/-- A rotation that is in its overlap was in it before. -/
theorem RotationRevised.was_inOverlap {r r' : ApiKeyRotation} (h : RotationRevised now r r')
    (hin : r'.status = .inOverlap) : r.status = .inOverlap := by
  rcases h.status with hs | hs | hs | ⟨hs, -⟩
  · exact hs ▸ hin
  · exact absurd (hs.symm.trans hin) (by decide)
  · exact absurd (hs.symm.trans hin) (by decide)
  · exact absurd (hs.symm.trans hin) (by decide)

variable {k k' : ApiKey}

theorem KeyRevised.id (h : KeyRevised revoked k k') : k'.id = k.id := by
  rcases h with rfl | ⟨-, t, rfl⟩ <;> rfl

theorem KeyRevised.organizationId (h : KeyRevised revoked k k') : k'.organizationId = k.organizationId := by
  rcases h with rfl | ⟨-, t, rfl⟩ <;> rfl

theorem keys_revoked {sel : ApiKey → Bool} {keys : List ApiKey} {t : Int}
    (h : ∀ k ∈ keys, sel k → revoked k.id) :
    Forall₂ (KeyRevised revoked) keys (Table.update sel (ApiKey.revoke t) keys) :=
  forall₂_update .refl fun k hk hs => .inr ⟨h k hk hs, t, rfl⟩

theorem keys_kept (keys : List ApiKey) : Forall₂ (KeyRevised revoked) keys keys :=
  forall₂_same.mpr fun k _ => .refl k

theorem rotations_kept (rotations : List ApiKeyRotation) : Forall₂ (RotationRevised now) rotations rotations :=
  forall₂_same.mpr fun r _ => .refl r

theorem Revises.weaken {revoked' : String → Prop}
    (h : Revises now revoked db db') (himp : ∀ id, revoked id → revoked' id) : Revises now revoked' db db' :=
  ⟨h.keys.imp fun k _ hk => hk.imp_right fun hr => ⟨himp k.id hr.1, hr.2⟩, h.rotations⟩

theorem Revises.same (hkeys : db'.keys = db.keys)
    (hrotations : db'.rotations = db.rotations) : Revises now revoked db db' := by
  refine ⟨?_, ?_⟩
  · rw [hkeys]
    exact keys_kept _
  · rw [hrotations]
    exact rotations_kept _

theorem writeAudit_eq_ok (h : db.writeAudit = .ok db') : db' = { db with auditDefaultRow := true } := by
  obtain ⟨-, -, h⟩ := bind_eq_ok.mp h
  exact (pure_eq_ok.mp h).symm

variable {r : ApiKeyRotation} {sel : ApiKeyRotation → Bool} {rows : List ApiKeyRotation} {organizationId : String}
  {reason : Option String} {quotas : Quotas} {fresh : Fresh}

theorem pick_mem (h : pick choice sel rows = some r) : r ∈ rows ∧ sel r := by
  rcases Option.or_eq_some_iff.mp h with h | ⟨-, h⟩
  · have hr := find?_some h
    simp only [Bool.and_eq_true] at hr
    exact ⟨mem_of_find?_eq_some h, hr.2⟩
  · exact ⟨mem_of_find?_eq_some h, find?_some h⟩

/-- Any row the condition picks can be the one that is found. -/
theorem pick_choice (hids : (rows.map (·.id)).Nodup)
    (hr : r ∈ rows) (hsel : sel r) : pick r.id sel rows = some r := by
  have hfind : (rows.find? fun x => x.id = r.id && sel x) = some r := by
    cases hf : rows.find? fun x => x.id = r.id && sel x with
    | none =>
      have hnot := find?_eq_none.mp hf r hr
      simp [hsel] at hnot
    | some =>
      have hx := find?_some hf
      simp only [Bool.and_eq_true, decide_eq_true_eq] at hx
      rw [eq_of_key hids (mem_of_find?_eq_some hf) hr hx.1]
  unfold pick
  rw [hfind, Option.some_or]

/-- What a revocation of a family does: nothing, or the keys it names are revoked. -/
theorem handleFamilyRevocation_revises {res : FamilyRevocation}
    (h : handleFamilyRevocation db now keyId organizationId reason choice = .ok (db', res)) :
    db'.organizations = db.organizations
      ∧ (res.wasFamilyRevocation = false ∧ db' = db
        ∨ res.wasFamilyRevocation ∧ Revises now (fun id => id ∈ res.affectedKeyIds) db db') := by
  unfold handleFamilyRevocation at h
  split at h
  · obtain ⟨rfl, rfl⟩ := Prod.mk.inj (pure_eq_ok.mp h)
    exact ⟨rfl, .inl ⟨rfl, rfl⟩⟩
  · split at h
    · obtain ⟨db₁, haudit, h⟩ := bind_eq_ok.mp h
      obtain ⟨rfl, rfl⟩ := Prod.mk.inj (pure_eq_ok.mp h)
      obtain rfl := writeAudit_eq_ok haudit
      refine ⟨rfl, .inr ⟨rfl, keys_revoked ?_, forall₂_update .refl fun x _ _ => .close x⟩⟩
      intro k _ hs
      simp only [Bool.and_eq_true, Bool.or_eq_true, decide_eq_true_eq] at hs
      simpa using hs.1
    · split at h
      · obtain ⟨db₁, haudit, h⟩ := bind_eq_ok.mp h
        obtain ⟨rfl, rfl⟩ := Prod.mk.inj (pure_eq_ok.mp h)
        obtain rfl := writeAudit_eq_ok haudit
        refine ⟨rfl, .inr ⟨rfl, keys_revoked ?_, forall₂_update .refl fun x _ _ => .cutOver now x⟩⟩
        intro k _ hs
        simpa using hs
      · obtain ⟨rfl, rfl⟩ := Prod.mk.inj (pure_eq_ok.mp h)
        refine ⟨rfl, .inr ⟨rfl, keys_revoked ?_, forall₂_update .refl fun x _ _ => .close x⟩⟩
        intro k _ hs
        simpa using hs

theorem revokeSingle_revises (h : revokeSingle db now keyId organizationId = .ok db') :
    db'.organizations = db.organizations ∧ Revises now (fun id => id = keyId) db db' := by
  obtain ⟨-, -, h⟩ := bind_eq_ok.mp h
  cases h
  refine ⟨rfl, keys_revoked ?_, rotations_kept _⟩
  intro k _ hs
  simp only [Bool.and_eq_true, decide_eq_true_eq] at hs
  exact hs.1

theorem revokeKey_revises
    (h : revokeKey db now keyId organizationId reason choice = .ok db') : Revises now (fun _ => True) db db' := by
  obtain ⟨⟨db₁, res⟩, hfamily, hrest⟩ := bind_eq_ok.mp h
  dsimp only at hrest
  obtain ⟨-, ⟨hwas, rfl⟩ | ⟨hwas, hrev⟩⟩ := handleFamilyRevocation_revises hfamily
  · rw [if_neg (by simp [hwas])] at hrest
    exact (revokeSingle_revises hrest).2.weaken fun _ _ => trivial
  · rw [if_pos hwas] at hrest
    cases hrest
    exact hrev.weaken fun _ _ => trivial

/-- A cutover revokes the old key of a rotation in its overlap. -/
theorem earlyCutover_revises (h : earlyCutover db now keyId organizationId choice = .ok db') :
    db'.organizations = db.organizations
      ∧ ∃ r ∈ db.rotations, Revises now (fun id => id = r.oldKeyId) db db' := by
  unfold earlyCutover at h
  split at h
  · split at h <;> cases h
  · rename_i r hr
    obtain rfl := writeAudit_eq_ok h
    refine ⟨rfl, r, (pick_mem hr).1, keys_revoked ?_, forall₂_update .refl fun x _ _ => .cutOver now x⟩
    intro k _ hs
    simpa using hs

theorem expireRotation_revises {rotationId : String}
    (h : ∀ r ∈ db.rotations, r.id = rotationId → r.overlapExpiresAt ≤ now) :
    Revises now revoked db (expireRotation db rotationId) := by
  refine ⟨keys_kept _, forall₂_update .refl fun r hr hs => ?_⟩
  exact ⟨rfl, rfl, rfl, rfl, rfl, rfl, .inr (.inr (.inr ⟨rfl, h r hr (by simpa using hs)⟩))⟩

theorem sweepKey_revises (db : Store) (now dbNow : Int) (keyId : String) :
    Revises now (fun id => id = keyId) db (sweepKey db dbNow keyId) := by
  refine ⟨keys_revoked ?_, rotations_kept _⟩
  intro k _ hs
  simp only [Bool.and_eq_true, decide_eq_true_eq] at hs
  exact hs.1

/-- Deletion revokes keys of an archived organization only. -/
theorem deleteOrganization_revises (h : deleteOrganization db now organizationId = .ok db') :
    (∃ o ∈ db.organizations, o.id = organizationId ∧ o.archivedAt ≠ none)
      ∧ db'.organizations = Table.update (fun o => o.id = organizationId) (fun o => { o with deletedAt := some now })
        db.organizations
      ∧ Revises now (fun id => ∃ k ∈ db.keys, k.id = id ∧ k.organizationId = organizationId) db db' := by
  obtain ⟨_, hreq, h⟩ := bind_eq_ok.mp h
  obtain rfl := writeAudit_eq_ok h
  obtain ⟨o, ho, hsel⟩ := any_eq_true.mp (require_eq_ok.mp hreq)
  simp only [Bool.and_eq_true, decide_eq_true_eq] at hsel
  refine ⟨⟨o, ho, hsel.1.1, hsel.1.2⟩, rfl, keys_revoked ?_, rotations_kept _⟩
  intro k hk hs
  simp only [Bool.and_eq_true, decide_eq_true_eq] at hs
  exact ⟨k, hk, rfl, hs.1⟩

/-- A new row of a key is unlike every other. -/
theorem insertKey_eq_ok {row : ApiKey} (h : db.insertKey row = .ok db') :
    db' = { db with keys := db.keys ++ [row] } ∧ (∀ k ∈ db.keys, k.id ≠ row.id) := by
  obtain ⟨-, -, h⟩ := bind_eq_ok.mp h
  obtain ⟨_, hunique, h⟩ := bind_eq_ok.mp h
  obtain ⟨-, -, h⟩ := bind_eq_ok.mp h
  refine ⟨(pure_eq_ok.mp h).symm, fun k hk => ?_⟩
  have hrow := all_eq_true.mp (require_eq_ok.mp hunique) k hk
  simp only [Bool.and_eq_true, decide_eq_true_eq] at hrow
  exact hrow.1

theorem createKey_eq_ok {scopes : Option (List ApiKeyScope)} {expiresAt : Option Int}
    (h : createKey quotas db now organizationId scopes expiresAt fresh = .ok db') :
    (∀ k ∈ db.keys, k.id ≠ fresh.keyId)
      ∧ ∃ row : ApiKey, row.id = fresh.keyId ∧ row.organizationId = organizationId
        ∧ row.keyPrefix = prefixOf fresh.secret.text
        ∧ db' = { db with keys := db.keys ++ [row], auditDefaultRow := true } := by
  obtain ⟨-, -, h⟩ := bind_eq_ok.mp h
  obtain ⟨db₁, hins, h⟩ := bind_eq_ok.mp h
  obtain ⟨rfl, hnew⟩ := insertKey_eq_ok hins
  obtain rfl := writeAudit_eq_ok h
  exact ⟨hnew, _, rfl, rfl, rfl, rfl⟩

/-- What the transaction of a rotation found, and the rows it leaves. -/
structure Rotated (db : Store) (clock : Int) (p : RotationPlan) (fresh : Fresh) (db' : Store) : Prop where
  closed : ∀ r ∈ db.rotations, r.oldKeyId = p.keyId → r.status ≠ .inOverlap
  known : ∃ k ∈ db.keys, k.id = p.keyId ∧ k.organizationId = p.organizationId
  freshKey : ∀ k ∈ db.keys, k.id ≠ fresh.keyId
  freshRotation : ∀ r ∈ db.rotations, r.id ≠ fresh.rotationId
  after : db' =
    { db with
      keys := Table.update (fun k => k.id = p.keyId) p.oldRow db.keys ++ [p.newRow fresh]
      rotations := db.rotations ++ [p.rotation fresh clock]
      auditDefaultRow := true }

theorem commitRotation_eq_ok {clock : Int} {p : RotationPlan}
    (h : commitRotation quotas db clock p fresh = .ok db') : Rotated db clock p fresh db' := by
  obtain ⟨_, hclosed, h⟩ := bind_eq_ok.mp h
  obtain ⟨-, -, h⟩ := bind_eq_ok.mp h
  obtain ⟨_, hknown, h⟩ := bind_eq_ok.mp h
  obtain ⟨db₁, hins, h⟩ := bind_eq_ok.mp h
  obtain ⟨rfl, hkey⟩ := insertKey_eq_ok hins
  obtain ⟨_, hrot, h⟩ := bind_eq_ok.mp h
  refine ⟨?_, ?_, ?_, ?_, writeAudit_eq_ok h⟩
  · intro r hr hold hin
    have hnot := all_eq_true.mp (require_eq_ok.mp hclosed) r hr
    simp [hold, hin] at hnot
  · obtain ⟨k, hk, hsel⟩ := any_eq_true.mp (require_eq_ok.mp hknown)
    simp only [Bool.and_eq_true, decide_eq_true_eq] at hsel
    exact ⟨k, hk, hsel⟩
  · intro k hk hid
    by_cases hold : k.id = p.keyId
    · have hmem : p.oldRow k ∈ Table.update (fun k => k.id = p.keyId) p.oldRow db.keys :=
        mem_update.mpr ⟨k, hk, if_pos (decide_eq_true hold)⟩
      exact hkey _ hmem hid
    · exact hkey k (mem_update_of_not hk (decide_eq_false hold)) hid
  · intro r hr
    have hne := all_eq_true.mp (require_eq_ok.mp hrot) r hr
    simpa using hne

end EarnProof.ApiKeys
