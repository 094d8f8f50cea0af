/-
  EarnProof.ApiKeys.KeyCache — authentication through the process's cache of verified keys
  (`lookupAndVerifyKey`, `keyCache` and `invalidateKeyCache` in `src/api-keys/api-key.service.ts`)
  beside everything that changes a key. Each call is cut at its awaits: between any two of its
  statements other calls may run.

  An entry has no lifetime of its own. Rotation and revocation take the key's entries away
  before they write, and some of them again after; a cutover takes away those of the key it was
  given, archival none, and an authentication that read the key earlier puts its entry in
  later. `Quiet` says what must not happen for the cache to stay invisible:
  - no key is rotated, revoked or archived while an authentication with it is under way or
    its entry is in the cache,
  - no authentication completes while an overlap narrows the scopes of its key,
  - no two keys of an organization get one prefix.
-/
import EarnProof.Lib.Run
import EarnProof.ApiKeys.Keys

namespace EarnProof.ApiKeys.KeyCache

open Lib Lib.Result Database

/-! ## The cache -/

def cacheKey (organizationId keyPrefix : String) : String := organizationId ++ ":" ++ keyPrefix

structure Entry where
  cacheKey : String
  apiKey : ApiKey
  expiresAt : Option Int
  deriving DecidableEq

variable (cache : List Entry) (w : World) (db : Store)

def get (key : String) : Option Entry := cache.find? fun e => e.cacheKey = key

def delete (key : String) : List Entry := cache.filter fun e => e.cacheKey ≠ key

variable (keyId : String) (e : Entry) (dbNow : Int)

def set : List Entry := delete cache e.cacheKey ++ [e]

/-- An empty id clears the cache. -/
def invalidateKeyCache : List Entry :=
  if keyId = "" then [] else cache.filter fun e => e.apiKey.id ≠ keyId

def Entry.expired : Bool :=
  match e.expiresAt with
  | none => false
  | some t => t ≤ dbNow

def Entry.dropped : Bool := e.expired dbNow || e.apiKey.status ≠ .active

/-- What a lookup that finds the entry returns. -/
def Entry.answer (secret : String) : Option ApiKey :=
  if e.dropped dbNow then none else if verifySecret secret e.apiKey.keyHash then some e.apiKey else none

/-- `lookupAndVerifyKey`, with nothing in between its statements. -/
def lookupAndVerifyKey (now : Int) (keyPrefix secret organizationId : String) : Option ApiKey :=
  match get cache (cacheKey organizationId keyPrefix) with
  | some e => e.answer now secret
  | none => (db.lookupKey now keyPrefix secret organizationId).map (·.apiKey)

/-! ## The system -/

structure Request where
  secret : RawKey
  organizationId : String
  deriving DecidableEq

def Request.keyPrefix (req : Request) : String := prefixOf req.secret.text

def Request.cacheKey (req : Request) : String := KeyCache.cacheKey req.organizationId req.keyPrefix

inductive Task where
  /-- An authentication has read the time. -/
  | timed (req : Request) (dbNow : Int)
  /-- It was not in the cache. -/
  | missed (req : Request) (dbNow : Int)
  /-- It read the key and verified the secret. -/
  | found (req : Request) (apiKey : ApiKey)
  /-- The evaluation has read its time. -/
  | evaluating (req : Request) (apiKey : ApiKey) (now : Int)
  /-- The key is the old key of no rotation. -/
  | notOld (req : Request) (apiKey : ApiKey) (now : Int)
  /-- The key has its effective scopes. -/
  | resolved (req : Request) (apiKey : ApiKey)
  | rotating (keyId organizationId : String) (dto : RotateApiKeyDto) (fresh : Fresh)
  /-- A rotation has read the key. -/
  | checked (keyId organizationId : String) (dto : RotateApiKeyDto) (fresh : Fresh) (existing : Option ApiKey)
  | planned (plan : RotationPlan) (fresh : Fresh)
  /-- Its transaction has committed. -/
  | rotated (keyId newKeyId : String)
  | revoking (keyId organizationId : String) (reason : Option String)
  /-- A revocation found no overlap. -/
  | single (keyId organizationId : String)
  /-- The transaction of a family's revocation has committed. -/
  | revoked (affectedKeyIds : List String)
  | cuttingOver (keyId organizationId : String)
  /-- The sweep, with the expired keys it has yet to come to. -/
  | sweeping (dbNow : Int) (keyIds : List String)
  /-- It has just revoked one. -/
  | swept (dbNow : Int) (keyId : String) (keyIds : List String)
  deriving DecidableEq

structure World where
  db : Store
  clock : Int
  cache : List Entry
  tasks : List Task
  /-- The rotations whose EXPIRED write has been sent and not yet made. -/
  expiring : List String

inductive Event where
  | tick (time : Int)
  | authenticate (req : Request)
  | createKey (organizationId : String) (scopes : Option (List ApiKeyScope)) (expiresAt : Option Int) (fresh : Fresh)
  | rotateKey (keyId organizationId : String) (dto : RotateApiKeyDto) (fresh : Fresh)
  | revokeKey (keyId organizationId : String) (reason : Option String)
  | cutoverRotation (keyId organizationId : String)
  | sweep
  /-- A call makes its next statement; `choice` is the row a query without an order finds. -/
  | proceed (x : Task) (choice : String)
  /-- A call breaks off. -/
  | drop (x : Task)
  | expireRotation (rotationId : String)
  | archive (organizationId : String)
  | restore (organizationId : String)
  | deleteOrganization (organizationId : String)
  /-- The retention sweep of the audit log takes the row with the default chain columns. -/
  | sweepAudit

def World.spawn (x : Task) : World := { w with tasks := w.tasks ++ [x] }

/-- A transaction, and what the call does after it committed. -/
def World.commit (result : Except String Store) (after : World → World) : World :=
  match result with
  | .ok db => after { w with db }
  | .error _ => w

/-- The next statement of a call, which has been taken from the calls under way. -/
def World.next (quotas : Quotas) (w : World) (choice : String) : Task → World
  | .timed req dbNow =>
    match get w.cache req.cacheKey with
    | some e => if e.dropped dbNow then { w with cache := delete w.cache req.cacheKey } else w
    | none => w.spawn (.missed req dbNow)
  | .missed req dbNow =>
    match w.db.findKey dbNow req.keyPrefix req.organizationId with
    | some k => if verifySecret req.secret.text k.keyHash then w.spawn (.found req k) else w
    | none => w
  | .found req k => w.spawn (.evaluating req k w.clock)
  | .evaluating req k now =>
    match w.db.oldKeyRotation k.id req.organizationId with
    -- the old key of a rotation is refused, or let in and not cached
    | some r =>
      if r.status = .inOverlap ∧ r.overlapExpiresAt ≤ now then { w with expiring := w.expiring ++ [r.id] } else w
    | none => w.spawn (.notOld req k now)
  | .notOld req k now =>
    let evalResult := evaluateNewKey w.db now k.scopes (w.db.newKeyRotation k.id req.organizationId)
    w.spawn (.resolved req { k with scopes := evalResult.effectiveScopes })
  | .resolved req k => { w with cache := set w.cache ⟨req.cacheKey, k, k.expiresAt⟩ }
  | .rotating keyId organizationId dto fresh =>
    let existing := w.db.keys.find? fun k => k.id = keyId
    match checkExisting organizationId existing with
    | .ok _ => w.spawn (.checked keyId organizationId dto fresh existing)
    | .error _ => w
  | .checked keyId organizationId dto fresh existing =>
    match checkReplay (w.db.oldKeyRotation keyId organizationId) with
    | .ok _ => w.spawn (.planned (rotationPlan keyId organizationId dto existing w.clock) fresh)
    | .error _ => w
  | .planned plan fresh =>
    w.commit (commitRotation quotas w.db w.clock plan fresh) (·.spawn (.rotated plan.keyId fresh.keyId))
  | .rotated keyId newKeyId => { w with cache := invalidateKeyCache (invalidateKeyCache w.cache keyId) newKeyId }
  | .revoking keyId organizationId reason =>
    match handleFamilyRevocation w.db w.clock keyId organizationId reason choice with
    | .ok (db, res) =>
      if res.wasFamilyRevocation then { w with db }.spawn (.revoked res.affectedKeyIds)
      else w.spawn (.single keyId organizationId)
    | .error _ => w
  | .single keyId organizationId => w.commit (revokeSingle w.db w.clock keyId organizationId) id
  | .revoked affectedKeyIds => { w with cache := affectedKeyIds.foldl invalidateKeyCache w.cache }
  | .cuttingOver keyId organizationId => w.commit (earlyCutover w.db w.clock keyId organizationId choice) id
  | .sweeping _ [] => w
  | .sweeping dbNow (keyId :: keyIds) =>
    -- `updateMany` that changed no row goes on to the next key
    if w.db.keys.any (fun k => k.id = keyId && k.status = .active) then
      { w with db := sweepKey w.db dbNow keyId }.spawn (.swept dbNow keyId keyIds)
    else w.spawn (.sweeping dbNow keyIds)
  | .swept dbNow keyId keyIds =>
    { w with cache := invalidateKeyCache w.cache keyId }.spawn (.sweeping dbNow keyIds)

/-- A request that throws leaves the database as it was, and is no step. -/
def World.write (result : Except String Store) : Option World :=
  match result with
  | .ok db => some { w with db }
  | .error _ => none

def step (quotas : Quotas) (w : World) : Event → Option World
  | .tick t => if w.clock ≤ t then some { w with clock := t } else none
  | .authenticate req => some (w.spawn (.timed req w.clock))
  | .createKey organizationId scopes expiresAt fresh =>
    w.write (createKey quotas w.db w.clock organizationId scopes expiresAt fresh)
  | .rotateKey keyId organizationId dto fresh =>
    some ({ w with cache := invalidateKeyCache w.cache keyId }.spawn (.rotating keyId organizationId dto fresh))
  | .revokeKey keyId organizationId reason =>
    some ({ w with cache := invalidateKeyCache w.cache keyId }.spawn (.revoking keyId organizationId reason))
  | .cutoverRotation keyId organizationId =>
    some ({ w with cache := invalidateKeyCache w.cache keyId }.spawn (.cuttingOver keyId organizationId))
  | .sweep => some (w.spawn (.sweeping w.clock (sweepCandidates w.db w.clock)))
  | .proceed x choice => if x ∈ w.tasks then some ({ w with tasks := w.tasks.erase x }.next quotas choice x) else none
  | .drop x => if x ∈ w.tasks then some { w with tasks := w.tasks.erase x } else none
  | .expireRotation rotationId =>
    if rotationId ∈ w.expiring then
      some { w with db := expireRotation w.db rotationId, expiring := w.expiring.erase rotationId }
    else none
  | .archive organizationId => w.write (archive w.db w.clock organizationId)
  | .restore organizationId => w.write (restore w.db organizationId)
  | .deleteOrganization organizationId => w.write (deleteOrganization w.db w.clock organizationId)
  | .sweepAudit => some { w with db := { w.db with auditDefaultRow := false } }

def start (organizations : List Organization) (clock : Int) : World :=
  ⟨⟨organizations, [], [], false⟩, clock, [], [], []⟩

/-! ## Where the cache stays invisible -/

def Task.key? : Task → Option ApiKey
  | .found _ k | .evaluating _ k _ | .notOld _ k _ | .resolved _ k => some k
  | _ => none

def World.held : List ApiKey := w.cache.map (·.apiKey) ++ w.tasks.filterMap Task.key?

def Unheld : Prop := ∀ k ∈ w.held, k.id ≠ keyId
  deriving Decidable

def NewPrefix (organizationId : String) (fresh : Fresh) : Prop :=
  ∀ k ∈ db.keys, k.organizationId = organizationId → k.keyPrefix ≠ prefixOf fresh.secret.text
  deriving Decidable

def Task.Quiet (choice : String) : Task → Prop
  | .notOld req k now =>
    (evaluateNewKey w.db now k.scopes (w.db.newKeyRotation k.id req.organizationId)).effectiveScopes = k.scopes
  | .planned plan fresh => Unheld w plan.keyId ∧ NewPrefix w.db plan.organizationId fresh
  | .revoking keyId organizationId reason =>
    match handleFamilyRevocation w.db w.clock keyId organizationId reason choice with
    | .ok (_, res) => res.wasFamilyRevocation → ∀ id ∈ res.affectedKeyIds, Unheld w id
    | .error _ => True
  | .single keyId _ => Unheld w keyId
  | _ => True

/-- No write comes to a key that is cached or being authenticated, no entry is stored with narrowed
    scopes, and prefixes differ. -/
def Quiet : Event → Prop
  | .createKey organizationId _ _ fresh => NewPrefix w.db organizationId fresh
  | .archive organizationId => ∀ k ∈ w.held, k.organizationId ≠ organizationId
  | .proceed x choice => x.Quiet w choice
  | _ => True

instance (choice : String) (x : Task) : Decidable (x.Quiet w choice) := by
  unfold Task.Quiet
  repeat' split
  all_goals infer_instance

instance (e : Event) : Decidable (Quiet w e) := by
  cases e <;> unfold Quiet <;> infer_instance

end EarnProof.ApiKeys.KeyCache
