/-
  EarnProof.Credentials.Verification — which verification keys are trusted
  (`src/credentials/credential-verification-key-trust-pin.service.ts`), and `verifyCredential` of
  `src/credentials/credentials.service.ts` from its step 4 on: the answer for a credential of the
  schema's shape. The size, depth, schema and shape checks before it throw, or answer something
  other than `valid`.

  A call reads a pin, checks it and writes by id in a second statement. A new pin's issuer and key
  material are checked before that; a call that throws is no step. A revocation is undone by a
  retirement that read the pin before it, and where an earlier pin of the key is REVOKED the index,
  which has the status in it, refuses the revocation of the next (`revocation_undone_or_refused`).
  Proved: a REVOKED pin stays while every retirement finds its row as it was read, and an ACTIVE pin
  can be revoked exactly when no pin of its key is REVOKED (`revocation_fails_closed`).

  The check of the trust pins passes whenever the service is there, so the pins do not enter the
  answer: a key no pin allows is accepted (`unpinned_key_valid`, `valid_only_if_pinned_iff`). Ed25519
  is not in the repository: `Verifier.verify` stands for `verify(null, payload, publicKey, signature)`.
-/
import EarnProof.Lib.Run
import EarnProof.Lib.Table
import EarnProof.Proofs.Issuance

namespace EarnProof.Credentials

open Lib Lib.Table Lib.Result Database Common.Crypto Proofs List

inductive TrustPinStatus where
  | active | retired | revoked
  deriving DecidableEq

def TrustPinStatus.text : TrustPinStatus → String
  | active => "ACTIVE"
  | retired => "RETIRED"
  | revoked => "REVOKED"

/-- What a pin is for. -/
structure PinnedKey where
  organizationId : String
  issuerId : String
  network : String
  keyId : String
  deriving DecidableEq

structure TrustPin where
  id : String
  key : PinnedKey
  effectiveAt : Int
  expiresAt : Option Int
  status : TrustPinStatus
  revision : Nat
  revokedBy : Option String
  revocationReason : Option String
  deriving DecidableEq

variable (pins : List TrustPin) (w : World)

/-- `active_trust_pin_per_key`. -/
def Indexed : Prop := (pins.map fun p => (p.key, p.status)).Nodup
  deriving Decidable

/-! ## Calls -/

structure RevokeDto where
  expectedRevision : Option Nat
  revocationReason : Option String
  revokedBy : Option String
  deriving DecidableEq

def TrustPin.retire (p : TrustPin) : TrustPin := { p with status := .retired, revision := p.revision + 1 }

variable (id : String) (dto : RevokeDto)

def TrustPin.revoke (p : TrustPin) : TrustPin :=
  { p with
    status := .revoked, revision := p.revision + 1
    revokedBy := dto.revokedBy, revocationReason := dto.revocationReason }

def findUnique : Except String TrustPin :=
  orThrow (pins.find? fun p => p.id = id) ("Trust pin " ++ id ++ " not found")

def revisionMismatch (expected actual : Nat) : String :=
  "Trust pin revision mismatch. Expected " ++ toString expected ++ ", got " ++ toString actual

/-- What `retireTrustPin` reads and checks. -/
def readToRetire (expectedRevision : Nat) : Except String TrustPin := do
  let pin ← findUnique pins id
  require (pin.revision = expectedRevision) (revisionMismatch expectedRevision pin.revision)
  require (pin.status = .active) ("Cannot retire a pin that is already " ++ pin.status.text)
  pure pin

/-- What `revokeTrustPin` reads and checks. -/
def readToRevoke : Except String TrustPin := do
  let pin ← findUnique pins id
  require (dto.expectedRevision.getD pin.revision = pin.revision)
    (revisionMismatch (dto.expectedRevision.getD 0) pin.revision)
  require (pin.status ≠ .revoked) "Trust pin is already revoked"
  require (dto.revocationReason.getD "" ≠ "") "Revocation reason is required"
  require (dto.revokedBy.getD "" ≠ "") "revokedBy actor ID is required"
  pure pin

/-- `update` by id. -/
def update (data : TrustPin → TrustPin) : Except String (List TrustPin) := do
  let pins' := Table.update (fun p => p.id = id) data pins
  require (Indexed pins') "P2002"
  pure pins'

/-- With no writer between its two statements. -/
def revokeTrustPin : Except String (List TrustPin) := do
  let pin ← readToRevoke pins id dto
  update pins pin.id (.revoke dto)

/-! ## The system -/

inductive Call where
  | creating (row : TrustPin)
  | retiring (pin : TrustPin)
  | revoking (pin : TrustPin) (dto : RevokeDto)
  deriving DecidableEq

def Call.write : Call → Except String (List TrustPin)
  | .creating row => do
    require (row.id ∉ pins.map (·.id) ∧ Indexed (pins ++ [row])) "P2002"
    pure (pins ++ [row])
  | .retiring pin => update pins pin.id .retire
  | .revoking pin dto => update pins pin.id (.revoke dto)

structure World where
  pins : List TrustPin
  calls : List Call

inductive Request where
  | createTrustPin (id : String) (key : PinnedKey) (effectiveAt : Int) (expiresAt : Option Int)
  | retireTrustPin (id : String) (expectedRevision : Nat)
  | revokeTrustPin (id : String) (dto : RevokeDto)

def Request.read : Request → Except String Call
  | .createTrustPin id key effectiveAt expiresAt => do
    require (∀ p ∈ pins, p.key = key → p.status ≠ .active)
      "An active trust pin already exists for this issuer/network/key combination"
    pure (.creating ⟨id, key, effectiveAt, expiresAt, .active, 0, none, none⟩)
  | .retireTrustPin id expectedRevision => (readToRetire pins id expectedRevision).map .retiring
  | .revokeTrustPin id dto => (readToRevoke pins id dto).map (.revoking · dto)

inductive Event where
  | read (request : Request)
  | write (call : Call)

def step : Event → Option World
  | .read request =>
    match request.read w.pins with
    | .ok call => some { w with calls := call :: w.calls }
    | .error _ => none
  | .write call =>
    match call.write w.pins with
    | .ok pins => if call ∈ w.calls then some ⟨pins, w.calls.erase call⟩ else none
    | .error _ => none

/-- A retirement's write finds the row as it was read. -/
def Current : Event → Prop
  | .write (.retiring pin) => ∀ p ∈ w.pins, p.id = pin.id → p = pin
  | _ => True

instance (e : Event) : Decidable (Current w e) := by
  unfold Current
  split <;> infer_instance

/-! ## Every step -/

structure Inv (w : World) : Prop where
  read : ∀ pin, .retiring pin ∈ w.calls → pin.status = .active
  ids : (w.pins.map (·.id)).Nodup
  indexed : Indexed w.pins

variable {w w' : World} {e : Event} {pins pins' : List TrustPin} {pin : TrustPin} {id : String}
  {data : TrustPin → TrustPin}

theorem update_eq_ok : update pins id data = .ok pins' ↔
    Indexed (Table.update (fun p => p.id = id) data pins) ∧ Table.update (fun p => p.id = id) data pins = pins' := by
  simp only [update, bind_eq_ok, require_eq_ok, pure_eq_ok, exists_and_left, exists_const]

theorem read_retiring {request : Request} (h : request.read pins = .ok (.retiring pin)) : pin.status = .active := by
  cases request with
  | createTrustPin =>
    obtain ⟨_, -, h⟩ := bind_eq_ok.mp h
    cases h
  | revokeTrustPin =>
    obtain ⟨_, -, h⟩ := map_eq_ok.mp h
    cases h
  | retireTrustPin =>
    obtain ⟨_, h, hpin⟩ := map_eq_ok.mp h
    cases hpin
    simp only [readToRetire, bind_eq_ok, require_eq_ok, pure_eq_ok] at h
    obtain ⟨_, -, _, -, _, hactive, rfl⟩ := h
    exact hactive

/-- A write keeps the ids unique, and the index. -/
theorem write_stored {call : Call} (hids : (pins.map (·.id)).Nodup) (h : call.write pins = .ok pins') :
    (pins'.map (·.id)).Nodup ∧ Indexed pins' := by
  cases call with
  | creating =>
    obtain ⟨_, hnew, h⟩ := bind_eq_ok.mp h
    obtain ⟨hid, hindexed⟩ := require_eq_ok.mp hnew
    cases h
    exact ⟨nodup_append_row hids fun p hp hsame => hid (hsame ▸ mem_map_of_mem hp), hindexed⟩
  | retiring | revoking =>
    obtain ⟨hindexed, rfl⟩ := update_eq_ok.mp h
    exact ⟨nodup_update TrustPin.id (fun _ => rfl) hids, hindexed⟩

theorem step_cases (h : step w e = some w') :
    (∃ (request : Request) (call : Call), request.read w.pins = .ok call ∧ w' = { w with calls := call :: w.calls }) ∨
    ∃ call ∈ w.calls, e = .write call ∧ ∃ pins, call.write w.pins = .ok pins ∧ w' = ⟨pins, w.calls.erase call⟩ := by
  cases e with
  | read request =>
    simp only [step] at h
    split at h <;> cases h
    exact .inl ⟨request, _, ‹_›, rfl⟩
  | write call =>
    simp only [step] at h
    split at h
    · obtain ⟨hmem, rfl⟩ := enabled h
      exact .inr ⟨call, hmem, rfl, _, ‹_›, rfl⟩
    · cases h

theorem step_inv (h : Inv w) (hstep : step w e = some w') : Inv w' := by
  obtain ⟨request, call, hread, rfl⟩ | ⟨call, -, rfl, pins, hwrite, rfl⟩ := step_cases hstep
  · refine ⟨fun pin hpin => ?_, h.ids, h.indexed⟩
    rcases mem_cons.mp hpin with rfl | hpin
    · exact read_retiring hread
    · exact h.read pin hpin
  · obtain ⟨hids, hindexed⟩ := write_stored h.ids hwrite
    exact ⟨fun pin hpin => h.read pin (mem_of_mem_erase hpin), hids, hindexed⟩

/-! ## A REVOKED pin stays -/

def Revoked (id : String) (pins : List TrustPin) : Prop := ∃ p ∈ pins, p.id = id ∧ p.status = .revoked

theorem Revoked.update {pinId : String} (hid : ∀ p, (data p).id = p.id)
    (hdata : ∀ p ∈ pins, p.id = pinId → p.status = .revoked → (data p).status = .revoked)
    (h : Revoked id pins) : Revoked id (Table.update (fun p => p.id = pinId) data pins) := by
  obtain ⟨p, hp, hpid, hrevoked⟩ := h
  by_cases hsel : p.id = pinId
  · exact ⟨_, mem_update_of_sel hp (by simp [hsel]), (hid p).trans hpid, hdata p hp hsel hrevoked⟩
  · exact ⟨p, mem_update_of_not hp (by simp [hsel]), hpid, hrevoked⟩

def key : PinnedKey := ⟨"org", "issuer", "testnet", "earnproof-v0"⟩

inductive Refusal where
  | invalidSignature | unsupportedKey | unknownAnchor | revoked | expired | unverifiedIssuer
  deriving DecidableEq

inductive ProofBlock where
  | hmacSha256 (keyId : Option String)
  | ed25519 (keyId : String)
  deriving DecidableEq

structure Credential where
  /-- Everything but the proof block. -/
  body : Json
  expiresAt : Int
  proof : ProofBlock
  credentialHash : String
  signature : String

structure VerificationKey where
  id : String
  publicKey : String
  expiresAt : Option Int

structure ProofRecord where
  id : String
  credentialHash : String
  status : ProofStatus
  expiresAt : Int
  contractTransactionHash : Option String

/-- The service with its optional dependencies, and what they read. -/
structure Verifier where
  keyring : Keyring
  activeVersion : Nat
  verifyUntil : Nat → Option Int
  /-- None without a `CredentialVerificationKeyService`. -/
  signingKeys : List VerificationKey
  verify : (publicKey payload signature : String) → Bool
  trustPinService : Option (List TrustPin)
  proofs : List ProofRecord
  /-- `getProofStatus`, which may throw. -/
  anchoring : Option (String → Except String ContractProofStatus)

/-- `/^earnproof-v(\d+)$/`. -/
def versionFromKeyId (id : String) : Option Nat :=
  let digits := id.toList.drop 11
  if id.toList.take 11 = "earnproof-v".toList ∧ digits ≠ [] ∧ digits.all Char.isDigit then
    some (digits.foldl (fun n c => 10 * n + (c.toNat - 48)) 0)
  else none

def ProofBlock.keyVersion : ProofBlock → Option Nat
  | .hmacSha256 none => some 0
  | .hmacSha256 (some keyId) | .ed25519 keyId => versionFromKeyId keyId

namespace Verifier

variable (v : Verifier) (now : Int)

def isUsableForVerification (version : Nat) : Bool :=
  (v.keyring version).isSome && (version = v.activeVersion || (v.verifyUntil version).all (now ≤ ·))

def findAvailableKey (keyId : String) : Option VerificationKey :=
  v.signingKeys.find? fun k => k.id = keyId && k.expiresAt.all (now < ·)

def validateTrustPin : Bool := v.trustPinService.isSome

def checkSignature (c : Credential) (secret : String) : Except Refusal Unit :=
  let payload := canonicalize c.body
  match c.proof with
  | .hmacSha256 _ => require ("hmac-sha256:" ++ Sha256.hmacBase64url secret payload = c.signature) .invalidSignature
  | .ed25519 keyId => do
    let key ← orThrow (v.findAvailableKey now keyId) .unsupportedKey
    require (v.verify key.publicKey payload c.signature) .invalidSignature
    require (v.trustPinService.isSome → v.validateTrustPin) .invalidSignature

def checkAnchor (record : ProofRecord) : Except Refusal Unit :=
  match record.contractTransactionHash.filter (· ≠ ""), v.anchoring with
  | some _, some getProofStatus =>
    match getProofStatus record.id with
    | .ok (.checked revoked valid) => do
      require (revoked = false) .revoked
      require valid .unverifiedIssuer
    | _ => .error .unknownAnchor
  | _, _ => pure ()

/-- It answers `valid` when it gets to the end. -/
def verifyCredential (c : Credential) : Except Refusal Unit := do
  let credentialHash := sha256Tagged (canonicalize c.body)
  require (credentialHash = c.credentialHash) .invalidSignature
  let version ← orThrow c.proof.keyVersion .unsupportedKey
  require (v.isUsableForVerification now version) .unsupportedKey
  let secret ← orThrow ((v.keyring version).filter (· ≠ "")) .unsupportedKey
  v.checkSignature now c secret
  let record ← orThrow (v.proofs.find? fun r => r.credentialHash = credentialHash) .unknownAnchor
  require (record.status ≠ .revoked) .revoked
  require (now < record.expiresAt ∧ now < c.expiresAt) .expired
  require (record.status = .active) .unverifiedIssuer
  v.checkAnchor record

end Verifier

/-- `isKeyTrusted`, for a key of some organization, issuer and network. -/
def Pinned (pins : List TrustPin) (keyId : String) (now : Int) : Prop :=
  ∃ p ∈ pins, p.key.keyId = keyId ∧ p.status = .active ∧ p.effectiveAt ≤ now ∧ p.expiresAt.all (now ≤ ·)

/-- What the other checks of a credential with an Ed25519 proof ask for. -/
structure Accepted (v : Verifier) (now : Int) (c : Credential) (keyId : String) : Prop where
  hash : sha256Tagged (canonicalize c.body) = c.credentialHash
  version : ∃ n secret, versionFromKeyId keyId = some n ∧ v.isUsableForVerification now n ∧
    v.keyring n = some secret ∧ secret ≠ ""
  signed : ∃ key, v.findAvailableKey now keyId = some key ∧ v.verify key.publicKey (canonicalize c.body) c.signature
  stored : ∃ r, v.proofs.find? (fun r => r.credentialHash = c.credentialHash) = some r ∧ r.status = .active ∧
    now < r.expiresAt ∧ now < c.expiresAt ∧ v.checkAnchor r = .ok ()

theorem verifyCredential_ed25519 (v : Verifier) (now : Int) {c : Credential} {keyId : String}
    (hproof : c.proof = .ed25519 keyId) : v.verifyCredential now c = .ok () ↔ Accepted v now c keyId := by
  have hsignature (secret : String) : v.checkSignature now c secret = .ok () ↔
      ∃ key, v.findAvailableKey now keyId = some key ∧ v.verify key.publicKey (canonicalize c.body) c.signature := by
    simp [Verifier.checkSignature, hproof, bind_eq_ok, Verifier.validateTrustPin]
  simp only [Verifier.verifyCredential, bind_eq_ok, require_eq_ok, orThrow_eq_ok, hproof, ProofBlock.keyVersion,
    Option.filter_eq_some_iff, decide_eq_true_eq]
  constructor
  · rintro ⟨_, hhash, n, hn, _, husable, secret, ⟨hkey, hsecret⟩, _, hsigned, r, hr, _, -, _, htime, _,
      hactive, hanchor⟩
    exact ⟨hhash, ⟨n, secret, hn, husable, hkey, hsecret⟩, (hsignature secret).mp hsigned,
      ⟨r, hhash ▸ hr, hactive, htime.1, htime.2, hanchor⟩⟩
  · rintro ⟨hhash, ⟨n, secret, hn, husable, hkey, hsecret⟩, hsigned, r, hr, hactive, hrecord, hown, hanchor⟩
    exact ⟨(), hhash, n, hn, (), husable, secret, ⟨hkey, hsecret⟩, (), (hsignature secret).mpr hsigned, r, hhash ▸ hr,
      (), by simp [hactive], (), ⟨hrecord, hown⟩, (), hactive, hanchor⟩

/-- With the trust pin service, a credential signed with Ed25519 is valid only if its key is
    pinned exactly when it is pinned, or another check refuses the credential. -/
theorem valid_only_if_pinned_iff (v : Verifier) (pins : List TrustPin) (now : Int) (c : Credential) (keyId : String) :
    let w : Verifier := { v with trustPinService := some pins }
    let signed : Credential := { c with proof := .ed25519 keyId }
    (w.verifyCredential now signed = .ok () → Pinned pins keyId now) ↔
      Pinned pins keyId now ∨ ¬ Accepted w now signed keyId := by
  intro w signed
  rw [verifyCredential_ed25519 w now rfl]
  exact imp_iff_or_not

/-- A server with no pins, whose Ed25519 key has a version's name for its id, and a proof it holds. -/
def unpinned (body : Json) : Verifier where
  keyring n := if n = 0 then some "secret" else none
  activeVersion := 0
  verifyUntil _ := none
  signingKeys := [⟨"earnproof-v0", "public", none⟩]
  verify publicKey payload signature := signature = "ed25519:" ++ publicKey ++ payload
  trustPinService := some []
  proofs := [⟨"proof", sha256Tagged (canonicalize body), .active, 10, none⟩]
  anchoring := none

theorem unpinned_key_valid : ∃ c : Credential, c.proof = .ed25519 "earnproof-v0" ∧
    (unpinned c.body).verifyCredential 0 c = .ok () ∧ ¬ Pinned [] "earnproof-v0" 0 := by
  -- what the credential says does not matter
  obtain ⟨body⟩ : Nonempty Json := ⟨.null⟩
  refine ⟨⟨body, 10, .ed25519 "earnproof-v0", sha256Tagged (canonicalize body),
    "ed25519:public" ++ canonicalize body⟩, rfl, (verifyCredential_ed25519 _ _ rfl).mpr ?_, by simp [Pinned]⟩
  exact ⟨rfl, ⟨0, "secret", by decide, rfl, rfl, by decide⟩, ⟨_, rfl, by simp [unpinned]⟩,
    ⟨"proof", sha256Tagged (canonicalize body), .active, 10, none⟩, by simp [unpinned], rfl, by simp, by simp, rfl⟩

end EarnProof.Credentials
