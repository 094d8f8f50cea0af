/-
  EarnProof.Proofs.Issuance — what the eight `create…Proof` methods of
  `src/proofs/proofs.service.ts` share: decimal amounts (also those of
  `aggregate-earnings.policy.ts`), their failures, the configuration they run under, and
  the pieces of the issuing transaction (quota, asset policy, the proof row, the anchoring
  intent); and `verifyProof`, the answer for a stored proof. Rate limiting and the recorded
  events do not change the answer and are left out.

  A call is not atomic: it reads the database several times and writes it in one
  transaction at the end. `View.db k` is the committed state its `k`-th database
  access sees, and `View.clock k` what its `k`-th `new Date()` returns, so other
  writers may act between any two of them.
-/
import EarnProof.Proofs.Credential
import EarnProof.Lib.Result

namespace EarnProof.Proofs

open Lib Lib.Calendar Lib.Result Database Common.Crypto

def STROOPS_PER_UNIT : Int := 10000000

/-- The two parts around the first point, the second padded to seven digits;
    `none` where `BigInt` throws. -/
def parseAmount (amount : String) : Option Int :=
  let (whole, decimal) :=
    match JsText.splitOn '.' amount.toList with
    | w :: d :: _ => (w, d)
    | [w] => (w, [])
    | [] => ([], [])
  match JsText.bigInt whole, JsText.bigInt (JsText.padEnd 7 '0' decimal) with
  | some w, some d => some (w * STROOPS_PER_UNIT + d)
  | _, _ => none

/-- `/^(\d{1,19})(?:\.(\d{1,7}))?$/`; `none` is the `null` it returns. -/
def parseStroops (amount : String) : Option Int :=
  match JsText.splitOn '.' amount.toList with
  | [w] =>
    if w ≠ [] ∧ w.length ≤ 19 ∧ w.all Char.isDigit then some (Nat.ofDigitChars 10 w 0 * STROOPS_PER_UNIT) else none
  | [w, d] =>
    if w ≠ [] ∧ w.length ≤ 19 ∧ w.all Char.isDigit ∧ d ≠ [] ∧ d.length ≤ 7 ∧ d.all Char.isDigit then
      some (Nat.ofDigitChars 10 w 0 * STROOPS_PER_UNIT + Nat.ofDigitChars 10 (JsText.padEnd 7 '0' d) 0)
    else none
  | _ => none

def RoundingIncrement.stroops : RoundingIncrement → Int
  | .stroop => 1
  | .cent => 100000
  | .one => 10000000
  | .ten => 100000000
  | .hundred => 1000000000
  | .thousand => 10000000000

def floorToIncrement (total : Int) (i : RoundingIncrement) : Int := total / i.stroops * i.stroops

/-- Seven decimals; `stroops` is not negative where it is called. -/
def formatStroops (stroops : Int) : String :=
  let whole := Nat.toDigits 10 (stroops / STROOPS_PER_UNIT).toNat
  let fraction := JsText.padStart 7 '0' (Nat.toDigits 10 (stroops % STROOPS_PER_UNIT).toNat)
  String.ofList (whole ++ '.' :: fraction)

example : parseAmount "12.5" = some 125000000 := by decide
example : formatStroops 125000001 = "12.5000001" := by decide

/-! ## Failures -/

inductive ApiErrorCode where
  | invalidInput | notFound | paymentNotFound | paymentNotEligible | paymentExcluded | paymentAmbiguousMatch
  | assetNotSupported | aggregationCrossAssetUnsupported | aggregationInsufficientPayments
  | aggregationLimitExceeded | employerSourceUntrusted | employerSourceAmbiguous | employerPaymentNotFound
  | continuityNotSatisfied | continuityLimitExceeded | paymentAlreadySettled | invoiceReferenceConflict
  | conflict
  deriving DecidableEq

inductive Failure where
  | badRequest (code : Option ApiErrorCode) (message : String)
  | forbidden (message : String)
  | notFound (code : ApiErrorCode) (message : String)
  | conflict (code : ApiErrorCode) (message : String)
  | unprocessable (code : ApiErrorCode) (message : String)
  | quotaExceeded (limit : Nat)
  /-- A unique index refused the insert (`P2002`), with the columns of the index. -/
  | uniqueViolation (target : List String)
  /-- An exception no handler maps: an invalid date that is printed or queried, a text
      `BigInt` does not read. -/
  | thrown (what : String)
  deriving DecidableEq

/-! ## Callers and configuration -/

structure AuthenticatedUser where
  id : String
  walletAddress : String
  walletHash : String
  deriving DecidableEq

structure Env where
  host : Host
  ring : Keyring
  stellarNetwork : String
  anchoringEnabled : Bool
  anchoringRequired : Bool
  proofRequestsPerDay : Nat
  /-- The active credential-signing secret, which also keys the stored digests. -/
  signingSecret : String

/-- A deployment to run examples on. The platform functions are those of plain ASCII texts;
    nothing is encrypted. -/
def testnetEnv : Env where
  host := ⟨fun _ => none, fun s => String.ofList (s.toList.map Char.toLower), ⟨fun _ _ _ _ _ => none⟩⟩
  ring := fun _ => none
  stellarNetwork := "testnet"
  anchoringEnabled := true
  anchoringRequired := false
  proofRequestsPerDay := 100
  signingSecret := "secret"

variable (E : Env) (db : Db)

def Env.reader : Reader := ⟨E.host, E.ring⟩

structure View where
  db : Nat → Db
  clock : Nat → Date

/-! ## Dates of a request -/

/-- `new Date(text)`. -/
def Env.newDate (text : String) : Option Date := parse E.host.date text

/-- `a < b` on dates; false when either is invalid. -/
def dateLt : Option Date → Option Date → Bool
  | some a, some b => a < b
  | _, _ => false

/-- `a >= b` on dates; false when either is invalid. -/
def dateGe : Option Date → Option Date → Bool
  | some a, some b => b ≤ a
  | _, _ => false

/-- Printing an invalid date throws a `RangeError`. -/
def validDate (d : Option Date) : Except Failure Date := orThrow d (.thrown "RangeError: Invalid time value")

def DEFAULT_EXPIRY_DAYS : Nat := 30

structure ExpiryDays where
  days : Nat
  min : 1 ≤ days
  max : days ≤ 365
  deriving DecidableEq

def expiryDate (now : Date) (expiresInDays : Option ExpiryDays) : Option Date :=
  now.addDays ((expiresInDays.map ExpiryDays.days).getD DEFAULT_EXPIRY_DAYS)

/-! ## The issuing transaction -/

def windowStart (now : Date) : Int := now.ms / dayMs * dayMs

def orgBefore (a b : Organization) : Prop :=
  a.createdAt < b.createdAt ∨ (a.createdAt = b.createdAt ∧ ¬ JsText.textLt b.id a.id)
  deriving Decidable

variable (userId : String)

/-- The oldest active organization the user administers. -/
def resolveOrganizationForUser : Option String :=
  let own := db.organizations.filter fun o => o.createdById = userId ∧ o.status = .active
  ((own.insertionSort orgBefore).head?).map Organization.id

/-- `consume`: one upsert that refuses to count past the limit. -/
def consume (organizationId : String) (now : Date) : Except Failure Db :=
  let isUsage (u : QuotaUsage) : Bool :=
    u.organizationId = organizationId ∧ u.quota = "proof_requests" ∧ u.windowStart = windowStart now
  match db.quotaUsage.find? isUsage with
  | none => .ok { db with quotaUsage := db.quotaUsage ++ [⟨organizationId, "proof_requests", windowStart now, 1⟩] }
  | some u =>
    if u.count < E.proofRequestsPerDay then
      .ok { db with quotaUsage := db.quotaUsage.map fun u => if isUsage u then { u with count := u.count + 1 } else u }
    else .error (.quotaExceeded E.proofRequestsPerDay)

def consumeForUser (now : Date) : Except Failure Db :=
  match resolveOrganizationForUser db userId with
  | some org => consume E db org now
  | none => .ok db

def normalizeIssuer (issuer : Option String) : Option String :=
  (issuer.map fun i => String.ofList (JsText.trim i.toList)).filter (· ≠ "")

def canonicalAssetId (network code : String) (issuer : Option String) : String :=
  let n := E.host.toLowerCase (String.ofList (JsText.trim network.toList))
  let c := String.ofList (JsText.trim code.toList)
  match normalizeIssuer issuer with
  | none => n ++ ":native:" ++ c
  | some i => n ++ ":issued:" ++ c ++ ":" ++ i

def ResourceStatus.text : ResourceStatus → String
  | .active => "ACTIVE"
  | .pending => "PENDING"
  | .suspended => "SUSPENDED"
  | .revoked => "REVOKED"
  | .deleted => "DELETED"
  | .expired => "EXPIRED"

/-- The active registry row for the asset and the snapshot of it the proof keeps. -/
def requireActiveAssetPolicy (code : String) (issuer : Option String) (checkedAt : Date) :
    Except Failure (String × Json) := do
  let a ← orThrow
    (db.supportedAssets.find? fun a =>
      a.code = code ∧ a.issuer = issuer ∧ a.network = E.stellarNetwork ∧ a.status = .active)
    (.unprocessable .assetNotSupported
      "Asset is not an active supported asset on this network and is not eligible for proof issuance")
  pure (a.id, .obj [("supportedAssetId", .str a.id), ("assetKey", .str a.assetKey), ("code", .str a.code),
    ("issuer", orNull a.issuer), ("network", .str a.network), ("status", .str (ResourceStatus.text a.status)),
    ("canonicalAssetId", .str (canonicalAssetId E a.network a.code a.issuer)), ("checkedAt", isoDate checkedAt)])

/-- `tx.proof.create`, against the two unique indexes a new row can violate. -/
def insertProof (row : Proof) : Except Failure Db := do
  require (db.proofs.all fun p => p.id ≠ row.id) (.uniqueViolation ["id"])
  require (db.proofs.all fun p => p.credentialHash ≠ row.credentialHash) (.uniqueViolation ["credentialHash"])
  pure { db with proofs := db.proofs ++ [row] }

/-- `tx.anchoringIntent.create`, against the unique index on `(proofId, operation)`. -/
def insertIntent (proofId : String) (operation : AnchoringOperation) (status : AnchoringStatus) :
    Except Failure Db := do
  require (db.intent? proofId operation = none) (.uniqueViolation ["proofId", "operation"])
  pure { db with anchoringIntents := db.anchoringIntents ++ [⟨proofId, operation, status, 0⟩] }

/-- The `REGISTER` intent, only when anchoring is configured. -/
def enqueueRegister (proofId : String) : Except Failure Db :=
  if E.anchoringEnabled then insertIntent db proofId .register .pending else .ok db

/-- The row every method inserts: `ACTIVE`, hashed, with nothing yet anchored,
    revoked or superseded. -/
def newProof (proofType : ProofType) (schemaVersion : String) (h : Head)
    (periodStart periodEnd : Date) (credential : Json) (claim : ProofClaim) : Proof where
  id := h.id
  userId
  proofType
  schemaVersion
  status := .active
  network := E.stellarNetwork
  assetCode := h.assetCode
  assetIssuer := h.assetIssuer
  periodStart := some periodStart
  periodEnd := some periodEnd
  expiresAt := h.expiresAt
  commitment := some (sha256Tagged (credentialHash credential))
  credentialHash := credentialHash credential
  createdAt := h.issuedAt
  claim := some claim

/-- The last two writes of an issuing transaction. -/
def issueProof (row : Proof) : Except Failure Db := do
  let db ← insertProof db row
  enqueueRegister E db row.id

/-- A row as issuance inserts it: `ACTIVE`, with a claim, and nothing anchored, revoked,
    superseded or propagated yet. -/
structure FreshRow (p : Proof) : Prop where
  status : p.status = .active
  claim : p.claim ≠ none
  contractTransactionHash : p.contractTransactionHash = none
  revokedAt : p.revokedAt = none
  supersedesId : p.supersedesId = none
  supersededAt : p.supersededAt = none
  propagation : p.revocationPropagationConfirmedAt = none

instance (p : Proof) : Decidable (FreshRow p) :=
  decidable_of_iff (p.status = .active ∧ p.claim ≠ none ∧ p.contractTransactionHash = none ∧ p.revokedAt = none ∧
      p.supersedesId = none ∧ p.supersededAt = none ∧ p.revocationPropagationConfirmedAt = none)
    ⟨fun ⟨a, b, c, d, e, f, g⟩ => ⟨a, b, c, d, e, f, g⟩, fun ⟨a, b, c, d, e, f, g⟩ => ⟨a, b, c, d, e, f, g⟩⟩

/-- What a call has decided before its transaction: the credential it hashed, the
    row it will insert, and the payments it computed them from. -/
structure Draft where
  credential : Json
  proof : Proof
  payments : List Payment
  deriving DecidableEq

/-- An accepted call: the committed state, the row it inserted, the credential it
    hashed and the payments the proof stands on. -/
structure Issued where
  db : Db
  proof : Proof
  credential : Json
  payments : List Payment
  deriving DecidableEq

/-- Quota, asset policy, row, intent: the transaction of most methods. `recheck` is what a
    method reads again under locks between the asset policy and the insert. -/
def issueUnderPolicy (v : View) (k : Nat) (user : AuthenticatedUser) (d : Draft) (recheck : Db → Except Failure Draft) :
    Except Failure Issued := do
  let db ← consumeForUser E (v.db k) user.id (v.clock 1)
  let policy ← requireActiveAssetPolicy E db d.proof.assetCode d.proof.assetIssuer (v.clock 2)
  let d ← recheck db
  let row := { d.proof with assetPolicyId := some policy.1, assetPolicySnapshot := some policy.2 }
  let db ← insertProof db row
  let db ← enqueueRegister E db row.id
  pure ⟨db, row, d.credential, d.payments⟩

/-! ## What each piece can do -/

variable {E : Env} {db db' : Db} {row : Proof} {proofId : String}

theorem consumeForUser_eq_ok {userId : String} {now : Date}
    (h : consumeForUser E db userId now = .ok db') : ∃ quota, db' = { db with quotaUsage := quota } := by
  unfold consumeForUser at h
  split at h
  · unfold consume at h
    dsimp only at h
    split at h
    · exact ⟨_, (Except.ok.inj h).symm⟩
    · split at h
      · exact ⟨_, (Except.ok.inj h).symm⟩
      · cases h
  · exact ⟨db.quotaUsage, (Except.ok.inj h).symm⟩

theorem insertProof_eq_ok (h : insertProof db row = .ok db') :
    (∀ p ∈ db.proofs, p.id ≠ row.id) ∧ (∀ p ∈ db.proofs, p.credentialHash ≠ row.credentialHash) ∧
      db' = { db with proofs := db.proofs ++ [row] } := by
  obtain ⟨_, hid, h⟩ := bind_eq_ok.mp h
  obtain ⟨_, hhash, h⟩ := bind_eq_ok.mp h
  refine ⟨fun p hp => ?_, fun p hp => ?_, (pure_eq_ok.mp h).symm⟩
  · exact of_decide_eq_true (List.all_eq_true.mp (require_eq_ok.mp hid) p hp)
  · exact of_decide_eq_true (List.all_eq_true.mp (require_eq_ok.mp hhash) p hp)

theorem insertProof_of_fresh (hid : ∀ p ∈ db.proofs, p.id ≠ row.id)
    (hhash : ∀ p ∈ db.proofs, p.credentialHash ≠ row.credentialHash) :
    insertProof db row = .ok { db with proofs := db.proofs ++ [row] } := by
  refine bind_eq_ok.mpr ⟨(), require_eq_ok.mpr ?_, bind_eq_ok.mpr ⟨(), require_eq_ok.mpr ?_, rfl⟩⟩
  · exact List.all_eq_true.mpr fun p hp => decide_eq_true (hid p hp)
  · exact List.all_eq_true.mpr fun p hp => decide_eq_true (hhash p hp)

theorem insertIntent_eq_ok {operation : AnchoringOperation}
    {status : AnchoringStatus} (h : insertIntent db proofId operation status = .ok db') :
    db.intent? proofId operation = none ∧
      db' = { db with anchoringIntents := db.anchoringIntents ++ [⟨proofId, operation, status, 0⟩] } := by
  obtain ⟨_, hnew, h⟩ := bind_eq_ok.mp h
  exact ⟨require_eq_ok.mp hnew, (pure_eq_ok.mp h).symm⟩

theorem enqueueRegister_eq_ok (h : enqueueRegister E db proofId = .ok db') :
    ∃ intents, db' = { db with anchoringIntents := intents } := by
  unfold enqueueRegister at h
  split at h
  · exact ⟨_, (insertIntent_eq_ok h).2⟩
  · exact ⟨db.anchoringIntents, (Except.ok.inj h).symm⟩

theorem issueProof_eq_ok (h : issueProof E db row = .ok db') : (∀ p ∈ db.proofs, p.id ≠ row.id) ∧ ∃ intents, db' =
      { db with proofs := db.proofs ++ [row], anchoringIntents := intents } := by
  obtain ⟨_, hrow, h⟩ := bind_eq_ok.mp h
  obtain ⟨hid, -, rfl⟩ := insertProof_eq_ok hrow
  obtain ⟨intents, rfl⟩ := enqueueRegister_eq_ok h
  exact ⟨hid, intents, rfl⟩

/-- A transaction that went through: the re-check saw the store with only the quota
    counted, and its draft was inserted under the asset policy. -/
theorem issueUnderPolicy_eq_ok {v : View} {k : Nat} {user : AuthenticatedUser} {d : Draft}
    {recheck : Db → Except Failure Draft} {issued : Issued}
    (h : issueUnderPolicy E v k user d recheck = .ok issued) :
    ∃ quota policy snapshot d', recheck { v.db k with quotaUsage := quota } = .ok d' ∧
      issued.proof = { d'.proof with assetPolicyId := policy, assetPolicySnapshot := snapshot } ∧
      issued.credential = d'.credential ∧ issued.payments = d'.payments ∧
      issueProof E { v.db k with quotaUsage := quota } issued.proof = .ok issued.db := by
  obtain ⟨_, hquota, h⟩ := bind_eq_ok.mp h
  obtain ⟨quota, rfl⟩ := consumeForUser_eq_ok hquota
  obtain ⟨policy, _, h⟩ := bind_eq_ok.mp h
  obtain ⟨d', hd, h⟩ := bind_eq_ok.mp h
  obtain ⟨_, hrow, h⟩ := bind_eq_ok.mp h
  obtain ⟨_, hreg, h⟩ := bind_eq_ok.mp h
  cases h
  exact ⟨quota, some policy.1, some policy.2, d', hd, rfl, rfl, rfl, bind_eq_ok.mpr ⟨_, hrow, hreg⟩⟩

inductive VerificationResult where
  | valid | expired | revoked | invalidSignature | unknownProof | unverifiedIssuer
  deriving DecidableEq

inductive ContractProofStatus where
  | unchecked
  | checked (revoked valid : Bool)
  deriving DecidableEq

def storedResult (p : Proof) (expectedHash : String) (now : Date) : VerificationResult :=
  if p.credentialHash ≠ expectedHash then .invalidSignature
  else if p.status = .revoked then .revoked
  else if p.expiresAt ≤ now then .expired
  else if p.status ≠ .active then .invalidSignature
  else .valid

/-- On-chain invalidity overrides the local state. -/
def failClosed (result : VerificationResult) : ContractProofStatus → VerificationResult
  | .unchecked => result
  | .checked revoked valid =>
    if revoked then .revoked
    else if result = .valid ∧ valid = false then .invalidSignature
    else result

/-- Whether a proof carries an on-chain transaction hash. -/
def anchored (p : Proof) : Bool := (p.contractTransactionHash.filter (· ≠ "")).isSome

def requireAnchor (E : Env) (p : Proof) (result : VerificationResult) : VerificationResult :=
  if result = .valid ∧ E.anchoringRequired ∧ anchored p = false then .unverifiedIssuer else result

/-- `getProofStatus` is the contract read, which may throw. -/
def verifyProof (E : Env) (getProofStatus : String → Except Failure ContractProofStatus) (now : Date) (db : Db)
    (proofId : String) : Except Failure VerificationResult :=
  match db.proof? proofId with
  | none => .ok .unknownProof
  | some p => do
    let owner ← orThrow (db.user? p.userId) (.thrown "PrismaClientUnknownRequestError")
    match p.claim with
    | none => .ok .unknownProof
    | some claim => do
      let expectedHash := credentialHash (E.reader.rebuildCredential owner.walletHash p claim)
      let contractStatus ← if anchored p then getProofStatus p.id else pure .unchecked
      pure (requireAnchor E p (failClosed (storedResult p expectedHash now) contractStatus))

/-- An active row answers `INVALID_SIGNATURE` exactly when its hash is not the expected one. -/
theorem storedResult_eq_invalidSignature {p : Proof} (hs : p.status = .active) (expectedHash : String) (now : Date) :
    storedResult p expectedHash now = .invalidSignature ↔ p.credentialHash ≠ expectedHash := by
  unfold storedResult
  by_cases h : p.credentialHash ≠ expectedHash
  · simp [h]
  · simp only [h, if_false, hs, iff_false]
    by_cases he : p.expiresAt ≤ now
    · simp [he]
    · simp [he]

theorem requireAnchor_eq_invalidSignature (E : Env) (p : Proof) (r : VerificationResult) :
    requireAnchor E p r = .invalidSignature ↔ r = .invalidSignature := by
  unfold requireAnchor
  split
  · rename_i h
    simp [h.1]
  · exact Iff.rfl

/-- And so does a stored proof with nothing on chain. -/
theorem verifyProof_eq_invalidSignature (E : Env) (getProofStatus : String → Except Failure ContractProofStatus)
    (now : Date) {db : Db} {p : Proof} {owner : User} {claim : ProofClaim} (hp : db.proof? p.id = some p)
    (ho : db.user? p.userId = some owner) (hc : p.claim = some claim) (hs : p.status = .active)
    (hhash : p.contractTransactionHash = none) : verifyProof E getProofStatus now db p.id = .ok .invalidSignature ↔
      p.credentialHash ≠ credentialHash (E.reader.rebuildCredential owner.walletHash p claim) := by
  have hanswer : verifyProof E getProofStatus now db p.id = .ok (requireAnchor E p
      (storedResult p (credentialHash (E.reader.rebuildCredential owner.walletHash p claim)) now)) := by
    unfold verifyProof
    simp only [hp, ho, hc, anchored, hhash, orThrow]
    rfl
  rw [hanswer, Except.ok.injEq, requireAnchor_eq_invalidSignature, storedResult_eq_invalidSignature hs]

end EarnProof.Proofs
