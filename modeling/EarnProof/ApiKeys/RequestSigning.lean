/-
  EarnProof.ApiKeys.RequestSigning — signed requests (`src/common/crypto/request-signing.ts`),
  the guard that checks them (`src/common/guards/request-signing.guard.ts`) and the nonces it
  stores (`src/api-keys/request-nonce.service.ts`).

  The guard verifies a request by the clock, in whole seconds, and claims its nonce in a later
  statement. `ApiKeyGuard` ran before it, so the bearer token is the secret of the key in the
  context (`secretOf`). Purges run at any time, on any server; the servers share one clock, in
  milliseconds, that does not go back. A claim that cannot be written is refused.

  A timestamp is accepted through the whole second `ts + 300`, and its nonce expires at the
  beginning of that second. A purge in the last second takes the nonce away, and the request
  is accepted again (`replayed_after_purge`). Proved: where a purge takes no nonce whose
  timestamp is still accepted, or that a verified request is about to claim, no request is
  accepted twice (`accepted_once`).
-/
import EarnProof.Lib.Run
import EarnProof.Common.Crypto

namespace EarnProof.ApiKeys.Signing

open Lib Lib.Encoding List Option

/-! ## Signatures -/

def SIGNING_VERSION : String := "v1"

def NONCE_MIN_LEN : Nat := 16
def NONCE_MAX_LEN : Nat := 128

def isNonceChar (c : Char) : Bool := c.isAlphanum || c = '_' || c = '-'

/-- `NONCE_PATTERN.test`. -/
def isNonce (nonce : String) : Bool :=
  NONCE_MIN_LEN ≤ nonce.toList.length && nonce.toList.length ≤ NONCE_MAX_LEN && nonce.toList.all isNonceChar

def DEFAULT_CLOCK_WINDOW_SECONDS : Int := 300

def SIGNING_LABEL : String := "earnproof-request-signing-v1"

def deriveSigningKey (rawSecret : String) : List Nat := Sha256.hmac (utf8 rawSecret.toList) (utf8 SIGNING_LABEL.toList)

/-- `String(timestamp)`. -/
def timestampText (timestamp : Int) : List Char := (Num.ofInt timestamp).text

def buildCanonicalString (method path : String) (timestamp : Int) (nonce bodySha256 : String) : String :=
  String.ofList
    (method.toUpper.toList ++ '\n' :: (path.toList ++ '\n' :: (timestampText timestamp ++ '\n' ::
      (nonce.toList ++ '\n' :: bodySha256.toList))))

/-- A request without a body has the digest of no bytes. -/
def bodyDigest (body : List Nat) : String := Sha256.toHex (Sha256.digest body)

def computeSignature (signingKey : List Nat) (canonical : String) : String :=
  SIGNING_VERSION ++ "=" ++ Sha256.toHex (Sha256.hmac signingKey (utf8 canonical.toList))

def isLowerHex (c : Char) : Bool := c.isDigit || ('a' ≤ c && c ≤ 'f')

/-- `/^v1=[a-f0-9]{64}$/`. -/
def isSignature (signature : String) : Bool :=
  match signature.toList with
  | 'v' :: '1' :: '=' :: hex => hex.length = 64 && hex.all isLowerHex
  | _ => false

inductive SignatureFailureReason where
  | missingHeaders | malformedTimestamp | staleTimestamp | malformedNonce | malformedSignature | bodyMismatch
  | signatureInvalid
  deriving DecidableEq

/-- The integer a header gives: `Number(header)`, where it prints as the header does. A number
    beyond the safe integers is refused by its text or as stale; here it is stale. -/
def readTimestamp (header : String) : Option Int :=
  (JsText.bigInt header.toList).filter fun ts => timestampText ts = JsText.trim header.toList

structure VerifySignatureParams where
  rawSecret : String
  method : String
  path : String
  timestampHeader : String
  nonceHeader : String
  signatureHeader : String
  body : List Nat
  nowSeconds : Int
  deriving DecidableEq

/-- The signature the request should carry. -/
def VerifySignatureParams.expected (x : VerifySignatureParams) (ts : Int) : String :=
  computeSignature (deriveSigningKey x.rawSecret)
    (buildCanonicalString x.method x.path ts x.nonceHeader (bodyDigest x.body))

def verifySignature (x : VerifySignatureParams) : Except SignatureFailureReason Unit :=
  match readTimestamp x.timestampHeader with
  | none => .error .malformedTimestamp
  | some ts =>
    if DEFAULT_CLOCK_WINDOW_SECONDS < |x.nowSeconds - ts| then .error .staleTimestamp
    else if !isNonce x.nonceHeader then .error .malformedNonce
    else if !isSignature x.signatureHeader then .error .malformedSignature
    else if x.signatureHeader ≠ x.expected ts then .error .signatureInvalid
    else .ok ()

/-! ## The guard -/

/-- What the guard reads of a request; a header is its single or first value. -/
structure Request where
  /-- The key `ApiKeyGuard` put into the context. -/
  keyId : Option String
  method : String
  path : String
  timestamp : Option String
  nonce : Option String
  signature : Option String
  body : List Nat
  /-- The route is marked `@RequireSigning()`. -/
  requireSigning : Bool
  deriving DecidableEq

variable (secretOf : String → String) (r : Request) (c : Claim)

def hasSigningHeaders : Bool := r.signature.isSome || r.timestamp.isSome || r.nonce.isSome

def publicMessage : SignatureFailureReason → String
  | .staleTimestamp => "Request timestamp is outside the accepted clock window (±5 min)."
  | .malformedTimestamp => "X-EarnProof-Timestamp must be a Unix timestamp in seconds."
  | .malformedNonce => "X-EarnProof-Nonce must be 16–128 URL-safe characters."
  | .malformedSignature => "X-EarnProof-Signature must be in the format v1=<64-char hex>."
  | .signatureInvalid => "Request signature is invalid."
  | .bodyMismatch => "Request signature is invalid."
  | .missingHeaders => "Request signature verification failed."

def given (header : Option String) : Option String := header.filter (· ≠ "")

structure Claim where
  keyId : String
  nonce : String
  timestamp : Int
  deriving DecidableEq

/-- `canActivate` up to the claim: `none` lets a request without signature pass. -/
def canActivate (nowSeconds : Int) (r : Request) : Except String (Option Claim) :=
  if !hasSigningHeaders r then
    if r.requireSigning then
      .error ("This endpoint requires a signed request. Include X-EarnProof-Signature, " ++
        "X-EarnProof-Timestamp, and X-EarnProof-Nonce headers.")
    else .ok none
  else
    match r.keyId with
    | none => .error "Invalid API key"
    | some keyId =>
      match given r.timestamp, given r.nonce, given r.signature with
      | some timestamp, some nonce, some signature =>
        match verifySignature ⟨secretOf keyId, r.method, r.path, timestamp, nonce, signature, r.body, nowSeconds⟩ with
        | .error reason => .error (publicMessage reason)
        | .ok () => .ok (some ⟨keyId, nonce, (readTimestamp timestamp).getD 0⟩)
      | _, _, _ =>
        .error ("Signed request requires all three headers: X-EarnProof-Signature, " ++
          "X-EarnProof-Timestamp, and X-EarnProof-Nonce.")

/-! ## Nonces -/

structure RequestNonce where
  nonceHash : String
  apiKeyId : String
  /-- Milliseconds. -/
  expiresAt : Int
  deriving DecidableEq

def hashNonce (keyId rawNonce : String) : String := Sha256.hex (keyId ++ ":" ++ rawNonce)

def Claim.hash : String := hashNonce c.keyId c.nonce

def Claim.expiresAt : Int := (c.timestamp + DEFAULT_CLOCK_WINDOW_SECONDS) * 1000

/-- `INSERT … ON CONFLICT ("nonceHash") DO NOTHING`; `none` when no row was inserted. -/
def claimNonce (nonces : List RequestNonce) (c : Claim) : Option (List RequestNonce) :=
  if nonces.any fun n => n.nonceHash = c.hash then none else some (nonces ++ [⟨c.hash, c.keyId, c.expiresAt⟩])

def purgeExpiredNonces (nonces : List RequestNonce) (now : Int) : List RequestNonce :=
  nonces.filter fun n => now ≤ n.expiresAt

/-! ## The system -/

structure World where
  /-- Milliseconds. -/
  clock : Int
  nonces : List RequestNonce
  /-- Verified requests whose nonce is yet to be claimed. -/
  verified : List (Request × Claim)
  /-- Ghost: the signed requests that were accepted, in order. -/
  accepted : List Request
  deriving DecidableEq

def World.start (clock : Int) (nonces : List RequestNonce) : World := ⟨clock, nonces, [], []⟩

inductive Event where
  | tick (now : Int)
  | present (r : Request)
  | claim (x : Request × Claim)
  /-- The claim fails, or the server dies before it. -/
  | drop (x : Request × Claim)
  /-- A purge with the time it read. -/
  | purge (now : Int)
  deriving DecidableEq

def step (w : World) : Event → Option World
  | .tick now => if w.clock ≤ now then some { w with clock := now } else none
  | .present r =>
    match canActivate secretOf (w.clock / 1000) r with
    | .ok (some c) => some { w with verified := w.verified ++ [(r, c)] }
    | _ => some w
  | .claim x =>
    if x ∈ w.verified then
      match claimNonce w.nonces x.2 with
      | some nonces => some { w with nonces, verified := w.verified.erase x, accepted := w.accepted ++ [x.1] }
      | none => some { w with verified := w.verified.erase x }
    else none
  | .drop x => if x ∈ w.verified then some { w with verified := w.verified.erase x } else none
  | .purge now => if now ≤ w.clock then some { w with nonces := purgeExpiredNonces w.nonces now } else none

def Repeats (a b : Request) : Prop := a.keyId = b.keyId ∧ a.nonce = b.nonce ∧ a.signature = b.signature

/-! ## What a verified request carries -/

def Request.canonical : String :=
  buildCanonicalString r.method r.path c.timestamp c.nonce (bodyDigest r.body)

def Request.signed : String :=
  computeSignature (deriveSigningKey (secretOf c.keyId)) (r.canonical c)

structure Verified (secretOf : String → String) (r : Request) (c : Claim) : Prop where
  key : r.keyId = some c.keyId
  nonce : r.nonce = some c.nonce
  timestamp : r.timestamp.bind readTimestamp = some c.timestamp
  signature : r.signature = some (r.signed secretOf c)
  wellFormed : isNonce c.nonce

theorem verifySignature_ok {x : VerifySignatureParams} (h : verifySignature x = .ok ()) :
    ∃ ts, readTimestamp x.timestampHeader = some ts ∧ |x.nowSeconds - ts| ≤ DEFAULT_CLOCK_WINDOW_SECONDS ∧
      isNonce x.nonceHeader ∧ x.signatureHeader = x.expected ts := by
  unfold verifySignature at h
  split at h
  · cases h
  · rename_i ts hts
    refine ⟨ts, hts, ?_⟩
    split at h
    · cases h
    · rename_i hwindow
      split at h
      · cases h
      · rename_i hnonce
        split at h
        · cases h
        · split at h
          · cases h
          · rename_i hsig
            exact ⟨not_lt.mp hwindow, by simpa using hnonce, not_not.mp hsig⟩

variable {secretOf : String → String} {r : Request} {c : Claim} {now : Int} {requests : Set Request} {w : World}
  {d : Claim} {text : String} {nonces : List RequestNonce} {w' : World}

theorem Verified.unique (hc : Verified secretOf r c) (hd : Verified secretOf r d) : c = d := by
  have hkey := some.inj (hc.key.symm.trans hd.key)
  have hnonce := some.inj (hc.nonce.symm.trans hd.nonce)
  have hts := some.inj (hc.timestamp.symm.trans hd.timestamp)
  cases c
  cases d
  simp_all

theorem canActivate_claim (h : canActivate secretOf now r = .ok (some c)) :
    Verified secretOf r c ∧ |now - c.timestamp| ≤ DEFAULT_CLOCK_WINDOW_SECONDS := by
  unfold canActivate at h
  split at h
  · split at h <;> cases h
  · split at h
    · cases h
    · rename_i keyId hkey
      split at h
      · rename_i timestamp nonce signature htimestamp hnonce hsig
        split at h
        · cases h
        · rename_i hok
          obtain ⟨ts, hts, hwindow, hformed, hexpected⟩ := verifySignature_ok hok
          obtain rfl := some.inj (Except.ok.inj h)
          have hts' : (readTimestamp timestamp).getD 0 = ts := by rw [hts]; rfl
          refine ⟨⟨hkey, (filter_eq_some_iff.mp hnonce).1, ?_, ?_, hformed⟩, ?_⟩
          · rw [(filter_eq_some_iff.mp htimestamp).1, bind_some, hts]
            rfl
          · rw [(filter_eq_some_iff.mp hsig).1]
            show some signature =
              some (computeSignature _ (buildCanonicalString _ _ ((readTimestamp timestamp).getD 0) _ _))
            rw [hts']
            exact congrArg some hexpected
          · show |now - (readTimestamp timestamp).getD 0| ≤ _
            rw [hts']
            exact hwindow
      · cases h

/-! ## The text that is signed names its timestamp -/

theorem newline_not_mem_timestampText (ts : Int) : '\n' ∉ timestampText ts := by
  intro h
  have hnum := all_eq_true.mp (Num.ofInt ts).numeric _ h
  exact absurd hnum (by decide)

theorem newline_not_mem_nonce {nonce : String} (h : isNonce nonce) : '\n' ∉ nonce.toList := by
  intro hm
  have hall := (Bool.and_eq_true_iff.mp h).2
  exact absurd (all_eq_true.mp hall _ hm) (by decide)

theorem newline_not_mem_bodyDigest (body : List Nat) : '\n' ∉ (bodyDigest body).toList := by
  intro hm
  rw [bodyDigest, Sha256.toHex, String.toList_ofList] at hm
  exact Sha256.of_mem_hexDigits (p := fun c => c ≠ '\n') (by decide) hm rfl

/-- Only the method and the path may hold line breaks, and they come first. -/
theorem timestamp_of_canonical {r' : Request} {c' : Claim} (hc : isNonce c.nonce) (hc' : isNonce c'.nonce)
    (h : r.canonical c = r'.canonical c') : c.timestamp = c'.timestamp := by
  have hassoc : ∀ m p t n d : List Char, m ++ '\n' :: (p ++ '\n' :: (t ++ '\n' :: (n ++ '\n' :: d))) =
      ((m ++ '\n' :: p ++ '\n' :: t) ++ '\n' :: n) ++ '\n' :: d := by simp
  have hl : (r.canonical c).toList = (r'.canonical c').toList := congrArg String.toList h
  simp only [Request.canonical, buildCanonicalString, String.toList_ofList, hassoc] at hl
  -- the body's digest, the nonce and the timestamp are taken off from the end
  have hbody := (JsText.append_cons_inj_last (newline_not_mem_bodyDigest _) (newline_not_mem_bodyDigest _) hl).1
  have hnonce := (JsText.append_cons_inj_last (newline_not_mem_nonce hc) (newline_not_mem_nonce hc') hbody).1
  have hts := (JsText.append_cons_inj_last (newline_not_mem_timestampText _) (newline_not_mem_timestampText _) hnonce).2
  exact Num.ofInt_text_inj hts

/-! ## No request is accepted twice -/

section

variable (secretOf : String → String) (requests : Set Request)

/-- The texts that are signed with a key in verified requests. -/
def signedTexts (keyId : String) : Set String :=
  { s | ∃ r ∈ requests, ∃ c, Verified secretOf r c ∧ c.keyId = keyId ∧ s = r.canonical c }

/-- No two of these texts have one signature. -/
def SignsApart : Prop :=
  ∀ keyId, ∀ s ∈ signedTexts secretOf requests keyId, ∀ t ∈ signedTexts secretOf requests keyId,
    computeSignature (deriveSigningKey (secretOf keyId)) s =
      computeSignature (deriveSigningKey (secretOf keyId)) t → s = t

/-- Only these requests are presented, and a purge takes no nonce whose timestamp is still
    accepted, or that a verified request is about to claim. -/
def Spares (requests : Set Request) (w : World) : Event → Prop
  | .present r => r ∈ requests
  | .purge now => ∀ n ∈ w.nonces, n.expiresAt < now →
      n.expiresAt + 1000 ≤ w.clock ∧ ∀ x ∈ w.verified, x.2.hash ≠ n.nonceHash
  | _ => True

/-- The nonce is stored, or its timestamp is out of the window for good. -/
def Spent (w : World) (c : Claim) : Prop :=
  (∃ n ∈ w.nonces, n.nonceHash = c.hash ∧ n.expiresAt = c.expiresAt) ∨
    (c.expiresAt + 1000 ≤ w.clock ∧ ∀ x ∈ w.verified, x.2.hash = c.hash → x.2.timestamp ≠ c.timestamp)

structure Inv (w : World) : Prop where
  verified : ∀ x ∈ w.verified, x.1 ∈ requests ∧ Verified secretOf x.1 x.2
  accepted : ∀ r ∈ w.accepted, ∃ c, r ∈ requests ∧ Verified secretOf r c ∧ Spent w c
  once : w.accepted.Pairwise fun a b => ¬ Repeats a b

end

/-- A repeated request has the nonce and the timestamp of the first. -/
theorem claim_of_repeats (hfree : SignsApart secretOf requests)
    {a b : Request} (ha : a ∈ requests) (hb : b ∈ requests) (hc : Verified secretOf a c)
    (hd : Verified secretOf b d) (h : Repeats a b) : d.hash = c.hash ∧ d.timestamp = c.timestamp := by
  obtain ⟨hkey, hnonce, hsig⟩ := h
  rw [hc.key, hd.key] at hkey
  rw [hc.nonce, hd.nonce] at hnonce
  rw [hc.signature, hd.signature] at hsig
  have hkey := some.inj hkey
  have hsig := some.inj hsig
  refine ⟨by rw [Claim.hash, Claim.hash, ← hkey, ← some.inj hnonce], ?_⟩
  unfold Request.signed at hsig
  rw [← hkey] at hsig
  have htext := hfree c.keyId _ ⟨a, ha, c, hc, rfl, rfl⟩ _ ⟨b, hb, d, hd, hkey.symm, rfl⟩ hsig
  exact (timestamp_of_canonical hc.wellFormed hd.wellFormed htext).symm

/-- What is spent stays so while no nonce goes, no claim comes and the clock goes on. -/
theorem Spent.mono (h : Spent w c) (hnonces : ∀ n ∈ w.nonces, n ∈ w'.nonces)
    (hclock : w.clock ≤ w'.clock) (hverified : ∀ x ∈ w'.verified, x ∈ w.verified) : Spent w' c := by
  rcases h with ⟨n, hn, hrow⟩ | ⟨hlate, hclear⟩
  · exact .inl ⟨n, hnonces n hn, hrow⟩
  · exact .inr ⟨le_trans hlate hclock, fun x hx => hclear x (hverified x hx)⟩

/-- A request with a timestamp that is out of the window is not verified. -/
theorem Spent.present (h : Spent w c) (hwindow : |w.clock / 1000 - d.timestamp| ≤ DEFAULT_CLOCK_WINDOW_SECONDS) :
    Spent { w with verified := w.verified ++ [(r, d)] } c := by
  rcases h with hrow | ⟨hlate, hclear⟩
  · exact .inl hrow
  · refine .inr ⟨hlate, fun x hx hhash hts => ?_⟩
    rcases mem_append.mp hx with hx | hx
    · exact hclear x hx hhash hts
    · rw [mem_singleton.mp hx] at hts
      have hts : d.timestamp = c.timestamp := hts
      simp only [Claim.expiresAt, DEFAULT_CLOCK_WINDOW_SECONDS, abs_le] at hlate hwindow
      omega

theorem Spent.purge (h : Spent w c)
    (hok : Spares requests w (.purge now)) : Spent { w with nonces := purgeExpiredNonces w.nonces now } c := by
  rcases h with ⟨n, hn, hhash, hexpires⟩ | hlate
  · by_cases hkept : now ≤ n.expiresAt
    · exact .inl ⟨n, mem_filter.mpr ⟨hn, decide_eq_true hkept⟩, hhash, hexpires⟩
    · obtain ⟨hlate, hclear⟩ := hok n hn (not_le.mp hkept)
      rw [hexpires] at hlate
      exact .inr ⟨hlate, fun x hx he => absurd (he.trans hhash.symm) (hclear x hx)⟩
  · exact .inr hlate

section

variable (hi : Inv secretOf requests w)

include hi

/-- Nothing is accepted, and what is spent stays so. -/
theorem Inv.frame (hverified : ∀ x ∈ w'.verified, x.1 ∈ requests ∧ Verified secretOf x.1 x.2)
    (haccepted : w'.accepted = w.accepted) (hspent : ∀ c, Spent w c → Spent w' c) : Inv secretOf requests w' := by
  refine ⟨hverified, fun a ha => ?_, haccepted ▸ hi.once⟩
  obtain ⟨d, hmem, hd, hbefore⟩ := hi.accepted a (haccepted ▸ ha)
  exact ⟨d, hmem, hd, hspent d hbefore⟩

theorem Inv.present (hr : r ∈ requests) (h : canActivate secretOf (w.clock / 1000) r = .ok (some c)) :
    Inv secretOf requests { w with verified := w.verified ++ [(r, c)] } := by
  obtain ⟨hv, hwindow⟩ := canActivate_claim h
  refine hi.frame (fun x hx => ?_) rfl fun d hspent => hspent.present hwindow
  rcases mem_append.mp hx with hx | hx
  · exact hi.verified x hx
  · rw [mem_singleton.mp hx]
    exact ⟨hr, hv⟩

/-- A claim that goes through is of a request that repeats none of the accepted ones. -/
theorem Inv.claim (hfree : SignsApart secretOf requests) {x : Request × Claim} (hx : x ∈ w.verified)
    (h : claimNonce w.nonces x.2 = some nonces) :
    Inv secretOf requests
      { w with nonces, verified := w.verified.erase x, accepted := w.accepted ++ [x.1] } := by
  unfold claimNonce at h
  split at h
  · cases h
  rename_i hnone
  cases h
  have hfresh : ∀ n ∈ w.nonces, n.nonceHash ≠ x.2.hash :=
    fun n hn he => hnone (any_eq_true.mpr ⟨n, hn, decide_eq_true he⟩)
  obtain ⟨hmem, hv⟩ := hi.verified x hx
  refine ⟨?_, ?_, ?_⟩
  · intro y hy
    exact hi.verified y (mem_of_mem_erase hy)
  · intro a ha
    rcases mem_append.mp ha with ha | ha
    · obtain ⟨d, hamem, hd, hspent⟩ := hi.accepted a ha
      refine ⟨d, hamem, hd, hspent.mono ?_ le_rfl ?_⟩
      · exact fun n hn => mem_append_left _ hn
      · exact fun y hy => mem_of_mem_erase hy
    · rw [mem_singleton.mp ha]
      refine ⟨x.2, hmem, hv, .inl ⟨⟨x.2.hash, x.2.keyId, x.2.expiresAt⟩, ?_, rfl, rfl⟩⟩
      exact mem_append_right _ (mem_singleton_self _)
  · refine pairwise_append.mpr ⟨hi.once, pairwise_singleton _ _, ?_⟩
    intro a ha b hb hrepeat
    rw [mem_singleton.mp hb] at hrepeat
    obtain ⟨d, hamem, hd, hspent⟩ := hi.accepted a ha
    obtain ⟨hhash, hts⟩ := claim_of_repeats hfree hamem hmem hd hv hrepeat
    rcases hspent with ⟨n, hn, hrow, _⟩ | ⟨_, hclear⟩
    · exact hfresh n hn (hrow.trans hhash.symm)
    · exact hclear x hx hhash hts

theorem Inv.drop (x : Request × Claim) : Inv secretOf requests { w with verified := w.verified.erase x } := by
  refine hi.frame (fun y hy => hi.verified y (mem_of_mem_erase hy)) rfl fun d hspent => ?_
  exact hspent.mono (fun _ hn => hn) le_rfl fun y hy => mem_of_mem_erase hy

theorem step_inv (hfree : SignsApart secretOf requests) {e : Event} (hok : Spares requests w e)
    (h : step secretOf w e = some w') : Inv secretOf requests w' := by
  cases e with
  | tick =>
    obtain ⟨hle, rfl⟩ := enabled h
    exact hi.frame hi.verified rfl fun d hspent => hspent.mono (fun _ hn => hn) hle fun _ hy => hy
  | present r =>
    simp only [step] at h
    split at h
    · rename_i c hc
      cases h
      exact hi.present hok hc
    · cases h
      exact hi
  | claim x =>
    simp only [step] at h
    split at h
    · rename_i hx
      split at h
      · rename_i nonces hn
        cases h
        exact hi.claim hfree hx hn
      · cases h
        exact hi.drop x
    · cases h
  | drop x =>
    obtain ⟨-, rfl⟩ := enabled h
    exact hi.drop x
  | purge =>
    obtain ⟨-, rfl⟩ := enabled h
    exact hi.frame hi.verified rfl fun d hspent => hspent.purge hok

end

/-- In every run whose purges spare the nonces in use, no accepted request repeats the nonce
    and the signature of an earlier one for the same key. -/
theorem accepted_once (secretOf : String → String) (requests : Set Request) (hfree : SignsApart secretOf requests)
    (clock : Int) (nonces : List RequestNonce) (w : World)
    (hrun : Run (step secretOf) (Spares requests) (World.start clock nonces) w) :
    w.accepted.Pairwise fun a b => ¬ Repeats a b := by
  have hinv : Inv secretOf requests w := by
    refine hrun.invariant ?_ fun a e b hi hok hs => step_inv hi hfree hok hs
    exact ⟨by simp [World.start], by simp [World.start], by simp [World.start]⟩
  exact hinv.once

/-! ## A request that is presented twice -/

theorem isSignature_computeSignature (key : List Nat) (canonical : String) :
    isSignature (computeSignature key canonical) := by
  have hlist : (computeSignature key canonical).toList =
      'v' :: '1' :: '=' :: Sha256.hexDigits (Sha256.hmac key (utf8 canonical.toList)) := by
    simp [computeSignature, SIGNING_VERSION, Sha256.toHex, String.toList_append]
  have hlower : (Sha256.hexDigits (Sha256.hmac key (utf8 canonical.toList))).all isLowerHex := by
    refine all_eq_true.mpr fun c hc => ?_
    exact Sha256.of_mem_hexDigits (p := fun c => isLowerHex c) (by decide) hc
  have hlength : (Sha256.hexDigits (Sha256.hmac key (utf8 canonical.toList))).length = 64 := by
    rw [Sha256.length_hexDigits, Sha256.hmac, Sha256.length_digest]
  unfold isSignature
  rw [hlist]
  simp [hlower, hlength]

def signedRequest (secretOf : String → String) (c : Claim) : Request :=
  let r : Request := ⟨some c.keyId, "POST", "/api/v1/proofs/minimum-income",
    some (String.ofList (timestampText c.timestamp)), some c.nonce, none, [], true⟩
  { r with signature := some (r.signed secretOf c) }

theorem given_of_toList (h : text.toList ≠ []) : given (some text) = some text := by
  have hne : text ≠ "" := fun he => h (by rw [he]; rfl)
  simp [given, Option.filter, hne]

def signedParams (secretOf : String → String) (c : Claim) (now : Int) : VerifySignatureParams :=
  let r := signedRequest secretOf c
  ⟨secretOf c.keyId, r.method, r.path, String.ofList (timestampText c.timestamp), c.nonce,
    r.signed secretOf c, r.body, now⟩

section

variable (hnonce : isNonce c.nonce)
  (hread : readTimestamp (String.ofList (timestampText c.timestamp)) = some c.timestamp)

include hnonce hread

theorem canActivate_signedRequest : canActivate secretOf now (signedRequest secretOf c) =
      match verifySignature (signedParams secretOf c now) with
      | .error reason => .error (publicMessage reason)
      | .ok () => .ok (some c) := by
  have htext : given (signedRequest secretOf c).timestamp = some (String.ofList (timestampText c.timestamp)) := by
    refine given_of_toList ?_
    rw [String.toList_ofList]
    exact (Num.ofInt c.timestamp).nonempty
  have hgiven : given (signedRequest secretOf c).nonce = some c.nonce := by
    refine given_of_toList fun he => ?_
    simp [isNonce, he, NONCE_MIN_LEN] at hnonce
  have hsigned : given (signedRequest secretOf c).signature = some ((signedRequest secretOf c).signed secretOf c) := by
    refine given_of_toList fun he => ?_
    have hsig := isSignature_computeSignature (deriveSigningKey (secretOf c.keyId))
      ((signedRequest secretOf c).canonical c)
    have he : (computeSignature (deriveSigningKey (secretOf c.keyId)) ((signedRequest secretOf c).canonical c)).toList =
        [] :=
      he
    rw [isSignature, he] at hsig
    cases hsig
  have hkey : (signedRequest secretOf c).keyId = some c.keyId := rfl
  have hheaders : hasSigningHeaders (signedRequest secretOf c) := rfl
  simp only [canActivate, hheaders, hkey, htext, hgiven, hsigned, hread]
  rfl

theorem verifySignature_signedParams (hwindow : |now - c.timestamp| ≤ DEFAULT_CLOCK_WINDOW_SECONDS) :
    verifySignature (signedParams secretOf c now) = .ok () := by
  have hsig := isSignature_computeSignature (deriveSigningKey (secretOf c.keyId))
    ((signedRequest secretOf c).canonical c)
  simp only [verifySignature, signedParams, hread, if_neg (not_lt.mpr hwindow), hnonce]
  simp only [Request.signed, hsig]
  simp [VerifySignatureParams.expected, Request.canonical]

end

def sampleClaim : Claim := ⟨"key-1", "abc123def456ghi7", 1724400000⟩

def sampleSecret : String → String := fun _ => "test-secret-key-abcdefghij0123456789ABCDEFG"

def sampleRequest : Request := signedRequest sampleSecret sampleClaim

def sampleNonce : RequestNonce := ⟨sampleClaim.hash, sampleClaim.keyId, sampleClaim.expiresAt⟩

theorem readTimestamp_sample :
    readTimestamp (String.ofList (timestampText sampleClaim.timestamp)) = some sampleClaim.timestamp := by
  decide +kernel

theorem canActivate_sample (hwindow : |now - 1724400000| ≤ 300) :
    canActivate sampleSecret now sampleRequest = .ok (some sampleClaim) := by
  rw [sampleRequest, canActivate_signedRequest (by decide) readTimestamp_sample,
    verifySignature_signedParams (by decide) readTimestamp_sample hwindow]

theorem present_sample (clock : Int) (nonces : List RequestNonce) (accepted : List Request)
    (hwindow : |clock / 1000 - 1724400000| ≤ 300) :
    step sampleSecret ⟨clock, nonces, [], accepted⟩ (.present sampleRequest) =
      some ⟨clock, nonces, [(sampleRequest, sampleClaim)], accepted⟩ := by
  simp only [step, canActivate_sample hwindow]
  rfl

theorem claim_sample (clock : Int) (accepted : List Request) :
    step sampleSecret ⟨clock, [], [(sampleRequest, sampleClaim)], accepted⟩ (.claim (sampleRequest, sampleClaim)) =
      some ⟨clock, [sampleNonce], [], accepted ++ [sampleRequest]⟩ := by
  simp [step, claimNonce, sampleNonce]

theorem tick_sample (now : Int) (hnow : 1724400000000 ≤ now) :
    step sampleSecret ⟨1724400000000, [sampleNonce], [], [sampleRequest]⟩ (.tick now) =
      some ⟨now, [sampleNonce], [], [sampleRequest]⟩ := by
  simp [step, hnow]

theorem purge_sample (now : Int) (hnow : 1724400300000 < now) :
    step sampleSecret ⟨now, [sampleNonce], [], [sampleRequest]⟩ (.purge now) = some ⟨now, [], [], [sampleRequest]⟩ := by
  simp [step, purgeExpiredNonces, sampleNonce, sampleClaim, Claim.expiresAt, DEFAULT_CLOCK_WINDOW_SECONDS, hnow]

/-- Half a second into the last second of its window the nonce is purged, and the same request
    is accepted again. -/
theorem replayed_after_purge : ∃ w, Run (step sampleSecret) anyStep (World.start 1724400000000 []) w ∧
      w.accepted = [sampleRequest, sampleRequest] ∧ Repeats sampleRequest sampleRequest := by
  have h1 := present_sample 1724400000000 [] [] (by decide)
  have h2 := claim_sample 1724400000000 []
  have h3 := tick_sample 1724400300500 (by decide)
  have h4 := purge_sample 1724400300500 (by decide)
  have h5 := present_sample 1724400300500 [] [sampleRequest] (by decide)
  have h6 := claim_sample 1724400300500 [sampleRequest]
  have h0 : Run (step sampleSecret) anyStep (World.start 1724400000000 []) ⟨1724400000000, [], [], []⟩ := .refl
  have hrun := (((((h0.snoc _ trivial h1).snoc _ trivial h2).snoc _ trivial h3).snoc _ trivial h4).snoc _ trivial
    h5).snoc _ trivial h6
  exact ⟨_, hrun, rfl, rfl, rfl, rfl⟩

/-- A second later its timestamp is out of the window, and the purge does no harm. -/
theorem refused_after_purge : ∃ w, Run (step sampleSecret) (Spares {sampleRequest}) (World.start 1724400000000 []) w ∧
      w.accepted = [sampleRequest] ∧ w.nonces = [] ∧ w.accepted.Pairwise fun a b => ¬ Repeats a b := by
  have hfree : SignsApart sampleSecret {sampleRequest} := by
    intro keyId s hs t ht _
    obtain ⟨r, hr, c, hc, -, rfl⟩ := hs
    obtain ⟨r', hr', c', hc', -, rfl⟩ := ht
    obtain rfl : r = r' := hr.trans hr'.symm
    rw [hc.unique hc']
  have h1 := present_sample 1724400000000 [] [] (by decide)
  have h2 := claim_sample 1724400000000 []
  have h3 := tick_sample 1724400301000 (by decide)
  have h4 := purge_sample 1724400301000 (by decide)
  have hpurge : Spares {sampleRequest} ⟨1724400301000, [sampleNonce], [], [sampleRequest]⟩ (.purge 1724400301000) := by
    simp [Spares, sampleNonce, sampleClaim, Claim.expiresAt, DEFAULT_CLOCK_WINDOW_SECONDS]
  have h5 : step sampleSecret ⟨1724400301000, [], [], [sampleRequest]⟩ (.present sampleRequest) =
      some ⟨1724400301000, [], [], [sampleRequest]⟩ := by
    have hstale : verifySignature (signedParams sampleSecret sampleClaim 1724400301) = .error .staleTimestamp := by
      simp only [verifySignature, signedParams, readTimestamp_sample]
      exact if_pos (by decide)
    have hrefused : canActivate sampleSecret 1724400301 sampleRequest = .error (publicMessage .staleTimestamp) := by
      rw [sampleRequest, canActivate_signedRequest (by decide) readTimestamp_sample, hstale]
    simp [step, hrefused]
  have hpresent : ∀ w, Spares {sampleRequest} w (.present sampleRequest) := fun _ => rfl
  have hclaim : ∀ w x, Spares {sampleRequest} w (.claim x) := fun _ _ => trivial
  have htick : ∀ w now, Spares {sampleRequest} w (.tick now) := fun _ _ => trivial
  have h0 : Run (step sampleSecret) (Spares {sampleRequest}) (World.start 1724400000000 [])
      ⟨1724400000000, [], [], []⟩ :=
    .refl
  have hrun := ((((h0.snoc _ (hpresent _) h1).snoc _ (hclaim _ _) h2).snoc _ (htick _ _) h3).snoc _ hpurge h4).snoc _
    (hpresent _) h5
  exact ⟨_, hrun, rfl, rfl, accepted_once sampleSecret _ hfree _ _ _ hrun⟩

end EarnProof.ApiKeys.Signing
