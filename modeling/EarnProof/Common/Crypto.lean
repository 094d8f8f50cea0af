/-
  EarnProof.Common.Crypto — `src/common/crypto`: canonical serialisation, SHA-256 commitments, and
  the payment-encryption keyring with the protected amounts and addresses it opens
  (`protected-amount.ts`, `payment-encryption-keyring.service.ts`); and the writing side, the
  ciphertexts and the lookup token of a payment's addresses under the active key version
  (`protected-address.ts`, `payment-address-cipher.ts`) and its amounts under a version of the
  keyring, with the prefix test by which the key jobs find them.

  AES-256-GCM is not in the repository: `Gcm.decipher` stands for
  `createDecipheriv("aes-256-gcm", …)` with its final authentication check, and `SealingGcm` for
  both directions, with what the code relies on: bytes in, bytes out, a ciphertext as long as its
  plaintext, a tag, and the inverse.

  Proved: an address opens again from its ciphertext, in its own field, exactly when it
  is not empty (`decryptAddress_of_encryptAddress`); an amount opens again unless it is empty
  (`amount_opens_iff`), and is found under its own version and no other
  (`isUnder_encryptProtectedAmount`).
-/
import EarnProof.Lib.JsText
import EarnProof.Lib.Sha256
import Mathlib.Data.Set.Defs

namespace EarnProof.Common.Crypto

open Lib Lib.Encoding List Option

/-! ## Canonical form and hashes -/

/-- `canonicalize`. A `Json` value has no non-finite number to refuse. -/
def canonicalize (value : Json) : String := Json.stringify (Json.sortKeys value)

def sha256 (value : String) : String := Sha256.hex value

/-- The `sha256:…` form in which every hash is stored. -/
def sha256Tagged (value : String) : String := "sha256:" ++ sha256 value

/-- No two of these texts have one digest. -/
def CollisionFree (texts : Set String) : Prop := ∀ s ∈ texts, ∀ t ∈ texts, sha256 s = sha256 t → s = t

theorem sha256Tagged_eq {s t : String} : sha256Tagged s = sha256Tagged t ↔ sha256 s = sha256 t := by
  unfold sha256Tagged
  constructor
  · intro h
    have hl := congrArg String.toList h
    exact String.toList_inj.mp (by simpa [String.toList_append] using hl)
  · intro h; rw [h]

/-! ## Keyring -/

/-- Key material by version, as loaded from the environment. -/
abbrev Keyring := Nat → Option String

def Keyring.Keeps (old new : Keyring) : Prop := ∀ v k, old v = some k → new v = some k

/-- `createDecipheriv("aes-256-gcm", key, iv)` with additional data, tag and
    ciphertext, all as bytes; `none` when the tag does not verify. -/
structure Gcm where
  decipher : (key iv aad tag ciphertext : List Nat) → Option (List Nat)

def isHex (c : Char) : Bool := c.isDigit || ('a' ≤ c && c ≤ 'f') || ('A' ≤ c && c ≤ 'F')

def hexVal (c : Char) : Nat :=
  if c.isDigit then c.toNat - 48 else if 'a' ≤ c then c.toNat - 87 else c.toNat - 55

def hexBytes : List Char → List Nat
  | a :: b :: r => (16 * hexVal a + hexVal b) :: hexBytes r
  | _ => []

/-- `Buffer.from(text, "base64url")`, which also reads the plain base64 alphabet. -/
def base64Bytes (cs : List Char) : List Nat := unpack (cs.filterMap charDigit?)

/-- `decodeAmountKey` and `decodeRootKey`. -/
def decodeKey (material : String) : Option (List Nat) :=
  let cs := material.toList
  let key := if cs.length = 64 ∧ cs.all isHex then hexBytes cs else base64Bytes cs
  if key.length = 32 then some key else none

/-- A versioned ciphertext: `<tag>:v<N>:<iv>:<tag>:<ciphertext>`. -/
structure Envelope where
  version : Nat
  iv : List Char
  tag : List Char
  ciphertext : List Char
  deriving DecidableEq

/-- The two ciphertext patterns, which differ in the leading word and in the
    characters a part may have. -/
def readEnvelope (word : String) (part : Char → Bool) (value : String) : Option Envelope :=
  match JsText.splitOn ':' value.toList with
  | [w, 'v' :: ds, iv, tag, ct] =>
    if w = word.toList ∧ ds ≠ [] ∧ ds.all Char.isDigit ∧ (iv ≠ [] ∧ iv.all part) ∧
        (tag ≠ [] ∧ tag.all part) ∧ ct ≠ [] ∧ ct.all part then
      some ⟨Nat.ofDigitChars 10 ds 0, iv, tag, ct⟩
    else none
  | _ => none

def stripLead (lead s : List Char) : Option (List Char) :=
  if lead.isPrefixOf s then some (s.drop lead.length) else none

theorem stripLead_append (lead s : List Char) : stripLead lead (lead ++ s) = some s := by
  unfold stripLead
  rw [if_pos (by simp), drop_left]

def redacted : List Char := "redacted:".toList

section

variable (gcm : Gcm) (ring : Keyring)

/-- `decryptProtectedAmount`; `none` where it throws. -/
def decryptProtectedAmount (value : String) : Option String :=
  match stripLead redacted value.toList with
  | some rest => some (fromBase64url (String.ofList rest))
  | none =>
    match readEnvelope "enc" (fun _ => true) value with
    | none => none
    | some e =>
      match ring e.version with
      | none => none
      | some material =>
        match decodeKey material with
        | none => none
        | some key =>
          (gcm.decipher key (base64Bytes e.iv) [] (base64Bytes e.tag) (base64Bytes e.ciphertext)).map
            fun bytes => String.ofList (utf8Decode bytes)

theorem decryptProtectedAmount_keeps (gcm : Gcm) {old new : Keyring} (h : old.Keeps new) {value plain : String}
    (hd : decryptProtectedAmount gcm old value = some plain) :
    decryptProtectedAmount gcm new value = some plain := by
  unfold decryptProtectedAmount at hd ⊢
  split
  · rename_i rest hr
    rw [hr] at hd
    exact hd
  · rename_i hr
    rw [hr] at hd
    split
    · rename_i he
      rw [he] at hd
      cases hd
    · rename_i e he
      rw [he] at hd
      simp only at hd
      cases hk : old e.version with
      | none => rw [hk] at hd; simp at hd
      | some =>
        rw [hk] at hd
        rw [h _ _ hk]
        exact hd

/-! ## Addresses -/

inductive AddressField where
  | source | destination
  deriving DecidableEq

def AddressField.aad : AddressField → List Nat
  | .source => utf8 "earnproof:payment-address:source".toList
  | .destination => utf8 "earnproof:payment-address:destination".toList

/-- HKDF-SHA256 with an empty salt and one block of output. -/
def derive (root : List Nat) (info : String) : List Nat :=
  Sha256.hmac (Sha256.hmac [] root) (utf8 info.toList ++ [1])

def isBase64urlChar (c : Char) : Bool := c.isAlphanum || c == '_' || c == '-'

/-- `decryptAddress`; `none` where it throws. -/
def decryptAddress (field : AddressField) (value : String) : Option String :=
  match readEnvelope "aenc" isBase64urlChar value with
  | none => none
  | some e =>
    match (ring e.version).bind decodeKey with
    | none => none
    | some root =>
      (gcm.decipher (derive root "earnproof/payment-address/encryption/v1") (base64Bytes e.iv) field.aad
        (base64Bytes e.tag) (base64Bytes e.ciphertext)).map fun bytes => String.ofList (utf8Decode bytes)

/-- `PaymentAddressCipher.reveal`: ciphertext first, then legacy plaintext; an empty
    text counts as missing. -/
def reveal (encrypted plaintext : Option String) (field : AddressField) : Option String :=
  match encrypted.filter (· ≠ "") with
  | some e => decryptAddress gcm ring field e
  | none => plaintext.filter (· ≠ "")

end

/-! ## The cipher -/

def IsBytes (bs : List Nat) : Prop := ∀ b ∈ bs, b < 256

structure Nonce where
  bytes : List Nat
  length_eq : bytes.length = 12
  isBytes : IsBytes bytes

def Nonce.zero : Nonce := ⟨List.replicate 12 0, rfl, by unfold IsBytes; decide⟩

/-- `createCipheriv` and `createDecipheriv` of one cipher; `encipher` returns the
    ciphertext and the tag. -/
structure SealingGcm extends Gcm where
  encipher : (key iv aad plain : List Nat) → List Nat × List Nat
  isBytes : ∀ key iv aad plain, IsBytes plain →
    IsBytes (encipher key iv aad plain).1 ∧ IsBytes (encipher key iv aad plain).2
  length_eq : ∀ key iv aad plain, (encipher key iv aad plain).1.length = plain.length
  tagged : ∀ key iv aad plain, (encipher key iv aad plain).2 ≠ []
  opens : ∀ key iv aad plain, IsBytes plain →
    decipher key iv aad (encipher key iv aad plain).2 (encipher key iv aad plain).1 = some plain

/-- A cipher that leaves the text as it is and tags it with one zero byte. -/
def plainGcm : SealingGcm where
  decipher _ _ _ tag ciphertext := if tag = [0] then some ciphertext else none
  encipher _ _ _ plain := (plain, [0])
  isBytes _ _ _ _ h := ⟨h, show IsBytes [0] by unfold IsBytes; decide⟩
  length_eq _ _ _ _ := rfl
  tagged _ _ _ _ := List.cons_ne_nil _ _
  opens _ _ _ _ _ := rfl

/-- `PaymentAddressCipher` over the keyring it was built from, with the active version
    among the loaded ones. -/
structure PaymentAddressCipher where
  gcm : SealingGcm
  toUpperCase : String → String
  ring : Keyring
  writeVersion : Nat
  loaded : ((ring writeVersion).bind decodeKey).isSome

theorem colon_not_mem_version (version : Nat) : ':' ∉ 'v' :: Nat.toDigits 10 version := by
  intro hc
  rcases mem_cons.mp hc with hc | hc
  · exact absurd hc (by decide)
  · exact absurd (Nat.isDigit_of_mem_toDigits (by decide) (by decide) hc) (by decide)

namespace PaymentAddressCipher

def base64url (bs : List Nat) : List Char := (pack bs).map digitChar

variable (c : PaymentAddressCipher)

/-- The root key of the active version, as far as it is loaded. -/
def root : Option (List Nat) := (c.ring c.writeVersion).bind decodeKey

/-- `encryptAddress`; `none` where it throws. -/
def encryptAddress (iv : Nonce) (field : AddressField) (address : String) : Option String :=
  c.root.map fun root =>
    let out := c.gcm.encipher (derive root "earnproof/payment-address/encryption/v1") iv.bytes field.aad
      (utf8 address.toList)
    String.ofList ("aenc".toList ++ ':' :: ('v' :: Nat.toDigits 10 c.writeVersion ++ ':' ::
      (base64url iv.bytes ++ ':' :: (base64url out.2 ++ ':' :: base64url out.1))))

def normalizeAddress (address : String) : String :=
  c.toUpperCase (String.ofList (JsText.trim address.toList))

/-- `lookupToken`; `none` where it throws. -/
def lookupToken (address : String) : Option String :=
  c.root.map fun root =>
    String.ofList ("hmac:v".toList ++ Nat.toDigits 10 c.writeVersion ++ ':' ::
      base64url (Sha256.hmac (derive root "earnproof/payment-address/lookup/v1")
        (utf8 (c.normalizeAddress address).toList)))

/-- `ProtectedAddressColumns`, less the two plaintext columns it sets to null. -/
structure Columns where
  sourceAddressEncrypted : String
  destinationAddressEncrypted : String
  sourceAddressLookup : String

def protect (iv : AddressField → Nonce) (sourceAddress destinationAddress : String) : Option Columns := do
  let source ← c.encryptAddress (iv .source) .source sourceAddress
  let destination ← c.encryptAddress (iv .destination) .destination destinationAddress
  let token ← c.lookupToken sourceAddress
  pure ⟨source, destination, token⟩

def reveal (encrypted plaintext : Option String) (field : AddressField) : Option String :=
  Crypto.reveal c.gcm.toGcm c.ring encrypted plaintext field

/-! ## Base64url parts of an envelope -/

variable {bs : List Nat}

theorem mem_base64url (h : IsBytes bs) {ch : Char} (hc : ch ∈ base64url bs) : isBase64urlChar ch ∧ ch ≠ ':' := by
  obtain ⟨d, hd, rfl⟩ := mem_map.mp hc
  have hdigit : ∀ d < 64, isBase64urlChar (digitChar d) ∧ digitChar d ≠ ':' := by decide
  exact hdigit d (pack_lt bs h d hd)

theorem base64Bytes_base64url (h : IsBytes bs) : base64Bytes (base64url bs) = bs := by
  unfold base64Bytes base64url
  rw [filterMap_digitChar _ (pack_lt bs h), unpack_pack bs h]

theorem base64url_eq_nil : base64url bs = [] ↔ bs = [] := by
  unfold base64url
  rw [map_eq_nil_iff]
  constructor
  · intro h
    match bs with
    | [] => rfl
    | [_] | [_, _] | _ :: _ :: _ :: _ => simp [pack] at h
  · rintro rfl
    rfl

/-- The four parts come apart again, unless the ciphertext is empty. -/
theorem readEnvelope_base64url (word : String) (hword : ':' ∉ word.toList) (part : Char → Bool)
    (hpart : ∀ ch, isBase64urlChar ch → part ch) (version : Nat) {iv tag ct : List Nat} (hiv : IsBytes iv)
    (htag : IsBytes tag) (hct : IsBytes ct) (hne : iv ≠ [] ∧ tag ≠ []) :
    readEnvelope word part
      (String.ofList (word.toList ++ ':' :: ('v' :: Nat.toDigits 10 version ++ ':' ::
        (base64url iv ++ ':' :: (base64url tag ++ ':' :: base64url ct))))) =
      if ct = [] then none else some ⟨version, base64url iv, base64url tag, base64url ct⟩ := by
  have hcolon : ∀ {bs : List Nat}, IsBytes bs → ':' ∉ base64url bs := fun h hc => (mem_base64url h hc).2 rfl
  have hdigit : ∀ ch ∈ Nat.toDigits 10 version, ch.isDigit :=
    fun ch hc => Nat.isDigit_of_mem_toDigits (by decide) (by decide) hc
  have hall : ∀ {bs : List Nat}, IsBytes bs → (base64url bs).all part :=
    fun h => all_eq_true.mpr fun ch hc => hpart ch (mem_base64url h hc).1
  unfold readEnvelope
  rw [String.toList_ofList, JsText.splitOn_append_cons hword,
    JsText.splitOn_append_cons (colon_not_mem_version version),
    JsText.splitOn_append_cons (hcolon hiv), JsText.splitOn_append_cons (hcolon htag),
    JsText.splitOn_eq_singleton (hcolon hct)]
  have hvalue : Nat.ofDigitChars 10 (Nat.toDigits 10 version) 0 = version :=
    Nat.ofDigitChars_toDigits (by decide) (by decide)
  simp only [hvalue, hall hiv, hall htag, hall hct, all_eq_true.mpr hdigit, Nat.toDigits_ne_nil, ne_eq,
    base64url_eq_nil, hne.1, hne.2, not_false_eq_true, and_self, true_and, and_true, ite_not]

/-! ## Opening what was sealed -/

section

variable (gcm : SealingGcm) (key : List Nat) (iv : Nonce) (aad : List Nat) (text : String)

/-- The envelope of a text is read, unless the text is empty: the pattern of a ciphertext asks
    for at least one character. -/
theorem readEnvelope_encipher (word : String) (hword : ':' ∉ word.toList) (part : Char → Bool)
    (hpart : ∀ ch, isBase64urlChar ch → part ch) (version : Nat) :
    let out := gcm.encipher key iv.bytes aad (utf8 text.toList)
    readEnvelope word part
      (String.ofList (word.toList ++ ':' :: ('v' :: Nat.toDigits 10 version ++ ':' ::
        (base64url iv.bytes ++ ':' :: (base64url out.2 ++ ':' :: base64url out.1))))) =
      if text = "" then none else some ⟨version, base64url iv.bytes, base64url out.2, base64url out.1⟩ := by
  intro out
  obtain ⟨hct, htag⟩ := gcm.isBytes key iv.bytes aad _ (utf8_lt text.toList)
  have hiv : iv.bytes ≠ [] := fun hnil => absurd (hnil ▸ iv.length_eq) (by decide)
  have hempty : out.1 = [] ↔ text = "" := by
    rw [← length_eq_zero_iff, gcm.length_eq, length_eq_zero_iff]
    refine ⟨fun hnil => String.toList_inj.mp ?_, fun hnil => hnil ▸ rfl⟩
    exact (utf8Decode_utf8 text.toList).symm.trans (congrArg utf8Decode hnil)
  rw [readEnvelope_base64url word hword part hpart version iv.isBytes htag hct ⟨hiv, gcm.tagged key iv.bytes aad _⟩]
  exact if_congr hempty rfl rfl

theorem decipher_encipher : let out := gcm.encipher key iv.bytes aad (utf8 text.toList)
    (gcm.decipher key (base64Bytes (base64url iv.bytes)) aad (base64Bytes (base64url out.2))
      (base64Bytes (base64url out.1))).map (fun bytes => String.ofList (utf8Decode bytes)) = some text := by
  obtain ⟨hct, htag⟩ := gcm.isBytes key iv.bytes aad _ (utf8_lt text.toList)
  simp only [base64Bytes_base64url iv.isBytes, base64Bytes_base64url htag, base64Bytes_base64url hct,
    gcm.opens _ _ _ _ (utf8_lt text.toList), map_some, utf8Decode_utf8, String.ofList_toList]

end

theorem encryptAddress_isSome (c : PaymentAddressCipher) (iv : Nonce) (field : AddressField) (address : String) :
    ∃ e, c.encryptAddress iv field address = some e := by
  obtain ⟨root, hroot⟩ := isSome_iff_exists.mp c.loaded
  exact ⟨_, by unfold encryptAddress PaymentAddressCipher.root; rw [hroot]; rfl⟩

theorem lookupToken_isSome (c : PaymentAddressCipher) (address : String) :
    ∃ token, c.lookupToken address = some token := by
  obtain ⟨root, hroot⟩ := isSome_iff_exists.mp c.loaded
  exact ⟨_, by unfold lookupToken PaymentAddressCipher.root; rw [hroot]; rfl⟩

variable {c : PaymentAddressCipher} {iv : Nonce} {field : AddressField} {address e : String}

section

variable (h : c.encryptAddress iv field address = some e)

include h

theorem decryptAddress_of_encryptAddress :
    decryptAddress c.gcm.toGcm c.ring field e = if address = "" then none else some address := by
  obtain ⟨root, hroot, rfl⟩ := map_eq_some_iff.mp h
  unfold decryptAddress
  rw [readEnvelope_encipher c.gcm _ iv field.aad address "aenc" (by decide) _ (fun _ h => h)]
  by_cases hempty : address = ""
  · rw [if_pos hempty, if_pos hempty]
  · rw [if_neg hempty, if_neg hempty]
    show (match c.root with | none => none | some root => _) = _
    rw [hroot]
    exact decipher_encipher c.gcm _ iv field.aad address

theorem encryptAddress_ne_empty : e ≠ "" := by
  obtain ⟨root, -, rfl⟩ := map_eq_some_iff.mp h
  intro hnil
  have := congrArg String.toList hnil
  simp at this

/-- `reveal` of what `protect` just wrote. -/
theorem reveal_encryptAddress : c.reveal (some e) none field = if address = "" then none else some address := by
  unfold reveal Crypto.reveal
  rw [filter_some, if_pos (decide_eq_true (encryptAddress_ne_empty h))]
  exact decryptAddress_of_encryptAddress h

end

end PaymentAddressCipher

/-- `PaymentEncryptionKeyringService`, less the version it writes with. -/
structure PaymentEncryptionKeyring where
  gcm : SealingGcm
  ring : Keyring

namespace PaymentEncryptionKeyring

section

variable (k : PaymentEncryptionKeyring)

/-- `encryptProtectedAmount`; `none` where it throws. -/
def encryptProtectedAmount (iv : Nonce) (writeVersion : Nat) (amount : String) : Option String :=
  ((k.ring writeVersion).bind decodeKey).map fun key =>
    let out := k.gcm.encipher key iv.bytes [] (utf8 amount.toList)
    String.ofList ("enc".toList ++ ':' :: ('v' :: Nat.toDigits 10 writeVersion ++ ':' ::
      (PaymentAddressCipher.base64url iv.bytes ++ ':' ::
        (PaymentAddressCipher.base64url out.2 ++ ':' :: PaymentAddressCipher.base64url out.1))))

/-- `decrypt`; `none` where it throws. -/
def decrypt (value : String) : Option String :=
  decryptProtectedAmount k.gcm.toGcm k.ring value

/-- `loadedVersions.includes(version)`. -/
def isLoaded (version : Nat) : Bool := (k.ring version).isSome

end

end PaymentEncryptionKeyring

/-- `startsWith: "enc:v<version>:"`. -/
def isUnder (version : Nat) (value : String) : Bool :=
  ("enc".toList ++ ':' :: ('v' :: Nat.toDigits 10 version ++ [':'])).isPrefixOf value.toList

/-! ## Versions -/

/-- The version in an envelope is the one the prefix test finds. -/
theorem isUnder_envelope (version written : Nat) (rest : List Char) :
    isUnder version (String.ofList ("enc".toList ++ ':' :: ('v' :: Nat.toDigits 10 written ++ ':' :: rest))) =
      decide (version = written) := by
  unfold isUnder
  rw [String.toList_ofList, String.toList_ofList, Bool.eq_iff_iff, isPrefixOf_iff_prefix, decide_eq_true_eq,
    prefix_append_right_inj]
  constructor
  · rintro ⟨tail, htail⟩
    rw [cons_append, List.cons.injEq, append_assoc] at htail
    have hparts := JsText.append_cons_inj (colon_not_mem_version version) (colon_not_mem_version written) htail.2
    exact toDigits_inj (cons.inj hparts.1).2
  · rintro rfl
    refine ⟨rest, ?_⟩
    rw [cons_append, append_assoc]
    rfl

namespace PaymentEncryptionKeyring

variable {k : PaymentEncryptionKeyring} {iv : Nonce} {version : Nat} {amount value : String}

theorem isUnder_encryptProtectedAmount (h : k.encryptProtectedAmount iv version amount = some value) (v : Nat) :
    isUnder v value = decide (v = version) := by
  obtain ⟨key, -, rfl⟩ := map_eq_some_iff.mp h
  exact isUnder_envelope v version _

theorem decrypt_encryptProtectedAmount (h : k.encryptProtectedAmount iv version amount = some value) :
    k.decrypt value = if amount = "" then none else some amount := by
  obtain ⟨key, hkey, rfl⟩ := map_eq_some_iff.mp h
  obtain ⟨material, hmaterial, hdecode⟩ := bind_eq_some_iff.mp hkey
  have hlead : ∀ rest, stripLead redacted ("enc".toList ++ ':' :: rest) = none := fun _ => rfl
  unfold decrypt decryptProtectedAmount
  rw [String.toList_ofList, hlead,
    PaymentAddressCipher.readEnvelope_encipher k.gcm key iv [] amount "enc" (by decide) _ fun _ _ => rfl]
  by_cases hempty : amount = ""
  · rw [if_pos hempty, if_pos hempty]
  · rw [if_neg hempty, if_neg hempty]
    simp only [hmaterial, hdecode]
    exact PaymentAddressCipher.decipher_encipher k.gcm key iv [] amount

/-- Whatever versions are loaded beside its own, an amount opens again exactly when it is not empty. -/
theorem amount_opens_iff (k : PaymentEncryptionKeyring) (iv : Nonce) (version : Nat)
    (hloaded : ((k.ring version).bind decodeKey).isSome) (amount : String) :
    (∃ value, k.encryptProtectedAmount iv version amount = some value ∧
      ∀ ring, k.ring.Keeps ring → decryptProtectedAmount k.gcm.toGcm ring value = some amount) ↔ amount ≠ "" := by
  obtain ⟨key, hkey⟩ := isSome_iff_exists.mp hloaded
  obtain ⟨value, hvalue⟩ : ∃ value, k.encryptProtectedAmount iv version amount = some value := by
    unfold encryptProtectedAmount
    rw [hkey]
    exact ⟨_, rfl⟩
  have hopen := decrypt_encryptProtectedAmount hvalue
  constructor
  · rintro ⟨value', hvalue', hall⟩ hempty
    obtain rfl := some.inj (hvalue.symm.trans hvalue')
    rw [if_pos hempty] at hopen
    cases hopen.symm.trans (hall k.ring fun _ _ h => h)
  · intro hne
    rw [if_neg hne] at hopen
    exact ⟨value, hvalue, fun ring hring => decryptProtectedAmount_keeps _ hring hopen⟩

def zeroKeyring : PaymentEncryptionKeyring :=
  ⟨plainGcm, fun v => if v = 0 then some (String.ofList (List.replicate 64 '0')) else none⟩

theorem amount_opens_iff_five : ∃ value, zeroKeyring.encryptProtectedAmount .zero 0 "5" = some value ∧
    ∀ ring, zeroKeyring.ring.Keeps ring → decryptProtectedAmount plainGcm.toGcm ring value = some "5" :=
  (amount_opens_iff zeroKeyring .zero 0 (by decide +kernel) "5").mpr (by decide)

/-- The last part of the envelope is empty, and the pattern asks for a character there. -/
theorem empty_amount_refused : zeroKeyring.encryptProtectedAmount .zero 0 "" = some "enc:v0:AAAAAAAAAAAAAAAA:AA:" ∧
    zeroKeyring.decrypt "enc:v0:AAAAAAAAAAAAAAAA:AA:" = none := by
  decide +kernel

end PaymentEncryptionKeyring

end EarnProof.Common.Crypto
