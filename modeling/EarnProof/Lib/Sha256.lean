/-
  EarnProof.Lib.Sha256 — SHA-256 and HMAC-SHA256 over lists of bytes, with the
  two printed forms of a digest in use: hexadecimal and base64url.

  Words are `Nat`s below `2^32` and every loop is a structural recursion, so the
  kernel evaluates a digest of a given text. Nothing is proved about the function
  itself: results that need it to be free of collisions say so, for the texts
  they hash.
-/
import EarnProof.Lib.Encoding

namespace EarnProof.Lib.Sha256

open Lib.Encoding List

def w32 (n : Nat) : Nat := n % 4294967296

def rotr (x n : Nat) : Nat := Nat.lor (x >>> n) (w32 (x <<< (32 - n)))

def K : List Nat :=
  [0x428a2f98, 0x71374491, 0xb5c0fbcf, 0xe9b5dba5, 0x3956c25b, 0x59f111f1, 0x923f82a4, 0xab1c5ed5,
   0xd807aa98, 0x12835b01, 0x243185be, 0x550c7dc3, 0x72be5d74, 0x80deb1fe, 0x9bdc06a7, 0xc19bf174,
   0xe49b69c1, 0xefbe4786, 0x0fc19dc6, 0x240ca1cc, 0x2de92c6f, 0x4a7484aa, 0x5cb0a9dc, 0x76f988da,
   0x983e5152, 0xa831c66d, 0xb00327c8, 0xbf597fc7, 0xc6e00bf3, 0xd5a79147, 0x06ca6351, 0x14292967,
   0x27b70a85, 0x2e1b2138, 0x4d2c6dfc, 0x53380d13, 0x650a7354, 0x766a0abb, 0x81c2c92e, 0x92722c85,
   0xa2bfe8a1, 0xa81a664b, 0xc24b8b70, 0xc76c51a3, 0xd192e819, 0xd6990624, 0xf40e3585, 0x106aa070,
   0x19a4c116, 0x1e376c08, 0x2748774c, 0x34b0bcb5, 0x391c0cb3, 0x4ed8aa4a, 0x5b9cca4f, 0x682e6ff3,
   0x748f82ee, 0x78a5636f, 0x84c87814, 0x8cc70208, 0x90befffa, 0xa4506ceb, 0xbef9a3f7, 0xc67178f2]

structure Regs where
  a : Nat
  b : Nat
  c : Nat
  d : Nat
  e : Nat
  f : Nat
  g : Nat
  h : Nat
  deriving DecidableEq

def initial : Regs :=
  ⟨0x6a09e667, 0xbb67ae85, 0x3c6ef372, 0xa54ff53a, 0x510e527f, 0x9b05688c, 0x1f83d9ab, 0x5be0cd19⟩

def round (s : Regs) (k w : Nat) : Regs :=
  let s1 := Nat.xor (Nat.xor (rotr s.e 6) (rotr s.e 11)) (rotr s.e 25)
  let ch := Nat.xor (Nat.land s.e s.f) (Nat.land (4294967295 - s.e) s.g)
  let t1 := w32 (s.h + s1 + ch + k + w)
  let s0 := Nat.xor (Nat.xor (rotr s.a 2) (rotr s.a 13)) (rotr s.a 22)
  let maj := Nat.xor (Nat.xor (Nat.land s.a s.b) (Nat.land s.a s.c)) (Nat.land s.b s.c)
  let t2 := w32 (s0 + maj)
  ⟨w32 (t1 + t2), s.a, s.b, s.c, w32 (s.d + t1), s.e, s.f, s.g⟩

/-- The word that follows a window of sixteen, oldest first. -/
def nextWord : List Nat → Nat
  | [w0, w1, _, _, _, _, _, _, _, w9, _, _, _, _, w14, _] =>
    let s0 := Nat.xor (Nat.xor (rotr w1 7) (rotr w1 18)) (w1 >>> 3)
    let s1 := Nat.xor (Nat.xor (rotr w14 17) (rotr w14 19)) (w14 >>> 10)
    w32 (w0 + s0 + w9 + s1)
  | _ => 0

def rounds : List Nat → List Nat → Regs → Regs
  | k :: ks, w :: ws, s => rounds ks (ws ++ [nextWord (w :: ws)]) (round s k w)
  | _, _, s => s

def compress (s : Regs) (block : List Nat) : Regs :=
  let r := rounds K block s
  ⟨w32 (s.a + r.a), w32 (s.b + r.b), w32 (s.c + r.c), w32 (s.d + r.d),
   w32 (s.e + r.e), w32 (s.f + r.f), w32 (s.g + r.g), w32 (s.h + r.h)⟩

def words : List Nat → List Nat
  | a :: b :: c :: d :: r => (a * 16777216 + b * 65536 + c * 256 + d) :: words r
  | _ => []

def compressAll : Nat → List Nat → Regs → Regs
  | 0, _, s => s
  | n + 1, ws, s => compressAll n (ws.drop 16) (compress s (ws.take 16))

def bigEndian : Nat → Nat → List Nat
  | 0, _ => []
  | k + 1, n => bigEndian k (n / 256) ++ [n % 256]

section

variable (bs : List Nat)

def pad : List Nat :=
  bs ++ [128] ++ List.replicate ((119 - bs.length % 64) % 64) 0 ++ bigEndian 8 (8 * bs.length)

def digest : List Nat :=
  let p := pad bs
  let r := compressAll (p.length / 64) (words p) initial
  [r.a, r.b, r.c, r.d, r.e, r.f, r.g, r.h].flatMap (bigEndian 4)

def hexDigit (n : Nat) : Char := if n < 10 then Char.ofNat (48 + n) else Char.ofNat (87 + n)

def hexDigits : List Char := bs.flatMap fun b => [hexDigit (b / 16), hexDigit (b % 16)]

def toHex : String := String.ofList (hexDigits bs)

/-- `createHash("sha256").update(text).digest("hex")`. -/
def hex (s : String) : String := toHex (digest (utf8 s.toList))

/-- The digest of a text given by its characters. -/
theorem hex_ofList (cs : List Char) : hex (String.ofList cs) = toHex (digest (utf8 cs)) := by
  rw [hex, String.toList_ofList]

theorem length_bigEndian (k n : Nat) : (bigEndian k n).length = k := by
  induction k generalizing n with
  | zero => rfl
  | succ k ih => rw [bigEndian, length_append, ih, length_singleton]

theorem length_digest : (digest bs).length = 32 := by
  simp [digest, length_bigEndian]

theorem lt_of_mem_bigEndian {k n b : Nat} (h : b ∈ bigEndian k n) : b < 256 := by
  induction k generalizing n with
  | zero => cases h
  | succ k ih =>
    rcases mem_append.mp h with h | h
    · exact ih h
    · rw [mem_singleton.mp h]
      exact Nat.mod_lt _ (by decide)

theorem lt_of_mem_digest {bs : List Nat} {b : Nat} (h : b ∈ digest bs) : b < 256 := by
  obtain ⟨_, _, h⟩ := mem_flatMap.mp h
  exact lt_of_mem_bigEndian h

/-- What holds of every hexadecimal digit holds of every character of a printed digest. -/
theorem of_mem_hexDigits {p : Char → Prop} (hp : ∀ n < 16, p (hexDigit n)) {bs : List Nat} {c : Char}
    (h : c ∈ hexDigits (digest bs)) : p c := by
  obtain ⟨b, hb, hc⟩ := mem_flatMap.mp h
  have hb := lt_of_mem_digest hb
  rcases mem_cons.mp hc with rfl | hc
  · exact hp (b / 16) (by omega)
  · rw [mem_singleton.mp hc]
    exact hp (b % 16) (by omega)

theorem length_hexDigits : (hexDigits bs).length = 2 * bs.length := by
  induction bs with
  | nil => rfl
  | cons b bs ih =>
    rw [hexDigits, flatMap_cons, length_append, ← hexDigits, ih]
    simp only [length_cons, length_nil]
    omega

end

theorem toList_hex (s : String) : (hex s).toList = hexDigits (digest (utf8 s.toList)) := by
  rw [hex, toHex, String.toList_ofList]

theorem length_hex (s : String) : (hex s).toList.length = 64 := by
  rw [toList_hex, length_hexDigits, length_digest]

example : hex "abc" = "ba7816bf8f01cfea414140de5dae2223b00361a396177a9cb410ff61f20015ad" := by
  decide +kernel

def hmacBlock (key : List Nat) : List Nat :=
  let k := if 64 < key.length then digest key else key
  k ++ List.replicate (64 - k.length) 0

def hmac (key msg : List Nat) : List Nat :=
  let k := hmacBlock key
  digest (k.map (Nat.xor 0x5c) ++ digest (k.map (Nat.xor 0x36) ++ msg))

/-- `createHmac("sha256", key).update(text).digest("base64url")`. -/
def hmacBase64url (key msg : String) : String :=
  String.ofList ((pack (hmac (utf8 key.toList) (utf8 msg.toList))).map digitChar)

end EarnProof.Lib.Sha256
