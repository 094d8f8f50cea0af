/-
  EarnProof.Lib.Encoding — text to bytes and back: UTF-8 as `Buffer` writes and
  reads it, and base64url. A byte is a `Nat` below 256.

  The UTF-8 reader is the WHATWG decoder that `toString("utf8")` follows: a
  malformed sequence yields U+FFFD and the byte that broke it is read again.
  `Buffer.from(text, "base64url")` skips what is outside the alphabet and accepts
  both spellings of the last two digits.

  Proved: reading what was written returns the text, for UTF-8
  (`utf8Decode_utf8`), for base64url digits (`unpack_pack`) and for both on top of
  each other (`fromBase64url_toBase64url`).
-/

namespace EarnProof.Lib.Encoding

open List

/-! ## UTF-8 -/

variable (c : Char)

def utf8Char : List Nat :=
  let n := c.toNat
  if n < 0x80 then [n]
  else if n < 0x800 then [0xC0 + n / 64, 0x80 + n % 64]
  else if n < 0x10000 then [0xE0 + n / 4096, 0x80 + n / 64 % 64, 0x80 + n % 64]
  else [0xF0 + n / 262144, 0x80 + n / 4096 % 64, 0x80 + n / 64 % 64, 0x80 + n % 64]

def utf8 (s : List Char) : List Nat := s.flatMap utf8Char

/-- A sequence under way: how many bytes are missing, the bits so far, and the
    range the next byte must lie in. -/
structure Pending where
  needed : Nat
  bits : Nat
  lower : Nat
  upper : Nat
  deriving DecidableEq

def idle : Pending := ⟨0, 0, 0x80, 0xBF⟩

def replacement : Char := Char.ofNat 0xFFFD

/-- A byte read with no sequence under way. -/
def lead (b : Nat) : Pending × List Char :=
  if b < 0x80 then (idle, [Char.ofNat b])
  else if 0xC2 ≤ b ∧ b ≤ 0xDF then (⟨1, b - 0xC0, 0x80, 0xBF⟩, [])
  else if 0xE0 ≤ b ∧ b ≤ 0xEF then
    (⟨2, b - 0xE0, if b = 0xE0 then 0xA0 else 0x80, if b = 0xED then 0x9F else 0xBF⟩, [])
  else if 0xF0 ≤ b ∧ b ≤ 0xF4 then
    (⟨3, b - 0xF0, if b = 0xF0 then 0x90 else 0x80, if b = 0xF4 then 0x8F else 0xBF⟩, [])
  else (idle, [replacement])

def utf8Step (p : Pending) (b : Nat) : Pending × List Char :=
  if p.needed = 0 then lead b
  else if b < p.lower ∨ p.upper < b then ((lead b).1, replacement :: (lead b).2)
  else
    let bits := p.bits * 64 + (b - 0x80)
    if p.needed = 1 then (idle, [Char.ofNat bits]) else (⟨p.needed - 1, bits, 0x80, 0xBF⟩, [])

def utf8DecodeFrom : Pending → List Nat → List Char
  | p, [] => if p.needed = 0 then [] else [replacement]
  | p, b :: bs => (utf8Step p b).2 ++ utf8DecodeFrom (utf8Step p b).1 bs

def utf8Decode (bs : List Nat) : List Char := utf8DecodeFrom idle bs

theorem char_range : c.toNat < 0xD800 ∨ 0xDFFF < c.toNat ∧ c.toNat < 0x110000 := c.valid

theorem utf8Step_last (bits lower upper m : Nat) (h1 : lower ≤ 0x80 + m) (h2 : 0x80 + m ≤ upper) :
    utf8Step ⟨1, bits, lower, upper⟩ (0x80 + m) = (idle, [Char.ofNat (bits * 64 + m)]) := by
  simp only [utf8Step]
  rw [if_neg (by decide), if_neg (by omega), if_pos trivial, Nat.add_sub_cancel_left]

theorem utf8Step_more (k bits lower upper m : Nat) (h1 : lower ≤ 0x80 + m) (h2 : 0x80 + m ≤ upper) :
    utf8Step ⟨k + 2, bits, lower, upper⟩ (0x80 + m) = (⟨k + 1, bits * 64 + m, 0x80, 0xBF⟩, []) := by
  simp only [utf8Step]
  rw [if_neg (by omega), if_neg (by omega), if_neg (by omega), Nat.add_sub_cancel_left]
  rfl

theorem lead_one (n : Nat) (h : n < 0x80) : lead n = (idle, [Char.ofNat n]) := by
  rw [lead, if_pos h]

theorem lead_two (m : Nat) (h1 : 2 ≤ m) (h2 : m < 32) : lead (0xC0 + m) = (⟨1, m, 0x80, 0xBF⟩, []) := by
  rw [lead, if_neg (by omega), if_pos (by omega), Nat.add_sub_cancel_left]

theorem lead_three (m : Nat) (h : m < 16) :
    lead (0xE0 + m) = (⟨2, m, if m = 0 then 0xA0 else 0x80, if m = 13 then 0x9F else 0xBF⟩, []) := by
  rw [lead, if_neg (by omega), if_neg (by omega), if_pos (by omega), Nat.add_sub_cancel_left]
  have e : 0xE0 + m = 0xED ↔ m = 13 := by omega
  simp [e]

theorem lead_four (m : Nat) (h : m < 5) :
    lead (0xF0 + m) = (⟨3, m, if m = 0 then 0x90 else 0x80, if m = 4 then 0x8F else 0xBF⟩, []) := by
  rw [lead, if_neg (by omega), if_neg (by omega), if_neg (by omega), if_pos (by omega),
    Nat.add_sub_cancel_left]
  have e : 0xF0 + m = 0xF4 ↔ m = 4 := by omega
  simp [e]

theorem utf8DecodeFrom_cons (p : Pending) (b : Nat) (bs : List Nat) :
    utf8DecodeFrom p (b :: bs) = (utf8Step p b).2 ++ utf8DecodeFrom (utf8Step p b).1 bs := rfl

theorem utf8Step_idle (b : Nat) : utf8Step idle b = lead b := rfl

theorem utf8DecodeFrom_utf8Char (r : List Nat) :
    utf8DecodeFrom idle (utf8Char c ++ r) = c :: utf8DecodeFrom idle r := by
  have hr := char_range c
  have hc : Char.ofNat c.toNat = c := Char.ofNat_toNat c
  generalize hn : c.toNat = n at hr hc
  simp only [utf8Char, hn]
  -- one case per sequence length; the range checks are where the surrogate gap and the
  -- overlong bounds are used
  split
  · rename_i h
    simp [utf8DecodeFrom_cons, utf8Step_idle, lead_one n h, hc]
  split
  · have e : n / 64 * 64 + n % 64 = n := by omega
    simp only [cons_append, nil_append, utf8DecodeFrom_cons, utf8Step_idle]
    rw [lead_two (n / 64) (by omega) (by omega)]
    rw [utf8Step_last _ _ _ _ (by omega) (by omega), e, hc]
    rfl
  split
  · have e : (n / 4096 * 64 + n / 64 % 64) * 64 + n % 64 = n := by omega
    simp only [cons_append, nil_append, utf8DecodeFrom_cons, utf8Step_idle]
    rw [lead_three (n / 4096) (by omega)]
    rw [utf8Step_more 0 _ _ _ _ (by split <;> omega) (by split <;> omega)]
    rw [utf8Step_last _ _ _ _ (by omega) (by omega), e, hc]
    rfl
  · have e : ((n / 262144 * 64 + n / 4096 % 64) * 64 + n / 64 % 64) * 64 + n % 64 = n := by omega
    simp only [cons_append, nil_append, utf8DecodeFrom_cons, utf8Step_idle]
    rw [lead_four (n / 262144) (by omega)]
    rw [utf8Step_more 1 _ _ _ _ (by split <;> omega) (by split <;> omega)]
    rw [utf8Step_more 0 _ _ _ _ (by omega) (by omega)]
    rw [utf8Step_last _ _ _ _ (by omega) (by omega), e, hc]
    rfl

theorem utf8Decode_utf8 (s : List Char) : utf8Decode (utf8 s) = s := by
  induction s with
  | nil => rfl
  | cons c cs ih =>
    rw [utf8Decode, utf8, flatMap_cons, utf8DecodeFrom_utf8Char]
    exact congrArg (c :: ·) ih

theorem utf8Char_lt : ∀ b ∈ utf8Char c, b < 256 := by
  have hr := char_range c
  simp only [utf8Char]
  intro b hb
  split at hb
  · simp at hb; omega
  split at hb
  · simp at hb; omega
  split at hb <;> (simp at hb; omega)

theorem utf8_lt (s : List Char) : ∀ b ∈ utf8 s, b < 256 := by
  intro b hb
  obtain ⟨c, _, h⟩ := mem_flatMap.mp hb
  exact utf8Char_lt c b h

/-! ## base64url -/

/-- Bytes as six-bit digits, three to four, without padding. -/
def pack : List Nat → List Nat
  | a :: b :: c :: r => a / 4 :: (a % 4 * 16 + b / 16) :: (b % 16 * 4 + c / 64) :: c % 64 :: pack r
  | [a, b] => [a / 4, a % 4 * 16 + b / 16, b % 16 * 4]
  | [a] => [a / 4, a % 4 * 16]
  | [] => []

def unpack : List Nat → List Nat
  | a :: b :: c :: d :: r => (a * 4 + b / 16) :: (b % 16 * 16 + c / 4) :: (c % 4 * 64 + d) :: unpack r
  | [a, b, c] => [a * 4 + b / 16, b % 16 * 16 + c / 4]
  | [a, b] => [a * 4 + b / 16]
  | [_] => []
  | [] => []

theorem unpack_pack (bs : List Nat) (h : ∀ b ∈ bs, b < 256) : unpack (pack bs) = bs := by
  induction bs using pack.induct with
  | case1 a b c r ih =>
    have hb := h b (by simp)
    have hc := h c (by simp)
    rw [pack, unpack, ih (fun x hx => h x (by simp [hx]))]
    simp only [List.cons.injEq, and_true]
    omega
  | case2 a b =>
    have hb := h b (by simp)
    simp only [pack, unpack, List.cons.injEq, and_true]
    omega
  | case3 a =>
    simp only [pack, unpack, List.cons.injEq, and_true]
    omega
  | case4 => rfl

theorem pack_lt (bs : List Nat) (h : ∀ b ∈ bs, b < 256) : ∀ d ∈ pack bs, d < 64 := by
  induction bs using pack.induct with
  | case1 a b c r ih =>
    have ha := h a (by simp)
    have hb := h b (by simp)
    have hc := h c (by simp)
    have hr := ih (fun x hx => h x (by simp [hx]))
    intro d hd
    simp only [pack, mem_cons] at hd
    rcases hd with rfl | rfl | rfl | rfl | hd
    · omega
    · omega
    · omega
    · omega
    · exact hr d hd
  | case2 a b =>
    have ha := h a (by simp)
    have hb := h b (by simp)
    intro d hd
    simp [pack] at hd
    omega
  | case3 a =>
    have ha := h a (by simp)
    intro d hd
    simp [pack] at hd
    omega
  | case4 => intro d hd; simp [pack] at hd

def digitChar (d : Nat) : Char :=
  if d < 26 then Char.ofNat (65 + d)
  else if d < 52 then Char.ofNat (71 + d)
  else if d < 62 then Char.ofNat (d - 4)
  else if d = 62 then '-' else '_'

/-- The digit a character stands for, in either of the two alphabets. -/
def charDigit? : Option Nat :=
  if 'A' ≤ c ∧ c ≤ 'Z' then some (c.toNat - 65)
  else if 'a' ≤ c ∧ c ≤ 'z' then some (c.toNat - 71)
  else if '0' ≤ c ∧ c ≤ '9' then some (c.toNat + 4)
  else if c = '-' ∨ c = '+' then some 62
  else if c = '_' ∨ c = '/' then some 63
  else none

theorem charDigit?_digitChar : ∀ d < 64, charDigit? (digitChar d) = some d := by decide

/-- `Buffer.from(text).toString("base64url")`. -/
def toBase64url (s : String) : String := String.ofList ((pack (utf8 s.toList)).map digitChar)

/-- `Buffer.from(text, "base64url").toString("utf8")`. -/
def fromBase64url (s : String) : String :=
  String.ofList (utf8Decode (unpack (s.toList.filterMap charDigit?)))

theorem filterMap_digitChar (ds : List Nat) (h : ∀ d ∈ ds, d < 64) :
    (ds.map digitChar).filterMap charDigit? = ds := by
  induction ds with
  | nil => rfl
  | cons d ds ih =>
    rw [map_cons, filterMap_cons_some (charDigit?_digitChar d (h d (by simp))),
      ih (fun x hx => h x (by simp [hx]))]

theorem fromBase64url_toBase64url (s : String) : fromBase64url (toBase64url s) = s := by
  have hb := utf8_lt s.toList
  rw [fromBase64url, toBase64url, String.toList_ofList, filterMap_digitChar _ (pack_lt _ hb),
    unpack_pack _ hb, utf8Decode_utf8, String.ofList_toList]

end EarnProof.Lib.Encoding
