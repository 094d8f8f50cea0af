/-
  EarnProof.Lib.JsText — the JavaScript string operations in use that Lean has
  no equal of: white space and `trim`, `/\s+/g`, `padEnd`, `split`, `BigInt(text)`
  and the order of strings.
-/
import EarnProof.Lib.Json
import Mathlib.Data.List.Lex

namespace EarnProof.Lib.JsText

/-- White space and line terminators. -/
def isSpace (c : Char) : Bool :=
  let n := c.toNat
  (9 ≤ n && n ≤ 13) || n == 0x20 || n == 0xA0 || n == 0x1680 || (0x2000 ≤ n && n ≤ 0x200A) ||
    n == 0x2028 || n == 0x2029 || n == 0x202F || n == 0x205F || n == 0x3000 || n == 0xFEFF

def trim (cs : List Char) : List Char := ((cs.dropWhile isSpace).reverse.dropWhile isSpace).reverse

/-- `replace(/\s+/g, " ")`; the flag says whether the last character read was space. -/
def collapseFrom : Bool → List Char → List Char
  | _, [] => []
  | inSpace, c :: cs =>
    if isSpace c then (if inSpace then collapseFrom true cs else ' ' :: collapseFrom true cs)
    else c :: collapseFrom false cs

def collapse (cs : List Char) : List Char := collapseFrom false cs

/-- `padEnd(n, fill)`. -/
def padEnd (n : Nat) (fill : Char) (cs : List Char) : List Char := cs ++ List.replicate (n - cs.length) fill

def padStart (n : Nat) (fill : Char) (cs : List Char) : List Char := List.replicate (n - cs.length) fill ++ cs

/-- `split(sep)` for a one-character separator. -/
def splitOn (sep : Char) : List Char → List (List Char)
  | [] => [[]]
  | c :: cs =>
    if c = sep then [] :: splitOn sep cs
    else match splitOn sep cs with
      | p :: ps => (c :: p) :: ps
      | [] => [[c]]

variable {sep : Char} {a : List Char}

theorem splitOn_append_cons (h : sep ∉ a) (b : List Char) : splitOn sep (a ++ sep :: b) = a :: splitOn sep b := by
  induction a with
  | nil => simp [splitOn]
  | cons c a ih =>
    have hc : c ≠ sep := fun e => h (e ▸ List.mem_cons_self)
    simp [splitOn, hc, ih fun ha => h (List.mem_cons_of_mem c ha)]

/-- A text with one separator comes apart at it, whatever follows. -/
theorem append_cons_inj {a a' b b' : List Char} (h : sep ∉ a) (h' : sep ∉ a')
    (heq : a ++ sep :: b = a' ++ sep :: b') : a = a' ∧ b = b' := by
  rcases List.append_eq_append_iff.mp heq with ⟨d, rfl, hd⟩ | ⟨d, rfl, hd⟩
  · cases d with
    | nil => exact ⟨(List.append_nil a).symm, (List.cons.inj hd).2⟩
    | cons => exact absurd (by simp [(List.cons.inj hd).1]) h'
  · cases d with
    | nil => exact ⟨List.append_nil a', (List.cons.inj hd).2.symm⟩
    | cons => exact absurd (by simp [(List.cons.inj hd).1]) h

/-- The same from the other end: at the last separator. -/
theorem append_cons_inj_last {a a' b b' : List Char} (h : sep ∉ b) (h' : sep ∉ b')
    (heq : a ++ sep :: b = a' ++ sep :: b') : a = a' ∧ b = b' := by
  have hrev : b.reverse ++ sep :: a.reverse = b'.reverse ++ sep :: a'.reverse := by
    simpa using congrArg List.reverse heq
  obtain ⟨hb, ha⟩ := append_cons_inj (by simpa using h) (by simpa using h') hrev
  exact ⟨List.reverse_inj.mp ha, List.reverse_inj.mp hb⟩

theorem splitOn_eq_singleton (h : sep ∉ a) : splitOn sep a = [a] := by
  induction a with
  | nil => rfl
  | cons c a ih =>
    have hc : c ≠ sep := fun e => h (e ▸ List.mem_cons_self)
    simp [splitOn, hc, ih fun ha => h (List.mem_cons_of_mem c ha)]

def digitIn (radix : Nat) (c : Char) : Option Nat :=
  let d :=
    if c.isDigit then c.toNat - 48
    else if 'a' ≤ c ∧ c ≤ 'z' then c.toNat - 87
    else if 'A' ≤ c ∧ c ≤ 'Z' then c.toNat - 55
    else radix
  if d < radix then some d else none

def readRadix (radix : Nat) : Nat → List Char → Option Nat
  | acc, [] => some acc
  | acc, c :: cs => (digitIn radix c).bind fun d => readRadix radix (radix * acc + d) cs

def readNonempty (radix : Nat) : List Char → Option Nat
  | [] => none
  | cs => readRadix radix 0 cs

/-- `BigInt(text)`; `none` is its `SyntaxError`. The empty text is zero. -/
def bigInt (cs : List Char) : Option Int :=
  match trim cs with
  | [] => some 0
  | '0' :: 'x' :: ds => (readNonempty 16 ds).map Int.ofNat
  | '0' :: 'X' :: ds => (readNonempty 16 ds).map Int.ofNat
  | '0' :: 'o' :: ds => (readNonempty 8 ds).map Int.ofNat
  | '0' :: 'O' :: ds => (readNonempty 8 ds).map Int.ofNat
  | '0' :: 'b' :: ds => (readNonempty 2 ds).map Int.ofNat
  | '0' :: 'B' :: ds => (readNonempty 2 ds).map Int.ofNat
  | '+' :: ds => (readNonempty 10 ds).map Int.ofNat
  | '-' :: ds => (readNonempty 10 ds).map fun n => -Int.ofNat n
  | ds => (readNonempty 10 ds).map Int.ofNat

/-- `a < b` on strings: by UTF-16 code units. -/
def textLt (a b : String) : Bool := !Json.lexLe (Json.codeUnits b) (Json.codeUnits a)

theorem lexLe_iff {a b : List Nat} : Json.lexLe a b ↔ a ≤ b := by
  induction a generalizing b with
  | nil => simp [Json.lexLe, ← not_lt]
  | cons x a ih =>
    cases b with
    | nil => simp [Json.lexLe, ← not_lt]
    | cons => simp [Json.lexLe, ih, le_iff_lt_or_eq, List.cons_lt_cons_iff, and_or_left, or_assoc]

theorem not_textLt {a b : String} : ¬ textLt b a ↔ Json.codeUnits a ≤ Json.codeUnits b := by
  simp [textLt, lexLe_iff]

end EarnProof.Lib.JsText
