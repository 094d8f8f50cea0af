/-
  EarnProof.Lib.Json — JSON values, their text as `JSON.stringify` prints it,
  and the key-sorted form that is hashed.

  A number is kept as the text `Number.prototype.toString` prints for it (so `-0`
  and `0` are one value, as they are for `JSON.stringify`). An object is its list
  of own members in enumeration order; a JavaScript object lists its array-index
  keys first, in numeric order, and the others in insertion order, and an
  assignment to `__proto__` on a plain object creates no member.

  Proved: the text of a value determines the value (`stringify_inj`), also when
  it is followed by more text (`render_inj`), and sorting the keys of an object
  keeps every member (`get?_sortKeys`).

  A vertical bar stands in the text of a value only inside a string literal, and a
  closing quote is followed only by punctuation. So a bar never has the text of an
  object with a named member behind it (`bar_object_not_inside`), and a text that was
  made of any lead, a bar and such an object is taken apart in one way (`bar_object_inj`).
-/
import Mathlib.Data.List.Sort
import Mathlib.Tactic.IntervalCases

namespace EarnProof.Lib

open List

variable (c : Char)

/-- The characters of a printed number. -/
def isNumChar : Bool :=
  c.isDigit || c == '-' || c == '+' || c == '.' || c == 'e'

/-- A finite number, as its printed text. -/
structure Num where
  text : List Char
  nonempty : text ≠ []
  numeric : text.all isNumChar
  deriving DecidableEq

theorem all_isNumChar_toDigits (n : Nat) : (Nat.toDigits 10 n).all isNumChar := by
  rw [all_eq_true]
  intro c hc
  have hd := Nat.isDigit_of_mem_toDigits (by decide) (by decide) hc
  simp [isNumChar, hd]

def Num.ofNat (n : Nat) : Num := ⟨Nat.toDigits 10 n, Nat.toDigits_ne_nil, all_isNumChar_toDigits n⟩

def Num.ofInt : Int → Num
  | .ofNat n => .ofNat n
  | .negSucc n =>
    ⟨'-' :: Nat.toDigits 10 (n + 1), List.cons_ne_nil _ _, by
      rw [List.all_cons, all_isNumChar_toDigits]; rfl⟩

theorem toDigits_inj {m n : Nat} (h : Nat.toDigits 10 m = Nat.toDigits 10 n) : m = n := by
  have hm := Nat.ofDigitChars_toDigits (n := m) (show 1 < 10 by decide) (by decide)
  rw [h, Nat.ofDigitChars_toDigits (by decide) (by decide)] at hm
  exact hm.symm

theorem toDigits_ne_minus (n : Nat) (cs : List Char) : Nat.toDigits 10 n ≠ '-' :: cs := by
  intro h
  have hd := Nat.isDigit_of_mem_toDigits (show 0 < 10 by decide) (by decide) (h.symm ▸ mem_cons_self)
  exact absurd hd (by decide)

/-- The text of a whole number determines it. -/
theorem Num.ofInt_text_inj {a b : Int} (h : (Num.ofInt a).text = (Num.ofInt b).text) : a = b := by
  cases a with
  | ofNat m =>
    cases b with
    | ofNat => rw [toDigits_inj h]
    | negSucc => exact absurd h (toDigits_ne_minus m _)
  | negSucc m =>
    cases b with
    | ofNat n => exact absurd h.symm (toDigits_ne_minus n _)
    | negSucc n =>
      have := toDigits_inj (cons.inj h).2
      rw [show m = n by omega]

inductive Json where
  | null
  | bool (b : Bool)
  | num (n : Num)
  | str (s : String)
  | arr (xs : List Json)
  | obj (ms : List (String × Json))

namespace Json

instance : Inhabited Json := ⟨.null⟩

/-- `value[key]` on a parsed value; `none` is `undefined`. -/
def get? : Json → String → Option Json
  | .obj ms, k => ms.lookup k
  | _, _ => none

/-! ## Printing -/

def hexDigit (n : Nat) : Char := if n < 10 then Char.ofNat (48 + n) else Char.ofNat (87 + n)

/-- One character of a string literal: the two-character escapes, `\u00xx` for the
    other control characters, everything else as it is. -/
def escapeChar : List Char :=
  if c = '"' then ['\\', '"']
  else if c = '\\' then ['\\', '\\']
  else if c.toNat < 32 then
    if c.toNat = 8 then ['\\', 'b']
    else if c.toNat = 9 then ['\\', 't']
    else if c.toNat = 10 then ['\\', 'n']
    else if c.toNat = 12 then ['\\', 'f']
    else if c.toNat = 13 then ['\\', 'r']
    else ['\\', 'u', '0', '0', hexDigit (c.toNat / 16), hexDigit (c.toNat % 16)]
  else [c]

/-- The characters of a literal after its opening quote. -/
def quoteBody : List Char → List Char
  | [] => ['"']
  | c :: cs => escapeChar c ++ quoteBody cs

def quote (s : String) : List Char := '"' :: quoteBody s.toList

mutual

/-- `JSON.stringify(value)` as characters. -/
def render : Json → List Char
  | .null => ['n', 'u', 'l', 'l']
  | .bool true => ['t', 'r', 'u', 'e']
  | .bool false => ['f', 'a', 'l', 's', 'e']
  | .num n => n.text
  | .str s => quote s
  | .arr [] => ['[', ']']
  | .arr (x :: xs) => '[' :: (render x ++ renderElems xs)
  | .obj [] => ['\x7b', '\x7d']
  | .obj ((k, v) :: ms) => '\x7b' :: (quote k ++ ':' :: (render v ++ renderMembers ms))

/-- The elements after the first, with the closing bracket. -/
def renderElems : List Json → List Char
  | [] => [']']
  | x :: xs => ',' :: (render x ++ renderElems xs)

/-- The members after the first, with the closing brace. -/
def renderMembers : List (String × Json) → List Char
  | [] => ['\x7d']
  | (k, v) :: ms => ',' :: (quote k ++ ':' :: (render v ++ renderMembers ms))

end

def stringify (v : Json) : String := String.ofList (render v)

/-! ## Key order -/

def utf16 : List Nat :=
  if c.toNat < 0x10000 then [c.toNat]
  else [0xD800 + (c.toNat - 0x10000) / 0x400, 0xDC00 + (c.toNat - 0x10000) % 0x400]

def codeUnits (s : String) : List Nat := s.toList.flatMap utf16

def lexLe : List Nat → List Nat → Bool
  | [], _ => true
  | _ :: _, [] => false
  | a :: as, b :: bs => a < b || (a == b && lexLe as bs)

/-- The default order of `Array.prototype.sort` on strings. -/
def keyLe (a b : String) : Prop := lexLe (codeUnits a) (codeUnits b)

instance : DecidableRel keyLe := fun a b => inferInstanceAs (Decidable (lexLe (codeUnits a) (codeUnits b) = true))

/-- The number an array-index key stands for: canonical decimal, below `2^32 - 1`. -/
def indexOf? (k : String) : Option Nat :=
  let cs := k.toList
  if cs ≠ [] ∧ cs.all Char.isDigit ∧ (cs = ['0'] ∨ cs.head? ≠ some '0') then
    let n := Nat.ofDigitChars 10 cs 0
    if n < 4294967295 then some n else none
  else none

def indexLe (a b : String × Json) : Prop := (indexOf? a.1).getD 0 ≤ (indexOf? b.1).getD 0
  deriving Decidable

/-- What an object holds after the members were assigned one by one to `{}`. -/
def assignAll (ms : List (String × Json)) : List (String × Json) :=
  let own := ms.filter (fun m => m.1 ≠ "__proto__")
  (own.filter (fun m => (indexOf? m.1).isSome)).insertionSort indexLe ++
    own.filter (fun m => (indexOf? m.1).isNone)

/-- `Object.keys(value).sort().reduce((sorted, key) => …, {})`. -/
def sortMembers (ms : List (String × Json)) : List (String × Json) :=
  assignAll (ms.insertionSort (fun a b => keyLe a.1 b.1))

mutual

/-- Keys sorted at every level. -/
def sortKeys : Json → Json
  | .arr xs => .arr (sortElems xs)
  | .obj ms => .obj (sortMembers (sortValues ms))
  | v => v

def sortElems : List Json → List Json
  | [] => []
  | x :: xs => sortKeys x :: sortElems xs

def sortValues : List (String × Json) → List (String × Json)
  | [] => []
  | (k, v) :: ms => (k, sortKeys v) :: sortValues ms

end

/-! ## Reading a literal back -/

def hexVal : Nat := if c.toNat < 58 then c.toNat - 48 else c.toNat - 87

/-- The first character of a literal's body and the rest; `none` at the closing quote. -/
def readChar : List Char → Option (Char × List Char)
  | '\\' :: 'u' :: _ :: _ :: a :: b :: r => some (Char.ofNat (16 * hexVal a + hexVal b), r)
  | '\\' :: 'b' :: r => some (Char.ofNat 8, r)
  | '\\' :: 't' :: r => some (Char.ofNat 9, r)
  | '\\' :: 'n' :: r => some (Char.ofNat 10, r)
  | '\\' :: 'f' :: r => some (Char.ofNat 12, r)
  | '\\' :: 'r' :: r => some (Char.ofNat 13, r)
  | '\\' :: c :: r => some (c, r)
  | '"' :: _ => none
  | c :: r => some (c, r)
  | [] => none

@[simp] theorem readChar_quote (r : List Char) : readChar ('"' :: r) = none := rfl

/-- A character is one that is escaped in a way of its own, or stands for itself. -/
theorem escapeChar_rec {P : Char → Prop} (quote : P '"') (slash : P '\\') (control : ∀ n < 32, P (Char.ofNat n))
    (plain : ∀ c, c ≠ '"' → c ≠ '\\' → escapeChar c = [c] → P c) (c : Char) : P c := by
  by_cases hq : c = '"'
  · exact hq ▸ quote
  by_cases hb : c = '\\'
  · exact hb ▸ slash
  by_cases hc : c.toNat < 32
  · exact Char.ofNat_toNat c ▸ control c.toNat hc
  · exact plain c hq hb (by rw [escapeChar, if_neg hq, if_neg hb, if_neg hc])

@[simp] theorem readChar_escapeChar (r : List Char) : readChar (escapeChar c ++ r) = some (c, r) := by
  induction c using escapeChar_rec with
  | quote | slash => rfl
  | control n hn => interval_cases n <;> rfl
  | plain c _ hb hc => simp [hc, readChar, hb]

theorem quoteBody_inj : ∀ (s t : List Char) {r r' : List Char},
    quoteBody s ++ r = quoteBody t ++ r' → s = t ∧ r = r' := by
  intro s
  induction s with
  | nil =>
    intro t r r' h
    cases t with
    | nil => exact ⟨rfl, by simpa [quoteBody] using h⟩
    | cons =>
      have hr := congrArg readChar h
      simp [quoteBody] at hr
  | cons c cs ih =>
    intro t r r' h
    have hr := congrArg readChar h
    cases t with
    | nil => simp [quoteBody] at hr
    | cons d ds =>
      simp only [quoteBody, append_assoc, readChar_escapeChar, Option.some.injEq, Prod.mk.injEq] at hr
      obtain ⟨rfl, hrest⟩ := hr
      obtain ⟨rfl, rfl⟩ := ih ds hrest
      exact ⟨rfl, rfl⟩

variable {r r' : List Char} {c : Char} {a b : Json} {ms : List (String × Json)} {k : String}

theorem quote_inj {s t : String} (h : quote s ++ r = quote t ++ r') : s = t ∧ r = r' := by
  obtain ⟨hs, hr⟩ := quoteBody_inj s.toList t.toList (cons.inj h).2
  exact ⟨String.toList_inj.mp hs, hr⟩

/-! ## The text determines the value -/

/-- What follows a value never continues a number. -/
def Stops (r : List Char) : Prop := ∀ c, r.head? = some c → isNumChar c = false

theorem stops_nil : Stops [] := nofun

theorem stops_cons (hc : isNumChar c = false) (r : List Char) : Stops (c :: r) := by
  intro d hd
  cases hd
  exact hc

theorem stops_renderElems (xs : List Json) (r : List Char) : Stops (renderElems xs ++ r) := by
  cases xs <;> exact stops_cons (by decide) _

theorem stops_renderMembers (ms : List (String × Json)) (r : List Char) : Stops (renderMembers ms ++ r) := by
  cases ms <;> exact stops_cons (by decide) _

theorem takeWhile_num (n : Num) (hr : Stops r) : (n.text ++ r).takeWhile isNumChar = n.text := by
  rw [takeWhile_append_of_pos (by simpa using n.numeric)]
  cases r with
  | nil => simp
  | cons c => simp [hr c rfl]

theorem num_inj {m n : Num} (hr : Stops r) (hr' : Stops r') (h : m.text ++ r = n.text ++ r') : m = n ∧ r = r' := by
  have ht : m.text = n.text := by
    rw [← takeWhile_num m hr, h, takeWhile_num n hr']
  refine ⟨?_, append_cancel_left (ht ▸ h)⟩
  cases m; cases n; simpa using ht

/-- The constructor of a value, booleans apart. -/
def kind : Json → Nat
  | .null => 0
  | .bool false => 1
  | .bool true => 2
  | .num _ => 3
  | .str _ => 4
  | .arr _ => 5
  | .obj _ => 6

/-- The kind of the values whose text begins with this character. -/
def kindOf (c : Char) : Nat :=
  if isNumChar c then 3
  else match c with
    | 'n' => 0
    | 'f' => 1
    | 't' => 2
    | '"' => 4
    | '[' => 5
    | '\x7b' => 6
    | _ => 7

theorem head_render (v : Json) (r : List Char) : ∃ c cs, render v ++ r = c :: cs ∧ kindOf c = v.kind := by
  rcases v with _ | (_ | _) | ⟨text, nonempty, numeric⟩ | s | (_ | ⟨x, xs⟩) | (_ | ⟨⟨k, w⟩, ms⟩)
  case num =>
    cases text with
    | nil => exact absurd rfl nonempty
    | cons c cs =>
      rw [all_cons, Bool.and_eq_true] at numeric
      exact ⟨c, cs ++ r, by simp [render], if_pos numeric.1⟩
  all_goals exact ⟨_, _, by simp only [render]; rfl, rfl⟩

/-- No value starts with a closing bracket, so an empty array is told from any other. -/
theorem render_ne_close (v : Json) (r r' : List Char) : render v ++ r ≠ ']' :: r' := by
  intro h
  obtain ⟨c, cs, hc, hkind⟩ := head_render v r
  obtain ⟨rfl, -⟩ := cons.inj (hc.symm.trans h)
  rcases v with _ | (_ | _) | _ | _ | _ | _ <;> cases hkind

theorem kind_eq (h : render a ++ r = render b ++ r') : a.kind = b.kind := by
  obtain ⟨c, cs, hc, ha⟩ := head_render a r
  obtain ⟨d, ds, hd, hb⟩ := head_render b r'
  obtain ⟨rfl, -⟩ := cons.inj (hc.symm.trans (h.trans hd))
  exact ha.symm.trans hb

-- The induction is on the first value; what follows it stays general, so that the
-- hypothesis applies with the rest of the enclosing array or object behind it.
mutual

theorem render_inj : (a b : Json) → ∀ (r r' : List Char), Stops r → Stops r' →
    render a ++ r = render b ++ r' → a = b ∧ r = r'
  | .null, b => by
    intro r r' _ _ h
    rcases b with _ | (_ | _) | _ | _ | _ | _ <;> cases kind_eq h
    simpa [render] using h
  | .bool c, b => by
    intro r r' _ _ h
    rcases c with _ | _ <;> rcases b with _ | (_ | _) | _ | _ | _ | _ <;> cases kind_eq h
    all_goals simpa [render] using h
  | .num m, b => by
    intro r r' hr hr' h
    rcases b with _ | (_ | _) | _ | _ | _ | _ <;> cases kind_eq h
    simpa [render] using num_inj hr hr' h
  | .str s, b => by
    intro r r' _ _ h
    rcases b with _ | (_ | _) | _ | _ | _ | _ <;> cases kind_eq h
    simpa using quote_inj h
  | .arr [], b => by
    intro r r' _ _ h
    rcases b with _ | (_ | _) | _ | _ | (_ | ⟨y, ys⟩) | _ <;> cases kind_eq h
    · simpa [render] using h
    · simp only [render, cons_append, append_assoc, List.cons.injEq, true_and] at h
      exact absurd h.symm (render_ne_close y _ _)
  | .arr (x :: xs), b => by
    intro r r' _ _ h
    rcases b with _ | (_ | _) | _ | _ | (_ | ⟨y, ys⟩) | _ <;> cases kind_eq h
    · simp only [render, cons_append, append_assoc, List.cons.injEq, true_and] at h
      exact absurd h (render_ne_close x _ _)
    · obtain ⟨hxs, hr⟩ := renderElems_inj (x :: xs) (y :: ys) r r' (congrArg (',' :: ·) (cons.inj h).2)
      exact ⟨congrArg Json.arr hxs, hr⟩
  | .obj [], b => by
    intro r r' _ _ h
    rcases b with _ | (_ | _) | _ | _ | _ | (_ | ⟨⟨k, v⟩, ms⟩) <;> cases kind_eq h
    · simpa [render] using h
    · simp [render, quote] at h
  | .obj ((k, v) :: ms), b => by
    intro r r' _ _ h
    rcases b with _ | (_ | _) | _ | _ | _ | (_ | ⟨⟨k', v'⟩, ms'⟩) <;> cases kind_eq h
    · simp [render, quote] at h
    · obtain ⟨hms, hr⟩ := renderMembers_inj ((k, v) :: ms) ((k', v') :: ms') r r' (congrArg (',' :: ·) (cons.inj h).2)
      exact ⟨congrArg Json.obj hms, hr⟩

theorem renderElems_inj : (xs ys : List Json) → ∀ (r r' : List Char),
    renderElems xs ++ r = renderElems ys ++ r' → xs = ys ∧ r = r'
  | [], ys => by
    intro r r' h
    cases ys with
    | nil => simpa [renderElems] using h
    | cons => simp [renderElems] at h
  | x :: xs, ys => by
    intro r r' h
    cases ys with
    | nil => simp [renderElems] at h
    | cons y ys =>
      simp only [renderElems, cons_append, append_assoc, List.cons.injEq, true_and] at h
      obtain ⟨rfl, hrest⟩ := render_inj x y _ _ (stops_renderElems xs r) (stops_renderElems ys r') h
      obtain ⟨rfl, rfl⟩ := renderElems_inj xs ys _ _ hrest
      exact ⟨rfl, rfl⟩

theorem renderMembers_inj : (ms ns : List (String × Json)) → ∀ (r r' : List Char),
    renderMembers ms ++ r = renderMembers ns ++ r' → ms = ns ∧ r = r'
  | [], ns => by
    intro r r' h
    cases ns with
    | nil => simpa [renderMembers] using h
    | cons => simp [renderMembers] at h
  | (k, v) :: ms, ns => by
    intro r r' h
    rcases ns with _ | ⟨⟨k', v'⟩, ns⟩
    · simp [renderMembers] at h
    · simp only [renderMembers, cons_append, append_assoc, List.cons.injEq, true_and] at h
      obtain ⟨rfl, hval⟩ := quote_inj h
      obtain ⟨rfl, hrest⟩ := render_inj v v' _ _ (stops_renderMembers ms r) (stops_renderMembers ns r')
        (cons.inj hval).2
      obtain ⟨rfl, rfl⟩ := renderMembers_inj ms ns _ _ hrest
      exact ⟨rfl, rfl⟩

end

theorem render_eq_iff : render a = render b ↔ a = b := by
  refine ⟨fun h => ?_, fun h => h ▸ rfl⟩
  exact (render_inj a b [] [] stops_nil stops_nil (by simpa using h)).1

theorem stringify_inj (h : stringify a = stringify b) : a = b :=
  render_eq_iff.mp (String.ofList_inj.mp h)

instance : DecidableEq Json := fun _ _ => decidable_of_iff _ render_eq_iff

/-! ## Sorting keys loses no member -/

theorem lookup_cons_ite {α : Type} (k : String) (m : String × α) (ms : List (String × α)) :
    (m :: ms).lookup k = if k = m.1 then some m.2 else ms.lookup k := by
  rw [lookup_cons]
  by_cases hk : k = m.1
  · rw [if_pos hk, beq_iff_eq.mpr hk]
  · rw [if_neg hk, beq_eq_false_iff_ne.mpr hk]

theorem lookup_eq_some_iff_mem {α : Type} {ms : List (String × α)} (h : (ms.map Prod.fst).Nodup) {v : α} :
    ms.lookup k = some v ↔ (k, v) ∈ ms := by
  induction ms with
  | nil => simp
  | cons m ms ih =>
    obtain ⟨hm, hms⟩ := nodup_cons.mp h
    rw [lookup_cons_ite, mem_cons]
    by_cases hk : k = m.1
    · subst hk
      have hout : ¬ (m.1, v) ∈ ms := fun hv => hm (mem_map.mpr ⟨_, hv, rfl⟩)
      simp [hout, Prod.ext_iff, eq_comm]
    · have hne : ¬ (k, v) = m := fun e => hk (congrArg Prod.fst e)
      simp [hk, hne, ih hms]

theorem lookup_perm {ms ns : List (String × Json)} (h : (ms.map Prod.fst).Nodup) (hp : ms.Perm ns) (k : String) :
    ms.lookup k = ns.lookup k := by
  have hn : (ns.map Prod.fst).Nodup := (hp.map Prod.fst).nodup_iff.mp h
  refine Option.ext fun v => ?_
  rw [lookup_eq_some_iff_mem h, lookup_eq_some_iff_mem hn, hp.mem_iff]

theorem lookup_filter_key (keep : String → Bool) (hk : keep k) (ms : List (String × Json)) :
    (ms.filter fun m => keep m.1).lookup k = ms.lookup k := by
  induction ms with
  | nil => rfl
  | cons m ms ih =>
    rw [filter_cons, lookup_cons_ite]
    by_cases hm : keep m.1
    · rw [if_pos hm, lookup_cons_ite, ih]
    · have hne : k ≠ m.1 := fun e => hm (e ▸ hk)
      rw [if_neg hm, if_neg hne, ih]

theorem assignAll_perm (ms : List (String × Json)) : (assignAll ms).Perm (ms.filter fun m => m.1 ≠ "__proto__") := by
  refine ((perm_insertionSort _ _).append_right _).trans ?_
  simpa using filter_append_perm (fun m => (indexOf? m.1).isSome) (ms.filter fun m => m.1 ≠ "__proto__")

/-- Members with plain names stay in the order they were assigned in. -/
theorem assignAll_of_names
    (h : (ms.map Prod.fst).all fun k => k ≠ "__proto__" ∧ indexOf? k = none) : assignAll ms = ms := by
  have hk : ∀ m ∈ ms, m.1 ≠ "__proto__" ∧ indexOf? m.1 = none := fun m hm =>
    of_decide_eq_true (all_eq_true.mp h m.1 (mem_map.mpr ⟨m, hm, rfl⟩))
  have hown : ms.filter (fun m => m.1 ≠ "__proto__") = ms :=
    filter_eq_self.mpr fun m hm => decide_eq_true (hk m hm).1
  have hindex : ms.filter (fun m => (indexOf? m.1).isSome) = [] :=
    filter_eq_nil_iff.mpr fun m hm => by simp [(hk m hm).2]
  have hname : ms.filter (fun m => (indexOf? m.1).isNone) = ms :=
    filter_eq_self.mpr fun m hm => by simp [(hk m hm).2]
  unfold assignAll
  simp only [hown, hindex, hname]
  rfl

theorem lookup_sortMembers (h : (ms.map Prod.fst).Nodup)
    (hk : k ≠ "__proto__") : (sortMembers ms).lookup k = ms.lookup k := by
  have hsort := perm_insertionSort (fun a b : String × Json => keyLe a.1 b.1) ms
  have hs : ((ms.insertionSort fun a b => keyLe a.1 b.1).map Prod.fst).Nodup :=
    (hsort.map Prod.fst).nodup_iff.mpr h
  have hf : (((ms.insertionSort fun a b => keyLe a.1 b.1).filter fun m => m.1 ≠ "__proto__").map Prod.fst).Nodup :=
    (filter_sublist.map Prod.fst).nodup hs
  calc (sortMembers ms).lookup k
      = ((ms.insertionSort fun a b => keyLe a.1 b.1).filter fun m => m.1 ≠ "__proto__").lookup k :=
        (lookup_perm hf (assignAll_perm _).symm k).symm
    _ = (ms.insertionSort fun a b => keyLe a.1 b.1).lookup k :=
        lookup_filter_key (fun n => n ≠ "__proto__") (by simpa using hk) _
    _ = ms.lookup k := (lookup_perm h hsort.symm k).symm

theorem keys_sortValues (ms : List (String × Json)) : (sortValues ms).map Prod.fst = ms.map Prod.fst := by
  induction ms with
  | nil => rfl
  | cons m ms ih => simp [sortValues, ih]

theorem lookup_sortValues (ms : List (String × Json)) (k : String) :
    (sortValues ms).lookup k = (ms.lookup k).map sortKeys := by
  induction ms with
  | nil => rfl
  | cons m ms ih =>
    simp only [sortValues, lookup_cons_ite, ih]
    split <;> rfl

/-- A member of an object is found again, with its own keys sorted, in the sorted object. -/
theorem get?_sortKeys (h : (ms.map Prod.fst).Nodup) (hk : k ≠ "__proto__") :
    (sortKeys (.obj ms)).get? k = ((Json.obj ms).get? k).map sortKeys := by
  have hv : ((sortValues ms).map Prod.fst).Nodup := (keys_sortValues ms).symm ▸ h
  simp only [sortKeys, get?]
  rw [lookup_sortMembers hv hk, lookup_sortValues]

/-! ## Reading the text from left to right -/

/-- Where a reader stands: outside a literal, inside one, after a backslash, or right
    behind a closing quote. -/
inductive Scan where
  | out | lit | esc | closed
  deriving DecidableEq

def punctuation (c : Char) : Bool := c == ',' || c == ':' || c == ']' || c == '\x7d'

/-- Reads one character; `none` where no JSON text has it. -/
def Scan.next : Scan → Char → Option Scan
  | .out, c => if c = '|' then none else if c = '"' then some .lit else some .out
  | .lit, c => if c = '"' then some .closed else if c = '\\' then some .esc else some .lit
  | .esc, c => if c = '|' then none else some .lit
  | .closed, c => if punctuation c then some .out else none

def scan : Scan → List Char → Option Scan
  | s, [] => some s
  | s, c :: cs => (s.next c).bind fun t => scan t cs

theorem scan_append (s : Scan) (xs ys : List Char) : scan s (xs ++ ys) = (scan s xs).bind fun t => scan t ys := by
  induction xs generalizing s with
  | nil => rfl
  | cons c xs ih =>
    show ((s.next c).bind fun t => scan t (xs ++ ys)) = ((s.next c).bind fun t => scan t xs).bind fun t => scan t ys
    cases s.next c with
    | none => rfl
    | some t => exact ih t

theorem scan_then {s t : Scan} {xs : List Char} (h : scan s xs = some t) (ys : List Char) :
    scan s (xs ++ ys) = scan t ys := by
  rw [scan_append, h]
  rfl

/-! ## The text of every value is read to its end -/

theorem scan_escapeChar (c : Char) : scan .lit (escapeChar c) = some .lit := by
  induction c using escapeChar_rec with
  | quote | slash => rfl
  | control n hn => interval_cases n <;> rfl
  | plain c hq hb hc => simp [hc, scan, Scan.next, hq, hb]

theorem scan_quoteBody (cs : List Char) : scan .lit (quoteBody cs) = some .closed := by
  induction cs with
  | nil => rfl
  | cons c cs ih =>
    unfold quoteBody
    rw [scan_then (scan_escapeChar c), ih]

theorem scan_quote (s : String) : scan .out (quote s) = some .closed := scan_quoteBody s.toList

variable {s : Scan} {cs : List Char} {c : Char}

theorem scan_digits (h : cs.all isNumChar) : scan .out cs = some .out := by
  induction cs with
  | nil => rfl
  | cons c cs ih =>
    obtain ⟨hc, hcs⟩ := Bool.and_eq_true_iff.mp (all_cons ▸ h)
    have hbar : c ≠ '|' := fun e => absurd (e ▸ hc) (by decide)
    have hquote : c ≠ '"' := fun e => absurd (e ▸ hc) (by decide)
    have hnext : Scan.next .out c = some .out := by simp [Scan.next, hbar, hquote]
    show ((Scan.next .out c).bind fun t => scan t cs) = some .out
    rw [hnext]
    exact ih hcs

/-- What a value may leave the reader in: punctuation is read next either way. -/
def Ends (s : Scan) : Prop := s = .out ∨ s = .closed

theorem Ends.scan_cons (h : Ends s) (hc : punctuation c) (cs : List Char) : scan s (c :: cs) = scan .out cs := by
  have hnext : s.next c = some .out := by
    rcases h with rfl | rfl
    · have hb : c ≠ '|' := fun e => absurd (e ▸ hc) (by decide)
      have hq : c ≠ '"' := fun e => absurd (e ▸ hc) (by decide)
      simp [Scan.next, hb, hq]
    · simp [Scan.next, hc]
  show ((s.next c).bind fun t => scan t cs) = scan .out cs
  rw [hnext]
  rfl

theorem Ends.comma (h : Ends s) (cs : List Char) : scan s (',' :: cs) = scan .out cs :=
  h.scan_cons (by decide) cs

theorem scan_member (k : String) (cs : List Char) : scan .out (quote k ++ ':' :: cs) = scan .out cs := by
  rw [scan_then (scan_quote k)]
  exact Ends.scan_cons (.inr rfl) (by decide) cs

mutual

theorem scan_render : (v : Json) → ∃ s, Ends s ∧ scan .out (render v) = some s
  | .null | .bool true | .bool false | .arr [] | .obj [] => ⟨.out, .inl rfl, by simp only [render]; rfl⟩
  | .num n => ⟨.out, .inl rfl, by simp only [render]; exact scan_digits n.numeric⟩
  | .str s => ⟨.closed, .inr rfl, by simp only [render]; exact scan_quote s⟩
  | .arr (x :: xs) => by
    obtain ⟨s, hs, hx⟩ := scan_render x
    refine ⟨.out, .inl rfl, ?_⟩
    simp only [render]
    exact (scan_then hx _).trans (scan_renderElems xs s hs)
  | .obj ((k, v) :: ms) => by
    obtain ⟨s, hs, hv⟩ := scan_render v
    refine ⟨.out, .inl rfl, ?_⟩
    simp only [render]
    exact (scan_member k _).trans ((scan_then hv _).trans (scan_renderMembers ms s hs))

theorem scan_renderElems : (xs : List Json) → ∀ s, Ends s → scan s (renderElems xs) = some .out
  | [], s, hs => by
    simp only [renderElems]
    exact hs.scan_cons (by decide) []
  | x :: xs, s, hs => by
    obtain ⟨t, ht, hx⟩ := scan_render x
    simp only [renderElems]
    rw [hs.comma, scan_then hx]
    exact scan_renderElems xs t ht

theorem scan_renderMembers : (ms : List (String × Json)) → ∀ s, Ends s → scan s (renderMembers ms) = some .out
  | [], s, hs => by
    simp only [renderMembers]
    exact hs.scan_cons (by decide) []
  | (k, v) :: ms, s, hs => by
    obtain ⟨t, ht, hv⟩ := scan_render v
    simp only [renderMembers]
    rw [hs.comma, scan_member, scan_then hv]
    exact scan_renderMembers ms t ht

end

/-! ## A bar before an object -/

/-- The text is that of an object whose first member's name starts with this character. -/
def OpensWith (c : Char) (cs : List Char) : Prop := ∃ rest, cs = '\x7b' :: '"' :: c :: rest

theorem bar_object_not_inside (v : Json) {lead cs : List Char} (hc : punctuation c = false)
    (ho : OpensWith c cs) : render v ≠ lead ++ '|' :: cs := by
  intro he
  obtain ⟨rest, rfl⟩ := ho
  obtain ⟨s, -, hs⟩ := scan_render v
  rw [he, scan_append] at hs
  cases hlead : scan .out lead with
  | none => simp [hlead] at hs
  | some t =>
    rw [hlead] at hs
    cases t with
    | out | esc => simp [scan, Scan.next] at hs
    | closed => simp [scan, Scan.next, punctuation] at hs
    | lit =>
      -- the bar is in a literal that the object's first quote closes
      simp [scan, Scan.next, hc] at hs

theorem bar_object_inj (hc : punctuation c = false) {v w : Json} (hv : OpensWith c (render v))
    (hw : OpensWith c (render w)) {a b : List Char} (h : a ++ '|' :: render v = b ++ '|' :: render w) :
    a = b ∧ v = w := by
  rcases append_eq_append_iff.mp h with ⟨d, rfl, hd⟩ | ⟨d, rfl, hd⟩
  · cases d with
    | nil => exact ⟨(append_nil a).symm, render_eq_iff.mp (cons.inj hd).2⟩
    | cons => exact absurd (cons.inj hd).2 (bar_object_not_inside v hc hw)
  · cases d with
    | nil => exact ⟨append_nil b, (render_eq_iff.mp (cons.inj hd).2).symm⟩
    | cons => exact absurd (cons.inj hd).2 (bar_object_not_inside w hc hv)

end Json

/-- `value ?? null`. -/
def orNull : Option String → Json
  | some s => .str s
  | none => .null

theorem orNull_inj {a b : Option String} (h : orNull a = orNull b) : a = b := by
  cases a <;> cases b <;> simp_all [orNull]

@[simp] theorem sortKeys_orNull (a : Option String) : Json.sortKeys (orNull a) = orNull a := by
  cases a <;> simp [orNull, Json.sortKeys]

end EarnProof.Lib
