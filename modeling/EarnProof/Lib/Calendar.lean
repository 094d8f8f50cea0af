/-
  EarnProof.Lib.Calendar — JavaScript dates: a time value in milliseconds, its
  proleptic Gregorian calendar fields in UTC, the text `toISOString` prints and
  the texts `new Date(text)` reads.

  `readIso` is the date-time format of ECMAScript: date-only forms, and
  date-times with a zone. A text outside it, and a date-time without a zone, is
  read by the host: that part is a parameter of `parse`.

  Proved: the calendar fields determine the day (`daysOf_civil`), and the text of a
  date is read back as that date whatever the host reads elsewhere
  (`parse_toISOString`).
-/
import Mathlib.Data.Int.ConditionallyCompleteOrder
import Mathlib.Tactic.Ring

namespace EarnProof.Lib.Calendar

/-- A valid date. The bound is the one beyond which a `Date` is invalid. -/
structure Date where
  ms : Int
  lower : -8640000000000000 ≤ ms
  upper : ms ≤ 8640000000000000
  deriving DecidableEq

def Date.epoch : Date := ⟨0, by decide, by decide⟩

/-- Traces number their instants below a thousand. -/
instance neZeroThousand : NeZero 1000 := ⟨by decide⟩

/-- `new Date(ms)`; `none` is an invalid date. -/
def Date.ofMs? (ms : Int) : Option Date :=
  if h : -8640000000000000 ≤ ms ∧ ms ≤ 8640000000000000 then some ⟨ms, h.1, h.2⟩ else none

@[simp] theorem Date.ofMs?_ms (d : Date) : Date.ofMs? d.ms = some d := by
  unfold Date.ofMs?
  rw [dif_pos ⟨d.lower, d.upper⟩]

theorem Date.ext_ms {a b : Date} (h : a.ms = b.ms) : a = b := by
  cases a; cases b; simpa using h

instance : LE Date := ⟨fun a b => a.ms ≤ b.ms⟩
instance : LT Date := ⟨fun a b => a.ms < b.ms⟩
instance (a b : Date) : Decidable (a ≤ b) := inferInstanceAs (Decidable (a.ms ≤ b.ms))
instance (a b : Date) : Decidable (a < b) := inferInstanceAs (Decidable (a.ms < b.ms))

def dayMs : Int := 86400000

/-! ## Days and calendar fields -/

structure Civil where
  year : Int
  month : Int
  day : Int
  deriving DecidableEq

variable (z : Int)

/-- The calendar day of a day number (day 0 is 1970-01-01). The year is counted from
    March, so that the leap day is the last of its year, and split into eras of 400
    years, centuries, four-year cycles and years. -/
def civil : Civil :=
  let e := (z + 719468) / 146097
  let doe := (z + 719468) % 146097
  let c := min (doe / 36524) 3
  let q := (doe - 36524 * c) / 1461
  let y := min ((doe - 36524 * c - 1461 * q) / 365) 3
  let doy := doe - 36524 * c - 1461 * q - 365 * y
  let mp := (5 * doy + 2) / 153
  let m := if mp < 10 then mp + 3 else mp - 9
  ⟨400 * e + 100 * c + 4 * q + y + (if m ≤ 2 then 1 else 0), m, doy - (153 * mp + 2) / 5 + 1⟩

variable (f : Civil)

/-- The day number of a calendar day; months and days out of range carry over. -/
def daysOf : Int :=
  let y := if f.month ≤ 2 then f.year - 1 else f.year
  let yoe := y % 400
  let mp := if f.month ≤ 2 then f.month + 9 else f.month - 3
  (y / 400) * 146097 + (yoe * 365 + yoe / 4 - yoe / 100 + ((153 * mp + 2) / 5 + f.day - 1)) - 719468

/-- The month of a calendar day, counted from January of the year 0. -/
def Civil.months : Int := 12 * f.year + f.month - 1

/-- The first day of the month `m` of the year `y`, both counted from March. -/
def marchStart (y m : Int) : Int :=
  y / 400 * 146097 + (y % 400 * 365 + y % 400 / 4 - y % 400 / 100 + (153 * m + 2) / 5) - 719468

def monthStart (n : Int) : Int := marchStart ((n - 2) / 12) ((n - 2) % 12)

theorem monthStart_march (y : Int) {m : Int} (h0 : 0 ≤ m) (h11 : m ≤ 11) :
    monthStart (12 * y + m + 2) = marchStart y m := by
  unfold monthStart
  congr 1 <;> omega

theorem monthStart_succ (n : Int) : monthStart n + 28 ≤ monthStart (n + 1) := by
  by_cases hm : (n - 2) % 12 = 11
  · have hy : (n + 1 - 2) / 12 = (n - 2) / 12 + 1 := by omega
    have hr : (n + 1 - 2) % 12 = 0 := by omega
    simp only [monthStart, marchStart, hy, hr, hm]
    generalize (n - 2) / 12 = y
    omega
  · have hy : (n + 1 - 2) / 12 = (n - 2) / 12 := by omega
    have hr : (n + 1 - 2) % 12 = (n - 2) % 12 + 1 := by omega
    simp only [monthStart, marchStart, hy, hr]
    omega

theorem daysOf_eq (y : Int) {m : Int} (h1 : 1 ≤ m) (h12 : m ≤ 12) (d : Int) :
    daysOf ⟨y, m, d⟩ = monthStart (12 * y + m - 1) + d - 1 := by
  by_cases hm : m ≤ 2
  · have hmarch := monthStart_march (y - 1) (m := m + 9) (by omega) (by omega)
    rw [show 12 * y + m - 1 = 12 * (y - 1) + (m + 9) + 2 by omega, hmarch]
    simp only [daysOf, marchStart, hm, if_true]
    omega
  · have hmarch := monthStart_march y (m := m - 3) (by omega) (by omega)
    rw [show 12 * y + m - 1 = 12 * y + (m - 3) + 2 by omega, hmarch]
    simp only [daysOf, marchStart, hm, if_false]
    omega

/-- The parts `civil` splits a day number into, with the bounds that make the split unique:
    only a leap year has a day 365. -/
theorem split_era (doe : Int) (h0 : 0 ≤ doe) (h1 : doe < 146097) :
    let c := min (doe / 36524) 3
    let q := (doe - 36524 * c) / 1461
    let y := min ((doe - 36524 * c - 1461 * q) / 365) 3
    let doy := doe - 36524 * c - 1461 * q - 365 * y
    0 ≤ c ∧ c ≤ 3 ∧ 0 ≤ q ∧ q ≤ 24 ∧ 0 ≤ y ∧ y ≤ 3 ∧ 0 ≤ doy ∧
      (doy ≤ 364 ∨ doy = 365 ∧ y = 3 ∧ (q ≤ 23 ∨ c = 3)) := by
  intro c q y doy
  have hc : 0 ≤ c ∧ c ≤ 3 := by omega
  have hr : 0 ≤ doe - 36524 * c ∧ doe - 36524 * c ≤ 36524 := by omega
  have hq : 0 ≤ q ∧ q ≤ 24 := by omega
  have hy : 0 ≤ y ∧ y ≤ 3 := by omega
  have hd : 0 ≤ doy ∧ (doy ≤ 364 ∨ doy = 365 ∧ y = 3 ∧ (q ≤ 23 ∨ c = 3)) := by omega
  exact ⟨hc.1, hc.2, hq.1, hq.2, hy.1, hy.2, hd⟩

theorem marchStart_era {c q y doy : Int} (e : Int) (h : 0 ≤ c ∧ c ≤ 3 ∧ 0 ≤ q ∧ q ≤ 24 ∧ 0 ≤ y ∧ y ≤ 3 ∧ 0 ≤ doy ∧
      (doy ≤ 364 ∨ doy = 365 ∧ y = 3 ∧ (q ≤ 23 ∨ c = 3))) :
    e * 146097 + (36524 * c + 1461 * q + 365 * y + doy) - 719468 = marchStart (400 * e + 100 * c + 4 * q + y) 0 + doy ∧
      marchStart (400 * e + 100 * c + 4 * q + y) 0 + doy < marchStart (400 * e + 100 * c + 4 * q + y + 1) 0 := by
  unfold marchStart
  omega

/-- The year `civil` finds, counted from March, and the day in it. -/
theorem civil_parts : ∃ y doy : Int, z = marchStart y 0 + doy ∧ 0 ≤ doy ∧ z < marchStart (y + 1) 0 ∧
    civil z =
      let mp := (5 * doy + 2) / 153
      let m := if mp < 10 then mp + 3 else mp - 9
      ⟨y + (if m ≤ 2 then 1 else 0), m, doy - (153 * mp + 2) / 5 + 1⟩ := by
  have hs := split_era _ (Int.emod_nonneg (z + 719468) (by decide)) (Int.emod_lt_of_pos _ (by decide))
  obtain ⟨hz, hnext⟩ := marchStart_era ((z + 719468) / 146097) hs
  have hsum : z = marchStart _ 0 + _ := .trans (by omega) hz
  exact ⟨_, _, hsum, hs.2.2.2.2.2.2.1, hsum.trans_lt hnext, rfl⟩

/-- A day lies in the month of its calendar fields. -/
theorem civil_month : 1 ≤ (civil z).month ∧ (civil z).month ≤ 12 ∧ 1 ≤ (civil z).day ∧
    monthStart (civil z).months + (civil z).day - 1 = z ∧ z < monthStart ((civil z).months + 1) := by
  obtain ⟨y, doy, hz, h0, hnext, hcivil⟩ := civil_parts z
  have hlen : marchStart (y + 1) 0 ≤ marchStart y 0 + 366 := by
    unfold marchStart
    omega
  have hmp : 0 ≤ (5 * doy + 2) / 153 ∧ (5 * doy + 2) / 153 ≤ 11 := by omega
  have hmonths : (civil z).months = 12 * y + (5 * doy + 2) / 153 + 2 := by
    rw [hcivil]
    simp only [Civil.months]
    split <;> split <;> omega
  have hstart : ∀ m, marchStart y m = marchStart y 0 + (153 * m + 2) / 5 := by
    intro m
    unfold marchStart
    omega
  rw [hmonths, monthStart_march y hmp.1 hmp.2, hcivil, hstart]
  simp only
  refine ⟨?_, ?_, by omega, by omega, ?_⟩
  · split <;> omega
  · split <;> omega
  · by_cases hlast : (5 * doy + 2) / 153 = 11
    · rw [hlast, show 12 * y + 11 + 2 + 1 = 12 * (y + 1) + 0 + 2 by omega, monthStart_march _ (by decide) (by decide)]
      exact hnext
    · rw [show 12 * y + (5 * doy + 2) / 153 + 2 + 1 = 12 * y + ((5 * doy + 2) / 153 + 1) + 2 by omega,
        monthStart_march _ (by omega) (by omega), hstart]
      omega

theorem daysOf_civil : daysOf (civil z) = z := by
  obtain ⟨h1, h12, -, hz, -⟩ := civil_month z
  exact (daysOf_eq _ h1 h12 _).trans hz

/-! ## Fixed-width numbers -/

def digitChar (n : Nat) : Char := Char.ofNat (48 + n)

/-- The last `k` decimal digits, most significant first. -/
def padDigits : Nat → Nat → List Char
  | 0, _ => []
  | k + 1, n => digitChar (n / 10 ^ k % 10) :: padDigits k n

def readDigits : Nat → Nat → List Char → Option (Nat × List Char)
  | 0, acc, cs => some (acc, cs)
  | _ + 1, _, [] => none
  | k + 1, acc, c :: cs =>
    if c.isDigit then readDigits k (10 * acc + (c.toNat - 48)) cs else none

theorem digitChar_digit : ∀ n < 10, (digitChar n).isDigit ∧ (digitChar n).toNat - 48 = n := by
  decide

theorem readDigits_padDigits (k n : Nat) (r : List Char) :
    ∀ acc, readDigits k acc (padDigits k n ++ r) = some (acc * 10 ^ k + n % 10 ^ k, r) := by
  induction k with
  | zero => intro acc; simp [padDigits, readDigits, Nat.mod_one]
  | succ k ih =>
    intro acc
    obtain ⟨hd, hv⟩ := digitChar_digit (n / 10 ^ k % 10) (Nat.mod_lt _ (by decide))
    have hsplit : n % 10 ^ (k + 1) = n % 10 ^ k + 10 ^ k * (n / 10 ^ k % 10) := by
      rw [Nat.pow_succ, Nat.mod_mul]
    rw [padDigits, List.cons_append, readDigits, if_pos hd, hv, ih, hsplit]
    congr 2
    ring

theorem readDigits_padDigits_zero (k n : Nat) (h : n < 10 ^ k) (r : List Char) :
    readDigits k 0 (padDigits k n ++ r) = some (n, r) := by
  rw [readDigits_padDigits, Nat.zero_mul, Nat.zero_add, Nat.mod_eq_of_lt h]

/-! ## Texts -/

/-- Four digits, or a sign and six outside the years 0 to 9999. -/
def isoYear (y : Int) : List Char :=
  if 0 ≤ y ∧ y ≤ 9999 then padDigits 4 y.toNat
  else (if y < 0 then '-' else '+') :: padDigits 6 y.natAbs

def isoDay : List Char :=
  isoYear f.year ++ '-' :: (padDigits 2 f.month.toNat ++ '-' :: padDigits 2 f.day.toNat)

/-- The time of day, `t` milliseconds after midnight. -/
def isoTime (t : Nat) : List Char :=
  padDigits 2 (t / 3600000) ++ ':' :: (padDigits 2 (t / 60000 % 60) ++
    ':' :: (padDigits 2 (t / 1000 % 60) ++ '.' :: padDigits 3 (t % 1000)))

def Date.toISOString (d : Date) : String :=
  String.ofList (isoDay (civil (d.ms / dayMs)) ++ 'T' :: (isoTime (d.ms % dayMs).toNat ++ ['Z']))

example : (Date.ofMs? 1709164800000).map Date.toISOString = some "2024-02-29T00:00:00.000Z" := by decide
example : (Date.ofMs? (-62198755200001)).map Date.toISOString = some "-000002-12-31T23:59:59.999Z" := by decide

def readYear : List Char → Option (Int × List Char)
  | '+' :: cs => (readDigits 6 0 cs).map fun p => ((p.1 : Int), p.2)
  | '-' :: cs =>
    match readDigits 6 0 cs with
    | some (n, r) => if n = 0 then none else some (-(n : Int), r)
    | none => none
  | cs => (readDigits 4 0 cs).map fun p => ((p.1 : Int), p.2)

/-- A year, a year and a month, or a whole date. -/
def readDay (cs : List Char) : Option (Civil × List Char) :=
  match readYear cs with
  | some (y, '-' :: r) =>
    match readDigits 2 0 r with
    | some (m, '-' :: r) => (readDigits 2 0 r).map fun p => (⟨y, m, p.1⟩, p.2)
    | some (m, r) => some (⟨y, m, 1⟩, r)
    | none => none
  | some (y, r) => some (⟨y, 1, 1⟩, r)
  | none => none

/-- Hours and minutes, with optional seconds and milliseconds. -/
def readTime (cs : List Char) : Option (Nat × List Char) :=
  match readDigits 2 0 cs with
  | some (h, ':' :: r) =>
    match readDigits 2 0 r with
    | some (m, ':' :: r) =>
      match readDigits 2 0 r with
      | some (s, '.' :: r) =>
        (readDigits 3 0 r).bind fun p =>
          if m ≤ 59 ∧ s ≤ 59 ∧ h * 3600000 + m * 60000 + s * 1000 + p.1 ≤ 86400000 then
            some (h * 3600000 + m * 60000 + s * 1000 + p.1, p.2) else none
      | some (s, r) =>
        if m ≤ 59 ∧ s ≤ 59 ∧ h * 3600000 + m * 60000 + s * 1000 ≤ 86400000 then
          some (h * 3600000 + m * 60000 + s * 1000, r) else none
      | none => none
    | some (m, r) =>
      if m ≤ 59 ∧ h * 3600000 + m * 60000 ≤ 86400000 then some (h * 3600000 + m * 60000, r) else none
    | none => none
  | _ => none

/-- Minutes to subtract: `Z`, or a signed offset. -/
def readZone : List Char → Option Int
  | ['Z'] => some 0
  | sign :: cs =>
    match readDigits 2 0 cs with
    | some (h, ':' :: r) =>
      match readDigits 2 0 r with
      | some (m, []) =>
        if h ≤ 23 ∧ m ≤ 59 then
          if sign = '+' then some (h * 60 + m) else if sign = '-' then some (-(h * 60 + m)) else none
        else none
      | _ => none
    | _ => none
  | [] => none

/-- The date-time texts of ECMAScript that name an instant, as milliseconds. The
    fields must name a day of the calendar. -/
def readIso (cs : List Char) : Option Int :=
  match readDay cs with
  | some (f, r) =>
    if civil (daysOf f) = f then
      match r with
      | [] => some (daysOf f * dayMs)
      | 'T' :: r =>
        match readTime r with
        | some (t, r) => (readZone r).map fun z => daysOf f * dayMs + t - z * 60000
        | none => none
      | _ => none
    else none
  | none => none

/-- `new Date(text)`: `host` reads what the format leaves to the implementation. -/
def parse (host : String → Option Date) (s : String) : Option Date :=
  match readIso s.toList with
  | some ms => Date.ofMs? ms
  | none => host s

/-! ## Reading a printed date -/

theorem civil_bounds (h0 : -100000001 ≤ z) (h1 : z ≤ 100000001) :
    (-999999 ≤ (civil z).year ∧ (civil z).year ≤ 999999) ∧
      (1 ≤ (civil z).month ∧ (civil z).month ≤ 12) ∧ 1 ≤ (civil z).day ∧ (civil z).day ≤ 31 := by
  obtain ⟨y, doy, hz, hdoy, hnext, hcivil⟩ := civil_parts z
  unfold marchStart at hz hnext
  rw [hcivil]
  simp only
  by_cases hmp : (5 * doy + 2) / 153 < 10
  · rw [if_pos hmp, if_neg (by omega)]; omega
  · rw [if_neg hmp, if_pos (by omega)]; omega

theorem readYear_digit (c : Char) (hc : c.isDigit) (cs : List Char) :
    readYear (c :: cs) = (readDigits 4 0 (c :: cs)).map fun p => ((p.1 : Int), p.2) := by
  unfold readYear
  split
  · rename_i h; cases h; exact absurd hc (by decide)
  · rename_i h; cases h; exact absurd hc (by decide)
  · rfl

theorem readYear_isoYear (y : Int) (h0 : -999999 ≤ y) (h1 : y ≤ 999999) (r : List Char) :
    readYear (isoYear y ++ r) = some (y, r) := by
  unfold isoYear
  by_cases hy : 0 ≤ y ∧ y ≤ 9999
  · rw [if_pos hy]
    have hd := (digitChar_digit (y.toNat / 10 ^ 3 % 10) (Nat.mod_lt _ (by decide))).1
    have hr := readDigits_padDigits_zero 4 y.toNat (by omega) r
    rw [padDigits, List.cons_append] at hr ⊢
    rw [readYear_digit _ hd, hr]
    simp [Int.toNat_of_nonneg hy.1]
  · rw [if_neg hy]
    have hr := readDigits_padDigits_zero 6 y.natAbs (by omega) r
    by_cases hneg : y < 0
    · rw [if_pos hneg, List.cons_append, readYear, hr]
      have hne : y.natAbs ≠ 0 := by omega
      have habs : -(y.natAbs : Int) = y := by omega
      show (if y.natAbs = 0 then none else some (-(y.natAbs : Int), r)) = some (y, r)
      rw [if_neg hne, habs]
    · rw [if_neg hneg, List.cons_append, readYear, hr]
      have habs : (y.natAbs : Int) = y := by omega
      simp [habs]

theorem readDay_isoDay (hy : -999999 ≤ f.year ∧ f.year ≤ 999999) (hm : 1 ≤ f.month ∧ f.month ≤ 12)
    (hd : 1 ≤ f.day ∧ f.day ≤ 31) (r : List Char) : readDay (isoDay f ++ r) = some (f, r) := by
  unfold isoDay readDay
  simp only [List.append_assoc, List.cons_append]
  rw [readYear_isoYear f.year hy.1 hy.2]
  simp only
  rw [readDigits_padDigits_zero 2 f.month.toNat (by omega)]
  simp only
  rw [readDigits_padDigits_zero 2 f.day.toNat (by omega)]
  have e1 : (f.month.toNat : Int) = f.month := Int.toNat_of_nonneg (by omega)
  have e2 : (f.day.toNat : Int) = f.day := Int.toNat_of_nonneg (by omega)
  simp [e1, e2]

theorem readTime_isoTime (t : Nat) (ht : t < 86400000) (r : List Char) :
    readTime (isoTime t ++ r) = some (t, r) := by
  unfold isoTime readTime
  simp only [List.append_assoc, List.cons_append]
  rw [readDigits_padDigits_zero 2 (t / 3600000) (by omega)]
  simp only
  rw [readDigits_padDigits_zero 2 (t / 60000 % 60) (by omega)]
  simp only
  rw [readDigits_padDigits_zero 2 (t / 1000 % 60) (by omega)]
  simp only
  rw [readDigits_padDigits_zero 3 (t % 1000) (by omega)]
  have hsum : t / 3600000 * 3600000 + t / 60000 % 60 * 60000 + t / 1000 % 60 * 1000 + t % 1000 = t := by omega
  simp only [Option.bind_some, hsum]
  rw [if_pos (by omega)]

/-- The text of a date is read as that date. -/
theorem parse_toISOString (host : String → Option Date) (d : Date) : parse host d.toISOString = some d := by
  have hlo := d.lower
  have hup := d.upper
  have hms : d.ms / dayMs * dayMs + d.ms % dayMs = d.ms := by unfold dayMs; omega
  have ht0 : 0 ≤ d.ms % dayMs := Int.emod_nonneg _ (by decide)
  have ht1 : (d.ms % dayMs).toNat < 86400000 := by unfold dayMs; omega
  obtain ⟨hy, hm, hd⟩ := civil_bounds (d.ms / dayMs) (by unfold dayMs; omega) (by unfold dayMs; omega)
  have hread : readIso d.toISOString.toList = some d.ms := by
    unfold Date.toISOString readIso
    rw [String.toList_ofList, readDay_isoDay _ hy hm hd]
    simp only
    rw [daysOf_civil, if_pos rfl, readTime_isoTime _ ht1]
    simp only [readZone, Option.map_some, Int.toNat_of_nonneg ht0, Option.some.injEq]
    omega
  unfold parse
  rw [hread]
  exact Date.ofMs?_ms d

/-! ## Calendar arithmetic -/

theorem Date.toISOString_inj {d e : Date} (h : d.toISOString = e.toISOString) : d = e := by
  have hd := parse_toISOString (fun _ => none) d
  rw [h, parse_toISOString] at hd
  exact (Option.some.inj hd).symm

/-- `setUTCDate(getUTCDate() + n)`. -/
def Date.addDays (d : Date) (n : Int) : Option Date := Date.ofMs? (d.ms + n * dayMs)

/-- `setUTCMonth(getUTCMonth() + n)`: the day of the month is kept and carries over
    where the month is shorter. -/
def Date.addMonths (d : Date) (n : Int) : Option Date :=
  let f := civil (d.ms / dayMs)
  let m := f.month - 1 + n
  Date.ofMs? ((daysOf ⟨f.year + m / 12, m % 12 + 1, 1⟩ + f.day - 1) * dayMs + d.ms % dayMs)

end EarnProof.Lib.Calendar
