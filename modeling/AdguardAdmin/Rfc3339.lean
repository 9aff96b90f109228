import Mathlib.Data.List.Basic
/-!
# Timestamps on the internet

The Gregorian calendar, counted day by day, and the timestamps of RFC 3339: a date, a time with
any number of digits behind the seconds, and an offset from UTC.

* `daysBeforeYear_eq`, `daysBeforeMonth_eq` — the days counted in one go;
* `Timestamp.instant` — what instant a timestamp names, in whole microseconds since the start of
  the year 0 in UTC.
-/

namespace Rfc3339

/-! ## The calendar -/

def isLeap (y : Nat) : Bool := (y % 4 = 0 ∧ y % 100 ≠ 0) ∨ y % 400 = 0

def yearLength (y : Nat) : Nat := if isLeap y then 366 else 365

def monthLength (y m : Nat) : Nat :=
  if m = 2 then (if isLeap y then 29 else 28)
  else if m = 4 ∨ m = 6 ∨ m = 9 ∨ m = 11 then 30
  else 31

/-- The days of the years before `y`, from the year 0. -/
def daysBeforeYear : Nat → Nat
  | 0 => 0
  | y + 1 => daysBeforeYear y + yearLength y

/-- The days of the months up to `m`. -/
def daysThrough (y : Nat) : Nat → Nat
  | 0 => 0
  | m + 1 => daysThrough y m + monthLength y (m + 1)

/-- The days before a date. -/
def daysBefore (y m d : Nat) : Nat := daysBeforeYear y + daysThrough y (m - 1) + (d - 1)

/-- **The years in one go**: a leap year in four, but for centuries, of which one in four is. -/
theorem daysBeforeYear_eq (y : Nat) :
    daysBeforeYear (y + 1) + y / 100 = 366 + y * 365 + y / 4 + y / 400 := by
  induction y with
  | zero => rfl
  | succ y ih =>
      rw [daysBeforeYear, yearLength, isLeap]
      by_cases hleap : ((y + 1) % 4 = 0 ∧ (y + 1) % 100 ≠ 0) ∨ (y + 1) % 400 = 0
      · rw [if_pos (by simpa using hleap)]
        omega
      · rw [if_neg (by simpa using hleap)]
        omega

/-- The days before the months of a common year. -/
def monthStarts : List Nat := [0, 31, 59, 90, 120, 151, 181, 212, 243, 273, 304, 334]

/-- The days before a month are counted by the table, and one more after a leap day. -/
theorem daysThrough_eq (y : Nat) {m : Nat} (hm : m < 12) :
    daysThrough y m = monthStarts.getD m 0 + (if 2 ≤ m ∧ isLeap y = true then 1 else 0) := by
  have hmonths : ∀ leap : Bool, isLeap y = leap → daysThrough y m =
      monthStarts.getD m 0 + (if 2 ≤ m ∧ leap = true then 1 else 0) := by
    intro leap hleap
    match m, hm with
    | 0, _ | 1, _ | 2, _ | 3, _ | 4, _ | 5, _ | 6, _ | 7, _ | 8, _ | 9, _ | 10, _ | 11, _ =>
        cases leap <;> simp [daysThrough, monthLength, monthStarts, hleap]
  exact hmonths _ rfl

/-! ## Timestamps -/

inductive Zone where
  | utc (capital : Bool)
  | offset (plus : Bool) (hours minutes : Nat)
  deriving DecidableEq, Repr

structure Timestamp where
  year : Nat
  month : Nat
  day : Nat
  separator : Char
  hour : Nat
  minute : Nat
  second : Nat
  fraction : List (Fin 10)
  zone : Zone
  year_le : year ≤ 9999
  month_mem : 1 ≤ month ∧ month ≤ 12
  day_mem : 1 ≤ day ∧ day ≤ monthLength year month
  separator_mem : separator ∈ ['T', 't', ' ']
  hour_le : hour ≤ 23
  minute_le : minute ≤ 59
  /-- A leap second has the number 60. -/
  second_le : second ≤ 60
  zone_le : ∀ plus hours minutes, zone = .offset plus hours minutes → hours ≤ 23 ∧ minutes ≤ 59
  deriving DecidableEq, Repr

/-- A number of two digits. -/
def two (n : Nat) : List Char := [(n / 10).digitChar, (n % 10).digitChar]

/-- A number of four digits. -/
def four (n : Nat) : List Char := two (n / 100) ++ two (n % 100)

namespace Timestamp

variable (t : Timestamp)

def dateTimeText : List Char :=
  four t.year ++ '-' :: (two t.month ++ '-' :: (two t.day ++ t.separator ::
    (two t.hour ++ ':' :: (two t.minute ++ ':' :: two t.second))))

def fractionText : List Char :=
  if t.fraction = [] then [] else '.' :: t.fraction.map fun (d : Fin 10) => d.val.digitChar

def zoneText : Zone → List Char
  | .utc capital => [if capital then 'Z' else 'z']
  | .offset plus hours minutes =>
      (if plus then '+' else '-') :: (two hours ++ ':' :: two minutes)

def text : List Char := t.dateTimeText ++ t.fractionText ++ zoneText t.zone

/-- The microseconds of a fraction of a second; what is less is left out. -/
def micros (fraction : List (Fin 10)) : Nat :=
  (fraction.take 6 ++ List.replicate (6 - fraction.length) 0).foldl
    (fun (n : Nat) (d : Fin 10) => 10 * n + d.val) 0

/-- The offset from UTC in seconds. -/
def offsetSeconds : Zone → Int
  | .utc _ => 0
  | .offset plus hours minutes =>
      (if plus then 1 else -1) * (hours * 3600 + minutes * 60)

/-- The instant in microseconds. -/
def instant : Int :=
  ((daysBefore t.year t.month t.day * 86400 + t.hour * 3600 + t.minute * 60 + t.second : Nat) -
    offsetSeconds t.zone) * 1000000 + micros t.fraction

end Timestamp

end Rfc3339
