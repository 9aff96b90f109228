import AdguardAdmin.IpLiterals
import AdguardAdmin.Rfc3339
import Mathlib.Tactic.Ring
/-!
# Python's reading of times

`datetime.fromisoformat` for a date and a time with hours, minutes and seconds, and what it makes
of an RFC 3339 timestamp.  The other forms that it reads (dates alone, weeks, times without
punctuation, the hour 24) are a parameter.

A time is counted in microseconds since the start of the year 1 in UTC; what Python cannot hold
is a year 0 and a leap second.
-/

namespace PyTime

open IpLiterals Rfc3339

/-! ## Reading -/

/-- A number of `k` digits. -/
def readNumber (k : Nat) (cs : List Char) : Option (Nat × List Char) :=
  if k ≤ cs.length then (number? decDigit? 10 (cs.take k)).map fun n => (n, cs.drop k) else none

def expect (c : Char) : List Char → Option (List Char)
  | [] => none
  | d :: rest => if d = c then some rest else none

/-- The digits behind a point, as microseconds; there may be more of them. -/
def readFraction : List Char → Option (Nat × List Char)
  | '.' :: rest =>
      let digits := rest.takeWhile fun c => (decDigit? c).isSome
      if digits = [] then none
      else (number? decDigit? 10 (digits.take 6)).map fun n =>
        (n * 10 ^ (6 - digits.length), rest.dropWhile fun c => (decDigit? c).isSome)
  | rest => some (0, rest)

/-- An offset from UTC in seconds, if there is one. -/
def readOffset : List Char → Option (Option Int)
  | [] => some none
  | sign :: rest =>
      if sign = '+' ∨ sign = '-' then do
        let (hours, rest) ← readNumber 2 rest
        let rest ← expect ':' rest
        let (minutes, rest) ← readNumber 2 rest
        if rest = [] ∧ minutes ≤ 59 then
          some (some ((if sign = '+' then 1 else -1) * (hours * 3600 + minutes * 60)))
        else none
      else none

structure Fields where
  year : Nat
  month : Nat
  day : Nat
  hour : Nat
  minute : Nat
  second : Nat
  micros : Nat
  offset : Option Int
  deriving DecidableEq, Repr

/-- A date, any character, and a time. -/
def readFields (cs : List Char) : Option Fields := do
  let (year, cs) ← readNumber 4 cs
  let cs ← expect '-' cs
  let (month, cs) ← readNumber 2 cs
  let cs ← expect '-' cs
  let (day, cs) ← readNumber 2 cs
  let cs ← cs.tail?
  let (hour, cs) ← readNumber 2 cs
  let cs ← expect ':' cs
  let (minute, cs) ← readNumber 2 cs
  let cs ← expect ':' cs
  let (second, cs) ← readNumber 2 cs
  let (micros, cs) ← readFraction cs
  let offset ← readOffset cs
  return ⟨year, month, day, hour, minute, second, micros, offset⟩

/-! ## Times -/

/-- What a `datetime` can hold. -/
def Fields.Valid (f : Fields) : Prop :=
  1 ≤ f.year ∧ (1 ≤ f.month ∧ f.month ≤ 12) ∧ (1 ≤ f.day ∧ f.day ≤ monthLength f.year f.month) ∧
    f.hour ≤ 23 ∧ f.minute ≤ 59 ∧ f.second ≤ 59 ∧ ∀ s ∈ f.offset, -86400 < s ∧ s < 86400

instance (f : Fields) : Decidable f.Valid :=
  inferInstanceAs (Decidable (_ ∧ _ ∧ _ ∧ _ ∧ _ ∧ _ ∧ _))

/-- `_days_before_year` -/
def daysBeforeYear (year : Nat) : Int :=
  let y : Int := year - 1
  y * 365 + y / 4 - y / 100 + y / 400

/-- `_days_before_month` -/
def daysBeforeMonth (year month : Nat) : Nat :=
  monthStarts.getD (month - 1) 0 + if 2 < month ∧ isLeap year = true then 1 else 0

/-- `_ymd2ord`: the first of January of the year 1 is day 1. -/
def ordinal (year month day : Nat) : Int := daysBeforeYear year + daysBeforeMonth year month + day

/-- The instant; without an offset, the time is one in UTC. -/
def Fields.instant (f : Fields) : Int :=
  ((ordinal f.year f.month f.day - 1) * 86400 + f.hour * 3600 + f.minute * 60 + f.second -
    f.offset.getD 0) * 1000000 + f.micros

/-- `datetime.fromisoformat`, a time without an offset being one in UTC. -/
def fromisoformat (otherForms : List Char → Option Int) (cs : List Char) : Option Int :=
  match readFields cs with
  | some f =>
      if f.hour = 24 then otherForms cs else if f.Valid then some f.instant else none
  | none => otherForms cs

/-! ## Timestamps -/

/-- What Python can hold of timestamps. -/
def Holds (t : Timestamp) : Prop := 1 ≤ t.year ∧ t.second ≤ 59

/-- The length of the year 0 in microseconds. -/
def yearZero : Int := 366 * 86400 * 1000000

/-- The ordinal of a date counts the days before it. -/
theorem ordinal_eq {y m d : Nat} (hy : 1 ≤ y) (hm : 1 ≤ m ∧ m ≤ 12) (hd : 1 ≤ d) :
    ordinal y m d - 1 = (daysBefore y m d : Int) - 366 := by
  obtain ⟨k, rfl⟩ : ∃ k, y = k + 1 := ⟨y - 1, by omega⟩
  have hyears := daysBeforeYear_eq k
  have hmonths := daysThrough_eq (k + 1) (by omega : m - 1 < 12)
  have hmonth : daysBeforeMonth (k + 1) m = daysThrough (k + 1) (m - 1) := by
    rw [hmonths, daysBeforeMonth]
    congr 1
    have hiff : (2 < m ∧ isLeap (k + 1) = true) ↔ (2 ≤ m - 1 ∧ isLeap (k + 1) = true) :=
      and_congr_left fun _ => by omega
    simp only [hiff]
  have hyear : PyTime.daysBeforeYear (k + 1) = (Rfc3339.daysBeforeYear (k + 1) : Int) - 366 := by
    rw [PyTime.daysBeforeYear]
    omega
  rw [ordinal, hyear, hmonth, daysBefore]
  omega

/-! ### Reading the text of a timestamp -/

/-- Digits are read as the number that they stand for. -/
theorem number?_digits {digits : List Nat} (h : ∀ d ∈ digits, d < 10) :
    number? decDigit? 10 (digits.map Nat.digitChar) =
      some (digits.foldl (fun n d => 10 * n + d) 0) := by
  have hread : (digits.map Nat.digitChar).mapM decDigit? = some digits := by
    induction digits with
    | nil => rfl
    | cons d digits ih =>
        obtain ⟨hd, hrest⟩ := List.forall_mem_cons.mp h
        rw [List.map_cons, List.mapM_cons, readsDigits_dec d hd, ih hrest]
        rfl
  rw [number?, hread]
  rfl

/-- Digits are read as their number. -/
theorem readNumber_digits {digits : List Nat} (h : ∀ d ∈ digits, d < 10) (rest : List Char) :
    readNumber digits.length (digits.map Nat.digitChar ++ rest) =
      some (digits.foldl (fun n d => 10 * n + d) 0, rest) := by
  have htake : (digits.map Nat.digitChar ++ rest).take digits.length = digits.map Nat.digitChar := by
    rw [List.take_left' (by simp)]
  have hdrop : (digits.map Nat.digitChar ++ rest).drop digits.length = rest := by
    rw [List.drop_left' (by simp)]
  rw [readNumber, if_pos (by simp), htake, hdrop, number?_digits h]
  rfl

/-- Two digits are read back. -/
theorem readNumber_two {n : Nat} (hn : n < 100) (rest : List Char) :
    readNumber 2 (two n ++ rest) = some (n, rest) := by
  have hdigits : ∀ d ∈ [n / 10, n % 10], d < 10 := by
    intro d hd
    simp only [List.mem_cons, List.not_mem_nil, or_false] at hd
    omega
  have hread := readNumber_digits hdigits rest
  have hvalue : [n / 10, n % 10].foldl (fun n d => 10 * n + d) 0 = n := by
    simp only [List.foldl_cons, List.foldl_nil]
    omega
  rw [hvalue] at hread
  exact hread

/-- Four printed digits are read back. -/
theorem readNumber_four {n : Nat} (hn : n < 10000) (rest : List Char) :
    readNumber 4 (four n ++ rest) = some (n, rest) := by
  have hdigits : ∀ d ∈ [n / 100 / 10, n / 100 % 10, n % 100 / 10, n % 100 % 10], d < 10 := by
    intro d hd
    simp only [List.mem_cons, List.not_mem_nil, or_false] at hd
    omega
  have hread := readNumber_digits hdigits rest
  have hvalue : [n / 100 / 10, n / 100 % 10, n % 100 / 10, n % 100 % 10].foldl
      (fun n d => 10 * n + d) 0 = n := by
    simp only [List.foldl_cons, List.foldl_nil]
    omega
  rw [hvalue] at hread
  exact hread

/-- The text of an offset, `Z` being spelled out. -/
def offsetText : Zone → List Char
  | .utc _ => ['+', '0', '0', ':', '0', '0']
  | .offset plus hours minutes => Timestamp.zoneText (.offset plus hours minutes)

/-- An offset is read with its sign. -/
theorem readOffset_sign {sign : Char} (hsign : sign = '+' ∨ sign = '-') {hours minutes : Nat}
    (hhours : hours ≤ 23) (hminutes : minutes ≤ 59) :
    readOffset (sign :: (two hours ++ ':' :: two minutes)) =
      some (some ((if sign = '+' then (1 : Int) else -1) * (hours * 3600 + minutes * 60))) := by
  have hfirst := readNumber_two (by omega : hours < 100) (':' :: two minutes)
  have hlast := readNumber_two (by omega : minutes < 100) []
  rw [List.append_nil] at hlast
  unfold readOffset
  simp [if_pos hsign, hfirst, expect, hlast, hminutes]

/-- A printed offset is read back, and so is its absence. -/
theorem readOffset_offsetText (t : Timestamp) :
    readOffset (offsetText t.zone) = some (some (Timestamp.offsetSeconds t.zone)) := by
  have hzone := t.zone_le
  cases hz : t.zone with
  | utc capital => rfl
  | offset plus hours minutes =>
      obtain ⟨hhours, hminutes⟩ := hzone plus hours minutes hz
      cases plus with
      | true => exact readOffset_sign (.inl rfl) hhours hminutes
      | false => exact readOffset_sign (.inr rfl) hhours hminutes

/-- An offset starts with a sign. -/
theorem offsetText_head (zone : Zone) :
    ∃ sign rest, offsetText zone = sign :: rest ∧ (sign = '+' ∨ sign = '-') := by
  cases zone with
  | utc capital => exact ⟨'+', _, rfl, .inl rfl⟩
  | offset plus hours minutes =>
      cases plus with
      | true => exact ⟨'+', _, rfl, .inl rfl⟩
      | false => exact ⟨'-', _, rfl, .inr rfl⟩

/-- Zeros behind digits multiply the number. -/
theorem foldl_zeros (digits : List Nat) (k n : Nat) :
    (digits ++ List.replicate k 0).foldl (fun n d => 10 * n + d) n =
      digits.foldl (fun n d => 10 * n + d) n * 10 ^ k := by
  rw [List.foldl_append]
  generalize digits.foldl (fun n d => 10 * n + d) n = m
  induction k generalizing m with
  | zero => simp
  | succ k ih =>
      rw [List.replicate_succ, List.foldl_cons, ih, pow_succ]
      ring

/-- The digits of a fraction, cut to six and filled up to six, are its microseconds. -/
theorem micros_eq (fraction : List (Fin 10)) :
    Timestamp.micros fraction =
      ((fraction.map Fin.val).take 6).foldl (fun n d => 10 * n + d) 0 *
        10 ^ (6 - fraction.length) := by
  rw [← foldl_zeros, ← List.map_take, Timestamp.micros]
  have hzeros : List.replicate (6 - fraction.length) 0 =
      (List.replicate (6 - fraction.length) (0 : Fin 10)).map Fin.val := by
    rw [List.map_replicate]
    rfl
  rw [hzeros, ← List.map_append, List.foldl_map]

/-- A fraction is read to the microsecond. -/
theorem readFraction_fractionText (t : Timestamp) :
    readFraction (t.fractionText ++ offsetText t.zone) =
      some (Timestamp.micros t.fraction, offsetText t.zone) := by
  obtain ⟨sign, rest, htext, hsign⟩ := offsetText_head t.zone
  have hstop : (decDigit? sign).isSome = false := by
    rcases hsign with rfl | rfl
    · rfl
    · rfl
  rw [Timestamp.fractionText, htext]
  split
  · next hnil =>
    rw [hnil]
    rcases hsign with rfl | rfl
    · rfl
    · rfl
  · next hne =>
    have hmap : (t.fraction.map fun (d : Fin 10) => d.val.digitChar) =
        (t.fraction.map Fin.val).map Nat.digitChar := by
      rw [List.map_map]
      rfl
    have hdigit : ∀ c ∈ (t.fraction.map Fin.val).map Nat.digitChar,
        (decDigit? c).isSome = true := by
      intro c hc
      obtain ⟨d, hd, rfl⟩ := List.mem_map.mp hc
      obtain ⟨f, -, rfl⟩ := List.mem_map.mp hd
      rw [readsDigits_dec f.val f.isLt]
      rfl
    have hvalue : ∀ d ∈ (t.fraction.map Fin.val).take 6, d < 10 := by
      intro d hd
      obtain ⟨f, -, rfl⟩ := List.mem_map.mp (List.mem_of_mem_take hd)
      exact f.isLt
    have htake : ((t.fraction.map Fin.val).map Nat.digitChar ++ sign :: rest).takeWhile
        (fun c => (decDigit? c).isSome) = (t.fraction.map Fin.val).map Nat.digitChar := by
      rw [List.takeWhile_append_of_pos hdigit, List.takeWhile_cons, if_neg (by simp [hstop]),
        List.append_nil]
    have hdrop : ((t.fraction.map Fin.val).map Nat.digitChar ++ sign :: rest).dropWhile
        (fun c => (decDigit? c).isSome) = sign :: rest := by
      rw [List.dropWhile_append_of_pos hdigit, List.dropWhile_cons, if_neg (by simp [hstop])]
    rw [hmap, List.cons_append, readFraction, htake, hdrop, if_neg (by simpa using hne),
      ← List.map_take, number?_digits hvalue, micros_eq]
    simp

/-- The fields of a timestamp are read back. -/
theorem readFields_timestamp (t : Timestamp) :
    readFields (t.dateTimeText ++ t.fractionText ++ offsetText t.zone) =
      some ⟨t.year, t.month, t.day, t.hour, t.minute, t.second, Timestamp.micros t.fraction,
        some (Timestamp.offsetSeconds t.zone)⟩ := by
  have hmonth := t.month_mem
  have hday : t.day < 100 := by
    have hle := t.day_mem.2
    have hlength : monthLength t.year t.month ≤ 31 := by
      rw [monthLength]
      split_ifs <;> omega
    omega
  rw [List.append_assoc, Timestamp.dateTimeText]
  simp only [List.append_assoc, List.cons_append]
  simp only [readFields, readNumber_four (Nat.lt_succ_of_le t.year_le), expect,
    readNumber_two (by omega : t.month < 100), readNumber_two hday,
    readNumber_two (Nat.lt_of_le_of_lt t.hour_le (by decide : 23 < 100)),
    readNumber_two (Nat.lt_of_le_of_lt t.minute_le (by decide : 59 < 100)),
    readNumber_two (Nat.lt_of_le_of_lt t.second_le (by decide : 60 < 100)),
    readFraction_fractionText, readOffset_offsetText, Option.bind_eq_bind, Option.bind_some,
    List.tail?_cons, if_true, pure]

/-- **A timestamp is read as its instant**, if a `datetime` can hold it. -/
theorem fromisoformat_timestamp (otherForms : List Char → Option Int) {t : Timestamp}
    (h : Holds t) :
    fromisoformat otherForms (t.dateTimeText ++ t.fractionText ++ offsetText t.zone) =
      some (t.instant - yearZero) := by
  obtain ⟨hyear, hsecond⟩ := h
  have hhour := t.hour_le
  have hoffset : -86400 < Timestamp.offsetSeconds t.zone ∧
      Timestamp.offsetSeconds t.zone < 86400 := by
    have hzone := t.zone_le
    cases hz : t.zone with
    | utc capital => simp [Timestamp.offsetSeconds]
    | offset plus hours minutes =>
        obtain ⟨hhours, hminutes⟩ := hzone plus hours minutes hz
        cases plus with
        | true =>
            simp only [Timestamp.offsetSeconds, if_true]
            omega
        | false =>
            simp only [Timestamp.offsetSeconds, Bool.false_eq_true, if_false]
            omega
  rw [fromisoformat, readFields_timestamp]
  have hordinal := ordinal_eq hyear t.month_mem t.day_mem.1
  simp only
  rw [if_neg (by omega), if_pos ⟨hyear, t.month_mem, t.day_mem, hhour, t.minute_le, hsecond,
    fun s hs => by cases hs; exact hoffset⟩]
  simp only [Fields.instant, hordinal, Timestamp.instant, yearZero, Option.getD_some]
  congr 1
  push_cast
  ring

/-- What a `datetime` cannot hold is not read. -/
theorem fromisoformat_eq_none (otherForms : List Char → Option Int) {t : Timestamp}
    (h : ¬ Holds t) :
    fromisoformat otherForms (t.dateTimeText ++ t.fractionText ++ offsetText t.zone) = none := by
  have hhour := t.hour_le
  rw [fromisoformat, readFields_timestamp]
  simp only
  rw [if_neg (by omega), if_neg]
  intro hvalid
  exact h ⟨hvalid.1, hvalid.2.2.2.2.2.1⟩

end PyTime
