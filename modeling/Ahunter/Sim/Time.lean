import Mathlib.Data.Rat.Floor

/-!
# Instants, dates and the market zone

An aware datetime is an instant; what the ledger compares are instants, and
what settlement rules are about are calendar dates in the market's zone. An
instant is an integer number of microseconds and a date an integer number of
days, both from the same origin, so a zone is the offset between the two
clocks. The zone of the simulated market has kept one offset for the whole
period the data covers, and the model takes that as what a zone is.

The one fact later proofs use is that a later instant never has an earlier
date (`Zone.date_mono`): time passing can make a lot eligible and never the
reverse.
-/

namespace Ahunter.Sim

/-- Microseconds since the origin. -/
abbrev Instant := ℤ

/-- Days since the origin, 1970-01-01. -/
abbrev Date := ℤ

/-- Microseconds since local midnight. -/
abbrev Clock := ℤ

def dayMicros : ℤ := 86400000000

structure Zone where
  offset : ℤ
deriving DecidableEq, Repr

/-- `at.astimezone(zone).date()` -/
def Zone.date (z : Zone) (at_ : Instant) : Date := (at_ + z.offset) / dayMicros

/-- `at.astimezone(zone).time()` -/
def Zone.time (z : Zone) (at_ : Instant) : Clock := (at_ + z.offset) % dayMicros

/-- `datetime.combine(day, time, zone)` -/
def Zone.combine (z : Zone) (day : Date) (t : Clock) : Instant :=
  day * dayMicros + t - z.offset

theorem Zone.date_mono (z : Zone) {s t : Instant} (h : s ≤ t) : z.date s ≤ z.date t :=
  Int.ediv_le_ediv (by decide) (add_le_add_left h _)

/-- `at + timedelta(milliseconds=ms)` -/
def plusMillis (at_ : Instant) (ms : ℕ) : Instant := at_ + 1000 * ms

theorem le_plusMillis (at_ : Instant) (ms : ℕ) : at_ ≤ plusMillis at_ ms := by
  have : (0 : ℤ) ≤ 1000 * ms := by positivity
  rw [plusMillis]
  linarith

/-- An instant together with the offset it was written with, as the terms of
a corporate event carry it. -/
structure Stamp where
  instant : Instant
  zone : Zone
deriving DecidableEq, Repr

def Stamp.date (s : Stamp) : Date := s.zone.date s.instant

/-! ## The civil calendar -/

def monthStart (year month : ℤ) : Date :=
  let y := if month ≤ 2 then year - 1 else year
  let m := (month + 9) % 12
  365 * y + y / 4 - y / 100 + y / 400 + (153 * m + 2) / 5 - 719468

def leapYear (year : ℤ) : Bool :=
  (year % 4 == 0 && year % 100 != 0) || year % 400 == 0

/-- `calendar.monthrange(year, month)[1]` -/
def monthDays (year month : ℤ) : ℤ :=
  if month = 2 then (if leapYear year then 29 else 28)
  else if month = 4 ∨ month = 6 ∨ month = 9 ∨ month = 11 then 30
  else 31

def civil (day : Date) : ℤ × ℤ × ℤ :=
  let z := day + 719468
  let era := z / 146097
  let doe := z % 146097
  let yoe := (doe - doe / 1460 + doe / 36524 - doe / 146096) / 365
  let doy := doe - (365 * yoe + yoe / 4 - yoe / 100)
  let mp := (5 * doy + 2) / 153
  let month := if mp < 10 then mp + 3 else mp - 9
  let year := yoe + era * 400
  (if month ≤ 2 then year + 1 else year, month, doy - (153 * mp + 2) / 5 + 1)

/-- `add_months(day, months)` -/
def addMonths (day : Date) (months : ℤ) : Date :=
  let (y, m, d) := civil day
  let index := y * 12 + m - 1 + months
  let year := index / 12
  let month := index % 12 + 1
  monthStart year month + min d (monthDays year month) - 1

-- 29 January 2024 plus one month is the leap day, plus thirteen is the 28th.
example : civil (addMonths (monthStart 2024 1 + 28) 1) = (2024, 2, 29) := by decide
example : civil (addMonths (monthStart 2024 1 + 28) 13) = (2025, 2, 28) := by decide

end Ahunter.Sim
