import StagedPipeline.Log.Stamp

/-!
# The calendar of time stamps

Stamps show the date and the time of day of a moment that is given in milliseconds
since the first day of 1970. Years are counted from March on, so that a leap day is
the last day of its year, and in cycles of four hundred years, which all have the
same number of days.
-/
namespace StagedPipeline.Log.Stamp

/-- A day of the calendar. -/
structure Date where
  year : Nat
  month : Nat
  day : Nat
deriving DecidableEq, Repr

/-- The number of days in four hundred years. -/
def cycle : Nat := 146097

/-- The number of days from the first of March of the year zero to the first day of 1970. -/
def epoch : Nat := 719468

/-- The year of a cycle that a day of the cycle lies in. -/
def yearOf (day : Nat) : Nat := (day - day / 1460 + day / 36524 - day / (cycle - 1)) / 365

/-- The first day of a year of a cycle. -/
def firstDay (year : Nat) : Nat := 365 * year + year / 4 - year / 100

/-- The month, counted from March, that a day of a year lies in. -/
def monthOf (day : Nat) : Nat := (5 * day + 2) / 153

/-- The first day of a month that is counted from March. -/
def firstDayOfMonth (month : Nat) : Nat := (153 * month + 2) / 5

/-- The date of a day that is counted from the first day of 1970. -/
def Date.ofDays (n : Nat) : Date :=
  let day := (n + epoch) % cycle
  let year := yearOf day
  let rest := day - firstDay year
  let month := monthOf rest
  { year := 400 * ((n + epoch) / cycle) + year + (if month < 10 then 0 else 1)
    month := if month < 10 then month + 3 else month - 9
    day := rest - firstDayOfMonth month + 1 }

/-- The stamp of a moment. -/
def ofMillis (n : Nat) : Bytes :=
  let seconds := n / 1000
  let d := Date.ofDays (seconds / 86400)
  ofParts d.year d.month d.day (seconds / 3600 % 24) (seconds / 60 % 60) (seconds % 60) (n % 1000)

example : Date.ofDays 0 = ⟨1970, 1, 1⟩ := by decide
example : Date.ofDays 11016 = ⟨2000, 2, 29⟩ := by decide
example : Date.ofDays 47540 = ⟨2100, 2, 28⟩ := by decide
example : Date.ofDays 47541 = ⟨2100, 3, 1⟩ := by decide

end StagedPipeline.Log.Stamp
