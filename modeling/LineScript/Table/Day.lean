import LineScript.Error
import LineScript.Text.Digit

/-!
# Days

A day of the calendar has a year, a month and a day of the month.  It is written with four
digits, two and two.

## Main definitions

* `Day` — the days.
* `Day.daysIn` — the length of a month.
* `Day.check` — whether there is such a day.
* `Day.text` — the written form.
-/

namespace LineScript

/-- A day of the calendar. -/
structure Day where
  /-- The year. -/
  year : Nat
  /-- The month, from one. -/
  month : Nat
  /-- The day of the month, from one. -/
  day : Nat
  deriving DecidableEq, Repr, Inhabited

namespace Day

/-- Whether a year has one day more. -/
def isLeap (year : Nat) : Bool := year % 4 == 0 && (year % 100 != 0 || year % 400 == 0)

/-- How many days a month has. -/
def daysIn (year month : Nat) : Nat :=
  if month == 2 then (if isLeap year then 29 else 28)
  else if [4, 6, 9, 11].contains month then 30
  else 31

/-- The day itself, or why there is no such day. -/
def check (d : Day) : Except Fault Day :=
  if d.year == 0 then .error ⟨.value, "year 0 is out of range"⟩
  else if d.month == 0 || 12 < d.month then .error ⟨.value, "month must be in 1..12"⟩
  else if d.day == 0 || daysIn d.year d.month < d.day then
    .error ⟨.value, "day is out of range for month"⟩
  else .ok d

/-- A number with zeros in front, up to a width. -/
def padded (width n : Nat) : String :=
  let digits := (toString n).toList
  String.ofList (List.replicate (width - digits.length) '0' ++ digits)

/-- The written form of a day. -/
def text (d : Day) : String := padded 4 d.year ++ "-" ++ padded 2 d.month ++ "-" ++ padded 2 d.day

end Day

end LineScript
