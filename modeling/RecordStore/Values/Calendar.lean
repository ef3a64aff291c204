/-!
Dates, times of day and timestamps. Offsets from UTC are shorter than a day, so the date of a
timestamp moves by one day at most when an offset is taken away.
-/
namespace RecordStore
namespace Calendar

def isLeap (year : Int) : Bool := year % 4 == 0 && (year % 100 != 0 || year % 400 == 0)

def monthLength (year : Int) (month : Nat) : Nat :=
  if month == 2 then if isLeap year then 29 else 28
  else if month == 4 || month == 6 || month == 9 || month == 11 then 30
  else 31

theorem monthLength_pos (year : Int) (month : Nat) : 1 ≤ monthLength year month := by
  simp only [monthLength]
  split
  · split <;> omega
  · split <;> omega

def secondsOfDay : Nat := 86400

end Calendar

/-- A date of the calendar with leap years, before its introduction too. -/
structure Date where
  year : Int
  month : Nat
  day : Nat
  month_mem : 1 ≤ month ∧ month ≤ 12 := by decide
  day_mem : 1 ≤ day ∧ day ≤ Calendar.monthLength year month := by decide
  deriving DecidableEq, Repr

namespace Date

def of? (year : Int) (month day : Nat) : Option Date :=
  if hm : 1 ≤ month ∧ month ≤ 12 then
    if hd : 1 ≤ day ∧ day ≤ Calendar.monthLength year month then
      some ⟨year, month, day, hm, hd⟩
    else none
  else none

/-- The first day of 1970. -/
def epoch : Date := ⟨1970, 1, 1, by decide, by decide⟩

def firstOfMonth (year : Int) (month : Nat) (h : 1 ≤ month ∧ month ≤ 12) : Date :=
  ⟨year, month, 1, h, Nat.le_refl 1, Calendar.monthLength_pos year month⟩

def lastOfMonth (year : Int) (month : Nat) (h : 1 ≤ month ∧ month ≤ 12) : Date :=
  ⟨year, month, Calendar.monthLength year month, h, Calendar.monthLength_pos year month,
    Nat.le_refl _⟩

/-- The day after. -/
def next (d : Date) : Date :=
  if hd : d.day < Calendar.monthLength d.year d.month then
    ⟨d.year, d.month, d.day + 1, d.month_mem, by omega⟩
  else if hm : d.month < 12 then firstOfMonth d.year (d.month + 1) (by omega)
  else firstOfMonth (d.year + 1) 1 (by omega)

/-- The day before. -/
def previous (d : Date) : Date :=
  if hd : 1 < d.day then
    ⟨d.year, d.month, d.day - 1, d.month_mem, by have := d.day_mem; omega⟩
  else if hm : 1 < d.month then lastOfMonth d.year (d.month - 1) (by have := d.month_mem; omega)
  else lastOfMonth (d.year - 1) 12 (by omega)

end Date

/-- A time of day. A leap second counts as more nanoseconds of the second before it. -/
structure TimeOfDay where
  /-- Seconds since midnight. -/
  seconds : Nat
  nanos : Nat
  seconds_lt : seconds < Calendar.secondsOfDay := by decide
  nanos_lt : nanos < 2000000000 := by decide
  deriving DecidableEq, Repr

namespace TimeOfDay

def midnight : TimeOfDay := ⟨0, 0, by decide, by decide⟩

def of? (hour minute second nanos : Nat) : Option TimeOfDay :=
  if h : hour < 24 ∧ minute < 60 ∧ second < 60 ∧ nanos < 2000000000 then
    some ⟨hour * 3600 + minute * 60 + second, nanos, by simp only [Calendar.secondsOfDay]; omega,
      h.2.2.2⟩
  else none

def hour (t : TimeOfDay) : Nat := t.seconds / 3600
def minute (t : TimeOfDay) : Nat := t.seconds / 60 % 60
def second (t : TimeOfDay) : Nat := t.seconds % 60

end TimeOfDay

/-- A date with a time, in a time zone that is told elsewhere. -/
structure Timestamp where
  date : Date
  time : TimeOfDay
  deriving DecidableEq, Repr

/-- How many seconds a time zone is ahead of UTC. -/
structure Offset where
  seconds : Int
  isShort : -86400 < seconds ∧ seconds < 86400 := by decide
  deriving DecidableEq, Repr

namespace Offset

def zero : Offset := ⟨0, by decide⟩

def of? (seconds : Int) : Option Offset :=
  if h : -86400 < seconds ∧ seconds < 86400 then some ⟨seconds, h⟩ else none

end Offset

namespace Timestamp

def epoch : Timestamp := ⟨Date.epoch, TimeOfDay.midnight⟩

/-- The timestamp in UTC that is a timestamp in a time zone. -/
def toUtc (t : Timestamp) (o : Offset) : Timestamp :=
  let s := (t.time.seconds : Int) - o.seconds
  have hs := t.time.seconds_lt
  have ho := o.isShort
  if _h0 : s < 0 then
    ⟨t.date.previous, ⟨(s + 86400).toNat, t.time.nanos,
      by simp only [Calendar.secondsOfDay] at hs ⊢; omega, t.time.nanos_lt⟩⟩
  else if h1 : s < 86400 then
    ⟨t.date, ⟨s.toNat, t.time.nanos, by simp only [Calendar.secondsOfDay] at hs ⊢; omega,
      t.time.nanos_lt⟩⟩
  else
    ⟨t.date.next, ⟨(s - 86400).toNat, t.time.nanos,
      by simp only [Calendar.secondsOfDay] at hs ⊢; omega, t.time.nanos_lt⟩⟩

end Timestamp

/-- A point in time, with the offset in which it is to be shown. -/
structure ZonedTime where
  utc : Timestamp
  offset : Offset
  deriving DecidableEq, Repr

namespace ZonedTime

/-- The point in time that a timestamp of a time zone is. -/
def ofLocal (t : Timestamp) (o : Offset) : ZonedTime := ⟨t.toUtc o, o⟩

end ZonedTime
end RecordStore
