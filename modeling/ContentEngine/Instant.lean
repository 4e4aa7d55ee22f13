import ContentEngine.Text.Digit

/-!
# Instants

A datetime is written as a timestamp (date, any one separator, time, zone) or as a plain date, which
stands for its midnight in UTC. `nanos?` is the instant in nanoseconds since the epoch, `millis?`
the milliseconds that comparisons use: the nanoseconds, cut toward the epoch.

Second 60 stands for the last nanosecond of second 59, and only at the end of a month in UTC.
-/

namespace ContentEngine.Instant
open Text (isDigit digitsValue)

/-! ## Calendar -/

def isLeap (y : Int) : Bool := y % 4 = 0 ∧ (y % 100 ≠ 0 ∨ y % 400 = 0)

def monthLength (y : Int) (m : Nat) : Nat :=
  match m with
  | 2 => if isLeap y then 29 else 28
  | 4 | 6 | 9 | 11 => 30
  | _ => 31

/-- Days from the first of January of year 1 to that of `y`. -/
def daysBeforeYear (y : Int) : Int :=
  let p := y - 1
  365 * p + p / 4 - p / 100 + p / 400

def daysBeforeMonth (y : Int) : Nat → Nat
  | 0 => 0
  | m + 1 => daysBeforeMonth y m + if m = 0 then 0 else monthLength y m

/-- A day of the calendar. -/
structure Date where
  year : Int
  month : Nat
  day : Nat
deriving DecidableEq, Repr

def Date.isValid (d : Date) : Bool :=
  1 ≤ d.month ∧ d.month ≤ 12 ∧ 1 ≤ d.day ∧ d.day ≤ monthLength d.year d.month

/-- Days since the epoch. -/
def Date.toDays (d : Date) : Int :=
  daysBeforeYear d.year + daysBeforeMonth d.year d.month + d.day - 1 - 719162

def Date.nextMonth (d : Date) : Date :=
  if d.month = 12 then ⟨d.year + 1, 1, 1⟩ else ⟨d.year, d.month + 1, 1⟩

/-- Whether a day at most two days away from `d` is the first of a month. -/
def Date.monthStartsAt (d : Date) (days : Int) : Bool :=
  days = (Date.mk d.year d.month 1).toDays ∨ days = d.nextMonth.toDays

/-! ## Reading -/

/-- Exactly `n` digits at the start of a text. -/
def fixedDigits? (n : Nat) (s : List Char) : Option (Nat × List Char) :=
  let ds := s.take n
  if ds.length = n ∧ ds.all isDigit then
    some (digitsValue ds, s.drop n)
  else none

def literal? (c : Char) : List Char → Option (List Char)
  | [] => none
  | d :: s => if d = c then some s else none

def monthDay? (year : Int) (s : List Char) : Option (Date × List Char) := do
  let s ← literal? '-' s
  let (month, s) ← fixedDigits? 2 s
  let s ← literal? '-' s
  let (day, s) ← fixedDigits? 2 s
  let d : Date := ⟨year, month, day⟩
  if d.isValid then some (d, s) else none

/-- A plain date; its year may have a sign. -/
def plainDate? (s : List Char) : Option Date := do
  let (negative, s) :=
    match s with
    | '+' :: s => (false, s)
    | '-' :: s => (true, s)
    | s => (false, s)
  let (year, s) ← fixedDigits? 4 s
  let (d, s) ← monthDay? (if negative then -(year : Int) else year) s
  if s = [] then some d else none

/-- Nanoseconds of a fraction: at least one digit, those after the ninth do not count. -/
def fractionNanos? (s : List Char) : Option (Nat × List Char) :=
  match s with
  | '.' :: s =>
    match s.takeWhile isDigit with
    | [] => none
    | ds =>
      some (digitsValue ((ds ++ List.replicate 9 '0').take 9), s.dropWhile isDigit)
  | s => some (0, s)

/-- The zone's distance from UTC in seconds. -/
def zone? (s : List Char) : Option (Int × List Char) :=
  match s with
  | [] => none
  | c :: s =>
    if c = 'Z' ∨ c = 'z' then some (0, s)
    else if c = '+' ∨ c = '-' then do
      let (hour, s) ← fixedDigits? 2 s
      let s ← literal? ':' s
      let (minute, s) ← fixedDigits? 2 s
      if hour ≤ 23 ∧ minute ≤ 59 then
        let seconds : Int := hour * 3600 + minute * 60
        some (if c = '-' then -seconds else seconds, s)
      else none
    else none

def separator? : List Char → Option (List Char)
  | [] => none
  | c :: s => if c.toNat < 128 then some s else none

def timestampNanos? (s : List Char) : Option Int := do
  let (year, s) ← fixedDigits? 4 s
  let (date, s) ← monthDay? year s
  let s ← separator? s
  let (hour, s) ← fixedDigits? 2 s
  let s ← literal? ':' s
  let (minute, s) ← fixedDigits? 2 s
  let s ← literal? ':' s
  let (second, s) ← fixedDigits? 2 s
  let (nanos, s) ← fractionNanos? s
  let (zone, s) ← zone? s
  if s ≠ [] ∨ 23 < hour ∨ 59 < minute ∨ 60 < second then none
  let seconds : Int :=
    date.toDays * 86400 + hour * 3600 + minute * 60 + min second 59 - zone
  if second = 60 then
    if seconds % 86400 = 86399 ∧ date.monthStartsAt (seconds / 86400 + 1) then
      some (seconds * 1000000000 + 999999999)
    else none
  else some (seconds * 1000000000 + nanos)

def nanos? (text : String) : Option Int :=
  match timestampNanos? text.toList with
  | some n => some n
  | none => (plainDate? text.toList).map fun d => d.toDays * 86400000000000

def millis? (text : String) : Option Int := (nanos? text).map (Int.tdiv · 1000000)

example : millis? "1970-01-01" = some 0 := by decide +kernel
example : millis? "1969-12-31T23:59:59.9995Z" = some 0 := by decide +kernel
example : millis? "2024-02-29T12:00:00+02:00" = some 1709200800000 := by decide +kernel

end ContentEngine.Instant
