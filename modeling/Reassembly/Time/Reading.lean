import Reassembly.Time.Timestamp
import Reassembly.Text.Integer

/-!
# Reading timestamps

A timestamp is written as a date `YYYY-MM-DD`, alone or followed by a separator, a time of day
`HH:MM[:SS[.fraction]]` and an optional offset `Z`, `+HH:MM` or `+HHMM`; or as a number of seconds
since 1970-01-01 UTC, with or without a fraction, which counts milliseconds when it lies beyond
`secondsLimit`.

* `Reading`: the three outcomes. A text of the right form may still lie before the year 1 or after
  the year 9999, which are the limits of a timestamp.
* `readTimestamp_of_number`: a number written as a text reads as the number does.
-/
namespace Reassembly.Time

open Reassembly.Text

/-- What reading gives: a timestamp, a value outside of the years 1 to 9999, or no timestamp. -/
inductive Reading where
  | ok (t : Timestamp)
  | outOfRange
  | malformed
deriving DecidableEq, Repr

/-- A number of exactly `width` decimal digits, and the rest. -/
def fixedDigits? (width : Nat) (cs : List Char) : Option (Nat × List Char) :=
  if cs.length < width then none
  else (digits? (cs.take width)).map fun n => (n, cs.drop width)

/-- The given character, and the rest. -/
def mark? (c : Char) : List Char → Option (List Char)
  | [] => none
  | d :: cs => if d = c then some cs else none

/-- `YYYY-MM-DD`, on the calendar. -/
def readDate? (cs : List Char) : Option (Date × List Char) := do
  let (year, cs) ← fixedDigits? 4 cs
  let (month, cs) ← fixedDigits? 2 (← mark? '-' cs)
  let (day, cs) ← fixedDigits? 2 (← mark? '-' cs)
  let date : Date := ⟨year, month, day⟩
  if date.isValid then some (date, cs) else none

/-- A fraction of a second in microseconds: digits after the sixth are cut off. -/
def readFraction? (cs : List Char) : Option (Nat × List Char) :=
  let digits := cs.takeWhile fun c => (digitValue? c).isSome
  (digits? ((digits ++ List.replicate 6 '0').take 6)).bind fun micro =>
    if digits.isEmpty then none else some (micro, cs.drop digits.length)

/-- The part of a time of day that follows the minutes: seconds and microseconds. -/
def readSeconds? : List Char → Option (Nat × Nat × List Char)
  | ':' :: cs => do
    let (second, cs) ← fixedDigits? 2 cs
    if second ≥ 60 then none
    else match cs with
      | '.' :: cs => (readFraction? cs).map fun (micro, cs) => (second, micro, cs)
      | ',' :: cs => (readFraction? cs).map fun (micro, cs) => (second, micro, cs)
      | cs => some (second, 0, cs)
  | cs => some (0, 0, cs)

/-- `HH:MM[:SS[.fraction]]` as seconds since midnight and microseconds. -/
def readClock? (cs : List Char) : Option (Nat × Nat × List Char) := do
  let (hour, cs) ← fixedDigits? 2 cs
  let (minute, cs) ← fixedDigits? 2 (← mark? ':' cs)
  if hour ≥ 24 || minute ≥ 60 then none
  else
    let (second, micro, cs) ← readSeconds? cs
    some (hour * 3600 + minute * 60 + second, micro, cs)

/-- Hours and minutes of an offset, with or without a colon between them. -/
def readOffsetSize? (cs : List Char) : Option Nat := do
  let (hour, cs) ← fixedDigits? 2 cs
  let (minute, cs) ← fixedDigits? 2 ((mark? ':' cs).getD cs)
  if hour ≥ 24 || minute ≥ 60 || !cs.isEmpty then none else some (hour * 60 + minute)

/-- The offset that ends the text; nothing is no offset. A minus may be a hyphen or the sign of
mathematics. -/
def readOffset? : List Char → Option (Option Int)
  | [] => some none
  | ['Z'] => some (some 0)
  | ['z'] => some (some 0)
  | '+' :: cs => (readOffsetSize? cs).map fun n => some (n : Int)
  | '-' :: cs => (readOffsetSize? cs).map fun n => some (-(n : Int))
  | '\u2212' :: cs => (readOffsetSize? cs).map fun n => some (-(n : Int))
  | _ => none

/-- What follows the date: nothing, or a separator, a time of day and an offset. -/
def readAfterDate? : List Char → Option (Nat × Nat × Option Int)
  | [] => some (0, 0, none)
  | c :: cs =>
    if c = 'T' || c = 't' || c = ' ' || c = '_' then do
      let (second, micro, cs) ← readClock? cs
      some (second, micro, ← readOffset? cs)
    else none

/-- Seconds beyond this limit are milliseconds. -/
def secondsLimit : Nat := 20000000000

/-- The years of a timestamp. -/
def inYears (t : Timestamp) : Bool :=
  decide (dayNumber ⟨1, 1, 1⟩ ≤ t.day) && decide (t.day ≤ dayNumber ⟨9999, 12, 31⟩)

def bounded (t : Timestamp) : Reading := if inYears t then .ok t else .outOfRange

/-- The microseconds in the unit that a number counts: a millisecond beyond the limit, else a
second. -/
def unitMicros (beyond : Bool) : Nat := if beyond then 1000 else 1000000

/-- The timestamp so many seconds, or milliseconds, after the start of 1970. -/
def atNumber (n : Int) : Timestamp :=
  .ofInstant (n * unitMicros (decide (secondsLimit < n.natAbs)))

/-- The timestamp that a number of seconds, or of milliseconds, stands for. -/
def ofNumber (n : Int) : Reading := bounded (atNumber n)

/-- The timestamp of a number with a fraction: the whole number below counts the unit, and what is
above it counts in microseconds, to the nearest. The two are taken apart before they are scaled, so
that no digit of a large number is lost. -/
def atFloat (x : Float) : Timestamp :=
  let unit := unitMicros (x.abs > Float.ofNat secondsLimit)
  let whole := x.floor
  .ofInstant (whole.toInt64.toInt * unit + ((x - whole) * Float.ofNat unit).round.toUInt64.toNat)

/-- The timestamp that a number with a fraction stands for. -/
def ofFloat (x : Float) : Reading := bounded (atFloat x)

/-- Decimal digits and the rest. -/
def spanDigits (cs : List Char) : List Char × List Char :=
  (cs.takeWhile fun c => (digitValue? c).isSome, cs.dropWhile fun c => (digitValue? c).isSome)

/-- An optional sign and what follows it. -/
def splitSign : List Char → Bool × List Char
  | '-' :: cs => (true, cs)
  | '+' :: cs => (false, cs)
  | cs => (false, cs)

/-- The power of ten that may follow a fraction; nothing stands for zero. -/
def readPower? : List Char → Option Int
  | [] => some 0
  | c :: cs =>
    if c = 'e' || c = 'E' then
      let (negative, digits) := splitSign cs
      (digits? digits).map fun n => if negative then -(n : Int) else n
    else none

/-- The number `mantissa * 10 ^ exponent`. -/
def decimalFloat (mantissa : Nat) (exponent : Int) : Float :=
  Float.ofScientific mantissa (decide (exponent < 0)) exponent.natAbs

/-- No digits, or digits of a whole number that a signed word of 64 bits can hold. -/
def fitsWord (digits : List Char) : Bool :=
  (digits? digits).all fun n => decide (n < Nat.pow 2 63)

/-- Digits with a point among them, before them or behind them. -/
def readFloat? (cs : List Char) : Option Float := do
  let (negative, cs) := splitSign cs
  let (whole, cs) := spanDigits cs
  let (fraction, cs) := spanDigits (← mark? '.' cs)
  let mantissa ← digits? (whole ++ fraction)
  let x := decimalFloat mantissa ((← readPower? cs) - fraction.length)
  if fitsWord whole then some (if negative then -x else x) else none

/-- An optional sign and decimal digits. -/
def readNumber? (cs : List Char) : Option Int :=
  let (negative, digits) := splitSign cs
  (digits? digits).map fun n => if negative then -(n : Int) else n

/-- The timestamp that a number written as text stands for. -/
def numberTimestamp? (cs : List Char) : Option Timestamp :=
  match readNumber? cs with
  | some n => some (atNumber n)
  | none => (readFloat? cs).map atFloat

/-- A date, with or without a time of day. -/
def readCalendar? (cs : List Char) : Option Timestamp := do
  let (date, cs) ← readDate? cs
  let (second, micro, offset) ← readAfterDate? cs
  some { day := dayNumber date, second, micro, offset }

/-- The year before the year 1. -/
def inYearZero (t : Timestamp) : Bool :=
  decide (dayNumber ⟨0, 1, 1⟩ ≤ t.day) && decide (t.day < dayNumber ⟨1, 1, 1⟩)

/-- A date is read first, a number otherwise. A number of a year that no date can have is no
timestamp at all. -/
def readTimestamp (s : String) : Reading :=
  match readCalendar? s.toList with
  | some t => bounded t
  | none =>
    match numberTimestamp? s.toList with
    | some t => if inYears t || inYearZero t then bounded t else .malformed
    | none => .malformed

theorem readTimestamp_of_number {s : String} {n : Int} {t : Timestamp}
    (hc : readCalendar? s.toList = none) (hn : readNumber? s.toList = some n)
    (ht : ofNumber n = .ok t) : readTimestamp s = .ok t := by
  have h : inYears (atNumber n) = true := by
    cases hy : inYears (atNumber n) with
    | true => rfl
    | false => simp [ofNumber, bounded, hy] at ht
  simp only [readTimestamp, hc, numberTimestamp?, hn, h, Bool.true_or, if_true]
  exact ht

example : readTimestamp "2002-02-03T04:05:06.5+01:00" =
    .ok ⟨11721, 14706, 500000, some 60⟩ := by decide +kernel
example : readTimestamp "2024-01-01" = .ok ⟨19723, 0, 0, none⟩ := by decide +kernel
example : readTimestamp "0000-01-01T00:00:00Z" = .outOfRange := by decide +kernel
example : readTimestamp "1900-02-29T00:00:00Z" = .malformed ∧ readTimestamp "" = .malformed := by
  decide +kernel
example : ofNumber 1700000000000 = ofNumber 1700000000 := by decide +kernel

end Reassembly.Time
