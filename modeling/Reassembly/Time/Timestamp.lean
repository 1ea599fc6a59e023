import Reassembly.Time.Calendar

/-!
# Timestamps

A timestamp is what a wall clock shows, to the microsecond, with or without the clock's offset
from UTC.

* `same`: two timestamps with offsets agree if they name one instant; without offsets, if the clocks
  show the same; one with and one without never agree.
* `part?`: year, month, day and so on by name.
* `iso`: the text `YYYY-MM-DDTHH:MM:SS`, a fraction of six digits unless it is zero, and the offset.
-/
namespace Reassembly.Time

structure Timestamp where
  /-- days since 1970-01-01 on the wall clock -/
  day : Int
  /-- seconds since midnight on the wall clock -/
  second : Nat
  micro : Nat
  /-- minutes that the clock is ahead of UTC -/
  offset : Option Int
deriving DecidableEq, Repr

namespace Timestamp

/-- Microseconds on the wall clock since 1970-01-01T00:00:00. -/
def wall (t : Timestamp) : Int := (t.day * 86400 + t.second) * 1000000 + t.micro

/-- Microseconds since 1970-01-01T00:00:00 UTC, if the offset is known. -/
def instant? (t : Timestamp) : Option Int :=
  t.offset.map fun minutes => t.wall - minutes * 60000000

def same (s t : Timestamp) : Bool :=
  match s.instant?, t.instant? with
  | some a, some b => a == b
  | none, none => s.wall == t.wall
  | _, _ => false

/-- The clock in UTC so many microseconds after 1970-01-01T00:00:00 UTC. -/
def ofInstant (micros : Int) : Timestamp :=
  let seconds := micros / 1000000
  { day := seconds / 86400
    second := (seconds % 86400).toNat
    micro := (micros % 1000000).toNat
    offset := some 0 }

/-- A number in decimal digits, with zeros in front up to the given width. -/
def padded (width n : Nat) : String :=
  let digits := Nat.toDigits 10 n
  String.ofList (List.replicate (width - digits.length) '0' ++ digits)

/-- The offset as a sign, hours and minutes. -/
def offsetText (minutes : Int) : String :=
  (if minutes < 0 then "-" else "+") ++ padded 2 (minutes.natAbs / 60) ++ ":" ++
    padded 2 (minutes.natAbs % 60)

/-- Date and time of day with a mark between them, without the offset. -/
def wallText (mark : String) (t : Timestamp) : String :=
  let date := dateOfDay t.day
  padded 4 date.year.toNat ++ "-" ++ padded 2 date.month ++ "-" ++ padded 2 date.day ++ mark ++
    padded 2 (t.second / 3600) ++ ":" ++ padded 2 (t.second / 60 % 60) ++ ":" ++
    padded 2 (t.second % 60) ++ (if t.micro = 0 then "" else "." ++ padded 6 t.micro)

def iso (t : Timestamp) : String :=
  t.wallText "T" ++ (t.offset.map offsetText).getD ""

/-- As `iso`, with a blank between date and time of day. -/
def spaced (t : Timestamp) : String :=
  t.wallText " " ++ (t.offset.map offsetText).getD ""

/-- As `iso`, with `Z` for an offset of zero. -/
def isoZ (t : Timestamp) : String :=
  if t.offset = some 0 then t.wallText "T" ++ "Z" else t.iso

/-- The timestamp as a call with its parts: no zero seconds or microseconds at the end, and the
offset in seconds. -/
def literal (t : Timestamp) : String :=
  let date := dateOfDay t.day
  let clock : List Nat :=
    if t.micro ≠ 0 then [t.second % 60, t.micro]
    else if t.second % 60 ≠ 0 then [t.second % 60]
    else []
  let parts := [date.year.toNat, date.month, date.day, t.second / 3600, t.second / 60 % 60] ++ clock
  let zone (minutes : Int) : String := "tzinfo=TzInfo(" ++ toString (minutes * 60) ++ ")"
  "datetime.datetime(" ++
    ", ".intercalate (parts.map toString ++ (t.offset.map zone).toList) ++ ")"

/-- A part of date or time of day by its name. -/
def part? (t : Timestamp) (name : String) : Option Nat :=
  let date := dateOfDay t.day
  [("year", date.year.toNat), ("month", date.month), ("day", date.day), ("hour", t.second / 3600),
    ("minute", t.second / 60 % 60), ("second", t.second % 60), ("microsecond", t.micro),
    ("fold", 0)].lookup name

theorem same_refl (t : Timestamp) : t.same t = true := by
  unfold same
  cases h : t.instant? <;> simp

theorem instant?_ofInstant (micros : Int) : (ofInstant micros).instant? = some micros := by
  simp only [ofInstant, instant?, wall, Option.map_some, Option.some.injEq]
  omega

end Timestamp

example : (Timestamp.ofInstant 1700000000000000).isoZ = "2023-11-14T22:13:20Z" := by decide +kernel
example : (Timestamp.ofInstant (-1)).iso = "1969-12-31T23:59:59.999999+00:00" := by decide +kernel

end Reassembly.Time
