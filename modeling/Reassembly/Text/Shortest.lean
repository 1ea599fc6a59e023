/-!
# Floating numbers in decimal

A floating number has a mantissa of at most 53 binary digits and an exponent that is not below
-1074. It is written with the fewest decimal digits that lead back to it: the decimal lies in the
interval of all numbers that round to the floating number, and among those with so few digits it is
the nearest.

* `rounded`: the floating number nearest to any binary number; of two, the even one.
* `shortest`: the decimal with the fewest digits.
* `DecimalFormat.write`: a floating number as text, where the format says when an exponent is
  written and how.
* `has_of_decimal?`: a chosen decimal leads back to the floating number.
-/
namespace Reassembly.Text

/-- The most binary digits of a mantissa. -/
def precision : Nat := 53

/-- The least exponent of a floating number. -/
def leastExponent : Int := -1074

/-- The number of binary digits. -/
def binaryDigits (n : Nat) : Nat := if n = 0 then 0 else n.log2 + 1

/-- The quotient by a power of two, rounded to the nearest whole number; of two, the even one. -/
def halved (n places : Nat) : Nat :=
  let quotient := n / Nat.pow 2 places
  let rest := 2 * (n % Nat.pow 2 places)
  if rest < Nat.pow 2 places ∨ rest = Nat.pow 2 places ∧ quotient % 2 = 0 then quotient
  else quotient + 1

/-- The floating number nearest to `mantissa * 2 ^ exponent`, as mantissa and exponent. -/
def rounded (mantissa exponent : Int) : Int × Int :=
  let places := binaryDigits mantissa.natAbs - precision
  if places = 0 then (mantissa, exponent)
  else
    let size : Int := halved mantissa.natAbs places
    (if mantissa < 0 then -size else size, exponent + places)

/-! ## Fewest digits -/

/-- The number `digits * 10 ^ exponent`. -/
structure Decimal where
  digits : Nat
  exponent : Int
deriving DecidableEq, Repr

/-- Numbers that round to a floating number, all as multiples of one unit fraction. -/
structure Neighbourhood where
  /-- the floating number itself -/
  value : Nat
  /-- the ends -/
  low : Nat
  high : Nat
  /-- the ends round to it too -/
  closed : Bool
  /-- how many units make one -/
  one : Nat

/-- The numbers that round to `mantissa * 2 ^ exponent`, where the mantissa has as many digits as
the least exponent allows. -/
def neighbourhood (mantissa : Nat) (exponent : Int) : Neighbourhood :=
  let step := Nat.pow 2 exponent.toNat
  let isLeast := mantissa = Nat.pow 2 (precision - 1) ∧ leastExponent < exponent
  { value := 4 * mantissa * step
    low := 4 * mantissa * step - (if isLeast then step else 2 * step)
    high := 4 * mantissa * step + 2 * step
    closed := mantissa % 2 == 0
    one := 4 * Nat.pow 2 (-exponent).toNat }

/-- The mantissa and the exponent with as many binary digits as there may be. -/
def widened (mantissa : Nat) (exponent : Int) : Nat × Int :=
  let places := min (precision - binaryDigits mantissa) (exponent - leastExponent).toNat
  (mantissa * Nat.pow 2 places, exponent - places)

def decimalDigits (n : Nat) : List Char := Nat.toDigits 10 n

/-- The exponent of the first decimal digit. -/
def Neighbourhood.place (n : Neighbourhood) : Int :=
  if n.one ≤ n.value then (decimalDigits (n.value / n.one)).length - 1
  else -((decimalDigits (n.one / n.value)).length : Int)

/-- The decimal is one of these numbers. -/
def Neighbourhood.has (n : Neighbourhood) (d : Decimal) : Bool :=
  let size := d.digits * n.one * Nat.pow 10 d.exponent.toNat
  let scale := Nat.pow 10 (-d.exponent).toNat
  if n.closed then decide (n.low * scale ≤ size ∧ size ≤ n.high * scale)
  else decide (n.low * scale < size ∧ size < n.high * scale)

/-- The decimal of the given exponent that is one of these numbers: of two the nearer one, and of
two that are equally near the even one. -/
def Neighbourhood.decimal? (n : Neighbourhood) (exponent : Int) : Option Decimal :=
  let grid := n.one * Nat.pow 10 exponent.toNat
  let value := n.value * Nat.pow 10 (-exponent).toNat
  let below := value / grid
  let rest := 2 * (value % grid)
  let isNearer : Bool := rest < grid || rest == grid && below % 2 == 0
  if n.has ⟨below, exponent⟩ && (isNearer || !n.has ⟨below + 1, exponent⟩) then
    some ⟨below, exponent⟩
  else if n.has ⟨below + 1, exponent⟩ then some ⟨below + 1, exponent⟩
  else none

theorem Neighbourhood.has_of_decimal? {n : Neighbourhood} {exponent : Int} {d : Decimal}
    (h : n.decimal? exponent = some d) : n.has d = true ∧ d.exponent = exponent := by
  simp only [decimal?] at h
  split at h
  · rename_i hb
    cases h
    exact ⟨(Bool.and_eq_true _ _ ▸ hb).1, rfl⟩
  · split at h
    · rename_i hb
      cases h
      exact ⟨hb, rfl⟩
    · cases h

/-- The most decimal digits that are ever needed. -/
def mostDigits : Nat := 17

/-- The decimal with the fewest digits that leads back to `mantissa * 2 ^ exponent`. -/
def shortest (mantissa : Nat) (exponent : Int) : Decimal :=
  let (mantissa, exponent) := widened mantissa exponent
  let n := neighbourhood mantissa exponent
  ((List.range mostDigits).findSome? fun (k : Nat) => n.decimal? (n.place - k)).getD ⟨0, 0⟩

/-! ## As text -/

structure DecimalFormat where
  /-- how many zeros may stand between the point and the first digit -/
  zeros : Nat
  /-- how many digits may stand before the point -/
  whole : Nat
  /-- the mark of an exponent that is not negative -/
  plus : String
  /-- how many digits an exponent has at least -/
  exponentDigits : Nat

namespace DecimalFormat

/-- Digits, the first of them before the point, and the exponent. -/
def scientific (f : DecimalFormat) (digits : List Char) (exponent : Int) : String :=
  let size := decimalDigits exponent.natAbs
  String.ofList (digits.take 1) ++
    (if digits.length ≤ 1 then "" else "." ++ String.ofList (digits.drop 1)) ++
    "e" ++ (if exponent < 0 then "-" else f.plus) ++
    String.ofList (List.replicate (f.exponentDigits - size.length) '0' ++ size)

/-- Digits with the point before digit number `place`. -/
def positional (digits : List Char) (place : Int) : String :=
  if place ≤ 0 then "0." ++ String.ofList (List.replicate (-place).toNat '0' ++ digits)
  else
    let whole := digits.take place.toNat
    let fraction := digits.drop place.toNat
    String.ofList (whole ++ List.replicate (place.toNat - whole.length) '0') ++ "." ++
      (if fraction.isEmpty then "0" else String.ofList fraction)

/-- The number `mantissa * 2 ^ exponent`. -/
def write (f : DecimalFormat) (mantissa exponent : Int) : String :=
  if mantissa = 0 then "0.0"
  else
    let d := shortest mantissa.natAbs exponent
    let all := decimalDigits d.digits
    let place : Int := all.length + d.exponent
    let digits := (all.reverse.dropWhile (· == '0')).reverse
    (if mantissa < 0 then "-" else "") ++
      (if -(f.zeros : Int) ≤ place ∧ place ≤ f.whole then positional digits place
      else f.scientific digits (place - 1))

end DecimalFormat

example : rounded (Int.pow 2 54 + 1) 0 = (Int.pow 2 52, 2) := by decide +kernel
example : shortest 3 (-1) = ⟨15, -1⟩ := by decide +kernel
example : shortest 3602879701896397 (-55) = ⟨1, -1⟩ := by decide +kernel
example : shortest 1 (-1074) = ⟨5, -324⟩ := by decide +kernel

end Reassembly.Text
