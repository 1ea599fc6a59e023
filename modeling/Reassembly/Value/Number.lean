import Reassembly.Value.Elements
import Reassembly.Text.Shortest

/-!
# Values in arithmetic

Numbers of any type add up and compare with each other, a truth value counts as one or zero. Texts
and tuples add up by being put together, and a list takes in what a value yields.

* `Value.number?`, `Value.sameNumber`: numbers as mantissa and exponent, and when two are the same.
* `Store.isTrue`: what counts as no.
* `Store.plus`: the sum; `plus_int` for whole numbers.
-/
namespace Reassembly

open Reassembly.Text

namespace Value

/-- The number that a value is, as `mantissa * 2 ^ exponent`. -/
def number? : Value → Option (Int × Int)
  | .bool b => some (if b then 1 else 0, 0)
  | .int n => some (n, 0)
  | .float m e => some (m, e)
  | _ => none

/-- The mantissa of a number at an exponent that is not above its own. -/
def mantissaAt (e : Int) (a : Int × Int) : Int := a.1 * twoTo (a.2 - e).toNat

/-- The two products are one number. -/
def sameNumber (a b : Int × Int) : Bool :=
  let e := min a.2 b.2
  mantissaAt e a == mantissaAt e b

/-- The sum of two floating numbers, as a floating number. -/
def addNumbers (a b : Int × Int) : Int × Int :=
  let e := min a.2 b.2
  rounded (mantissaAt e a + mantissaAt e b) e

/-- The floating number nearest to a number. -/
def floating (a : Int × Int) : Int × Int := rounded a.1 a.2

/-- The sum of two values that are no lists; the first one if they have none. -/
def plus : Value → Value → Value
  | .text a, .text b => .text (a ++ b)
  | .encoded a, .encoded b => .encoded (a ++ b)
  | .tuple a, .tuple b => .tuple (a ++ b)
  | a, b =>
    match a.int?, b.int? with
    | some m, some n => .int (m + n)
    | _, _ =>
      match a.number?, b.number? with
      | some x, some y =>
        let sum := addNumbers (floating x) (floating y)
        .float sum.1 sum.2
      | _, _ => a

theorem plus_int (m n : Int) : plus (.int m) (.int n) = .int (m + n) := rfl

end Value

namespace Store

/-- Null, false, zero and everything empty count as no. -/
def isTrue (s : Store) (v : Value) : Bool :=
  match s.head v with
  | .null => false
  | .bool b => b
  | .int n => n != 0
  | .float m _ => m != 0
  | .text t | .encoded t => t != ""
  | .list items => !items.isEmpty
  | .tuple items => !items.isEmpty
  | .map entries => !entries.isEmpty
  | _ => true

/-- The sum of two values. -/
def plus (s : Store) (a b : Value) : Value :=
  match s.head a with
  | .list items => .list (items ++ s.elements b)
  | a => a.plus (s.head b)

end Store

end Reassembly
