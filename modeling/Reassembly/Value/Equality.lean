import Reassembly.Label
import Reassembly.Value.Number

/-!
# Equality by value

Two values are equal if they mean the same: maps do not mind the order of their entries, numbers
their type, labels their letter case, and timestamps with offsets their clocks. Objects are equal if
they are of one kind and all their fields are. An accumulator is equal to itself only, so this
compares values in which accumulators have been left as references.

* `Value.agrees`: the comparison of values written out in full.
* `Store.agrees`: of values in a store.
-/
namespace Reassembly

namespace Value

mutual
def agrees : Value → Value → Bool
  | .list a, .list b => agreesAll a b
  | .tuple a, .tuple b => agreesAll a b
  | .map a, .map b => a.length == b.length && agreesWithin b a
  | .object .role [.text a], .object .role [.text b] => sameLabel a b
  | .object .finish [.text a], .object .finish [.text b] => sameLabel a b
  | .object k [.text a], .text b => k.isFrozen && sameLabel a b
  | .text a, .object k [.text b] => k.isFrozen && sameLabel a b
  | .object k a, .object l b => k == l && agreesAll a b
  | .time a, .time b => a.same b
  | .text a, .text b => a == b
  | .encoded a, .encoded b => a == b
  | .null, .null => true
  | .shared a, .shared b => a == b
  | v, w =>
    match v.number?, w.number? with
    | some a, some b => sameNumber a b
    | _, _ => false

def agreesAll : List Value → List Value → Bool
  | [], [] => true
  | a :: as, b :: bs => agrees a b && agreesAll as bs
  | _, _ => false

/-- Every entry of the second list has a partner of the same key in the first. -/
def agreesWithin (es : List (Key × Value)) : List (Key × Value) → Bool
  | [] => true
  | (k, v) :: fs =>
    (match Entries.get? k es with
      | some w => agrees v w
      | none => false) && agreesWithin es fs
end

end Value

namespace Store

/-- Follows references up to `depth` deep, but not those to accumulators. -/
def expandPlain (s : Store) : Nat → Value → Value
  | 0, v => v.bind fun _ => .null
  | depth + 1, v =>
    v.bind fun ref =>
      if s.kind? (.shared ref) = some .accumulator then .shared ref
      else s.expandPlain depth (s.cell ref)

def agrees (s : Store) (v w : Value) : Bool :=
  (s.expandPlain s.size v).agrees (s.expandPlain s.size w)

/-- The same object, or the same plain value, of two values in a store: everything in it that can be
shared is a reference. -/
def isSame (v w : Value) : Bool := decide (v = w)

end Store

end Reassembly
