import Reassembly.Entries
import Reassembly.Time.Timestamp

/-!
# Values

A value is plain data, an object of one of the kinds below, or a *shared* value: a reference to a
cell of a store. Lists, tuples, maps, objects and timestamps can be shared; two references to one
cell are one object, while values written out in full are told apart by their contents only.

* `Value.bind`: replaces every shared value by what a function gives for it.
* `Value.bind_bind`: doing so twice is doing it once with the composed function.
* `Value.refs`: the cells that a value refers to.
-/
namespace Reassembly

open Reassembly.Time

/-- What an object is. -/
inductive Kind where
  /-- a content item, opaque unless it is of one of the next three kinds -/
  | content
  /-- a piece of text for the reader -/
  | text
  /-- a piece of the model's reasoning -/
  | reasoning
  /-- counters that come along in a stream -/
  | usage
  /-- an annotation of a content item -/
  | note
  /-- an annotation that points at a source -/
  | citation
  /-- a region that an annotation applies to -/
  | region
  /-- a region given by character positions -/
  | span
  /-- token counters -/
  | details
  | role
  /-- the reason why a model stopped -/
  | finish
  | message
  | update
  | response
  | session
  /-- a response in progress -/
  | accumulator
deriving DecidableEq, Repr, Inhabited

/-- An object of the first kind is also one of the second. -/
def Kind.isA : Kind → Kind → Bool
  | .text, .content | .reasoning, .content | .usage, .content => true
  | .citation, .note | .span, .region => true
  | k, l => k == l

/-- The power of two, as a number to scale mantissas by. -/
def twoTo (n : Nat) : Int := Int.pow 2 n

/-- Plain data, an object, or a reference to a cell of a store. -/
inductive Value where
  | null
  | bool (b : Bool)
  | int (n : Int)
  /-- the number `mantissa * 2 ^ exponent` -/
  | float (mantissa exponent : Int)
  | text (s : String)
  /-- a text that is given as its bytes -/
  | encoded (s : String)
  | time (t : Timestamp)
  | list (items : List Value)
  /-- a list that never changes -/
  | tuple (items : List Value)
  | map (entries : List (Key × Value))
  /-- an object with the values of its fields, in the order in which its kind declares them -/
  | object (kind : Kind) (fields : List Value)
  | shared (ref : Nat)
deriving Repr, Inhabited

namespace Value

/-! ## Replacing shared values -/

mutual
/-- Replaces every shared value. -/
def bind (f : Nat → Value) : Value → Value
  | .list items => .list (bindAll f items)
  | .tuple items => .tuple (bindAll f items)
  | .map entries => .map (bindEntries f entries)
  | .object kind fields => .object kind (bindAll f fields)
  | .shared ref => f ref
  | .null => .null
  | .bool b => .bool b
  | .int n => .int n
  | .float m e => .float m e
  | .text s => .text s
  | .encoded s => .encoded s
  | .time t => .time t

def bindAll (f : Nat → Value) : List Value → List Value
  | [] => []
  | v :: vs => v.bind f :: bindAll f vs

def bindEntries (f : Nat → Value) : List (Key × Value) → List (Key × Value)
  | [] => []
  | (k, v) :: es => (k, v.bind f) :: bindEntries f es
end

mutual
theorem bind_bind (f g : Nat → Value) :
    (v : Value) → (v.bind f).bind g = v.bind fun r => (f r).bind g
  | .list items => by simp [bind, bindAll_bindAll f g items]
  | .tuple items => by simp [bind, bindAll_bindAll f g items]
  | .map entries => by simp [bind, bindEntries_bindEntries f g entries]
  | .object _ fields => by simp [bind, bindAll_bindAll f g fields]
  | .shared _ | .null | .bool _ | .int _ | .float _ _ | .text _ | .encoded _ | .time _ => rfl

theorem bindAll_bindAll (f g : Nat → Value) :
    (vs : List Value) → bindAll g (bindAll f vs) = bindAll (fun r => (f r).bind g) vs
  | [] => rfl
  | v :: vs => by simp [bindAll, bind_bind f g v, bindAll_bindAll f g vs]

theorem bindEntries_bindEntries (f g : Nat → Value) :
    (es : List (Key × Value)) →
      bindEntries g (bindEntries f es) = bindEntries (fun r => (f r).bind g) es
  | [] => rfl
  | (k, v) :: es => by simp [bindEntries, bind_bind f g v, bindEntries_bindEntries f g es]
end

theorem bindAll_eq_map (f : Nat → Value) (vs : List Value) : bindAll f vs = vs.map (bind f) := by
  induction vs with
  | nil => rfl
  | cons v vs ih => simp [bindAll, ih]

theorem bindEntries_eq_map (f : Nat → Value) (es : List (Key × Value)) :
    bindEntries f es = es.map fun e => (e.1, e.2.bind f) := by
  induction es with
  | nil => rfl
  | cons e es ih => simp [bindEntries, ih]

mutual
/-- The cells that a value refers to, from left to right. -/
def refs : Value → List Nat
  | .list items => refsAll items
  | .tuple items => refsAll items
  | .map entries => refsEntries entries
  | .object _ fields => refsAll fields
  | .shared ref => [ref]
  | .null | .bool _ | .int _ | .float _ _ | .text _ | .encoded _ | .time _ => []

def refsAll : List Value → List Nat
  | [] => []
  | v :: vs => v.refs ++ refsAll vs

def refsEntries : List (Key × Value) → List Nat
  | [] => []
  | (_, v) :: es => v.refs ++ refsEntries es
end

/-! ## Decidable equality -/

mutual
/-- Written out in the same way. -/
def sameForm : Value → Value → Bool
  | .null, .null => true
  | .bool a, .bool b => a == b
  | .int a, .int b => a == b
  | .float m e, .float n f => m == n && e == f
  | .text a, .text b => a == b
  | .encoded a, .encoded b => a == b
  | .time a, .time b => a == b
  | .list a, .list b => sameForms a b
  | .tuple a, .tuple b => sameForms a b
  | .map a, .map b => sameEntries a b
  | .object k a, .object l b => k == l && sameForms a b
  | .shared a, .shared b => a == b
  | _, _ => false

def sameForms : List Value → List Value → Bool
  | [], [] => true
  | a :: as, b :: bs => sameForm a b && sameForms as bs
  | _, _ => false

def sameEntries : List (Key × Value) → List (Key × Value) → Bool
  | [], [] => true
  | (k, a) :: as, (l, b) :: bs => k == l && (sameForm a b && sameEntries as bs)
  | _, _ => false
end

mutual
theorem sameForm_iff : (v w : Value) → (sameForm v w = true ↔ v = w)
  | .list a, w => by cases w <;> simp [sameForm, sameForms_iff a]
  | .tuple a, w => by cases w <;> simp [sameForm, sameForms_iff a]
  | .map a, w => by cases w <;> simp [sameForm, sameEntries_iff a]
  | .object k a, w => by cases w <;> simp [sameForm, sameForms_iff a]
  | .null, w | .bool _, w | .int _, w | .float _ _, w | .text _, w | .encoded _, w | .time _, w
  | .shared _, w => by
    cases w <;> simp [sameForm]

theorem sameForms_iff : (vs ws : List Value) → (sameForms vs ws = true ↔ vs = ws)
  | [], ws => by cases ws <;> simp [sameForms]
  | a :: as, ws => by cases ws <;> simp [sameForms, sameForm_iff a, sameForms_iff as]

theorem sameEntries_iff : (es fs : List (Key × Value)) → (sameEntries es fs = true ↔ es = fs)
  | [], fs => by cases fs <;> simp [sameEntries]
  | (k, a) :: as, fs => by
    cases fs with
    | nil => simp [sameEntries]
    | cons f fs => simp [sameEntries, sameForm_iff a, sameEntries_iff as, Prod.ext_iff, and_assoc]
end

instance : DecidableEq Value := fun v w =>
  decidable_of_iff (sameForm v w = true) (sameForm_iff v w)

/-! ## Plain readings -/

/-- The text, if the value is one. -/
def text? : Value → Option String
  | .text s => some s
  | _ => none

/-- The whole number, if the value is one or stands for one. -/
def int? : Value → Option Int
  | .int n => some n
  | .bool b => some (if b then 1 else 0)
  | _ => none

end Value

end Reassembly
