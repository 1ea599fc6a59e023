import Reassembly.Validation.Problem
import Reassembly.Value.Elements
import Reassembly.Text.Integer
import Reassembly.Text.Blank
import Reassembly.Time.Reading

/-!
# Checking values against the rules

A check turns a value into one that obeys a rule, or lists what is wrong. Lists and maps are copied
one level deep; an object that already is of the wanted kind is kept as the same object. A text that
is given as its bytes is decoded; an author is asked for blanks before that, so a blank one that is
given as bytes stays.

* `construct`: an object of a kind from named values, with the defaults of the kind.
* `validate`: an object of a kind from any value.
* `checkField`: what an assignment to one field makes of the value.
* `checkOne_of_isA`: an object of the wanted kind passes unchanged.
-/
namespace Reassembly

open Reassembly.Text Reassembly.Time Checked

/-- The integer `mantissa * 2 ^ exponent`, if it is one. -/
def wholeNumber? (mantissa exponent : Int) : Option Int :=
  if 0 ≤ exponent then some (mantissa * twoTo exponent.toNat)
  else if mantissa % twoTo exponent.natAbs = 0 then some (mantissa / twoTo exponent.natAbs)
  else none

/-- The number is below the power of two that no floating number reaches. -/
def isFinite (mantissa exponent : Int) : Bool :=
  decide (mantissa.natAbs * Nat.pow 2 exponent.toNat < Nat.pow 2 (1024 + (-exponent).toNat))

/-- The integer lies nearer to a floating number than to that power of two. -/
def roundsToFinite (n : Int) : Bool :=
  decide (n.natAbs + Nat.pow 2 970 < Nat.pow 2 1024)

def checkText : Value → Checked Value
  | .text t | .encoded t => .ok (.text t)
  | _ => fail .notText

def checkLabel : Value → Checked Value
  | .text t | .encoded t => if isBlankText t then fail .blankLabel else .ok (.text t)
  | _ => fail .notText

/-- A text that begins with too many digits is not looked at any further; one that has too many
after it is cleaned up is no integer. -/
def checkInteger : Value → Checked Value
  | .int n => .ok (.int n)
  | .bool b => .ok (.int (if b then 1 else 0))
  | .float m e =>
    match wholeNumber? m e with
    | some n =>
      if n.natAbs < Nat.pow 2 63 then .ok (.int n)
      else fail (if isFinite m e then .tooManyDigits else .notFinite)
    | none => fail .fractionalNumber
  | .text t | .encoded t =>
    if beginsTooLong t then fail .tooManyDigits
    else match readInteger? t with
      | some n => .ok (.int n)
      | none => fail .unreadableInteger
  | _ => fail .notInteger

/-- A timestamp is kept as the same object. An integer that no floating number stands for is no
number of seconds. -/
def checkTimestamp (s : Store) (v : Value) : Checked Value :=
  match s.head v with
  | .time _ => .ok v
  | .text s | .encoded s =>
    match readTimestamp s with
    | .ok t => .ok (.time t)
    | .outOfRange => fail .timestampOutOfRange
    | .malformed => fail .unreadableTimestamp
  | .int n =>
    match ofNumber n with
    | .ok t => .ok (.time t)
    | _ => fail (if roundsToFinite n then .timestampOutOfRange else .notTimestamp)
  | .float m e =>
    if isFinite m e then
      match ofFloat ((Float.ofInt m).scaleB e) with
      | .ok t => .ok (.time t)
      | _ => fail .timestampOutOfRange
    else fail .timestampOutOfRange
  | _ => fail .notTimestamp

/-- One entry of a map with text keys. -/
def checkEntry (check : Value → Checked Value) (e : Key × Value) : Checked (Key × Value) :=
  let key : Checked Key :=
    if e.1.isText then .ok e.1 else within e.1.name (within "[key]" (fail .notText))
  match key, within e.1.name (check e.2) with
  | .ok k, .ok v => .ok (k, v)
  | .ok _, .error ps => .error ps
  | .error ps, .ok _ => .error ps
  | .error ps, .error qs => .error (ps ++ qs)

/-- A map with text keys, its values checked one by one. -/
def checkMap (s : Store) (check : Value → Checked Value) (v : Value) : Checked Value :=
  match s.entries? v with
  | some es => (collect (es.map (checkEntry check))).map .map
  | none => fail .notMap

/-- The elements of a value where a list is wanted: maps and texts, given as bytes or not, do not
pass as lists. -/
def listed? (s : Store) (v : Value) : Option (List Value) :=
  match s.head v with
  | .map _ | .text _ | .encoded _ => none
  | _ => s.elements? v

/-- A list, its elements checked one by one. -/
def checkList (s : Store) (check : Value → Checked Value) (v : Value) : Checked Value :=
  match listed? s v with
  | some items => (collectFrom check 0 items).map .list
  | none => fail .notList

/-- A text item with nothing but its text. -/
def plainText (t : String) : Value := .object .text [.null, .null, .null, .text t]

/-- What a record keeps for an author: nothing, if it is a blank text. Mirrors
`_blank_author_as_none`. -/
def credited : Value → Value
  | .text t => if isBlankText t then .null else .text t
  | v => v

/-- What a rule makes of a value, given what makes an object of a kind of one. -/
def checkRule (s : Store) (object : Kind → Value → Checked Value) : Rule → Value → Checked Value
  | .anything, v => .ok v
  | .text, v => checkText v
  | .textOrEmpty, .null => .ok (.text "")
  | .textOrEmpty, v => checkText v
  | .label, v => checkLabel v
  | .author, .null => .ok .null
  | .author, .text t => .ok (credited (.text t))
  | .author, v => checkText v
  | .integer, v => checkInteger v
  | .timestamp, v => checkTimestamp s v
  | .properties, v => checkMap s .ok v
  | .counts, v => checkMap s checkInteger v
  | .one k, v => object k v
  | .many k, v => checkList s (object k) v
  | .contents, .null => .ok (.list [])
  | .contents, .text t => .ok (.list [plainText t])
  | .contents, v => checkList s (object .content) v
  | .messages, .null => .ok (.list [])
  | .messages, v =>
    if s.kind? v = some .message then .ok (.list [v]) else checkList s (object .message) v
  | .optional _, .null => .ok .null
  | .optional r, v => checkRule s object r v

/-- An object of the kind: the value itself, or constructed from a map, or, for roles and finish
reasons, from a text. -/
def checkOne (s : Store) (construct : Kind → Entries Value → Checked Value) (k : Kind) (v : Value) :
    Checked Value :=
  match s.head v with
  | .object l _ => if l.isA k then .ok v else fail .notObject
  | .map es => construct k es
  | .text t => if k.isFrozen then construct k [(.text "value", .text t)] else fail .notObject
  | _ => fail .notObject

/-- What a constructor takes for a field. -/
def Field.take (f : Field) (given : Entries Value) : Checked Value :=
  match given.get? (.text f.name), f.default with
  | some .null, _ => .ok (f.whenNull.getD .null)
  | some v, _ => .ok v
  | none, some v => .ok v
  | none, none => fail .missing

/-- Constructs an object of a kind whose declared objects nest at most `depth` deep. -/
def constructTo (s : Store) : Nat → Kind → Entries Value → Checked Value
  | 0, k, given =>
    (collect (k.fields.map fun f =>
      within f.name ((f.take given).bind (checkRule s (fun _ _ => fail .notObject) f.rule)))).map
      (.object k)
  | depth + 1, k, given =>
    (collect (k.fields.map fun f =>
      within f.name
        ((f.take given).bind (checkRule s (checkOne s (constructTo s depth)) f.rule)))).map
      (.object k)

/-- The object of a kind with the given fields. Names that the kind does not declare are passed
over. -/
def construct (s : Store) (k : Kind) (given : Entries Value) : Checked Value :=
  constructTo s k.depth k given

/-- The object of a kind that a value is or describes. -/
def validate (s : Store) (k : Kind) (v : Value) : Checked Value := checkOne s (construct s) k v

/-- What an assignment to a field makes of a value. -/
def checkField (s : Store) (f : Field) (v : Value) : Checked Value :=
  within f.name (checkRule s (validate s) f.rule v)

theorem checkOne_of_isA {s : Store} {c : Kind → Entries Value → Checked Value} {k l : Kind}
    {v : Value} {fields : List Value} (hv : s.head v = .object l fields) (hl : l.isA k = true) :
    checkOne s c k v = .ok v := by
  simp [checkOne, hv, hl]

end Reassembly
