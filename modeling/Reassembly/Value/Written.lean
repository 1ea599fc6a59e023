import Reassembly.Content.Basic
import Reassembly.Label
import Reassembly.Text.Shortest

/-!
# Values as people write them

A text is written as it is, and quoted inside of another value. Objects that have a text are written
as that text, other objects as their fields. All values here are written out in full.

* `Value.textOf?`: the text that belongs to an object.
* `Value.literal`: a value inside of another one.
* `Value.written`: a value on its own.
-/
namespace Reassembly

open Reassembly.Text

/-- Items between two marks, separated by commas and blanks. -/
def enclosed (first last : String) (items : List String) : String :=
  first ++ ", ".intercalate items ++ last

/-- Floating numbers for people: at most three zeros after the point, and an exponent with its sign
and at least two digits. -/
def plainNumber : DecimalFormat := ⟨3, 16, "+", 2⟩

/-- A list with round brackets; a single item is followed by a comma. -/
def enclosedTuple : List String → String
  | [item] => "(" ++ item ++ ",)"
  | items => enclosed "(" ")" items

namespace Value

mutual
/-- The text of an object that is or holds content items, and what has been noted as the text of an
accumulator. -/
def textOf? : Value → Option String
  | .object .text [_, _, _, .text t] => some t
  | .object .reasoning [_, _, _, .text t] => some t
  | .object .message [_, .list contents, _, _, _, _, _] => some (concatText .empty contents)
  | .object .update [_, .list contents, _, _, _, _, _, _, _, _, _] =>
    some (concatText .empty contents)
  | .object .response [messages, _, _, _, _, _, _, _, _] => some (joinLines messages.lines)
  | .object .session [_, transcript] => some (joinLines transcript.lines)
  | .object .accumulator [_, _, _, .map notes] => (Entries.get? (.text "text") notes).bind text?
  | _ => none

/-- The texts of the items of a list. -/
def lines : Value → List String
  | .list items => textsOf items
  | .tuple items => textsOf items
  | _ => []

def textsOf : List Value → List String
  | [] => []
  | v :: vs => v.textOf?.getD "" :: textsOf vs
end

def keyLiteral : Key → String
  | .text k => quoted k
  | .number n => toString n

mutual
def literal : Value → String
  | .null => "None"
  | .bool b => if b then "True" else "False"
  | .int n => toString n
  | .float m e => plainNumber.write m e
  | .text t => quoted t
  | .encoded t => quotedBytes t
  | .time t => t.literal
  | .list items => enclosed "[" "]" (literals items)
  | .tuple items => enclosedTuple (literals items)
  | .map entries => enclosed "\x7b" "\x7d" (entryLiterals entries)
  | .object .role [.text t] => labelRepr .role t
  | .object .finish [.text t] => labelRepr .finish t
  | .object kind fields =>
    enclosed (kind.className ++ "(") ")" (fieldLiterals kind.fields fields)
  | .shared _ => "None"

def literals : List Value → List String
  | [] => []
  | v :: vs => v.literal :: literals vs

def entryLiterals : List (Key × Value) → List String
  | [] => []
  | (k, v) :: es => (keyLiteral k ++ ": " ++ v.literal) :: entryLiterals es

def fieldLiterals : List Field → List Value → List String
  | f :: fs, v :: vs => (f.name ++ "=" ++ v.literal) :: fieldLiterals fs vs
  | _, _ => []
end

mutual
def written : Value → String
  | .text t => t
  | .time t => t.spaced
  | .object .role [.text t] => t
  | .object .finish [.text t] => t
  | .object .usage [_, _, _, .null] => "Usage = "
  | .object .usage [_, _, _, details] => "Usage = " ++ details.written
  | .object .details fields => ", ".intercalate (counters Kind.details.fields fields)
  | .object .session fields => " ".intercalate (fieldLiterals Kind.session.fields fields)
  | .object kind fields =>
    ((object kind fields).textOf?).getD (" ".intercalate (fieldLiterals kind.fields fields))
  | v => v.literal

/-- The known counters as `name = number`, the named ones under their own names. -/
def counters : List Field → List Value → List String
  | _ :: fs, .null :: vs => counters fs vs
  | f :: fs, v :: vs =>
    (if f.rule = .optional .counts then namedCounters v else [f.name ++ " = " ++ v.written]) ++
      counters fs vs
  | _, _ => []

def namedCounters : Value → List String
  | .map entries => countTexts entries
  | _ => []

def countTexts : List (Key × Value) → List String
  | [] => []
  | (k, v) :: es => (k.name ++ " = " ++ v.written) :: countTexts es
end

end Value

end Reassembly
