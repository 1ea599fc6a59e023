import Reassembly.Value.Schema
import Reassembly.Text.Quoted
import Reassembly.Text.Shortest

/-!
# Values as JSON text

The text of a dump in the JSON format, without blanks: objects and maps with their entries in order,
timestamps as text, with `Z` for UTC. Fields that are null may be left out; null in a map stays.

* `Value.json`: the text of a value written out in full.
-/
namespace Reassembly

open Reassembly.Text

/-- A list of texts between two marks, separated by commas. -/
def bracketed (first last : String) (texts : List String) : String :=
  first ++ ",".intercalate texts ++ last

/-- Floating numbers in JSON: at most four zeros after the point, and a plain exponent. -/
def jsonNumber : DecimalFormat := ⟨4, 16, "", 1⟩

namespace Value

mutual
def json (withoutNull : Bool) : Value → String
  | .null => "null"
  | .bool b => if b then "true" else "false"
  | .int n => toString n
  | .float m e => jsonNumber.write m e
  | .text t | .encoded t => jsonQuoted t
  | .time t => jsonQuoted t.isoZ
  | .list items => bracketed "[" "]" (jsonAll withoutNull items)
  | .tuple items => bracketed "[" "]" (jsonAll withoutNull items)
  | .map entries => bracketed "\x7b" "\x7d" (jsonEntries withoutNull entries)
  | .object .role [.text t] => jsonQuoted t
  | .object .finish [.text t] => jsonQuoted t
  | .object kind fields => bracketed "\x7b" "\x7d" (jsonFields withoutNull kind.fields fields)
  | .shared _ => "null"

def jsonAll (withoutNull : Bool) : List Value → List String
  | [] => []
  | v :: vs => v.json withoutNull :: jsonAll withoutNull vs

def jsonEntries (withoutNull : Bool) : List (Key × Value) → List String
  | [] => []
  | (k, v) :: es =>
    (jsonQuoted k.name ++ ":" ++ v.json withoutNull) :: jsonEntries withoutNull es

/-- The fields with their names, without the raw one, and without null if so wanted. -/
def jsonFields (withoutNull : Bool) : List Field → List Value → List String
  | f :: fs, v :: vs =>
    if f.isRaw || (withoutNull && v == .null) then jsonFields withoutNull fs vs
    else (jsonQuoted f.name ++ ":" ++ v.json withoutNull) :: jsonFields withoutNull fs vs
  | _, _ => []
end

end Value

end Reassembly
