import Reassembly.Accumulator
import Reassembly.Workspace.Path

/-!
# Forms

A form says how to make a value: plain data, objects to be constructed from named parts, and paths
to objects that are there already.

* `Form.build`: makes the value, or fails with the problems of the first object that cannot be made.
-/
namespace Reassembly

inductive Form where
  | plain (v : Value)
  | list (items : List Form)
  | map (entries : List (Key × Form))
  | make (kind : Kind) (fields : List (Key × Form))
  /-- what a register holds, or lies behind it -/
  | path (register : String) (steps : List Key)
deriving Inhabited

/-- A text or number that is written down is a new one, unless it is so short that there is only one
of its kind. -/
def Form.isFresh : Form → Bool
  | .plain (.text t) => decide (2 ≤ t.length) || t.toList.any fun c => decide (255 < c.toNat)
  | .plain (.int n) => decide (n < -5 ∨ 256 < n)
  | .plain (.float _ _) => true
  | _ => false

/-- An object of a kind from named values. An accumulator is told only whether to coalesce. -/
def makeObject (s : Store) (k : Kind) (given : Entries Value) : Except Failure Value :=
  match k with
  | .accumulator => .ok (Accumulator.new ((given.get? (.text "coalesce")).getD (.bool true))).toValue
  | k => (construct s k given).orFail

namespace Form

mutual
/-- Makes the value, where `find` gives what the registers hold. -/
def build (s : Store) (find : String → Value) : Form → Except Failure Value
  | .plain v => .ok v
  | .list items => (buildAll s find items).map .list
  | .map entries => (buildEntries s find entries).map fun es => .map (Entries.ofList es)
  | .make kind fields => (buildEntries s find fields).bind (makeObject s kind)
  | .path register steps => .ok (s.followAll (find register) steps)

def buildAll (s : Store) (find : String → Value) : List Form → Except Failure (List Value)
  | [] => .ok []
  | f :: fs => (f.build s find).bind fun v => (buildAll s find fs).map fun vs => v :: vs

def buildEntries (s : Store) (find : String → Value) :
    List (Key × Form) → Except Failure (List (Key × Value))
  | [] => .ok []
  | (k, f) :: es =>
    (f.build s find).bind fun v => (buildEntries s find es).map fun vs => (k, v) :: vs
end

/-- Makes a value that needs no registers, written out in full. -/
def make? (f : Form) : Except Failure Value :=
  (f.build .empty fun _ => .null).map Store.empty.expand

end Form

end Reassembly
