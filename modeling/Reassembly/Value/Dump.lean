import Reassembly.Value.Schema

/-!
# Dumping

A dump is plain data: objects become maps from their field names, roles and finish reasons their
texts. What the maker of an object left in it for itself is not dumped.

* `Value.dump`: the dump of a value written out in full.
* `dump_isPlain`: there are no objects in it.
-/
namespace Reassembly

namespace Value

mutual
def dump : Value → Value
  | .list items => .list (dumpAll items)
  | .tuple items => .tuple (dumpAll items)
  | .map entries => .map (dumpEntries entries)
  | .object .role [.text t] => .text t
  | .object .finish [.text t] => .text t
  | .object kind fields => .map (dumpFields kind.fields fields)
  | .null => .null
  | .bool b => .bool b
  | .int n => .int n
  | .float m e => .float m e
  | .text t => .text t
  | .encoded t => .encoded t
  | .time t => .time t
  | .shared ref => .shared ref

def dumpAll : List Value → List Value
  | [] => []
  | v :: vs => v.dump :: dumpAll vs

def dumpEntries : List (Key × Value) → List (Key × Value)
  | [] => []
  | (k, v) :: es => (k, v.dump) :: dumpEntries es

/-- The fields with their names, without the raw one. -/
def dumpFields : List Field → List Value → List (Key × Value)
  | f :: fs, v :: vs =>
    if f.isRaw then dumpFields fs vs else (.text f.name, v.dump) :: dumpFields fs vs
  | _, _ => []
end

mutual
/-- No object in it. -/
def isPlain : Value → Bool
  | .list items => isPlainAll items
  | .tuple items => isPlainAll items
  | .map entries => isPlainEntries entries
  | .object _ _ => false
  | .null | .bool _ | .int _ | .float _ _ | .text _ | .encoded _ | .time _ | .shared _ => true

def isPlainAll : List Value → Bool
  | [] => true
  | v :: vs => v.isPlain && isPlainAll vs

def isPlainEntries : List (Key × Value) → Bool
  | [] => true
  | (_, v) :: es => v.isPlain && isPlainEntries es
end

mutual
theorem dump_isPlain : (v : Value) → v.dump.isPlain = true
  | .list items => by simp [dump, isPlain, dumpAll_isPlain items]
  | .tuple items => by simp [dump, isPlain, dumpAll_isPlain items]
  | .map entries => by simp [dump, isPlain, dumpEntries_isPlain entries]
  | .object kind fields => by
    have h := dumpFields_isPlain kind.fields fields
    unfold dump
    split <;> simp_all [isPlain]
  | .null | .bool _ | .int _ | .float _ _ | .text _ | .encoded _ | .time _ | .shared _ => rfl

theorem dumpAll_isPlain : (vs : List Value) → isPlainAll (dumpAll vs) = true
  | [] => rfl
  | v :: vs => by simp [dumpAll, isPlainAll, dump_isPlain v, dumpAll_isPlain vs]

theorem dumpEntries_isPlain : (es : List (Key × Value)) → isPlainEntries (dumpEntries es) = true
  | [] => rfl
  | (_, v) :: es => by
    simp [dumpEntries, isPlainEntries, dump_isPlain v, dumpEntries_isPlain es]

theorem dumpFields_isPlain :
    (fs : List Field) → (vs : List Value) → isPlainEntries (dumpFields fs vs) = true
  | [], _ => by simp [dumpFields, isPlainEntries]
  | _ :: _, [] => by simp [dumpFields, isPlainEntries]
  | f :: fs, v :: vs => by
    rw [dumpFields]
    split
    · exact dumpFields_isPlain fs vs
    · simp [isPlainEntries, dump_isPlain v, dumpFields_isPlain fs vs]
end

end Value

end Reassembly
