import Reassembly.Text.LowerCase
import Reassembly.Text.Quoted
import Reassembly.Value.Schema

/-!
# Roles and finish reasons

Both are open sets of labels: any text that is not blank may be one, and two labels of one kind are
the same if their texts agree when letter case is taken away. A label keeps its own spelling.

* `sameLabel`: agreement of two texts as labels; an equivalence.
* `labelRepr`: a label with the name of its class, for people to read.
-/
namespace Reassembly

open Reassembly.Text

/-- The texts agree when case is taken away. -/
def sameLabel (a b : String) : Bool := lowerCase a == lowerCase b

theorem sameLabel_refl (a : String) : sameLabel a a = true := by simp [sameLabel]

theorem sameLabel_comm (a b : String) : sameLabel a b = sameLabel b a := by
  simp [sameLabel, Bool.beq_comm]

theorem sameLabel_trans {a b c : String} (h : sameLabel a b = true) (k : sameLabel b c = true) :
    sameLabel a c = true := by
  simp only [sameLabel, beq_iff_eq] at *
  exact h.trans k

/-- The class of a label and its quoted text. -/
def labelRepr (k : Kind) (t : String) : String :=
  k.className ++ "(" ++ quoted t ++ ")"

/-- How a value compares with a label of the given kind. -/
def labelAgrees (k : Kind) (t : String) : Value → Bool
  | .text u => sameLabel t u
  | .object l [.text u] => l == k && sameLabel t u
  | _ => false

end Reassembly
