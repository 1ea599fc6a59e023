import Reassembly.Text.CaseTable

/-!
# Full lower-casing

`lowerCase` replaces every character by its lower-case form. Two characters need more than a
table: `İ` becomes an `i` and a combining dot, and a capital sigma becomes the final form at the
end of a word, that is after a cased letter and before none, characters without case passed over.

* `lowerFrom_append`: a text may be lowered in two pieces if each piece sees its surroundings.
-/
namespace Reassembly.Text

/-- The lower-case form of one character on its own. -/
def lowerChar (c : Char) : List Char :=
  if c.toNat = 0x130 then ['i', Char.ofNat 0x307]
  else match lowerRanges.findSome? (·.lower? c.toNat) with
    | some n => [Char.ofNat n]
    | none => [c]

def isCased (c : Char) : Bool := inRanges casedRanges c.toNat

def isIgnorable (c : Char) : Bool := inRanges ignorableRanges c.toNat

/-- The next character that is not passed over is a cased letter. -/
def casedNext (cs : List Char) : Bool :=
  match cs.dropWhile isIgnorable with
  | [] => false
  | c :: _ => isCased c

/-- Lowers `cs`, which stands after the characters `before` (nearest first) and before `after`. -/
def lowerFrom (before : List Char) (after : List Char) : List Char → List Char
  | [] => []
  | c :: cs =>
    (if c.toNat = 0x3a3 then
      [if casedNext before && !casedNext (cs ++ after) then Char.ofNat 0x3c2 else Char.ofNat 0x3c3]
    else lowerChar c) ++ lowerFrom (c :: before) after cs

def lowerCase (s : String) : String := String.ofList (lowerFrom [] [] s.toList)

theorem lowerFrom_append (before after cs ds : List Char) :
    lowerFrom before after (cs ++ ds) =
      lowerFrom before (ds ++ after) cs ++ lowerFrom (cs.reverse ++ before) after ds := by
  induction cs generalizing before with
  | nil => simp [lowerFrom]
  | cons c cs ih => simp [lowerFrom, ih]

example : lowerCase "ΑΣ ΑΣΑ Σ" = "ας ασα σ" := by decide +kernel
example : lowerCase "TOOL_Calls" = "tool_calls" := by decide +kernel
example : lowerCase "ẞİ" = "ßi̇" := by decide +kernel

end Reassembly.Text
