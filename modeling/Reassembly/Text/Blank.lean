/-!
# Blank text

A character is *space* if the Unicode standard lists it as White_Space, and *blank* if it is space
or one of the four information separators U+001C to U+001F. A text is blank if all its characters
are; the empty text is.

* `isBlankText_append`: a concatenation is blank iff both parts are.
-/
namespace Reassembly.Text

/-- The characters of the Unicode property White_Space. -/
def isSpace (c : Char) : Bool :=
  let n := c.toNat
  (decide (9 ≤ n) && decide (n ≤ 13)) || n == 0x20 || n == 0x85 || n == 0xa0 || n == 0x1680 ||
    (decide (0x2000 ≤ n) && decide (n ≤ 0x200a)) || n == 0x2028 || n == 0x2029 || n == 0x202f ||
    n == 0x205f || n == 0x3000

/-- White space, or an information separator. -/
def isBlank (c : Char) : Bool :=
  isSpace c || (decide (0x1c ≤ c.toNat) && decide (c.toNat ≤ 0x1f))

/-- Nothing but blanks, or nothing at all. -/
def isBlankText (s : String) : Bool := s.toList.all isBlank

theorem isBlankText_append (s t : String) :
    isBlankText (s ++ t) = (isBlankText s && isBlankText t) := by
  simp [isBlankText, List.all_append]

example : isBlankText "" = true := by decide
example : isBlank (Char.ofNat 0x1c) = true ∧ isSpace (Char.ofNat 0x1c) = false := by decide
example : isBlank (Char.ofNat 0x200b) = false ∧ isBlank (Char.ofNat 0xfeff) = false := by decide

end Reassembly.Text
