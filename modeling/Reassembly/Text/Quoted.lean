import Reassembly.Text.PrintableTable
import Reassembly.Text.CaseTable

/-!
# Quoted text

Ways to write a text between quotation marks so that it can be read on one line.

* `quoted` uses single marks, or double ones if the text has a single mark and no double one. It
  escapes the mark, the backslash and every character without a visible form.
* `quotedBytes` does so with the bytes of the text, each as one character.
* `jsonQuoted` is the string of the JSON format: double marks, escapes for the mark, the backslash
  and the characters below the space, all others as they are.
-/
namespace Reassembly.Text

/-- The `width` lowest hexadecimal digits of a number, highest first. -/
def hexDigits : Nat → Nat → List Char
  | 0, _ => []
  | width + 1, n => hexDigits width (n / 16) ++ [Nat.digitChar (n % 16)]

def isPrintable (c : Char) : Bool := !inRanges unprintableRanges c.toNat

/-- The shortest numeric escape that holds the character. -/
def numericEscape (c : Char) : List Char :=
  if c.toNat < 0x100 then '\\' :: 'x' :: hexDigits 2 c.toNat
  else if c.toNat < 0x10000 then '\\' :: 'u' :: hexDigits 4 c.toNat
  else '\\' :: 'U' :: hexDigits 8 c.toNat

/-- One character between the marks `mark`. -/
def quotedChar (mark c : Char) : List Char :=
  if c = mark || c = '\\' then ['\\', c]
  else if c = '\n' then ['\\', 'n']
  else if c = '\r' then ['\\', 'r']
  else if c = '\t' then ['\\', 't']
  else if isPrintable c then [c]
  else numericEscape c

/-- The quotation mark that needs fewer escapes, the single one if in doubt. -/
def markFor (cs : List Char) : Char :=
  if cs.contains '\'' && !cs.contains '"' then '"' else '\''

def quoted (s : String) : String :=
  let mark := markFor s.toList
  String.ofList (mark :: s.toList.flatMap (quotedChar mark) ++ [mark])

/-- One byte between the marks. -/
def quotedByte (mark : Char) (b : UInt8) : List Char :=
  let c := Char.ofNat b.toNat
  if b.toNat < 0x7f then quotedChar mark c else numericEscape c

/-- The bytes of a text between marks, behind a `b`. -/
def quotedBytes (s : String) : String :=
  let mark := markFor s.toList
  String.ofList ('b' :: mark :: s.toUTF8.data.toList.flatMap (quotedByte mark) ++ [mark])

/-- One character of a JSON string. -/
def jsonChar (c : Char) : List Char :=
  if c = '"' || c = '\\' then ['\\', c]
  else if c.toNat = 8 then ['\\', 'b']
  else if c = '\t' then ['\\', 't']
  else if c = '\n' then ['\\', 'n']
  else if c.toNat = 12 then ['\\', 'f']
  else if c = '\r' then ['\\', 'r']
  else if c.toNat < 0x20 then '\\' :: 'u' :: hexDigits 4 c.toNat
  else [c]

def jsonQuoted (s : String) : String :=
  String.ofList ('"' :: s.toList.flatMap jsonChar ++ ['"'])

example : quoted "it's" = "\"it's\"" := by decide +kernel
example : quoted "a'\"" = "'a\\'\"'" := by decide +kernel
example : quoted (String.ofList [Char.ofNat 0x200b, '\n', 'é']) = "'\\u200b\\né'" := by
  decide +kernel
example : jsonQuoted (String.ofList ['a', Char.ofNat 1, Char.ofNat 127]) =
    String.ofList ('"' :: 'a' :: "\\u0001".toList ++ [Char.ofNat 127, '"']) := by decide +kernel

end Reassembly.Text
