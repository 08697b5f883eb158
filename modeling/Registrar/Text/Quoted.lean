import Registrar.Unicode.Category
import Registrar.Unicode.Property
import Registrar.Unicode.Recent

/-!
# Quoted texts

How a text is shown inside a message: between quotes, with escapes for quotes, backslashes and every
character that would not be visible by itself. `{` and `}` enclose the code point of an escape.
-/

namespace Registrar.Quoted

/-- Letters without a shape of their own, which fill a place in a Hangul syllable. -/
def fillers : CharSet := CharSet.ofPoints [0x115F, 0x1160, 0x3164, 0xFFA0]

/-- Sound marks that take a place of their own, though they join the character in front of them. -/
def spacingMarks : CharSet := CharSet.range 0xFF9E 0xFF9F

/-- The characters that are not visible by themselves: separators, control and format characters,
private and unassigned ones, marks that join the character in front of them, and fillers. -/
def hidden : CharSet :=
  (CharSet.unions [Category.get "other", Category.get "separator", Property.get "graphemeextend",
    fillers]).diff (spacingMarks.union Recent.visible)

def isVisible (c : Char) : Bool :=
  if c.toNat < 0x7F then c.toNat ≥ 0x20 else !hidden.contains c

def hexDigits (n : Nat) : List Char := Nat.toDigits 16 n

def renderChar (c : Char) : List Char :=
  if c = '"' then ['\\', '"']
  else if c = '\\' then ['\\', '\\']
  else if c = '\n' then ['\\', 'n']
  else if c = '\t' then ['\\', 't']
  else if c = '\x0d' then ['\\', 'r']
  else if c = '\x00' then ['\\', '0']
  else if isVisible c then [c]
  else ['\\', 'u', '\x7b'] ++ hexDigits c.toNat ++ ['\x7d']

def render (text : String) : String :=
  "\"" ++ String.ofList (text.toList.flatMap renderChar) ++ "\""

end Registrar.Quoted
