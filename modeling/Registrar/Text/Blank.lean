/-!
# Blanks

The characters that count as blank, and texts without blanks at their ends.
-/

namespace Registrar

/-- Whether a character is blank: it has the property `White_Space`. -/
def isBlank (c : Char) : Bool :=
  let n := c.toNat
  (0x09 ≤ n && n ≤ 0x0D) || n == 0x20 || n == 0x85 || n == 0xA0 || n == 0x1680 ||
    (0x2000 ≤ n && n ≤ 0x200A) || n == 0x2028 || n == 0x2029 || n == 0x202F || n == 0x205F ||
    n == 0x3000

def trimBlanks (text : List Char) : List Char :=
  (((text.dropWhile isBlank).reverse).dropWhile isBlank).reverse

def trimmed (text : String) : String := String.ofList (trimBlanks text.toList)

example : trimmed "\u00A0 a b\u3000\n" = "a b" := by decide +kernel

end Registrar
