/-!
Blank and control characters. Text is blank when every character of it is white space in the
sense of Unicode, so the empty text is blank.
-/

set_option autoImplicit false

namespace TollClearing.Text

/-- The characters with the Unicode property `White_Space`. -/
def isBlank (c : Char) : Bool :=
  let n := c.toNat
  n = 0x20 || (0x09 ≤ n && n ≤ 0x0D) || n = 0x85 || n = 0xA0 || n = 0x1680 ||
    (0x2000 ≤ n && n ≤ 0x200A) || n = 0x2028 || n = 0x2029 || n = 0x202F || n = 0x205F || n = 0x3000

/-- The characters of the Unicode category `Cc`. -/
def isControl (c : Char) : Bool :=
  c.toNat < 0x20 || (0x7F ≤ c.toNat && c.toNat ≤ 0x9F)

def trimStart (s : List Char) : List Char := s.dropWhile isBlank

def allBlank (s : String) : Bool := s.toList.all isBlank

end TollClearing.Text
