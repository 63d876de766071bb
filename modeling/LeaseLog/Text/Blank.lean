/-!
# White space

The code points with the Unicode property `White_Space`, and the text that remains once leading
white space is dropped.
-/

namespace LeaseLog.Text

/-- Whether a character has the Unicode property `White_Space`. -/
def isBlank (c : Char) : Bool :=
  let code := c.toNat
  (9 ≤ code && code ≤ 13) || code == 32 || code == 0x85 || code == 0xA0 || code == 0x1680 ||
    (0x2000 ≤ code && code ≤ 0x200A) || code == 0x2028 || code == 0x2029 || code == 0x202F ||
    code == 0x205F || code == 0x3000

/-- The text after its leading white space. -/
def skipBlank (cs : List Char) : List Char := cs.dropWhile isBlank

end LeaseLog.Text
