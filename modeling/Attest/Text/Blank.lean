/-
  White space: the code points of the property White_Space.
-/
import Attest.Text.Ranges

namespace Attest.Text

def blankRanges : Ranges :=
  [(9, 13), (32, 32), (133, 133), (160, 160), (5760, 5760), (8192, 8202), (8232, 8233),
   (8239, 8239), (8287, 8287), (12288, 12288)]

def isBlank (c : Char) : Bool := blankRanges.has c.toNat

/-- Text without the blanks in front of it. -/
def skipBlanks (cs : List Char) : List Char := cs.dropWhile isBlank

end Attest.Text
