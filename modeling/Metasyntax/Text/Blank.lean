import Metasyntax.Text.Ranges

/-! White space of Unicode, and the narrower set that separates tokens. -/
namespace Metasyntax

/-- The property White_Space, as closed ranges of code points. -/
def whiteSpaceRanges : List (Nat × Nat) :=
  [(0x9, 0xD), (0x20, 0x20), (0x85, 0x85), (0xA0, 0xA0), (0x1680, 0x1680), (0x2000, 0x200A),
   (0x2028, 0x2029), (0x202F, 0x202F), (0x205F, 0x205F), (0x3000, 0x3000)]

def isWhiteSpace (c : Char) : Bool :=
  inRanges whiteSpaceRanges c.toNat

/-- What may stand between tokens: white space and the byte order mark, but not
the control character next line. -/
def isSpace (c : Char) : Bool :=
  c == '\uFEFF' || (isWhiteSpace c && c != '\u0085')

end Metasyntax
