import Metasyntax.Text.Source

/-! Lines and columns, for people. Both count from one, and a column counts
characters, not bytes. -/
namespace Metasyntax

structure Coordinates where
  line : Nat
  column : Nat
  deriving DecidableEq, Repr

/-- Where reading stands after the given characters: one line more than the
line ends among them, and one column more than the characters since the last. -/
def Coordinates.after (before : List Char) : Coordinates where
  line := before.count '\n' + 1
  column := (before.reverse.takeWhile (· != '\n')).length + 1

/-- The coordinates of a byte offset. An offset inside a character has those of
the character, and one past the end those of the end. -/
def Source.coordinates (source : Source) (pos : Nat) : Coordinates :=
  .after (takeBytes source.chars pos)

end Metasyntax
