import Metasyntax.Expansion.PathText

/-! Values in normal form, such as the length of an array. Only a few forms of
values may stand where a type is said. -/
namespace Metasyntax

/-- The operators that are two marks. -/
def operatorSigns : List (Char × Char) :=
  [('&', '&'), ('|', '|'), ('<', '<'), ('>', '>'), ('=', '='), ('!', '='), ('<', '='), ('>', '=')]

def operatorMarks : List Char := ['+', '-', '*', '/', '%', '^', '&', '|', '<', '>']

/-- An operator between values, and what is behind it. -/
def operator? : List Tree → Option (List Tree × List Tree)
  | .mark first true :: .mark second joined :: rest =>
    if operatorSigns.contains (first, second) then some (Tree.sign [first, second], rest)
    else if operatorMarks.contains first then some ([.point first], .mark second joined :: rest)
    else none
  | .mark char _ :: rest =>
    if operatorMarks.contains char then some ([.point char], rest) else none
  | _ => none

/-- An operator before a value. -/
def sign? : List Tree → Option (List Tree × List Tree)
  | .mark char _ :: rest =>
    if ['-', '!', '*'].contains char then some ([.point char], rest) else none
  | _ => none

def readAtom (parts : PartReader) : Reader (List Tree)
  | .literal value :: rest => ([.literal value], rest)
  | .group .parenthesis body :: rest => ([.group .parenthesis ((parts .value).whole body)], rest)
  | .group .brace body :: rest => ([.group .brace body], rest)
  | trees => readPath parts true trees

/-- What digits stand for to a base. -/
def valueOfDigits (base : Nat) (digits : List Char) : Nat :=
  digits.foldl (fun value c => ((hexValue? c).map fun digit => base * value + digit).getD value) 0

/-- A whole number that may be given to another base than ten. -/
def valueOfWhole : List Char → Nat
  | '0' :: 'x' :: digits => valueOfDigits 16 digits
  | '0' :: 'o' :: digits => valueOfDigits 8 digits
  | '0' :: 'b' :: digits => valueOfDigits 2 digits
  | digits => valueOfDigits 10 digits

/-- The positions that a number behind a point names, one behind the other if it
has a point of its own. -/
def Literal.positions (value : Literal) : List Tree :=
  ((value.spelling.splitOn ".").filter fun part => !part.isEmpty).flatMap fun part =>
    [.point '.', .literal ⟨toString (valueOfWhole part.toList), none⟩]

/-- What may stand behind a value: arguments, an index, or the name or position
of a part. A number that ends with a point has read that of what follows it. -/
def trailer? (parts : PartReader) : List Tree → Option (List Tree × List Tree)
  | .group .parenthesis body :: rest =>
    some ([.group .parenthesis ((parts .value).separated.whole body)], rest)
  | .group .bracket body :: rest => some ([.group .bracket ((parts .value).whole body)], rest)
  | .mark '.' _ :: .word name :: rest => some ([.point '.', .word name], rest)
  | .mark '.' _ :: .literal value :: rest =>
    some (value.positions, if value.spelling.endsWith "." then .point '.' :: rest else rest)
  | _ => none

/-- Reads a value that no operator stands in. -/
def readOperand (parts : PartReader) : Reader (List Tree) :=
  ((readRow sign?).andThen (readAtom parts)).andThen (readRow (trailer? parts))

/-- Reads operands with operators between them, or with types to convert them to. -/
def readValue (parts : PartReader) : Reader (List Tree) :=
  (readOperand parts).andThen (readRow fun
    | .word "as" :: rest =>
      let (type, after) := parts .operand rest
      some (.word "as" :: type, after)
    | trees => (operator? trees).map fun (sign, rest) =>
      let (operand, after) := readOperand parts rest
      (sign ++ operand, after))

end Metasyntax
