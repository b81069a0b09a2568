import Metasyntax.Token.Reader

/-! Paths in normal form, with what stands in angle brackets and in parentheses
behind their names. -/
namespace Metasyntax

/-- What a place calls for: a type, which plus signs may continue, an operand,
which is a type that ends before a plus sign, or a value, such as the length of
an array. -/
inductive TypePart where
  | type
  | operand
  | value
  deriving DecidableEq, Repr

/-- How the parts of a type are read. -/
abbrev PartReader := TypePart → Reader (List Tree)

def pathSign : List Tree := Tree.sign [':', ':']

def arrowSign : List Tree := Tree.sign ['-', '>']

/-! ## Lists in angle brackets -/

/-- An entry of a list, and whether a comma stood behind it. -/
structure Entry where
  trees : List Tree
  comma : Bool

/-- A lifetime with a plus sign behind it is the first of several bounds. -/
def Entry.isLifetime (entry : Entry) : Bool :=
  match entry.trees with
  | .mark '\'' _ :: .word _ :: .mark '+' _ :: _ => false
  | .mark '\'' _ :: .word _ :: _ => true
  | _ => false

def Entry.write (entry : Entry) : List Tree :=
  if entry.comma then entry.trees ++ [.point ','] else entry.trees

/-- A list in angle brackets, the lifetimes first. Each entry keeps the comma
that stood behind it, so that there is one at the end if the last entry was a
lifetime and had to move ahead of others. -/
def angleTrees (entries : List Entry) : List Tree :=
  let lifetimes := entries.filter Entry.isLifetime
  let others := entries.filter fun entry => !entry.isLifetime
  let missing := !others.isEmpty && lifetimes.getLast?.any fun entry => !entry.comma
  .point '<' :: lifetimes.flatMap Entry.write ++ (if missing then [.point ','] else []) ++
    others.flatMap Entry.write ++ [.point '>']

/-- Reads an entry. A block in place of a type gets braces of its own. -/
def readEntry (parts : PartReader) : Reader (List Tree)
  | .mark '\'' _ :: .word name :: .mark '+' joined :: rest =>
    parts .type (Tree.lifetime name ++ .mark '+' joined :: rest)
  | .mark '\'' _ :: .word name :: rest => (Tree.lifetime name, rest)
  | .word name :: .mark '=' _ :: rest =>
    let (value, after) := parts .type rest
    (.word name :: .point '=' :: value, after)
  | .group .brace body :: rest => ([.group .brace [.group .brace body]], rest)
  | trees => parts .type trees

/-- Reads the entries of a list whose opening bracket has been read, and the
closing bracket. -/
def readEntries (parts : PartReader) : Reader (List Entry) := fun trees =>
  let (entries, rest) := readMany entry? trees
  match rest with
  | .mark '>' _ :: after => (entries, after)
  | _ => (entries, rest)
where
  entry? (trees : List Tree) : Option (Entry × List Tree) :=
    match trees with
    | [] => none
    | .mark '>' _ :: _ => none
    | _ =>
      match readEntry parts trees with
      | (entry, .mark ',' _ :: after) => some (⟨entry, true⟩, after)
      | (entry, rest) => some (⟨entry, false⟩, rest)

/-! ## Paths -/

/-- Names that stand for a place among modules. No list in angle brackets
belongs to them. -/
def placeNames : List String := ["self", "super", "crate"]

/-- What comes before the entries of a list in angle brackets, and the entries.
If only a path sign can tell the list from a comparison, it has to be there. -/
def afterAngle? (signed : Bool) : List Tree → Option (List Tree × List Tree)
  | .mark '<' true :: .mark '=' _ :: _ => none
  | .mark '<' _ :: rest => if signed then none else some ([], rest)
  | .mark ':' true :: .mark ':' _ :: .mark '<' _ :: rest => some (pathSign, rest)
  | _ => none

/-- What arguments in parentheses hold, and what is behind them. They need no
path sign. -/
def arguments? : List Tree → Option (List Tree × List Tree)
  | .group .parenthesis body :: rest => some (body, rest)
  | .mark ':' true :: .mark ':' _ :: .group .parenthesis body :: rest => some (body, rest)
  | _ => none

/-- Reads the type of a result, which has an arrow before it. -/
def readResult (parts : PartReader) : Reader (List Tree)
  | .mark '-' true :: .mark '>' _ :: rest =>
    let (type, after) := parts .operand rest
    (arrowSign ++ type, after)
  | trees => ([], trees)

/-- Reads a name with its arguments. A list in angle brackets that is empty gives
way to arguments in parentheses. Those of a name in a value are a call's, and
are not read here. -/
def readSegment (parts : PartReader) (inValue : Bool) : Reader (List Tree)
  | .word name :: trees =>
    let (angle, isEmpty, rest) :=
      match afterAngle? (inValue || placeNames.contains name) trees with
      | some (sign, inside) =>
        let (entries, rest) := readEntries parts inside
        (sign ++ angleTrees entries, entries.isEmpty, rest)
      | none => ([], true, trees)
    match if isEmpty && !inValue then arguments? rest else none with
    | some (body, after) =>
      let (result, after) := readResult parts after
      (.word name :: .group .parenthesis ((parts .type).separated.whole body) :: result, after)
    | none => (.word name :: angle, rest)
  | trees => ([], trees)

/-- Reads names with path signs between them, and maybe before the first. -/
def readSegments (parts : PartReader) (inValue : Bool) : Reader (List Tree) :=
  (readSegment parts inValue).andThen (readRow fun
    | .mark ':' true :: .mark ':' _ :: .word name :: rest =>
      let (names, after) := readSegment parts inValue (.word name :: rest)
      some (pathSign ++ names, after)
    | _ => none)

/-- Reads a path. It may start from a type in angle brackets, seen as what a
trait makes of it. -/
def readPath (parts : PartReader) (inValue : Bool) : Reader (List Tree)
  | .mark '<' _ :: inside =>
    let (type, rest) := (parts .type).andThen readTrait inside
    let (names, after) := readSegments parts inValue (rest.drop 1)
    (.point '<' :: type ++ .point '>' :: names, after)
  | trees => readSegments parts inValue trees
where
  readTrait : Reader (List Tree)
    | .word "as" :: rest =>
      let (names, after) := readSegments parts false rest
      (.word "as" :: names, after)
    | trees => ([], trees)

end Metasyntax
