import Metasyntax.Expansion.ValueText
import Metasyntax.Token.Scan

/-! Types in normal form. However a type was written, its marks stand apart, its
angle brackets hold the lifetimes before everything else, and a block among them
is in braces. What only a macro or an attribute can read stays as it was written,
and so does a type that has been given a form but no meaning. -/
namespace Metasyntax

/-! ## Bounds -/

/-- The lifetimes that a binder introduces. A colon without bounds is left out. -/
def binderTrees : List Tree → List Tree
  | [] => []
  | [.mark ':' _] => []
  | .mark ':' _ :: .mark ',' _ :: trees => .point ',' :: binderTrees trees
  | .mark '\'' _ :: trees => .mark '\'' true :: binderTrees trees
  | .mark char _ :: trees => .point char :: binderTrees trees
  | tree :: trees => tree :: binderTrees trees

def Tree.closesAngle : Tree → Bool
  | .mark '>' _ => true
  | _ => false

/-- Reads a binder, if there is one. -/
def readBinder : Reader (List Tree)
  | .word "for" :: .mark '<' _ :: trees =>
    let inside := trees.takeWhile fun tree => !tree.closesAngle
    (.word "for" :: .point '<' :: binderTrees inside ++ [.point '>'],
      trees.drop (inside.length + 1))
  | trees => ([], trees)

/-- What a bound has before its trait: that it may not hold, or holds in
constants. -/
def modifier? : List Tree → Option (List Tree × List Tree)
  | .mark '?' _ :: rest => some ([.point '?'], rest)
  | .mark '~' _ :: .word "const" :: rest => some ([.point '~', .word "const"], rest)
  | _ => none

def readTraitBound (parts : PartReader) : Reader (List Tree) :=
  ((readRow modifier?).andThen readBinder).andThen (readSegments parts false)

def readBound (parts : PartReader) : Reader (List Tree)
  | .mark '\'' _ :: .word name :: rest => (Tree.lifetime name, rest)
  | .group .parenthesis body :: rest =>
    ([.group .parenthesis ((readTraitBound parts).whole body)], rest)
  | trees => readTraitBound parts trees

def startsBound : List Tree → Bool
  | .word _ :: _ => true
  | .group .parenthesis _ :: _ => true
  | .mark ':' true :: .mark ':' _ :: _ => true
  | .mark char _ :: _ => ['\'', '?', '~'].contains char
  | _ => false

/-- Reads the bounds behind a first one. There may be a plus sign at the end. -/
def readMoreBounds (parts : PartReader) : Reader (List Tree) :=
  readRow fun
    | .mark '+' _ :: rest =>
      if startsBound rest then
        let (bound, after) := readBound parts rest
        some (.point '+' :: bound, after)
      else some ([.point '+'], rest)
    | _ => none

/-- Reads bounds, or a single one if no plus sign can be theirs. -/
def readBounds (parts : PartReader) (plus : Bool) : Reader (List Tree) :=
  if plus then (readBound parts).andThen (readMoreBounds parts) else readBound parts

/-! ## Functions -/

def attribute? : List Tree → Option (List Tree × List Tree)
  | .mark '#' _ :: .group .bracket body :: rest => some ([.point '#', .group .bracket body], rest)
  | _ => none

/-- Reads the name of an argument, if it has one. -/
def readArgumentName : Reader (List Tree)
  | .word name :: .mark ':' true :: .mark ':' joined :: rest =>
    ([], .word name :: .mark ':' true :: .mark ':' joined :: rest)
  | .word name :: .mark ':' _ :: rest => ([.word name, .point ':'], rest)
  | trees => ([], trees)

/-- Reads an argument of a function. One that stands for the value whose method
the function is, and may change, has no meaning. -/
def readArgument (parts : PartReader) : Reader (Option (List Tree)) := fun trees =>
  let (front, rest) := ((readRow attribute?).andThen readArgumentName) trees
  match rest with
  | .word "mut" :: .word "self" :: .mark ':' _ :: rest => (none, (parts .type rest).2)
  | .word "mut" :: .word "self" :: rest => (none, rest)
  | .mark '.' true :: .mark '.' true :: .mark '.' _ :: rest =>
    (some (front ++ Tree.sign ['.', '.', '.']), rest)
  | _ =>
    let (type, after) := parts .type rest
    (some (front ++ type), after)

def readArguments (parts : PartReader) : Reader (List (Option (List Tree))) :=
  readMany fun
    | [] => none
    | .mark ',' _ :: rest => some (some [.point ','], rest)
    | trees => some (readArgument parts trees)

/-- A word of those before the arguments of a function, or the name of a
convention by which it is called. -/
def functionWord? : List Tree → Option (List Tree × List Tree)
  | .word spelling :: rest =>
    if ["unsafe", "extern", "fn"].contains spelling then some ([.word spelling], rest) else none
  | .literal convention :: rest => some ([.literal convention], rest)
  | _ => none

/-- Reads the type of a function, which has a normal form if its arguments have. -/
def readFunction (parts : PartReader) : Reader (Option (List Tree)) := fun trees =>
  let (front, rest) := readRow functionWord? trees
  match rest with
  | .group .parenthesis body :: rest =>
    let (arguments, left) := readArguments parts body
    let (result, after) := readResult parts rest
    ((arguments.mapM id).map fun rows =>
      front ++ .group .parenthesis (rows.flatten ++ left) :: result, after)
  | _ => (some front, rest)

/-! ## Types -/

/-- Reads what a reference or a pointer leads to. -/
def readReferent (parts : PartReader) : Reader (List Tree) :=
  ((readLifetime).andThen readAccess).andThen (parts .operand)
where
  readLifetime : Reader (List Tree)
    | .mark '\'' _ :: .word name :: rest => (Tree.lifetime name, rest)
    | trees => ([], trees)
  readAccess : Reader (List Tree)
    | .word "mut" :: rest => ([.word "mut"], rest)
    | .word "const" :: rest => ([.word "const"], rest)
    | trees => ([], trees)

/-- What the brackets of an array hold, or those of a slice, which has no length. -/
def arrayTrees (parts : PartReader) (body : List Tree) : List Tree :=
  match parts .type body with
  | (type, .mark ';' _ :: length) => type ++ .point ';' :: (parts .value).whole length
  | (type, rest) => type ++ rest

/-- Reads a path, and the bounds of which it may be the first, or the arguments
of the macro that it names. -/
def readPathType (parts : PartReader) (plus : Bool) (binder : List Tree) : Reader (List Tree) :=
  fun trees =>
    match readPath parts false trees with
    | (path, .mark '!' _ :: .group delimiter body :: rest) =>
      (path ++ [.point '!', .group delimiter body], rest)
    | (path, rest) =>
      let (more, after) := if plus then readMoreBounds parts rest else ([], rest)
      (binder ++ path ++ more, after)

/-- What has been read of trees, as it was written, and the rest. -/
def asWritten (trees rest : List Tree) : List Tree × List Tree :=
  (trees.take (trees.length - rest.length), rest)

/-- Reads a type, or a constant that stands in place of one. -/
def readType (parts : PartReader) (plus : Bool) : Reader (List Tree) := fun trees =>
  let (binder, body) := readBinder trees
  match body with
  | .word "dyn" :: .mark '*' _ :: rest => asWritten trees (readBounds parts plus rest).2
  | .word "dyn" :: rest => after [.word "dyn"] (readBounds parts plus rest)
  | .word "impl" :: rest => after [.word "impl"] (readBounds parts plus rest)
  | .word "fn" :: _ | .word "unsafe" :: _ | .word "extern" :: _ =>
    match readFunction parts body with
    | (some function, rest) => (binder ++ function, rest)
    | (none, rest) => asWritten trees rest
  | .word "_" :: rest => ([.word "_"], rest)
  | .literal value :: rest => ([.literal value], rest)
  | .mark '-' _ :: .literal value :: rest => ([.point '-', .literal value], rest)
  | .mark '!' _ :: rest => ([.point '!'], rest)
  | .mark '*' _ :: rest => after [.point '*'] (readReferent parts rest)
  | .mark '&' _ :: rest => after [.point '&'] (readReferent parts rest)
  | .mark '\'' _ :: _ => readBounds parts true body
  | .group .parenthesis (.mark '?' joined :: bound) :: rest =>
    let inside := (readTraitBound parts).whole (.mark '?' joined :: bound)
    after [.group .parenthesis inside] (readMoreBounds parts rest)
  | .group .parenthesis types :: rest =>
    let inside := (parts .type).separated.whole types
    after [.group .parenthesis inside] (if plus then readMoreBounds parts rest else ([], rest))
  | .group .bracket array :: rest => ([.group .bracket (arrayTrees parts array)], rest)
  | .group .brace block :: rest => ([.group .brace block], rest)
  | _ => readPathType parts plus binder body
where
  after (front : List Tree) (read : List Tree × List Tree) : List Tree × List Tree :=
    (front ++ read.1, read.2)

/-- Reads a part in which parts are nested `depth` deep at most. -/
def readPart : Nat → PartReader
  | 0, _ => fun trees => ([], trees)
  | depth + 1, .type => readType (readPart depth) true
  | depth + 1, .operand => readType (readPart depth) false
  | depth + 1, .value => readValue (readPart depth)

/-- Reads a text that has a mark behind it, which tells whether a last mark that
stays as it was written is joined to it. -/
def readText (text : String) (mark : Option Char) (read : PartReader → Reader (List Tree)) :
    List Tree :=
  let marks := String.ofList mark.toList
  let (found, rest) := read (readPart (text.length + 1)) (Tree.scan (text ++ marks))
  found ++ rest.take (rest.length - marks.length)

/-- The type that a text spells, with a mark behind it, in normal form. -/
def typeTrees (text : String) (mark : Option Char) : List Tree :=
  readText text mark fun parts => parts .type

/-- The subject of a condition, which has a colon behind it. It may have a
binder of its own. -/
def subjectTrees (text : String) : List Tree :=
  readText text (some ':') fun parts => readBinder.andThen (parts .type)

/-- The bounds that texts spell, in normal form. -/
def boundTrees (texts : List String) : List Tree :=
  readText (" + ".intercalate texts) none fun parts => readBounds parts true

end Metasyntax
