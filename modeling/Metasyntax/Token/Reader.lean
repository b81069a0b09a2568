import Metasyntax.Token.Tree

/-! Reading trees from the front. A reader is total: what it does not understand
is among the trees that it leaves. -/
namespace Metasyntax

/-- What is found at the front of trees, and the trees behind it. -/
abbrev Reader (α : Type) := List Tree → α × List Tree

/-- One reader, and another on what the first has left. -/
def Reader.andThen (first second : Reader (List Tree)) : Reader (List Tree) := fun trees =>
  let (front, rest) := first trees
  let (back, after) := second rest
  (front ++ back, after)

/-- Takes a step as long as it finds something and moves forward, `count` times
at most. -/
def readUpTo {α : Type} (step : List Tree → Option (α × List Tree)) : Nat → Reader (List α)
  | 0, trees => ([], trees)
  | count + 1, trees =>
    match step trees with
    | none => ([], trees)
    | some (value, rest) =>
      if rest.length < trees.length then
        let (values, after) := readUpTo step count rest
        (value :: values, after)
      else ([], trees)

/-- Takes a step as often as it finds something. -/
def readMany {α : Type} (step : List Tree → Option (α × List Tree)) : Reader (List α) :=
  fun trees => readUpTo step trees.length trees

/-- All that a step finds, in one row. -/
def readRow (step : List Tree → Option (List Tree × List Tree)) : Reader (List Tree) :=
  fun trees =>
    let (rows, rest) := readMany step trees
    (rows.flatten, rest)

/-- Items with commas between them, and maybe behind the last. -/
def Reader.separated (item : Reader (List Tree)) : Reader (List Tree) :=
  readRow fun
    | [] => none
    | .mark ',' _ :: rest => some ([.point ','], rest)
    | trees => some (item trees)

/-- What a reader finds in trees, and what it leaves of them as it is. -/
def Reader.whole (read : Reader (List Tree)) (trees : List Tree) : List Tree :=
  let (found, rest) := read trees
  found ++ rest

end Metasyntax
