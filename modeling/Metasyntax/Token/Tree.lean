import Metasyntax.Text.Quoted

/-! Program text as trees of tokens. Two tokens stand a blank apart, unless the
first is a mark that is joined to the second. Parentheses and brackets close
tightly around what they hold, braces do not. -/
namespace Metasyntax

inductive Delimiter where
  | parenthesis
  | bracket
  | brace
  deriving DecidableEq, Repr

/-- A literal as it is spelled, and the text that it stands for if it is a string. -/
structure Literal where
  spelling : String
  text : Option String
  deriving DecidableEq, Repr

def Literal.ofText (text : String) : Literal := ⟨quote text, some text⟩

/-- Words are names and keywords, marks are characters of punctuation. A mark
that is joined makes one sign with what follows it. -/
inductive Tree where
  | word (spelling : String)
  | mark (char : Char) (joined : Bool)
  | literal (value : Literal)
  | group (delimiter : Delimiter) (body : List Tree)

def Delimiter.enclose (delimiter : Delimiter) (body : String) : String :=
  match delimiter with
  | .parenthesis => "(" ++ body ++ ")"
  | .bracket => "[" ++ body ++ "]"
  | .brace => if body.isEmpty then "\x7b \x7d" else "\x7b " ++ body ++ " \x7d"

/-- What stands between a tree and the one after it. -/
def Tree.gap : Tree → String
  | .mark _ true => ""
  | _ => " "

mutual

def Tree.render : Tree → String
  | .word spelling => spelling
  | .mark char _ => toString char
  | .literal value => value.spelling
  | .group delimiter body => delimiter.enclose (Tree.renderAll body)

/-- Trees in a row. -/
def Tree.renderAll : List Tree → String
  | [] => ""
  | [tree] => tree.render
  | tree :: trees => tree.render ++ tree.gap ++ Tree.renderAll trees

end

/-- A mark by itself. -/
def Tree.point (char : Char) : Tree := .mark char false

/-- A sign of several marks, such as an arrow. -/
def Tree.sign : List Char → List Tree
  | [] => []
  | [char] => [.point char]
  | char :: chars => .mark char true :: Tree.sign chars

def Tree.lifetime (name : String) : List Tree := [.mark '\'' true, .word name]

/-- Rows of trees with a comma between any two. -/
def Tree.separated : List (List Tree) → List Tree
  | [] => []
  | [trees] => trees
  | trees :: rows => trees ++ .point ',' :: Tree.separated rows

end Metasyntax
