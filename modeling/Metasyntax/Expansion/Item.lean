import Metasyntax.Expansion.Attribute
import Metasyntax.Expansion.TypeText

/-! The item that is expanded: its attributes, its name, and what it is generic
over. Whether it is a structure, an enumeration or a union makes no difference. -/
namespace Metasyntax

/-- A generic parameter. Of defaults, which only a definition may repeat, no more
is told than whether there is one. -/
inductive Parameter where
  | lifetime (name : String) (bounds : List String)
  | type (name : String) (bounds : List String)
  | constant (name : String) (valueType : String) (hasDefault : Bool)
  deriving DecidableEq, Repr

/-- A condition on a type or a lifetime. -/
structure Predicate where
  subject : String
  bounds : List String
  deriving DecidableEq, Repr

structure Item where
  attributes : List Attribute
  name : String
  parameters : List Parameter
  predicates : List Predicate

/-- The name of a parameter, all that stands where it is used. -/
def Parameter.used : Parameter → List Tree
  | .lifetime name _ | .type name _ | .constant name _ _ => Tree.scan name

/-- A bound that holds in constants only, which has a tilde. -/
def isConditional (trees : List Tree) : Bool :=
  trees.any fun
    | .mark '~' _ => true
    | _ => false

/-- A parameter with what is said where it is introduced, which ends before a
mark. A type with a conditional bound is introduced without bounds. -/
def Parameter.introduced (mark : Char) (parameter : Parameter) : List Tree :=
  match parameter with
  | .lifetime _ bounds => parameter.used ++ bounded (boundTrees bounds)
  | .type _ bounds =>
    let trees := boundTrees bounds
    parameter.used ++ if isConditional trees then [] else bounded trees
  | .constant _ valueType hasDefault =>
    .word "const" :: parameter.used ++
      .point ':' :: typeTrees valueType (if hasDefault then none else some mark)
where
  bounded (trees : List Tree) : List Tree := if trees.isEmpty then [] else .point ':' :: trees

/-- A list of parameters in angle brackets. Only the last has no comma behind it,
but the closing bracket. -/
def parameterTrees (write : Char → Parameter → List Tree) : List Parameter → List Tree
  | [] => []
  | parameters =>
    angleTrees ((parameters.dropLast.map fun parameter => ⟨write ',' parameter, true⟩) ++
      (parameters.getLast?.map fun parameter => ⟨write '>' parameter, false⟩).toList)

def Predicate.trees (predicate : Predicate) : List Tree :=
  subjectTrees predicate.subject ++ .point ':' :: boundTrees predicate.bounds

/-- The conditions, after the word that introduces them. -/
def whereTrees (predicates : List Predicate) : List Tree :=
  if predicates.isEmpty then []
  else .word "where" :: Tree.separated (predicates.map Predicate.trees)

end Metasyntax
