import Metasyntax.Grammar

/-! The definitions of a grammar: its rules gathered by the name they define. -/
namespace Metasyntax

/-- A name and everything it is defined as, in the order of the rules. -/
structure Definition where
  name : Identifier
  alternatives : List Identifier
  deriving DecidableEq, Repr

/-- Adds a rule to the definition of its name, or opens one at the end. -/
def Definition.insert (rule : Rule) : List Definition → List Definition
  | [] => [⟨rule.lhs, [rule.rhs]⟩]
  | definition :: definitions =>
    if definition.name = rule.lhs then
      { definition with alternatives := definition.alternatives ++ [rule.rhs] } :: definitions
    else definition :: Definition.insert rule definitions

/-- The definitions in the order in which their names first occur. -/
def Grammar.definitions (grammar : Grammar) : List Definition :=
  grammar.rules.foldl (fun definitions rule => Definition.insert rule definitions) []

end Metasyntax
