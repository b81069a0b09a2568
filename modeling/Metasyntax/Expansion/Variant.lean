import Metasyntax.Expansion.Definition
import Metasyntax.Expansion.Error

/-! The variants of the rule enumeration, one for each definition. -/
namespace Metasyntax

/-- Words that the expansion cannot use as a name in any spelling. -/
def reservedNames : List String := ["self", "Self", "super", "crate"]

/-- Words that are names only in their raw spelling. Words that became special
after the first edition of the target language are not among them. -/
def keywords : List String :=
  ["abstract", "as", "become", "box", "break", "const", "continue", "do", "else", "enum", "extern",
   "false", "final", "fn", "for", "if", "impl", "in", "let", "loop", "macro", "match", "mod",
   "move", "mut", "override", "priv", "pub", "ref", "return", "static", "struct", "trait", "true",
   "type", "typeof", "unsafe", "unsized", "use", "virtual", "where", "while", "yield"]

/-- Whether a word is a name as it is. -/
def isName (word : String) : Bool := !(reservedNames ++ keywords).contains word

/-- The name of the variant that stands for an identifier, by the words that are names
as they are. Any other takes its raw spelling, unless it is reserved. -/
def Identifier.variantBy (accepts : String → Bool) (identifier : Identifier) :
    Except ExpansionError String :=
  if identifier.name ∈ reservedNames then .error (.reservedName identifier.name)
  else .ok (if accepts identifier.name then identifier.name else "r#" ++ identifier.name)

def Identifier.variant (identifier : Identifier) : Except ExpansionError String :=
  identifier.variantBy isName

/-- A definition with the variant that stands for its name. -/
structure Variant where
  spelling : String
  definition : Definition
  deriving DecidableEq, Repr

/-- The variants in the order of the definitions. Of several reserved names the
first is the error. -/
def Grammar.variantsBy (accepts : String → Bool) (grammar : Grammar) :
    Except ExpansionError (List Variant) :=
  grammar.definitions.mapM fun definition => do
    return ⟨← definition.name.variantBy accepts, definition⟩

def Grammar.variants (grammar : Grammar) : Except ExpansionError (List Variant) :=
  grammar.variantsBy isName

end Metasyntax
