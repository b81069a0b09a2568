import Metasyntax.ParseError
import Metasyntax.Expansion.Attribute
import Metasyntax.Expansion.FileTree

/-! Why an item cannot be expanded. -/
namespace Metasyntax

inductive ExpansionError where
  | missingSource
  | multipleSources
  | malformedBody (fault : BodyFault)
  /-- The attribute does not assign anything. -/
  | noValue
  | notString
  | unreadable (path : String) (fault : ReadFault)
  | grammar (error : ParseError)
  | reservedName (name : String)
  | other (text : String)
  deriving DecidableEq, Repr

def ExpansionError.message : ExpansionError → String
  | .missingSource => "No grammar source provided"
  | .multipleSources => "At most one grammar source can be provided"
  | .malformedBody fault => "Derive error: syn error: " ++ fault.message
  | .noValue => "Derive error: attribute not a name value"
  | .notString => "Grammar source must be a string literal"
  | .unreadable path fault => "Failed to read ebnf file " ++ path ++ ": " ++ fault.message
  | .grammar error => "Invalid grammar: " ++ error.message
  | .reservedName name => "Rule name '" ++ name ++ "' can't be used as an identifier"
  | .other text => "Derive error: " ++ text

/-- The error as program text that fails to compile with its message. -/
def ExpansionError.trees (error : ExpansionError) : List Tree :=
  [.word "compile_error", .point '!', .group .brace [.literal (.ofText error.message)]]

end Metasyntax
