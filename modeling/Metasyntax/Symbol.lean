/-! The symbols of the notation. A rule as it is read today needs only two of
them; the others belong to right-hand sides that are more than a name. -/
namespace Metasyntax

inductive Symbol where
  | startOption
  | endOption
  | startRepeat
  | endRepeat
  | firstQuote
  | secondQuote
  | definition
  | alternation
  | concatenation
  | termination
  deriving DecidableEq, Repr

def Symbol.char : Symbol → Char
  | .startOption => '['
  | .endOption => ']'
  | .startRepeat => '\x7b'
  | .endRepeat => '\x7d'
  | .firstQuote => '\''
  | .secondQuote => '"'
  | .definition => '='
  | .alternation => '|'
  | .concatenation => ','
  | .termination => ';'

/-- The symbol as an error names it: between single quotes, unless it is one. -/
def Symbol.label (symbol : Symbol) : String :=
  let mark := if symbol = .firstQuote then '"' else '\''
  .ofList [mark, symbol.char, mark]

end Metasyntax
