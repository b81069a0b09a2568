import Metasyntax.Symbol
import Metasyntax.Parsing.Parser

/-! Parsers for one character, and for a run of white space. -/
namespace Metasyntax.Parser

/-- A character that the test accepts. -/
def raw (accepts : Char → Bool) (label : String) : Parser Char := fun s =>
  match next : s.ahead? with
  | some (c :: rest) =>
    if accepts c then .matched (s.advance [c] rest next) c else .failed (s.fail label)
  | some [] => .failed (s.fail label)
  | none => .stuck s

def letter : Parser Char := raw isLetter "letter"

def digit : Parser Char := raw isDigit "digit"

def underscore : Parser Char := raw (· == '_') "'_'"

def symbol (symbol : Symbol) : Parser Char := raw (· == symbol.char) symbol.label

/-- A run of spaces, as long as possible and not empty. -/
def whitespace : Parser String := fun s =>
  match next : s.ahead? with
  | some cs =>
    let run := cs.takeWhile isSpace
    have split : s.ahead? = some (run ++ cs.dropWhile isSpace) := by
      rw [next, List.takeWhile_append_dropWhile]
    if run.isEmpty then .failed (s.fail "whitespace")
    else .matched (s.advance run (cs.dropWhile isSpace) split) (.ofList run)
  | none => .stuck s

/-- Any white space there is, even none. -/
def skipWhitespace : Parser Unit := do
  let _ ← whitespace.optional

end Metasyntax.Parser
