import Metasyntax.Parsing.Production

/-! Parsers as data: what can be built from the character parsers and the
productions by the combinators. `Matcher.run` says what each of them does. -/
namespace Metasyntax

/-- What a matcher gives. A constant match may carry a payload of any type. -/
inductive Value (α : Type) where
  | nothing
  | char (c : Char)
  | text (text : String)
  | identifier (identifier : Identifier)
  | rule (rule : Rule)
  | grammar (grammar : Grammar)
  | list (values : List (Value α))
  | optional (value : Option (Value α))
  | payload (payload : α)

inductive Matcher (α : Type) where
  | letter
  | digit
  | underscore
  | symbol (sign : Symbol)
  | raw (accepts : Char → Bool) (label : String)
  | whitespace
  | skipWhitespace
  | identifier
  | lhs
  | rhs
  | rule
  | grammar
  | succeed (payload : α)
  | fail (label : String)
  | inOrder (parts : List (Matcher α))
  | anyOf (candidates : List (Matcher α))
  | attempt (matcher : Matcher α)
  | repeated (matcher : Matcher α)
  | optional (matcher : Matcher α)

variable {α : Type}

mutual

def Matcher.run : Matcher α → Parser (Value α)
  | .letter => Parser.letter.map .char
  | .digit => Parser.digit.map .char
  | .underscore => Parser.underscore.map .char
  | .symbol sign => (Parser.symbol sign).map .char
  | .raw accepts label => (Parser.raw accepts label).map .char
  | .whitespace => Parser.whitespace.map .text
  | .skipWhitespace => Parser.skipWhitespace.map fun _ => .nothing
  | .identifier => Parser.identifier.map .identifier
  | .lhs => Parser.lhs.map .identifier
  | .rhs => Parser.rhs.map .identifier
  | .rule => Parser.rule.map .rule
  | .grammar => Parser.grammar.map .grammar
  | .succeed payload => Parser.succeed (.payload payload)
  | .fail label => Parser.fail label
  | .inOrder parts => (Parser.inOrder (Matcher.runEach parts)).map .list
  | .anyOf candidates => Parser.anyOf (Matcher.runEach candidates)
  | .attempt matcher => matcher.run.attempt
  | .repeated matcher => matcher.run.repeated.map .list
  | .optional matcher => matcher.run.optional.map .optional

def Matcher.runEach : List (Matcher α) → List (Parser (Value α))
  | [] => []
  | matcher :: matchers => matcher.run :: Matcher.runEach matchers

end

end Metasyntax
