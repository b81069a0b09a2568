import Metasyntax.Text.Quoted

/-! Grammars: lists of rules, each of which defines a name by a name. `render`
writes the notation that can be read again, `inspect` names every part. -/
namespace Metasyntax

structure Identifier where
  name : String
  deriving DecidableEq, Repr

structure Rule where
  lhs : Identifier
  rhs : Identifier
  deriving DecidableEq, Repr

/-- Rules in the order in which they were written. -/
structure Grammar where
  rules : List Rule
  deriving DecidableEq, Repr

def Grammar.empty : Grammar := ⟨[]⟩

def isLetter (c : Char) : Bool := ('a' ≤ c && c ≤ 'z') || ('A' ≤ c && c ≤ 'Z')

def isDigit (c : Char) : Bool := '0' ≤ c && c ≤ '9'

/-- A character that may follow the first of an identifier. -/
def isWordChar (c : Char) : Bool := isLetter c || isDigit c || c == '_'

/-- An identifier is a letter followed by letters, digits and underscores. -/
def IsWord : List Char → Prop
  | [] => False
  | c :: cs => isLetter c = true ∧ cs.all isWordChar = true

instance : DecidablePred IsWord
  | [] => inferInstanceAs (Decidable False)
  | c :: cs => inferInstanceAs (Decidable (isLetter c = true ∧ cs.all isWordChar = true))

def Identifier.Valid (identifier : Identifier) : Prop := IsWord identifier.name.toList

instance (identifier : Identifier) : Decidable identifier.Valid :=
  inferInstanceAs (Decidable (IsWord _))

def Rule.Valid (rule : Rule) : Prop := rule.lhs.Valid ∧ rule.rhs.Valid

instance (rule : Rule) : Decidable rule.Valid :=
  inferInstanceAs (Decidable (rule.lhs.Valid ∧ rule.rhs.Valid))

def Grammar.Valid (grammar : Grammar) : Prop := ∀ rule ∈ grammar.rules, rule.Valid

instance (grammar : Grammar) : Decidable grammar.Valid :=
  inferInstanceAs (Decidable (∀ rule ∈ grammar.rules, rule.Valid))

def Identifier.render (identifier : Identifier) : String := identifier.name

def Rule.render (rule : Rule) : String := rule.lhs.render ++ " = " ++ rule.rhs.render ++ " ;"

/-- One rule a line. -/
def Grammar.render (grammar : Grammar) : String :=
  .join (grammar.rules.map fun rule => rule.render ++ "\n")

def Identifier.inspect (identifier : Identifier) : String :=
  "Identifier(" ++ inspectText identifier.name ++ ")"

def Rule.inspect (rule : Rule) : String :=
  "Rule \x7b lhs: " ++ rule.lhs.inspect ++ ", rhs: " ++ rule.rhs.inspect ++ " \x7d"

def Grammar.inspect (grammar : Grammar) : String :=
  "Grammar \x7b rules: [" ++ ", ".intercalate (grammar.rules.map Rule.inspect) ++ "] \x7d"

def Grammar.length (grammar : Grammar) : Nat := grammar.rules.length

def Grammar.isEmpty (grammar : Grammar) : Bool := grammar.rules.isEmpty

def Grammar.identifiers (grammar : Grammar) : List Identifier :=
  grammar.rules.flatMap fun rule => [rule.lhs, rule.rhs]

/-- How many rules there are, a repeated one counted once. -/
def Grammar.distinctRules (grammar : Grammar) : Nat := grammar.rules.eraseDups.length

def Grammar.distinctIdentifiers (grammar : Grammar) : Nat :=
  grammar.identifiers.eraseDups.length

end Metasyntax
