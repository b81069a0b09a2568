import Metasyntax.Grammar
import Metasyntax.ParseError

/-! What reading a text reports while it goes on. Events are never taken back,
not even those of a rule that is given up half way. -/
namespace Metasyntax

/-- Something that was expected at a byte offset and was not there. -/
structure Failure where
  pos : Nat
  label : String
  deriving DecidableEq, Repr

/-- The two calls that read a whole grammar. -/
inductive GrammarCall where
  | parse
  | tryParse
  deriving DecidableEq, Repr

inductive Event where
  /-- A call that reads a grammar begins, with the cursor it finds. -/
  | entered (call : GrammarCall) (cursor : Nat)
  /-- An identifier that ends at the offset. -/
  | identifier (identifier : Identifier) (pos : Nat)
  | rule (rule : Rule)
  /-- No rule starts at the offset although the text goes on there. -/
  | stopped (pos : Nat) (furthest : Option Failure)
  | rejected (error : ParseError)
  deriving DecidableEq, Repr

def Failure.inspect (failure : Failure) : String :=
  "Failure \x7b pos: " ++ toString failure.pos ++
    ", expected: " ++ inspectText failure.label ++ " \x7d"

def inspectFailure : Option Failure → String
  | none => "None"
  | some failure => "Some(" ++ failure.inspect ++ ")"

end Metasyntax
