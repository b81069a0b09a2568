import Metasyntax.Text.Coordinates
import Metasyntax.Text.Quoted

/-! Why a text is no grammar: something else was expected at a place, or the
text goes on after its end. -/
namespace Metasyntax

inductive ParseError where
  | expected (label : String) (pos : Nat) (place : Coordinates)
  | trailing (pos : Nat) (place : Coordinates)
  deriving DecidableEq, Repr

def ParseError.pos : ParseError → Nat
  | .expected _ pos _ | .trailing pos _ => pos

def ParseError.place : ParseError → Coordinates
  | .expected _ _ place | .trailing _ place => place

def Coordinates.render (place : Coordinates) : String :=
  toString place.line ++ ":" ++ toString place.column

def ParseError.message : ParseError → String
  | .expected label _ place =>
    "failed to parse: expected " ++ label ++ " at " ++ place.render
  | .trailing _ place => "failed to parse: unexpected input at " ++ place.render

def Coordinates.inspectFields (pos : Nat) (place : Coordinates) : String :=
  "pos: " ++ toString pos ++ ", line: " ++ toString place.line ++
    ", column: " ++ toString place.column

def ParseError.inspect : ParseError → String
  | .expected label pos place =>
    "Parse \x7b " ++ place.inspectFields pos ++ ", expected: " ++ inspectText label ++ " \x7d"
  | .trailing pos place => "TrailingInput \x7b " ++ place.inspectFields pos ++ " \x7d"

end Metasyntax
