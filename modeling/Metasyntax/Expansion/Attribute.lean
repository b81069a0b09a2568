import Metasyntax.Token.Scan

/-! Attributes of an item, and what their bodies mean. A body is well formed if
it is nothing, a value after an equals sign, or a list in parentheses of
literals and of further names with bodies. -/
namespace Metasyntax

/-- The path of an attribute, and all that stands behind it. -/
structure Attribute where
  path : List Tree
  body : List Tree

/-- A body that assigns a string. -/
def assignment (text : String) : List Tree := [.point '=', .literal (.ofText text)]

/-- The name of an attribute whose path is a single word. -/
def Attribute.name? (attr : Attribute) : Option String :=
  match attr.path with
  | [.word spelling] => some spelling
  | _ => none

/-- Why a body is not well formed. `early` says that the body ended too soon. -/
inductive BodyFault where
  | expectedLiteral (early : Bool)
  | unexpectedToken
  | expectedElement
  | expectedComma
  | expectedSegment (early : Bool)
  deriving DecidableEq, Repr

def BodyFault.message : BodyFault → String
  | .expectedLiteral early => ending early ++ "expected literal"
  | .unexpectedToken => "unexpected token"
  | .expectedElement => "expected identifier or literal"
  | .expectedComma => "expected \x60,\x60"
  | .expectedSegment early => ending early ++ "expected path segment"
where
  ending (early : Bool) : String := if early then "unexpected end of input, " else ""

def isTruthValue (spelling : String) : Bool := spelling = "true" || spelling = "false"

def Literal.isNumber (value : Literal) : Bool := value.spelling.toList.head?.any isDigit

def Literal.negated (value : Literal) : Literal := ⟨"-" ++ value.spelling, none⟩

/-- A literal at the front, and what follows it. Truth values are literals, and
a number may be negative. -/
def leadingLiteral? : List Tree → Option (Literal × List Tree)
  | .literal value :: rest => some (value, rest)
  | .word spelling :: rest =>
    if isTruthValue spelling then some (⟨spelling, none⟩, rest) else none
  | .mark '-' _ :: .literal value :: rest =>
    if value.isNumber then some (value.negated, rest) else none
  | _ => none

/-- What a list may go on with: an element, the rest of a name, the value that
a name is given, or the end of an element that is complete. -/
inductive ListPhase where
  | element
  | name
  | value
  | complete
  deriving DecidableEq, Repr

def Tree.isArguments : Tree → Bool
  | .group .parenthesis _ => true
  | _ => false

mutual

/-- The first fault of a list, read from the front. -/
def listFault? : ListPhase → List Tree → Option BodyFault
  | .value, [] => some (.expectedLiteral true)
  | _, [] => none
  | .element, .literal _ :: rest => listFault? .complete rest
  | .element, .word spelling :: rest =>
    match isTruthValue spelling, rest with
    | true, .mark '=' _ :: _ => listFault? .name rest
    | true, _ => listFault? .complete rest
    | false, _ => listFault? .name rest
  | .element, .mark '-' _ :: .literal value :: rest =>
    if value.isNumber then listFault? .complete rest else some .expectedElement
  | .element, .mark ':' true :: .mark ':' _ :: .word _ :: rest => listFault? .name rest
  | .element, _ :: _ => some .expectedElement
  | .name, .mark ':' true :: .mark ':' _ :: .word _ :: rest => listFault? .name rest
  | .name, .mark ':' true :: .mark ':' _ :: rest => some (.expectedSegment rest.isEmpty)
  | .name, .mark '=' _ :: rest => listFault? .value rest
  | .name, .mark ',' _ :: rest => listFault? .element rest
  | .name, tree :: rest =>
    if tree.isArguments then tree.argumentFault?.or (listFault? .complete rest)
    else some .expectedComma
  | .value, .literal _ :: rest => listFault? .complete rest
  | .value, .word spelling :: rest =>
    if isTruthValue spelling then listFault? .complete rest else some (.expectedLiteral false)
  | .value, .mark '-' _ :: .literal value :: rest =>
    if value.isNumber then listFault? .complete rest else some (.expectedLiteral false)
  | .value, _ :: _ => some (.expectedLiteral false)
  | .complete, .mark ',' _ :: rest => listFault? .element rest
  | .complete, _ :: _ => some .expectedComma

/-- The first fault in what parentheses hold. -/
def Tree.argumentFault? : Tree → Option BodyFault
  | .group _ body => listFault? .element body
  | _ => none

end

/-- The literal that the body of an attribute assigns, if it assigns one. -/
def Attribute.assigned? (attr : Attribute) : Except BodyFault (Option Literal) :=
  match attr.body with
  | [] => .ok none
  | .group .parenthesis trees :: rest =>
    match listFault? .element trees, rest with
    | some fault, _ => .error fault
    | none, [] => .ok none
    | none, _ :: _ => .error .unexpectedToken
  | .mark '=' _ :: trees =>
    match leadingLiteral? trees with
    | some (value, []) => .ok (some value)
    | some (_, _ :: _) => .error .unexpectedToken
    | none => .error (.expectedLiteral trees.isEmpty)
  | _ => .error .unexpectedToken

end Metasyntax
