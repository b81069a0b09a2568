import Metasyntax.Parsing.Production

/-! Strict reading: the whole of a text must be an identifier, a rule or a
grammar, and what is wrong with it is said in one error. -/
namespace Metasyntax

/-- Here the text should have ended. -/
def State.trailing (s : State) : ParseError :=
  .trailing s.pos (s.source.coordinates s.pos)

/-- The furthest failure, unless it lies behind the place that was reached. -/
def State.error (s : State) : ParseError :=
  match s.furthest with
  | some failure =>
    if s.pos ≤ failure.pos then
      .expected failure.label failure.pos (s.source.coordinates failure.pos)
    else s.trailing
  | none => s.trailing

/-- The value of a parser that reads a source to its end. -/
def Parser.readAll {α : Type} (p : Parser α) (source : Source) : Except ParseError α :=
  match p (State.start source) with
  | .matched s value => if s.atEnd then .ok value else .error s.trailing
  | .failed s => .error s.error
  | .stuck s => .error s.error

def Identifier.parse (text : String) : Except ParseError Identifier :=
  Parser.identifier.readAll (.ofString text)

/-- One rule, with white space around it. -/
def Parser.spacedRule : Parser Rule := do
  skipWhitespace
  let rule ← Parser.rule
  skipWhitespace
  return rule

def Rule.parse (text : String) : Except ParseError Rule :=
  Parser.spacedRule.readAll (.ofString text)

/-- A grammar that must reach the end: what stopped it is the error. -/
def State.reachedEnd {α : Type} (s : State) (value : α) : Except ParseError α :=
  if s.atEnd then .ok value else .error s.error

def Grammar.parse (text : String) : Except ParseError Grammar :=
  match Parser.grammar (State.start (.ofString text)) with
  | .matched s grammar => s.reachedEnd grammar
  | .failed s => .error s.error
  | .stuck s => .error s.error

/-- A grammar from the texts of its names. Each text must be an identifier; of
several that are not, the first gives the error. -/
def Grammar.ofTexts (texts : List (String × String)) : Except ParseError Grammar := do
  let rules ← texts.mapM fun (left, right) => do
    let lhs ← Identifier.parse left
    let rhs ← Identifier.parse right
    return (⟨lhs, rhs⟩ : Rule)
  return ⟨rules⟩

/-- The same value is read from its written form. -/
def Rule.rereads (rule : Rule) : Bool :=
  match Rule.parse rule.render with
  | .ok again => again == rule
  | .error _ => false

def Grammar.rereads (grammar : Grammar) : Bool :=
  match Grammar.parse grammar.render with
  | .ok again => again == grammar
  | .error _ => false

end Metasyntax
