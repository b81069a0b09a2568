import Metasyntax.Parsing.State

/-! Parsers and the ways to combine them. A parser that does not match hands
back a state too: its place is where it gave up, its memory holds what it
expected. -/
namespace Metasyntax

inductive Outcome (α : Type) where
  | matched (state : State) (value : α)
  | failed (state : State)
  /-- The text was needed at a place that is no boundary. -/
  | stuck (state : State)

def Parser (α : Type) : Type := State → Outcome α

variable {α β : Type}

def Outcome.bind (outcome : Outcome α) (next : α → Parser β) : Outcome β :=
  match outcome with
  | .matched s value => next value s
  | .failed s => .failed s
  | .stuck s => .stuck s

def Outcome.map (f : α → β) : Outcome α → Outcome β
  | .matched s value => .matched s (f value)
  | .failed s => .failed s
  | .stuck s => .stuck s

namespace Parser

/-- Matches without reading anything. -/
def succeed (value : α) : Parser α := fun s => .matched s value

/-- One parser after another; the second starts where the first stopped. -/
def andThen (p : Parser α) (next : α → Parser β) : Parser β := fun s => (p s).bind next

instance : Monad Parser where
  pure := succeed
  bind := andThen

def map (f : α → β) (p : Parser α) : Parser β := fun s => (p s).map f

def fail (label : String) : Parser α := fun s => .failed (s.fail label)

/-- Reports an event that holds the offset. -/
def report (event : Nat → Event) : Parser Unit := fun s => .matched (s.note (event s.pos)) ()

/-- Names what a failing parser was meant to find. -/
def expecting (label : String) (p : Parser α) : Parser α := fun s =>
  match p s with
  | .failed t => .failed (t.fail label)
  | outcome => outcome

/-- A parser that gives up where it began. -/
def attempt (p : Parser α) : Parser α := fun s =>
  match p s with
  | .failed t => .failed (t.backTo s)
  | outcome => outcome

/-- The first candidate that matches. Each starts where the choice does. -/
def anyOf : List (Parser α) → Parser α
  | [] => fun s => .failed s
  | p :: ps => fun s =>
    match p.attempt s with
    | .failed t => anyOf ps t
    | outcome => outcome

/-- All of the parsers, in turn. -/
def inOrder : List (Parser α) → Parser (List α)
  | [] => succeed []
  | p :: ps => do
    let value ← p
    let values ← inOrder ps
    return value :: values

/-- As often as the parser matches. A match that leaves no fewer bytes to read
is the last one. -/
def repeated (p : Parser α) : Parser (List α) := fun s =>
  match p.attempt s with
  | .matched t value =>
    if t.remaining < s.remaining then (repeated p t).map (value :: ·) else .matched t [value]
  | .failed t => .matched t []
  | .stuck t => .stuck t
termination_by s => s.remaining

def optional (p : Parser α) : Parser (Option α) := fun s =>
  match p.attempt s with
  | .matched t value => .matched t (some value)
  | .failed t => .matched t none
  | .stuck t => .stuck t

end Parser

end Metasyntax
