import Metasyntax.Reading

/-! A session reads sources call by call and keeps a cursor, a byte offset,
between the calls. The source may change from one call to the next: a call
starts at the last boundary of its source up to the cursor. -/
namespace Metasyntax

/-- Whether a grammar that stops before the end of its source is an error. -/
inductive Mode where
  | bestEffort
  | strict
  deriving DecidableEq, Repr

structure Session where
  cursor : Nat
  mode : Mode
  deriving DecidableEq, Repr

def Session.new (mode : Mode) : Session := ⟨0, mode⟩

inductive Call where
  | parse
  | tryParse
  | rule
  | lhs
  | rhs
  | identifier
  | whitespace
  | letter
  | digit
  | raw (accepts : Char → Bool)
  | cursor
  | reset

/-- What a call answers. A call for a part of a grammar answers with none if
the part does not match. -/
inductive Reply where
  | grammar (grammar : Option Grammar)
  | rejected (error : ParseError)
  | rule (rule : Option Rule)
  | identifier (identifier : Option Identifier)
  | text (text : Option String)
  | char (c : Option Char)
  | cursor (pos : Nat)
  | done
  /-- The text was needed at a place that is no boundary of the source. -/
  | stuck
  deriving DecidableEq, Repr

structure Turn where
  session : Session
  reply : Reply
  events : List Event

variable {α : Type}

/-- Runs a parser from the cursor. The cursor moves to where it stops, be it
after a match or not. -/
def Session.run (session : Session) (source : Source) (p : Parser α)
    (reply : Option α → Reply) : Turn :=
  match p (State.at source session.cursor) with
  | .matched s value => ⟨{ session with cursor := s.pos }, reply (some value), s.events⟩
  | .failed s => ⟨{ session with cursor := s.pos }, reply none, s.events⟩
  | .stuck s => ⟨session, .stuck, s.events⟩

/-- Reads a grammar and, in strict mode, rejects a source that goes on. -/
def Session.tryParse (session : Session) (source : Source) : Turn :=
  match Parser.grammar (State.at source session.cursor) with
  | .matched s grammar =>
    let next := { session with cursor := s.pos }
    match session.mode, s.reachedEnd grammar with
    | .strict, .error error => ⟨next, .rejected error, s.events ++ [.rejected error]⟩
    | _, _ => ⟨next, .grammar (some grammar), s.events⟩
  | .failed s => ⟨{ session with cursor := s.pos }, .grammar none, s.events⟩
  | .stuck s => ⟨session, .stuck, s.events⟩

def Turn.after (event : Event) (turn : Turn) : Turn := { turn with events := event :: turn.events }

def Session.call (session : Session) (source : Source) : Call → Turn
  | .parse => (session.run source .grammar .grammar).after (.entered .parse session.cursor)
  | .tryParse => (session.tryParse source).after (.entered .tryParse session.cursor)
  | .rule => session.run source .rule .rule
  | .lhs => session.run source .lhs .identifier
  | .rhs => session.run source .rhs .identifier
  | .identifier => session.run source .identifier .identifier
  | .whitespace => session.run source .whitespace .text
  | .letter => session.run source .letter .char
  | .digit => session.run source .digit .char
  | .raw accepts => session.run source (.raw accepts "pattern") .char
  | .cursor => ⟨session, .cursor session.cursor, []⟩
  | .reset => ⟨{ session with cursor := 0 }, .done, []⟩

/-- The turns of a run of calls, each with the source it is made on. -/
def Session.calls (session : Session) : List (Source × Call) → List Turn
  | [] => []
  | (source, call) :: later =>
    let turn := session.call source call
    turn :: turn.session.calls later

end Metasyntax
