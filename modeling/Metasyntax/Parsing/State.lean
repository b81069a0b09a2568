import Metasyntax.Event

/-! The state of a reader: a place in a source, and a memory that survives
going back. The place keeps the text ahead of it at hand; the text is missing
when the place is not at a boundary of the source, which only a jump to a
checkpoint of another source can bring about. -/
namespace Metasyntax

structure Place where
  source : Source
  pos : Nat
  ahead? : Option (List Char)
  ahead?_eq : ahead? = dropBytes? source.chars pos

@[ext] theorem Place.ext {p q : Place} (source : p.source = q.source) (pos : p.pos = q.pos) :
    p = q := by
  obtain ⟨_, _, _, hp⟩ := p
  obtain ⟨_, _, _, hq⟩ := q
  cases source
  cases pos
  cases hp
  cases hq
  rfl

/-- The place at a byte offset, wherever that is. -/
def Place.jump (source : Source) (pos : Nat) : Place := ⟨source, pos, _, rfl⟩

/-- The place at the last boundary up to an offset. -/
def Place.at (source : Source) (pos : Nat) : Place :=
  .jump source (boundaryBefore source.chars pos)

/-- The place after the characters that come next. -/
def Place.advance (place : Place) (consumed rest : List Char)
    (next : place.ahead? = some (consumed ++ rest)) : Place where
  source := place.source
  pos := place.pos + utf8Length consumed
  ahead? := some rest
  ahead?_eq := (dropBytes?_advance (place.ahead?_eq ▸ next)).symm

/-- Between two characters of the source, or at one of its ends. -/
def Place.Aligned (place : Place) : Prop := IsBoundary place.source.chars place.pos

def Place.atEnd (place : Place) : Bool := place.source.size ≤ place.pos

/-- The bytes from a place to the end of its source. -/
def Place.remaining (place : Place) : Nat := place.source.size - place.pos

/-- Memory is the furthest failure and the events so far, the latest first. -/
structure State where
  place : Place
  furthest : Option Failure
  log : List Event

def State.start (source : Source) : State := ⟨.jump source 0, none, []⟩

def State.at (source : Source) (pos : Nat) : State := ⟨.at source pos, none, []⟩

def State.pos (s : State) : Nat := s.place.pos

def State.source (s : State) : Source := s.place.source

def State.ahead? (s : State) : Option (List Char) := s.place.ahead?

def State.atEnd (s : State) : Bool := s.place.atEnd

def State.remaining (s : State) : Nat := s.place.remaining

/-- The events in the order in which they happened. -/
def State.events (s : State) : List Event := s.log.reverse

/-- A position to come back to. -/
structure Checkpoint where
  pos : Nat
  deriving DecidableEq, Repr

def State.checkpoint (s : State) : Checkpoint := ⟨s.pos⟩

/-- Going to a checkpoint changes the place and keeps the memory. -/
def State.rewind (s : State) (checkpoint : Checkpoint) : State :=
  { s with place := .jump s.source checkpoint.pos }

/-- The memory of one state at the place of another, an earlier one of the same run. -/
def State.backTo (s entry : State) : State := { s with place := entry.place }

/-- The furthest failure wins; of two at the same offset, the later one. -/
def Failure.merge (old : Option Failure) (new : Failure) : Failure :=
  match old with
  | some failure => if new.pos < failure.pos then failure else new
  | none => new

/-- Records what was expected at the place of the state. -/
def State.fail (s : State) (label : String) : State :=
  { s with furthest := some (Failure.merge s.furthest ⟨s.pos, label⟩) }

def State.note (s : State) (event : Event) : State := { s with log := event :: s.log }

def State.advance (s : State) (consumed rest : List Char)
    (next : s.ahead? = some (consumed ++ rest)) : State :=
  { s with place := s.place.advance consumed rest next }

end Metasyntax
