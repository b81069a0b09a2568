import Metasyntax.Parsing.Matcher

/-! A walk over one source: matchers run one after another on the same state,
with checkpoints to go back to. A jump to a checkpoint of another source may
leave the walk where no text can be read; it goes on from there all the same. -/
namespace Metasyntax

inductive Step (α : Type) where
  | look
  | checkpoint
  /-- Back to a checkpoint taken earlier, counted from the first. -/
  | rewind (index : Nat)
  /-- To a checkpoint taken at an offset of another source. -/
  | rewindElsewhere (other : Source) (pos : Nat)
  | fail (label : String)
  | run (matcher : Matcher α)

structure Walk where
  state : State
  saved : List Checkpoint

def Walk.start (state : State) : Walk := ⟨state, []⟩

/-- What can be seen of a state. -/
structure View where
  text : List Char
  pos : Nat
  rest : List Char
  atEnd : Bool
  furthest : Option Failure

/-- Nothing can be seen where no text can be read. -/
def State.view? (s : State) : Option View :=
  s.ahead?.map fun rest => ⟨s.source.chars, s.pos, rest, s.atEnd, s.furthest⟩

/-- How a step went: the matcher's value if it matched, and for a step that
runs no matcher nothing but that it was taken. -/
inductive StepResult (α : Type) where
  | done
  | matched (value : Value α)
  | failed

variable {α : Type}

/-- The walk after a step, and how the step went unless it got stuck. A step
that gets stuck leaves the walk as it was. -/
def Walk.step (walk : Walk) : Step α → Walk × Option (StepResult α)
  | .look => (walk, some .done)
  | .checkpoint => ({ walk with saved := walk.saved ++ [walk.state.checkpoint] }, some .done)
  | .rewind index =>
    match walk.saved[index]? with
    | some checkpoint => ({ walk with state := walk.state.rewind checkpoint }, some .done)
    | none => (walk, none)
  | .rewindElsewhere other pos =>
    ({ walk with state := walk.state.rewind (State.at other pos).checkpoint }, some .done)
  | .fail label => ({ walk with state := walk.state.fail label }, some .done)
  | .run matcher =>
    match matcher.run walk.state with
    | .matched s value => ({ walk with state := s }, some (.matched value))
    | .failed s => ({ walk with state := s }, some .failed)
    | .stuck _ => (walk, none)

/-- What each step of a walk shows: the state after it and how it went. A step
that got stuck, or that ends where no text can be read, shows nothing. -/
def Walk.shows (walk : Walk) : List (Step α) → List (Option (View × StepResult α))
  | [] => []
  | step :: steps =>
    let (next, result) := walk.step step
    let shown := result.bind fun result => next.state.view?.map fun view => (view, result)
    shown :: next.shows steps

end Metasyntax
