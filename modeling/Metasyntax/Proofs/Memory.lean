import Metasyntax.Proofs.Symmetry

/-! The memory of a state is written and never read by parsers. What an earlier run
has left in it changes nothing about where a parser ends and what it finds. -/
namespace Metasyntax

variable {α : Type}

/-- What is left of an older memory and a newer one. The older stays if there is no
newer, or if its failure lies further ahead. -/
def Failure.survivor : Option Failure → Option Failure → Option Failure
  | old, none => old
  | none, some new => some new
  | some old, some new => if new.pos < old.pos then some old else some new

theorem Failure.survivor_some (old : Option Failure) (new : Failure) :
    survivor old (some new) = some (merge old new) := by
  cases old with
  | none => rfl
  | some old => exact (apply_ite some _ _ _).symm

/-- Of three failures the same is left whichever two meet first. -/
theorem Failure.survivor_merge (old middle : Option Failure) (new : Failure) :
    survivor old (some (merge middle new)) = some (merge (survivor old middle) new) := by
  rw [survivor_some]
  congr 1
  cases middle with
  | none => cases old <;> rfl
  | some middle =>
    rw [survivor_some]
    cases old with
    | none => rfl
    | some old =>
      by_cases hidden : new.pos < middle.pos
      · by_cases earlier : middle.pos < old.pos
        · have behind : new.pos < old.pos := by omega
          simp [merge, hidden, earlier, behind]
        · simp [merge, hidden, earlier]
      · by_cases earlier : middle.pos < old.pos
        · simp [merge, hidden, earlier]
        · have newer : ¬ new.pos < old.pos := by omega
          simp [merge, hidden, earlier, newer]

/-- An event as it is reported by a run that has the older memory. -/
def Event.recalling (old : Option Failure) : Event → Event
  | .stopped pos furthest => .stopped pos (Failure.survivor old furthest)
  | event => event

/-- The state of a run that began with the older failure and the older events. -/
def State.recalling (old : Option Failure) (older : List Event) (s : State) : State :=
  ⟨s.place, Failure.survivor old s.furthest, s.log.map (Event.recalling old) ++ older⟩

def Symmetry.recalling (old : Option Failure) (older : List Event) : Symmetry where
  change := State.recalling old older
  ahead _ := rfl
  remaining _ := rfl
  advance _ _ _ _ := rfl
  backTo _ _ := rfl
  fail s label := by
    simp only [State.recalling, State.fail, Failure.survivor_merge]
    rfl
  identifier _ _ := rfl
  rule _ _ := rfl
  stopped _ := rfl

/-- The state at the same place of a run that has just begun. -/
def State.withoutMemory (s : State) : State := ⟨s.place, none, []⟩

/-- A run with memory ends as the one without, and recalls what that one has not known. -/
theorem Parser.Built.recalled {p : Parser α} (built : p.Built) {s t : State} {result : Option α}
    (ended : p s.withoutMemory = .ended result t) :
    p s = .ended result (t.recalling s.furthest s.log) := by
  have run := built.respects (.recalling s.furthest s.log) s.withoutMemory
  rw [ended, Outcome.mapState_ended] at run
  exact run

/-- Runs that begin at one place find the same and end at one place. -/
theorem Parser.Built.ends_alike {p : Parser α} (built : p.Built) {s other : State}
    {rest : List Char} (ahead : s.ahead? = some rest) (same : other.place = s.place) :
    ∃ (result : Option α) (t u : State),
      p s = .ended result t ∧ p other = .ended result u ∧ u.place = t.place := by
  obtain ⟨result, t, ended, -⟩ := built.ends s.withoutMemory rest ahead
  have forgotten : other.withoutMemory = s.withoutMemory :=
    congrArg (State.mk · none []) same
  have alike : p other.withoutMemory = .ended result t := by rw [forgotten, ended]
  exact ⟨result, _, _, built.recalled ended, built.recalled alike, rfl⟩

/-- **Memory never decides.** A parser run with memory ends as it does without: at
the same place, with the same value if it matches. Of the failure it began with and
the furthest of the run without memory, the one further ahead is left, and of two at
one offset the newer. -/
theorem memory_never_decides {p : Parser α} (built : p.Built) (s : State)
    (aligned : s.place.Aligned) :
    ∃ (result : Option α) (t u : State),
      p s.withoutMemory = .ended result t ∧ p s = .ended result u ∧
      u.place = t.place ∧ u.furthest = Failure.survivor s.furthest t.furthest := by
  obtain ⟨rest, ahead⟩ := aligned.ahead
  obtain ⟨result, t, ended, -⟩ := built.ends s.withoutMemory rest ahead
  refine ⟨result, t, t.recalling s.furthest s.log, ended, ?_, rfl, rfl⟩
  have same := built.respects (.recalling s.furthest s.log) s.withoutMemory
  rw [ended, Outcome.mapState_ended] at same
  exact same

/-- The failure of an attempt that is given up, and one from before at its offset. -/
theorem attempt_with_tied_failures :
    let p : Parser Char := Parser.attempt (Parser.letter.andThen fun _ =>
      Parser.skipWhitespace.andThen fun _ => Parser.digit)
    let s : State := ⟨.jump (.ofString "éa-") 2, some ⟨3, "older"⟩, []⟩
    p.Built ∧ s.place.Aligned ∧ ∃ t u : State,
      p s.withoutMemory = .failed t ∧ p s = .failed u ∧ u.place = t.place ∧ u.pos = 2 ∧
      t.furthest = some ⟨3, "digit"⟩ ∧ u.furthest = some ⟨3, "digit"⟩ := by
  intro p s
  have built : p.Built := .attempt (.andThen (.raw _ _) fun _ =>
    .andThen Parser.built_skipWhitespace fun _ => .raw _ _)
  have aligned : s.place.Aligned := ⟨['é'], ['a', '-'], rfl, rfl⟩
  obtain ⟨result, t, u, alone, ended, place, survives⟩ := memory_never_decides built s aligned
  have seen : (p s.withoutMemory).ending? = some (none, 2, some ⟨3, "digit"⟩) := by
    decide +kernel
  rw [alone, Outcome.ending?_ended_iff] at seen
  obtain ⟨rfl, pos, furthest⟩ := seen
  rw [furthest] at survives
  exact ⟨built, aligned, t, u, alone, ended, place, (congrArg Place.pos place).trans pos,
    furthest, survives⟩

end Metasyntax
