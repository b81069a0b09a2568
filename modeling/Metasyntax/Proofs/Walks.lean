import Metasyntax.Parsing.Walk
import Metasyntax.Proofs.Boundary
import Metasyntax.Proofs.Built

/-! A walk that only goes back to its own checkpoints never leaves its source. Its
place and its furthest failure are boundaries of the text, whatever parsers have been
run and given up, and what has been the furthest failure is never forgotten for an
earlier one. -/
namespace Metasyntax

variable {α : Type}

/-! ## Furthest failures -/

/-- A failure that is remembered stays, or gives way to one no earlier. -/
def Failure.Keeps (old new : Option Failure) : Prop :=
  ∀ failure, old = some failure → ∃ later, new = some later ∧ failure.pos ≤ later.pos

theorem Failure.Keeps.refl (old : Option Failure) : Keeps old old :=
  fun failure found => ⟨failure, found, Nat.le_refl _⟩

theorem Failure.Keeps.trans {old middle new : Option Failure} (first : Keeps old middle)
    (second : Keeps middle new) : Keeps old new := by
  intro failure found
  obtain ⟨next, there, le⟩ := first failure found
  obtain ⟨last, here, further⟩ := second next there
  exact ⟨last, here, Nat.le_trans le further⟩

theorem Failure.keeps_merge (old : Option Failure) (new : Failure) :
    Keeps old (some (merge old new)) := by
  intro failure found
  refine ⟨_, rfl, ?_⟩
  rw [found, merge]
  split
  · exact Nat.le_refl _
  · omega

theorem State.Leads.keeps {s t : State} (leads : s.Leads t) :
    Failure.Keeps s.furthest t.furthest := by
  induction leads with
  | here => exact .refl _
  | fail label _ ih => exact ih.trans (Failure.keeps_merge _ _)
  | note _ _ ih | advance _ _ _ _ ih => exact ih
  | back _ _ first second => exact first.trans second

/-! ## States of a source -/

/-- The place of the state and its furthest failure are boundaries of the source. -/
structure State.Within (s : State) (source : Source) : Prop where
  text : s.source = source
  place : IsBoundary source.chars s.pos
  memory : ∀ failure, s.furthest = some failure → IsBoundary source.chars failure.pos

theorem State.Within.ahead {s : State} {source : Source} (within : s.Within source) :
    ∃ before rest, source.chars = before ++ rest ∧ s.pos = utf8Length before ∧
      s.ahead? = some rest := by
  obtain ⟨before, rest, split, start⟩ := within.place
  have same : s.place.source = source := within.text
  refine ⟨before, rest, split, start.symm, ?_⟩
  change s.place.ahead? = some rest
  rw [s.place.ahead?_eq, same, split]
  change dropBytes? (before ++ rest) s.pos = some rest
  rw [← start, dropBytes?_utf8Length]

theorem isBoundary_of_ahead {s : State} {rest : List Char} (ahead : s.ahead? = some rest) :
    IsBoundary s.source.chars s.pos := by
  have dropped : dropBytes? s.source.chars s.pos = some rest :=
    s.place.ahead?_eq.symm.trans ahead
  obtain ⟨before, split, start⟩ := dropBytes?_eq_some dropped
  exact ⟨before, rest, split, start⟩

theorem State.Within.fail {s : State} {source : Source} (within : s.Within source)
    (label : String) : (s.fail label).Within source where
  text := within.text
  place := within.place
  memory := by
    intro failure found
    obtain rfl := Option.some.inj found
    cases old : s.furthest with
    | none => exact within.place
    | some earlier =>
      rw [Failure.merge]
      split
      · exact within.memory earlier old
      · exact within.place

theorem State.Within.rewind {s : State} {source : Source} (within : s.Within source)
    {checkpoint : Checkpoint} (boundary : IsBoundary source.chars checkpoint.pos) :
    (s.rewind checkpoint).Within source := ⟨within.text, boundary, within.memory⟩

/-- Steps lead to no place but those of the source. -/
theorem State.Leads.within {s t : State} {source : Source} (leads : s.Leads t)
    (within : s.Within source) : t.Within source := by
  induction leads with
  | here => exact within
  | fail label _ ih => exact (ih within).fail label
  | note _ _ ih =>
    have middle := ih within
    exact ⟨middle.text, middle.place, middle.memory⟩
  | advance consumed rest next _ ih =>
    rename_i u _
    -- What is left ahead begins behind whole characters.
    have middle := ih within
    have ahead : (u.advance consumed rest next).ahead? = some rest := rfl
    have boundary := isBoundary_of_ahead ahead
    have same : (u.advance consumed rest next).source = source := middle.text
    rw [same] at boundary
    exact ⟨same, boundary, middle.memory⟩
  | back _ _ first second =>
    -- The place to go back to is one that the steps have come through.
    have there := first within
    exact ⟨there.text, there.place, (second there).memory⟩

theorem State.within_at (source : Source) (pos : Nat) : (State.at source pos).Within source where
  text := rfl
  place := (isGreatest_boundaryBefore source.chars pos).1.1
  memory := by
    intro failure found
    cases found

theorem State.within_start (source : Source) : (State.start source).Within source where
  text := rfl
  place := isBoundary_zero source.chars
  memory := by
    intro failure found
    cases found

/-! ## Walks -/

/-- A step of a walk that goes back to no checkpoint but its own. It goes on from
where a parser ends, be that a match or not. -/
inductive Walk.Goes : Walk → Walk → Prop where
  | checkpoint (walk : Walk) :
      Goes walk { walk with saved := walk.saved ++ [walk.state.checkpoint] }
  | rewind (walk : Walk) {checkpoint : Checkpoint} (taken : checkpoint ∈ walk.saved) :
      Goes walk { walk with state := walk.state.rewind checkpoint }
  | fail (walk : Walk) (label : String) : Goes walk { walk with state := walk.state.fail label }
  | run (walk : Walk) {β : Type} {p : Parser β} (built : p.Built) {result : Option β} {t : State}
      (ended : p walk.state = .ended result t) : Goes walk { walk with state := t }

inductive Walk.Reachable (source : Source) : Walk → Prop where
  | start : Reachable source (.start (.start source))
  | clamped (pos : Nat) : Reachable source (.start (.at source pos))
  | next {walk later : Walk} (reached : Reachable source walk) (goes : walk.Goes later) :
      Reachable source later

/-- The state of the walk is one of the source, and so are its checkpoints. -/
structure Walk.Within (walk : Walk) (source : Source) : Prop where
  state : walk.state.Within source
  saved : ∀ checkpoint ∈ walk.saved, IsBoundary source.chars checkpoint.pos

/-- Where a state lies within its source, a built parser comes to an end. -/
theorem State.Within.ends {s : State} {source : Source} (within : s.Within source)
    {p : Parser α} (built : p.Built) :
    ∃ (result : Option α) (t : State), p s = .ended result t ∧ s.Leads t := by
  obtain ⟨before, rest, -, -, ahead⟩ := within.ahead
  exact built.ends s rest ahead

/-- What a parser does on the way to its end is a sequence of steps. -/
theorem State.Within.leads {s t : State} {source : Source} (within : s.Within source)
    {p : Parser α} (built : p.Built) {result : Option α} (ended : p s = .ended result t) :
    s.Leads t := by
  obtain ⟨before, rest, -, -, ahead⟩ := within.ahead
  exact built.ends.leads ahead ended

theorem Walk.Goes.within {walk later : Walk} {source : Source} (goes : walk.Goes later)
    (within : walk.Within source) : later.Within source := by
  obtain ⟨state, saved⟩ := within
  cases goes with
  | checkpoint =>
    refine ⟨state, ?_⟩
    intro checkpoint member
    rcases List.mem_append.mp member with earlier | here
    · exact saved checkpoint earlier
    · rw [List.mem_singleton.mp here]
      exact state.place
  | rewind taken => exact ⟨state.rewind (saved _ taken), saved⟩
  | fail label => exact ⟨state.fail label, saved⟩
  | run built ended => exact ⟨(state.leads built ended).within state, saved⟩

theorem Walk.Goes.keeps {walk later : Walk} {source : Source} (goes : walk.Goes later)
    (within : walk.Within source) :
    Failure.Keeps walk.state.furthest later.state.furthest := by
  cases goes with
  | checkpoint | rewind => exact .refl _
  | fail => exact Failure.keeps_merge _ _
  | run built ended => exact (within.state.leads built ended).keeps

theorem Walk.Reachable.within {walk : Walk} {source : Source} (reached : walk.Reachable source) :
    walk.Within source := by
  induction reached with
  | start => exact ⟨State.within_start source, fun _ member => absurd member List.not_mem_nil⟩
  | clamped pos =>
    exact ⟨State.within_at source pos, fun _ member => absurd member List.not_mem_nil⟩
  | next _ goes ih => exact goes.within ih

/-- The step goes back to no checkpoint but those of the walk. -/
def Walk.Offers (walk : Walk) : Step α → Prop
  | .rewind index => index < walk.saved.length
  | .rewindElsewhere _ _ => False
  | .look | .checkpoint | .fail _ | .run _ => True

theorem State.Within.view {s : State} {source : Source} (within : s.Within source) :
    ∃ view, s.view? = some view := by
  obtain ⟨before, rest, -, -, ahead⟩ := within.ahead
  refine ⟨⟨s.source.chars, s.pos, rest, s.atEnd, s.furthest⟩, ?_⟩
  rw [State.view?, ahead]
  rfl

/-- Every step that a walk offers is taken, and shows where it has led. -/
theorem Walk.Reachable.step {walk : Walk} {source : Source} (reached : walk.Reachable source)
    {step : Step α} (offered : walk.Offers step) :
    ∃ (later : Walk) (result : StepResult α) (view : View),
      walk.step step = (later, some result) ∧ later.Reachable source ∧
      later.state.view? = some view := by
  -- One step of the relation does it, or none: a look changes nothing.
  have shown {later : Walk} {result : StepResult α} (taken : walk.step step = (later, some result))
      (there : later.Reachable source) : ∃ (later : Walk) (result : StepResult α) (view : View),
        walk.step step = (later, some result) ∧ later.Reachable source ∧
        later.state.view? = some view := by
    obtain ⟨view, seen⟩ := there.within.state.view
    exact ⟨later, result, view, taken, there, seen⟩
  cases step with
  | look => exact shown rfl reached
  | checkpoint => exact shown rfl (reached.next (.checkpoint walk))
  | rewind index =>
    have found : walk.saved[index]? = some walk.saved[index] := List.getElem?_eq_getElem offered
    have taken : walk.step (.rewind index : Step α) =
        ({ walk with state := walk.state.rewind walk.saved[index] }, some .done) := by
      rw [Walk.step, found]
    exact shown taken (reached.next (.rewind walk (List.getElem_mem offered)))
  | rewindElsewhere => exact offered.elim
  | fail label => exact shown rfl (reached.next (.fail walk label))
  | run matcher =>
    obtain ⟨result, t, ended, -⟩ := reached.within.state.ends matcher.built
    have there := reached.next (.run walk matcher.built ended)
    cases result with
    | none =>
      have taken : walk.step (.run matcher) = ({ walk with state := t }, some .failed) := by
        rw [Walk.step, ended]
        rfl
      exact shown taken there
    | some value =>
      have taken : walk.step (.run matcher) =
          ({ walk with state := t }, some (.matched value)) := by
        rw [Walk.step, ended]
        rfl
      exact shown taken there

/-- **A walk stays in its text.** In every state that a walk reaches, the text is the one
it began with, and it has been read up to the place: what lies ahead is the rest, and
begins at a boundary no further than the end. The furthest failure is at such a boundary too.
Every parser comes to an end from there, and no step forgets a failure for an earlier
one or for none. -/
theorem walks_stay_in_their_text {source : Source} {walk : Walk}
    (reached : walk.Reachable source) :
    walk.state.source = source ∧
    (∃ before rest, source.chars = before ++ rest ∧ walk.state.pos = utf8Length before ∧
      walk.state.ahead? = some rest) ∧
    walk.state.pos ≤ source.size ∧
    (∀ failure, walk.state.furthest = some failure →
      IsBoundary source.chars failure.pos ∧ failure.pos ≤ source.size) ∧
    (∀ {β : Type} (p : Parser β), p.Built →
      ∃ (result : Option β) (t : State), p walk.state = .ended result t) ∧
    ∀ later, walk.Goes later → ∀ failure, walk.state.furthest = some failure →
      ∃ next, later.state.furthest = some next ∧ failure.pos ≤ next.pos := by
  have within := reached.within
  refine ⟨within.state.text, within.state.ahead, ?_, ?_, ?_, ?_⟩
  · rw [source.size_eq]
    exact within.state.place.le
  · intro failure found
    have boundary := within.state.memory failure found
    rw [source.size_eq]
    exact ⟨boundary, boundary.le⟩
  · intro β p built
    obtain ⟨result, t, ended, -⟩ := within.state.ends built
    exact ⟨result, t, ended⟩
  · intro later goes
    exact goes.keeps within

/-- A walk from inside a character, on which a rule is given up and the walk goes back. -/
theorem walk_around_a_broken_rule :
    let source := Source.ofString "a=éb = c"
    ∃ walk : Walk, walk.Reachable source ∧ walk.saved = [⟨2⟩] ∧ walk.state.pos = 2 ∧
      walk.state.source = source ∧
      walk.state.ahead? = some "éb = c".toList ∧
      walk.state.furthest = some ⟨2, "identifier"⟩ ∧ IsBoundary source.chars 2 ∧
      2 ≤ source.size := by
  intro source
  have begun : (Walk.start (.at source 3)).Reachable source := .clamped 3
  have marked := begun.next (.checkpoint _)
  have failed := marked.next (.fail _ "here")
  obtain ⟨-, -, -, -, ends, -⟩ := walks_stay_in_their_text failed
  obtain ⟨result, t, ended⟩ := ends Parser.rule Parser.built_rule
  have seen : (Parser.rule ((State.at source 3).fail "here")).ending? =
      some (none, 2, some ⟨2, "identifier"⟩) := by decide +kernel
  have given : (Parser.rule ((State.at source 3).fail "here")).ending? = _ :=
    congrArg Outcome.ending? ended
  obtain ⟨-, -, furthest⟩ := Outcome.ending?_ended_iff.mp (given.symm.trans seen)
  have tried : Walk.Goes _ _ := .run _ Parser.built_rule ended
  have back := (failed.next tried).next (.rewind _ List.mem_cons_self)
  obtain ⟨same, ⟨before, rest, split, start, ahead⟩, -, boundaries, -, -⟩ :=
    walks_stay_in_their_text back
  obtain ⟨boundary, bound⟩ := boundaries _ furthest
  have chars : source.chars = ['a', '='] ++ "éb = c".toList := by decide +kernel
  have two : utf8Length before = utf8Length ['a', '='] := start.symm
  obtain ⟨-, rfl⟩ := append_inj_of_utf8Length (split.symm.trans chars) two
  exact ⟨_, back, rfl, rfl, same, ahead, furthest, boundary, bound⟩

end Metasyntax
