import Metasyntax.Proofs.Containment
import Metasyntax.Proofs.Memory

/-! A repetition comes to an end. It goes on only as long as its matches move ahead, of
which the text allows no more than it has bytes, and nothing stops it but a failure or a
match that takes nothing. -/
namespace Metasyntax

variable {α : Type}

/-- Fewer bytes are left exactly behind a place that lies further ahead. -/
theorem State.Leads.remaining_lt_iff {s t : State} (leads : s.Leads t) {rest : List Char}
    (ahead : s.ahead? = some rest) : t.remaining < s.remaining ↔ s.pos < t.pos := by
  obtain ⟨left, there⟩ := leads.ahead ahead
  have size : s.source.size = s.pos + utf8Length rest := Place.size_of_ahead ahead
  have sameSize : t.source.size = t.pos + utf8Length left := Place.size_of_ahead there
  rw [leads.source] at sameSize
  rw [remaining_of_ahead ahead, remaining_of_ahead there]
  omega

namespace Parser

/-! ## Rounds -/

/-- A repetition round by round, with the number of times that the parser is applied.
Another round follows a match that has moved ahead, and no other. -/
inductive Rounds (p : Parser α) : Nat → State → List α → State → Prop where
  | fails {s t : State} (failed : p s = .failed t) : Rounds p 1 s [] (t.backTo s)
  | stays {s t : State} {value : α} (matched : p s = .matched t value) (still : t.pos = s.pos) :
      Rounds p 1 s [value] t
  | moves {n : Nat} {s t u : State} {value : α} {values : List α}
      (matched : p s = .matched t value) (further : s.pos < t.pos)
      (later : Rounds p n t values u) : Rounds p (n + 1) s (value :: values) u

/-- A repetition comes to an end in rounds, at most one more than there are bytes left. -/
theorem Built.rounds {p : Parser α} (built : p.Built) {s : State} {rest : List Char}
    (ahead : s.ahead? = some rest) :
    ∃ (count : Nat) (values : List α) (t : State), p.repeated s = .matched t values ∧
      p.Rounds count s values t ∧ count ≤ s.remaining + 1 := by
  -- On the bytes that are left, of which each round but the last takes one.
  induction s using State.fewerBytesInduction generalizing rest with
  | step s ih =>
    obtain ⟨result, t, ended, leads⟩ := built.ends s rest ahead
    cases result with
    | none => exact ⟨1, [], t.backTo s, repeated_of_failed ended, .fails ended, by omega⟩
    | some value =>
      have moved := leads.remaining_lt_iff ahead
      by_cases less : t.remaining < s.remaining
      · obtain ⟨left, there⟩ := leads.ahead ahead
        obtain ⟨count, values, u, later, rounds, bound⟩ := ih t less there
        refine ⟨count + 1, value :: values, u, ?_, .moves ended (moved.mp less) rounds, by omega⟩
        rw [repeated_of_matched ended less, later]
        rfl
      · have forward := leads.pos_le
        have still : t.pos = s.pos := by omega
        exact ⟨1, [value], t, repeated_of_stay ended less, .stays ended still, by omega⟩

theorem Rounds.length_le {p : Parser α} {count : Nat} {s t : State} {values : List α}
    (rounds : p.Rounds count s values t) : values.length ≤ count := by
  induction rounds with
  | fails => exact Nat.zero_le 1
  | stays => exact Nat.le_refl 1
  | moves _ _ _ ih => exact Nat.succ_le_succ ih

/-! ## Stations -/

/-- One state, and behind it the others. -/
def followedBy (first : State) (later : Nat → State) : Nat → State
  | 0 => first
  | i + 1 => later i

/-- The states from which the parser of a repetition matches its values, and the one
behind the last of them. -/
structure Stations (p : Parser α) (values : List α) (station : Nat → State) : Prop where
  matched (i : Nat) (h : i < values.length) :
    p (station i) = .matched (station (i + 1)) values[i]
  moved (i : Nat) (h : i + 1 < values.length) : (station i).pos < (station (i + 1)).pos
  /-- Nothing more can be matched, or the last match has taken nothing. -/
  stopped : (∃ t, p (station values.length) = .failed t) ∨
    ∃ i, values.length = i + 1 ∧ (station (i + 1)).pos = (station i).pos

theorem Stations.cons {p : Parser α} {s : State} {value : α} {values : List α}
    {station : Nat → State} (matched : p s = .matched (station 0) value)
    (further : s.pos < (station 0).pos) (stations : p.Stations values station) :
    p.Stations (value :: values) (followedBy s station) where
  matched := by
    intro i h
    cases i with
    | zero => exact matched
    | succ i => exact stations.matched i (Nat.lt_of_succ_lt_succ h)
  moved := by
    intro i h
    cases i with
    | zero => exact further
    | succ i => exact stations.moved i (Nat.lt_of_succ_lt_succ h)
  stopped := by
    rcases stations.stopped with failed | ⟨i, last, still⟩
    · exact .inl failed
    · exact .inr ⟨i + 1, congrArg (· + 1) last, still⟩

theorem Rounds.stations {p : Parser α} {count : Nat} {s t : State} {values : List α}
    (rounds : p.Rounds count s values t) :
    ∃ station : Nat → State, station 0 = s ∧ (station values.length).place = t.place ∧
      p.Stations values station := by
  induction rounds with
  | @fails s t failed =>
    refine ⟨fun _ => s, rfl, rfl, ?_, ?_, .inl ⟨t, failed⟩⟩
    · intro i h
      exact absurd h (Nat.not_lt_zero i)
    · intro i h
      exact absurd h (Nat.not_lt_zero (i + 1))
  | @stays s t value matched still =>
    refine ⟨followedBy s fun _ => t, rfl, rfl, ?_, ?_, .inr ⟨0, rfl, still⟩⟩
    · intro i h
      obtain rfl := Nat.lt_one_iff.mp h
      exact matched
    · intro i h
      exact absurd (Nat.lt_one_iff.mp h) (Nat.succ_ne_zero i)
  | @moves n s t u value values matched further later ih =>
    obtain ⟨station, start, place, stations⟩ := ih
    subst start
    exact ⟨followedBy s station, rfl, place, stations.cons matched further⟩

end Parser

/-- **A repetition goes on as long as it can.** It applies its parser at most once more than
there are bytes left, and has no more values than that. The first round begins where
the repetition does, and each one where the one before has ended. Every match but the
last has moved ahead. The repetition ends behind the last one, where the parser fails
unless that match has taken nothing. -/
theorem repetition_goes_on_as_long_as_it_can {p : Parser α} (built : p.Built) (s : State)
    (aligned : s.place.Aligned) :
    ∃ (count : Nat) (values : List α) (t : State) (station : Nat → State),
      p.repeated s = .matched t values ∧
      p.Rounds count s values t ∧ count ≤ s.remaining + 1 ∧
      values.length ≤ s.remaining + 1 ∧
      station 0 = s ∧ (station values.length).place = t.place ∧
      (∀ (i : Nat) (h : i < values.length),
        p (station i) = .matched (station (i + 1)) values[i]) ∧
      (∀ i, i + 1 < values.length → (station i).pos < (station (i + 1)).pos) ∧
      ((∃ u, p t = .failed u) ∨
        ∃ i, values.length = i + 1 ∧ (station (i + 1)).pos = (station i).pos) := by
  obtain ⟨rest, ahead⟩ := aligned.ahead
  obtain ⟨count, values, t, run, rounds, bound⟩ := built.rounds ahead
  obtain ⟨station, start, place, stations⟩ := rounds.stations
  have length := Nat.le_trans rounds.length_le bound
  refine ⟨count, values, t, station, run, rounds, bound, length, start, place,
    stations.matched, stations.moved, ?_⟩
  rcases stations.stopped with ⟨u, failed⟩ | still
  · -- The repetition ends with the failure in memory, and the parser does not read it.
    have ended : p.repeated s = .ended (some values) t := run
    obtain ⟨left, there⟩ := (built.ends.repeated.leads ahead ended).ahead ahead
    obtain ⟨result, v, w, again, before, -⟩ := built.ends_alike there place
    rw [failed] at before
    cases result with
    | none => exact .inl ⟨v, again⟩
    | some value => cases before
  · exact .inr still

/-- Two letters and two spaces are taken, and then a match that takes nothing: the last of a
repetition inside the repetition. -/
theorem repetition_of_letters_and_blanks :
    let p : Parser String := .anyOf
      [Parser.letter.map String.singleton, Parser.whitespace.repeated.map String.join]
    let s : State := ⟨.jump (.ofString "éab  ;") 2, some ⟨7, "older"⟩, []⟩
    p.Built ∧ s.place.Aligned ∧
      ∃ (count : Nat) (t : State) (station : Nat → State),
        p.repeated s = .matched t ["a", "b", "  ", ""] ∧
        t.pos = 6 ∧ t.furthest = some ⟨7, "older"⟩ ∧
        p.Rounds count s ["a", "b", "  ", ""] t ∧ count ≤ 6 ∧
        station 0 = s ∧ p s = .matched (station 1) "a" ∧
        p (station 1) = .matched (station 2) "b" ∧ p (station 2) = .matched (station 3) "  " ∧
        p (station 3) = .matched (station 4) "" ∧
        (station 3).pos = 6 ∧ (station 4).pos = 6 := by
  intro p s
  have built : p.Built := .anyOf (List.forall_mem_cons.mpr
    ⟨.map _ (.raw _ _), List.forall_mem_singleton.mpr (.map _ (.repeated .whitespace))⟩)
  have aligned : s.place.Aligned := ⟨['é'], ['a', 'b', ' ', ' ', ';'], rfl, rfl⟩
  obtain ⟨count, values, t, station, run, rounds, bound, -, start, place, matched, -, stopped⟩ :=
    repetition_goes_on_as_long_as_it_can built s aligned
  have seen : (p.repeated s).ending? =
      some (some ["a", "b", "  ", ""], 6, some ⟨7, "older"⟩) := by decide +kernel
  have ended : p.repeated s = .ended (some values) t := run
  rw [ended, Outcome.ending?_ended_iff, Option.some.injEq] at seen
  obtain ⟨rfl, pos, furthest⟩ := seen
  have last : (station 4).pos = 6 := (congrArg Place.pos place).trans pos
  have first := matched 0 (by decide)
  rw [start] at first
  refine ⟨built, aligned, count, t, station, run, pos, furthest, rounds, bound, start, first,
    matched 1 (by decide), matched 2 (by decide), matched 3 (by decide), ?_, last⟩
  -- The parser matches behind the spaces too, so it was not a failure that has stopped it.
  rcases stopped with ⟨u, failed⟩ | ⟨i, length, still⟩
  · have again : (match p.repeated s with
        | .matched t _ => (p t).ending?.map Prod.fst
        | _ => none) = some (some "") := by decide +kernel
    rw [run] at again
    cases (congrArg (fun outcome => outcome.ending?.map Prod.fst) failed).symm.trans again
  · obtain rfl : 3 = i := Nat.succ_inj.mp length
    exact still.symm.trans last

end Metasyntax
