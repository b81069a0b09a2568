import Metasyntax.Proofs.Symmetry

/-! The loop that reads rules, lap by lap. A lap that finds a rule has moved at least four
bytes ahead, which is what the shortest rule takes, and any other lap is the last one. So a
text allows no more laps than a quarter of its bytes and one, whatever is written in it. -/
namespace Metasyntax

/-- No rule is shorter than two names of one character and two signs. -/
theorem WrittenRule.four_le_utf8Length (written : WrittenRule) : 4 ≤ utf8Length written.text := by
  have nonempty (name : Name) : 0 < utf8Length name.chars :=
    Nat.pos_of_ne_zero fun empty => name.chars_ne_nil (utf8Length_eq_zero.mp empty)
  have left := nonempty written.left
  have right := nonempty written.right
  have sign := Char.utf8Size_pos '='
  have stop := Char.utf8Size_pos ';'
  simp only [text, utf8Length_append, utf8Length]
  omega

namespace Parser

/-- One lap of the loop: a rule and the state behind it, or how the loop ends. -/
inductive Lap where
  | another (s : State) (found : Rule)
  | last (outcome : Outcome (List Rule))

def lap (s : State) : Lap :=
  if s.atEnd then .last (.matched s [])
  else match skipWhitespace s with
    | .matched t _ =>
      if t.atEnd then .last (.matched t [])
      else match rule t with
        | .matched u found => .another u found
        | .failed u => .last (.matched (u.note (.stopped u.pos u.furthest)) [])
        | .stuck u => .last (.stuck u)
    | .failed t => .last (.failed t)
    | .stuck t => .last (.stuck t)

/-- The loop, if it ends within the given number of laps. -/
def runLaps : Nat → State → Option (Outcome (List Rule))
  | 0, _ => none
  | laps + 1, s =>
    match lap s with
    | .another t found => (runLaps laps t).map fun outcome => outcome.map (found :: ·)
    | .last outcome => some outcome

theorem rules_eq_lap (s : State) : rules s =
    match lap s with
    | .another t found => (rules t).map (found :: ·)
    | .last outcome => outcome := by
  rw [rules_eq, lap]
  split
  · rfl
  · cases skipWhitespace s with
    | failed | stuck => rfl
    | matched t =>
      simp only
      split
      · rfl
      · cases rule t <;> rfl

/-! ## One lap -/

/-- What a lap makes of a state. -/
inductive Lap.From (s : State) : Lap → Prop where
  | another {t : State} {found : Rule} (source : t.source = s.source)
      (further : s.pos + 4 ≤ t.pos) (fewer : t.remaining + 4 ≤ s.remaining) :
      From s (.another t found)
  | ended {t : State} (forward : s.pos ≤ t.pos) : From s (.last (.matched t []))
  | stuck {t : State} (missing : s.ahead? = none) : From s (.last (.stuck t))

theorem skipWhitespace_of_none {s : State} (missing : s.ahead? = none) :
    skipWhitespace s = .stuck s := by
  have stuck : whitespace.optional s = .stuck s := by
    unfold Parser.optional attempt
    rw [whitespace_of_none missing]
  change (whitespace.optional s).bind _ = _
  rw [stuck]
  rfl

/-- With text ahead, the white space is followed by a rule, by one that breaks off, or by
nothing. -/
theorem lap_from (s : State) : (lap s).From s := by
  cases ended : s.atEnd with
  | true =>
    have last : lap s = .last (.matched s []) := if_pos ended
    rw [last]
    exact .ended (Nat.le_refl _)
  | false =>
    cases ahead : s.ahead? with
    | none =>
      simp only [lap, ended, skipWhitespace_of_none ahead, Bool.false_eq_true, if_false]
      exact .stuck ahead
    | some text =>
      obtain ⟨blank, rest, rfl, stops⟩ := exists_blank text
      obtain ⟨t, skipped, reads⟩ := skipWhitespace_of_blank ahead stops
      have behind : s.pos ≤ t.pos := reads.pos ▸ Nat.le_add_right _ _
      simp only [lap, ended, skipped, Bool.false_eq_true, if_false]
      cases done : t.atEnd with
      | true =>
        rw [if_pos rfl]
        exact .ended behind
      | false =>
        rw [if_neg Bool.false_ne_true]
        rcases exists_rule rest with ⟨written, tail, rfl⟩ | ⟨broken, tail, rfl, breaks⟩
        · obtain ⟨u, matched, more⟩ := rule_of_written reads.ahead
          have long := written.four_le_utf8Length
          have there := more.pos
          have bytes := State.remaining_of_ahead ahead
          have left := State.remaining_of_ahead more.ahead
          rw [utf8Length_append, utf8Length_append] at bytes
          rw [matched]
          exact .another (more.source.trans reads.source) (by omega) (by omega)
        · obtain ⟨u, failed, drops⟩ := rule_of_broken reads.ahead breaks
          have place : u.pos = t.pos := congrArg Place.pos drops.place
          rw [failed]
          exact .ended (Nat.le_trans behind (Nat.le_of_eq place.symm))

/-! ## All laps -/

/-- Laps for more bytes than are left come to the end of the loop. -/
theorem runLaps_eq {laps : Nat} {s : State} (enough : s.remaining < 4 * laps) :
    runLaps laps s = some (rules s) := by
  -- Each lap but the last leaves four bytes less.
  induction laps generalizing s with
  | zero => exact absurd enough (Nat.not_lt_zero _)
  | succ laps ih =>
    rw [runLaps, rules_eq_lap]
    cases turn : lap s with
    | last outcome => rfl
    | another t found =>
      have made := lap_from s
      rw [turn] at made
      cases made with
      | another _ _ fewer =>
        have later : runLaps laps t = some (rules t) := ih (by omega)
        simp only [later, Option.map_some]

/-- Laps that end with a match have taken four bytes for each rule. -/
theorem pos_of_runLaps {laps : Nat} {s t : State} {found : List Rule}
    (run : runLaps laps s = some (.matched t found)) : s.pos + 4 * found.length ≤ t.pos := by
  induction laps generalizing s found with
  | zero => cases run
  | succ laps ih =>
    rw [runLaps] at run
    have made := lap_from s
    cases turn : lap s with
    | last outcome =>
      rw [turn] at run made
      cases run
      cases made with
      | ended forward => exact forward
    | another u first =>
      rw [turn] at run made
      obtain ⟨outcome, later, whole⟩ := Option.map_eq_some_iff.mp run
      cases made with
      | another _ further =>
        cases outcome with
        | failed | stuck => cases whole
        | matched v others =>
          cases whole
          have rest := ih later
          rw [List.length_cons]
          omega

end Parser

/-- **Reading a grammar ends, and takes four bytes for each rule.** A lap of the loop that
finds a rule ends at least four bytes ahead, in the same source, and the loop goes on after
no other. With one lap more than every four bytes that are left, the loop has always ended,
and nothing else is what the parser does. At a boundary it matches, with no more rules than
a quarter of the bytes that it has taken. -/
theorem grammar_takes_four_bytes_for_each_rule :
    (∀ (s t : State) (found : Rule), Parser.lap s = .another t found →
      t.source = s.source ∧ s.pos + 4 ≤ t.pos) ∧
    (∀ s : State, ∃ outcome : Outcome (List Rule),
      Parser.runLaps (s.remaining / 4 + 1) s = some outcome ∧
      Parser.grammar s = outcome.map Grammar.mk) ∧
    ∀ s : State, s.place.Aligned → ∃ (t : State) (grammar : Grammar),
      Parser.grammar s = .matched t grammar ∧ s.pos + 4 * grammar.length ≤ t.pos := by
  have whole (s : State) : Parser.runLaps (s.remaining / 4 + 1) s = some (Parser.rules s) :=
    Parser.runLaps_eq (by omega)
  refine ⟨?_, fun s => ⟨_, whole s, rfl⟩, ?_⟩
  · intro s t found turn
    have made := Parser.lap_from s
    rw [turn] at made
    cases made with
    | another source further => exact ⟨source, further⟩
  · intro s aligned
    obtain ⟨rest, ahead⟩ := aligned.ahead
    obtain ⟨t, ⟨rules⟩, matched⟩ := Parser.grammar_matched ahead
    refine ⟨t, ⟨rules⟩, matched, ?_⟩
    have run := whole s
    cases found : Parser.rules s with
    | failed | stuck =>
      rw [Parser.grammar, found] at matched
      cases matched
    | matched u others =>
      rw [Parser.grammar, found] at matched
      cases matched
      rw [found] at run
      exact Parser.pos_of_runLaps run

/-- Behind a wide character the shortest rule, and one that breaks off. -/
theorem lap_over_the_shortest_rule :
    let s : State := State.at (.ofString "é a=b; c = ") 2
    let rule : Rule := ⟨⟨"a"⟩, ⟨"b"⟩⟩
    s.place.Aligned ∧ s.pos = 2 ∧
      (∃ t : State, Parser.lap s = .another t rule ∧ t.pos = 7 ∧ s.pos + 4 ≤ t.pos) ∧
      ∃ t : State, Parser.grammar s = .matched t ⟨[rule]⟩ ∧ t.pos = 8 ∧
        s.pos + 4 * [rule].length ≤ t.pos := by
  intro s rule
  have aligned : s.place.Aligned := ⟨['é'], " a=b; c = ".toList, by decide +kernel, rfl⟩
  have pos : s.pos = 2 := by decide +kernel
  obtain ⟨laps, -, whole⟩ := grammar_takes_four_bytes_for_each_rule
  refine ⟨aligned, pos, ?_, ?_⟩
  · have read : (match Parser.lap s with
        | .another t found => some (found, t.pos)
        | .last _ => none) = some (rule, 7) := by decide +kernel
    cases turn : Parser.lap s with
    | last outcome =>
      rw [turn] at read
      cases read
    | another t found =>
      rw [turn] at read
      obtain ⟨rfl, stop⟩ := Prod.mk.inj (Option.some.inj read)
      exact ⟨t, rfl, stop, (laps s t _ turn).2⟩
  · obtain ⟨t, grammar, matched, moved⟩ := whole s aligned
    have read : (match Parser.grammar s with
        | .matched t found => some (found, t.pos)
        | _ => none) = some (⟨[rule]⟩, 8) := by decide +kernel
    rw [matched] at read
    obtain ⟨rfl, stop⟩ := Prod.mk.inj (Option.some.inj read)
    exact ⟨t, matched, stop, moved⟩

end Metasyntax
