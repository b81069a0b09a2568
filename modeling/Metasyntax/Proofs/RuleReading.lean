import Metasyntax.Proofs.Reads
import Metasyntax.Reading

/-! A rule is read exactly where one is written, and where one breaks off the
missing token is what is remembered. -/
namespace Metasyntax

/-- What is reported of a rule that starts at the offset. -/
def WrittenRule.events (start : Nat) (written : WrittenRule) : List Event :=
  [.identifier written.left.identifier (start + utf8Length written.left.chars),
    .identifier written.right.identifier (start + utf8Length (written.left.chars ++
      (written.afterLeft.chars ++ '=' :: (written.beforeRight.chars ++ written.right.chars)))),
    .rule written.rule]

/-- What is reported of a rule that breaks off. -/
def BrokenRule.events (start : Nat) : BrokenRule → List Event
  | .noLeft => []
  | .noSign left _ | .noRight left _ _ =>
    [.identifier left.identifier (start + utf8Length left.chars)]
  | .noEnd left afterLeft beforeRight right _ =>
    [.identifier left.identifier (start + utf8Length left.chars),
      .identifier right.identifier (start + utf8Length (left.chars ++
        (afterLeft.chars ++ '=' :: (beforeRight.chars ++ right.chars))))]

/-- `t` is `s` after a rule broke off: back at its place, with the missing token in memory. -/
structure State.Drops (s : State) (broken : BrokenRule) (t : State) : Prop where
  place : t.place = s.place
  furthest : t.furthest =
    some (Failure.merge s.furthest ⟨s.pos + utf8Length broken.text, broken.label⟩)
  events : t.events = s.events ++ broken.events s.pos

/-- A failure behind what was read goes back to the start with it. -/
theorem State.Reads.drops {s t : State} {broken : BrokenRule} {rest : List Char}
    (reads : s.Reads broken.text rest (broken.events s.pos) t) :
    s.Drops broken ((t.fail broken.label).backTo s) where
  place := rfl
  furthest := by
    rw [← reads.pos]
    exact congrArg some (reads.furthest ⟨t.pos, broken.label⟩ (Nat.le_refl _))
  events := reads.events

namespace Parser

variable {α : Type}

theorem identifier_then_blank {s : State} {name : Name} {blank : Blank} {rest : List Char}
    (ahead : s.ahead? = some (name.chars ++ (blank.chars ++ rest)))
    (nameEnds : Stops isWordChar (blank.chars ++ rest)) (blankEnds : Stops isSpace rest) :
    ∃ t, s.Reads (name.chars ++ blank.chars) rest
        [.identifier name.identifier (s.pos + utf8Length name.chars)] t ∧
      ∀ next : Identifier → Parser α,
        (identifier >>= fun found => skipWhitespace >>= fun _ => next found) s =
          next name.identifier t := by
  obtain ⟨t, named, readsName, -⟩ := identifier_of_name ahead nameEnds
  obtain ⟨u, skipped, readsBlank⟩ := skipWhitespace_of_blank readsName.ahead blankEnds
  refine ⟨u, readsName.trans readsBlank, fun next => ?_⟩
  rw [bind_of_matched named, bind_of_matched skipped]

theorem symbol_then_blank {s : State} (sign : Symbol) {blank : Blank} {rest : List Char}
    (ahead : s.ahead? = some (sign.char :: (blank.chars ++ rest)))
    (blankEnds : Stops isSpace rest) :
    ∃ t, s.Reads (sign.char :: blank.chars) rest [] t ∧
      ∀ next : Parser α,
        (symbol sign >>= fun _ => skipWhitespace >>= fun _ => next) s = next t := by
  obtain ⟨t, matched, readsSign⟩ := symbol_of_cons sign ahead
  obtain ⟨u, skipped, readsBlank⟩ := skipWhitespace_of_blank readsSign.ahead blankEnds
  refine ⟨u, readsSign.trans readsBlank, fun next => ?_⟩
  rw [bind_of_matched matched, bind_of_matched skipped]

/-- The part of a rule in front of its right name. -/
theorem left_then_sign {s : State} {name : Name} {afterLeft beforeRight : Blank} {rest : List Char}
    (ahead : s.ahead? =
      some (name.chars ++ (afterLeft.chars ++ '=' :: (beforeRight.chars ++ rest))))
    (blankEnds : Stops isSpace rest) :
    ∃ t, s.Reads (name.chars ++ (afterLeft.chars ++ '=' :: beforeRight.chars)) rest
        [.identifier name.identifier (s.pos + utf8Length name.chars)] t ∧
      ∀ next : Identifier → Parser α,
        (identifier >>= fun found => skipWhitespace >>= fun _ => symbol .definition >>= fun _ =>
          skipWhitespace >>= fun _ => next found) s = next name.identifier t := by
  obtain ⟨t, readsLeft, left⟩ := identifier_then_blank ahead
    (afterLeft.stops_isWordChar (Symbol.isWordChar_char .definition))
    (Symbol.isSpace_char .definition)
  obtain ⟨u, readsSign, sign⟩ := symbol_then_blank .definition readsLeft.ahead blankEnds
  refine ⟨u, (readsLeft.trans readsSign).cast ?_ rfl, fun next => (left _).trans (sign _)⟩
  simp [Symbol.char]

/-- What is written is read, whatever follows. -/
theorem rule_of_written {s : State} {written : WrittenRule} {rest : List Char}
    (ahead : s.ahead? = some (written.text ++ rest)) :
    ∃ t, rule s = .matched t written.rule ∧
      s.Reads written.text rest (written.events s.pos) t := by
  rw [WrittenRule.text_append] at ahead
  obtain ⟨t, readsLeft, left⟩ := left_then_sign ahead (written.right.stops_isSpace _)
  obtain ⟨u, readsRight, right⟩ := identifier_then_blank readsLeft.ahead
    (written.afterRight.stops_isWordChar (Symbol.isWordChar_char .termination))
    (Symbol.isSpace_char .termination)
  obtain ⟨v, matched, readsEnd⟩ := symbol_of_cons .termination readsRight.ahead
  have reads := (readsLeft.trans (readsRight.trans readsEnd)).note (.rule written.rule)
  refine ⟨v.note (.rule written.rule), ?_, reads.cast ?_ ?_⟩
  · apply attempt_eq_matched.mpr
    refine (left _).trans ((right _).trans ?_)
    rw [bind_of_matched matched]
    rfl
  · simp [WrittenRule.text, Symbol.char]
  · simp [WrittenRule.events, readsLeft.pos, utf8Length, Nat.add_assoc]

/-- A rule that breaks off is given up at its start, and of all the failures on
the way the missing token is the one that stays. -/
theorem rule_of_broken {s : State} {broken : BrokenRule} {rest : List Char}
    (ahead : s.ahead? = some (broken.text ++ rest)) (breaks : broken.BreaksAt rest) :
    ∃ t, rule s = .failed t ∧ s.Drops broken t := by
  cases broken with
  | noLeft =>
    have failed : identifier s = .failed (s.fail "identifier") := identifier_of_stops ahead breaks
    have reads : s.Reads BrokenRule.noLeft.text rest (BrokenRule.noLeft.events s.pos) s :=
      .refl ahead
    exact ⟨_, attempt_of_failed (bind_of_failed failed), reads.drops⟩
  | noSign name afterLeft =>
    obtain ⟨nameEnds, blankEnds, noSign⟩ := breaks
    simp only [BrokenRule.text, List.append_assoc] at ahead
    obtain ⟨t, reads, left⟩ := identifier_then_blank ahead nameEnds blankEnds
    have failed := symbol_of_stops .definition reads.ahead noSign
    exact ⟨_, attempt_of_failed ((left _).trans (bind_of_failed failed)), reads.drops⟩
  | noRight name afterLeft beforeRight =>
    obtain ⟨blankEnds, noRight⟩ := breaks
    simp only [BrokenRule.text, List.append_assoc, List.cons_append] at ahead
    obtain ⟨t, reads, left⟩ := left_then_sign ahead blankEnds
    have failed := identifier_of_stops reads.ahead noRight
    exact ⟨_, attempt_of_failed ((left _).trans (bind_of_failed failed)), reads.drops⟩
  | noEnd name afterLeft beforeRight other afterRight =>
    obtain ⟨nameEnds, blankEnds, noEnd⟩ := breaks
    simp only [BrokenRule.text, List.append_assoc, List.cons_append] at ahead
    obtain ⟨t, readsLeft, left⟩ := left_then_sign ahead (other.stops_isSpace _)
    obtain ⟨u, readsRight, right⟩ := identifier_then_blank readsLeft.ahead nameEnds blankEnds
    have failed := symbol_of_stops .termination readsRight.ahead noEnd
    refine ⟨_, attempt_of_failed ((left _).trans ((right _).trans (bind_of_failed failed))),
      State.Reads.drops ((readsLeft.trans readsRight).cast ?_ ?_)⟩
    · simp [BrokenRule.text]
    · simp [BrokenRule.events, readsLeft.pos, utf8Length, Nat.add_assoc]

/-- No text starts with a rule and also with one that breaks off. -/
theorem written_ne_broken {written : WrittenRule} {broken : BrokenRule} {rest tail : List Char}
    (breaks : broken.BreaksAt tail) : written.text ++ rest ≠ broken.text ++ tail := by
  intro same
  have ahead := State.start_ahead (.ofList (written.text ++ rest))
  obtain ⟨t, matched, -⟩ := rule_of_written ahead
  obtain ⟨u, failed, -⟩ := rule_of_broken (ahead.trans (congrArg some same)) breaks
  cases matched.symm.trans failed

theorem spacedRule_of_written {s : State} {lead trail : Blank} {written : WrittenRule}
    {rest : List Char}
    (ahead : s.ahead? = some (lead.chars ++ (written.text ++ (trail.chars ++ rest))))
    (trailEnds : Stops isSpace rest) :
    ∃ t, spacedRule s = .matched t written.rule ∧
      s.Reads (lead.chars ++ (written.text ++ trail.chars)) rest
        (written.events (s.pos + utf8Length lead.chars)) t := by
  obtain ⟨t, skipped, readsLead⟩ := skipWhitespace_of_blank ahead (written.stops_isSpace _)
  obtain ⟨u, matched, readsRule⟩ := rule_of_written readsLead.ahead
  obtain ⟨v, trailed, readsTrail⟩ := skipWhitespace_of_blank readsRule.ahead trailEnds
  refine ⟨v, ?_, (readsLead.trans (readsRule.trans readsTrail)).cast rfl ?_⟩
  · rw [spacedRule, bind_of_matched skipped, bind_of_matched matched, bind_of_matched trailed]
    rfl
  · rw [readsLead.pos, List.append_nil, List.nil_append]

/-- A parser that matches up to the end reads the whole source. -/
theorem readAll_of_matched {p : Parser α} {source : Source} {t : State} {value : α}
    {text : List Char} {events : List Event} (matched : p (State.start source) = .matched t value)
    (reads : (State.start source).Reads text [] events t) : p.readAll source = .ok value := by
  rw [readAll, matched]
  exact if_pos (State.atEnd_of_ahead reads.ahead)

end Parser

theorem Rule.parse_of_written {text : String} {lead trail : Blank} {written : WrittenRule}
    (h : text.toList = lead.chars ++ (written.text ++ trail.chars)) :
    Rule.parse text = .ok written.rule := by
  rw [← List.append_nil trail.chars] at h
  have ahead := State.start_ahead_of_eq h
  obtain ⟨t, matched, reads⟩ := Parser.spacedRule_of_written ahead trivial
  exact Parser.readAll_of_matched matched reads

end Metasyntax
