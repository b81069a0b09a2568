import Metasyntax.Proofs.RuleReading

/-! A grammar is read up to the first place where no rule is written. -/
namespace Metasyntax

/-- What is reported of rules, the first of which starts at the offset. -/
def WrittenRule.eventsOfAll : Nat → List (WrittenRule × Blank) → List Event
  | _, [] => []
  | start, (rule, blank) :: later =>
    rule.events start ++ eventsOfAll (start + utf8Length (rule.text ++ blank.chars)) later

def WrittenGrammar.events (start : Nat) (written : WrittenGrammar) : List Event :=
  WrittenRule.eventsOfAll (start + utf8Length written.lead.chars) written.rules

theorem WrittenGrammar.events_cons (start : Nat) (lead : Blank) (rule : WrittenRule)
    (later : WrittenGrammar) : (cons lead rule later).events start =
      rule.events (start + utf8Length lead.chars) ++
        later.events (start + utf8Length (lead.chars ++ rule.text)) := by
  simp only [events, cons, WrittenRule.eventsOfAll, utf8Length_append, Nat.add_assoc]

/-- `t` is `s` after it has read a grammar and given up the rule that breaks off behind it. -/
structure State.Halts (s : State) (written : WrittenGrammar) (broken : BrokenRule) (t : State) :
    Prop where
  source : t.source = s.source
  pos : t.pos = s.pos + utf8Length written.text
  furthest : t.furthest =
    some (Failure.merge s.furthest ⟨t.pos + utf8Length broken.text, broken.label⟩)
  events : t.events = s.events ++
    (written.events s.pos ++ (broken.events t.pos ++ [.stopped t.pos t.furthest]))

theorem State.Reads.halts {s t u : State} {written : WrittenGrammar} {broken : BrokenRule}
    {rest : List Char} (reads : s.Reads written.text rest (written.events s.pos) t)
    (drops : t.Drops broken u) : s.Halts written broken (u.note (.stopped u.pos u.furthest)) where
  source := (congrArg Place.source drops.place).trans reads.source
  pos := (congrArg Place.pos drops.place).trans reads.pos
  furthest := by
    have place : (u.note (.stopped u.pos u.furthest)).pos = t.pos := congrArg Place.pos drops.place
    have hidden := reads.furthest ⟨t.pos + utf8Length broken.text, broken.label⟩
      (Nat.le_add_right _ _)
    rw [place, ← hidden]
    exact drops.furthest
  events := by
    rw [State.events_note, drops.events, reads.events]
    simp [State.note, State.pos, drops.place]

namespace Parser

/-! ## The loop -/

theorem rules_eq (s : State) : rules s =
    if s.atEnd then .matched s []
    else match skipWhitespace s with
      | .matched t _ =>
        if t.atEnd then .matched t []
        else match rule t with
          | .matched u first => (rules u).map (first :: ·)
          | .failed u => .matched (u.note (.stopped u.pos u.furthest)) []
          | .stuck u => .stuck u
      | .failed t => .failed t
      | .stuck t => .stuck t := by
  rw [rules]
  split
  · rfl
  · split
    · rename_i found
      rw [found]
      simp only
      split
      · rfl
      · split <;> rename_i read <;> rw [read]
    · rename_i found
      rw [found]
    · rename_i found
      rw [found]

theorem rules_of_rule {s : State} {lead : Blank} {written : WrittenRule} {rest : List Char}
    (ahead : s.ahead? = some (lead.chars ++ (written.text ++ rest))) :
    ∃ t, rules s = (rules t).map (written.rule :: ·) ∧
      s.Reads (lead.chars ++ written.text) rest
        (written.events (s.pos + utf8Length lead.chars)) t := by
  have nonempty : written.text ++ rest ≠ [] :=
    List.append_ne_nil_of_left_ne_nil written.text_ne_nil rest
  obtain ⟨t, skipped, readsLead⟩ := skipWhitespace_of_blank ahead (written.stops_isSpace rest)
  obtain ⟨u, matched, readsRule⟩ := rule_of_written readsLead.ahead
  have goesOn := State.atEnd_of_goesOn ahead (List.append_ne_nil_of_right_ne_nil _ nonempty)
  have more := State.atEnd_of_goesOn readsLead.ahead nonempty
  refine ⟨u, ?_, (readsLead.trans readsRule).cast rfl (by rw [readsLead.pos]; rfl)⟩
  rw [rules_eq]
  simp only [goesOn, skipped, more, matched, Bool.false_eq_true, if_false]

theorem rules_of_blank {s : State} {blank : Blank} (ahead : s.ahead? = some blank.chars) :
    ∃ t, rules s = .matched t [] ∧ s.Reads blank.chars [] [] t := by
  by_cases ended : blank.chars = []
  · rw [ended] at ahead ⊢
    refine ⟨s, ?_, .refl ahead⟩
    rw [rules_eq, State.atEnd_of_ahead ahead]
    rfl
  · have ahead' : s.ahead? = some (blank.chars ++ []) := by rw [ahead, List.append_nil]
    obtain ⟨t, skipped, reads⟩ := skipWhitespace_of_blank ahead' trivial
    refine ⟨t, ?_, reads⟩
    have goesOn := State.atEnd_of_goesOn ahead ended
    have stops : t.atEnd = true := State.atEnd_of_ahead reads.ahead
    rw [rules_eq]
    simp only [goesOn, skipped, stops, Bool.false_eq_true, if_false, if_true]

theorem rules_of_broken {s : State} {blank : Blank} {broken : BrokenRule} {tail : List Char}
    (ahead : s.ahead? = some (blank.chars ++ (broken.text ++ tail))) (halts : broken.Halts tail) :
    ∃ t u, rules s = .matched (u.note (.stopped u.pos u.furthest)) [] ∧
      s.Reads blank.chars (broken.text ++ tail) [] t ∧ t.Drops broken u := by
  obtain ⟨t, skipped, reads⟩ := skipWhitespace_of_blank ahead halts.noSpace
  obtain ⟨u, failed, drops⟩ := rule_of_broken reads.ahead halts.breaks
  have goesOn := State.atEnd_of_goesOn ahead (List.append_ne_nil_of_right_ne_nil _ halts.goesOn)
  have more := State.atEnd_of_goesOn reads.ahead halts.goesOn
  refine ⟨t, u, ?_, reads, drops⟩
  rw [rules_eq]
  simp only [goesOn, skipped, more, failed, Bool.false_eq_true, if_false]

/-! ## Whole texts -/

theorem map_map {α β γ : Type} (f : α → β) (g : β → γ) (outcome : Outcome α) :
    (outcome.map f).map g = outcome.map fun value => g (f value) := by
  cases outcome <;> rfl

/-- The rules of a grammar are read without a look at what follows. What is
left is the white space behind the last of them. -/
theorem rules_of_written {s : State} {written : WrittenGrammar} {rest : List Char}
    (ahead : s.ahead? = some (written.text ++ rest)) :
    ∃ (text : List Char) (blank : Blank) (t : State), written.text = text ++ blank.chars ∧
      s.Reads text (blank.chars ++ rest) (written.events s.pos) t ∧
      rules s = (rules t).map (written.grammar.rules ++ ·) := by
  obtain ⟨lead, written⟩ := written
  -- Over the rules: the white space behind the first is the lead of the others.
  induction written generalizing lead s with
  | nil =>
    rw [WrittenGrammar.text_mk_nil] at ahead ⊢
    refine ⟨[], lead, s, rfl, .refl ahead, ?_⟩
    cases rules s <;> rfl
  | cons first later ih =>
    obtain ⟨rule, blank⟩ := first
    rw [WrittenGrammar.text_mk_cons, List.append_assoc, List.append_assoc] at ahead
    obtain ⟨t, turn, reads⟩ := rules_of_rule ahead
    obtain ⟨text, last, u, split, more, run⟩ := ih blank reads.ahead
    have texts : (WrittenGrammar.mk lead ((rule, blank) :: later)).text =
        (lead.chars ++ rule.text ++ text) ++ last.chars := by
      rw [WrittenGrammar.text_mk_cons, List.append_assoc _ text, ← split, List.append_assoc]
    have logs := WrittenGrammar.events_cons s.pos lead rule ⟨blank, later⟩
    rw [← reads.pos] at logs
    refine ⟨lead.chars ++ rule.text ++ text, last, u, texts,
      (reads.trans more).cast rfl logs.symm, ?_⟩
    rw [turn, run, map_map]
    rfl

theorem grammar_of_written {s : State} {written : WrittenGrammar}
    (ahead : s.ahead? = some written.text) :
    ∃ t, grammar s = .matched t written.grammar ∧
      s.Reads written.text [] (written.events s.pos) t := by
  rw [← List.append_nil written.text] at ahead
  obtain ⟨text, blank, t, split, reads, run⟩ := rules_of_written ahead
  rw [List.append_nil] at reads
  obtain ⟨u, ended, readsBlank⟩ := rules_of_blank reads.ahead
  refine ⟨u, ?_, (reads.trans readsBlank).cast split.symm (List.append_nil _)⟩
  rw [grammar, run, ended]
  simp [Outcome.map]

theorem grammar_of_broken {s : State} {written : WrittenGrammar} {broken : BrokenRule}
    {tail : List Char} (ahead : s.ahead? = some (written.text ++ (broken.text ++ tail)))
    (halts : broken.Halts tail) :
    ∃ t, grammar s = .matched t written.grammar ∧ s.Halts written broken t ∧
      t.ahead? = some (broken.text ++ tail) := by
  obtain ⟨text, blank, t, split, reads, run⟩ := rules_of_written ahead
  obtain ⟨u, v, stopped, readsBlank, drops⟩ := rules_of_broken reads.ahead halts
  have whole : s.Reads written.text (broken.text ++ tail) (written.events s.pos) u :=
    (reads.trans readsBlank).cast split.symm (List.append_nil _)
  refine ⟨_, ?_, whole.halts drops, (congrArg Place.ahead? drops.place).trans whole.ahead⟩
  rw [grammar, run, stopped]
  simp [Outcome.map]

/-- Reading a grammar never fails where text can be read. -/
theorem grammar_matched {s : State} {text : List Char} (ahead : s.ahead? = some text) :
    ∃ t grammar, Parser.grammar s = .matched t grammar := by
  rcases exists_grammar text with ⟨written, rfl⟩ | ⟨written, broken, tail, rfl, halts⟩
  · obtain ⟨t, matched, -⟩ := grammar_of_written ahead
    exact ⟨t, written.grammar, matched⟩
  · obtain ⟨t, matched, -⟩ := grammar_of_broken ahead halts
    exact ⟨t, written.grammar, matched⟩

end Parser

/-! ## Strict reading -/

theorem Grammar.parse_of_written {text : String} {written : WrittenGrammar}
    (h : text.toList = written.text) : Grammar.parse text = .ok written.grammar := by
  have ahead := State.start_ahead_of_eq h
  obtain ⟨t, matched, reads⟩ := Parser.grammar_of_written ahead
  have ended : t.atEnd = true := State.atEnd_of_ahead reads.ahead
  rw [Grammar.parse, matched]
  exact if_pos ended

/-- A rejected text has its error where the rule behind its last one breaks off. -/
theorem Grammar.parse_of_broken {text : String} {written : WrittenGrammar} {broken : BrokenRule}
    {tail : List Char} (h : text.toList = written.text ++ (broken.text ++ tail))
    (halts : broken.Halts tail) :
    Grammar.parse text = .error (.expected broken.label (utf8Length (written.text ++ broken.text))
      ((Source.ofString text).coordinates (utf8Length (written.text ++ broken.text)))) := by
  have ahead := State.start_ahead_of_eq h
  obtain ⟨t, matched, stops, left⟩ := Parser.grammar_of_broken ahead halts
  have goesOn := State.atEnd_of_goesOn left halts.goesOn
  have start : (State.start (.ofString text)).pos = 0 := rfl
  have memory : t.furthest =
      some ⟨utf8Length (written.text ++ broken.text), broken.label⟩ := by
    rw [stops.furthest, stops.pos, start, Nat.zero_add, ← utf8Length_append]
    rfl
  have behind : t.pos ≤ utf8Length (written.text ++ broken.text) := by
    rw [stops.pos, start, utf8Length_append]
    omega
  rw [Grammar.parse, matched]
  simp only [State.reachedEnd, goesOn, State.error, memory, if_pos behind, stops.source]
  rfl

end Metasyntax
