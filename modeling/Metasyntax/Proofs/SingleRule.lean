import Metasyntax.Proofs.Acceptance
import Metasyntax.Proofs.Calls

/-! A text that is to be one rule, compared with the same text as a grammar. -/
namespace Metasyntax

/-! ## Reading one rule -/

theorem Parser.spacedRule_of_broken {s : State} {lead : Blank} {broken : BrokenRule}
    {tail : List Char} (ahead : s.ahead? = some (lead.chars ++ (broken.text ++ tail)))
    (blocks : broken.Blocks tail) :
    ∃ t u, spacedRule s = .failed u ∧ s.Reads lead.chars (broken.text ++ tail) [] t ∧
      t.Drops broken u := by
  obtain ⟨t, skipped, reads⟩ := skipWhitespace_of_blank ahead blocks.noSpace
  obtain ⟨u, failed, drops⟩ := rule_of_broken reads.ahead blocks.breaks
  refine ⟨t, u, ?_, reads, drops⟩
  rw [spacedRule, bind_of_matched skipped]
  exact bind_of_failed failed

theorem Rule.parse_of_broken {text : String} {lead : Blank} {broken : BrokenRule}
    {tail : List Char} (h : text.toList = lead.chars ++ (broken.text ++ tail))
    (blocks : broken.Blocks tail) :
    Rule.parse text =
      .error ((broken.failure (utf8Length lead.chars)).error (.ofString text)) := by
  obtain ⟨t, u, failed, reads, drops⟩ :=
    Parser.spacedRule_of_broken (State.start_ahead_of_eq h) blocks
  have start : t.pos = utf8Length lead.chars := by
    rw [reads.pos]
    exact Nat.zero_add _
  have place : u.pos = utf8Length lead.chars := (congrArg Place.pos drops.place).trans start
  have source : u.source = .ofString text := (congrArg Place.source drops.place).trans reads.source
  have memory : u.furthest = some (broken.failure (utf8Length lead.chars)) := by
    -- The start of a reading remembers nothing, and what it meets in white space is hidden.
    have hidden := reads.furthest (broken.failure t.pos) (Nat.le_add_right _ _)
    rw [drops.furthest, ← start]
    exact congrArg some hidden
  have behind : u.pos ≤ (broken.failure (utf8Length lead.chars)).pos :=
    place ▸ Nat.le_add_right _ _
  rw [Rule.parse, Parser.readAll, failed, ← source]
  exact congrArg Except.error (State.error_of_failure memory behind)

theorem Rule.parse_of_followed {text : String} {lead trail : Blank} {written : WrittenRule}
    {rest : List Char} (h : text.toList = lead.chars ++ (written.text ++ (trail.chars ++ rest)))
    (ends : Stops isSpace rest) (goesOn : rest ≠ []) :
    let pos := utf8Length (lead.chars ++ (written.text ++ trail.chars))
    Rule.parse text = .error (.trailing pos ((Source.ofString text).coordinates pos)) := by
  intro pos
  obtain ⟨t, matched, reads⟩ := Parser.spacedRule_of_written (State.start_ahead_of_eq h) ends
  have place : t.pos = pos := by
    rw [reads.pos]
    exact Nat.zero_add _
  have more := State.atEnd_of_goesOn reads.ahead goesOn
  rw [Rule.parse, Parser.readAll, matched]
  simp only [more, State.trailing, place, reads.source]
  rfl

/-! ## The same text as a grammar -/

theorem Grammar.parse_of_blocks {text : String} {written : WrittenGrammar} {broken : BrokenRule}
    {tail : List Char} (h : text.toList = written.text ++ (broken.text ++ tail))
    (blocks : broken.Blocks tail) :
    Grammar.parse text = if broken.text ++ tail = [] then .ok written.grammar
      else .error ((broken.failure (utf8Length written.text)).error (.ofString text)) := by
  rcases blocks.ended_or_halts with ended | halts
  · rw [if_pos ended]
    rw [ended, List.append_nil] at h
    exact Grammar.parse_of_written h
  · rw [if_neg halts.goesOn, Grammar.parse_of_broken h halts]
    simp only [utf8Length_append]
    rfl

theorem Grammar.eq_of_parse_eq_ok {text : String} {written : WrittenGrammar} {broken : BrokenRule}
    {tail : List Char} {grammar : Grammar}
    (h : text.toList = written.text ++ (broken.text ++ tail)) (blocks : broken.Blocks tail)
    (accepted : Grammar.parse text = .ok grammar) :
    broken.text ++ tail = [] ∧ written.grammar = grammar := by
  rw [Grammar.parse_of_blocks h blocks] at accepted
  by_cases ended : broken.text ++ tail = []
  · rw [if_pos ended, Except.ok.injEq] at accepted
    exact ⟨ended, accepted⟩
  · rw [if_neg ended] at accepted
    cases accepted

/-- Behind the first rule of the text, and the white space after it, something
else stands at the offset. -/
def Rule.FollowedAt (rule : Rule) (text : String) (pos : Nat) : Prop :=
  ∃ (lead : Blank) (written : WrittenRule) (trail : Blank) (c : Char) (rest : List Char),
    text.toList = lead.chars ++ (written.text ++ (trail.chars ++ c :: rest)) ∧
    written.rule = rule ∧ isSpace c = false ∧
    pos = utf8Length (lead.chars ++ (written.text ++ trail.chars))

theorem WrittenGrammar.stops_isSpace (rules : List (WrittenRule × Blank)) {rest : List Char}
    (ends : Stops isSpace rest) : Stops isSpace ((WrittenGrammar.mk .none rules).text ++ rest) := by
  cases rules with
  | nil => exact ends
  | cons first rules =>
    obtain ⟨rule, blank⟩ := first
    rw [text_mk_cons, List.append_assoc, List.append_assoc]
    exact rule.stops_isSpace _

theorem BrokenRule.label_of_empty {broken : BrokenRule} (empty : broken.text = []) :
    broken.label = "identifier" := by
  cases broken with
  | noLeft | noRight => rfl
  | noSign left => exact absurd (List.append_eq_nil_iff.mp empty).1 left.chars_ne_nil
  | noEnd left => exact absurd (List.append_eq_nil_iff.mp empty).1 left.chars_ne_nil

/-- What the two ways to read a text strictly make of it, by what stands at its start. -/
inductive Rule.Outcome (text : String) (found : Reply) : Prop where
  | alone (rule : Rule) (whole : Grammar.parse text = .ok ⟨[rule]⟩)
      (single : Rule.parse text = .ok rule)
  | blank (whole : Grammar.parse text = .ok ⟨[]⟩)
      (single : Rule.parse text = .error (.expected "identifier" text.utf8ByteSize
        ((Source.ofString text).coordinates text.utf8ByteSize)))
  | broken (failure : Failure) (nothing : found = .grammar (some ⟨[]⟩))
      (whole : Grammar.parse text = .error (failure.error (.ofString text)))
      (single : Rule.parse text = .error (failure.error (.ofString text)))
  | followed (first : Rule) (later : List Rule) (pos : Nat)
      (several : found = .grammar (some ⟨first :: later⟩))
      (behind : first.FollowedAt text pos) (notEmpty : Grammar.parse text ≠ .ok ⟨[]⟩)
      (notAlone : ∀ rule, Grammar.parse text ≠ .ok ⟨[rule]⟩)
      (single : Rule.parse text = .error (.trailing pos ((Source.ofString text).coordinates pos)))

theorem Rule.outcome_of_broken {text : String} {found : Reply} {lead : Blank}
    {broken : BrokenRule} {tail : List Char}
    (split : text.toList = lead.chars ++ (broken.text ++ tail)) (blocks : broken.Blocks tail)
    (nothing : found = .grammar (some ⟨[]⟩)) : Rule.Outcome text found := by
  have single := Rule.parse_of_broken split blocks
  have spaces := WrittenGrammar.text_mk_nil lead
  have whole := Grammar.parse_of_blocks (spaces.symm ▸ split) blocks
  by_cases ended : broken.text ++ tail = []
  · rw [if_pos ended] at whole
    obtain ⟨empty, -⟩ := List.append_eq_nil_iff.mp ended
    have size : utf8Length lead.chars = text.utf8ByteSize := by
      rw [← utf8Length_toList, split, ended, List.append_nil]
    have failure : broken.failure (utf8Length lead.chars) = ⟨text.utf8ByteSize, "identifier"⟩ := by
      rw [BrokenRule.failure, BrokenRule.label_of_empty empty, empty, size]
      rfl
    rw [failure] at single
    exact .blank whole single
  · rw [if_neg ended, spaces] at whole
    exact .broken _ nothing whole single

theorem Rule.outcome_of_written {text : String} {found : Reply} {lead blank : Blank}
    {rule : WrittenRule} {later : List (WrittenRule × Blank)} {broken : BrokenRule}
    {tail : List Char}
    (split : text.toList = (WrittenGrammar.mk lead ((rule, blank) :: later)).text ++
      (broken.text ++ tail)) (blocks : broken.Blocks tail)
    (several : found = .grammar (some (WrittenGrammar.mk lead ((rule, blank) :: later)).grammar)) :
    Rule.Outcome text found := by
  let rest := (WrittenGrammar.mk .none later).text ++ (broken.text ++ tail)
  have parts : text.toList = lead.chars ++ (rule.text ++ (blank.chars ++ rest)) := by
    rw [split]
    simp [WrittenGrammar.text, Blank.none, rest]
  have ends : Stops isSpace rest := WrittenGrammar.stops_isSpace later blocks.noSpace
  by_cases ended : rest = []
  · obtain ⟨noLater, nothing⟩ := List.append_eq_nil_iff.mp ended
    have last : later = [] := by
      cases later with
      | nil => rfl
      | cons next later => simp [WrittenGrammar.text, WrittenRule.text] at noLater
    have whole := Grammar.parse_of_blocks split blocks
    rw [if_pos nothing, last] at whole
    rw [ended, List.append_nil] at parts
    exact .alone rule.rule whole (Rule.parse_of_written parts)
  · have single := Rule.parse_of_followed parts ends ended
    have notEmpty : Grammar.parse text ≠ .ok ⟨[]⟩ := by
      intro empty
      obtain ⟨-, same⟩ := Grammar.eq_of_parse_eq_ok split blocks empty
      cases same
    have notAlone (other : Rule) : Grammar.parse text ≠ .ok ⟨[other]⟩ := by
      intro alone
      obtain ⟨nothing, same⟩ := Grammar.eq_of_parse_eq_ok split blocks alone
      have noLater : later = [] := by
        have tails := congrArg (·.rules.tail) same
        exact List.map_eq_nil_iff.mp tails
      exact ended (by simp [rest, noLater, nothing, WrittenGrammar.text, Blank.none])
    cases behind : rest with
    | nil => exact absurd behind ended
    | cons c more =>
      rw [behind] at parts ends
      exact .followed rule.rule _ _ several ⟨lead, rule, blank, c, more, parts, rfl, ends, rfl⟩
        notEmpty notAlone single

theorem Rule.outcome (mode : Mode) (text : String) :
    Rule.Outcome text ((Session.new mode).call (.ofString text) .parse).reply := by
  obtain ⟨written, broken, tail, split, blocks⟩ := exists_exhausts text.toList
  obtain ⟨events, answer⟩ := Session.new_parse_of_exhausts mode ⟨broken, tail, split, blocks⟩
  have found := congrArg Turn.reply answer
  obtain ⟨lead, rules⟩ := written
  cases rules with
  | nil =>
    rw [WrittenGrammar.text_mk_nil] at split
    exact outcome_of_broken split blocks found
  | cons first later => exact outcome_of_written split blocks found

/-- **A text is one rule exactly if it is a grammar of one rule.** Where it is not,
the error is that of the grammar if no rule is found, and otherwise stands where
the text goes on behind the first rule. -/
theorem rule_reading_follows_grammar_reading (mode : Mode) (text : String) :
    let source := Source.ofString text
    let found := ((Session.new mode).call source .parse).reply
    (∀ rule, Rule.parse text = .ok rule ↔ Grammar.parse text = .ok ⟨[rule]⟩) ∧
    (Grammar.parse text = .ok ⟨[]⟩ → Rule.parse text =
      .error (.expected "identifier" text.utf8ByteSize (source.coordinates text.utf8ByteSize))) ∧
    (∀ error, Grammar.parse text = .error error → found = .grammar (some ⟨[]⟩) →
      Rule.parse text = .error error) ∧
    ((∀ rule, Grammar.parse text ≠ .ok ⟨[rule]⟩) → Grammar.parse text ≠ .ok ⟨[]⟩ →
      (¬ ∃ error, Grammar.parse text = .error error ∧ found = .grammar (some ⟨[]⟩)) →
      ∃ first later pos, found = .grammar (some ⟨first :: later⟩) ∧ first.FollowedAt text pos ∧
        Rule.parse text = .error (.trailing pos (source.coordinates pos))) ∧
    ∀ error, Rule.parse text = .error error → error.place = source.coordinates error.pos := by
  intro source found
  cases Rule.outcome mode text with
  | alone rule whole single =>
    simp [whole, single]
  | blank whole single =>
    simp [whole, single, ParseError.place, ParseError.pos, source]
  | broken failure nothing whole single =>
    simp [whole, single, nothing, found, Failure.error, ParseError.place, ParseError.pos, source]
  | followed first later pos several behind notEmpty notAlone single =>
    refine ⟨fun rule => iff_of_false ?_ (notAlone rule), fun empty => absurd empty notEmpty,
      ?_, ?_, ?_⟩
    · intro alone
      cases single.symm.trans alone
    · intro error _ nothing
      cases several.symm.trans nothing
    · intro _ _ _
      exact ⟨first, later, pos, several, behind, single⟩
    · intro error same
      rw [single, Except.error.injEq] at same
      rw [← same]
      rfl

theorem four_outcomes_of_a_rule :
    let rule : Rule := ⟨⟨"a"⟩, ⟨"b_1"⟩⟩
    let found (text : String) := ((Session.new .strict).call (.ofString text) .parse).reply
    (Grammar.parse "\n a=b_1 ;" = .ok ⟨[rule]⟩ ∧ Rule.parse "\n a=b_1 ;" = .ok rule) ∧
    (Grammar.parse "\u3000" = .ok ⟨[]⟩ ∧
      Rule.parse "\u3000" = .error (.expected "identifier" 3 ⟨1, 2⟩)) ∧
    (Grammar.parse "\na = ;" = .error (.expected "identifier" 5 ⟨2, 5⟩) ∧
      found "\na = ;" = .grammar (some ⟨[]⟩) ∧
      Rule.parse "\na = ;" = .error (.expected "identifier" 5 ⟨2, 5⟩) ∧
      Coordinates.mk 2 5 = (Source.ofString "\na = ;").coordinates 5) ∧
    ((∀ rule, Grammar.parse "a=b; \uFEFFc" ≠ .ok ⟨[rule]⟩) ∧
      Grammar.parse "a=b; \uFEFFc" ≠ .ok ⟨[]⟩ ∧
      (¬ ∃ error, Grammar.parse "a=b; \uFEFFc" = .error error ∧
        found "a=b; \uFEFFc" = .grammar (some ⟨[]⟩)) ∧
      found "a=b; \uFEFFc" = .grammar (some ⟨[⟨⟨"a"⟩, ⟨"b"⟩⟩]⟩) ∧
      (Rule.mk ⟨"a"⟩ ⟨"b"⟩).FollowedAt "a=b; \uFEFFc" 8 ∧
      Rule.parse "a=b; \uFEFFc" = .error (.trailing 8 ⟨1, 7⟩)) := by
  intro rule found
  have alone : Grammar.parse "\n a=b_1 ;" = .ok ⟨[rule]⟩ := by decide +kernel
  have blank : Grammar.parse "\u3000" = .ok ⟨[]⟩ := by decide +kernel
  have broken : Grammar.parse "\na = ;" = .error (.expected "identifier" 5 ⟨2, 5⟩) := by
    decide +kernel
  have nothing : found "\na = ;" = .grammar (some ⟨[]⟩) := by decide +kernel
  have followed : Grammar.parse "a=b; \uFEFFc" = .error (.expected "'='" 9 ⟨1, 8⟩) := by
    decide +kernel
  have notAlone (other : Rule) : Grammar.parse "a=b; \uFEFFc" ≠ .ok ⟨[other]⟩ := by
    rw [followed]
    intro same
    cases same
  have notBlank : Grammar.parse "a=b; \uFEFFc" ≠ .ok ⟨[]⟩ := by
    rw [followed]
    intro same
    cases same
  have one : found "a=b; \uFEFFc" = .grammar (some ⟨[⟨⟨"a"⟩, ⟨"b"⟩⟩]⟩) := by decide +kernel
  have some : ¬ ∃ error, Grammar.parse "a=b; \uFEFFc" = .error error ∧
      found "a=b; \uFEFFc" = .grammar (some ⟨[]⟩) := by
    rintro ⟨error, -, none⟩
    cases one.symm.trans none
  have single (text : String) := rule_reading_follows_grammar_reading .strict text
  have error := (single _).2.2.1 _ broken nothing
  have told : Rule.parse "a=b; \uFEFFc" = .error (.trailing 8 ⟨1, 7⟩) := by decide +kernel
  obtain ⟨first, later, pos, read, followedAt, trailing⟩ :=
    (single _).2.2.2.1 notAlone notBlank some
  cases one.symm.trans read
  obtain ⟨rfl, -⟩ := ParseError.trailing.inj (Except.error.inj (trailing.symm.trans told))
  exact ⟨⟨alone, ((single _).1 rule).mpr alone⟩, ⟨blank, (single _).2.1 blank⟩,
    ⟨broken, nothing, error, (single _).2.2.2.2 _ error⟩,
    ⟨notAlone, notBlank, some, one, followedAt, told⟩⟩

end Metasyntax
