import Metasyntax.Proofs.Calls

/-! A grammar can be read by a call for each rule, and a rule by a call for each
token. Only the cursor goes from one call to the next, and that is enough. -/
namespace Metasyntax

/-- A call for white space, and one for the rule behind it. -/
def Session.nextRule (session : Session) (source : Source) : Turn :=
  (session.call source .whitespace).session.call source .rule

/-- Calls for the next rule until one is answered with none: the rules that were
answered, and the session that is left. -/
inductive Session.RuleByRule (source : Source) : Session → List Rule → Session → Prop where
  | last {session : Session} (none : (session.nextRule source).reply = .rule none) :
      RuleByRule source session [] (session.nextRule source).session
  | next {session final : Session} {rule : Rule} {rules : List Rule}
      (found : (session.nextRule source).reply = .rule (some rule))
      (later : RuleByRule source (session.nextRule source).session rules final) :
      RuleByRule source session (rule :: rules) final

/-- A call for a token, and one for the white space behind it. What the second is
answered does not matter. -/
def Session.spaced (session : Session) (source : Source) (token : Call) : Turn :=
  let turn := session.call source token
  { turn with session := (turn.session.call source .whitespace).session }

/-- The calls for the tokens of the rule are all answered with what they ask for,
and leave the cursor there. -/
def Session.TokenByToken (session : Session) (source : Source) (rule : Rule) (cursor : Nat) :
    Prop :=
  let left := session.spaced source .lhs
  let sign := left.session.spaced source (.raw (· == '='))
  let right := sign.session.spaced source .rhs
  let last := right.session.call source (.raw (· == ';'))
  left.reply = .identifier (some rule.lhs) ∧ sign.reply = .char (some '=') ∧
    right.reply = .identifier (some rule.rhs) ∧ last.reply = .char (some ';') ∧
    last.session.cursor = cursor

variable {session : Session} {source : Source} {before rest : List Char}

/-! ## Rule by rule -/

theorem Session.nextRule_of_written {lead : Blank} {written : WrittenRule}
    (cut : source.Cut session.cursor before (lead.chars ++ (written.text ++ rest))) :
    ∃ events, session.nextRule source =
      ⟨{ session with cursor := utf8Length (before ++ lead.chars ++ written.text) },
        .rule (some written.rule), events⟩ := by
  obtain ⟨found, skipped⟩ := call_whitespace cut (written.stops_isSpace rest)
  rw [nextRule, skipped]
  exact call_rule_of_written cut.forward

theorem Session.nextRule_of_broken {lead : Blank} {broken : BrokenRule} {tail : List Char}
    (cut : source.Cut session.cursor before (lead.chars ++ (broken.text ++ tail)))
    (blocks : broken.Blocks tail) :
    ∃ events, session.nextRule source =
      ⟨{ session with cursor := utf8Length (before ++ lead.chars) }, .rule none, events⟩ := by
  obtain ⟨found, skipped⟩ := call_whitespace cut blocks.noSpace
  rw [nextRule, skipped]
  exact call_rule_of_broken cut.forward blocks.breaks

/-- Rule by rule a session finds exactly the rules that are written at its cursor. -/
theorem Session.ruleByRule_iff {written : WrittenGrammar} {rules : List Rule} {final : Session}
    (cut : source.Cut session.cursor before rest) (exhausts : written.Exhausts rest) :
    RuleByRule source session rules final ↔ rules = written.grammar.rules ∧
      final = { session with cursor := utf8Length (before ++ written.text) } := by
  obtain ⟨broken, tail, rfl, blocks⟩ := exhausts
  obtain ⟨lead, written⟩ := written
  -- Each rule is found by one call, and behind the last of them none is.
  induction written generalizing session before lead rules with
  | nil =>
    rw [WrittenGrammar.text_mk_nil] at cut ⊢
    obtain ⟨events, answer⟩ := nextRule_of_broken cut blocks
    constructor
    · intro run
      cases run with
      | last => exact ⟨rfl, by rw [answer]⟩
      | next found => rw [answer] at found; cases found
    · rintro ⟨rfl, rfl⟩
      have last := RuleByRule.last (congrArg Turn.reply answer)
      rwa [answer] at last
  | cons first later ih =>
    obtain ⟨rule, blank⟩ := first
    rw [WrittenGrammar.text_mk_cons] at cut ⊢
    simp only [List.append_assoc] at cut
    obtain ⟨events, answer⟩ := nextRule_of_written cut
    let moved : Session := { session with cursor := utf8Length (before ++ lead.chars ++ rule.text) }
    have there : source.Cut moved.cursor (before ++ lead.chars ++ rule.text)
        ((WrittenGrammar.mk blank later).text ++ (broken.text ++ tail)) := cut.forward.forward
    have stop : before ++ lead.chars ++ rule.text ++ (WrittenGrammar.mk blank later).text =
        before ++ (lead.chars ++ (rule.text ++ (WrittenGrammar.mk blank later).text)) := by
      simp only [List.append_assoc]
    rw [← stop]
    constructor
    · intro run
      cases run with
      | last none => rw [answer] at none; cases none
      | next found others =>
        rw [answer] at found others
        cases found
        obtain ⟨rfl, final⟩ := (ih blank there).mp others
        exact ⟨rfl, final⟩
    · rintro ⟨rfl, rfl⟩
      have others := (ih blank there).mpr ⟨rfl, rfl⟩
      refine .next (congrArg Turn.reply answer) ?_
      rw [answer]
      exact others

/-! ## Token by token -/

theorem Session.spaced_of_call {token : Call} {reply : Reply} {events : List Event}
    {text : List Char} {blank : Blank}
    (cut : source.Cut session.cursor before (text ++ (blank.chars ++ rest)))
    (answer : session.call source token =
      ⟨{ session with cursor := utf8Length (before ++ text) }, reply, events⟩)
    (ends : Stops isSpace rest) :
    ∃ next, session.spaced source token = ⟨next, reply, events⟩ ∧
      source.Cut next.cursor (before ++ (text ++ blank.chars)) rest := by
  let moved : Session := { session with cursor := utf8Length (before ++ text) }
  have there : source.Cut moved.cursor (before ++ text) (blank.chars ++ rest) := cut.forward
  obtain ⟨found, skipped⟩ := call_whitespace there ends
  refine ⟨{ moved with cursor := utf8Length (before ++ text ++ blank.chars) }, ?_, ?_⟩
  · rw [spaced, answer, skipped]
  · rw [← List.append_assoc]
    exact there.forward

theorem Session.spaced_name {name : Name} {blank : Blank}
    (cut : source.Cut session.cursor before (name.chars ++ (blank.chars ++ rest)))
    (nameEnds : Stops isWordChar (blank.chars ++ rest)) (blankEnds : Stops isSpace rest) :
    ∃ next events, session.spaced source .identifier =
      ⟨next, .identifier (some name.identifier), events⟩ ∧
      source.Cut next.cursor (before ++ (name.chars ++ blank.chars)) rest := by
  obtain ⟨events, named⟩ := call_identifier_of_name cut nameEnds
  obtain ⟨next, answer, there⟩ := spaced_of_call cut named blankEnds
  exact ⟨next, events, answer, there⟩

theorem Session.spaced_lhs : session.spaced source .lhs = session.spaced source .identifier := rfl

theorem Session.spaced_rhs : session.spaced source .rhs = session.spaced source .identifier := rfl

theorem Session.spaced_sign {sign : Char} {blank : Blank}
    (cut : source.Cut session.cursor before (sign :: (blank.chars ++ rest)))
    (ends : Stops isSpace rest) :
    ∃ next events, session.spaced source (.raw (· == sign)) = ⟨next, .char (some sign), events⟩ ∧
      source.Cut next.cursor (before ++ sign :: blank.chars) rest := by
  have found : session.call source (.raw (· == sign)) = _ :=
    call_raw_of_accepts cut (beq_self_eq_true sign)
  have whole : source.Cut session.cursor before ([sign] ++ (blank.chars ++ rest)) := cut
  obtain ⟨next, answer, there⟩ := spaced_of_call whole found ends
  exact ⟨next, [], answer, there⟩

/-- The calls in front of the one for the right name. -/
theorem Session.spaced_left_sign {name : Name} {afterLeft beforeRight : Blank}
    (cut : source.Cut session.cursor before
      (name.chars ++ (afterLeft.chars ++ '=' :: (beforeRight.chars ++ rest))))
    (ends : Stops isSpace rest) :
    ∃ next events, (session.spaced source .lhs).reply = .identifier (some name.identifier) ∧
      (session.spaced source .lhs).session.spaced source (.raw (· == '=')) =
        ⟨next, .char (some '='), events⟩ ∧
      source.Cut next.cursor
        (before ++ (name.chars ++ afterLeft.chars) ++ '=' :: beforeRight.chars) rest := by
  obtain ⟨moved, events, left, there⟩ := spaced_name cut
    (afterLeft.stops_isWordChar (Symbol.isWordChar_char .definition))
    (Symbol.isSpace_char .definition)
  obtain ⟨next, later, sign, further⟩ := spaced_sign there ends
  refine ⟨next, later, ?_, ?_, further⟩
  · rw [spaced_lhs, left]
  · rw [spaced_lhs, left, sign]

theorem Session.tokenByToken_of_written {written : WrittenRule} {rule : Rule} {cursor : Nat}
    (cut : source.Cut session.cursor before (written.text ++ rest)) :
    session.TokenByToken source rule cursor ↔
      written.rule = rule ∧ utf8Length (before ++ written.text) = cursor := by
  have tokens : written.text ++ rest = written.left.chars ++ (written.afterLeft.chars ++
      '=' :: (written.beforeRight.chars ++ (written.right.chars ++
        (written.afterRight.chars ++ ';' :: rest)))) := by simp [WrittenRule.text]
  rw [tokens] at cut
  obtain ⟨atRight, _, left, sign, behindSign⟩ := spaced_left_sign cut (written.right.stops_isSpace _)
  obtain ⟨atEnd, _, right, behindRight⟩ := spaced_name behindSign
    (written.afterRight.stops_isWordChar (Symbol.isWordChar_char .termination))
    (Symbol.isSpace_char .termination)
  have last : atEnd.call source (.raw (· == ';')) = _ :=
    call_raw_of_accepts behindRight (beq_self_eq_true ';')
  have stop : before ++ (written.left.chars ++ written.afterLeft.chars) ++
      '=' :: written.beforeRight.chars ++ (written.right.chars ++ written.afterRight.chars) ++
      [';'] = before ++ written.text := by simp [WrittenRule.text]
  rw [stop] at last
  obtain ⟨lhs, rhs⟩ := rule
  simp [TokenByToken, left, sign, spaced_rhs, right, last, WrittenRule.rule, and_assoc]

/-- Where a rule breaks off, one of the calls is answered with none. -/
theorem Session.not_tokenByToken_of_broken {broken : BrokenRule} {rule : Rule} {cursor : Nat}
    (cut : source.Cut session.cursor before (broken.text ++ rest)) (breaks : broken.BreaksAt rest) :
    ¬ session.TokenByToken source rule cursor := by
  rintro ⟨left, sign, right, last, -⟩
  cases broken with
  | noLeft =>
    have none : (session.spaced source .lhs).reply = .identifier none :=
      call_identifier_of_stops cut breaks
    cases none.symm.trans left
  | noSign name afterLeft =>
    obtain ⟨nameEnds, blankEnds, noSign⟩ := breaks
    simp only [BrokenRule.text, List.append_assoc] at cut
    obtain ⟨next, _, found, there⟩ := spaced_name cut nameEnds blankEnds
    rw [spaced_lhs, found] at sign
    have none : (next.spaced source (.raw (· == '='))).reply = .char none :=
      call_raw_of_stops there noSign
    cases none.symm.trans sign
  | noRight name afterLeft beforeRight =>
    obtain ⟨blankEnds, noRight⟩ := breaks
    simp only [BrokenRule.text, List.append_assoc, List.cons_append] at cut
    obtain ⟨next, _, -, found, there⟩ := spaced_left_sign cut blankEnds
    rw [found] at right
    have none : (next.spaced source .rhs).reply = .identifier none :=
      call_identifier_of_stops there noRight
    cases none.symm.trans right
  | noEnd name afterLeft beforeRight other afterRight =>
    obtain ⟨nameEnds, blankEnds, noEnd⟩ := breaks
    simp only [BrokenRule.text, List.append_assoc, List.cons_append] at cut
    obtain ⟨atRight, _, -, found, there⟩ := spaced_left_sign cut (other.stops_isSpace _)
    obtain ⟨next, _, named, further⟩ := spaced_name there nameEnds blankEnds
    rw [found, spaced_rhs, named] at last
    have none : (next.call source (.raw (· == ';'))).reply = .char none :=
      call_raw_of_stops further noEnd
    cases none.symm.trans last

/-- **One call does what a call for each part does.** A call for a grammar answers
with the rules that calls rule by rule find, and leaves the session as they do. A
call for a rule is answered with one exactly if calls token by token find it, with
the cursor behind it, and otherwise leaves the cursor where it started. -/
theorem whole_calls_refine_to_parts (session : Session) (source : Source) :
    (∃ rules, (session.call source .parse).reply = .grammar (some ⟨rules⟩) ∧
      ∀ found final, Session.RuleByRule source session found final ↔
        found = rules ∧ final = (session.call source .parse).session) ∧
    (∀ rule cursor, ((session.call source .rule).reply = .rule (some rule) ∧
        (session.call source .rule).session.cursor = cursor) ↔
      session.TokenByToken source rule cursor) ∧
    ((∃ rule cursor, session.TokenByToken source rule cursor) ∨
      (session.call source .rule).reply = .rule none ∧
        (session.call source .rule).session.cursor =
          boundaryBefore source.chars session.cursor) := by
  obtain ⟨before, rest, cut⟩ := source.exists_cut session.cursor
  refine ⟨?_, ?_⟩
  · obtain ⟨written, exhausts⟩ := exists_exhausts rest
    have lenient : GrammarCall.parse.rejects session.mode = false := rfl
    obtain ⟨events, answer⟩ := Session.call_grammar_of_exhausts cut exhausts lenient
    have parsed : session.call source .parse = _ := answer
    refine ⟨written.grammar.rules, congrArg Turn.reply parsed, fun found final => ?_⟩
    rw [parsed]
    exact Session.ruleByRule_iff cut exhausts
  · rcases exists_rule rest with ⟨written, rest, rfl⟩ | ⟨broken, tail, rfl, breaks⟩
    · obtain ⟨events, answer⟩ := Session.call_rule_of_written cut
      refine ⟨fun rule cursor => ?_, .inl ⟨_, _, (Session.tokenByToken_of_written cut).mpr ⟨rfl, rfl⟩⟩⟩
      rw [Session.tokenByToken_of_written cut, answer, Reply.rule.injEq, Option.some.injEq]
    · obtain ⟨events, answer⟩ := Session.call_rule_of_broken cut breaks
      refine ⟨fun rule cursor => iff_of_false ?_ (Session.not_tokenByToken_of_broken cut breaks),
        .inr ⟨congrArg Turn.reply answer, ?_⟩⟩
      · rw [answer]
        rintro ⟨found, -⟩
        cases found
      · rw [answer, cut.start]

end Metasyntax
