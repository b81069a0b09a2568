import Metasyntax.Parsing.Matcher
import Metasyntax.Proofs.GrammarReading

/-! What parsers are built from, and what they can do to a state: record a failure,
report an event, read what comes next, and go back. Every property of a state that
these steps keep is kept by every parser. -/
namespace Metasyntax

variable {α β : Type}

theorem Place.Aligned.ahead {place : Place} (aligned : place.Aligned) :
    ∃ rest, place.ahead? = some rest := by
  obtain ⟨before, rest, split, start⟩ := aligned
  refine ⟨rest, ?_⟩
  rw [place.ahead?_eq, split, ← start, dropBytes?_utf8Length]

/-- What holds of a state if it holds of all with fewer bytes left holds of every state. -/
@[elab_as_elim]
theorem State.fewerBytesInduction {motive : State → Prop}
    (step : ∀ s : State, (∀ t : State, t.remaining < s.remaining → motive t) → motive s)
    (s : State) : motive s := (measure State.remaining).wf.induction s step

/-! ## Steps -/

/-- The second state is the first after steps of a parser. The place to go back to
is always one that the steps have come through. -/
inductive State.Leads : State → State → Prop where
  | here {s : State} : Leads s s
  | fail {s t : State} (label : String) (earlier : Leads s t) : Leads s (t.fail label)
  | note {s t : State} (event : Event) (earlier : Leads s t) : Leads s (t.note event)
  | advance {s t : State} (consumed rest : List Char)
      (next : t.ahead? = some (consumed ++ rest)) (earlier : Leads s t) :
      Leads s (t.advance consumed rest next)
  | back {s t u : State} (first : Leads s t) (second : Leads t u) : Leads s (u.backTo t)

theorem State.Leads.trans {s t u : State} (first : s.Leads t) (second : t.Leads u) :
    s.Leads u := by
  induction second with
  | here => exact first
  | fail label _ ih => exact (ih first).fail label
  | note event _ ih => exact (ih first).note event
  | advance consumed rest next _ ih => exact (ih first).advance consumed rest next
  | back _ later ih _ => exact (ih first).back later

theorem State.Leads.source {s t : State} (leads : s.Leads t) : t.source = s.source := by
  induction leads with
  | here => rfl
  | fail _ _ ih | note _ _ ih | advance _ _ _ _ ih => exact ih
  | back _ _ ih => exact ih

/-- Text can be read wherever the steps lead. -/
theorem State.Leads.ahead {s t : State} (leads : s.Leads t) {rest : List Char}
    (ahead : s.ahead? = some rest) : ∃ left, t.ahead? = some left := by
  induction leads generalizing rest with
  | here => exact ⟨rest, ahead⟩
  | fail _ _ ih | note _ _ ih => exact ih ahead
  | advance consumed left => exact ⟨left, rfl⟩
  | back _ _ ih => exact ih ahead

/-! ## How a parser ends -/

/-- A parser that has ended, with a value if it matched. -/
def Outcome.ended : Option α → State → Outcome α
  | some value, t => .matched t value
  | none, t => .failed t

theorem Outcome.ended_inj {first second : Option α} {s t : State}
    (same : Outcome.ended first s = .ended second t) : s = t := by
  cases first <;> cases second <;> cases same <;> rfl

/-- How a parser has ended: with which value, at which offset, and what was furthest. -/
def Outcome.ending? : Outcome α → Option (Option α × Nat × Option Failure)
  | .matched t value => some (some value, t.pos, t.furthest)
  | .failed t => some (none, t.pos, t.furthest)
  | .stuck _ => none

theorem Outcome.ending?_ended_iff {result value : Option α} {t : State} {pos : Nat}
    {furthest : Option Failure} :
    (Outcome.ended result t).ending? = some (value, pos, furthest) ↔
      result = value ∧ t.pos = pos ∧ t.furthest = furthest := by
  cases result <;> simp [ended, ending?]

/-- Where text can be read, the parser ends, and steps lead to its end. -/
def Parser.Ends (p : Parser α) : Prop :=
  ∀ (s : State) (rest : List Char), s.ahead? = some rest →
    ∃ (result : Option α) (t : State), p s = .ended result t ∧ s.Leads t

namespace Parser

/-- What a parser does on the way to its end is a sequence of steps. -/
theorem Ends.leads {p : Parser α} (ends : p.Ends) {s t : State} {rest : List Char}
    (ahead : s.ahead? = some rest) {result : Option α} (ended : p s = .ended result t) :
    s.Leads t := by
  obtain ⟨found, u, run, leads⟩ := ends s rest ahead
  rw [Outcome.ended_inj (ended.symm.trans run)]
  exact leads

theorem ends_succeed (value : α) : (succeed value).Ends :=
  fun s _ _ => ⟨some value, s, rfl, .here⟩

theorem ends_fail (label : String) : (fail label : Parser α).Ends :=
  fun s _ _ => ⟨none, s.fail label, rfl, .fail label .here⟩

theorem ends_report (event : Nat → Event) : (report event).Ends :=
  fun _ _ _ => ⟨some (), _, rfl, .note _ .here⟩

theorem ends_raw (accepts : Char → Bool) (label : String) : (raw accepts label).Ends := by
  intro s rest ahead
  cases rest with
  | nil => exact ⟨none, _, raw_of_stops ahead (stops_nil accepts) label, .fail label .here⟩
  | cons c rest =>
    cases ok : accepts c with
    | true =>
      exact ⟨some c, _, raw_of_accepts ahead ok label, .advance [c] rest ahead .here⟩
    | false => exact ⟨none, _, raw_of_stops ahead (stops_cons.mpr ok) label, .fail label .here⟩

theorem ends_whitespace : whitespace.Ends := by
  intro s text ahead
  obtain ⟨blank, rest, rfl, stops⟩ := exists_blank text
  by_cases empty : blank.chars = []
  · rw [empty] at ahead
    exact ⟨none, _, whitespace_of_stops ahead stops, .fail _ .here⟩
  · exact ⟨some (.ofList blank.chars), _, whitespace_of_run ahead blank.spaces empty stops,
      .advance blank.chars rest ahead .here⟩

theorem Ends.map {p : Parser α} (hp : p.Ends) (f : α → β) : (p.map f).Ends := by
  intro s rest ahead
  obtain ⟨result, t, ended, leads⟩ := hp s rest ahead
  refine ⟨result.map f, t, ?_, leads⟩
  rw [Parser.map, ended]
  cases result <;> rfl

theorem Ends.andThen {p : Parser α} {next : α → Parser β} (hp : p.Ends)
    (hn : ∀ value, (next value).Ends) : (p.andThen next).Ends := by
  intro s rest ahead
  obtain ⟨result, t, ended, leads⟩ := hp s rest ahead
  cases result with
  | none => exact ⟨none, t, bind_of_failed ended, leads⟩
  | some value =>
    obtain ⟨left, there⟩ := leads.ahead ahead
    obtain ⟨final, u, later, further⟩ := hn value t left there
    exact ⟨final, u, (bind_of_matched ended).trans later, leads.trans further⟩

theorem Ends.expecting {p : Parser α} (hp : p.Ends) (label : String) :
    (p.expecting label).Ends := by
  intro s rest ahead
  obtain ⟨result, t, ended, leads⟩ := hp s rest ahead
  unfold Parser.expecting
  rw [ended]
  cases result with
  | none => exact ⟨none, t.fail label, rfl, leads.fail label⟩
  | some value => exact ⟨some value, t, rfl, leads⟩

theorem Ends.attempt {p : Parser α} (hp : p.Ends) : p.attempt.Ends := by
  intro s rest ahead
  obtain ⟨result, t, ended, leads⟩ := hp s rest ahead
  cases result with
  | none => exact ⟨none, t.backTo s, attempt_of_failed ended, .back .here leads⟩
  | some value => exact ⟨some value, t, attempt_eq_matched.mpr ended, leads⟩

theorem Ends.anyOf {ps : List (Parser α)} (hp : ∀ p ∈ ps, p.Ends) : (anyOf ps).Ends := by
  intro s rest ahead
  induction ps generalizing s with
  | nil => exact ⟨none, s, rfl, .here⟩
  | cons p ps ih =>
    obtain ⟨result, t, ended, leads⟩ := hp p List.mem_cons_self s rest ahead
    cases result with
    | none =>
      obtain ⟨result, u, later, further⟩ :=
        ih (fun q member => hp q (List.mem_cons_of_mem p member)) (t.backTo s) ahead
      refine ⟨result, u, (anyOf_cons_of_failed ended).trans later, ?_⟩
      exact (State.Leads.back .here leads).trans further
    | some value => exact ⟨some value, t, anyOf_cons_of_matched ended, leads⟩

theorem Ends.optional {p : Parser α} (hp : p.Ends) : p.optional.Ends := by
  intro s rest ahead
  obtain ⟨result, t, ended, leads⟩ := hp s rest ahead
  cases result with
  | none => exact ⟨some none, t.backTo s, optional_of_failed ended, .back .here leads⟩
  | some value => exact ⟨some (some value), t, optional_of_matched ended, leads⟩

theorem repeated_of_stay {p : Parser α} {s t : State} {value : α} (h : p s = .matched t value)
    (stay : ¬ t.remaining < s.remaining) : p.repeated s = .matched t [value] := by
  rw [repeated, attempt_eq_matched.mpr h]
  exact if_neg stay

theorem Ends.repeated {p : Parser α} (hp : p.Ends) : p.repeated.Ends := by
  intro s
  induction s using State.fewerBytesInduction with
  | step s ih =>
    intro rest ahead
    obtain ⟨result, t, ended, leads⟩ := hp s rest ahead
    cases result with
    | none => exact ⟨some [], t.backTo s, repeated_of_failed ended, .back .here leads⟩
    | some value =>
      by_cases less : t.remaining < s.remaining
      · obtain ⟨left, there⟩ := leads.ahead ahead
        obtain ⟨result, u, later, further⟩ := ih t less left there
        refine ⟨result.map (value :: ·), u, ?_, leads.trans further⟩
        rw [repeated_of_matched ended less, later]
        cases result <;> rfl
      · exact ⟨some [value], t, repeated_of_stay ended less, leads⟩

/-- The loop over the rules goes on with fewer bytes. -/
theorem remaining_of_skipped_rule {s t u : State} {first : Rule}
    (skipped : skipWhitespace s = .matched t ()) (read : Parser.rule t = .matched u first) :
    u.remaining < s.remaining :=
  Nat.lt_of_lt_of_le (consumes_rule t u first read) (neverBack_skipWhitespace s t () skipped)

theorem ends_rules (skip : skipWhitespace.Ends) (rule : Parser.rule.Ends) :
    Parser.Ends rules := by
  intro s
  induction s using State.fewerBytesInduction with
  | step s ih =>
    intro rest ahead
    have run := rules_eq s
    cases goesOn : s.atEnd with
    | true => exact ⟨some [], s, run.trans (if_pos goesOn), .here⟩
    | false =>
      obtain ⟨skipped, t, ended, leads⟩ := skip s rest ahead
      rw [goesOn, ended] at run
      cases skipped with
      | none => exact ⟨none, t, run, leads⟩
      | some nothing =>
        cases more : t.atEnd with
        | true => exact ⟨some [], t, run.trans (if_pos more), leads⟩
        | false =>
          obtain ⟨left, there⟩ := leads.ahead ahead
          obtain ⟨found, u, read, further⟩ := rule t left there
          have step := run.trans (if_neg (Bool.eq_false_iff.mp more))
          rw [read] at step
          cases found with
          | none => exact ⟨some [], _, step, (leads.trans further).note _⟩
          | some first =>
            obtain ⟨later, behind⟩ := further.ahead there
            obtain ⟨result, v, final, last⟩ :=
              ih u (remaining_of_skipped_rule ended read) later behind
            refine ⟨result.map (first :: ·), v, step.trans ?_, (leads.trans further).trans last⟩
            change (rules u).map (first :: ·) = _
            rw [final]
            cases result <;> rfl

/-! ## Parsers -/

/-- Parsers that are put together from those of characters and white space by the
combinators and the loop over the rules. What follows a match may depend on its value. -/
inductive Built : {α : Type} → Parser α → Prop where
  | succeed {α : Type} (value : α) : Built (succeed value)
  | fail {α : Type} (label : String) : Built (fail label : Parser α)
  | raw (accepts : Char → Bool) (label : String) : Built (raw accepts label)
  | whitespace : Built whitespace
  | reportIdentifier (identifier : Identifier) : Built (report (.identifier identifier))
  | reportRule (rule : Rule) : Built (report fun _ => .rule rule)
  | map {α β : Type} {p : Parser α} (f : α → β) (hp : Built p) : Built (p.map f)
  | andThen {α β : Type} {p : Parser α} {next : α → Parser β} (hp : Built p)
      (hn : ∀ value, Built (next value)) : Built (p.andThen next)
  | expecting {α : Type} {p : Parser α} (label : String) (hp : Built p) :
      Built (p.expecting label)
  | attempt {α : Type} {p : Parser α} (hp : Built p) : Built p.attempt
  | anyOf {α : Type} {ps : List (Parser α)} (hp : ∀ p ∈ ps, Built p) : Built (anyOf ps)
  | repeated {α : Type} {p : Parser α} (hp : Built p) : Built p.repeated
  | optional {α : Type} {p : Parser α} (hp : Built p) : Built p.optional
  | rules (skip : Built skipWhitespace) (rule : Built Parser.rule) :
      Built (Parser.rules : Parser (List Rule))

theorem Built.inOrder {ps : List (Parser α)} (hp : ∀ p ∈ ps, p.Built) : (inOrder ps).Built := by
  induction ps with
  | nil => exact .succeed []
  | cons p ps ih =>
    refine .andThen (hp p List.mem_cons_self) fun value => ?_
    refine .andThen (ih fun q member => hp q (List.mem_cons_of_mem p member)) fun values => ?_
    exact .succeed (value :: values)

theorem built_skipWhitespace : skipWhitespace.Built :=
  .andThen (.optional .whitespace) fun _ => .succeed ()

theorem built_wordChar : wordChar.Built := by
  apply Built.anyOf
  intro p hp
  simp only [List.mem_cons, List.not_mem_nil, or_false] at hp
  rcases hp with rfl | rfl | rfl <;> exact .raw _ _

theorem built_identifier : identifier.Built := by
  refine .andThen (.expecting _ (.raw _ _)) fun first => ?_
  refine .andThen (.repeated built_wordChar) fun others => ?_
  exact .andThen (.reportIdentifier _) fun _ => .succeed _

theorem built_rule : Parser.rule.Built := by
  refine .attempt (.andThen built_identifier fun left => ?_)
  refine .andThen built_skipWhitespace fun _ => .andThen (.raw _ _) fun _ => ?_
  refine .andThen built_skipWhitespace fun _ => .andThen built_identifier fun right => ?_
  refine .andThen built_skipWhitespace fun _ => .andThen (.raw _ _) fun _ => ?_
  exact .andThen (.reportRule ⟨left, right⟩) fun _ => .succeed _

theorem built_grammar : grammar.Built := .map Grammar.mk (.rules built_skipWhitespace built_rule)

theorem Built.ends {p : Parser α} (built : p.Built) : p.Ends := by
  induction built with
  | succeed value => exact ends_succeed value
  | fail label => exact ends_fail label
  | raw accepts label => exact ends_raw accepts label
  | whitespace => exact ends_whitespace
  | reportIdentifier | reportRule => exact ends_report _
  | map f _ ih => exact ih.map f
  | andThen _ _ first later => exact first.andThen later
  | expecting label _ ih => exact ih.expecting label
  | attempt _ ih => exact ih.attempt
  | anyOf _ ih => exact .anyOf ih
  | repeated _ ih => exact ih.repeated
  | optional _ ih => exact ih.optional
  | rules _ _ skip rule => exact ends_rules skip rule

end Parser

mutual

theorem Matcher.built : (matcher : Matcher α) → matcher.run.Built
  | .letter => .map _ (.raw _ _)
  | .digit => .map _ (.raw _ _)
  | .underscore => .map _ (.raw _ _)
  | .symbol _ => .map _ (.raw _ _)
  | .raw _ _ => .map _ (.raw _ _)
  | .whitespace => .map _ .whitespace
  | .skipWhitespace => .map _ Parser.built_skipWhitespace
  | .identifier => .map _ Parser.built_identifier
  | .lhs => .map _ Parser.built_identifier
  | .rhs => .map _ Parser.built_identifier
  | .rule => .map _ Parser.built_rule
  | .grammar => .map _ Parser.built_grammar
  | .succeed _ => .succeed _
  | .fail label => .fail label
  | .inOrder parts => .map _ (.inOrder (Matcher.builtEach parts))
  | .anyOf candidates => .anyOf (Matcher.builtEach candidates)
  | .attempt matcher => .attempt matcher.built
  | .repeated matcher => .map _ (.repeated matcher.built)
  | .optional matcher => .map _ (.optional matcher.built)

theorem Matcher.builtEach : (matchers : List (Matcher α)) →
    ∀ p ∈ Matcher.runEach matchers, p.Built
  | [], _, member => nomatch member
  | matcher :: matchers, p, member => by
    rcases List.mem_cons.mp member with rfl | later
    · exact matcher.built
    · exact Matcher.builtEach matchers p later

end

end Metasyntax
