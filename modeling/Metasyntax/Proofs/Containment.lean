import Metasyntax.Proofs.Built

/-! A parser that does not match has taken nothing, unless it is a bare sequence. What a
sequence inside it has read before it failed is given back by the combinator around it,
and no parser ever ends before the place where it began. -/
namespace Metasyntax

variable {α β : Type}

theorem State.Leads.pos_le {s t : State} (leads : s.Leads t) : s.pos ≤ t.pos := by
  induction leads with
  | here => exact Nat.le_refl _
  | fail _ _ ih | note _ _ ih => exact ih
  | advance consumed _ _ _ ih => exact Nat.le_trans ih (Nat.le_add_right _ (utf8Length consumed))
  | back _ _ ih _ => exact ih

theorem Outcome.map_eq_failed {f : α → β} {outcome : Outcome α} {t : State}
    (h : outcome.map f = .failed t) : outcome = .failed t := by
  cases outcome with
  | failed u =>
    cases h
    rfl
  | matched | stuck => cases h

namespace Parser

/-- Without a match the parser is where it began. -/
def GivesBack (p : Parser α) : Prop := ∀ s t, p s = .failed t → t.place = s.place

def NeverFails (p : Parser α) : Prop := ∀ s t, p s ≠ .failed t

theorem NeverFails.givesBack {p : Parser α} (hp : p.NeverFails) : p.GivesBack :=
  fun s t failed => absurd failed (hp s t)

/-- Where text can be read, a parser that never fails has a match. -/
theorem NeverFails.matched {p : Parser α} (hp : p.NeverFails) (ends : p.Ends) {s : State}
    (aligned : s.place.Aligned) : ∃ (t : State) (value : α), p s = .matched t value := by
  obtain ⟨rest, ahead⟩ := aligned.ahead
  obtain ⟨result, t, ended, -⟩ := ends s rest ahead
  cases result with
  | none => exact absurd ended (hp s t)
  | some value => exact ⟨t, value, ended⟩

/-! ## Sequences -/

theorem bind_eq_failed {p : Parser α} {next : α → Parser β} {s t : State}
    (h : (p >>= next) s = .failed t) :
    p s = .failed t ∨ ∃ u middle, p s = .matched u middle ∧ next middle u = .failed t := by
  change (p s).bind next = _ at h
  cases outcome : p s with
  | matched u middle =>
    rw [outcome] at h
    exact .inr ⟨u, middle, rfl, h⟩
  | failed u =>
    rw [outcome] at h
    cases h
    exact .inl rfl
  | stuck u =>
    rw [outcome] at h
    cases h

theorem NeverFails.bind {p : Parser α} {next : α → Parser β} (hp : p.NeverFails)
    (hn : ∀ value, (next value).NeverFails) : (p >>= next).NeverFails := by
  intro s t failed
  rcases bind_eq_failed failed with first | ⟨u, middle, -, second⟩
  · exact hp s t first
  · exact hn middle u t second

/-- A sequence gives back what it has taken if only its first part can fail. -/
theorem GivesBack.bind {p : Parser α} {next : α → Parser β} (hp : p.GivesBack)
    (hn : ∀ value, (next value).NeverFails) : (p >>= next).GivesBack := by
  intro s t failed
  rcases bind_eq_failed failed with first | ⟨u, middle, -, second⟩
  · exact hp s t first
  · exact absurd second (hn middle u t)

/-! ## Matchers -/

theorem neverFails_succeed (value : α) : (succeed value).NeverFails := by
  intro s t failed
  cases failed

theorem neverFails_report (event : Nat → Event) : (report event).NeverFails := by
  intro s t failed
  cases failed

theorem givesBack_fail (label : String) : (fail label : Parser α).GivesBack := by
  intro s t failed
  cases failed
  rfl

theorem givesBack_raw (accepts : Char → Bool) (label : String) : (raw accepts label).GivesBack := by
  intro s t failed
  unfold raw at failed
  split at failed
  · split at failed
    · cases failed
    · cases failed
      rfl
  · cases failed
    rfl
  · cases failed

theorem givesBack_whitespace : whitespace.GivesBack := by
  intro s t failed
  unfold whitespace at failed
  split at failed
  · simp only at failed
    split at failed
    · cases failed
      rfl
    · cases failed
  · cases failed

/-! ## Combinators -/

theorem GivesBack.map {p : Parser α} (hp : p.GivesBack) (f : α → β) : (p.map f).GivesBack := by
  intro s t failed
  exact hp s t (Outcome.map_eq_failed failed)

theorem GivesBack.expecting {p : Parser α} (hp : p.GivesBack) (label : String) :
    (p.expecting label).GivesBack := by
  intro s t failed
  unfold Parser.expecting at failed
  cases outcome : p s with
  | failed u =>
    rw [outcome] at failed
    cases failed
    exact hp s u outcome
  | matched | stuck =>
    rw [outcome] at failed
    cases failed

theorem givesBack_attempt (p : Parser α) : p.attempt.GivesBack :=
  fun _ _ failed => attempt_eq_failed failed

theorem givesBack_anyOf (ps : List (Parser α)) : (anyOf ps).GivesBack := by
  induction ps with
  | nil =>
    intro s t failed
    cases failed
    rfl
  | cons p ps ih =>
    intro s t failed
    cases outcome : p.attempt s with
    | failed u =>
      -- The next candidate is tried where the first one has gone back to.
      simp only [anyOf, outcome] at failed
      exact (ih u t failed).trans (attempt_eq_failed outcome)
    | matched | stuck => simp [anyOf, outcome] at failed

theorem neverFails_optional (p : Parser α) : p.optional.NeverFails := by
  intro s t failed
  unfold Parser.optional at failed
  cases outcome : p.attempt s <;> rw [outcome] at failed <;> cases failed

theorem neverFails_repeated (p : Parser α) : p.repeated.NeverFails := by
  intro s
  fun_induction Parser.repeated p s with
  | case1 s u found outcome less ih =>
    intro t failed
    exact ih t (Outcome.map_eq_failed failed)
  | case2 | case3 | case4 =>
    intro t failed
    cases failed

/-! ## Productions -/

theorem neverFails_skipWhitespace : skipWhitespace.NeverFails :=
  (neverFails_optional whitespace).bind fun _ => neverFails_succeed ()

theorem givesBack_identifier : identifier.GivesBack := by
  -- Only the first letter can be missing.
  apply ((givesBack_raw _ _).expecting _).bind
  intro first
  apply (neverFails_repeated wordChar).bind
  intro others
  exact (neverFails_report _).bind fun _ => neverFails_succeed _

theorem neverFails_rules : NeverFails rules := by
  intro s
  induction s using State.fewerBytesInduction with
  | step s ih =>
    intro t failed
    rw [rules_eq] at failed
    split at failed
    · cases failed
    · split at failed
      · rename_i u _ skipped
        split at failed
        · cases failed
        · split at failed
          · rename_i v first read
            have less := remaining_of_skipped_rule skipped read
            exact ih v less t (Outcome.map_eq_failed failed)
          · cases failed
          · cases failed
      · rename_i u skipped
        exact neverFails_skipWhitespace s u skipped
      · cases failed

theorem neverFails_grammar : grammar.NeverFails := by
  intro s t failed
  exact neverFails_rules s t (Outcome.map_eq_failed failed)

/-! ## Whole parsers -/

/-- Parsers that are no bare sequence. What stands inside a combinator may be any parser,
and may be a sequence that fails half way. -/
inductive Whole : {α : Type} → Parser α → Prop where
  | succeed {α : Type} (value : α) : Whole (succeed value)
  | fail {α : Type} (label : String) : Whole (fail label : Parser α)
  | raw (accepts : Char → Bool) (label : String) : Whole (raw accepts label)
  | whitespace : Whole whitespace
  | skipWhitespace : Whole skipWhitespace
  | identifier : Whole identifier
  | rule : Whole Parser.rule
  | grammar : Whole grammar
  | map {α β : Type} {p : Parser α} (f : α → β) (hp : Whole p) : Whole (p.map f)
  | attempt {α : Type} (p : Parser α) : Whole p.attempt
  | anyOf {α : Type} (ps : List (Parser α)) : Whole (anyOf ps)
  | repeated {α : Type} (p : Parser α) : Whole p.repeated
  | optional {α : Type} (p : Parser α) : Whole p.optional

theorem Whole.givesBack {p : Parser α} (whole : p.Whole) : p.GivesBack := by
  induction whole with
  | succeed value => exact (neverFails_succeed value).givesBack
  | fail label => exact givesBack_fail label
  | raw accepts label => exact givesBack_raw accepts label
  | whitespace => exact givesBack_whitespace
  | skipWhitespace => exact neverFails_skipWhitespace.givesBack
  | identifier => exact givesBack_identifier
  | rule => exact givesBack_attempt _
  | grammar => exact neverFails_grammar.givesBack
  | map f _ ih => exact ih.map f
  | attempt p => exact givesBack_attempt p
  | anyOf ps => exact givesBack_anyOf ps
  | repeated p => exact (neverFails_repeated p).givesBack
  | optional p => exact (neverFails_optional p).givesBack

end Parser

theorem Matcher.whole (matcher : Matcher α) (noSequence : ∀ parts, matcher ≠ .inOrder parts) :
    matcher.run.Whole := by
  cases matcher with
  | inOrder parts => exact absurd rfl (noSequence parts)
  | letter | digit | underscore | symbol | raw => exact .map _ (.raw _ _)
  | whitespace => exact .map _ .whitespace
  | skipWhitespace => exact .map _ .skipWhitespace
  | identifier | lhs | rhs => exact .map _ .identifier
  | rule => exact .map _ .rule
  | grammar => exact .map _ .grammar
  | succeed payload => exact .succeed _
  | fail label => exact .fail label
  | anyOf candidates => exact .anyOf _
  | attempt matcher => exact .attempt _
  | repeated matcher => exact .map _ (.repeated _)
  | optional matcher => exact .map _ (.optional _)

/-- The value of a match, and the place behind it. -/
def Outcome.found? : Outcome α → Option (α × Place)
  | .matched t value => some (value, t.place)
  | .failed _ | .stuck _ => none

theorem Outcome.found?_ended (result : Option α) (t : State) :
    (Outcome.ended result t).found? = result.map fun value => (value, t.place) := by
  cases result <;> rfl

/-- **Nothing is lost by a parser that fails.** A parser that is no bare sequence is where
it began when it fails, and so is every matcher that does not put others in order. White
space that is skipped, grammars, repetitions and options never fail. And every parser
ends, with a match or without, no earlier than where it began. -/
theorem failed_parsers_give_back :
    (∀ (α : Type) (p : Parser α), p.Whole → ∀ s t : State, p s = .failed t →
      t.place = s.place) ∧
    (∀ (α : Type) (matcher : Matcher α), (∀ parts, matcher ≠ .inOrder parts) →
      ∀ s t : State, matcher.run s = .failed t → t.place = s.place) ∧
    (∀ s : State, s.place.Aligned →
      (∃ t, Parser.skipWhitespace s = .matched t ()) ∧
      (∃ t grammar, Parser.grammar s = .matched t grammar) ∧
      ∀ (α : Type) (p : Parser α), p.Built →
        (∃ t values, p.repeated s = .matched t values) ∧
        ∃ t value, p.optional s = .matched t value) ∧
    ∀ (α : Type) (p : Parser α), p.Built → ∀ s : State, s.place.Aligned →
      ∃ (result : Option α) (t : State), p s = .ended result t ∧ s.pos ≤ t.pos := by
  refine ⟨?_, ?_, ?_, ?_⟩
  · intro α p whole
    exact whole.givesBack
  · intro α matcher noSequence
    exact (matcher.whole noSequence).givesBack
  · intro s aligned
    refine ⟨?_, ?_, ?_⟩
    · obtain ⟨t, _, matched⟩ :=
        Parser.neverFails_skipWhitespace.matched Parser.built_skipWhitespace.ends aligned
      exact ⟨t, matched⟩
    · exact Parser.neverFails_grammar.matched Parser.built_grammar.ends aligned
    · intro α p built
      constructor
      · exact (Parser.neverFails_repeated p).matched built.ends.repeated aligned
      · exact (Parser.neverFails_optional p).matched built.ends.optional aligned
  · intro α p built s aligned
    obtain ⟨rest, ahead⟩ := aligned.ahead
    obtain ⟨result, t, ended, leads⟩ := built.ends s rest ahead
    exact ⟨result, t, ended, leads.pos_le⟩

/-- Both candidates have read a letter before they fail, the second in a sequence of sequences. -/
theorem choice_of_broken_sequences :
    let broken : Matcher Unit := .inOrder [.letter, .digit]
    let matcher : Matcher Unit := .anyOf [broken, .inOrder [.optional broken, .letter, broken]]
    let s : State := ⟨.jump (.ofString "éab;") 2, none, []⟩
    matcher.run.Whole ∧ matcher.run.Built ∧ (∀ parts, matcher ≠ .inOrder parts) ∧
      s.place.Aligned ∧ ∃ t, matcher.run s = .failed t ∧ t.place = s.place ∧ s.pos ≤ t.pos ∧
        ∃ u, matcher.run.repeated s = .matched u [] ∧ u.pos = 2 := by
  intro broken matcher s
  have noSequence : ∀ parts, matcher ≠ .inOrder parts := nofun
  have whole : matcher.run.Whole := matcher.whole noSequence
  have built : matcher.run.Built := matcher.built
  have aligned : s.place.Aligned := ⟨['é'], ['a', 'b', ';'], rfl, rfl⟩
  obtain ⟨gives, -, never, ends⟩ := failed_parsers_give_back
  obtain ⟨result, t, ended, forward⟩ := ends _ _ built s aligned
  have missing : (matcher.run s).found?.isNone = true := by decide +kernel
  rw [ended, Outcome.found?_ended] at missing
  cases result with
  | some value => cases missing
  | none =>
    have place := gives _ _ whole s t ended
    obtain ⟨-, -, others⟩ := never s aligned
    obtain ⟨⟨u, values, matched⟩, -⟩ := others _ _ built
    have read : (match matcher.run.repeated s with
        | .matched u values => some (values.length, u.pos)
        | _ => none) = some (0, 2) := by decide +kernel
    rw [matched] at read
    obtain ⟨empty, stop⟩ := Prod.mk.inj (Option.some.inj read)
    obtain rfl := List.length_eq_zero_iff.mp empty
    exact ⟨whole, built, noSequence, aligned, t, ended, place, forward, u, matched, stop⟩

end Metasyntax
