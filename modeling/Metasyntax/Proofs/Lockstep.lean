import Metasyntax.Proofs.Calls

/-! Sessions of both modes stay in step. A strict session refuses where the other
ignores what is left, and that is all the difference: they read the same. -/
namespace Metasyntax

variable {α : Type}

/-! ## One call -/

/-- The mode decides neither where a parser stops nor what it is answered with. -/
theorem Session.run_of_any_mode (cursor : Nat) (source : Source) (p : Parser α)
    (reply : Option α → Reply) :
    ∃ (stop : Nat) (answer : Reply), ∀ mode,
      ((Session.mk cursor mode).run source p reply).session = ⟨stop, mode⟩ ∧
      ((Session.mk cursor mode).run source p reply).reply = answer := by
  simp only [run]
  cases p (State.at source cursor) with
  | matched s value => exact ⟨s.pos, reply (some value), fun mode => ⟨rfl, rfl⟩⟩
  | failed s => exact ⟨s.pos, reply none, fun mode => ⟨rfl, rfl⟩⟩
  | stuck s => exact ⟨cursor, .stuck, fun mode => ⟨rfl, rfl⟩⟩

theorem Session.call_of_any_mode (cursor : Nat) (source : Source) {call : Call}
    (other : call ≠ .tryParse) :
    ∃ (stop : Nat) (answer : Reply), ∀ mode,
      ((Session.mk cursor mode).call source call).session = ⟨stop, mode⟩ ∧
      ((Session.mk cursor mode).call source call).reply = answer := by
  cases call with
  | tryParse => exact absurd rfl other
  | cursor => exact ⟨cursor, .cursor cursor, fun mode => ⟨rfl, rfl⟩⟩
  | reset => exact ⟨0, .done, fun mode => ⟨rfl, rfl⟩⟩
  | parse => exact run_of_any_mode cursor source .grammar .grammar
  | rule => exact run_of_any_mode cursor source .rule .rule
  | lhs => exact run_of_any_mode cursor source .lhs .identifier
  | rhs => exact run_of_any_mode cursor source .rhs .identifier
  | identifier => exact run_of_any_mode cursor source .identifier .identifier
  | whitespace => exact run_of_any_mode cursor source .whitespace .text
  | letter => exact run_of_any_mode cursor source .letter .char
  | digit => exact run_of_any_mode cursor source .digit .char
  | raw accepts => exact run_of_any_mode cursor source (.raw accepts "pattern") .char

/-- Both modes stop at the same place. What the strict one answers depends on
whether the source ends there. -/
theorem Session.tryParse_of_any_mode (cursor : Nat) (source : Source) :
    ∃ (stop : Nat) (grammar : Grammar),
      (∀ mode, ((Session.mk cursor mode).call source .tryParse).session = ⟨stop, mode⟩) ∧
      (∀ mode, ((Session.mk cursor mode).call source .parse).reply = .grammar (some grammar)) ∧
      ((Session.mk cursor .bestEffort).call source .tryParse).reply = .grammar (some grammar) ∧
      if stop = source.size then
        ((Session.mk cursor .strict).call source .tryParse).reply = .grammar (some grammar)
      else ∃ (label : String) (pos : Nat) (place : Coordinates),
        ((Session.mk cursor .strict).call source .tryParse).reply =
          .rejected (.expected label pos place) ∧ stop ≤ pos ∧ pos ≤ source.size := by
  obtain ⟨before, rest, cut⟩ := source.exists_cut cursor
  rcases exists_grammar rest with ⟨written, rfl⟩ | ⟨written, broken, tail, rfl, halts⟩
  · have answer (call : GrammarCall) (mode : Mode) :
        (Session.mk cursor mode).call source call.call = _ := call_grammar_of_written call cut
    have ended : utf8Length (before ++ written.text) = source.size := by
      rw [cut.size, utf8Length_append]
    refine ⟨_, written.grammar, fun mode => congrArg Turn.session (answer .tryParse mode),
      fun mode => congrArg Turn.reply (answer .parse mode),
      congrArg Turn.reply (answer .tryParse .bestEffort), ?_⟩
    rw [if_pos ended]
    exact congrArg Turn.reply (answer .tryParse .strict)
  · have answer (call : GrammarCall) (mode : Mode) :
        (Session.mk cursor mode).call source call.call = _ := call_grammar_of_broken call cut halts
    have ignored (mode : Mode) := (answer .parse mode).trans (if_neg Bool.false_ne_true)
    have lenient := (answer .tryParse .bestEffort).trans (if_neg Bool.false_ne_true)
    have strict := (answer .tryParse .strict).trans (if_pos rfl)
    have left : utf8Length (broken.text ++ tail) ≠ 0 := mt utf8Length_eq_zero.mp halts.goesOn
    rw [utf8Length_append] at left
    have size : source.size = utf8Length (before ++ written.text) +
        (utf8Length broken.text + utf8Length tail) := by
      rw [cut.size, utf8Length_append before, utf8Length_append written.text,
        utf8Length_append broken.text, Nat.add_assoc]
    refine ⟨utf8Length (before ++ written.text), written.grammar, ?_,
      fun mode => congrArg Turn.reply (ignored mode), congrArg Turn.reply lenient, ?_⟩
    · intro mode
      cases mode with
      | bestEffort => exact congrArg Turn.session lenient
      | strict => exact congrArg Turn.session strict
    · rw [if_neg (by omega)]
      refine ⟨_, _, _, congrArg Turn.reply strict, Nat.le_add_right _ _, ?_⟩
      change utf8Length (before ++ written.text) + utf8Length broken.text ≤ source.size
      omega

/-! ## Runs -/

/-- A run of calls leaves the same cursor in either mode. -/
theorem Session.afterCalls_of_any_mode (cursor : Nat) (calls : List (Source × Call)) :
    ∃ stop, ∀ mode, (Session.mk cursor mode).afterCalls calls = ⟨stop, mode⟩ := by
  induction calls generalizing cursor with
  | nil => exact ⟨cursor, fun mode => rfl⟩
  | cons first calls ih =>
    obtain ⟨source, call⟩ := first
    have step : ∃ stop, ∀ mode, ((Session.mk cursor mode).call source call).session =
        ⟨stop, mode⟩ := by
      by_cases strict : call = .tryParse
      · obtain ⟨stop, _, sessions, -⟩ := tryParse_of_any_mode cursor source
        exact ⟨stop, strict ▸ sessions⟩
      · obtain ⟨stop, _, turns⟩ := call_of_any_mode cursor source strict
        exact ⟨stop, fun mode => (turns mode).1⟩
    obtain ⟨middle, sessions⟩ := step
    obtain ⟨stop, later⟩ := ih middle
    refine ⟨stop, fun mode => ?_⟩
    change ((Session.mk cursor mode).call source call).session.afterCalls calls = _
    rw [sessions, later]

/-- **The modes stay in step.** In every run of calls, on whatever sources, the turns
of a strict session and of one that reads what it can leave the same cursor, and
give the same reply unless the call may refuse. At one that may, the lenient session
is answered with what is read there, and the strict one with the same exactly if it
ends its source. Else the strict one is told what was expected, at an offset between
the cursor and the end. -/
theorem modes_stay_in_step (cursor : Nat) (earlier later : List (Source × Call))
    (source : Source) (call : Call) :
    let calls := earlier ++ (source, call) :: later
    let parsed := ((Session.mk cursor .bestEffort).afterCalls earlier).call source .parse
    ∃ strict lenient : Turn,
      ((Session.mk cursor .strict).calls calls)[earlier.length]? = some strict ∧
      ((Session.mk cursor .bestEffort).calls calls)[earlier.length]? = some lenient ∧
      strict.session.cursor = lenient.session.cursor ∧
      (call ≠ .tryParse → strict.reply = lenient.reply) ∧
      (call = .tryParse → ∃ grammar,
        parsed.reply = .grammar (some grammar) ∧ lenient.reply = .grammar (some grammar) ∧
        if strict.session.cursor = source.size then strict.reply = .grammar (some grammar)
        else ∃ (label : String) (pos : Nat) (place : Coordinates),
          strict.reply = .rejected (.expected label pos place) ∧
          strict.session.cursor ≤ pos ∧ pos ≤ source.size) := by
  intro calls parsed
  obtain ⟨now, sessions⟩ := Session.afterCalls_of_any_mode cursor earlier
  refine ⟨_, _, Session.getElem?_calls _ earlier later source call,
    Session.getElem?_calls _ earlier later source call, ?_⟩
  simp only [parsed, sessions]
  by_cases strict : call = .tryParse
  · obtain ⟨stop, grammar, turns, ignored, lenient, refuses⟩ :=
      Session.tryParse_of_any_mode now source
    subst strict
    rw [turns, turns]
    exact ⟨rfl, fun other => absurd rfl other, fun _ => ⟨grammar, ignored _, lenient, refuses⟩⟩
  · obtain ⟨stop, answer, turns⟩ := Session.call_of_any_mode now source strict
    rw [(turns .strict).1, (turns .bestEffort).1, (turns .strict).2, (turns .bestEffort).2]
    exact ⟨rfl, fun _ => rfl, fun same => absurd same strict⟩

/-- A call in the middle of a run that may not refuse, and one that may: what it lacks is
the name behind the sign, where the lenient one finds no rule. -/
theorem steps_behind_a_rule :
    let earlier := [(Source.ofString "a=b;", Call.rule)]
    let later := [(Source.ofString "é", Call.letter)]
    let source := Source.ofString "a=b; c =é"
    let calls (call : Call) := earlier ++ (source, call) :: later
    let strict (call : Call) := ((Session.mk 0 .strict).calls (calls call))[1]?
    let lenient (call : Call) := ((Session.mk 0 .bestEffort).calls (calls call))[1]?
    let parsed := ((Session.mk 0 .bestEffort).afterCalls earlier).call source .parse
    (Call.whitespace ≠ .tryParse ∧ ∃ first second : Turn,
      strict .whitespace = some first ∧ lenient .whitespace = some second ∧
      first.session = ⟨5, .strict⟩ ∧ second.session.cursor = 5 ∧
      first.reply = .text (some " ") ∧ second.reply = .text (some " ")) ∧
    ∃ first second : Turn,
      strict .tryParse = some first ∧ lenient .tryParse = some second ∧
      first.session = ⟨5, .strict⟩ ∧ second.session.cursor = 5 ∧ source.size = 10 ∧
      first.reply = .rejected (.expected "identifier" 8 ⟨1, 9⟩) ∧
      parsed.reply = .grammar (some ⟨[]⟩) ∧ second.reply = .grammar (some ⟨[]⟩) := by
  intro earlier later source calls strict lenient parsed
  have other : Call.whitespace ≠ .tryParse := nofun
  have blank : (strict .whitespace).map (fun turn => (turn.session, turn.reply)) =
      some (⟨5, .strict⟩, .text (some " ")) := by decide +kernel
  have refused : (strict .tryParse).map (fun turn => (turn.session, turn.reply)) =
      some (⟨5, .strict⟩, .rejected (.expected "identifier" 8 ⟨1, 9⟩)) := by decide +kernel
  have empty : parsed.reply = .grammar (some ⟨[]⟩) := by decide +kernel
  obtain ⟨first, second, strictly, leniently, cursors, replies, -⟩ :=
    modes_stay_in_step 0 earlier later source .whitespace
  obtain ⟨third, fourth, last, lastly, stops, -, answers⟩ :=
    modes_stay_in_step 0 earlier later source .tryParse
  obtain ⟨grammar, found, ignored, -⟩ := answers rfl
  cases empty.symm.trans found
  have seen : (first.session, first.reply) = (⟨5, .strict⟩, .text (some " ")) :=
    Option.some.inj ((congrArg (Option.map _) strictly).symm.trans blank)
  have told : (third.session, third.reply) =
      (⟨5, .strict⟩, .rejected (.expected "identifier" 8 ⟨1, 9⟩)) :=
    Option.some.inj ((congrArg (Option.map _) last).symm.trans refused)
  obtain ⟨session, reply⟩ := Prod.mk.inj seen
  obtain ⟨behind, error⟩ := Prod.mk.inj told
  rw [session] at cursors
  rw [behind] at stops
  exact ⟨⟨other, first, second, strictly, leniently, session, cursors.symm, reply,
    (replies other).symm.trans reply⟩,
    third, fourth, last, lastly, behind, stops.symm, by decide +kernel, error, empty, ignored⟩

end Metasyntax
