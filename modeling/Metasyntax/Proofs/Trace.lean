import Metasyntax.Proofs.Calls

/-! The events of a call are a log of what it has read. They tell where it has
stopped, and how much of a rule it has read there. -/
namespace Metasyntax

theorem BrokenRule.failure_pos_eq_iff (start : Nat) (broken : BrokenRule) :
    (broken.failure start).pos = start ↔ broken.text = [] := by
  rw [← utf8Length_eq_zero]
  exact Nat.add_eq_left

theorem BrokenRule.label_eq_end_iff (broken : BrokenRule) :
    broken.label = "';'" ↔ ∃ left afterLeft beforeRight right afterRight,
      broken = .noEnd left afterLeft beforeRight right afterRight := by
  cases broken with
  | noLeft | noRight => exact iff_of_false (show "identifier" ≠ "';'" by decide) (by simp)
  | noSign => exact iff_of_false (show Symbol.definition.label ≠ "';'" by decide) (by simp)
  | noEnd => exact iff_of_true rfl ⟨_, _, _, _, _, rfl⟩

/-- A rule without its first name reports no name, one that only lacks its end
reports both, and any other one. -/
theorem BrokenRule.length_events (start : Nat) (broken : BrokenRule) :
    let names := (broken.events start).length
    (names = 0 ↔ (broken.failure start).pos = start) ∧
    (names = 2 ↔ (broken.failure start).label = "';'") ∧
    (names = 1 ↔ (broken.failure start).pos ≠ start ∧ (broken.failure start).label ≠ "';'") := by
  have label : (broken.failure start).label = broken.label := rfl
  simp only [label, Ne, failure_pos_eq_iff, label_eq_end_iff]
  cases broken with
  | noLeft => simp [events, text]
  | noSign left afterLeft =>
    have begun : left.chars ≠ [] := left.chars_ne_nil
    simp [events, text, begun]
  | noRight left afterLeft beforeRight => simp [events, text]
  | noEnd left afterLeft beforeRight right afterRight => simp [events, text]

/-- **The events of a call are the log of its reading.** Behind the entry stand
the events of the rules that are answered, in their order. If the source goes on,
those of the names of the rule that breaks off follow, the stop with the failure
that explains it, and the error where the call refuses. -/
theorem events_log_the_reading (session : Session) (source : Source) (call : GrammarCall) :
    let parsed := session.call source .parse
    let stop := parsed.session.cursor
    let turn := session.call source call.call
    ∃ (before : List Char) (written : WrittenGrammar) (rest : List Char) (ending : List Event),
      source.Cut session.cursor before (written.text ++ rest) ∧
      parsed.reply = .grammar (some written.grammar) ∧
      stop = utf8Length (before ++ written.text) ∧
      turn.events = .entered call session.cursor :: (written.events (utf8Length before) ++ ending) ∧
      if stop = source.size then ending = []
      else ∃ (broken : BrokenRule) (tail : List Char) (failure : Failure),
        rest = broken.text ++ tail ∧ broken.Halts tail ∧ stop ≤ failure.pos ∧
        let identifiers := (broken.events stop).length
        (identifiers = 0 ↔ failure.pos = stop) ∧
        (identifiers = 2 ↔ failure.label = "';'") ∧
        (identifiers = 1 ↔ failure.pos ≠ stop ∧ failure.label ≠ "';'") ∧
        if call.rejects session.mode then
          ∃ error, turn.reply = .rejected error ∧
            error = .expected failure.label failure.pos (source.coordinates failure.pos) ∧
            ending = broken.events stop ++ [.stopped stop (some failure), .rejected error]
        else ending = broken.events stop ++ [.stopped stop (some failure)] := by
  intro parsed stop turn
  obtain ⟨before, rest, cut⟩ := source.exists_cut session.cursor
  rcases exists_grammar rest with ⟨written, rfl⟩ | ⟨written, broken, tail, rfl, halts⟩
  · have answer (call : GrammarCall) := Session.call_grammar_of_written call cut
    have whole : stop = utf8Length (before ++ written.text) :=
      congrArg (·.session.cursor) (answer .parse)
    have ended : stop = source.size := by rw [whole, cut.size, utf8Length_append]
    rw [← List.append_nil written.text] at cut
    refine ⟨before, written, [], [], cut, congrArg Turn.reply (answer .parse), whole, ?_, ?_⟩
    · rw [List.append_nil]
      exact congrArg Turn.events (answer call)
    · rw [if_pos ended]
  · have answer (call : GrammarCall) := Session.call_grammar_of_broken call cut halts
    have whole : stop = utf8Length (before ++ written.text) :=
      congrArg (·.session.cursor) (answer .parse)
    have goesOn : stop ≠ source.size := by
      have left : utf8Length (broken.text ++ tail) ≠ 0 := mt utf8Length_eq_zero.mp halts.goesOn
      rw [whole, cut.size, utf8Length_append before, utf8Length_append written.text]
      omega
    have answered := congrArg Turn.reply (answer .parse)
    have behind : stop ≤ (broken.failure stop).pos := Nat.le_add_right _ _
    have counts := broken.length_events stop
    have turns := answer call
    simp only [← whole] at turns
    let failure := broken.failure stop
    let report := broken.events stop ++ [.stopped stop (some failure)]
    let error := failure.error source
    have logged : turn.events = .entered call session.cursor :: (written.events (utf8Length before) ++
        if call.rejects session.mode then report ++ [.rejected error] else report) := by
      refine (congrArg Turn.events turns).trans ?_
      cases call.rejects session.mode with
      | false => rfl
      | true => simp [report, error, failure]
    refine ⟨before, written, _, _, cut, answered, whole, logged, ?_⟩
    rw [if_neg goesOn]
    refine ⟨broken, tail, failure, rfl, halts, behind, counts.1, counts.2.1, counts.2.2, ?_⟩
    cases refuses : call.rejects session.mode with
    | false => rfl
    | true =>
      rw [refuses, if_pos rfl] at turns
      exact ⟨error, congrArg Turn.reply turns, rfl, by simp [report]⟩

end Metasyntax
