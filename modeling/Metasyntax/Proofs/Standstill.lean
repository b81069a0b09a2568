import Metasyntax.Proofs.Calls

/-! A session that has read all the rules it can stands still: further calls on the
same source find nothing to read, and a strict one is told the same error as before. -/
namespace Metasyntax

variable {session : Session} {source : Source}

/-- The cursor is a boundary behind which neither white space nor a rule starts. -/
structure Session.Stands (session : Session) (source : Source) (before : List Char)
    (broken : BrokenRule) (tail : List Char) : Prop where
  chars : source.chars = before ++ (broken.text ++ tail)
  cursor : session.cursor = utf8Length before
  blocks : broken.Blocks tail

theorem Session.Stands.cut {before tail : List Char} {broken : BrokenRule}
    (stands : session.Stands source before broken tail) :
    source.Cut session.cursor before (broken.text ++ tail) := by
  rw [stands.cursor]
  exact Source.cut_of_split stands.chars

/-- A call for a grammar moves the cursor over the rules that stand there, and a
source that goes on behind them is refused for what is missing there. -/
theorem Session.call_grammar_stops {before rest tail : List Char} {written : WrittenGrammar}
    {broken : BrokenRule} (call : GrammarCall) (cut : source.Cut session.cursor before rest)
    (split : rest = written.text ++ (broken.text ++ tail)) (blocks : broken.Blocks tail) :
    let stop := utf8Length (before ++ written.text)
    (session.call source call.call).session = ⟨stop, session.mode⟩ ∧
    (session.call source call.call).reply =
      if call.rejects session.mode ∧ broken.text ++ tail ≠ [] then
        .rejected ((broken.failure stop).error source)
      else .grammar (some written.grammar) := by
  intro stop
  subst split
  rcases blocks.ended_or_halts with ended | halts
  · rw [ended, List.append_nil] at cut
    have answer := call_grammar_of_written call cut
    constructor
    · exact congrArg Turn.session answer
    · rw [if_neg (fun refused => refused.2 ended)]
      exact congrArg Turn.reply answer
  · have answer := call_grammar_of_broken call cut halts
    rw [answer]
    by_cases refuses : call.rejects session.mode = true
    · rw [if_pos refuses, if_pos ⟨refuses, halts.goesOn⟩]
      exact ⟨rfl, rfl⟩
    · rw [if_neg refuses, if_neg (fun refused => refuses refused.1)]
      exact ⟨rfl, rfl⟩

/-- Where a session stands, nothing is written. -/
def WrittenGrammar.none : WrittenGrammar := ⟨.none, []⟩

theorem Session.Stands.call {before tail : List Char} {broken : BrokenRule} (call : GrammarCall)
    (stands : session.Stands source before broken tail) :
    (session.call source call.call).session = session ∧
    (session.call source call.call).reply =
      if call.rejects session.mode ∧ broken.text ++ tail ≠ [] then
        .rejected ((broken.failure session.cursor).error source)
      else .grammar (some .empty) := by
  have split : broken.text ++ tail = WrittenGrammar.none.text ++ (broken.text ++ tail) := rfl
  have answer := call_grammar_stops call stands.cut split stands.blocks
  have stop : utf8Length (before ++ WrittenGrammar.none.text) = session.cursor := by
    rw [stands.cursor]
    exact congrArg utf8Length (List.append_nil before)
  rw [stop] at answer
  exact answer

/-- However often a grammar is asked for, a session that stands is left as it is. -/
theorem Session.Stands.afterCalls {before tail : List Char} {broken : BrokenRule}
    (stands : session.Stands source before broken tail) (calls : List GrammarCall) :
    session.afterCalls (calls.map fun call => (source, call.call)) = session := by
  induction calls with
  | nil => rfl
  | cons call calls ih =>
    have still := (stands.call call).1
    rw [List.map_cons, Session.afterCalls, List.foldl_cons]
    simp only [still]
    exact ih

theorem Session.exists_stands (session : Session) (source : Source) :
    ∃ (before tail : List Char) (broken : BrokenRule),
      (∀ mode, Session.Stands ⟨(session.call source .parse).session.cursor, mode⟩ source
        before broken tail) ∧
      (∀ error, ((Session.mk session.cursor .strict).call source .tryParse).reply =
          .rejected error →
        broken.text ++ tail ≠ [] ∧ error = (broken.failure (utf8Length before)).error source) := by
  obtain ⟨before, rest, cut⟩ := source.exists_cut session.cursor
  obtain ⟨written, broken, tail, split, blocks⟩ := exists_exhausts rest
  have stop := (call_grammar_stops .parse cut split blocks).1
  refine ⟨before ++ written.text, tail, broken, ?_, ?_⟩
  · intro mode
    constructor
    · rw [cut.chars, split, List.append_assoc]
    · exact congrArg Session.cursor stop
    · exact blocks
  · intro error refused
    have strictCut : source.Cut (Session.mk session.cursor .strict).cursor before rest := cut
    have answer := (call_grammar_stops .tryParse strictCut split blocks).2
    rw [GrammarCall.call] at answer
    rw [refused] at answer
    split at answer
    · rename_i refuses
      exact ⟨refuses.2, Reply.rejected.inj answer⟩
    · cases answer

/-- **A stopped reading stands still.** After a call that reads all rules up to where
none follows, the source ends at the cursor, or goes on with what is no space and
where no rule can be read. However often a grammar is asked for from there on, the cursor
stays, and no rule is found. A strict session that would have been told an error by
the first call is told the same one from there, whatever lay before. -/
theorem stopped_reading_stands_still (session : Session) (source : Source) :
    let stopped := (session.call source .parse).session
    (∃ before rest : List Char, source.chars = before ++ rest ∧
      stopped.cursor = utf8Length before ∧
      (rest = [] ∨ (∃ c tail, rest = c :: tail ∧ isSpace c = false) ∧
        ∃ t, Parser.rule (State.at source stopped.cursor) = .failed t)) ∧
    (∀ calls : List GrammarCall,
      let later := stopped.afterCalls (calls.map fun call => (source, call.call))
      later.cursor = stopped.cursor ∧ (later.call source .parse).reply = .grammar (some .empty)) ∧
    ∀ error : ParseError,
      ((Session.mk session.cursor .strict).call source .tryParse).reply = .rejected error →
      ((Session.mk stopped.cursor .strict).call source .tryParse).reply = .rejected error := by
  intro stopped
  obtain ⟨before, tail, broken, stands, refused⟩ := session.exists_stands source
  have here : stopped.Stands source before broken tail := stands stopped.mode
  refine ⟨⟨before, broken.text ++ tail, here.chars, here.cursor, ?_⟩, ?_, ?_⟩
  · rcases here.blocks.ended_or_halts with ended | halts
    · exact .inl ended
    · obtain ⟨t, failed, -⟩ := Parser.rule_of_broken here.cut.ahead halts.breaks
      obtain ⟨c, more, goesOn⟩ := List.exists_cons_of_ne_nil halts.goesOn
      have noSpace := halts.noSpace
      rw [goesOn] at noSpace
      exact .inr ⟨⟨c, more, goesOn, noSpace⟩, t, failed⟩
  · intro calls later
    have still : later = stopped := here.afterCalls calls
    have parsed := (here.call .parse).2
    rw [if_neg (fun refuses => Bool.false_ne_true refuses.1)] at parsed
    rw [still]
    exact ⟨rfl, parsed⟩
  · intro error rejected
    obtain ⟨goesOn, rfl⟩ := refused error rejected
    have strict := stands .strict
    have again := (strict.call .tryParse).2
    rw [if_pos ⟨rfl, goesOn⟩] at again
    rw [← here.cursor]
    exact again

/-- A session whose cursor lies inside a blank, and stops behind the rule that follows. -/
theorem error_behind_a_rule_comes_again :
    let source := Source.ofString "\u3000a=b; c = ;"
    let error := ParseError.expected "identifier" 12 ⟨1, 11⟩
    ((Session.mk 2 .bestEffort).call source .parse).session.cursor = 8 ∧
    ((Session.mk 2 .strict).call source .tryParse).reply = .rejected error ∧
    ((Session.mk 8 .strict).call source .tryParse).reply = .rejected error := by
  intro source error
  have cursor : ((Session.mk 2 .bestEffort).call source .parse).session.cursor = 8 := by
    decide +kernel
  have refused : ((Session.mk 2 .strict).call source .tryParse).reply = .rejected error := by
    decide +kernel
  obtain ⟨-, -, again⟩ := stopped_reading_stands_still (.mk 2 .bestEffort) source
  rw [cursor] at again
  exact ⟨cursor, refused, again error refused⟩

end Metasyntax
