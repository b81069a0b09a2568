import Metasyntax.Proofs.Boundary
import Metasyntax.Proofs.GrammarReading
import Metasyntax.Session

/-! What the calls of a session answer and where they leave its cursor. A call
sees nothing of the calls before it but the cursor, so each is described by the
text that stands there. -/
namespace Metasyntax

/-! ## Cursors -/

/-- A call with the cursor starts behind `before` and finds `rest`. -/
structure Source.Cut (source : Source) (cursor : Nat) (before rest : List Char) : Prop where
  chars : source.chars = before ++ rest
  start : boundaryBefore source.chars cursor = utf8Length before

theorem Source.exists_cut (source : Source) (cursor : Nat) :
    ∃ before rest, source.Cut cursor before rest := by
  obtain ⟨before, rest, chars, start⟩ := exists_split_at_boundary source.chars cursor
  exact ⟨before, rest, chars, start⟩

theorem Source.cut_of_split {source : Source} {before rest : List Char}
    (split : source.chars = before ++ rest) : source.Cut (utf8Length before) before rest :=
  ⟨split, split ▸ boundaryBefore_append before rest⟩

variable {source : Source} {cursor : Nat} {before rest : List Char}

theorem Source.Cut.pos (cut : source.Cut cursor before rest) :
    (State.at source cursor).pos = utf8Length before := cut.start

theorem Source.Cut.ahead (cut : source.Cut cursor before rest) :
    (State.at source cursor).ahead? = some rest := by
  change dropBytes? source.chars (boundaryBefore source.chars cursor) = some rest
  rw [cut.start, cut.chars, dropBytes?_utf8Length]

/-- The next call starts where a call has stopped. -/
theorem Source.Cut.forward {text : List Char} (cut : source.Cut cursor before (text ++ rest)) :
    source.Cut (utf8Length (before ++ text)) (before ++ text) rest :=
  cut_of_split (cut.chars.trans (List.append_assoc _ _ _).symm)

/-- No boundary up to the cursor lies further ahead than where the call starts. -/
theorem Source.Cut.isGreatest (cut : source.Cut cursor before rest) :
    IsGreatest {k | IsBoundary source.chars k ∧ k ≤ cursor} (utf8Length before) :=
  cut.start ▸ isGreatest_boundaryBefore source.chars cursor

theorem Source.Cut.size (cut : source.Cut cursor before rest) :
    source.size = utf8Length before + utf8Length rest := by
  rw [source.size_eq, cut.chars, utf8Length_append]

/-! ## Calls for a part of a grammar -/

variable {session : Session} {α : Type}

theorem Session.run_of_reads {p : Parser α} {reply : Option α → Reply} {t : State} {value : α}
    {text : List Char} {events : List Event} (cut : source.Cut session.cursor before (text ++ rest))
    (matched : p (State.at source session.cursor) = .matched t value)
    (reads : (State.at source session.cursor).Reads text rest events t) :
    session.run source p reply =
      ⟨{ session with cursor := utf8Length (before ++ text) }, reply (some value), events⟩ := by
  have stop : t.pos = utf8Length (before ++ text) := by
    rw [reads.pos, cut.pos, utf8Length_append]
  simp only [run, matched, stop, reads.events]
  rfl

/-- A call that is answered with none leaves the cursor where it started. -/
theorem Session.run_of_failed {p : Parser α} {reply : Option α → Reply} {t : State}
    (cut : source.Cut session.cursor before rest)
    (failed : p (State.at source session.cursor) = .failed t)
    (place : t.place = (State.at source session.cursor).place) :
    session.run source p reply =
      ⟨{ session with cursor := utf8Length before }, reply none, t.events⟩ := by
  have stop : t.pos = utf8Length before := (congrArg Place.pos place).trans cut.pos
  simp only [run, failed, stop]

theorem Session.call_whitespace {blank : Blank}
    (cut : source.Cut session.cursor before (blank.chars ++ rest)) (ends : Stops isSpace rest) :
    ∃ found, session.call source .whitespace =
      ⟨{ session with cursor := utf8Length (before ++ blank.chars) }, .text found, []⟩ := by
  by_cases empty : blank.chars = []
  · rw [empty] at cut ⊢
    have missing := Parser.whitespace_of_stops cut.ahead ends
    exact ⟨none, by rw [List.append_nil]; exact run_of_failed cut missing rfl⟩
  · have run := Parser.whitespace_of_run cut.ahead blank.spaces empty ends
    exact ⟨some (.ofList blank.chars), run_of_reads cut run (State.reads_advance cut.ahead)⟩

theorem Session.call_identifier_of_name {name : Name}
    (cut : source.Cut session.cursor before (name.chars ++ rest)) (ends : Stops isWordChar rest) :
    ∃ events, session.call source .identifier =
      ⟨{ session with cursor := utf8Length (before ++ name.chars) },
        .identifier (some name.identifier), events⟩ := by
  obtain ⟨t, matched, reads, -⟩ := Parser.identifier_of_name cut.ahead ends
  exact ⟨_, run_of_reads cut matched reads⟩

theorem Session.call_identifier_of_stops (cut : source.Cut session.cursor before rest)
    (noName : Stops isLetter rest) :
    (session.call source .identifier).reply = .identifier none := by
  have failed := Parser.identifier_of_stops cut.ahead noName
  exact congrArg Turn.reply (run_of_failed cut failed rfl)

theorem Session.call_raw_of_accepts {accepts : Char → Bool} {c : Char}
    (cut : source.Cut session.cursor before (c :: rest)) (ok : accepts c = true) :
    session.call source (.raw accepts) =
      ⟨{ session with cursor := utf8Length (before ++ [c]) }, .char (some c), []⟩ := by
  have matched := Parser.raw_of_accepts cut.ahead ok "pattern"
  have ahead : (State.at source session.cursor).ahead? = some ([c] ++ rest) := cut.ahead
  exact run_of_reads cut matched (State.reads_advance ahead)

theorem Session.call_raw_of_stops {accepts : Char → Bool}
    (cut : source.Cut session.cursor before rest) (stops : Stops accepts rest) :
    (session.call source (.raw accepts)).reply = .char none := by
  have failed := Parser.raw_of_stops cut.ahead stops "pattern"
  exact congrArg Turn.reply (run_of_failed cut failed rfl)

theorem Session.call_rule_of_written {written : WrittenRule}
    (cut : source.Cut session.cursor before (written.text ++ rest)) :
    ∃ events, session.call source .rule =
      ⟨{ session with cursor := utf8Length (before ++ written.text) },
        .rule (some written.rule), events⟩ := by
  obtain ⟨t, matched, reads⟩ := Parser.rule_of_written cut.ahead
  exact ⟨_, run_of_reads cut matched reads⟩

theorem Session.call_rule_of_broken {broken : BrokenRule}
    (cut : source.Cut session.cursor before (broken.text ++ rest)) (breaks : broken.BreaksAt rest) :
    ∃ events, session.call source .rule =
      ⟨{ session with cursor := utf8Length before }, .rule none, events⟩ := by
  obtain ⟨t, failed, drops⟩ := Parser.rule_of_broken cut.ahead breaks
  exact ⟨_, run_of_failed cut failed drops.place⟩

/-! ## Calls for a whole grammar -/

def GrammarCall.call : GrammarCall → Call
  | .parse => .parse
  | .tryParse => .tryParse

/-- Whether the call refuses a source that goes on behind its rules. -/
def GrammarCall.rejects (mode : Mode) : GrammarCall → Bool
  | .parse => false
  | .tryParse => mode == .strict

theorem Session.call_grammar_of_matched {t : State} {grammar : Grammar} (call : GrammarCall)
    (matched : Parser.grammar (State.at source session.cursor) = .matched t grammar) :
    session.call source call.call =
      if call.rejects session.mode && !t.atEnd then
        ⟨{ session with cursor := t.pos }, .rejected t.error,
          .entered call session.cursor :: (t.events ++ [.rejected t.error])⟩
      else
        ⟨{ session with cursor := t.pos }, .grammar (some grammar),
          .entered call session.cursor :: t.events⟩ := by
  cases call with
  | parse => simp only [GrammarCall.call, Session.call, run, matched, Turn.after]; rfl
  | tryParse =>
    simp only [GrammarCall.call, Session.call, tryParse, matched, Turn.after, State.reachedEnd]
    cases session.mode <;> cases t.atEnd <;> rfl

theorem Session.call_grammar_of_written {written : WrittenGrammar} (call : GrammarCall)
    (cut : source.Cut session.cursor before written.text) :
    session.call source call.call =
      ⟨{ session with cursor := utf8Length (before ++ written.text) },
        .grammar (some written.grammar),
        .entered call session.cursor :: written.events (utf8Length before)⟩ := by
  obtain ⟨t, matched, reads⟩ := Parser.grammar_of_written cut.ahead
  have stop : t.pos = utf8Length (before ++ written.text) := by
    rw [reads.pos, cut.pos, utf8Length_append]
  have events : t.events = written.events (utf8Length before) := by
    rw [reads.events, cut.pos]
    rfl
  have ended : t.atEnd = true := State.atEnd_of_ahead reads.ahead
  rw [call_grammar_of_matched call matched, ended, stop, events, Bool.not_true, Bool.and_false]
  rfl

/-- What a rule that breaks off at the offset is said to lack. -/
def BrokenRule.failure (start : Nat) (broken : BrokenRule) : Failure :=
  ⟨start + utf8Length broken.text, broken.label⟩

def Failure.error (source : Source) (failure : Failure) : ParseError :=
  .expected failure.label failure.pos (source.coordinates failure.pos)

theorem State.error_of_failure {s : State} {failure : Failure} (memory : s.furthest = some failure)
    (behind : s.pos ≤ failure.pos) : s.error = failure.error s.source := by
  rw [State.error, memory]
  exact if_pos behind

theorem Session.call_grammar_of_broken {written : WrittenGrammar} {broken : BrokenRule}
    {tail : List Char} (call : GrammarCall)
    (cut : source.Cut session.cursor before (written.text ++ (broken.text ++ tail)))
    (halts : broken.Halts tail) :
    let stop := utf8Length (before ++ written.text)
    let failure := broken.failure stop
    let events := written.events (utf8Length before) ++
      (broken.events stop ++ [.stopped stop (some failure)])
    session.call source call.call =
      if call.rejects session.mode then
        ⟨{ session with cursor := stop }, .rejected (failure.error source),
          .entered call session.cursor :: (events ++ [.rejected (failure.error source)])⟩
      else
        ⟨{ session with cursor := stop }, .grammar (some written.grammar),
          .entered call session.cursor :: events⟩ := by
  intro stop failure events
  obtain ⟨t, matched, stops, left⟩ := Parser.grammar_of_broken cut.ahead halts
  have place : t.pos = stop := by rw [stops.pos, cut.pos, ← utf8Length_append]
  have memory : t.furthest = some failure := by
    rw [stops.furthest, place]
    rfl
  have report : t.events = events := by
    rw [stops.events, place, memory, cut.pos]
    rfl
  have error : t.error = failure.error source := by
    have behind : t.pos ≤ failure.pos := place ▸ Nat.le_add_right _ _
    rw [State.error_of_failure memory behind, stops.source]
    rfl
  have goesOn : t.atEnd = false := State.atEnd_of_goesOn left halts.goesOn
  rw [call_grammar_of_matched call matched, goesOn, place, error, report, Bool.not_false,
    Bool.and_true]

/-- A call that refuses nothing answers with all the rules that stand at its cursor. -/
theorem Session.call_grammar_of_exhausts {written : WrittenGrammar} {call : GrammarCall}
    (cut : source.Cut session.cursor before rest) (exhausts : written.Exhausts rest)
    (lenient : call.rejects session.mode = false) :
    ∃ events, session.call source call.call =
      ⟨{ session with cursor := utf8Length (before ++ written.text) },
        .grammar (some written.grammar), events⟩ := by
  obtain ⟨broken, tail, rfl, blocks⟩ := exhausts
  rcases blocks.ended_or_halts with ended | halts
  · rw [ended, List.append_nil] at cut
    exact ⟨_, call_grammar_of_written call cut⟩
  · have answer := call_grammar_of_broken call cut halts
    rw [lenient] at answer
    exact ⟨_, answer⟩

/-! ## New sessions -/

theorem Source.cut_start (source : Source) : source.Cut 0 [] source.chars := by
  have split : source.chars = [] ++ source.chars := rfl
  exact cut_of_split split

theorem Session.new_cut (mode : Mode) (text : String) :
    (Source.ofString text).Cut (Session.new mode).cursor [] text.toList := Source.cut_start _

theorem Session.new_call_of_exhausts {mode : Mode} {call : GrammarCall} {text : String}
    {written : WrittenGrammar} (exhausts : written.Exhausts text.toList)
    (lenient : call.rejects mode = false) :
    ∃ events, (Session.new mode).call (.ofString text) call.call =
      ⟨⟨utf8Length written.text, mode⟩, .grammar (some written.grammar), events⟩ :=
  call_grammar_of_exhausts (new_cut mode text) exhausts lenient

theorem Session.new_parse_of_exhausts (mode : Mode) {text : String} {written : WrittenGrammar}
    (exhausts : written.Exhausts text.toList) :
    ∃ events, (Session.new mode).call (.ofString text) .parse =
      ⟨⟨utf8Length written.text, mode⟩, .grammar (some written.grammar), events⟩ := by
  have lenient : GrammarCall.parse.rejects mode = false := rfl
  exact new_call_of_exhausts exhausts lenient

theorem Session.new_parse_of_written (mode : Mode) {text : String} {written : WrittenGrammar}
    (h : text.toList = written.text) :
    let turn := (Session.new mode).call (.ofString text) .parse
    turn.session.cursor = utf8Length written.text ∧
      turn.reply = .grammar (some written.grammar) := by
  have exhausts : written.Exhausts text.toList := h ▸ written.exhausts_text
  obtain ⟨events, answer⟩ := new_parse_of_exhausts mode exhausts
  exact ⟨congrArg (·.session.cursor) answer, congrArg Turn.reply answer⟩

theorem Session.new_parse_of_broken (mode : Mode) {text : String} {written : WrittenGrammar}
    {broken : BrokenRule} {tail : List Char}
    (h : text.toList = written.text ++ (broken.text ++ tail)) (halts : broken.Halts tail) :
    let turn := (Session.new mode).call (.ofString text) .parse
    turn.session.cursor = utf8Length written.text ∧
      turn.reply = .grammar (some written.grammar) := by
  have exhausts : written.Exhausts text.toList := ⟨broken, tail, h, halts.breaks, halts.noSpace⟩
  obtain ⟨events, answer⟩ := new_parse_of_exhausts mode exhausts
  exact ⟨congrArg (·.session.cursor) answer, congrArg Turn.reply answer⟩

/-- A new session starts at the start of its source. -/
theorem Session.new_state (mode : Mode) (source : Source) :
    State.at source (Session.new mode).cursor = State.start source := by
  have first : boundaryBefore source.chars 0 = 0 := source.cut_start.start
  change State.at source 0 = State.start source
  rw [State.at, Place.at, first]
  rfl

/-- To read a grammar strictly is the one call of a new strict session. -/
theorem Grammar.parse_eq_tryParse (text : String) :
    ((Session.new .strict).call (.ofString text) .tryParse).reply =
      match Grammar.parse text with
      | .ok grammar => .grammar (some grammar)
      | .error error => .rejected error := by
  obtain ⟨t, grammar, matched⟩ := Parser.grammar_matched (State.start_ahead (.ofString text))
  simp only [Session.call, Turn.after, Session.tryParse, Session.new_state, matched, Grammar.parse,
    State.reachedEnd]
  cases t.atEnd <;> rfl

/-! ## Runs of calls -/

/-- Whether the call reads its source. -/
def Call.reads : Call → Bool
  | .cursor | .reset => false
  | _ => true

/-- The session that a run of calls leaves. -/
def Session.afterCalls (session : Session) (calls : List (Source × Call)) : Session :=
  calls.foldl (fun session (source, call) => (session.call source call).session) session

/-- The turn of a call in a run is that of the session that the calls before it leave. -/
theorem Session.getElem?_calls (session : Session) (earlier later : List (Source × Call))
    (source : Source) (call : Call) :
    (session.calls (earlier ++ (source, call) :: later))[earlier.length]? =
      some ((session.afterCalls earlier).call source call) := by
  induction earlier generalizing session with
  | nil => rfl
  | cons first earlier ih => exact ih (session.call first.1 first.2).session

end Metasyntax
