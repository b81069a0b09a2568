import Metasyntax.Proofs.Calls

/-! Nothing is lost between the calls of a session. The cursor goes from boundary to
boundary of the sources, and what it has passed is what the call has answered. -/
namespace Metasyntax

variable {α : Type}

/-! ## What a parser takes -/

/-- A match takes the characters of its value, and at least one. Without a match
the parser is where it began. -/
def Parser.TakesWhatItGives (p : Parser α) (chars : α → List Char) : Prop :=
  ∀ (s : State) (text : List Char), s.ahead? = some text →
    (∃ (value : α) (rest : List Char) (events : List Event) (t : State),
      text = chars value ++ rest ∧ chars value ≠ [] ∧ p s = .matched t value ∧
      s.Reads (chars value) rest events t) ∨
    ∃ t, p s = .failed t ∧ t.place = s.place

namespace Parser

theorem raw_takes (accepts : Char → Bool) (label : String) :
    (raw accepts label).TakesWhatItGives fun c => [c] := by
  intro s text ahead
  cases text with
  | nil => exact .inr ⟨_, raw_of_stops ahead (stops_nil accepts) label, rfl⟩
  | cons c rest =>
    cases ok : accepts c with
    | false => exact .inr ⟨_, raw_of_stops ahead (stops_cons.mpr ok) label, rfl⟩
    | true =>
      have next : s.ahead? = some ([c] ++ rest) := ahead
      exact .inl ⟨c, rest, [], _, rfl, List.cons_ne_nil c [], raw_of_accepts ahead ok label,
        s.reads_advance next⟩

theorem whitespace_takes : whitespace.TakesWhatItGives String.toList := by
  intro s text ahead
  obtain ⟨blank, rest, rfl, stops⟩ := exists_blank text
  by_cases empty : blank.chars = []
  · rw [empty] at ahead
    exact .inr ⟨_, whitespace_of_stops ahead stops, rfl⟩
  · have found := whitespace_of_run ahead blank.spaces empty stops
    have same : (String.ofList blank.chars).toList = blank.chars := String.toList_ofList
    refine .inl ⟨_, rest, [], _, ?_, ?_, found, ?_⟩
    · rw [same]
    · rwa [same]
    · rw [same]
      exact s.reads_advance ahead

theorem identifier_takes :
    identifier.TakesWhatItGives fun identifier => identifier.name.toList := by
  intro s text ahead
  rcases exists_name text with noName | ⟨name, rest, rfl, ends⟩
  · exact .inr ⟨_, identifier_of_stops ahead noName, rfl⟩
  · obtain ⟨t, matched, reads, -⟩ := identifier_of_name ahead ends
    exact .inl ⟨name.identifier, rest, _, t, rfl, name.chars_ne_nil, matched, reads⟩

end Parser

/-! ## What a call answers -/

/-- The reply holds a value with the characters taken, or none if none are taken. -/
def Reply.Shows (reply : Reply) (answer : Option α → Reply) (chars : α → List Char)
    (taken : List Char) : Prop :=
  (∃ value, reply = answer (some value) ∧ chars value = taken ∧ taken ≠ []) ∨
    reply = answer none ∧ taken = []

/-- The reply is one to a call that has taken the text. -/
def Call.Answers (taken : List Char) (reply : Reply) : Call → Prop
  | .parse => ∃ grammar, reply = .grammar (some grammar)
  | .tryParse => (∃ grammar, reply = .grammar (some grammar)) ∨ ∃ error, reply = .rejected error
  | .rule => (∃ rule, reply = .rule (some rule)) ∨ reply = .rule none ∧ taken = []
  | .lhs | .rhs | .identifier =>
    reply.Shows .identifier (fun identifier => identifier.name.toList) taken
  | .whitespace => reply.Shows .text String.toList taken
  | .letter | .digit | .raw _ => reply.Shows .char (fun c => [c]) taken
  | .cursor => ∃ pos, reply = .cursor pos
  | .reset => reply = .done

theorem Call.Answers.ne_stuck {call : Call} {taken : List Char} {reply : Reply}
    (answers : call.Answers taken reply) : reply ≠ .stuck := by
  rintro rfl
  cases call <;> simp [Answers, Reply.Shows] at answers

variable {session : Session} {source : Source} {before text : List Char}

/-- The call has moved the cursor over the text and gives the reply of one that has taken it. -/
def Session.Takes (session : Session) (source : Source) (call : Call)
    (before taken : List Char) : Prop :=
  (session.call source call).session.cursor = utf8Length (before ++ taken) ∧
    call.Answers taken (session.call source call).reply

theorem Session.run_takes {p : Parser α} {answer : Option α → Reply} {chars : α → List Char}
    (takes : p.TakesWhatItGives chars) (cut : source.Cut session.cursor before text) :
    ∃ taken rest : List Char, text = taken ++ rest ∧
      (session.run source p answer).session.cursor = utf8Length (before ++ taken) ∧
      (session.run source p answer).reply.Shows answer chars taken := by
  rcases takes _ text cut.ahead with ⟨value, rest, events, t, rfl, some, matched, reads⟩ |
    ⟨t, failed, place⟩
  · have turn : session.run source p answer = _ := run_of_reads cut matched reads
    rw [turn]
    exact ⟨chars value, rest, rfl, rfl, .inl ⟨value, rfl, rfl, some⟩⟩
  · have turn : session.run source p answer = _ := run_of_failed cut failed place
    rw [turn]
    exact ⟨[], text, rfl, by rw [List.append_nil], .inr ⟨rfl, rfl⟩⟩

theorem Session.rule_takes (cut : source.Cut session.cursor before text) :
    ∃ taken rest : List Char, text = taken ++ rest ∧ session.Takes source .rule before taken := by
  rcases exists_rule text with ⟨written, rest, rfl⟩ | ⟨broken, rest, rfl, breaks⟩
  · obtain ⟨events, turn⟩ := call_rule_of_written cut
    exact ⟨written.text, rest, rfl, congrArg (·.session.cursor) turn,
      .inl ⟨written.rule, congrArg Turn.reply turn⟩⟩
  · obtain ⟨events, turn⟩ := call_rule_of_broken cut breaks
    refine ⟨[], _, rfl, ?_, .inr ⟨congrArg Turn.reply turn, rfl⟩⟩
    rw [turn, List.append_nil]

theorem Session.grammar_takes (call : GrammarCall) (cut : source.Cut session.cursor before text) :
    ∃ taken rest : List Char, text = taken ++ rest ∧
      session.Takes source call.call before taken := by
  rcases exists_grammar text with ⟨written, rfl⟩ | ⟨written, broken, tail, rfl, halts⟩
  · have turn : session.call source call.call = _ := call_grammar_of_written call cut
    refine ⟨written.text, [], (List.append_nil _).symm, congrArg (·.session.cursor) turn, ?_⟩
    rw [turn]
    cases call with
    | parse => exact ⟨_, rfl⟩
    | tryParse => exact .inl ⟨_, rfl⟩
  · have turn : session.call source call.call = _ := call_grammar_of_broken call cut halts
    refine ⟨written.text, _, rfl, ?_, ?_⟩
    · rw [turn]
      cases call.rejects session.mode <;> rfl
    · rw [turn]
      cases call with
      | parse => exact ⟨_, rfl⟩
      | tryParse =>
        cases GrammarCall.tryParse.rejects session.mode with
        | false => exact .inl ⟨_, rfl⟩
        | true => exact .inr ⟨_, rfl⟩

theorem Session.call_takes {call : Call} (reads : call.reads = true)
    (cut : source.Cut session.cursor before text) :
    ∃ taken rest : List Char, text = taken ++ rest ∧ session.Takes source call before taken := by
  cases call with
  | parse => exact grammar_takes .parse cut
  | tryParse => exact grammar_takes .tryParse cut
  | rule => exact rule_takes cut
  | lhs | rhs | identifier => exact run_takes Parser.identifier_takes cut
  | whitespace => exact run_takes Parser.whitespace_takes cut
  | letter | digit | raw => exact run_takes (Parser.raw_takes _ _) cut
  | cursor | reset => cases reads

theorem Session.reply_ne_stuck (session : Session) (source : Source) (call : Call) :
    (session.call source call).reply ≠ .stuck := by
  cases reads : call.reads with
  | true =>
    obtain ⟨before, text, cut⟩ := source.exists_cut session.cursor
    obtain ⟨taken, rest, -, -, answers⟩ := call_takes reads cut
    exact answers.ne_stuck
  | false =>
    cases call with
    | cursor | reset => intro stuck; cases stuck
    | _ => cases reads

/-- **Calls account for what they take.** In every run of calls, on whatever sources,
no call gets stuck. One that reads starts at the last boundary of its source up to the
cursor it finds, and leaves it at a boundary that is not before. A value answered for a
token has the characters between the two, at least one; if there is none for a token
or a rule, the cursor has not moved from where the call started. -/
theorem calls_account_for_what_they_take (start : Session)
    (earlier later : List (Source × Call)) (source : Source) (call : Call) :
    let session := start.afterCalls earlier
    ∃ turn : Turn, (start.calls (earlier ++ (source, call) :: later))[earlier.length]? = some turn ∧
      turn.reply ≠ .stuck ∧
      (call.reads = true → ∃ before taken rest : List Char,
        let k := utf8Length before
        IsGreatest {n | IsBoundary source.chars n ∧ n ≤ session.cursor} k ∧
        IsBoundary source.chars turn.session.cursor ∧
        k ≤ turn.session.cursor ∧ turn.session.cursor ≤ source.size ∧
        source.chars = before ++ (taken ++ rest) ∧
        turn.session.cursor = k + utf8Length taken ∧ call.Answers taken turn.reply) := by
  intro session
  refine ⟨_, start.getElem?_calls earlier later source call,
    session.reply_ne_stuck source call, fun reads => ?_⟩
  obtain ⟨before, text, cut⟩ := source.exists_cut session.cursor
  obtain ⟨taken, rest, rfl, cursor, answers⟩ := Session.call_takes reads cut
  refine ⟨before, taken, rest, ?_⟩
  have boundary : IsBoundary source.chars (session.call source call).session.cursor :=
    ⟨before ++ taken, rest, cut.chars.trans (List.append_assoc _ _ _).symm, cursor.symm⟩
  have size := boundary.le
  rw [utf8Length_append] at cursor
  rw [← source.size_eq] at size
  exact ⟨cut.isGreatest, boundary, cursor ▸ Nat.le_add_right _ _, size, cut.chars, cursor, answers⟩

/-- The cursor behind a rule lies inside a blank of the next source: the call takes this
blank and the one behind it. -/
theorem whitespace_taken_from_inside_a_blank :
    let start := Session.new .bestEffort
    let earlier := [(Source.ofString "ab = cd ;", Call.rule)]
    let source := Source.ofString "abcdefgh\u3000\u3000x"
    let taken := ['\u3000', '\u3000']
    Call.whitespace.reads = true ∧ (start.afterCalls earlier).cursor = 9 ∧
      IsGreatest {n | IsBoundary source.chars n ∧ n ≤ 9} 8 ∧
      source.chars = "abcdefgh".toList ++ (taken ++ ['x']) ∧ 14 = 8 + utf8Length taken ∧
      ∃ turn : Turn, (start.calls (earlier ++ [(source, .whitespace)]))[1]? = some turn ∧
        IsBoundary source.chars 14 ∧ turn.session.cursor = 14 ∧
        Call.whitespace.Answers taken turn.reply ∧
        turn.reply = .text (some "\u3000\u3000") := by
  intro start earlier source taken
  have cursor : (start.afterCalls earlier).cursor = 9 := by decide +kernel
  have chars : source.chars = "abcdefgh".toList ++ (taken ++ ['x']) := by decide +kernel
  have boundary : boundaryBefore source.chars 9 = 8 := by decide +kernel
  have seen : ((start.calls (earlier ++ [(source, .whitespace)]))[1]?).map
      (fun turn => (turn.session.cursor, turn.reply)) =
      some (14, .text (some "\u3000\u3000")) := by decide +kernel
  obtain ⟨turn, there, -, account⟩ :=
    calls_account_for_what_they_take start earlier [] source .whitespace
  have last : (turn.session.cursor, turn.reply) = (14, .text (some "\u3000\u3000")) :=
    Option.some.inj ((congrArg (Option.map _) there).symm.trans seen)
  obtain ⟨stop, reply⟩ := Prod.mk.inj last
  obtain ⟨before, found, rest, greatest, whole, -, -, split, moved, answers⟩ := account rfl
  rw [cursor] at greatest
  have begins : utf8Length before = 8 :=
    (greatest.unique (isGreatest_boundaryBefore source.chars 9)).trans boundary
  rw [begins] at greatest
  obtain ⟨rfl, behind⟩ := append_inj_of_utf8Length (split.symm.trans chars) begins
  have bytes : utf8Length found = utf8Length taken := by
    have six : utf8Length taken = 6 := by decide
    omega
  obtain ⟨rfl, -⟩ := append_inj_of_utf8Length behind bytes
  exact ⟨rfl, cursor, greatest, chars, rfl, turn, there, stop ▸ whole, stop, answers, reply⟩

end Metasyntax
