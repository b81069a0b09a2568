import Metasyntax.Proofs.Calls
import Metasyntax.Proofs.Symmetry

/-! Reading depends only on the text that is still ahead. What lies behind moves
the offsets of all that is found, and nothing else. -/
namespace Metasyntax

variable {α : Type}

/-! ## More text behind a place -/

def Place.behind (before : List Char) (place : Place) : Place where
  source := .ofList (before ++ place.source.chars)
  pos := utf8Length before + place.pos
  ahead? := place.ahead?
  ahead?_eq := place.ahead?_eq.trans (dropBytes?_append before _ _).symm

def Failure.behind (before : List Char) (failure : Failure) : Failure :=
  { failure with pos := utf8Length before + failure.pos }

def Event.behind (before : List Char) : Event → Event
  | .identifier name pos => .identifier name (utf8Length before + pos)
  | .stopped pos furthest =>
    .stopped (utf8Length before + pos) (furthest.map (Failure.behind before))
  | event => event

/-- The state of a run on a source that has the text in front of this one. -/
def State.behind (before : List Char) (s : State) : State :=
  ⟨s.place.behind before, s.furthest.map (Failure.behind before), s.log.map (Event.behind before)⟩

theorem Failure.behind_merge (before : List Char) (old : Option Failure) (new : Failure) :
    (merge old new).behind before = merge (old.map (Failure.behind before)) (new.behind before) := by
  cases old with
  | none => rfl
  | some old =>
    by_cases earlier : new.pos < old.pos
    · simp [merge, behind, earlier]
    · simp [merge, behind, earlier]

theorem Place.remaining_behind (before : List Char) (place : Place) :
    (place.behind before).remaining = place.remaining := by
  change utf8Length (before ++ place.source.chars) - (utf8Length before + place.pos) =
    place.source.size - place.pos
  rw [utf8Length_append, place.source.size_eq]
  omega

def Symmetry.behind (before : List Char) : Symmetry where
  change := State.behind before
  ahead _ := rfl
  remaining s := s.place.remaining_behind before
  advance s consumed rest next := by
    have place : (s.place.advance consumed rest next).behind before =
        (s.place.behind before).advance consumed rest next :=
      Place.ext rfl (Nat.add_assoc _ _ _).symm
    simp only [State.behind, State.advance, place]
  backTo _ _ := rfl
  fail s label := by
    simp only [State.behind, State.fail, Option.map_some, Failure.behind_merge]
    rfl
  identifier _ _ := rfl
  rule _ _ := rfl
  stopped _ := rfl

/-! ## Sources and cursors -/

@[ext] theorem Source.ext {source other : Source} (same : source.chars = other.chars) :
    source = other := by
  obtain ⟨chars, size, size_eq⟩ := source
  obtain ⟨others, length, length_eq⟩ := other
  cases same
  cases size_eq
  cases length_eq
  rfl

variable {source : Source} {cursor : Nat} {before rest : List Char}

/-- To start at a cursor is to start anew on the text that stands there. -/
theorem Source.Cut.state (cut : source.Cut cursor before rest) :
    State.at source cursor = (State.start (.ofList rest)).behind before := by
  have place : Place.at source cursor = (Place.jump (.ofList rest) 0).behind before :=
    Place.ext (Source.ext cut.chars) cut.start
  simp only [State.at, place, State.behind, State.start]
  rfl

theorem Parser.Built.run_behind {p : Parser α} (built : p.Built)
    (cut : source.Cut cursor before rest) :
    ∃ (result : Option α) (t : State), p (State.start (.ofList rest)) = .ended result t ∧
      p (State.at source cursor) = .ended result (t.behind before) ∧
      (t.behind before).source = source := by
  obtain ⟨result, t, ended, leads⟩ := built.ends _ _ (State.start_ahead (.ofList rest))
  refine ⟨result, t, ended, ?_, ?_⟩
  · have same := built.respects (.behind before) (State.start (.ofList rest))
    rw [ended, Outcome.mapState_ended] at same
    rw [cut.state]
    exact same
  · have there : t.place.source.chars = rest := congrArg Source.chars leads.source
    apply Source.ext
    change before ++ t.place.source.chars = source.chars
    rw [there, cut.chars]

/-! ## Calls -/

/-- An error of reading the end of a source, where it stands in the whole source. -/
def ParseError.behind (before : List Char) (source : Source) : ParseError → ParseError
  | .expected label pos _ =>
    .expected label (utf8Length before + pos) (source.coordinates (utf8Length before + pos))
  | .trailing pos _ =>
    .trailing (utf8Length before + pos) (source.coordinates (utf8Length before + pos))

def Reply.behind (before : List Char) (source : Source) : Reply → Reply
  | .rejected error => .rejected (error.behind before source)
  | reply => reply

theorem State.error_behind {t : State} (whole : (t.behind before).source = source) :
    (t.behind before).error = t.error.behind before source := by
  cases memory : t.furthest with
  | none =>
    have none : (t.behind before).furthest = none := congrArg (Option.map _) memory
    rw [State.error, State.error, memory, none]
    simp only [trailing, whole]
    rfl
  | some failure =>
    have moved : (t.behind before).furthest = some (failure.behind before) :=
      congrArg (Option.map _) memory
    rw [State.error, State.error, memory, moved]
    have pos : (t.behind before).pos = utf8Length before + t.pos := rfl
    by_cases behind : t.pos ≤ failure.pos
    · simp [pos, Failure.behind, behind, whole, ParseError.behind]
    · simp [pos, Failure.behind, behind, whole, ParseError.behind, trailing]

theorem Session.run_behind {session : Session} {p : Parser α} {reply : Option α → Reply}
    (built : p.Built) (kept : ∀ result, (reply result).behind before source = reply result)
    (cut : source.Cut session.cursor before rest) :
    let fresh := (Session.new session.mode).run (.ofList rest) p reply
    let turn := session.run source p reply
    turn.session = { session with cursor := utf8Length before + fresh.session.cursor } ∧
      turn.reply = fresh.reply.behind before source := by
  intro fresh turn
  obtain ⟨result, t, ended, moved, -⟩ := built.run_behind cut
  rw [← Session.new_state session.mode] at ended
  simp only [fresh, turn, run, ended, moved]
  cases result with
  | none => exact ⟨rfl, (kept none).symm⟩
  | some value => exact ⟨rfl, (kept (some value)).symm⟩

theorem Session.call_grammar_behind {session : Session} (call : GrammarCall)
    (cut : source.Cut session.cursor before rest) :
    let fresh := (Session.new session.mode).call (.ofList rest) call.call
    let turn := session.call source call.call
    turn.session = { session with cursor := utf8Length before + fresh.session.cursor } ∧
      turn.reply = fresh.reply.behind before source := by
  intro fresh turn
  obtain ⟨result, t, ended, moved, whole⟩ := Parser.built_grammar.run_behind cut
  obtain ⟨u, grammar, matched⟩ := Parser.grammar_matched (State.start_ahead (.ofList rest))
  cases result with
  | none => cases ended.symm.trans matched
  | some grammar =>
    rw [← Session.new_state session.mode] at ended
    have first : fresh = _ := call_grammar_of_matched call ended
    have second : turn = _ := call_grammar_of_matched call moved
    have atEnd : (t.behind before).atEnd = t.atEnd := (Symmetry.behind before).atEnd t
    have mode : (Session.new session.mode).mode = session.mode := rfl
    rw [first, second, atEnd, State.error_behind whole, mode]
    cases call.rejects session.mode && !t.atEnd <;> exact ⟨rfl, rfl⟩

/-- A call on the whole source does what a call of a new session on its end does. -/
theorem Session.call_behind {session : Session} {call : Call} (reads : call.reads = true)
    (cut : source.Cut session.cursor before rest) :
    let fresh := (Session.new session.mode).call (.ofList rest) call
    let turn := session.call source call
    turn.session = { session with cursor := utf8Length before + fresh.session.cursor } ∧
      turn.reply = fresh.reply.behind before source := by
  cases call with
  | parse => exact call_grammar_behind .parse cut
  | tryParse => exact call_grammar_behind .tryParse cut
  | rule => exact run_behind Parser.built_rule (fun _ => rfl) cut
  | lhs | rhs | identifier => exact run_behind Parser.built_identifier (fun _ => rfl) cut
  | whitespace => exact run_behind .whitespace (fun _ => rfl) cut
  | letter | digit | raw => exact run_behind (.raw _ _) (fun _ => rfl) cut
  | cursor | reset => cases reads

/-- **Reading depends only on what is ahead.** A parser ends behind a text as it does
at the start of what follows it, with its offsets moved by the bytes of the text. A
call does on a source what it does in a new session on the part from the last
boundary up to the cursor on: the cursor is moved, and of a reply only an error, which
gets the line and column in the whole source. -/
theorem reading_depends_on_what_is_ahead :
    (∀ (α : Type) (p : Parser α), p.Built → ∀ before rest : List Char,
      ∃ (result : Option α) (t u : State),
        p (State.start (.ofList rest)) = .ended result t ∧
        p (State.at (.ofList (before ++ rest)) (utf8Length before)) = .ended result u ∧
        u.pos = utf8Length before + t.pos ∧
        u.furthest = t.furthest.map (Failure.behind before)) ∧
    ∀ (session : Session) (source : Source) (call : Call), call.reads = true →
      ∃ before rest : List Char, source.chars = before ++ rest ∧
        IsGreatest {k | IsBoundary source.chars k ∧ k ≤ session.cursor} (utf8Length before) ∧
        let fresh := (Session.new session.mode).call (.ofList rest) call
        let turn := session.call source call
        turn.session = { session with cursor := utf8Length before + fresh.session.cursor } ∧
        turn.reply = fresh.reply.behind before source := by
  constructor
  · intro α p built before rest
    have cut : (Source.ofList (before ++ rest)).Cut (utf8Length before) before rest :=
      Source.cut_of_split rfl
    obtain ⟨result, t, ended, moved, -⟩ := built.run_behind cut
    exact ⟨result, t, t.behind before, ended, moved, rfl, rfl⟩
  · intro session source call reads
    obtain ⟨before, rest, cut⟩ := source.exists_cut session.cursor
    exact ⟨before, rest, cut.chars, cut.isGreatest, Session.call_behind reads cut⟩

/-- A choice behind two characters, and a strict call with the cursor inside a blank of the
second line. -/
theorem choice_and_call_behind_text :
    let p : Parser (List Char) :=
      .anyOf [.inOrder [.letter, .digit], Parser.repeated .letter]
    let session : Session := ⟨4, .strict⟩
    let source : Source := .ofString "é\n\u3000b = ;"
    let rest : List Char := "\u3000b = ;".toList
    (p.Built ∧ ∃ t u : State,
      p (State.start (.ofList ['a', 'b'])) = .matched t ['a', 'b'] ∧
      t.pos = 2 ∧ t.furthest = some ⟨2, "letter"⟩ ∧
      p (State.at (.ofList (['é', ';'] ++ ['a', 'b'])) 3) = .matched u ['a', 'b'] ∧
      u.pos = 5 ∧ u.furthest = some ⟨5, "letter"⟩) ∧
    Call.tryParse.reads = true ∧ source.chars = ['é', '\n'] ++ rest ∧
      IsGreatest {k | IsBoundary source.chars k ∧ k ≤ session.cursor} 3 ∧
      let fresh := (Session.new .strict).call (.ofList rest) .tryParse
      let turn := session.call source .tryParse
      fresh.session = ⟨3, .strict⟩ ∧ turn.session = ⟨6, .strict⟩ ∧
      fresh.reply = .rejected (.expected "identifier" 7 ⟨1, 6⟩) ∧
      turn.reply = .rejected (.expected "identifier" 10 ⟨2, 6⟩) := by
  intro p session source rest
  have sequence : (Parser.inOrder [.letter, .digit]).Built :=
    .inOrder (List.forall_mem_cons.mpr ⟨.raw _ _, List.forall_mem_singleton.mpr (.raw _ _)⟩)
  have built : p.Built := .anyOf
    (List.forall_mem_cons.mpr ⟨sequence, List.forall_mem_singleton.mpr (.repeated (.raw _ _))⟩)
  obtain ⟨parsers, calls⟩ := reading_depends_on_what_is_ahead
  obtain ⟨result, t, u, here, there, moved, memory⟩ :=
    parsers _ p built ['é', ';'] ['a', 'b']
  have seen : (p (State.start (.ofList ['a', 'b']))).ending? =
      some (some ['a', 'b'], 2, some ⟨2, "letter"⟩) := by decide +kernel
  rw [here, Outcome.ending?_ended_iff] at seen
  obtain ⟨rfl, pos, furthest⟩ := seen
  rw [pos] at moved
  rw [furthest] at memory
  refine ⟨⟨built, t, u, here, pos, furthest, there, moved, memory⟩, rfl, ?_⟩
  obtain ⟨before, later, split, greatest, cursor, reply⟩ := calls session source .tryParse rfl
  have chars : source.chars = ['é', '\n'] ++ rest := by decide +kernel
  have boundary : boundaryBefore source.chars 4 = 3 := by decide +kernel
  have start : utf8Length before = 3 :=
    (greatest.unique (isGreatest_boundaryBefore source.chars 4)).trans boundary
  obtain ⟨rfl, rfl⟩ := append_inj_of_utf8Length (split.symm.trans chars) start
  have stop : ((Session.new .strict).call (.ofList rest) .tryParse).session = ⟨3, .strict⟩ := by
    decide +kernel
  have error : ((Session.new .strict).call (.ofList rest) .tryParse).reply =
      .rejected (.expected "identifier" 7 ⟨1, 6⟩) := by decide +kernel
  refine ⟨chars, start ▸ greatest, stop, cursor.trans ?_, error, reply.trans ?_⟩
  · rw [stop]
    rfl
  · rw [error]
    decide +kernel

end Metasyntax
