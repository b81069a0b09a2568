import Mathlib.Data.List.Chain
import Metasyntax.Proofs.Calls

/-! A session that reads a growing text picks up where it stopped. The text may
grow by anything, and be cut anywhere. -/
namespace Metasyntax

/-- A grammar behind a grammar is one grammar: where they meet, the white space
of the one goes on as that of the other. -/
theorem WrittenGrammar.exists_append (first later : WrittenGrammar) :
    ∃ whole : WrittenGrammar, whole.text = first.text ++ later.text ∧
      whole.grammar.rules = first.grammar.rules ++ later.grammar.rules := by
  obtain ⟨lead, rules⟩ := first
  induction rules generalizing lead with
  | nil =>
    have spaces : ∀ c ∈ lead.chars ++ later.lead.chars, isSpace c = true := by
      intro c member
      rcases List.mem_append.mp member with here | there
      · exact lead.spaces c here
      · exact later.lead.spaces c there
    exact ⟨⟨⟨_, spaces⟩, later.rules⟩, by simp [text], rfl⟩
  | cons first rules ih =>
    obtain ⟨rule, blank⟩ := first
    obtain ⟨whole, texts, same⟩ := ih blank
    refine ⟨cons lead rule whole, ?_, congrArg (rule.rule :: ·) same⟩
    rw [text_cons, texts, text_mk_cons, List.append_assoc, List.append_assoc]

/-- What the session has read is a grammar at the start of the text, with these rules. -/
def Session.HasRead (session : Session) (text : List Char) (rules : List Rule) : Prop :=
  ∃ (written : WrittenGrammar) (rest : List Char), text = written.text ++ rest ∧
    session.cursor = utf8Length written.text ∧ written.grammar.rules = rules

/-- What the session has read are all the rules up to where none goes on. -/
def Session.HasReadAll (session : Session) (text : List Char) (rules : List Rule) : Prop :=
  ∃ written : WrittenGrammar, written.Exhausts text ∧
    session.cursor = utf8Length written.text ∧ written.grammar.rules = rules

theorem Session.hasReadAll_new (mode : Mode) : (Session.new mode).HasReadAll [] [] :=
  ⟨⟨.none, []⟩, WrittenGrammar.exhausts_text _, rfl, rfl⟩

/-- What has been read is still there when the text has grown. -/
theorem Session.HasRead.grow {session : Session} {text longer : List Char} {rules : List Rule}
    (h : session.HasRead text rules) (grows : text <+: longer) : session.HasRead longer rules := by
  obtain ⟨written, rest, rfl, cursor, same⟩ := h
  obtain ⟨more, rfl⟩ := grows
  exact ⟨written, rest ++ more, List.append_assoc _ _ _, cursor, same⟩

theorem Session.HasReadAll.hasRead {session : Session} {text : List Char} {rules : List Rule}
    (h : session.HasReadAll text rules) : session.HasRead text rules := by
  obtain ⟨written, ⟨broken, tail, split, -⟩, cursor, same⟩ := h
  exact ⟨written, broken.text ++ tail, split, cursor, same⟩

/-- A call takes what is left to read, and only that. -/
theorem Session.HasRead.call {session : Session} {text : String} {rules : List Rule}
    {call : GrammarCall} (h : session.HasRead text.toList rules)
    (lenient : call.rejects session.mode = false) :
    ∃ (next : Session) (grammar : Grammar) (events : List Event),
      session.call (.ofString text) call.call = ⟨next, .grammar (some grammar), events⟩ ∧
      next.mode = session.mode ∧ next.HasReadAll text.toList (rules ++ grammar.rules) := by
  obtain ⟨written, rest, split, cursor, rfl⟩ := h
  have cut : (Source.ofString text).Cut session.cursor written.text rest :=
    cursor ▸ Source.cut_of_split split
  obtain ⟨later, broken, tail, left, blocks⟩ := exists_exhausts rest
  obtain ⟨events, answer⟩ := call_grammar_of_exhausts cut ⟨broken, tail, left, blocks⟩ lenient
  obtain ⟨whole, texts, same⟩ := written.exists_append later
  refine ⟨_, later.grammar, events, answer, rfl, whole, ⟨broken, tail, ?_, blocks⟩, ?_, same⟩
  · rw [split, left, texts, List.append_assoc]
  · rw [texts]

/-- Calls for a grammar, each with the text it reads. -/
def readings (texts : List (String × GrammarCall)) : List (Source × Call) :=
  texts.map fun (text, call) => (.ofString text, call.call)

/-- A run of calls on a growing text answers with the rules that are new each time, and
leaves all of them read. -/
theorem Session.HasReadAll.calls {session : Session} {text : List Char} {rules : List Rule}
    (h : session.HasReadAll text rules) {texts : List (String × GrammarCall)}
    (grows : (text :: texts.map (·.1.toList)).IsChain (· <+: ·))
    (lenient : ∀ reading ∈ texts, reading.2.rejects session.mode = false) :
    ∃ grammars : List Grammar,
      ((session.calls (readings texts)).map Turn.reply =
        grammars.map fun grammar => .grammar (some grammar)) ∧
      (session.afterCalls (readings texts)).HasReadAll ((texts.map (·.1.toList)).getLastD text)
        (rules ++ grammars.flatMap Grammar.rules) := by
  induction texts generalizing session text rules with
  | nil => exact ⟨[], rfl, by simpa [Session.afterCalls, readings] using h⟩
  | cons first texts ih =>
    obtain ⟨source, call⟩ := first
    rw [List.map_cons, List.isChain_cons_cons] at grows
    obtain ⟨start, grows⟩ := grows
    have now : call.rejects session.mode = false := lenient (source, call) List.mem_cons_self
    obtain ⟨next, grammar, events, answer, mode, all⟩ := (h.hasRead.grow start).call now
    have later : ∀ reading ∈ texts, reading.2.rejects next.mode = false := by
      intro reading member
      rw [mode]
      exact lenient reading (List.mem_cons_of_mem _ member)
    obtain ⟨grammars, replies, final⟩ := ih all grows later
    refine ⟨grammar :: grammars, ?_, ?_⟩
    · change (session.call (.ofString source) call.call).reply ::
        (((session.call (.ofString source) call.call).session.calls (readings texts)).map
          Turn.reply) = _
      rw [answer, replies]
      rfl
    · change ((session.call (.ofString source) call.call).session.afterCalls
        (readings texts)).HasReadAll _ _
      rw [answer, List.map_cons, List.getLastD_cons, List.flatMap_cons, ← List.append_assoc]
      exact final

/-- **A growing text is read once.** Calls on texts each of which goes on the one
before it answer, one grammar after another, what one call on the last text does,
and end where it ends. -/
theorem growing_text_is_read_once (mode : Mode) (earlier : List (String × GrammarCall))
    (last : String × GrammarCall)
    (grows : ((earlier ++ [last]).map (·.1.toList)).IsChain (· <+: ·))
    (lenient : ∀ reading ∈ earlier ++ [last], reading.2.rejects mode = false)
    (otherMode : Mode) (other : GrammarCall) (alike : other.rejects otherMode = false) :
    let session := Session.new mode
    let calls := readings (earlier ++ [last])
    let atOnce := (Session.new otherMode).call (.ofString last.1) other.call
    ∃ grammars : List Grammar,
      ((session.calls calls).map Turn.reply = grammars.map fun grammar => .grammar (some grammar)) ∧
      atOnce.reply = .grammar (some ⟨grammars.flatMap Grammar.rules⟩) ∧
      (session.afterCalls calls).cursor = atOnce.session.cursor := by
  intro session calls atOnce
  have chain : ([] :: (earlier ++ [last]).map (·.1.toList)).IsChain (· <+: ·) :=
    List.isChain_cons.mpr ⟨fun text _ => List.nil_prefix, grows⟩
  obtain ⟨grammars, replies, written, exhausts, cursor, rules⟩ :=
    (Session.hasReadAll_new mode).calls chain lenient
  rw [List.map_append, List.map_singleton, List.getLastD_concat] at exhausts
  obtain ⟨events, answer⟩ := Session.new_call_of_exhausts exhausts alike
  refine ⟨grammars, replies, ?_, ?_⟩
  · rw [List.nil_append] at rules
    rw [← rules]
    exact congrArg Turn.reply answer
  · exact cursor.trans (congrArg (·.session.cursor) answer).symm

/-- Cut inside a name, and again between the white space and the sign behind it: the first
call finds no rule, and each of the others the one that has come to its end. -/
theorem cut_names_are_read_once :
    let earlier := [("a_", GrammarCall.parse), ("a_1 = b;\n\uFEFFc ", GrammarCall.tryParse)]
    let last := ("a_1 = b;\n\uFEFFc =d;e", GrammarCall.parse)
    let session := Session.new .bestEffort
    let calls := readings (earlier ++ [last])
    let atOnce := (Session.new .strict).call (.ofString last.1) .parse
    let first : Rule := ⟨⟨"a_1"⟩, ⟨"b"⟩⟩
    let second : Rule := ⟨⟨"c"⟩, ⟨"d"⟩⟩
    ((earlier ++ [last]).map (·.1.toList)).IsChain (· <+: ·) ∧
    (∀ reading ∈ earlier ++ [last], reading.2.rejects .bestEffort = false) ∧
    (session.calls calls).map Turn.reply =
      [.grammar (some ⟨[]⟩), .grammar (some ⟨[first]⟩), .grammar (some ⟨[second]⟩)] ∧
    atOnce.reply = .grammar (some ⟨[first, second]⟩) ∧
    (session.afterCalls calls).cursor = 17 ∧ atOnce.session.cursor = 17 := by
  intro earlier last session calls atOnce first second
  have grows : ((earlier ++ [last]).map (·.1.toList)).IsChain (· <+: ·) := by decide
  have lenient : ∀ reading ∈ earlier ++ [last], reading.2.rejects .bestEffort = false := by decide
  have inTurn : (session.calls calls).map Turn.reply =
      [⟨[]⟩, ⟨[first]⟩, ⟨[second]⟩].map fun grammar => .grammar (some grammar) := by
    decide +kernel
  have stop : (session.afterCalls calls).cursor = 17 := by decide +kernel
  obtain ⟨grammars, replies, whole, same⟩ := growing_text_is_read_once .bestEffort earlier last
    grows lenient .strict .parse rfl
  have apart : Function.Injective fun grammar : Grammar => Reply.grammar (some grammar) :=
    fun _ _ alike => Option.some.inj (Reply.grammar.inj alike)
  cases List.map_injective_iff.mpr apart (replies.symm.trans inTurn)
  exact ⟨grows, lenient, inTurn, whole, stop, same.symm.trans stop⟩

end Metasyntax
