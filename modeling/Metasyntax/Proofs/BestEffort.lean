import Metasyntax.Proofs.Acceptance
import Metasyntax.Proofs.Calls

/-! Reading that ignores what is no rule stops behind the longest start of its
source that is a grammar. -/
namespace Metasyntax

/-- Behind the rules that were read no text starts that is a grammar. -/
theorem BrokenRule.Halts.text_eq_nil {broken : BrokenRule} {tail rest : List Char}
    {later : WrittenGrammar} (halts : broken.Halts tail)
    (same : broken.text ++ tail = later.text ++ rest) : later.text = [] := by
  obtain ⟨lead, rules⟩ := later
  have noSpace := halts.noSpace
  rw [same, WrittenGrammar.text, List.append_assoc] at noSpace
  have noLead : lead.chars = [] := Blank.chars_of_stops noSpace
  cases rules with
  | nil => simpa [WrittenGrammar.text] using noLead
  | cons first others =>
    obtain ⟨rule, blank⟩ := first
    simp only [WrittenGrammar.text, noLead, List.flatMap_cons, List.nil_append,
      List.append_assoc] at same
    exact absurd same.symm (Parser.written_ne_broken halts.breaks)

theorem longestStart_accepted {text start : String} {written : WrittenGrammar}
    {broken : BrokenRule} {tail : List Char}
    (split : text.toList = start.toList ++ (broken.text ++ tail))
    (h : start.toList = written.text) (halts : broken.Halts tail) :
    LongestStart Accepted text start := by
  refine longestStart_of_split split (accepted_of_written h) ?_
  intro other c more rest goesOn behind accepted
  -- What the longer start has behind the rules starts no rule, so it is no grammar.
  have begins : broken.text ++ tail = (c :: more) ++ rest := behind
  rcases exists_grammar (c :: more) with ⟨later, whole⟩ | ⟨later, next, others, parts, stops⟩
  · rw [whole] at begins
    rw [halts.text_eq_nil begins] at whole
    cases whole
  · rw [parts, List.append_assoc] at begins
    rw [halts.text_eq_nil begins, List.nil_append] at parts
    rw [h, parts] at goesOn
    exact not_accepted_of_broken goesOn stops accepted

theorem longestStart_whole {text : String} (accepted : Accepted text) :
    LongestStart Accepted text text := by
  refine longestStart_of_split (List.append_nil _).symm accepted ?_
  intro other c more rest goesOn behind
  cases behind

/-- **Best-effort reading takes all that strict reading would accept.** A new
session reads the longest start of its source that is a grammar, answers with
this grammar, and leaves the cursor behind it. -/
theorem parse_reads_longest_accepted (mode : Mode) (text : String) :
    let turn := (Session.new mode).call (.ofString text) .parse
    (∃ start grammar, LongestStart Accepted text start ∧ Grammar.parse start = .ok grammar ∧
      turn.reply = .grammar (some grammar) ∧ turn.session.cursor = start.utf8ByteSize) ∧
    (Accepted text ↔ turn.session.cursor = text.utf8ByteSize) := by
  intro turn
  rcases exists_grammar text.toList with ⟨written, whole⟩ | ⟨written, broken, tail, split, halts⟩
  · obtain ⟨cursor, reply⟩ := Session.new_parse_of_written mode whole
    have accepted := Grammar.parse_of_written whole
    rw [← whole, utf8Length_toList] at cursor
    exact ⟨⟨text, written.grammar, longestStart_whole ⟨_, accepted⟩, accepted, reply, cursor⟩,
      iff_of_true ⟨_, accepted⟩ cursor⟩
  · obtain ⟨cursor, reply⟩ := Session.new_parse_of_broken mode split halts
    have start : (String.ofList written.text).toList = written.text := String.toList_ofList
    have left : utf8Length (broken.text ++ tail) ≠ 0 := by
      rw [Ne, utf8Length_eq_zero]
      exact halts.goesOn
    have short : utf8Length written.text ≠ text.utf8ByteSize := by
      rw [← utf8Length_toList, split, utf8Length_append]
      omega
    have bytes : utf8Length written.text = (String.ofList written.text).utf8ByteSize := by
      rw [← utf8Length_toList, start]
    refine ⟨⟨.ofList written.text, written.grammar,
      longestStart_accepted (by rw [split, start]) start halts, Grammar.parse_of_written start,
      reply, cursor.trans bytes⟩, iff_of_false (not_accepted_of_broken split halts) ?_⟩
    rw [cursor]
    exact short

end Metasyntax
