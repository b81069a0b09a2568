import Metasyntax.Proofs.Acceptance
import Metasyntax.Proofs.Calls

/-! The error of a rejected text stands where the text can no longer become a
grammar, and names a token that would make it one. -/
namespace Metasyntax

/-- What completes a rule that breaks off. -/
def BrokenRule.repair : BrokenRule → String
  | .noLeft => "a=a;"
  | .noSign .. => "=a;"
  | .noRight .. => "a;"
  | .noEnd .. => ";"

def BrokenRule.repaired : BrokenRule → WrittenRule
  | .noLeft => ⟨.ofChars ['a'] (by decide), .none, .none, .ofChars ['a'] (by decide), .none⟩
  | .noSign left afterLeft => ⟨left, afterLeft, .none, .ofChars ['a'] (by decide), .none⟩
  | .noRight left afterLeft beforeRight =>
    ⟨left, afterLeft, beforeRight, .ofChars ['a'] (by decide), .none⟩
  | .noEnd left afterLeft beforeRight right afterRight =>
    ⟨left, afterLeft, beforeRight, right, afterRight⟩

theorem BrokenRule.text_repaired (broken : BrokenRule) :
    broken.repaired.text = broken.text ++ broken.repair.toList := by
  cases broken <;> simp [repaired, repair, text, WrittenRule.text, Blank.none]

/-- The name of the missing token tells how to complete the rule, but for an
identifier one must know whether the rule has begun. -/
theorem BrokenRule.repair_of_label (broken : BrokenRule) :
    broken.label = "';'" ∧ broken.repair = ";" ∨
      broken.label = "'='" ∧ broken.repair = "=a;" ∨
      broken.label = "identifier" ∧
        broken.repair = if utf8Length broken.text = 0 then "a=a;" else "a;" := by
  cases broken with
  | noLeft => exact .inr (.inr ⟨rfl, rfl⟩)
  | noSign => exact .inr (.inl ⟨rfl, rfl⟩)
  | noRight =>
    refine .inr (.inr ⟨rfl, (if_neg ?_).symm⟩)
    rw [utf8Length_eq_zero]
    simp [text]
  | noEnd => exact .inl ⟨rfl, rfl⟩

def WrittenGrammar.snoc (written : WrittenGrammar) (rule : WrittenRule) : WrittenGrammar :=
  ⟨written.lead, written.rules ++ [(rule, .none)]⟩

theorem WrittenGrammar.text_snoc (written : WrittenGrammar) (rule : WrittenRule) :
    (written.snoc rule).text = written.text ++ rule.text := by
  simp [snoc, text, Blank.none]

theorem accepted_repair {text : String} {written : WrittenGrammar} {broken : BrokenRule}
    (h : text.toList = written.text ++ broken.text) : Accepted (text ++ broken.repair) := by
  have whole : (text ++ broken.repair).toList = (written.snoc broken.repaired).text := by
    rw [String.toList_append, h, WrittenGrammar.text_snoc, BrokenRule.text_repaired,
      List.append_assoc]
  exact accepted_of_written whole

theorem BrokenRule.Halts.append_cons {broken : BrokenRule} {c : Char} {tail : List Char}
    (halts : broken.Halts (c :: tail)) (other : List Char) : broken.Halts (c :: other) where
  breaks := by
    have breaks := halts.breaks
    cases broken with
    | noLeft => exact breaks
    | noSign => exact ⟨breaks.1.append_cons, breaks.2⟩
    | noRight => exact breaks
    | noEnd => exact ⟨breaks.1.append_cons, breaks.2⟩
  goesOn := by simp
  noSpace := halts.noSpace.append_cons

/-- A text that can become a grammar when more is written behind it. -/
def Viable (text : String) : Prop := ∃ more, Accepted (text ++ more)

theorem longestStart_viable {text start : String} {written : WrittenGrammar} {broken : BrokenRule}
    {tail : List Char} (split : text.toList = start.toList ++ tail)
    (h : start.toList = written.text ++ broken.text) (halts : broken.Halts tail) :
    LongestStart Viable text start := by
  refine longestStart_of_split split ⟨broken.repair, accepted_repair h⟩ ?_
  rintro other c more rest goesOn rfl ⟨added, accepted⟩
  have still : (other ++ added).toList =
      written.text ++ (broken.text ++ c :: (more ++ added.toList)) := by
    rw [String.toList_append, goesOn, h]
    simp
  exact not_accepted_of_broken still (halts.append_cons _) accepted

/-- **Errors stand at the end of what was right.** The error of a rejected text
has the offset of the longest start that can still become a grammar, and names
a token with which it does. -/
theorem error_at_longest_viable_start {text : String} {error : ParseError}
    (rejected : Grammar.parse text = .error error) :
    ∃ start label : String, LongestStart Viable text start ∧
      error = .expected label start.utf8ByteSize
        ((Source.ofString text).coordinates start.utf8ByteSize) ∧
      (label = "';'" ∧ Accepted (start ++ ";") ∨
        label = "'='" ∧ Accepted (start ++ "=a;") ∨
        label = "identifier" ∧ ∀ mode : Mode,
          let cursor := ((Session.new mode).call (.ofString text) .parse).session.cursor
          Accepted (start ++ if start.utf8ByteSize = cursor then "a=a;" else "a;")) := by
  rcases exists_grammar text.toList with ⟨written, whole⟩ | ⟨written, broken, tail, split, halts⟩
  · rw [Grammar.parse_of_written whole] at rejected
    cases rejected
  rw [Grammar.parse_of_broken split halts, Except.error.injEq] at rejected
  have h : (String.ofList (written.text ++ broken.text)).toList = written.text ++ broken.text :=
    String.toList_ofList
  have bytes : (String.ofList (written.text ++ broken.text)).utf8ByteSize =
      utf8Length (written.text ++ broken.text) := by rw [← utf8Length_toList, h]
  have fixed := accepted_repair h
  refine ⟨.ofList (written.text ++ broken.text), broken.label,
    longestStart_viable (by rw [split, h, List.append_assoc]) h halts, ?_, ?_⟩
  · rw [bytes, rejected]
  rcases broken.repair_of_label with ⟨label, repair⟩ | ⟨label, repair⟩ | ⟨label, repair⟩
  · exact .inl ⟨label, repair ▸ fixed⟩
  · exact .inr (.inl ⟨label, repair ▸ fixed⟩)
  · refine .inr (.inr ⟨label, fun mode => ?_⟩)
    have cursor := (Session.new_parse_of_broken mode split halts).1
    have begun : (String.ofList (written.text ++ broken.text)).utf8ByteSize =
        ((Session.new mode).call (.ofString text) .parse).session.cursor ↔
          utf8Length broken.text = 0 := by
      rw [bytes, cursor, utf8Length_append]
      omega
    simp only [begun, ← repair]
    exact fixed

/-- A rule that lacks its end, which is missed behind the line end where the next rule starts. -/
theorem error_behind_missing_end :
    let text := "a = b ;\nc = d\ne = f ;"
    let start := "a = b ;\nc = d\n"
    Grammar.parse text = .error (.expected "';'" 14 ⟨3, 1⟩) ∧
      start.utf8ByteSize = 14 ∧ LongestStart Viable text start ∧ Accepted (start ++ ";") := by
  intro text start
  have rejected : Grammar.parse text = .error (.expected "';'" 14 ⟨3, 1⟩) := by decide +kernel
  have bytes : start.utf8ByteSize = 14 := by decide +kernel
  obtain ⟨found, label, longest, error, repairs⟩ := error_at_longest_viable_start rejected
  obtain ⟨name, length, -⟩ := ParseError.expected.inj error
  have same : found = start := by
    obtain ⟨rest, split⟩ := longest.starts
    have chars : found.toList ++ rest.toList = start.toList ++ "e = f ;".toList := by
      rw [← String.toList_append, ← split]
      decide +kernel
    have equal : utf8Length found.toList = utf8Length start.toList := by
      rw [utf8Length_toList, utf8Length_toList, ← length, bytes]
    exact String.toList_inj.mp (append_inj_of_utf8Length chars equal).1
  subst same name
  rcases repairs with ⟨-, accepted⟩ | ⟨other, -⟩ | ⟨other, -⟩
  · exact ⟨rejected, bytes, longest, accepted⟩
  · exact absurd other (by decide)
  · exact absurd other (by decide)

end Metasyntax
