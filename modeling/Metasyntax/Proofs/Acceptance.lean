import Metasyntax.Proofs.GrammarReading

/-! Strict reading accepts exactly the texts of written grammars. -/
namespace Metasyntax

theorem Grammar.parse_eq_ok_iff {text : String} {grammar : Grammar} :
    Grammar.parse text = .ok grammar ↔
      ∃ written : WrittenGrammar, written.text = text.toList ∧ written.grammar = grammar := by
  constructor
  · intro accepted
    rcases exists_grammar text.toList with ⟨written, whole⟩ | ⟨written, broken, tail, split, halts⟩
    · rw [Grammar.parse_of_written whole, Except.ok.injEq] at accepted
      exact ⟨written, whole.symm, accepted⟩
    · rw [Grammar.parse_of_broken split halts] at accepted
      cases accepted
  · rintro ⟨written, whole, rfl⟩
    exact Grammar.parse_of_written whole.symm

/-- **Reading finds the rules that are written.** A text is accepted with some
rules exactly if it is white space, and then each of these rules with white
space between its tokens and after it. No text is a grammar in two ways. -/
theorem accepts_exactly_written_rules (text : String) :
    (∀ rules : List Rule, Grammar.parse text = .ok ⟨rules⟩ ↔
      ∃ written : WrittenGrammar, written.text = text.toList ∧ written.grammar.rules = rules) ∧
    ∀ first second : WrittenGrammar, first.text = text.toList → second.text = text.toList →
      first.grammar.rules = second.grammar.rules := by
  constructor
  · intro rules
    rw [Grammar.parse_eq_ok_iff]
    constructor
    · rintro ⟨written, whole, same⟩
      exact ⟨written, whole, congrArg Grammar.rules same⟩
    · rintro ⟨written, whole, rfl⟩
      exact ⟨written, whole, rfl⟩
  · intro first second one two
    have accepted := Grammar.parse_of_written one.symm
    rw [Grammar.parse_of_written two.symm, Except.ok.injEq] at accepted
    rw [accepted]

theorem spaced_rules_accepted :
    let left : Rule := ⟨⟨"a"⟩, ⟨"b_1"⟩⟩
    let right : Rule := ⟨⟨"Cd"⟩, ⟨"a"⟩⟩
    Grammar.parse "\uFEFFa=b_1;\nCd\t= a ;" = .ok ⟨[left, right]⟩ ∧
      ∃ written : WrittenGrammar, written.text = "\uFEFFa=b_1;\nCd\t= a ;".toList ∧
        written.grammar.rules = [left, right] := by
  intro left right
  have accepted : Grammar.parse "\uFEFFa=b_1;\nCd\t= a ;" = .ok ⟨[left, right]⟩ := by
    decide +kernel
  exact ⟨accepted, ((accepts_exactly_written_rules _).1 _).mp accepted⟩

def Accepted (text : String) : Prop := ∃ grammar, Grammar.parse text = .ok grammar

/-- The longest start of a text that has a property, in bytes. -/
structure LongestStart (property : String → Prop) (text start : String) : Prop where
  starts : ∃ rest, text = start ++ rest
  holds : property start
  longest : ∀ other rest, text = other ++ rest → property other →
    other.utf8ByteSize ≤ start.utf8ByteSize

theorem accepted_of_written {text : String} {written : WrittenGrammar}
    (h : text.toList = written.text) : Accepted text := ⟨_, Grammar.parse_of_written h⟩

theorem not_accepted_of_broken {text : String} {written : WrittenGrammar} {broken : BrokenRule}
    {tail : List Char} (h : text.toList = written.text ++ (broken.text ++ tail))
    (halts : broken.Halts tail) : ¬ Accepted text := by
  rintro ⟨grammar, accepted⟩
  rw [Grammar.parse_of_broken h halts] at accepted
  cases accepted

/-- A start that is longer than another one goes on behind it. -/
theorem exists_cons_of_longer {start other rest tail : List Char}
    (same : start ++ tail = other ++ rest) (longer : utf8Length start < utf8Length other) :
    ∃ c more, other = start ++ c :: more ∧ tail = c :: (more ++ rest) := by
  rcases List.append_eq_append_iff.mp same with ⟨more, rfl, rfl⟩ | ⟨less, rfl, rfl⟩
  · cases more with
    | nil => simp at longer
    | cons c more => exact ⟨c, more, rfl, rfl⟩
  · rw [utf8Length_append] at longer
    omega

/-- A start is the longest with a property if every one that goes on behind it fails. -/
theorem longestStart_of_split {property : String → Prop} {text start : String} {tail : List Char}
    (split : text.toList = start.toList ++ tail) (holds : property start)
    (fails : ∀ (other : String) (c : Char) (more rest : List Char),
      other.toList = start.toList ++ c :: more → tail = c :: (more ++ rest) → ¬ property other) :
    LongestStart property text start where
  starts := ⟨.ofList tail, String.toList_inj.mp (by simp [split])⟩
  holds := holds
  longest := by
    rintro other rest rfl found
    apply Nat.le_of_not_lt
    intro longer
    rw [String.toList_append] at split
    rw [← utf8Length_toList, ← utf8Length_toList] at longer
    obtain ⟨c, more, goesOn, behind⟩ := exists_cons_of_longer split.symm longer
    exact fails other c more rest.toList goesOn behind found

end Metasyntax
