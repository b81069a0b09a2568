import Mathlib.Data.List.Basic
import Metasyntax.Proofs.Acceptance

/-! What is rendered is read again, and what is read is rendered but for its
white space. -/
namespace Metasyntax

/-! ## Rendered texts are written ones -/

def Blank.of (c : Char) (space : isSpace c = true) : Blank :=
  ⟨[c], fun _ member => List.mem_singleton.mp member ▸ space⟩

/-- A rule as it is rendered. -/
def WrittenRule.spaced (left right : Name) : WrittenRule :=
  ⟨left, .of ' ' (by decide), .of ' ' (by decide), right, .of ' ' (by decide)⟩

theorem WrittenRule.text_spaced (left right : Name) :
    (spaced left right).text = (Rule.render ⟨left.identifier, right.identifier⟩).toList := by
  simp [spaced, text, Blank.of, Rule.render, Identifier.render, Name.chars]

theorem Grammar.toList_render (grammar : Grammar) :
    grammar.render.toList = grammar.rules.flatMap fun rule => rule.render.toList ++ ['\n'] := by
  simp [render, String.toList_join, List.flatMap_map]

theorem Rule.exists_written {rule : Rule} (valid : rule.Valid) :
    ∃ written : WrittenRule, written.text = rule.render.toList ∧ written.rule = rule :=
  ⟨.spaced ⟨rule.lhs, valid.1⟩ ⟨rule.rhs, valid.2⟩, WrittenRule.text_spaced _ _, rfl⟩

theorem Grammar.exists_written {grammar : Grammar} (valid : grammar.Valid) :
    ∃ rules : List (WrittenRule × Blank), (WrittenGrammar.mk .none rules).text =
      grammar.render.toList ∧ (WrittenGrammar.mk .none rules).grammar = grammar := by
  obtain ⟨rules⟩ := grammar
  induction rules with
  | nil => exact ⟨[], rfl, rfl⟩
  | cons rule rules ih =>
    obtain ⟨first, text, same⟩ := Rule.exists_written (valid rule List.mem_cons_self)
    obtain ⟨later, texts, others⟩ :=
      ih fun other member => valid other (List.mem_cons_of_mem rule member)
    refine ⟨(first, .of '\n' (by decide)) :: later, ?_, ?_⟩
    · rw [toList_render, List.flatMap_cons, ← text]
      rw [toList_render] at texts
      rw [← texts]
      simp [WrittenGrammar.text, Blank.none, Blank.of]
    · have tail : (WrittenGrammar.mk .none later).grammar.rules = rules :=
        congrArg Grammar.rules others
      simp only [WrittenGrammar.grammar] at tail
      simp [WrittenGrammar.grammar, same, tail]

/-! ## White space left out -/

/-- A rule without any white space. -/
def Rule.solid (rule : Rule) : List Char :=
  rule.lhs.name.toList ++ '=' :: (rule.rhs.name.toList ++ [';'])

theorem Name.filter_chars {keeps : Char → Bool} (h : ∀ c, isWordChar c = true → keeps c = true)
    (name : Name) : name.chars.filter keeps = name.chars :=
  List.filter_eq_self.mpr fun c member => h c (name.isWordChar_of_mem member)

theorem Blank.filter_chars (blank : Blank) : (blank.chars.filter fun c => !isSpace c) = [] :=
  List.filter_eq_nil_iff.mpr fun c member => by simp [blank.spaces c member]

theorem WrittenRule.filter_text (written : WrittenRule) :
    (written.text.filter fun c => !isSpace c) = written.rule.solid := by
  have names (name : Name) : (name.chars.filter fun c => !isSpace c) = name.chars :=
    name.filter_chars fun c word => by simp [isSpace_of_isWordChar word]
  have equals : isSpace '=' = false := Symbol.isSpace_char .definition
  have ends : isSpace ';' = false := Symbol.isSpace_char .termination
  have solid : written.rule.solid =
      written.left.chars ++ '=' :: (written.right.chars ++ [';']) := rfl
  rw [solid]
  simp [text, names, Blank.filter_chars, equals, ends]

theorem WrittenGrammar.filter_text (written : WrittenGrammar) :
    (written.text.filter fun c => !isSpace c) = written.grammar.rules.flatMap Rule.solid := by
  simp only [text, List.filter_append, List.filter_flatMap, Blank.filter_chars,
    WrittenRule.filter_text, grammar, List.flatMap_map, List.append_nil, List.nil_append]

theorem WrittenGrammar.valid (written : WrittenGrammar) : written.grammar.Valid := by
  intro rule member
  obtain ⟨⟨first, _⟩, -, rfl⟩ := List.mem_map.mp member
  exact ⟨first.left.valid, first.right.valid⟩

theorem Rule.filter_render {rule : Rule} (valid : rule.Valid) :
    (rule.render.toList.filter fun c => c != ' ' && c != '\n') = rule.solid := by
  have names (name : Name) : (name.chars.filter fun c => c != ' ' && c != '\n') = name.chars := by
    apply name.filter_chars
    intro c word
    obtain ⟨low, -⟩ := toNat_of_isWordChar word
    simp only [Bool.and_eq_true, bne_iff_ne]
    constructor <;> rintro rfl <;> exact absurd low (by decide)
  have left := names ⟨rule.lhs, valid.1⟩
  have right := names ⟨rule.rhs, valid.2⟩
  simp only [Name.chars] at left right
  simp [render, Identifier.render, solid, left, right]

theorem Grammar.filter_render {grammar : Grammar} (valid : grammar.Valid) :
    (grammar.render.toList.filter fun c => c != ' ' && c != '\n') =
      grammar.rules.flatMap Rule.solid := by
  rw [toList_render, List.filter_flatMap]
  apply List.flatMap_congr
  intro rule member
  rw [List.filter_append, Rule.filter_render (valid rule member)]
  simp

theorem Identifier.parse_render {identifier : Identifier} (valid : identifier.Valid) :
    Identifier.parse identifier.render = .ok identifier := by
  have ahead := State.start_ahead (.ofString identifier.render)
  have chars : (Source.ofString identifier.render).chars =
      (Name.mk identifier valid).chars ++ [] := (List.append_nil _).symm
  rw [chars] at ahead
  obtain ⟨t, matched, reads, -⟩ := Parser.identifier_of_name ahead trivial
  exact Parser.readAll_of_matched matched reads

theorem Rule.parse_render {rule : Rule} (valid : rule.Valid) :
    Rule.parse rule.render = .ok rule := by
  obtain ⟨written, text, rfl⟩ := Rule.exists_written valid
  have alone : written.rule.render.toList =
      Blank.none.chars ++ (written.text ++ Blank.none.chars) := by
    rw [text, Blank.none, List.append_nil]
    rfl
  exact Rule.parse_of_written alone

theorem Grammar.parse_render {grammar : Grammar} (valid : grammar.Valid) :
    Grammar.parse grammar.render = .ok grammar := by
  obtain ⟨rules, text, same⟩ := Grammar.exists_written valid
  rw [Grammar.parse_of_written text.symm, same]

/-- **Writing and reading are inverse up to white space.** Every valid identifier,
rule and grammar is read from what it is rendered as. An accepted text and the
rendered grammar differ only in white space. -/
theorem render_and_parse_inverse :
    (∀ identifier : Identifier, identifier.Valid →
      Identifier.parse identifier.render = .ok identifier) ∧
    (∀ rule : Rule, rule.Valid → Rule.parse rule.render = .ok rule) ∧
    (∀ grammar : Grammar, grammar.Valid → Grammar.parse grammar.render = .ok grammar) ∧
    ∀ (text : String) (grammar : Grammar), Grammar.parse text = .ok grammar →
      (text.toList.filter fun c => !isSpace c) =
        grammar.render.toList.filter fun c => c != ' ' && c != '\n' := by
  refine ⟨fun _ => Identifier.parse_render, fun _ => Rule.parse_render,
    fun _ => Grammar.parse_render, ?_⟩
  intro text grammar accepted
  obtain ⟨written, whole, rfl⟩ := Grammar.parse_eq_ok_iff.mp accepted
  rw [← whole, WrittenGrammar.filter_text, Grammar.filter_render written.valid]

theorem two_rules_render_and_parse :
    let left : Rule := ⟨⟨"a"⟩, ⟨"b_1"⟩⟩
    let right : Rule := ⟨⟨"Cd"⟩, ⟨"a"⟩⟩
    (left.lhs.Valid ∧ Identifier.parse left.lhs.render = .ok left.lhs) ∧
    (left.Valid ∧ Rule.parse left.render = .ok left) ∧
    ((Grammar.mk [left, right]).Valid ∧
      Grammar.parse (Grammar.mk [left, right]).render = .ok ⟨[left, right]⟩) ∧
    Grammar.parse "\uFEFFa=b_1;\nCd\t= a ;" = .ok ⟨[left, right]⟩ ∧
      ("\uFEFFa=b_1;\nCd\t= a ;".toList.filter fun c => !isSpace c) =
        (Grammar.mk [left, right]).render.toList.filter fun c => c != ' ' && c != '\n' := by
  intro left right
  have accepted : Grammar.parse "\uFEFFa=b_1;\nCd\t= a ;" = .ok ⟨[left, right]⟩ := by
    decide +kernel
  obtain ⟨identifiers, rules, grammars, texts⟩ := render_and_parse_inverse
  exact ⟨⟨by decide, identifiers _ (by decide)⟩, ⟨by decide, rules _ (by decide)⟩,
    ⟨by decide, grammars _ (by decide)⟩, accepted, texts _ _ accepted⟩

end Metasyntax
