import Metasyntax.Proofs.Built

/-! A rule is read exactly where one is written. Everywhere else nothing is read, and
of all that the parser has looked for on its way the first token that is missing
is remembered. -/
namespace Metasyntax

theorem Parser.rule_matched_iff {s : State} {text : List Char} (ahead : s.ahead? = some text) :
    (∃ (t : State) (rule : Rule), Parser.rule s = .matched t rule) ↔
      ∃ (written : WrittenRule) (rest : List Char), text = written.text ++ rest := by
  constructor
  · rintro ⟨t, rule, matched⟩
    rcases exists_rule text with found | ⟨broken, rest, rfl, breaks⟩
    · exact found
    · obtain ⟨u, failed, -⟩ := rule_of_broken ahead breaks
      cases matched.symm.trans failed
  · rintro ⟨written, rest, rfl⟩
    obtain ⟨t, matched, -⟩ := rule_of_written ahead
    exact ⟨t, written.rule, matched⟩

theorem not_written_iff_broken (text : List Char) :
    (¬ ∃ (written : WrittenRule) (rest : List Char), text = written.text ++ rest) ↔
      ∃ (broken : BrokenRule) (rest : List Char), text = broken.text ++ rest ∧
        broken.BreaksAt rest := by
  constructor
  · intro none
    rcases exists_rule text with found | broken
    · exact absurd found none
    · exact broken
  · rintro ⟨broken, rest, split, breaks⟩ ⟨written, tail, same⟩
    exact Parser.written_ne_broken breaks (same.symm.trans split)

/-- **A rule is read whole, or its first missing token is remembered.** At a boundary
the parser of rules matches exactly if the text ahead starts with a written rule. There is
only one, and the parser stops behind it with its two names. Otherwise the text is that of
a rule that breaks off: with every token taken as far as it goes, the next one is
missing. The place then stays, and of the failure at the missing token and the one from
before the one further ahead is left, or the newer of two at one offset. -/
theorem rule_read_or_missing_token_remembered (s : State) (aligned : s.place.Aligned) :
    ∃ text : List Char, s.ahead? = some text ∧
      ((∃ (t : State) (rule : Rule), Parser.rule s = .matched t rule) ↔
        ∃ (written : WrittenRule) (rest : List Char), text = written.text ++ rest) ∧
      (∀ (written : WrittenRule) (rest : List Char), text = written.text ++ rest →
        (∃ t, Parser.rule s = .matched t written.rule ∧ t.source = s.source ∧
          t.pos = s.pos + utf8Length written.text ∧ t.ahead? = some rest) ∧
        ∀ (other : WrittenRule) (tail : List Char), text = other.text ++ tail →
          other = written ∧ tail = rest) ∧
      ((¬ ∃ (written : WrittenRule) (rest : List Char), text = written.text ++ rest) ↔
        ∃ (broken : BrokenRule) (rest : List Char), text = broken.text ++ rest ∧
          broken.BreaksAt rest) ∧
      ∀ (broken : BrokenRule) (rest : List Char), text = broken.text ++ rest →
        broken.BreaksAt rest →
        ∃ t, Parser.rule s = .failed t ∧ t.place = s.place ∧
          t.furthest = some (Failure.merge s.furthest
            ⟨s.pos + utf8Length broken.text, broken.label⟩) := by
  obtain ⟨text, ahead⟩ := aligned.ahead
  refine ⟨text, ahead, Parser.rule_matched_iff ahead, ?_, not_written_iff_broken text, ?_⟩
  · rintro written rest rfl
    constructor
    · obtain ⟨t, matched, reads⟩ := Parser.rule_of_written ahead
      exact ⟨t, matched, reads.source, reads.pos, reads.ahead⟩
    · intro other tail same
      exact WrittenRule.append_inj same.symm
  · rintro broken rest rfl breaks
    obtain ⟨t, failed, drops⟩ := Parser.rule_of_broken ahead breaks
    exact ⟨t, failed, drops.place, drops.furthest⟩

/-- Behind a character of two bytes, a rule with more text after it, and one whose end is
missing where an older failure is remembered. -/
theorem whole_rule_and_rule_without_end :
    let s : State := ⟨.jump (.ofString "éa=b;c") 2, some ⟨6, "older"⟩, []⟩
    let u : State := ⟨.jump (.ofString "éa = b , c ;") 2, some ⟨8, "older"⟩, []⟩
    s.place.Aligned ∧ u.place.Aligned ∧
      (∃ t, Parser.rule s = .matched t ⟨⟨"a"⟩, ⟨"b"⟩⟩ ∧ t.pos = 6 ∧ t.ahead? = some ['c']) ∧
      ∃ t, Parser.rule u = .failed t ∧ t.place = u.place ∧ t.furthest = some ⟨8, "';'"⟩ := by
  intro s u
  let a : Name := .ofChars ['a'] (by decide)
  let b : Name := .ofChars ['b'] (by decide)
  have aligned : s.place.Aligned := ⟨['é'], "a=b;c".toList, rfl, rfl⟩
  have behind : u.place.Aligned := ⟨['é'], "a = b , c ;".toList, rfl, rfl⟩
  refine ⟨aligned, behind, ?_, ?_⟩
  · obtain ⟨text, ahead, -, whole, -⟩ := rule_read_or_missing_token_remembered s aligned
    let written : WrittenRule := ⟨a, .none, .none, b, .none⟩
    have here : s.ahead? = some (written.text ++ ['c']) := by decide +kernel
    obtain ⟨⟨t, matched, -, pos, rest⟩, -⟩ :=
      whole written ['c'] (Option.some.inj (ahead.symm.trans here))
    have stop : s.pos + utf8Length written.text = 6 := by decide +kernel
    exact ⟨t, matched, pos.trans stop, rest⟩
  · obtain ⟨text, ahead, -, -, -, missing⟩ := rule_read_or_missing_token_remembered u behind
    let blank : Blank := ⟨[' '], List.forall_mem_singleton.mpr (by decide)⟩
    let broken : BrokenRule := .noEnd a blank blank b blank
    have here : u.ahead? = some (broken.text ++ ", c ;".toList) := by decide +kernel
    have newer : Failure.merge u.furthest ⟨u.pos + utf8Length broken.text, broken.label⟩ =
        ⟨8, "';'"⟩ := by decide +kernel
    obtain ⟨t, failed, place, furthest⟩ :=
      missing broken _ (Option.some.inj (ahead.symm.trans here)) ⟨rfl, rfl, rfl⟩
    rw [newer] at furthest
    exact ⟨t, failed, place, furthest⟩

end Metasyntax
