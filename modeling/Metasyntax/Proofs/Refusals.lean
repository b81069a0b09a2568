import Metasyntax.Proofs.SourceText

/-! Why an item is not expanded. The reasons are looked for in a fixed order, from the
attributes over the text they give to the names of its rules, and the first is the error.
What is wrong behind it does not matter. -/
namespace Metasyntax

/-! ## The reasons -/

/-- Why an attribute gives no source. The path of a file that cannot be read is the one
that is joined to the root, or to the dot if there is none. -/
inductive Attribute.RefusedFor (attr : Attribute) (surroundings : Surroundings) :
    ExpansionError → Prop
  | malformed {fault : BodyFault} (body : attr.assigned? = .error fault) :
      attr.RefusedFor surroundings (.malformedBody fault)
  | noValue (body : attr.assigned? = .ok none) : attr.RefusedFor surroundings .noValue
  | notString {spelling : String} (body : attr.assigned? = .ok (some ⟨spelling, none⟩)) :
      attr.RefusedFor surroundings .notString
  | unreadable {spelling value path : String} {fault : ReadFault}
      (named : attr.name? = some fileAttribute)
      (body : attr.assigned? = .ok (some ⟨spelling, some value⟩))
      (joined : Joined (surroundings.root.getD ".") value path)
      (reads : surroundings.tree.read path = .error fault) :
      attr.RefusedFor surroundings (.unreadable path fault)

/-- Why an item is not expanded. -/
inductive Item.RefusedFor (item : Item) (surroundings : Surroundings) : ExpansionError → Prop
  | missing (none : item.sources = []) : item.RefusedFor surroundings .missingSource
  | several (several : 2 ≤ item.sources.length) : item.RefusedFor surroundings .multipleSources
  | unusable {attr : Attribute} {error : ExpansionError} (only : item.sources = [attr])
      (refused : attr.RefusedFor surroundings error) : item.RefusedFor surroundings error
  | text {attr : Attribute} {source : GrammarSource} {error : ExpansionError}
      (only : item.sources = [attr]) (gives : attr.Gives surroundings source)
      (refused : TextRefusedFor source.text error) : item.RefusedFor surroundings error

/-! ## Attributes and texts -/

section
variable {attr : Attribute} {surroundings : Surroundings} {error : ExpansionError}

theorem Attribute.refused_of_grammarSource
    (refused : attr.grammarSource surroundings = .error error) :
    attr.RefusedFor surroundings error := by
  unfold Attribute.grammarSource at refused
  split at refused
  · rename_i fault body
    cases refused
    exact .malformed body
  · rename_i body
    cases refused
    exact .noValue body
  · rename_i body
    cases refused
    exact .notString body
  · rename_i body
    split at refused
    · rename_i named
      simp only at refused
      split at refused
      · cases refused
      · rename_i reads
        cases refused
        exact .unreadable named body (Surroundings.resolve_eq_iff.mp rfl) reads
    · cases refused

theorem Attribute.RefusedFor.grammarSource (refused : attr.RefusedFor surroundings error) :
    attr.grammarSource surroundings = .error error := by
  cases refused with
  | malformed body | noValue body | notString body => simp only [Attribute.grammarSource, body]
  | unreadable named body joined reads =>
    have resolved := Surroundings.resolve_eq_iff.mpr joined
    simp only [Attribute.grammarSource, body, if_pos named, resolved, reads]

end

theorem variantsOf_eq_error_iff {text : String} {error : ExpansionError} :
    variantsOf text = .error error ↔ TextRefusedFor text error := by
  constructor
  · intro failed
    rcases variantsOf_ok_or_error text with ⟨-, variants, -, -, whole, -⟩ | ⟨fault, fails, refused⟩
    · cases whole.symm.trans failed
    · cases fails.symm.trans failed
      exact refused
  · intro refused
    cases refused with
    | grammar rejected => exact variantsOf_of_rejected rejected
    | reserved accepted first => rw [variantsOf_of_accepted accepted, Grammar.variants_eq, first]

theorem variantsOf_eq_ok_iff {text : String} :
    (∃ variants, variantsOf text = .ok variants) ↔ ∃ grammar, Grammar.parse text = .ok grammar ∧
      ∀ rule ∈ grammar.rules, rule.lhs.name ∉ reservedNames := by
  constructor
  · rintro ⟨variants, whole⟩
    cases parsed : Grammar.parse text with
    | error fault => cases (variantsOf_of_rejected parsed).symm.trans whole
    | ok grammar =>
      rw [variantsOf_of_accepted parsed] at whole
      rcases grammar.variants_ok_or_error with ⟨-, -, free⟩ | ⟨rule, -, fails⟩
      · exact ⟨grammar, rfl, free⟩
      · cases fails.symm.trans whole
  · rintro ⟨grammar, accepted, free⟩
    have none : grammar.rules.find? (fun rule => rule.lhs.name ∈ reservedNames) = none :=
      List.find?_eq_none.mpr fun rule member reserved =>
        free rule member (of_decide_eq_true reserved)
    refine ⟨grammar.spelledVariants (reservedNames ++ keywords), ?_⟩
    rw [variantsOf_of_accepted accepted, Grammar.variants_eq, none]

/-! ## Items -/

section
variable {item : Item} {surroundings : Surroundings}

theorem Item.refused_of_grammarSource {error : ExpansionError}
    (failed : item.grammarSource surroundings = .error error) :
    item.RefusedFor surroundings error := by
  rcases item.sources_cases with none | ⟨attr, only⟩ | several
  · cases (grammarSource_of_none none).symm.trans failed
    exact .missing none
  · rw [grammarSource_of_only only] at failed
    exact .unusable only (Attribute.refused_of_grammarSource failed)
  · cases (grammarSource_of_several several).symm.trans failed
    exact .several several

theorem expand_eq_error_iff {error : ExpansionError} :
    expand item surroundings = .error error ↔ item.RefusedFor surroundings error := by
  constructor
  · intro failed
    cases given : item.grammarSource surroundings with
    | error fault =>
      cases (expand_of_no_source given).symm.trans failed
      exact Item.refused_of_grammarSource given
    | ok source =>
      obtain ⟨attr, only, gives⟩ := Item.gives_of_grammarSource given
      rw [expand_of_source given] at failed
      cases whole : variantsOf source.text with
      | error fault =>
        rw [whole] at failed
        cases failed
        exact .text only gives (variantsOf_eq_error_iff.mp whole)
      | ok variants =>
        rw [whole] at failed
        cases failed
  · intro refused
    cases refused with
    | missing none => exact expand_of_no_source (Item.grammarSource_of_none none)
    | several several => exact expand_of_no_source (Item.grammarSource_of_several several)
    | unusable only refused =>
      exact expand_of_no_source ((Item.grammarSource_of_only only).trans refused.grammarSource)
    | text only gives refused =>
      have given := (Item.grammarSource_of_only only).trans gives.grammarSource
      rw [expand_of_source given, variantsOf_eq_error_iff.mpr refused]
      rfl

/-- The errors that have no kind of their own. -/
def ExpansionError.IsOther : ExpansionError → Prop
  | .malformedBody _ | .noValue | .other _ => True
  | _ => False

theorem expand_eq_other_iff {attr : Attribute} (only : item.sources = [attr]) :
    (∃ error : ExpansionError, error.IsOther ∧ expand item surroundings = .error error) ↔
      ¬ ∃ value, attr.assigned? = .ok (some value) := by
  constructor
  · rintro ⟨error, other, failed⟩ ⟨value, assigned⟩
    -- With a value assigned, every reason that is left has an error of its own kind.
    cases expand_eq_error_iff.mp failed with
    | missing | several => exact other
    | unusable same refused =>
      cases only.symm.trans same
      cases refused with
      | malformed body | noValue body => cases assigned.symm.trans body
      | notString | unreadable => exact other
    | text _ _ refused => cases refused <;> exact other
  · intro none
    cases body : attr.assigned? with
    | error fault =>
      have refused : item.RefusedFor surroundings (.malformedBody fault) :=
        .unusable only (.malformed body)
      exact ⟨.malformedBody fault, trivial, expand_eq_error_iff.mpr refused⟩
    | ok value =>
      cases value with
      | none =>
        have refused : item.RefusedFor surroundings .noValue := .unusable only (.noValue body)
        exact ⟨.noValue, trivial, expand_eq_error_iff.mpr refused⟩
      | some value => exact absurd ⟨value, body⟩ none

theorem expand_eq_unreadable_iff {attr : Attribute} {spelling value path : String}
    (only : item.sources = [attr]) (named : attr.name? = some fileAttribute)
    (body : attr.assigned? = .ok (some ⟨spelling, some value⟩))
    (joined : Joined (surroundings.root.getD ".") value path) :
    (∃ fault, expand item surroundings = .error (.unreadable path fault)) ↔
      ¬ ∃ text, surroundings.tree.Holds surroundings.tree.current path text := by
  constructor
  · rintro ⟨fault, failed⟩ ⟨text, holds⟩
    cases expand_eq_error_iff.mp failed with
    | unusable _ refused =>
      cases refused with
      | unreadable _ _ _ reads => cases (FileTree.read_eq_ok_iff.mpr holds).symm.trans reads
    | text _ _ refused => cases refused
  · intro none
    cases reads : surroundings.tree.read path with
    | error fault =>
      exact ⟨fault, expand_eq_error_iff.mpr (.unusable only (.unreadable named body joined reads))⟩
    | ok text => exact absurd ⟨text, FileTree.read_eq_ok_iff.mp reads⟩ none

theorem expand_eq_ok_iff :
    (∃ expansion, expand item surroundings = .ok expansion) ↔
      ∃ attr source, item.sources = [attr] ∧ attr.Gives surroundings source ∧
        ∃ grammar, Grammar.parse source.text = .ok grammar ∧
          ∀ rule ∈ grammar.rules, rule.lhs.name ∉ reservedNames := by
  constructor
  · rintro ⟨expansion, expanded⟩
    cases given : item.grammarSource surroundings with
    | error error => cases (expand_of_no_source given).symm.trans expanded
    | ok source =>
      obtain ⟨attr, only, gives⟩ := Item.gives_of_grammarSource given
      rw [expand_of_source given] at expanded
      cases whole : variantsOf source.text with
      | error error =>
        rw [whole] at expanded
        cases expanded
      | ok variants => exact ⟨attr, source, only, gives, variantsOf_eq_ok_iff.mp ⟨variants, whole⟩⟩
  · rintro ⟨attr, source, only, gives, accepted⟩
    obtain ⟨variants, whole⟩ := variantsOf_eq_ok_iff.mpr accepted
    refine ⟨⟨variants, item, source⟩, ?_⟩
    rw [expand_of_source ((Item.grammarSource_of_only only).trans gives.grammarSource), whole]
    rfl

/-- Attributes that give no grammar are not looked at. -/
theorem expand_of_same_sources {others : List Attribute}
    (same : Item.sources { item with attributes := others } = item.sources) :
    (expand { item with attributes := others } surroundings).map Expansion.trees =
      (expand item surroundings).map Expansion.trees := by
  have alike : Item.grammarSource { item with attributes := others } surroundings =
      item.grammarSource surroundings := by
    rw [Item.sources, Item.sources] at same
    simp only [Item.grammarSource, same]
  cases given : item.grammarSource surroundings with
  | error error => rw [expand_of_no_source given, expand_of_no_source (alike.trans given)]
  | ok source =>
    rw [expand_of_source given, expand_of_source (alike.trans given)]
    cases variantsOf source.text <;> rfl

theorem Attribute.grammarSource_of_inPlace {attr : Attribute}
    (named : attr.name? = some inPlaceAttribute) (other : Surroundings) :
    attr.grammarSource surroundings = attr.grammarSource other := by
  have noFile : ¬ attr.name? = some fileAttribute := by
    rw [named]
    decide
  simp only [Attribute.grammarSource, if_neg noFile]

/-- A text in the item needs no files. -/
theorem expand_of_inPlace (inPlace : ∀ attr ∈ item.sources, attr.name? = some inPlaceAttribute)
    (other : Surroundings) : expand item surroundings = expand item other := by
  have alike : item.grammarSource surroundings = item.grammarSource other := by
    rcases item.sources_cases with none | ⟨attr, only⟩ | several
    · rw [Item.grammarSource_of_none none, Item.grammarSource_of_none none]
    · have named := inPlace attr (only ▸ List.mem_cons_self)
      rw [Item.grammarSource_of_only only, Item.grammarSource_of_only only,
        Attribute.grammarSource_of_inPlace named]
    · rw [Item.grammarSource_of_several several, Item.grammarSource_of_several several]
  rw [expand, alike]
  rfl

end

/-- **The first reason is the error.** An item is refused because no attribute of it gives a
grammar, or several do; because the one that does has no body of the right form, assigns
nothing or something else than a text, or names a file of which no text can be read, which
is looked for from the root on; because the text is no grammar; or because of the first of
its rules whose name is reserved. It is expanded exactly if none of this holds, whatever
stands on the right sides of rules. Attributes that give no grammar may be added, left out
or moved, and for a text in the item files do not matter. -/
theorem expansion_fails_for_the_first_reason (item : Item) (surroundings : Surroundings) :
    (∀ error, expand item surroundings = .error error ↔ item.RefusedFor surroundings error) ∧
    (∀ attr, item.sources = [attr] →
      ((∃ error : ExpansionError, error.IsOther ∧ expand item surroundings = .error error) ↔
        ¬ ∃ value, attr.assigned? = .ok (some value))) ∧
    (∀ attr spelling value path, item.sources = [attr] → attr.name? = some fileAttribute →
      attr.assigned? = .ok (some ⟨spelling, some value⟩) →
      Joined (surroundings.root.getD ".") value path →
      ((∃ fault, expand item surroundings = .error (.unreadable path fault)) ↔
        ¬ ∃ text, surroundings.tree.Holds surroundings.tree.current path text)) ∧
    ((∃ expansion, expand item surroundings = .ok expansion) ↔
      ∃ attr source, item.sources = [attr] ∧ attr.Gives surroundings source ∧
        ∃ grammar, Grammar.parse source.text = .ok grammar ∧
          ∀ rule ∈ grammar.rules, rule.lhs.name ∉ reservedNames) ∧
    (∀ others : List Attribute,
      others.filter Attribute.givesGrammar = item.attributes.filter Attribute.givesGrammar →
      (expand { item with attributes := others } surroundings).map Expansion.trees =
        (expand item surroundings).map Expansion.trees) ∧
    ((∀ attr ∈ item.sources, attr.name? = some inPlaceAttribute) →
      ∀ other : Surroundings, expand item other = expand item surroundings) :=
  ⟨fun _ => expand_eq_error_iff, fun _ => expand_eq_other_iff,
    fun _ _ _ _ => expand_eq_unreadable_iff, expand_eq_ok_iff, fun _ => expand_of_same_sources,
    fun inPlace _ => expand_of_inPlace inPlace _⟩

/-- A reserved name on a right side in front of two that are defined, the same behind an
attribute that gives no grammar; one that gives a list, and one that gives a number; a file
that is not there, one that is no text, and one that is expanded. -/
theorem first_reserved_name_refused :
    let remark : Attribute := ⟨[.word "doc"], assignment "Rules."⟩
    let assigned : Attribute :=
      ⟨[.word "ebnf_inline"], assignment "a = self ; super = b ; crate = c ;"⟩
    let listed : Attribute := ⟨[.word "ebnf_file"], [.group .parenthesis []]⟩
    let number : Attribute := ⟨[.word "ebnf_file"], [.point '=', .literal ⟨"3", none⟩]⟩
    let included (value : String) : Attribute := ⟨[.word "ebnf_file"], assignment value⟩
    let item : Item := ⟨[remark, assigned], "Dummy", [], []⟩
    let only (attr : Attribute) : Item := { item with attributes := [attr] }
    let tree := (FileTree.bare ["home", "proj"]).insertAll
      [("g.ebnf", "a = b ;".toUTF8), ("cut", ⟨#[0xC3]⟩)]
    let here : Surroundings := ⟨none, .empty⟩
    let there : Surroundings := ⟨some "/home/proj", tree⟩
    expand item here = .error (.reservedName "super") ∧
      (expand { item with attributes := [assigned, remark] } here).map Expansion.trees =
        (expand item here).map Expansion.trees ∧
      expand item there = expand item here ∧
      (∃ error : ExpansionError, error.IsOther ∧ expand (only listed) there = .error error) ∧
      expand (only number) there = .error .notString ∧
      expand (only (included "h.ebnf")) here = .error (.unreadable "./h.ebnf" .noSuchFile) ∧
      expand (only (included "/home/h.ebnf")) there =
        .error (.unreadable "/home/h.ebnf" .noSuchFile) ∧
      (∃ fault, expand (only (included "cut")) there =
        .error (.unreadable "/home/proj/cut" fault)) ∧
      ∃ expansion, expand (only (included "g.ebnf")) there = .ok expansion ∧
        expansion.source = .file "/home/proj/g.ebnf" "a = b ;" := by
  intro remark assigned listed number included item only tree here there
  have grammar : Grammar.parse "a = self ; super = b ; crate = c ;" =
      .ok ⟨[⟨⟨"a"⟩, ⟨"self"⟩⟩, ⟨⟨"super"⟩, ⟨"b"⟩⟩, ⟨⟨"crate"⟩, ⟨"c"⟩⟩]⟩ := by decide +kernel
  have sources : item.sources = [assigned] := rfl
  have gives : assigned.Gives here (.inPlace "a = self ; super = b ; crate = c ;") :=
    .inPlace rfl rfl
  obtain ⟨errors, -, -, -, others, inPlace⟩ := expansion_fails_for_the_first_reason item here
  refine ⟨?_, ?_, ?_, ?_, ?_, ?_, ?_, ?_, ?_⟩
  · exact (errors _).mpr (.text sources gives (.reserved grammar rfl))
  · exact others [assigned, remark] rfl
  · apply inPlace
    intro attr member
    rw [sources, List.mem_singleton] at member
    rw [member]
    rfl
  · obtain ⟨-, other, -⟩ := expansion_fails_for_the_first_reason (only listed) there
    apply (other listed rfl).mpr
    rintro ⟨value, body⟩
    cases body
  · obtain ⟨errors, -⟩ := expansion_fails_for_the_first_reason (only number) there
    exact (errors _).mpr (.unusable rfl (.notString rfl))
  · have path : here.resolve "h.ebnf" = "./h.ebnf" := by decide +kernel
    have reads : here.tree.read "./h.ebnf" = .error .noSuchFile := by decide +kernel
    obtain ⟨errors, -⟩ := expansion_fails_for_the_first_reason (only (included "h.ebnf")) here
    have joined := Surroundings.resolve_eq_iff.mp path
    exact (errors _).mpr (.unusable rfl (.unreadable rfl rfl joined reads))
  · have path : there.resolve "/home/h.ebnf" = "/home/h.ebnf" := by decide +kernel
    have reads : there.tree.read "/home/h.ebnf" = .error .noSuchFile := by decide +kernel
    obtain ⟨errors, -⟩ :=
      expansion_fails_for_the_first_reason (only (included "/home/h.ebnf")) there
    have joined := Surroundings.resolve_eq_iff.mp path
    exact (errors _).mpr (.unusable rfl (.unreadable rfl rfl joined reads))
  · have path : there.resolve "cut" = "/home/proj/cut" := by decide +kernel
    have reads : there.tree.read "/home/proj/cut" = .error .notText := by decide +kernel
    obtain ⟨-, -, unreadable, -⟩ :=
      expansion_fails_for_the_first_reason (only (included "cut")) there
    apply (unreadable _ _ "cut" _ rfl rfl rfl (Surroundings.resolve_eq_iff.mp path)).mpr
    rintro ⟨text, holds⟩
    cases reads.symm.trans (FileTree.read_eq_ok_iff.mpr holds)
  · have path : there.resolve "g.ebnf" = "/home/proj/g.ebnf" := by decide +kernel
    have reads : there.tree.read "/home/proj/g.ebnf" = .ok "a = b ;" := by decide +kernel
    have found : (included "g.ebnf").Gives there (.file "/home/proj/g.ebnf" "a = b ;") :=
      Attribute.gives_file rfl rfl path reads
    have accepted : Grammar.parse "a = b ;" = .ok ⟨[⟨⟨"a"⟩, ⟨"b"⟩⟩]⟩ := by decide +kernel
    obtain ⟨-, -, -, expanded, -⟩ :=
      expansion_fails_for_the_first_reason (only (included "g.ebnf")) there
    obtain ⟨expansion, given⟩ :=
      expanded.mpr ⟨_, _, rfl, found, _, accepted, by decide +kernel⟩
    have source := (parts_of_expand given).1.symm.trans found.grammarSource
    exact ⟨expansion, given, Except.ok.inj source⟩

end Metasyntax
