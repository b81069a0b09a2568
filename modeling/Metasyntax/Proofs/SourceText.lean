import Metasyntax.Proofs.Files
import Metasyntax.Proofs.RuleTables

/-! The text that the constant of an expansion stands for is the text that its
enumeration describes, unless it is included by a relative path: that path is read where
the program text lies, and so may lead to another file than the one that was read. Where
the text is kept, in the item or in a file, is told by nothing but what the constant is
set to. -/
namespace Metasyntax

/-! ## Sources -/

/-- What an attribute gives: the text it assigns, or that of the file at the path it
assigns, joined to the root, or to the dot if there is none. -/
inductive Attribute.Gives (attr : Attribute) (surroundings : Surroundings) : GrammarSource → Prop
  | inPlace {spelling text : String} (named : attr.name? = some inPlaceAttribute)
      (assigned : attr.assigned? = .ok (some ⟨spelling, some text⟩)) :
      attr.Gives surroundings (.inPlace text)
  | file {spelling value path text : String} (named : attr.name? = some fileAttribute)
      (assigned : attr.assigned? = .ok (some ⟨spelling, some value⟩))
      (joined : Joined (surroundings.root.getD ".") value path)
      (holds : surroundings.tree.Holds surroundings.tree.current path text) :
      attr.Gives surroundings (.file path text)

theorem Surroundings.resolve_eq_iff {surroundings : Surroundings} {value path : String} :
    surroundings.resolve value = path ↔ Joined (surroundings.root.getD ".") value path :=
  joinPath_eq_iff

/-- What a constant is set to: a text, or the text of the file at a path. -/
inductive SourceValue where
  | literal (text : String)
  | included (path : String)
  deriving DecidableEq

def SourceValue.read? : List Tree → Option SourceValue
  | [.literal value] => value.value?.map .literal
  | [.word "include_str", .mark '!' _, .group .parenthesis [.literal value]] =>
    value.value?.map .included
  | _ => none

/-- The text that a value stands for in a program text. Relative paths start at the
directory in which the program text lies. -/
def SourceValue.text? (tree : FileTree) (directory : List String) : SourceValue → Option String
  | .literal text => some text
  | .included path => (tree.readFrom directory path).toOption

/-- What the constant in the last block of a program text is set to. -/
def sourceValue? (trees : List Tree) : Option SourceValue :=
  match trees.getLast? with
  | some (.group .brace body) => (constantValue? "SOURCE" body).bind SourceValue.read?
  | _ => none

/-- The text that the constant stands for in a program text of a directory. -/
def sourceText? (tree : FileTree) (directory : List String) (trees : List Tree) : Option String :=
  (sourceValue? trees).bind fun value => value.text? tree directory

def GrammarSource.value : GrammarSource → SourceValue
  | .inPlace text => .literal text
  | .file path _ => .included path

/-- What is written for a source is read as its value. -/
theorem GrammarSource.read?_trees (source : GrammarSource) :
    SourceValue.read? source.trees = some source.value := by
  cases source with
  | inPlace text => rw [trees, SourceValue.read?, Literal.value?_ofText, Option.map_some, value]
  | file path text =>
    rw [trees, Tree.point, SourceValue.read?, Literal.value?_ofText, Option.map_some, value]

/-- An included path stands for the text of the file that it leads to from there. -/
theorem SourceValue.text?_included {tree : FileTree} {directory : List String}
    {path text : String} :
    (SourceValue.included path).text? tree directory = some text ↔
      tree.Holds directory path text := by
  rw [text?, ← FileTree.readFrom_eq_ok_iff]
  cases tree.readFrom directory path <;> simp [Except.toOption]

section
variable {attr : Attribute} {surroundings : Surroundings} {source : GrammarSource}

theorem Attribute.gives_file {spelling value path text : String}
    (named : attr.name? = some fileAttribute)
    (assigned : attr.assigned? = .ok (some ⟨spelling, some value⟩))
    (resolved : surroundings.resolve value = path)
    (reads : surroundings.tree.read path = .ok text) : attr.Gives surroundings (.file path text) :=
  .file named assigned (Surroundings.resolve_eq_iff.mp resolved) (FileTree.read_eq_ok_iff.mp reads)

theorem Attribute.Gives.givesGrammar (gives : attr.Gives surroundings source) :
    attr.givesGrammar = true := by
  cases gives with
  | inPlace named => simp [Attribute.givesGrammar, named]
  | file named => simp [Attribute.givesGrammar, named]

theorem Attribute.Gives.grammarSource (gives : attr.Gives surroundings source) :
    attr.grammarSource surroundings = .ok source := by
  cases gives with
  | inPlace named assigned =>
    have other : ¬ attr.name? = some fileAttribute := by
      rw [named]
      decide
    simp only [Attribute.grammarSource, assigned, if_neg other]
  | file named assigned joined holds =>
    have resolved := Surroundings.resolve_eq_iff.mpr joined
    have reads := FileTree.read_eq_ok_iff.mpr holds
    simp only [Attribute.grammarSource, assigned, if_pos named, resolved, reads]

theorem Attribute.gives_of_grammarSource (counts : attr.givesGrammar = true)
    (given : attr.grammarSource surroundings = .ok source) : attr.Gives surroundings source := by
  unfold Attribute.grammarSource at given
  split at given
  · cases given
  · cases given
  · cases given
  · rename_i spelling value assigned
    split at given
    · rename_i named
      simp only at given
      split at given
      · rename_i text reads
        cases given
        exact gives_file named assigned rfl reads
      · cases given
    · rename_i unnamed
      have named : attr.name? = some inPlaceAttribute := by
        simpa [Attribute.givesGrammar, unnamed] using counts
      cases given
      exact .inPlace named assigned

/-- The value of a source stands for its text wherever the root, the path or the directory
leaves no doubt about the file. -/
theorem Attribute.Gives.text?_value (gives : attr.Gives surroundings source)
    {directory : List String}
    (sure : isAbsolute (surroundings.root.getD ".") = true ∨
      (∀ path, source.value = .included path → isAbsolute path = true) ∨
      directory = surroundings.tree.current) :
    source.value.text? surroundings.tree directory = some source.text := by
  cases gives with
  | inPlace => rfl
  | @file _ value path text _ _ joined holds =>
    have reads := FileTree.readFrom_eq_ok_iff.mpr holds
    have alike : surroundings.tree.readFrom directory path =
        surroundings.tree.readFrom surroundings.tree.current path := by
      rcases sure with root | absolute | rfl
      · exact FileTree.readFrom_of_isAbsolute (joined.isAbsolute root) _
      · exact FileTree.readFrom_of_isAbsolute (absolute path rfl) _
      · rfl
    rw [GrammarSource.value, SourceValue.text?, alike, reads]
    rfl

end

/-- The attributes of an item that give a grammar. Others are not looked at. -/
def Item.sources (item : Item) : List Attribute := item.attributes.filter Attribute.givesGrammar

section
variable {item : Item} {surroundings : Surroundings}

theorem Item.grammarSource_of_none (none : item.sources = []) :
    item.grammarSource surroundings = .error .missingSource := by
  rw [Item.sources] at none
  simp only [Item.grammarSource, none]

theorem Item.grammarSource_of_only {attr : Attribute} (only : item.sources = [attr]) :
    item.grammarSource surroundings = attr.grammarSource surroundings := by
  rw [Item.sources] at only
  simp only [Item.grammarSource, only]

theorem Item.grammarSource_of_several (several : 2 ≤ item.sources.length) :
    item.grammarSource surroundings = .error .multipleSources := by
  obtain ⟨first, second, more, split⟩ : ∃ first second more,
      item.sources = first :: second :: more := by
    match sources : item.sources, several with
    | first :: second :: more, _ => exact ⟨first, second, more, rfl⟩
  rw [Item.sources] at split
  simp only [Item.grammarSource, split]

theorem Item.sources_cases (item : Item) :
    item.sources = [] ∨ (∃ attr, item.sources = [attr]) ∨ 2 ≤ item.sources.length := by
  match item.sources with
  | [] => exact .inl rfl
  | [attr] => exact .inr (.inl ⟨attr, rfl⟩)
  | _ :: _ :: _ => exact .inr (.inr (Nat.le_add_left _ _))

theorem Item.givesGrammar_of_only {attr : Attribute} (only : item.sources = [attr]) :
    attr.givesGrammar = true := by
  have member : attr ∈ item.sources := only ▸ List.mem_cons_self
  exact (List.mem_filter.mp member).2

/-- A source is accepted only if one attribute gives it and no other gives any. -/
theorem Item.gives_of_grammarSource {source : GrammarSource}
    (given : item.grammarSource surroundings = .ok source) :
    ∃ attr, item.sources = [attr] ∧ attr.Gives surroundings source := by
  rcases item.sources_cases with none | ⟨attr, only⟩ | several
  · cases (grammarSource_of_none none).symm.trans given
  · rw [grammarSource_of_only only] at given
    exact ⟨attr, only, Attribute.gives_of_grammarSource (givesGrammar_of_only only) given⟩
  · cases (grammarSource_of_several several).symm.trans given

end

section
variable {surroundings : Surroundings} {attr : Attribute} {front back : List Attribute}
  (item : Item)

theorem Item.grammarSource_alone {source : GrammarSource} (gives : attr.Gives surroundings source)
    (alone : ∀ other ∈ front ++ back, ¬ other.givesGrammar = true) :
    Item.grammarSource { item with attributes := front ++ attr :: back } surroundings =
      .ok source := by
  have only : Item.sources { item with attributes := front ++ attr :: back } = [attr] := by
    have before : front.filter Attribute.givesGrammar = [] :=
      List.filter_eq_nil_iff.mpr fun other member =>
        alone other (List.mem_append_left back member)
    have behind : back.filter Attribute.givesGrammar = [] :=
      List.filter_eq_nil_iff.mpr fun other member =>
        alone other (List.mem_append_right front member)
    rw [Item.sources, List.filter_append, List.filter_cons_of_pos gives.givesGrammar, before,
      behind, List.nil_append]
  exact (grammarSource_of_only only).trans gives.grammarSource

theorem Item.grammarSource_beside (surroundings : Surroundings)
    (counts : attr.givesGrammar = true) {other : Attribute} (member : other ∈ front ++ back)
    (otherCounts : other.givesGrammar = true) :
    Item.grammarSource { item with attributes := front ++ attr :: back } surroundings =
      .error .multipleSources := by
  apply grammarSource_of_several
  have more : 0 < ((front ++ back).filter Attribute.givesGrammar).length :=
    List.length_pos_of_mem (List.mem_filter.mpr ⟨member, otherCounts⟩)
  rw [List.filter_append, List.length_append] at more
  rw [Item.sources, List.filter_append, List.filter_cons_of_pos counts, List.length_append,
    List.length_cons]
  omega

end

/-! ## Texts -/

/-- The variants of the grammar that a text is. -/
def variantsOf (text : String) : Except ExpansionError (List Variant) := do
  (← (Grammar.parse text).mapError .grammar).variants

/-- Why a text gives no variants: it is no grammar, or the name of a rule is reserved, and
this is the first such rule. -/
inductive TextRefusedFor (text : String) : ExpansionError → Prop
  | grammar {fault : ParseError} (refused : Grammar.parse text = .error fault) :
      TextRefusedFor text (.grammar fault)
  | reserved {grammar : Grammar} {rule : Rule} (accepted : Grammar.parse text = .ok grammar)
      (first : grammar.rules.find? (fun rule => rule.lhs.name ∈ reservedNames) = some rule) :
      TextRefusedFor text (.reservedName rule.lhs.name)

/-- A run over a list stops at the first member that is refused. -/
theorem mapM_eq_find? {ε α β : Type} {f : α → Except ε β} {refused : α → Prop}
    [DecidablePred refused] {fault : α → ε} {value : α → β}
    (each : ∀ a, f a = if refused a then .error (fault a) else .ok (value a)) (l : List α) :
    l.mapM f = match l.find? fun a => refused a with
      | some a => .error (fault a)
      | none => .ok (l.map value) := by
  induction l with
  | nil => rfl
  | cons a l ih =>
    rw [List.mapM_cons, each, ih, List.find?_cons]
    by_cases here : refused a
    · rw [if_pos here, decide_eq_true here]
      rfl
    · rw [if_neg here, decide_eq_false here]
      cases l.find? fun a => refused a <;> rfl

/-- The error is the first rule whose name is reserved, if there is one. -/
theorem Grammar.variants_eq (grammar : Grammar) :
    grammar.variants =
      match grammar.rules.find? fun rule => rule.lhs.name ∈ reservedNames with
      | some rule => .error (.reservedName rule.lhs.name)
      | none => .ok (grammar.spelledVariants (reservedNames ++ keywords)) := by
  have each (definition : Definition) :
      (do return (⟨← definition.name.variantBy isName, definition⟩ : Variant)) =
        if definition.name.name ∈ reservedNames then
          .error (ExpansionError.reservedName definition.name.name)
        else .ok ⟨spelledOut (reservedNames ++ keywords) definition.name.name, definition⟩ := by
    by_cases reserved : definition.name.name ∈ reservedNames
    · rw [Identifier.variantBy, if_pos reserved, if_pos reserved]
      rfl
    · rw [Identifier.variantBy_eq isName_eq_false_iff reserved, if_neg reserved]
      rfl
  have first := grammar.find?_definitions fun name => name.name ∈ reservedNames
  rw [variants, variantsBy, mapM_eq_find? each, first]
  cases grammar.rules.find? fun rule => rule.lhs.name ∈ reservedNames <;> rfl

theorem Grammar.variants_ok_or_error (grammar : Grammar) :
    (∃ variants, grammar.variants = .ok variants ∧
      ∀ rule ∈ grammar.rules, rule.lhs.name ∉ reservedNames) ∨
    ∃ rule, grammar.rules.find? (fun rule => rule.lhs.name ∈ reservedNames) = some rule ∧
      grammar.variants = .error (.reservedName rule.lhs.name) := by
  rw [grammar.variants_eq]
  cases found : grammar.rules.find? fun rule => rule.lhs.name ∈ reservedNames with
  | some rule => exact .inr ⟨rule, rfl, rfl⟩
  | none =>
    refine .inl ⟨_, rfl, fun rule member reserved => ?_⟩
    exact List.find?_eq_none.mp found rule member (decide_eq_true reserved)

theorem variantsOf_of_rejected {text : String} {fault : ParseError}
    (rejected : Grammar.parse text = .error fault) :
    variantsOf text = .error (.grammar fault) := by
  rw [variantsOf, rejected]
  rfl

theorem variantsOf_of_accepted {text : String} {grammar : Grammar}
    (accepted : Grammar.parse text = .ok grammar) : variantsOf text = grammar.variants := by
  rw [variantsOf, accepted]
  rfl

theorem variantsOf_ok_or_error (text : String) :
    (∃ grammar variants, Grammar.parse text = .ok grammar ∧ grammar.variants = .ok variants ∧
      variantsOf text = .ok variants ∧
      ∀ definition ∈ grammar.definitions, definition.name.name ∉ reservedNames) ∨
    ∃ error, variantsOf text = .error error ∧ TextRefusedFor text error := by
  cases parsed : Grammar.parse text with
  | error fault => exact .inr ⟨.grammar fault, variantsOf_of_rejected parsed, .grammar parsed⟩
  | ok grammar =>
    rw [variantsOf_of_accepted parsed]
    rcases grammar.variants_ok_or_error with ⟨variants, spelled, free⟩ | ⟨rule, first, fails⟩
    · exact .inl ⟨grammar, variants, rfl, spelled, spelled, grammar.free_definitions free⟩
    · exact .inr ⟨_, fails, .reserved parsed first⟩

/-! ## Expansions -/

section
variable {item : Item} {surroundings : Surroundings}

theorem expand_of_no_source {error : ExpansionError}
    (given : item.grammarSource surroundings = .error error) :
    expand item surroundings = .error error := by
  rw [expand, given]
  rfl

/-- Of a source, only its text decides which variants there are. -/
theorem expand_of_source {source : GrammarSource}
    (given : item.grammarSource surroundings = .ok source) :
    expand item surroundings =
      (variantsOf source.text).map fun variants => ⟨variants, item, source⟩ := by
  have begun : expand item surroundings = (do
      let grammar ← (Grammar.parse source.text).mapError ExpansionError.grammar
      let variants ← grammar.variants
      return Expansion.mk variants item source) := by
    rw [expand, given]
    rfl
  rw [begun, variantsOf]
  cases Grammar.parse source.text with
  | error fault => rfl
  | ok grammar =>
    change (grammar.variants >>= fun variants => pure (Expansion.mk variants item source)) =
      grammar.variants.map fun variants => Expansion.mk variants item source
    cases grammar.variants <;> rfl

/-- What an expansion consists of. -/
theorem parts_of_expand {expansion : Expansion}
    (expanded : expand item surroundings = .ok expansion) :
    item.grammarSource surroundings = .ok expansion.source ∧
      variantsOf expansion.source.text = .ok expansion.variants ∧ expansion.item = item := by
  cases given : item.grammarSource surroundings with
  | error error => cases (expand_of_no_source given).symm.trans expanded
  | ok source =>
    rw [expand_of_source given] at expanded
    cases whole : variantsOf source.text with
    | error error =>
      rw [whole] at expanded
      cases expanded
    | ok variants =>
      rw [whole] at expanded
      cases expanded
      exact ⟨rfl, whole, rfl⟩

end

/-- An expansion up to its last block. -/
def Item.head (item : Item) (variants : List Variant) : List Tree :=
  enumTrees variants ++ (.word "impl" :: parameterTrees Parameter.introduced item.parameters ++
    .word item.name :: parameterTrees (fun _ => Parameter.used) item.parameters ++
      whereTrees item.predicates)

/-- The last block up to what the constant is set to. -/
def sourceHead : List Tree :=
  [.word "pub", .word "const", .word "SOURCE", .point ':'] ++ staticText ++ [.point '=']

theorem Expansion.trees_eq (expansion : Expansion) :
    expansion.trees = expansion.item.head expansion.variants ++
      [.group .brace (sourceHead ++ expansion.source.trees ++ [.point ';'])] := by
  simp only [Expansion.trees, constantTrees, Item.head, sourceHead, List.append_assoc,
    List.cons_append, List.nil_append]

theorem Expansion.sourceValue?_trees (expansion : Expansion) :
    sourceValue? expansion.trees = some expansion.source.value := by
  have value : constantValue? "SOURCE" (sourceHead ++ expansion.source.trees ++ [.point ';']) =
      some expansion.source.trees := by
    cases expansion.source <;> rfl
  rw [sourceValue?, Expansion.trees_eq, List.getLast?_concat]
  simp only [value, Option.bind_some]
  exact expansion.source.read?_trees

/-- **The source text and the tables agree.** The constant of every expansion is set to
what its one grammar attribute gives: the text, or the inclusion of exactly the path that
was read. That text is a grammar, whose definitions are what the tables describe. The
constant stands for that text wherever the program text lies if the root or the path is
absolute, and in the current directory in any case. In another directory an included
path stands for what is found there. Another attribute that gives the same text in another
way changes no token but those that the constant is set to, or the error is the same. -/
theorem source_text_and_tables_agree (surroundings : Surroundings) :
    (∀ (item : Item) (expansion : Expansion), expand item surroundings = .ok expansion →
      ∃ attr source grammar tables,
        item.attributes.filter Attribute.givesGrammar = [attr] ∧
        attr.Gives surroundings source ∧
        sourceValue? expansion.trees = some source.value ∧
        (∀ directory,
          isAbsolute (surroundings.root.getD ".") = true ∨
            (∀ path, source.value = .included path → isAbsolute path = true) ∨
            directory = surroundings.tree.current →
          sourceText? surroundings.tree directory expansion.trees = some source.text) ∧
        (∀ path, source.value = .included path → ∀ directory text,
          sourceText? surroundings.tree directory expansion.trees = some text ↔
            surroundings.tree.Holds directory path text) ∧
        Grammar.parse source.text = .ok grammar ∧
        RuleTables.read? expansion.trees = some tables ∧
        tables.Describes (reservedNames ++ keywords) grammar.definitions) ∧
    ∀ (item : Item) (front back : List Attribute) (attr other : Attribute)
      (source same : GrammarSource),
      attr.Gives surroundings source → other.Gives surroundings same → same.text = source.text →
      let given := expand { item with attributes := front ++ attr :: back } surroundings
      let changed := expand { item with attributes := front ++ other :: back } surroundings
      (∃ error, given = .error error ∧ changed = .error error ∧
        (error = .multipleSources ∧ (∃ third ∈ front ++ back, third.givesGrammar = true) ∨
          TextRefusedFor source.text error)) ∨
      ∃ (expansion instead : Expansion) (head opening : List Tree),
        given = .ok expansion ∧ changed = .ok instead ∧
        expansion.trees = head ++ [.group .brace (opening ++ source.trees ++ [.point ';'])] ∧
        instead.trees = head ++ [.group .brace (opening ++ same.trees ++ [.point ';'])] := by
  constructor
  · intro item expansion expanded
    cases found : item.grammarSource surroundings with
    | error error =>
      rw [expand_of_no_source found] at expanded
      cases expanded
    | ok source =>
      obtain ⟨attr, alone, gives⟩ := Item.gives_of_grammarSource found
      rw [expand_of_source found] at expanded
      rcases variantsOf_ok_or_error source.text with
        ⟨grammar, variants, accepted, spelled, whole, free⟩ | ⟨error, fails, -⟩
      · rw [whole] at expanded
        cases expanded
        obtain ⟨written, -, rfl⟩ := Grammar.parse_eq_ok_iff.mp accepted
        have valid : written.grammar.Valid := written.valid
        have wanted := valid.variantsBy_eq (fun _ _ => isName_eq_false_iff) free
        rw [Grammar.variants, wanted] at spelled
        cases spelled
        refine ⟨attr, source, _, _, alone, gives, Expansion.sourceValue?_trees _, ?_, ?_, accepted,
          RuleTables.read?_enumTrees _ _, valid.describes free⟩
        · intro directory sure
          rw [sourceText?, Expansion.sourceValue?_trees, Option.bind_some]
          exact gives.text?_value sure
        · intro path included directory text
          rw [sourceText?, Expansion.sourceValue?_trees, Option.bind_some, included]
          exact SourceValue.text?_included
      · rw [fails] at expanded
        cases expanded
  · intro item front back attr other source same gives otherGives sameText given changed
    by_cases several : ∃ third ∈ front ++ back, third.givesGrammar = true
    · obtain ⟨third, member, counts⟩ := several
      have refused :=
        Item.grammarSource_beside item surroundings gives.givesGrammar member counts
      have otherRefused :=
        Item.grammarSource_beside item surroundings otherGives.givesGrammar member counts
      exact .inl ⟨.multipleSources, expand_of_no_source refused,
        expand_of_no_source otherRefused, .inl ⟨rfl, third, member, counts⟩⟩
    · have alone : ∀ third ∈ front ++ back, ¬ third.givesGrammar = true :=
        fun third member counts => several ⟨third, member, counts⟩
      have given_eq : given = (variantsOf source.text).map fun variants =>
          ⟨variants, { item with attributes := front ++ attr :: back }, source⟩ :=
        expand_of_source (Item.grammarSource_alone item gives alone)
      have changed_eq : changed = (variantsOf source.text).map fun variants =>
          ⟨variants, { item with attributes := front ++ other :: back }, same⟩ := by
        rw [← sameText]
        exact expand_of_source (Item.grammarSource_alone item otherGives alone)
      rcases variantsOf_ok_or_error source.text with
        ⟨-, variants, -, -, whole, -⟩ | ⟨error, fails, refused⟩
      · rw [whole] at given_eq changed_eq
        exact .inr ⟨_, _, item.head variants, sourceHead, given_eq, changed_eq,
          Expansion.trees_eq _, Expansion.trees_eq _⟩
      · rw [fails] at given_eq changed_eq
        exact .inl ⟨error, given_eq, changed_eq, .inr refused⟩

/-- A text in the item, and the same text in a file at an absolute path. -/
theorem file_in_place_of_text :
    let tree := (FileTree.bare ["home", "proj"]).insertAll [("g.ebnf", "type = b ;".toUTF8)]
    let surroundings : Surroundings := ⟨some "/home/proj", tree⟩
    let assigned : Attribute := ⟨[.word "ebnf_inline"], assignment "type = b ;"⟩
    let included : Attribute := ⟨[.word "ebnf_file"], assignment "g.ebnf"⟩
    ∃ (expansion instead : Expansion) (head opening : List Tree) (tables : RuleTables),
      expand ⟨[assigned], "Dummy", [], []⟩ surroundings = .ok expansion ∧
      expand ⟨[included], "Dummy", [], []⟩ surroundings = .ok instead ∧
      expansion.trees = head ++
        [.group .brace (opening ++ (GrammarSource.inPlace "type = b ;").trees ++ [.point ';'])] ∧
      instead.trees = head ++
        [.group .brace (opening ++
          (GrammarSource.file "/home/proj/g.ebnf" "type = b ;").trees ++ [.point ';'])] ∧
      sourceValue? instead.trees = some (.included "/home/proj/g.ebnf") ∧
      (∀ directory, sourceText? tree directory instead.trees = some "type = b ;") ∧
      RuleTables.read? instead.trees = some tables ∧
      tables.variants = ["r#type"] ∧ tables.rows? = some [("type", ["b"])] := by
  intro tree surroundings assigned included
  have inPlace : assigned.Gives surroundings (.inPlace "type = b ;") := .inPlace rfl rfl
  have path : surroundings.resolve "g.ebnf" = "/home/proj/g.ebnf" := by decide +kernel
  have reads : tree.read "/home/proj/g.ebnf" = .ok "type = b ;" := by decide +kernel
  have fromFile : included.Gives surroundings (.file "/home/proj/g.ebnf" "type = b ;") :=
    Attribute.gives_file rfl rfl path reads
  have accepted : Grammar.parse "type = b ;" = .ok ⟨[⟨⟨"type"⟩, ⟨"b"⟩⟩]⟩ := by decide +kernel
  obtain ⟨agree, replace⟩ := source_text_and_tables_agree surroundings
  rcases replace ⟨[], "Dummy", [], []⟩ [] [] assigned included _ _ inPlace fromFile rfl with
    ⟨error, -, -, ⟨-, third, member, -⟩ | refused⟩ |
    ⟨expansion, instead, head, opening, given, changed, trees, insteadTrees⟩
  · exact absurd member List.not_mem_nil
  · exfalso
    cases refused with
    | grammar refused => exact nomatch refused.symm.trans accepted
    | reserved again first =>
      cases again.symm.trans accepted
      exact nomatch first
  · obtain ⟨attr, source, grammar, tables, alone, gives, value, stands, -, read, tablesRead,
      describes⟩ := agree _ _ changed
    cases alone
    cases fromFile.grammarSource.symm.trans gives.grammarSource
    cases read.symm.trans accepted
    have everywhere (directory : List String) :
        sourceText? tree directory instead.trees = some "type = b ;" :=
      stands directory (.inl (by decide +kernel))
    refine ⟨expansion, instead, head, opening, tables, given, changed, trees, insteadTrees, value,
      everywhere, tablesRead, ?_, ?_⟩
    · rw [describes.variants]
      decide
    · rw [describes.rows]
      rfl

/-- Without a root, the path that is read in the current directory is included from the
directory of the program text, where it leads to another grammar. -/
theorem other_file_included :
    let tree := (FileTree.bare ["proj"]).insertAll
      [("g.ebnf", "a = b ;".toUTF8), ("src/g.ebnf", "c = d ;".toUTF8)]
    let item : Item := ⟨[⟨[.word "ebnf_file"], assignment "g.ebnf"⟩], "Dummy", [], []⟩
    ∃ expansion tables grammar,
      expand item ⟨none, tree⟩ = .ok expansion ∧
      sourceValue? expansion.trees = some (.included "./g.ebnf") ∧
      sourceText? tree ["proj"] expansion.trees = some "a = b ;" ∧
      sourceText? tree ["proj", "src"] expansion.trees = some "c = d ;" ∧
      RuleTables.read? expansion.trees = some tables ∧
      tables.rows? = some [("a", ["b"])] ∧
      Grammar.parse "c = d ;" = .ok grammar ∧
      ¬ tables.Describes (reservedNames ++ keywords) grammar.definitions := by
  intro tree item
  have path : Surroundings.resolve ⟨none, tree⟩ "g.ebnf" = "./g.ebnf" := by decide +kernel
  have reads : tree.read "./g.ebnf" = .ok "a = b ;" := by decide +kernel
  have other : tree.readFrom ["proj", "src"] "./g.ebnf" = .ok "c = d ;" := by decide +kernel
  have gives : Attribute.Gives ⟨[.word "ebnf_file"], assignment "g.ebnf"⟩ ⟨none, tree⟩
      (.file "./g.ebnf" "a = b ;") := Attribute.gives_file rfl rfl path reads
  have given : item.grammarSource ⟨none, tree⟩ = .ok (.file "./g.ebnf" "a = b ;") :=
    gives.grammarSource
  have whole : variantsOf "a = b ;" = .ok [⟨"a", ⟨⟨"a"⟩, [⟨"b"⟩]⟩⟩] := by decide +kernel
  have there : Grammar.parse "c = d ;" = .ok ⟨[⟨⟨"c"⟩, ⟨"d"⟩⟩]⟩ := by decide +kernel
  have expanded := expand_of_source given
  simp only [GrammarSource.text, whole] at expanded
  refine ⟨_, _, _, expanded, Expansion.sourceValue?_trees _, ?_, ?_,
    RuleTables.read?_enumTrees _ _, ?_, there, ?_⟩
  · rw [sourceText?, Expansion.sourceValue?_trees]
    exact SourceValue.text?_included.mpr (FileTree.read_eq_ok_iff.mp reads)
  · rw [sourceText?, Expansion.sourceValue?_trees]
    exact SourceValue.text?_included.mpr (FileTree.readFrom_eq_ok_iff.mp other)
  · decide +kernel
  · intro describes
    have variants := describes.variants
    revert variants
    decide +kernel

end Metasyntax
