import Metasyntax.Proofs.Refusals

/-! Names that meet in an expansion. The variants of the enumeration share one space of
names with what belongs to it, a list of them all and two functions, and a variant hides
whatever else has its name. Nothing but the grammar and the name of the item says which
names are taken, and neither is asked to leave those of the expansion free. -/
namespace Metasyntax

/-! ## Names in a program text -/

/-- The name that a word stands for, in its raw spelling too. -/
def plainName (spelling : String) : String :=
  match spelling.toList with
  | 'r' :: '#' :: name => .ofList name
  | _ => spelling

/-- The name of the first enumeration. -/
def enumName? : List Tree → Option String
  | .word "enum" :: .word name :: _ => some name
  | _ :: trees => enumName? trees
  | [] => none

/-- The names of the constants and functions of a block. -/
def associatedNames : List Tree → List String
  | .word kind :: .word name :: trees =>
    if kind = "const" ∨ kind = "fn" then name :: associatedNames trees
    else associatedNames (.word name :: trees)
  | _ :: trees => associatedNames trees
  | [] => []

/-- What a name may mean behind the name of the enumeration. -/
inductive Denoted where
  | variant (spelling : String)
  | list (variants : List String)
  | function
  deriving DecidableEq, Repr

/-- What a block has under a name. -/
def associated? (name : String) (block : List Tree) : Option Denoted :=
  if (afterItem? "fn" name block).isSome then some .function
  else do
    let rows ← sliceRows? (← constantValue? name block)
    return .list (← rows.mapM readWholeVariant?)

/-- What a name means behind the name of the enumeration. A variant hides what the block
has under its name. -/
def denoted? (name : String) (trees : List Tree) : Option Denoted := do
  let variants ← (commaRows (← blockOf? "enum" "Rule" trees)).mapM readWord?
  let block ← blockOf? "impl" "Rule" trees
  match variants.find? fun spelling => plainName spelling = name with
  | some spelling => return .variant spelling
  | none => associated? name block

theorem associated?_ne_variant (name : String) (block : List Tree) (spelling : String) :
    associated? name block ≠ some (.variant spelling) := by
  intro found
  unfold associated? at found
  split at found
  · cases found
  · simp [Option.bind_eq_some_iff] at found

/-! ## Spellings -/

theorem plainName_raw (name : String) : plainName ("r#" ++ name) = name := by
  have raw : ("r#" ++ name).toList = 'r' :: '#' :: name.toList := String.toList_append
  simp only [plainName, raw, String.ofList_toList]

theorem plainName_of_isWord {name : String} (word : IsWord name.toList) :
    plainName name = name := by
  unfold plainName
  split
  · rename_i rest raw
    rw [raw] at word
    exact absurd word.2 Bool.false_ne_true
  · rfl

theorem plainName_spelledOut {special : List String} {name : String} (word : IsWord name.toList) :
    plainName (spelledOut special name) = name := by
  unfold spelledOut
  split
  · exact plainName_raw name
  · exact plainName_of_isWord word

/-- The variants of a grammar have the names that its rules define, each once. -/
theorem Grammar.Valid.plainNames {grammar : Grammar} (valid : grammar.Valid)
    (special : List String) :
    (grammar.spelledVariants special).map (fun variant => plainName variant.spelling) =
      (definedNames grammar.rules).map Identifier.name := by
  rw [Grammar.spelledVariants, ← grammar.names_definitions, List.map_map, List.map_map]
  apply List.map_congr_left
  intro definition member
  exact plainName_spelledOut (valid.isWord member)

theorem mem_names_definedNames {rules : List Rule} {name : String} :
    name ∈ (definedNames rules).map Identifier.name ↔ ∃ rule ∈ rules, rule.lhs.name = name := by
  simp only [List.mem_map, mem_definedNames]
  constructor
  · rintro ⟨_, ⟨rule, member, rfl⟩, named⟩
    exact ⟨rule, member, named⟩
  · rintro ⟨rule, member, named⟩
    exact ⟨rule.lhs, ⟨rule, member, rfl⟩, named⟩

theorem nodup_names_definedNames (rules : List Rule) :
    ((definedNames rules).map Identifier.name).Nodup :=
  (nodup_definedNames rules).map fun _ _ same => congrArg Identifier.mk same

/-! ## The enumeration and its block -/

theorem associated_enumTrees (variants : List Variant) (rest : List Tree) :
    ∃ block, blockOf? "impl" "Rule" (enumTrees variants ++ rest) = some block ∧
      associatedNames block = ["ALL", "name", "rhs_names"] ∧
      associated? "ALL" block = some (.list (variants.map Variant.spelling)) ∧
      associated? "name" block = some .function ∧
      associated? "rhs_names" block = some .function := by
  obtain ⟨block, there, names, noFunction, slice, name, rhsNames⟩ : ∃ block,
      blockOf? "impl" "Rule" (enumTrees variants ++ rest) = some block ∧
      associatedNames block = ["ALL", "name", "rhs_names"] ∧
      (afterItem? "fn" "ALL" block).isSome = false ∧
      constantValue? "ALL" block =
        some [.point '&', .group .bracket (Tree.separated (variants.map Variant.path))] ∧
      (afterItem? "fn" "name" block).isSome = true ∧
      (afterItem? "fn" "rhs_names" block).isSome = true :=
    ⟨_, rfl, rfl, rfl, rfl, rfl, rfl⟩
  have all : (commaRows (Tree.separated (variants.map Variant.path))).mapM readWholeVariant? =
      some (variants.map Variant.spelling) :=
    mapM_commaRows (fun _ _ => rfl) fun _ _ => rfl
  have list : associated? "ALL" block = some (.list (variants.map Variant.spelling)) := by
    rw [associated?, noFunction, slice]
    simp only [sliceRows?, Tree.point, all, Option.bind_eq_bind, Option.bind_some, Option.pure_def]
    rfl
  exact ⟨block, there, names, list, if_pos name, if_pos rhsNames⟩

section
variable {variants : List Variant} {rest block : List Tree} {name : String}
  (there : blockOf? "impl" "Rule" (enumTrees variants ++ rest) = some block)
include there

theorem denoted?_enumTrees :
    denoted? name (enumTrees variants ++ rest) =
      match (variants.map Variant.spelling).find? fun spelling => plainName spelling = name with
      | some spelling => some (.variant spelling)
      | none => associated? name block := by
  have enumeration : blockOf? "enum" "Rule" (enumTrees variants ++ rest) =
      some (Tree.separated (variants.map fun variant => [.word variant.spelling])) := rfl
  have words : (commaRows (Tree.separated (variants.map fun v => [Tree.word v.spelling]))).mapM
      readWord? = some (variants.map Variant.spelling) :=
    mapM_commaRows (fun _ _ => rfl) fun _ _ => rfl
  simp only [denoted?, enumeration, there, words, Option.bind_eq_bind, Option.bind_some,
    Option.pure_def]

/-- Variants of different names can all be had. -/
theorem denoted?_of_variant
    (distinct : (variants.map fun variant => plainName variant.spelling).Nodup)
    {variant : Variant} (member : variant ∈ variants) :
    denoted? (plainName variant.spelling) (enumTrees variants ++ rest) =
      some (.variant variant.spelling) := by
  rw [denoted?_enumTrees there]
  cases found : (variants.map Variant.spelling).find? fun spelling =>
      plainName spelling = plainName variant.spelling with
  | some spelling =>
    obtain ⟨other, here, rfl⟩ := List.mem_map.mp (List.mem_of_find?_eq_some found)
    have same : plainName other.spelling = plainName variant.spelling := by
      simpa using List.find?_some found
    rw [List.inj_on_of_nodup_map distinct here member same]
  | none =>
    have other := List.find?_eq_none.mp found _ (List.mem_map_of_mem member)
    exact absurd (decide_eq_true rfl) other

theorem denoted?_of_free (free : name ∉ variants.map fun variant => plainName variant.spelling) :
    denoted? name (enumTrees variants ++ rest) = associated? name block := by
  have none : (variants.map Variant.spelling).find? (fun spelling => plainName spelling = name) =
      none := by
    refine List.find?_eq_none.mpr fun spelling member named => free ?_
    obtain ⟨variant, here, rfl⟩ := List.mem_map.mp member
    exact List.mem_map.mpr ⟨variant, here, of_decide_eq_true named⟩
  rw [denoted?_enumTrees there, none]

theorem denoted?_eq_associated_iff
    (distinct : (variants.map fun variant => plainName variant.spelling).Nodup) :
    denoted? name (enumTrees variants ++ rest) = associated? name block ↔
      name ∉ variants.map fun variant => plainName variant.spelling := by
  constructor
  · intro meant taken
    obtain ⟨variant, member, rfl⟩ := List.mem_map.mp taken
    rw [denoted?_of_variant there distinct member] at meant
    exact associated?_ne_variant _ _ _ meant.symm
  · exact denoted?_of_free there

end

/-! ## Expansions -/

section
variable {item : Item} {surroundings : Surroundings} {expansion : Expansion}

/-- The variants of an expansion are those of the grammar that its source gives. -/
theorem grammar_of_expand (expanded : expand item surroundings = .ok expansion) :
    ∃ grammar, Grammar.parse expansion.source.text = .ok grammar ∧ grammar.Valid ∧
      expansion.variants = grammar.spelledVariants (reservedNames ++ keywords) := by
  obtain ⟨-, whole, -⟩ := parts_of_expand expanded
  obtain ⟨grammar, accepted, free⟩ := variantsOf_eq_ok_iff.mp ⟨_, whole⟩
  obtain ⟨written, -, rfl⟩ := Grammar.parse_eq_ok_iff.mp accepted
  have valid : written.grammar.Valid := written.valid
  have spelled := valid.variantsBy_eq (fun _ _ => isName_eq_false_iff)
    (written.grammar.free_definitions free)
  rw [variantsOf_of_accepted accepted, Grammar.variants, spelled] at whole
  exact ⟨_, accepted, valid, (Except.ok.inj whole).symm⟩

/-- No item is refused for its name. -/
theorem expand_renamed (expanded : expand item surroundings = .ok expansion) (name : String) :
    expand { item with name := name } surroundings =
      .ok { expansion with item := { item with name := name } } := by
  obtain ⟨given, whole, -⟩ := parts_of_expand expanded
  have same : Item.grammarSource { item with name := name } surroundings =
      .ok expansion.source := given
  rw [expand_of_source same, whole]
  rfl

theorem Expansion.enumName?_trees (expansion : Expansion) :
    enumName? expansion.trees = some "Rule" := rfl

/-- **A rule may take a name that the expansion needs.** The names of the variants are
those that the rules define, no two the same, and each variant can be had by its name. What
else belongs to the enumeration has fixed names: such a name means what it was made for
exactly if no rule defines it. So the list of all variants can be had exactly if no rule has
its name. The enumeration has a fixed name as well, and no name of an item is refused, that
one included. -/
theorem fixed_names_may_be_taken (expanded : expand item surroundings = .ok expansion) :
    ∃ grammar tables block,
      Grammar.parse expansion.source.text = .ok grammar ∧
      RuleTables.read? expansion.trees = some tables ∧
      blockOf? "impl" "Rule" expansion.trees = some block ∧
      (tables.variants.map plainName).Nodup ∧
      (∀ name, name ∈ tables.variants.map plainName ↔
        ∃ rule ∈ grammar.rules, rule.lhs.name = name) ∧
      (∀ spelling ∈ tables.variants,
        denoted? (plainName spelling) expansion.trees = some (.variant spelling)) ∧
      associatedNames block = ["ALL", "name", "rhs_names"] ∧
      (∀ name ∈ associatedNames block, (associated? name block).isSome ∧
        (denoted? name expansion.trees = associated? name block ↔
          ∀ rule ∈ grammar.rules, rule.lhs.name ≠ name)) ∧
      (denoted? "ALL" expansion.trees = some (.list tables.variants) ↔
        ∀ rule ∈ grammar.rules, rule.lhs.name ≠ "ALL") ∧
      enumName? expansion.trees = some "Rule" ∧
      ∀ other, ∃ renamed, expand { item with name := other } surroundings = .ok renamed ∧
        enumName? renamed.trees = some "Rule" := by
  obtain ⟨grammar, accepted, valid, variants⟩ := grammar_of_expand expanded
  obtain ⟨block, there, names, all, name, rhsNames⟩ :=
    associated_enumTrees expansion.variants (constantTrees expansion.item expansion.source)
  have plain : (expansion.variants.map fun variant => plainName variant.spelling) =
      (definedNames grammar.rules).map Identifier.name := by
    rw [variants]
    exact valid.plainNames _
  have tables : (RuleTables.ofVariants expansion.variants).variants.map plainName =
      (definedNames grammar.rules).map Identifier.name := by
    rw [← plain]
    exact List.map_map
  have distinct := plain ▸ nodup_names_definedNames grammar.rules
  have hidden_iff (one : String) : denoted? one expansion.trees = associated? one block ↔
      ∀ rule ∈ grammar.rules, rule.lhs.name ≠ one := by
    rw [Expansion.trees, denoted?_eq_associated_iff there distinct, plain, mem_names_definedNames]
    push Not
    rfl
  have belongs : ∀ one ∈ associatedNames block, (associated? one block).isSome := by
    rw [names]
    simp [all, name, rhsNames]
  refine ⟨grammar, .ofVariants expansion.variants, block, accepted,
    RuleTables.read?_enumTrees _ _, there, ?_, ?_, ?_, names, ?_, ?_,
    expansion.enumName?_trees, ?_⟩
  · exact tables ▸ nodup_names_definedNames grammar.rules
  · intro name
    rw [tables, mem_names_definedNames]
  · intro spelling member
    obtain ⟨variant, here, rfl⟩ := List.mem_map.mp member
    exact denoted?_of_variant there distinct here
  · intro one member
    exact ⟨belongs one member, hidden_iff one⟩
  · rw [← hidden_iff, all]
    rfl
  · intro other
    exact ⟨_, expand_renamed expanded other, Expansion.enumName?_trees _⟩

end

/-- A rule that takes the name of a function, of an item that has the name of the
enumeration. -/
theorem name_of_function_taken :
    let assigned : Attribute := ⟨[.word "ebnf_inline"], assignment "type = b ; name = type ;"⟩
    ∃ expansion tables block spelling,
      expand ⟨[assigned], "Rule", [], []⟩ ⟨none, .empty⟩ = .ok expansion ∧
      RuleTables.read? expansion.trees = some tables ∧
      blockOf? "impl" "Rule" expansion.trees = some block ∧
      enumName? expansion.trees = some expansion.item.name ∧
      plainName spelling = "name" ∧
      denoted? "name" expansion.trees = some (.variant spelling) ∧
      denoted? "name" expansion.trees ≠ associated? "name" block ∧
      denoted? "ALL" expansion.trees = some (.list tables.variants) := by
  intro assigned
  have accepted : Grammar.parse "type = b ; name = type ;" =
      .ok ⟨[⟨⟨"type"⟩, ⟨"b"⟩⟩, ⟨⟨"name"⟩, ⟨"type"⟩⟩]⟩ := by decide +kernel
  have whole : variantsOf "type = b ; name = type ;" =
      .ok [⟨"r#type", ⟨⟨"type"⟩, [⟨"b"⟩]⟩⟩, ⟨"name", ⟨⟨"name"⟩, [⟨"type"⟩]⟩⟩] := by
    decide +kernel
  have given : Item.grammarSource ⟨[assigned], "Rule", [], []⟩ ⟨none, .empty⟩ =
      .ok (.inPlace "type = b ; name = type ;") := rfl
  have expanded := expand_of_source given
  simp only [GrammarSource.text, whole] at expanded
  obtain ⟨grammar, tables, block, parsed, read, there, -, defined, reached, names, each, list,
    enumeration, -⟩ := fixed_names_may_be_taken expanded
  cases accepted.symm.trans parsed
  obtain ⟨spelling, member, named⟩ := List.mem_map.mp
    ((defined "name").mpr ⟨_, List.mem_cons_of_mem _ List.mem_cons_self, rfl⟩)
  have fixed : "name" ∈ associatedNames block := by
    rw [names]
    decide
  have hidden := (each "name" fixed).2.not.mpr (by decide)
  exact ⟨_, tables, block, spelling, expanded, read, there, enumeration, named,
    named ▸ reached spelling member, hidden, list.mpr (by decide)⟩

/-- The one rule takes the name of the list of all variants, which cannot be had any more.
An item may have the name of the enumeration. -/
theorem list_of_all_variants_hidden :
    let item : Item := ⟨[⟨[.word "ebnf_inline"], assignment "ALL = a ;"⟩], "Dummy", [], []⟩
    ∃ expansion renamed tables block,
      expand item ⟨none, .empty⟩ = .ok expansion ∧
      RuleTables.read? expansion.trees = some tables ∧
      blockOf? "impl" "Rule" expansion.trees = some block ∧
      "ALL" ∈ tables.variants ∧ "ALL" ∈ associatedNames block ∧
      denoted? "ALL" expansion.trees = some (.variant "ALL") ∧
      denoted? "ALL" expansion.trees ≠ some (.list tables.variants) ∧
      expand { item with name := "Rule" } ⟨none, .empty⟩ = .ok renamed ∧
      renamed.item.name = "Rule" ∧ enumName? renamed.trees = some "Rule" := by
  intro item
  have whole : variantsOf "ALL = a ;" = .ok [⟨"ALL", ⟨⟨"ALL"⟩, [⟨"a"⟩]⟩⟩] := by decide +kernel
  have given : item.grammarSource ⟨none, .empty⟩ = .ok (.inPlace "ALL = a ;") := rfl
  have expanded := expand_of_source given
  simp only [GrammarSource.text, whole] at expanded
  obtain ⟨block, there, names, -⟩ := associated_enumTrees [⟨"ALL", ⟨⟨"ALL"⟩, [⟨"a"⟩]⟩⟩]
    (constantTrees item (.inPlace "ALL = a ;"))
  have hidden : denoted? "ALL" (enumTrees _ ++ constantTrees item (.inPlace "ALL = a ;")) =
      some (.variant "ALL") := denoted?_enumTrees there
  refine ⟨_, _, _, block, expanded, RuleTables.read?_enumTrees _ _, there, ?_, ?_, hidden, ?_,
    expand_renamed expanded "Rule", rfl, rfl⟩
  · exact List.mem_singleton_self "ALL"
  · exact names ▸ List.mem_cons_self
  · intro list
    cases list.symm.trans hidden

end Metasyntax
