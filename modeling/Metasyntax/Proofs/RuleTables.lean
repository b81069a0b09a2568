import Metasyntax.Expansion.Basic
import Metasyntax.Proofs.Acceptance
import Metasyntax.Proofs.Definitions
import Metasyntax.Proofs.Quoting
import Metasyntax.Proofs.RoundTrip

/-! The enumeration and its tables are one description of the grammar. They are read back
from the program text by readers that know how items, constants and matches are written,
and nothing of what these hold. -/
namespace Metasyntax

/-! ## Reading program text -/

def Tree.isMark (char : Char) : Tree → Bool
  | .mark found _ => found == char
  | _ => false

/-- What stands between commas. -/
def commaRows (trees : List Tree) : List (List Tree) :=
  if trees.isEmpty then [] else trees.splitOnP (Tree.isMark ',')

/-- What follows the first item of a kind that has a name. -/
def afterItem? (kind name : String) : List Tree → Option (List Tree)
  | .word first :: .word second :: trees =>
    if first = kind ∧ second = name then some trees
    else afterItem? kind name (.word second :: trees)
  | _ :: trees => afterItem? kind name trees
  | [] => none

/-- What the first braces hold. -/
def firstBlock? : List Tree → Option (List Tree)
  | .group .brace body :: _ => some body
  | _ :: trees => firstBlock? trees
  | [] => none

/-- What is in the braces of an item. -/
def blockOf? (kind name : String) (trees : List Tree) : Option (List Tree) :=
  (afterItem? kind name trees).bind firstBlock?

/-- What a constant is set to. -/
def constantValue? (name : String) (trees : List Tree) : Option (List Tree) :=
  (afterItem? "const" name trees).map fun rest =>
    (rest.dropWhile fun tree => !tree.isMark '=').tail.takeWhile fun tree => !tree.isMark ';'

/-- The rows of a slice. -/
def sliceRows? : List Tree → Option (List (List Tree))
  | [.mark '&' _, .group .bracket body] => some (commaRows body)
  | _ => none

def readWord? : List Tree → Option String
  | [.word spelling] => some spelling
  | _ => none

def readText? : List Tree → Option String
  | [.literal value] => value.value?
  | _ => none

def readTexts? (trees : List Tree) : Option (List String) :=
  (sliceRows? trees).bind fun rows => rows.mapM readText?

/-- A variant of the enumeration, and what follows it. -/
def readVariant? : List Tree → Option (String × List Tree)
  | .word "Rule" :: .mark ':' true :: .mark ':' _ :: .word spelling :: rest =>
    some (spelling, rest)
  | _ => none

def readWholeVariant? (trees : List Tree) : Option String :=
  match readVariant? trees with
  | some (spelling, []) => some spelling
  | _ => none

/-- A variant, and what it is matched to. -/
def readArm? {α : Type} (read : List Tree → Option α) (trees : List Tree) : Option (String × α) :=
  match readVariant? trees with
  | some (spelling, .mark '=' true :: .mark '>' _ :: result) =>
    (read result).map fun value => (spelling, value)
  | _ => none

/-- The arms by which a function tells the variants apart. -/
def matchArms? {α : Type} (name : String) (read : List Tree → Option α) (trees : List Tree) :
    Option (List (String × α)) :=
  match blockOf? "fn" name trees with
  | some [.word "match", .word "self", .group .brace arms] => (commaRows arms).mapM (readArm? read)
  | _ => none

/-! ## The tables -/

/-- What a program text says of the rules: the variants of the enumeration, the list of
all, and the arms of the functions that give the name of each and what it is defined as. -/
structure RuleTables where
  variants : List String
  all : List String
  names : List (String × String)
  alternatives : List (String × List String)

def RuleTables.read? (trees : List Tree) : Option RuleTables := do
  let variants ← (commaRows (← blockOf? "enum" "Rule" trees)).mapM readWord?
  let tables ← blockOf? "impl" "Rule" trees
  let all ← (← sliceRows? (← constantValue? "ALL" tables)).mapM readWholeVariant?
  return ⟨variants, all, ← matchArms? "name" readText? tables,
    ← matchArms? "rhs_names" readTexts? tables⟩

/-- All variants by name and alternatives, each found by the first arm that matches. -/
def RuleTables.rows? (tables : RuleTables) : Option (List (String × List String)) :=
  tables.all.mapM fun variant => do
    return (← tables.names.lookup variant, ← tables.alternatives.lookup variant)

/-- A name as it is, unless it is a special word. -/
def spelledOut (special : List String) (name : String) : String :=
  if name ∈ special then "r#" ++ name else name

/-- What may be written for an identifier: a word that is not special, or, in the raw
spelling, one that is not reserved. -/
def IsSpelling (special : List String) (spelling : String) : Prop :=
  IsWord spelling.toList ∧ spelling ∉ special ∨
    ∃ word, IsWord word.toList ∧ word ∉ reservedNames ∧ spelling = "r#" ++ word

def Definition.row (definition : Definition) : String × List String :=
  (definition.name.name, definition.alternatives.map Identifier.name)

/-- The tables have one entry for each definition, in the same order everywhere. No two
are of one variant, so each match has an arm for every variant, and none twice. -/
structure RuleTables.Describes (tables : RuleTables) (special : List String)
    (definitions : List Definition) : Prop where
  variants : tables.variants = definitions.map fun definition =>
    spelledOut special definition.name.name
  all : tables.all = tables.variants
  names : tables.names.map Prod.fst = tables.variants
  alternatives : tables.alternatives.map Prod.fst = tables.variants
  distinct : tables.variants.Nodup
  spellings : ∀ spelling ∈ tables.variants, IsSpelling special spelling
  rows : tables.rows? = some (definitions.map Definition.row)

/-! ## Lists -/

section
variable {α β : Type} {m : Type → Type} [Monad m] [LawfulMonad m]

theorem mapM_eq_pure_map {f : α → m β} {g : α → β} {l : List α}
    (each : ∀ a ∈ l, f a = pure (g a)) : l.mapM f = pure (l.map g) := by
  induction l with
  | nil => rw [List.mapM_nil, List.map_nil]
  | cons a l ih =>
    have later : l.mapM f = pure (l.map g) :=
      ih fun other member => each other (List.mem_cons_of_mem a member)
    rw [List.mapM_cons, each a List.mem_cons_self, later, pure_bind, pure_bind, List.map_cons]

end

theorem lookup_map {α β : Type} {key : α → String} {value : α → β} {l : List α}
    (distinct : (l.map key).Nodup) {a : α} (member : a ∈ l) :
    (l.map fun a => (key a, value a)).lookup (key a) = some (value a) := by
  induction l with
  | nil => exact absurd member List.not_mem_nil
  | cons first l ih =>
    rw [List.map_cons, List.nodup_cons] at distinct
    rw [List.map_cons, List.lookup_cons]
    rcases List.mem_cons.mp member with rfl | later
    · rw [beq_self_eq_true]
    · have other : key a ≠ key first := fun same => distinct.1 (same ▸ List.mem_map_of_mem later)
      rw [beq_eq_false_iff_ne.mpr other]
      exact ih distinct.2 later

/-! ## Reading back -/

/-- Trees that can be told from their neighbours by commas. -/
def isRow (trees : List Tree) : Bool :=
  !trees.isEmpty && trees.all fun tree => !tree.isMark ','

theorem commaRows_separated {rows : List (List Tree)} (plain : ∀ row ∈ rows, isRow row = true) :
    commaRows (Tree.separated rows) = rows := by
  have parts {row : List Tree} (row_eq : isRow row = true) :
      row ≠ [] ∧ ∀ tree ∈ row, tree.isMark ',' = false := by
    simpa [isRow] using row_eq
  have split (some : rows ≠ []) : (Tree.separated rows).splitOnP (Tree.isMark ',') = rows := by
    fun_induction Tree.separated rows with
    | case1 => contradiction
    | case2 row => exact List.splitOnP_eq_singleton (parts (plain row List.mem_cons_self)).2
    | case3 row rows more ih =>
      have later := ih (fun other member => plain other (List.mem_cons_of_mem row member)) more
      have here := (parts (plain row List.mem_cons_self)).2
      rw [List.splitOnP_append_cons_of_forall_mem here _ rfl, later]
  cases rows with
  | nil => rfl
  | cons row rows =>
    have goesOn : Tree.separated (row :: rows) ≠ [] := by
      have some : row ≠ [] := (parts (plain row List.mem_cons_self)).1
      cases rows with
      | nil => exact some
      | cons => exact List.append_ne_nil_of_left_ne_nil some _
    rw [commaRows, if_neg (by rwa [List.isEmpty_iff]), split (List.cons_ne_nil row rows)]

/-- Rows that can be read each by itself can be read all. -/
theorem mapM_commaRows {α β : Type} {write : α → List Tree} {read : List Tree → Option β}
    {value : α → β} {l : List α} (plain : ∀ a ∈ l, isRow (write a) = true)
    (reads : ∀ a ∈ l, read (write a) = some (value a)) :
    (commaRows (Tree.separated (l.map write))).mapM read = some (l.map value) := by
  have rows : commaRows (Tree.separated (l.map write)) = l.map write := by
    apply commaRows_separated
    intro row member
    obtain ⟨a, here, rfl⟩ := List.mem_map.mp member
    exact plain a here
  rw [rows, List.mapM_map]
  exact mapM_eq_pure_map reads

theorem readText?_ofText (text : String) : readText? [.literal (.ofText text)] = some text :=
  Literal.value?_ofText text

theorem readTexts?_names (names : List Identifier) :
    readTexts? [.point '&', .group .bracket (Tree.separated (names.map fun i => [nameLiteral i]))] =
      some (names.map Identifier.name) :=
  mapM_commaRows (fun _ _ => rfl) fun name _ => readText?_ofText name.name

theorem readArm?_arm {α : Type} {read : List Tree → Option α} {value : α} (variant : Variant)
    {result : List Tree} (reads : read result = some value) :
    readArm? read (variant.arm result) = some (variant.spelling, value) := by
  have found : readArm? read (variant.arm result) =
      (read result).map fun value => (variant.spelling, value) := rfl
  rw [found, reads, Option.map_some]

/-- The tables that variants are written for. -/
def RuleTables.ofVariants (variants : List Variant) : RuleTables where
  variants := variants.map Variant.spelling
  all := variants.map Variant.spelling
  names := variants.map fun variant => (variant.spelling, variant.definition.name.name)
  alternatives := variants.map fun variant =>
    (variant.spelling, variant.definition.alternatives.map Identifier.name)

/-- What follows the enumeration is not looked at. -/
theorem RuleTables.read?_enumTrees (variants : List Variant) (rest : List Tree) :
    RuleTables.read? (enumTrees variants ++ rest) = some (.ofVariants variants) := by
  obtain ⟨tables, there, slice, nameArms, alternativesArms⟩ : ∃ tables,
      blockOf? "impl" "Rule" (enumTrees variants ++ rest) = some tables ∧
      constantValue? "ALL" tables =
        some [.point '&', .group .bracket (Tree.separated (variants.map Variant.path))] ∧
      blockOf? "fn" "name" tables = some [.word "match", .word "self",
        .group .brace (Tree.separated (variants.map Variant.nameArm))] ∧
      blockOf? "fn" "rhs_names" tables = some [.word "match", .word "self",
        .group .brace (Tree.separated (variants.map Variant.alternativesArm))] :=
    ⟨_, rfl, rfl, rfl, rfl⟩
  have enumeration : blockOf? "enum" "Rule" (enumTrees variants ++ rest) =
      some (Tree.separated (variants.map fun variant => [.word variant.spelling])) := rfl
  have words : (commaRows (Tree.separated (variants.map fun v => [Tree.word v.spelling]))).mapM
      readWord? = some (variants.map Variant.spelling) :=
    mapM_commaRows (fun _ _ => rfl) fun _ _ => rfl
  have all : (commaRows (Tree.separated (variants.map Variant.path))).mapM readWholeVariant? =
      some (variants.map Variant.spelling) :=
    mapM_commaRows (fun _ _ => rfl) fun _ _ => rfl
  have names : matchArms? "name" readText? tables =
      some (variants.map fun v => (v.spelling, v.definition.name.name)) := by
    rw [matchArms?, nameArms]
    exact mapM_commaRows (fun _ _ => rfl) fun v _ => readArm?_arm v (readText?_ofText _)
  have alternatives : matchArms? "rhs_names" readTexts? tables =
      some (variants.map fun v => (v.spelling, v.definition.alternatives.map Identifier.name)) := by
    rw [matchArms?, alternativesArms]
    exact mapM_commaRows (fun _ _ => rfl) fun v _ => readArm?_arm v (readTexts?_names _)
  simp only [RuleTables.read?, enumeration, words, there, slice, sliceRows?, Tree.point, all,
    names, alternatives, Option.bind_eq_bind, Option.bind_some, Option.pure_def]
  rfl

/-- A table with one entry for each variant gives that of each. -/
theorem RuleTables.rows?_ofVariants {variants : List Variant}
    (distinct : (variants.map Variant.spelling).Nodup) :
    (RuleTables.ofVariants variants).rows? =
      some (variants.map fun variant => variant.definition.row) := by
  rw [RuleTables.rows?, RuleTables.ofVariants, List.mapM_map]
  apply mapM_eq_pure_map
  intro variant member
  have name : (variants.map fun v => (v.spelling, v.definition.name.name)).lookup
      variant.spelling = some variant.definition.name.name :=
    lookup_map distinct member
  have alternatives : (variants.map fun v =>
      (v.spelling, v.definition.alternatives.map Identifier.name)).lookup variant.spelling =
        some (variant.definition.alternatives.map Identifier.name) :=
    lookup_map distinct member
  simp only [Function.comp, name, alternatives, Option.bind_eq_bind, Option.bind_some]
  rfl

/-! ## Spellings -/

theorem not_isWord_raw (name : String) : ¬ IsWord ("r#" ++ name).toList := by
  rw [String.toList_append]
  rintro ⟨-, more⟩
  exact Bool.false_ne_true more

/-- No word takes the spelling of another. -/
theorem spelledOut_inj {special : List String} {one other : String} (word : IsWord one.toList)
    (otherWord : IsWord other.toList) (same : spelledOut special one = spelledOut special other) :
    one = other := by
  unfold spelledOut at same
  split at same <;> split at same
  · exact (String.append_right_inj _).mp same
  · exact absurd otherWord (same ▸ not_isWord_raw one)
  · exact absurd word (same ▸ not_isWord_raw other)
  · exact same

theorem isSpelling_spelledOut {special : List String} {name : String} (word : IsWord name.toList)
    (free : name ∉ reservedNames) : IsSpelling special (spelledOut special name) := by
  unfold spelledOut
  split
  · exact .inr ⟨name, word, free, rfl⟩
  · rename_i plain
    exact .inl ⟨word, plain⟩

theorem Identifier.variantBy_eq {accepts : String → Bool} {special : List String}
    {identifier : Identifier} (knows : accepts identifier.name = false ↔ identifier.name ∈ special)
    (free : identifier.name ∉ reservedNames) :
    identifier.variantBy accepts = .ok (spelledOut special identifier.name) := by
  rw [Identifier.variantBy, if_neg free, spelledOut]
  by_cases word : identifier.name ∈ special
  · rw [if_pos word, knows.mpr word]
    rfl
  · rw [if_neg word, eq_true_of_ne_false (mt knows.mp word)]
    rfl

/-! ## Grammars -/

/-- The variants of a grammar that are spelled as a list of special words demands. -/
def Grammar.spelledVariants (grammar : Grammar) (special : List String) : List Variant :=
  grammar.definitions.map fun definition =>
    ⟨spelledOut special definition.name.name, definition⟩

/-- Only names of rules are names of definitions. -/
theorem Grammar.free_definitions (grammar : Grammar)
    (free : ∀ rule ∈ grammar.rules, rule.lhs.name ∉ reservedNames) :
    ∀ definition ∈ grammar.definitions, definition.name.name ∉ reservedNames := by
  intro definition member
  obtain ⟨rule, here, same⟩ := exists_rule_of_definition member
  rw [← same]
  exact free rule here

section
variable {grammar : Grammar} (valid : grammar.Valid)
include valid

theorem Grammar.Valid.isWord {definition : Definition} (member : definition ∈ grammar.definitions) :
    IsWord definition.name.name.toList := by
  obtain ⟨rule, here, same⟩ := Grammar.exists_rule_of_definition member
  rw [← same]
  exact (valid rule here).1

theorem Grammar.Valid.nodup_spellings (special : List String) :
    (grammar.definitions.map fun definition => spelledOut special definition.name.name).Nodup := by
  have names : (grammar.definitions.map Definition.name).Nodup := by
    rw [grammar.names_definitions]
    exact nodup_definedNames grammar.rules
  apply List.Nodup.map_on _ names.of_map
  intro one member other otherMember same
  have name : one.name.name = other.name.name :=
    spelledOut_inj (valid.isWord member) (valid.isWord otherMember) same
  apply List.inj_on_of_nodup_map names member otherMember
  exact congrArg Identifier.mk name

theorem Grammar.Valid.variantsBy_eq {accepts : String → Bool} {special : List String}
    (knows : ∀ word : String, IsWord word.toList → (accepts word = false ↔ word ∈ special))
    (free : ∀ definition ∈ grammar.definitions, definition.name.name ∉ reservedNames) :
    grammar.variantsBy accepts = .ok (grammar.spelledVariants special) := by
  apply mapM_eq_pure_map
  intro definition member
  have name := knows definition.name.name (valid.isWord member)
  rw [Identifier.variantBy_eq name (free definition member)]
  rfl

theorem Grammar.Valid.describes {special : List String}
    (free : ∀ definition ∈ grammar.definitions, definition.name.name ∉ reservedNames) :
    (RuleTables.ofVariants (grammar.spelledVariants special)).Describes special
      grammar.definitions := by
  have distinct : ((grammar.spelledVariants special).map Variant.spelling).Nodup := by
    rw [Grammar.spelledVariants, List.map_map]
    exact valid.nodup_spellings special
  constructor
  · exact List.map_map
  · rfl
  · exact List.map_map
  · exact List.map_map
  · exact distinct
  · intro spelling member
    obtain ⟨variant, here, rfl⟩ := List.mem_map.mp member
    obtain ⟨definition, there, rfl⟩ := List.mem_map.mp here
    exact isSpelling_spelledOut (valid.isWord there) (free definition there)
  · rw [RuleTables.rows?_ofVariants distinct, Grammar.spelledVariants, List.map_map]
    rfl

end

/-- **The enumeration describes its grammar.** For every text that is accepted and gives no
rule to a reserved name, the variants can be spelled. What is written for them is read back
as one variant for each definition, a list of them all, and two matches with an arm for
each, all in the order of the definitions. Exactly the special words take the raw spelling,
every spelling is an identifier, and no two are the same. The arms that the list selects
give the definitions. Which words are special is up to the language that is written: all
that is asked is that its test of names accepts the other words, and none of these. -/
theorem enumeration_describes_grammar {accepts : String → Bool} {special : List String}
    (knows : ∀ word : String, IsWord word.toList → (accepts word = false ↔ word ∈ special))
    {text : String} {grammar : Grammar} (accepted : Grammar.parse text = .ok grammar)
    (free : ∀ rule ∈ grammar.rules, rule.lhs.name ∉ reservedNames) :
    ∃ variants tables, grammar.variantsBy accepts = .ok variants ∧
      RuleTables.read? (enumTrees variants) = some tables ∧
      tables.Describes special grammar.definitions := by
  obtain ⟨written, -, rfl⟩ := Grammar.parse_eq_ok_iff.mp accepted
  have valid : written.grammar.Valid := written.valid
  have names := written.grammar.free_definitions free
  refine ⟨_, _, valid.variantsBy_eq knows names, ?_, valid.describes names⟩
  rw [← List.append_nil (enumTrees _)]
  exact RuleTables.read?_enumTrees _ []

theorem isName_eq_false_iff {word : String} :
    isName word = false ↔ word ∈ reservedNames ++ keywords := by
  rw [isName, Bool.not_eq_false', List.contains_iff_mem]

/-- A name that is special and comes again behind another. -/
theorem special_and_repeated_names_described :
    Grammar.parse "type = b ; c = type ; type = c ;" =
      .ok ⟨[⟨⟨"type"⟩, ⟨"b"⟩⟩, ⟨⟨"c"⟩, ⟨"type"⟩⟩, ⟨⟨"type"⟩, ⟨"c"⟩⟩]⟩ ∧
    ∃ variants tables,
      (Grammar.mk [⟨⟨"type"⟩, ⟨"b"⟩⟩, ⟨⟨"c"⟩, ⟨"type"⟩⟩, ⟨⟨"type"⟩, ⟨"c"⟩⟩]).variants =
        .ok variants ∧
      RuleTables.read? (enumTrees variants) = some tables ∧
      tables.variants = ["r#type", "c"] ∧
      tables.rows? = some [("type", ["b", "c"]), ("c", ["type"])] := by
  have accepted : Grammar.parse "type = b ; c = type ; type = c ;" =
      .ok ⟨[⟨⟨"type"⟩, ⟨"b"⟩⟩, ⟨⟨"c"⟩, ⟨"type"⟩⟩, ⟨⟨"type"⟩, ⟨"c"⟩⟩]⟩ := by
    decide +kernel
  obtain ⟨variants, tables, spelled, read, describes⟩ :=
    enumeration_describes_grammar (fun _ _ => isName_eq_false_iff) accepted (by decide)
  refine ⟨accepted, variants, tables, spelled, read, ?_, ?_⟩
  · rw [describes.variants]
    decide
  · rw [describes.rows]
    rfl

end Metasyntax
