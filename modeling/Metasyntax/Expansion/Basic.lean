import Metasyntax.Reading
import Metasyntax.Expansion.Variant
import Metasyntax.Expansion.Item

/-! Expanding an annotated item. One of its attributes gives a grammar, in place
or by the path of a file; the expansion is an enumeration of the names that the
grammar defines, and a constant of the item that holds the text of the grammar. -/
namespace Metasyntax

inductive GrammarSource where
  | inPlace (text : String)
  | file (path text : String)
  deriving DecidableEq, Repr

def GrammarSource.text : GrammarSource → String
  | .inPlace text | .file _ text => text

/-- Where paths start, and the files they may lead to. -/
structure Surroundings where
  root : Option String
  tree : FileTree

/-- The path of a grammar file starts at the root, or else at the current directory. -/
def Surroundings.resolve (surroundings : Surroundings) (path : String) : String :=
  joinPath (surroundings.root.getD ".") path

def fileAttribute : String := "ebnf_file"

def inPlaceAttribute : String := "ebnf_inline"

def Attribute.givesGrammar (attr : Attribute) : Bool :=
  attr.name? = some fileAttribute || attr.name? = some inPlaceAttribute

/-- The grammar that an attribute gives. -/
def Attribute.grammarSource (attr : Attribute) (surroundings : Surroundings) :
    Except ExpansionError GrammarSource :=
  match attr.assigned? with
  | .error fault => .error (.malformedBody fault)
  | .ok none => .error .noValue
  | .ok (some ⟨_, none⟩) => .error .notString
  | .ok (some ⟨_, some value⟩) =>
    if attr.name? = some fileAttribute then
      let path := surroundings.resolve value
      match surroundings.tree.read path with
      | .ok text => .ok (.file path text)
      | .error fault => .error (.unreadable path fault)
    else .ok (.inPlace value)

/-- Exactly one attribute must give a grammar. -/
def Item.grammarSource (item : Item) (surroundings : Surroundings) :
    Except ExpansionError GrammarSource :=
  match item.attributes.filter Attribute.givesGrammar with
  | [] => .error .missingSource
  | [attr] => attr.grammarSource surroundings
  | _ :: _ :: _ => .error .multipleSources

structure Expansion where
  variants : List Variant
  item : Item
  source : GrammarSource

def expand (item : Item) (surroundings : Surroundings) : Except ExpansionError Expansion := do
  let source ← item.grammarSource surroundings
  let grammar ← (Grammar.parse source.text).mapError .grammar
  let variants ← grammar.variants
  return ⟨variants, item, source⟩

/-! ## The program text of an expansion -/

/-- A reference to an array of static lifetime. -/
def staticSlice (element : List Tree) : List Tree :=
  .point '&' :: Tree.lifetime "static" ++ [.group .bracket element]

def staticText : List Tree := .point '&' :: Tree.lifetime "static" ++ [.word "str"]

def nameLiteral (identifier : Identifier) : Tree := .literal (.ofText identifier.name)

def Variant.path (variant : Variant) : List Tree :=
  .word "Rule" :: Tree.sign [':', ':'] ++ [.word variant.spelling]

/-- What a variant is matched to. -/
def Variant.arm (variant : Variant) (result : List Tree) : List Tree :=
  variant.path ++ Tree.sign ['=', '>'] ++ result

def Variant.nameArm (variant : Variant) : List Tree :=
  variant.arm [nameLiteral variant.definition.name]

def Variant.alternativesArm (variant : Variant) : List Tree :=
  variant.arm
    [.point '&', .group .bracket
      (Tree.separated (variant.definition.alternatives.map fun i => [nameLiteral i]))]

/-- A function of a rule that distinguishes the variants. -/
def matchFunction (name : String) (type : List Tree) (arms : List (List Tree)) : List Tree :=
  [.word "pub", .word "fn", .word name, .group .parenthesis [.word "self"]] ++
    Tree.sign ['-', '>'] ++ type ++
    [.group .brace [.word "match", .word "self", .group .brace (Tree.separated arms)]]

/-- An attribute that is a list of names. -/
def listAttribute (name : String) (names : List String) : List Tree :=
  [.point '#', .group .bracket
    [.word name, .group .parenthesis (Tree.separated (names.map fun name => [.word name]))]]

/-- The enumeration, and its tables: all variants, the name of each, and what
each is defined as. -/
def enumTrees (variants : List Variant) : List Tree :=
  listAttribute "allow" ["non_camel_case_types"] ++
    listAttribute "derive" ["Copy", "Clone", "Debug", "PartialEq", "Eq", "Hash"] ++
    [.word "pub", .word "enum", .word "Rule", .group .brace
        (Tree.separated (variants.map fun variant => [.word variant.spelling])),
      .word "impl", .word "Rule", .group .brace
        ([.word "pub", .word "const", .word "ALL", .point ':'] ++ staticSlice [.word "Rule"] ++
          [.point '=', .point '&', .group .bracket
            (Tree.separated (variants.map Variant.path)), .point ';'] ++
          matchFunction "name" staticText (variants.map Variant.nameArm) ++
          matchFunction "rhs_names" (staticSlice staticText)
            (variants.map Variant.alternativesArm))]

/-- The text of the grammar, as a literal or as the contents of its file. -/
def GrammarSource.trees : GrammarSource → List Tree
  | .inPlace text => [.literal (.ofText text)]
  | .file path _ =>
    [.word "include_str", .point '!', .group .parenthesis [.literal (.ofText path)]]

def constantTrees (item : Item) (source : GrammarSource) : List Tree :=
  .word "impl" :: parameterTrees Parameter.introduced item.parameters ++ .word item.name ::
    parameterTrees (fun _ => Parameter.used) item.parameters ++ whereTrees item.predicates ++
    [.group .brace
      ([.word "pub", .word "const", .word "SOURCE", .point ':'] ++ staticText ++ .point '=' ::
        source.trees ++ [.point ';'])]

def Expansion.trees (expansion : Expansion) : List Tree :=
  enumTrees expansion.variants ++ constantTrees expansion.item expansion.source

end Metasyntax
