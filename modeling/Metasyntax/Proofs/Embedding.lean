import Metasyntax.Proofs.SourceText
import Metasyntax.Token.Scan

/-! The texts that an expansion holds stay inside their literals. Wherever the literal of a
text stands in a program text, it is read from its opening quote to its closing quote and
no further, and no text can be mistaken for another. -/
namespace Metasyntax

/-! ## The characters of a literal -/

theorem mem_toDigits {n : Nat} {c : Char} (member : c ∈ Nat.toDigits 16 n) :
    ∃ digit < 16, c = Nat.digitChar digit := by
  induction n using Nat.strongRecOn with
  | ind n ih =>
    by_cases small : n < 16
    · rw [Nat.toDigits_of_lt_base small, List.mem_singleton] at member
      exact ⟨n, small, member⟩
    · have last : n % 16 < 16 := Nat.mod_lt n (by omega)
      rw [Nat.toDigits_of_base_le (by omega) (by omega), List.mem_append, List.mem_singleton]
        at member
      rcases member with front | back
      · exact ih (n / 16) (by omega) front
      · exact ⟨_, last, back⟩

theorem digitChar_plain : ∀ digit < 16, Nat.digitChar digit ≠ '"' ∧
    0x1F < (Nat.digitChar digit).toNat ∧ (Nat.digitChar digit).toNat < 0x7F := by decide

theorem isHidden_of_mem {cs : List Char} {c : Char}
    (printable : (cs.all fun c => 0x1F < c.toNat && c.toNat < 0x7F) = true) (member : c ∈ cs) :
    isHidden c = false := by
  have bounds := List.all_eq_true.mp printable c member
  simp only [Bool.and_eq_true, decide_eq_true_eq] at bounds
  exact isHidden_of_printable bounds.1 bounds.2

theorem isHidden_of_mem_escape {c d : Char} (member : d ∈ escape c) : isHidden d = false := by
  unfold escape at member
  split at member
  iterate 6 exact isHidden_of_mem (by decide) member
  split at member
  · have parts : d ∈ ['\\', 'u', '\x7b'] ++ (Nat.toDigits 16 c.toNat ++ ['\x7d']) := member
    rcases List.mem_append.mp parts with opening | later
    · exact isHidden_of_mem (by decide) opening
    · rcases List.mem_append.mp later with digit | closing
      · obtain ⟨_, small, rfl⟩ := mem_toDigits digit
        obtain ⟨-, low, high⟩ := digitChar_plain _ small
        exact isHidden_of_printable low high
      · exact isHidden_of_mem (by decide) closing
  · rename_i shown
    obtain rfl := List.mem_singleton.mp member
    exact Bool.eq_false_iff.mpr shown

theorem isHidden_of_mem_escapeAll {text : List Char} {d : Char} (member : d ∈ escapeAll text) :
    isHidden d = false := by
  induction text with
  | nil => exact absurd member List.not_mem_nil
  | cons c text ih =>
    rw [escapeAll, List.mem_append] at member
    rcases member with here | later
    · split at here
      · exact isHidden_of_mem (by decide) here
      · exact isHidden_of_mem_escape here
    · exact ih later

/-- Nothing in a literal is hidden: it stands on one line, and has no tabs. -/
theorem isHidden_of_mem_quoteChars {text : List Char} {d : Char} (member : d ∈ quoteChars text) :
    isHidden d = false := by
  have parts : d ∈ ['"'] ++ (escapeAll text ++ ['"']) := member
  rcases List.mem_append.mp parts with opening | later
  · exact isHidden_of_mem (by decide) opening
  · rcases List.mem_append.mp later with body | closing
    · exact isHidden_of_mem_escapeAll body
    · exact isHidden_of_mem (by decide) closing

theorem eq_quote_of_mem_escape {c : Char} (member : '"' ∈ escape c) : c = '"' := by
  unfold escape at member
  split at member
  · rfl
  iterate 5 simp at member
  split at member
  · have digit : '"' ∈ Nat.toDigits 16 c.toNat := by simpa using member
    obtain ⟨_, small, same⟩ := mem_toDigits digit
    exact absurd same.symm (digitChar_plain _ small).1
  · exact (List.mem_singleton.mp member).symm

/-- No quote inside a literal stands without a backslash in front of it. -/
theorem backslash_before_quote {text front back : List Char}
    (split : escapeAll text = front ++ '"' :: back) : ∃ more, front = more ++ ['\\'] := by
  induction text generalizing front with
  | nil => simp [escapeAll] at split
  | cons c text ih =>
    rw [escapeAll] at split
    rcases List.append_eq_append_iff.mp split with ⟨more, rfl, later⟩ | ⟨more, here, later⟩
    · obtain ⟨front, rfl⟩ := ih later
      exact ⟨_, (List.append_assoc _ _ _).symm⟩
    · cases more with
      | nil =>
        have empty : ∃ more, [] = more ++ ['\\'] := ih later.symm
        simp at empty
      | cons d more =>
        obtain ⟨rfl, rfl⟩ := List.cons.inj later
        have member : '"' ∈ front ++ '"' :: more := List.mem_append_right _ List.mem_cons_self
        split at here
        · rw [← here] at member
          simp at member
        · obtain rfl := eq_quote_of_mem_escape (here ▸ member)
          have pair : ['\\', '"'] = front ++ '"' :: more := here
          cases front with
          | nil => simp at pair
          | cons first front =>
            obtain ⟨rfl, others⟩ := List.cons.inj pair
            cases front with
            | nil => exact ⟨[], rfl⟩
            | cons second front => simp at others

theorem escapeAll_inj {text other : List Char} (same : escapeAll text = escapeAll other) :
    text = other := by
  have read := readQuotedFrom_escapeAll text []
  rw [same, readQuotedFrom_escapeAll other []] at read
  cases read
  rfl

/-- A literal does not open inside another one. -/
theorem eq_nil_of_quote_inside {front gap text same : List Char}
    (plain : (front ++ gap).getLast? ≠ some '\\')
    (inside : '"' :: escapeAll text = gap ++ '"' :: escapeAll same) : gap = [] := by
  cases gap with
  | nil => rfl
  | cons quote gap =>
    obtain ⟨-, later⟩ := List.cons.inj inside
    obtain ⟨more, rfl⟩ := backslash_before_quote later
    have last : (front ++ quote :: (more ++ ['\\'])).getLast? = some '\\' := by
      rw [← List.cons_append, ← List.append_assoc, List.getLast?_concat]
    exact absurd last plain

/-- Of all literals in a text the last, behind which there is no quote, is the same however
it is found. No backslash may be in front of it. -/
theorem last_literal_unique {before other text same after rest : List Char}
    (plain : before.getLast? ≠ some '\\') (otherPlain : other.getLast? ≠ some '\\')
    (noQuote : '"' ∉ after) (otherNoQuote : '"' ∉ rest)
    (alike : before ++ (quoteChars text ++ after) = other ++ (quoteChars same ++ rest)) :
    before = other ∧ text = same ∧ after = rest := by
  have closing (front text after : List Char) : (front ++ (quoteChars text ++ after)).reverse =
      after.reverse ++ '"' :: (front ++ '"' :: escapeAll text).reverse := by
    simp [quoteChars]
  have apart {tail : List Char} (none : '"' ∉ tail) : ∀ c ∈ tail.reverse, (c != '"') = true := by
    rintro c member
    refine bne_iff_ne.mpr ?_
    rintro rfl
    exact none (List.mem_reverse.mp member)
  -- Read from the end, the first quote is the closing one.
  have reversed := congrArg List.reverse alike
  rw [closing, closing] at reversed
  have stops (front : List Char) : Stops (· != '"') ('"' :: front) := rfl
  obtain ⟨tails, opened⟩ :=
    Stops.append_inj (stops _) (stops _) (apart noQuote) (apart otherNoQuote) reversed
  have opening : before ++ '"' :: escapeAll text = other ++ '"' :: escapeAll same :=
    List.reverse_injective (List.cons.inj opened).2
  have fronts : before = other := by
    rcases List.append_eq_append_iff.mp opening with ⟨gap, rfl, inside⟩ | ⟨gap, rfl, inside⟩
    · rw [eq_nil_of_quote_inside otherPlain inside, List.append_nil]
    · rw [eq_nil_of_quote_inside plain inside, List.append_nil]
  subst fronts
  have texts := (List.cons.inj (List.append_cancel_left opening)).2
  exact ⟨rfl, escapeAll_inj texts, List.reverse_injective tails⟩

/-! ## Literals in a program text -/

/-- What opens a group that is not empty, and what closes it. -/
def Delimiter.marks : Delimiter → List Char × List Char
  | .parenthesis => (['('], [')'])
  | .bracket => (['['], [']'])
  | .brace => (['\x7b', ' '], [' ', '\x7d'])

/-- What is rendered behind a tree that others follow. -/
def Tree.behind (tree : Tree) (rest : List Tree) : List Char :=
  if rest.isEmpty then [] else tree.gap.toList ++ (Tree.renderAll rest).toList

@[simp]
theorem Tree.gap_literal (value : Literal) : (literal value).gap = " " := by
  rw [gap]
  nofun

@[simp]
theorem Tree.gap_group (delimiter : Delimiter) (body : List Tree) :
    (group delimiter body).gap = " " := by
  rw [gap]
  nofun

/-- Among the trees is the literal of a text, at any depth, with what is rendered before it
and what is rendered behind it. -/
inductive Tree.Shows (text : String) : List Tree → List Char → List Char → Prop where
  | here (rest : List Tree) :
      Shows text (.literal (.ofText text) :: rest) [] (behind (.literal (.ofText text)) rest)
  | inside {body : List Tree} {before after : List Char} (delimiter : Delimiter)
      (rest : List Tree) (shown : Shows text body before after) :
      Shows text (.group delimiter body :: rest) (delimiter.marks.1 ++ before)
        (after ++ (delimiter.marks.2 ++ behind (.group delimiter body) rest))
  | later {rest : List Tree} {before after : List Char} (tree : Tree)
      (shown : Shows text rest before after) :
      Shows text (tree :: rest) (tree.render.toList ++ (tree.gap.toList ++ before)) after

theorem Tree.toList_renderAll_cons (tree : Tree) (rest : List Tree) :
    (renderAll (tree :: rest)).toList = tree.render.toList ++ tree.behind rest := by
  cases rest with
  | nil => simp [renderAll, behind]
  | cons next rest => simp [renderAll, behind, String.toList_append]

theorem Tree.Shows.ne_nil {text : String} {trees : List Tree} {before after : List Char}
    (shown : Shows text trees before after) : trees ≠ [] := by
  cases shown <;> exact List.cons_ne_nil _ _

theorem Delimiter.toList_enclose (delimiter : Delimiter) {body : String} (some : body ≠ "") :
    (delimiter.enclose body).toList =
      delimiter.marks.1 ++ (body.toList ++ delimiter.marks.2) := by
  have goesOn : body.isEmpty = false := by simpa using some
  cases delimiter <;> simp [enclose, marks, goesOn, String.toList_append]

theorem Tree.Shows.toList_renderAll {text : String} {trees : List Tree} {before after : List Char}
    (shown : Shows text trees before after) :
    (renderAll trees).toList = before ++ (quoteChars text.toList ++ after) := by
  induction shown with
  | here rest =>
    have rendered : (literal (.ofText text)).render.toList = quoteChars text.toList := by
      rw [render, Literal.ofText, quote, String.toList_ofList]
    rw [toList_renderAll_cons, rendered, List.nil_append]
  | @inside body before after delimiter rest _ ih =>
    have some : renderAll body ≠ "" := by
      intro empty
      rw [empty] at ih
      simp [quoteChars] at ih
    rw [toList_renderAll_cons, render, delimiter.toList_enclose some, ih]
    simp
  | later tree shown ih =>
    rw [toList_renderAll_cons, behind, if_neg (by simpa using shown.ne_nil), ih]
    simp

/-- Behind a literal there is a blank, a bracket that closes, or nothing. -/
theorem Tree.Shows.stops_after {text : String} {trees : List Tree} {before after : List Char}
    (shown : Shows text trees before after) : Stops isNameStart after := by
  induction shown with
  | here rest =>
    rw [behind, gap_literal]
    split
    · trivial
    · exact (by decide : isNameStart ' ' = false)
  | @inside body before after delimiter rest _ ih =>
    cases after with
    | nil =>
      cases delimiter with
      | parenthesis => exact (by decide : isNameStart ')' = false)
      | bracket => exact (by decide : isNameStart ']' = false)
      | brace => exact (by decide : isNameStart ' ' = false)
    | cons => exact ih
  | later _ _ ih => exact ih

/-! ## Literals as tokens -/

theorem quoteChars_append (text after : List Char) :
    quoteChars text ++ after = '"' :: (escapeAll text ++ '"' :: after) := by
  simp [quoteChars]

theorem readLiteral?_quoteChars (text : String) {after : List Char}
    (stops : Stops isNameStart after) :
    readLiteral? (quoteChars text.toList ++ after) = some (.ofText text, after) := by
  have read := readQuotedFrom_escapeAll text.toList after
  have tail : afterLiteral? (quoteChars text.toList ++ after) = some after := by
    rw [quoteChars_append]
    change (readQuotedFrom .plain _).map Prod.snd = some after
    rw [read, Option.map_some]
  have value : leadingText? (quoteChars text.toList ++ after) = some text.toList := by
    rw [quoteChars_append]
    change (readQuotedFrom .plain _).map Prod.fst = some text.toList
    rw [read, Option.map_some]
  have noSuffix : afterSuffix after = after := by
    cases after with
    | nil => rfl
    | cons c after => exact if_neg (Bool.eq_false_iff.mp stops)
  have spelling : (quoteChars text.toList ++ after).take
      ((quoteChars text.toList ++ after).length - after.length) = quoteChars text.toList := by
    rw [List.length_append, Nat.add_sub_cancel, List.take_left]
  simp only [readLiteral?, tail, value, Option.map_some, noSuffix, spelling, String.ofList_toList]
  rfl

theorem lexemes_quoteChars (text : String) {after : List Char} (stops : Stops isNameStart after) :
    lexemes (quoteChars text.toList ++ after) =
      .tree (.literal (.ofText text)) :: lexemes after := by
  have read := readLiteral?_quoteChars text stops
  rw [quoteChars_append] at read ⊢
  have aside (rest : List Char) : readAside? '"' rest = none := by
    rw [readAside?, if_neg (by decide), if_neg (by simp)]
  have lexeme : readLexeme '"' (escapeAll text.toList ++ '"' :: after) =
      ([.tree (.literal (.ofText text))], after) := by
    have noBracket : Lexeme.bracket? '"' = none := rfl
    simp only [readLexeme, aside, noBracket, read]
  rw [lexemes, if_neg (by decide), lexeme]
  rfl

/-! ## The literals of an expansion -/

mutual

/-- The literals of a tree, at any depth. -/
def Tree.literals : Tree → List Literal
  | .literal value => [value]
  | .group _ body => Tree.allLiterals body
  | _ => []

def Tree.allLiterals : List Tree → List Literal
  | [] => []
  | tree :: trees => tree.literals ++ Tree.allLiterals trees

end

theorem Tree.allLiterals_append (front back : List Tree) :
    allLiterals (front ++ back) = allLiterals front ++ allLiterals back := by
  induction front with
  | nil => rfl
  | cons tree front ih => rw [List.cons_append, allLiterals, allLiterals, ih, List.append_assoc]

theorem Tree.allLiterals_separated (rows : List (List Tree)) :
    allLiterals (separated rows) = rows.flatMap allLiterals := by
  fun_induction separated rows with
  | case1 => rfl
  | case2 row => simp
  | case3 row rows more ih =>
    rw [allLiterals_append, allLiterals, ih]
    simp [literals, point]

theorem Tree.exists_shows {text : String} : (trees : List Tree) →
    Literal.ofText text ∈ allLiterals trees → ∃ before after, Shows text trees before after
  | [], member => absurd member List.not_mem_nil
  | .literal value :: rest, member => by
    rcases List.mem_cons.mp member with rfl | later
    · exact ⟨_, _, .here rest⟩
    · obtain ⟨before, after, shown⟩ := exists_shows rest later
      exact ⟨_, after, shown.later _⟩
  | .group delimiter body :: rest, member => by
    rcases List.mem_append.mp member with inside | later
    · obtain ⟨before, after, shown⟩ := exists_shows body inside
      exact ⟨_, _, shown.inside delimiter rest⟩
    · obtain ⟨before, after, shown⟩ := exists_shows rest later
      exact ⟨_, after, shown.later _⟩
  | .word _ :: rest, member | .mark _ _ :: rest, member => by
    obtain ⟨before, after, shown⟩ := exists_shows rest member
    exact ⟨_, after, shown.later _⟩

/-- The text that a source has a literal for. -/
def GrammarSource.written : GrammarSource → String
  | .inPlace text => text
  | .file path _ => path

/-- The texts that an expansion has literals for: the names of the rules, what they are
defined as, and the text of the grammar or the path of its file. -/
def Expansion.texts (expansion : Expansion) : List String :=
  expansion.variants.map (fun variant => variant.definition.name.name) ++
    expansion.variants.flatMap (fun variant =>
      variant.definition.alternatives.map Identifier.name) ++
    [expansion.source.written]

theorem Tree.allLiterals_plain_rows {α : Type} {write : α → List Tree}
    (each : ∀ a, allLiterals (write a) = []) (l : List α) :
    allLiterals (separated (l.map write)) = [] := by
  rw [allLiterals_separated, List.flatMap_map]
  exact List.flatMap_eq_nil_iff.mpr fun a _ => each a

/-- Rows that each hold the literals of known texts. -/
theorem Tree.allLiterals_rows {α : Type} {write : α → List Tree} {texts : α → List String}
    (each : ∀ a, allLiterals (write a) = (texts a).map Literal.ofText) (l : List α) :
    allLiterals (separated (l.map write)) = (l.flatMap texts).map Literal.ofText := by
  rw [allLiterals_separated, List.flatMap_map, List.map_flatMap]
  simp only [each]

theorem allLiterals_listAttribute (name : String) (names : List String) :
    Tree.allLiterals (listAttribute name names) = [] := by
  have words : Tree.allLiterals (Tree.separated (names.map fun name => [.word name])) = [] :=
    Tree.allLiterals_plain_rows (fun _ => rfl) names
  simp [listAttribute, Tree.allLiterals, Tree.literals, Tree.point, words]

/-- The literals of a function are those of its arms. -/
theorem allLiterals_matchFunction (name : String) (type : List Tree) (arms : List (List Tree)) :
    Tree.allLiterals (matchFunction name type arms) =
      Tree.allLiterals type ++ Tree.allLiterals (Tree.separated arms) := by
  simp [matchFunction, Tree.allLiterals_append, Tree.allLiterals, Tree.literals, Tree.sign,
    Tree.point]

theorem allLiterals_staticSlice (element : List Tree) :
    Tree.allLiterals (staticSlice element) = Tree.allLiterals element := by
  simp [staticSlice, Tree.lifetime, Tree.allLiterals, Tree.literals, Tree.point]

theorem Variant.allLiterals_arm (variant : Variant) (result : List Tree) :
    Tree.allLiterals (variant.arm result) = Tree.allLiterals result := by
  simp [arm, path, Tree.allLiterals, Tree.literals, Tree.sign, Tree.point]

theorem Variant.allLiterals_alternativesArm (variant : Variant) :
    Tree.allLiterals variant.alternativesArm =
      (variant.definition.alternatives.map Identifier.name).map Literal.ofText := by
  have each (i : Identifier) : Tree.allLiterals [nameLiteral i] = [i.name].map .ofText := rfl
  have names := Tree.allLiterals_rows each variant.definition.alternatives
  rw [← List.map_eq_flatMap] at names
  rw [alternativesArm, allLiterals_arm]
  simp only [Tree.allLiterals, Tree.literals, Tree.point, names, List.nil_append, List.append_nil]

theorem allLiterals_enumTrees (variants : List Variant) :
    Tree.allLiterals (enumTrees variants) =
      (variants.map (fun variant => variant.definition.name.name) ++
        variants.flatMap (fun variant => variant.definition.alternatives.map Identifier.name)).map
        Literal.ofText := by
  have words : Tree.allLiterals (Tree.separated (variants.map fun v => [.word v.spelling])) = [] :=
    Tree.allLiterals_plain_rows (fun _ => rfl) variants
  have paths : Tree.allLiterals (Tree.separated (variants.map Variant.path)) = [] :=
    Tree.allLiterals_plain_rows (fun _ => rfl) variants
  have each (variant : Variant) :
      Tree.allLiterals variant.nameArm = [variant.definition.name.name].map .ofText := rfl
  have names := Tree.allLiterals_rows each variants
  rw [← List.map_eq_flatMap] at names
  have alternatives := Tree.allLiterals_rows Variant.allLiterals_alternativesArm variants
  have type : Tree.allLiterals staticText = [] := rfl
  simp only [enumTrees, Tree.allLiterals_append, allLiterals_listAttribute,
    allLiterals_matchFunction, allLiterals_staticSlice, Tree.allLiterals, Tree.literals, Tree.point,
    type, words, paths, names, alternatives, List.map_append, List.nil_append, List.append_nil]

theorem GrammarSource.allLiterals_trees (source : GrammarSource) :
    Tree.allLiterals source.trees = [.ofText source.written] := by
  cases source <;> rfl

theorem Expansion.allLiterals_texts (expansion : Expansion) :
    Tree.allLiterals (enumTrees expansion.variants) ++ Tree.allLiterals expansion.source.trees =
      expansion.texts.map Literal.ofText := by
  rw [allLiterals_enumTrees, GrammarSource.allLiterals_trees, texts]
  simp only [List.map_append, List.map_cons, List.map_nil]

theorem Expansion.exists_shows {expansion : Expansion} {text : String}
    (member : text ∈ expansion.texts) :
    ∃ before after, Tree.Shows text expansion.trees before after := by
  apply Tree.exists_shows
  have literal : Literal.ofText text ∈ expansion.texts.map Literal.ofText :=
    List.mem_map_of_mem member
  rw [← expansion.allLiterals_texts] at literal
  rw [trees_eq, Item.head]
  simp only [Tree.allLiterals_append, Tree.allLiterals, Tree.literals, List.mem_append] at literal ⊢
  rcases literal with enumeration | constant
  · exact .inl (.inl enumeration)
  · exact .inr (.inl (.inl (.inr constant)))

/-! ## The literal of the source -/

theorem Tree.Shows.behindOf {text : String} {trees : List Tree} {before after : List Char}
    (shown : Shows text trees before after) (head : List Tree) :
    ∃ front, Shows text (head ++ trees) (front ++ before) after := by
  induction head with
  | nil => exact ⟨[], shown⟩
  | cons tree head ih =>
    obtain ⟨front, later⟩ := ih
    refine ⟨tree.render.toList ++ (tree.gap.toList ++ front), ?_⟩
    simpa using later.later tree

/-- What is rendered behind the literal of a source. -/
def GrammarSource.ending : GrammarSource → List Char
  | .inPlace _ => [' ', ';', ' ', '\x7d']
  | .file _ _ => [')', ' ', ';', ' ', '\x7d']

/-- In front of the literal of a source there is a blank or a parenthesis. -/
theorem GrammarSource.shows_written (source : GrammarSource) :
    ∃ (front : List Char) (c : Char), c ≠ '\\' ∧
      Tree.Shows source.written [.group .brace (sourceHead ++ source.trees ++ [.point ';'])]
        (front ++ [c]) source.ending := by
  have semicolon : (Tree.point ';').render.toList = [';'] := rfl
  have equals : (Tree.point '=').render.toList = ['='] ∧ (Tree.point '=').gap.toList = [' '] :=
    ⟨rfl, rfl⟩
  cases source with
  | inPlace text =>
    have shown : Tree.Shows text _ _ _ := (Tree.Shows.here [.point ';']).later (.point '=')
    obtain ⟨front, whole⟩ :=
      shown.behindOf ([.word "pub", .word "const", .word "SOURCE", .point ':'] ++ staticText)
    refine ⟨['\x7b', ' '] ++ (front ++ ['=']), ' ', by decide, ?_⟩
    have enclosed := whole.inside .brace []
    simpa [sourceHead, trees, written, ending, Delimiter.marks, Tree.behind, Tree.renderAll,
      semicolon, equals] using enclosed
  | file path text =>
    have shown : Tree.Shows path _ _ _ := (Tree.Shows.here []).inside .parenthesis [.point ';']
    obtain ⟨front, whole⟩ := shown.behindOf (sourceHead ++ [.word "include_str", .point '!'])
    refine ⟨['\x7b', ' '] ++ front, '(', by decide, ?_⟩
    have enclosed := whole.inside .brace []
    simpa [sourceHead, trees, written, ending, Delimiter.marks, Tree.behind, Tree.renderAll,
      semicolon] using enclosed

theorem Expansion.shows_source (expansion : Expansion) :
    ∃ (front : List Char) (c : Char), c ≠ '\\' ∧
      Tree.Shows expansion.source.written expansion.trees (front ++ [c])
        expansion.source.ending := by
  obtain ⟨front, c, plain, shown⟩ := expansion.source.shows_written
  obtain ⟨more, whole⟩ := shown.behindOf (expansion.item.head expansion.variants)
  rw [← expansion.trees_eq, ← List.append_assoc] at whole
  exact ⟨more ++ front, c, plain, whole⟩

theorem GrammarSource.trees_of_written {source other : GrammarSource}
    (written : source.written = other.written) (endings : source.ending = other.ending) :
    source.trees = other.trees := by
  cases source with
  | inPlace text =>
    cases other with
    | inPlace => exact congrArg (fun text => (inPlace text).trees) written
    | file => exact absurd endings (by simp [ending])
  | file path text =>
    cases other with
    | inPlace => exact absurd endings (by simp [ending])
    | file => exact congrArg (fun path => (file path text).trees) written

theorem GrammarSource.inPlace_inj {text same : String}
    (trees : (inPlace text).trees = (inPlace same).trees) : text = same := by
  have literals := congrArg Tree.allLiterals trees
  rw [allLiterals_trees, allLiterals_trees] at literals
  have texts := congrArg Literal.text (List.singleton_inj.mp literals)
  exact Option.some.inj texts

/-- The program text tells what the constant is set to. -/
theorem Expansion.source_of_render {expansion other : Expansion}
    (same : Tree.renderAll expansion.trees = Tree.renderAll other.trees) :
    expansion.source.trees = other.source.trees := by
  obtain ⟨front, c, plain, shown⟩ := expansion.shows_source
  obtain ⟨otherFront, d, otherPlain, otherShown⟩ := other.shows_source
  have noQuote (source : GrammarSource) : '"' ∉ source.ending := by
    cases source <;> simp [GrammarSource.ending]
  have lastChar {front : List Char} {c : Char} (plain : c ≠ '\\') :
      (front ++ [c]).getLast? ≠ some '\\' := by simpa using plain
  have alike := congrArg String.toList same
  rw [shown.toList_renderAll, otherShown.toList_renderAll] at alike
  obtain ⟨-, texts, endings⟩ := last_literal_unique (lastChar plain) (lastChar otherPlain)
    (noQuote _) (noQuote _) alike
  exact GrammarSource.trees_of_written (String.toList_inj.mp texts) endings

/-! ## Errors -/

theorem lexemes_blank (rest : List Char) : lexemes (' ' :: rest) = lexemes rest := by
  rw [lexemes, if_pos (by decide)]

theorem lexemes_cons {c : Char} (shown : isBlank c = false) (rest : List Char) :
    lexemes (c :: rest) = (readLexeme c rest).1 ++ lexemes (readLexeme c rest).2 := by
  rw [lexemes, if_neg (by simp [shown])]

theorem ExpansionError.toList_renderAll (error : ExpansionError) :
    (Tree.renderAll error.trees).toList =
      "compile_error ! \x7b ".toList ++ (quoteChars error.message.toList ++ [' ', '\x7d']) := by
  have shown : Tree.Shows error.message error.trees _ _ :=
    (((Tree.Shows.here []).inside .brace []).later _).later _
  rw [shown.toList_renderAll]
  rfl

theorem ExpansionError.lexemes_trees (error : ExpansionError) :
    lexemes (Tree.renderAll error.trees).toList =
      [.tree (.word "compile_error"), .tree (.point '!'), .opening .brace,
        .tree (.literal (.ofText error.message)), .closing] := by
  have word (rest : List Char) : readLexeme 'c' ("ompile_error".toList ++ ' ' :: rest) =
      ([.tree (.word "compile_error")], ' ' :: rest) := rfl
  have mark (rest : List Char) : readLexeme '!' (' ' :: rest) =
      ([.tree (.point '!')], ' ' :: rest) := rfl
  have opening (rest : List Char) : readLexeme '\x7b' (' ' :: rest) =
      ([.opening .brace], ' ' :: rest) := rfl
  have read : readLexeme '\x7d' [] = ([.closing], []) := rfl
  have closing : lexemes [' ', '\x7d'] = [.closing] := by
    rw [lexemes_blank, lexemes_cons (by decide), read, lexemes]
    rfl
  have stops : Stops isNameStart [' ', '\x7d'] := (by decide : isNameStart ' ' = false)
  have front (rest : List Char) : "compile_error ! \x7b ".toList ++ rest =
      'c' :: ("ompile_error".toList ++ ' ' :: '!' :: ' ' :: '\x7b' :: ' ' :: rest) := by simp
  rw [error.toList_renderAll, front, lexemes_cons (by decide), word, lexemes_blank,
    lexemes_cons (by decide), mark, lexemes_blank, lexemes_cons (by decide), opening,
    lexemes_blank, lexemes_quoteChars _ stops, closing]
  rfl

/-- The program text of an error is read back as the tokens it was written for. -/
theorem ExpansionError.scan_renderAll (error : ExpansionError) :
    Tree.scan (Tree.renderAll error.trees) = error.trees := by
  rw [Tree.scan, error.lexemes_trees]
  rfl

/-- The message with which a program text fails to compile, if it is nothing else. -/
def compileError? : List Tree → Option String
  | [.word "compile_error", .mark '!' _, .group .brace [.literal value]] => value.value?
  | _ => none

theorem ExpansionError.compileError?_trees (error : ExpansionError) :
    compileError? error.trees = some error.message :=
  Literal.value?_ofText error.message

/-- **Embedded texts stay in their literals.** Wherever a program text shows the literal of
a text, reading from the opening quote on ends behind the closing one with just that text,
and the next token is that literal and no other; nothing in between is hidden. The literals
of an expansion are those of its texts, and all of them are shown. Texts that are given in
place make different program texts if they are different. The program text of an error is
read as one token tree that fails to compile with its message. -/
theorem embedded_texts_stay_in_their_literals :
    (∀ (text : String) (trees : List Tree) (before after : List Char),
      Tree.Shows text trees before after →
      let emitted := (Tree.renderAll trees).toList
      emitted = before ++ (quoteChars text.toList ++ after) ∧
      (∀ c ∈ quoteChars text.toList, isHidden c = false) ∧
      readQuoted (emitted.drop before.length) = some (text.toList, after) ∧
      lexemes (emitted.drop before.length) = .tree (.literal (.ofText text)) :: lexemes after) ∧
    (∀ (item : Item) (surroundings : Surroundings) (expansion : Expansion),
      expand item surroundings = .ok expansion →
      Tree.allLiterals (enumTrees expansion.variants) ++
          Tree.allLiterals expansion.source.trees = expansion.texts.map Literal.ofText ∧
      ∀ text ∈ expansion.texts, ∃ before after, Tree.Shows text expansion.trees before after) ∧
    (∀ (item other : Item) (here there : Surroundings) (expansion instead : Expansion)
      (text same : String),
      expand item here = .ok expansion → expand other there = .ok instead →
      item.grammarSource here = .ok (.inPlace text) →
      other.grammarSource there = .ok (.inPlace same) →
      text ≠ same → Tree.renderAll expansion.trees ≠ Tree.renderAll instead.trees) ∧
    ∀ error : ExpansionError,
      Tree.scan (Tree.renderAll error.trees) = error.trees ∧
      compileError? error.trees = some error.message := by
  refine ⟨?shown, ?expanded, ?apart, fun error => ⟨error.scan_renderAll, error.compileError?_trees⟩⟩
  case shown =>
    intro text trees before after shown emitted
    have split : emitted = before ++ (quoteChars text.toList ++ after) := shown.toList_renderAll
    refine ⟨split, fun _ => isHidden_of_mem_quoteChars, ?_, ?_⟩
    · rw [split, List.drop_left]
      exact readQuoted_quoteChars text.toList after
    · rw [split, List.drop_left]
      exact lexemes_quoteChars text shown.stops_after
  case expanded =>
    intro item surroundings expansion expanded
    exact ⟨expansion.allLiterals_texts, fun text => Expansion.exists_shows⟩
  case apart =>
    intro item other here there expansion instead text same expanded otherExpanded given
      otherGiven different alike
    have source := (parts_of_expand expanded).1.symm.trans given
    have otherSource := (parts_of_expand otherExpanded).1.symm.trans otherGiven
    have trees := Expansion.source_of_render alike
    rw [Except.ok.inj source, Except.ok.inj otherSource] at trees
    exact different (GrammarSource.inPlace_inj trees)

/-- A path that ends with a quote and a backslash, and two grammars that differ only in how
a line ends. -/
theorem path_with_a_quote_stays_inside :
    let surroundings : Surroundings :=
      ⟨some "proj", .ofList [("proj/\"\\", "a = b ;".toUTF8)]⟩
    let included : Attribute := ⟨[.word "ebnf_file"], assignment "\"\\"⟩
    let assigned (text : String) : Attribute := ⟨[.word "ebnf_inline"], assignment text⟩
    ∃ (expansion spaced broken : Expansion) (before after : List Char),
      expand ⟨[included], "Dummy", [], []⟩ surroundings = .ok expansion ∧
      expansion.texts = ["a", "b", "proj/\"\\"] ∧
      readQuoted ((Tree.renderAll expansion.trees).toList.drop before.length) =
        some ("proj/\"\\".toList, after) ∧
      expand ⟨[assigned "a = b ;\n"], "Dummy", [], []⟩ surroundings = .ok spaced ∧
      expand ⟨[assigned "a = b ;\r\n"], "Dummy", [], []⟩ surroundings = .ok broken ∧
      Tree.renderAll spaced.trees ≠ Tree.renderAll broken.trees := by
  intro surroundings included assigned
  let variants : List Variant := [⟨"a", ⟨⟨"a"⟩, [⟨"b"⟩]⟩⟩]
  have gives (text : String) :
      Item.grammarSource ⟨[assigned text], "Dummy", [], []⟩ surroundings = .ok (.inPlace text) :=
    rfl
  have path : surroundings.resolve "\"\\" = "proj/\"\\" := by decide +kernel
  have reads : surroundings.tree.read "proj/\"\\" = .ok "a = b ;" := by decide +kernel
  have fromFile : included.Gives surroundings (.file "proj/\"\\" "a = b ;") :=
    Attribute.gives_file rfl rfl path reads
  have opened : Item.grammarSource ⟨[included], "Dummy", [], []⟩ surroundings =
      .ok (.file "proj/\"\\" "a = b ;") := fromFile.grammarSource
  have plain : variantsOf "a = b ;" = .ok variants := by decide +kernel
  have line : variantsOf "a = b ;\n" = .ok variants := by decide +kernel
  have carriage : variantsOf "a = b ;\r\n" = .ok variants := by decide +kernel
  have expanded := expand_of_source opened
  have spaced := expand_of_source (gives "a = b ;\n")
  have broken := expand_of_source (gives "a = b ;\r\n")
  simp only [GrammarSource.text, plain, line, carriage] at expanded spaced broken
  obtain ⟨stays, holds, apart, -⟩ := embedded_texts_stay_in_their_literals
  obtain ⟨-, shows⟩ := holds _ _ _ expanded
  obtain ⟨before, after, shown⟩ := shows "proj/\"\\" (by decide)
  obtain ⟨-, -, read, -⟩ := stays _ _ _ _ shown
  have different := apart _ _ _ _ _ _ _ _ spaced broken (gives _) (gives _) (by decide)
  exact ⟨_, _, _, before, after, expanded, rfl, read, spaced, broken, different⟩

end Metasyntax
