import Mathlib.Algebra.GroupWithZero.Nat
import Metasyntax.Proofs.Definitions

/-! Gathering the rules of a grammar by their names loses none of them, and the rules of
the definitions, gathered again, give the same definitions. -/
namespace Metasyntax

/-- The rules that a definition stands for. -/
def Definition.rules (definition : Definition) : List Rule :=
  definition.alternatives.map fun alternative => ⟨definition.name, alternative⟩

/-- The rules of one definition after those of the other. -/
def Grammar.ofDefinitions (definitions : List Definition) : Grammar :=
  ⟨definitions.flatMap Definition.rules⟩

/-! ## No rule is lost -/

theorem Definition.insert_perm (rule : Rule) (definitions : List Definition) :
    ((Definition.insert rule definitions).flatMap Definition.rules).Perm
      (definitions.flatMap Definition.rules ++ [rule]) := by
  induction definitions with
  | nil => exact List.Perm.refl _
  | cons definition definitions ih =>
    rw [Definition.insert]
    split
    · rename_i same
      have more : Definition.rules ⟨definition.name, definition.alternatives ++ [rule.rhs]⟩ =
          definition.rules ++ [rule] := by
        rw [Definition.rules, Definition.rules, List.map_append, List.map_singleton, same]
      rw [List.flatMap_cons, List.flatMap_cons, more, List.append_assoc, List.append_assoc]
      exact List.perm_append_comm.append_left _
    · rw [List.flatMap_cons, List.flatMap_cons, List.append_assoc]
      exact ih.append_left _

/-- The rules of the definitions are those of the grammar, in another order. -/
theorem Grammar.definitions_perm (grammar : Grammar) :
    (ofDefinitions grammar.definitions).rules.Perm grammar.rules := by
  obtain ⟨rules⟩ := grammar
  rw [Grammar.definitions, ofDefinitions]
  induction rules using List.reverseRecOn with
  | nil => exact List.Perm.refl _
  | append_singleton rules rule ih =>
    rw [List.foldl_concat]
    exact (Definition.insert_perm rule _).trans (ih.append_right [rule])

theorem Definition.length_rules (definition : Definition) :
    definition.rules.length = definition.alternatives.length := List.length_map _

theorem Grammar.sum_alternatives (grammar : Grammar) :
    (grammar.definitions.map fun definition => definition.alternatives.length).sum =
      grammar.length := by
  have lengths := grammar.definitions_perm.length_eq
  rw [ofDefinitions, List.length_flatMap] at lengths
  simp only [Definition.length_rules] at lengths
  exact lengths

/-! ## The order of names -/

/-- The names are in the order in which they first occur. -/
theorem definedNames_pairwise (rules : List Rule) :
    (definedNames rules).Pairwise fun first second =>
      (rules.map Rule.lhs).idxOf first < (rules.map Rule.lhs).idxOf second := by
  induction rules using List.reverseRecOn with
  | nil => exact List.Pairwise.nil
  | append_singleton rules rule ih =>
    -- One rule more leaves the names before it where they first occur.
    have index {name : Identifier} (known : name ∈ definedNames rules) :
        ((rules ++ [rule]).map Rule.lhs).idxOf name = (rules.map Rule.lhs).idxOf name := by
      rw [List.map_append]
      exact List.idxOf_append_of_mem (List.mem_eraseDups.mp known)
    have still : (definedNames rules).Pairwise fun first second =>
        ((rules ++ [rule]).map Rule.lhs).idxOf first <
          ((rules ++ [rule]).map Rule.lhs).idxOf second := by
      refine ih.imp_of_mem ?_
      intro first second member other less
      rw [index member, index other]
      exact less
    rw [definedNames_concat]
    split
    · exact still
    · rename_i new
      refine List.pairwise_append.mpr ⟨still, List.pairwise_singleton _ _, ?_⟩
      intro name member last here
      obtain rfl := List.mem_singleton.mp here
      have known : name ∈ rules.map Rule.lhs := List.mem_eraseDups.mp member
      have unknown : rule.lhs ∉ rules.map Rule.lhs := fun old => new (List.mem_eraseDups.mpr old)
      rw [index member, List.map_append, List.idxOf_append_of_notMem unknown]
      exact Nat.lt_of_lt_of_le (List.idxOf_lt_length_of_mem known) (Nat.le_add_right _ _)

/-! ## Gathering again -/

/-- A rule passes by the definitions of other names. -/
theorem Definition.insert_append {rule : Rule} {definitions : List Definition}
    (others : ∀ definition ∈ definitions, definition.name ≠ rule.lhs) (more : List Definition) :
    Definition.insert rule (definitions ++ more) = definitions ++ Definition.insert rule more := by
  induction definitions with
  | nil => rfl
  | cons definition definitions ih =>
    have apart := others definition List.mem_cons_self
    have later := ih fun other member => others other (List.mem_cons_of_mem definition member)
    rw [List.cons_append, Definition.insert, if_neg apart, later, List.cons_append]

/-- Gathers further rules into definitions. -/
def gather (definitions : List Definition) (rules : List Rule) : List Definition :=
  rules.foldl (fun definitions rule => Definition.insert rule definitions) definitions

section
variable {definitions : List Definition} {name : Identifier}
  (others : ∀ definition ∈ definitions, definition.name ≠ name)
include others

theorem gather_more (alternatives more : List Identifier) :
    gather (definitions ++ [⟨name, alternatives⟩]) (Definition.rules ⟨name, more⟩) =
      definitions ++ [⟨name, alternatives ++ more⟩] := by
  induction more generalizing alternatives with
  | nil =>
    rw [List.append_nil]
    rfl
  | cons alternative more ih =>
    have here : Definition.insert ⟨name, alternative⟩ (definitions ++ [⟨name, alternatives⟩]) =
        definitions ++ [⟨name, alternatives ++ [alternative]⟩] := by
      rw [Definition.insert_append others, Definition.insert, if_pos rfl]
    have step : gather (definitions ++ [⟨name, alternatives⟩])
        (Definition.rules ⟨name, alternative :: more⟩) =
          gather (definitions ++ [⟨name, alternatives ++ [alternative]⟩])
            (Definition.rules ⟨name, more⟩) :=
      congrArg (fun found => gather found (Definition.rules ⟨name, more⟩)) here
    rw [step, ih, List.append_assoc, List.singleton_append]

/-- The rules of a definition whose name is new give that definition. -/
theorem gather_rules {alternatives : List Identifier} (some : alternatives ≠ []) :
    gather definitions (Definition.rules ⟨name, alternatives⟩) =
      definitions ++ [⟨name, alternatives⟩] := by
  obtain ⟨first, more, rfl⟩ := List.exists_cons_of_ne_nil some
  have opened : Definition.insert ⟨name, first⟩ definitions = definitions ++ [⟨name, [first]⟩] := by
    have passed := @Definition.insert_append ⟨name, first⟩ definitions others []
    rwa [List.append_nil] at passed
  have step : gather definitions (Definition.rules ⟨name, first :: more⟩) =
      gather (definitions ++ [⟨name, [first]⟩]) (Definition.rules ⟨name, more⟩) :=
    congrArg (fun found => gather found (Definition.rules ⟨name, more⟩)) opened
  rw [step, gather_more others, List.singleton_append]

end

/-- From rules that are grouped already, their definitions are gathered again. -/
theorem gather_definitions {before after : List Definition}
    (distinct : ((before ++ after).map Definition.name).Nodup)
    (some : ∀ definition ∈ after, definition.alternatives ≠ []) :
    gather before (Grammar.ofDefinitions after).rules = before ++ after := by
  -- What has been gathered has none of the names of what comes next.
  induction after generalizing before with
  | nil =>
    rw [List.append_nil]
    rfl
  | cons definition after ih =>
    have others : ∀ other ∈ before, other.name ≠ definition.name := by
      intro other member same
      rw [List.map_append, List.nodup_append] at distinct
      exact distinct.2.2 other.name (List.mem_map_of_mem member) definition.name
        List.mem_cons_self same
    have here : gather before definition.rules = before ++ [definition] :=
      gather_rules others (some definition List.mem_cons_self)
    have later : gather (before ++ [definition]) (Grammar.ofDefinitions after).rules =
        before ++ [definition] ++ after := by
      apply ih
      · rwa [List.append_assoc]
      · exact fun other member => some other (List.mem_cons_of_mem definition member)
    have both : (Grammar.ofDefinitions (definition :: after)).rules =
        definition.rules ++ (Grammar.ofDefinitions after).rules := List.flatMap_cons
    rw [both, gather, List.foldl_append]
    change gather (gather before definition.rules) (Grammar.ofDefinitions after).rules = _
    rw [here, later, List.append_assoc, List.singleton_append]

theorem Grammar.definitions_ofDefinitions {definitions : List Definition}
    (distinct : (definitions.map Definition.name).Nodup)
    (some : ∀ definition ∈ definitions, definition.alternatives ≠ []) :
    (ofDefinitions definitions).definitions = definitions := by
  have gathered := @gather_definitions [] definitions distinct some
  rwa [List.nil_append] at gathered

/-! ## All at once -/

theorem Grammar.alternatives_of_definition {grammar : Grammar} {definition : Definition}
    (member : definition ∈ grammar.definitions) :
    definition.alternatives = alternativesOf grammar.rules definition.name := by
  rw [grammar.definitions_eq] at member
  obtain ⟨name, -, rfl⟩ := List.mem_map.mp member
  rfl

theorem Grammar.alternatives_ne_nil {grammar : Grammar} {definition : Definition}
    (member : definition ∈ grammar.definitions) : definition.alternatives ≠ [] := by
  obtain ⟨rule, here, same⟩ := exists_rule_of_definition member
  rw [alternatives_of_definition member]
  have selected : rule ∈ grammar.rules.filter fun rule => rule.lhs == definition.name :=
    List.mem_filter.mpr ⟨here, beq_iff_eq.mpr same⟩
  exact List.ne_nil_of_mem (List.mem_map_of_mem selected)

/-- **Grouping keeps every rule.** Each name that is defined has one definition, and the
definitions stand in the order in which their names first occur. A definition holds the right
sides of all rules for its name, in their order and as often as they occur, of which there
is at least one. Together the definitions hold as many as there are rules, and the
rules of one definition after those of the other are the rules of the grammar in another
order. Grouped again, they give the same definitions. -/
theorem grouping_keeps_every_rule (grammar : Grammar) :
    let names := grammar.definitions.map Definition.name
    let defined := grammar.rules.map Rule.lhs
    names.Nodup ∧ (∀ name, name ∈ names ↔ name ∈ defined) ∧
    (names.Pairwise fun first second => defined.idxOf first < defined.idxOf second) ∧
    (∀ definition ∈ grammar.definitions,
      definition.alternatives =
        (grammar.rules.filter fun rule => rule.lhs = definition.name).map Rule.rhs ∧
      definition.alternatives ≠ []) ∧
    (grammar.definitions.map fun definition => definition.alternatives.length).sum =
      grammar.length ∧
    (Grammar.ofDefinitions grammar.definitions).rules.Perm grammar.rules ∧
    (Grammar.ofDefinitions grammar.definitions).definitions = grammar.definitions := by
  intro names defined
  have names_eq : names = definedNames grammar.rules := grammar.names_definitions
  have distinct : names.Nodup := names_eq ▸ nodup_definedNames grammar.rules
  refine ⟨distinct, ?_, ?_, ?_, grammar.sum_alternatives, grammar.definitions_perm, ?_⟩
  · intro name
    rw [names_eq]
    exact List.mem_eraseDups
  · rw [names_eq]
    exact definedNames_pairwise grammar.rules
  · intro definition member
    exact ⟨Grammar.alternatives_of_definition member, Grammar.alternatives_ne_nil member⟩
  · exact Grammar.definitions_ofDefinitions distinct fun _ => Grammar.alternatives_ne_nil

/-- Two names in turn, of which one rule comes twice. -/
theorem two_names_in_turn_grouped :
    let grammar : Grammar :=
      ⟨[⟨⟨"b"⟩, ⟨"x"⟩⟩, ⟨⟨"a"⟩, ⟨"b"⟩⟩, ⟨⟨"b"⟩, ⟨"a"⟩⟩, ⟨⟨"a"⟩, ⟨"c"⟩⟩, ⟨⟨"b"⟩, ⟨"x"⟩⟩]⟩
    let definition : Definition := ⟨⟨"b"⟩, [⟨"x"⟩, ⟨"a"⟩, ⟨"x"⟩]⟩
    grammar.definitions = [definition, ⟨⟨"a"⟩, [⟨"b"⟩, ⟨"c"⟩]⟩] ∧
      definition ∈ grammar.definitions ∧
      definition.alternatives =
        (grammar.rules.filter fun rule => rule.lhs = definition.name).map Rule.rhs ∧
      (Grammar.ofDefinitions grammar.definitions).definitions = grammar.definitions := by
  intro grammar definition
  have definitions : grammar.definitions = [definition, ⟨⟨"a"⟩, [⟨"b"⟩, ⟨"c"⟩]⟩] := by decide
  have member : definition ∈ grammar.definitions := by
    rw [definitions]
    exact List.mem_cons_self
  obtain ⟨-, -, -, alternatives, -, -, again⟩ := grouping_keeps_every_rule grammar
  exact ⟨definitions, member, (alternatives definition member).1, again⟩

end Metasyntax
