import Mathlib.Data.List.Induction
import Mathlib.Data.List.Nodup
import Metasyntax.Expansion.Definition

/-! The definitions of a grammar, without the steps in which they are gathered: each
name once, where it first occurs, with everything its rules define it as. -/
namespace Metasyntax

/-- The names that rules define, in the order in which they first occur. -/
def definedNames (rules : List Rule) : List Identifier := (rules.map Rule.lhs).eraseDups

/-- What the rules for a name define it as. -/
def alternativesOf (rules : List Rule) (name : Identifier) : List Identifier :=
  (rules.filter fun rule => rule.lhs == name).map Rule.rhs

def definitionOf (rules : List Rule) (name : Identifier) : Definition :=
  ⟨name, alternativesOf rules name⟩

theorem mem_definedNames {rules : List Rule} {name : Identifier} :
    name ∈ definedNames rules ↔ ∃ rule ∈ rules, rule.lhs = name := by
  rw [definedNames, List.mem_eraseDups, List.mem_map]

/-! ## One rule more -/

theorem definedNames_concat (rules : List Rule) (rule : Rule) :
    definedNames (rules ++ [rule]) =
      if rule.lhs ∈ definedNames rules then definedNames rules
      else definedNames rules ++ [rule.lhs] := by
  have known : rule.lhs ∈ definedNames rules ↔ rule.lhs ∈ rules.map Rule.lhs :=
    List.mem_eraseDups
  rw [definedNames, List.map_append, List.eraseDups_append, List.map_singleton]
  by_cases old : rule.lhs ∈ definedNames rules
  · have gone : [rule.lhs].removeAll (rules.map Rule.lhs) = [] := by
      simp only [List.removeAll, List.filter_singleton, List.contains_eq_mem]
      rw [decide_eq_true (known.mp old)]
      rfl
    rw [if_pos old, gone, List.eraseDups_nil, List.append_nil]
    rfl
  · have left : [rule.lhs].removeAll (rules.map Rule.lhs) = [rule.lhs] := by
      simp only [List.removeAll, List.filter_singleton, List.contains_eq_mem]
      rw [decide_eq_false (fun member => old (known.mpr member))]
      rfl
    rw [if_neg old, left]
    rfl

theorem alternativesOf_concat (rules : List Rule) (rule : Rule) (name : Identifier) :
    alternativesOf (rules ++ [rule]) name =
      alternativesOf rules name ++ if rule.lhs = name then [rule.rhs] else [] := by
  rw [alternativesOf, List.filter_append, List.map_append]
  by_cases same : rule.lhs = name
  · rw [if_pos same, List.filter_singleton, beq_iff_eq.mpr same]
    rfl
  · rw [if_neg same, List.filter_singleton, beq_eq_false_iff_ne.mpr same]
    rfl

theorem definitionOf_concat_of_ne {rules : List Rule} {rule : Rule} {name : Identifier}
    (other : rule.lhs ≠ name) : definitionOf (rules ++ [rule]) name = definitionOf rules name := by
  rw [definitionOf, alternativesOf_concat, if_neg other, List.append_nil]
  rfl

theorem nodup_definedNames (rules : List Rule) : (definedNames rules).Nodup := by
  induction rules using List.reverseRecOn with
  | nil => exact List.nodup_nil
  | append_singleton rules rule ih =>
    rw [definedNames_concat]
    split
    · exact ih
    · rename_i new
      exact List.nodup_append.mpr ⟨ih, List.nodup_singleton _, by
        intro name member other here same
        rw [List.mem_singleton.mp here] at same
        exact new (same ▸ member)⟩

/-- The first rule with such a name is the one whose name comes first. -/
theorem find?_definedNames (test : Identifier → Bool) (rules : List Rule) :
    (definedNames rules).find? test = (rules.find? fun rule => test rule.lhs).map Rule.lhs := by
  induction rules using List.reverseRecOn with
  | nil => rfl
  | append_singleton rules rule ih =>
    rw [definedNames_concat, List.find?_append]
    cases found : rules.find? fun rule => test rule.lhs with
    | some first =>
      rw [found, Option.map_some] at ih
      split
      · rw [ih]
        rfl
      · rw [List.find?_append, ih]
        rfl
    | none =>
      rw [found, Option.map_none] at ih
      split
      · rename_i old
        have fails : ¬ test rule.lhs = true := List.find?_eq_none.mp ih _ old
        rw [ih, Option.none_or, List.find?_singleton, if_neg fails]
        rfl
      · rw [List.find?_append, ih, Option.none_or, Option.none_or, List.find?_singleton,
          List.find?_singleton]
        split <;> rfl

/-- No definition changes but that of the name. -/
theorem Definition.insert_of_not_mem {rules : List Rule} {rule : Rule} {names : List Identifier}
    (new : rule.lhs ∉ names) :
    Definition.insert rule (names.map (definitionOf rules)) =
      names.map (definitionOf (rules ++ [rule])) ++ [⟨rule.lhs, [rule.rhs]⟩] := by
  induction names with
  | nil => rfl
  | cons name names ih =>
    have other : rule.lhs ≠ name := List.ne_of_not_mem_cons new
    have later : rule.lhs ∉ names := List.not_mem_of_not_mem_cons new
    have apart : ¬ (definitionOf rules name).name = rule.lhs := fun same => other same.symm
    rw [List.map_cons, Definition.insert, if_neg apart, ih later, List.map_cons,
      definitionOf_concat_of_ne other]
    rfl

theorem Definition.insert_of_mem {rules : List Rule} {rule : Rule} {names : List Identifier}
    (distinct : names.Nodup) (old : rule.lhs ∈ names) :
    Definition.insert rule (names.map (definitionOf rules)) =
      names.map (definitionOf (rules ++ [rule])) := by
  induction names with
  | nil => exact absurd old List.not_mem_nil
  | cons name names ih =>
    rw [List.nodup_cons] at distinct
    by_cases same : name = rule.lhs
    · subst same
      have here : (definitionOf rules rule.lhs).name = rule.lhs := rfl
      have others : names.map (definitionOf rules) =
          names.map (definitionOf (rules ++ [rule])) := by
        apply List.map_congr_left
        intro name member
        have other : rule.lhs ≠ name := fun same => distinct.1 (same ▸ member)
        exact (definitionOf_concat_of_ne other).symm
      have more : alternativesOf (rules ++ [rule]) rule.lhs =
          alternativesOf rules rule.lhs ++ [rule.rhs] := by
        rw [alternativesOf_concat, if_pos rfl]
      rw [List.map_cons, Definition.insert, if_pos here, others, List.map_cons]
      simp only [definitionOf, more]
    · have apart : ¬ (definitionOf rules name).name = rule.lhs := same
      have later : rule.lhs ∈ names := by
        rcases List.mem_cons.mp old with here | there
        · exact absurd here.symm same
        · exact there
      rw [List.map_cons, Definition.insert, if_neg apart, ih distinct.2 later, List.map_cons,
        definitionOf_concat_of_ne (Ne.symm same)]

/-! ## All rules -/

theorem Grammar.definitions_eq (grammar : Grammar) :
    grammar.definitions = (definedNames grammar.rules).map (definitionOf grammar.rules) := by
  obtain ⟨rules⟩ := grammar
  rw [Grammar.definitions]
  induction rules using List.reverseRecOn with
  | nil => rfl
  | append_singleton rules rule ih =>
    rw [List.foldl_concat, ih, definedNames_concat]
    split
    · rename_i old
      exact Definition.insert_of_mem (nodup_definedNames rules) old
    · rename_i new
      have nothing : alternativesOf rules rule.lhs = [] := by
        rw [alternativesOf, List.map_eq_nil_iff, List.filter_eq_nil_iff]
        intro other member same
        exact new (mem_definedNames.mpr ⟨other, member, eq_of_beq same⟩)
      have first : alternativesOf (rules ++ [rule]) rule.lhs = [rule.rhs] := by
        rw [alternativesOf_concat, nothing, if_pos rfl, List.nil_append]
      rw [Definition.insert_of_not_mem new, List.map_append, List.map_singleton]
      simp only [definitionOf, first]

theorem Grammar.names_definitions (grammar : Grammar) :
    grammar.definitions.map Definition.name = definedNames grammar.rules := by
  rw [grammar.definitions_eq, List.map_map]
  exact List.map_id _

theorem Grammar.find?_definitions (test : Identifier → Bool) (grammar : Grammar) :
    (grammar.definitions.find? fun definition => test definition.name) =
      (grammar.rules.find? fun rule => test rule.lhs).map fun rule =>
        definitionOf grammar.rules rule.lhs := by
  have names : (fun definition => test definition.name) ∘ definitionOf grammar.rules = test := rfl
  rw [grammar.definitions_eq, List.find?_map, names, find?_definedNames, Option.map_map]
  rfl

theorem Grammar.exists_rule_of_definition {grammar : Grammar} {definition : Definition}
    (member : definition ∈ grammar.definitions) :
    ∃ rule ∈ grammar.rules, rule.lhs = definition.name := by
  apply mem_definedNames.mp
  rw [← grammar.names_definitions]
  exact List.mem_map_of_mem member

end Metasyntax
