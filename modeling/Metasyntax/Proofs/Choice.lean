import Metasyntax.Proofs.Containment
import Metasyntax.Proofs.Memory

/-! The choice between parsers is ordered. The first that matches where the choice
begins is taken, whatever others have read or remembered before they failed, and
choices between choices are one choice. -/
namespace Metasyntax

variable {α : Type}

namespace Parser

/-! ## Two parsers -/

/-- The second parser takes over where the first has failed. -/
def orElse (p q : Parser α) : Parser α := fun s =>
  match p s with
  | .failed t => q t
  | outcome => outcome

theorem orElse_assoc (p q r : Parser α) : (p.orElse q).orElse r = p.orElse (q.orElse r) := by
  funext s
  unfold orElse
  cases p s <;> rfl

theorem anyOf_nil_orElse (p : Parser α) : (anyOf []).orElse p = p := rfl

theorem orElse_anyOf_nil (p : Parser α) : p.orElse (anyOf []) = p := by
  funext s
  unfold orElse
  cases p s <;> rfl

theorem anyOf_cons (p : Parser α) (ps : List (Parser α)) :
    anyOf (p :: ps) = p.attempt.orElse (anyOf ps) := rfl

/-- What gives back on its own needs no attempt. -/
theorem GivesBack.attempt_eq {p : Parser α} (hp : p.GivesBack) : p.attempt = p := by
  funext s
  unfold attempt
  cases outcome : p s with
  | matched | stuck => rfl
  | failed t =>
    have back : t.backTo s = t := by rw [State.backTo, ← hp s t outcome]
    exact congrArg Outcome.failed back

/-! ## Lists of parsers -/

theorem anyOf_append (ps qs : List (Parser α)) :
    anyOf (ps ++ qs) = (anyOf ps).orElse (anyOf qs) := by
  induction ps with
  | nil => exact (anyOf_nil_orElse _).symm
  | cons p ps ih => rw [List.cons_append, anyOf_cons, anyOf_cons, ih, orElse_assoc]

theorem anyOf_singleton (p : Parser α) : anyOf [p] = p.attempt := by
  rw [anyOf_cons, orElse_anyOf_nil]

theorem anyOf_pair (p q : Parser α) : anyOf [p, q] = p.attempt.orElse q.attempt := by
  rw [anyOf_cons, anyOf_singleton]

/-- A choice finds what the first of its candidates finds that matches by itself. -/
theorem found?_anyOf {ps : List (Parser α)} (built : ∀ p ∈ ps, p.Built) {s alone : State}
    {rest : List Char} (ahead : alone.ahead? = some rest) (same : s.place = alone.place) :
    (anyOf ps s).found? = ps.findSome? fun p => (p alone).found? := by
  -- A candidate that fails leaves the place to the next, and its memory has no effect there.
  induction ps generalizing s with
  | nil => rfl
  | cons p ps ih =>
    obtain ⟨result, t, u, single, ended, place⟩ :=
      (built p List.mem_cons_self).ends_alike ahead same
    rw [List.findSome?_cons, single, Outcome.found?_ended]
    cases result with
    | some value =>
      rw [anyOf_cons_of_matched ended]
      exact congrArg (fun place => some (value, place)) place
    | none =>
      rw [anyOf_cons_of_failed ended]
      exact ih (fun q member => built q (List.mem_cons_of_mem p member)) same

end Parser

/-- **The first match is taken.** A choice finds what the first of its candidates finds
that matches when it is run alone from the same place, and ends where that one does. If
none matches, it fails there. A choice of all of two lists is a choice between the
choices of each, and a choice of one is an attempt, failures and events included. -/
theorem choice_takes_the_first_match :
    (∀ (α : Type) (ps : List (Parser α)), (∀ p ∈ ps, p.Built) → ∀ s alone : State,
      s.place.Aligned → alone.place = s.place →
      (Parser.anyOf ps s).found? = ps.findSome? (fun p => (p alone).found?) ∧
      ((∀ p ∈ ps, (p alone).found? = none) →
        ∃ t, Parser.anyOf ps s = .failed t ∧ t.place = s.place)) ∧
    (∀ (α : Type) (ps qs : List (Parser α)),
      Parser.anyOf (ps ++ qs) = Parser.anyOf [Parser.anyOf ps, Parser.anyOf qs]) ∧
    ∀ (α : Type) (p : Parser α), Parser.anyOf [p] = p.attempt := by
  refine ⟨?_, ?_, ?_⟩
  · intro α ps built s alone aligned same
    obtain ⟨rest, ahead⟩ := aligned.ahead
    have here : alone.ahead? = some rest := (congrArg Place.ahead? same).trans ahead
    have found := Parser.found?_anyOf built here same.symm
    refine ⟨found, fun none => ?_⟩
    obtain ⟨result, t, ended, -⟩ :=
      Parser.Ends.anyOf (fun p member => (built p member).ends) s rest ahead
    rw [ended, Outcome.found?_ended, List.findSome?_eq_none_iff.mpr none] at found
    cases result with
    | some value => cases found
    | none => exact ⟨t, ended, Parser.givesBack_anyOf ps s t ended⟩
  · intro α ps qs
    rw [Parser.anyOf_append, Parser.anyOf_pair, (Parser.givesBack_anyOf ps).attempt_eq,
      (Parser.givesBack_anyOf qs).attempt_eq]
  · intro α p
    exact Parser.anyOf_singleton p

/-- Two candidates read a letter and more before they fail, and a third takes the letter. -/
theorem third_candidate_takes_a_letter :
    let letter : Parser (List Char) := Parser.letter.map fun c => [c]
    let broken : List (Parser (List Char)) :=
      [.inOrder [.letter, .digit],
        (Parser.repeated .letter).andThen fun letters => Parser.digit.map fun c => letters ++ [c]]
    let s : State := ⟨.jump (.ofString "éab;") 2, some ⟨5, "older"⟩, []⟩
    let alone : State := s.withoutMemory
    (∀ p ∈ broken ++ [letter], p.Built) ∧ s.place.Aligned ∧ alone.place = s.place ∧
      (∀ p ∈ broken, (p alone).found? = none) ∧
      (Parser.anyOf (broken ++ [letter]) s).found? = (letter alone).found? ∧
      (letter alone).found?.map (fun found => (found.1, found.2.pos)) = some (['a'], 3) ∧
      ∃ t, Parser.anyOf broken s = .failed t ∧ t.place = s.place := by
  intro letter broken s alone
  have sequence : (Parser.inOrder [.letter, .digit]).Built :=
    .inOrder (List.forall_mem_cons.mpr ⟨.raw _ _, List.forall_mem_singleton.mpr (.raw _ _)⟩)
  have letters : ((Parser.repeated .letter).andThen fun letters =>
      Parser.digit.map fun c => letters ++ [c]).Built :=
    .andThen (.repeated (.raw _ _)) fun _ => .map _ (.raw _ _)
  have built : ∀ p ∈ broken ++ [letter], p.Built :=
    List.forall_mem_cons.mpr ⟨sequence, List.forall_mem_cons.mpr
      ⟨letters, List.forall_mem_singleton.mpr (.map _ (.raw _ _))⟩⟩
  have aligned : s.place.Aligned := ⟨['é'], ['a', 'b', ';'], rfl, rfl⟩
  have none : ∀ p ∈ broken, (p alone).found? = none := by
    intro p member
    simp only [broken, List.mem_cons, List.not_mem_nil, or_false] at member
    apply Option.isNone_iff_eq_none.mp
    rcases member with rfl | rfl <;> decide +kernel
  obtain ⟨first, -, -⟩ := choice_takes_the_first_match
  obtain ⟨found, -⟩ := first _ _ built s alone aligned rfl
  rw [List.findSome?_append, List.findSome?_eq_none_iff.mpr none, Option.none_or,
    List.findSome?_singleton] at found
  have brokenBuilt : ∀ p ∈ broken, p.Built :=
    fun p member => built p (List.mem_append_left _ member)
  obtain ⟨-, fails⟩ := first _ _ brokenBuilt s alone aligned rfl
  exact ⟨built, aligned, rfl, none, found, by decide +kernel, fails none⟩

end Metasyntax
