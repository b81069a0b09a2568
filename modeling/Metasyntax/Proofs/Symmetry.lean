import Metasyntax.Proofs.Built

/-! Changes of a state that parsers do not notice: a parser run on the changed state
ends as it does on the state itself, changed in the same way. Each step has to go
along with the change, and then every parser does. -/
namespace Metasyntax

variable {α β : Type}

/-- A change of states that keeps the text ahead and goes along with every step. -/
structure Symmetry where
  change : State → State
  ahead (s : State) : (change s).ahead? = s.ahead?
  remaining (s : State) : (change s).remaining = s.remaining
  advance (s : State) (consumed rest : List Char) (next : s.ahead? = some (consumed ++ rest)) :
    change (s.advance consumed rest next) =
      (change s).advance consumed rest ((ahead s).trans next)
  backTo (s entry : State) : change (s.backTo entry) = (change s).backTo (change entry)
  fail (s : State) (label : String) : change (s.fail label) = (change s).fail label
  identifier (s : State) (identifier : Identifier) :
    change (s.note (.identifier identifier s.pos)) =
      (change s).note (.identifier identifier (change s).pos)
  rule (s : State) (rule : Rule) : change (s.note (.rule rule)) = (change s).note (.rule rule)
  stopped (s : State) : change (s.note (.stopped s.pos s.furthest)) =
    (change s).note (.stopped (change s).pos (change s).furthest)

def Outcome.mapState (f : State → State) : Outcome α → Outcome α
  | .matched t value => .matched (f t) value
  | .failed t => .failed (f t)
  | .stuck t => .stuck (f t)

theorem Outcome.mapState_map (f : State → State) (g : α → β) (outcome : Outcome α) :
    (outcome.map g).mapState f = (outcome.mapState f).map g := by
  cases outcome <;> rfl

theorem Outcome.mapState_ended (f : State → State) (result : Option α) (t : State) :
    (Outcome.ended result t).mapState f = .ended result (f t) := by
  cases result <;> rfl

/-- Nothing of the change shows in how the parser ends but the change itself. -/
def Parser.Respects (p : Parser α) (symmetry : Symmetry) : Prop :=
  ∀ s, p (symmetry.change s) = (p s).mapState symmetry.change

theorem State.atEnd_eq (s : State) : s.atEnd = (s.remaining == 0) := by
  simp only [atEnd, remaining, Place.atEnd, Place.remaining, beq_eq_decide,
    Nat.sub_eq_zero_iff_le]

theorem Symmetry.atEnd (symmetry : Symmetry) (s : State) :
    (symmetry.change s).atEnd = s.atEnd := by
  rw [State.atEnd_eq, State.atEnd_eq, symmetry.remaining]

namespace Parser

theorem raw_of_none {s : State} (missing : s.ahead? = none) (accepts : Char → Bool)
    (label : String) : raw accepts label s = .stuck s := by
  unfold raw
  split <;> rename_i next
  · cases missing.symm.trans next
  · cases missing.symm.trans next
  · rfl

theorem whitespace_of_none {s : State} (missing : s.ahead? = none) : whitespace s = .stuck s := by
  unfold whitespace
  split <;> rename_i next
  · cases missing.symm.trans next
  · rfl

variable {symmetry : Symmetry}

theorem respects_raw (accepts : Char → Bool) (label : String) :
    (raw accepts label).Respects symmetry := by
  intro s
  have same := symmetry.ahead s
  cases ahead : s.ahead? with
  | none =>
    rw [raw_of_none ahead, raw_of_none (same.trans ahead)]
    rfl
  | some rest =>
    have stops (noMatch : Stops accepts rest) :
        raw accepts label (symmetry.change s) =
          (raw accepts label s).mapState symmetry.change := by
      rw [raw_of_stops ahead noMatch, raw_of_stops (same.trans ahead) noMatch, ← symmetry.fail]
      rfl
    cases rest with
    | nil => exact stops (stops_nil accepts)
    | cons c rest =>
      cases ok : accepts c with
      | false => exact stops ok
      | true =>
        have next : s.ahead? = some ([c] ++ rest) := ahead
        rw [raw_of_accepts ahead ok, raw_of_accepts (same.trans ahead) ok, Outcome.mapState,
          symmetry.advance s [c] rest next]

theorem respects_whitespace : whitespace.Respects symmetry := by
  intro s
  have same := symmetry.ahead s
  cases ahead : s.ahead? with
  | none =>
    rw [whitespace_of_none ahead, whitespace_of_none (same.trans ahead)]
    rfl
  | some text =>
    obtain ⟨blank, rest, rfl, stops⟩ := exists_blank text
    by_cases empty : blank.chars = []
    · rw [empty] at ahead
      rw [whitespace_of_stops ahead stops, whitespace_of_stops (same.trans ahead) stops,
        ← symmetry.fail]
      rfl
    · rw [whitespace_of_run ahead blank.spaces empty stops,
        whitespace_of_run (same.trans ahead) blank.spaces empty stops, Outcome.mapState,
        symmetry.advance s blank.chars rest ahead]

theorem Respects.map {p : Parser α} (hp : p.Respects symmetry) (f : α → β) :
    (p.map f).Respects symmetry := by
  intro s
  rw [Parser.map, hp s, ← Outcome.mapState_map]
  rfl

theorem Respects.andThen {p : Parser α} {next : α → Parser β} (hp : p.Respects symmetry)
    (hn : ∀ value, (next value).Respects symmetry) : (p.andThen next).Respects symmetry := by
  intro s
  change (p (symmetry.change s)).bind next = ((p s).bind next).mapState symmetry.change
  rw [hp s]
  cases p s with
  | matched t value => exact hn value t
  | failed t | stuck t => rfl

theorem Respects.expecting {p : Parser α} (hp : p.Respects symmetry) (label : String) :
    (p.expecting label).Respects symmetry := by
  intro s
  unfold Parser.expecting
  rw [hp s]
  cases p s with
  | matched t value | stuck t => rfl
  | failed t => exact congrArg Outcome.failed (symmetry.fail t label).symm

theorem Respects.attempt {p : Parser α} (hp : p.Respects symmetry) :
    p.attempt.Respects symmetry := by
  intro s
  unfold Parser.attempt
  rw [hp s]
  cases p s with
  | matched t value | stuck t => rfl
  | failed t => exact congrArg Outcome.failed (symmetry.backTo t s).symm

theorem Respects.anyOf {ps : List (Parser α)} (hp : ∀ p ∈ ps, p.Respects symmetry) :
    (anyOf ps).Respects symmetry := by
  intro s
  induction ps generalizing s with
  | nil => rfl
  | cons p ps ih =>
    have first := (hp p List.mem_cons_self).attempt s
    simp only [Parser.anyOf]
    rw [first]
    cases p.attempt s with
    | matched t value | stuck t => rfl
    | failed t => exact ih (fun q member => hp q (List.mem_cons_of_mem p member)) t

theorem Respects.optional {p : Parser α} (hp : p.Respects symmetry) :
    p.optional.Respects symmetry := by
  intro s
  unfold Parser.optional
  rw [hp.attempt s]
  cases p.attempt s <;> rfl

theorem Respects.repeated {p : Parser α} (hp : p.Respects symmetry) :
    p.repeated.Respects symmetry := by
  intro s
  induction s using State.fewerBytesInduction with
  | step s ih =>
    rw [Parser.repeated, Parser.repeated, hp.attempt s]
    cases p.attempt s with
    | stuck t | failed t => rfl
    | matched t value =>
      -- The change leaves as many bytes, so the loop goes on in both runs or in neither.
      simp only [Outcome.mapState, symmetry.remaining]
      by_cases less : t.remaining < s.remaining
      · rw [if_pos less, if_pos less, ih t less, ← Outcome.mapState_map]
        rfl
      · rw [if_neg less, if_neg less]

theorem respects_rules (skip : skipWhitespace.Respects symmetry)
    (rule : Parser.rule.Respects symmetry) : Respects rules symmetry := by
  intro s
  induction s using State.fewerBytesInduction with
  | step s ih =>
    rw [rules_eq, rules_eq s, symmetry.atEnd, skip s]
    cases s.atEnd with
    | true => rfl
    | false =>
      cases skipped : skipWhitespace s with
      | failed t | stuck t => rfl
      | matched t =>
        simp only [Outcome.mapState, Bool.false_eq_true, if_false, symmetry.atEnd, rule t]
        cases t.atEnd with
        | true => rfl
        | false =>
          cases read : Parser.rule t with
          | stuck u => rfl
          | failed u => exact congrArg (Outcome.matched · []) (symmetry.stopped u).symm
          | matched u first =>
            have later := ih u (remaining_of_skipped_rule skipped read)
            change (rules (symmetry.change u)).map (first :: ·) =
              ((rules u).map (first :: ·)).mapState symmetry.change
            rw [later, Outcome.mapState_map]

theorem Built.respects {p : Parser α} (built : p.Built) (symmetry : Symmetry) :
    p.Respects symmetry := by
  induction built with
  | succeed value => intro s; rfl
  | fail label => intro s; exact congrArg Outcome.failed (symmetry.fail s label).symm
  | raw accepts label => exact respects_raw accepts label
  | whitespace => exact respects_whitespace
  | reportIdentifier identifier =>
    intro s
    exact congrArg (Outcome.matched · ()) (symmetry.identifier s identifier).symm
  | reportRule rule =>
    intro s
    exact congrArg (Outcome.matched · ()) (symmetry.rule s rule).symm
  | map f _ ih => exact ih.map f
  | andThen _ _ first later => exact first.andThen later
  | expecting label _ ih => exact ih.expecting label
  | attempt _ ih => exact ih.attempt
  | anyOf _ ih => exact .anyOf ih
  | repeated _ ih => exact ih.repeated
  | optional _ ih => exact ih.optional
  | rules _ _ skip rule => exact respects_rules skip rule

end Parser

end Metasyntax
