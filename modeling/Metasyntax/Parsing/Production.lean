import Metasyntax.Parsing.Progress

/-! The notation itself.

    grammar    = { rule } ;
    rule       = lhs , "=" , rhs , ";" ;
    lhs        = identifier ;
    rhs        = identifier ;
    identifier = letter , { letter | digit | "_" } ;

White space may stand around every symbol and every name. -/
namespace Metasyntax.Parser

def wordChar : Parser Char := anyOf [letter, digit, underscore]

def identifier : Parser Identifier := do
  let first ← letter.expecting "identifier"
  let others ← wordChar.repeated
  let identifier : Identifier := ⟨.ofList (first :: others)⟩
  report (.identifier identifier)
  return identifier

def lhs : Parser Identifier := identifier

def rhs : Parser Identifier := identifier

/-- A rule is read as a whole or not at all. -/
def rule : Parser Rule := attempt do
  let left ← lhs
  skipWhitespace
  let _ ← symbol .definition
  skipWhitespace
  let right ← rhs
  skipWhitespace
  let _ ← symbol .termination
  report fun _ => .rule ⟨left, right⟩
  return ⟨left, right⟩

theorem neverBack_wordChar : wordChar.NeverBack := by
  apply NeverBack.anyOf
  intro p hp
  simp only [List.mem_cons, List.not_mem_nil, or_false] at hp
  rcases hp with rfl | rfl | rfl <;> exact (consumes_raw _ _).neverBack

theorem consumes_identifier : identifier.Consumes :=
  ((consumes_raw _ _).expecting _).bind fun _ =>
    neverBack_wordChar.repeated.bind fun _ =>
      (neverBack_report _).bind fun _ => neverBack_succeed _

theorem consumes_rule : rule.Consumes :=
  Consumes.attempt <| consumes_identifier.bind fun _ =>
    neverBack_skipWhitespace.bind fun _ =>
      (consumes_raw _ _).neverBack.bind fun _ =>
        neverBack_skipWhitespace.bind fun _ =>
          consumes_identifier.neverBack.bind fun _ =>
            neverBack_skipWhitespace.bind fun _ =>
              (consumes_raw _ _).neverBack.bind fun _ =>
                (neverBack_report _).bind fun _ => neverBack_succeed _

/-- Rules until the source ends or no rule follows. The white space before the
place where no rule follows has been read. -/
def rules (s : State) : Outcome (List Rule) :=
  if s.atEnd then .matched s []
  else
    match _ : skipWhitespace s with
    | .matched t _ =>
      if t.atEnd then .matched t []
      else
        match _ : rule t with
        | .matched u first => (rules u).map (first :: ·)
        | .failed u => .matched (u.note (.stopped u.pos u.furthest)) []
        | .stuck u => .stuck u
    | .failed t => .failed t
    | .stuck t => .stuck t
termination_by s.remaining
decreasing_by
  exact Nat.lt_of_lt_of_le (consumes_rule _ _ _ ‹_›) (neverBack_skipWhitespace _ _ _ ‹_›)

def grammar : Parser Grammar := fun s => (rules s).map Grammar.mk

end Metasyntax.Parser
