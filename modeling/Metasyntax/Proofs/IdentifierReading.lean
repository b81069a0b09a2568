import Metasyntax.Proofs.Acceptance
import Metasyntax.Proofs.Built
import Metasyntax.Proofs.LinesAndColumns
import Metasyntax.Proofs.RoundTrip

/-! An identifier is read from its first letter to the last character that can belong to
it. What has been looked for behind it is remembered, and a text that is to be one
identifier must end there. -/
namespace Metasyntax

def StartsWithLetter (text : List Char) : Prop := ∃ c rest, text = c :: rest ∧ isLetter c = true

/-- The text starts with the identifier, and with none that is longer. -/
def Identifier.IsLongestOf (identifier : Identifier) (text : String) : Prop :=
  LongestStart (fun start => (Identifier.mk start).Valid) text identifier.name

/-! ## What a text starts with -/

theorem stops_isLetter_iff {text : List Char} : Stops isLetter text ↔ ¬ StartsWithLetter text := by
  cases text with
  | nil => exact iff_of_true trivial fun ⟨_, _, split, _⟩ => List.cons_ne_nil _ _ split.symm
  | cons c rest =>
    constructor
    · rintro stops ⟨d, others, split, letter⟩
      obtain ⟨rfl, rfl⟩ := List.cons.inj split
      exact absurd letter (Bool.eq_false_iff.mp stops)
    · intro none
      exact Bool.eq_false_iff.mpr fun letter => none ⟨c, rest, rfl, letter⟩

theorem StartsWithLetter.name_ahead {text : List Char} (starts : StartsWithLetter text) :
    ∃ (name : Name) (rest : List Char), text = name.chars ++ rest ∧ Stops isWordChar rest :=
  (exists_name text).resolve_left fun stops => stops_isLetter_iff.mp stops starts

/-- A name that ends where no character of a name follows is the longest at the start. -/
theorem Name.isLongestOf (name : Name) {text : String} {rest : List Char}
    (split : text.toList = name.chars ++ rest) (ends : Stops isWordChar rest) :
    name.identifier.IsLongestOf text := by
  apply longestStart_of_split split name.valid
  rintro other c more tail goesOn rfl valid
  have member : c ∈ (Name.mk ⟨other⟩ valid).chars := by
    change c ∈ other.toList
    rw [goesOn]
    exact List.mem_append_right _ List.mem_cons_self
  exact absurd (Name.isWordChar_of_mem _ member) (Bool.eq_false_iff.mp ends)

/-! ## Identifiers in a line -/

theorem utf8Size_of_isWordChar {c : Char} (word : isWordChar c = true) : c.utf8Size = 1 := by
  obtain ⟨-, high⟩ := toNat_of_isWordChar word
  apply Char.utf8Size_eq_one_iff.mpr
  rw [UInt32.le_iff_toNat_le]
  exact Nat.le_trans high (by decide)

theorem utf8Length_of_isWordChar {chars : List Char} (word : ∀ c ∈ chars, isWordChar c = true) :
    utf8Length chars = chars.length := by
  induction chars with
  | nil => rfl
  | cons c chars ih =>
    have later := ih fun d member => word d (List.mem_cons_of_mem c member)
    rw [utf8Length, utf8Size_of_isWordChar (word c List.mem_cons_self), later, List.length_cons,
      Nat.add_comm]

/-- A name stays on its line, and takes as many columns as bytes. -/
theorem Name.after_chars (name : Name) :
    Coordinates.after name.chars = ⟨1, utf8Length name.chars + 1⟩ := by
  have inLine : ∀ c ∈ name.chars, c ≠ '\n' := by
    rintro c member rfl
    exact absurd (name.isWordChar_of_mem member) (by decide)
  have noEnd : name.chars.count '\n' = 0 :=
    List.count_eq_zero.mpr fun member => inLine _ member rfl
  have oneLine : name.chars.reverse.takeWhile (· != '\n') = name.chars.reverse :=
    List.takeWhile_eq_self_iff.mpr fun c member =>
      bne_iff_ne.mpr (inLine c (List.mem_reverse.mp member))
  rw [Coordinates.after, noEnd, oneLine, List.length_reverse,
    utf8Length_of_isWordChar fun _ => name.isWordChar_of_mem]

/-! ## Identifiers ahead -/

theorem Parser.identifier_of_letter {s : State} {text : List Char} (ahead : s.ahead? = some text)
    (starts : StartsWithLetter text) :
    ∃ (found : Identifier) (t : State), found.IsLongestOf (.ofList text) ∧
      Parser.identifier s = .matched t found ∧ t.source = s.source ∧
      t.pos = s.pos + found.name.utf8ByteSize ∧
      t.furthest = some (Failure.merge s.furthest ⟨t.pos, "'_'"⟩) := by
  obtain ⟨name, rest, rfl, ends⟩ := starts.name_ahead
  obtain ⟨t, matched, reads, furthest⟩ := identifier_of_name ahead ends
  have longest := name.isLongestOf String.toList_ofList ends
  have pos : t.pos = s.pos + name.identifier.name.utf8ByteSize := by
    rw [reads.pos, ← utf8Length_toList, Name.chars]
  exact ⟨name.identifier, t, longest, matched, reads.source, pos, furthest⟩

theorem Parser.identifier_of_no_letter {s : State} {text : List Char}
    (ahead : s.ahead? = some text) (none : ¬ StartsWithLetter text) :
    Parser.identifier s = .failed (s.fail "identifier") :=
  identifier_of_stops ahead (stops_isLetter_iff.mpr none)

theorem Parser.identifier_matched_iff {s : State} {text : List Char}
    (ahead : s.ahead? = some text) :
    (∃ t found, Parser.identifier s = .matched t found) ↔ StartsWithLetter text := by
  constructor
  · rintro ⟨t, found, matched⟩
    by_contra none
    cases matched.symm.trans (identifier_of_no_letter ahead none)
  · intro starts
    obtain ⟨found, t, -, matched, -⟩ := identifier_of_letter ahead starts
    exact ⟨t, found, matched⟩

/-! ## A text that is to be an identifier -/

theorem Identifier.parse_of_name {text : String} {name : Name} {rest : List Char}
    (split : text.toList = name.chars ++ rest) (ends : Stops isWordChar rest) :
    Identifier.parse text = if rest = [] then .ok name.identifier
      else .error (.trailing (utf8Length name.chars) ⟨1, utf8Length name.chars + 1⟩) := by
  obtain ⟨t, matched, reads, -⟩ :=
    Parser.identifier_of_name (State.start_ahead_of_eq split) ends
  by_cases ended : rest = []
  · rw [if_pos ended]
    rw [ended] at reads
    exact Parser.readAll_of_matched matched reads
  · have stop : t.pos = utf8Length name.chars := by
      rw [reads.pos]
      exact Nat.zero_add _
    have chars : (Source.ofString text).chars = name.chars ++ rest := split
    have place : (Source.ofString text).coordinates (utf8Length name.chars) =
        ⟨1, utf8Length name.chars + 1⟩ := by
      rw [Source.coordinates_of_boundary chars, name.after_chars]
    have more := State.atEnd_of_goesOn reads.ahead ended
    rw [if_neg ended, ← place, Identifier.parse, Parser.readAll, matched]
    simp only [more, State.trailing, stop, reads.source]
    rfl

theorem Identifier.parse_of_stops {text : String} (stops : Stops isLetter text.toList) :
    Identifier.parse text = .error (.expected "identifier" 0 ⟨1, 1⟩) := by
  have ahead : (State.start (.ofString text)).ahead? = some text.toList := State.start_ahead _
  have failed := Parser.identifier_of_stops ahead stops
  have chars : (Source.ofString text).chars = [] ++ text.toList := rfl
  have place : (Source.ofString text).coordinates 0 = ⟨1, 1⟩ :=
    Source.coordinates_of_boundary chars
  rw [Identifier.parse, Parser.readAll, failed, ← place]
  rfl

theorem Identifier.parse_eq_ok_iff {text : String} {found : Identifier} :
    Identifier.parse text = .ok found ↔ found.name = text ∧ found.Valid := by
  constructor
  · intro accepted
    rcases exists_name text.toList with stops | ⟨name, rest, split, ends⟩
    · cases accepted.symm.trans (parse_of_stops stops)
    · rw [parse_of_name split ends] at accepted
      split at accepted
      · rename_i ended
        cases accepted
        rw [ended, List.append_nil] at split
        exact ⟨String.toList_inj.mp split.symm, name.valid⟩
      · cases accepted
  · rintro ⟨rfl, valid⟩
    exact parse_render valid

theorem Identifier.parse_eq_expected_iff {text : String} :
    Identifier.parse text = .error (.expected "identifier" 0 ⟨1, 1⟩) ↔
      ¬ StartsWithLetter text.toList := by
  constructor
  · intro refused starts
    obtain ⟨name, rest, split, ends⟩ := starts.name_ahead
    rw [parse_of_name split ends] at refused
    split at refused <;> cases refused
  · intro none
    exact parse_of_stops (stops_isLetter_iff.mpr none)

theorem Identifier.parse_of_longer {text : String} (starts : StartsWithLetter text.toList)
    (invalid : ¬ (Identifier.mk text).Valid) :
    ∃ longest : Identifier, longest.IsLongestOf text ∧
      let pos := longest.name.utf8ByteSize
      Identifier.parse text = .error (.trailing pos ⟨1, pos + 1⟩) := by
  obtain ⟨name, rest, split, ends⟩ := starts.name_ahead
  have goesOn : rest ≠ [] := by
    rintro rfl
    rw [List.append_nil] at split
    have whole : (Identifier.mk text).Valid := by
      change IsWord text.toList
      rw [split]
      exact name.valid
    exact invalid whole
  have trailing := parse_of_name split ends
  rw [if_neg goesOn, Name.chars, utf8Length_toList] at trailing
  exact ⟨name.identifier, name.isLongestOf split ends, trailing⟩

/-- **Identifiers are read as far as they go.** At a boundary an identifier is found exactly
if the text ahead starts with a letter: the longest that the text starts with, and the
parser stops behind it. What is remembered is that it could go on there; where there is no
letter, that an identifier was expected. Of this and the failure from before the one
further ahead is left, or the newer of two at one offset. A whole text is read as
an identifier exactly if it is one. Otherwise its first character is the error, or it
is the text behind the longest identifier. -/
theorem identifiers_are_read_as_far_as_they_go :
    (∀ s : State, s.place.Aligned → ∃ text : List Char, s.ahead? = some text ∧
      ((∃ t found, Parser.identifier s = .matched t found) ↔ StartsWithLetter text) ∧
      (StartsWithLetter text → ∃ (found : Identifier) (t : State),
        found.IsLongestOf (.ofList text) ∧ Parser.identifier s = .matched t found ∧
        t.source = s.source ∧ t.pos = s.pos + found.name.utf8ByteSize ∧
        t.furthest = some (Failure.merge s.furthest ⟨t.pos, "'_'"⟩)) ∧
      (¬ StartsWithLetter text → ∃ t, Parser.identifier s = .failed t ∧ t.place = s.place ∧
        t.furthest = some (Failure.merge s.furthest ⟨s.pos, "identifier"⟩))) ∧
    ∀ text : String,
      (∀ found : Identifier, Identifier.parse text = .ok found ↔
        found.name = text ∧ found.Valid) ∧
      (Identifier.parse text = .error (.expected "identifier" 0 ⟨1, 1⟩) ↔
        ¬ StartsWithLetter text.toList) ∧
      (StartsWithLetter text.toList → ¬ (Identifier.mk text).Valid →
        ∃ longest : Identifier, longest.IsLongestOf text ∧
          let pos := longest.name.utf8ByteSize
          Identifier.parse text = .error (.trailing pos ⟨1, pos + 1⟩)) := by
  constructor
  · intro s aligned
    obtain ⟨text, ahead⟩ := aligned.ahead
    refine ⟨text, ahead, Parser.identifier_matched_iff ahead,
      Parser.identifier_of_letter ahead, fun none => ?_⟩
    exact ⟨_, Parser.identifier_of_no_letter ahead none, rfl, rfl⟩
  · intro text
    exact ⟨fun _ => Identifier.parse_eq_ok_iff, Identifier.parse_eq_expected_iff,
      Identifier.parse_of_longer⟩

/-- An identifier between two characters of two bytes, where an older failure lies at its
end, a place without a letter where one lies behind, and a text that goes on. -/
theorem identifier_between_wide_characters :
    let s : State := ⟨.jump (.ofString "éab_1é") 2, some ⟨6, "older"⟩, []⟩
    let u : State := ⟨.jump (.ofString "éab_1é") 0, some ⟨1, "older"⟩, []⟩
    s.place.Aligned ∧ u.place.Aligned ∧
      ((Identifier.mk "ab_1").IsLongestOf "ab_1é" ∧
        ∃ t : State, Parser.identifier s = .matched t ⟨"ab_1"⟩ ∧ t.pos = 6 ∧
          t.furthest = some ⟨6, "'_'"⟩) ∧
      (∃ t, Parser.identifier u = .failed t ∧ t.place = u.place ∧
        t.furthest = some ⟨1, "older"⟩) ∧
      Identifier.parse "ab_1" = .ok ⟨"ab_1"⟩ ∧
      Identifier.parse "éab_1" = .error (.expected "identifier" 0 ⟨1, 1⟩) ∧
      ∃ longest : Identifier, longest.IsLongestOf "ab_1é" ∧ longest.name.utf8ByteSize = 4 ∧
        Identifier.parse "ab_1é" = .error (.trailing 4 ⟨1, 5⟩) := by
  intro s u
  have aligned : s.place.Aligned := ⟨['é'], "ab_1é".toList, rfl, rfl⟩
  have start : u.place.Aligned := ⟨[], "éab_1é".toList, rfl, rfl⟩
  have letter : StartsWithLetter "ab_1é".toList := ⟨'a', "b_1é".toList, rfl, by decide⟩
  have noLetter (rest : List Char) : ¬ StartsWithLetter ('é' :: rest) :=
    stops_isLetter_iff.mp (stops_cons.mpr (by decide))
  obtain ⟨states, texts⟩ := identifiers_are_read_as_far_as_they_go
  refine ⟨aligned, start, ?_, ?_, ?_, ?_, ?_⟩
  · obtain ⟨text, ahead, -, found, -⟩ := states s aligned
    have here : s.ahead? = some "ab_1é".toList := by decide +kernel
    cases ahead.symm.trans here
    obtain ⟨identifier, t, longest, matched, -, -, -⟩ := found letter
    have seen : (Parser.identifier s).ending? = some (some ⟨"ab_1"⟩, 6, some ⟨6, "'_'"⟩) := by
      decide +kernel
    have ended : Parser.identifier s = .ended (some identifier) t := matched
    rw [ended, Outcome.ending?_ended_iff, Option.some.injEq] at seen
    obtain ⟨rfl, pos, furthest⟩ := seen
    rw [String.ofList_toList] at longest
    exact ⟨longest, t, matched, pos, furthest⟩
  · obtain ⟨text, ahead, -, -, missing⟩ := states u start
    have here : u.ahead? = some "éab_1é".toList := by decide +kernel
    cases ahead.symm.trans here
    exact missing (noLetter _)
  · obtain ⟨accepted, -⟩ := texts "ab_1"
    exact (accepted _).mpr ⟨rfl, by decide⟩
  · obtain ⟨-, refused, -⟩ := texts "éab_1"
    exact refused.mpr (noLetter _)
  · obtain ⟨-, -, trailing⟩ := texts "ab_1é"
    obtain ⟨longest, isLongest, refused⟩ := trailing letter (by decide)
    have told : Identifier.parse "ab_1é" = .error (.trailing 4 ⟨1, 5⟩) := by decide +kernel
    obtain ⟨size, -⟩ := ParseError.trailing.inj (Except.error.inj (refused.symm.trans told))
    exact ⟨longest, isLongest, size, told⟩

end Metasyntax
