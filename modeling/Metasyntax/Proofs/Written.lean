import Mathlib.Data.List.TakeWhile
import Metasyntax.Grammar
import Metasyntax.Symbol
import Metasyntax.Text.Blank

/-! What stands in a text where rules are read: rules with white space between
their tokens, and rules that break off. Nothing here depends on how a text is
read. -/
namespace Metasyntax

/-- White space between tokens, possibly none. -/
structure Blank where
  chars : List Char
  spaces : ∀ c ∈ chars, isSpace c = true

/-- An identifier that can be written and read again. -/
structure Name where
  identifier : Identifier
  valid : identifier.Valid

def Name.chars (name : Name) : List Char := name.identifier.name.toList

/-- A rule as it is written, from its first name to the sign that ends it. -/
structure WrittenRule where
  left : Name
  afterLeft : Blank
  beforeRight : Blank
  right : Name
  afterRight : Blank

def WrittenRule.rule (written : WrittenRule) : Rule :=
  ⟨written.left.identifier, written.right.identifier⟩

def WrittenRule.text (written : WrittenRule) : List Char :=
  written.left.chars ++ (written.afterLeft.chars ++ '=' :: (written.beforeRight.chars ++
    (written.right.chars ++ (written.afterRight.chars ++ [';']))))

/-- A grammar as it is written: white space, and the rules with white space after each. -/
structure WrittenGrammar where
  lead : Blank
  rules : List (WrittenRule × Blank)

def WrittenGrammar.grammar (written : WrittenGrammar) : Grammar :=
  ⟨written.rules.map fun (rule, _) => rule.rule⟩

def WrittenGrammar.text (written : WrittenGrammar) : List Char :=
  written.lead.chars ++ written.rules.flatMap fun (rule, blank) => rule.text ++ blank.chars

/-- A rule that breaks off, by the token that is missing. -/
inductive BrokenRule where
  | noLeft
  | noSign (left : Name) (afterLeft : Blank)
  | noRight (left : Name) (afterLeft beforeRight : Blank)
  | noEnd (left : Name) (afterLeft beforeRight : Blank) (right : Name) (afterRight : Blank)

def BrokenRule.text : BrokenRule → List Char
  | .noLeft => []
  | .noSign left afterLeft => left.chars ++ afterLeft.chars
  | .noRight left afterLeft beforeRight =>
    left.chars ++ (afterLeft.chars ++ '=' :: beforeRight.chars)
  | .noEnd left afterLeft beforeRight right afterRight =>
    left.chars ++ (afterLeft.chars ++ '=' :: (beforeRight.chars ++
      (right.chars ++ afterRight.chars)))

/-- The name of the missing token. -/
def BrokenRule.label : BrokenRule → String
  | .noLeft | .noRight .. => "identifier"
  | .noSign .. => Symbol.definition.label
  | .noEnd .. => Symbol.termination.label

/-- A text does not go on with a character of the class. -/
def Stops (accepts : Char → Bool) : List Char → Prop
  | [] => True
  | c :: _ => accepts c = false

/-- What follows neither extends the last token nor is the missing one. -/
def BrokenRule.BreaksAt (rest : List Char) : BrokenRule → Prop
  | .noLeft => Stops isLetter rest
  | .noSign _ afterLeft =>
    Stops isWordChar (afterLeft.chars ++ rest) ∧ Stops isSpace rest ∧ Stops (· == '=') rest
  | .noRight .. => Stops isSpace rest ∧ Stops isLetter rest
  | .noEnd _ _ _ _ afterRight =>
    Stops isWordChar (afterRight.chars ++ rest) ∧ Stops isSpace rest ∧ Stops (· == ';') rest

/-! ## Characters -/

@[simp] theorem stops_nil (accepts : Char → Bool) : Stops accepts [] := trivial

@[simp] theorem stops_cons {accepts : Char → Bool} {c : Char} {rest : List Char} :
    Stops accepts (c :: rest) ↔ accepts c = false := Iff.rfl

/-- Whether a text stops is decided by its next character. -/
theorem Stops.append_cons {accepts : Char → Bool} {chars rest other : List Char} {c : Char}
    (h : Stops accepts (chars ++ c :: rest)) : Stops accepts (chars ++ c :: other) := by
  cases chars with
  | nil => exact h
  | cons d chars => exact h

theorem Stops.append {accepts : Char → Bool} {chars rest : List Char}
    (h : ∀ c ∈ chars, accepts c = false) (hr : Stops accepts rest) :
    Stops accepts (chars ++ rest) := by
  cases chars with
  | nil => exact hr
  | cons c chars => exact h c List.mem_cons_self

theorem stops_dropWhile (accepts : Char → Bool) (chars : List Char) :
    Stops accepts (chars.dropWhile accepts) := by
  induction chars with
  | nil => trivial
  | cons c chars ih =>
    rw [List.dropWhile_cons]
    split
    · exact ih
    · rename_i h
      exact Bool.eq_false_iff.mpr h

theorem Stops.takeWhile_append {accepts : Char → Bool} {chars rest : List Char}
    (h : ∀ c ∈ chars, accepts c = true) (stops : Stops accepts rest) :
    (chars ++ rest).takeWhile accepts = chars := by
  rw [List.takeWhile_append_of_pos h]
  cases rest with
  | nil => simp
  | cons c rest => rw [List.takeWhile_cons_of_neg (Bool.eq_false_iff.mp stops), List.append_nil]

theorem Stops.dropWhile_append {accepts : Char → Bool} {chars rest : List Char}
    (h : ∀ c ∈ chars, accepts c = true) (stops : Stops accepts rest) :
    (chars ++ rest).dropWhile accepts = rest := by
  rw [List.dropWhile_append_of_pos h]
  cases rest with
  | nil => rfl
  | cons c rest => exact List.dropWhile_cons_of_neg (Bool.eq_false_iff.mp stops)

/-- Of a run that is as long as possible, the text tells where it ends. -/
theorem Stops.append_inj {accepts : Char → Bool} {run other rest tail : List Char}
    (ends : Stops accepts rest) (otherEnds : Stops accepts tail)
    (inRun : ∀ c ∈ run, accepts c = true) (inOther : ∀ c ∈ other, accepts c = true)
    (same : run ++ rest = other ++ tail) : run = other ∧ rest = tail := by
  have taken := congrArg (List.takeWhile accepts) same
  rw [ends.takeWhile_append inRun, otherEnds.takeWhile_append inOther] at taken
  have dropped := congrArg (List.dropWhile accepts) same
  rw [ends.dropWhile_append inRun, otherEnds.dropWhile_append inOther] at dropped
  exact ⟨taken, dropped⟩

theorem toNat_of_isWordChar {c : Char} (h : isWordChar c = true) :
    48 ≤ c.toNat ∧ c.toNat ≤ 122 := by
  simp only [isWordChar, isLetter, isDigit, Bool.or_eq_true, Bool.and_eq_true, decide_eq_true_eq,
    beq_iff_eq, Char.le_def, UInt32.le_iff_toNat_le] at h
  unfold Char.toNat
  rcases h with ((⟨low, high⟩ | ⟨low, high⟩) | ⟨low, high⟩) | rfl
  · change 97 ≤ c.val.toNat at low
    change c.val.toNat ≤ 122 at high
    omega
  · change 65 ≤ c.val.toNat at low
    change c.val.toNat ≤ 90 at high
    omega
  · change 48 ≤ c.val.toNat at low
    change c.val.toNat ≤ 57 at high
    omega
  · decide

theorem isSpace_of_isWordChar {c : Char} (h : isWordChar c = true) : isSpace c = false := by
  obtain ⟨low, high⟩ := toNat_of_isWordChar h
  have mark : (c == '\uFEFF') = false := by
    apply beq_false_of_ne
    rintro rfl
    exact absurd high (by decide)
  have space : isWhiteSpace c = false := by
    simp only [isWhiteSpace, whiteSpaceRanges, inRanges, Bool.and_eq_false_iff,
      Bool.or_eq_false_iff, decide_eq_false_iff_not]
    omega
  simp [isSpace, mark, space]

theorem isWordChar_of_isSpace {c : Char} (h : isSpace c = true) : isWordChar c = false := by
  cases hw : isWordChar c with
  | false => rfl
  | true => rw [isSpace_of_isWordChar hw] at h; cases h

theorem isWordChar_of_isLetter {c : Char} (h : isLetter c = true) : isWordChar c = true := by
  simp [isWordChar, h]

theorem Symbol.isWordChar_char (sign : Symbol) : isWordChar sign.char = false := by
  cases sign <;> decide

theorem Symbol.isSpace_char (sign : Symbol) : isSpace sign.char = false := by
  cases sign <;> decide

/-! ## Names and white space -/

def Name.ofChars (chars : List Char) (word : IsWord chars) : Name :=
  ⟨⟨.ofList chars⟩, by rw [Identifier.Valid, String.toList_ofList]; exact word⟩

@[simp] theorem Name.chars_ofChars (chars : List Char) (word : IsWord chars) :
    (Name.ofChars chars word).chars = chars := String.toList_ofList

@[simp] theorem Name.ofList_chars (name : Name) : String.ofList name.chars = name.identifier.name :=
  String.ofList_toList

theorem Name.exists_cons (name : Name) :
    ∃ c cs, name.chars = c :: cs ∧ isLetter c = true ∧ ∀ d ∈ cs, isWordChar d = true := by
  have word : IsWord name.chars := name.valid
  cases split : name.chars with
  | nil => rw [split] at word; exact word.elim
  | cons c cs =>
    rw [split] at word
    exact ⟨c, cs, rfl, word.1, List.all_eq_true.mp word.2⟩

theorem Name.chars_ne_nil (name : Name) : name.chars ≠ [] := by
  obtain ⟨c, cs, split, -⟩ := name.exists_cons
  rw [split]
  exact List.cons_ne_nil c cs

theorem Name.isWordChar_of_mem (name : Name) {c : Char} (h : c ∈ name.chars) :
    isWordChar c = true := by
  obtain ⟨first, others, split, letter, word⟩ := name.exists_cons
  rw [split] at h
  rcases List.mem_cons.mp h with rfl | member
  · exact isWordChar_of_isLetter letter
  · exact word c member

theorem Name.stops_isSpace (name : Name) (rest : List Char) :
    Stops isSpace (name.chars ++ rest) := by
  obtain ⟨c, cs, split, letter, -⟩ := name.exists_cons
  rw [split]
  exact isSpace_of_isWordChar (isWordChar_of_isLetter letter)

theorem Blank.stops_isWordChar (blank : Blank) {rest : List Char} (h : Stops isWordChar rest) :
    Stops isWordChar (blank.chars ++ rest) :=
  .append (fun c member => isWordChar_of_isSpace (blank.spaces c member)) h

theorem Name.append_inj {name other : Name} {rest tail : List Char}
    (ends : Stops isWordChar rest) (otherEnds : Stops isWordChar tail)
    (same : name.chars ++ rest = other.chars ++ tail) : name = other ∧ rest = tail := by
  obtain ⟨chars, after⟩ := ends.append_inj otherEnds (fun _ => name.isWordChar_of_mem)
    (fun _ => other.isWordChar_of_mem) same
  obtain ⟨⟨name⟩, _⟩ := name
  obtain ⟨⟨other⟩, _⟩ := other
  have names : name = other := String.toList_inj.mp chars
  subst names
  exact ⟨rfl, after⟩

theorem Blank.append_inj {blank other : Blank} {rest tail : List Char}
    (ends : Stops isSpace rest) (otherEnds : Stops isSpace tail)
    (same : blank.chars ++ rest = other.chars ++ tail) : blank = other ∧ rest = tail := by
  obtain ⟨chars, after⟩ := ends.append_inj otherEnds blank.spaces other.spaces same
  obtain ⟨blank, _⟩ := blank
  obtain ⟨other, _⟩ := other
  have blanks : blank = other := chars
  subst blanks
  exact ⟨rfl, after⟩

def Blank.none : Blank := ⟨[], fun _ member => absurd member List.not_mem_nil⟩

theorem Blank.chars_of_stops {blank : Blank} {rest : List Char}
    (h : Stops isSpace (blank.chars ++ rest)) : blank.chars = [] := by
  cases split : blank.chars with
  | nil => rfl
  | cons c cs =>
    rw [split] at h
    have space := blank.spaces c (split ▸ List.mem_cons_self)
    exact absurd space (Bool.eq_false_iff.mp h)

theorem exists_blank (text : List Char) :
    ∃ (blank : Blank) (rest : List Char), text = blank.chars ++ rest ∧ Stops isSpace rest :=
  ⟨⟨text.takeWhile isSpace, fun _ member => List.mem_takeWhile_imp member⟩,
    text.dropWhile isSpace, List.takeWhile_append_dropWhile.symm, stops_dropWhile isSpace text⟩

theorem exists_name (text : List Char) : Stops isLetter text ∨
    ∃ (name : Name) (rest : List Char), text = name.chars ++ rest ∧ Stops isWordChar rest := by
  cases text with
  | nil => exact .inl trivial
  | cons c cs =>
    cases letter : isLetter c with
    | false => exact .inl letter
    | true =>
      have word : IsWord (c :: cs.takeWhile isWordChar) :=
        ⟨letter, List.all_eq_true.mpr fun _ member => List.mem_takeWhile_imp member⟩
      refine .inr ⟨.ofChars _ word, cs.dropWhile isWordChar, ?_, stops_dropWhile isWordChar cs⟩
      rw [Name.chars_ofChars, List.cons_append, List.takeWhile_append_dropWhile]

theorem exists_sign (sign : Char) (text : List Char) :
    Stops (· == sign) text ∨ ∃ rest, text = sign :: rest := by
  cases text with
  | nil => exact .inl trivial
  | cons c rest =>
    by_cases same : c = sign
    · exact .inr ⟨rest, by rw [same]⟩
    · exact .inl (beq_false_of_ne same)

/-! ## Every text -/

/-- At the start of a text stands a rule, or one that breaks off. -/
theorem exists_rule (text : List Char) :
    (∃ (written : WrittenRule) (rest : List Char), text = written.text ++ rest) ∨
    ∃ (broken : BrokenRule) (rest : List Char), text = broken.text ++ rest ∧
      broken.BreaksAt rest := by
  rcases exists_name text with noName | ⟨left, text, rfl, leftEnds⟩
  · exact .inr ⟨.noLeft, text, rfl, noName⟩
  obtain ⟨afterLeft, text, rfl, blankEnds⟩ := exists_blank text
  rcases exists_sign '=' text with noSign | ⟨text, rfl⟩
  · exact .inr ⟨.noSign left afterLeft, text, by simp [BrokenRule.text],
      leftEnds, blankEnds, noSign⟩
  obtain ⟨beforeRight, text, rfl, gapEnds⟩ := exists_blank text
  rcases exists_name text with noName | ⟨right, text, rfl, rightEnds⟩
  · exact .inr ⟨.noRight left afterLeft beforeRight, text, by simp [BrokenRule.text],
      gapEnds, noName⟩
  obtain ⟨afterRight, text, rfl, spaceEnds⟩ := exists_blank text
  rcases exists_sign ';' text with noEnd | ⟨text, rfl⟩
  · exact .inr ⟨.noEnd left afterLeft beforeRight right afterRight, text,
      by simp [BrokenRule.text], rightEnds, spaceEnds, noEnd⟩
  · exact .inl ⟨⟨left, afterLeft, beforeRight, right, afterRight⟩, text,
      by simp [WrittenRule.text]⟩

/-- Text goes on, but neither with white space nor with a rule. -/
structure BrokenRule.Halts (broken : BrokenRule) (tail : List Char) : Prop where
  breaks : broken.BreaksAt tail
  goesOn : broken.text ++ tail ≠ []
  noSpace : Stops isSpace (broken.text ++ tail)

/-- White space and a rule in front of a grammar. -/
def WrittenGrammar.cons (lead : Blank) (rule : WrittenRule) (later : WrittenGrammar) :
    WrittenGrammar := ⟨lead, (rule, later.lead) :: later.rules⟩

theorem WrittenGrammar.text_cons (lead : Blank) (rule : WrittenRule) (later : WrittenGrammar) :
    (cons lead rule later).text = lead.chars ++ (rule.text ++ later.text) := by
  simp [cons, text]

theorem WrittenGrammar.text_mk_nil (lead : Blank) : (mk lead []).text = lead.chars :=
  List.append_nil _

theorem WrittenGrammar.text_mk_cons (lead : Blank) (rule : WrittenRule) (blank : Blank)
    (later : List (WrittenRule × Blank)) :
    (mk lead ((rule, blank) :: later)).text = lead.chars ++ (rule.text ++ (mk blank later).text) :=
  text_cons lead rule ⟨blank, later⟩

theorem WrittenRule.text_ne_nil (written : WrittenRule) : written.text ≠ [] := by
  simp [text]

theorem WrittenRule.stops_isSpace (written : WrittenRule) (rest : List Char) :
    Stops isSpace (written.text ++ rest) := by
  simp only [text, List.append_assoc]
  exact written.left.stops_isSpace _

theorem WrittenRule.text_append (written : WrittenRule) (rest : List Char) :
    written.text ++ rest = written.left.chars ++ (written.afterLeft.chars ++
      '=' :: (written.beforeRight.chars ++ (written.right.chars ++
        (written.afterRight.chars ++ ';' :: rest)))) := by simp [text]

/-- A text starts with a rule in one way at most. -/
theorem WrittenRule.append_inj {written other : WrittenRule} {rest tail : List Char}
    (same : written.text ++ rest = other.text ++ tail) : written = other ∧ rest = tail := by
  -- Token by token: a name ends at the first character that is none of a name, and
  -- white space at the token behind it.
  have noWord (sign : Symbol) (rest : List Char) : Stops isWordChar (sign.char :: rest) :=
    sign.isWordChar_char
  have noSpace (sign : Symbol) (rest : List Char) : Stops isSpace (sign.char :: rest) :=
    sign.isSpace_char
  rw [text_append, text_append] at same
  obtain ⟨left, same⟩ := Name.append_inj
    (written.afterLeft.stops_isWordChar (noWord .definition _))
    (other.afterLeft.stops_isWordChar (noWord .definition _)) same
  obtain ⟨afterLeft, same⟩ := Blank.append_inj (noSpace .definition _)
    (noSpace .definition _) same
  obtain ⟨beforeRight, same⟩ := Blank.append_inj (written.right.stops_isSpace _)
    (other.right.stops_isSpace _) (List.cons.inj same).2
  obtain ⟨right, same⟩ := Name.append_inj
    (written.afterRight.stops_isWordChar (noWord .termination _))
    (other.afterRight.stops_isWordChar (noWord .termination _)) same
  obtain ⟨afterRight, same⟩ := Blank.append_inj (noSpace .termination _)
    (noSpace .termination _) same
  constructor
  · cases written
    cases other
    simp only [WrittenRule.mk.injEq]
    exact ⟨left, afterLeft, beforeRight, right, afterRight⟩
  · exact (List.cons.inj same).2

/-- A text is a grammar, or a grammar and something else after it. -/
theorem exists_grammar (text : List Char) :
    (∃ written : WrittenGrammar, text = written.text) ∨
    ∃ (written : WrittenGrammar) (broken : BrokenRule) (tail : List Char),
      text = written.text ++ (broken.text ++ tail) ∧ broken.Halts tail := by
  generalize size : text.length = n
  induction n using Nat.strongRecOn generalizing text with
  | ind n ih =>
    obtain ⟨lead, text, rfl, noSpace⟩ := exists_blank text
    -- Without a rule, white space alone is a grammar of its own.
    by_cases ended : text = []
    · exact .inl ⟨⟨lead, []⟩, by simp [WrittenGrammar.text, ended]⟩
    rcases exists_rule text with ⟨rule, rest, rfl⟩ | ⟨broken, tail, rfl, breaks⟩
    · have positive := List.length_pos_iff.mpr rule.text_ne_nil
      simp only [List.length_append] at size
      rcases ih rest.length (by omega) rest rfl with
        ⟨later, rfl⟩ | ⟨later, broken, tail, rfl, halts⟩
      · exact .inl ⟨.cons lead rule later, by rw [WrittenGrammar.text_cons]⟩
      · refine .inr ⟨.cons lead rule later, broken, tail, ?_, halts⟩
        simp [WrittenGrammar.text_cons]
    · exact .inr ⟨⟨lead, []⟩, broken, tail, by simp [WrittenGrammar.text], breaks, ended, noSpace⟩

/-- What stands there is neither white space nor a rule, be it that the text has ended. -/
structure BrokenRule.Blocks (broken : BrokenRule) (tail : List Char) : Prop where
  breaks : broken.BreaksAt tail
  noSpace : Stops isSpace (broken.text ++ tail)

theorem BrokenRule.Blocks.ended_or_halts {broken : BrokenRule} {tail : List Char}
    (blocks : broken.Blocks tail) : broken.text ++ tail = [] ∨ broken.Halts tail := by
  by_cases ended : broken.text ++ tail = []
  · exact .inl ended
  · exact .inr ⟨blocks.breaks, ended, blocks.noSpace⟩

/-- The text starts with the grammar, and no rule goes on behind it. -/
def WrittenGrammar.Exhausts (written : WrittenGrammar) (text : List Char) : Prop :=
  ∃ (broken : BrokenRule) (tail : List Char),
    text = written.text ++ (broken.text ++ tail) ∧ broken.Blocks tail

theorem WrittenGrammar.exhausts_text (written : WrittenGrammar) : written.Exhausts written.text :=
  ⟨.noLeft, [], (List.append_nil _).symm, trivial, trivial⟩

theorem exists_exhausts (text : List Char) : ∃ written : WrittenGrammar, written.Exhausts text := by
  rcases exists_grammar text with ⟨written, rfl⟩ | ⟨written, broken, tail, split, halts⟩
  · exact ⟨written, written.exhausts_text⟩
  · exact ⟨written, broken, tail, split, halts.breaks, halts.noSpace⟩

end Metasyntax
