import Metasyntax.Grammar
import Metasyntax.Token.Tree

/-! Reading the literals of a program text: where they end, and what the strings
among them stand for. What follows a literal is shorter than the text that
starts with it. -/
namespace Metasyntax

/-- White space, and the two marks that only set the direction of writing. -/
def isBlank (c : Char) : Bool := isWhiteSpace c || c == '\u200E' || c == '\u200F'

/-- Characters of every alphabet count as letters here. -/
def isNameStart (c : Char) : Bool :=
  isLetter c || c == '_' || (0x80 ≤ c.toNat && !isBlank c)

def isNameChar (c : Char) : Bool := isNameStart c || isDigit c

/-- What follows a name that may end a literal without a gap, such as a unit. -/
def afterSuffix (cs : List Char) : List Char :=
  if cs.head?.any isNameStart then cs.dropWhile isNameChar else cs

/-- What follows the closing quote of text in which a backslash hides the next character. -/
def afterQuote (closing : Char) : List Char → List Char
  | [] => []
  | '\\' :: _ :: rest => afterQuote closing rest
  | c :: rest => if c = closing then rest else afterQuote closing rest

/-- What follows a single character in single quotes, whose opening quote has
been read. A name after a single quote is not one. -/
def afterCharacter? : List Char → Option (List Char)
  | '\\' :: rest => some (afterQuote '\'' ('\\' :: rest))
  | _ :: '\'' :: rest => some rest
  | _ => none

/-- What a text in raw quotes holds and what follows it. It ends at a quote
that is followed by as many hash marks as came before its opening quote. -/
def readRawFrom (hashes : Nat) : List Char → List Char × List Char
  | [] => ([], [])
  | c :: rest =>
    if c = '"' ∧ rest.take hashes = List.replicate hashes '#' then ([], rest.drop hashes)
    else
      let (text, after) := readRawFrom hashes rest
      (c :: text, after)

/-- Reads a text in raw quotes from its hash marks on. -/
def readRaw? (cs : List Char) : Option (List Char × List Char) :=
  let hashes := (cs.takeWhile (· == '#')).length
  match cs.drop hashes with
  | '"' :: body => some (readRawFrom hashes body)
  | _ => none

def isSpacedDigit (c : Char) : Bool := isDigit c || c == '_'

def isUnderscore (c : Char) : Bool := c == '_'

def afterSign : List Char → List Char
  | '+' :: rest => rest
  | '-' :: rest => rest
  | cs => cs

/-- What follows the digits of an exponent, of which there must be one. -/
def afterExponent? (cs : List Char) : Option (List Char) :=
  let digits := (afterSign (cs.dropWhile isUnderscore)).dropWhile isUnderscore
  if digits.head?.any isDigit then some (digits.dropWhile isSpacedDigit) else none

def isExponentMark (c : Char) : Bool := c == 'e' || c == 'E'

/-- What follows a fraction whose point has been read. -/
def afterFraction (cs : List Char) : List Char :=
  let rest := cs.dropWhile isSpacedDigit
  match rest with
  | c :: power => if isExponentMark c then (afterExponent? power).getD rest else rest
  | [] => []

/-- What follows a number with a point or an exponent, whose first digit has been
read. A point that starts a range, or names a part of a value, does not belong
to the number. -/
def afterDecimal? (cs : List Char) : Option (List Char) :=
  match cs.dropWhile isSpacedDigit with
  | '.' :: rest =>
    if rest.head?.any fun c => c == '.' || isNameStart c then none
    else some (afterFraction rest)
  | c :: power => if isExponentMark c then afterExponent? power else none
  | [] => none

def isHexDigit (c : Char) : Bool := (hexValue? c).isSome || c == '_'

/-- What follows a whole number, which may be given to another base than ten. -/
def afterWhole (first : Char) (rest : List Char) : List Char :=
  match first, rest with
  | '0', 'x' :: digits => digits.dropWhile isHexDigit
  | '0', 'o' :: digits => digits.dropWhile isSpacedDigit
  | '0', 'b' :: digits => digits.dropWhile isSpacedDigit
  | _, _ => rest.dropWhile isSpacedDigit

/-- What follows a number whose first digit has been read. -/
def afterNumber (first : Char) (rest : List Char) : List Char :=
  (afterDecimal? rest).getD (afterWhole first rest)

/-- What follows the literal at the front of a text, except for a suffix. -/
def afterLiteral? : List Char → Option (List Char)
  | '"' :: rest => (readQuotedFrom .plain rest).map Prod.snd
  | '\'' :: rest => afterCharacter? rest
  | 'r' :: rest => (readRaw? rest).map Prod.snd
  | 'b' :: '\'' :: rest => afterCharacter? rest
  | 'b' :: '"' :: rest => some (afterQuote '"' rest)
  | 'c' :: '"' :: rest => some (afterQuote '"' rest)
  | 'b' :: 'r' :: rest => (readRaw? rest).map Prod.snd
  | 'c' :: 'r' :: rest => (readRaw? rest).map Prod.snd
  | c :: rest => if isDigit c then some (afterNumber c rest) else none
  | [] => none

/-- The text that the string at the front of a text stands for. -/
def leadingText? : List Char → Option (List Char)
  | '"' :: rest => (readQuotedFrom .plain rest).map Prod.fst
  | 'r' :: rest => (readRaw? rest).map Prod.fst
  | _ => none

/-- The literal at the front of a text, and what follows it. -/
def readLiteral? (cs : List Char) : Option (Literal × List Char) :=
  (afterLiteral? cs).map fun rest =>
    let after := afterSuffix rest
    (⟨.ofList (cs.take (cs.length - after.length)), (leadingText? cs).map .ofList⟩, after)

/-! ## Every reader moves forward -/

theorem length_dropWhile_le (test : Char → Bool) (cs : List Char) :
    (cs.dropWhile test).length ≤ cs.length :=
  (List.dropWhile_suffix test).length_le

theorem length_afterSuffix (cs : List Char) : (afterSuffix cs).length ≤ cs.length := by
  unfold afterSuffix
  split
  · exact length_dropWhile_le _ _
  · exact Nat.le_refl _

theorem length_afterQuote (closing : Char) (cs : List Char) :
    (afterQuote closing cs).length ≤ cs.length := by
  fun_induction afterQuote closing cs with
  | case1 => exact Nat.le_refl _
  | case2 hidden rest ih => simp only [List.length_cons]; omega
  | case3 rest => simp
  | case4 c rest _ _ ih => simp only [List.length_cons]; omega

theorem length_afterCharacter? {cs after : List Char} (h : afterCharacter? cs = some after) :
    after.length ≤ cs.length := by
  unfold afterCharacter? at h
  split at h
  · cases h
    exact length_afterQuote _ _
  · cases h
    simp only [List.length_cons]
    omega
  · cases h

theorem length_readRawFrom (hashes : Nat) (cs : List Char) :
    (readRawFrom hashes cs).2.length ≤ cs.length := by
  induction cs with
  | nil => simp [readRawFrom]
  | cons c rest ih =>
    rw [readRawFrom]
    split
    · simp only [List.length_drop, List.length_cons]
      omega
    · simp only [List.length_cons]
      omega

theorem length_readRaw? {cs text after : List Char} (h : readRaw? cs = some (text, after)) :
    after.length ≤ cs.length := by
  unfold readRaw? at h
  simp only at h
  split at h
  · rename_i body opens
    have shorter := congrArg List.length opens
    have raw := length_readRawFrom (cs.takeWhile (· == '#')).length body
    simp only [Option.some.injEq] at h
    simp only [List.length_drop, List.length_cons] at shorter
    simp only [h] at raw
    omega
  · cases h

theorem length_afterExponent? {cs after : List Char} (h : afterExponent? cs = some after) :
    after.length ≤ cs.length := by
  have sign (digits : List Char) : (afterSign digits).length ≤ digits.length := by
    unfold afterSign
    split <;> simp
  unfold afterExponent? at h
  simp only at h
  split at h
  · cases h
    refine Nat.le_trans (length_dropWhile_le _ _) (Nat.le_trans (length_dropWhile_le _ _) ?_)
    exact Nat.le_trans (sign _) (length_dropWhile_le _ _)
  · cases h

theorem length_afterFraction (cs : List Char) : (afterFraction cs).length ≤ cs.length := by
  have digits := length_dropWhile_le isSpacedDigit cs
  unfold afterFraction
  generalize cs.dropWhile isSpacedDigit = rest at digits
  cases rest with
  | nil => simp
  | cons c power =>
    have exponent := @length_afterExponent? power
    cases read : afterExponent? power <;> grind

theorem length_afterDecimal? {cs after : List Char} (h : afterDecimal? cs = some after) :
    after.length ≤ cs.length := by
  have digits := length_dropWhile_le isSpacedDigit cs
  have fraction := length_afterFraction
  have exponent := @length_afterExponent?
  unfold afterDecimal? at h
  generalize cs.dropWhile isSpacedDigit = rest at digits h
  split at h <;> grind

theorem length_afterNumber (first : Char) (rest : List Char) :
    (afterNumber first rest).length ≤ rest.length := by
  have drop := length_dropWhile_le
  have whole : (afterWhole first rest).length ≤ rest.length := by
    unfold afterWhole
    split <;> grind
  unfold afterNumber
  cases h : afterDecimal? rest with
  | none => exact whole
  | some after => exact length_afterDecimal? h

theorem length_readQuotedFrom {phase : QuotedPhase} {cs text after : List Char}
    (h : readQuotedFrom phase cs = some (text, after)) : after.length ≤ cs.length := by
  induction cs generalizing phase text with
  | nil => cases phase <;> simp [readQuotedFrom] at h
  | cons c rest ih =>
    apply Nat.le_succ_of_le
    have pushed {next : QuotedPhase} {char : Char}
        (h : readBefore char (readQuotedFrom next rest) = some (text, after)) :
        after.length ≤ rest.length := by
      obtain ⟨later, read, _⟩ := readBefore_eq_some.mp h
      exact ih read
    cases phase <;> rw [readQuotedFrom] at h <;> grind [Option.bind_eq_some_iff]

theorem length_afterLiteral? {c : Char} {rest after : List Char}
    (h : afterLiteral? (c :: rest) = some after) : after.length ≤ rest.length := by
  have quoted {body : List Char} (h : (readQuotedFrom .plain body).map Prod.snd = some after) :
      after.length ≤ body.length := by
    obtain ⟨read, found, rfl⟩ := Option.map_eq_some_iff.mp h
    exact length_readQuotedFrom found
  have raw {body : List Char} (h : (readRaw? body).map Prod.snd = some after) :
      after.length ≤ body.length := by
    obtain ⟨read, found, rfl⟩ := Option.map_eq_some_iff.mp h
    exact length_readRaw? found
  have character {body : List Char} (h : afterCharacter? body = some after) :
      after.length ≤ body.length := length_afterCharacter? h
  have quote := length_afterQuote '"'
  have number := length_afterNumber
  unfold afterLiteral? at h
  split at h <;> grind

theorem length_readLiteral? {c : Char} {rest after : List Char} {literal : Literal}
    (h : readLiteral? (c :: rest) = some (literal, after)) : after.length ≤ rest.length := by
  obtain ⟨tail, read, found⟩ := Option.map_eq_some_iff.mp h
  cases found
  exact Nat.le_trans (length_afterSuffix tail) (length_afterLiteral? read)

end Metasyntax
