import Metasyntax.Text.Blank
import Metasyntax.Text.Hidden

/-! Text between double quotes, in which a backslash starts an escape. `inspectText`
shows a text to people, `quote` writes a string literal, and `readQuoted` reads one. -/
namespace Metasyntax

/-- A character as it stands between quotes. Hidden characters without a letter
of their own are written by their code point, in hexadecimal. -/
def escape (c : Char) : List Char :=
  match c with
  | '"' => ['\\', '"']
  | '\\' => ['\\', '\\']
  | '\n' => ['\\', 'n']
  | '\t' => ['\\', 't']
  | '\r' => ['\\', 'r']
  | '\x00' => ['\\', '0']
  | c =>
    if isHidden c then '\\' :: 'u' :: '\x7b' :: (Nat.toDigits 16 c.toNat ++ ['\x7d'])
    else [c]

def inspectText (text : String) : String :=
  .ofList ('"' :: (text.toList.flatMap escape ++ ['"']))

def isOctalDigit (c : Char) : Bool := '0' ≤ c && c ≤ '7'

/-- The characters of a literal. A null character is written with two digits in
front of an octal digit, which would else seem to belong to its escape. -/
def escapeAll : List Char → List Char
  | [] => []
  | c :: rest =>
    (if c = '\x00' ∧ rest.head?.any isOctalDigit then ['\\', 'x', '0', '0'] else escape c) ++
      escapeAll rest

def quoteChars (text : List Char) : List Char :=
  '"' :: (escapeAll text ++ ['"'])

def quote (text : String) : String := .ofList (quoteChars text.toList)

def hexValue? (c : Char) : Option Nat :=
  if '0' ≤ c ∧ c ≤ '9' then some (c.toNat - '0'.toNat)
  else if 'a' ≤ c ∧ c ≤ 'f' then some (c.toNat - 'a'.toNat + 10)
  else if 'A' ≤ c ∧ c ≤ 'F' then some (c.toNat - 'A'.toNat + 10)
  else none

/-- How far a reader of a literal has come. `lineEnd` follows a carriage return,
which does not count before a line feed. `continued` follows a backslash at the
end of a line, after which white space does not count. -/
inductive QuotedPhase where
  | plain
  | lineEnd
  | continued
  | escaped
  | byteHigh
  | byteLow (high : Nat)
  | codeOpen
  | code (value digits : Nat)
  deriving DecidableEq, Repr

/-- The meaning of an escape that is a single letter. -/
def escapedChar? (c : Char) : Option Char :=
  match c with
  | 'n' => some '\n'
  | 'r' => some '\r'
  | 't' => some '\t'
  | '0' => some '\x00'
  | '\\' => some '\\'
  | '\'' => some '\''
  | '"' => some '"'
  | _ => none

/-- A character in front of what was read after it. -/
def readBefore (char : Char) (read : Option (List Char × List Char)) :
    Option (List Char × List Char) :=
  read.map fun (text, after) => (char :: text, after)

theorem readBefore_eq_some {char : Char} {read : Option (List Char × List Char)}
    {text after : List Char} :
    readBefore char read = some (text, after) ↔
      ∃ later, read = some (later, after) ∧ text = char :: later := by
  cases read with
  | none => simp [readBefore]
  | some found =>
    simp only [readBefore, Option.map_some, Option.some.injEq, Prod.mk.injEq]
    constructor
    · rintro ⟨rfl, rfl⟩
      exact ⟨found.1, rfl, rfl⟩
    · rintro ⟨later, rfl, rfl⟩
      exact ⟨rfl, rfl⟩

/-- Reads a literal whose opening quote has been read: its text, and what
follows the closing quote. -/
def readQuotedFrom : QuotedPhase → List Char → Option (List Char × List Char)
  | _, [] => none
  | .escaped, c :: rest =>
    if c = 'x' then readQuotedFrom .byteHigh rest
    else if c = 'u' then readQuotedFrom .codeOpen rest
    else if c = '\n' ∨ c = '\r' then readQuotedFrom .continued rest
    else (escapedChar? c).bind fun char => readBefore char (readQuotedFrom .plain rest)
  | .byteHigh, c :: rest =>
    (hexValue? c).bind fun high =>
      if high < 8 then readQuotedFrom (.byteLow high) rest else none
  | .byteLow high, c :: rest =>
    (hexValue? c).bind fun low =>
      readBefore (.ofNat (16 * high + low)) (readQuotedFrom .plain rest)
  | .codeOpen, c :: rest => if c = '\x7b' then readQuotedFrom (.code 0 0) rest else none
  | .code value digits, c :: rest =>
    if c = '\x7d' then
      if 0 < digits ∧ value.isValidChar then
        readBefore (.ofNat value) (readQuotedFrom .plain rest)
      else none
    else if c = '_' then
      if 0 < digits then readQuotedFrom (.code value digits) rest else none
    else (hexValue? c).bind fun digit =>
      if digits < 6 then readQuotedFrom (.code (16 * value + digit) (digits + 1)) rest else none
  | .lineEnd, c :: rest =>
    if c = '\n' then readBefore c (readQuotedFrom .plain rest) else none
  | phase, c :: rest =>
    if phase = .continued ∧ isWhiteSpace c then readQuotedFrom .continued rest
    else if c = '"' then some ([], rest)
    else if c = '\\' then readQuotedFrom .escaped rest
    else if c = '\r' then readQuotedFrom .lineEnd rest
    else readBefore c (readQuotedFrom .plain rest)

/-- Reads a literal from its opening quote on. -/
def readQuoted : List Char → Option (List Char × List Char)
  | '"' :: rest => readQuotedFrom .plain rest
  | _ => none

end Metasyntax
