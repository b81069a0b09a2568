import Metasyntax.Token.Literal

/-! Reading program text into token trees. The text is taken to be well formed:
a bracket that is never closed is closed at the end, one that was never opened
is passed over. -/
namespace Metasyntax

inductive Lexeme where
  | tree (tree : Tree)
  | opening (delimiter : Delimiter)
  | closing

def Lexeme.bracket? : Char → Option Lexeme
  | '(' => some (.opening .parenthesis)
  | '[' => some (.opening .bracket)
  | '\x7b' => some (.opening .brace)
  | ')' | ']' | '\x7d' => some .closing
  | _ => none

/-! ## Comments -/

/-- Splits a text at the end of its first line, the start of which has been read. -/
def readLine (cs : List Char) : List Char × List Char :=
  let line := cs.takeWhile (· != '\n')
  (if line.getLast? = some '\r' then line.dropLast else line, cs.dropWhile (· != '\n'))

/-- Splits a text at the end of a comment, in which comments may be nested.
`depth` comments are open inside the one that is to be ended. -/
def readComment : Nat → List Char → List Char × List Char
  | depth, '/' :: '*' :: rest =>
    let (text, after) := readComment (depth + 1) rest
    ('/' :: '*' :: text, after)
  | 0, '*' :: '/' :: rest => ([], rest)
  | depth + 1, '*' :: '/' :: rest =>
    let (text, after) := readComment depth rest
    ('*' :: '/' :: text, after)
  | depth, c :: rest =>
    let (text, after) := readComment depth rest
    (c :: text, after)
  | _, [] => ([], [])

/-- Documentation is an attribute that gives a text. That of what encloses it
has an exclamation mark. -/
def documentation (enclosing : Bool) (text : List Char) : List Lexeme :=
  .tree (.point '#') :: (if enclosing then [.tree (.point '!')] else []) ++
    [.opening .bracket, .tree (.word "doc"), .tree (.point '='),
      .tree (.literal (.ofText (.ofList text))), .closing]

/-- A comment whose first slash has been read. It leaves nothing, unless it is
documentation: a third slash or a second star makes it so, a fourth or a third
does not. -/
def readRemark? : List Char → Option (List Lexeme × List Char)
  | '/' :: '!' :: rest => some (documented true (readLine rest))
  | '/' :: '/' :: '/' :: rest => some (skipped (readLine rest))
  | '/' :: '/' :: rest => some (documented false (readLine rest))
  | '/' :: rest => some (skipped (readLine rest))
  | '*' :: '!' :: rest => some (documented true (readComment 0 rest))
  | '*' :: '*' :: '*' :: rest => some (skipped (readComment 0 ('*' :: '*' :: rest)))
  | '*' :: '*' :: '/' :: rest => some ([], rest)
  | '*' :: '*' :: rest => some (documented false (readComment 0 rest))
  | '*' :: rest => some (skipped (readComment 0 rest))
  | _ => none
where
  documented (enclosing : Bool) (read : List Char × List Char) : List Lexeme × List Char :=
    (documentation enclosing read.1, read.2)
  skipped (read : List Char × List Char) : List Lexeme × List Char := ([], read.2)

/-- What is written in place of a literal that could not be made. It is read as
a literal, though it is a comment in parentheses. -/
def brokenLiteral : List Char := ['(', '/', '*', 'E', 'R', 'R', 'O', 'R', '*', '/', ')']

/-- A comment, or the stand-in for a literal, whose first character has been read. -/
def readAside? (c : Char) (rest : List Char) : Option (List Lexeme × List Char) :=
  if c = '/' then readRemark? rest
  else if rest.take brokenLiteral.tail.length = brokenLiteral.tail ∧ c = '(' then
    some ([.tree (.literal ⟨.ofList brokenLiteral, none⟩)], rest.drop brokenLiteral.tail.length)
  else none

/-! ## Names and marks -/

def markChars : List Char :=
  ['~', '!', '@', '#', '$', '%', '^', '&', '*', '-', '=', '+', '|', ';', ':', ',', '<', '.', '>',
   '/', '?', '\'']

/-- Whether a text goes on with a mark. A slash may also start a comment. -/
def startsMark : List Char → Bool
  | '/' :: '/' :: _ => false
  | '/' :: '*' :: _ => false
  | c :: _ => markChars.contains c
  | [] => false

/-- A name, which may be in its raw spelling. -/
def readName : List Char → String × List Char
  | 'r' :: '#' :: rest =>
    if rest.head?.any isNameStart then
      (.ofList ('r' :: '#' :: rest.takeWhile isNameChar), rest.dropWhile isNameChar)
    else ("r", '#' :: rest)
  | cs => (.ofList (cs.takeWhile isNameChar), cs.dropWhile isNameChar)

/-- The lexemes that start with a character that is not blank, and what follows
them. -/
def readLexeme (c : Char) (rest : List Char) : List Lexeme × List Char :=
  match readAside? c rest, Lexeme.bracket? c, readLiteral? (c :: rest) with
  | some (lexemes, after), _, _ => (lexemes, after)
  | none, some bracket, _ => ([bracket], rest)
  | none, none, some (literal, after) => ([.tree (.literal literal)], after)
  | none, none, none =>
    if isNameStart c then
      let (spelling, after) := readName (c :: rest)
      ([.tree (.word spelling)], after)
    else ([.tree (.mark c (c == '\'' || startsMark rest))], rest)

theorem length_readLine (cs : List Char) : (readLine cs).2.length ≤ cs.length :=
  length_dropWhile_le _ _

theorem length_readComment (depth : Nat) (cs : List Char) :
    (readComment depth cs).2.length ≤ cs.length := by
  fun_induction readComment depth cs <;> grind

theorem length_readRemark? {cs after : List Char} {lexemes : List Lexeme}
    (h : readRemark? cs = some (lexemes, after)) : after.length ≤ cs.length := by
  have line := length_readLine
  have comment := length_readComment 0
  unfold readRemark? at h
  split at h <;> grind [readRemark?.documented, readRemark?.skipped]

theorem length_readName {c : Char} {rest : List Char} (start : isNameStart c = true) :
    (readName (c :: rest)).2.length ≤ rest.length := by
  have drop := length_dropWhile_le isNameChar
  have name : ((c :: rest).dropWhile isNameChar).length ≤ rest.length := by
    rw [List.dropWhile_cons, if_pos (by simp [isNameChar, start])]
    exact drop _
  unfold readName
  split <;> grind

theorem length_readAside? {c : Char} {rest after : List Char} {lexemes : List Lexeme}
    (h : readAside? c rest = some (lexemes, after)) : after.length ≤ rest.length := by
  unfold readAside? at h
  split at h
  · exact length_readRemark? h
  · split at h
    · cases h
      simp only [List.length_drop]
      omega
    · cases h

theorem length_readLexeme (c : Char) (rest : List Char) :
    (readLexeme c rest).2.length ≤ rest.length := by
  unfold readLexeme
  split
  · rename_i read
    exact length_readAside? read
  · exact Nat.le_refl _
  · rename_i read
    exact length_readLiteral? read
  · split
    · rename_i start
      exact length_readName start
    · exact Nat.le_refl _

/-- The lexemes of a text. -/
def lexemes : List Char → List Lexeme
  | [] => []
  | c :: rest =>
    if isBlank c then lexemes rest
    else (readLexeme c rest).1 ++ lexemes (readLexeme c rest).2
termination_by cs => cs.length
decreasing_by
  · simp
  · exact Nat.lt_succ_of_le (length_readLexeme c rest)

/-- Puts what stands between brackets into groups. `outer` holds, for each
bracket that is open, what came before it, in reverse. -/
def assemble : List Lexeme → List Tree → List (Delimiter × List Tree) → List Tree
  | [], done, outer =>
    (outer.foldl (fun body level => .group level.1 body.reverse :: level.2) done).reverse
  | .tree tree :: rest, done, outer => assemble rest (tree :: done) outer
  | .opening delimiter :: rest, done, outer => assemble rest [] ((delimiter, done) :: outer)
  | .closing :: rest, done, (delimiter, before) :: outer =>
    assemble rest (.group delimiter done.reverse :: before) outer
  | .closing :: rest, done, [] => assemble rest done []

def Tree.scan (text : String) : List Tree := assemble (lexemes text.toList) [] []

end Metasyntax
