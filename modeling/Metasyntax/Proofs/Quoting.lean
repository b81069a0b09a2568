import Mathlib.Tactic.Ring
import Metasyntax.Text.Quoted
import Metasyntax.Token.Tree

/-! A string literal is read back as the text it was written for. Whatever is in the
text, reading ends at the closing quote and nowhere before it. -/
namespace Metasyntax

/-! ## Code points -/

theorem hexValue?_digitChar : ∀ digit < 16, hexValue? (Nat.digitChar digit) = some digit := by
  decide

theorem digitChar_ne_closing : ∀ digit < 16, Nat.digitChar digit ≠ '\x7d' := by decide

theorem digitChar_ne_underscore : ∀ digit < 16, Nat.digitChar digit ≠ '_' := by decide

theorem readQuotedFrom_digit {value digits digit : Nat} (small : digit < 16) (few : digits < 6)
    (rest : List Char) :
    readQuotedFrom (.code value digits) (Nat.digitChar digit :: rest) =
      readQuotedFrom (.code (16 * value + digit) (digits + 1)) rest := by
  rw [readQuotedFrom, if_neg (digitChar_ne_closing digit small),
    if_neg (digitChar_ne_underscore digit small), hexValue?_digitChar digit small,
    Option.bind_some, if_pos few]

/-- Digits are read in the order in which they are written, each a sixteenth of the
one before. -/
theorem readQuotedFrom_toDigits (n : Nat) {value digits : Nat} (rest : List Char)
    (few : digits + (Nat.toDigits 16 n).length ≤ 6) :
    readQuotedFrom (.code value digits) (Nat.toDigits 16 n ++ rest) =
      readQuotedFrom (.code (16 ^ (Nat.toDigits 16 n).length * value + n)
        (digits + (Nat.toDigits 16 n).length)) rest := by
  induction n using Nat.strongRecOn generalizing rest with
  | ind n ih =>
    by_cases small : n < 16
    · rw [Nat.toDigits_of_lt_base small] at few ⊢
      exact readQuotedFrom_digit small few rest
    · have front : n / 16 < n := by omega
      have last : n % 16 < 16 := Nat.mod_lt n (by omega)
      rw [Nat.toDigits_of_base_le (by omega) (by omega), List.length_append,
        List.length_singleton] at few ⊢
      rw [List.append_assoc, ih (n / 16) front _ (by omega), List.singleton_append,
        readQuotedFrom_digit last (by omega)]
      have value_eq : 16 * (16 ^ (Nat.toDigits 16 (n / 16)).length * value + n / 16) + n % 16 =
          16 ^ ((Nat.toDigits 16 (n / 16)).length + 1) * value + n := by
        have parts := Nat.div_add_mod n 16
        rw [Nat.pow_succ, Nat.mul_add, Nat.add_assoc, parts]
        ring
      rw [value_eq, Nat.add_assoc]

theorem toNat_lt_sixDigits (c : Char) : c.toNat < 16 ^ 6 := by
  have valid : c.toNat.isValidChar := c.valid
  rcases valid with low | ⟨-, high⟩ <;> omega

theorem readQuotedFrom_code (c : Char) (rest : List Char) :
    readQuotedFrom (.code 0 0) (Nat.toDigits 16 c.toNat ++ '\x7d' :: rest) =
      readBefore c (readQuotedFrom .plain rest) := by
  have few : (Nat.toDigits 16 c.toNat).length ≤ 6 :=
    (Nat.length_toDigits_le_iff (by omega) (by omega)).mpr (toNat_lt_sixDigits c)
  have some : 0 < (Nat.toDigits 16 c.toNat).length := Nat.length_toDigits_pos
  have valid : c.toNat.isValidChar := c.valid
  rw [readQuotedFrom_toDigits _ _ (by omega), Nat.mul_zero, Nat.zero_add, Nat.zero_add,
    readQuotedFrom, if_pos rfl, if_pos ⟨some, valid⟩, Char.ofNat_toNat]

/-! ## Escapes -/

/-- A character that needs no escape stands for itself. -/
theorem readQuotedFrom_plain {c : Char} (noQuote : c ≠ '"') (noEscape : c ≠ '\\')
    (noReturn : c ≠ '\r') (rest : List Char) :
    readQuotedFrom .plain (c :: rest) = readBefore c (readQuotedFrom .plain rest) := by
  have counts : ¬ (QuotedPhase.plain = .continued ∧ isWhiteSpace c = true) := by
    rintro ⟨other, -⟩
    cases other
  rw [readQuotedFrom, if_neg counts, if_neg noQuote, if_neg noEscape, if_neg noReturn] <;> nofun

theorem readQuotedFrom_escape (c : Char) (rest : List Char) :
    readQuotedFrom .plain (escape c ++ rest) = readBefore c (readQuotedFrom .plain rest) := by
  unfold escape
  split
  · rfl
  · rfl
  · rfl
  · rfl
  · rfl
  · rfl
  · rename_i noQuote noEscape _ _ noReturn _
    split
    · have written : '\\' :: 'u' :: '\x7b' :: (Nat.toDigits 16 c.toNat ++ ['\x7d']) ++ rest =
          '\\' :: 'u' :: '\x7b' :: (Nat.toDigits 16 c.toNat ++ '\x7d' :: rest) := by simp
      rw [written]
      exact readQuotedFrom_code c rest
    · exact readQuotedFrom_plain noQuote noEscape noReturn rest

theorem readQuotedFrom_escapeAll (text rest : List Char) :
    readQuotedFrom .plain (escapeAll text ++ '"' :: rest) = some (text, rest) := by
  induction text with
  | nil => rfl
  | cons c text ih =>
    have later : readBefore c (readQuotedFrom .plain (escapeAll text ++ '"' :: rest)) =
        some (c :: text, rest) := by
      rw [ih]
      rfl
    rw [escapeAll, List.append_assoc]
    split
    · rename_i null
      obtain ⟨rfl, -⟩ := null
      exact later
    · rw [readQuotedFrom_escape]
      exact later

/-- A literal is read to its closing quote, whatever follows, and stands for its text. -/
theorem readQuoted_quoteChars (text rest : List Char) :
    readQuoted (quoteChars text ++ rest) = some (text, rest) := by
  have written : quoteChars text ++ rest = '"' :: (escapeAll text ++ '"' :: rest) := by
    simp [quoteChars]
  rw [written]
  exact readQuotedFrom_escapeAll text rest

/-! ## Literals -/

/-- The text that a literal is spelled for, if it is a string literal and nothing else. -/
def Literal.value? (literal : Literal) : Option String :=
  match readQuoted literal.spelling.toList with
  | some (text, []) => some (.ofList text)
  | _ => none

theorem Literal.value?_ofText (text : String) : (Literal.ofText text).value? = some text := by
  have whole := readQuoted_quoteChars text.toList []
  rw [List.append_nil] at whole
  have spelling : (Literal.ofText text).spelling.toList = quoteChars text.toList :=
    String.toList_ofList
  rw [value?, spelling, whole]
  exact congrArg some String.ofList_toList

end Metasyntax
