/-! Texts addressed by byte. Every offset in this library counts the bytes of
the UTF-8 form, so an offset may fall inside a character: such an offset has
no text after it, and is brought back to the start of that character where a
position is wanted. -/
namespace Metasyntax

/-- The bytes that the characters take in UTF-8. -/
def utf8Length : List Char → Nat
  | [] => 0
  | c :: cs => c.utf8Size + utf8Length cs

@[simp] theorem utf8Length_append (before after : List Char) :
    utf8Length (before ++ after) = utf8Length before + utf8Length after := by
  induction before with
  | nil => simp [utf8Length]
  | cons c cs ih => simp [utf8Length, ih, Nat.add_assoc]

theorem utf8Length_toList (text : String) : utf8Length text.toList = text.utf8ByteSize := by
  have ofList (chars : List Char) : utf8Length chars = (String.ofList chars).utf8ByteSize := by
    induction chars with
    | nil => rfl
    | cons c cs ih =>
      rw [String.ofList_cons, String.utf8ByteSize_append, String.utf8ByteSize_singleton, ← ih]
      rfl
  rw [ofList, String.ofList_toList]

theorem utf8Length_eq_zero {chars : List Char} : utf8Length chars = 0 ↔ chars = [] := by
  cases chars with
  | nil => exact iff_of_true rfl rfl
  | cons c cs =>
    have positive := c.utf8Size_pos
    refine iff_of_false ?_ (List.cons_ne_nil c cs)
    rw [utf8Length]
    omega

/-- The characters from a byte offset on. There are none to give when the
offset falls inside a character or past the end. -/
def dropBytes? : List Char → Nat → Option (List Char)
  | cs, 0 => some cs
  | [], _ + 1 => none
  | c :: cs, n + 1 =>
    if c.utf8Size ≤ n + 1 then dropBytes? cs (n + 1 - c.utf8Size) else none

/-- The characters that end at or before a byte offset. -/
def takeBytes : List Char → Nat → List Char
  | [], _ => []
  | c :: cs, n => if c.utf8Size ≤ n then c :: takeBytes cs (n - c.utf8Size) else []

/-- The greatest offset up to `n` at which a character starts or the text ends. -/
def boundaryBefore : List Char → Nat → Nat
  | [], _ => 0
  | c :: cs, n =>
    if c.utf8Size ≤ n then c.utf8Size + boundaryBefore cs (n - c.utf8Size) else 0

/-- An offset with whole characters on both sides. -/
def IsBoundary (text : List Char) (n : Nat) : Prop :=
  ∃ before after, text = before ++ after ∧ utf8Length before = n

@[simp] theorem dropBytes?_zero (cs : List Char) : dropBytes? cs 0 = some cs := by
  cases cs <;> rfl

theorem dropBytes?_cons (c : Char) (cs : List Char) (n : Nat) :
    dropBytes? (c :: cs) (c.utf8Size + n) = dropBytes? cs n := by
  have positive := c.utf8Size_pos
  obtain ⟨k, hk⟩ : ∃ k, c.utf8Size + n = k + 1 := ⟨c.utf8Size + n - 1, by omega⟩
  have fits : c.utf8Size ≤ k + 1 := by omega
  rw [hk, dropBytes?, if_pos fits]
  congr 1
  omega

theorem dropBytes?_append (before after : List Char) (n : Nat) :
    dropBytes? (before ++ after) (utf8Length before + n) = dropBytes? after n := by
  induction before with
  | nil => simp [utf8Length]
  | cons c cs ih => rw [List.cons_append, utf8Length, Nat.add_assoc, dropBytes?_cons, ih]

theorem dropBytes?_utf8Length (before after : List Char) :
    dropBytes? (before ++ after) (utf8Length before) = some after := by
  simpa using dropBytes?_append before after 0

theorem dropBytes?_eq_some {text rest : List Char} {n : Nat}
    (h : dropBytes? text n = some rest) :
    ∃ before, text = before ++ rest ∧ utf8Length before = n := by
  induction text generalizing n with
  | nil =>
    cases n with
    | zero => exact ⟨[], by simpa using h, rfl⟩
    | succ n => simp [dropBytes?] at h
  | cons c cs ih =>
    cases n with
    | zero => exact ⟨[], by simpa using h, rfl⟩
    | succ n =>
      rw [dropBytes?] at h
      split at h
      · rename_i fits
        obtain ⟨before, rfl, hn⟩ := ih h
        exact ⟨c :: before, rfl, by rw [utf8Length, hn]; omega⟩
      · cases h

/-- Reading on: after the characters just read comes what followed them. -/
theorem dropBytes?_advance {text consumed rest : List Char} {n : Nat}
    (h : dropBytes? text n = some (consumed ++ rest)) :
    dropBytes? text (n + utf8Length consumed) = some rest := by
  obtain ⟨before, rfl, rfl⟩ := dropBytes?_eq_some h
  rw [dropBytes?_append, dropBytes?_utf8Length]

/-- A text together with its length in bytes. -/
structure Source where
  chars : List Char
  size : Nat
  size_eq : size = utf8Length chars

def Source.ofList (chars : List Char) : Source := ⟨chars, utf8Length chars, rfl⟩

def Source.ofString (text : String) : Source := .ofList text.toList

end Metasyntax
