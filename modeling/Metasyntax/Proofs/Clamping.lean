import Mathlib.Order.Monotone.Defs
import Metasyntax.Parsing.State
import Metasyntax.Proofs.LinesAndColumns

/-! Bringing an offset back to a boundary, by a search over the bytes of the text. The
search goes back byte by byte, which a text in UTF-8 allows, as no byte that goes on with a
character could also start one. It finds the offset at which a state is set up, and the one
that coordinates are counted to. -/
namespace Metasyntax

/-- A byte that goes on with a character. -/
def isContinuation (byte : UInt8) : Bool := 0x80 ≤ byte && byte < 0xC0

def utf8Bytes (text : List Char) : List UInt8 := text.flatMap String.utf8EncodeChar

/-- Whether an offset is a boundary, as the bytes tell: it is one of the ends, or the byte
behind it does not go on with a character. -/
def isByteBoundary (bytes : List UInt8) (n : Nat) : Bool :=
  n == 0 || n == bytes.length || bytes[n]?.any fun byte => !isContinuation byte

/-- Goes back byte by byte as long as the offset is no boundary. There is nothing in front
of the first byte. -/
def searchBack (bytes : List UInt8) : Nat → Option Nat
  | 0 => if isByteBoundary bytes 0 then some 0 else none
  | n + 1 => if isByteBoundary bytes (n + 1) then some (n + 1) else searchBack bytes n

/-! ## Bytes of characters -/

theorem isContinuation_ofNat {n : Nat} (small : n < 256) :
    isContinuation (UInt8.ofNat n) = (decide (0x80 ≤ n) && decide (n < 0xC0)) := by
  have value : (UInt8.ofNat n).toNat = n := UInt8.toNat_ofNat_of_lt small
  simp only [isContinuation, UInt8.le_iff_toNat_le, UInt8.lt_iff_toNat_lt, value]
  rfl

theorem isContinuation_low (n : Nat) : isContinuation (UInt8.ofNat (n % 0x40 + 0x80)) = true := by
  rw [isContinuation_ofNat (by omega)]
  simp only [Bool.and_eq_true, decide_eq_true_eq]
  omega

/-- Only the first byte of a character does not go on with it. -/
theorem exists_first_byte (c : Char) :
    ∃ first more, String.utf8EncodeChar c = first :: more ∧ isContinuation first = false ∧
      ∀ byte ∈ more, isContinuation byte = true := by
  have starts {n : Nat} (small : n < 256) (outside : n < 0x80 ∨ 0xC0 ≤ n) :
      isContinuation (UInt8.ofNat n) = false := by
    rw [isContinuation_ofNat small]
    simp only [Bool.and_eq_false_iff, decide_eq_false_iff_not]
    omega
  have goesOn (n : Nat) {more : List UInt8} (later : ∀ byte ∈ more, isContinuation byte = true) :
      ∀ byte ∈ UInt8.ofNat (n % 0x40 + 0x80) :: more, isContinuation byte = true :=
    List.forall_mem_cons.mpr ⟨isContinuation_low n, later⟩
  have done : ∀ byte ∈ ([] : List UInt8), isContinuation byte = true := nofun
  fun_cases String.utf8EncodeChar c with
  | case1 v => exact ⟨_, _, rfl, starts (by omega) (by omega), done⟩
  | case2 v => exact ⟨_, _, rfl, starts (by omega) (by omega), goesOn _ done⟩
  | case3 v => exact ⟨_, _, rfl, starts (by omega) (by omega), goesOn _ (goesOn _ done)⟩
  | case4 v =>
    exact ⟨_, _, rfl, starts (by omega) (by omega), goesOn _ (goesOn _ (goesOn _ done))⟩

theorem length_utf8Bytes (text : List Char) : (utf8Bytes text).length = utf8Length text := by
  induction text with
  | nil => rfl
  | cons c text ih =>
    rw [utf8Bytes, List.flatMap_cons, List.length_append, String.length_utf8EncodeChar]
    exact congrArg (c.utf8Size + ·) ih

/-! ## Boundaries -/

theorem isByteBoundary_zero (bytes : List UInt8) : isByteBoundary bytes 0 = true := rfl

theorem isByteBoundary_inside {c : Char} {text : List Char} {n : Nat} (some : 0 < n)
    (inside : n < c.utf8Size) : isByteBoundary (utf8Bytes (c :: text)) n = false := by
  obtain ⟨first, more, bytes, -, goesOn⟩ := exists_first_byte c
  have size := String.length_utf8EncodeChar c
  rw [bytes, List.length_cons] at size
  obtain ⟨k, rfl⟩ := Nat.exists_eq_succ_of_ne_zero (Nat.ne_of_gt some)
  have member : k < more.length := by omega
  have found : (utf8Bytes (c :: text))[k + 1]? = Option.some more[k] := by
    rw [utf8Bytes, List.flatMap_cons, bytes, List.cons_append, List.getElem?_cons_succ,
      List.getElem?_append_left member, List.getElem?_eq_getElem member]
  have notEnd : k + 1 ≠ (utf8Bytes (c :: text)).length := by
    rw [length_utf8Bytes, utf8Length]
    omega
  simp [isByteBoundary, found, notEnd, goesOn _ (List.getElem_mem member)]

theorem isByteBoundary_behind (c : Char) (text : List Char) (k : Nat) :
    isByteBoundary (utf8Bytes (c :: text)) (c.utf8Size + k) =
      isByteBoundary (utf8Bytes text) k := by
  have size := String.length_utf8EncodeChar c
  have positive := c.utf8Size_pos
  have found : (utf8Bytes (c :: text))[c.utf8Size + k]? = (utf8Bytes text)[k]? := by
    rw [utf8Bytes, List.flatMap_cons, List.getElem?_append_right (by omega), size,
      Nat.add_sub_cancel_left]
    rfl
  have length : (utf8Bytes (c :: text)).length = c.utf8Size + (utf8Bytes text).length := by
    rw [length_utf8Bytes, length_utf8Bytes, utf8Length]
  cases k with
  | succ k =>
    have notStart : (c.utf8Size + (k + 1) == 0) = (k + 1 == 0) := by simp
    have atEnd : (c.utf8Size + (k + 1) == c.utf8Size + (utf8Bytes text).length) =
        (k + 1 == (utf8Bytes text).length) := by
      rw [Bool.eq_iff_iff, beq_iff_eq, beq_iff_eq, Nat.add_left_cancel_iff]
    rw [isByteBoundary, isByteBoundary, found, length, notStart, atEnd]
  | zero =>
    rw [isByteBoundary_zero, isByteBoundary, found, length]
    cases text with
    | nil => simp [utf8Bytes]
    | cons d text =>
      -- The next character starts with a byte that does not go on with one.
      obtain ⟨first, more, bytes, starts, -⟩ := exists_first_byte d
      simp [utf8Bytes, bytes, starts]

/-- The bytes tell where characters start and where they do not. -/
theorem isByteBoundary_iff (text : List Char) (n : Nat) :
    isByteBoundary (utf8Bytes text) n = true ↔ IsBoundary text n := by
  induction text generalizing n with
  | nil =>
    constructor
    · intro boundary
      have zero : n = 0 := by simpa [isByteBoundary, utf8Bytes] using boundary
      rw [zero]
      exact isBoundary_zero []
    · intro boundary
      obtain rfl := Nat.le_zero.mp boundary.le
      exact isByteBoundary_zero _
  | cons c text ih =>
    rw [isBoundary_cons_iff]
    rcases Nat.eq_zero_or_pos n with rfl | some
    · exact iff_of_true (isByteBoundary_zero _) (.inl rfl)
    · by_cases inside : n < c.utf8Size
      · rw [isByteBoundary_inside some inside]
        refine iff_of_false Bool.false_ne_true ?_
        rintro (zero | ⟨k, -, behind⟩) <;> omega
      · obtain ⟨k, rfl⟩ := Nat.exists_eq_add_of_le (Nat.not_lt.mp inside)
        rw [isByteBoundary_behind, ih]
        constructor
        · intro boundary
          exact .inr ⟨k, boundary, rfl⟩
        · rintro (zero | ⟨j, boundary, same⟩)
          · omega
          · obtain rfl : k = j := by omega
            exact boundary

/-! ## The search -/

/-- The search ends, at the first offset where a character starts or at the last one. -/
theorem exists_searchBack (bytes : List UInt8) (n : Nat) :
    ∃ k, searchBack bytes n = some k ∧
      IsGreatest {k | isByteBoundary bytes k = true ∧ k ≤ n} k := by
  induction n with
  | zero =>
    refine ⟨0, rfl, ⟨isByteBoundary_zero bytes, Nat.le_refl 0⟩, ?_⟩
    rintro k ⟨-, below⟩
    exact below
  | succ n ih =>
    rw [searchBack]
    split
    · rename_i boundary
      refine ⟨n + 1, rfl, ⟨boundary, Nat.le_refl _⟩, ?_⟩
      rintro k ⟨-, below⟩
      exact below
    · rename_i inside
      obtain ⟨k, found, ⟨boundary, le⟩, greatest⟩ := ih
      refine ⟨k, found, ⟨boundary, Nat.le_succ_of_le le⟩, ?_⟩
      rintro j ⟨other, below⟩
      rcases Nat.le_succ_iff.mp below with earlier | rfl
      · exact greatest ⟨other, earlier⟩
      · exact absurd other inside

theorem Source.searchBack_eq (source : Source) (start : Nat) :
    searchBack (utf8Bytes source.chars) (min start source.size) =
      some (boundaryBefore source.chars start) := by
  obtain ⟨k, found, greatest⟩ := exists_searchBack (utf8Bytes source.chars) (min start source.size)
  simp only [isByteBoundary_iff] at greatest
  rw [found, greatest.unique (source.isGreatest_boundaryBefore_min start)]

theorem boundaryBefore_of_isBoundary {text : List Char} {n : Nat} (boundary : IsBoundary text n) :
    boundaryBefore text n = n := by
  obtain ⟨before, rest, rfl, rfl⟩ := boundary
  exact boundaryBefore_append before rest

theorem boundaryBefore_mono (text : List Char) : Monotone (boundaryBefore text) := by
  intro m n le
  obtain ⟨⟨boundary, below⟩, -⟩ := isGreatest_boundaryBefore text m
  obtain ⟨-, greatest⟩ := isGreatest_boundaryBefore text n
  exact greatest ⟨boundary, Nat.le_trans below le⟩

/-- **Both clamps bring an offset back to one boundary.** The search over the bytes, from
the offset or from the end of the text where that comes first, does not run past the first
byte. It ends at the last boundary that does not lie behind its start. A state is set up
there, and coordinates are counted over the characters in front of it, so that they are
those of the place of the state. A boundary stays where it is, and offsets that grow are
brought back to boundaries that do not go back. -/
theorem clamps_agree (source : Source) :
    (∀ start, ∃ before rest : List Char,
      source.chars = before ++ rest ∧
      searchBack (utf8Bytes source.chars) (min start source.size) = some (utf8Length before) ∧
      IsGreatest {k | IsBoundary source.chars k ∧ k ≤ min start source.size} (utf8Length before) ∧
      (State.at source start).pos = utf8Length before ∧
      source.coordinates start = .after before ∧
      source.coordinates start = source.coordinates (State.at source start).pos) ∧
    (∀ start, IsBoundary source.chars start → (State.at source start).pos = start) ∧
    Monotone fun start => (State.at source start).pos := by
  refine ⟨?_, fun _ => boundaryBefore_of_isBoundary, boundaryBefore_mono source.chars⟩
  intro start
  obtain ⟨rest, split⟩ := takeBytes_isPrefix source.chars start
  have length := utf8Length_takeBytes source.chars start
  have clamped : (State.at source start).pos = boundaryBefore source.chars start := rfl
  refine ⟨takeBytes source.chars start, rest, split.symm, ?_, ?_, ?_, rfl, ?_⟩
  · rw [length]
    exact source.searchBack_eq start
  · rw [length]
    exact source.isGreatest_boundaryBefore_min start
  · rw [clamped, length]
  · rw [clamped, ← length]
    exact (source.coordinates_of_boundary split.symm).symm

/-- An offset inside the third character, one between characters, and one past the end. -/
theorem clamps_in_wide_characters :
    let source := Source.ofString "é\n→b"
    searchBack (utf8Bytes source.chars) 5 = some 3 ∧ (State.at source 5).pos = 3 ∧
      source.coordinates 5 = source.coordinates 3 ∧
      IsBoundary source.chars 6 ∧ (State.at source 6).pos = 6 ∧
      (State.at source 900).pos = 7 ∧ source.coordinates 900 = ⟨2, 3⟩ ∧
      (State.at source 5).pos ≤ (State.at source 6).pos := by
  intro source
  have boundary : IsBoundary source.chars 6 := ⟨['é', '\n', '→'], ['b'], by decide +kernel, rfl⟩
  obtain ⟨-, fixed, mono⟩ := clamps_agree source
  exact ⟨by decide +kernel, by decide +kernel, by decide +kernel, boundary, fixed 6 boundary,
    by decide +kernel, by decide +kernel, mono (by decide)⟩

end Metasyntax
