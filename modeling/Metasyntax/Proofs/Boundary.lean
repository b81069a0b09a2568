import Mathlib.Order.Bounds.Basic
import Metasyntax.Text.Source

/-! The boundaries of a text: the offsets between its characters and at its ends. -/
namespace Metasyntax

theorem isBoundary_zero (text : List Char) : IsBoundary text 0 := ⟨[], text, rfl, rfl⟩

theorem isBoundary_cons_iff {c : Char} {text : List Char} {n : Nat} :
    IsBoundary (c :: text) n ↔ n = 0 ∨ ∃ k, IsBoundary text k ∧ n = c.utf8Size + k := by
  constructor
  · rintro ⟨before, after, split, rfl⟩
    cases before with
    | nil => exact .inl rfl
    | cons d before =>
      obtain ⟨rfl, rfl⟩ := List.cons.inj split
      exact .inr ⟨_, ⟨before, after, rfl, rfl⟩, rfl⟩
  · rintro (rfl | ⟨k, ⟨before, after, rfl, rfl⟩, rfl⟩)
    · exact isBoundary_zero _
    · exact ⟨c :: before, after, rfl, rfl⟩

theorem IsBoundary.le {text : List Char} {n : Nat} (h : IsBoundary text n) :
    n ≤ utf8Length text := by
  obtain ⟨before, after, rfl, rfl⟩ := h
  rw [utf8Length_append]
  exact Nat.le_add_right _ _

/-- Offsets are brought back to the last boundary that they do not lie before. -/
theorem isGreatest_boundaryBefore (text : List Char) (n : Nat) :
    IsGreatest {k | IsBoundary text k ∧ k ≤ n} (boundaryBefore text n) := by
  induction text generalizing n with
  | nil =>
    refine ⟨⟨isBoundary_zero [], Nat.zero_le n⟩, ?_⟩
    rintro k ⟨boundary, -⟩
    exact boundary.le
  | cons c text ih =>
    rw [boundaryBefore]
    split
    · rename_i fits
      obtain ⟨⟨boundary, le⟩, greatest⟩ := ih (n - c.utf8Size)
      refine ⟨⟨isBoundary_cons_iff.mpr (.inr ⟨_, boundary, rfl⟩), by omega⟩, ?_⟩
      rintro k ⟨other, below⟩
      rcases isBoundary_cons_iff.mp other with rfl | ⟨j, inside, rfl⟩
      · exact Nat.zero_le _
      · have later : j ≤ boundaryBefore text (n - c.utf8Size) := greatest ⟨inside, by omega⟩
        omega
    · rename_i short
      refine ⟨⟨isBoundary_zero _, Nat.zero_le n⟩, ?_⟩
      rintro k ⟨other, below⟩
      rcases isBoundary_cons_iff.mp other with rfl | ⟨j, -, rfl⟩
      · exact Nat.le_refl 0
      · exact absurd (Nat.le_trans (Nat.le_add_right _ j) below) short

/-! ## The characters up to an offset -/

theorem takeBytes_append (before rest : List Char) :
    takeBytes (before ++ rest) (utf8Length before) = before := by
  induction before with
  | nil =>
    cases rest with
    | nil => rfl
    | cons c rest => exact if_neg (Nat.not_le.mpr c.utf8Size_pos)
  | cons c before ih =>
    have fits : c.utf8Size ≤ c.utf8Size + utf8Length before := Nat.le_add_right _ _
    rw [List.cons_append, utf8Length, takeBytes, if_pos fits, Nat.add_sub_cancel_left, ih]

/-- A text is split in one way at a number of bytes. -/
theorem append_inj_of_utf8Length {before rest other later : List Char}
    (same : before ++ rest = other ++ later) (length : utf8Length before = utf8Length other) :
    before = other ∧ rest = later := by
  have start : before = other := by
    rw [← takeBytes_append before rest, same, length, takeBytes_append]
  subst start
  exact ⟨rfl, List.append_cancel_left same⟩

theorem takeBytes_isPrefix (text : List Char) (n : Nat) : takeBytes text n <+: text := by
  induction text generalizing n with
  | nil => exact List.nil_prefix
  | cons c text ih =>
    rw [takeBytes]
    split
    · exact List.cons_prefix_cons.mpr ⟨rfl, ih _⟩
    · exact List.nil_prefix

theorem takeBytes_mono (text : List Char) {m n : Nat} (le : m ≤ n) :
    takeBytes text m <+: takeBytes text n := by
  induction text generalizing m n with
  | nil => exact List.nil_prefix
  | cons c text ih =>
    by_cases fits : c.utf8Size ≤ m
    · rw [takeBytes, takeBytes, if_pos fits, if_pos (Nat.le_trans fits le)]
      exact List.cons_prefix_cons.mpr ⟨rfl, ih (by omega)⟩
    · rw [takeBytes, if_neg fits]
      exact List.nil_prefix

/-- The characters up to an offset end where the offset is brought back to. -/
theorem utf8Length_takeBytes (text : List Char) (n : Nat) :
    utf8Length (takeBytes text n) = boundaryBefore text n := by
  induction text generalizing n with
  | nil => rfl
  | cons c text ih =>
    rw [takeBytes, boundaryBefore]
    split
    · rw [utf8Length, ih]
    · rfl

theorem boundaryBefore_append (before rest : List Char) :
    boundaryBefore (before ++ rest) (utf8Length before) = utf8Length before := by
  rw [← utf8Length_takeBytes, takeBytes_append]

theorem exists_split_at_boundary (text : List Char) (n : Nat) :
    ∃ before rest, text = before ++ rest ∧ boundaryBefore text n = utf8Length before := by
  obtain ⟨rest, split⟩ := takeBytes_isPrefix text n
  exact ⟨takeBytes text n, rest, split.symm, (utf8Length_takeBytes text n).symm⟩

end Metasyntax
