import Mathlib.Data.List.Induction
import Mathlib.Data.Prod.Lex
import Mathlib.Order.Monotone.Defs
import Metasyntax.Proofs.Boundary
import Metasyntax.Text.Coordinates

/-! Lines and columns as one pass over the text counts them. Every character moves the
pass ahead, so no two offsets between characters share their coordinates. -/
namespace Metasyntax

/-- The coordinates of the start of a text. -/
def Coordinates.start : Coordinates := ⟨1, 1⟩

/-- Past one character: a line end leads to the start of the next line. -/
def Coordinates.step (place : Coordinates) (c : Char) : Coordinates :=
  if c = '\n' then ⟨place.line + 1, 1⟩ else ⟨place.line, place.column + 1⟩

/-- Past all of the characters, from left to right. -/
def Coordinates.scan (place : Coordinates) (chars : List Char) : Coordinates :=
  chars.foldl step place

/-- The order of coordinates: by lines, and within a line by columns. -/
def Coordinates.key (place : Coordinates) : Nat ×ₗ Nat := toLex (place.line, place.column)

/-! ## One pass -/

theorem Coordinates.after_concat (before : List Char) (c : Char) :
    after (before ++ [c]) = (after before).step c := by
  unfold after step
  rw [List.count_append, List.reverse_concat]
  by_cases lineEnd : c = '\n'
  · subst lineEnd
    rfl
  · have inLine : (c != '\n') = true := bne_iff_ne.mpr lineEnd
    have noLine : [c].count '\n' = 0 := List.count_eq_zero.mpr fun member =>
      lineEnd (List.mem_singleton.mp member).symm
    have longer : (c :: before.reverse).takeWhile (· != '\n') =
        c :: before.reverse.takeWhile (· != '\n') := List.takeWhile_cons_of_pos inLine
    rw [if_neg lineEnd, noLine, longer]
    rfl

/-- The counts over a text are where a pass over it leads. -/
theorem Coordinates.after_eq_scan (before : List Char) : after before = start.scan before := by
  -- From the end, where the counts grow as the pass does.
  induction before using List.reverseRecOn with
  | nil => rfl
  | append_singleton before c ih =>
    rw [after_concat, ih, scan, scan, List.foldl_append]
    rfl

theorem Coordinates.lt_step (place : Coordinates) (c : Char) : place.key < (place.step c).key := by
  apply Prod.Lex.toLex_lt_toLex.mpr
  unfold step
  split
  · exact .inl (Nat.lt_succ_self _)
  · exact .inr ⟨rfl, Nat.lt_succ_self _⟩

theorem Coordinates.le_scan (place : Coordinates) (chars : List Char) :
    place.key ≤ (place.scan chars).key := by
  induction chars generalizing place with
  | nil => exact le_refl _
  | cons c chars ih => exact le_trans (place.lt_step c).le (ih (place.step c))

theorem Coordinates.lt_scan_cons (place : Coordinates) (c : Char) (chars : List Char) :
    place.key < (place.scan (c :: chars)).key :=
  lt_of_lt_of_le (place.lt_step c) ((place.step c).le_scan chars)

theorem Coordinates.after_append (before more : List Char) :
    after (before ++ more) = (after before).scan more := by
  rw [after_eq_scan, after_eq_scan, scan, List.foldl_append]
  rfl

theorem Coordinates.key_after_mono {before longer : List Char} (starts : before <+: longer) :
    (after before).key ≤ (after longer).key := by
  obtain ⟨more, rfl⟩ := starts
  rw [after_append]
  exact (after before).le_scan more

/-! ## Offsets -/

theorem Source.coordinates_of_boundary {source : Source} {before rest : List Char}
    (split : source.chars = before ++ rest) :
    source.coordinates (utf8Length before) = .after before := by
  rw [coordinates, split, takeBytes_append]

theorem Source.coordinates_mono (source : Source) :
    Monotone fun pos => (source.coordinates pos).key :=
  fun _ _ le => Coordinates.key_after_mono (takeBytes_mono source.chars le)

theorem Source.coordinates_strictMonoOn (source : Source) :
    StrictMonoOn (fun pos => (source.coordinates pos).key) {n | IsBoundary source.chars n} := by
  rintro m ⟨before, rest, split, rfl⟩ n ⟨longer, others, otherSplit, rfl⟩ less
  -- Of two splits of one text the later one goes on behind the earlier.
  rcases List.append_eq_append_iff.mp (split.symm.trans otherSplit) with
    ⟨more, rfl, -⟩ | ⟨gone, rfl, -⟩
  · cases more with
    | nil =>
      rw [List.append_nil] at less
      exact absurd less (lt_irrefl _)
    | cons c more =>
      have place := source.coordinates_of_boundary split
      have later := source.coordinates_of_boundary otherSplit
      rw [Coordinates.after_append] at later
      simp only [place, later]
      exact (Coordinates.after before).lt_scan_cons c more
  · rw [utf8Length_append] at less
    omega

/-- The bytes that a pass over the characters takes until it comes to the target. -/
def Coordinates.bytesTo (target : Coordinates) : Coordinates → List Char → Nat
  | _, [] => 0
  | place, c :: chars =>
    if place = target then 0 else c.utf8Size + target.bytesTo (place.step c) chars

/-- The offset at which a pass over the source comes to the coordinates. -/
def Source.offsetOf (source : Source) (place : Coordinates) : Nat :=
  place.bytesTo .start source.chars

/-- A pass comes to the place that a text leads to behind this text, and not earlier. -/
theorem Coordinates.bytesTo_scan (place : Coordinates) (before rest : List Char) :
    (place.scan before).bytesTo place (before ++ rest) = utf8Length before := by
  induction before generalizing place with
  | nil =>
    cases rest with
    | nil => rfl
    | cons c rest => exact if_pos rfl
  | cons c before ih =>
    have notYet : place ≠ place.scan (c :: before) := by
      intro same
      exact absurd (congrArg key same) (ne_of_lt (place.lt_scan_cons c before))
    rw [List.cons_append, bytesTo, if_neg notYet, utf8Length]
    congr 1
    exact ih (place.step c)

theorem Source.offsetOf_coordinates (source : Source) (pos : Nat) :
    source.offsetOf (source.coordinates pos) = boundaryBefore source.chars pos := by
  obtain ⟨rest, split⟩ := takeBytes_isPrefix source.chars pos
  have there := Coordinates.start.bytesTo_scan (takeBytes source.chars pos) rest
  rw [split, ← Coordinates.after_eq_scan] at there
  rw [offsetOf, coordinates, there, utf8Length_takeBytes]

/-- No boundary lies past the end. -/
theorem Source.isGreatest_boundaryBefore_min (source : Source) (pos : Nat) :
    IsGreatest {k | IsBoundary source.chars k ∧ k ≤ min pos source.size}
      (boundaryBefore source.chars pos) := by
  obtain ⟨⟨boundary, le⟩, greatest⟩ := isGreatest_boundaryBefore source.chars pos
  refine ⟨⟨boundary, le_min le (source.size_eq ▸ boundary.le)⟩, ?_⟩
  rintro k ⟨other, below⟩
  exact greatest ⟨other, le_trans below (min_le_left _ _)⟩

/-- **Coordinates are counted in one pass and can be undone.** Those of an offset are where
a pass from the first column of the first line stands behind the characters in front of the
last boundary that neither lies behind the offset nor past the end, and this boundary
is found again from them. They do not go back when offsets grow, by lines and then by columns.
Over the boundaries they grow with every character, so that no two have the same. -/
theorem coordinates_are_counted_in_one_pass (source : Source) :
    (∀ pos, ∃ before rest : List Char, source.chars = before ++ rest ∧
      IsGreatest {k | IsBoundary source.chars k ∧ k ≤ min pos source.size} (utf8Length before) ∧
      source.coordinates pos = before.foldl Coordinates.step ⟨1, 1⟩ ∧
      source.offsetOf (source.coordinates pos) = utf8Length before) ∧
    (Monotone fun pos => (source.coordinates pos).key) ∧
    StrictMonoOn (fun pos => (source.coordinates pos).key) {n | IsBoundary source.chars n} ∧
    ∀ m n, IsBoundary source.chars m → IsBoundary source.chars n → m ≠ n →
      source.coordinates m ≠ source.coordinates n := by
  refine ⟨?_, source.coordinates_mono, source.coordinates_strictMonoOn, ?_⟩
  · intro pos
    obtain ⟨rest, split⟩ := takeBytes_isPrefix source.chars pos
    refine ⟨takeBytes source.chars pos, rest, split.symm, ?_, ?_, ?_⟩
    · rw [utf8Length_takeBytes]
      exact source.isGreatest_boundaryBefore_min pos
    · exact Coordinates.after_eq_scan _
    · rw [utf8Length_takeBytes]
      exact source.offsetOf_coordinates pos
  · intro m n boundary other apart same
    have strict := source.coordinates_strictMonoOn
    exact apart (strict.injOn boundary other (congrArg Coordinates.key same))

/-- A line end between two characters of more than one byte, and an offset inside the
second of them. -/
theorem line_end_between_wide_characters :
    let source := Source.ofString "é\n→b"
    IsBoundary source.chars 2 ∧ IsBoundary source.chars 3 ∧
      source.coordinates 2 = ⟨1, 2⟩ ∧ source.coordinates 5 = ⟨2, 1⟩ ∧
      (source.coordinates 2).key < (source.coordinates 3).key ∧
      source.coordinates 2 ≠ source.coordinates 3 ∧
      source.offsetOf (source.coordinates 5) = 3 := by
  intro source
  have lineEnd : IsBoundary source.chars 2 := ⟨['é'], ['\n', '→', 'b'], by decide +kernel, rfl⟩
  have lineStart : IsBoundary source.chars 3 := ⟨['é', '\n'], ['→', 'b'], by decide +kernel, rfl⟩
  obtain ⟨-, -, strict, distinct⟩ := coordinates_are_counted_in_one_pass source
  refine ⟨lineEnd, lineStart, by decide +kernel, by decide +kernel, ?_, ?_, by decide +kernel⟩
  · exact strict lineEnd lineStart (by decide)
  · exact distinct 2 3 lineEnd lineStart (by decide)

end Metasyntax
