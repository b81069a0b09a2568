/-! Sets of code points, as closed ranges in ascending order. -/
namespace Metasyntax

/-- Whether a code point lies in one of the ranges. The search ends at the first
range that starts beyond it. -/
def inRanges : List (Nat × Nat) → Nat → Bool
  | [], _ => false
  | (first, last) :: ranges, n => first ≤ n && (n ≤ last || inRanges ranges n)

theorem inRanges_of_lt {first last : Nat} {ranges : List (Nat × Nat)} {n : Nat}
    (before : n < first) : inRanges ((first, last) :: ranges) n = false := by
  rw [inRanges, decide_eq_false (Nat.not_le.mpr before), Bool.false_and]

/-- What lies between the first two ranges is in none. -/
theorem inRanges_between {first last : Nat} {next : Nat × Nat} {ranges : List (Nat × Nat)} {n : Nat}
    (behind : last < n) (before : n < next.1) :
    inRanges ((first, last) :: next :: ranges) n = false := by
  rw [inRanges, inRanges_of_lt before, decide_eq_false (Nat.not_le.mpr behind), Bool.or_false,
    Bool.and_false]

end Metasyntax
