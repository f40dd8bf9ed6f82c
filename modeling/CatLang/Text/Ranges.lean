/-! Sets of characters given as ranges of code points, in increasing order. -/
namespace CatLang.Text

/-- Whether a code point lies in one of the ranges, ends included. A range that starts above it
ends the search. -/
def inRanges : List (Nat × Nat) → Nat → Bool
  | [], _ => false
  | (low, high) :: rest, code => low ≤ code && (code ≤ high || inRanges rest code)

end CatLang.Text
