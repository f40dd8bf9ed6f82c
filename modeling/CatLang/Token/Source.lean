import CatLang.Span

/-! Where the characters of a program come from. -/
namespace CatLang

/-- Characters that come one at a time, each with its offset. A source may give more of them after
it gave none. -/
class CharSource (σ : Type) where
  next : σ → Option (Nat × Char) × σ
  /-- At most so many characters are still to come. -/
  size : σ → Nat
  size_next_le (s : σ) : size (next s).2 ≤ size s
  size_next_lt {s : σ} {place : Nat × Char} (h : (next s).1 = some place) :
    size (next s).2 < size s

instance : CharSource (List (Nat × Char)) where
  next s := (s.head?, s.tail)
  size := List.length
  size_next_le s := by simp
  size_next_lt {s place} h := by
    cases s with
    | nil => cases h
    | cons first rest => exact Nat.lt_succ_self _

/-- The characters of a text whose first byte stands `start` bytes into the source. -/
def Text.placed (start : Nat) : List Char → List (Nat × Char)
  | [] => []
  | c :: rest => (Span.wrap start, c) :: placed (start + c.utf8Size) rest

end CatLang
