/-! Stretches of source text as byte offsets, from `start` up to `stop`. Offsets are numbers of 32
bits: in a longer text they start over from zero. -/
namespace CatLang

structure Span where
  start : Nat
  stop : Nat
deriving DecidableEq

namespace Span

/-- The offset of a place this many bytes into a text. -/
def wrap (place : Nat) : Nat := place % 4294967296

def point (offset : Nat) : Span := ⟨offset, offset⟩

def merge (a b : Span) : Span := ⟨min a.start b.start, max a.stop b.stop⟩

/-- The part inside a text of `size` bytes; a stretch past its end becomes empty there. -/
def clamp (a : Span) (size : Nat) : Span :=
  ⟨min a.start size, max (min a.stop size) (min a.start size)⟩

def order (a b : Span) : Ordering :=
  (compare a.start b.start).then (compare a.stop b.stop)

def text (a : Span) : String := toString a.start ++ ".." ++ toString a.stop

end Span

structure Located (α : Type) where
  value : α
  span : Span
deriving DecidableEq

end CatLang
