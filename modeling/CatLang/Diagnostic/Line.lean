import CatLang.Text.Blank
import CatLang.Text.Size
import CatLang.Text.Width

/-! The lines of a source as they are shown: every character with its place in the line and the
columns it fills. -/
namespace CatLang

structure Glyph where
  /-- Byte offset in the line. -/
  index : Nat
  size : Nat
  width : Nat
  shown : String

/-- The glyphs from a byte offset and a column on. A tab fills up to the next multiple of four. -/
def Glyph.ofChars (index column : Nat) : List Char → List Glyph
  | [] => []
  | c :: rest =>
    let width := if c = '\t' then 4 - column % 4 else Text.width c
    let shown := if c = '\t' then String.ofList (List.replicate width ' ') else String.singleton c
    ⟨index, c.utf8Size, width, shown⟩ :: ofChars (index + c.utf8Size) (column + width) rest

structure Line where
  number : Nat
  /-- Byte offset of the line in the source. -/
  start : Nat
  chars : List Char

namespace Line

def split : List Char → List (List Char)
  | [] => [[]]
  | '\n' :: rest => [] :: split rest
  | c :: rest =>
    match split rest with
    | [] => [[c]]
    | line :: lines => (c :: line) :: lines

def enumerate (number start : Nat) : List (List Char) → List Line
  | [] => []
  | chars :: rest =>
    ⟨number, start, chars⟩ :: enumerate (number + 1) (start + Text.byteLength chars + 1) rest

def ofSource (source : String) : List Line := enumerate 1 0 (split source.toList)

def indexOf (lines : List Line) (offset : Nat) : Nat :=
  (lines.filter fun line => line.start ≤ offset).length - 1

def isLineEnd (c : Char) : Bool := c == '\n' || c == '\r' || c == Char.ofNat 0

/-- The characters shown, without line ends and zeros behind them. -/
def body (line : Line) : List Char := (line.chars.reverse.dropWhile isLineEnd).reverse

def glyphs (line : Line) : List Glyph := Glyph.ofChars 0 0 line.body

/-- One more than the characters that end at or before an offset of the source. -/
def column (line : Line) (offset : Nat) : Nat :=
  1 + ((Glyph.ofChars 0 0 line.chars).filter fun g =>
    line.start + g.index + g.size ≤ offset).length

/-- The bytes of white space that the shown text starts with. -/
def margin (line : Line) : Nat := Text.byteLength (line.body.takeWhile Text.isBlank)

end Line

end CatLang
