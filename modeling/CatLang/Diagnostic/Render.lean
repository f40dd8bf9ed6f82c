import CatLang.Diagnostic.Line
import CatLang.Diagnostic.Paint

/-! Diagnostics as text: a header, the marked lines between a frame, and the notes. A stretch inside
one line is underlined; a longer one is bracketed at the left, with a cut when it has many lines. -/
namespace CatLang

namespace Excerpt
open Piece

/-- The space left of the frame, as wide as the largest line number. -/
def outer (pad : Nat) : Piece := text (spaces (pad + 1))

def border : List Piece := painted .frame "│"

def isInside (start stop : Nat) (g : Glyph) : Bool :=
  max g.index start < min (g.index + g.size) stop

/-- Paint starts or stops where a run of marked glyphs does. -/
def switch (label : Paint) : Bool → Bool → List Piece
  | false, true => [paint label]
  | true, false => [reset]
  | _, _ => []

/-- The glyphs in order, each as `shown` has it, the marked ones in the label's paint. -/
def paintRuns (label : Paint) (marked : Glyph → Bool) (shown : Glyph → String) :
    Bool → List Glyph → List Piece
  | before, [] => switch label before false
  | before, g :: rest =>
    switch label before (marked g) ++ text (shown g) :: paintRuns label marked shown (marked g) rest

def sourceLine (pad : Nat) (label : Paint) (gutter : List Piece) (marked : Glyph → Bool)
    (line : Line) : List Piece :=
  let digits := toString line.number
  painted .frame (spaces (pad - digits.length) ++ digits) ++ text " " :: border ++ gutter
    ++ text " " :: paintRuns label marked Glyph.shown false line.glyphs ++ [newline]

def afterLast (line : Line) : Glyph := ⟨Text.byteLength line.body, 1, 1, ""⟩

/-- Carets below the marked glyphs, and spaces up to them. -/
def caret (start stop : Nat) (g : Glyph) : String :=
  if isInside start stop g then String.ofList (List.replicate g.width '^')
  else if g.index < stop then spaces g.width
  else ""

def messagePieces (label : Paint) (message : String) : List Piece :=
  if message.isEmpty then [] else text " " :: painted label message

def single (pad : Nat) (label : Paint) (message : String) (span : Span) (line : Line) :
    List Piece :=
  let start := span.start - line.start
  let stop := max (span.stop - line.start) (start + 1)
  sourceLine pad label [] (isInside start stop) line
    ++ outer pad :: border ++ text " "
    :: paintRuns label (isInside start stop) (caret start stop) false
        (line.glyphs ++ [afterLast line])
    ++ messagePieces label message ++ [newline]

/-- A stroke below the glyphs that start before an offset. -/
def stroke (line : Line) (stop : Nat) : String :=
  String.join ((line.glyphs.filter fun g => g.index < stop).map fun g =>
    String.ofList (List.replicate g.width '─'))

def bracket (label : Paint) (symbol : String) : List Piece := text " " :: painted label symbol

/-- The first line of a bracket. It opens in the gutter when nothing but white space is before the
mark, and below the line otherwise. -/
def opening (pad : Nat) (label : Paint) (span : Span) (line : Line) : List Piece :=
  let start := span.start - line.start
  let marked := fun (g : Glyph) => decide (start ≤ g.index)
  if start ≤ line.margin then sourceLine pad label (bracket label "╭") marked line
  else
    sourceLine pad label [text "  "] marked line
      ++ outer pad :: border ++ bracket label "╭"
      ++ painted label (stroke line (start + 1) ++ "^") ++ [newline]

def inner (pad : Nat) (label : Paint) (line : Line) : List Piece :=
  sourceLine pad label (bracket label "│") (fun _ => true) line

def gap (pad : Nat) (label : Paint) : List Piece :=
  outer pad :: painted .frame "·" ++ bracket label "│" ++ [newline]

/-- Three lines after the first and one before the last are shown, and the others only if a cut
would save no line. -/
def middle (pad : Nat) (label : Paint) (lines : List Line) : List Piece :=
  if lines.length ≤ 5 then lines.flatMap (inner pad label)
  else
    (lines.take 3).flatMap (inner pad label) ++ gap pad label
      ++ (lines.drop (lines.length - 1)).flatMap (inner pad label)

def closing (pad : Nat) (label : Paint) (message : String) (span : Span) (line : Line) :
    List Piece :=
  let stop := span.stop - line.start
  let tail := if message.isEmpty then "" else " " ++ message
  sourceLine pad label (bracket label "│") (fun g => decide (g.index + g.size ≤ stop)) line
    ++ outer pad :: border ++ bracket label "╰"
    ++ painted label (stroke line stop ++ "^" ++ tail) ++ [newline]

def several (pad : Nat) (label : Paint) (message : String) (span : Span) (first : Line)
    (rest : List Line) : List Piece :=
  opening pad label span first ++ middle pad label rest.dropLast
    ++ (rest.drop (rest.length - 1)).flatMap (closing pad label message span)

def touched (e : Excerpt) : List Line :=
  let lines := Line.ofSource e.source
  let first := Line.indexOf lines e.span.start
  let last := Line.indexOf lines e.span.stop
  (lines.drop first).take (last + 1 - first)

def padOf (lines : List Line) : Nat :=
  match lines.getLast? with
  | none => 0
  | some line => (toString line.number).length

/-- A line of the frame without source. It leaves room for the bracket if there is one. -/
def emptyLine (lines : List Line) : List Piece :=
  outer (padOf lines) :: border ++ (if lines.length ≤ 1 then [] else [text "  "]) ++ [newline]

def pieces (e : Excerpt) (severity : Severity) (lines : List Line) : List Piece :=
  let label := Paint.label severity
  let message := e.label.getD ""
  let pad := padOf lines
  match lines with
  | [] => []
  | first :: rest =>
    let place := " " ++ e.path ++ ":" ++ toString first.number ++ ":"
      ++ toString (first.column e.span.start)
    outer pad :: painted .frame "┌─" ++ [text place, newline] ++ emptyLine lines
      ++ match rest with
        | [] => single pad label message e.span first
        | _ :: _ => several pad label message e.span first rest

end Excerpt

namespace Diagnostic
open Piece

/-- The lines of a note: a line end may be preceded by a carriage return, and the last one needs
none. -/
def noteLines (note : String) : List String :=
  let lines := Line.split note.toList
  let ended := lines.dropLast.map fun line =>
    if line.getLast? = some '\r' then line.dropLast else line
  let last := (lines.drop (lines.length - 1)).filter (!·.isEmpty)
  (ended ++ last).map String.ofList

/-- The first line of a note is marked, the others stand below it. -/
def notePieces (pad : Nat) (note : String) : List Piece :=
  (noteLines note).zipIdx.flatMap fun (line, k) =>
    Excerpt.outer pad :: (if k = 0 then painted .frame "=" else [text " "])
      ++ [text (" " ++ line), newline]

def severityText : Severity → String
  | .error => "error"
  | .warning => "warning"

def header (d : Diagnostic) : List Piece :=
  [paint (.header d.severity), text (severityText d.severity), paint .title,
   text (": " ++ d.title), reset, newline]

def body (d : Diagnostic) : List Piece :=
  match d.excerpt with
  | none => d.notes.flatMap (notePieces 0)
  | some e =>
    let lines := e.touched
    e.pieces d.severity lines ++ (if d.notes.isEmpty then [] else Excerpt.emptyLine lines)
      ++ d.notes.flatMap (notePieces (Excerpt.padOf lines))

def render (d : Diagnostic) (coloured : Bool) : String :=
  Piece.renderAll coloured (d.header ++ d.body ++ [newline])

def renderApart (d : Diagnostic) (coloured : Bool) : String := d.render coloured ++ "\n"

end Diagnostic

end CatLang
