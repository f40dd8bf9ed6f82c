import CatLang.Diagnostic

/-! Text with colours, written for a terminal or plainly. -/
namespace CatLang

inductive Paint where
  | header (severity : Severity)
  | title
  | label (severity : Severity)
  | frame
  | starting
  | working
deriving DecidableEq

/-- Every paint starts from the terminal's own colours. -/
def Paint.code : Paint → String
  | header .error => "\x1b[0m\x1b[1m\x1b[38;5;9m"
  | header .warning => "\x1b[0m\x1b[1m\x1b[38;5;11m"
  | title => "\x1b[0m\x1b[1m"
  | label .error => "\x1b[0m\x1b[31m"
  | label .warning => "\x1b[0m\x1b[33m"
  | frame => "\x1b[0m\x1b[34m"
  | starting => "\x1b[0m\x1b[1m\x1b[38;5;13m"
  | working => "\x1b[0m\x1b[1m\x1b[38;5;10m"

inductive Piece where
  | text (shown : String)
  | paint (colours : Paint)
  | reset

namespace Piece

def render (coloured : Bool) : Piece → String
  | text shown => shown
  | paint colours => if coloured then colours.code else ""
  | reset => if coloured then "\x1b[0m" else ""

def renderAll (coloured : Bool) (pieces : List Piece) : String :=
  String.join (pieces.map (render coloured))

def painted (p : Paint) (t : String) : List Piece := [paint p, text t, reset]

def newline : Piece := text "\n"

def spaces (count : Nat) : String := String.ofList (List.replicate count ' ')

end Piece

end CatLang
