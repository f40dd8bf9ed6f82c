import CatLang.Text.Quoted
import CatLang.Tree

/-! The tree of a program laid out in full, one field or element a line, four columns deeper at
each level. -/
namespace CatLang

/-- A layout: bare text, a list, a tagged value or a record with named fields. -/
inductive Outline where
  | leaf (text : String)
  | list (items : List Outline)
  | tagged (tag : String) (item : Outline)
  | record (tag : String) (fields : List (String × Outline))

namespace Outline

def indent (depth : Nat) : String := String.ofList (List.replicate (4 * depth) ' ')

mutual
/-- The text from the first character on; later lines are indented for this depth. -/
def render (depth : Nat) : Outline → String
  | leaf text => text
  | list [] => "[]"
  | list (item :: rest) =>
    "[\n" ++ renderItems (depth + 1) (item :: rest) ++ indent depth ++ "]"
  | tagged tag item =>
    tag ++ "(\n" ++ indent (depth + 1) ++ item.render (depth + 1) ++ ",\n" ++ indent depth ++ ")"
  | record tag fields =>
    tag ++ " \x7b\n" ++ renderFields (depth + 1) fields ++ indent depth ++ "\x7d"

def renderItems (depth : Nat) : List Outline → String
  | [] => ""
  | item :: rest => indent depth ++ item.render depth ++ ",\n" ++ renderItems depth rest

def renderFields (depth : Nat) : List (String × Outline) → String
  | [] => ""
  | (name, item) :: rest =>
    indent depth ++ name ++ ": " ++ item.render depth ++ ",\n" ++ renderFields depth rest
end

def ofSpan (s : Span) : Outline :=
  record "SrcSpan" [("start", leaf (toString s.start)), ("end", leaf (toString s.stop))]

def ofText (text : String) : Outline := leaf (Text.quote text)

def ofName (text : String) (span : Span) : Outline :=
  record "Identifier" [("value", ofText text), ("location", ofSpan span)]

def ofBlock (statements : List Outline) (span : Span) : Outline :=
  record "Block" [("statements", list statements), ("location", ofSpan span)]

end Outline

def UnaryOp.tag : UnaryOp → String
  | negate => "Negate"
  | absolute => "AbsoluteValue"

def BinaryOp.tag : BinaryOp → String
  | add => "Add"
  | subtract => "Subtract"
  | multiply => "Multiply"
  | divide => "Divide"
  | modulo => "Modulo"
  | power => "Power"
  | equal => "Equal"
  | notEqual => "NotEqual"
  | less => "LessThan"
  | lessEqual => "LessOrEqual"
  | greater => "GreaterThan"
  | greaterEqual => "GreaterOrEqual"

open Outline in
def Expr.outline : Expr → Outline
  | name text span => tagged "Identifier" (ofName text span)
  | number raw span =>
    tagged "Number" (record "Number" [("raw", ofText raw), ("location", ofSpan span)])
  | unary op operand span =>
    tagged "Prefix" (record "Prefix"
      [("operator", leaf op.tag), ("expression", operand.outline), ("location", ofSpan span)])
  | binary left op right span =>
    tagged "Infix" (record "Infix"
      [("left", left.outline), ("operator", leaf op.tag), ("right", right.outline),
       ("location", ofSpan span)])
  | group inner span =>
    record "Nested" [("expression", inner.outline), ("location", ofSpan span)]

open Outline in
mutual
def Statement.outline : Statement → Outline
  | .assign target value span =>
    tagged "Assignment" (record "Assignment"
      [("identifier", ofName target.value target.span), ("value", value.outline),
       ("location", ofSpan span)])
  | .print value span =>
    tagged "Print" (record "Print" [("expression", value.outline), ("location", ofSpan span)])
  | .branch condition ⟨body, bodySpan⟩ none span =>
    tagged "Conditional" (record "Conditional"
      [("condition", condition.outline), ("resolution", ofBlock (outlines body) bodySpan),
       ("alternative", leaf "None"), ("location", ofSpan span)])
  | .branch condition ⟨body, bodySpan⟩ (some ⟨otherwise, otherSpan⟩) span =>
    tagged "Conditional" (record "Conditional"
      [("condition", condition.outline), ("resolution", ofBlock (outlines body) bodySpan),
       ("alternative", tagged "Some" (ofBlock (outlines otherwise) otherSpan)),
       ("location", ofSpan span)])
  | .loop count ⟨body, bodySpan⟩ span =>
    tagged "Repeat" (record "Repeat"
      [("count", count.outline), ("block", ofBlock (outlines body) bodySpan),
       ("location", ofSpan span)])

def outlines : List Statement → List Outline
  | [] => []
  | s :: rest => s.outline :: outlines rest
end

def Program.outline (p : Program) : Outline :=
  .record "Program" [("statements", .list (outlines p.statements)), ("location", .ofSpan p.span)]

def Program.fullText (p : Program) : String := p.outline.render 0

end CatLang
