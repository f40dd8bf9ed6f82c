import CatLang.Span

/-! What is told about a source: a title, perhaps a marked place in it, and notes. -/
namespace CatLang

inductive Severity where
  | warning
  | error
deriving DecidableEq

structure Excerpt where
  path : String
  source : String
  span : Span
  label : Option String

structure Diagnostic where
  severity : Severity
  title : String
  notes : List String
  excerpt : Option Excerpt

namespace Diagnostic

def error (title : String) : Diagnostic := ⟨.error, title, [], none⟩

def warning (title : String) : Diagnostic := ⟨.warning, title, [], none⟩

/-- Marks a stretch, as far as it lies inside the source. -/
def mark (d : Diagnostic) (path source : String) (span : Span) (label : Option String) :
    Diagnostic :=
  { d with excerpt := some ⟨path, source, span.clamp (Span.wrap source.utf8ByteSize), label⟩ }

def note (d : Diagnostic) (text : String) : Diagnostic := { d with notes := d.notes ++ [text] }

def noteAll (d : Diagnostic) (texts : List String) : Diagnostic :=
  { d with notes := d.notes ++ texts }

end Diagnostic

end CatLang
