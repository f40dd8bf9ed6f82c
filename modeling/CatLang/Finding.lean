import CatLang.Diagnostic.Render
import CatLang.Warning

/-! Warnings together with the source they are about. -/
namespace CatLang

structure Finding where
  path : String
  source : String
  warning : Warning

namespace Finding

def diagnostic (f : Finding) : Diagnostic :=
  let place := fun (d : Diagnostic) label => d.mark f.path f.source f.warning.span label
  match f.warning with
  | .unusedVariable name _ =>
    (place (.warning "Unused variable") (some "This value is never used")).note
      ("`" ++ name ++ "` is assigned but its value is never read.")
  | .unreachableIf _ =>
    (place (.warning "Unreachable if clause") none).note "The condition is always false."
  | .unreachableElse _ =>
    (place (.warning "Unreachable else clause") none).note "The condition is always true."
  | .unreachableLoop _ =>
    (place (.warning "Unreachable loop body") (some "This never runs")).note
      "The repeat count is always below one."

def render (f : Finding) (coloured : Bool) : String := f.diagnostic.renderApart coloured

end Finding

/-- Gathers the findings about one source. It counts all of them, and holds on to them until they
are taken unless it is told to drop them. -/
structure Collector where
  path : String
  source : String
  drops : Bool
  count : Nat
  held : List Finding

namespace Collector

def new (path source : String) (drops : Bool) : Collector := ⟨path, source, drops, 0, []⟩

def emit (c : Collector) (w : Warning) : Collector :=
  { c with
    count := c.count + 1
    held := if c.drops then c.held else c.held ++ [⟨c.path, c.source, w⟩] }

def examine (c : Collector) (p : Program) : Collector := p.warnings.foldl emit c

def take (c : Collector) : List Finding × Collector := (c.held, { c with held := [] })

end Collector

end CatLang
