import CatLang.Diagnostic.Render
import CatLang.Parser.Error
import CatLang.Run

/-! Everything that can stop a source: it cannot be read, it is no program, or its run fails. -/
namespace CatLang

inductive Failure where
  | parse (path source : String) (error : ParseError)
  | run (path source : String) (error : RunError)
  | read (fault : Fault)

namespace Failure

def message : Failure → String
  | parse _ _ _ => "failed to parse source code"
  | run _ _ error => "program stopped: " ++ error.message
  | read _ => "IO operation failed"

/-- The text beside the mark is the error's message. An unexpected end is shown at the end of the
source. -/
def diagnostic : Failure → Diagnostic
  | parse path source error =>
    let title := match error.cause with
      | .lexical _ => "Lexical error"
      | _ => "Syntax error"
    let span :=
      if error.cause = .unexpectedEnd then Span.point (Span.wrap source.utf8ByteSize)
      else error.span
    ((Diagnostic.error title).mark path source span (some error.message)).noteAll error.notes
  | run path source (.undeclared name span) =>
    ((Diagnostic.error "Undeclared variable").mark path source span (some "Not assigned yet")).note
      ("Variable `" ++ name ++ "` is read before anything is assigned to it.")
  | run _ _ (.output fault) => (Diagnostic.error "Failed to write output").note fault.message
  | read fault => (Diagnostic.error "Standard IO error").note fault.message

def render (f : Failure) (coloured : Bool) : String := f.diagnostic.renderApart coloured

end Failure

end CatLang
