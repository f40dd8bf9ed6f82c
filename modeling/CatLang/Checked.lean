import CatLang.Failure
import CatLang.Finding
import CatLang.Parser.Program
import CatLang.Token.Stream

/-! Sources that are ready to run. A source comes as text, as the bytes of a file, or as bytes that
are read while they are parsed; the ways differ in when they notice bytes that are no text. -/
namespace CatLang

structure Checked where
  path : String
  source : String
  program : Program

namespace Checked

def findings (c : Checked) : List Finding :=
  c.program.warnings.map fun w => ⟨c.path, c.source, w⟩

def ofSource (path source : String) : Except Failure Checked :=
  match parse source with
  | .ok parsed => .ok ⟨path, source, parsed.program⟩
  | .error error => .error (.parse path source error)

def ofBytes (path : String) (bytes : List UInt8) : Except Failure Checked :=
  match String.fromUTF8? bytes.toByteArray with
  | some source => ofSource path source
  | none => .error (.read .invalidData)

/-- Runs the program and tells which source an error belongs to. A run that is not at its end has no
result. -/
def run (limit : Nat) (c : Checked) (m : Machine) : Option (Except Failure Unit) × Machine :=
  match c.program.run limit m with
  | .ok () m => (some (.ok ()), m)
  | .error (.failed error) m => (some (.error (.run c.path c.source error)), m)
  | .error .unfinished m => (none, m)

end Checked

/-- What the parser makes of bytes that are read as it goes, and the stream where it stopped. -/
def parseStream (d : Decoder) (bytes : List UInt8) : Except ParseError Parsed × ByteStream d :=
  match Parser.parse (ParserOn.start (Lexer.start (ByteStream.ofBytes d bytes))) with
  | .ok parsed p => (.ok parsed, p.rest.input)
  | .error e p => (.error e, p.rest.input)

/-- A source whose bytes are read while it is parsed. The last fault met on the way stops it. After a
parse error the bytes left are read too, and the first fault among them comes before the error. -/
def Checked.ofStream (d : Decoder) (path : String) (bytes : List UInt8) :
    Except Failure Checked :=
  let (outcome, stream) := parseStream d bytes
  match stream.fault with
  | some fault => .error (.read fault)
  | none =>
    match outcome with
    | .ok parsed => .ok ⟨path, stream.text, parsed.program⟩
    | .error error =>
      match ByteStream.readOn d stream.text stream.bytes with
      | .ok source => .error (.parse path source error)
      | .error fault => .error (.read fault)

end CatLang
