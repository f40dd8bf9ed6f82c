import CatLang.CommandLine.Options
import CatLang.CommandLine.Session
import CatLang.Token.Listing
import CatLang.Tree.Outline
import CatLang.Tree.Printer

/-! The command line: what happens, what is written where, and the exit code. -/
namespace CatLang.CommandLine

/-- What a file did, and the variables it leaves for a session. Without a code it has not come to its
end. -/
structure FileRun where
  events : List Event
  code : Option Nat
  vars : Table

def banner : List Event :=
  [.out "\n/ᐠ｡ꞈ｡ᐟ\\ MewMew - Program in Cats' Language!\n\nNo Specified filename to execute :(\n",
   .err "Usage: mewmew FILENAME\n"]

def missingFile (path : String) : Event := .out ("MEOW!! File '" ++ path ++ "' Doesn't Exist!\n")

/-- Bytes that are no text are an error; any other fault counts as a missing file. -/
def unreadFile (path : String) (fault : Fault) : FileRun :=
  if fault = .invalidData then ⟨[.failed (.read fault)], some 1, .empty⟩
  else ⟨[missingFile path], some 0, .empty⟩

def listTokens (path : String) (content : Except Fault (List UInt8)) : FileRun :=
  match content with
  | .error fault => unreadFile path fault
  | .ok bytes =>
    match String.fromUTF8? bytes.toByteArray with
    | none => unreadFile path .invalidData
    | some source =>
      match lex source with
      | .ok tokens => ⟨tokens.map fun t => .out (Token.line t ++ "\n"), some 0, .empty⟩
      | .error e => ⟨[.failed (.parse path source (.ofLexError e))], some 1, .empty⟩

def checkFile (d : Decoder) (path : String) (content : Except Fault (List UInt8)) :
    Except Failure Checked :=
  match content with
  | .error fault => .error (.read fault)
  | .ok bytes => Checked.ofStream d path bytes

def runChecked (limit : Nat) (options : Options) (checked : Checked) : FileRun :=
  match checked.run limit ⟨.empty, .unbounded⟩ with
  | (some (.ok ()), m) =>
    ⟨.out m.output.written :: (if options.has .verbose then [.finished] else []), some 0, m.vars⟩
  | (some (.error failure), m) => ⟨[.out m.output.written, .failed failure], some 1, m.vars⟩
  | (none, m) => ⟨[.out m.output.written], none, m.vars⟩

def useChecked (limit : Nat) (options : Options) (checked : Checked) : FileRun :=
  let warnings := checked.findings.map Event.found
  if options.has .fullTree then
    ⟨warnings ++ [.out (checked.program.fullText ++ "\n")], some 0, .empty⟩
  else if options.has .printTree then
    ⟨warnings ++ [.out (checked.program.text ++ "\n")], some 0, .empty⟩
  else
    let running := if options.has .verbose then [.running checked.path] else []
    let done := runChecked limit options checked
    { done with events := warnings ++ running ++ done.events }

def runFile (d : Decoder) (limit : Nat) (options : Options) (path : String)
    (content : Except Fault (List UInt8)) : FileRun :=
  if options.has .tokens then listTokens path content
  else
    let parsing := if options.has .verbose then [.parsing path] else []
    let done := match checkFile d path content with
      | .ok checked => useChecked limit options checked
      | .error (.read fault) => unreadFile path fault
      | .error failure => ⟨[.failed failure], some 1, .empty⟩
    { done with events := parsing ++ done.events }

/-- The part before a session. Without a file there is nothing to do but to say so. -/
def beforeSession (d : Decoder) (limit : Nat) (options : Options)
    (read : String → Except Fault (List UInt8)) : FileRun :=
  match options.path with
  | some path => runFile d limit options path (read path)
  | none => ⟨if options.has .repl then [] else banner, some 0, .empty⟩

/-- What the options ask for, on given files and input. A session decides the exit code if there is
one. -/
def execute (d : Decoder) (limit : Nat) (options : Options)
    (read : String → Except Fault (List UInt8)) (input : List UInt8) : List Event × Option Nat :=
  let before := beforeSession d limit options read
  if options.has .repl ∧ before.code.isSome then
    let (later, code) := Session.run limit ⟨before.vars, 0⟩ (linesOf input)
    (before.events ++ later, code)
  else (before.events, before.code)

def run (d : Decoder) (limit : Nat) (arguments : List String)
    (read : String → Except Fault (List UInt8)) (input : List UInt8) : List Event × Option Nat :=
  match Request.ofArguments arguments with
  | .help => ([.out helpText], some 0)
  | .version => ([.out versionText], some 0)
  | .misuse => ([.err misuseText], some 2)
  | .run options => execute d limit options read input

/-- A line about the stage of the work, its first word to the right of eleven columns. -/
def statusLine (coloured : Bool) (colours : Paint) (word text : String) : String :=
  Piece.renderAll coloured
    (Piece.painted colours (Piece.spaces (11 - word.length) ++ word)
      ++ [.text (" " ++ text), .newline])

def outText (events : List Event) : String :=
  String.join (events.filterMap fun
    | .out text => some text
    | _ => none)

def errText (coloured : Bool) (time : String) (events : List Event) : String :=
  String.join (events.filterMap fun
    | .err text => some text
    | .failed failure => some (failure.render coloured)
    | .found finding => some (finding.render coloured)
    | .parsing path => some (statusLine coloured .starting "Parsing" path)
    | .running path => some (statusLine coloured .working "Running" path)
    | .finished => some (statusLine coloured .working "Finished" ("in " ++ time))
    | .out _ => none)

/-- Any text but the empty one forces colours; otherwise the terminal decides. -/
def isColoured (force : Option String) (terminal : Bool) : Bool :=
  match force with
  | none => terminal
  | some text => !text.isEmpty || terminal

end CatLang.CommandLine
