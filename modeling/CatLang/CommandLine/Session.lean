import CatLang.Checked

/-! An interactive session: lines are run one after the other against the same variables. An error
is shown and the session goes on. -/
namespace CatLang.CommandLine

/-- Something the program does at the terminal. What is shown of it, and in which colours, is
settled when it is written. -/
inductive Event where
  | out (text : String)
  | err (text : String)
  | failed (failure : Failure)
  | found (finding : Finding)
  | parsing (path : String)
  | running (path : String)
  /-- The run is over; how long it took is known to the clock alone. -/
  | finished

structure Session where
  vars : Table
  ran : Nat

namespace Session

/-- A session goes on, or is over with an exit code. There is no code if it has not come to its
end. -/
inductive Next where
  | more (session : Session)
  | over (code : Option Nat)

def prompt : Event := .out "mew> "

def bareLine (line : List Char) : List Char :=
  let line := if line.getLast? = some '\n' then line.dropLast else line
  if line.getLast? = some '\r' then line.dropLast else line

def runLine (limit : Nat) (s : Session) (source : String) : Next × List Event :=
  let number := s.ran + 1
  match Checked.ofSource ("<repl:" ++ toString number ++ ">") source with
  | .error failure => (.more ⟨s.vars, number⟩, [.failed failure])
  | .ok checked =>
    match checked.run limit ⟨s.vars, .unbounded⟩ with
    | (some (.ok ()), m) => (.more ⟨m.vars, number⟩, [.out m.output.written])
    | (some (.error failure), m) =>
      (.more ⟨m.vars, number⟩, [.out m.output.written, .failed failure])
    | (none, m) => (.over none, [.out m.output.written])

def listing (vars : Table) : List Event :=
  vars.toList.map fun entry => .out (entry.1 ++ " = " ++ entry.2.text ++ "\n")

def ending : Event := .out "\n"

def obey (limit : Nat) (s : Session) (line : List Char) : Next × List Event :=
  let source := bareLine line
  let command := String.ofList (Text.trim source)
  if command = "" then (.more s, [])
  else if command = ".exit" then (.over (some 0), [])
  else if command = ".vars" then (.more s, listing s.vars)
  else s.runLine limit (String.ofList source)

def feed (limit : Nat) (s : Session) (line : List UInt8) : Next × List Event :=
  match String.fromUTF8? line.toByteArray with
  | none => (.over (some 1), [.failed (.read .invalidData)])
  | some text => s.obey limit text.toList

def run (limit : Nat) (s : Session) : List (List UInt8) → List Event × Option Nat
  | [] => ([prompt, ending], some 0)
  | line :: rest =>
    match s.feed limit line with
    | (.over code, events) => (prompt :: events, code)
    | (.more next, events) =>
      let (later, code) := next.run limit rest
      (prompt :: events ++ later, code)

end Session

def linesOf : List UInt8 → List (List UInt8)
  | [] => []
  | byte :: rest =>
    if byte = 10 then [byte] :: linesOf rest
    else match linesOf rest with
      | [] => [[byte]]
      | line :: lines => (byte :: line) :: lines

end CatLang.CommandLine
