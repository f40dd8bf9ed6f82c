import CatLang.CommandLine.Run
import CatLang.Text.Utf8

/-! The program itself: arguments, files and the terminal. -/
namespace CatLang.CommandLine

def faultOf : IO.Error → Fault
  | .noFileOrDirectory .. => .notFound
  | .permissionDenied .. => .permissionDenied
  | .inappropriateType .. => .isDirectory
  | .invalidArgument .. => .invalidInput
  | .timeExpired .. => .timedOut
  | _ => .other

def readPath (path : String) : IO (Except Fault (List UInt8)) := do
  try
    let bytes ← IO.FS.readBinFile path
    return .ok bytes.toList
  catch e => return .error (faultOf e)

def secondsText (milliseconds : Nat) : String :=
  let hundredths := (milliseconds + 5) / 10
  let rest := toString (hundredths % 100)
  toString (hundredths / 100) ++ "." ++ (if rest.length < 2 then "0" ++ rest else rest) ++ "s"

def play (coloured : Bool) (started : Nat) (event : Event) : IO Unit := do
  let out ← IO.getStdout
  match event with
  | .out text =>
    out.putStr text
    out.flush
  | _ =>
    let time := secondsText ((← IO.monoMsNow) - started)
    (← IO.getStderr).putStr (errText coloured time [event])

partial def readLine (input : IO.FS.Stream) : IO (List UInt8) := do
  match (← input.read 1).toList with
  | [] => return []
  | byte :: _ => if byte = 10 then return [byte] else return byte :: (← readLine input)

/-- Rounds of a loop that nobody sees the end of. -/
def patience : Nat := 4611686018427387904

/-- A run that did not come to its end has no code, and then there is nothing left to do. -/
def exitCode (code : Option Nat) : UInt32 := (code.getD 1).toUInt32

partial def converse (coloured : Bool) (s : Session) : IO UInt32 := do
  play coloured 0 Session.prompt
  match ← readLine (← IO.getStdin) with
  | [] =>
    play coloured 0 Session.ending
    return 0
  | line =>
    let (next, events) := s.feed patience line
    events.forM (play coloured 0)
    match next with
    | .over code => return exitCode code
    | .more next => converse coloured next

def terminalColours : IO Bool := do
  let term ← IO.getEnv "TERM"
  let plain ← IO.getEnv "NO_COLOR"
  return (← (← IO.getStderr).isTty) && term.any (· != "dumb") && plain.isNone

end CatLang.CommandLine

open CatLang.CommandLine in
def main (arguments : List String) : IO UInt32 := do
  let started ← IO.monoMsNow
  let coloured := isColoured (← IO.getEnv "FORCE_COLOR") (← terminalColours)
  match Request.ofArguments arguments with
  | .run options =>
    let content ← match options.path with
      | some path => readPath path
      | none => pure (.error .notFound)
    let before := beforeSession CatLang.Text.Utf8.decoder patience options fun _ => content
    before.events.forM (play coloured started)
    if options.has .repl && before.code.isSome then converse coloured ⟨before.vars, 0⟩
    else return exitCode before.code
  | _ =>
    let (events, code) :=
      run CatLang.Text.Utf8.decoder patience arguments (fun _ => .error .notFound) []
    events.forM (play coloured started)
    return exitCode code
