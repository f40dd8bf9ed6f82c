import CatLang.Fault

/-! Where a program prints. A stream takes as much of a text as it has room for, and fails once
there is none left. Writing calls it until the whole text is taken; an interrupted call is made
again. Programs print digits, letters and line ends only, so a character is a byte. -/
namespace CatLang

structure Output where
  written : String
  /-- What it still takes; no bound if absent. -/
  room : Option Nat
  writeFault : Fault
  /-- What flushing fails with, if it does. -/
  flushFault : Option Fault

namespace Output

def unbounded : Output := ⟨"", none, .brokenPipe, none⟩

/-- One call, with how much of the text was taken. -/
def put (o : Output) (text : List Char) : Except Fault Nat × Output :=
  match o.room with
  | none => (.ok text.length, { o with written := o.written ++ String.ofList text })
  | some 0 => (.error o.writeFault, o)
  | some (room + 1) =>
    (.ok (min (room + 1) text.length),
      { o with
        written := o.written ++ String.ofList (text.take (room + 1))
        room := some (room + 1 - text.length) })

/-- Calls until everything is taken. Only so many calls are followed, and there is no answer if
they are not enough. -/
def putAll (o : Output) : (calls : Nat) → List Char → Option (Except Fault Unit) × Output
  | _, [] => (some (.ok ()), o)
  | 0, _ :: _ => (none, o)
  | calls + 1, c :: rest =>
    match o.put (c :: rest) with
    | (.ok 0, o) => (some (.error .writeZero), o)
    | (.ok (taken + 1), o) => o.putAll calls (rest.drop taken)
    | (.error .interrupted, o) => o.putAll calls (c :: rest)
    | (.error fault, o) => (some (.error fault), o)

/-- Every call that is not interrupted takes something or ends it, so `limit` is how many
interrupted ones are followed at most. -/
def write (limit : Nat) (o : Output) (text : String) : Option (Except Fault Unit) × Output :=
  o.putAll (text.length + limit) text.toList

def flush (o : Output) : Except Fault Unit :=
  match o.flushFault with
  | none => .ok ()
  | some fault => .error fault

end Output

end CatLang
