import CatLang.Parser.Window

/-! What readers do with the window, and the small readers made of that. Every reader is written
once for all states that hold a window. -/
namespace CatLang

class Reading (S : Type) where
  window : S → Window
  step : S → S
  /-- What becomes of the state when calls are nested deeper than they may be. -/
  overrun : S → S

instance {σ : Type} [TokenSource σ] : Reading (ParserOn σ) where
  window := ParserOn.toWindow
  step := ParserOn.step
  overrun p := p

/-- Reading from a state. A failure keeps the state where it happened. -/
abbrev ReadOn (S : Type) := EStateM ParseError S

abbrev Parse := ReadOn Parser

namespace Parser
variable {S : Type} [Reading S] {α : Type}

def window : ReadOn S Window := return Reading.window (← get)

def advance : ReadOn S Unit := modify Reading.step

def fail (cause : ParseCause) (span : Span) : ReadOn S α := throw ⟨cause, span⟩

def failAtEnd : ReadOn S α := do fail .unexpectedEnd (← window).endSpan

def tooDeep : ReadOn S α := do
  let w ← window
  modify Reading.overrun
  fail .unexpectedEnd w.endSpan

def mapError (change : ParseError → ParseError) (reader : ReadOn S α) : ReadOn S α := fun s =>
  match reader s with
  | .ok a s => .ok a s
  | .error e s => .error (change e) s

def take : ReadOn S (Option (Located Token)) := do
  let found := (← window).current
  advance
  return found

/-- Takes the current token if something can be made of it. -/
def accept (make : Located Token → Except ParseError α) : ReadOn S α := do
  match (← window).current with
  | none => failAtEnd
  | some found =>
    match make found with
    | .ok a =>
      advance
      return a
    | .error e => fail e.cause e.span

/-- Takes the given token; on any other the window stays and `cause` tells what is wrong with it. -/
def expectOr (token : Token) (cause : Token → ParseCause) : ReadOn S Span :=
  accept fun found =>
    if found.value = token then .ok found.span else .error ⟨cause found.value, found.span⟩

def expect (token : Token) : ReadOn S Span :=
  expectOr token fun found => .unexpectedToken found ["`" ++ token.literal ++ "`"]

/-- Takes the semicolon that closes a statement which ended at `after`. -/
def semicolon (after : Nat) : ReadOn S Nat :=
  accept fun found =>
    if found.value = .semicolon then .ok found.span.stop
    else .error ⟨.missingSemicolon, Span.point after⟩

def identifier : ReadOn S (Located String) :=
  accept fun
    | ⟨.name text, span⟩ => .ok ⟨text, span⟩
    | found => .error ⟨.expectedName, found.span⟩

end Parser

end CatLang
