import CatLang.Parser.Expr

/-! Reading statements, blocks and whole programs. A block ends at the first token that cannot
start a statement, so a condition or a loop is closed by a semicolon of its own. -/
namespace CatLang.Parser

/-- What a message lists where a statement should start. -/
def statementForms : List String :=
  ["`::` to print", "`@` to repeat", "an assignment", "a condition"]

section Within
variable {S : Type} [Reading S]

def assignmentWithin (depth : Nat) : ReadOn S Statement := do
  let target ← identifier
  let _ ← expect .assign
  let value ← expressionWithin depth .lowest
  return .assign target value ⟨target.span.start, value.span.stop⟩

def printWithin (depth : Nat) : ReadOn S Statement := do
  let sign ← expect .doubleColon
  let value ← expressionWithin depth .lowest
  return .print value ⟨sign.start, value.span.stop⟩

mutual
def statementWithin : Nat → ReadOn S Statement
  | 0 => tooDeep
  | depth + 1 => do
    let w ← window
    match w.current with
    | none => failAtEnd
    | some found =>
      if found.value = .doubleColon then printWithin depth
      else if found.value = .atSign then loopWithin depth
      else if w.atAssignment then assignmentWithin depth
      else if found.value.startsExpression then branchWithin depth
      else fail (.unexpectedToken found.value statementForms) found.span

def branchWithin : Nat → ReadOn S Statement
  | 0 => tooDeep
  | depth + 1 => do
    let condition ← expressionWithin depth .lowest
    let _ ← expectOr .question fun _ => .missingQuestionMark
    let body ← blockWithin depth
    match (← window).current with
    | some ⟨.colon, _⟩ =>
      advance
      let otherwise ← blockWithin depth
      return .branch condition body (some otherwise) ⟨condition.span.start, otherwise.span.stop⟩
    | _ => return .branch condition body none ⟨condition.span.start, body.span.stop⟩

def loopWithin : Nat → ReadOn S Statement
  | 0 => tooDeep
  | depth + 1 => do
    let sign ← expect .atSign
    let count ← expressionWithin depth .lowest
    let _ ← expectOr .colon fun _ => .missingColon
    let body ← blockWithin depth
    return .loop count body ⟨sign.start, body.span.stop⟩

def blockWithin : Nat → ReadOn S Block
  | 0 => tooDeep
  | depth + 1 => do
    let statements ← statementsWithin depth
    let w ← window
    match statements with
    | [] => fail .emptyBlock w.currentSpan
    | first :: _ => return ⟨statements, first.span.start, w.lastEnd⟩

def statementsWithin : Nat → ReadOn S (List Statement)
  | 0 => tooDeep
  | depth + 1 => do
    if (← window).startsStatement then
      let first ← statementWithin depth
      let _ ← semicolon first.span.stop
      let rest ← statementsWithin depth
      return first :: rest
    else return []
end

/-- Closed statements up to the end of file, which stays in the window. -/
def untilEndWithin : Nat → ReadOn S (List Statement)
  | 0 => tooDeep
  | depth + 1 => do
    match (← window).current with
    | none => failAtEnd
    | some ⟨.endOfFile, _⟩ => return []
    | some _ =>
      let first ← statementWithin depth
      let _ ← semicolon first.span.stop
      let rest ← untilEndWithin depth
      return first :: rest

def programWithin (depth : Nat) : ReadOn S Program := do
  let statements ← untilEndWithin depth
  let start := match statements with
    | [] => 0
    | first :: _ => first.span.start
  return ⟨statements, start, (← window).lastEnd⟩

end Within

variable {σ : Type} [TokenSource σ]

def assignment : ReadOn (ParserOn σ) Statement := fun p => assignmentWithin p.fuel p

def print : ReadOn (ParserOn σ) Statement := fun p => printWithin p.fuel p

def statement : ReadOn (ParserOn σ) Statement := fun p => statementWithin p.fuel p

def branch : ReadOn (ParserOn σ) Statement := fun p => branchWithin p.fuel p

def loop : ReadOn (ParserOn σ) Statement := fun p => loopWithin p.fuel p

def block : ReadOn (ParserOn σ) Block := fun p => blockWithin p.fuel p

def program : ReadOn (ParserOn σ) Program := fun p => programWithin p.fuel p

end CatLang.Parser

namespace CatLang

structure Parsed where
  program : Program
  comments : List Span

/-- Reads a program to its end and hands out the comments. The first lexical error the window has
met wins over whatever the tokens before it gave. -/
def Parser.parse {σ : Type} [TokenSource σ] : ReadOn (ParserOn σ) Parsed := fun p =>
  match program p with
  | .ok program p =>
    match p.errors with
    | e :: _ => .error (.ofLexError e) p
    | [] => .ok ⟨program, p.comments⟩ { p with comments := [] }
  | .error failure p =>
    match p.errors with
    | e :: _ => .error (.ofLexError e) p
    | [] => .error failure p

def answerOf {ε σ α : Type} : EStateM.Result ε σ α → Except ε α
  | .ok a _ => .ok a
  | .error e _ => .error e

/-- The program of a source. The lexer reads on as far as the parser asks. -/
def parse (source : String) : Except ParseError Parsed :=
  answerOf (Parser.parse (ParserOn.start (Lexer.ofString source)))

end CatLang
