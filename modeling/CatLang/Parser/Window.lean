import CatLang.Parser.Error
import CatLang.Token.Lexer

/-! The parser's window on the results of a lexer: the current token and the one after it. Comments
are set aside on the way, and a lexical error leaves a place without a token. -/
namespace CatLang

namespace LexResult

def comment? : LexResult → Option Span
  | .ok ⟨.comment, span⟩ => some span
  | _ => none

theorem comment?_eq_some_iff {r : LexResult} {span : Span} :
    r.comment? = some span ↔ r = .ok ⟨.comment, span⟩ := by
  constructor
  · intro h
    unfold comment? at h
    split at h
    · cases h
      rfl
    · cases h
  · rintro rfl
    rfl

end LexResult

class TokenSource (σ : Type) where
  next : σ → Option LexResult × σ
  /-- At most so many results are still to come up to the end of file. -/
  size : σ → Nat
  size_next_le (s : σ) : size (next s).2 ≤ size s
  size_comment_lt {s : σ} {span : Span} (h : (next s).1 = some (.ok ⟨.comment, span⟩)) :
    size (next s).2 < size s

instance : TokenSource (List LexResult) where
  next s := (s.head?, s.tail)
  size := List.length
  size_next_le s := by simp
  size_comment_lt {s span} h := by
    cases s with
    | nil => cases h
    | cons first rest => exact Nat.lt_succ_self _

/-- A lexer never runs out of results: at its end it gives the end of file again and again. -/
instance {σ : Type} [CharSource σ] : TokenSource (Lexer σ) where
  next l := (some l.next.1, l.next.2)
  size l := l.left + 1
  size_next_le l := Nat.succ_le_succ l.left_next_le
  size_comment_lt {l span} h := by
    apply Nat.succ_lt_succ
    apply Lexer.left_next_lt (Option.some.inj h)
    exact Token.noConfusion

/-- The two tokens that readers go by. -/
structure Window where
  current : Option (Located Token)
  next : Option (Located Token)
  /-- Where the last token that left the window ended. -/
  lastEnd : Nat

namespace Window

def endSpan (w : Window) : Span := Span.point w.lastEnd

/-- The place of the current token, or the empty place after the last one. -/
def currentSpan (w : Window) : Span :=
  match w.current with
  | some t => t.span
  | none => w.endSpan

def currentLevel (w : Window) : Level :=
  match w.current with
  | some t => t.value.level
  | none => .lowest

def startsStatement (w : Window) : Bool := w.current.any (·.value.startsStatement)

def atAssignment (w : Window) : Bool :=
  match w.current, w.next with
  | some ⟨.name _, _⟩, some ⟨.assign, _⟩ => true
  | _, _ => false

end Window

/-- A window, what was set aside so far and the results behind it. -/
structure ParserOn (σ : Type) extends Window where
  comments : List Span
  errors : List LexError
  rest : σ

abbrev Parser := ParserOn (List LexResult)

/-- The comments before the next other result, that result, and what follows it. -/
structure Pulled (σ : Type) where
  comments : List Span
  result : Option LexResult
  rest : σ

namespace Pulled
variable {σ : Type}

def token? (p : Pulled σ) : Option (Located Token) :=
  match p.result with
  | some (.ok t) => some t
  | _ => none

def error? (p : Pulled σ) : Option LexError :=
  match p.result with
  | some (.error e) => some e
  | _ => none

end Pulled

namespace ParserOn
variable {σ : Type} [TokenSource σ]

def pull (s : σ) : Pulled σ :=
  if ((TokenSource.next s).1.bind LexResult.comment?).isSome then
    let pulled := pull (TokenSource.next s).2
    { pulled with
      comments := ((TokenSource.next s).1.bind LexResult.comment?).toList ++ pulled.comments }
  else ⟨[], (TokenSource.next s).1, (TokenSource.next s).2⟩
termination_by TokenSource.size s
decreasing_by
  obtain ⟨span, h⟩ := Option.isSome_iff_exists.1 (by assumption)
  obtain ⟨result, hresult, hcomment⟩ := Option.bind_eq_some_iff.1 h
  rw [LexResult.comment?_eq_some_iff.1 hcomment] at hresult
  exact TokenSource.size_comment_lt hresult

def step (p : ParserOn σ) : ParserOn σ :=
  let pulled := pull p.rest
  { current := p.next
    next := pulled.token?
    lastEnd := match p.current with
      | some t => t.span.stop
      | none => p.lastEnd
    comments := p.comments ++ pulled.comments
    errors := p.errors ++ pulled.error?.toList
    rest := pulled.rest }

def start (results : σ) : ParserOn σ := step (step ⟨⟨none, none, 0⟩, [], [], results⟩)

/-- More than the number of calls that can be nested in reading what is left. -/
def fuel (p : ParserOn σ) : Nat := 4 * (TokenSource.size p.rest + 4)

end ParserOn

end CatLang
