import Mathlib
import CatLang.Proofs.SyntaxErrors

/-! The window after any calls. Whatever is asked of a window moves it on by some steps, and only
the reader of whole sources does more: it hands out the comments (`Call.exists_steps`). So what the
window shows depends on the number of steps alone (`stands_iterate`). -/
namespace CatLang

namespace LexResult

/-- What comes before the `n`-th result that is no comment; all results if there are fewer. -/
def before : List LexResult → Nat → List LexResult
  | [], _ => []
  | r :: rest, n =>
    match r.comment?, n with
    | some _, n => r :: before rest n
    | none, 0 => []
    | none, n + 1 => r :: before rest n

/-- What comes behind it. -/
def behind : List LexResult → Nat → List LexResult
  | [], _ => []
  | r :: rest, n =>
    match r.comment?, n with
    | some _, n => behind rest n
    | none, 0 => rest
    | none, n + 1 => behind rest n

theorem comments_before_behind (results : List LexResult) (n : Nat) :
    comments (before results n) ++ comments (behind results n) = comments results := by
  induction results generalizing n with
  | nil => rfl
  | cons r rest ih =>
    cases hr : r.comment? with
    | some span => simpa [before, behind, comments, hr] using ih n
    | none =>
      cases n with
      | zero => simp [before, behind, comments, hr]
      | succ n => simpa [before, behind, comments, hr] using ih n

theorem behind_succ (results : List LexResult) (n : Nat) :
    behind results (n + 1) = behind (behind results n) 0 := by
  induction results generalizing n with
  | nil => rfl
  | cons r rest ih =>
    cases hr : r.comment? with
    | some span => simpa only [behind, hr] using ih n
    | none =>
      cases n with
      | zero => simp only [behind, hr]
      | succ n => simpa only [behind, hr] using ih n

end LexResult

namespace Parser
open LexResult (code before behind comments)
open ParserOn (pull)
variable {o p q : Parser} {results : List LexResult} {i : Nat}

theorem pull_rest_eq (results : List LexResult) : (pull results).rest = behind results 0 := by
  induction results with
  | nil =>
    rw [pull_nil]
    rfl
  | cons r rest ih =>
    cases hr : r.comment? with
    | none =>
      rw [pull_code hr]
      simp only [behind, hr]
    | some span =>
      obtain rfl := LexResult.comment?_eq_some_iff.1 hr
      rw [pull_comment]
      exact ih

/-- The window after `i` steps, with all that it keeps. -/
structure Stands (results : List LexResult) (i : Nat) (p : Parser) : Prop where
  window : At results i p
  lastEnd : p.lastEnd = stopOf (((code results).take i).filterMap LexResult.token?)
  rest : p.rest = behind results (i + 1)

theorem stopOf_append_singleton (ts : List (Located Token)) (t : Located Token) :
    stopOf (ts ++ [t]) = t.span.stop := by
  rw [stopOf, List.getLast?_concat]

theorem Stands.step (h : Stands results i p) : Stands results (i + 1) p.step where
  window := h.window.step
  lastEnd := by
    simp only [ParserOn.step, h.window.current, h.lastEnd]
    rw [List.take_add_one, List.filterMap_append]
    rcases (code results)[i]? with _ | e | t
    · exact congrArg stopOf (List.append_nil _).symm
    · exact congrArg stopOf (List.append_nil _).symm
    · exact (stopOf_append_singleton _ t).symm
  rest := by
    change (pull p.rest).rest = _
    rw [pull_rest_eq, h.rest, LexResult.behind_succ results (i + 1)]

theorem stands_ofResults (results : List LexResult) : Stands results 0 (ofResults results) where
  window := at_ofResults results
  lastEnd := rfl
  rest := by
    change (pull (pull results).rest).rest = _
    rw [pull_rest_eq, pull_rest_eq, LexResult.behind_succ]

theorem stands_iterate (results : List LexResult) (i : Nat) :
    Stands results i (ParserOn.step^[i] (ofResults results)) := by
  induction i with
  | zero => exact stands_ofResults results
  | succ i ih =>
    rw [Function.iterate_succ_apply']
    exact ih.step

theorem Stands.comments_eq (h : Stands results i p) :
    p.comments = LexResult.comments (before results (i + 1)) := by
  have hall := h.window.comments
  rw [h.rest, ← LexResult.comments_before_behind results (i + 1)] at hall
  exact List.append_cancel_right hall

/-! Comments that were handed out, put back. -/

/-- The same window with these comments before its own. -/
def withComments (handed : List Span) (p : Parser) : Parser :=
  { p with comments := handed ++ p.comments }

theorem withComments_append (handed handed' : List Span) (p : Parser) :
    p.withComments (handed ++ handed') = (p.withComments handed').withComments handed := by
  rw [withComments, List.append_assoc]
  rfl

theorem commute_withComments_step (handed : List Span) :
    Function.Commute (withComments handed) ParserOn.step := by
  intro p
  simp only [withComments, ParserOn.step, List.append_assoc]

/-! Calls. -/

/-- What can be asked of a window. -/
inductive Call where
  | step
  | take
  | expect (token : Token)
  | semicolon (after : Nat)
  | identifier
  | expression (level : Level)
  | unary
  | binary (left : Expr)
  | assignment
  | print
  | branch
  | loop
  | statement
  | block
  | program
  | parse

/-- The window that a call leaves, whether it succeeds or not. -/
def Call.window (p : Parser) : Call → Parser
  | step => p.step
  | take => windowOf (Parser.take p)
  | expect token => windowOf (Parser.expect token p)
  | semicolon after => windowOf (Parser.semicolon after p)
  | identifier => windowOf (Parser.identifier p)
  | expression level => windowOf (Parser.expression level p)
  | unary => windowOf (Parser.unary p)
  | binary left => windowOf (Parser.binary left p)
  | assignment => windowOf (Parser.assignment p)
  | print => windowOf (Parser.print p)
  | branch => windowOf (Parser.branch p)
  | loop => windowOf (Parser.loop p)
  | statement => windowOf (Parser.statement p)
  | block => windowOf (Parser.block p)
  | program => windowOf (Parser.program p)
  | parse => windowOf (Parser.parse p)

/-- The comments that a call hands out. -/
def Call.handed (p : Parser) : Call → List Span
  | parse =>
    match Parser.parse p with
    | .ok parsed _ => parsed.comments
    | .error _ _ => []
  | _ => []

/-- Nothing that readers do with a window but stepping changes it. -/
theorem follows_steps (o : Parser) :
    Follows 0 (fun p q : Parser => q = p ∧ ∃ k, p = ParserOn.step^[k] o) fun _ => False where
  window h _ := by
    rw [h.1]
    exact .refl _
  step {p q} h _ := by
    obtain ⟨rfl, k, rfl⟩ := h
    exact ⟨rfl, k + 1, (Function.iterate_succ_apply' ParserOn.step k o).symm⟩
  overrun h _ := ⟨rfl, h⟩
  lost_step h := h
  lost_overrun h := h

theorem Mirrors.exists_steps {α : Type} {x y : Parse α}
    (h : Mirrors (fun p q : Parser => q = p ∧ ∃ k, p = ParserOn.step^[k] o) (fun _ => False) x y) :
    ∃ k, windowOf (x o) = ParserOn.step^[k] o :=
  (h.same (t := o) ⟨rfl, 0, rfl⟩ id).2.2

/-- If the comments are handed out, they are missing from the window. -/
theorem withComments_parse (p : Parser) :
    (Call.parse.window p).withComments (Call.parse.handed p) = windowOf (program p) := by
  rw [Call.window, Call.handed, parse]
  cases program p with
  | ok program q =>
    obtain ⟨window, comments, errors, rest⟩ := q
    cases errors with
    | nil => simp only [withComments, windowOf, List.append_nil]
    | cons e errors => rfl
  | error failure q =>
    simp only
    cases q.errors with
    | nil => rfl
    | cons e errors => rfl

theorem Call.exists_steps (p : Parser) (c : Call) :
    ∃ k, (c.window p).withComments (c.handed p) = ParserOn.step^[k] p := by
  have hsteps := follows_steps p
  have hreaders := hsteps.mirrors p.fuel
  have hprogram := (hsteps.mirrors_program p.fuel).exists_steps
  cases c with
  | step => exact ⟨1, rfl⟩
  | take => exact hsteps.take.exists_steps
  | expect token => exact (hsteps.accept _).exists_steps
  | semicolon after => exact (hsteps.accept _).exists_steps
  | identifier => exact (hsteps.accept _).exists_steps
  | expression level => exact (hreaders.expression level).exists_steps
  | unary => exact hreaders.unary.exists_steps
  | binary left => exact (hreaders.binary left).exists_steps
  | assignment => exact (hreaders.assignment hsteps).exists_steps
  | print => exact (hreaders.print hsteps).exists_steps
  | branch => exact hreaders.branch.exists_steps
  | loop => exact hreaders.loop.exists_steps
  | statement => exact hreaders.statement.exists_steps
  | block => exact hreaders.block.exists_steps
  | program => exact hprogram
  | parse =>
    rw [withComments_parse]
    exact hprogram

/-- A window after some calls, and the comments that they have handed out. -/
structure Used where
  window : Parser
  handed : List Span

namespace Used

def call (u : Used) (c : Call) : Used := ⟨c.window u.window, u.handed ++ c.handed u.window⟩

/-- After these calls, the first of them to a new window. -/
def after (results : List LexResult) (calls : List Call) : Used :=
  calls.foldl call ⟨ofResults results, []⟩

theorem after_concat (results : List LexResult) (calls : List Call) (c : Call) :
    after results (calls ++ [c]) = (after results calls).call c :=
  List.foldl_concat ..

theorem exists_steps (results : List LexResult) (calls : List Call) :
    ∃ i, (after results calls).window.withComments (after results calls).handed =
      ParserOn.step^[i] (ofResults results) := by
  induction calls using List.reverseRecOn with
  | nil => exact ⟨0, rfl⟩
  | append_singleton calls c ih =>
    obtain ⟨i, hi⟩ := ih
    -- The comments that are out already stand before those of the window, where steps leave them.
    obtain ⟨k, hk⟩ := c.exists_steps (after results calls).window
    refine ⟨k + i, ?_⟩
    rw [after_concat, call, withComments_append, hk, Function.iterate_add_apply, ← hi]
    exact (commute_withComments_step _).iterate_right k _

/-- Nothing was handed out unless a source was read to its end. -/
theorem exists_parse_of_handed {results : List LexResult} {calls : List Call}
    (h : (after results calls).handed ≠ []) :
    ∃ earlier later parsed q, calls = earlier ++ .parse :: later ∧
      parse (after results earlier).window = .ok parsed q := by
  induction calls using List.reverseRecOn with
  | nil => exact absurd rfl h
  | append_singleton calls c ih =>
    by_cases hbefore : (after results calls).handed = []
    · rw [after_concat, call, hbefore, List.nil_append] at h
      cases c with
      | parse =>
        rw [Call.handed] at h
        cases hparse : parse (after results calls).window with
        | ok parsed q => exact ⟨calls, [], parsed, q, rfl, hparse⟩
        | error e q =>
          rw [hparse] at h
          exact absurd rfl h
      | _ => exact absurd rfl h
    · obtain ⟨earlier, later, parsed, q, rfl, hparse⟩ := ih hbefore
      exact ⟨earlier, later ++ [c], parsed, q, by simp, hparse⟩

end Used

/-- After any calls there is a number `i` of steps such that the window shows the results `i` and
`i + 1` of those that are no comments. It has met the errors up to there, and the last token it left
behind ended where the last one before `i` does. The comments before result `i + 1` are in the
window, but for those that were handed out with a source read to its end. A token, a semicolon or a
name that is not there leaves the window as it is. -/
theorem window_after_calls (results : List LexResult) (calls : List Call) :
    let u := Used.after results calls
    (∃ i, u.window.withComments u.handed = ParserOn.step^[i] (ofResults results) ∧
      u.window.current = (code results)[i]?.bind LexResult.token? ∧
      u.window.next = (code results)[i + 1]?.bind LexResult.token? ∧
      u.window.errors = ((code results).take (i + 2)).filterMap LexResult.error? ∧
      u.window.lastEnd = stopOf (((code results).take i).filterMap LexResult.token?) ∧
      u.handed ++ u.window.comments = LexResult.comments (before results (i + 1))) ∧
    (u.handed ≠ [] → ∃ earlier later parsed q, calls = earlier ++ .parse :: later ∧
      parse (Used.after results earlier).window = .ok parsed q) ∧
    (∀ token e q, expect token u.window = .error e q → q = u.window) ∧
    (∀ after e q, semicolon after u.window = .error e q → q = u.window) ∧
    ∀ e q, identifier u.window = .error e q → q = u.window := by
  intro u
  obtain ⟨i, hi⟩ := Used.exists_steps results calls
  have hstands := stands_iterate results i
  rw [← hi] at hstands
  refine ⟨⟨i, hi, hstands.window.current, hstands.window.next, hstands.window.errors,
    hstands.lastEnd, hstands.comments_eq⟩, Used.exists_parse_of_handed, ?_, ?_, ?_⟩
  · intro token e q h
    exact (expectOr_eq_error h).1
  · intro after e q h
    exact (semicolon_eq_error h).1
  · intro e q h
    exact (accept_eq_error h).1

/-- A semicolon is asked for in vain, and then the source is read with its three comments, the last
of them behind the end of file. All three are handed out, and the end of file can still be left. -/
theorem window_after_calls_handed_out :
    let results : List LexResult := [.ok ⟨.comment, 0, 3⟩, .ok ⟨.doubleColon, 4, 6⟩,
      .ok ⟨.name "x", 6, 7⟩, .ok ⟨.comment, 8, 11⟩, .ok ⟨.semicolon, 12, 13⟩,
      .ok ⟨.endOfFile, 13, 13⟩, .ok ⟨.comment, 13, 16⟩]
    let u := Used.after results [.semicolon 0, .parse, .step]
    u.handed = [⟨0, 3⟩, ⟨8, 11⟩, ⟨13, 16⟩] ∧
      (∃ i, u.window.withComments u.handed = ParserOn.step^[i] (ofResults results) ∧
        u.window.current = (code results)[i]?.bind LexResult.token? ∧
        u.window.lastEnd = stopOf (((code results).take i).filterMap LexResult.token?) ∧
        u.handed ++ u.window.comments = LexResult.comments (before results (i + 1))) ∧
      identifier u.window = .error ⟨.unexpectedEnd, 13, 13⟩ u.window ∧
      ∃ earlier later parsed q, [.semicolon 0, .parse, .step] = earlier ++ Call.parse :: later ∧
        parse (Used.after results earlier).window = .ok parsed q := by
  intro results u
  have hhanded : u.handed = [⟨0, 3⟩, ⟨8, 11⟩, ⟨13, 16⟩] := by cbv
  obtain ⟨⟨i, hi, hcurrent, -, -, hlast, hcomments⟩, hparse, -⟩ :=
    window_after_calls results [.semicolon 0, .parse, .step]
  refine ⟨hhanded, ⟨i, hi, hcurrent, hlast, hcomments⟩, by cbv, hparse ?_⟩
  rw [hhanded]
  exact List.cons_ne_nil _ _

end Parser

end CatLang
