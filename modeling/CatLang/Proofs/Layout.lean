import CatLang.Proofs.SyntaxErrors

/-! Layout does not matter. Two windows that show the same tokens, whatever their places and the
comments between them, are moved alike (`SameCode.step`), and no reader looks at more: it gives the
same tree up to places, or it fails with the same cause (`SameOutcome`). -/
namespace CatLang

namespace LexResult

/-- What is left of a result without its place; an error leaves a gap. -/
def value? : LexResult → Option Token
  | .ok t => some t.value
  | .error _ => none

/-- The tokens that are no comments, without their places. -/
def shape (rs : List LexResult) : List (Option Token) := (code rs).map value?

theorem shape_map_ok (toks : List (Located Token)) :
    shape (toks.map .ok) = (codeTokens toks).map some := by
  unfold shape codeTokens
  rw [code_map_ok, List.map_map, List.map_map]
  rfl

end LexResult

namespace Parser
open LexResult (shape)
open ParserOn (pull)
variable {α β γ δ : Type} {p p' q q' : Parser}

theorem map_value_pull (rs : List LexResult) :
    (pull rs).token?.map (·.value) = (shape rs).head?.join := by
  rw [pull_token?, shape, List.head?_map]
  rcases (LexResult.code rs).head? with _ | _ | _ <;> rfl

theorem shape_pull_rest (rs : List LexResult) : shape (pull rs).rest = (shape rs).tail := by
  rw [shape, (pull_spec rs).2.1, List.map_tail, ← shape]

/-- The two windows have the same tokens ahead, up to places and comments. -/
structure SameCode (p p' : Parser) : Prop where
  current : p.current.map (·.value) = p'.current.map (·.value)
  next : p.next.map (·.value) = p'.next.map (·.value)
  rest : shape p.rest = shape p'.rest

namespace SameCode

theorem step (h : SameCode p p') : SameCode p.step p'.step where
  current := h.next
  next := by
    change (pull p.rest).token?.map (·.value) = (pull p'.rest).token?.map (·.value)
    rw [map_value_pull, map_value_pull, h.rest]
  rest := by
    change shape (pull p.rest).rest = shape (pull p'.rest).rest
    rw [shape_pull_rest, shape_pull_rest, h.rest]

theorem ofResults {rs rs' : List LexResult} (h : shape rs = shape rs') :
    SameCode (ofResults rs) (ofResults rs') := by
  have hstart : SameCode ⟨⟨none, none, 0⟩, [], [], rs⟩ ⟨⟨none, none, 0⟩, [], [], rs'⟩ :=
    ⟨rfl, rfl, h⟩
  exact hstart.step.step

theorem current_eq_none (h : SameCode p p') (hc : p.current = none) : p'.current = none := by
  have hmap := h.current
  rw [hc] at hmap
  exact Option.map_eq_none_iff.1 hmap.symm

theorem exists_current (h : SameCode p p') {value : Token} {place : Span}
    (hc : p.current = some ⟨value, place⟩) : ∃ place', p'.current = some ⟨value, place'⟩ := by
  have hmap := h.current
  rw [hc] at hmap
  obtain ⟨⟨_, place'⟩, hc', rfl⟩ := Option.map_eq_some_iff.1 hmap.symm
  exact ⟨place', hc'⟩

theorem currentLevel (h : SameCode p p') : p.currentLevel = p'.currentLevel := by
  unfold Window.currentLevel
  rcases hc : p.current with _ | ⟨value, place⟩
  · rw [h.current_eq_none hc]
  · obtain ⟨place', hc'⟩ := h.exists_current hc
    rw [hc']

theorem startsStatement (h : SameCode p p') : p.startsStatement = p'.startsStatement := by
  unfold Window.startsStatement
  rcases hc : p.current with _ | ⟨value, place⟩
  · rw [h.current_eq_none hc]
  · obtain ⟨place', hc'⟩ := h.exists_current hc
    rw [hc']
    rfl

theorem atAssignment (h : SameCode p p') : p.atAssignment = p'.atAssignment := by
  have hnext := h.next
  unfold Window.atAssignment
  rcases hc : p.current with _ | ⟨value, place⟩
  · rw [h.current_eq_none hc]
  obtain ⟨place', hc'⟩ := h.exists_current hc
  rw [hc']
  rcases hn : p.next with _ | ⟨after, _⟩ <;> rcases hn' : p'.next with _ | ⟨after', _⟩ <;>
    rw [hn, hn'] at hnext <;> cases hnext
  · cases value <;> rfl
  · cases value <;> cases after <;> rfl

end SameCode

/-- Two outcomes are the same but for places: both give a result, and `view` sees no difference, or
both fail with one cause. -/
inductive SameOutcome (view : α → γ) :
    EStateM.Result ParseError Parser α → EStateM.Result ParseError Parser α → Prop
  | ok {a a' : α} {q q' : Parser} : view a = view a' → SameCode q q' →
      SameOutcome view (.ok a q) (.ok a' q')
  | error {e e' : ParseError} {q q' : Parser} : e.cause = e'.cause → SameCode q q' →
      SameOutcome view (.error e q) (.error e' q')

namespace SameOutcome
variable {view : α → γ} {view' : β → δ} {x x' : Parse α} {f f' : α → Parse β}

theorem bind (hx : SameOutcome view (x p) (x' p'))
    (hf : ∀ a a' r r', x p = .ok a r → view a = view a' → SameCode r r' →
      SameOutcome view' (f a r) (f' a' r')) :
    SameOutcome view' ((x >>= f) p) ((x' >>= f') p') := by
  generalize hr : x p = r at hx
  generalize hr' : x' p' = r' at hx
  cases hx with
  | ok hview hsame =>
    rw [bind_of_ok hr, bind_of_ok hr']
    exact hf _ _ _ _ hr hview hsame
  | error hcause hsame =>
    rw [bind_of_error hr, bind_of_error hr']
    exact .error hcause hsame

theorem includeOperator (hx : SameOutcome view (x p) (x' p')) (sign sign' : Span) :
    SameOutcome view (mapError (includeOperator sign) x p)
      (mapError (includeOperator sign') x' p') := by
  have hcause (sign : Span) (e : ParseError) :
      (Parser.includeOperator sign e).cause = e.cause := by
    unfold Parser.includeOperator
    split <;> rfl
  unfold mapError
  generalize x p = r at hx
  generalize x' p' = r' at hx
  cases hx with
  | ok hview hsame => exact .ok hview hsame
  | error h hsame => exact .error (by rw [hcause, hcause, h]) hsame

end SameOutcome

/-! The small readers. A place is nothing to see. -/

theorem accept_sameOutcome {view : α → γ} {make make' : Located Token → Except ParseError α}
    (hmake : ∀ value place place', match make ⟨value, place⟩, make' ⟨value, place'⟩ with
      | .ok a, .ok a' => view a = view a'
      | .error e, .error e' => e.cause = e'.cause
      | _, _ => False) (h : SameCode p p') :
    SameOutcome view (accept make p) (accept make' p') := by
  rcases hc : p.current with _ | ⟨value, place⟩
  · rw [accept_none hc, accept_none (h.current_eq_none hc)]
    exact .error rfl h
  obtain ⟨place', hc'⟩ := h.exists_current hc
  have hsame := hmake value place place'
  cases hm : make ⟨value, place⟩ <;> cases hm' : make' ⟨value, place'⟩ <;> rw [hm, hm'] at hsame
  · rw [accept_error hc hm, accept_error hc' hm']
    exact .error hsame h
  · exact hsame.elim
  · exact hsame.elim
  · rw [accept_ok hc hm, accept_ok hc' hm']
    exact .ok hsame h.step

theorem expectOr_sameOutcome (token : Token) (cause : Token → ParseCause) (h : SameCode p p') :
    SameOutcome (fun _ => ()) (expectOr token cause p) (expectOr token cause p') := by
  refine accept_sameOutcome (fun value place place' => ?_) h
  by_cases hvalue : value = token <;> simp [hvalue]

theorem semicolon_sameOutcome (after after' : Nat) (h : SameCode p p') :
    SameOutcome (fun _ => ()) (semicolon after p) (semicolon after' p') := by
  refine accept_sameOutcome (fun value place place' => ?_) h
  by_cases hvalue : value = .semicolon <;> simp [hvalue]

theorem identifier_sameOutcome (h : SameCode p p') :
    SameOutcome (·.value) (identifier p) (identifier p') := by
  refine accept_sameOutcome (fun value place place' => ?_) h
  cases value <;> rfl

/-! Expressions. -/

theorem expressions_sameOutcome : ExpressionCases
    (fun level p => ∀ p', SameCode p p' →
      SameOutcome Expr.bare (expression level p) (expression level p'))
    (fun p => ∀ p', SameCode p p' → SameOutcome Expr.bare (operand p) (operand p'))
    (fun level left p => ∀ left' p', left.bare = left'.bare → SameCode p p' →
      SameOutcome Expr.bare (binaries level left p) (binaries level left' p')) where
  expression {level p} hoperand hbinaries := by
    intro p' h
    rw [expression_eq, expression_eq]
    apply (hoperand p' h).bind
    intro first first' r r' hr hfirst hsame
    exact hbinaries first r hr first' r' hfirst hsame
  none hc := by
    intro p' h
    rw [operand_none hc, operand_none (h.current_eq_none hc)]
    exact .error rfl h
  name hc := by
    intro p' h
    obtain ⟨place', hc'⟩ := h.exists_current hc
    rw [operand_name hc, operand_name hc']
    exact .ok rfl h.step
  number hc := by
    intro p' h
    obtain ⟨place', hc'⟩ := h.exists_current hc
    rw [operand_number hc, operand_number hc']
    exact .ok rfl h.step
  group hc hinner := by
    intro p' h
    obtain ⟨place', hc'⟩ := h.exists_current hc
    rw [operand_group hc, operand_group hc']
    apply (hinner p'.step h.step).bind
    intro inner inner' r r' _ hbare hr
    apply (expectOr_sameOutcome _ _ hr).bind
    intro close close' r r' _ _ hr
    exact .ok (by simp only [Expr.bare, hbare]) hr
  unary {_ _ place} hc hoperand := by
    intro p' h
    obtain ⟨place', hc'⟩ := h.exists_current hc
    rw [operand_unary hc, operand_unary hc']
    apply ((hoperand p'.step h.step).includeOperator place place').bind
    intro inner inner' r r' _ hbare hr
    exact .ok (by simp only [Expr.bare, hbare]) hr
  other hc ht := by
    intro p' h
    obtain ⟨place', hc'⟩ := h.exists_current hc
    rw [operand_fail hc ht, operand_fail hc' ht]
    exact .error rfl h
  stop hstop := by
    intro left' p' hleft h
    rw [binaries_of_stop hstop, binaries_of_stop (h.currentLevel ▸ hstop)]
    exact .ok hleft h
  operator hc hlevel hright hrest := by
    intro left' p' hleft h
    obtain ⟨sign', hc'⟩ := h.exists_current hc
    rw [binaries_of_operator hc hlevel, binaries_of_operator hc' hlevel]
    apply (hright p'.step h.step).bind
    intro right right' r r' hr hbare hsame
    apply hrest right r hr _ r' _ hsame
    simp only [Expr.bare, hleft, hbare]

theorem expression_sameOutcome (level : Level) (h : SameCode p p') :
    SameOutcome Expr.bare (expression level p) (expression level p') :=
  (expressions_sameOutcome.all p).1 level p' h

/-! Statements. -/

/-- A block without its places. -/
def bareBlock (b : Block) : List Statement := bareAll b.statements

theorem bare_branch (condition : Expr) (body : Block) (span : Span) :
    (Statement.branch condition body none span).bare =
      .branch condition.bare ⟨bareBlock body, .point 0⟩ none (.point 0) := by
  cases body
  rfl

theorem bare_branchElse (condition : Expr) (body otherwise : Block) (span : Span) :
    (Statement.branch condition body (some otherwise) span).bare =
      .branch condition.bare ⟨bareBlock body, .point 0⟩ (some ⟨bareBlock otherwise, .point 0⟩)
        (.point 0) := by
  cases body
  cases otherwise
  rfl

theorem bare_loop (count : Expr) (body : Block) (span : Span) :
    (Statement.loop count body span).bare =
      .loop count.bare ⟨bareBlock body, .point 0⟩ (.point 0) := by
  cases body
  rfl

theorem print_sameOutcome (h : SameCode p p') :
    SameOutcome Statement.bare (print p) (print p') := by
  rw [print_eq, print_eq]
  apply (expectOr_sameOutcome _ _ h).bind
  intro sign sign' r r' _ _ hr
  apply (expression_sameOutcome .lowest hr).bind
  intro value value' r r' _ hvalue hr
  exact .ok (by simp only [Statement.bare, hvalue]) hr

theorem assignment_sameOutcome (h : SameCode p p') :
    SameOutcome Statement.bare (assignment p) (assignment p') := by
  rw [assignment_eq, assignment_eq]
  apply (identifier_sameOutcome h).bind
  intro target target' r r' _ htarget hr
  apply (expectOr_sameOutcome _ _ hr).bind
  intro sign sign' r r' _ _ hr
  apply (expression_sameOutcome .lowest hr).bind
  intro value value' r r' _ hvalue hr
  exact .ok (by simp only [Statement.bare, htarget, hvalue]) hr

theorem SameCode.not_colon (h : SameCode p p')
    (hc : ¬ ∃ place, p.current = some ⟨.colon, place⟩) (place' : Span) :
    p'.current ≠ some ⟨.colon, place'⟩ := by
  intro hc'
  have hmap := h.current
  rw [hc'] at hmap
  obtain ⟨⟨_, place⟩, hcolon, rfl⟩ := Option.map_eq_some_iff.1 hmap
  exact hc ⟨place, hcolon⟩

theorem closedOf_sameOutcome {rest : Parse (List Statement)}
    (hs : SameOutcome Statement.bare (statement p) (statement p'))
    (hrest : ∀ first r mark, statement p = .ok first r → r.current = some ⟨.semicolon, mark⟩ →
      ∀ r', SameCode r.step r' → SameOutcome bareAll (rest r.step) (rest r')) :
    SameOutcome bareAll (closedOf statement rest p) (closedOf statement rest p') := by
  apply hs.bind
  intro first first' r r' hfirst hbare hr
  apply (semicolon_sameOutcome _ _ hr).bind
  intro stop stop' s s' hread _ hs
  obtain ⟨mark, hmark, -, rfl⟩ := semicolon_eq_ok.1 hread
  apply (hrest first r mark hfirst hmark s' hs).bind
  intro ss ss' t t' _ hss ht
  exact .ok (by simp only [bareAll, hbare, hss]) ht

theorem statements_sameOutcome : StatementCases
    (fun p => ∀ p', SameCode p p' → SameOutcome Statement.bare (statement p) (statement p'))
    (fun p => ∀ p', SameCode p p' → SameOutcome bareBlock (block p) (block p'))
    (fun p => ∀ p', SameCode p p' → SameOutcome bareAll (statements p) (statements p')) where
  none hc := by
    intro p' h
    rw [statement_none hc, statement_none (h.current_eq_none hc)]
    exact .error rfl h
  print hc := by
    intro p' h
    obtain ⟨place', hc'⟩ := h.exists_current hc
    rw [statement_print hc, statement_print hc']
    exact print_sameOutcome h
  assignment hc hassign := by
    intro p' h
    obtain ⟨place', hc'⟩ := h.exists_current hc
    obtain ⟨sign', hassign'⟩ := h.step.exists_current hassign
    rw [statement_assignment hc hassign, statement_assignment hc' hassign']
    exact assignment_sameOutcome h
  loop hc hblock := by
    intro p' h
    obtain ⟨place', hc'⟩ := h.exists_current hc
    rw [statement_loop hc, statement_loop hc']
    apply (expectOr_sameOutcome _ _ h).bind
    intro sign sign' r r' hread _ hr
    obtain ⟨-, rfl⟩ := expectOr_eq_ok.1 hread
    apply (expression_sameOutcome .lowest hr).bind
    intro count count' s s' hexpr hcount hs
    apply (expectOr_sameOutcome _ _ hs).bind
    intro colon colon' t t' hread _ ht
    obtain ⟨hcolon, rfl⟩ := expectOr_eq_ok.1 hread
    apply (hblock count s colon hexpr hcolon t' ht).bind
    intro body body' u u' _ hbody hu
    exact .ok (by rw [bare_loop, bare_loop, hcount, hbody]) hu
  branch hc ht hat hblock hother := by
    intro p' h
    obtain ⟨place', hc'⟩ := h.exists_current hc
    rw [statement_branch hc ht hat, statement_branch hc' ht (h.atAssignment ▸ hat)]
    apply (expression_sameOutcome .lowest h).bind
    intro condition condition' r r' hcond hcondition hr
    apply (expectOr_sameOutcome _ _ hr).bind
    intro mark mark' s s' hread _ hs
    obtain ⟨hmark, rfl⟩ := expectOr_eq_ok.1 hread
    apply (hblock condition r mark hcond hmark s' hs).bind
    intro body body' u u' hblock hbody hu
    by_cases hcolon : ∃ place, u.current = some ⟨.colon, place⟩
    · obtain ⟨colon, hcolon⟩ := hcolon
      obtain ⟨colon', hcolon'⟩ := hu.exists_current hcolon
      rw [elseOf_colon hcolon, elseOf_colon hcolon']
      apply (hother condition r mark body u colon hcond hmark hblock hcolon u'.step hu.step).bind
      intro otherwise otherwise' v v' _ hotherwise hv
      exact .ok (by rw [bare_branchElse, bare_branchElse, hcondition, hbody, hotherwise]) hv
    · rw [elseOf_stop fun place hp => hcolon ⟨place, hp⟩, elseOf_stop (hu.not_colon hcolon)]
      exact .ok (by rw [bare_branch, bare_branch, hcondition, hbody]) hu
  other hc ht := by
    intro p' h
    obtain ⟨place', hc'⟩ := h.exists_current hc
    rw [statement_other hc ht, statement_other hc' ht]
    exact .error rfl h
  block hstatements := by
    intro p' h
    rw [block_eq, block_eq]
    apply (hstatements p' h).bind
    intro ss ss' r r' _ hss hr
    rw [window_bind, window_bind]
    cases ss with
    | nil =>
      rw [bareAll_eq_nil_iff.1 hss.symm]
      exact .error rfl hr
    | cons first rest =>
      cases ss' with
      | nil => cases hss
      | cons first' rest' => exact .ok hss hr
  stop hstop := by
    intro p' h
    rw [statements_of_stop hstop, statements_of_stop (h.startsStatement ▸ hstop)]
    exact .ok rfl h
  closed hstart hstatement hrest := by
    intro p' h
    rw [statements_of_start hstart, statements_of_start (h.startsStatement ▸ hstart)]
    exact closedOf_sameOutcome (hstatement p' h) hrest

theorem untilEnd_sameOutcome (p : Parser) : ∀ p', SameCode p p' →
    SameOutcome bareAll (untilEnd p) (untilEnd p') := by
  induction p using untilEnd_induction with
  | none p hc =>
    intro p' h
    rw [untilEnd_none hc, untilEnd_none (h.current_eq_none hc)]
    exact .error rfl h
  | finish p place hc =>
    intro p' h
    obtain ⟨place', hc'⟩ := h.exists_current hc
    rw [untilEnd_end hc, untilEnd_end hc']
    exact .ok rfl h
  | closed p t hc ht ih =>
    intro p' h
    obtain ⟨place', hc'⟩ := h.exists_current hc
    rw [untilEnd_cons hc ht, untilEnd_cons hc' ht]
    exact closedOf_sameOutcome ((statements_sameOutcome.all p).1 p' h) ih

theorem program_sameOutcome (h : SameCode p p') :
    SameOutcome Program.bare (program p) (program p') := by
  rw [program_eq, program_eq]
  apply (untilEnd_sameOutcome p p' h).bind
  intro ss ss' r r' _ hss hr
  exact .ok (by simp only [Program.bare, hss]) hr

end Parser

/-- Two sources with the same tokens, up to places and comments, are both accepted as the same
program up to places, or both refused for the same cause. -/
theorem parse_of_same_tokens {source source' : String} {toks toks' : List (Located Token)}
    (hlex : lex source = .ok toks) (hlex' : lex source' = .ok toks')
    (htokens : codeTokens toks = codeTokens toks') :
    (∃ parsed parsed', parse source = .ok parsed ∧ parse source' = .ok parsed' ∧
      parsed.program.bare = parsed'.program.bare) ∨
    ∃ e e', parse source = .error e ∧ parse source' = .error e' ∧ e.cause = e'.cause := by
  have hshape : LexResult.shape (results source) = LexResult.shape (results source') := by
    rw [lex_eq_ok_iff.1 hlex, lex_eq_ok_iff.1 hlex', LexResult.shape_map_ok,
      LexResult.shape_map_ok, htokens]
  have hsame := Parser.program_sameOutcome (Parser.SameCode.ofResults hshape)
  cases hparse : parse source with
  | ok parsed =>
    obtain ⟨q, hprogram, -⟩ := parse_eq_ok_iff.1 hparse
    cases hparse' : parse source' with
    | ok parsed' =>
      obtain ⟨q', hprogram', -⟩ := parse_eq_ok_iff.1 hparse'
      rw [hprogram, hprogram'] at hsame
      cases hsame with
      | ok hbare _ => exact .inl ⟨parsed, parsed', rfl, rfl, hbare⟩
    | error e' =>
      obtain ⟨q', -, -, hprogram', -⟩ := Parser.parse_eq_error hlex' hparse'
      rw [hprogram, hprogram'] at hsame
      cases hsame
  | error e =>
    obtain ⟨q, -, -, hprogram, -⟩ := Parser.parse_eq_error hlex hparse
    cases hparse' : parse source' with
    | ok parsed' =>
      obtain ⟨q', hprogram', -⟩ := parse_eq_ok_iff.1 hparse'
      rw [hprogram, hprogram'] at hsame
      cases hsame
    | error e' =>
      obtain ⟨q', -, -, hprogram', -⟩ := Parser.parse_eq_error hlex' hparse'
      rw [hprogram, hprogram'] at hsame
      cases hsame with
      | error hcause _ => exact .inr ⟨e, e', rfl, rfl, hcause⟩

/-- A parenthesis that opens nothing, in one line and behind comments. -/
theorem parse_of_same_tokens_refused :
    ∃ toks toks', lex "::mew; )" = .ok toks ∧ lex ":: // one\n mew\t;\n// two\n)" = .ok toks' ∧
      toks ≠ toks' ∧ codeTokens toks = codeTokens toks' ∧
      ∃ e e', parse "::mew; )" = .error e ∧
        parse ":: // one\n mew\t;\n// two\n)" = .error e' ∧
        e = ⟨.unexpectedToken .rightParen Parser.statementForms, 7, 8⟩ ∧ e.cause = e'.cause := by
  have hlex : lex "::mew; )" = .ok
      [⟨.doubleColon, 0, 2⟩, ⟨.number "mew", 2, 5⟩, ⟨.semicolon, 5, 6⟩, ⟨.rightParen, 7, 8⟩,
        ⟨.endOfFile, 8, 8⟩] := by
    cbv
  have hlex' : lex ":: // one\n mew\t;\n// two\n)" = .ok
      [⟨.doubleColon, 0, 2⟩, ⟨.comment, 3, 9⟩, ⟨.number "mew", 11, 14⟩, ⟨.semicolon, 15, 16⟩,
        ⟨.comment, 17, 23⟩, ⟨.rightParen, 24, 25⟩, ⟨.endOfFile, 25, 25⟩] := by
    cbv
  have hparse : parse "::mew; )" =
      .error ⟨.unexpectedToken .rightParen Parser.statementForms, 7, 8⟩ := by
    cbv
  rcases parse_of_same_tokens hlex hlex' rfl with ⟨parsed, _, hok, _⟩ | ⟨e, e', he, he', hcause⟩
  · rw [hparse] at hok
    cases hok
  · rw [hparse] at he
    cases he
    exact ⟨_, _, hlex, hlex', by decide, rfl, _, e', hparse, he', rfl, hcause⟩

end CatLang
