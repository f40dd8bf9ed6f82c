import CatLang.Proofs.SyntaxErrors

/-! Why the parser gives up. As long as there is a token ahead, a reader below the loop over the
statements of a program fails with one of six causes (`FailsInside`). A token that cannot start a
statement is met by that loop alone: a block ends before it. -/
namespace CatLang

/-- What can be wrong with a statement that was begun. -/
def ParseCause.insideStatement : List ParseCause :=
  [.expectedExpression, .emptyBlock, .missingQuestionMark, .missingColon, .missingSemicolon,
    .missingParen]

namespace Parser
open ParseCause (insideStatement)
variable {α β : Type} {p q r : Parser} {e : ParseError}

/-- From `p` the reader fails only before a place without a token or with a cause of these. -/
def FailsInside (x : Parse α) (p : Parser) : Prop :=
  ∀ e q, x p = .error e q → q.current = none ∨ e.cause ∈ insideStatement

namespace FailsInside
variable {x : Parse α} {y : Parse α} {f : α → Parse β}

theorem of_eq (h : x p = y q) (hy : FailsInside y q) : FailsInside x p := by
  intro e r hx
  exact hy e r (h ▸ hx)

theorem of_ok {a : α} (h : x p = .ok a q) : FailsInside x p := by
  intro e r hx
  rw [h] at hx
  cases hx

theorem pure (a : α) : FailsInside (Pure.pure a) p := of_ok (pure_run a p)

theorem bind (hx : FailsInside x p) (hf : ∀ a r, x p = .ok a r → FailsInside (f a) r) :
    FailsInside (x >>= f) p := by
  intro e q h
  rcases bind_eq_error h with h | ⟨a, r, ha, h⟩
  · exact hx e q h
  · exact hf a r ha e q h

/-- A token ahead that does not fit is the only other reason to fail. -/
theorem expectOr {token : Token} {cause : ParseCause} (h : cause ∈ insideStatement) (p : Parser) :
    FailsInside (expectOr token fun _ => cause) p := by
  intro e q hx
  obtain ⟨rfl, he⟩ := expectOr_eq_error hx
  cases hc : q.current with
  | none => exact .inl rfl
  | some t =>
    rw [he t hc]
    exact .inr h

theorem semicolon (after : Nat) (p : Parser) : FailsInside (semicolon after) p := by
  intro e q hx
  obtain ⟨rfl, he⟩ := semicolon_eq_error hx
  cases hc : q.current with
  | none => exact .inl rfl
  | some t =>
    rw [he t hc]
    exact .inr (by simp [insideStatement])

theorem includeOperator (h : FailsInside x p) (sign : Span) :
    FailsInside (mapError (includeOperator sign) x) p := by
  intro e q hx
  obtain ⟨e', he', rfl⟩ := mapError_eq_error hx
  have hcause : (Parser.includeOperator sign e').cause = e'.cause := by
    unfold Parser.includeOperator
    split <;> rfl
  rw [hcause]
  exact h e' q he'

end FailsInside

/-! Expressions. -/

theorem expressions_failInside : ExpressionCases (fun level => FailsInside (expression level))
    (FailsInside operand) fun level left => FailsInside (binaries level left) where
  expression {level p} hoperand hbinaries := .of_eq (expression_eq level p) (hoperand.bind hbinaries)
  none hc := by
    intro e q h
    rw [operand_none hc] at h
    cases h
    exact .inl hc
  name hc := .of_ok (operand_name hc)
  number hc := .of_ok (operand_number hc)
  group hc hinner := by
    apply FailsInside.of_eq (operand_group hc)
    apply hinner.bind
    intro inner r _
    exact (FailsInside.expectOr (by decide) r).bind fun _ _ _ => .pure _
  unary {_ _ sign} hc hoperand := by
    apply FailsInside.of_eq (operand_unary hc)
    exact (hoperand.includeOperator sign).bind fun _ _ _ => .pure _
  other hc ht := by
    intro e q h
    rw [operand_fail hc ht] at h
    cases h
    exact .inr (by simp [insideStatement])
  stop hstop := .of_ok (binaries_of_stop hstop)
  operator hc hlevel hright hrest :=
    .of_eq (binaries_of_operator hc hlevel) (hright.bind hrest)

theorem expression_failsInside (level : Level) (p : Parser) : FailsInside (expression level) p :=
  (expressions_failInside.all p).1 level

/-! Statements. -/

theorem print_failsInside {sign : Span} (hc : p.current = some ⟨.doubleColon, sign⟩) :
    FailsInside print p := by
  apply FailsInside.of_eq (print_eq p)
  apply (FailsInside.of_ok (expectOr_eq_ok.2 ⟨hc, rfl⟩)).bind
  intro _ r _
  exact (expression_failsInside .lowest r).bind fun _ _ _ => .pure _

theorem assignment_failsInside {text : String} {place sign : Span}
    (hc : p.current = some ⟨.name text, place⟩)
    (hassign : p.step.current = some ⟨.assign, sign⟩) : FailsInside assignment p := by
  have hname : identifier p = .ok ⟨text, place⟩ p.step := identifier_eq_ok.2 ⟨hc, rfl⟩
  apply FailsInside.of_eq (assignment_eq p)
  apply (FailsInside.of_ok hname).bind
  intro target r htarget
  obtain ⟨-, rfl⟩ := identifier_eq_ok.1 htarget
  apply (FailsInside.of_ok (expectOr_eq_ok.2 ⟨hassign, rfl⟩)).bind
  intro _ r _
  exact (expression_failsInside .lowest r).bind fun _ _ _ => .pure _

/-- A statement fails inside or at its first token; and a block begins one only at a token that
starts one. -/
theorem statements_failInside : StatementCases
    (fun p => FailsInside statement p ∨ ∃ t, p.current = some t ∧ t.value.startsStatement = false ∧
      statement p = .error ⟨.unexpectedToken t.value statementForms, t.span⟩ p)
    (FailsInside block) (FailsInside statements) where
  none hc := by
    left
    intro e q h
    rw [statement_none hc] at h
    cases h
    exact .inl hc
  print hc := .inl (.of_eq (statement_print hc) (print_failsInside hc))
  assignment hc hassign :=
    .inl (.of_eq (statement_assignment hc hassign) (assignment_failsInside hc hassign))
  loop hc hblock := by
    refine .inl (.of_eq (statement_loop hc) ?_)
    apply (FailsInside.of_ok (expectOr_eq_ok.2 ⟨hc, rfl⟩)).bind
    intro _ _ hread
    obtain ⟨-, rfl⟩ := expectOr_eq_ok.1 hread
    apply (expression_failsInside .lowest _).bind
    intro count r hcount
    apply (FailsInside.expectOr (by decide) r).bind
    intro colon _ hread
    obtain ⟨hcolon, rfl⟩ := expectOr_eq_ok.1 hread
    exact (hblock count r colon hcount hcolon).bind fun _ _ _ => .pure _
  branch {p t} hc ht hat hblock hother := by
    refine .inl (.of_eq (statement_branch hc ht hat) ?_)
    apply (expression_failsInside .lowest p).bind
    intro condition r hcond
    apply (FailsInside.expectOr (by decide) r).bind
    intro mark _ hread
    obtain ⟨hmark, rfl⟩ := expectOr_eq_ok.1 hread
    apply (hblock condition r mark hcond hmark).bind
    intro body u hbody
    by_cases hcolon : ∃ place, u.current = some ⟨.colon, place⟩
    · obtain ⟨colon, hcolon⟩ := hcolon
      apply FailsInside.of_eq (elseOf_colon hcolon)
      exact (hother condition r mark body u colon hcond hmark hbody hcolon).bind fun _ _ _ => .pure _
    · exact .of_ok (elseOf_stop fun place h => hcolon ⟨place, h⟩)
  other {p t} hc ht := .inr ⟨t, hc, ht, statement_other hc ht⟩
  block {p} hstatements := by
    apply FailsInside.of_eq (block_eq p)
    apply hstatements.bind
    intro ss r _ e q h
    rw [window_bind] at h
    cases ss with
    | cons first rest => cases h
    | nil =>
      cases h
      exact .inr (by simp [insideStatement])
  stop hstop := .of_ok (statements_of_stop hstop)
  closed {p} hstart hstatement hrest := by
    apply FailsInside.of_eq (statements_of_start hstart)
    have hfirst : FailsInside statement p := by
      rcases hstatement with h | ⟨t, hc, ht, -⟩
      · exact h
      · rw [Window.startsStatement, hc, Option.any_some, ht] at hstart
        cases hstart
    apply hfirst.bind
    intro first r hr
    apply (FailsInside.semicolon first.span.stop r).bind
    intro _ _ hread
    obtain ⟨mark, hmark, -, rfl⟩ := semicolon_eq_ok.1 hread
    exact (hrest first r mark hr hmark).bind fun _ _ _ => .pure _

/-! Programs. -/

/-- The loop over the statements of a program, begun at `p`, comes round at `q`. -/
inductive LoopReaches : Parser → Parser → Prop
  | here (p : Parser) : LoopReaches p p
  | next {p q r r' : Parser} {s : Statement} {stop : Nat} : statement p = .ok s r →
      semicolon s.span.stop r = .ok stop r' → LoopReaches r' q → LoopReaches p q

/-- At `q` the loop finds a token that is not the end of file and starts no statement. -/
structure BreaksLoop (p : Parser) (e : ParseError) (q : Parser) (t : Located Token) : Prop where
  reaches : LoopReaches p q
  current : q.current = some t
  not_end : t.value ≠ .endOfFile
  not_start : t.value.startsStatement = false
  thrown : statement q = .error e q
  error : e = ⟨.unexpectedToken t.value statementForms, t.span⟩

theorem untilEnd_eq_error (p : Parser) : ∀ e q, untilEnd p = .error e q →
    q.current = none ∨ e.cause ∈ insideStatement ∨ ∃ t, BreaksLoop p e q t := by
  induction p using untilEnd_induction with
  | none p hc =>
    intro e q h
    rw [untilEnd_none hc] at h
    cases h
    exact .inl hc
  | finish p place hc =>
    intro e q h
    rw [untilEnd_end hc] at h
    cases h
  | closed p t hc hvalue ih =>
    intro e q h
    rw [untilEnd_cons hc hvalue] at h
    rcases bind_eq_error h with h | ⟨first, r, hfirst, h⟩
    -- Here nobody has looked at the token ahead, so it may be one that starts no statement.
    · rcases (statements_failInside.all p).1 with hinside | ⟨t, ht, hstart, hs⟩
      · exact (hinside e q h).imp_right .inl
      · have herror := hs
        rw [h] at herror
        cases herror
        rw [hc] at ht
        cases ht
        exact .inr (.inr ⟨_, .here _, hc, hvalue, hstart, hs, rfl⟩)
    rcases bind_eq_error h with h | ⟨stop, r', hread, h⟩
    · exact (FailsInside.semicolon _ r e q h).imp_right .inl
    rcases bind_eq_error h with h | ⟨_, _, _, h⟩
    · obtain ⟨mark, hmark, -, rfl⟩ := semicolon_eq_ok.1 hread
      refine (ih first r mark hfirst hmark e q h).imp_right (Or.imp_right ?_)
      rintro ⟨t, hbreaks⟩
      exact ⟨t, { hbreaks with reaches := .next hfirst hread hbreaks.reaches }⟩
    · cases h

theorem program_eq_error (h : program p = .error e q) :
    q.current = none ∨ e.cause ∈ insideStatement ∨ ∃ t, BreaksLoop p e q t := by
  rw [program_eq] at h
  rcases bind_eq_error h with h | ⟨_, _, _, h⟩
  · exact untilEnd_eq_error p e q h
  · cases h

end Parser

end CatLang
