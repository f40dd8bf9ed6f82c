import Mathlib
import CatLang.Proofs.Statements

/-! How far the readers look. What a reader does depends on the tokens that it takes and on the one
it stops before, and on nothing behind them (`local_program`). The one place where two tokens are
looked at, a name that may start an assignment, is no exception, since the name is then taken. And a
reader stops at the latest where nothing is to be taken (`readers_end_in_time`). -/
namespace CatLang.Parser
variable {α β : Type} {p q : Parser} {t : Located Token} {ts us : List (Located Token)}

/-- The same outcome with another window left. -/
def moveTo (q : Parser) : EStateM.Result ParseError Parser α → EStateM.Result ParseError Parser α
  | .ok a _ => .ok a q
  | .error e _ => .error e q

namespace Passes
variable {p' q' : Parser}

theorem current_congr (h : Passes p ts q) (h' : Passes p' ts q') (hq : q'.current = q.current) :
    p'.current = p.current := by
  cases ts with
  | nil =>
    cases h
    cases h'
    exact hq
  | cons t ts => rw [(cons_iff.1 h).1, (cons_iff.1 h').1]

theorem lastEnd_congr (h : Passes p ts q) (h' : Passes p' ts q') (hp : p'.lastEnd = p.lastEnd) :
    q'.lastEnd = q.lastEnd := by
  by_cases hne : ts = []
  · subst hne
    cases h
    cases h'
    exact hp
  · rw [h.lastEnd_eq_stopOf hne, h'.lastEnd_eq_stopOf hne]

end Passes

/-- From `p` the reader takes these tokens. From any other window that shows them and then the same
token, it does the same. -/
structure LocalFrom (x : Parse α) (p : Parser) (ts : List (Located Token)) : Prop where
  passes : Passes p ts (windowOf (x p))
  same : ∀ {p' q'}, p'.lastEnd = p.lastEnd → Passes p' ts q' →
    q'.current = (windowOf (x p)).current → x p' = moveTo q' (x p)

def Local (x : Parse α) (p : Parser) : Prop := ∃ ts, LocalFrom x p ts

namespace LocalFrom
variable {x y : Parse α} {f : α → Parse β}

theorem stay (hp : windowOf (x p) = p)
    (h : ∀ p', p'.current = p.current → p'.lastEnd = p.lastEnd → x p' = moveTo p' (x p)) :
    LocalFrom x p [] where
  passes := by
    rw [hp]
    exact .nil p
  same hend hp' hc := by
    cases hp'
    exact h _ (hp ▸ hc) hend

theorem step (hc : p.current = some t) (hx : ∀ p', p'.current = some t → x p' = y p'.step)
    (hy : LocalFrom y p.step ts) : LocalFrom x p (t :: ts) where
  passes := by
    rw [hx p hc]
    exact .cons hc hy.passes
  same {p' q'} _ hp' hq := by
    obtain ⟨hc', hp'⟩ := Passes.cons_iff.1 hp'
    have hend : p'.step.lastEnd = p.step.lastEnd := by
      simp only [ParserOn.step, hc, hc']
    rw [hx p hc] at hq ⊢
    rw [hx p' hc', hy.same hend hp' hq]

theorem of_current (hx : ∀ p', p'.current = p.current → x p' = y p') (hy : LocalFrom y p ts) :
    LocalFrom x p ts where
  passes := by
    rw [hx p rfl]
    exact hy.passes
  same hend hp' hq := by
    rw [hx p rfl] at hq ⊢
    rw [hx _ (hy.passes.current_congr hp' hq), hy.same hend hp' hq]

/-- If a token is taken, the one after it may be looked at too. -/
theorem of_next (hx : ∀ p', p'.current = p.current → p'.next = p.next → x p' = y p')
    (hy : LocalFrom y p (t :: ts)) : LocalFrom x p (t :: ts) where
  passes := by
    rw [hx p rfl rfl]
    exact hy.passes
  same hend hp' hq := by
    rw [hx p rfl rfl] at hq ⊢
    have hcurrent := hy.passes.current_congr hp' hq
    have hnext := (Passes.cons_iff.1 hy.passes).2.current_congr (Passes.cons_iff.1 hp').2 hq
    rw [hx _ hcurrent hnext, hy.same hend hp' hq]

theorem bind_ok {a : α} {r : Parser} (hx : LocalFrom x p ts) (h : x p = .ok a r)
    (hf : LocalFrom (f a) r us) : LocalFrom (x >>= f) p (ts ++ us) where
  passes := by
    have hpasses := hx.passes
    rw [h] at hpasses
    rw [bind_of_ok h]
    exact hpasses.append hf.passes
  same {p' q'} hend hp' hq := by
    rw [bind_of_ok h] at hq ⊢
    obtain ⟨r', hpr, hrq⟩ := Passes.append_iff.1 hp'
    have hpasses := hx.passes
    have hsame := hx.same hend hpr
    rw [h] at hpasses hsame
    have hr := hsame (hf.passes.current_congr hrq hq)
    rw [bind_of_ok hr, hf.same (hpasses.lastEnd_congr hpr hend) hrq hq]

theorem bind_error {e : ParseError} {r : Parser} (hx : LocalFrom x p ts) (h : x p = .error e r) :
    LocalFrom (x >>= f) p ts where
  passes := by
    have hpasses := hx.passes
    rw [h] at hpasses
    rwa [bind_of_error h]
  same hend hp' hq := by
    have hsame := hx.same hend hp'
    rw [h] at hsame
    rw [bind_of_error h] at hq ⊢
    exact bind_of_error (hsame hq) f

theorem bind_cons (hx : LocalFrom x p (t :: ts)) (hf : ∀ a r, x p = .ok a r → Local (f a) r) :
    ∃ us, LocalFrom (x >>= f) p (t :: us) := by
  cases h : x p with
  | error e r => exact ⟨ts, hx.bind_error h⟩
  | ok a r =>
    obtain ⟨us, hus⟩ := hf a r h
    exact ⟨ts ++ us, hx.bind_ok h hus⟩

theorem mapError {change : ParseError → ParseError} (hx : LocalFrom x p ts) :
    LocalFrom (mapError change x) p ts where
  passes := by
    have hpasses := hx.passes
    unfold Parser.mapError
    cases h : x p <;> rwa [h] at hpasses
  same hend hp' hq := by
    have hsame := hx.same hend hp'
    unfold Parser.mapError at hq ⊢
    cases h : x p with
    | ok a r =>
      rw [h] at hsame hq
      rw [hsame hq]
      rfl
    | error e r =>
      rw [h] at hsame hq
      rw [hsame hq]
      rfl

end LocalFrom

namespace Local
variable {x y : Parse α} {f : α → Parse β}

theorem bind (hx : Local x p) (hf : ∀ a r, x p = .ok a r → Local (f a) r) :
    Local (x >>= f) p := by
  obtain ⟨ts, hx⟩ := hx
  cases h : x p with
  | error e r => exact ⟨ts, hx.bind_error h⟩
  | ok a r =>
    obtain ⟨us, hus⟩ := hf a r h
    exact ⟨ts ++ us, hx.bind_ok h hus⟩

theorem pure (a : α) (p : Parser) : Local (pure a : Parse α) p :=
  ⟨[], .stay rfl fun _ _ _ => rfl⟩

theorem fail (cause : ParseCause) (span : Span) (p : Parser) :
    Local (fail cause span : Parse α) p :=
  ⟨[], .stay rfl fun _ _ _ => rfl⟩

theorem failAtEnd (p : Parser) : Local (failAtEnd : Parse α) p := by
  refine ⟨[], .stay rfl fun p' _ hend => ?_⟩
  rw [failAtEnd_run, failAtEnd_run, Window.endSpan, Window.endSpan, hend]
  rfl

theorem step (hc : p.current = some t) (hx : ∀ p', p'.current = some t → x p' = y p'.step)
    (hy : Local y p.step) : Local x p :=
  let ⟨ts, hy⟩ := hy
  ⟨t :: ts, hy.step hc hx⟩

theorem of_current (hx : ∀ p', p'.current = p.current → x p' = y p') (hy : Local y p) :
    Local x p :=
  let ⟨ts, hy⟩ := hy
  ⟨ts, hy.of_current hx⟩

theorem mapError {change : ParseError → ParseError} (hx : Local x p) :
    Local (mapError change x) p :=
  let ⟨ts, hx⟩ := hx
  ⟨ts, hx.mapError⟩

end Local

/-! The small readers. -/

theorem local_accept (make : Located Token → Except ParseError α) (p : Parser) :
    Local (accept make) p := by
  cases hc : p.current with
  | none => exact .of_current (fun p' hp' => accept_none (hp'.trans hc)) (.failAtEnd p)
  | some t =>
    cases ht : make t with
    | ok a => exact .step hc (fun p' hp' => accept_ok hp' ht) (.pure a _)
    | error e =>
      exact .of_current (fun p' hp' => accept_error (hp'.trans hc) ht) (.fail e.cause e.span p)

theorem local_expectOr (token : Token) (cause : Token → ParseCause) (p : Parser) :
    Local (expectOr token cause) p :=
  local_accept _ p

theorem local_semicolon (after : Nat) (p : Parser) : Local (semicolon after) p := local_accept _ p

/-! Expressions. -/

theorem local_expressions : ExpressionCases (fun level => Local (expression level)) (Local operand)
    fun level left => Local (binaries level left) where
  expression {level p} hoperand hbinaries :=
    .of_current (fun p' _ => expression_eq level p') (hoperand.bind hbinaries)
  none {p} hc := .of_current (fun p' hp' => operand_none (hp'.trans hc)) (.failAtEnd p)
  name hc := .step hc (fun p' hp' => operand_name hp') (.pure _ _)
  number hc := .step hc (fun p' hp' => operand_number hp') (.pure _ _)
  group hc hinner := by
    refine .step hc (fun p' hp' => operand_group hp') ?_
    exact hinner.bind fun inner r _ => (local_expectOr _ _ r).bind fun _ _ _ => .pure _ _
  unary hc hoperand := by
    refine .step hc (fun p' hp' => operand_unary hp') ?_
    exact hoperand.mapError.bind fun _ _ _ => .pure _ _
  other {p t} hc ht :=
    .of_current (fun p' hp' => operand_fail (hp'.trans hc) ht) (.fail _ t.span p)
  stop {level left p} hstop := by
    refine .of_current (fun p' hp' => binaries_of_stop ?_) (.pure left p)
    rwa [Window.currentLevel, hp']
  operator hc hlevel hright hrest := by
    refine .step hc (fun p' hp' => binaries_of_operator hp' hlevel) ?_
    exact hright.bind hrest

theorem local_expression (level : Level) (p : Parser) : Local (expression level) p :=
  (local_expressions.all p).1 level

/-- An expression that starts with a name takes it. -/
theorem localFrom_expression_name (level : Level) {text : String} {span : Span}
    (hc : p.current = some ⟨.name text, span⟩) :
    ∃ us, LocalFrom (expression level) p (⟨.name text, span⟩ :: us) := by
  obtain ⟨us, hus⟩ := (local_expressions.all p.step).2.2 level (.name text span)
  refine ⟨us, hus.step hc fun p' hp' => ?_⟩
  rw [expression_eq, bind_of_ok (operand_name hp')]

/-! Statements. -/

theorem local_print (p : Parser) : Local print p := by
  refine .of_current (fun p' _ => print_eq p') ?_
  exact (local_expectOr _ _ p).bind fun _ r _ =>
    (local_expression .lowest r).bind fun _ _ _ => .pure _ _

theorem localFrom_assignment_name {text : String} {span : Span}
    (hc : p.current = some ⟨.name text, span⟩) :
    ∃ us, LocalFrom assignment p (⟨.name text, span⟩ :: us) := by
  have hrest : Local (do
      let _ ← expect .assign
      let value ← expression .lowest
      return .assign ⟨text, span⟩ value ⟨span.start, value.span.stop⟩ : Parse Statement) p.step :=
    (local_expectOr _ _ _).bind fun _ r _ => (local_expression .lowest r).bind fun _ _ _ => .pure _ _
  obtain ⟨us, hus⟩ := hrest
  refine ⟨us, hus.step hc fun p' hp' => ?_⟩
  have hname : identifier p' = .ok ⟨text, span⟩ p'.step := identifier_eq_ok.2 ⟨hp', rfl⟩
  rw [assignment_eq, bind_of_ok hname]

section Branch
variable {condition : Expr} (hblock : ∀ mark, p.current = some ⟨.question, mark⟩ → Local block p.step)
  (hother : ∀ mark body u colon, p.current = some ⟨.question, mark⟩ → block p.step = .ok body u →
    u.current = some ⟨.colon, colon⟩ → Local block u.step)
include hblock hother

/-- What is read of a branch behind its condition. -/
theorem local_branch_body : Local (do
    let _ ← expectOr .question fun _ => .missingQuestionMark
    let body ← block
    elseOf block condition body) p := by
  refine (local_expectOr _ _ p).bind fun mark r hread => ?_
  obtain ⟨hmark, rfl⟩ := expectOr_eq_ok.1 hread
  refine (hblock mark hmark).bind fun body u hbody => ?_
  by_cases hc : ∃ place, u.current = some ⟨.colon, place⟩
  · obtain ⟨place, hc⟩ := hc
    refine .step hc (fun p' hp' => elseOf_colon hp') ?_
    exact (hother mark body u place hmark hbody hc).bind fun _ _ _ => .pure _ _
  · refine .of_current (fun p' hp' => elseOf_stop fun place h => ?_) (.pure _ u)
    exact hc ⟨place, hp'.symm.trans h⟩

end Branch

/-- Only at a name does a statement depend on the token after the current one. -/
theorem atAssignment_of_not_name (hc : p.current = some t) (ht : ∀ text, t.value ≠ .name text) :
    p.atAssignment = false := by
  refine Bool.eq_false_iff.2 fun hat => ?_
  obtain ⟨text, place, sign, hname, -⟩ := atAssignment_eq_true hat
  rw [hc] at hname
  cases hname
  exact ht text rfl

theorem local_closed {rest : Parse (List Statement)} (hs : Local statement p)
    (hrest : ∀ first r mark, statement p = .ok first r → r.current = some ⟨.semicolon, mark⟩ →
      Local rest r.step) : Local (closedOf statement rest) p := by
  refine hs.bind fun first r hfirst => (local_semicolon _ r).bind fun _ r' hread => ?_
  obtain ⟨mark, hmark, -, rfl⟩ := semicolon_eq_ok.1 hread
  exact (hrest first r mark hfirst hmark).bind fun _ _ _ => .pure _ _

theorem local_statements : StatementCases (Local statement) (Local block) (Local statements) where
  none {p} hc := .of_current (fun p' hp' => statement_none (hp'.trans hc)) (.failAtEnd p)
  print {p _} hc := .of_current (fun p' hp' => statement_print (hp'.trans hc)) (local_print p)
  assignment hc hassign := by
    obtain ⟨us, hus⟩ := localFrom_assignment_name hc
    refine ⟨_, hus.of_next fun p' hp' hnext => ?_⟩
    exact statement_assignment (hp'.trans hc) (hnext.trans hassign)
  loop {p _} hc hblock := by
    refine .of_current (fun p' hp' => statement_loop (hp'.trans hc)) ?_
    refine (local_expectOr _ _ p).bind fun _ r hread => ?_
    obtain ⟨-, rfl⟩ := expectOr_eq_ok.1 hread
    refine (local_expression .lowest _).bind fun count r hcount => ?_
    refine (local_expectOr _ _ r).bind fun colon r' hread => ?_
    obtain ⟨hcolon, rfl⟩ := expectOr_eq_ok.1 hread
    exact (hblock count r colon hcount hcolon).bind fun _ _ _ => .pure _ _
  branch {p t} hc ht hat hblock hother := by
    have hbody : ∀ condition r, expression .lowest p = .ok condition r → Local (do
        let _ ← expectOr .question fun _ => .missingQuestionMark
        let body ← block
        elseOf block condition body) r := fun condition r hcond =>
      local_branch_body (fun mark => hblock condition r mark hcond)
        fun mark body u colon => hother condition r mark body u colon hcond
    obtain ⟨value, place⟩ := t
    by_cases hname : ∃ text, value = .name text
    · obtain ⟨text, rfl⟩ := hname
      obtain ⟨ts, hts⟩ := localFrom_expression_name .lowest hc
      obtain ⟨us, hus⟩ := hts.bind_cons hbody
      refine ⟨_, hus.of_next fun p' hp' hnext => statement_branch (hp'.trans hc) ht ?_⟩
      rw [← hat, Window.atAssignment, Window.atAssignment, hp', hnext]
    · refine .of_current (fun p' hp' => statement_branch (hp'.trans hc) ht ?_)
        ((local_expression .lowest p).bind hbody)
      exact atAssignment_of_not_name (hp'.trans hc) fun text h => hname ⟨text, h⟩
  other {p t} hc ht :=
    .of_current (fun p' hp' => statement_other (hp'.trans hc) ht) (.fail _ t.span p)
  block {p} hstatements := by
    refine .of_current (fun p' _ => block_eq p') (hstatements.bind fun ss r _ => ?_)
    cases ss with
    | nil =>
      refine ⟨[], .stay rfl fun p' hp' hend => ?_⟩
      rw [window_bind, window_bind]
      simp only [Window.currentSpan, Window.endSpan, hp', hend]
      rfl
    | cons first rest =>
      refine ⟨[], .stay rfl fun p' _ hend => ?_⟩
      rw [window_bind, window_bind, hend]
      rfl
  stop {p} hstop := by
    refine .of_current (fun p' hp' => statements_of_stop ?_) (.pure [] p)
    rw [← hstop, Window.startsStatement, Window.startsStatement, hp']
  closed hstart hstatement hrest := by
    refine .of_current (fun p' hp' => statements_of_start ?_) (local_closed hstatement hrest)
    rw [← hstart, Window.startsStatement, Window.startsStatement, hp']

theorem local_untilEnd (p : Parser) : Local untilEnd p := by
  induction p using untilEnd_induction with
  | none p hc => exact .of_current (fun p' hp' => untilEnd_none (hp'.trans hc)) (.failAtEnd p)
  | finish p place hc =>
    exact .of_current (fun p' hp' => untilEnd_end (hp'.trans hc)) (.pure [] p)
  | closed p t hc ht ih =>
    exact .of_current (fun p' hp' => untilEnd_cons (hp'.trans hc) ht)
      (local_closed (local_statements.all p).1 ih)

theorem local_program (p : Parser) : Local program p := by
  refine .of_current (fun p' _ => program_eq p') ?_
  refine (local_untilEnd p).bind fun ss r _ => ⟨[], .stay rfl fun p' _ hend => ?_⟩
  rw [window_bind, window_bind, hend]
  rfl

/-! Where they end. -/

namespace Traced

def expression (level : Level) : Traced Expr := fun w => expressionWithin w.window.fuel level w

def statement : Traced Statement := fun w => statementWithin w.window.fuel w

def block : Traced Block := fun w => blockWithin w.window.fuel w

def program : Traced Program := fun w => programWithin w.window.fuel w

end Traced

open LexResult (code)

/-- There is nothing to take at that place: it is the end of file, a lexical error, or behind the
last result. -/
def Stops (results : List LexResult) (m : Nat) : Prop :=
  ∀ t, (code results)[m]? = some (.ok t) → t.value = .endOfFile

/-- Wherever the window started, it went no further than to the next place where nothing is to be
taken. -/
def StaysBefore (p : Parser) (ts : List (Located Token)) (q : Parser) : Prop :=
  ∀ results n m, At results n p → n ≤ m → Stops results m →
    n + ts.length ≤ m ∧ At results (n + ts.length) q

namespace EndsAfter
variable {x x' : Traced α} {y y' : Parse α}

/-- Only what the readers do from `p` counts. -/
theorem congr (h : EndsAfter x y p ts) (hx : ∀ taken, x' ⟨p, taken, false⟩ = x ⟨p, taken, false⟩)
    (hy : y' p = y p) : EndsAfter x' y' p ts where
  answer taken := by rw [hx, hy, h.answer]
  window taken := by rw [hx, hy, h.window]
  passes := by
    rw [hy]
    exact h.passes
  before_end := h.before_end

theorem staysBefore (h : EndsAfter x y p ts) : StaysBefore p ts (windowOf (y p)) := by
  intro results n m hp hnm hstops
  obtain ⟨hq, htaken⟩ := h.passes.at_after hp
  refine ⟨Nat.le_of_not_lt fun hlt => ?_, hq⟩
  obtain ⟨k, rfl⟩ := Nat.exists_eq_add_of_le hnm
  have hk : k < ts.length := by omega
  have hget : (code results)[n + k]? = some (.ok ts[k]) := by
    rw [← List.getElem?_drop, htaken, List.getElem?_append_left (by simpa using hk)]
    simp [hk]
  exact h.before_end _ (List.getElem_mem hk) (hstops _ hget)

/-- A reader that accepts something has taken what it was read from. -/
theorem ne_nil {a : α} (h : EndsAfter x y p ts) (hy : y p = .ok a q) (hpasses : Passes p us q)
    (hus : us ≠ []) : ts ≠ [] := by
  rintro rfl
  have hnil := h.passes
  rw [hy] at hnil
  cases hnil
  have hahead : q.ahead + us.length ≤ q.ahead := hpasses.ahead_le
  have hlength := List.length_pos_iff.2 hus
  omega

end EndsAfter

theorem exists_endsAfter_program (p : Parser) : ∃ ts, EndsAfter Traced.program program p ts := by
  have hfuel := p.ahead_le_fuel
  have hends : Ends 0 (programWithin p.fuel) p := ends_program (by omega)
  obtain ⟨ts, h, -⟩ := hends.endsAfter ((follows_walk 0).mirrors_program p.fuel)
  exact ⟨ts, h.congr (fun _ => rfl) rfl⟩

theorem exists_endsAfter_statement (p : Parser) :
    ∃ ts, EndsAfter Traced.statement statement p ts := by
  have hfuel := p.ahead_le_fuel
  have hends : Ends 0 (statementWithin p.fuel) p := (endsWithin p.fuel).statement (by omega)
  obtain ⟨ts, h, -⟩ := hends.endsAfter ((follows_walk 0).mirrors p.fuel).statement
  exact ⟨ts, h.congr (fun _ => rfl) rfl⟩

theorem exists_endsAfter_block (p : Parser) : ∃ ts, EndsAfter Traced.block block p ts := by
  have hfuel := p.ahead_le_fuel
  have hends : Ends 0 (blockWithin p.fuel) p := (endsWithin p.fuel).block (by omega)
  obtain ⟨ts, h, -⟩ := hends.endsAfter ((follows_walk 0).mirrors p.fuel).block
  exact ⟨ts, h.congr (fun _ => rfl) rfl⟩

theorem exists_endsAfter_expression (level : Level) (p : Parser) :
    ∃ ts, EndsAfter (Traced.expression level) (expression level) p ts := by
  have hfuel := p.ahead_le_fuel
  have hends : Ends 1 (expressionWithin p.fuel level) p :=
    (endsWithin p.fuel).expression (by omega)
  obtain ⟨ts, h, -⟩ := hends.endsAfter (((follows_walk 0).mirrors p.fuel).expression level)
  exact ⟨ts, h.congr (fun _ => rfl) rfl⟩

/-- From every window the readers of programs, statements, blocks and expressions end, and not for
having come to their bound. Whatever they stepped over was a token and not the end of file, and one
that accepts something other than a program has taken a token. So none goes past the next end of
file or lexical error. -/
theorem readers_end_in_time (level : Level) (p : Parser) :
    (∃ ts, EndsAfter Traced.program program p ts ∧ StaysBefore p ts (windowOf (program p))) ∧
      (∃ ts, EndsAfter Traced.statement statement p ts ∧
        (∀ s q, statement p = .ok s q → ts ≠ []) ∧ StaysBefore p ts (windowOf (statement p))) ∧
      (∃ ts, EndsAfter Traced.block block p ts ∧
        (∀ b q, block p = .ok b q → ts ≠ []) ∧ StaysBefore p ts (windowOf (block p))) ∧
      ∃ ts, EndsAfter (Traced.expression level) (expression level) p ts ∧
        (∀ e q, expression level p = .ok e q → ts ≠ []) ∧
        StaysBefore p ts (windowOf (expression level p)) := by
  obtain ⟨ts, hprogram⟩ := exists_endsAfter_program p
  obtain ⟨ts₁, hstatement⟩ := exists_endsAfter_statement p
  obtain ⟨ts₂, hblock⟩ := exists_endsAfter_block p
  obtain ⟨ts₃, hexpression⟩ := exists_endsAfter_expression level p
  refine ⟨⟨ts, hprogram, hprogram.staysBefore⟩, ⟨ts₁, hstatement, ?_, hstatement.staysBefore⟩,
    ⟨ts₂, hblock, ?_, hblock.staysBefore⟩, ⟨ts₃, hexpression, ?_, hexpression.staysBefore⟩⟩
  · intro s q h
    obtain ⟨us, hr⟩ := (soundStatements.all p).1 s q h
    obtain ⟨t, rest, rfl, -⟩ := hr.readFrom.head
    exact hstatement.ne_nil h hr.passes (List.cons_ne_nil t rest)
  · intro b q h
    obtain ⟨us, ss, hr, hss, -⟩ := (soundStatements.all p).2.1 b q h
    exact hblock.ne_nil h hr.passes (hr.ne_nil hss)
  · intro e q h
    obtain ⟨us, hr, -, -⟩ := expression_sound h
    exact hexpression.ne_nil h hr.passes (List.length_pos_iff.1 hr.readFrom.length_pos)

/-- Before `x = mew`, with a comment inside, a lexical error behind it and the end of file further
on: the statement is read, and the program ends at the gap that the error leaves. -/
theorem readers_end_in_time_gap :
    let results : List LexResult := [.ok ⟨.name "x", 0, 1⟩, .ok ⟨.assign, 2, 3⟩,
      .ok ⟨.comment, 4, 8⟩, .ok ⟨.number "mew", 9, 12⟩, .error ⟨.unrecognized '$', 12, 13⟩,
      .ok ⟨.semicolon, 13, 14⟩, .ok ⟨.endOfFile, 14, 14⟩]
    let p := ofResults results
    statement p = .ok (.assign ⟨"x", 0, 1⟩ (.number "mew" ⟨9, 12⟩) ⟨0, 12⟩) p.step.step.step ∧
      (∃ ts, EndsAfter Traced.statement statement p ts ∧ ts ≠ [] ∧ ts.length ≤ 3) ∧
      ∃ ts, EndsAfter Traced.program program p ts ∧ ts.length ≤ 3 ∧
        At results ts.length (windowOf (program p)) := by
  intro results p
  have hstatement :
      statement p = .ok (.assign ⟨"x", 0, 1⟩ (.number "mew" ⟨9, 12⟩) ⟨0, 12⟩) p.step.step.step := by
    cbv
  have hstops : Stops results 3 := by
    intro t h
    cases h
  obtain ⟨⟨ts, hprogram, hts⟩, ⟨us, hus, hne, hstays⟩, -, -⟩ := readers_end_in_time .lowest p
  have hts := hts results 0 3 (at_ofResults results) (Nat.zero_le 3) hstops
  have hlength := (hstays results 0 3 (at_ofResults results) (Nat.zero_le 3) hstops).1
  rw [Nat.zero_add] at hts hlength
  exact ⟨hstatement, ⟨us, hus, hne _ _ hstatement, hlength⟩, ts, hprogram, hts.1, hts.2⟩

end CatLang.Parser
