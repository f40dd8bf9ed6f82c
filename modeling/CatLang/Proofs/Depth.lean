import CatLang.Proofs.Traced

/-! The readers without their bounds. The bound that the public readers take from the window is more
than they need to end, and from there on it makes no difference. So they satisfy the equations of
their definitions with no bound in them, and what is shown for each form of an expression or a
statement from the shorter ones ahead holds from every window (`ExpressionCases.all`,
`StatementCases.all`). -/
namespace CatLang.Parser
variable {depth : Nat} {level : Level} {p q : Parser} {e left : Expr} {t : Located Token}

section
variable {α β : Type} {x y : Parse α} {f g : α → Parse β}

theorem bind_congr_at (hx : x p = y p) (hf : ∀ a r, y p = .ok a r → f a r = g a r) :
    (x >>= f) p = (y >>= g) p := by
  cases hy : y p with
  | ok a r => rw [bind_of_ok (hx.trans hy), bind_of_ok hy, hf a r hy]
  | error e r => rw [bind_of_error (hx.trans hy), bind_of_error hy]

theorem bind_congr_left (hx : x p = y p) : (x >>= f) p = (y >>= f) p :=
  bind_congr_at hx fun _ _ _ => rfl

theorem mapError_congr {change : ParseError → ParseError} (hx : x p = y p) :
    mapError change x p = mapError change y p := by
  rw [mapError, mapError, hx]

/-- From a depth on at which the traced reader ends, the running one is the same at all depths. -/
theorem eq_of_settled {x : Traced α} {y : Nat → Parse α} {least n d d' : Nat}
    (hx : Ends least x p) (hxy : ∀ extra, Traces x (y (n + extra))) (hd : n ≤ d) (hd' : n ≤ d') :
    y d p = y d' p := by
  obtain ⟨extra, rfl⟩ := Nat.exists_eq_add_of_le hd
  obtain ⟨extra', rfl⟩ := Nat.exists_eq_add_of_le hd'
  exact hx.eq_of_traces (hxy extra) (hxy extra')

end

theorem exists_fuel_eq (p : Parser) : ∃ d, p.fuel = d + 4 ∧ 4 * p.ahead + 4 ≤ d :=
  ⟨p.fuel - 4, by have := p.ahead_le_fuel; omega, by have := p.ahead_le_fuel; omega⟩

/-! Expressions. -/

/-- An operand with the operators before it. -/
def operand : Parse Expr := fun p => operandWithin p.fuel p

/-- The operators behind an expression that bind tighter than `level`, with their operands. -/
def binaries (level : Level) (left : Expr) : Parse Expr := fun p =>
  binariesWithin p.fuel level left p

theorem expressionWithin_eq (h : 4 * p.ahead + 2 ≤ depth) :
    expressionWithin depth level p = expression level p := by
  have := p.ahead_le_fuel
  exact eq_of_settled (y := (expressionWithin · level)) ((endsWithin _).expression (Nat.le_refl _))
    (fun extra => ((follows_walk extra).mirrors _).expression level) h (by omega)

theorem operandWithin_eq (h : 4 * p.ahead + 1 ≤ depth) : operandWithin depth p = operand p := by
  have := p.ahead_le_fuel
  exact eq_of_settled (y := operandWithin) ((endsWithin _).operand (Nat.le_refl _))
    (fun extra => ((follows_walk extra).mirrors _).operand) h (by omega)

theorem binariesWithin_eq (h : 4 * p.ahead + 1 ≤ depth) :
    binariesWithin depth level left p = binaries level left p := by
  have := p.ahead_le_fuel
  exact eq_of_settled (y := (binariesWithin · level left)) ((endsWithin _).binaries (Nat.le_refl _))
    (fun extra => ((follows_walk extra).mirrors _).binaries level left) h (by omega)

theorem ahead_of_expression (h : expression level p = .ok e q) : q.ahead + 1 ≤ p.ahead := by
  have := p.ahead_le_fuel
  exact ((endsWithin p.fuel).expression (by omega)).ahead_of_ok
    (((follows_walk 0).mirrors p.fuel).expression level) h

theorem ahead_of_operand (h : operand p = .ok e q) : q.ahead + 1 ≤ p.ahead := by
  have := p.ahead_le_fuel
  exact ((endsWithin p.fuel).operand (by omega)).ahead_of_ok
    ((follows_walk 0).mirrors p.fuel).operand h

theorem expression_eq (level : Level) (p : Parser) :
    expression level p = (operand >>= binaries level) p := by
  obtain ⟨d, hfuel, hd⟩ := exists_fuel_eq p
  rw [expression, hfuel, expressionWithin]
  refine bind_congr_at (operandWithin_eq (by omega)) fun first r hfirst => binariesWithin_eq ?_
  have := ahead_of_operand hfirst
  omega

theorem operand_none (h : p.current = none) :
    operand p = .error ⟨.unexpectedEnd, p.endSpan⟩ p := by
  obtain ⟨d, hfuel, hd⟩ := exists_fuel_eq p
  rw [operand, hfuel, operandWithin, window_bind, h]
  rfl

theorem operand_name {text : String} {span : Span} (h : p.current = some ⟨.name text, span⟩) :
    operand p = .ok (.name text span) p.step := by
  obtain ⟨d, hfuel, hd⟩ := exists_fuel_eq p
  rw [operand, hfuel, operandWithin, window_bind, h]
  rfl

theorem operand_number {raw : String} {span : Span} (h : p.current = some ⟨.number raw, span⟩) :
    operand p = .ok (.number raw span) p.step := by
  obtain ⟨d, hfuel, hd⟩ := exists_fuel_eq p
  rw [operand, hfuel, operandWithin, window_bind, h]
  rfl

theorem operand_group {opening : Span} (h : p.current = some ⟨.leftParen, opening⟩) :
    operand p = (do
      let inner ← expression .lowest
      let close ← expectOr .rightParen fun _ => .missingParen
      return .group inner ⟨opening.start, close.stop⟩ : Parse Expr) p.step := by
  obtain ⟨d, hfuel, hd⟩ := exists_fuel_eq p
  have := ahead_step h
  rw [operand, hfuel, operandWithin, window_bind, h]
  simp only [advance_bind]
  exact bind_congr_left (expressionWithin_eq (by omega))

theorem operand_unary {op : UnaryOp} {sign : Span} (h : p.current = some ⟨op.token, sign⟩) :
    operand p = (do
      let operand ← mapError (includeOperator sign) (expression .product)
      return .unary op operand ⟨sign.start, operand.span.stop⟩ : Parse Expr) p.step := by
  obtain ⟨d, hfuel, hd⟩ := exists_fuel_eq p
  have := ahead_step h
  have hunary : unaryWithin (d + 3) p = unaryOperandWithin (d + 2) op sign p.step := by
    rw [unaryWithin, take_bind, h]
    cases op <;> rfl
  have hoperand : operand p = unaryWithin (d + 3) p := by
    rw [operand, hfuel, operandWithin, window_bind, h]
    cases op <;> rfl
  rw [hoperand, hunary, unaryOperandWithin]
  exact bind_congr_left (mapError_congr (expressionWithin_eq (by omega)))

theorem operand_fail (h : p.current = some t) (ht : t.value.startsExpression = false) :
    operand p = .error ⟨.expectedExpression, t.span⟩ p := by
  obtain ⟨d, hfuel, hd⟩ := exists_fuel_eq p
  obtain ⟨value, place⟩ := t
  rw [operand, hfuel, operandWithin, window_bind, h]
  cases value <;> first | rfl | cases ht

theorem currentLevel_of_current (h : p.current = some t) : p.currentLevel = t.value.level := by
  rw [Window.currentLevel, h]

theorem binaries_of_stop (h : ¬ level < p.currentLevel) :
    binaries level left p = .ok left p := by
  obtain ⟨d, hfuel, hd⟩ := exists_fuel_eq p
  rw [binaries, hfuel, binariesWithin, window_bind, if_neg h]
  rfl

theorem binaries_of_operator {op : BinaryOp} {sign : Span} (h : p.current = some ⟨op.token, sign⟩)
    (hlevel : level < op.token.level) :
    binaries level left p = (do
      let right ← expression (rightLevel op)
      binaries level (.binary left op right ⟨left.span.start, right.span.stop⟩)) p.step := by
  obtain ⟨d, hfuel, hd⟩ := exists_fuel_eq p
  have hstep := ahead_step h
  have hlt : level < p.currentLevel := by rwa [currentLevel_of_current h]
  have hbinary : binaryWithin (d + 3) left p = (do
      let right ← expression (rightLevel op)
      return .binary left op right ⟨left.span.start, right.span.stop⟩ : Parse Expr) p.step := by
    rw [binaryWithin, window_bind, h]
    simp only [BinaryOp.ofToken?_eq_some_iff.2 rfl, advance_bind]
    exact bind_congr_left (expressionWithin_eq (by omega))
  rw [binaries, hfuel, binariesWithin, window_bind, if_pos hlt]
  cases hright : expression (rightLevel op) p.step with
  | error e r =>
    rw [bind_of_error hright, bind_of_error (hbinary.trans (bind_of_error hright _))]
  | ok right r =>
    have hjoined := hbinary.trans (bind_of_ok hright _)
    have := ahead_of_expression hright
    rw [bind_of_ok hright, bind_of_ok hjoined]
    exact binariesWithin_eq (by omega)

theorem exists_current_of_lt (h : level < p.currentLevel) : ∃ t, p.current = some t := by
  cases hc : p.current with
  | some t => exact ⟨t, rfl⟩
  | none =>
    rw [Window.currentLevel, hc] at h
    exact absurd h (Nat.not_lt_zero _)

theorem exists_operator_of_lt {t : Token} (h : level < t.level) : ∃ op : BinaryOp, t = op.token := by
  cases hop : BinaryOp.ofToken? t with
  | some op => exact ⟨op, BinaryOp.ofToken?_eq_some_iff.1 hop⟩
  | none => cases t <;> first | exact absurd h (Nat.not_lt_zero _) | cases hop

/-- What an operand can start with. -/
theorem operand_cases (t : Token) :
    (∃ text, t = .name text) ∨ (∃ raw, t = .number raw) ∨ t = .leftParen ∨
      (∃ op : UnaryOp, t = op.token) ∨ t.startsExpression = false := by
  cases t with
  | name text => exact .inl ⟨text, rfl⟩
  | number raw => exact .inr (.inl ⟨raw, rfl⟩)
  | leftParen => exact .inr (.inr (.inl rfl))
  | minus => exact .inr (.inr (.inr (.inl ⟨.negate, rfl⟩)))
  | tilde => exact .inr (.inr (.inr (.inl ⟨.absolute, rfl⟩)))
  | _ => exact .inr (.inr (.inr (.inr rfl)))

/-- What follows from its own truth for all windows with less ahead holds for all windows. -/
theorem ahead_induction {motive : Parser → Prop}
    (h : ∀ p, (∀ r, r.ahead + 1 ≤ p.ahead → motive r) → motive p) (p : Parser) : motive p :=
  (measure ParserOn.ahead).wf.induction p fun p ih => h p fun r hr => ih r hr

/-- What there is to show of the readers of expressions, form by form: `E` of an expression above a
level, `O` of an operand and `B` of the operators behind an expression. -/
structure ExpressionCases (E : Level → Parser → Prop) (O : Parser → Prop)
    (B : Level → Expr → Parser → Prop) : Prop where
  expression {level : Level} {p : Parser} :
    O p → (∀ first q, operand p = .ok first q → B level first q) → E level p
  none {p : Parser} : p.current = none → O p
  name {p : Parser} {text : String} {span : Span} : p.current = some ⟨.name text, span⟩ → O p
  number {p : Parser} {raw : String} {span : Span} : p.current = some ⟨.number raw, span⟩ → O p
  group {p : Parser} {opening : Span} :
    p.current = some ⟨.leftParen, opening⟩ → E .lowest p.step → O p
  unary {p : Parser} {op : UnaryOp} {sign : Span} :
    p.current = some ⟨op.token, sign⟩ → E .product p.step → O p
  other {p : Parser} {t : Located Token} :
    p.current = some t → t.value.startsExpression = false → O p
  stop {level : Level} {left : Expr} {p : Parser} : ¬ level < p.currentLevel → B level left p
  operator {level : Level} {left : Expr} {p : Parser} {op : BinaryOp} {sign : Span} :
    p.current = some ⟨op.token, sign⟩ → level < op.token.level → E (rightLevel op) p.step →
    (∀ right q, CatLang.Parser.expression (rightLevel op) p.step = .ok right q →
      B level (.binary left op right ⟨left.span.start, right.span.stop⟩) q) → B level left p

namespace ExpressionCases
variable {E : Level → Parser → Prop} {O : Parser → Prop} {B : Level → Expr → Parser → Prop}

theorem all (h : ExpressionCases E O B) (p : Parser) :
    (∀ level, E level p) ∧ O p ∧ ∀ level left, B level left p := by
  induction p using ahead_induction with
  | h p ih =>
    have operand : O p := by
      rcases hc : p.current with _ | ⟨value, place⟩
      · exact h.none hc
      have hstep := (ih p.step (ahead_step hc)).1
      rcases operand_cases value with ⟨text, rfl⟩ | ⟨raw, rfl⟩ | rfl | ⟨op, rfl⟩ | hvalue
      · exact h.name hc
      · exact h.number hc
      · exact h.group hc (hstep .lowest)
      · exact h.unary hc (hstep .product)
      · exact h.other hc hvalue
    refine ⟨fun level => h.expression operand fun first q hfirst => ?_, operand,
      fun level left => ?_⟩
    · exact (ih q (ahead_of_operand hfirst)).2.2 level first
    by_cases hlt : level < p.currentLevel
    · obtain ⟨⟨value, sign⟩, hc⟩ := exists_current_of_lt hlt
      rw [currentLevel_of_current hc] at hlt
      obtain ⟨op, rfl⟩ := exists_operator_of_lt hlt
      have hstep := ahead_step hc
      refine h.operator hc hlt ((ih p.step hstep).1 _) fun right q hright => ?_
      have hright := ahead_of_expression hright
      exact (ih q (by omega)).2.2 level _
    · exact h.stop hlt

end ExpressionCases

/-! Statements. -/

/-- As many closed statements as follow one another. -/
def statements : Parse (List Statement) := fun p => statementsWithin p.fuel p

/-- Closed statements up to the end of file. -/
def untilEnd : Parse (List Statement) := fun p => untilEndWithin p.fuel p

theorem statementWithin_eq (h : 4 * p.ahead + 4 ≤ depth) :
    statementWithin depth p = statement p := by
  have := p.ahead_le_fuel
  exact eq_of_settled (y := statementWithin) ((endsWithin _).statement (Nat.le_refl _))
    (fun extra => ((follows_walk extra).mirrors _).statement) h (by omega)

theorem blockWithin_eq (h : 4 * p.ahead + 6 ≤ depth) : blockWithin depth p = block p := by
  have := p.ahead_le_fuel
  exact eq_of_settled (y := blockWithin) ((endsWithin _).block (Nat.le_refl _))
    (fun extra => ((follows_walk extra).mirrors _).block) h (by omega)

theorem statementsWithin_eq (h : 4 * p.ahead + 5 ≤ depth) :
    statementsWithin depth p = statements p := by
  have := p.ahead_le_fuel
  exact eq_of_settled (y := statementsWithin) ((endsWithin _).statements (Nat.le_refl _))
    (fun extra => ((follows_walk extra).mirrors _).statements) h (by omega)

theorem untilEndWithin_eq (h : 4 * p.ahead + 5 ≤ depth) : untilEndWithin depth p = untilEnd p := by
  have := p.ahead_le_fuel
  exact eq_of_settled (y := untilEndWithin) ((endsWithin _).untilEnd (Nat.le_refl _))
    (fun extra => ((follows_walk extra).mirrors _).untilEnd) h (by omega)

theorem ahead_of_expectOr {token : Token} {cause : Token → ParseCause} {span : Span}
    (h : expectOr token cause p = .ok span q) : q.ahead + 1 ≤ p.ahead := by
  obtain ⟨hc, rfl⟩ := expectOr_eq_ok.1 h
  exact ahead_step hc

theorem ahead_of_semicolon {after stop : Nat} (h : semicolon after p = .ok stop q) :
    q.ahead + 1 ≤ p.ahead := by
  obtain ⟨span, hc, -, rfl⟩ := semicolon_eq_ok.1 h
  exact ahead_step hc

theorem ahead_of_block {b : Block} (h : block p = .ok b q) : q.ahead ≤ p.ahead := by
  have := p.ahead_le_fuel
  exact ((endsWithin p.fuel).block (by omega)).ahead_of_ok
    ((follows_walk 0).mirrors p.fuel).block h

theorem ahead_of_statement {s : Statement} (h : statement p = .ok s q) : q.ahead ≤ p.ahead := by
  have := p.ahead_le_fuel
  exact ((endsWithin p.fuel).statement (by omega)).ahead_of_ok
    ((follows_walk 0).mirrors p.fuel).statement h

theorem print_eq (p : Parser) : print p = (do
    let sign ← expect .doubleColon
    let value ← expression .lowest
    return .print value ⟨sign.start, value.span.stop⟩ : Parse Statement) p := by
  obtain ⟨d, hfuel, hd⟩ := exists_fuel_eq p
  rw [print, printWithin]
  refine bind_congr_at rfl fun sign r hsign => bind_congr_left (expressionWithin_eq ?_)
  have := ahead_of_expectOr hsign
  omega

theorem assignment_eq (p : Parser) : assignment p = (do
    let target ← identifier
    let _ ← expect .assign
    let value ← expression .lowest
    return .assign target value ⟨target.span.start, value.span.stop⟩ : Parse Statement) p := by
  obtain ⟨d, hfuel, hd⟩ := exists_fuel_eq p
  rw [assignment, assignmentWithin]
  refine bind_congr_at rfl fun target r htarget => bind_congr_at rfl fun sign r' hsign =>
    bind_congr_left (expressionWithin_eq ?_)
  obtain ⟨hc, rfl⟩ := identifier_eq_ok.1 htarget
  have := ahead_step hc
  have := ahead_of_expectOr hsign
  omega

/-- What may follow the body of a condition. -/
def elseOf (block : Parse Block) (condition : Expr) (body : Block) : Parse Statement := do
  match (← window).current with
  | some ⟨.colon, _⟩ =>
    advance
    let otherwise ← block
    return .branch condition body (some otherwise) ⟨condition.span.start, otherwise.span.stop⟩
  | _ => return .branch condition body none ⟨condition.span.start, body.span.stop⟩

def branchOf (block : Parse Block) : Parse Statement := do
  let condition ← expression .lowest
  let _ ← expectOr .question fun _ => .missingQuestionMark
  let body ← block
  elseOf block condition body

def loopOf (block : Parse Block) : Parse Statement := do
  let sign ← expect .atSign
  let count ← expression .lowest
  let _ ← expectOr .colon fun _ => .missingColon
  let body ← block
  return .loop count body ⟨sign.start, body.span.stop⟩

def blockOf (statements : Parse (List Statement)) : Parse Block := do
  let statements ← statements
  let w ← window
  match statements with
  | [] => fail .emptyBlock w.currentSpan
  | first :: _ => return ⟨statements, first.span.start, w.lastEnd⟩

/-- A statement with its semicolon, and what `rest` reads behind it. -/
def closedOf (statement : Parse Statement) (rest : Parse (List Statement)) :
    Parse (List Statement) := do
  let first ← statement
  let _ ← semicolon first.span.stop
  let rest ← rest
  return first :: rest

section
variable {b : Parse Block} {condition : Expr} {body : Block} {place : Span}

theorem elseOf_colon (h : p.current = some ⟨.colon, place⟩) :
    elseOf b condition body p = (do
      let otherwise ← b
      return .branch condition body (some otherwise)
        ⟨condition.span.start, otherwise.span.stop⟩ : Parse Statement) p.step := by
  rw [elseOf, window_bind, h]
  rfl

theorem elseOf_stop (h : ∀ place, p.current ≠ some ⟨.colon, place⟩) :
    elseOf b condition body p =
      .ok (.branch condition body none ⟨condition.span.start, body.span.stop⟩) p := by
  rw [elseOf, window_bind]
  rcases hc : p.current with _ | ⟨value, place⟩
  · rfl
  cases value with
  | colon => exact absurd hc (h place)
  | _ => rfl

end

theorem branchWithin_eq (h : 4 * p.ahead + 3 ≤ depth) :
    branchWithin depth p = branchOf block p := by
  obtain ⟨depth, rfl⟩ : ∃ d, depth = d + 1 := ⟨depth - 1, by omega⟩
  have hshape : branchWithin (depth + 1) = (do
      let condition ← expressionWithin depth .lowest
      let _ ← expectOr .question fun _ => .missingQuestionMark
      let body ← blockWithin depth
      elseOf (blockWithin depth) condition body : Parse Statement) := by
    rw [branchWithin]
    rfl
  rw [hshape]
  refine bind_congr_at (expressionWithin_eq (by omega)) fun condition r hcond => ?_
  refine bind_congr_at rfl fun mark r' hmark => ?_
  have hcond := ahead_of_expression hcond
  have hmark := ahead_of_expectOr hmark
  refine bind_congr_at (blockWithin_eq (by omega)) fun body u hbody => ?_
  have hbody := ahead_of_block hbody
  by_cases hc : ∃ place, u.current = some ⟨.colon, place⟩
  · obtain ⟨place, hc⟩ := hc
    have hstep := ahead_step hc
    rw [elseOf_colon hc, elseOf_colon hc]
    exact bind_congr_left (blockWithin_eq (by omega))
  · rw [elseOf_stop fun place h => hc ⟨place, h⟩, elseOf_stop fun place h => hc ⟨place, h⟩]

theorem loopWithin_eq (h : 4 * p.ahead + 3 ≤ depth) : loopWithin depth p = loopOf block p := by
  obtain ⟨depth, rfl⟩ : ∃ d, depth = d + 1 := ⟨depth - 1, by omega⟩
  rw [loopWithin, loopOf]
  refine bind_congr_at rfl fun sign r hsign => ?_
  have hsign := ahead_of_expectOr hsign
  refine bind_congr_at (expressionWithin_eq (by omega)) fun count r' hcount => ?_
  refine bind_congr_at rfl fun colon r'' hcolon => ?_
  have hcount := ahead_of_expression hcount
  have hcolon := ahead_of_expectOr hcolon
  exact bind_congr_left (blockWithin_eq (by omega))

theorem printWithin_eq (h : 4 * p.ahead ≤ depth) : printWithin depth p = print p := by
  have := p.ahead_le_fuel
  refine bind_congr_at rfl fun sign r hsign => bind_congr_left ?_
  have := ahead_of_expectOr hsign
  rw [expressionWithin_eq (by omega), expressionWithin_eq (by omega)]

theorem assignmentWithin_eq (h : 4 * p.ahead ≤ depth) :
    assignmentWithin depth p = assignment p := by
  have := p.ahead_le_fuel
  refine bind_congr_at rfl fun target r htarget => bind_congr_at rfl fun sign r' hsign =>
    bind_congr_left ?_
  obtain ⟨hc, rfl⟩ := identifier_eq_ok.1 htarget
  have := ahead_step hc
  have := ahead_of_expectOr hsign
  rw [expressionWithin_eq (by omega), expressionWithin_eq (by omega)]

theorem statement_none (h : p.current = none) :
    statement p = .error ⟨.unexpectedEnd, p.endSpan⟩ p := by
  obtain ⟨d, hfuel, hd⟩ := exists_fuel_eq p
  rw [statement, hfuel, statementWithin, window_bind, h]
  rfl

theorem statement_print {sign : Span} (h : p.current = some ⟨.doubleColon, sign⟩) :
    statement p = print p := by
  obtain ⟨d, hfuel, hd⟩ := exists_fuel_eq p
  rw [statement, hfuel, statementWithin, window_bind]
  simp only [h, ↓reduceIte]
  exact printWithin_eq (by omega)

theorem statement_loop {sign : Span} (h : p.current = some ⟨.atSign, sign⟩) :
    statement p = loopOf block p := by
  obtain ⟨d, hfuel, hd⟩ := exists_fuel_eq p
  rw [statement, hfuel, statementWithin, window_bind]
  simp only [h, reduceCtorEq, ↓reduceIte]
  exact loopWithin_eq (by omega)

theorem statement_assignment {text : String} {place sign : Span}
    (h : p.current = some ⟨.name text, place⟩) (hnext : p.step.current = some ⟨.assign, sign⟩) :
    statement p = assignment p := by
  obtain ⟨d, hfuel, hd⟩ := exists_fuel_eq p
  have hat : p.atAssignment = true := by
    have hnext : p.next = some ⟨.assign, sign⟩ := hnext
    simp only [Window.atAssignment, h, hnext]
  rw [statement, hfuel, statementWithin, window_bind]
  simp only [h, hat, reduceCtorEq, ↓reduceIte]
  exact assignmentWithin_eq (by omega)

theorem statement_branch (h : p.current = some t) (ht : t.value.startsExpression = true)
    (hat : p.atAssignment = false) : statement p = branchOf block p := by
  obtain ⟨d, hfuel, hd⟩ := exists_fuel_eq p
  have hcolons : t.value ≠ .doubleColon := by
    intro h
    rw [h] at ht
    cases ht
  have hsign : t.value ≠ .atSign := by
    intro h
    rw [h] at ht
    cases ht
  rw [statement, hfuel, statementWithin, window_bind]
  simp only [h, hcolons, hsign, hat, ht, Bool.false_eq_true, ↓reduceIte]
  exact branchWithin_eq (by omega)

theorem atAssignment_eq_true (h : p.atAssignment = true) :
    ∃ text place sign, p.current = some ⟨.name text, place⟩ ∧
      p.step.current = some ⟨.assign, sign⟩ := by
  unfold Window.atAssignment at h
  split at h
  · next text place sign hname hassign => exact ⟨text, place, sign, hname, hassign⟩
  · cases h

theorem statement_other (h : p.current = some t) (ht : t.value.startsStatement = false) :
    statement p = .error ⟨.unexpectedToken t.value statementForms, t.span⟩ p := by
  obtain ⟨d, hfuel, hd⟩ := exists_fuel_eq p
  have hat : p.atAssignment = false := by
    refine Bool.eq_false_iff.2 fun hat => ?_
    obtain ⟨text, place, sign, hname, -⟩ := atAssignment_eq_true hat
    rw [h] at hname
    cases hname
    cases ht
  rw [statement, hfuel, statementWithin, window_bind]
  obtain ⟨value, place⟩ := t
  simp only [h, hat]
  cases value <;> first | rfl | cases ht

/-- The forms of a statement, told by its first tokens. -/
theorem statement_cases (p : Parser) :
    p.current = none ∨ (∃ sign, p.current = some ⟨.doubleColon, sign⟩) ∨
    (∃ sign, p.current = some ⟨.atSign, sign⟩) ∨
    (∃ text place sign, p.current = some ⟨.name text, place⟩ ∧
      p.step.current = some ⟨.assign, sign⟩) ∨
    (∃ t, p.current = some t ∧ t.value.startsExpression = true ∧ p.atAssignment = false) ∨
    (∃ t, p.current = some t ∧ t.value.startsStatement = false) := by
  rcases hc : p.current with _ | ⟨value, place⟩
  · exact .inl rfl
  by_cases hcolons : value = .doubleColon
  · exact .inr (.inl ⟨place, by rw [hcolons]⟩)
  by_cases hsign : value = .atSign
  · exact .inr (.inr (.inl ⟨place, by rw [hsign]⟩))
  cases hat : p.atAssignment with
  | true =>
    rw [← hc]
    exact .inr (.inr (.inr (.inl (atAssignment_eq_true hat))))
  | false =>
    cases hstarts : value.startsExpression with
    | true => exact .inr (.inr (.inr (.inr (.inl ⟨_, rfl, hstarts, rfl⟩))))
    | false =>
      refine .inr (.inr (.inr (.inr (.inr ⟨_, rfl, ?_⟩))))
      cases value <;> first | exact absurd rfl hcolons | exact absurd rfl hsign | exact hstarts

theorem block_eq (p : Parser) : block p = blockOf statements p := by
  obtain ⟨d, hfuel, hd⟩ := exists_fuel_eq p
  have := p.ahead_le_fuel
  rw [block, hfuel, blockWithin]
  exact bind_congr_left (statementsWithin_eq (by omega))

theorem closed_congr {rest rest' : Parse (List Statement)} (h : 4 * p.ahead + 4 ≤ depth)
    (hrest : ∀ r, r.ahead + 1 ≤ p.ahead → rest r = rest' r) :
    closedOf (statementWithin depth) rest p = closedOf statement rest' p := by
  refine bind_congr_at (statementWithin_eq h) fun first r hfirst => ?_
  refine bind_congr_at rfl fun stop r' hmark => ?_
  have hfirst := ahead_of_statement hfirst
  have hmark := ahead_of_semicolon hmark
  exact bind_congr_left (hrest r' (by omega))

theorem statements_of_start (h : p.startsStatement = true) :
    statements p = closedOf statement statements p := by
  obtain ⟨d, hfuel, hd⟩ := exists_fuel_eq p
  have := p.ahead_le_fuel
  rw [statements, hfuel, statementsWithin, window_bind, if_pos h]
  exact closed_congr (by omega) fun r hr => statementsWithin_eq (by omega)

theorem statements_of_stop (h : p.startsStatement = false) : statements p = .ok [] p := by
  obtain ⟨d, hfuel, hd⟩ := exists_fuel_eq p
  rw [statements, hfuel, statementsWithin, window_bind, h]
  rfl

theorem untilEnd_none (h : p.current = none) :
    untilEnd p = .error ⟨.unexpectedEnd, p.endSpan⟩ p := by
  obtain ⟨d, hfuel, hd⟩ := exists_fuel_eq p
  rw [untilEnd, hfuel, untilEndWithin, window_bind, h]
  rfl

theorem untilEnd_end {place : Span} (h : p.current = some ⟨.endOfFile, place⟩) :
    untilEnd p = .ok [] p := by
  obtain ⟨d, hfuel, hd⟩ := exists_fuel_eq p
  rw [untilEnd, hfuel, untilEndWithin, window_bind, h]
  rfl

theorem untilEnd_cons (h : p.current = some t) (ht : t.value ≠ .endOfFile) :
    untilEnd p = closedOf statement untilEnd p := by
  obtain ⟨d, hfuel, hd⟩ := exists_fuel_eq p
  have := p.ahead_le_fuel
  have hclosed : untilEndWithin (d + 4) p =
      closedOf (statementWithin (d + 3)) (untilEndWithin (d + 3)) p := by
    rw [untilEndWithin, window_bind, h]
    obtain ⟨value, place⟩ := t
    cases value with
    | endOfFile => exact absurd rfl ht
    | _ => rfl
  rw [untilEnd, hfuel, hclosed]
  exact closed_congr (by omega) fun r hr => untilEndWithin_eq (by omega)

/-- What there is to show of the readers of statements, form by form: `S` of a statement, `B` of a
block and `L` of the statements in it. -/
structure StatementCases (S B L : Parser → Prop) : Prop where
  none {p : Parser} : p.current = none → S p
  print {p : Parser} {sign : Span} : p.current = some ⟨.doubleColon, sign⟩ → S p
  assignment {p : Parser} {text : String} {place sign : Span} :
    p.current = some ⟨.name text, place⟩ → p.step.current = some ⟨.assign, sign⟩ → S p
  loop {p : Parser} {sign : Span} : p.current = some ⟨.atSign, sign⟩ →
    (∀ count r colon, expression .lowest p.step = .ok count r →
      r.current = some ⟨.colon, colon⟩ → B r.step) → S p
  branch {p : Parser} {t : Located Token} : p.current = some t →
    t.value.startsExpression = true → p.atAssignment = false →
    (∀ condition r mark, expression .lowest p = .ok condition r →
      r.current = some ⟨.question, mark⟩ → B r.step) →
    (∀ condition r mark body u colon, expression .lowest p = .ok condition r →
      r.current = some ⟨.question, mark⟩ → CatLang.Parser.block r.step = .ok body u →
      u.current = some ⟨.colon, colon⟩ → B u.step) → S p
  other {p : Parser} {t : Located Token} :
    p.current = some t → t.value.startsStatement = false → S p
  block {p : Parser} : L p → B p
  stop {p : Parser} : p.startsStatement = false → L p
  closed {p : Parser} : p.startsStatement = true → S p →
    (∀ first r mark, statement p = .ok first r → r.current = some ⟨.semicolon, mark⟩ →
      L r.step) → L p

theorem StatementCases.all {S B L : Parser → Prop} (h : StatementCases S B L) (p : Parser) :
    S p ∧ B p ∧ L p := by
  induction p using ahead_induction with
  | h p ih =>
    have statement : S p := by
      rcases statement_cases p with hc | ⟨sign, hc⟩ | ⟨sign, hc⟩ |
        ⟨text, place, sign, hc, hassign⟩ | ⟨t, hc, ht, hat⟩ | ⟨t, hc, ht⟩
      · exact h.none hc
      · exact h.print hc
      · refine h.loop hc fun count r colon hcount hcolon => (ih r.step ?_).2.1
        have hstep := ahead_step hc
        have hcount := ahead_of_expression hcount
        have hcolon := ahead_step hcolon
        omega
      · exact h.assignment hc hassign
      · refine h.branch hc ht hat (fun condition r mark hcond hmark => (ih r.step ?_).2.1)
          fun condition r mark body u colon hcond hmark hbody hcolon => (ih u.step ?_).2.1
        · have hcond := ahead_of_expression hcond
          have hmark := ahead_step hmark
          omega
        · have hcond := ahead_of_expression hcond
          have hmark := ahead_step hmark
          have hbody := ahead_of_block hbody
          have hcolon := ahead_step hcolon
          omega
      · exact h.other hc ht
    have statements : L p := by
      cases hp : p.startsStatement with
      | false => exact h.stop hp
      | true =>
        refine h.closed hp statement fun first r mark hfirst hmark => (ih r.step ?_).2.2
        have hfirst := ahead_of_statement hfirst
        have hmark := ahead_step hmark
        omega
    exact ⟨statement, h.block statements, statements⟩

/-- The same for the statements of a whole program. -/
theorem untilEnd_induction {motive : Parser → Prop} (none : ∀ p, p.current = none → motive p)
    (finish : ∀ p place, p.current = some ⟨.endOfFile, place⟩ → motive p)
    (closed : ∀ p t, p.current = some t → t.value ≠ .endOfFile →
      (∀ first r mark, statement p = .ok first r → r.current = some ⟨.semicolon, mark⟩ →
        motive r.step) → motive p) (p : Parser) : motive p := by
  induction p using ahead_induction with
  | h p ih =>
    rcases hc : p.current with _ | ⟨value, place⟩
    · exact none p hc
    by_cases hvalue : value = .endOfFile
    · subst hvalue
      exact finish p place hc
    · refine closed p _ hc hvalue fun first r mark hfirst hmark => ih r.step ?_
      have hfirst := ahead_of_statement hfirst
      have hmark := ahead_step hmark
      omega

theorem program_eq (p : Parser) : program p = (do
    let statements ← untilEnd
    let start := match statements with
      | [] => 0
      | first :: _ => first.span.start
    return ⟨statements, start, (← window).lastEnd⟩ : Parse Program) p := by
  rw [program, programWithin]
  exact bind_congr_left rfl

end CatLang.Parser
