import CatLang.Proofs.SyntaxErrors

/-! Where an expression ends. Reading above a lower level goes on from where reading above a higher
one stops (`expression_eq_bind`), so the one takes the tokens of the other first. -/
namespace CatLang

/-- The infix operators on the way from the root to the leftmost operand. -/
def Expr.leftOperators : Expr → List BinaryOp
  | binary left op _ _ => op :: left.leftOperators
  | name _ _ | number _ _ | unary _ _ _ | group _ _ => []

/-- Going down to the left, no operator of a grouped expression binds looser than the root. -/
theorem Expr.Grouped.lt_of_mem_leftOperators {e : Expr} {level : Level} {op : BinaryOp}
    (h : e.Grouped) (habove : e.Above level) (hop : op ∈ e.leftOperators) :
    level < op.token.level := by
  induction e with
  | binary left root right span ih _ =>
    rcases List.mem_cons.1 hop with rfl | hop
    · exact habove op rfl
    · exact ih h.binary_parts.1 (h.above_left habove) hop
  | _ => cases hop

namespace Parser
variable {p q q' : Parser} {e e' left : Expr} {level lower higher : Level}

/-- What follows a reader cannot tell from which window that reader started. -/
theorem bind_eq_bind {α β : Type} {x y : Parse α} (h : x p = y q) (f : α → Parse β) :
    (x >>= f) p = (y >>= f) q := by
  cases hy : y q with
  | ok a r => rw [bind_of_ok (h.trans hy), bind_of_ok hy]
  | error e r => rw [bind_of_error (h.trans hy), bind_of_error hy]

/-- The operators above a lower level are those above a higher one and what then follows. -/
theorem binaries_split : ExpressionCases (fun _ _ => True) (fun _ => True)
    fun higher left p => ∀ lower, lower ≤ higher →
      binaries lower left p = (binaries higher left >>= binaries lower) p where
  expression _ _ := trivial
  none _ := trivial
  name _ := trivial
  number _ := trivial
  group _ _ := trivial
  unary _ _ := trivial
  other _ _ := trivial
  stop hstop lower _ := by rw [bind_of_ok (binaries_of_stop hstop)]
  operator {higher left p op sign} hc hlevel _ hrest lower hle := by
    have hlower := @binaries_of_operator lower p left op sign hc (Nat.lt_of_le_of_lt hle hlevel)
    have hhigher := @binaries_of_operator higher p left op sign hc hlevel
    cases hright : expression (rightLevel op) p.step with
    | error e r =>
      rw [bind_of_error hright] at hlower hhigher
      rw [hlower, bind_of_error hhigher]
    | ok right r =>
      rw [bind_of_ok hright] at hlower hhigher
      -- Both loops have joined the same operator and go on from the same window.
      rw [hlower, hrest right r hright lower hle, bind_eq_bind hhigher]

theorem expression_eq_bind (h : lower ≤ higher) (p : Parser) :
    expression lower p = (expression higher >>= binaries lower) p := by
  have hhigher := expression_eq higher p
  rw [expression_eq]
  cases hfirst : operand p with
  | error e r =>
    rw [bind_of_error hfirst] at hhigher ⊢
    rw [bind_of_error hhigher]
  | ok first r =>
    rw [bind_of_ok hfirst] at hhigher ⊢
    rw [bind_eq_bind hhigher, (binaries_split.all r).2.2 higher first lower h]

/-- What is read above a higher level is the beginning of what is read above a lower one. -/
theorem Passes.exists_beginning {ts : List (Located Token)} (hp : Passes p ts q)
    (h : lower ≤ higher) (hlower : expression lower p = .ok e q)
    (hhigher : expression higher p = .ok e' q') : ∃ us, Passes p us q' ∧ us <+: ts := by
  obtain ⟨us, hus, -, -⟩ := expression_sound hhigher
  rw [expression_eq_bind h, bind_of_ok hhigher] at hlower
  obtain ⟨vs, hvs⟩ := (local_expressions.all q').2.2 lower e'
  have hpasses := hvs.passes
  rw [hlower] at hpasses
  have heq : us ++ vs = ts := (hus.passes.append hpasses).eq_of_same hp
  exact ⟨us, hus.passes, vs, heq⟩

/-- A reader that accepts an expression above a level has taken just the tokens of that expression.
All operators down its left side are above the level, and the token ahead is not. With a higher
level it stops there or before. -/
theorem expression_stops_at_level (h : expression level p = .ok e q) :
    ∃ ts, Passes p ts q ∧ valuesOf ts = e.tokens ∧
      (∀ op ∈ e.leftOperators, level < op.token.level) ∧ q.currentLevel ≤ level ∧
      ∀ higher e' q', level < higher → expression higher p = .ok e' q' →
        ∃ us, Passes p us q' ∧ us <+: ts := by
  obtain ⟨ts, hr, habove, hstop⟩ := expression_sound h
  refine ⟨ts, hr.passes, hr.readFrom.tokens_eq, ?_, hstop, ?_⟩
  · intro op hop
    exact hr.grouped.lt_of_mem_leftOperators habove hop
  · intro higher e' q' hlt hhigher
    exact hr.passes.exists_beginning (Nat.le_of_lt hlt) h hhigher

/-- From the same place `a ** b * c` is read above sums, and `a ** b` above products. -/
theorem expression_stops_at_level_power :
    let p := ofResults (results "a ** b * c + d;")
    let product : Expr := .binary (.name "a" ⟨0, 1⟩) .power (.name "b" ⟨5, 6⟩) ⟨0, 6⟩
    let sum : Expr := .binary product .multiply (.name "c" ⟨9, 10⟩) ⟨0, 10⟩
    expression .sum p = .ok sum p.step.step.step.step.step ∧
      expression .product p = .ok product p.step.step.step ∧
      ∃ ts us, Passes p ts p.step.step.step.step.step ∧
        valuesOf ts = [.name "a", .power, .name "b", .star, .name "c"] ∧
        (∀ op ∈ [BinaryOp.multiply, .power], Level.sum < op.token.level) ∧
        p.step.step.step.step.step.currentLevel ≤ Level.sum ∧
        Passes p us p.step.step.step ∧ us <+: ts := by
  intro p product sum
  have hsum : expression .sum p = .ok sum p.step.step.step.step.step := by cbv
  have hproduct : expression .product p = .ok product p.step.step.step := by cbv
  obtain ⟨ts, hts, hvalues, hlevels, hstop, hhigher⟩ := expression_stops_at_level hsum
  obtain ⟨us, hus, hprefix⟩ := hhigher .product product _ (by decide) hproduct
  exact ⟨hsum, hproduct, ts, us, hts, hvalues, hlevels, hstop, hus, hprefix⟩

end Parser

end CatLang
