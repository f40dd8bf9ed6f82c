import CatLang.Proofs.Depth
import CatLang.Proofs.Reading

/-! Reading expressions. Whatever the reader accepts was spelled by the tokens it took and is
grouped by precedence (`expression_sound`); and every grouped expression is read back from its
tokens, if what follows does not bind tighter (`expression_complete`). -/
namespace CatLang

theorem Level.lt_iff {a b : Level} : a < b ↔ a.rank < b.rank := Iff.rfl

theorem Level.le_iff {a b : Level} : a ≤ b ↔ a.rank ≤ b.rank := Iff.rfl

theorem Level.le_power (level : Level) : level ≤ .power := by
  cases level <;> decide

namespace BinaryOp
open CatLang.Parser (rightLevel)

theorem lowest_lt (op : BinaryOp) : Level.lowest < op.token.level := by
  cases op <;> decide

theorem rightLevel_le (op : BinaryOp) : rightLevel op ≤ op.token.level := by
  cases op <;> decide

theorem rightLevel_le_product (op : BinaryOp) : rightLevel op ≤ Level.product := by
  cases op <;> decide

/-- Between the level an operator has to exceed on the right and its own there is no other. -/
theorem le_rightLevel {level : Level} {op : BinaryOp} (h : level < op.token.level)
    (hp : level ≤ Level.product) : level ≤ rightLevel op := by
  rw [Level.lt_iff] at h
  rw [Level.le_iff] at hp ⊢
  cases op <;> simp only [rightLevel, token, Token.level, Level.rank] at * <;> omega

end BinaryOp

namespace Expr
open CatLang.Parser (rightLevel)

theorem ReadFrom.length_pos {e : Expr} {ts : List (Located Token)} (h : e.ReadFrom ts) :
    0 < ts.length := by
  cases h <;> simp only [List.length_append, List.length_cons] <;> omega

theorem above_of_operator?_eq_none {e : Expr} (h : e.operator? = none) (level : Level) :
    e.Above level := by
  intro op hop
  rw [h] at hop
  cases hop

theorem above_of_operator?_eq_some {e : Expr} {op : BinaryOp} {level : Level}
    (h : e.operator? = some op) (hlevel : level < op.token.level) : e.Above level := by
  intro op' hop
  rw [h] at hop
  cases hop
  exact hlevel

/-- What follows an expression may not bind tighter than this, or it would belong to it. -/
def edge : Expr → Level
  | name _ _ | number _ _ | group _ _ => .power
  | unary _ _ _ => .product
  | binary _ op _ _ => rightLevel op

theorem isPrimary_of_power_le_edge {e : Expr} (h : Level.power ≤ e.edge) : e.IsPrimary := by
  cases e with
  | name text span => trivial
  | number raw span => trivial
  | unary op operand span => exact absurd (show Level.power ≤ .product from h) (by decide)
  | binary left op right span =>
    have hr := op.rightLevel_le_product
    simp only [edge, Level.le_iff, Level.rank] at h hr
    omega
  | group inner span => trivial

theorem atLeast_of_le_edge {e : Expr} {level : Level} (h : level ≤ e.edge) : e.AtLeast level := by
  intro op hop
  cases e with
  | binary left op' right span =>
    cases hop
    have hr := op.rightLevel_le
    simp only [edge, Level.le_iff] at h hr ⊢
    omega
  | _ => cases hop

/-- An operator groups what stands before it with what was read behind it. -/
theorem grouped_binary {left right : Expr} {op : BinaryOp} {span : Span} (hl : left.Grouped)
    (hr : right.Grouped) (hedge : op.token.level ≤ left.edge)
    (hright : right.Above (rightLevel op)) : (binary left op right span).Grouped := by
  cases op with
  | power => exact ⟨⟨isPrimary_of_power_le_edge hedge, hright⟩, hl, hr⟩
  | _ => exact ⟨⟨atLeast_of_le_edge hedge, hright⟩, hl, hr⟩

theorem le_edge_of_isPrimary {e : Expr} (h : e.IsPrimary) (level : Level) : level ≤ e.edge := by
  cases e with
  | unary op operand span => exact h.elim
  | binary left op right span => exact h.elim
  | _ => exact level.le_power

theorem le_edge_of_atLeast {e : Expr} {op : BinaryOp} (h : e.AtLeast op.token.level)
    (hop : op ≠ .power) : op.token.level ≤ e.edge := by
  have hproduct : op.token.level ≤ Level.product := by
    cases op <;> first | decide | exact absurd rfl hop
  cases e with
  | unary op' operand span => exact hproduct
  | binary left op' right span =>
    have hle := h op' rfl
    by_cases hop' : op' = .power
    · subst hop'
      exact hproduct
    · have : rightLevel op' = op'.token.level := by
        cases op' <;> first | rfl | exact absurd rfl hop'
      simpa only [edge, this] using hle
  | _ => exact op.token.level.le_power

/-- The parts of a grouped expression around an operator: the left one ends where the operator
stands, and the right one binds tighter than the operator asks for. -/
theorem Grouped.binary_parts {left right : Expr} {op : BinaryOp} {span : Span}
    (h : (binary left op right span).Grouped) :
    left.Grouped ∧ right.Grouped ∧ op.token.level ≤ left.edge ∧ right.Above (rightLevel op) := by
  by_cases hop : op = .power
  · subst hop
    obtain ⟨⟨hprimary, habove⟩, hl, hr⟩ := h
    exact ⟨hl, hr, le_edge_of_isPrimary hprimary _, habove⟩
  · cases op with
    | power => exact absurd rfl hop
    | _ =>
      obtain ⟨⟨hleast, habove⟩, hl, hr⟩ := h
      exact ⟨hl, hr, le_edge_of_atLeast hleast hop, habove⟩

/-- What ends a run of operators above a level ends the last of them too. -/
theorem le_edge_of_above {e : Expr} {level : Level} (h : e.Above level)
    (hp : level ≤ Level.product) : level ≤ e.edge := by
  cases e with
  | unary op operand span => exact hp
  | binary left op right span => exact BinaryOp.le_rightLevel (h op rfl) hp
  | _ => exact level.le_power

/-- Operators further down on the left bind at least as tightly as the root. -/
theorem Grouped.above_left {left right : Expr} {op : BinaryOp} {span : Span} {level : Level}
    (h : (binary left op right span).Grouped) (habove : (binary left op right span).Above level) :
    left.Above level := by
  obtain ⟨-, -, hedge, -⟩ := h.binary_parts
  have hop := habove op rfl
  intro op' hop'
  have hle := atLeast_of_le_edge hedge op' hop'
  rw [Level.lt_iff] at hop ⊢
  rw [Level.le_iff] at hle
  omega

end Expr

namespace Parser
variable {level : Level} {p q : Parser} {e left : Expr}

/-- Between two windows lie the tokens of a grouped expression, and it ends there. -/
structure Reads (p : Parser) (ts : List (Located Token)) (q : Parser) (e : Expr) : Prop where
  passes : Passes p ts q
  readFrom : e.ReadFrom ts
  grouped : e.Grouped
  edge : q.currentLevel ≤ e.edge

theorem Reads.unary {ts : List (Located Token)} {op : UnaryOp} {sign : Span}
    (hc : p.current = some ⟨op.token, sign⟩) (h : Reads p.step ts q e) (habove : e.Above .product)
    (hstop : q.currentLevel ≤ Level.product) :
    Reads p (⟨op.token, sign⟩ :: ts) q (.unary op e ⟨sign.start, e.span.stop⟩) where
  passes := .cons hc h.passes
  readFrom := .unary h.readFrom
  grouped := ⟨habove, h.grouped⟩
  edge := hstop

theorem Reads.group {ts : List (Located Token)} {opening closing : Span}
    (hopen : p.current = some ⟨.leftParen, opening⟩) (h : Reads p.step ts q e)
    (hclose : q.current = some ⟨.rightParen, closing⟩) :
    Reads p (⟨.leftParen, opening⟩ :: (ts ++ [⟨.rightParen, closing⟩])) q.step
      (.group e ⟨opening.start, closing.stop⟩) where
  passes := .cons hopen (h.passes.append (.single hclose))
  readFrom := .group h.readFrom
  grouped := h.grouped
  edge := Level.le_power _

theorem Reads.binary {o : Parser} {ts us : List (Located Token)} {right : Expr} {op : BinaryOp}
    {sign : Span} (hl : Reads o ts p left) (hc : p.current = some ⟨op.token, sign⟩)
    (hr : Reads p.step us q right) (habove : right.Above (rightLevel op))
    (hstop : q.currentLevel ≤ rightLevel op) :
    Reads o (ts ++ ⟨op.token, sign⟩ :: us) q
      (.binary left op right ⟨left.span.start, right.span.stop⟩) where
  passes := hl.passes.append (.cons hc hr.passes)
  readFrom := .binary hl.readFrom hr.readFrom
  grouped := by
    have hedge : op.token.level ≤ left.edge := currentLevel_of_current hc ▸ hl.edge
    exact Expr.grouped_binary hl.grouped hr.grouped hedge habove
  edge := hstop

/-- What a reader accepts is grouped and was spelled by the tokens it took. Behind an expression that
is spelled already, the tokens of the operators are added to its own. -/
theorem sound : ExpressionCases
    (fun level p => ∀ e q, expression level p = .ok e q →
      ∃ ts, Reads p ts q e ∧ e.Above level ∧ q.currentLevel ≤ level)
    (fun p => ∀ e q, operand p = .ok e q → ∃ ts, Reads p ts q e ∧ e.operator? = none)
    (fun level left p => ∀ o ts e q, Reads o ts p left → left.Above level →
      binaries level left p = .ok e q →
      ∃ us, Reads o us q e ∧ e.Above level ∧ q.currentLevel ≤ level) where
  expression {level p} hoperand hbinaries := by
    intro e q h
    rw [expression_eq, bind_eq_ok] at h
    obtain ⟨first, r, hfirst, h⟩ := h
    obtain ⟨ts, hreads, hop⟩ := hoperand first r hfirst
    have habove := Expr.above_of_operator?_eq_none hop level
    exact hbinaries first r hfirst p ts e q hreads habove h
  none hc := by
    intro e q h
    rw [operand_none hc] at h
    cases h
  name hc := by
    intro e q h
    rw [operand_name hc] at h
    cases h
    exact ⟨_, ⟨.single hc, .name, trivial, Level.le_power _⟩, rfl⟩
  number hc := by
    intro e q h
    rw [operand_number hc] at h
    cases h
    exact ⟨_, ⟨.single hc, .number, trivial, Level.le_power _⟩, rfl⟩
  group hc hinner := by
    intro e q h
    simp only [operand_group hc, bind_eq_ok, expectOr_eq_ok] at h
    obtain ⟨inner, r, hr, close, _, ⟨hclose, rfl⟩, h⟩ := h
    cases h
    obtain ⟨ts, hreads, -, -⟩ := hinner inner r hr
    exact ⟨_, hreads.group hc hclose, rfl⟩
  unary hc hoperand := by
    intro e q h
    rw [operand_unary hc, bind_eq_ok] at h
    obtain ⟨operand, r, hr, h⟩ := h
    cases h
    obtain ⟨ts, hreads, habove, hstop⟩ := hoperand operand q (mapError_eq_ok.1 hr)
    exact ⟨_, hreads.unary hc habove hstop, rfl⟩
  other hc ht := by
    intro e q h
    rw [operand_fail hc ht] at h
    cases h
  stop hstop := by
    intro o ts e q hreads habove h
    rw [binaries_of_stop hstop] at h
    cases h
    exact ⟨ts, hreads, habove, Nat.le_of_not_lt hstop⟩
  operator {level left p op sign} hc hlevel hright hrest := by
    intro o ts e q hreads habove h
    rw [binaries_of_operator hc hlevel, bind_eq_ok] at h
    obtain ⟨right, r, hr, h⟩ := h
    obtain ⟨us, hus, haboveRight, hstop⟩ := hright right r hr
    have hjoined := hreads.binary hc hus haboveRight hstop
    exact hrest right r hr o _ e q hjoined (Expr.above_of_operator?_eq_some rfl hlevel) h

theorem expression_sound (h : expression level p = .ok e q) :
    ∃ ts, Reads p ts q e ∧ e.Above level ∧ q.currentLevel ≤ level :=
  (sound.all p).1 level e q h

theorem binaries_of_le (hstop : p.currentLevel ≤ level) : binaries level left p = .ok left p :=
  binaries_of_stop (Nat.not_lt.2 hstop)

theorem expression_of_operand {first : Expr} {r : Parser} (h : operand p = .ok first r) :
    expression level p = binaries level first r := by
  rw [expression_eq, bind_of_ok h]

/-- The tokens of a grouped expression bring the reader to where it looks for a further operator,
with that expression in hand. -/
theorem expression_eq_binaries {ts : List (Located Token)} (h : e.ReadFrom ts) :
    ∀ {level p q}, Passes p ts q → e.Grouped → e.Above level → q.currentLevel ≤ e.edge →
      expression level p = binaries level e q := by
  -- Induction on the reading. A binary node is reached from its left operand in the loop of the
  -- same call, so the statement leaves the call at the loop and not at its result.
  induction h with
  | name =>
    intro level p q hp _ _ _
    obtain ⟨hc, hp⟩ := Passes.cons_iff.1 hp
    cases hp
    exact expression_of_operand (operand_name hc)
  | number =>
    intro level p q hp _ _ _
    obtain ⟨hc, hp⟩ := Passes.cons_iff.1 hp
    cases hp
    exact expression_of_operand (operand_number hc)
  | @unary op operand sign ts hread ih =>
    intro level p q hp hg _ hstop
    obtain ⟨hc, hp⟩ := Passes.cons_iff.1 hp
    obtain ⟨habove, hg⟩ := hg
    have hedge : q.currentLevel ≤ operand.edge :=
      Nat.le_trans hstop (Expr.le_edge_of_above habove (Nat.le_refl _))
    have hoperand := (ih hp hg habove hedge).trans (binaries_of_le hstop)
    apply expression_of_operand
    rw [operand_unary hc, bind_of_ok (mapError_eq_ok.2 hoperand)]
    rfl
  | @binary left right op sign ts us hl hr ihl ihr =>
    intro level p q hp hg habove hstop
    obtain ⟨r, hpl, hpr⟩ := Passes.append_iff.1 hp
    obtain ⟨hc, hpr⟩ := Passes.cons_iff.1 hpr
    obtain ⟨hgl, hgr, hedgel, hright⟩ := hg.binary_parts
    have hlevel := currentLevel_of_current hc
    have hleft := ihl hpl hgl (hg.above_left habove) (hlevel ▸ hedgel)
    have hedger : q.currentLevel ≤ right.edge :=
      Nat.le_trans hstop (Expr.le_edge_of_above hright op.rightLevel_le_product)
    have hoperand := (ihr hpr hgr hright hedger).trans (binaries_of_le hstop)
    rw [hleft, binaries_of_operator hc (habove op rfl), bind_of_ok hoperand]
  | @group inner opening closing ts hread ih =>
    intro level p q hp hg _ _
    obtain ⟨hopen, hp⟩ := Passes.cons_iff.1 hp
    obtain ⟨r, hpr, hrq⟩ := Passes.append_iff.1 hp
    obtain ⟨hclose, hq⟩ := Passes.cons_iff.1 hrq
    cases hq
    have hlevel : r.currentLevel = .lowest := currentLevel_of_current hclose
    have hstop : r.currentLevel ≤ Level.lowest := hlevel ▸ Nat.le_refl _
    have hedge : r.currentLevel ≤ inner.edge := hlevel ▸ Nat.zero_le _
    have hinner := (ih hpr hg (fun op _ => op.lowest_lt) hedge).trans (binaries_of_le hstop)
    apply expression_of_operand
    rw [operand_group hopen, bind_of_ok hinner, bind_of_ok (expectOr_eq_ok.2 ⟨hclose, rfl⟩)]
    rfl

/-- A grouped expression is read back from its tokens if what follows does not bind tighter. -/
theorem expression_complete {ts : List (Located Token)} (h : e.ReadFrom ts) (hg : e.Grouped)
    (hp : Passes p ts q) (hstop : q.currentLevel ≤ Level.lowest) :
    expression .lowest p = .ok e q := by
  have hedge : q.currentLevel ≤ e.edge := Nat.le_trans hstop (Nat.zero_le _)
  rw [expression_eq_binaries h hp hg (fun op _ => op.lowest_lt) hedge, binaries_of_le hstop]

end Parser

end CatLang
