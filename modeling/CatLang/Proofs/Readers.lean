import CatLang.Parser.Program

/-! One induction over all readers. A reader does nothing with its state but look at the window,
move it on and fail, so a relation between two kinds of state that these keep is kept by every
reader (`Follows.mirrors`). One of the two may be given up on the way, when it has lost what the
other still has. -/
namespace CatLang

/-- Two windows that no reader can tell apart. The token after the current one counts only where it
makes an assignment of a name. -/
structure Window.Agrees (w w' : Window) : Prop where
  current : w'.current = w.current
  lastEnd : w'.lastEnd = w.lastEnd
  atAssignment : w'.atAssignment = w.atAssignment

namespace Window.Agrees
variable {w w' : Window}

theorem refl (w : Window) : w.Agrees w := ⟨rfl, rfl, rfl⟩

theorem endSpan (h : w.Agrees w') : w'.endSpan = w.endSpan :=
  congrArg Span.point h.lastEnd

theorem currentSpan (h : w.Agrees w') : w'.currentSpan = w.currentSpan := by
  rw [Window.currentSpan, Window.currentSpan, h.current, h.endSpan]

theorem currentLevel (h : w.Agrees w') : w'.currentLevel = w.currentLevel := by
  rw [Window.currentLevel, Window.currentLevel, h.current]

theorem startsStatement (h : w.Agrees w') : w'.startsStatement = w.startsStatement := by
  rw [Window.startsStatement, Window.startsStatement, h.current]

end Window.Agrees

namespace Parser

/-- The state that a reader leaves. -/
def windowOf {S α : Type} : EStateM.Result ParseError S α → S
  | .ok _ s => s
  | .error _ s => s

variable {S T α β : Type} {Q : S → T → Prop} {Lost : S → Prop} {extra : Nat}

/-- From states of a pair both readers give the same answer and leave states of a pair, unless the
first of them is lost. -/
structure Mirrors (Q : S → T → Prop) (Lost : S → Prop) (x : ReadOn S α) (y : ReadOn T α) :
    Prop where
  lost {s : S} (h : Lost s) : Lost (windowOf (x s))
  same {s : S} {t : T} (h : Q s t) (hs : ¬ Lost (windowOf (x s))) :
    answerOf (y t) = answerOf (x s) ∧ Q (windowOf (x s)) (windowOf (y t))

namespace Mirrors
variable {x : ReadOn S α} {y : ReadOn T α}

theorem pure (a : α) : Mirrors Q Lost (pure a) (pure a) := ⟨id, fun h _ => ⟨rfl, h⟩⟩

theorem fail (cause : ParseCause) (span : Span) :
    Mirrors Q Lost (fail cause span : ReadOn S α) (fail cause span) :=
  ⟨id, fun h _ => ⟨rfl, h⟩⟩

theorem bind {f : α → ReadOn S β} {g : α → ReadOn T β} (hx : Mirrors Q Lost x y)
    (hf : ∀ a, Mirrors Q Lost (f a) (g a)) : Mirrors Q Lost (x >>= f) (y >>= g) := by
  have hrun (s : S) : (x >>= f) s = EStateM.bind x f s := rfl
  have hrun' (t : T) : (y >>= g) t = EStateM.bind y g t := rfl
  constructor
  · intro s h
    have hlost := hx.lost h
    rw [hrun, EStateM.bind]
    cases hs : x s with
    | ok a r =>
      rw [hs] at hlost
      exact (hf a).lost hlost
    | error e r =>
      rw [hs] at hlost
      exact hlost
  · intro s t h hs
    rw [hrun, EStateM.bind] at hs ⊢
    rw [hrun', EStateM.bind]
    have hsame := hx.same h
    cases hxs : x s with
    | ok a r =>
      rw [hxs] at hs hsame
      obtain ⟨hanswer, hstate⟩ := hsame fun hlost => hs ((hf a).lost hlost)
      cases hyt : y t with
      | ok b u =>
        rw [hyt] at hanswer hstate
        cases hanswer
        exact (hf a).same hstate hs
      | error e u =>
        rw [hyt] at hanswer
        cases hanswer
    | error e r =>
      rw [hxs] at hs hsame
      obtain ⟨hanswer, hstate⟩ := hsame hs
      cases hyt : y t with
      | ok b u =>
        rw [hyt] at hanswer
        cases hanswer
      | error e' u =>
        rw [hyt] at hanswer hstate
        cases hanswer
        exact ⟨rfl, hstate⟩

theorem mapError (change : ParseError → ParseError) (h : Mirrors Q Lost x y) :
    Mirrors Q Lost (mapError change x) (mapError change y) := by
  constructor
  · intro s hs
    have hlost := h.lost hs
    unfold Parser.mapError
    cases hx : x s <;> rwa [hx] at hlost
  · intro s t hst hs
    unfold Parser.mapError at hs ⊢
    have hsame := h.same hst
    cases hx : x s <;> rw [hx] at hs hsame <;> obtain ⟨hanswer, hstate⟩ := hsame hs <;>
      cases hy : y t <;> rw [hy] at hanswer hstate <;> cases hanswer <;> exact ⟨rfl, hstate⟩

end Mirrors

variable [Reading S] [Reading T]

/-- States of the second kind follow those of the first kind as long as these are not lost. The
readers of the second kind may nest their calls `extra` times deeper. -/
structure Follows (extra : Nat) (Q : S → T → Prop) (Lost : S → Prop) : Prop where
  window {s : S} {t : T} (h : Q s t) (hs : ¬ Lost s) : (Reading.window s).Agrees (Reading.window t)
  step {s : S} {t : T} (h : Q s t) (hs : ¬ Lost (Reading.step s)) :
    Q (Reading.step s) (Reading.step t)
  overrun {s : S} {t : T} (h : Q s t) (hs : ¬ Lost (Reading.overrun s)) :
    extra = 0 ∧ Q (Reading.overrun s) (Reading.overrun t)
  lost_step {s : S} (h : Lost s) : Lost (Reading.step s)
  lost_overrun {s : S} (h : Lost s) : Lost (Reading.overrun s)

namespace Follows
variable (hq : Follows extra Q Lost)
include hq

theorem look {f : Window → ReadOn S α} {g : Window → ReadOn T α}
    (h : ∀ w w', w.Agrees w' → Mirrors Q Lost (f w) (g w')) :
    Mirrors Q Lost (Parser.window >>= f) (Parser.window >>= g) := by
  have hrun (s : S) : (Parser.window >>= f) s = f (Reading.window s) s := rfl
  have hrun' (t : T) : (Parser.window >>= g) t = g (Reading.window t) t := rfl
  constructor
  · intro s hs
    rw [hrun]
    exact (h _ _ (.refl _)).lost hs
  · intro s t hst hs
    rw [hrun] at hs ⊢
    rw [hrun']
    have hwindow := hq.window hst fun hlost => hs ((h _ _ (.refl _)).lost hlost)
    exact (h _ _ hwindow).same hst hs

theorem advance : Mirrors Q Lost (advance : ReadOn S Unit) (advance : ReadOn T Unit) :=
  ⟨hq.lost_step, fun hst hs => ⟨rfl, hq.step hst hs⟩⟩

theorem tooDeep {y : ReadOn T α} (hy : extra = 0 → y = tooDeep) :
    Mirrors Q Lost (tooDeep : ReadOn S α) y := by
  refine ⟨hq.lost_overrun, fun {s t} hst hs => ?_⟩
  obtain ⟨hextra, hoverrun⟩ := hq.overrun hst hs
  rw [hy hextra]
  refine ⟨?_, hoverrun⟩
  have hwindow := hq.window hst fun hlost => hs (hq.lost_overrun hlost)
  have hfail : (.error ⟨.unexpectedEnd, (Reading.window t).endSpan⟩ : Except ParseError α) =
      .error ⟨.unexpectedEnd, (Reading.window s).endSpan⟩ := by rw [hwindow.endSpan]
  exact hfail

theorem failAtEnd : Mirrors Q Lost (failAtEnd : ReadOn S α) (failAtEnd : ReadOn T α) :=
  hq.look fun w w' hw => by
    rw [hw.endSpan]
    exact .fail _ _

theorem step_then {x : ReadOn S α} {y : ReadOn T α} (h : Mirrors Q Lost x y) :
    Mirrors Q Lost (Parser.advance >>= fun _ => x) (Parser.advance >>= fun _ => y) :=
  hq.advance.bind fun _ => h

theorem accept (make : Located Token → Except ParseError α) :
    Mirrors Q Lost (accept make : ReadOn S α) (accept make : ReadOn T α) := by
  refine hq.look fun w w' hw => ?_
  rw [hw.current]
  cases w.current with
  | none => exact hq.failAtEnd
  | some found =>
    simp only
    cases make found with
    | ok a => exact hq.step_then (.pure a)
    | error e => exact .fail _ _

theorem take : Mirrors Q Lost (take : ReadOn S (Option (Located Token)))
    (take : ReadOn T (Option (Located Token))) :=
  hq.look fun w w' hw => by
    simp only [hw.current]
    exact hq.step_then (.pure w.current)

end Follows

/-- What holds of all readers at one depth. -/
structure MirrorsAt (Q : S → T → Prop) (Lost : S → Prop) (depth depth' : Nat) : Prop where
  expression (level : Level) :
    Mirrors Q Lost (expressionWithin depth level) (expressionWithin depth' level)
  operand : Mirrors Q Lost (operandWithin depth) (operandWithin depth')
  unary : Mirrors Q Lost (unaryWithin depth) (unaryWithin depth')
  unaryOperand (op : UnaryOp) (sign : Span) :
    Mirrors Q Lost (unaryOperandWithin depth op sign) (unaryOperandWithin depth' op sign)
  binaries (level : Level) (left : Expr) :
    Mirrors Q Lost (binariesWithin depth level left) (binariesWithin depth' level left)
  binary (left : Expr) : Mirrors Q Lost (binaryWithin depth left) (binaryWithin depth' left)
  statement : Mirrors Q Lost (statementWithin depth) (statementWithin depth')
  branch : Mirrors Q Lost (branchWithin depth) (branchWithin depth')
  loop : Mirrors Q Lost (loopWithin depth) (loopWithin depth')
  block : Mirrors Q Lost (blockWithin depth) (blockWithin depth')
  statements : Mirrors Q Lost (statementsWithin depth) (statementsWithin depth')
  untilEnd : Mirrors Q Lost (untilEndWithin depth) (untilEndWithin depth')

theorem Follows.mirrors_zero (hq : Follows extra Q Lost) : MirrorsAt Q Lost 0 extra where
  expression level := hq.tooDeep fun h => by rw [h]; rfl
  operand := hq.tooDeep fun h => by rw [h]; rfl
  unary := hq.tooDeep fun h => by rw [h]; rfl
  unaryOperand op sign := hq.tooDeep fun h => by rw [h]; rfl
  binaries level left := hq.tooDeep fun h => by rw [h]; rfl
  binary left := hq.tooDeep fun h => by rw [h]; rfl
  statement := hq.tooDeep fun h => by rw [h]; rfl
  branch := hq.tooDeep fun h => by rw [h]; rfl
  loop := hq.tooDeep fun h => by rw [h]; rfl
  block := hq.tooDeep fun h => by rw [h]; rfl
  statements := hq.tooDeep fun h => by rw [h]; rfl
  untilEnd := hq.tooDeep fun h => by rw [h]; rfl

namespace MirrorsAt
variable {depth depth' : Nat} (hq : Follows extra Q Lost) (ih : MirrorsAt Q Lost depth depth')
include hq ih

theorem operand_succ : Mirrors Q Lost (operandWithin (depth + 1)) (operandWithin (depth' + 1)) := by
  rw [operandWithin, operandWithin]
  refine hq.look fun w w' hw => ?_
  rw [hw.current]
  rcases w.current with _ | ⟨value, place⟩
  · exact hq.failAtEnd
  cases value with
  | name text => exact hq.step_then (.pure _)
  | number raw => exact hq.step_then (.pure _)
  | leftParen =>
    exact hq.step_then ((ih.expression .lowest).bind fun _ => (hq.accept _).bind fun _ => .pure _)
  | minus => exact ih.unary
  | tilde => exact ih.unary
  | _ => exact .fail _ _

theorem unary_succ : Mirrors Q Lost (unaryWithin (depth + 1)) (unaryWithin (depth' + 1)) := by
  rw [unaryWithin, unaryWithin]
  refine hq.take.bind fun found => ?_
  rcases found with _ | ⟨value, place⟩
  · exact hq.failAtEnd
  cases value with
  | minus => exact ih.unaryOperand _ _
  | tilde => exact ih.unaryOperand _ _
  | _ => exact .fail _ _

theorem binaries_succ (level : Level) (left : Expr) :
    Mirrors Q Lost (binariesWithin (depth + 1) level left)
      (binariesWithin (depth' + 1) level left) := by
  rw [binariesWithin, binariesWithin]
  refine hq.look fun w w' hw => ?_
  rw [hw.currentLevel]
  split
  · exact (ih.binary left).bind fun joined => ih.binaries level joined
  · exact .pure left

theorem binary_succ (left : Expr) :
    Mirrors Q Lost (binaryWithin (depth + 1) left) (binaryWithin (depth' + 1) left) := by
  rw [binaryWithin, binaryWithin]
  refine hq.look fun w w' hw => ?_
  rw [hw.current]
  cases w.current with
  | none => exact hq.failAtEnd
  | some found =>
    simp only
    cases BinaryOp.ofToken? found.value with
    | none => exact .fail _ _
    | some op => exact hq.step_then ((ih.expression _).bind fun _ => .pure _)

theorem print : Mirrors Q Lost (printWithin depth) (printWithin depth') :=
  (hq.accept _).bind fun _ => (ih.expression .lowest).bind fun _ => .pure _

theorem assignment : Mirrors Q Lost (assignmentWithin depth) (assignmentWithin depth') :=
  (hq.accept _).bind fun _ => (hq.accept _).bind fun _ =>
    (ih.expression .lowest).bind fun _ => .pure _

theorem statement_succ :
    Mirrors Q Lost (statementWithin (depth + 1)) (statementWithin (depth' + 1)) := by
  rw [statementWithin, statementWithin]
  refine hq.look fun w w' hw => ?_
  rw [hw.current, hw.atAssignment]
  cases w.current with
  | none => exact hq.failAtEnd
  | some found =>
    simp only
    split
    · exact ih.print hq
    split
    · exact ih.loop
    split
    · exact ih.assignment hq
    split
    · exact ih.branch
    · exact .fail _ _

theorem branch_succ : Mirrors Q Lost (branchWithin (depth + 1)) (branchWithin (depth' + 1)) := by
  rw [branchWithin, branchWithin]
  refine (ih.expression .lowest).bind fun _ => (hq.accept _).bind fun _ => ih.block.bind fun _ =>
    hq.look fun w w' hw => ?_
  simp only [hw.current]
  rcases w.current with _ | ⟨value, place⟩
  · exact .pure _
  cases value with
  | colon => exact hq.step_then (ih.block.bind fun _ => .pure _)
  | _ => exact .pure _

theorem loop_succ : Mirrors Q Lost (loopWithin (depth + 1)) (loopWithin (depth' + 1)) := by
  rw [loopWithin, loopWithin]
  exact (hq.accept _).bind fun _ => (ih.expression .lowest).bind fun _ => (hq.accept _).bind fun _ =>
    ih.block.bind fun _ => .pure _

theorem block_succ : Mirrors Q Lost (blockWithin (depth + 1)) (blockWithin (depth' + 1)) := by
  rw [blockWithin, blockWithin]
  refine ih.statements.bind fun ss => hq.look fun w w' hw => ?_
  rw [hw.currentSpan, hw.lastEnd]
  cases ss with
  | nil => exact .fail _ _
  | cons first rest => exact .pure _

theorem statements_succ :
    Mirrors Q Lost (statementsWithin (depth + 1)) (statementsWithin (depth' + 1)) := by
  rw [statementsWithin, statementsWithin]
  refine hq.look fun w w' hw => ?_
  rw [hw.startsStatement]
  split
  · exact ih.statement.bind fun _ => (hq.accept _).bind fun _ => ih.statements.bind fun _ => .pure _
  · exact .pure []

theorem untilEnd_succ :
    Mirrors Q Lost (untilEndWithin (depth + 1)) (untilEndWithin (depth' + 1)) := by
  rw [untilEndWithin, untilEndWithin]
  refine hq.look fun w w' hw => ?_
  rw [hw.current]
  rcases w.current with _ | ⟨value, place⟩
  · exact hq.failAtEnd
  have hclosed := ih.statement.bind fun first : Statement =>
    (hq.accept fun found => if found.value = .semicolon then .ok found.span.stop
      else .error ⟨.missingSemicolon, Span.point first.span.stop⟩).bind fun _ =>
        ih.untilEnd.bind fun rest => .pure (first :: rest)
  cases value with
  | endOfFile => exact .pure []
  | _ => exact hclosed

theorem succ : MirrorsAt Q Lost (depth + 1) (depth' + 1) where
  expression level := by
    rw [expressionWithin, expressionWithin]
    exact ih.operand.bind fun first => ih.binaries level first
  operand := ih.operand_succ hq
  unary := ih.unary_succ hq
  unaryOperand op sign := by
    rw [unaryOperandWithin, unaryOperandWithin]
    exact ((ih.expression .product).mapError _).bind fun _ => .pure _
  binaries := ih.binaries_succ hq
  binary := ih.binary_succ hq
  statement := ih.statement_succ hq
  branch := ih.branch_succ hq
  loop := ih.loop_succ hq
  block := ih.block_succ hq
  statements := ih.statements_succ hq
  untilEnd := ih.untilEnd_succ hq

end MirrorsAt

/-- A relation between states that looking, stepping and failing keep is kept by every reader. -/
theorem Follows.mirrors (hq : Follows extra Q Lost) (depth : Nat) :
    MirrorsAt Q Lost depth (depth + extra) := by
  induction depth with
  | zero =>
    rw [Nat.zero_add]
    exact hq.mirrors_zero
  | succ depth ih =>
    rw [Nat.add_right_comm]
    exact ih.succ hq

theorem Follows.mirrors_program (hq : Follows extra Q Lost) (depth : Nat) :
    Mirrors Q Lost (programWithin depth) (programWithin (depth + extra)) := by
  refine (hq.mirrors depth).untilEnd.bind fun ss => hq.look fun w w' hw => ?_
  rw [hw.lastEnd]
  exact .pure _

end Parser

end CatLang
