import CatLang.Proofs.Readers
import CatLang.Proofs.Window

/-! The readers as they run, step by step. Here every step is put down with the token that it took
out of the window, or with nothing if there was none; and it is put down when calls were nested
deeper than they may be. That never happens: a reader that may nest its calls four times as deep as
there are tokens ahead ends before (`endsWithin`), and at any greater depth it does the same. -/
namespace CatLang.Parser

/-- A window, what was current at each step so far, and whether calls were nested too deep. -/
structure Walk where
  window : Parser
  taken : List (Option (Located Token))
  overrun : Bool

instance : Reading Walk where
  window w := w.window.toWindow
  step w := ⟨w.window.step, w.taken ++ [w.window.current], w.overrun⟩
  overrun w := { w with overrun := true }

abbrev Traced := ReadOn Walk

variable {α β : Type} {p q : Parser} {t : Located Token} {ts : List (Located Token)} {n k : Nat}

/-- The traced reader ends with this answer, at `q` and not for having come to its bound. At each
step it took a token out of the window, and none of these was the end of file. -/
structure Runs (x : Traced α) (p : Parser) (ts : List (Located Token))
    (answer : Except ParseError α) (q : Parser) : Prop where
  answer : ∀ taken, answerOf (x ⟨p, taken, false⟩) = answer
  window : ∀ taken, windowOf (x ⟨p, taken, false⟩) = ⟨q, taken ++ ts.map some, false⟩
  passes : Passes p ts q
  before_end : ∀ t ∈ ts, t.value ≠ .endOfFile

/-- The traced reader ends from `p`, and if it accepts then it has taken `least` tokens or more. -/
def Ends (least : Nat) (x : Traced α) (p : Parser) : Prop :=
  ∃ ts answer q, Runs x p ts answer q ∧ ∀ a, answer = .ok a → least ≤ ts.length

namespace Ends
variable {x : Traced α}

theorem pure (a : α) (p : Parser) : Ends 0 (pure a) p :=
  ⟨[], .ok a, p, ⟨fun _ => rfl, by simp [windowOf, Pure.pure, EStateM.pure], .nil p, by simp⟩,
    fun _ _ => Nat.zero_le _⟩

theorem fail (cause : ParseCause) (span : Span) (p : Parser) :
    Ends n (fail cause span : Traced α) p := by
  refine ⟨[], .error ⟨cause, span⟩, p, ⟨fun _ => rfl, fun taken => ?_, .nil p, by simp⟩, ?_⟩
  · rw [List.map_nil, List.append_nil]
    rfl
  · intro a h
    cases h

theorem look {f : Window → Traced α} (h : Ends n (f p.toWindow) p) : Ends n (window >>= f) p := by
  obtain ⟨ts, answer, q, h, hleast⟩ := h
  exact ⟨ts, answer, q, ⟨h.answer, h.window, h.passes, h.before_end⟩, hleast⟩

theorem failAtEnd (p : Parser) : Ends n (failAtEnd : Traced α) p := .look (.fail _ _ p)

theorem step (hc : p.current = some t) (ht : t.value ≠ .endOfFile) (h : Ends n x p.step) :
    Ends (n + 1) (advance >>= fun _ => x) p := by
  obtain ⟨ts, answer, q, h, hleast⟩ := h
  have hrun (taken : List (Option (Located Token))) : (advance >>= fun _ => x : Traced α)
      ⟨p, taken, false⟩ = x ⟨p.step, taken ++ [some t], false⟩ := by
    rw [← hc]
    rfl
  refine ⟨t :: ts, answer, q, ⟨fun taken => ?_, fun taken => ?_, .cons hc h.passes, ?_⟩, ?_⟩
  · rw [hrun, h.answer]
  · rw [hrun, h.window, List.append_assoc]
    rfl
  · rw [List.forall_mem_cons]
    exact ⟨ht, h.before_end⟩
  · intro a ha
    exact Nat.succ_le_succ (hleast a ha)

theorem weaken (h : Ends n x p) : Ends 0 x p := by
  obtain ⟨ts, answer, q, h, -⟩ := h
  exact ⟨ts, answer, q, h, fun a _ => Nat.zero_le _⟩

theorem bind {f : α → Traced β} (hx : Ends n x p)
    (hf : ∀ a q, q.ahead + n ≤ p.ahead → Ends k (f a) q) : Ends (n + k) (x >>= f) p := by
  obtain ⟨ts, answer, q, h, hleast⟩ := hx
  have hrun (w : Walk) : (x >>= f) w = EStateM.bind x f w := rfl
  cases answer with
  | ok a =>
    have hn := hleast a rfl
    have hahead := h.passes.ahead_le
    obtain ⟨us, answer, r, hf, hleast'⟩ := hf a q (by omega)
    have hbind (taken : List (Option (Located Token))) : (x >>= f) ⟨p, taken, false⟩ =
        f a ⟨q, taken ++ ts.map some, false⟩ := by
      have hanswer := h.answer taken
      have hwindow := h.window taken
      rw [hrun, EStateM.bind]
      cases hx : x ⟨p, taken, false⟩ with
      | ok b w =>
        rw [hx] at hanswer hwindow
        cases hanswer
        cases hwindow
        rfl
      | error e w =>
        rw [hx] at hanswer
        cases hanswer
    refine ⟨ts ++ us, answer, r, ⟨fun taken => ?_, fun taken => ?_, h.passes.append hf.passes, ?_⟩,
      fun b hb => ?_⟩
    · rw [hbind, hf.answer]
    · rw [hbind, hf.window, List.map_append, List.append_assoc]
    · rw [List.forall_mem_append]
      exact ⟨h.before_end, hf.before_end⟩
    · rw [List.length_append]
      exact Nat.add_le_add hn (hleast' b hb)
  | error e =>
    have hbind (taken : List (Option (Located Token))) : (x >>= f) ⟨p, taken, false⟩ =
        .error e ⟨q, taken ++ ts.map some, false⟩ := by
      have hanswer := h.answer taken
      have hwindow := h.window taken
      rw [hrun, EStateM.bind]
      cases hx : x ⟨p, taken, false⟩ with
      | ok b w =>
        rw [hx] at hanswer
        cases hanswer
      | error e' w =>
        rw [hx] at hanswer hwindow
        cases hanswer
        cases hwindow
        rfl
    refine ⟨ts, .error e, q, ⟨fun taken => ?_, fun taken => ?_, h.passes, h.before_end⟩,
      fun b hb => ?_⟩
    · rw [hbind]
      rfl
    · rw [hbind]
      rfl
    · cases hb

theorem mapError (change : ParseError → ParseError) (h : Ends n x p) :
    Ends n (mapError change x) p := by
  obtain ⟨ts, answer, q, h, hleast⟩ := h
  have hrun (w : Walk) : answerOf (Parser.mapError change x w) = (answerOf (x w)).mapError change ∧
      windowOf (Parser.mapError change x w) = windowOf (x w) := by
    unfold Parser.mapError
    cases x w <;> exact ⟨rfl, rfl⟩
  refine ⟨ts, answer.mapError change, q,
    ⟨fun taken => ?_, fun taken => ?_, h.passes, h.before_end⟩, fun a ha => ?_⟩
  · rw [(hrun _).1, h.answer]
  · rw [(hrun _).2, h.window]
  · cases answer with
    | ok b => exact hleast b rfl
    | error e => cases ha

/-- What is accepted is a token, and not the end of file. -/
theorem accept {make : Located Token → Except ParseError α} (p : Parser)
    (hmake : ∀ t a, make t = .ok a → t.value ≠ .endOfFile) : Ends 1 (accept make) p := by
  refine .look ?_
  cases hc : p.current with
  | none => exact .failAtEnd p
  | some t =>
    simp only
    cases hm : make t with
    | ok a => exact .step hc (hmake t a hm) (.pure a p.step)
    | error e => exact .fail _ _ p

theorem take {f : Option (Located Token) → Traced α} (hc : p.current = some t)
    (ht : t.value ≠ .endOfFile) (h : Ends n (f (some t)) p.step) : Ends (n + 1) (take >>= f) p := by
  have hrun : (Parser.take >>= f : Traced α) =
      window >>= fun w => advance >>= fun _ => f w.current := rfl
  rw [hrun]
  exact .look (.step hc ht (by rwa [hc]))

theorem expectOr {token : Token} (htoken : token ≠ .endOfFile) (cause : Token → ParseCause)
    (p : Parser) : Ends 1 (expectOr token cause) p := by
  refine .accept p fun t span h => ?_
  split at h
  · next ht => exact ht ▸ htoken
  · cases h

theorem semicolon (after : Nat) (p : Parser) : Ends 1 (semicolon after) p := by
  refine .accept p fun t span h => ?_
  split at h
  · next ht => exact ht ▸ Token.noConfusion
  · cases h

theorem identifier (p : Parser) : Ends 1 identifier p := by
  refine .accept p fun t name h => ?_
  split at h
  · exact Token.noConfusion
  · cases h

end Ends

/-! Every reader ends in time. -/

/-- At this depth the readers end, if there is not too much ahead. Between two calls of the same
reader a token is taken, and the calls that may lie between them are paid for by that token. -/
structure EndsWithin (depth : Nat) : Prop where
  expression : ∀ {level p}, 4 * p.ahead + 2 ≤ depth → Ends 1 (expressionWithin depth level) p
  operand : ∀ {p}, 4 * p.ahead + 1 ≤ depth → Ends 1 (operandWithin depth) p
  unary : ∀ {p} (op) {sign}, p.current = some ⟨UnaryOp.token op, sign⟩ → 4 * p.ahead ≤ depth →
    Ends 1 (unaryWithin depth) p
  unaryOperand : ∀ {op sign p}, 4 * p.ahead + 3 ≤ depth →
    Ends 0 (unaryOperandWithin depth op sign) p
  binaries : ∀ {level left p}, 4 * p.ahead + 1 ≤ depth →
    Ends 0 (binariesWithin depth level left) p
  binary : ∀ {left p t}, p.current = some t → 4 * p.ahead ≤ depth →
    Ends 1 (binaryWithin depth left) p
  statement : ∀ {p}, 4 * p.ahead + 4 ≤ depth → Ends 0 (statementWithin depth) p
  branch : ∀ {p}, 4 * p.ahead + 3 ≤ depth → Ends 0 (branchWithin depth) p
  loop : ∀ {p}, 4 * p.ahead + 3 ≤ depth → Ends 0 (loopWithin depth) p
  block : ∀ {p}, 4 * p.ahead + 6 ≤ depth → Ends 0 (blockWithin depth) p
  statements : ∀ {p}, 4 * p.ahead + 5 ≤ depth → Ends 0 (statementsWithin depth) p
  untilEnd : ∀ {p}, 4 * p.ahead + 5 ≤ depth → Ends 0 (untilEndWithin depth) p

theorem endsWithin_zero : EndsWithin 0 where
  expression h := by omega
  operand h := by omega
  unary _ _ hc h := by have := ahead_pos hc; omega
  unaryOperand h := by omega
  binaries h := by omega
  binary hc h := by have := ahead_pos hc; omega
  statement h := by omega
  branch h := by omega
  loop h := by omega
  block h := by omega
  statements h := by omega
  untilEnd h := by omega

namespace EndsWithin
variable {depth : Nat} (ih : EndsWithin depth)
include ih

theorem operand_succ (h : 4 * p.ahead + 1 ≤ depth + 1) : Ends 1 (operandWithin (depth + 1)) p := by
  rw [operandWithin]
  refine .look ?_
  rcases hc : p.current with _ | ⟨value, place⟩
  · exact .failAtEnd p
  have hstep := ahead_step hc
  cases value with
  | name text => exact .step hc Token.noConfusion (.pure _ _)
  | number raw => exact .step hc Token.noConfusion (.pure _ _)
  | leftParen =>
    have hinner : Ends 1 (expressionWithin depth .lowest) p.step := ih.expression (by omega)
    exact .step hc Token.noConfusion (hinner.bind fun _ q _ =>
      (Ends.expectOr Token.noConfusion _ q).bind fun _ q _ => .pure _ q).weaken
  | minus => exact ih.unary .negate hc (by omega)
  | tilde => exact ih.unary .absolute hc (by omega)
  | _ => exact .fail _ _ p

theorem unary_succ (op : UnaryOp) {sign : Span} (hc : p.current = some ⟨op.token, sign⟩)
    (h : 4 * p.ahead ≤ depth + 1) : Ends 1 (unaryWithin (depth + 1)) p := by
  have hstep := ahead_step hc
  have hoperand : Ends 0 (unaryOperandWithin depth op sign) p.step := ih.unaryOperand (by omega)
  rw [unaryWithin]
  refine .take (n := 0) hc (by cases op <;> exact Token.noConfusion) ?_
  cases op <;> exact hoperand

theorem binaries_succ {level : Level} {left : Expr} (h : 4 * p.ahead + 1 ≤ depth + 1) :
    Ends 0 (binariesWithin (depth + 1) level left) p := by
  rw [binariesWithin]
  refine .look ?_
  split
  · next hlt =>
    obtain ⟨t, hc⟩ : ∃ t, p.current = some t := by
      cases hc : p.current with
      | some t => exact ⟨t, rfl⟩
      | none =>
        rw [Window.currentLevel, hc] at hlt
        exact absurd hlt (Nat.not_lt_zero _)
    refine ((ih.binary hc (by omega)).bind (k := 0) fun joined q hq => ?_).weaken
    exact ih.binaries (by omega)
  · exact .pure left p

theorem binary_succ {left : Expr} (hc : p.current = some t) (h : 4 * p.ahead ≤ depth + 1) :
    Ends 1 (binaryWithin (depth + 1) left) p := by
  have hstep := ahead_step hc
  rw [binaryWithin]
  refine .look ?_
  simp only [hc]
  cases hop : BinaryOp.ofToken? t.value with
  | none => exact .fail _ _ p
  | some op =>
    have hright : Ends 1 (expressionWithin depth (rightLevel op)) p.step :=
      ih.expression (by omega)
    refine .step hc ?_ (hright.bind fun right q _ => .pure _ q).weaken
    rintro hend
    rw [hend] at hop
    cases hop

theorem print (h : 4 * p.ahead + 2 ≤ depth) : Ends 0 (printWithin depth) p :=
  ((Ends.expectOr Token.noConfusion _ p).bind fun _ q _ =>
    (ih.expression (by omega)).bind fun _ q _ => .pure _ q).weaken

theorem assignment (h : 4 * p.ahead + 2 ≤ depth) : Ends 0 (assignmentWithin depth) p :=
  ((Ends.identifier p).bind fun _ q _ => (Ends.expectOr Token.noConfusion _ q).bind fun _ q _ =>
    (ih.expression (by omega)).bind fun _ q _ => .pure _ q).weaken

theorem statement_succ (h : 4 * p.ahead + 4 ≤ depth + 1) :
    Ends 0 (statementWithin (depth + 1)) p := by
  rw [statementWithin]
  refine .look ?_
  cases hc : p.current with
  | none => exact .failAtEnd p
  | some t =>
    simp only
    split
    · exact ih.print (by omega)
    split
    · exact ih.loop (by omega)
    split
    · exact ih.assignment (by omega)
    split
    · exact ih.branch (by omega)
    · exact .fail _ _ p

theorem branch_succ (h : 4 * p.ahead + 3 ≤ depth + 1) : Ends 0 (branchWithin (depth + 1)) p := by
  rw [branchWithin]
  refine (Ends.bind (ih.expression (by omega)) fun condition q hq =>
    (Ends.expectOr Token.noConfusion _ q).bind fun _ r hr =>
      (ih.block (by omega)).bind fun body u hu => .look (n := 0) ?_).weaken
  rcases hc : u.current with _ | ⟨value, place⟩
  · exact .pure _ u
  have hstep := ahead_step hc
  cases value with
  | colon =>
    exact (Ends.step hc Token.noConfusion ((ih.block (by omega)).bind fun _ q _ => .pure _ q)).weaken
  | _ => exact .pure _ u

theorem loop_succ (h : 4 * p.ahead + 3 ≤ depth + 1) : Ends 0 (loopWithin (depth + 1)) p := by
  rw [loopWithin]
  exact ((Ends.expectOr Token.noConfusion _ p).bind fun _ q _ =>
    (ih.expression (by omega)).bind fun _ r _ =>
      (Ends.expectOr Token.noConfusion _ r).bind fun _ u _ =>
        (ih.block (by omega)).bind fun _ u _ => .pure _ u).weaken

theorem block_succ (h : 4 * p.ahead + 6 ≤ depth + 1) : Ends 0 (blockWithin (depth + 1)) p := by
  rw [blockWithin]
  have hstatements : Ends 0 (statementsWithin depth) p := ih.statements (by omega)
  refine hstatements.bind (k := 0) fun ss q _ => .look ?_
  cases ss with
  | nil => exact .fail _ _ q
  | cons first rest => exact .pure _ q

theorem statements_succ (h : 4 * p.ahead + 5 ≤ depth + 1) :
    Ends 0 (statementsWithin (depth + 1)) p := by
  rw [statementsWithin]
  refine .look ?_
  split
  · exact (Ends.bind (ih.statement (by omega)) fun first q _ =>
      (Ends.semicolon _ q).bind fun _ r _ =>
        (ih.statements (by omega)).bind fun _ r _ => .pure _ r).weaken
  · exact .pure [] p

theorem untilEnd_succ (h : 4 * p.ahead + 5 ≤ depth + 1) :
    Ends 0 (untilEndWithin (depth + 1)) p := by
  rw [untilEndWithin]
  refine .look ?_
  rcases hc : p.current with _ | ⟨value, place⟩
  · exact .failAtEnd p
  have hclosed : Ends 0 (do
      let first ← statementWithin depth
      let _ ← Parser.semicolon first.span.stop
      let rest ← untilEndWithin depth
      return first :: rest : Traced (List Statement)) p :=
    (Ends.bind (ih.statement (by omega)) fun first q _ => (Ends.semicolon _ q).bind fun _ r _ =>
      (ih.untilEnd (by omega)).bind fun _ r _ => .pure _ r).weaken
  cases value with
  | endOfFile => exact .pure [] p
  | _ => exact hclosed

theorem succ : EndsWithin (depth + 1) where
  expression h := by
    rw [expressionWithin]
    exact (ih.operand (by omega)).bind fun first q hq => ih.binaries (by omega)
  operand := ih.operand_succ
  unary := ih.unary_succ
  unaryOperand h := by
    rw [unaryOperandWithin]
    exact (((ih.expression (by omega)).mapError _).bind fun _ q _ => .pure _ q).weaken
  binaries := ih.binaries_succ
  binary := ih.binary_succ
  statement := ih.statement_succ
  branch := ih.branch_succ
  loop := ih.loop_succ
  block := ih.block_succ
  statements := ih.statements_succ
  untilEnd := ih.untilEnd_succ

end EndsWithin

theorem endsWithin (depth : Nat) : EndsWithin depth := by
  induction depth with
  | zero => exact endsWithin_zero
  | succ depth ih => exact ih.succ

theorem ends_program {depth : Nat} (h : 4 * p.ahead + 5 ≤ depth) :
    Ends 0 (programWithin depth) p := by
  unfold programWithin
  exact ((endsWithin depth).untilEnd h).bind (k := 0) fun _ q _ => .look (.pure _ q)

/-! The traced readers do what the running ones do. -/

/-- As long as it has not come to its bound, the traced reader stands where the running one does. -/
abbrev Traces (x : Traced α) (y : Parse α) : Prop :=
  Mirrors (fun w p => w.window = p) (fun w => w.overrun = true) x y

theorem follows_walk (extra : Nat) :
    Follows extra (fun (w : Walk) (p : Parser) => w.window = p) fun w => w.overrun = true where
  window h _ := by rw [← h]; exact .refl _
  step h _ := by rw [← h]; rfl
  overrun _ hs := absurd rfl hs
  lost_step h := h
  lost_overrun _ := rfl

/-- From `p` the traced reader ends, where and how the running one does. At each step it took a
token out of the window, and none of these was the end of file. -/
structure EndsAfter (x : Traced α) (y : Parse α) (p : Parser) (ts : List (Located Token)) :
    Prop where
  answer : ∀ taken, answerOf (x ⟨p, taken, false⟩) = answerOf (y p)
  window : ∀ taken, windowOf (x ⟨p, taken, false⟩) = ⟨windowOf (y p), taken ++ ts.map some, false⟩
  passes : Passes p ts (windowOf (y p))
  before_end : ∀ t ∈ ts, t.value ≠ .endOfFile

namespace Ends
variable {x : Traced α} {y y' : Parse α}

theorem endsAfter (h : Ends n x p) (hxy : Traces x y) :
    ∃ ts, EndsAfter x y p ts ∧ ∀ a q, y p = .ok a q → n ≤ ts.length := by
  obtain ⟨ts, answer, q, h, hleast⟩ := h
  obtain ⟨hanswer, hwindow⟩ := hxy.same (s := ⟨p, [], false⟩) rfl (by rw [h.window]; simp)
  rw [h.window] at hwindow
  rw [h.answer] at hanswer
  have hq : q = windowOf (y p) := hwindow
  subst hq
  refine ⟨ts, ⟨fun taken => ?_, h.window, h.passes, h.before_end⟩, fun a q hy => ?_⟩
  · rw [hanswer, h.answer]
  · rw [hy] at hanswer
    exact hleast a hanswer.symm

theorem ahead_of_ok {a : α} (h : Ends n x p) (hxy : Traces x y) (hy : y p = .ok a q) :
    q.ahead + n ≤ p.ahead := by
  obtain ⟨ts, hends, hleast⟩ := h.endsAfter hxy
  have hpasses := hends.passes.ahead_le
  rw [hy] at hpasses
  have hleast := hleast a q hy
  have hq : (windowOf (.ok a q : EStateM.Result ParseError Parser α)).ahead = q.ahead := rfl
  omega

theorem result_ext {S : Type} {r r' : EStateM.Result ParseError S α}
    (hanswer : answerOf r = answerOf r') (hwindow : windowOf r = windowOf r') : r = r' := by
  cases r <;> cases r' <;> cases hanswer <;> cases hwindow <;> rfl

/-- Readers that do what the same traced one does are the same where it ends. -/
theorem eq_of_traces (h : Ends n x p) (hy : Traces x y) (hy' : Traces x y') : y p = y' p := by
  obtain ⟨ts, hts, -⟩ := h.endsAfter hy
  obtain ⟨us, hus, -⟩ := h.endsAfter hy'
  refine result_ext ?_ ?_
  · rw [← hts.answer [], hus.answer]
  · have hwindow := hts.window []
    rw [hus.window] at hwindow
    exact (congrArg Walk.window hwindow).symm

end Ends

end CatLang.Parser
