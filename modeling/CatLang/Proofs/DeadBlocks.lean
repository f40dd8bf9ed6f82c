import CatLang.Proofs.Parsing
import CatLang.Proofs.Running
import CatLang.Proofs.Tiling
import CatLang.Proofs.Value
import CatLang.Warning

/-! Blocks that a warning calls unreachable never run: whatever stands in their place, every run is
the same. A condition or count without names has one value in all states, so the statement with the
flagged block passes it by, and the statements around it go on as before. A warning tells its block
by the place alone; in a parsed program of less than 2 ^ 32 bytes each block has a place of its own,
since no two tokens start together (`blockSpans_nodup`). -/
namespace CatLang

/-! A value that is fixed is the value in every state. -/

namespace Expr

theorem eval_of_isConstant {e : Expr} (h : e.isConstant = true) (vars vars' : Table) :
    e.eval vars = e.eval vars' := by
  induction e with
  | name text span => cases h
  | number raw span => rfl
  | unary op operand span ih => simp only [eval, ih h]
  | binary left op right span ihl ihr =>
    obtain ⟨hl, hr⟩ := Bool.and_eq_true_iff.1 h
    simp only [eval, ihl hl, ihr hr]
  | group inner span ih => exact ih h

theorem eval_of_fixedValue? {e : Expr} {v : Value} (h : e.fixedValue? = some v) (vars : Table) :
    e.eval vars = .ok v := by
  unfold fixedValue? at h
  split at h
  · next hc =>
    rw [eval_of_isConstant hc vars .empty]
    cases he : e.eval .empty with
    | ok v' =>
      rw [he] at h
      cases h
      rfl
    | error err =>
      rw [he] at h
      cases h
  · cases h

end Expr

theorem Run.value_of_fixedValue? {e : Expr} {v : Value} (h : e.fixedValue? = some v) (m : Machine) :
    Run.value e m = .ok v m := by
  simp only [Run.value, Expr.eval_of_fixedValue? h]

namespace Statement
variable {condition count : Expr} {body : Block} {otherwise : Option Block} {v : Value} {limit : Nat}

theorem run_branch_of_true (h : condition.fixedValue? = some v) (hv : v.isTrue = true)
    (span : Span) : (branch condition body otherwise span).run limit = (do
      runAll limit body.statements
      return some v) := by
  funext m
  rw [run_branch, Run.bind_of_ok (Run.value_of_fixedValue? h m), if_pos hv]

theorem run_branch_of_false (h : condition.fixedValue? = some v) (hv : v.isTrue = false)
    (span : Span) : (branch condition body otherwise span).run limit = (do
      runAll limit (elseStatements otherwise)
      return some v) := by
  funext m
  rw [run_branch, Run.bind_of_ok (Run.value_of_fixedValue? h m), if_neg (by simp [hv])]

theorem run_loop_of_not_le (h : count.fixedValue? = some v) (hv : ¬ 1 ≤ v) (span : Span) :
    (loop count body span).run limit = pure (some v) := by
  funext m
  rw [run_loop, Run.bind_of_ok (Run.value_of_fixedValue? h m),
    Run.loop_of_not_le (by rwa [Value.toFloat_one])]
  rfl

end Statement

/-! Exchanging one block for another. -/

mutual
/-- One block of the statement, the one at `place`, is exchanged for `new`. It may stand at any
depth. -/
inductive Statement.Exchanges (place : Span) (new : Block) : Statement → Statement → Prop
  | body {condition : Expr} {body body' : Block} {otherwise : Option Block} {span : Span} :
      Block.Exchanges place new body body' →
      Statement.Exchanges place new (.branch condition body otherwise span)
        (.branch condition body' otherwise span)
  | otherwise {condition : Expr} {body otherwise otherwise' : Block} {span : Span} :
      Block.Exchanges place new otherwise otherwise' →
      Statement.Exchanges place new (.branch condition body (some otherwise) span)
        (.branch condition body (some otherwise') span)
  | loop {count : Expr} {body body' : Block} {span : Span} :
      Block.Exchanges place new body body' →
      Statement.Exchanges place new (.loop count body span) (.loop count body' span)

/-- The same for a block: it is the one, or the one is inside it. -/
inductive Block.Exchanges (place : Span) (new : Block) : Block → Block → Prop
  | here {ss : List Statement} : Block.Exchanges place new ⟨ss, place⟩ new
  | inside {ss ss' : List Statement} {span : Span} :
      ExchangesIn place new ss ss' → Block.Exchanges place new ⟨ss, span⟩ ⟨ss', span⟩

/-- The same for one of the statements that follow one another. -/
inductive ExchangesIn (place : Span) (new : Block) : List Statement → List Statement → Prop
  | first {s s' : Statement} {rest : List Statement} :
      Statement.Exchanges place new s s' → ExchangesIn place new (s :: rest) (s' :: rest)
  | later {s : Statement} {rest rest' : List Statement} :
      ExchangesIn place new rest rest' → ExchangesIn place new (s :: rest) (s :: rest')
end

/-- One block of the program, at any depth, is exchanged for another. -/
def Program.Exchanges (place : Span) (new : Block) (p p' : Program) : Prop :=
  ExchangesIn place new p.statements p'.statements ∧ p'.span = p.span

mutual
/-- The places of all blocks, outer ones before the ones inside. -/
def Statement.blockSpans : Statement → List Span
  | .assign _ _ _ => []
  | .print _ _ => []
  | .branch _ body none _ => body.blockSpans
  | .branch _ body (some otherwise) _ => body.blockSpans ++ otherwise.blockSpans
  | .loop _ body _ => body.blockSpans

def Block.blockSpans : Block → List Span
  | ⟨statements, place⟩ => place :: blockSpansAll statements

def blockSpansAll : List Statement → List Span
  | [] => []
  | s :: rest => s.blockSpans ++ blockSpansAll rest
end

section
variable {place : Span} {new : Block}

theorem Statement.blockSpans_branch (condition : Expr) (body : Block) (otherwise : Option Block)
    (span : Span) : (branch condition body otherwise span).blockSpans =
      body.blockSpans ++ otherwise.toList.flatMap Block.blockSpans := by
  cases otherwise <;> simp [blockSpans]

mutual
theorem Statement.Exchanges.mem_blockSpans {s s' : Statement} :
    s.Exchanges place new s' → place ∈ s.blockSpans
  | .body h => by simp [Statement.blockSpans_branch, h.mem_blockSpans]
  | .otherwise h => by simp [Statement.blockSpans_branch, h.mem_blockSpans]
  | .loop h => h.mem_blockSpans

theorem Block.Exchanges.mem_blockSpans {b b' : Block} :
    Block.Exchanges place new b b' → place ∈ b.blockSpans
  | .here => by simp [Block.blockSpans]
  | .inside h => by simp [Block.blockSpans, h.mem_blockSpansAll]

theorem ExchangesIn.mem_blockSpansAll {ss ss' : List Statement} :
    ExchangesIn place new ss ss' → place ∈ blockSpansAll ss
  | .first h => by simp [blockSpansAll, h.mem_blockSpans]
  | .later h => by simp [blockSpansAll, h.mem_blockSpansAll]
end

mutual
theorem Statement.exists_exchanges (new : Block) : ∀ s : Statement, place ∈ s.blockSpans →
    ∃ s' : Statement, s.Exchanges place new s'
  | .branch _ body none _, h => by
    obtain ⟨body', hbody⟩ := Block.exists_exchanges new body h
    exact ⟨_, .body hbody⟩
  | .branch _ body (some otherwise) _, h => by
    rcases List.mem_append.1 h with h | h
    · obtain ⟨body', hbody⟩ := Block.exists_exchanges new body h
      exact ⟨_, .body hbody⟩
    · obtain ⟨otherwise', hother⟩ := Block.exists_exchanges new otherwise h
      exact ⟨_, .otherwise hother⟩
  | .loop _ body _, h => by
    obtain ⟨body', hbody⟩ := Block.exists_exchanges new body h
    exact ⟨_, .loop hbody⟩

theorem Block.exists_exchanges (new : Block) : ∀ b : Block, place ∈ b.blockSpans →
    ∃ b' : Block, Block.Exchanges place new b b'
  | ⟨ss, _⟩, h => by
    rcases List.mem_cons.1 h with rfl | h
    · exact ⟨new, .here⟩
    · obtain ⟨ss', hss⟩ := exists_exchangesIn new ss h
      exact ⟨_, .inside hss⟩

theorem exists_exchangesIn (new : Block) : ∀ ss : List Statement, place ∈ blockSpansAll ss →
    ∃ ss' : List Statement, ExchangesIn place new ss ss'
  | s :: rest, h => by
    rcases List.mem_append.1 h with h | h
    · obtain ⟨s', hs⟩ := Statement.exists_exchanges new s h
      exact ⟨_, .first hs⟩
    · obtain ⟨rest', hrest⟩ := exists_exchangesIn new rest h
      exact ⟨_, .later hrest⟩
end

end

/-! Which blocks are flagged. -/

namespace Statement
variable {condition count : Expr} {body : Block} {otherwise : Option Block} {span : Span}
  {w : Warning}

theorem mem_deadBlocks_branch (h : w ∈ (branch condition body otherwise span).deadBlocks) :
    (∃ v, condition.fixedValue? = some v ∧ v.isTrue = false ∧ w = .unreachableIf body.span) ∨
    (∃ v b, condition.fixedValue? = some v ∧ v.isTrue = true ∧ otherwise = some b ∧
      w = .unreachableElse b.span) ∨
    w ∈ deadBlocksAll body.statements ∨ ∃ b, otherwise = some b ∧ w ∈ deadBlocksAll b.statements := by
  obtain ⟨ss, place⟩ := body
  rcases otherwise with _ | ⟨os, place'⟩
  all_goals
    rw [deadBlocks] at h
    cases hv : condition.fixedValue? with
    | none => simp_all
    | some v => cases ht : v.isTrue <;> simp_all

theorem mem_deadBlocks_loop (h : w ∈ (loop count body span).deadBlocks) :
    (∃ v, count.fixedValue? = some v ∧ ¬ 1 ≤ v ∧ w = .unreachableLoop body.span) ∨
    w ∈ deadBlocksAll body.statements := by
  obtain ⟨ss, place⟩ := body
  cases hv : count.fixedValue? with
  | none => simp_all [deadBlocks]
  | some v => by_cases hle : 1 ≤ v <;> simp_all [deadBlocks]

end Statement

theorem Block.span_mem_blockSpans (b : Block) : b.span ∈ b.blockSpans := by
  obtain ⟨ss, place⟩ := b
  simp [Block.blockSpans]

mutual
theorem Statement.span_mem_blockSpans {w : Warning} : ∀ s : Statement, w ∈ s.deadBlocks →
    w.span ∈ s.blockSpans
  | .branch _ body otherwise _, h => by
    rw [Statement.blockSpans_branch, List.mem_append]
    rcases Statement.mem_deadBlocks_branch h with
      ⟨v, -, -, rfl⟩ | ⟨v, b, -, -, rfl, rfl⟩ | h | ⟨b, rfl, hb⟩
    · exact .inl body.span_mem_blockSpans
    · exact .inr (List.mem_flatMap.2 ⟨b, by simp, b.span_mem_blockSpans⟩)
    · exact .inl (body.mem_blockSpans_of_mem h)
    · exact .inr (List.mem_flatMap.2 ⟨b, by simp, b.mem_blockSpans_of_mem hb⟩)
  | .loop _ body _, h => by
    rcases Statement.mem_deadBlocks_loop h with ⟨v, -, -, rfl⟩ | h
    · exact body.span_mem_blockSpans
    · exact body.mem_blockSpans_of_mem h

theorem Block.mem_blockSpans_of_mem {w : Warning} : ∀ b : Block, w ∈ deadBlocksAll b.statements →
    w.span ∈ b.blockSpans
  | ⟨ss, _⟩, h => List.mem_cons_of_mem _ (span_mem_blockSpansAll ss h)

theorem span_mem_blockSpansAll {w : Warning} : ∀ ss : List Statement, w ∈ deadBlocksAll ss →
    w.span ∈ blockSpansAll ss
  | s :: rest, h => by
    rcases List.mem_append.1 h with h | h
    · exact List.mem_append_left _ (s.span_mem_blockSpans h)
    · exact List.mem_append_right _ (span_mem_blockSpansAll rest h)
end

/-! A flagged block does not matter. -/

/-- The warning is about a block of this very statement, and that block is exchanged for `new`. -/
inductive Statement.Flags (w : Warning) (new : Block) : Statement → Statement → Prop
  | body {condition : Expr} {body : Block} {otherwise : Option Block} {span : Span} {v : Value}
      (hv : condition.fixedValue? = some v) (hfalse : v.isTrue = false)
      (hw : w = .unreachableIf body.span) :
      Statement.Flags w new (.branch condition body otherwise span)
        (.branch condition new otherwise span)
  | otherwise {condition : Expr} {body otherwise : Block} {span : Span} {v : Value}
      (hv : condition.fixedValue? = some v) (htrue : v.isTrue = true)
      (hw : w = .unreachableElse otherwise.span) :
      Statement.Flags w new (.branch condition body (some otherwise) span)
        (.branch condition body (some new) span)
  | loop {count : Expr} {body : Block} {span : Span} {v : Value}
      (hv : count.fixedValue? = some v) (hle : ¬ 1 ≤ v) (hw : w = .unreachableLoop body.span) :
      Statement.Flags w new (.loop count body span) (.loop count new span)

mutual
/-- One block of the statement that the warning was given for is exchanged for `new`. It may stand
at any depth. -/
inductive Statement.ExchangesFlagged (w : Warning) (new : Block) : Statement → Statement → Prop
  | here {s s' : Statement} : s.Flags w new s' → Statement.ExchangesFlagged w new s s'
  | body {condition : Expr} {ss ss' : List Statement} {place : Span} {otherwise : Option Block}
      {span : Span} : ExchangesFlaggedIn w new ss ss' →
      Statement.ExchangesFlagged w new (.branch condition ⟨ss, place⟩ otherwise span)
        (.branch condition ⟨ss', place⟩ otherwise span)
  | otherwise {condition : Expr} {body : Block} {ss ss' : List Statement} {place span : Span} :
      ExchangesFlaggedIn w new ss ss' →
      Statement.ExchangesFlagged w new (.branch condition body (some ⟨ss, place⟩) span)
        (.branch condition body (some ⟨ss', place⟩) span)
  | loop {count : Expr} {ss ss' : List Statement} {place span : Span} :
      ExchangesFlaggedIn w new ss ss' →
      Statement.ExchangesFlagged w new (.loop count ⟨ss, place⟩ span) (.loop count ⟨ss', place⟩ span)

inductive ExchangesFlaggedIn (w : Warning) (new : Block) : List Statement → List Statement → Prop
  | first {s s' : Statement} {rest : List Statement} :
      Statement.ExchangesFlagged w new s s' → ExchangesFlaggedIn w new (s :: rest) (s' :: rest)
  | later {s : Statement} {rest rest' : List Statement} :
      ExchangesFlaggedIn w new rest rest' → ExchangesFlaggedIn w new (s :: rest) (s :: rest')
end

def Program.ExchangesFlagged (w : Warning) (new : Block) (p p' : Program) : Prop :=
  ExchangesFlaggedIn w new p.statements p'.statements ∧ p'.span = p.span

section
variable {place : Span} {new : Block} {w : Warning} {limit : Nat}

mutual
theorem Statement.exists_exchangesFlagged (new : Block) : ∀ s : Statement, w ∈ s.deadBlocks →
    ∃ s', s.ExchangesFlagged w new s'
  | .branch _ ⟨ss, _⟩ none _, h => by
    rcases Statement.mem_deadBlocks_branch h with
      ⟨v, hv, hfalse, hw⟩ | ⟨v, b, -, -, hb, -⟩ | h | ⟨b, hb, -⟩
    · exact ⟨_, .here (.body hv hfalse hw)⟩
    · cases hb
    · obtain ⟨ss', hss⟩ := exists_exchangesFlaggedIn new ss h
      exact ⟨_, .body hss⟩
    · cases hb
  | .branch _ ⟨ss, _⟩ (some ⟨os, _⟩) _, h => by
    rcases Statement.mem_deadBlocks_branch h with
      ⟨v, hv, hfalse, hw⟩ | ⟨v, b, hv, htrue, hb, hw⟩ | h | ⟨b, hb, h⟩
    · exact ⟨_, .here (.body hv hfalse hw)⟩
    · cases hb
      exact ⟨_, .here (.otherwise hv htrue hw)⟩
    · obtain ⟨ss', hss⟩ := exists_exchangesFlaggedIn new ss h
      exact ⟨_, .body hss⟩
    · cases hb
      obtain ⟨os', hos⟩ := exists_exchangesFlaggedIn new os h
      exact ⟨_, .otherwise hos⟩
  | .loop _ ⟨ss, _⟩ _, h => by
    rcases Statement.mem_deadBlocks_loop h with ⟨v, hv, hle, hw⟩ | h
    · exact ⟨_, .here (.loop hv hle hw)⟩
    · obtain ⟨ss', hss⟩ := exists_exchangesFlaggedIn new ss h
      exact ⟨_, .loop hss⟩

theorem exists_exchangesFlaggedIn (new : Block) : ∀ ss : List Statement, w ∈ deadBlocksAll ss →
    ∃ ss', ExchangesFlaggedIn w new ss ss'
  | s :: rest, h => by
    rcases List.mem_append.1 h with h | h
    · obtain ⟨s', hs⟩ := s.exists_exchangesFlagged new h
      exact ⟨_, .first hs⟩
    · obtain ⟨rest', hrest⟩ := exists_exchangesFlaggedIn new rest h
      exact ⟨_, .later hrest⟩
end

/-- The statement passes the flagged block by. -/
theorem Statement.Flags.run_eq {s s' : Statement} (h : s.Flags w new s') :
    s'.run limit = s.run limit := by
  cases h with
  | body hv hfalse _ =>
    rw [Statement.run_branch_of_false hv hfalse, Statement.run_branch_of_false hv hfalse]
  | otherwise hv htrue _ =>
    rw [Statement.run_branch_of_true hv htrue, Statement.run_branch_of_true hv htrue]
  | loop hv hle _ => rw [Statement.run_loop_of_not_le hv hle, Statement.run_loop_of_not_le hv hle]

mutual
theorem Statement.ExchangesFlagged.run_eq {s s' : Statement} : s.ExchangesFlagged w new s' →
    s'.run limit = s.run limit
  | .here h => h.run_eq
  | .body h => by rw [Statement.run_branch, Statement.run_branch, h.runAll_eq]
  | .otherwise h => by simp only [Statement.run_branch, elseStatements, h.runAll_eq]
  | .loop h => by rw [Statement.run_loop, Statement.run_loop, h.runAll_eq]

theorem ExchangesFlaggedIn.runAll_eq {ss ss' : List Statement} : ExchangesFlaggedIn w new ss ss' →
    runAll limit ss' = runAll limit ss
  | .first h => by rw [runAll, runAll, h.run_eq]
  | .later h => by rw [runAll, runAll, h.runAll_eq]
end

/-- The block at its own place is exchanged itself, not one inside it. -/
theorem Block.Exchanges.eq_of_span {b b' : Block} (h : Block.Exchanges place new b b')
    (hnodup : b.blockSpans.Nodup) (hplace : b.span = place) : b' = new := by
  cases h with
  | here => rfl
  | inside h =>
    obtain rfl : _ = place := hplace
    exact absurd h.mem_blockSpansAll (List.nodup_cons.1 hnodup).1

mutual
/-- Where each block has a place of its own, the place of the warning tells which block it is
about. -/
theorem Statement.Exchanges.flagged {s s' : Statement} : s.Exchanges place new s' →
    s.blockSpans.Nodup → w ∈ s.deadBlocks → w.span = place → s.ExchangesFlagged w new s'
  | .body h, hnodup, hw, hplace => by
    rw [Statement.blockSpans_branch, List.nodup_append'] at hnodup
    obtain ⟨hbody, -, hdisjoint⟩ := hnodup
    have hnot := hdisjoint h.mem_blockSpans
    rcases Statement.mem_deadBlocks_branch hw with
      ⟨v, hv, hfalse, rfl⟩ | ⟨v, b, -, -, rfl, rfl⟩ | hw | ⟨b, rfl, hb⟩
    · obtain rfl := h.eq_of_span hbody hplace
      exact .here (.body hv hfalse rfl)
    · exact (hnot (List.mem_flatMap.2 ⟨b, by simp, hplace ▸ b.span_mem_blockSpans⟩)).elim
    · obtain ⟨ss, ss', span, rfl, rfl, hss⟩ := h.flagged hbody hw hplace
      exact .body hss
    · exact (hnot (List.mem_flatMap.2 ⟨b, by simp, hplace ▸ b.mem_blockSpans_of_mem hb⟩)).elim
  | .otherwise h, hnodup, hw, hplace => by
    obtain ⟨-, hother, hdisjoint⟩ := List.nodup_append'.1 hnodup
    have hnot := List.disjoint_right.1 hdisjoint h.mem_blockSpans
    rcases Statement.mem_deadBlocks_branch hw with
      ⟨v, hv, hfalse, rfl⟩ | ⟨v, b, hv, htrue, hb, rfl⟩ | hw | ⟨b, hb, hw⟩
    · exact absurd (hplace ▸ Block.span_mem_blockSpans _) hnot
    · cases hb
      obtain rfl := h.eq_of_span hother hplace
      exact .here (.otherwise hv htrue rfl)
    · exact absurd (hplace ▸ Block.mem_blockSpans_of_mem _ hw) hnot
    · cases hb
      obtain ⟨ss, ss', span, rfl, rfl, hss⟩ := h.flagged hother hw hplace
      exact .otherwise hss
  | .loop h, hnodup, hw, hplace => by
    rcases Statement.mem_deadBlocks_loop hw with ⟨v, hv, hle, rfl⟩ | hw
    · obtain rfl := h.eq_of_span hnodup hplace
      exact .here (.loop hv hle rfl)
    · obtain ⟨ss, ss', span, rfl, rfl, hss⟩ := h.flagged hnodup hw hplace
      exact .loop hss

theorem Block.Exchanges.flagged {b b' : Block} : Block.Exchanges place new b b' →
    b.blockSpans.Nodup → w ∈ deadBlocksAll b.statements → w.span = place →
    ∃ ss ss' span, b = ⟨ss, span⟩ ∧ b' = ⟨ss', span⟩ ∧ ExchangesFlaggedIn w new ss ss'
  | .here, hnodup, hw, hplace =>
    absurd (hplace ▸ span_mem_blockSpansAll _ hw) (List.nodup_cons.1 hnodup).1
  | .inside h, hnodup, hw, hplace =>
    ⟨_, _, _, rfl, rfl, h.flagged (List.nodup_cons.1 hnodup).2 hw hplace⟩

theorem ExchangesIn.flagged {ss ss' : List Statement} : ExchangesIn place new ss ss' →
    (blockSpansAll ss).Nodup → w ∈ deadBlocksAll ss → w.span = place →
    ExchangesFlaggedIn w new ss ss'
  | .first h, hnodup, hw, hplace => by
    obtain ⟨hs, -, hdisjoint⟩ := List.nodup_append'.1 hnodup
    rcases List.mem_append.1 hw with hw | hw
    · exact .first (h.flagged hs hw hplace)
    · exact absurd (hplace ▸ span_mem_blockSpansAll _ hw) (hdisjoint h.mem_blockSpans)
  | .later h, hnodup, hw, hplace => by
    obtain ⟨-, hrest, hdisjoint⟩ := List.nodup_append'.1 hnodup
    rcases List.mem_append.1 hw with hw | hw
    · exact absurd h.mem_blockSpansAll (hdisjoint (hplace ▸ Statement.span_mem_blockSpans _ hw))
    · exact .later (h.flagged hrest hw hplace)
end

end

/-! In a parsed program each block has a place of its own. -/

/-- Where the tokens start. -/
def starts (ts : List (Located Token)) : List Nat := ts.map (·.span.start)

theorem head?_starts_append {ts : List (Located Token)} {start : Nat}
    (h : (starts ts).head? = some start) (us : List (Located Token)) :
    (starts (ts ++ us)).head? = some start := by
  rw [starts, List.map_append, List.head?_append, ← starts, h]
  rfl

theorem Expr.ReadFrom.head?_starts {e : Expr} {ts : List (Located Token)} (h : e.ReadFrom ts) :
    (starts ts).head? = some e.span.start := by
  induction h with
  | name => rfl
  | number => rfl
  | unary => rfl
  | binary _ _ ihl _ => exact head?_starts_append ihl _
  | group => rfl

theorem Statement.ReadFrom.head?_starts {s : Statement} {ts : List (Located Token)}
    (h : s.ReadFrom ts) : (starts ts).head? = some s.span.start := by
  cases h with
  | assign => rfl
  | print => rfl
  | branch hc _ => exact head?_starts_append hc.head?_starts _
  | branchElse hc _ _ => exact head?_starts_append hc.head?_starts _
  | loop => rfl

theorem StatementsFrom.head?_starts {ss : List Statement} {ts : List (Located Token)}
    (h : StatementsFrom ss ts) (hne : ss ≠ []) : (starts ts).head? = some (startOf ss) := by
  cases h with
  | nil => exact absurd rfl hne
  | cons hs _ => exact head?_starts_append hs.head?_starts _

theorem tail_starts_append_sublist (ts us : List (Located Token)) (t : Located Token) :
    ((starts ts).tail ++ starts us).Sublist (starts (ts ++ t :: us)).tail := by
  cases ts with
  | nil => exact List.Sublist.refl _
  | cons t' ts => simp [starts]

/-- A block starts with its first token, and the blocks inside it start later. -/
theorem Block.starts_sublist {ss : List Statement} {ts : List (Located Token)} {stop : Nat}
    (hss : StatementsFrom ss ts) (hne : ss ≠ [])
    (h : ((blockSpansAll ss).map (·.start)).Sublist (starts ts).tail) :
    ((Block.blockSpans ⟨ss, startOf ss, stop⟩).map (·.start)).Sublist (starts ts) := by
  obtain ⟨rest, hrest⟩ := List.head?_eq_some_iff.1 (hss.head?_starts hne)
  rw [hrest] at h ⊢
  exact h.cons_cons _

mutual
theorem Statement.ReadFrom.starts_sublist {s : Statement} {ts : List (Located Token)} :
    s.ReadFrom ts → s.Filled → (s.blockSpans.map (·.start)).Sublist (starts ts).tail
  | .assign _, _ => List.nil_sublist _
  | .print _, _ => List.nil_sublist _
  | .branch _ hb, hf =>
    (Block.starts_sublist hb hf.1 (hb.starts_sublist hf.2)).trans
      ((List.sublist_append_right _ _).trans (tail_starts_append_sublist ..))
  | .branchElse hc hb ho, hf => by
    rw [Statement.blockSpans, List.map_append]
    refine .trans ?_ ((List.sublist_append_right _ _).trans (tail_starts_append_sublist ..))
    rw [starts, List.map_append]
    exact (Block.starts_sublist hb hf.1.1 (hb.starts_sublist hf.1.2)).append
      ((Block.starts_sublist ho hf.2.1 (ho.starts_sublist hf.2.2)).cons _)
  | .loop _ hb, hf =>
    (Block.starts_sublist hb hf.1 (hb.starts_sublist hf.2)).trans
      ((List.sublist_append_right _ _).trans (tail_starts_append_sublist (_ :: _) ..))

theorem StatementsFrom.starts_sublist {ss : List Statement} {ts : List (Located Token)} :
    StatementsFrom ss ts → FilledAll ss →
    ((blockSpansAll ss).map (·.start)).Sublist (starts ts).tail
  | .nil, _ => List.nil_sublist _
  | .cons hs hrest, hf => by
    rw [blockSpansAll, List.map_append]
    refine .trans ?_ (tail_starts_append_sublist ..)
    exact (hs.starts_sublist hf.1).append ((hrest.starts_sublist hf.2).trans (List.tail_sublist _))
end

/-- The tokens of a program follow one another. -/
theorem inOrder_of_lex {source : String} {toks ts : List (Located Token)} {place : Span}
    (hsize : source.utf8ByteSize < 4294967296) (hlex : lex source = .ok toks)
    (hcode : codeOf toks = ts ++ [⟨.endOfFile, place⟩]) : InOrder ts := by
  obtain ⟨horder, hspans⟩ := lex_inOrder hsize hlex
  have hsublist : ts.Sublist toks := by
    have hfilter : (codeOf toks).Sublist toks := List.filter_sublist
    rw [hcode] at hfilter
    exact (List.sublist_append_left _ _).trans hfilter
  refine ⟨horder.sublist hsublist, fun t ht => ?_⟩
  rcases hspans t (hsublist.subset ht) with hlt | rfl
  · exact hlt
  · exact (spelled_of_lex hlex hcode _ ht).elim

/-- Tokens that follow one another start one after the other. -/
theorem InOrder.starts_increasing {ts : List (Located Token)} (h : InOrder ts) :
    (starts ts).Pairwise (· < ·) :=
  List.pairwise_map.2 (h.pairwise.imp_of_mem fun ht _ hle =>
    Nat.lt_of_lt_of_le (h.start_lt_stop _ ht) hle)

theorem blockStarts_nodup {source : String} {parsed : Parsed}
    (hsize : source.utf8ByteSize < 4294967296) (h : parse source = .ok parsed) :
    ((blockSpansAll parsed.program.statements).map (·.start)).Nodup := by
  obtain ⟨toks, ts, place, hlex, hcode, hread, -, hfilled⟩ := parse_sound h
  have hsublist := (hread.1.starts_sublist hfilled).trans (List.tail_sublist _)
  have hincreasing := (inOrder_of_lex hsize hlex hcode).starts_increasing.sublist hsublist
  exact hincreasing.imp Nat.ne_of_lt

theorem blockSpans_nodup {source : String} {parsed : Parsed}
    (hsize : source.utf8ByteSize < 4294967296) (h : parse source = .ok parsed) :
    (blockSpansAll parsed.program.statements).Nodup :=
  (blockStarts_nodup hsize h).of_map

/-- The warning says of a block that it never runs. -/
def Warning.FlagsBlock : Warning → Prop
  | unusedVariable _ _ => False
  | unreachableIf _ | unreachableElse _ | unreachableLoop _ => True

mutual
theorem Statement.flagsBlock_of_mem {w : Warning} :
    ∀ s : Statement, w ∈ s.deadBlocks → w.FlagsBlock
  | .branch _ ⟨body, _⟩ none _, h => by
    rcases Statement.mem_deadBlocks_branch h with
      ⟨v, -, -, rfl⟩ | ⟨v, b, -, -, -, rfl⟩ | h | ⟨b, hb, -⟩
    · trivial
    · trivial
    · exact flagsBlock_of_mem_all body h
    · cases hb
  | .branch _ ⟨body, _⟩ (some ⟨otherwise, _⟩) _, h => by
    rcases Statement.mem_deadBlocks_branch h with
      ⟨v, -, -, rfl⟩ | ⟨v, b, -, -, -, rfl⟩ | h | ⟨b, hb, h⟩
    · trivial
    · trivial
    · exact flagsBlock_of_mem_all body h
    · cases hb
      exact flagsBlock_of_mem_all otherwise h
  | .loop _ ⟨body, _⟩ _, h => by
    rcases Statement.mem_deadBlocks_loop h with ⟨v, -, -, rfl⟩ | h
    · trivial
    · exact flagsBlock_of_mem_all body h

theorem flagsBlock_of_mem_all {w : Warning} :
    ∀ ss : List Statement, w ∈ deadBlocksAll ss → w.FlagsBlock
  | s :: rest, h => by
    rcases List.mem_append.1 h with h | h
    · exact s.flagsBlock_of_mem h
    · exact flagsBlock_of_mem_all rest h
end

theorem Program.mem_deadBlocksAll {p : Program} {w : Warning} (h : w ∈ p.warnings)
    (hw : w.FlagsBlock) : w ∈ deadBlocksAll p.statements := by
  rw [warnings, Warning.sort, List.mem_mergeSort, List.mem_append] at h
  refine h.resolve_right fun h => ?_
  obtain ⟨target, -, rfl⟩ := List.mem_map.1 h
  exact hw

/-- A block that a warning calls unreachable can be exchanged for any other, and every run of the
program stays the same: its result, its output and its variables. Where offsets do not start over,
the place of the warning tells which block that is. -/
theorem run_of_flagged_block_exchanged {source : String} {parsed : Parsed} {w : Warning}
    (h : parse source = .ok parsed) (hw : w ∈ parsed.program.warnings) (hflags : w.FlagsBlock)
    (new : Block) :
    (∃ p', parsed.program.ExchangesFlagged w new p') ∧
      (∀ p', parsed.program.ExchangesFlagged w new p' →
        ∀ limit m, p'.run limit m = parsed.program.run limit m) ∧
      (source.utf8ByteSize < 4294967296 → (∃ p', parsed.program.Exchanges w.span new p') ∧
        ∀ p', parsed.program.Exchanges w.span new p' →
          parsed.program.ExchangesFlagged w new p') := by
  have hdead := Program.mem_deadBlocksAll hw hflags
  refine ⟨?_, ?_, fun hsize => ⟨?_, ?_⟩⟩
  · obtain ⟨ss, hss⟩ := exists_exchangesFlaggedIn new _ hdead
    exact ⟨⟨ss, parsed.program.span⟩, hss, rfl⟩
  · intro p' hp' limit m
    rw [Program.run, Program.run, hp'.1.runAll_eq]
  · obtain ⟨ss, hss⟩ := exists_exchangesIn new _ (span_mem_blockSpansAll _ hdead)
    exact ⟨⟨ss, parsed.program.span⟩, hss, rfl⟩
  · intro p' hp'
    exact ⟨hp'.1.flagged (blockSpans_nodup hsize h) hdead rfl, hp'.2⟩

/-- The flagged body of a loop stands in the else block of a condition inside another loop. Whatever
takes its place, the other statement of the else block prints twice and no variable is set. -/
theorem run_of_flagged_block_exchanged_nested :
    ∃ parsed, parse "@ mewmew: mew - mew ? :: mew; : :: mewmew; @ mew - mew: :: x;;;;" = .ok parsed ∧
      .unreachableLoop ⟨56, 61⟩ ∈ parsed.program.warnings ∧
      ∀ new : Block, (∃ p', parsed.program.Exchanges ⟨56, 61⟩ new p') ∧
        ∀ p', parsed.program.Exchanges ⟨56, 61⟩ new p' →
          parsed.program.ExchangesFlagged (.unreachableLoop ⟨56, 61⟩) new p' ∧
          ∃ m, p'.run 2 ⟨.empty, .unbounded⟩ = .ok () m ∧ m.output.written = "2\n2\n" ∧
            m.vars.toList = [] := by
  obtain ⟨parsed, hparse, hw, hrun⟩ : ∃ parsed,
      parse "@ mewmew: mew - mew ? :: mew; : :: mewmew; @ mew - mew: :: x;;;;" = .ok parsed ∧
        .unreachableLoop ⟨56, 61⟩ ∈ parsed.program.warnings ∧
        ∃ m, parsed.program.run 2 ⟨.empty, .unbounded⟩ = .ok () m ∧
          m.output.written = "2\n2\n" ∧ m.vars.toList = [] := by
    refine ⟨_, by cbv, ?_, ?_⟩
    · rw [Program.warnings, Warning.sort, List.mem_mergeSort]
      apply List.mem_append_left
      decide +kernel
    · exact ⟨_, by rfl, by decide +kernel, by decide +kernel⟩
  refine ⟨parsed, hparse, hw, fun new => ?_⟩
  obtain ⟨-, hsame, hplace⟩ := run_of_flagged_block_exchanged hparse hw trivial new
  obtain ⟨hexists, hflagged⟩ := hplace (by cbv)
  refine ⟨hexists, fun p' hp' => ⟨hflagged p' hp', ?_⟩⟩
  rw [hsame p' (hflagged p' hp')]
  exact hrun

end CatLang
