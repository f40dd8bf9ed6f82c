import CatLang.Proofs.Reading
import CatLang.Proofs.Running
import CatLang.Proofs.Simulation

/-! A text that stands further on in a longer one. The lexer, the readings of trees and the runs
know of a place only where it is, so all places of a text move with it: those of its tokens
(`readings_shift`), of its statements (`StatementsFrom.shift`) and of the errors they end with
(`runAll_shift`). -/
namespace CatLang

/-- The same stretch, `k` bytes further on. -/
def Span.shift (s : Span) (k : Nat) : Span := ⟨s.start + k, s.stop + k⟩

namespace Span
variable (s : Span) (j k : Nat)

@[simp] theorem start_shift : (s.shift k).start = s.start + k := rfl

@[simp] theorem stop_shift : (s.shift k).stop = s.stop + k := rfl

@[simp] theorem shift_zero : s.shift 0 = s := rfl

@[simp] theorem shift_shift : (s.shift j).shift k = s.shift (j + k) := by
  simp [shift, Nat.add_assoc]

end Span

def Located.shift {α : Type} (t : Located α) (k : Nat) : Located α := ⟨t.value, t.span.shift k⟩

def LexResult.shift (k : Nat) (r : LexResult) : LexResult := r.move (· + k)

namespace Lexer

/-- Windows on a text and on the same text `k` bytes further on, where offsets do not start again
from zero. -/
def Moved (k : Nat) (l m : Lexer (List (Nat × Char))) : Prop :=
  ∃ o text, o + k + Text.byteLength text < 4294967296 ∧ l = onText o text ∧
    m = onText (o + k) text

theorem alike_moved (k : Nat) : Alike (· + k) (Moved k) where
  ch := by
    rintro l m ⟨o, text, -, rfl, rfl⟩
    exact .inl rfl
  nextCh := by
    rintro l m ⟨o, text, -, rfl, rfl⟩ -
    exact .inl rfl
  position := by
    rintro l m ⟨o, text, hsize, rfl, rfl⟩
    rw [position_onText, position_onText, Span.wrap_eq (by omega), Span.wrap_eq (by omega)]
  step := by
    rintro l m ⟨o, _ | ⟨c, text⟩, hsize, rfl, rfl⟩ hl
    · exact absurd rfl hl
    · rw [Text.byteLength] at hsize
      refine ⟨o + c.utf8Size, text, by omega, step_onText o text c, ?_⟩
      rw [step_onText, Nat.add_right_comm]

/-- A text is read alike wherever it stands. -/
theorem readings_shift {o k : Nat} {text : List Char}
    (h : o + k + Text.byteLength text < 4294967296) :
    (onText (o + k) text).readings.map (·.1) =
      (onText o text).readings.map fun r => r.1.shift k := by
  refine (alike_moved k).readings (fun h => ?_) (fun h hl => ?_) ⟨o, text, h, rfl, rfl⟩
  · obtain ⟨o, text, -, rfl, rfl⟩ := h
    rfl
  · have hmoved := h
    obtain ⟨o, _ | ⟨c, text⟩, -, rfl, rfl⟩ := h
    · rw [read, read, ch_onText, ch_onText]
      refine (alike_moved k).token hmoved ?_ _
      rwa [step_onText_nil, step_onText_nil]
    · cases hl

end Lexer

namespace Expr

/-- The same expression, every place in it `k` bytes further on. -/
def shift (k : Nat) : Expr → Expr
  | name text span => .name text (span.shift k)
  | number raw span => .number raw (span.shift k)
  | unary op operand span => .unary op (operand.shift k) (span.shift k)
  | binary left op right span => .binary (left.shift k) op (right.shift k) (span.shift k)
  | group inner span => .group (inner.shift k) (span.shift k)

@[simp] theorem span_shift (k : Nat) (e : Expr) : (e.shift k).span = e.span.shift k := by
  cases e <;> rfl

@[simp] theorem bare_shift (k : Nat) (e : Expr) : (e.shift k).bare = e.bare := by
  induction e with
  | name text span => rfl
  | number raw span => rfl
  | unary op operand span ih => simp only [shift, bare, ih]
  | binary left op right span ihl ihr => simp only [shift, bare, ihl, ihr]
  | group inner span ih => simp only [shift, bare, ih]

@[simp] theorem shift_zero (e : Expr) : e.shift 0 = e := by
  induction e with
  | name text span => rfl
  | number raw span => rfl
  | unary op operand span ih => simp only [shift, Span.shift_zero, ih]
  | binary left op right span ihl ihr => simp only [shift, Span.shift_zero, ihl, ihr]
  | group inner span ih => simp only [shift, Span.shift_zero, ih]

@[simp] theorem shift_shift (j k : Nat) (e : Expr) : (e.shift j).shift k = e.shift (j + k) := by
  induction e with
  | name text span => simp only [shift, Span.shift_shift]
  | number raw span => simp only [shift, Span.shift_shift]
  | unary op operand span ih => simp only [shift, Span.shift_shift, ih]
  | binary left op right span ihl ihr => simp only [shift, Span.shift_shift, ihl, ihr]
  | group inner span ih => simp only [shift, Span.shift_shift, ih]

theorem ReadFrom.shift (k : Nat) {e : Expr} {ts : List (Located Token)} (h : e.ReadFrom ts) :
    (e.shift k).ReadFrom (ts.map (·.shift k)) := by
  induction h with
  | name => exact .name
  | number => exact .number
  | @unary op operand sign ts _ ih =>
    have h := @ReadFrom.unary op _ (sign.shift k) _ ih
    rwa [span_shift] at h
  | @binary left right op sign ts us _ _ ihl ihr =>
    have h := @ReadFrom.binary _ _ op (sign.shift k) _ _ ihl ihr
    rw [span_shift, span_shift] at h
    rwa [List.map_append, List.map_cons]
  | @group inner opening closing ts _ ih =>
    have h := @ReadFrom.group _ (opening.shift k) (closing.shift k) _ ih
    rwa [List.map_cons, List.map_append]

end Expr

mutual
/-- The same statement, every place in it `k` bytes further on. -/
def Statement.shift (k : Nat) : Statement → Statement
  | .assign target value span => .assign (target.shift k) (value.shift k) (span.shift k)
  | .print value span => .print (value.shift k) (span.shift k)
  | .branch condition ⟨body, place⟩ none span =>
    .branch (condition.shift k) ⟨shiftAll k body, place.shift k⟩ none (span.shift k)
  | .branch condition ⟨body, place⟩ (some ⟨otherwise, place'⟩) span =>
    .branch (condition.shift k) ⟨shiftAll k body, place.shift k⟩
      (some ⟨shiftAll k otherwise, place'.shift k⟩) (span.shift k)
  | .loop count ⟨body, place⟩ span =>
    .loop (count.shift k) ⟨shiftAll k body, place.shift k⟩ (span.shift k)

def shiftAll (k : Nat) : List Statement → List Statement
  | [] => []
  | s :: rest => s.shift k :: shiftAll k rest
end

theorem shiftAll_eq_map (k : Nat) (ss : List Statement) : shiftAll k ss = ss.map (·.shift k) := by
  induction ss with
  | nil => rfl
  | cons s rest ih => rw [shiftAll, ih, List.map_cons]

theorem shiftAll_append (k : Nat) (ss ts : List Statement) :
    shiftAll k (ss ++ ts) = shiftAll k ss ++ shiftAll k ts := by
  simp only [shiftAll_eq_map, List.map_append]

@[simp] theorem Statement.span_shift (k : Nat) (s : Statement) :
    (s.shift k).span = s.span.shift k := by
  obtain _ | _ | ⟨_, ⟨_, _⟩, _ | ⟨_, _⟩, _⟩ | ⟨_, ⟨_, _⟩, _⟩ := s <;> rfl

mutual
theorem Statement.bare_shift (k : Nat) : ∀ s : Statement, (s.shift k).bare = s.bare
  | .assign _ _ _ => by simp [Statement.shift, Statement.bare, Located.shift]
  | .print _ _ => by simp [Statement.shift, Statement.bare]
  | .branch _ ⟨body, _⟩ none _ => by
    simp [Statement.shift, Statement.bare, bareAll_shiftAll k body]
  | .branch _ ⟨body, _⟩ (some ⟨otherwise, _⟩) _ => by
    simp [Statement.shift, Statement.bare, bareAll_shiftAll k body, bareAll_shiftAll k otherwise]
  | .loop _ ⟨body, _⟩ _ => by simp [Statement.shift, Statement.bare, bareAll_shiftAll k body]

theorem bareAll_shiftAll (k : Nat) : ∀ ss : List Statement, bareAll (shiftAll k ss) = bareAll ss
  | [] => rfl
  | s :: rest => by rw [shiftAll, bareAll, s.bare_shift k, bareAll_shiftAll k rest, bareAll]
end

mutual
theorem Statement.shift_zero : ∀ s : Statement, s.shift 0 = s
  | .assign _ _ _ => by simp [Statement.shift, Located.shift]
  | .print _ _ => by simp [Statement.shift]
  | .branch _ ⟨body, _⟩ none _ => by simp [Statement.shift, shiftAll_zero body]
  | .branch _ ⟨body, _⟩ (some ⟨otherwise, _⟩) _ => by
    simp [Statement.shift, shiftAll_zero body, shiftAll_zero otherwise]
  | .loop _ ⟨body, _⟩ _ => by simp [Statement.shift, shiftAll_zero body]

theorem shiftAll_zero : ∀ ss : List Statement, shiftAll 0 ss = ss
  | [] => rfl
  | s :: rest => by rw [shiftAll, s.shift_zero, shiftAll_zero rest]
end

mutual
theorem Statement.shift_shift (j k : Nat) : ∀ s : Statement, (s.shift j).shift k = s.shift (j + k)
  | .assign _ _ _ => by simp [Statement.shift, Located.shift]
  | .print _ _ => by simp [Statement.shift]
  | .branch _ ⟨body, _⟩ none _ => by simp [Statement.shift, shiftAll_shiftAll j k body]
  | .branch _ ⟨body, _⟩ (some ⟨otherwise, _⟩) _ => by
    simp [Statement.shift, shiftAll_shiftAll j k body, shiftAll_shiftAll j k otherwise]
  | .loop _ ⟨body, _⟩ _ => by simp [Statement.shift, shiftAll_shiftAll j k body]

theorem shiftAll_shiftAll (j k : Nat) :
    ∀ ss : List Statement, shiftAll k (shiftAll j ss) = shiftAll (j + k) ss
  | [] => rfl
  | s :: rest => by
    rw [shiftAll, shiftAll, s.shift_shift j k, shiftAll_shiftAll j k rest, shiftAll]
end

theorem startOf_shiftAll (k : Nat) {ss : List Statement} (h : ss ≠ []) :
    startOf (shiftAll k ss) = startOf ss + k := by
  cases ss with
  | nil => exact absurd rfl h
  | cons s rest => simp [shiftAll, startOf]

theorem stopOf_shift (k : Nat) {ts : List (Located Token)} (h : ts ≠ []) :
    stopOf (ts.map (·.shift k)) = stopOf ts + k := by
  simp [stopOf, List.getLast?_eq_some_getLast h, Located.shift]

theorem StatementsFrom.ne_nil {ss : List Statement} {ts : List (Located Token)}
    (h : StatementsFrom ss ts) (hss : ss ≠ []) : ts ≠ [] := by
  cases h with
  | nil => exact absurd rfl hss
  | cons hs hrest => simp

/-- The place of a block moves with its statements and tokens; an empty one would not move. -/
theorem StatementsFrom.span_shift (k : Nat) {ss : List Statement} {ts : List (Located Token)}
    (h : StatementsFrom ss ts) (hss : ss ≠ []) :
    (⟨startOf (shiftAll k ss), stopOf (ts.map (·.shift k))⟩ : Span) =
      (⟨startOf ss, stopOf ts⟩ : Span).shift k := by
  rw [startOf_shiftAll k hss, stopOf_shift k (h.ne_nil hss)]
  rfl

mutual
theorem Statement.ReadFrom.shift (k : Nat) {s : Statement} {ts : List (Located Token)} :
    s.ReadFrom ts → s.Filled → (s.shift k).ReadFrom (ts.map (·.shift k))
  | @Statement.ReadFrom.assign target value sign ts hv, _ => by
    have h := @Statement.ReadFrom.assign (target.shift k) _ (sign.shift k) _ (hv.shift k)
    rwa [Expr.span_shift] at h
  | @Statement.ReadFrom.print value sign ts hv, _ => by
    have h := @Statement.ReadFrom.print _ (sign.shift k) _ (hv.shift k)
    rwa [Expr.span_shift] at h
  | @Statement.ReadFrom.branch condition body mark ts us hc hb, hf => by
    have h := @Statement.ReadFrom.branch _ _ (mark.shift k) _ _ (hc.shift k) (hb.shift k hf.2)
    rw [Expr.span_shift, hb.span_shift k hf.1, stopOf_shift k (hb.ne_nil hf.1)] at h
    rwa [List.map_append, List.map_cons]
  | @Statement.ReadFrom.branchElse condition body otherwise mark colon ts us vs hc hb ho, hf => by
    have h := @Statement.ReadFrom.branchElse _ _ _ (mark.shift k) (colon.shift k) _ _ _
      (hc.shift k) (hb.shift k hf.1.2) (ho.shift k hf.2.2)
    rw [Expr.span_shift, hb.span_shift k hf.1.1, ho.span_shift k hf.2.1,
      stopOf_shift k (ho.ne_nil hf.2.1)] at h
    rwa [List.map_append, List.map_cons, List.map_append, List.map_cons]
  | @Statement.ReadFrom.loop count body sign colon ts us hc hb, hf => by
    have h := @Statement.ReadFrom.loop _ _ (sign.shift k) (colon.shift k) _ _
      (hc.shift k) (hb.shift k hf.2)
    rw [hb.span_shift k hf.1, stopOf_shift k (hb.ne_nil hf.1)] at h
    rwa [List.map_cons, List.map_append, List.map_cons]

theorem StatementsFrom.shift (k : Nat) {ss : List Statement} {ts : List (Located Token)} :
    StatementsFrom ss ts → FilledAll ss → StatementsFrom (shiftAll k ss) (ts.map (·.shift k))
  | .nil, _ => .nil
  | @StatementsFrom.cons s rest mark ts us hs hrest, hf => by
    rw [List.map_append, List.map_cons]
    exact .cons (hs.shift k hf.1) (hrest.shift k hf.2)
end

def RunError.shift (k : Nat) : RunError → RunError
  | undeclared name span => .undeclared name (span.shift k)
  | output fault => .output fault

def Stop.shift (k : Nat) : Stop → Stop
  | failed error => .failed (error.shift k)
  | unfinished => .unfinished

theorem Expr.eval_shift (k : Nat) (vars : Table) (e : Expr) :
    (e.shift k).eval vars = (e.eval vars).mapError (·.shift k) := by
  induction e with
  | name text span =>
    simp only [shift, eval]
    cases vars.get? text <;> rfl
  | number raw span => rfl
  | unary op operand span ih =>
    simp only [shift, eval, ih]
    cases operand.eval vars <;> rfl
  | binary left op right span ihl ihr =>
    simp only [shift, eval, ihl, ihr]
    cases left.eval vars with
    | error e => rfl
    | ok l => cases right.eval vars <;> rfl
  | group inner span ih => simpa only [shift, eval] using ih

namespace Run
variable {α β : Type}

/-- The same run; an error of it stands `k` bytes further on. -/
def shift (k : Nat) (x : Run α) : Run α := fun m =>
  match x m with
  | .ok a m => .ok a m
  | .error stop m => .error (stop.shift k) m

theorem pure_shift (k : Nat) (a : α) : shift k (pure a) = pure a := rfl

theorem bind_shift (k : Nat) (x : Run α) (f : α → Run β) :
    shift k (x >>= f) = shift k x >>= fun a => shift k (f a) := by
  funext m
  cases hx : x m with
  | ok a m' =>
    have hs : shift k x m = .ok a m' := by rw [shift, hx]
    rw [bind_of_ok hs, shift, bind_of_ok hx]
    rfl
  | error stop m' =>
    have hs : shift k x m = .error (stop.shift k) m' := by rw [shift, hx]
    rw [bind_of_error hs, shift, bind_of_error hx]

theorem value_shift (k : Nat) (e : Expr) : value (e.shift k) = shift k (value e) := by
  funext m
  rw [shift, value, value, Expr.eval_shift]
  cases e.eval m.vars <;> rfl

theorem printLine_shift (k limit : Nat) (v : Value) :
    shift k (printLine limit v) = printLine limit v := by
  funext m
  rw [shift, printLine]
  obtain ⟨_ | _ | _, output⟩ := m.output.write limit (v.text ++ "\n") <;> rfl

theorem loop_shift (k : Nat) (count : Value) (x : Run Unit) (limit : Nat) (number : UInt64) :
    loop count (shift k x) limit number = shift k (loop count x limit number) := by
  induction limit generalizing number with
  | zero =>
    by_cases h : number.toFloat ≤ count
    · rw [loop_zero h, loop_zero h]
      rfl
    · rw [loop_of_not_le h, loop_of_not_le h, pure_shift]
  | succ limit ih =>
    by_cases h : number.toFloat ≤ count
    · rw [loop_succ h, loop_succ h, bind_shift, ih]
    · rw [loop_of_not_le h, loop_of_not_le h, pure_shift]

end Run

section
variable {limit : Nat}

mutual
/-- A statement runs alike wherever it stands, up to the place of its error. -/
theorem Statement.run_shift (k : Nat) :
    ∀ s : Statement, (s.shift k).run limit = Run.shift k (s.run limit)
  | .assign target value _ => by
    simp only [Statement.shift, Statement.run, Run.value_shift, Run.bind_shift]
    rfl
  | .print value _ => by
    simp only [Statement.shift, Statement.run, Run.value_shift, Run.bind_shift,
      Run.printLine_shift, Run.pure_shift]
  | .branch condition ⟨body, _⟩ none _ => by
    simp only [Statement.shift, Statement.run_branch, Run.value_shift, Run.bind_shift,
      runAll_shift k body, elseStatements, apply_ite (Run.shift k), Run.pure_shift]
    rfl
  | .branch condition ⟨body, _⟩ (some ⟨otherwise, _⟩) _ => by
    simp only [Statement.shift, Statement.run_branch, Run.value_shift, Run.bind_shift,
      runAll_shift k body, runAll_shift k otherwise, elseStatements, apply_ite (Run.shift k),
      Run.pure_shift]
  | .loop count ⟨body, _⟩ _ => by
    simp only [Statement.shift, Statement.run_loop, Run.value_shift, Run.bind_shift,
      runAll_shift k body, Run.loop_shift, Run.pure_shift]

theorem runAll_shift (k : Nat) :
    ∀ ss : List Statement, runAll limit (shiftAll k ss) = Run.shift k (runAll limit ss)
  | [] => rfl
  | s :: rest => by
    simp only [shiftAll, runAll, s.run_shift k, runAll_shift k rest, Run.bind_shift]
end

end

end CatLang
