import CatLang.Proofs.Inner

/-! Where warnings and failed runs come from in the tree. A warning stands at a block, or at the
target of an assignment (`Program.exists_node_of_warning`); a run that wants a variable stops at an
expression that reads it (`Program.stopsAtRead_run`). -/
namespace CatLang

/-! Warnings stand at blocks and at assigned names. -/

theorem firstTargets_sublist (targets : List Name) : (firstTargets targets).Sublist targets := by
  induction targets with
  | nil => exact List.Sublist.refl _
  | cons target rest ih =>
    rw [firstTargets]
    exact (List.filter_sublist.trans ih).cons_cons target

/-- A warning stands at a block, or at the target of an assignment whose name it gives. -/
theorem Program.exists_node_of_warning {p : Program} {w : Warning} (h : w ∈ p.warnings) :
    (∃ b, (Node.program p).Contains (.block b) ∧ b.span = w.span ∧ w.FlagsBlock) ∨
      ∃ name, (Node.program p).Contains (.target name) ∧
        w = .unusedVariable name.value name.span := by
  rw [warnings, Warning.sort, List.mem_mergeSort] at h
  rcases List.mem_append.1 h with h | h
  · left
    rw [deadBlocksAll_eq] at h
    obtain ⟨s, hs, hw⟩ := List.mem_flatMap.1 h
    obtain ⟨b, hb, hspan, hflags⟩ := s.exists_block_of_mem_flagged hw
    exact ⟨b, (mem_withInner_iff.1 hs).block b hb, hspan.symm, hflags⟩
  · right
    obtain ⟨name, hname, rfl⟩ := List.mem_map.1 h
    have htarget := (firstTargets_sublist _).subset (List.mem_of_mem_filter hname)
    exact ⟨name, mem_targets_iff.1 htarget, rfl⟩

/-! A run stops at a name that is read in the program. -/

/-- An expression fails only for a name in it that has no value. -/
theorem Expr.exists_read_of_error {root : Node} {vars : Table} {e : Expr} {err : RunError}
    (h : root.Contains (.expr e)) (heval : e.eval vars = .error err) :
    ∃ name span, err = .undeclared name span ∧ root.Contains (.expr (.name name span)) ∧
      vars.get? name = none := by
  induction e with
  | name text span =>
    rw [eval] at heval
    cases hget : vars.get? text with
    | none =>
      rw [hget] at heval
      cases heval
      exact ⟨text, span, rfl, h, hget⟩
    | some v =>
      rw [hget] at heval
      cases heval
  | number raw span => cases heval
  | unary op operand span ih =>
    cases hv : operand.eval vars with
    | ok v =>
      rw [eval, hv] at heval
      cases heval
    | error err' =>
      rw [eval, hv] at heval
      cases heval
      exact ih h.operand hv
  | binary left op right span ihl ihr =>
    obtain ⟨hleft, hright⟩ := h.operands
    cases hl : left.eval vars with
    | error err' =>
      rw [eval, hl] at heval
      cases heval
      exact ihl hleft hl
    | ok l =>
      cases hr : right.eval vars with
      | error err' =>
        rw [eval, hl, hr] at heval
        cases heval
        exact ihr hright hr
      | ok r =>
        rw [eval, hl, hr] at heval
        cases heval
  | group inner span ih => exact ih h.inner heval

namespace Run
variable {α β : Type} {root : Node}

/-- If the run stops for want of a variable, its name is read in the tree, at the place the error
gives, and has no value when the run ends. -/
def StopsAtRead (root : Node) (x : Run α) : Prop :=
  ∀ m name span m', x m = .error (.failed (.undeclared name span)) m' →
    root.Contains (.expr (.name name span)) ∧ m'.vars.get? name = none

namespace StopsAtRead

theorem pure (a : α) : StopsAtRead root (Pure.pure a : Run α) := by
  intro m name span m' h
  cases h

theorem bind {x : Run α} {f : α → Run β} (hx : StopsAtRead root x)
    (hf : ∀ a, StopsAtRead root (f a)) : StopsAtRead root (x >>= f) := by
  intro m name span m' h
  cases hm : x m with
  | ok a m₁ =>
    rw [bind_of_ok hm] at h
    exact hf a m₁ name span m' h
  | error e m₁ =>
    rw [bind_of_error hm] at h
    cases h
    exact hx m name span m' hm

theorem value {e : Expr} (he : root.Contains (.expr e)) : StopsAtRead root (value e) := by
  intro m name span m' h
  rw [Run.value] at h
  cases hv : e.eval m.vars with
  | ok v =>
    rw [hv] at h
    cases h
  | error err =>
    rw [hv] at h
    obtain ⟨name', span', rfl, hread, hget⟩ := Expr.exists_read_of_error he hv
    cases h
    exact ⟨hread, hget⟩

theorem assign (name : String) (v : Value) : StopsAtRead root (assign name v) := by
  intro m name' span m' h
  cases h

theorem printLine (limit : Nat) (v : Value) : StopsAtRead root (printLine limit v) := by
  intro m name span m' h
  rw [Run.printLine] at h
  split at h <;> cases h

theorem flush : StopsAtRead root flush := by
  intro m name span m' h
  rw [Run.flush] at h
  split at h <;> cases h

theorem unfinished : StopsAtRead root unfinished := by
  intro m name span m' h
  cases h

theorem loop {x : Run Unit} (hx : StopsAtRead root x) (count : Value) (limit : Nat)
    (number : UInt64) : StopsAtRead root (loop count x limit number) :=
  loop_induction (StopsAtRead.pure ()) unfinished (fun _ hnext => hx.bind fun _ => hnext) limit
    number

end StopsAtRead

end Run

section
variable {root : Node} {limit : Nat}

mutual
theorem Statement.stopsAtRead_run : ∀ s : Statement, root.Contains (.statement s) →
    (s.run limit).StopsAtRead root
  | .assign target _ _, h => by
    rw [Statement.run]
    exact (Run.StopsAtRead.value h.assigned).bind fun v =>
      (Run.StopsAtRead.assign target.value v).bind fun _ => .pure _
  | .print _ _, h => by
    rw [Statement.run]
    exact (Run.StopsAtRead.value h.printed).bind fun v =>
      (Run.StopsAtRead.printLine limit v).bind fun _ => .pure _
  | .branch _ ⟨body, _⟩ none _, h => by
    rw [Statement.run_branch]
    refine (Run.StopsAtRead.value h.condition).bind fun v => ?_
    split
    · exact (stopsAtRead_runAll body h.body.statement_of_block).bind fun _ => .pure _
    · exact (Run.StopsAtRead.pure ()).bind fun _ => .pure _
  | .branch _ ⟨body, _⟩ (some ⟨otherwise, _⟩) _, h => by
    rw [Statement.run_branch]
    refine (Run.StopsAtRead.value h.condition).bind fun v => ?_
    split
    · exact (stopsAtRead_runAll body h.body.statement_of_block).bind fun _ => .pure _
    · exact (stopsAtRead_runAll otherwise h.otherwise.statement_of_block).bind fun _ => .pure _
  | .loop _ ⟨body, _⟩ _, h => by
    rw [Statement.run_loop]
    exact (Run.StopsAtRead.value h.count).bind fun v =>
      ((stopsAtRead_runAll body h.round.statement_of_block).loop v limit 1).bind fun _ => .pure _

theorem stopsAtRead_runAll : ∀ ss : List Statement, (∀ s ∈ ss, root.Contains (.statement s)) →
    (runAll limit ss).StopsAtRead root
  | [], _ => .pure ()
  | s :: rest, h => by
    obtain ⟨hs, hrest⟩ := List.forall_mem_cons.1 h
    rw [runAll]
    exact (s.stopsAtRead_run hs).bind fun _ => stopsAtRead_runAll rest hrest
end

end

theorem Program.stopsAtRead_run (limit : Nat) (p : Program) :
    (p.run limit).StopsAtRead (.program p) := by
  rw [Program.run]
  exact (stopsAtRead_runAll p.statements Node.Contains.root.statement_of_program).bind
    fun _ => .flush

end CatLang
