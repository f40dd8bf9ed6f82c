import CatLang.Proofs.DeadBlocks
import CatLang.Proofs.SideBySide

/-! A program depends only on the variables it reads. Two runs from tables that agree on the names
read anywhere in the program print the same and end the same way. A variable that is never read may
differ, but only as long as neither run has assigned it; so a variable that a warning calls unused
has no influence at all. -/
namespace CatLang

namespace Expr

theorem eval_of_agree {e : Expr} {vars vars' : Table}
    (h : ∀ name ∈ e.reads, vars.get? name = vars'.get? name) : e.eval vars = e.eval vars' := by
  induction e with
  | name text span => simp only [eval, h text (List.mem_singleton_self text)]
  | number raw span => rfl
  | unary op operand span ih => simp only [eval, ih h]
  | binary left op right span ihl ihr =>
    obtain ⟨hl, hr⟩ := List.forall_mem_append.1 h
    simp only [eval, ihl hl, ihr hr]
  | group inner span ih => exact ih h

end Expr

/-- The machines of two runs that started from these tables. They differ in variables that are not
among `names`, and in those only where both runs have left them alone. -/
structure Alike (names : List String) (start start' : Table) (m m' : Machine) : Prop where
  output : m.output = m'.output
  agree : ∀ name ∈ names, m.vars.get? name = m'.vars.get? name
  untouched : ∀ name, m.vars.get? name = m'.vars.get? name ∨
    m.vars.get? name = start.get? name ∧ m'.vars.get? name = start'.get? name

namespace Alike
variable {names : List String} {start start' : Table}

theorem initial (o : Output) (h : ∀ name ∈ names, start.get? name = start'.get? name) :
    Alike names start start' ⟨start, o⟩ ⟨start', o⟩ where
  output := rfl
  agree := h
  untouched _ := .inr ⟨rfl, rfl⟩

theorem respects_value {e : Expr} (he : e.reads ⊆ names) :
    (Run.value e).Respects (Alike names start start') := by
  intro m m' h
  have heval := Expr.eval_of_agree fun name hname => h.agree name (he hname)
  unfold Run.value
  rw [heval]
  cases e.eval m'.vars with
  | ok v => exact ⟨rfl, h⟩
  | error err => exact ⟨rfl, h⟩

/-- An assigned variable is the same in both from then on. -/
theorem respects_assign (target : String) (v : Value) :
    (Run.assign target v).Respects (Alike names start start') := by
  intro m m' h
  refine ⟨rfl, h.output, fun name hname => ?_, fun name => ?_⟩
  · simp only [Run.assign, Run.endOf, Table.get?_set, h.agree name hname]
  · by_cases ht : name = target
    · left
      simp only [Run.assign, Run.endOf, Table.get?_set, if_pos ht]
    · simp only [Run.assign, Run.endOf, Table.get?_set, if_neg ht]
      exact h.untouched name

theorem respects_printLine (limit : Nat) (v : Value) :
    (Run.printLine limit v).Respects (Alike names start start') := by
  intro m m' h
  unfold Run.printLine
  rw [← h.output]
  rcases m.output.write limit (v.text ++ "\n") with ⟨_ | _ | _, output⟩ <;>
    exact ⟨rfl, rfl, h.agree, h.untouched⟩

theorem respects_flush : Run.flush.Respects (Alike names start start') := by
  intro m m' h
  unfold Run.flush
  rw [← h.output]
  cases m.output.flush with
  | ok _ => exact ⟨rfl, h⟩
  | error fault => exact ⟨rfl, h⟩

theorem keeps : Run.Keeps names (Alike names start start') :=
  ⟨fun _ => respects_value, respects_assign, respects_printLine⟩

end Alike

theorem Program.respects_run (limit : Nat) (p : Program) (start start' : Table) :
    (p.run limit).Respects (Alike p.reads start start') :=
  (respects_runAll Alike.keeps p.statements (List.Subset.refl _)).bind fun _ =>
    Alike.respects_flush

namespace Program

theorem not_mem_reads_of_unused {p : Program} {name : String} {span : Span}
    (h : .unusedVariable name span ∈ p.warnings) : name ∉ p.reads := by
  rw [warnings, Warning.sort, List.mem_mergeSort, List.mem_append] at h
  rcases h with h | h
  · exact absurd (flagsBlock_of_mem_all p.statements h) id
  · obtain ⟨target, htarget, heq⟩ := List.mem_map.1 h
    cases heq
    simpa using (List.mem_filter.1 htarget).2

/-- A program depends only on the names it reads. If two tables agree on these, the runs from them
print the same and end the same way, and a variable is the same in the end unless both runs have
left it as it was. So what an unused variable holds at the start matters to no other variable, and
neither to the output nor to the result. -/
theorem run_of_agree_on_reads (p : Program) (limit : Nat) (o : Output) :
    (∀ start start' : Table, (∀ name ∈ p.reads, start.get? name = start'.get? name) →
      let r := p.run limit ⟨start, o⟩
      let r' := p.run limit ⟨start', o⟩
      Run.resultOf r = Run.resultOf r' ∧ (Run.endOf r).output = (Run.endOf r').output ∧
        ∀ name, (Run.endOf r).vars.get? name = (Run.endOf r').vars.get? name ∨
          (Run.endOf r).vars.get? name = start.get? name ∧
            (Run.endOf r').vars.get? name = start'.get? name) ∧
    ∀ (unused : String) (span : Span), .unusedVariable unused span ∈ p.warnings →
      ∀ start start' : Table, (∀ name, name ≠ unused → start.get? name = start'.get? name) →
        let r := p.run limit ⟨start, o⟩
        let r' := p.run limit ⟨start', o⟩
        Run.resultOf r = Run.resultOf r' ∧ (Run.endOf r).output = (Run.endOf r').output ∧
          ∀ name, name ≠ unused →
            (Run.endOf r).vars.get? name = (Run.endOf r').vars.get? name := by
  constructor
  · intro start start' h
    obtain ⟨hresult, hend⟩ := p.respects_run limit start start' _ _ (.initial o h)
    exact ⟨hresult, hend.output, hend.untouched⟩
  · intro unused span hw start start' h
    have hagree : ∀ name ∈ p.reads, start.get? name = start'.get? name := by
      intro name hname
      apply h
      rintro rfl
      exact not_mem_reads_of_unused hw hname
    obtain ⟨hresult, hend⟩ := p.respects_run limit start start' _ _ (.initial o hagree)
    refine ⟨hresult, hend.output, fun name hname => ?_⟩
    rcases hend.untouched name with hsame | ⟨hleft, hright⟩
    · exact hsame
    · rw [hleft, hright, h name hname]

/-- The loop assigns `y` in every round, and nobody reads it. Whatever it was at the start, the run
prints the same, stops at the same place and leaves the same. -/
theorem run_of_agree_on_reads_loop :
    ∃ parsed, parse "@ n: :: x; y = x; x = x + n;; :: z;" = .ok parsed ∧
      .unusedVariable "y" ⟨11, 12⟩ ∈ parsed.program.warnings ∧
      let start := (Table.empty.set "n" 2).set "x" 1
      let r := parsed.program.run 2 ⟨start, .unbounded⟩
      Run.resultOf r = .error (.failed (.undeclared "z" ⟨33, 34⟩)) ∧
      (Run.endOf r).output.written = "1\n3\n" ∧
      (Run.endOf r).vars.toList = [("n", 2), ("x", 5), ("y", 3)] ∧
      ∀ v : Value,
        let r' := parsed.program.run 2 ⟨start.set "y" v, .unbounded⟩
        Run.resultOf r' = .error (.failed (.undeclared "z" ⟨33, 34⟩)) ∧
        (Run.endOf r').output.written = "1\n3\n" ∧
        ∀ name, (Run.endOf r').vars.get? name = (Run.endOf r).vars.get? name := by
  obtain ⟨parsed, hparse, hw, hresult, houtput, hvars, hy⟩ : ∃ parsed,
      parse "@ n: :: x; y = x; x = x + n;; :: z;" = .ok parsed ∧
      .unusedVariable "y" ⟨11, 12⟩ ∈ parsed.program.warnings ∧
      let r := parsed.program.run 2 ⟨(Table.empty.set "n" 2).set "x" 1, .unbounded⟩
      Run.resultOf r = .error (.failed (.undeclared "z" ⟨33, 34⟩)) ∧
      (Run.endOf r).output.written = "1\n3\n" ∧
      (Run.endOf r).vars.toList = [("n", 2), ("x", 5), ("y", 3)] ∧
      (Run.endOf r).vars.get? "y" = some 3 := by
    refine ⟨_, by cbv, ?_, by rfl, by decide +kernel, by decide +kernel, by decide +kernel⟩
    rw [warnings, Warning.sort, List.mem_mergeSort]
    apply List.mem_append_right
    decide +kernel
  refine ⟨parsed, hparse, hw, ?_⟩
  intro start r
  refine ⟨hresult, houtput, hvars, fun v => ?_⟩
  have hother : ∀ name, name ≠ "y" → start.get? name = (start.set "y" v).get? name := by
    intro name hname
    rw [Table.get?_set start, if_neg hname]
  have hreads : ∀ name ∈ parsed.program.reads, start.get? name = (start.set "y" v).get? name := by
    intro name hname
    apply hother
    rintro rfl
    exact not_mem_reads_of_unused hw hname
  obtain ⟨hread, hunused⟩ := run_of_agree_on_reads parsed.program 2 .unbounded
  obtain ⟨hresult', houtput', hrest⟩ := hunused _ _ hw _ _ hother
  refine ⟨hresult'.symm.trans hresult, houtput' ▸ houtput, fun name => ?_⟩
  by_cases hname : name = "y"
  · -- It is not in the first start, so the run has assigned it.
    subst hname
    rcases (hread _ _ hreads).2.2 "y" with hsame | ⟨hkept, -⟩
    · exact hsame.symm
    · have hnone : start.get? "y" = none := by decide +kernel
      cases (hy.symm.trans hkept).trans hnone
  · exact (hrest name hname).symm

end Program

end CatLang
