import CatLang.Proofs.Origins
import CatLang.Proofs.SideBySide

/-! The assignments that a run completes. `Statement.assignments` lists them in order, and they are
all that a run does to the variables (`Run.Assigns`). So no variable is ever lost, and one that has
no value in the end never had one; this settles when a run can stop for want of a variable
(`Program.undeclared_of_run`). -/
namespace CatLang

namespace Table

/-- The table after all of these assignments, one after the other. -/
def setAll (t : Table) (sets : List (String × Value)) : Table :=
  sets.foldl (fun t a => t.set a.1 a.2) t

@[simp] theorem setAll_nil (t : Table) : t.setAll [] = t := rfl

@[simp] theorem setAll_singleton (t : Table) (name : String) (v : Value) :
    t.setAll [(name, v)] = t.set name v := rfl

theorem setAll_append (t : Table) (sets more : List (String × Value)) :
    t.setAll (sets ++ more) = (t.setAll sets).setAll more := by
  unfold setAll
  exact List.foldl_append

/-- A name has no value in the end if it had none and was not assigned. -/
theorem get?_setAll_eq_none_iff {t : Table} {sets : List (String × Value)} {name : String} :
    (t.setAll sets).get? name = none ↔ t.get? name = none ∧ ∀ a ∈ sets, a.1 ≠ name := by
  induction sets generalizing t with
  | nil => simp
  | cons a rest ih =>
    change ((t.set a.1 a.2).setAll rest).get? name = none ↔ _
    rw [ih, get?_set, List.forall_mem_cons]
    by_cases h : name = a.1
    · simp [h]
    · simp only [if_neg h, ne_eq, Ne.symm h, not_false_eq_true, true_and]

end Table

namespace Run
variable {α β : Type}

/-- The assignments behind a run, if it succeeds. -/
def assignmentsAfter (x : Run α) (sets : α → Machine → List (String × Value)) (m : Machine) :
    List (String × Value) :=
  match x m with
  | .ok a m' => sets a m'
  | .error _ _ => []

theorem assignmentsAfter_of_ok {x : Run α} {m m' : Machine} {a : α} (h : x m = .ok a m')
    (sets : α → Machine → List (String × Value)) : x.assignmentsAfter sets m = sets a m' := by
  rw [assignmentsAfter, h]

theorem assignmentsAfter_of_error {x : Run α} {m m' : Machine} {stop : Stop}
    (h : x m = .error stop m') (sets : α → Machine → List (String × Value)) :
    x.assignmentsAfter sets m = [] := by
  rw [assignmentsAfter, h]

/-- The assignments of a loop, told from those of one round. -/
def assignmentsOfLoop (count : Value) (x : Run Unit) (sets : Machine → List (String × Value)) :
    (limit : Nat) → (number : UInt64) → Machine → List (String × Value)
  | 0, _ => fun _ => []
  | limit + 1, number =>
    if number.toFloat ≤ count then fun m =>
      sets m ++ x.assignmentsAfter (fun _ => assignmentsOfLoop count x sets limit (number + 1)) m
    else fun _ => []

end Run

mutual
/-- The assignments that a run of the statement completes, in order. One whose value cannot be
worked out is none of them. -/
def Statement.assignments (limit : Nat) : Statement → Machine → List (String × Value)
  | .assign target e _, m => (Run.value e).assignmentsAfter (fun v _ => [(target.value, v)]) m
  | .print _ _, _ => []
  | .branch condition ⟨body, _⟩ none _, m =>
    (Run.value condition).assignmentsAfter
      (fun v m => if v.isTrue then assignmentsAll limit body m else []) m
  | .branch condition ⟨body, _⟩ (some ⟨otherwise, _⟩) _, m =>
    (Run.value condition).assignmentsAfter
      (fun v m =>
        if v.isTrue then assignmentsAll limit body m else assignmentsAll limit otherwise m) m
  | .loop count ⟨body, _⟩ _, m =>
    (Run.value count).assignmentsAfter
      (fun v => Run.assignmentsOfLoop v (runAll limit body) (assignmentsAll limit body) limit 1) m

def assignmentsAll (limit : Nat) : List Statement → Machine → List (String × Value)
  | [], _ => []
  | s :: rest, m =>
    s.assignments limit m ++ (s.run limit).assignmentsAfter (fun _ => assignmentsAll limit rest) m
end

def Program.assignments (limit : Nat) (p : Program) (m : Machine) : List (String × Value) :=
  assignmentsAll limit p.statements m

namespace Run
variable {α β : Type}

/-- These assignments are all that the run does to the variables, whether it succeeds or not. -/
def Assigns (x : Run α) (sets : Machine → List (String × Value)) : Prop :=
  ∀ m, (endOf (x m)).vars = m.vars.setAll (sets m)

namespace Assigns
variable {x : Run α} {f : α → Run β} {sets : Machine → List (String × Value)}
  {more : α → Machine → List (String × Value)}

theorem pure (a : α) : Assigns (Pure.pure a : Run α) fun _ => [] := fun _ => rfl

theorem value (e : Expr) : (value e).Assigns fun _ => [] := by
  intro m
  unfold Run.value
  cases e.eval m.vars <;> rfl

theorem assign (name : String) (v : Value) : (assign name v).Assigns fun _ => [(name, v)] :=
  fun _ => rfl

theorem printLine (limit : Nat) (v : Value) : (printLine limit v).Assigns fun _ => [] := by
  intro m
  unfold Run.printLine
  rcases m.output.write limit (v.text ++ "\n") with ⟨_ | _ | _, output⟩ <;> rfl

theorem flush : Run.flush.Assigns fun _ => [] := by
  intro m
  unfold Run.flush
  cases m.output.flush <;> rfl

theorem bind (hx : x.Assigns sets) (hf : ∀ a, (f a).Assigns (more a)) :
    (x >>= f).Assigns fun m => sets m ++ x.assignmentsAfter more m := by
  intro m
  have hm := hx m
  change _ = m.vars.setAll (sets m ++ x.assignmentsAfter more m)
  cases hrun : x m with
  | error e m' =>
    rw [hrun] at hm
    rw [bind_of_error hrun, assignmentsAfter_of_error hrun, List.append_nil]
    exact hm
  | ok a m' =>
    rw [hrun] at hm
    rw [bind_of_ok hrun, hf a m', assignmentsAfter_of_ok hrun, Table.setAll_append, ← hm]
    rfl

/-- Behind a run that assigns nothing there are only the assignments of what follows. -/
theorem after (hx : x.Assigns fun _ => []) (hf : ∀ a, (f a).Assigns (more a)) :
    (x >>= f).Assigns (x.assignmentsAfter more) :=
  hx.bind hf

/-- What assigns nothing adds nothing. -/
theorem andThen (hx : x.Assigns sets) (hf : ∀ a, (f a).Assigns fun _ => []) :
    (x >>= f).Assigns sets := by
  intro m
  have hm : _ = m.vars.setAll (sets m ++ x.assignmentsAfter (fun _ _ => []) m) := hx.bind hf m
  rw [hm]
  cases hrun : x m with
  | error e m' => rw [assignmentsAfter_of_error hrun, List.append_nil]
  | ok a m' => rw [assignmentsAfter_of_ok hrun, List.append_nil]

theorem unfinished : Run.unfinished.Assigns fun _ => [] := fun _ => rfl

theorem loop {x : Run Unit} (h : x.Assigns sets) (count : Value) (limit : Nat) (number : UInt64) :
    (Run.loop count x limit number).Assigns (assignmentsOfLoop count x sets limit number) := by
  induction limit generalizing number with
  | zero =>
    by_cases htest : number.toFloat ≤ count
    · rw [loop_zero htest]
      exact unfinished
    · rw [loop_of_not_le htest]
      exact pure ()
  | succ limit ih =>
    rw [assignmentsOfLoop]
    by_cases htest : number.toFloat ≤ count
    · rw [loop_succ htest, if_pos htest]
      exact h.bind fun _ => ih (number + 1)
    · rw [loop_of_not_le htest, if_neg htest]
      exact pure ()

end Assigns

end Run

section
variable {limit : Nat}

mutual
theorem Statement.assigns_run : ∀ s : Statement, (s.run limit).Assigns (s.assignments limit)
  | .assign target value _ => by
    rw [Statement.run]
    exact (Run.Assigns.value value).after fun v =>
      (Run.Assigns.assign target.value v).andThen fun _ => .pure none
  | .print value _ => by
    rw [Statement.run]
    exact (Run.Assigns.value value).andThen fun v =>
      (Run.Assigns.printLine limit v).andThen fun _ => .pure none
  | .branch condition ⟨body, _⟩ none _ => by
    rw [Statement.run_branch]
    refine (Run.Assigns.value condition).after fun v => ?_
    cases v.isTrue with
    | true => exact (assigns_runAll body).andThen fun _ => .pure _
    | false => exact (Run.Assigns.pure ()).andThen fun _ => .pure _
  | .branch condition ⟨body, _⟩ (some ⟨otherwise, _⟩) _ => by
    rw [Statement.run_branch]
    refine (Run.Assigns.value condition).after fun v => ?_
    cases v.isTrue with
    | true => exact (assigns_runAll body).andThen fun _ => .pure _
    | false => exact (assigns_runAll otherwise).andThen fun _ => .pure _
  | .loop count ⟨body, _⟩ _ => by
    rw [Statement.run_loop]
    exact (Run.Assigns.value count).after fun v =>
      ((assigns_runAll body).loop v limit 1).andThen fun _ => .pure _

theorem assigns_runAll : ∀ ss : List Statement, (runAll limit ss).Assigns (assignmentsAll limit ss)
  | [] => .pure ()
  | s :: rest => by
    rw [runAll]
    exact s.assigns_run.bind fun _ => assigns_runAll rest
end

end

namespace Program

theorem assigns_run (limit : Nat) (p : Program) : (p.run limit).Assigns (p.assignments limit) :=
  (assigns_runAll p.statements).andThen fun _ => .flush

/-- A run that wants a variable stops at a place where the program reads it. The variable has no
value then: it had none at the start, and no assignment to it was completed. If all names that the
program reads have values at the start, no run stops that way. -/
theorem undeclared_of_run (p : Program) (limit : Nat) (m : Machine) :
    let r := p.run limit m
    (Run.endOf r).vars = m.vars.setAll (p.assignments limit m) ∧
    (∀ name span, Run.resultOf r = .error (.failed (.undeclared name span)) →
      (Node.program p).Contains (.expr (.name name span)) ∧
        (Run.endOf r).vars.get? name = none ∧ m.vars.get? name = none ∧
        ∀ a ∈ p.assignments limit m, a.1 ≠ name) ∧
    ((∀ name span, (Node.program p).Contains (.expr (.name name span)) →
        m.vars.get? name ≠ none) →
      ∀ name span, Run.resultOf r ≠ .error (.failed (.undeclared name span))) := by
  intro r
  have hvars : (Run.endOf r).vars = m.vars.setAll (p.assignments limit m) := p.assigns_run limit m
  have hstops : ∀ name span, Run.resultOf r = .error (.failed (.undeclared name span)) →
      (Node.program p).Contains (.expr (.name name span)) ∧
        (Run.endOf r).vars.get? name = none := by
    intro name span h
    cases hr : p.run limit m with
    | ok a m' =>
      simp only [r, hr] at h
      cases h
    | error e m' =>
      simp only [r, hr] at h ⊢
      cases h
      exact p.stopsAtRead_run limit m name span m' hr
  refine ⟨hvars, fun name span h => ?_, fun hdeclared name span h => ?_⟩
  · obtain ⟨hread, hnone⟩ := hstops name span h
    refine ⟨hread, hnone, ?_⟩
    rwa [hvars, Table.get?_setAll_eq_none_iff] at hnone
  · obtain ⟨hread, hnone⟩ := hstops name span h
    rw [hvars, Table.get?_setAll_eq_none_iff] at hnone
    exact hdeclared name span hread hnone.1

/-- The fault comes in the first round, inside a block, after `y` was assigned and while `x` was about
to be. -/
theorem undeclared_of_run_first_round :
    ∃ parsed, parse "@ mewmew: y = mew; y ? x = x + y;;;" = .ok parsed ∧
      let p := parsed.program
      let m : Machine := ⟨.empty, .unbounded⟩
      Run.resultOf (p.run 2 m) = .error (.failed (.undeclared "x" ⟨27, 28⟩)) ∧
      (Node.program p).Contains (.expr (.name "x" ⟨27, 28⟩)) ∧
      (Run.endOf (p.run 2 m)).vars.get? "x" = none ∧ m.vars.get? "x" = none ∧
      (p.assignments 2 m).map Prod.fst = ["y"] ∧ (∀ a ∈ p.assignments 2 m, a.1 ≠ "x") ∧
      let declared : Machine := ⟨(Table.empty.set "x" 0).set "y" 0, .unbounded⟩
      (∀ name span, (Node.program p).Contains (.expr (.name name span)) →
        declared.vars.get? name ≠ none) ∧
      ∀ name span, Run.resultOf (p.run 2 declared) ≠ .error (.failed (.undeclared name span)) := by
  obtain ⟨parsed, hparse, hresult, hassigned, hreads⟩ : ∃ parsed,
      parse "@ mewmew: y = mew; y ? x = x + y;;;" = .ok parsed ∧
        Run.resultOf (parsed.program.run 2 ⟨.empty, .unbounded⟩) =
          .error (.failed (.undeclared "x" ⟨27, 28⟩)) ∧
        (parsed.program.assignments 2 ⟨.empty, .unbounded⟩).map Prod.fst = ["y"] ∧
        parsed.program.reads = ["y", "x", "y"] := by
    refine ⟨_, by cbv, rfl, rfl, rfl⟩
  refine ⟨parsed, hparse, ?_⟩
  intro p m
  obtain ⟨-, hstops, -⟩ := undeclared_of_run p 2 m
  obtain ⟨hread, hnone, hstart, hnever⟩ := hstops "x" ⟨27, 28⟩ hresult
  refine ⟨hresult, hread, hnone, hstart, hassigned, hnever, ?_⟩
  intro declared
  have hdeclared : ∀ name span, (Node.program p).Contains (.expr (.name name span)) →
      declared.vars.get? name ≠ none := by
    intro name span hcontains
    have hname : name ∈ ["y", "x", "y"] := hreads ▸ mem_reads_iff.2 ⟨span, hcontains⟩
    simp only [List.mem_cons, List.not_mem_nil, or_false] at hname
    rcases hname with rfl | rfl | rfl <;> simp [declared]
  exact ⟨hdeclared, (undeclared_of_run p 2 declared).2.2 hdeclared⟩

end Program

end CatLang
