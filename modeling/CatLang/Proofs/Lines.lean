import CatLang.Proofs.SideBySide

/-! The lines of a run. On a stream that takes everything, a program prints one line after another;
`Statement.lines` lists them, each with the variables that the run had when it began to print it. A
stream with room for `k` characters changes nothing up to the first line that does not fit, and
there the run stops (`Run.Follows`). -/
namespace CatLang

/-- A line about to be printed, and the variables at that moment. -/
structure Printed where
  vars : Table
  value : Value

namespace Printed

def text (line : Printed) : String := line.value.text ++ "\n"

/-- The lines one after the other. -/
def textOf : List Printed → String
  | [] => ""
  | line :: rest => line.text ++ textOf rest

@[simp] theorem textOf_nil : textOf [] = "" := rfl

@[simp] theorem textOf_singleton (line : Printed) : textOf [line] = line.text := by
  simp [textOf]

@[simp] theorem textOf_append (lines more : List Printed) :
    textOf (lines ++ more) = textOf lines ++ textOf more := by
  induction lines with
  | nil => simp [textOf]
  | cons line rest ih => simp [textOf, ih, String.append_assoc]

/-- The line that holds the character at `k`, counted from the start of the first line. -/
def at? : List Printed → Nat → Option Printed
  | [], _ => none
  | line :: rest, k =>
    if k < line.text.length then some line else at? rest (k - line.text.length)

theorem at?_append (lines more : List Printed) (k : Nat) :
    at? (lines ++ more) k =
      if k < (textOf lines).length then at? lines k else at? more (k - (textOf lines).length) := by
  induction lines generalizing k with
  | nil => simp
  | cons line rest ih =>
    simp only [List.cons_append, at?, textOf, String.length_append]
    by_cases hline : k < line.text.length
    · rw [if_pos hline, if_pos hline, if_pos (by omega)]
    · rw [if_neg hline, if_neg hline, ih, Nat.sub_sub]
      by_cases hrest : k - line.text.length < (textOf rest).length
      · rw [if_pos hrest, if_pos (by omega)]
      · rw [if_neg hrest, if_neg (by omega)]

theorem at?_eq_none_iff {lines : List Printed} {k : Nat} :
    at? lines k = none ↔ (textOf lines).length ≤ k := by
  induction lines generalizing k with
  | nil => simp [at?]
  | cons line rest ih =>
    simp only [at?, textOf, String.length_append]
    by_cases hline : k < line.text.length
    · simp only [if_pos hline, reduceCtorEq, false_iff]
      omega
    · rw [if_neg hline, ih]
      omega

/-- The line found stands behind lines that end at `k` or before, and reaches beyond. -/
theorem exists_of_at?_eq_some {lines : List Printed} {line : Printed} {k : Nat}
    (h : at? lines k = some line) :
    ∃ before after, lines = before ++ line :: after ∧ (textOf before).length ≤ k ∧
      k < (textOf (before ++ [line])).length := by
  induction lines generalizing k with
  | nil => cases h
  | cons first rest ih =>
    simp only [at?] at h
    by_cases hfirst : k < first.text.length
    · rw [if_pos hfirst] at h
      cases h
      exact ⟨[], rest, rfl, Nat.zero_le k, by simpa using hfirst⟩
    · rw [if_neg hfirst] at h
      obtain ⟨before, after, rfl, hbefore, hline⟩ := ih h
      refine ⟨first :: before, after, rfl, ?_, ?_⟩
      · simp only [textOf, String.length_append]
        omega
      · simp only [List.cons_append, textOf, String.length_append]
        omega

end Printed

open Printed (textOf)

/-- The same machine on a stream that takes this much more. -/
def Machine.withRoom (m : Machine) (room : Option Nat) : Machine :=
  { m with output := { m.output with room } }

namespace Run
variable {α β : Type}

/-- The lines printed behind a run, if it succeeds. -/
def linesAfter (x : Run α) (lines : α → Machine → List Printed) (m : Machine) : List Printed :=
  match x m with
  | .ok a m' => lines a m'
  | .error _ _ => []

@[simp] theorem linesAfter_nil (x : Run α) (m : Machine) : x.linesAfter (fun _ _ => []) m = [] := by
  unfold linesAfter
  cases x m <;> rfl

/-- The lines of a loop, told from the lines of one round. -/
def linesOfLoop (count : Value) (x : Run Unit) (lines : Machine → List Printed) :
    (limit : Nat) → (number : UInt64) → Machine → List Printed
  | 0, _ => fun _ => []
  | limit + 1, number =>
    if number.toFloat ≤ count then fun m =>
      lines m ++ x.linesAfter (fun _ => linesOfLoop count x lines limit (number + 1)) m
    else fun _ => []

end Run

mutual
/-- The lines a statement prints on a stream that takes them all, in order. -/
def Statement.lines (limit : Nat) : Statement → Machine → List Printed
  | .assign _ _ _, _ => []
  | .print e _, m => (Run.value e).linesAfter (fun v m => [⟨m.vars, v⟩]) m
  | .branch condition ⟨body, _⟩ none _, m =>
    (Run.value condition).linesAfter (fun v m => if v.isTrue then linesAll limit body m else []) m
  | .branch condition ⟨body, _⟩ (some ⟨otherwise, _⟩) _, m =>
    (Run.value condition).linesAfter
      (fun v m => if v.isTrue then linesAll limit body m else linesAll limit otherwise m) m
  | .loop count ⟨body, _⟩ _, m =>
    (Run.value count).linesAfter
      (fun v => Run.linesOfLoop v (runAll limit body) (linesAll limit body) limit 1) m

def linesAll (limit : Nat) : List Statement → Machine → List Printed
  | [], _ => []
  | s :: rest, m => s.lines limit m ++ (s.run limit).linesAfter (fun _ => linesAll limit rest) m
end

def Program.lines (limit : Nat) (p : Program) (m : Machine) : List Printed :=
  linesAll limit p.statements m

/-- How a run stops on a stream that has no more room. -/
def Output.stop (o : Output) : Stop :=
  if o.writeFault = .interrupted then .unfinished else .failed (.output o.writeFault)

namespace Run
variable {α β : Type}

/-- What becomes of a run from `m` when there is room for `k` characters only, told from the lines
it prints and from its end without a bound. -/
def cutShort (m : Machine) (lines : List Printed) (k : Nat)
    (full : EStateM.Result Stop Machine α) : EStateM.Result Stop Machine α :=
  match Printed.at? lines k with
  | none => onEnd (·.withRoom (some (k - (textOf lines).length))) full
  | some line =>
    .error m.output.stop
      ⟨line.vars, { m.output with
        written := m.output.written ++ String.ofList ((textOf lines).toList.take k)
        room := some 0 }⟩

section
variable {m m' : Machine} {lines more : List Printed} {k : Nat}

theorem cutShort_of_le (h : (textOf lines).length ≤ k)
    (full : EStateM.Result Stop Machine α) :
    cutShort m lines k full = onEnd (·.withRoom (some (k - (textOf lines).length))) full := by
  rw [cutShort, Printed.at?_eq_none_iff.2 h]

/-- The stop comes before the end, so neither the end nor further lines matter. -/
theorem cutShort_of_lt (m : Machine) (more : List Printed) (h : k < (textOf lines).length)
    (full : EStateM.Result Stop Machine α) (full' : EStateM.Result Stop Machine β) :
    ∃ stop m', cutShort m lines k full = .error stop m' ∧
      cutShort m (lines ++ more) k full' = .error stop m' := by
  cases hat : Printed.at? lines k with
  | none => exact absurd (Printed.at?_eq_none_iff.1 hat) (Nat.not_le.2 h)
  | some line =>
    have htake : (textOf (lines ++ more)).toList.take k = (textOf lines).toList.take k := by
      rw [Printed.textOf_append, String.toList_append, List.take_append_of_le_length]
      rw [String.length_toList]
      exact Nat.le_of_lt h
    refine ⟨_, _, by rw [cutShort, hat], ?_⟩
    rw [cutShort, Printed.at?_append, if_pos h, hat, htake]

/-- Lines that fit only use up the room. -/
theorem cutShort_append (h : (textOf lines).length ≤ k)
    (hout : m'.output = { m.output with written := m.output.written ++ textOf lines })
    (full : EStateM.Result Stop Machine α) :
    cutShort m (lines ++ more) k full = cutShort m' more (k - (textOf lines).length) full := by
  have htake : (textOf (lines ++ more)).toList.take k =
      (textOf lines).toList ++ (textOf more).toList.take (k - (textOf lines).length) := by
    rw [Printed.textOf_append, String.toList_append, List.take_append, String.length_toList,
      List.take_of_length_le]
    rwa [String.length_toList]
  unfold cutShort
  rw [Printed.at?_append, if_neg (Nat.not_lt.2 h)]
  cases Printed.at? more (k - (textOf lines).length) with
  | none => simp only [Printed.textOf_append, String.length_append, Nat.sub_sub]
  | some line =>
    simp only [hout, htake, String.ofList_append, String.ofList_toList, String.append_assoc]
    rfl

end

/-- The run prints these lines. Without a bound they are all it does to the stream, and with one it
stops at the first that does not fit. -/
structure Follows (x : Run α) (lines : Machine → List Printed) : Prop where
  writes : ∀ m, m.output.room = none →
    (endOf (x m)).output = { m.output with written := m.output.written ++ textOf (lines m) }
  cuts : ∀ m k, m.output.room = none →
    x (m.withRoom (some k)) = cutShort m (lines m) k (x m)

namespace Follows
variable {x : Run α} {f : α → Run β} {lines : Machine → List Printed}
  {more : α → Machine → List Printed}

/-- A run that prints nothing and does not look at the stream. -/
theorem silent (hend : ∀ m, (endOf (x m)).output = m.output)
    (hroom : ∀ m k, x (m.withRoom (some k)) = onEnd (·.withRoom (some k)) (x m)) :
    x.Follows fun _ => [] where
  writes m _ := by
    rw [hend, Printed.textOf_nil, String.append_empty]
  cuts m k _ := hroom m k

theorem pure (a : α) : Follows (Pure.pure a : Run α) fun _ => [] :=
  silent (fun _ => rfl) fun _ _ => rfl

theorem value (e : Expr) : (value e).Follows fun _ => [] := by
  apply silent
  · intro m
    unfold Run.value
    cases e.eval m.vars <;> rfl
  · intro m k
    exact value_of_vars e (·.withRoom (some k)) rfl

theorem assign (name : String) (v : Value) : (assign name v).Follows fun _ => [] :=
  silent (fun _ => rfl) fun _ _ => rfl

theorem flush : Run.flush.Follows fun _ => [] := by
  have hflush : ∀ (m : Machine) k, (m.withRoom k).output.flush = m.output.flush := fun _ _ => rfl
  apply silent
  · intro m
    unfold Run.flush
    cases m.output.flush <;> rfl
  · intro m k
    unfold Run.flush
    rw [hflush]
    cases m.output.flush <;> rfl

theorem printLine_eq (limit : Nat) (v : Value) (m : Machine) : printLine limit v m =
    match m.output.room with
    | none => .ok () { m with output := { m.output with
        written := m.output.written ++ (v.text ++ "\n") } }
    | some room =>
      if (v.text ++ "\n").length ≤ room then
        .ok () { m with output := { m.output with
          written := m.output.written ++ (v.text ++ "\n")
          room := some (room - (v.text ++ "\n").length) } }
      else
        .error m.output.stop { m with output := { m.output with
          written := m.output.written ++ String.ofList ((v.text ++ "\n").toList.take room)
          room := some 0 } } := by
  rw [Run.printLine, Output.write_eq]
  cases hroom : m.output.room with
  | none => simp only [hroom]
  | some room =>
    by_cases hfits : (v.text ++ "\n").length ≤ room
    · simp only [if_pos hfits]
    · unfold Output.refusal Output.stop
      by_cases hfault : m.output.writeFault = .interrupted <;>
        simp only [if_neg hfits, hfault, ↓reduceIte]

theorem printLine (limit : Nat) (v : Value) :
    (printLine limit v).Follows fun m => [⟨m.vars, v⟩] where
  writes m h := by
    simp only [printLine_eq, h, endOf, Printed.textOf_singleton, Printed.text]
  cuts m k h := by
    rw [printLine_eq, printLine_eq]
    unfold cutShort
    by_cases hfits : (v.text ++ "\n").length ≤ k
    · have hat : Printed.at? [⟨m.vars, v⟩] k = none := by
        rwa [Printed.at?_eq_none_iff, Printed.textOf_singleton]
      simp only [hat, h, Machine.withRoom, if_pos hfits, onEnd, Printed.textOf_singleton,
        Printed.text]
    · have hat : Printed.at? [⟨m.vars, v⟩] k = some ⟨m.vars, v⟩ := if_pos (Nat.lt_of_not_le hfits)
      simp only [hat, Machine.withRoom, if_neg hfits, Printed.textOf_singleton, Printed.text]
      rfl

/-- A run that succeeds without a bound leaves the stream without one. -/
theorem output_of_ok {m m' : Machine} {a : α} (hx : x.Follows lines) (h : m.output.room = none)
    (hrun : x m = .ok a m') :
    m'.output = { m.output with written := m.output.written ++ textOf (lines m) } ∧
      m'.output.room = none := by
  have hout := hx.writes m h
  rw [hrun] at hout
  refine ⟨hout, ?_⟩
  change (endOf (.ok a m')).output.room = none
  rw [hout]
  exact h

theorem bind (hx : x.Follows lines) (hf : ∀ a, (f a).Follows (more a)) :
    (x >>= f).Follows fun m => lines m ++ x.linesAfter more m where
  writes m h := by
    cases hrun : x m with
    | error e m' =>
      have hm := hx.writes m h
      rw [hrun] at hm
      rw [bind_of_error hrun, linesAfter, hrun, List.append_nil]
      exact hm
    | ok a m' =>
      obtain ⟨hout, hroom⟩ := hx.output_of_ok h hrun
      rw [bind_of_ok hrun, linesAfter, hrun, (hf a).writes m' hroom, hout, Printed.textOf_append,
        String.append_assoc]
  cuts m k h := by
    -- If the lines of `x` fit, `f` is left with the rest of the room; if not, `f` is not reached.
    have hcut := hx.cuts m k h
    by_cases hfits : (textOf (lines m)).length ≤ k
    · rw [cutShort_of_le hfits] at hcut
      cases hrun : x m with
      | error e m' =>
        rw [hrun] at hcut
        rw [bind_of_error hcut, bind_of_error hrun, linesAfter, hrun, List.append_nil,
          cutShort_of_le hfits]
        rfl
      | ok a m' =>
        obtain ⟨hout, hroom⟩ := hx.output_of_ok h hrun
        rw [hrun] at hcut
        rw [bind_of_ok hcut, bind_of_ok hrun, (hf a).cuts m' _ hroom, linesAfter, hrun,
          cutShort_append hfits hout]
    · obtain ⟨stop, m', hleft, hright⟩ := cutShort_of_lt m (x.linesAfter more m)
        (Nat.lt_of_not_le hfits) (x m) ((x >>= f) m)
      rw [hleft] at hcut
      rw [bind_of_error hcut, hright]

/-- Behind a run that prints nothing there are only the lines of what follows. -/
theorem after (hx : x.Follows fun _ => []) (hf : ∀ a, (f a).Follows (more a)) :
    (x >>= f).Follows (x.linesAfter more) :=
  hx.bind hf

/-- What prints nothing adds nothing. -/
theorem andThen (hx : x.Follows lines) (hf : ∀ a, (f a).Follows fun _ => []) :
    (x >>= f).Follows lines := by
  have hlines : (fun m => lines m ++ x.linesAfter (fun _ _ => []) m) = lines := by
    funext m
    rw [linesAfter_nil, List.append_nil]
  rw [← hlines]
  exact hx.bind hf

theorem unfinished : Run.unfinished.Follows fun _ => [] :=
  silent (fun _ => rfl) fun _ _ => rfl

theorem loop {x : Run Unit} (h : x.Follows lines) (count : Value) (limit : Nat) (number : UInt64) :
    (Run.loop count x limit number).Follows (linesOfLoop count x lines limit number) := by
  induction limit generalizing number with
  | zero =>
    by_cases htest : number.toFloat ≤ count
    · rw [loop_zero htest]
      exact unfinished
    · rw [loop_of_not_le htest]
      exact pure ()
  | succ limit ih =>
    rw [linesOfLoop]
    by_cases htest : number.toFloat ≤ count
    · rw [loop_succ htest, if_pos htest]
      exact h.bind fun _ => ih (number + 1)
    · rw [loop_of_not_le htest, if_neg htest]
      exact pure ()

end Follows

end Run

section
variable {limit : Nat}

mutual
theorem Statement.follows_run : ∀ s : Statement, (s.run limit).Follows (s.lines limit)
  | .assign target value _ => by
    rw [Statement.run]
    exact (Run.Follows.value value).andThen fun v =>
      (Run.Follows.assign target.value v).andThen fun _ => .pure none
  | .print value _ => by
    rw [Statement.run]
    exact (Run.Follows.value value).after fun v =>
      (Run.Follows.printLine limit v).andThen fun _ => .pure none
  | .branch condition ⟨body, _⟩ none _ => by
    rw [Statement.run_branch]
    refine (Run.Follows.value condition).after fun v => ?_
    cases v.isTrue with
    | true => exact (follows_runAll body).andThen fun _ => .pure _
    | false => exact (Run.Follows.pure ()).andThen fun _ => .pure _
  | .branch condition ⟨body, _⟩ (some ⟨otherwise, _⟩) _ => by
    rw [Statement.run_branch]
    refine (Run.Follows.value condition).after fun v => ?_
    cases v.isTrue with
    | true => exact (follows_runAll body).andThen fun _ => .pure _
    | false => exact (follows_runAll otherwise).andThen fun _ => .pure _
  | .loop count ⟨body, _⟩ _ => by
    rw [Statement.run_loop]
    exact (Run.Follows.value count).after fun v =>
      ((follows_runAll body).loop v limit 1).andThen fun _ => .pure _

theorem follows_runAll : ∀ ss : List Statement, (runAll limit ss).Follows (linesAll limit ss)
  | [] => .pure ()
  | s :: rest => by
    rw [runAll]
    exact s.follows_run.bind fun _ => follows_runAll rest
end

end

theorem Program.follows_run (limit : Nat) (p : Program) : (p.run limit).Follows (p.lines limit) :=
  (follows_runAll p.statements).andThen fun _ => .flush

end CatLang
