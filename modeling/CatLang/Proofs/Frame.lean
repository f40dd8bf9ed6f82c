import CatLang.Proofs.Assignments
import CatLang.Proofs.Lines

/-! What a run leaves alone. A run only sets names that the program assigns somewhere, never takes a
variable away, and adds nothing to the output but lines, of which a failing stream may cut the last
one (`Program.run_frame`). All of it holds however the run ends. -/
namespace CatLang

open Printed (textOf)

namespace Table

/-- Assignments to other names leave a name as it was. -/
theorem get?_setAll_of_forall_ne {t : Table} {sets : List (String × Value)} {name : String}
    (h : ∀ a ∈ sets, a.1 ≠ name) : (t.setAll sets).get? name = t.get? name := by
  induction sets generalizing t with
  | nil => rfl
  | cons a rest ih =>
    obtain ⟨ha, hrest⟩ := List.forall_mem_cons.1 h
    change ((t.set a.1 a.2).setAll rest).get? name = _
    rw [ih hrest, get?_set, if_neg (Ne.symm ha)]

theorem contains_setAll_iff {t : Table} {sets : List (String × Value)} {name : String} :
    (t.setAll sets).contains name = true ↔ t.contains name = true ∨ ∃ a ∈ sets, a.1 = name := by
  unfold contains
  rw [Option.isSome_iff_ne_none, Option.isSome_iff_ne_none, Ne, get?_setAll_eq_none_iff, not_and_or]
  simp only [ne_eq, not_forall, not_not, exists_prop]

end Table

namespace Run
variable {α : Type} {P : String × Value → Prop}

theorem forall_mem_assignmentsAfter {x : Run α} {sets : α → Machine → List (String × Value)}
    (h : ∀ v m, ∀ a ∈ sets v m, P a) (m : Machine) : ∀ a ∈ x.assignmentsAfter sets m, P a := by
  cases hrun : x m with
  | ok v m' =>
    rw [assignmentsAfter_of_ok hrun]
    exact h v m'
  | error e m' =>
    rw [assignmentsAfter_of_error hrun]
    exact List.forall_mem_nil P

theorem forall_mem_assignmentsOfLoop {count : Value} {x : Run Unit}
    {sets : Machine → List (String × Value)} (h : ∀ m, ∀ a ∈ sets m, P a) (limit : Nat)
    (number : UInt64) (m : Machine) :
    ∀ a ∈ assignmentsOfLoop count x sets limit number m, P a := by
  induction limit generalizing number m with
  | zero => exact List.forall_mem_nil P
  | succ limit ih =>
    rw [assignmentsOfLoop]
    split
    · rw [List.forall_mem_append]
      exact ⟨h m, forall_mem_assignmentsAfter (fun _ => ih (number + 1)) m⟩
    · exact List.forall_mem_nil P

end Run

section
variable {names : List String} {limit : Nat}

mutual
/-- A statement completes assignments to its own targets only. -/
theorem Statement.assignments_within : ∀ s : Statement, (∀ t ∈ s.targets, t.value ∈ names) →
    ∀ m, ∀ a ∈ s.assignments limit m, a.1 ∈ names
  | .assign target _ _, h => by
    apply Run.forall_mem_assignmentsAfter
    intro v m a ha
    rw [List.mem_singleton.1 ha]
    exact h target List.mem_cons_self
  | .print _ _, _ => fun _ => List.forall_mem_nil _
  | .branch _ ⟨body, _⟩ none _, h => by
    apply Run.forall_mem_assignmentsAfter
    intro v m
    split
    · exact assignmentsAll_within body h m
    · exact List.forall_mem_nil _
  | .branch _ ⟨body, _⟩ (some ⟨otherwise, _⟩) _, h => by
    obtain ⟨hbody, hotherwise⟩ := List.forall_mem_append.1 h
    apply Run.forall_mem_assignmentsAfter
    intro v m
    split
    · exact assignmentsAll_within body hbody m
    · exact assignmentsAll_within otherwise hotherwise m
  | .loop _ ⟨body, _⟩ _, h => by
    apply Run.forall_mem_assignmentsAfter
    intro v m
    exact Run.forall_mem_assignmentsOfLoop (assignmentsAll_within body h) limit 1 m

theorem assignmentsAll_within : ∀ ss : List Statement, (∀ t ∈ targetsAll ss, t.value ∈ names) →
    ∀ m, ∀ a ∈ assignmentsAll limit ss m, a.1 ∈ names
  | [], _ => fun _ => List.forall_mem_nil _
  | s :: rest, h => by
    obtain ⟨hs, hrest⟩ := List.forall_mem_append.1 h
    intro m
    rw [assignmentsAll, List.forall_mem_append]
    refine ⟨s.assignments_within hs m, ?_⟩
    exact Run.forall_mem_assignmentsAfter (fun _ => assignmentsAll_within rest hrest) m
end

end

theorem Printed.textOf_eq_join (lines : List Printed) :
    textOf lines = String.join ((lines.map value).map fun v => v.text ++ "\n") := by
  induction lines with
  | nil => rfl
  | cons line rest ih => rw [textOf, ih, List.map_cons, List.map_cons, String.join_cons, text]

/-- Text that ends before the character at `k` is whole lines and a part of the line of it. -/
theorem Printed.exists_cut_of_at? {lines : List Printed} {line : Printed} {k : Nat}
    (h : at? lines k = some line) :
    ∃ before cut rest, String.ofList ((textOf lines).toList.take k) = textOf before ++ cut ∧
      cut ++ rest = line.text ∧ rest ≠ "" := by
  obtain ⟨before, after, rfl, hbefore, hline⟩ := exists_of_at?_eq_some h
  rw [textOf_append, textOf_singleton, String.length_append] at hline
  let split := k - (textOf before).length
  refine ⟨before, String.ofList (line.text.toList.take split),
    String.ofList (line.text.toList.drop split), ?_, ?_, ?_⟩
  · have hsplit : split ≤ line.text.toList.length := by
      rw [String.length_toList]
      omega
    rw [textOf_append, textOf, String.toList_append, String.toList_append, List.take_append,
      List.take_of_length_le (by rwa [String.length_toList]), String.length_toList,
      List.take_append_of_le_length hsplit, String.ofList_append, String.ofList_toList]
  · rw [← String.ofList_append, List.take_append_drop, String.ofList_toList]
  · intro hempty
    have hdrop := congrArg String.toList hempty
    rw [String.toList_ofList, String.toList_empty, List.drop_eq_nil_iff, String.length_toList]
      at hdrop
    omega

/-- Whatever room the stream has, a run adds the lines that fit and a part of the next one, and that
part only if it stops there. -/
theorem Run.Follows.appends {α : Type} {x : Run α} {lines : Machine → List Printed}
    (h : x.Follows lines) (m : Machine) :
    ∃ whole cut, (endOf (x m)).output.written = m.output.written ++ textOf whole ++ cut ∧
      (cut = "" ∨ resultOf (x m) = .error m.output.stop ∧
        ∃ (line : Printed) (rest : String), cut ++ rest = line.text ∧ rest ≠ "") := by
  cases hroom : m.output.room with
  | none =>
    refine ⟨lines m, "", ?_, .inl rfl⟩
    rw [h.writes m hroom, String.append_empty]
  | some k =>
    have hm : (m.withRoom none).withRoom (some k) = m := by
      unfold Machine.withRoom
      rw [← hroom]
    have hcut := h.cuts (m.withRoom none) k rfl
    rw [hm, cutShort] at hcut
    cases hat : Printed.at? (lines (m.withRoom none)) k with
    | none =>
      refine ⟨lines (m.withRoom none), "", ?_, .inl rfl⟩
      have hwritten := congrArg Output.written (h.writes (m.withRoom none) rfl)
      rw [hcut, hat, String.append_empty]
      cases hfull : x (m.withRoom none) <;> rw [hfull] at hwritten <;> exact hwritten
    | some line =>
      obtain ⟨before, cut, rest, htake, hline, hrest⟩ := Printed.exists_cut_of_at? hat
      rw [hat] at hcut
      refine ⟨before, cut, ?_, .inr ⟨?_, line, rest, hline, hrest⟩⟩
      · rw [hcut, String.append_assoc, ← htake]
        rfl
      · rw [hcut]
        rfl

/-- The program assigns this name somewhere, at whatever depth. -/
def Program.AssignsTo (p : Program) (name : String) : Prop :=
  ∃ target value span, (Node.program p).Contains (.statement (.assign target value span)) ∧
    target.value = name

namespace Program

theorem assignsTo_iff {p : Program} {name : String} :
    p.AssignsTo name ↔ name ∈ (targetsAll p.statements).map Located.value := by
  unfold AssignsTo
  rw [List.mem_map]
  constructor
  · rintro ⟨target, value, span, hassign, hname⟩
    exact ⟨target, mem_targets_iff.2 hassign.target, hname⟩
  · rintro ⟨target, htarget, hname⟩
    obtain ⟨value, span, hassign⟩ := exists_assign_of_target (mem_targets_iff.1 htarget)
    exact ⟨target, value, span, hassign, hname⟩

theorem assignsTo_of_mem_assignments {p : Program} {limit : Nat} {m : Machine}
    {a : String × Value} (h : a ∈ p.assignments limit m) : p.AssignsTo a.1 := by
  rw [assignsTo_iff]
  exact assignmentsAll_within p.statements (fun _ => List.mem_map_of_mem) m a h

/-- However a run ends, no variable is gone, no name has come up that the program does not assign,
and a name it does not assign is as before; and the output is what it was, then whole lines, then at
most the beginning of one more, on which the stream failed. -/
theorem run_frame (p : Program) (limit : Nat) (m : Machine) :
    let final := Run.endOf (p.run limit m)
    (∀ name, m.vars.contains name → final.vars.contains name) ∧
    (∀ name, final.vars.contains name → m.vars.contains name ∨ p.AssignsTo name) ∧
    (∀ name, ¬ p.AssignsTo name → final.vars.get? name = m.vars.get? name) ∧
    ∃ (values : List Value) (cut : String),
      final.output.written =
        m.output.written ++ String.join (values.map fun v => v.text ++ "\n") ++ cut ∧
      (cut = "" ∨ Run.resultOf (p.run limit m) = .error m.output.stop ∧
        ∃ (v : Value) (rest : String), cut ++ rest = v.text ++ "\n" ∧ rest ≠ "") := by
  intro final
  have hvars : final.vars = m.vars.setAll (p.assignments limit m) := p.assigns_run limit m
  obtain ⟨whole, cut, hwritten, hcut⟩ := (p.follows_run limit).appends m
  refine ⟨fun name h => ?_, fun name h => ?_, fun name h => ?_, whole.map Printed.value, cut, ?_, ?_⟩
  · rw [hvars, Table.contains_setAll_iff]
    exact .inl h
  · rw [hvars, Table.contains_setAll_iff] at h
    apply h.imp_right
    rintro ⟨a, ha, rfl⟩
    exact assignsTo_of_mem_assignments ha
  · rw [hvars]
    apply Table.get?_setAll_of_forall_ne
    rintro a ha rfl
    exact h (assignsTo_of_mem_assignments ha)
  · rw [← Printed.textOf_eq_join]
    exact hwritten
  · apply hcut.imp_right
    rintro ⟨hresult, line, rest, hline, hrest⟩
    exact ⟨hresult, line.value, rest, hline, hrest⟩

/-- The stream has room for three characters, so it fails on the line of the second round. -/
theorem run_frame_second_round :
    ∃ parsed, parse "@ mewmew: y = x; :: y; x = x + mew;;" = .ok parsed ∧
      let p := parsed.program
      let m : Machine := ⟨(Table.empty.set "w" 1).set "x" 9, { Output.unbounded with room := some 3 }⟩
      let final := Run.endOf (p.run 2 m)
      m.vars.contains "x" ∧ final.vars.contains "x" ∧
      final.vars.contains "y" ∧ (m.vars.contains "y" ∨ p.AssignsTo "y") ∧
      ¬ p.AssignsTo "w" ∧ final.vars.get? "w" = m.vars.get? "w" ∧
      final.output.written = "9\n1" ∧
      ∃ (values : List Value) (cut : String),
        "9\n1" = String.join (values.map fun v => v.text ++ "\n") ++ cut ∧
        (cut = "" ∨ Run.resultOf (p.run 2 m) = .error (.failed (.output .brokenPipe)) ∧
          ∃ (v : Value) (rest : String), cut ++ rest = v.text ++ "\n" ∧ rest ≠ "") := by
  obtain ⟨parsed, hparse, htargets, hassigned, hwritten⟩ : ∃ parsed,
      parse "@ mewmew: y = x; :: y; x = x + mew;;" = .ok parsed ∧
        (targetsAll parsed.program.statements).map Located.value = ["y", "x"] ∧
        let final := Run.endOf (parsed.program.run 2
          ⟨(Table.empty.set "w" 1).set "x" 9, { Output.unbounded with room := some 3 }⟩)
        final.vars.contains "y" = true ∧ final.output.written = "9\n1" := by
    refine ⟨_, by cbv, rfl, by decide +kernel, by decide +kernel⟩
  refine ⟨parsed, hparse, ?_⟩
  intro p m final
  obtain ⟨hkept, horigin, hsame, values, cut, hlines, hcut⟩ := run_frame p 2 m
  have hstart : m.vars.contains "x" = true := by decide +kernel
  have hother : ¬ p.AssignsTo "w" := by
    rw [assignsTo_iff, htargets]
    decide
  rw [show (Run.endOf (p.run 2 m)).output.written = "9\n1" from hwritten] at hlines
  exact ⟨hstart, hkept "x" hstart, hassigned, horigin "y" hassigned, hother, hsame "w" hother,
    hwritten, values, cut, hlines, hcut⟩

end Program

end CatLang
