import CatLang.Proofs.Joining
import CatLang.Proofs.Pointing

/-! The order of warnings. They are sorted by where they start, and those that start together keep
the order in which they were found (`Warning.pairwise_sort`). In a parsed program only a dead block
and the assignment that opens it start together, and the block is found first
(`pairwise_warningsFrom`). So it makes no difference in which order the unused names are found
(`warnings_of_any_order`), until offsets start over and two names have the same one
(`warnings_around_all_offsets`). -/
namespace CatLang

/-- The warnings when the assigned names are gone through in this order. -/
def Program.warningsFrom (p : Program) (order : List Name) : List Warning :=
  Warning.sort (deadBlocksAll p.statements ++ p.unused order)

/-! Sorting. -/

namespace Warning

/-- One warning comes before another: it starts earlier, or they start together and only the first
one is about a block. -/
def Before (a b : Warning) : Prop :=
  a.span.start < b.span.start ∨ a.span.start = b.span.start ∧ a.FlagsBlock ∧ ¬ b.FlagsBlock

theorem Before.start_le {a b : Warning} (h : a.Before b) : a.span.start ≤ b.span.start := by
  rcases h with hlt | ⟨heq, -⟩
  · exact Nat.le_of_lt hlt
  · exact Nat.le_of_eq heq

theorem Before.asymm {a b : Warning} (h : a.Before b) : ¬ b.Before a := by
  rintro (hlt | ⟨heq, hflags, -⟩)
  · exact Nat.not_lt_of_le h.start_le hlt
  · rcases h with hlt | ⟨-, -, hnot⟩
    · exact Nat.ne_of_gt hlt heq
    · exact hnot hflags

variable (ws : List Warning)

theorem startsBefore_trans (a b c : Warning) (hab : decide (a.span.start ≤ b.span.start) = true)
    (hbc : decide (b.span.start ≤ c.span.start) = true) :
    decide (a.span.start ≤ c.span.start) = true :=
  decide_eq_true (Nat.le_trans (of_decide_eq_true hab) (of_decide_eq_true hbc))

theorem startsBefore_total (a b : Warning) :
    (decide (a.span.start ≤ b.span.start) || decide (b.span.start ≤ a.span.start)) = true := by
  simpa using Nat.le_total a.span.start b.span.start

theorem pairwise_start_sort : (sort ws).Pairwise fun a b => a.span.start ≤ b.span.start :=
  (List.pairwise_mergeSort startsBefore_trans startsBefore_total ws).imp of_decide_eq_true

/-- Those that start together stay as they were. -/
theorem filter_sort (start : Nat) :
    (sort ws).filter (·.span.start = start) = ws.filter (·.span.start = start) := by
  have hsame : (ws.filter (·.span.start = start)).Pairwise
      fun a b => decide (a.span.start ≤ b.span.start) = true := by
    apply List.pairwise_of_forall_mem_list
    intro a ha b hb
    simp only [List.mem_filter, decide_eq_true_eq] at ha hb
    exact decide_eq_true (by omega)
  have hkept := (List.sublist_mergeSort startsBefore_trans startsBefore_total hsame
    List.filter_sublist).filter (fun w => decide (w.span.start = start))
  simp only [List.filter_filter, Bool.and_self] at hkept
  exact (hkept.eq_of_length ((List.mergeSort_perm ws _).filter _).length_eq.symm).symm

variable {ws}

theorem pairwise_sort {R : Warning → Warning → Prop}
    (h : ws.Pairwise fun a b => a.span.start = b.span.start → R a b) :
    (sort ws).Pairwise fun a b =>
      a.span.start < b.span.start ∨ a.span.start = b.span.start ∧ R a b := by
  rw [List.pairwise_iff_forall_sublist]
  intro a b hab
  have hle := List.pairwise_iff_forall_sublist.1 (pairwise_start_sort ws) hab
  rcases Nat.lt_or_eq_of_le hle with hlt | heq
  · exact .inl hlt
  · have hkept := hab.filter (fun w => decide (w.span.start = a.span.start))
    rw [filter_sort] at hkept
    have hfound : [a, b].Sublist ws := by
      simpa [heq] using hkept.trans List.filter_sublist
    exact .inr ⟨heq, List.pairwise_iff_forall_sublist.1 h hfound heq⟩

end Warning

namespace Program
variable {p : Program}

theorem mem_unused_iff {order : List Name} {w : Warning} :
    w ∈ p.unused order ↔
      ∃ name ∈ order, name.value ∉ p.reads ∧ w = .unusedVariable name.value name.span := by
  unfold unused
  constructor
  · intro h
    obtain ⟨name, hname, rfl⟩ := List.mem_map.1 h
    obtain ⟨hmem, hreads⟩ := List.mem_filter.1 hname
    exact ⟨name, hmem, by simpa using hreads, rfl⟩
  · rintro ⟨name, hmem, hreads, rfl⟩
    exact List.mem_map_of_mem (List.mem_filter.2 ⟨hmem, by simpa using hreads⟩)

theorem warningsFrom_perm {order order' : List Name}
    (horder : order.Perm order') : (p.warningsFrom order).Perm (p.warningsFrom order') := by
  have hunused : (p.unused order).Perm (p.unused order') := (horder.filter _).map _
  exact (List.mergeSort_perm _ _).trans
    ((hunused.append_left _).trans (List.mergeSort_perm _ _).symm)

end Program

/-! Where the targets and the blocks of a parsed program start. -/

section
variable {source : String} {parsed : Parsed} {s s' : Statement} {name : Name} {b : Block}
  (h : parse source = .ok parsed)
include h

theorem start_of_target? (hs : (Node.program parsed.program).Contains (.statement s))
    (hname : s.target? = some name) : name.span.start = s.span.start := by
  obtain ⟨us, hread, -⟩ := exists_results_of_contains h hs
  cases s with
  | assign =>
    cases hname
    cases hread
    rfl
  | print | branch | loop => cases hname

theorem exists_first_of_block (hb : (Node.program parsed.program).Contains (.block b)) :
    ∃ first rest, b.statements = first :: rest ∧ b.span.start = first.span.start := by
  obtain ⟨us, ⟨-, hspan⟩, ⟨hne, -⟩, -⟩ := exists_results_of_contains h hb
  obtain ⟨first, rest, heq⟩ := List.exists_cons_of_ne_nil hne
  refine ⟨first, rest, heq, ?_⟩
  rw [hspan, heq]
  rfl

-- From here on no two offsets of the source are the same number.
variable (hsize : source.utf8ByteSize < 4294967296)
include hsize

theorem statement_eq_of_start (hs : (Node.program parsed.program).Contains (.statement s))
    (hs' : (Node.program parsed.program).Contains (.statement s'))
    (heq : s.span.start = s'.span.start) : s = s' := by
  have hnodup : ((withInner parsed.program.statements).map (·.span.start)).Nodup :=
    List.pairwise_map.2 ((starts_increasing_of_parse hsize h).imp Nat.ne_of_lt)
  exact List.inj_on_of_nodup_map hnodup (Program.mem_withInner_iff.2 hs)
    (Program.mem_withInner_iff.2 hs') heq

theorem targets_increasing :
    (targetsAll parsed.program.statements).Pairwise fun a b => a.span.start < b.span.start := by
  rw [targetsAll_eq, List.pairwise_flatMap]
  constructor
  · intro s _
    cases s.target? with
    | none => exact .nil
    | some => exact List.pairwise_singleton ..
  · apply (starts_increasing_of_parse hsize h).imp_of_mem
    intro s s' hs hs' hlt a ha b hb
    rw [start_of_target? h (Program.mem_withInner_iff.1 hs) (Option.mem_toList.1 ha),
      start_of_target? h (Program.mem_withInner_iff.1 hs') (Option.mem_toList.1 hb)]
    exact hlt

theorem targetStarts_nodup :
    ((targetsAll parsed.program.statements).map (·.span.start)).Nodup :=
  List.pairwise_map.2 ((targets_increasing h hsize).imp Nat.ne_of_lt)

/-- A block that starts where a target does is opened by its assignment. -/
theorem head?_of_start_eq (hb : (Node.program parsed.program).Contains (.block b))
    (hname : (Node.program parsed.program).Contains (.target name))
    (heq : b.span.start = name.span.start) :
    ∃ value span, b.statements.head? = some (.assign name value span) := by
  obtain ⟨first, rest, hfirst, hstart⟩ := exists_first_of_block h hb
  obtain ⟨value, span, hassign⟩ := Program.exists_assign_of_target hname
  have hcontains := hb.statement_of_block first (hfirst ▸ List.mem_cons_self)
  have hsame : first.span.start = (Statement.assign name value span).span.start := by
    rw [← hstart, heq, start_of_target? h hassign rfl]
  rw [hfirst, statement_eq_of_start h hsize hcontains hassign hsame]
  exact ⟨value, span, rfl⟩

/-! Which warnings start together. -/

theorem deadStarts_nodup :
    ((deadBlocksAll parsed.program.statements).map (·.span.start)).Nodup := by
  have hsub := List.Sublist.flatMap_right (withInner parsed.program.statements)
    fun s _ => s.flagged_sublist
  rw [← List.map_flatMap, ← deadBlocksAll_eq] at hsub
  have hstarts := hsub.map Span.start
  rw [List.map_map] at hstarts
  exact hstarts.nodup (((blockSpansAll_perm _).map _).nodup_iff.1 (blockStarts_nodup hsize h))

variable {order : List Name} (horder : order.Perm parsed.program.assigned)
include horder

theorem unusedStarts_nodup : ((parsed.program.unused order).map (·.span.start)).Nodup := by
  have hassigned := ((firstTargets_sublist _).map _).nodup (targetStarts_nodup h hsize)
  have hnodup := (horder.map (·.span.start)).nodup_iff.2 hassigned
  rw [Program.unused, List.map_map]
  exact (List.filter_sublist.map _).nodup hnodup

theorem pairwise_warningsFrom : (parsed.program.warningsFrom order).Pairwise Warning.Before := by
  apply Warning.pairwise_sort
  rw [List.pairwise_append]
  refine ⟨?_, ?_, ?_⟩
  · apply (List.pairwise_map.1 (deadStarts_nodup h hsize)).imp
    exact fun hne heq => absurd heq hne
  · apply (List.pairwise_map.1 (unusedStarts_nodup h hsize horder)).imp
    exact fun hne heq => absurd heq hne
  · intro a ha b hb _
    obtain ⟨name, -, -, rfl⟩ := Program.mem_unused_iff.1 hb
    exact ⟨flagsBlock_of_mem_all _ ha, id⟩

end

/-- The warnings come out the same in whichever order the assigned names are gone through. Two of
them start together only for a dead block and the unused assignment that opens it, the block
first. -/
theorem warnings_of_any_order {source : String} {parsed : Parsed}
    (hsize : source.utf8ByteSize < 4294967296) (h : parse source = .ok parsed) :
    (∀ order order', order.Perm parsed.program.assigned → order'.Perm parsed.program.assigned →
      parsed.program.warningsFrom order = parsed.program.warningsFrom order') ∧
    parsed.program.warnings = parsed.program.warningsFrom parsed.program.assigned ∧
    parsed.program.warnings.Pairwise fun a b => a.span.start = b.span.start →
      ∃ block name value span, (Node.program parsed.program).Contains (.block block) ∧
        a.FlagsBlock ∧ a.span = block.span ∧
        block.statements.head? = some (.assign name value span) ∧
        b = .unusedVariable name.value name.span := by
  refine ⟨fun order order' horder horder' => ?_, rfl, ?_⟩
  · apply List.Perm.eq_of_pairwise (fun a b _ _ hab hba => absurd hba hab.asymm)
      (pairwise_warningsFrom h hsize horder) (pairwise_warningsFrom h hsize horder')
    exact Program.warningsFrom_perm (horder.trans horder'.symm)
  · apply (pairwise_warningsFrom h hsize (.refl _)).imp_of_mem
    rintro a b ha hb (hlt | ⟨-, hflags, hnot⟩) heq
    · exact absurd heq (Nat.ne_of_lt hlt)
    · rcases Program.exists_node_of_warning ha with ⟨block, hblock, hspan, -⟩ | ⟨name, -, rfl⟩
      · rcases Program.exists_node_of_warning hb with ⟨_, -, -, hflags'⟩ | ⟨name, hname, rfl⟩
        · exact absurd hflags' hnot
        · rw [← hspan] at heq
          obtain ⟨value, span, hhead⟩ := head?_of_start_eq h hsize hblock hname heq
          exact ⟨block, name, value, span, hblock, hflags, hspan.symm, hhead, rfl⟩
      · exact absurd hflags id

theorem warnings_of_any_order_opened :
    ∃ parsed, parse "mew - mew ? y = mew; x = mew;; z = mew;" = .ok parsed ∧
      parsed.program.warnings = [.unreachableIf ⟨12, 29⟩, .unusedVariable "y" ⟨12, 13⟩,
        .unusedVariable "x" ⟨21, 22⟩, .unusedVariable "z" ⟨31, 32⟩] ∧
      parsed.program.warningsFrom parsed.program.assigned.reverse = parsed.program.warnings ∧
      ∃ block name value span, (Node.program parsed.program).Contains (.block block) ∧
        block.span = ⟨12, 29⟩ ∧ block.statements.head? = some (.assign name value span) ∧
        name.value = "y" ∧ name.span = ⟨12, 13⟩ := by
  obtain ⟨parsed, hparse, hfound⟩ : ∃ parsed,
      parse "mew - mew ? y = mew; x = mew;; z = mew;" = .ok parsed ∧
        deadBlocksAll parsed.program.statements ++ parsed.program.unused parsed.program.assigned =
          [.unreachableIf ⟨12, 29⟩, .unusedVariable "y" ⟨12, 13⟩,
            .unusedVariable "x" ⟨21, 22⟩, .unusedVariable "z" ⟨31, 32⟩] := by
    exact ⟨_, by cbv, by decide +kernel⟩
  have hwarnings : parsed.program.warnings = [.unreachableIf ⟨12, 29⟩,
      .unusedVariable "y" ⟨12, 13⟩, .unusedVariable "x" ⟨21, 22⟩,
      .unusedVariable "z" ⟨31, 32⟩] := by
    rw [Program.warnings, hfound]
    exact List.mergeSort_of_pairwise (by decide)
  obtain ⟨hsame, -, htied⟩ := warnings_of_any_order (by decide) hparse
  refine ⟨parsed, hparse, hwarnings, hsame _ _ (List.reverse_perm _) (.refl _), ?_⟩
  rw [hwarnings] at htied
  obtain ⟨block, name, value, span, hblock, -, hspan, hhead, heq⟩ :=
    (List.pairwise_cons.1 htied).1 (.unusedVariable "y" ⟨12, 13⟩) (by decide) rfl
  obtain ⟨hname, hplace⟩ := Warning.unusedVariable.inj heq
  exact ⟨block, name, value, span, hblock, hspan.symm, hhead, hname.symm, hplace.symm⟩

/-- Two names that stand as far apart as there are offsets: both start at the first one, and their
warnings come in the order in which the names are gone through. -/
theorem warnings_around_all_offsets :
    ∃ parsed, parse ("x = mew;" ++ "\n" ++ Text.indented 4294967287 "y = mew;") = .ok parsed ∧
      parsed.program.assigned = [⟨"x", 0, 1⟩, ⟨"y", 0, 1⟩] ∧
      parsed.program.warnings = [.unusedVariable "x" ⟨0, 1⟩, .unusedVariable "y" ⟨0, 1⟩] ∧
      parsed.program.warningsFrom [⟨"y", 0, 1⟩, ⟨"x", 0, 1⟩] =
        [.unusedVariable "y" ⟨0, 1⟩, .unusedVariable "x" ⟨0, 1⟩] := by
  have hresults : results ("x = mew;" ++ "\n" ++ Text.indented 4294967287 "y = mew;") =
      [.ok ⟨.name "x", 0, 1⟩, .ok ⟨.assign, 2, 3⟩, .ok ⟨.number "mew", 4, 7⟩,
        .ok ⟨.semicolon, 7, 8⟩, .ok ⟨.name "y", 0, 1⟩, .ok ⟨.assign, 2, 3⟩,
        .ok ⟨.number "mew", 4, 7⟩, .ok ⟨.semicolon, 7, 8⟩, .ok ⟨.endOfFile, 8, 8⟩] := by
    rw [results_append_indented]
    cbv
  refine ⟨_, by rw [parse_eq, hresults]; cbv, rfl, ?_, ?_⟩
  · exact List.mergeSort_of_pairwise (by decide)
  · exact List.mergeSort_of_pairwise (by decide)

end CatLang
