import CatLang.Finding
import CatLang.Proofs.WarningOrder

/-! Which warnings there are. `Program.Warrants` says it by what stands in the tree: a name that is
assigned and read nowhere, at its first assignment, and a block that its condition or count never
lets run, at any depth. The warnings of a parsed program are just these, each as often as it is due,
and in the order of their offsets (`warnings_exactly_warranted`). The first assignment of a name has
the smallest offset, until offsets start over (`unused_across_the_last_offset`). -/
namespace CatLang

/-! Expressions without names. -/

namespace Expr

def NoNames (e : Expr) : Prop :=
  ∀ name span, ¬ (Node.expr e).Contains (.expr (.name name span))

/-- The expression has no names, and this value in every state. -/
structure Fixed (e : Expr) (v : Value) : Prop where
  noNames : e.NoNames
  eval_eq : ∀ vars, e.eval vars = .ok v

theorem reads_eq_nil_iff {e : Expr} : e.reads = [] ↔ e.isConstant = true := by
  induction e with
  | name text span => simp [reads, isConstant]
  | number raw span => simp [reads, isConstant]
  | unary op operand span ih => exact ih
  | binary left op right span ihl ihr => simp [reads, isConstant, ihl, ihr]
  | group inner span ih => exact ih

theorem noNames_iff {e : Expr} : e.NoNames ↔ e.isConstant = true := by
  rw [← reads_eq_nil_iff, List.eq_nil_iff_forall_not_mem]
  constructor
  · intro h name hname
    obtain ⟨span, hspan⟩ := mem_reads_iff.1 hname
    exact h name span hspan
  · intro h name span hspan
    exact h name (mem_reads_iff.2 ⟨span, hspan⟩)

theorem fixedValue?_eq_some_iff {e : Expr} {v : Value} : e.fixedValue? = some v ↔ e.Fixed v := by
  constructor
  · intro h
    refine ⟨noNames_iff.2 ?_, eval_of_fixedValue? h⟩
    unfold fixedValue? at h
    split at h
    · assumption
    · cases h
  · rintro ⟨hnames, heval⟩
    rw [fixedValue?, if_pos (noNames_iff.1 hnames), heval]
    rfl

/-- Without names nothing can be missing. -/
theorem exists_fixed {e : Expr} (h : e.NoNames) : ∃ v, e.Fixed v := by
  cases heval : e.eval .empty with
  | ok v =>
    refine ⟨v, h, fun vars => ?_⟩
    rw [eval_of_isConstant (noNames_iff.1 h) vars .empty, heval]
  | error err =>
    have hroot : (Node.expr e).Contains (.expr e) := .root
    obtain ⟨name, span, -, hcontains, -⟩ := exists_read_of_error hroot heval
    exact absurd hcontains (h name span)

end Expr

/-! The warnings that are due. -/

/-- The warning that is due for a statement with a block that never runs. -/
inductive Statement.Warrants : Statement → Warning → Prop
  | ifClause {condition : Expr} {v : Value} (body : Block) (otherwise : Option Block)
    (span : Span) : condition.Fixed v → (v == 1) = false →
      Warrants (.branch condition body otherwise span) (.unreachableIf body.span)
  | elseClause {condition : Expr} {v : Value} (body otherwise : Block) (span : Span) :
    condition.Fixed v → (v == 1) = true →
      Warrants (.branch condition body (some otherwise) span) (.unreachableElse otherwise.span)
  | loopBody {count : Expr} {v : Value} (body : Block) (span : Span) :
    count.Fixed v → ¬ 1 ≤ v → Warrants (.loop count body span) (.unreachableLoop body.span)

/-- The assigned names, in source order. -/
def Program.targets (p : Program) : List Name := (withInner p.statements).filterMap (·.target?)

/-- The warning that is due for a name that is assigned and never read, at its first assignment. -/
inductive Program.Unused (p : Program) : Warning → Prop
  | intro {name : Name} :
    p.targets.find? (·.value = name.value) = some name →
    (∀ span, ¬ (Node.program p).Contains (.expr (.name name.value span))) →
      Unused p (.unusedVariable name.value name.span)

/-- The warnings that are due for a program. -/
inductive Program.Warrants (p : Program) : Warning → Prop
  | unusedVariable {w : Warning} : p.Unused w → Warrants p w
  | deadBlock {s : Statement} {w : Warning} :
    (Node.program p).Contains (.statement s) → s.Warrants w → Warrants p w

namespace Statement

theorem Warrants.flagged_eq {s : Statement} {w : Warning} (h : s.Warrants w) : s.flagged = [w] := by
  cases h with
  | ifClause body otherwise span hfixed hv =>
    simp [flagged, Expr.fixedValue?_eq_some_iff.2 hfixed, Value.isTrue, hv]
  | elseClause body otherwise span hfixed hv =>
    simp [flagged, Expr.fixedValue?_eq_some_iff.2 hfixed, Value.isTrue, hv]
  | loopBody body span hfixed hv =>
    simp [flagged, Expr.fixedValue?_eq_some_iff.2 hfixed, hv]

theorem mem_flagged_iff {s : Statement} {w : Warning} : w ∈ s.flagged ↔ s.Warrants w := by
  constructor
  · intro h
    cases s with
    | assign => cases h
    | print => cases h
    | branch condition body otherwise span =>
      cases hv : condition.fixedValue? with
      | none => simp [flagged, hv] at h
      | some v =>
        have hfixed := Expr.fixedValue?_eq_some_iff.1 hv
        cases ht : v.isTrue with
        | false =>
          obtain rfl : w = .unreachableIf body.span := by simpa [flagged, hv, ht] using h
          exact .ifClause body otherwise span hfixed ht
        | true =>
          simp only [flagged, hv, ht, if_true, List.mem_map, Option.mem_toList] at h
          obtain ⟨b, rfl, rfl⟩ := h
          exact .elseClause body b span hfixed ht
    | loop count body span =>
      cases hv : count.fixedValue? with
      | none => simp [flagged, hv] at h
      | some v =>
        by_cases hle : 1 ≤ v
        · simp [flagged, hv, hle] at h
        · obtain rfl : w = .unreachableLoop body.span := by simpa [flagged, hv, hle] using h
          exact .loopBody body span (Expr.fixedValue?_eq_some_iff.1 hv) hle
  · intro h
    rw [h.flagged_eq]
    exact List.mem_singleton_self w

instance (s : Statement) (w : Warning) : Decidable (s.Warrants w) :=
  decidable_of_iff _ mem_flagged_iff

theorem count_flagged (s : Statement) (w : Warning) :
    s.flagged.count w = if s.Warrants w then 1 else 0 := by
  by_cases h : s.Warrants w
  · rw [if_pos h, h.flagged_eq, List.count_singleton_self]
  · rw [if_neg h, List.count_eq_zero, mem_flagged_iff]
    exact h

end Statement

theorem count_deadBlocksAll (ss : List Statement) (w : Warning) :
    (deadBlocksAll ss).count w = (withInner ss).countP (·.Warrants w) := by
  rw [deadBlocksAll_eq]
  induction withInner ss with
  | nil => rfl
  | cons s rest ih =>
    rw [List.flatMap_cons, List.count_append, ih, s.count_flagged, List.countP_cons, Nat.add_comm]
    simp only [decide_eq_true_eq]

/-! First assignments. -/

theorem mem_firstTargets_iff {targets : List Name} {name : Name} :
    name ∈ firstTargets targets ↔ targets.find? (·.value = name.value) = some name := by
  induction targets with
  | nil => simp [firstTargets]
  | cons target rest ih =>
    rw [firstTargets, List.mem_cons, List.mem_filter, ih, List.find?_cons]
    by_cases heq : target.value = name.value
    · simp [heq, eq_comm]
    · have hne : name ≠ target := fun hsame => heq (congrArg _ hsame.symm)
      simp [heq, hne, Ne.symm heq]

theorem firstTargets_values_nodup (targets : List Name) :
    ((firstTargets targets).map Located.value).Nodup := by
  induction targets with
  | nil => exact .nil
  | cons target rest ih =>
    rw [firstTargets, List.map_cons, List.nodup_cons]
    constructor
    · intro h
      obtain ⟨other, hother, heq⟩ := List.mem_map.1 h
      exact of_decide_eq_true (List.mem_filter.1 hother).2 heq
    · exact (List.filter_sublist.map _).nodup ih

/-- In a list that starts further and further on, what is found first starts first. -/
theorem start_le_of_find? {targets : List Name} {name : String} {first place : Span}
    (h : targets.Pairwise fun a b => a.span.start < b.span.start)
    (hfirst : targets.find? (·.value = name) = some ⟨name, first⟩)
    (hplace : ⟨name, place⟩ ∈ targets) : first.start ≤ place.start := by
  obtain ⟨-, before, after, rfl, hbefore⟩ := List.find?_eq_some_iff_append.1 hfirst
  rcases List.mem_append.1 hplace with hmem | hmem
  · simpa using hbefore _ hmem
  · rcases List.mem_cons.1 hmem with heq | hmem
    · cases heq
      exact Nat.le_refl _
    · have hafter := (List.pairwise_append.1 h).2.1
      exact Nat.le_of_lt ((List.pairwise_cons.1 hafter).1 _ hmem)

namespace Program
variable {p : Program}

theorem targets_eq (p : Program) : p.targets = targetsAll p.statements := by
  rw [targets, targetsAll_eq, List.filterMap_eq_flatMap_toList]

theorem mem_unused_assigned_iff {w : Warning} : w ∈ p.unused p.assigned ↔ p.Unused w := by
  rw [mem_unused_iff]
  constructor
  · rintro ⟨name, hname, hreads, rfl⟩
    rw [assigned, mem_firstTargets_iff, ← targets_eq] at hname
    exact .intro hname fun span hspan => hreads (mem_reads_iff.2 ⟨span, hspan⟩)
  · rintro ⟨hfirst, hreads⟩
    rw [targets_eq, ← mem_firstTargets_iff] at hfirst
    exact ⟨_, hfirst, fun hread => (mem_reads_iff.1 hread).elim hreads, rfl⟩

instance (p : Program) (w : Warning) : Decidable (p.Unused w) :=
  decidable_of_iff _ mem_unused_assigned_iff

theorem unused_nodup (p : Program) : (p.unused p.assigned).Nodup := by
  have hvalues := List.pairwise_map.1 (firstTargets_values_nodup (targetsAll p.statements))
  apply List.pairwise_map.2
  apply (hvalues.sublist List.filter_sublist).imp
  exact fun hne heq => hne (Warning.unusedVariable.inj heq).1

/-- Each warning is there once for every statement that it is due for, and once for its name. -/
theorem count_warnings (p : Program) (w : Warning) : p.warnings.count w =
    (withInner p.statements).countP (·.Warrants w) + if p.Unused w then 1 else 0 := by
  have hperm := List.mergeSort_perm (deadBlocksAll p.statements ++ p.unused p.assigned)
    fun a b => a.span.start ≤ b.span.start
  rw [warnings, Warning.sort, hperm.count_eq, List.count_append, count_deadBlocksAll,
    p.unused_nodup.count]
  simp only [mem_unused_assigned_iff]

theorem mem_warnings_iff {w : Warning} : w ∈ p.warnings ↔ p.Warrants w := by
  rw [warnings, Warning.sort, List.mem_mergeSort, List.mem_append, deadBlocksAll_eq,
    List.mem_flatMap, mem_unused_assigned_iff]
  constructor
  · rintro (⟨s, hs, hw⟩ | hw)
    · exact .deadBlock (mem_withInner_iff.1 hs) (Statement.mem_flagged_iff.1 hw)
    · exact .unusedVariable hw
  · rintro (hw | ⟨hs, hw⟩)
    · exact .inr hw
    · exact .inl ⟨_, mem_withInner_iff.2 hs, Statement.mem_flagged_iff.2 hw⟩

/-- The warning about a name is due at what is found first. -/
theorem find?_of_mem_warnings {name : String} {place : Span}
    (h : .unusedVariable name place ∈ p.warnings) :
    p.targets.find? (·.value = name) = some ⟨name, place⟩ := by
  rcases mem_warnings_iff.1 h with ⟨hfirst, -⟩ | ⟨-, hw⟩
  · exact hfirst
  · cases hw

end Program

/-! The warnings of a parsed program. -/

namespace Collector

theorem foldl_emit (ws : List Warning) (c : Collector) :
    (ws.foldl emit c).count = c.count + ws.length ∧
      (ws.foldl emit c).held =
        if c.drops then c.held else c.held ++ ws.map fun w => ⟨c.path, c.source, w⟩ := by
  induction ws generalizing c with
  | nil => simp
  | cons w rest ih =>
    obtain ⟨hcount, hheld⟩ := ih (c.emit w)
    rw [List.foldl_cons, hcount, hheld]
    constructor
    · change c.count + 1 + rest.length = c.count + (rest.length + 1)
      omega
    · cases hdrops : c.drops <;> simp [emit, hdrops]

end Collector

/-- What is emitted for a parsed program: the warnings that are due and no others, by where they
start. Each statement with a block that never runs has one of them, and so has each name that is
assigned and never read, at its first assignment. In a source of less than 2^32 bytes that is the
one with the smallest offset. An expression without names always has a value. -/
theorem warnings_exactly_warranted {source : String} {parsed : Parsed}
    (h : parse source = .ok parsed) :
    let p := parsed.program
    (∀ c : Collector, (c.examine p).count = c.count + p.warnings.length ∧
      (c.examine p).held =
        if c.drops then c.held else c.held ++ p.warnings.map fun w => ⟨c.path, c.source, w⟩) ∧
    p.warnings.Pairwise (fun a b => a.span.start ≤ b.span.start) ∧
    (∀ w, w ∈ p.warnings ↔ p.Warrants w) ∧
    (∀ w, p.warnings.count w =
      (withInner p.statements).countP (·.Warrants w) + if p.Unused w then 1 else 0) ∧
    (∀ name place, (Node.program p).Contains (.target ⟨name, place⟩) →
      (∀ span, ¬ (Node.program p).Contains (.expr (.name name span))) →
        ∃! first, .unusedVariable name first ∈ p.warnings) ∧
    (∀ name first, .unusedVariable name first ∈ p.warnings →
      (Node.program p).Contains (.target ⟨name, first⟩) ∧
        (source.utf8ByteSize < 4294967296 → ∀ place,
          (Node.program p).Contains (.target ⟨name, place⟩) → first.start ≤ place.start)) ∧
    ∀ e : Expr, e.NoNames → ∃ v, e.Fixed v := by
  intro p
  refine ⟨fun c => Collector.foldl_emit _ c, Warning.pairwise_start_sort _,
    fun w => Program.mem_warnings_iff, p.count_warnings, ?_, ?_, fun e he => Expr.exists_fixed he⟩
  · intro name place hname hreads
    have hsome : (p.targets.find? (·.value = name)).isSome := by
      rw [List.find?_isSome]
      exact ⟨_, p.targets_eq ▸ Program.mem_targets_iff.2 hname, decide_eq_true rfl⟩
    obtain ⟨first, hfirst⟩ := Option.isSome_iff_exists.1 hsome
    obtain rfl : first.value = name := by simpa using List.find?_some hfirst
    refine ⟨first.span, Program.mem_warnings_iff.2 (.unusedVariable (.intro hfirst hreads)), ?_⟩
    intro place' hplace'
    have hsame := (Program.find?_of_mem_warnings hplace').symm.trans hfirst
    exact congrArg Located.span (Option.some.inj hsame)
  · intro name first hwarning
    have hfirst := Program.find?_of_mem_warnings hwarning
    rw [p.targets_eq] at hfirst
    constructor
    · exact Program.mem_targets_iff.1 (List.mem_of_find?_eq_some hfirst)
    · intro hsize place hplace
      exact start_le_of_find? (targets_increasing h hsize) hfirst (Program.mem_targets_iff.2 hplace)

theorem warnings_exactly_warranted_nested :
    ∃ parsed, parse "@ mewmew: z = mew; mew ? z = mew; : @ mew % (mew - mew): :: mew;;;;" =
        .ok parsed ∧
      parsed.program.warnings = [.unusedVariable "z" ⟨10, 11⟩, .unreachableElse ⟨36, 65⟩,
        .unreachableLoop ⟨57, 64⟩] ∧
      parsed.program.Warrants (.unusedVariable "z" ⟨10, 11⟩) ∧
      ¬ parsed.program.Warrants (.unusedVariable "z" ⟨25, 26⟩) ∧
      parsed.program.Warrants (.unreachableElse ⟨36, 65⟩) ∧
      (withInner parsed.program.statements).countP (·.Warrants (.unreachableLoop ⟨57, 64⟩)) = 1 ∧
      (∃! first, .unusedVariable "z" first ∈ parsed.program.warnings) ∧
      (∀ place, (Node.program parsed.program).Contains (.target ⟨"z", place⟩) →
        10 ≤ place.start) ∧
      ∀ path source, ((Collector.new path source true).examine parsed.program).count = 3 := by
  obtain ⟨parsed, hparse, hfound, htargets, hreads⟩ : ∃ parsed,
      parse "@ mewmew: z = mew; mew ? z = mew; : @ mew % (mew - mew): :: mew;;;;" = .ok parsed ∧
        deadBlocksAll parsed.program.statements ++ parsed.program.unused parsed.program.assigned =
          [.unreachableElse ⟨36, 65⟩, .unreachableLoop ⟨57, 64⟩, .unusedVariable "z" ⟨10, 11⟩] ∧
        targetsAll parsed.program.statements = [⟨"z", 10, 11⟩, ⟨"z", 25, 26⟩] ∧
        parsed.program.reads = [] := by
    exact ⟨_, by cbv, by decide +kernel, rfl, rfl⟩
  have hwarnings : parsed.program.warnings = [.unusedVariable "z" ⟨10, 11⟩,
      .unreachableElse ⟨36, 65⟩, .unreachableLoop ⟨57, 64⟩] := by
    rw [Program.warnings, hfound]
    cbv
  have hname : (⟨"z", 10, 11⟩ : Name) ∈ targetsAll parsed.program.statements :=
    htargets ▸ List.mem_cons_self
  obtain ⟨hemitted, -, hiff, hcount, hunused, hfirst, -⟩ := warnings_exactly_warranted hparse
  refine ⟨parsed, hparse, hwarnings, ?_, ?_, ?_, ?_, ?_, ?_, fun path source => ?_⟩
  · exact (hiff _).1 (hwarnings ▸ by decide)
  · exact fun hwarrants => absurd ((hiff _).2 hwarrants) (hwarnings ▸ by decide)
  · exact (hiff _).1 (hwarnings ▸ by decide)
  · have hloop := hcount (.unreachableLoop ⟨57, 64⟩)
    have hname : ¬ parsed.program.Unused (.unreachableLoop ⟨57, 64⟩) := by
      intro hunused
      cases hunused
    rw [if_neg hname, hwarnings] at hloop
    exact hloop.symm
  · refine hunused "z" ⟨10, 11⟩ (Program.mem_targets_iff.1 hname) fun span hspan => ?_
    have hread := Program.mem_reads_iff.2 ⟨span, hspan⟩
    rw [hreads] at hread
    cases hread
  · exact (hfirst "z" ⟨10, 11⟩ (hwarnings ▸ by decide)).2 (by decide)
  · rw [(hemitted _).1, hwarnings]
    rfl

/-- A name that is assigned before the last offset and again behind it: the warning is at the first
assignment, which no longer has the smallest offset. -/
theorem unused_across_the_last_offset :
    ∃ parsed, parse (Text.indented 4294967290 "x=mew;x=mew;") = .ok parsed ∧
      parsed.program.warnings = [.unusedVariable "x" ⟨4294967290, 4294967291⟩] ∧
      (Node.program parsed.program).Contains (.target ⟨"x", 0, 1⟩) := by
  have hresults : results (Text.indented 4294967290 "x=mew;x=mew;") =
      [.ok ⟨.name "x", 4294967290, 4294967291⟩, .ok ⟨.assign, 4294967291, 4294967292⟩,
        .ok ⟨.number "mew", 4294967292, 4294967295⟩, .ok ⟨.semicolon, 4294967295, 0⟩,
        .ok ⟨.name "x", 0, 1⟩, .ok ⟨.assign, 1, 2⟩, .ok ⟨.number "mew", 2, 5⟩,
        .ok ⟨.semicolon, 5, 6⟩, .ok ⟨.endOfFile, 6, 6⟩] := by
    rw [results_indented]
    cbv
  refine ⟨_, by rw [parse_eq, hresults]; cbv, ?_, ?_⟩
  · exact List.mergeSort_of_pairwise (by decide)
  · exact .child (.child .root (.tail _ (.head _))) (.head _)

end CatLang
