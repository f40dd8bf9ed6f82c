import CatLang.Proofs.Nodes

/-! The statements of a program at any depth, in source order (`withInner`). They are the statements
the tree contains (`mem_withInner_iff`), and what is collected from a tree, statement by statement,
is collected from this list (`eq_flatMap_withInner`): the targets, the names read and the dead
blocks. Each of the statements starts with a token of its own, so in a source short enough for its
offsets they start one after the other (`starts_increasing_of_parse`). -/
namespace CatLang

/-! Going down a tree. -/

theorem Node.mem_children_of_mem {ss : List Statement} {s : Statement} (h : s ∈ ss) :
    .statement s ∈ (closedParts ss).filterMap Part.node? := by
  induction ss with
  | nil => cases h
  | cons s' rest ih =>
    change Node.statement s ∈ .statement s' :: (closedParts rest).filterMap Part.node?
    rcases List.mem_cons.1 h with rfl | h
    · exact List.mem_cons_self
    · exact List.mem_cons_of_mem _ (ih h)

namespace Node.Contains
variable {root : Node} {p : Program} {b b' : Block} {o : Option Block} {e : Expr} {name : Name}
  {span : Span}

theorem trans {a b c : Node} (h : a.Contains b) (h' : b.Contains c) : a.Contains c := by
  induction h' with
  | root => exact h
  | child _ hc ih => exact ih.child hc

theorem statement_of_program (h : root.Contains (.program p)) :
    ∀ s ∈ p.statements, root.Contains (.statement s) :=
  fun _ hs => h.child (mem_children_of_mem hs)

theorem statement_of_block (h : root.Contains (.block b)) :
    ∀ s ∈ b.statements, root.Contains (.statement s) :=
  fun _ hs => h.child (mem_children_of_mem hs)

theorem target (h : root.Contains (.statement (.assign name e span))) :
    root.Contains (.target name) :=
  h.child (by simp [children, parts, Part.node?])

theorem assigned (h : root.Contains (.statement (.assign name e span))) : root.Contains (.expr e) :=
  h.child (by simp [children, parts, Part.node?])

theorem printed (h : root.Contains (.statement (.print e span))) : root.Contains (.expr e) :=
  h.child (by simp [children, parts, Part.node?])

theorem condition (h : root.Contains (.statement (.branch e b o span))) : root.Contains (.expr e) :=
  h.child (by cases o <;> simp [children, parts, Part.node?])

theorem body (h : root.Contains (.statement (.branch e b o span))) : root.Contains (.block b) :=
  h.child (by cases o <;> simp [children, parts, Part.node?])

theorem otherwise (h : root.Contains (.statement (.branch e b (some b') span))) :
    root.Contains (.block b') :=
  h.child (by simp [children, parts, Part.node?])

theorem count (h : root.Contains (.statement (.loop e b span))) : root.Contains (.expr e) :=
  h.child (by simp [children, parts, Part.node?])

theorem round (h : root.Contains (.statement (.loop e b span))) : root.Contains (.block b) :=
  h.child (by simp [children, parts, Part.node?])

theorem operand {op : UnaryOp} (h : root.Contains (.expr (.unary op e span))) :
    root.Contains (.expr e) :=
  h.child (by simp [children, parts, Part.node?])

theorem operands {left right : Expr} {op : BinaryOp}
    (h : root.Contains (.expr (.binary left op right span))) :
    root.Contains (.expr left) ∧ root.Contains (.expr right) :=
  ⟨h.child (by simp [children, parts, Part.node?]), h.child (by simp [children, parts, Part.node?])⟩

theorem inner (h : root.Contains (.expr (.group e span))) : root.Contains (.expr e) :=
  h.child (by simp [children, parts, Part.node?])

end Node.Contains

/-! The statements at any depth. -/

mutual
/-- The statements inside a statement, at any depth, in source order. -/
def Statement.inner : Statement → List Statement
  | .assign _ _ _ => []
  | .print _ _ => []
  | .branch _ ⟨body, _⟩ none _ => withInner body
  | .branch _ ⟨body, _⟩ (some ⟨otherwise, _⟩) _ => withInner body ++ withInner otherwise
  | .loop _ ⟨body, _⟩ _ => withInner body

/-- Some statements and all those inside them. -/
def withInner : List Statement → List Statement
  | [] => []
  | s :: rest => s :: s.inner ++ withInner rest
end

namespace Statement

/-- The one expression that a statement has of its own. -/
def expr : Statement → Expr
  | assign _ value _ => value
  | print value _ => value
  | branch condition _ _ _ => condition
  | loop count _ _ => count

def target? : Statement → Option Name
  | assign target _ _ => some target
  | _ => none

def blocks : Statement → List Block
  | assign _ _ _ => []
  | print _ _ => []
  | branch _ body otherwise _ => body :: otherwise.toList
  | loop _ body _ => [body]

end Statement

namespace Node.Contains
variable {root : Node} {s : Statement}

theorem expr (h : root.Contains (.statement s)) : root.Contains (.expr s.expr) := by
  cases s with
  | assign => exact h.assigned
  | print => exact h.printed
  | branch => exact h.condition
  | loop => exact h.count

theorem block (h : root.Contains (.statement s)) : ∀ b ∈ s.blocks, root.Contains (.block b) := by
  intro b hb
  cases s with
  | assign => cases hb
  | print => cases hb
  | branch condition body otherwise span =>
    rcases List.mem_cons.1 hb with rfl | hb
    · exact h.body
    · obtain rfl := Option.mem_toList.1 hb
      exact h.otherwise
  | loop count body span =>
    obtain rfl := List.mem_singleton.1 hb
    exact h.round

end Node.Contains

section
variable {α : Type} {own : Statement → List α} {f : Statement → List α}
  {fAll : List Statement → List α}

mutual
theorem Statement.eq_flatMap_inner (hnil : fAll [] = [])
    (hcons : ∀ s rest, fAll (s :: rest) = f s ++ fAll rest)
    (hf : ∀ s, f s = own s ++ s.blocks.flatMap fun b => fAll b.statements) :
    ∀ s : Statement, f s = (s :: s.inner).flatMap own
  | .assign _ _ _ => by rw [hf]; rfl
  | .print _ _ => by rw [hf]; rfl
  | .branch _ ⟨body, _⟩ none _ => by
    rw [hf, List.flatMap_cons, Statement.inner, ← eq_flatMap_withInner hnil hcons hf body]
    simp [Statement.blocks]
  | .branch _ ⟨body, _⟩ (some ⟨otherwise, _⟩) _ => by
    rw [hf, List.flatMap_cons, Statement.inner, List.flatMap_append,
      ← eq_flatMap_withInner hnil hcons hf body, ← eq_flatMap_withInner hnil hcons hf otherwise]
    simp [Statement.blocks]
  | .loop _ ⟨body, _⟩ _ => by
    rw [hf, List.flatMap_cons, Statement.inner, ← eq_flatMap_withInner hnil hcons hf body]
    simp [Statement.blocks]

/-- What statements have of their own and in their blocks is what all of them have of their own. -/
theorem eq_flatMap_withInner (hnil : fAll [] = [])
    (hcons : ∀ s rest, fAll (s :: rest) = f s ++ fAll rest)
    (hf : ∀ s, f s = own s ++ s.blocks.flatMap fun b => fAll b.statements) :
    ∀ ss : List Statement, fAll ss = (withInner ss).flatMap own
  | [] => hnil
  | s :: rest => by
    rw [hcons, withInner, List.flatMap_append, ← s.eq_flatMap_inner hnil hcons hf,
      eq_flatMap_withInner hnil hcons hf rest]
end

end

theorem targetsAll_eq (ss : List Statement) :
    targetsAll ss = (withInner ss).flatMap fun s => s.target?.toList := by
  apply eq_flatMap_withInner (f := Statement.targets) rfl (fun _ _ => rfl)
  rintro (_ | _ | ⟨_, ⟨_, _⟩, _ | ⟨_, _⟩, _⟩ | ⟨_, ⟨_, _⟩, _⟩) <;>
    simp [Statement.targets, Statement.target?, Statement.blocks]

theorem readsAll_eq (ss : List Statement) :
    readsAll ss = (withInner ss).flatMap fun s => s.expr.reads := by
  apply eq_flatMap_withInner (f := Statement.reads) rfl (fun _ _ => rfl)
  rintro (_ | _ | ⟨_, ⟨_, _⟩, _ | ⟨_, _⟩, _⟩ | ⟨_, ⟨_, _⟩, _⟩) <;>
    simp [Statement.reads, Statement.expr, Statement.blocks]

/-- The block of a statement that never runs, told as a warning. -/
def Statement.flagged : Statement → List Warning
  | assign _ _ _ => []
  | print _ _ => []
  | branch condition body otherwise _ =>
    match condition.fixedValue? with
    | some v =>
      if v.isTrue then otherwise.toList.map fun b => .unreachableElse b.span
      else [.unreachableIf body.span]
    | none => []
  | loop count body _ =>
    match count.fixedValue? with
    | some v => if 1 ≤ v then [] else [.unreachableLoop body.span]
    | none => []

theorem deadBlocksAll_eq (ss : List Statement) :
    deadBlocksAll ss = (withInner ss).flatMap Statement.flagged := by
  apply eq_flatMap_withInner (f := Statement.deadBlocks) rfl (fun _ _ => rfl)
  rintro (_ | _ | ⟨condition, ⟨_, _⟩, _ | ⟨_, _⟩, _⟩ | ⟨count, ⟨_, _⟩, _⟩)
  · rfl
  · rfl
  · cases hv : condition.fixedValue? with
    | none => simp [Statement.deadBlocks, Statement.flagged, Statement.blocks, hv]
    | some v =>
      by_cases ht : v.isTrue <;>
        simp [Statement.deadBlocks, Statement.flagged, Statement.blocks, hv, ht]
  · cases hv : condition.fixedValue? with
    | none => simp [Statement.deadBlocks, Statement.flagged, Statement.blocks, hv]
    | some v =>
      by_cases ht : v.isTrue <;>
        simp [Statement.deadBlocks, Statement.flagged, Statement.blocks, hv, ht]
  · cases hv : count.fixedValue? with
    | none => simp [Statement.deadBlocks, Statement.flagged, Statement.blocks, hv]
    | some v =>
      by_cases hle : 1 ≤ v <;>
        simp [Statement.deadBlocks, Statement.flagged, Statement.blocks, hv, hle]

/-- A statement flags at most one block, and one of its own. -/
theorem Statement.flagged_cases (s : Statement) :
    s.flagged = [] ∨ ∃ b ∈ s.blocks, ∃ w, s.flagged = [w] ∧ w.span = b.span ∧ w.FlagsBlock := by
  cases s with
  | assign => exact .inl rfl
  | print => exact .inl rfl
  | branch condition body otherwise span =>
    cases hv : condition.fixedValue? with
    | none => exact .inl (by simp [flagged, hv])
    | some v =>
      by_cases ht : v.isTrue
      · cases otherwise with
        | none => exact .inl (by simp [flagged, hv, ht])
        | some b =>
          have hb : b ∈ (branch condition body (some b) span).blocks := by simp [blocks]
          exact .inr ⟨b, hb, .unreachableElse b.span, by simp [flagged, hv, ht], rfl, trivial⟩
      · have hb : body ∈ (branch condition body otherwise span).blocks := List.mem_cons_self
        exact .inr ⟨body, hb, .unreachableIf body.span, by simp [flagged, hv, ht], rfl, trivial⟩
  | loop count body span =>
    cases hv : count.fixedValue? with
    | none => exact .inl (by simp [flagged, hv])
    | some v =>
      by_cases hle : 1 ≤ v
      · exact .inl (by simp [flagged, hv, hle])
      · have hb : body ∈ (loop count body span).blocks := List.mem_cons_self
        exact .inr ⟨body, hb, .unreachableLoop body.span, by simp [flagged, hv, hle], rfl, trivial⟩

theorem Statement.flagged_sublist (s : Statement) :
    (s.flagged.map (·.span)).Sublist (s.blocks.map Block.span) := by
  rcases s.flagged_cases with hnil | ⟨b, hb, w, hw, hspan, -⟩
  · rw [hnil]
    exact List.nil_sublist _
  · rw [hw, List.map_singleton, hspan, List.singleton_sublist]
    exact List.mem_map_of_mem hb

theorem Statement.exists_block_of_mem_flagged {s : Statement} {w : Warning} (h : w ∈ s.flagged) :
    ∃ b ∈ s.blocks, w.span = b.span ∧ w.FlagsBlock := by
  rcases s.flagged_cases with hnil | ⟨b, hb, w', hw, hspan, hflags⟩
  · rw [hnil] at h
    cases h
  · rw [hw] at h
    obtain rfl := List.mem_singleton.1 h
    exact ⟨b, hb, hspan, hflags⟩

mutual
theorem Statement.blockSpans_perm : ∀ s : Statement,
    s.blockSpans.Perm ((s :: s.inner).flatMap fun s => s.blocks.map Block.span)
  | .assign _ _ _ => .nil
  | .print _ _ => .nil
  | .branch _ ⟨body, place⟩ none _ => (blockSpansAll_perm body).cons place
  | .branch _ ⟨body, place⟩ (some ⟨otherwise, place'⟩) _ => by
    have hinside := (blockSpansAll_perm body).append (blockSpansAll_perm otherwise)
    rw [← List.flatMap_append] at hinside
    exact (List.perm_middle.trans (hinside.cons place')).cons place
  | .loop _ ⟨body, place⟩ _ => (blockSpansAll_perm body).cons place

theorem blockSpansAll_perm : ∀ ss : List Statement,
    (blockSpansAll ss).Perm ((withInner ss).flatMap fun s => s.blocks.map Block.span)
  | [] => .nil
  | s :: rest => by
    rw [blockSpansAll, withInner, List.flatMap_append]
    exact s.blockSpans_perm.append (blockSpansAll_perm rest)
end

/-! The tree contains just these statements, and the names and targets that they have. -/

section
variable {P : Statement → Prop}

mutual
theorem Statement.forall_mem_inner
    (hP : ∀ s, P s → ∀ b ∈ s.blocks, ∀ s' ∈ b.statements, P s') :
    ∀ s : Statement, P s → ∀ s' ∈ s.inner, P s'
  | .assign _ _ _, _ => by simp [Statement.inner]
  | .print _ _, _ => by simp [Statement.inner]
  | .branch _ ⟨body, place⟩ none _, h =>
    forall_mem_withInner hP body (hP _ h ⟨body, place⟩ List.mem_cons_self)
  | .branch _ ⟨body, place⟩ (some ⟨otherwise, place'⟩) _, h => by
    rw [Statement.inner, List.forall_mem_append]
    constructor
    · exact forall_mem_withInner hP body (hP _ h ⟨body, place⟩ List.mem_cons_self)
    · apply forall_mem_withInner hP otherwise
      exact hP _ h ⟨otherwise, place'⟩ (List.mem_cons_of_mem _ List.mem_cons_self)
  | .loop _ ⟨body, place⟩ _, h =>
    forall_mem_withInner hP body (hP _ h ⟨body, place⟩ List.mem_cons_self)

/-- What goes from a statement to those in its blocks holds at any depth. -/
theorem forall_mem_withInner
    (hP : ∀ s, P s → ∀ b ∈ s.blocks, ∀ s' ∈ b.statements, P s') :
    ∀ ss : List Statement, (∀ s ∈ ss, P s) → ∀ s ∈ withInner ss, P s
  | [], _ => by simp [withInner]
  | s :: rest, h => by
    obtain ⟨hs, hrest⟩ := List.forall_mem_cons.1 h
    rw [withInner, List.cons_append, List.forall_mem_cons, List.forall_mem_append]
    exact ⟨hs, s.forall_mem_inner hP hs, forall_mem_withInner hP rest hrest⟩
end

end

theorem Statement.inner_eq (s : Statement) :
    s.inner = s.blocks.flatMap fun b => withInner b.statements := by
  rcases s with _ | _ | ⟨_, ⟨_, _⟩, _ | ⟨_, _⟩, _⟩ | ⟨_, ⟨_, _⟩, _⟩ <;>
    simp [Statement.inner, Statement.blocks]

theorem cons_inner_subset {ss : List Statement} {s : Statement} (h : s ∈ ss) :
    s :: s.inner ⊆ withInner ss := by
  induction ss with
  | nil => cases h
  | cons s' rest ih =>
    rw [withInner]
    rcases List.mem_cons.1 h with rfl | h
    · exact List.subset_append_left _ _
    · exact List.subset_append_of_subset_right _ (ih h)

namespace Node

def statements : Node → List Statement
  | program p => withInner p.statements
  | block b => withInner b.statements
  | statement s => s :: s.inner
  | expr _ | target _ => []

theorem mem_children_statement {s : Statement} {c : Node} (h : c ∈ (statement s).children) :
    (∃ name, s.target? = some name ∧ c = .target name) ∨ c = .expr s.expr ∨
      ∃ b ∈ s.blocks, c = .block b := by
  rcases s with _ | _ | ⟨_, _, _ | _, _⟩ | _ <;>
    simp only [children, parts, Part.node?, List.filterMap_cons, List.filterMap_nil, List.mem_cons,
      List.not_mem_nil, or_false] at h <;>
    simpa [Statement.target?, Statement.expr, Statement.blocks] using h

theorem mem_children_expr {e : Expr} {c : Node} (h : c ∈ (expr e).children) :
    ∃ e', c = .expr e' ∧ e'.reads ⊆ e.reads := by
  cases e <;> simp only [children, parts, Part.node?, List.filterMap_cons, List.filterMap_nil,
    List.mem_cons, List.not_mem_nil, or_false] at h
  · exact ⟨_, h, List.Subset.refl _⟩
  · rcases h with rfl | rfl
    · exact ⟨_, rfl, List.subset_append_left _ _⟩
    · exact ⟨_, rfl, List.subset_append_right _ _⟩
  · exact ⟨_, h, List.Subset.refl _⟩

/-- What can be right below a node, by the kind of the node: statements below programs and blocks,
the parts of a statement, and operands. -/
theorem child_cases {n c : Node} (h : c ∈ n.children) :
    (∃ s, c = .statement s ∧ s :: s.inner ⊆ n.statements) ∨
    (∃ s, n = .statement s ∧ ((∃ name, s.target? = some name ∧ c = .target name) ∨
      c = .expr s.expr ∨ ∃ b ∈ s.blocks, c = .block b)) ∨
    ∃ e e', n = .expr e ∧ c = .expr e' ∧ e'.reads ⊆ e.reads := by
  cases n with
  | program p =>
    obtain ⟨s, hs, rfl⟩ := mem_children_closed h
    exact .inl ⟨s, rfl, cons_inner_subset hs⟩
  | block b =>
    obtain ⟨s, hs, rfl⟩ := mem_children_closed h
    exact .inl ⟨s, rfl, cons_inner_subset hs⟩
  | statement s => exact .inr (.inl ⟨s, rfl, mem_children_statement h⟩)
  | expr e =>
    obtain ⟨e', rfl, hreads⟩ := mem_children_expr h
    exact .inr (.inr ⟨e, e', rfl, rfl, hreads⟩)
  | target name => cases h

theorem statements_subset_of_child {n c : Node} (h : c ∈ n.children) :
    c.statements ⊆ n.statements := by
  rcases child_cases h with ⟨s, rfl, hs⟩ | ⟨s, rfl, ⟨name, -, rfl⟩ | rfl | ⟨b, hb, rfl⟩⟩ |
    ⟨e, e', rfl, rfl, -⟩
  · exact hs
  · exact List.nil_subset _
  · exact List.nil_subset _
  · intro s' hs'
    rw [statements, s.inner_eq]
    exact List.mem_cons_of_mem _ (List.mem_flatMap.2 ⟨b, hb, hs'⟩)
  · exact List.nil_subset _

theorem Contains.statements_subset {root n : Node} (h : root.Contains n) :
    n.statements ⊆ root.statements := by
  induction h with
  | root => exact List.Subset.refl _
  | child _ hc ih => exact List.Subset.trans (statements_subset_of_child hc) ih

end Node

namespace Program
variable {p : Program}

theorem mem_withInner_iff {s : Statement} :
    s ∈ withInner p.statements ↔ (Node.program p).Contains (.statement s) := by
  constructor
  · apply forall_mem_withInner
    · exact fun s hs b hb => (hs.block b hb).statement_of_block
    · exact Node.Contains.root.statement_of_program
  · intro h
    exact h.statements_subset List.mem_cons_self

/-- Every target of a program belongs to an assignment. -/
theorem exists_assign_of_target {name : Name} (h : (Node.program p).Contains (.target name)) :
    ∃ value span, (Node.program p).Contains (.statement (.assign name value span)) := by
  cases h with
  | child hn hc =>
    rcases Node.child_cases hc with ⟨s, heq, -⟩ | ⟨s, rfl, ⟨name', hname, heq⟩ | heq | ⟨b, -, heq⟩⟩ |
      ⟨e, e', -, heq, -⟩ <;> cases heq
    cases s with
    | assign target value span =>
      cases hname
      exact ⟨value, span, hn⟩
    | print | branch | loop => cases hname

theorem mem_targets_iff {name : Name} :
    name ∈ targetsAll p.statements ↔ (Node.program p).Contains (.target name) := by
  rw [targetsAll_eq, List.mem_flatMap]
  constructor
  · rintro ⟨s, hs, hname⟩
    have hcontains := mem_withInner_iff.1 hs
    cases s with
    | assign =>
      obtain rfl := List.mem_singleton.1 hname
      exact hcontains.target
    | print | branch | loop => cases hname
  · intro h
    obtain ⟨value, span, hassign⟩ := exists_assign_of_target h
    exact ⟨_, mem_withInner_iff.2 hassign, List.mem_singleton_self name⟩

end Program

/-- Whatever an expression contains is an expression that reads no more. -/
theorem Node.Contains.exists_expr {e : Expr} {n : Node} (h : (Node.expr e).Contains n) :
    ∃ e', n = .expr e' ∧ e'.reads ⊆ e.reads := by
  induction h with
  | root => exact ⟨e, rfl, List.Subset.refl _⟩
  | child _ hc ih =>
    obtain ⟨e', rfl, hreads⟩ := ih
    obtain ⟨e'', rfl, hreads'⟩ := mem_children_expr hc
    exact ⟨e'', rfl, List.Subset.trans hreads' hreads⟩

theorem Expr.exists_contains_of_mem_reads {e : Expr} {name : String} (h : name ∈ e.reads) :
    ∃ span, (Node.expr e).Contains (.expr (.name name span)) := by
  induction e with
  | name text span =>
    obtain rfl := List.mem_singleton.1 h
    exact ⟨span, .root⟩
  | number raw span => cases h
  | unary op operand span ih =>
    obtain ⟨place, hplace⟩ := ih h
    exact ⟨place, Node.Contains.root.operand.trans hplace⟩
  | binary left op right span ihl ihr =>
    have hroot : (Node.expr (.binary left op right span)).Contains
        (.expr (.binary left op right span)) := .root
    obtain ⟨hleft, hright⟩ := hroot.operands
    rcases List.mem_append.1 h with h | h
    · obtain ⟨place, hplace⟩ := ihl h
      exact ⟨place, hleft.trans hplace⟩
    · obtain ⟨place, hplace⟩ := ihr h
      exact ⟨place, hright.trans hplace⟩
  | group inner span ih =>
    obtain ⟨place, hplace⟩ := ih h
    exact ⟨place, Node.Contains.root.inner.trans hplace⟩

theorem Expr.mem_reads_iff {e : Expr} {name : String} :
    name ∈ e.reads ↔ ∃ span, (Node.expr e).Contains (.expr (.name name span)) := by
  constructor
  · exact exists_contains_of_mem_reads
  · rintro ⟨span, h⟩
    obtain ⟨e', heq, hreads⟩ := h.exists_expr
    cases heq
    exact hreads List.mem_cons_self

namespace Program
variable {p : Program}

/-- Every expression of a program belongs to the expression of a statement. -/
theorem exists_statement_of_contains {n : Node} (h : (Node.program p).Contains n) :
    ∀ e, n = .expr e → ∃ s ∈ withInner p.statements, e.reads ⊆ s.expr.reads := by
  induction h with
  | root =>
    intro e heq
    cases heq
  | child hn hc ih =>
    rintro e rfl
    rcases Node.child_cases hc with ⟨s, heq, -⟩ | ⟨s, rfl, ⟨name, -, heq⟩ | heq | ⟨b, -, heq⟩⟩ |
      ⟨e', e'', rfl, heq, hreads⟩ <;> cases heq
    · exact ⟨s, mem_withInner_iff.2 hn, List.Subset.refl _⟩
    · obtain ⟨s, hs, hreads'⟩ := ih e' rfl
      exact ⟨s, hs, List.Subset.trans hreads hreads'⟩

theorem mem_reads_iff {name : String} :
    name ∈ p.reads ↔ ∃ span, (Node.program p).Contains (.expr (.name name span)) := by
  rw [reads, readsAll_eq, List.mem_flatMap]
  constructor
  · rintro ⟨s, hs, hname⟩
    obtain ⟨span, hspan⟩ := Expr.exists_contains_of_mem_reads hname
    exact ⟨span, (mem_withInner_iff.1 hs).expr.trans hspan⟩
  · rintro ⟨span, h⟩
    obtain ⟨s, hs, hreads⟩ := exists_statement_of_contains h _ rfl
    exact ⟨s, hs, hreads List.mem_cons_self⟩

end Program

/-! Where the statements start. -/

mutual
theorem Statement.ReadFrom.inner_starts {s : Statement} {ts : List (Located Token)} :
    s.ReadFrom ts → ((s :: s.inner).map (·.span.start)).Sublist (starts ts)
  | .assign _ => List.Sublist.cons_cons _ (List.nil_sublist _)
  | .print _ => List.Sublist.cons_cons _ (List.nil_sublist _)
  | .branch hc hb => by
    obtain ⟨rest, hrest⟩ := List.head?_eq_some_iff.1 hc.head?_starts
    rw [starts, List.map_append, ← starts, hrest]
    refine List.Sublist.cons_cons _ (.trans ?_ (List.sublist_append_right _ _))
    exact hb.inner_starts.cons _
  | .branchElse hc hb ho => by
    obtain ⟨rest, hrest⟩ := List.head?_eq_some_iff.1 hc.head?_starts
    rw [starts, List.map_append, ← starts, hrest]
    refine List.Sublist.cons_cons _ (.trans ?_ (List.sublist_append_right _ _))
    rw [Statement.inner, List.map_append, List.map_cons, List.map_append]
    exact (hb.inner_starts.append (ho.inner_starts.cons _)).cons _
  | .loop hc hb => by
    refine List.Sublist.cons_cons _ ?_
    rw [List.map_append]
    exact (hb.inner_starts.cons _).trans (List.sublist_append_right _ _)

theorem StatementsFrom.inner_starts {ss : List Statement} {ts : List (Located Token)} :
    StatementsFrom ss ts → ((withInner ss).map (·.span.start)).Sublist (starts ts)
  | .nil => List.Sublist.refl _
  | .cons hs hrest => by
    rw [withInner, List.map_append, starts, List.map_append]
    exact hs.inner_starts.append (hrest.inner_starts.cons _)
end

/-- The statements of a program start one after the other, inner ones behind those around them. -/
theorem starts_increasing_of_parse {source : String} {parsed : Parsed}
    (hsize : source.utf8ByteSize < 4294967296) (h : parse source = .ok parsed) :
    (withInner parsed.program.statements).Pairwise fun s s' => s.span.start < s'.span.start := by
  obtain ⟨toks, ts, place, hlex, hcode, hread, -, -⟩ := parse_sound h
  have hincreasing := (inOrder_of_lex hsize hlex hcode).starts_increasing
  exact List.pairwise_map.1 (hincreasing.sublist hread.1.inner_starts)

end CatLang
