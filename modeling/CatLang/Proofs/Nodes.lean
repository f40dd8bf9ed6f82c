import CatLang.Proofs.DeadBlocks
import CatLang.Proofs.SyntaxErrors

/-! Every node of a parsed tree stands exactly where its tokens stand. A node is made of tokens of
its own and of the nodes below it, from left to right (`Node.parts`); so the tokens it was read from
can be told from the tree alone (`Node.Spells`), and its place runs from the first of them to the
last (`Span.Covers`). Tokens follow one another and so do the nodes, as far as offsets count on:
behind the last one they start again from zero (`span_across_the_last_offset`). -/
namespace CatLang

/-- Anything in a tree that has a place. -/
inductive Node where
  | program (p : Program)
  | block (b : Block)
  | statement (s : Statement)
  | expr (e : Expr)
  /-- The name that an assignment changes. -/
  | target (name : Name)

inductive Part where
  | token (t : Token)
  | node (n : Node)

def Part.node? : Part → Option Node
  | token _ => none
  | node n => some n

namespace Node

def span : Node → Span
  | program p => p.span
  | block b => b.span
  | statement s => s.span
  | expr e => e.span
  | target name => name.span

def closedParts : List Statement → List Part
  | [] => []
  | s :: rest => .node (.statement s) :: .token .semicolon :: closedParts rest

/-- What the node is made of, from left to right. -/
def parts : Node → List Part
  | program p => closedParts p.statements
  | block b => closedParts b.statements
  | statement (.assign name value _) =>
    [.node (.target name), .token .assign, .node (.expr value)]
  | statement (.print value _) => [.token .doubleColon, .node (.expr value)]
  | statement (.branch condition body none _) =>
    [.node (.expr condition), .token .question, .node (.block body)]
  | statement (.branch condition body (some otherwise) _) =>
    [.node (.expr condition), .token .question, .node (.block body), .token .colon,
      .node (.block otherwise)]
  | statement (.loop count body _) =>
    [.token .atSign, .node (.expr count), .token .colon, .node (.block body)]
  | expr (.name text _) => [.token (.name text)]
  | expr (.number raw _) => [.token (.number raw)]
  | expr (.unary op operand _) => [.token op.token, .node (.expr operand)]
  | expr (.binary left op right _) =>
    [.node (.expr left), .token op.token, .node (.expr right)]
  | expr (.group inner _) => [.token .leftParen, .node (.expr inner), .token .rightParen]
  | target name => [.token (.name name.value)]

/-- The nodes right below, from left to right. -/
def children (n : Node) : List Node := n.parts.filterMap Part.node?

def tokens : Node → List Token
  | program p => p.tokens
  | block b => statementTokens b.statements
  | statement s => s.tokens
  | expr e => e.tokens
  | target name => [.name name.value]

/-- The other node is this one or lies below it, at any depth. -/
inductive Contains (root : Node) : Node → Prop
  | root : Contains root root
  | child {n c : Node} : Contains root n → c ∈ n.children → Contains root c

end Node

def Part.tokensOf : List Part → List Token
  | [] => []
  | token t :: rest => t :: tokensOf rest
  | node n :: rest => n.tokens ++ tokensOf rest

/-- Where `root` is read back as the tokens `ts`, the node is read back as these of them. -/
inductive Node.Spells (root : Node) (ts : List (Located Token)) :
    Node → List (Located Token) → Prop
  | root : Spells root ts root ts
  | part {n c : Node} {before after : List Part} {us vs ws : List (Located Token)} :
      Spells root ts n (us ++ (vs ++ ws)) → n.parts = before ++ .node c :: after →
      valuesOf us = Part.tokensOf before → valuesOf vs = c.tokens →
      valuesOf ws = Part.tokensOf after → Spells root ts c vs

/-- The stretch runs from where the first of the tokens starts to where the last one ends. -/
def Span.Covers (span : Span) (ts : List (Located Token)) : Prop :=
  ∃ first last, ts.head? = some first ∧ ts.getLast? = some last ∧
    span = ⟨first.span.start, last.span.stop⟩

/-! Nodes that were read from tokens. -/

namespace Node

def ReadFrom : Node → List (Located Token) → Prop
  | program p, ts => p.ReadFrom ts
  | block b, ts => StatementsFrom b.statements ts ∧ b.span = ⟨startOf b.statements, stopOf ts⟩
  | statement s, ts => s.ReadFrom ts
  | expr e, ts => e.ReadFrom ts
  | target name, ts => ts = [⟨.name name.value, name.span⟩]

def Filled : Node → Prop
  | program p => p.Filled
  | block b => b.statements ≠ [] ∧ FilledAll b.statements
  | statement s => s.Filled
  | expr _ | target _ => True

theorem ReadFrom.tokens_eq {n : Node} {ts : List (Located Token)} (h : n.ReadFrom ts) :
    valuesOf ts = n.tokens := by
  cases n with
  | program p => exact Program.ReadFrom.tokens_eq h
  | block b => exact h.1.tokens_eq
  | statement s => exact Statement.ReadFrom.tokens_eq h
  | expr e => exact Expr.ReadFrom.tokens_eq h
  | target name =>
    rw [h]
    rfl

end Node

/-- The parts were read from these tokens, one after the other. -/
inductive PartsFrom : List Part → List (Located Token) → Prop
  | nil : PartsFrom [] []
  | token {t : Token} {span : Span} {parts : List Part} {ts : List (Located Token)} :
      PartsFrom parts ts → PartsFrom (.token t :: parts) (⟨t, span⟩ :: ts)
  | node {n : Node} {parts : List Part} {us ts : List (Located Token)} :
      n.ReadFrom us → PartsFrom parts ts → PartsFrom (.node n :: parts) (us ++ ts)

namespace PartsFrom

theorem last {n : Node} {ts : List (Located Token)} (h : n.ReadFrom ts) :
    PartsFrom [.node n] ts := by
  have hparts := PartsFrom.node h .nil
  rwa [List.append_nil] at hparts

theorem tokens_eq {parts : List Part} {ts : List (Located Token)} (h : PartsFrom parts ts) :
    valuesOf ts = Part.tokensOf parts := by
  induction h with
  | nil => rfl
  | token _ ih =>
    rw [Part.tokensOf, ← ih]
    rfl
  | node hn _ ih => rw [Part.tokensOf, ← ih, ← hn.tokens_eq, valuesOf, List.map_append]

theorem exists_append {before after : List Part} {ts : List (Located Token)}
    (h : PartsFrom (before ++ after) ts) :
    ∃ us vs, ts = us ++ vs ∧ PartsFrom before us ∧ PartsFrom after vs := by
  induction before generalizing ts with
  | nil => exact ⟨[], ts, rfl, .nil, h⟩
  | cons part before ih =>
    cases h with
    | token hrest =>
      obtain ⟨us, vs, rfl, hus, hvs⟩ := ih hrest
      exact ⟨_ :: us, vs, rfl, .token hus, hvs⟩
    | node hn hrest =>
      obtain ⟨us, vs, rfl, hus, hvs⟩ := ih hrest
      exact ⟨_ ++ us, vs, by rw [List.append_assoc], .node hn hus, hvs⟩

/-- A part in the middle has the tokens between those before it and those behind it. -/
theorem exists_middle {before after : List Part} {c : Node} {ts : List (Located Token)}
    (h : PartsFrom (before ++ .node c :: after) ts) :
    ∃ us vs ws, ts = us ++ (vs ++ ws) ∧ PartsFrom before us ∧ c.ReadFrom vs ∧
      PartsFrom after ws := by
  obtain ⟨us, rest, rfl, hus, hrest⟩ := h.exists_append
  cases hrest with
  | @node _ _ vs ws hc hws => exact ⟨us, vs, ws, rfl, hus, hc, hws⟩

end PartsFrom

theorem StatementsFrom.partsFrom {ss : List Statement} {ts : List (Located Token)}
    (h : StatementsFrom ss ts) : PartsFrom (Node.closedParts ss) ts := by
  induction ss generalizing ts with
  | nil =>
    cases h
    exact .nil
  | cons s rest ih =>
    cases h with
    | cons hs hrest => exact .node hs (.token (ih hrest))

theorem Expr.ReadFrom.partsFrom {e : Expr} {ts : List (Located Token)} (h : e.ReadFrom ts) :
    PartsFrom (Node.expr e).parts ts := by
  cases h with
  | name => exact .token .nil
  | number => exact .token .nil
  | unary ho => exact .token (.last ho)
  | binary hl hr => exact .node hl (.token (.last hr))
  | group hi => exact .token (.node hi (.token .nil))

theorem Statement.ReadFrom.partsFrom {s : Statement} {ts : List (Located Token)}
    (h : s.ReadFrom ts) : PartsFrom (Node.statement s).parts ts := by
  cases h with
  | @assign name value sign ts hv =>
    have hname : (Node.target name).ReadFrom [⟨.name name.value, name.span⟩] := rfl
    have hrest : PartsFrom [.token .assign, .node (.expr value)] (⟨.assign, sign⟩ :: ts) :=
      .token (.last hv)
    exact PartsFrom.node hname hrest
  | print hv => exact .token (.last hv)
  | branch hc hb => exact .node hc (.token (.last (n := .block _) ⟨hb, rfl⟩))
  | branchElse hc hb ho =>
    exact .node hc (.token (.node (n := .block _) ⟨hb, rfl⟩
      (.token (.last (n := .block _) ⟨ho, rfl⟩))))
  | loop hc hb => exact .token (.node hc (.token (.last (n := .block _) ⟨hb, rfl⟩)))

namespace Node

theorem ReadFrom.partsFrom {n : Node} {ts : List (Located Token)} (h : n.ReadFrom ts) :
    PartsFrom n.parts ts := by
  cases n with
  | program p => exact h.1.partsFrom
  | block b => exact h.1.partsFrom
  | statement s => exact Statement.ReadFrom.partsFrom h
  | expr e => exact Expr.ReadFrom.partsFrom h
  | target name =>
    subst h
    exact .token .nil

theorem exists_parts_of_child {n c : Node} (h : c ∈ n.children) :
    ∃ before after, n.parts = before ++ .node c :: after := by
  obtain ⟨part, hpart, hc⟩ := List.mem_filterMap.1 h
  obtain ⟨before, after, hparts⟩ := List.append_of_mem hpart
  cases part with
  | token t => cases hc
  | node c' =>
    cases hc
    exact ⟨before, after, hparts⟩

/-- What the tree says of a node's tokens is what it was read from. -/
theorem Spells.readFrom {root n : Node} {ts us : List (Located Token)} (hroot : root.ReadFrom ts)
    (h : root.Spells ts n us) : n.ReadFrom us ∧ us <:+: ts := by
  induction h with
  | root => exact ⟨hroot, List.infix_rfl⟩
  | @part n c before after us vs ws _ hparts hus hvs _ ih =>
    obtain ⟨hn, hwithin⟩ := ih
    have hfrom := hn.partsFrom
    rw [hparts] at hfrom
    obtain ⟨us', vs', ws', heq, hus', hvs', -⟩ := hfrom.exists_middle
    -- Both cuts are told by how many tokens the parts have.
    have hlength : us.length = us'.length := by
      have := congrArg List.length (hus.trans hus'.tokens_eq.symm)
      simpa using this
    obtain ⟨-, hrest⟩ := List.append_inj heq hlength
    have hlength' : vs.length = vs'.length := by
      have := congrArg List.length (hvs.trans hvs'.tokens_eq.symm)
      simpa using this
    obtain ⟨rfl, -⟩ := List.append_inj hrest hlength'
    exact ⟨hvs', .trans ⟨us, ws, List.append_assoc ..⟩ hwithin⟩

/-- Every node below a node that was read has tokens among those of the whole. -/
theorem Contains.exists_spells {root n : Node} {ts : List (Located Token)}
    (hroot : root.ReadFrom ts) (h : root.Contains n) : ∃ us, root.Spells ts n us := by
  induction h with
  | root => exact ⟨ts, .root⟩
  | child _ hc ih =>
    obtain ⟨us, hus⟩ := ih
    have hfrom := (hus.readFrom hroot).1.partsFrom
    obtain ⟨before, after, hparts⟩ := exists_parts_of_child hc
    rw [hparts] at hfrom
    obtain ⟨us', vs, ws, rfl, hbefore, hvs, hafter⟩ := hfrom.exists_middle
    exact ⟨vs, .part hus hparts hbefore.tokens_eq hvs.tokens_eq hafter.tokens_eq⟩

end Node

/-! Nodes without empty blocks have no such node below them. -/

theorem Node.mem_children_closed {ss : List Statement} {c : Node}
    (h : c ∈ (closedParts ss).filterMap Part.node?) : ∃ s ∈ ss, c = .statement s := by
  induction ss with
  | nil => cases h
  | cons s rest ih =>
    rw [closedParts, List.filterMap_cons, Part.node?, List.filterMap_cons, Part.node?] at h
    rcases List.mem_cons.1 h with rfl | h
    · exact ⟨s, List.mem_cons_self, rfl⟩
    · obtain ⟨s', hs', rfl⟩ := ih h
      exact ⟨s', List.mem_cons_of_mem _ hs', rfl⟩

theorem filled_of_mem {ss : List Statement} {s : Statement} (h : FilledAll ss) (hs : s ∈ ss) :
    s.Filled := by
  induction ss with
  | nil => cases hs
  | cons s' rest ih =>
    rcases List.mem_cons.1 hs with rfl | hs
    · exact h.1
    · exact ih h.2 hs

namespace Node

theorem Filled.child {n c : Node} (h : n.Filled) (hc : c ∈ n.children) : c.Filled := by
  unfold children at hc
  cases n with
  | program p =>
    obtain ⟨s, hs, rfl⟩ := mem_children_closed hc
    exact filled_of_mem (show FilledAll p.statements from h) hs
  | block b =>
    obtain ⟨s, hs, rfl⟩ := mem_children_closed hc
    exact filled_of_mem h.2 hs
  | statement s =>
    rcases s with ⟨name, value, _⟩ | ⟨value, _⟩ | ⟨condition, ⟨body, _⟩, _ | ⟨otherwise, _⟩, _⟩ |
      ⟨count, ⟨body, _⟩, _⟩ <;>
      simp only [parts, Part.node?, List.filterMap_cons, List.filterMap_nil, List.mem_cons,
        List.not_mem_nil, or_false] at hc
    · rcases hc with rfl | rfl <;> trivial
    · subst hc
      trivial
    · rcases hc with rfl | rfl
      · trivial
      · exact h
    · rcases hc with rfl | rfl | rfl
      · trivial
      · exact h.1
      · exact h.2
    · rcases hc with rfl | rfl
      · trivial
      · exact h
  | expr e =>
    cases e <;> simp only [parts, Part.node?, List.filterMap_cons, List.filterMap_nil,
      List.mem_cons, List.not_mem_nil, or_false] at hc
    · subst hc
      trivial
    · rcases hc with rfl | rfl <;> trivial
    · subst hc
      trivial
  | target name => cases hc

theorem Filled.contains {root n : Node} (hroot : root.Filled) (h : root.Contains n) :
    n.Filled := by
  induction h with
  | root => exact hroot
  | child _ hc ih => exact ih.child hc

/-- A program is the top of its tree. -/
theorem ne_program_of_child {n c : Node} (hc : c ∈ n.children) (p : Program) : c ≠ .program p := by
  unfold children at hc
  rintro rfl
  cases n with
  | program q =>
    obtain ⟨s, -, heq⟩ := mem_children_closed hc
    cases heq
  | block b =>
    obtain ⟨s, -, heq⟩ := mem_children_closed hc
    cases heq
  | statement s => rcases s with _ | _ | ⟨_, _, _ | _, _⟩ | _ <;> simp [parts, Part.node?] at hc
  | expr e => cases e <;> simp [parts, Part.node?] at hc
  | target name => cases hc

/-- The place of a node runs over its tokens. Only a program without statements has none. -/
theorem ReadFrom.covers {n : Node} {ts : List (Located Token)} (h : n.ReadFrom ts)
    (hf : n.Filled) :
    n.span.Covers ts ∨ ∃ p, n = .program p ∧ p.statements = [] ∧ ts = [] ∧ p.span = .point 0 := by
  have hfirst {start : Nat} (hstart : (starts ts).head? = some start) :
      ∃ first, ts.head? = some first ∧ first.span.start = start := by
    rw [starts, List.head?_map] at hstart
    exact Option.map_eq_some_iff.1 hstart
  have hcovers {ss : List Statement} (hss : StatementsFrom ss ts) (hne : ss ≠ []) :
      Span.Covers ⟨startOf ss, stopOf ts⟩ ts := by
    obtain ⟨first, hhead, hstart⟩ := hfirst (hss.head?_starts hne)
    obtain ⟨last, hlast, hstop⟩ := hss.exists_last hne
    exact ⟨first, last, hhead, hlast, by rw [hstart, hstop]⟩
  cases n with
  | program p =>
    obtain ⟨hss, hplace⟩ := h
    by_cases hne : p.statements = []
    · rw [hne] at hss hplace
      cases hss
      exact .inr ⟨p, rfl, hne, rfl, hplace⟩
    · left
      change p.span.Covers ts
      rw [hplace]
      exact hcovers hss hne
  | block b =>
    obtain ⟨hss, hplace⟩ := h
    left
    change b.span.Covers ts
    rw [hplace]
    exact hcovers hss hf.1
  | statement s =>
    obtain ⟨first, hhead, hstart⟩ := hfirst (Statement.ReadFrom.head?_starts h)
    obtain ⟨last, hlast, hstop⟩ := Statement.ReadFrom.exists_last h hf
    exact .inl ⟨first, last, hhead, hlast, by rw [hstart, ← hstop]; rfl⟩
  | expr e =>
    obtain ⟨first, hhead, hstart⟩ := hfirst (Expr.ReadFrom.head?_starts h)
    obtain ⟨last, hlast, hstop⟩ := Expr.ReadFrom.exists_last h
    exact .inl ⟨first, last, hhead, hlast, by rw [hstart, ← hstop]; rfl⟩
  | target name =>
    subst h
    exact .inl ⟨_, _, rfl, rfl, rfl⟩

end Node

/-! Tokens that follow one another. -/

namespace InOrder
variable {ts us vs : List (Located Token)} {a b : Span}

theorem bounds_of_covers (h : InOrder ts) (ha : a.Covers ts) {t : Located Token} (ht : t ∈ ts) :
    a.start ≤ t.span.start ∧ t.span.stop ≤ a.stop := by
  obtain ⟨first, last, hfirst, hlast, rfl⟩ := ha
  constructor
  · obtain ⟨rest, rfl⟩ := List.head?_eq_some_iff.1 hfirst
    rcases List.mem_cons.1 ht with rfl | ht
    · exact Nat.le_refl _
    · have hle := (List.pairwise_cons.1 h.pairwise).1 t ht
      exact Nat.le_trans (Nat.le_of_lt (h.start_lt_stop first List.mem_cons_self)) hle
  · obtain ⟨front, rfl⟩ := List.getLast?_eq_some_iff.1 hlast
    rcases List.mem_append.1 ht with ht | ht
    · have hle := (List.pairwise_append.1 h.pairwise).2.2 t ht last (List.mem_singleton_self last)
      exact Nat.le_trans hle (Nat.le_of_lt (h.start_lt_stop last (by simp)))
    · rw [List.mem_singleton.1 ht]

theorem lt_of_covers (h : InOrder ts) (ha : a.Covers ts) : a.start < a.stop := by
  obtain ⟨first, -, hfirst, -⟩ := id ha
  have hmem := List.mem_of_head? hfirst
  obtain ⟨hstart, hstop⟩ := h.bounds_of_covers ha hmem
  have hlt := h.start_lt_stop first hmem
  omega

/-- Fewer tokens cover less. -/
theorem covers_within (h : InOrder ts) (ha : a.Covers ts) (hb : b.Covers us) (hsub : us ⊆ ts) :
    a.start ≤ b.start ∧ b.stop ≤ a.stop := by
  obtain ⟨first, last, hfirst, hlast, rfl⟩ := hb
  exact ⟨(h.bounds_of_covers ha (hsub (List.mem_of_head? hfirst))).1,
    (h.bounds_of_covers ha (hsub (List.mem_of_getLast? hlast))).2⟩

theorem covers_before (h : InOrder (us ++ vs)) (ha : a.Covers us) (hb : b.Covers vs) :
    a.stop ≤ b.start := by
  obtain ⟨-, last, -, hlast, rfl⟩ := ha
  obtain ⟨first, -, hfirst, -, rfl⟩ := hb
  exact (List.pairwise_append.1 h.pairwise).2.2 last (List.mem_of_getLast? hlast) first
    (List.mem_of_head? hfirst)

end InOrder

/-- Nodes that are parts of one node lie where its tokens lie and follow one another as they do. -/
theorem PartsFrom.pairwise {parts : List Part} {ts : List (Located Token)} (h : PartsFrom parts ts)
    (horder : InOrder ts)
    (hf : ∀ c ∈ parts.filterMap Part.node?, c.Filled ∧ ∀ p, c ≠ .program p) :
    (∀ c ∈ parts.filterMap Part.node?, ∃ us, us.Sublist ts ∧ c.span.Covers us) ∧
      (parts.filterMap Part.node?).Pairwise fun a b => a.span.stop ≤ b.span.start := by
  induction h with
  | nil => exact ⟨by simp, .nil⟩
  | token _ ih =>
    obtain ⟨hcovers, hpairwise⟩ := ih (horder.sublist (List.sublist_cons_self ..)) hf
    refine ⟨fun c hc => ?_, hpairwise⟩
    obtain ⟨us, hus, hc⟩ := hcovers c hc
    exact ⟨us, hus.trans (List.sublist_cons_self ..), hc⟩
  | @node n parts us ts hn _ ih =>
    change ∀ c ∈ n :: parts.filterMap Part.node?, _ at hf
    obtain ⟨⟨hfilled, hne⟩, hf⟩ := List.forall_mem_cons.1 hf
    obtain ⟨hcovers, hpairwise⟩ := ih (horder.sublist (List.sublist_append_right ..)) hf
    have hfirst : n.span.Covers us := by
      rcases hn.covers hfilled with hcovers | ⟨p, rfl, -⟩
      · exact hcovers
      · exact absurd rfl (hne p)
    change (∀ c ∈ n :: parts.filterMap Part.node?, _) ∧ List.Pairwise _ (n :: _)
    rw [List.forall_mem_cons, List.pairwise_cons]
    refine ⟨⟨⟨us, List.sublist_append_left .., hfirst⟩, fun c hc => ?_⟩, fun c hc => ?_, hpairwise⟩
    · obtain ⟨vs, hvs, hc⟩ := hcovers c hc
      exact ⟨vs, hvs.trans (List.sublist_append_right ..), hc⟩
    · obtain ⟨vs, hvs, hc⟩ := hcovers c hc
      exact (horder.sublist ((List.Sublist.refl us).append hvs)).covers_before hfirst hc

namespace Node

/-- Children lie inside their parent, behind one another. -/
theorem ReadFrom.children_inside {n : Node} {ts : List (Located Token)} (h : n.ReadFrom ts)
    (hf : n.Filled) (horder : InOrder ts) :
    (∀ c ∈ n.children, c.span.start < c.span.stop ∧
        n.span.start ≤ c.span.start ∧ c.span.stop ≤ n.span.stop) ∧
      n.children.Pairwise fun a b => a.span.stop ≤ b.span.start := by
  obtain ⟨hcovers, hpairwise⟩ :=
    h.partsFrom.pairwise horder fun c hc => ⟨hf.child hc, ne_program_of_child hc⟩
  refine ⟨fun c hc => ?_, hpairwise⟩
  obtain ⟨us, hus, hcovered⟩ := hcovers c hc
  refine ⟨(horder.sublist hus).lt_of_covers hcovered, ?_⟩
  rcases h.covers hf with hn | ⟨p, rfl, hnil, -⟩
  · exact horder.covers_within hn hcovered hus.subset
  · unfold children at hc
    rw [parts, hnil] at hc
    cases hc

end Node

/-- Every node of a parsed program, at any depth, stands exactly where the tokens stand that it was
read from: those that are left of its parent's tokens once the parts before it and behind it have
taken theirs. The place of an empty program is the start of the text. So children lie inside their
parents, and siblings follow one another, in a source short enough for its offsets. -/
theorem node_spans_of_parse {source : String} {parsed : Parsed} (h : parse source = .ok parsed) :
    ∃ toks ts place, lex source = .ok toks ∧ codeOf toks = ts ++ [⟨.endOfFile, place⟩] ∧
      ∀ n, (Node.program parsed.program).Contains n →
        (∃ us, (Node.program parsed.program).Spells ts n us) ∧
        (∀ us, (Node.program parsed.program).Spells ts n us →
          us <:+: ts ∧ valuesOf us = n.tokens ∧
            (n.span.Covers us ∨
              n = .program parsed.program ∧ parsed.program.statements = [] ∧
                us = [] ∧ n.span = ⟨0, 0⟩)) ∧
        (source.utf8ByteSize < 4294967296 →
          (∀ c ∈ n.children, c.span.start < c.span.stop ∧
            n.span.start ≤ c.span.start ∧ c.span.stop ≤ n.span.stop) ∧
          n.children.Pairwise fun a b => a.span.stop ≤ b.span.start) := by
  obtain ⟨toks, ts, place, hlex, hcode, hread, -, hfilled⟩ := parse_sound h
  refine ⟨toks, ts, place, hlex, hcode, fun n hn => ?_⟩
  have hroot : (Node.program parsed.program).ReadFrom ts := hread
  have hrootFilled : (Node.program parsed.program).Filled := hfilled
  have hf := hrootFilled.contains hn
  obtain ⟨us, hus⟩ := hn.exists_spells hroot
  refine ⟨⟨us, hus⟩, fun vs hvs => ?_, fun hsize => ?_⟩
  · obtain ⟨hfrom, hwithin⟩ := hvs.readFrom hroot
    refine ⟨hwithin, hfrom.tokens_eq, ?_⟩
    rcases hfrom.covers hf with hcovers | ⟨p, rfl, hnil, hempty, hplace⟩
    · exact .inl hcovers
    · cases hn with
      | root => exact .inr ⟨rfl, hnil, hempty, hplace⟩
      | child _ hc => exact absurd rfl (Node.ne_program_of_child hc p)
  · obtain ⟨hfrom, hwithin⟩ := hus.readFrom hroot
    exact hfrom.children_inside hf ((inOrder_of_lex hsize hlex hcode).sublist hwithin.sublist)

/-- The else block starts behind a comment and ends with the semicolon of its own statement, before
the one that closes the condition. -/
theorem node_spans_of_parse_else :
    ∃ parsed toks ts place b, parse "x = mew; x ? :: (x); : // no\n :: ~x;;" = .ok parsed ∧
      lex "x = mew; x ? :: (x); : // no\n :: ~x;;" = .ok toks ∧
      codeOf toks = ts ++ [⟨.endOfFile, place⟩] ∧
      (Node.program parsed.program).Contains (.block b) ∧ b.span = ⟨30, 36⟩ ∧
      (∃ us, (Node.program parsed.program).Spells ts (.block b) us ∧
        valuesOf us = [.doubleColon, .tilde, .name "x", .semicolon] ∧ b.span.Covers us) ∧
      ∀ c ∈ (Node.block b).children, 30 ≤ c.span.start ∧ c.span.stop ≤ 36 := by
  obtain ⟨parsed, hparse, b, hb, hspan, htokens⟩ : ∃ parsed,
      parse "x = mew; x ? :: (x); : // no\n :: ~x;;" = .ok parsed ∧ ∃ b,
        (Node.program parsed.program).Contains (.block b) ∧ b.span = ⟨30, 36⟩ ∧
        (Node.block b).tokens = [.doubleColon, .tilde, .name "x", .semicolon] := by
    refine ⟨_, by cbv, ?_⟩
    exact ⟨_, .child (.child .root (.tail _ (.head _))) (.tail _ (.tail _ (.head _))), rfl, rfl⟩
  obtain ⟨toks, ts, place, hlex, hcode, hnodes⟩ := node_spans_of_parse hparse
  obtain ⟨⟨us, hus⟩, hcovers, hinside⟩ := hnodes _ hb
  obtain ⟨-, hvalues, hplace⟩ := hcovers us hus
  refine ⟨parsed, toks, ts, place, b, hparse, hlex, hcode, hb, hspan, ⟨us, hus, ?_, ?_⟩, ?_⟩
  · rw [hvalues, htokens]
  · rcases hplace with hplace | ⟨heq, -⟩
    · exact hplace
    · cases heq
  · intro c hc
    obtain ⟨-, hstart, hstop⟩ := (hinside (by decide)).1 c hc
    rw [Node.span, hspan] at hstart hstop
    exact ⟨hstart, hstop⟩

/-- A sum that goes on behind the last offset: it ends before its first operand, which ends behind
the start of the second. -/
theorem span_across_the_last_offset :
    ∃ parsed sum left right, parse (Text.indented 4294967290 ":: a + b;") = .ok parsed ∧
      (Node.program parsed.program).Contains sum ∧ sum.children = [left, right] ∧
      sum.span = ⟨4294967293, 2⟩ ∧ left.span = ⟨4294967293, 4294967294⟩ ∧ right.span = ⟨1, 2⟩ ∧
      ¬ left.span.stop ≤ sum.span.stop ∧ ¬ left.span.stop ≤ right.span.start := by
  have hresults : results (Text.indented 4294967290 ":: a + b;") =
      [.ok ⟨.doubleColon, 4294967290, 4294967292⟩, .ok ⟨.name "a", 4294967293, 4294967294⟩,
        .ok ⟨.plus, 4294967295, 0⟩, .ok ⟨.name "b", 1, 2⟩, .ok ⟨.semicolon, 2, 3⟩,
        .ok ⟨.endOfFile, 3, 3⟩] := by
    rw [results_indented]
    cbv
  let left : Expr := .name "a" ⟨4294967293, 4294967294⟩
  let right : Expr := .name "b" ⟨1, 2⟩
  refine ⟨_, .expr (.binary left .add right ⟨4294967293, 2⟩), .expr left, .expr right,
    by rw [parse_eq, hresults]; cbv, ?_, rfl, rfl, rfl, rfl, by decide, by decide⟩
  exact .child (.child .root (.head _)) (.head _)

end CatLang
