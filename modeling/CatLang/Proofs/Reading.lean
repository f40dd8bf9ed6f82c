import CatLang.Tree

/-! Trees read back as tokens. Reading a tree from left to right forgets how it is grouped and where
it stood; `Grouped` says which grouping the precedences ask for, and `ReadFrom` ties the places of a
tree to those of the tokens it was read from. -/
namespace CatLang

namespace Expr

/-- The tokens of an expression, from left to right. -/
def tokens : Expr → List Token
  | name text _ => [.name text]
  | number raw _ => [.number raw]
  | unary op operand _ => op.token :: operand.tokens
  | binary left op right _ => left.tokens ++ op.token :: right.tokens
  | group inner _ => .leftParen :: inner.tokens ++ [.rightParen]

/-- The same expression with every place at the start of the source. -/
def bare : Expr → Expr
  | name text _ => .name text (.point 0)
  | number raw _ => .number raw (.point 0)
  | unary op operand _ => .unary op operand.bare (.point 0)
  | binary left op right _ => .binary left.bare op right.bare (.point 0)
  | group inner _ => .group inner.bare (.point 0)

/-- A name, a number or a parenthesised expression. -/
def IsPrimary : Expr → Prop
  | name _ _ | number _ _ | group _ _ => True
  | unary _ _ _ | binary _ _ _ _ => False

/-- The operator between two operands at the root, if there is one. -/
def operator? : Expr → Option BinaryOp
  | binary _ op _ _ => some op
  | _ => none

/-- A primary, an operator before its operand, or an operator that binds tighter than `level`. -/
def Above (level : Level) (e : Expr) : Prop := ∀ op, e.operator? = some op → level < op.token.level

/-- The same, or an operator of just that level. -/
def AtLeast (level : Level) (e : Expr) : Prop :=
  ∀ op, e.operator? = some op → level ≤ op.token.level

/-- Every operator has the operands that precedence gives it: `**` groups to the right, the other
infix operators to the left, and an operator before its operand comes between `**` and `*`. -/
def Grouped : Expr → Prop
  | name _ _ | number _ _ => True
  | unary _ operand _ => operand.Above .product ∧ operand.Grouped
  | binary left .power right _ =>
    (left.IsPrimary ∧ right.Above .product) ∧ left.Grouped ∧ right.Grouped
  | binary left op right _ =>
    (left.AtLeast op.token.level ∧ right.Above op.token.level) ∧ left.Grouped ∧ right.Grouped
  | group inner _ => inner.Grouped

end Expr

mutual
def Statement.tokens : Statement → List Token
  | .assign target value _ => .name target.value :: .assign :: value.tokens
  | .print value _ => .doubleColon :: value.tokens
  | .branch condition ⟨body, _⟩ none _ => condition.tokens ++ .question :: statementTokens body
  | .branch condition ⟨body, _⟩ (some ⟨otherwise, _⟩) _ =>
    condition.tokens ++ .question :: (statementTokens body ++ .colon :: statementTokens otherwise)
  | .loop count ⟨body, _⟩ _ => .atSign :: (count.tokens ++ .colon :: statementTokens body)

/-- Each statement with its closing semicolon. -/
def statementTokens : List Statement → List Token
  | [] => []
  | s :: rest => s.tokens ++ .semicolon :: statementTokens rest
end

mutual
def Statement.bare : Statement → Statement
  | .assign target value _ => .assign ⟨target.value, .point 0⟩ value.bare (.point 0)
  | .print value _ => .print value.bare (.point 0)
  | .branch condition ⟨body, _⟩ none _ =>
    .branch condition.bare ⟨bareAll body, .point 0⟩ none (.point 0)
  | .branch condition ⟨body, _⟩ (some ⟨otherwise, _⟩) _ =>
    .branch condition.bare ⟨bareAll body, .point 0⟩ (some ⟨bareAll otherwise, .point 0⟩) (.point 0)
  | .loop count ⟨body, _⟩ _ => .loop count.bare ⟨bareAll body, .point 0⟩ (.point 0)

def bareAll : List Statement → List Statement
  | [] => []
  | s :: rest => s.bare :: bareAll rest
end

mutual
/-- All expressions in it are grouped. -/
def Statement.Grouped : Statement → Prop
  | .assign _ value _ => value.Grouped
  | .print value _ => value.Grouped
  | .branch condition ⟨body, _⟩ none _ => condition.Grouped ∧ GroupedAll body
  | .branch condition ⟨body, _⟩ (some ⟨otherwise, _⟩) _ =>
    condition.Grouped ∧ GroupedAll body ∧ GroupedAll otherwise
  | .loop count ⟨body, _⟩ _ => count.Grouped ∧ GroupedAll body

def GroupedAll : List Statement → Prop
  | [] => True
  | s :: rest => s.Grouped ∧ GroupedAll rest
end

mutual
/-- Every block in it has a statement. -/
def Statement.Filled : Statement → Prop
  | .assign _ _ _ => True
  | .print _ _ => True
  | .branch _ ⟨body, _⟩ none _ => body ≠ [] ∧ FilledAll body
  | .branch _ ⟨body, _⟩ (some ⟨otherwise, _⟩) _ =>
    (body ≠ [] ∧ FilledAll body) ∧ otherwise ≠ [] ∧ FilledAll otherwise
  | .loop _ ⟨body, _⟩ _ => body ≠ [] ∧ FilledAll body

def FilledAll : List Statement → Prop
  | [] => True
  | s :: rest => s.Filled ∧ FilledAll rest
end

namespace Program

/-- The tokens of a program without the end of file. -/
def tokens (p : Program) : List Token := statementTokens p.statements

/-- Two programs are the same up to places when these are equal. -/
def bare (p : Program) : Program := ⟨bareAll p.statements, .point 0⟩

def Grouped (p : Program) : Prop := GroupedAll p.statements

def Filled (p : Program) : Prop := FilledAll p.statements

end Program

/-- Where the first of some statements starts. -/
def startOf : List Statement → Nat
  | [] => 0
  | s :: _ => s.span.start

/-- Where the last of some tokens ends. -/
def stopOf (ts : List (Located Token)) : Nat :=
  match ts.getLast? with
  | none => 0
  | some t => t.span.stop

/-- The expression was read from these tokens, and its places are theirs. -/
inductive Expr.ReadFrom : Expr → List (Located Token) → Prop
  | name {text : String} {span : Span} : ReadFrom (.name text span) [⟨.name text, span⟩]
  | number {raw : String} {span : Span} : ReadFrom (.number raw span) [⟨.number raw, span⟩]
  | unary {op : UnaryOp} {operand : Expr} {sign : Span} {ts : List (Located Token)} :
      ReadFrom operand ts →
      ReadFrom (.unary op operand ⟨sign.start, operand.span.stop⟩) (⟨op.token, sign⟩ :: ts)
  | binary {left right : Expr} {op : BinaryOp} {sign : Span} {ts us : List (Located Token)} :
      ReadFrom left ts → ReadFrom right us →
      ReadFrom (.binary left op right ⟨left.span.start, right.span.stop⟩)
        (ts ++ ⟨op.token, sign⟩ :: us)
  | group {inner : Expr} {opening closing : Span} {ts : List (Located Token)} :
      ReadFrom inner ts →
      ReadFrom (.group inner ⟨opening.start, closing.stop⟩)
        (⟨.leftParen, opening⟩ :: (ts ++ [⟨.rightParen, closing⟩]))

mutual
/-- The statement was read from these tokens, and its places are theirs. -/
inductive Statement.ReadFrom : Statement → List (Located Token) → Prop
  | assign {target : Name} {value : Expr} {sign : Span} {ts : List (Located Token)} :
      value.ReadFrom ts →
      Statement.ReadFrom (.assign target value ⟨target.span.start, value.span.stop⟩)
        (⟨.name target.value, target.span⟩ :: ⟨.assign, sign⟩ :: ts)
  | print {value : Expr} {sign : Span} {ts : List (Located Token)} :
      value.ReadFrom ts →
      Statement.ReadFrom (.print value ⟨sign.start, value.span.stop⟩) (⟨.doubleColon, sign⟩ :: ts)
  | branch {condition : Expr} {body : List Statement} {mark : Span}
      {ts us : List (Located Token)} :
      condition.ReadFrom ts → StatementsFrom body us →
      Statement.ReadFrom
        (.branch condition ⟨body, startOf body, stopOf us⟩ none
          ⟨condition.span.start, stopOf us⟩)
        (ts ++ ⟨.question, mark⟩ :: us)
  | branchElse {condition : Expr} {body otherwise : List Statement} {mark colon : Span}
      {ts us vs : List (Located Token)} :
      condition.ReadFrom ts → StatementsFrom body us → StatementsFrom otherwise vs →
      Statement.ReadFrom
        (.branch condition ⟨body, startOf body, stopOf us⟩
          (some ⟨otherwise, startOf otherwise, stopOf vs⟩) ⟨condition.span.start, stopOf vs⟩)
        (ts ++ ⟨.question, mark⟩ :: (us ++ ⟨.colon, colon⟩ :: vs))
  | loop {count : Expr} {body : List Statement} {sign colon : Span}
      {ts us : List (Located Token)} :
      count.ReadFrom ts → StatementsFrom body us →
      Statement.ReadFrom
        (.loop count ⟨body, startOf body, stopOf us⟩ ⟨sign.start, stopOf us⟩)
        (⟨.atSign, sign⟩ :: (ts ++ ⟨.colon, colon⟩ :: us))

/-- The same for statements that follow one another, each closed by a semicolon. -/
inductive StatementsFrom : List Statement → List (Located Token) → Prop
  | nil : StatementsFrom [] []
  | cons {s : Statement} {rest : List Statement} {mark : Span} {ts us : List (Located Token)} :
      Statement.ReadFrom s ts → StatementsFrom rest us →
      StatementsFrom (s :: rest) (ts ++ ⟨.semicolon, mark⟩ :: us)
end

/-- The same for a whole program; one without statements stands at the start. -/
def Program.ReadFrom (p : Program) (ts : List (Located Token)) : Prop :=
  StatementsFrom p.statements ts ∧ p.span = ⟨startOf p.statements, stopOf ts⟩

namespace Expr

@[simp] theorem operator?_bare (e : Expr) : e.bare.operator? = e.operator? := by
  cases e <;> rfl

@[simp] theorem isPrimary_bare (e : Expr) : e.bare.IsPrimary ↔ e.IsPrimary := by
  cases e <;> rfl

@[simp] theorem grouped_bare (e : Expr) : e.bare.Grouped ↔ e.Grouped := by
  induction e with
  | name text span => rfl
  | number raw span => rfl
  | unary op operand span ih => simp [bare, Grouped, Above, ih]
  | binary left op right span ihl ihr =>
    cases op <;> simp [bare, Grouped, Above, AtLeast, ihl, ihr]
  | group inner span ih => simpa [bare, Grouped] using ih

theorem ReadFrom.tokens_eq {e : Expr} {ts : List (Located Token)} (h : e.ReadFrom ts) :
    ts.map (·.value) = e.tokens := by
  induction h with
  | name => rfl
  | number => rfl
  | unary _ ih => simp [Expr.tokens, ih]
  | binary _ _ ihl ihr => simp [Expr.tokens, ihl, ihr]
  | group _ ih => simp [Expr.tokens, ih]

/-- Located tokens that read like an expression give it their places. -/
theorem exists_readFrom (e : Expr) : ∀ ts : List (Located Token), ts.map (·.value) = e.tokens →
    ∃ e' : Expr, e'.bare = e.bare ∧ e'.ReadFrom ts := by
  induction e with
  | name text span =>
    intro ts h
    obtain ⟨⟨_, place⟩, rfl, rfl⟩ := List.map_eq_singleton_iff.1 h
    exact ⟨.name text place, rfl, .name⟩
  | number raw span =>
    intro ts h
    obtain ⟨⟨_, place⟩, rfl, rfl⟩ := List.map_eq_singleton_iff.1 h
    exact ⟨.number raw place, rfl, .number⟩
  | unary op operand span ih =>
    intro ts h
    obtain ⟨⟨_, sign⟩, us, rfl, rfl, hu⟩ := List.map_eq_cons_iff.1 h
    obtain ⟨operand', hb, hr⟩ := ih us hu
    exact ⟨_, by simp [bare, hb], .unary hr⟩
  | binary left op right span ihl ihr =>
    intro ts h
    obtain ⟨us, vs, rfl, hu, hv⟩ := List.map_eq_append_iff.1 h
    obtain ⟨⟨_, sign⟩, ws, rfl, rfl, hw⟩ := List.map_eq_cons_iff.1 hv
    obtain ⟨left', hlb, hl⟩ := ihl us hu
    obtain ⟨right', hrb, hr⟩ := ihr ws hw
    exact ⟨_, by simp [bare, hlb, hrb], .binary hl hr⟩
  | group inner span ih =>
    intro ts h
    obtain ⟨⟨_, opening⟩, us, rfl, rfl, hu⟩ := List.map_eq_cons_iff.1 h
    obtain ⟨vs, ws, rfl, hv, hw⟩ := List.map_eq_append_iff.1 hu
    obtain ⟨⟨_, closing⟩, rfl, rfl⟩ := List.map_eq_singleton_iff.1 hw
    obtain ⟨inner', hb, hr⟩ := ih vs hv
    exact ⟨_, by simp [bare, hb], .group hr⟩

end Expr

mutual
theorem Statement.grouped_bare : ∀ s : Statement, s.bare.Grouped ↔ s.Grouped
  | .assign _ _ _ => by simp [Statement.bare, Statement.Grouped]
  | .print _ _ => by simp [Statement.bare, Statement.Grouped]
  | .branch _ ⟨body, _⟩ none _ => by
    simp [Statement.bare, Statement.Grouped, groupedAll_bareAll body]
  | .branch _ ⟨body, _⟩ (some ⟨otherwise, _⟩) _ => by
    simp [Statement.bare, Statement.Grouped, groupedAll_bareAll body,
      groupedAll_bareAll otherwise]
  | .loop _ ⟨body, _⟩ _ => by
    simp [Statement.bare, Statement.Grouped, groupedAll_bareAll body]

theorem groupedAll_bareAll : ∀ ss : List Statement, GroupedAll (bareAll ss) ↔ GroupedAll ss
  | [] => Iff.rfl
  | s :: rest => by simp [bareAll, GroupedAll, s.grouped_bare, groupedAll_bareAll rest]
end

theorem bareAll_eq_nil_iff {ss : List Statement} : bareAll ss = [] ↔ ss = [] := by
  cases ss <;> simp [bareAll]

mutual
theorem Statement.filled_bare : ∀ s : Statement, s.bare.Filled ↔ s.Filled
  | .assign _ _ _ => by simp [Statement.bare, Statement.Filled]
  | .print _ _ => by simp [Statement.bare, Statement.Filled]
  | .branch _ ⟨body, _⟩ none _ => by
    simp [Statement.bare, Statement.Filled, filledAll_bareAll body, bareAll_eq_nil_iff]
  | .branch _ ⟨body, _⟩ (some ⟨otherwise, _⟩) _ => by
    simp [Statement.bare, Statement.Filled, filledAll_bareAll body,
      filledAll_bareAll otherwise, bareAll_eq_nil_iff]
  | .loop _ ⟨body, _⟩ _ => by
    simp [Statement.bare, Statement.Filled, filledAll_bareAll body, bareAll_eq_nil_iff]

theorem filledAll_bareAll : ∀ ss : List Statement, FilledAll (bareAll ss) ↔ FilledAll ss
  | [] => Iff.rfl
  | s :: rest => by simp [bareAll, FilledAll, s.filled_bare, filledAll_bareAll rest]
end

mutual
theorem Statement.ReadFrom.tokens_eq {s : Statement} {ts : List (Located Token)} :
    s.ReadFrom ts → ts.map (·.value) = s.tokens
  | .assign hv => by simp [Statement.tokens, hv.tokens_eq]
  | .print hv => by simp [Statement.tokens, hv.tokens_eq]
  | .branch hc hb => by simp [Statement.tokens, hc.tokens_eq, hb.tokens_eq]
  | .branchElse hc hb ho => by simp [Statement.tokens, hc.tokens_eq, hb.tokens_eq, ho.tokens_eq]
  | .loop hc hb => by simp [Statement.tokens, hc.tokens_eq, hb.tokens_eq]

theorem StatementsFrom.tokens_eq {ss : List Statement} {ts : List (Located Token)} :
    StatementsFrom ss ts → ts.map (·.value) = statementTokens ss
  | .nil => rfl
  | .cons hs hrest => by simp [statementTokens, hs.tokens_eq, hrest.tokens_eq]
end

mutual
theorem Statement.exists_readFrom : ∀ (s : Statement) (ts : List (Located Token)),
    ts.map (·.value) = s.tokens → ∃ s' : Statement, s'.bare = s.bare ∧ s'.ReadFrom ts
  | .assign target value _, ts, h => by
    obtain ⟨⟨_, place⟩, us, rfl, rfl, hu⟩ := List.map_eq_cons_iff.1 h
    obtain ⟨⟨_, sign⟩, vs, rfl, rfl, hv⟩ := List.map_eq_cons_iff.1 hu
    obtain ⟨value', hb, hr⟩ := value.exists_readFrom vs hv
    exact ⟨.assign ⟨target.value, place⟩ value' ⟨place.start, value'.span.stop⟩,
      by simp [Statement.bare, hb], .assign hr⟩
  | .print value _, ts, h => by
    obtain ⟨⟨_, sign⟩, us, rfl, rfl, hu⟩ := List.map_eq_cons_iff.1 h
    obtain ⟨value', hb, hr⟩ := value.exists_readFrom us hu
    exact ⟨_, by simp [Statement.bare, hb], .print hr⟩
  | .branch condition ⟨body, _⟩ none _, ts, h => by
    obtain ⟨us, vs, rfl, hu, hv⟩ := List.map_eq_append_iff.1 h
    obtain ⟨⟨_, mark⟩, ws, rfl, rfl, hw⟩ := List.map_eq_cons_iff.1 hv
    obtain ⟨condition', hcb, hc⟩ := condition.exists_readFrom us hu
    obtain ⟨body', hbb, hb⟩ := exists_statementsFrom body ws hw
    exact ⟨_, by simp [Statement.bare, hcb, hbb], .branch hc hb⟩
  | .branch condition ⟨body, _⟩ (some ⟨otherwise, _⟩) _, ts, h => by
    obtain ⟨us, vs, rfl, hu, hv⟩ := List.map_eq_append_iff.1 h
    obtain ⟨⟨_, mark⟩, ws, rfl, rfl, hw⟩ := List.map_eq_cons_iff.1 hv
    obtain ⟨xs, ys, rfl, hx, hy⟩ := List.map_eq_append_iff.1 hw
    obtain ⟨⟨_, colon⟩, zs, rfl, rfl, hz⟩ := List.map_eq_cons_iff.1 hy
    obtain ⟨condition', hcb, hc⟩ := condition.exists_readFrom us hu
    obtain ⟨body', hbb, hb⟩ := exists_statementsFrom body xs hx
    obtain ⟨otherwise', hob, ho⟩ := exists_statementsFrom otherwise zs hz
    exact ⟨_, by simp [Statement.bare, hcb, hbb, hob], .branchElse hc hb ho⟩
  | .loop count ⟨body, _⟩ _, ts, h => by
    obtain ⟨⟨_, sign⟩, us, rfl, rfl, hu⟩ := List.map_eq_cons_iff.1 h
    obtain ⟨vs, ws, rfl, hv, hw⟩ := List.map_eq_append_iff.1 hu
    obtain ⟨⟨_, colon⟩, xs, rfl, rfl, hx⟩ := List.map_eq_cons_iff.1 hw
    obtain ⟨count', hcb, hc⟩ := count.exists_readFrom vs hv
    obtain ⟨body', hbb, hb⟩ := exists_statementsFrom body xs hx
    exact ⟨_, by simp [Statement.bare, hcb, hbb], .loop hc hb⟩

theorem exists_statementsFrom : ∀ (ss : List Statement) (ts : List (Located Token)),
    ts.map (·.value) = statementTokens ss →
    ∃ ss' : List Statement, bareAll ss' = bareAll ss ∧ StatementsFrom ss' ts
  | [], ts, h => ⟨[], rfl, List.map_eq_nil_iff.1 h ▸ .nil⟩
  | s :: rest, ts, h => by
    obtain ⟨us, vs, rfl, hu, hv⟩ := List.map_eq_append_iff.1 h
    obtain ⟨⟨_, mark⟩, ws, rfl, rfl, hw⟩ := List.map_eq_cons_iff.1 hv
    obtain ⟨s', hsb, hs⟩ := s.exists_readFrom us hu
    obtain ⟨rest', hrb, hr⟩ := exists_statementsFrom rest ws hw
    exact ⟨_, by simp [bareAll, hsb, hrb], .cons hs hr⟩
end

namespace Program

theorem ReadFrom.tokens_eq {p : Program} {ts : List (Located Token)} (h : p.ReadFrom ts) :
    ts.map (·.value) = p.tokens :=
  h.1.tokens_eq

/-- Located tokens that read like a program give it their places. The grouping and the blocks stay
what they were. -/
theorem exists_readFrom (p : Program) {ts : List (Located Token)}
    (h : ts.map (·.value) = p.tokens) : ∃ p' : Program, p'.bare = p.bare ∧ p'.ReadFrom ts := by
  obtain ⟨ss, hb, hs⟩ := exists_statementsFrom p.statements ts h
  exact ⟨⟨ss, startOf ss, stopOf ts⟩, by simp [bare, hb], hs, rfl⟩

theorem grouped_congr {p q : Program} (h : p.bare = q.bare) : p.Grouped ↔ q.Grouped := by
  have hss : bareAll p.statements = bareAll q.statements := congrArg statements h
  rw [Grouped, Grouped, ← groupedAll_bareAll p.statements, hss, groupedAll_bareAll]

theorem filled_congr {p q : Program} (h : p.bare = q.bare) : p.Filled ↔ q.Filled := by
  have hss : bareAll p.statements = bareAll q.statements := congrArg statements h
  rw [Filled, Filled, ← filledAll_bareAll p.statements, hss, filledAll_bareAll]

end Program

end CatLang
