import CatLang.Proofs.Expression

/-! Reading statements, blocks and programs. As for expressions, what is accepted was spelled by the
tokens taken (`program_sound`), and the tokens of a grouped program are read back as that program
(`program_complete`); the one thing that can stand in the way is a block without statements. -/
namespace CatLang

theorem Expr.ReadFrom.head {e : Expr} {ts : List (Located Token)} (h : e.ReadFrom ts) :
    ∃ t rest, ts = t :: rest ∧ t.value.startsExpression = true := by
  induction h with
  | name => exact ⟨_, _, rfl, rfl⟩
  | number => exact ⟨_, _, rfl, rfl⟩
  | @unary op operand sign ts _ _ => exact ⟨_, _, rfl, by cases op <;> rfl⟩
  | binary _ _ ihl _ =>
    obtain ⟨t, rest, rfl, ht⟩ := ihl
    exact ⟨t, _, rfl, ht⟩
  | group => exact ⟨_, _, rfl, rfl⟩

theorem Expr.ReadFrom.not_assign {e : Expr} {ts : List (Located Token)} (h : e.ReadFrom ts) :
    ∀ t ∈ ts, t.value ≠ .assign := by
  induction h with
  | name => simp
  | number => simp
  | @unary op operand sign ts _ ih => cases op <;> simpa [UnaryOp.token] using ih
  | @binary left right op sign ts us _ _ ihl ihr =>
    intro t ht
    rcases List.mem_append.1 ht with ht | ht
    · exact ihl t ht
    · rcases List.mem_cons.1 ht with rfl | ht
      · cases op <;> simp [BinaryOp.token]
      · exact ihr t ht
  | group _ ih =>
    intro t ht
    simp only [List.mem_cons, List.mem_append, List.not_mem_nil, or_false] at ht
    rcases ht with rfl | ht | rfl
    · simp
    · exact ih t ht
    · simp

theorem Token.startsStatement_of_startsExpression {t : Token} (h : t.startsExpression = true) :
    t.startsStatement = true := by
  cases t <;> first | rfl | exact h

theorem Statement.ReadFrom.head {s : Statement} {ts : List (Located Token)} (h : s.ReadFrom ts) :
    ∃ t rest, ts = t :: rest ∧ t.value.startsStatement = true := by
  cases h with
  | assign => exact ⟨_, _, rfl, rfl⟩
  | print => exact ⟨_, _, rfl, rfl⟩
  | branch hc _ =>
    obtain ⟨t, rest, rfl, ht⟩ := hc.head
    exact ⟨t, _, rfl, Token.startsStatement_of_startsExpression ht⟩
  | branchElse hc _ _ =>
    obtain ⟨t, rest, rfl, ht⟩ := hc.head
    exact ⟨t, _, rfl, Token.startsStatement_of_startsExpression ht⟩
  | loop => exact ⟨_, _, rfl, rfl⟩

namespace Parser
variable {p q : Parser} {s : Statement} {b : Block} {ss : List Statement}

theorem Passes.lastEnd_eq_stopOf {ts : List (Located Token)} (h : Passes p ts q) (hne : ts ≠ []) :
    q.lastEnd = stopOf ts := by
  rw [← List.dropLast_concat_getLast hne] at h
  rw [h.lastEnd_eq, stopOf, List.getLast?_eq_some_getLast hne]

/-! What each reader accepts, one call deep. -/

theorem print_eq_ok : print p = .ok s q ↔
    ∃ sign value, p.current = some ⟨.doubleColon, sign⟩ ∧
      expression .lowest p.step = .ok value q ∧ s = .print value ⟨sign.start, value.span.stop⟩ := by
  rw [print_eq, expect, bind_eq_ok]
  constructor
  · rintro ⟨sign, r, hr, h⟩
    obtain ⟨hc, rfl⟩ := expectOr_eq_ok.1 hr
    obtain ⟨value, r, hv, h⟩ := bind_eq_ok.1 h
    cases h
    exact ⟨sign, value, hc, hv, rfl⟩
  · rintro ⟨sign, value, hc, hv, rfl⟩
    exact ⟨sign, p.step, expectOr_eq_ok.2 ⟨hc, rfl⟩, bind_eq_ok.2 ⟨value, q, hv, rfl⟩⟩

theorem assignment_eq_ok : assignment p = .ok s q ↔
    ∃ target sign value, p.current = some ⟨.name (Located.value target), target.span⟩ ∧
      p.step.current = some ⟨.assign, sign⟩ ∧ expression .lowest p.step.step = .ok value q ∧
      s = .assign target value ⟨target.span.start, value.span.stop⟩ := by
  rw [assignment_eq, expect, bind_eq_ok]
  constructor
  · rintro ⟨target, r, hr, h⟩
    obtain ⟨hc, rfl⟩ := identifier_eq_ok.1 hr
    obtain ⟨sign, r, hr, h⟩ := bind_eq_ok.1 h
    obtain ⟨hassign, rfl⟩ := expectOr_eq_ok.1 hr
    obtain ⟨value, r, hv, h⟩ := bind_eq_ok.1 h
    cases h
    exact ⟨target, sign, value, hc, hassign, hv, rfl⟩
  · rintro ⟨target, sign, value, hc, hassign, hv, rfl⟩
    refine ⟨target, p.step, identifier_eq_ok.2 ⟨hc, rfl⟩, bind_eq_ok.2 ?_⟩
    exact ⟨sign, p.step.step, expectOr_eq_ok.2 ⟨hassign, rfl⟩, bind_eq_ok.2 ⟨value, q, hv, rfl⟩⟩

theorem branch_ok (h : branchOf block p = .ok s q) :
    ∃ condition r mark body t, expression .lowest p = .ok condition r ∧
      r.current = some ⟨.question, mark⟩ ∧ block r.step = .ok body t ∧
      ((∃ colon otherwise, t.current = some ⟨.colon, colon⟩ ∧ block t.step = .ok otherwise q ∧
        s = .branch condition body (some otherwise)
          ⟨condition.span.start, otherwise.span.stop⟩) ∨
      (q = t ∧ s = .branch condition body none ⟨condition.span.start, body.span.stop⟩)) := by
  obtain ⟨condition, r, hcond, h⟩ := bind_eq_ok.1 h
  obtain ⟨mark, _, hq, h⟩ := bind_eq_ok.1 h
  obtain ⟨hmark, rfl⟩ := expectOr_eq_ok.1 hq
  obtain ⟨body, t, hbody, h⟩ := bind_eq_ok.1 h
  refine ⟨condition, r, mark, body, t, hcond, hmark, hbody, ?_⟩
  by_cases hc : ∃ colon, t.current = some ⟨.colon, colon⟩
  · obtain ⟨colon, hc⟩ := hc
    rw [elseOf_colon hc] at h
    obtain ⟨otherwise, u, hother, h⟩ := bind_eq_ok.1 h
    cases h
    exact .inl ⟨colon, otherwise, hc, hother, rfl⟩
  · rw [elseOf_stop fun colon h => hc ⟨colon, h⟩] at h
    cases h
    exact .inr ⟨rfl, rfl⟩

theorem loop_ok (h : loopOf block p = .ok s q) :
    ∃ sign count r colon body, p.current = some ⟨.atSign, sign⟩ ∧
      expression .lowest p.step = .ok count r ∧ r.current = some ⟨.colon, colon⟩ ∧
      block r.step = .ok body q ∧ s = .loop count body ⟨sign.start, body.span.stop⟩ := by
  obtain ⟨sign, _, hs, h⟩ := bind_eq_ok.1 h
  obtain ⟨hsign, rfl⟩ := expectOr_eq_ok.1 hs
  obtain ⟨count, r, hcount, h⟩ := bind_eq_ok.1 h
  obtain ⟨colon, _, hc, h⟩ := bind_eq_ok.1 h
  obtain ⟨hcolon, rfl⟩ := expectOr_eq_ok.1 hc
  obtain ⟨body, u, hbody, h⟩ := bind_eq_ok.1 h
  cases h
  exact ⟨sign, count, r, colon, body, hsign, hcount, hcolon, hbody, rfl⟩

theorem block_ok (h : block p = .ok b q) :
    ∃ ss, statements p = .ok ss q ∧ ss ≠ [] ∧ b = ⟨ss, startOf ss, q.lastEnd⟩ := by
  rw [block_eq, blockOf, bind_eq_ok] at h
  obtain ⟨ss, r, hss, h⟩ := h
  cases ss with
  | nil => cases h
  | cons first rest =>
    cases h
    exact ⟨first :: rest, hss, by simp, rfl⟩

theorem closed_ok {rest : Parse (List Statement)} (h : closedOf statement rest p = .ok ss q) :
    ∃ first r mark others, statement p = .ok first r ∧ r.current = some ⟨.semicolon, mark⟩ ∧
      rest r.step = .ok others q ∧ ss = first :: others := by
  obtain ⟨first, r, hfirst, h⟩ := bind_eq_ok.1 h
  obtain ⟨_, _, hm, h⟩ := bind_eq_ok.1 h
  obtain ⟨mark, hmark, -, rfl⟩ := semicolon_eq_ok.1 hm
  obtain ⟨others, u, hothers, h⟩ := bind_eq_ok.1 h
  cases h
  exact ⟨first, r, mark, others, hfirst, hmark, hothers, rfl⟩

/-- Between two windows lie the tokens of a statement that is grouped and has no empty block. -/
structure ReadsStatement (p : Parser) (ts : List (Located Token)) (q : Parser) (s : Statement) :
    Prop where
  passes : Passes p ts q
  readFrom : s.ReadFrom ts
  grouped : s.Grouped
  filled : s.Filled

/-- The same for statements that follow one another. -/
structure ReadsStatements (p : Parser) (ts : List (Located Token)) (q : Parser)
    (ss : List Statement) : Prop where
  passes : Passes p ts q
  readFrom : StatementsFrom ss ts
  grouped : GroupedAll ss
  filled : FilledAll ss

theorem ReadsStatements.nil (p : Parser) : ReadsStatements p [] p [] :=
  ⟨.nil p, .nil, trivial, trivial⟩

theorem ReadsStatements.cons {r : Parser} {ts us : List (Located Token)} {mark : Span}
    (hs : ReadsStatement p ts r s) (hmark : r.current = some ⟨.semicolon, mark⟩)
    (hrest : ReadsStatements r.step us q ss) :
    ReadsStatements p (ts ++ ⟨.semicolon, mark⟩ :: us) q (s :: ss) where
  passes := hs.passes.append (.cons hmark hrest.passes)
  readFrom := .cons hs.readFrom hrest.readFrom
  grouped := ⟨hs.grouped, hrest.grouped⟩
  filled := ⟨hs.filled, hrest.filled⟩

theorem ReadsStatements.ne_nil {ts : List (Located Token)} (h : ReadsStatements p ts q ss)
    (hne : ss ≠ []) : ts ≠ [] := by
  cases h.readFrom with
  | nil => exact absurd rfl hne
  | cons => simp

theorem print_sound (h : print p = .ok s q) : ∃ ts, ReadsStatement p ts q s := by
  obtain ⟨sign, value, hc, hv, rfl⟩ := print_eq_ok.1 h
  obtain ⟨ts, hr, -, -⟩ := expression_sound hv
  exact ⟨_, .cons hc hr.passes, .print hr.readFrom, hr.grouped, trivial⟩

theorem assignment_sound (h : assignment p = .ok s q) : ∃ ts, ReadsStatement p ts q s := by
  obtain ⟨target, sign, value, hc, hassign, hv, rfl⟩ := assignment_eq_ok.1 h
  obtain ⟨ts, hr, -, -⟩ := expression_sound hv
  exact ⟨_, .cons hc (.cons hassign hr.passes), .assign hr.readFrom, hr.grouped, trivial⟩

/-- What the readers accept was spelled by the tokens they took. -/
theorem soundStatements : StatementCases
    (fun p => ∀ s q, statement p = .ok s q → ∃ ts, ReadsStatement p ts q s)
    (fun p => ∀ b q, block p = .ok b q → ∃ ts ss, ReadsStatements p ts q ss ∧
      ss ≠ [] ∧ b = ⟨ss, startOf ss, stopOf ts⟩)
    (fun p => ∀ ss q, statements p = .ok ss q → ∃ ts, ReadsStatements p ts q ss) where
  none hc := by
    intro s q h
    rw [statement_none hc] at h
    cases h
  print hc := by
    intro s q h
    rw [statement_print hc] at h
    exact print_sound h
  assignment hc hassign := by
    intro s q h
    rw [statement_assignment hc hassign] at h
    exact assignment_sound h
  loop hc hblock := by
    intro s q h
    rw [statement_loop hc] at h
    obtain ⟨sign, count, r, colon, _, hsign, hcount, hcolon, hbody, rfl⟩ := loop_ok h
    obtain ⟨ts, hc, -, -⟩ := expression_sound hcount
    obtain ⟨us, body, hb, hne, rfl⟩ := hblock count r colon hcount hcolon _ q hbody
    exact ⟨_, .cons hsign (hc.passes.append (.cons hcolon hb.passes)),
      .loop hc.readFrom hb.readFrom, ⟨hc.grouped, hb.grouped⟩, hne, hb.filled⟩
  branch hc ht hat hblock hother := by
    intro s q h
    rw [statement_branch hc ht hat] at h
    obtain ⟨condition, r, mark, _, t, hcond, hmark, hbody, h⟩ := branch_ok h
    obtain ⟨ts, hc, -, -⟩ := expression_sound hcond
    obtain ⟨us, body, hb, hne, rfl⟩ := hblock condition r mark hcond hmark _ t hbody
    rcases h with ⟨colon, _, hcolon, hotherwise, rfl⟩ | ⟨rfl, rfl⟩
    · obtain ⟨vs, otherwise, ho, hone, rfl⟩ :=
        hother condition r mark _ t colon hcond hmark hbody hcolon _ q hotherwise
      exact ⟨_, hc.passes.append (.cons hmark (hb.passes.append (.cons hcolon ho.passes))),
        .branchElse hc.readFrom hb.readFrom ho.readFrom,
        ⟨hc.grouped, hb.grouped, ho.grouped⟩, ⟨hne, hb.filled⟩, hone, ho.filled⟩
    · exact ⟨_, hc.passes.append (.cons hmark hb.passes), .branch hc.readFrom hb.readFrom,
        ⟨hc.grouped, hb.grouped⟩, hne, hb.filled⟩
  other hc ht := by
    intro s q h
    rw [statement_other hc ht] at h
    cases h
  block hstatements := by
    intro b q h
    obtain ⟨ss, hss, hne, rfl⟩ := block_ok h
    obtain ⟨ts, hr⟩ := hstatements ss q hss
    refine ⟨ts, ss, hr, hne, ?_⟩
    rw [hr.passes.lastEnd_eq_stopOf (hr.ne_nil hne)]
  stop {p} hstop := by
    intro ss q h
    rw [statements_of_stop hstop] at h
    cases h
    exact ⟨[], .nil p⟩
  closed hstart hstatement hrest := by
    intro ss q h
    rw [statements_of_start hstart] at h
    obtain ⟨first, r, mark, rest, hfirst, hmark, hothers, rfl⟩ := closed_ok h
    obtain ⟨ts, hs⟩ := hstatement first r hfirst
    obtain ⟨us, hr⟩ := hrest first r mark hfirst hmark rest q hothers
    exact ⟨_, .cons hs hmark hr⟩

theorem untilEnd_sound (p : Parser) : ∀ ss q, untilEnd p = .ok ss q →
    ∃ ts place, ReadsStatements p ts q ss ∧ q.current = some ⟨.endOfFile, place⟩ := by
  induction p using untilEnd_induction with
  | none p hc =>
    intro ss q h
    rw [untilEnd_none hc] at h
    cases h
  | finish p place hc =>
    intro ss q h
    rw [untilEnd_end hc] at h
    cases h
    exact ⟨[], place, .nil p, hc⟩
  | closed p t hc ht ih =>
    intro ss q h
    rw [untilEnd_cons hc ht] at h
    obtain ⟨first, r, mark, rest, hfirst, hmark, hothers, rfl⟩ := closed_ok h
    obtain ⟨ts, hs⟩ := (soundStatements.all p).1 first r hfirst
    obtain ⟨us, place, hr, hend⟩ := ih first r mark hfirst hmark rest q hothers
    exact ⟨_, place, .cons hs hmark hr, hend⟩

/-- What is accepted as a program was spelled by the tokens before an end of file. -/
theorem program_sound {a : Program} (h : program p = .ok a q) (hp : p.lastEnd = 0) :
    ∃ ts place, Passes p ts q ∧ q.current = some ⟨.endOfFile, place⟩ ∧ a.ReadFrom ts ∧
      a.Grouped ∧ a.Filled := by
  rw [program_eq, bind_eq_ok] at h
  obtain ⟨ss, r, hss, h⟩ := h
  cases h
  obtain ⟨ts, place, hr, hend⟩ := untilEnd_sound p ss _ hss
  refine ⟨ts, place, hr.passes, hend, ⟨hr.readFrom, ?_⟩, hr.grouped, hr.filled⟩
  cases ss with
  | nil =>
    cases hr.readFrom
    cases hr.passes
    exact congrArg (Span.mk 0) hp
  | cons s ss => exact congrArg (Span.mk _) (hr.passes.lastEnd_eq_stopOf (hr.ne_nil (by simp)))

/-! The other direction: tokens of a statement are read as that statement. -/

theorem startsStatement_of_current {t : Located Token} (h : p.current = some t) :
    p.startsStatement = t.value.startsStatement := by
  rw [Window.startsStatement, h]
  rfl

theorem currentLevel_le_lowest {t : Located Token} (h : p.current = some t)
    (ht : t.value.level = .lowest) : p.currentLevel ≤ Level.lowest := by
  rw [currentLevel_of_current h, ht]
  exact Nat.le_refl _

/-- The result is `a` with the window at `q`. If `filled` fails it may be an error instead. -/
def Gives {α : Type} (result : EStateM.Result ParseError Parser α) (a : α) (q : Parser)
    (filled : Prop) : Prop :=
  result = .ok a q ∨ ¬ filled ∧ ∃ e r, result = .error e r

section Gives
variable {α β : Type} {x : Parse α} {f : α → Parse β} {a : α} {c : β} {r : Parser}
  {F G H : Prop}

theorem Gives.bind (hx : Gives (x p) a q F) (hf : Gives (f a q) c r G) (hF : H → F) (hG : H → G) :
    Gives ((x >>= f) p) c r H := by
  rcases hx with hx | ⟨hnot, e, t, hx⟩
  · rw [bind_of_ok hx]
    exact hf.imp_right fun ⟨hnot, h⟩ => ⟨fun h => hnot (hG h), h⟩
  · exact .inr ⟨fun h => hnot (hF h), e, t, bind_of_error hx f⟩

theorem Gives.bind_ok (hx : x p = .ok a q) (hf : Gives (f a q) c r G) :
    Gives ((x >>= f) p) c r G := by
  rwa [bind_of_ok hx]

end Gives

theorem block_gives {ts : List (Located Token)}
    (h : Gives (statements p) ss q (FilledAll ss)) (hr : StatementsFrom ss ts)
    (hp : Passes p ts q) :
    Gives (block p) ⟨ss, startOf ss, stopOf ts⟩ q (ss ≠ [] ∧ FilledAll ss) := by
  rw [block_eq, blockOf]
  cases ss with
  | nil =>
    rcases h with h | ⟨hnot, -⟩
    · exact .inr ⟨fun hne => hne.1 rfl, _, _, bind_of_ok h _⟩
    · exact absurd trivial hnot
  | cons s rest =>
    have hne : ts ≠ [] := by
      cases hr
      simp
    refine h.bind (.inl ?_) And.right id
    rw [window_bind, ← hp.lastEnd_eq_stopOf hne]
    rfl

theorem branch_gives {condition : Expr} {body : List Statement} {mark close : Span}
    {ts us : List (Located Token)} (hc : condition.ReadFrom ts) (hg : condition.Grouped)
    (hp : Passes p (ts ++ ⟨.question, mark⟩ :: us) q) (hq : q.current = some ⟨.semicolon, close⟩)
    (hb : ∀ {r}, Passes r us q → Gives (block r) ⟨body, startOf body, stopOf us⟩ q
      (body ≠ [] ∧ FilledAll body)) :
    Gives (branchOf block p)
      (.branch condition ⟨body, startOf body, stopOf us⟩ none ⟨condition.span.start, stopOf us⟩) q
      (body ≠ [] ∧ FilledAll body) := by
  obtain ⟨r, hpc, hpb⟩ := Passes.append_iff.1 hp
  obtain ⟨hmark, hpb⟩ := Passes.cons_iff.1 hpb
  refine .bind_ok (expression_complete hc hg hpc (currentLevel_le_lowest hmark rfl)) ?_
  refine .bind_ok (expectOr_eq_ok.2 ⟨hmark, rfl⟩) ?_
  refine (hb hpb).bind (.inl (elseOf_stop fun place h => ?_)) id id
  rw [hq] at h
  cases h

theorem branch_else_gives {condition : Expr} {body otherwise : List Statement}
    {mark colon : Span} {ts us vs : List (Located Token)} (hc : condition.ReadFrom ts)
    (hg : condition.Grouped)
    (hp : Passes p (ts ++ ⟨.question, mark⟩ :: (us ++ ⟨.colon, colon⟩ :: vs)) q)
    (hb : ∀ {r t}, Passes r us t → t.current = some ⟨.colon, colon⟩ →
      Gives (block r) ⟨body, startOf body, stopOf us⟩ t (body ≠ [] ∧ FilledAll body))
    (ho : ∀ {r}, Passes r vs q → Gives (block r)
      ⟨otherwise, startOf otherwise, stopOf vs⟩ q (otherwise ≠ [] ∧ FilledAll otherwise)) :
    Gives (branchOf block p)
      (.branch condition ⟨body, startOf body, stopOf us⟩
        (some ⟨otherwise, startOf otherwise, stopOf vs⟩) ⟨condition.span.start, stopOf vs⟩) q
      ((body ≠ [] ∧ FilledAll body) ∧ otherwise ≠ [] ∧ FilledAll otherwise) := by
  obtain ⟨r, hpc, hpb⟩ := Passes.append_iff.1 hp
  obtain ⟨hmark, hpb⟩ := Passes.cons_iff.1 hpb
  obtain ⟨t, hpb, hpo⟩ := Passes.append_iff.1 hpb
  obtain ⟨hcolon, hpo⟩ := Passes.cons_iff.1 hpo
  refine .bind_ok (expression_complete hc hg hpc (currentLevel_le_lowest hmark rfl)) ?_
  refine .bind_ok (expectOr_eq_ok.2 ⟨hmark, rfl⟩) ?_
  refine (hb hpb hcolon).bind ?_ And.left And.right
  rw [elseOf_colon hcolon]
  exact (ho hpo).bind (.inl rfl) id id

theorem loop_gives {count : Expr} {body : List Statement} {sign colon : Span}
    {ts us : List (Located Token)} (hc : count.ReadFrom ts) (hg : count.Grouped)
    (hp : Passes p (⟨.atSign, sign⟩ :: (ts ++ ⟨.colon, colon⟩ :: us)) q)
    (hb : ∀ {r}, Passes r us q → Gives (block r) ⟨body, startOf body, stopOf us⟩ q
      (body ≠ [] ∧ FilledAll body)) :
    Gives (loopOf block p)
      (.loop count ⟨body, startOf body, stopOf us⟩ ⟨sign.start, stopOf us⟩) q
      (body ≠ [] ∧ FilledAll body) := by
  obtain ⟨hsign, hp⟩ := Passes.cons_iff.1 hp
  obtain ⟨r, hpc, hpb⟩ := Passes.append_iff.1 hp
  obtain ⟨hcolon, hpb⟩ := Passes.cons_iff.1 hpb
  refine .bind_ok (expectOr_eq_ok.2 ⟨hsign, rfl⟩) ?_
  refine .bind_ok (expression_complete hc hg hpc (currentLevel_le_lowest hcolon rfl)) ?_
  refine .bind_ok (expectOr_eq_ok.2 ⟨hcolon, rfl⟩) ?_
  exact (hb hpb).bind (.inl rfl) id id

/-- A statement that starts with an expression and goes on with no `=` is a condition. -/
theorem statement_eq_branch {condition : Expr} {mark : Span} {ts us : List (Located Token)}
    (hc : condition.ReadFrom ts) (hp : Passes p (ts ++ ⟨.question, mark⟩ :: us) q) :
    statement p = branchOf block p := by
  obtain ⟨t, rest, rfl, ht⟩ := hc.head
  obtain ⟨hcur, hp⟩ := Passes.cons_iff.1 hp
  -- The token after a lone name is `?`, and inside an expression there is no `=`.
  have hnext : ∃ t', p.step.current = some t' ∧ t'.value ≠ .assign := by
    cases rest with
    | nil => exact ⟨_, (Passes.cons_iff.1 hp).1, by simp⟩
    | cons t' rest => exact ⟨t', (Passes.cons_iff.1 hp).1, hc.not_assign t' (by simp)⟩
  obtain ⟨t', hnext, hne⟩ := hnext
  refine statement_branch hcur ht (Bool.eq_false_iff.2 fun hat => ?_)
  obtain ⟨text, place, sign, -, hassign⟩ := atAssignment_eq_true hat
  rw [hnext] at hassign
  cases hassign
  exact hne rfl

theorem closed_gives {r : Parser} {mark : Span} {rest : Parse (List Statement)} {F G : Prop}
    (hs : Gives (statement p) s r F) (hmark : r.current = some ⟨.semicolon, mark⟩)
    (hrest : Gives (rest r.step) ss q G) : Gives (closedOf statement rest p) (s :: ss) q (F ∧ G) := by
  refine hs.bind ?_ And.left And.right
  refine .bind_ok (semicolon_eq_ok.2 ⟨_, hmark, rfl, rfl⟩) ?_
  exact hrest.bind (.inl rfl) id id

mutual
theorem statement_gives {s : Statement} {ts : List (Located Token)} :
    s.ReadFrom ts → ∀ {p q close}, Passes p ts q → s.Grouped →
      q.current = some ⟨.semicolon, close⟩ → Gives (statement p) s q s.Filled
  | .assign hv, p, q, close, hp, hg, hq => by
    obtain ⟨hc, hp⟩ := Passes.cons_iff.1 hp
    obtain ⟨hassign, hp⟩ := Passes.cons_iff.1 hp
    have hvalue := expression_complete hv hg hp (currentLevel_le_lowest hq rfl)
    rw [statement_assignment hc hassign]
    exact .inl (assignment_eq_ok.2 ⟨_, _, _, hc, hassign, hvalue, rfl⟩)
  | .print hv, p, q, close, hp, hg, hq => by
    obtain ⟨hc, hp⟩ := Passes.cons_iff.1 hp
    have hvalue := expression_complete hv hg hp (currentLevel_le_lowest hq rfl)
    rw [statement_print hc]
    exact .inl (print_eq_ok.2 ⟨_, _, hc, hvalue, rfl⟩)
  | .branch hc hb, p, q, close, hp, hg, hq => by
    have hstop := startsStatement_of_current hq
    rw [statement_eq_branch hc hp]
    refine branch_gives hc hg.1 hp hq fun hr => ?_
    exact block_gives (statements_gives hb hr hg.2 hstop) hb hr
  | .branchElse hc hb ho, p, q, close, hp, hg, hq => by
    have hstop := startsStatement_of_current hq
    rw [statement_eq_branch hc hp]
    refine branch_else_gives hc hg.1 hp (fun hr hcolon => ?_) fun hr => ?_
    · have hcolon := startsStatement_of_current hcolon
      exact block_gives (statements_gives hb hr hg.2.1 hcolon) hb hr
    · exact block_gives (statements_gives ho hr hg.2.2 hstop) ho hr
  | .loop hc hb, p, q, close, hp, hg, hq => by
    have hstop := startsStatement_of_current hq
    rw [statement_loop (Passes.cons_iff.1 hp).1]
    refine loop_gives hc hg.1 hp fun hr => ?_
    exact block_gives (statements_gives hb hr hg.2 hstop) hb hr

theorem statements_gives {ss : List Statement} {ts : List (Located Token)} :
    StatementsFrom ss ts → ∀ {p q}, Passes p ts q → GroupedAll ss →
      q.startsStatement = false → Gives (statements p) ss q (FilledAll ss)
  | .nil, p, q, hp, _, hq => by
    cases hp
    exact .inl (statements_of_stop hq)
  | .cons hs hrest, p, q, hp, hg, hq => by
    obtain ⟨t, rest, rfl, ht⟩ := hs.head
    obtain ⟨r, hps, hpr⟩ := Passes.append_iff.1 hp
    obtain ⟨hmark, hpr⟩ := Passes.cons_iff.1 hpr
    have hstart : p.startsStatement = true :=
      (startsStatement_of_current (Passes.cons_iff.1 hps).1).trans ht
    rw [statements_of_start hstart]
    exact closed_gives (statement_gives hs hps hg.1 hmark) hmark
      (statements_gives hrest hpr hg.2 hq)
end

theorem untilEnd_gives {place : Span} (hq : q.current = some ⟨.endOfFile, place⟩) :
    ∀ {ss p ts}, StatementsFrom ss ts → Passes p ts q → GroupedAll ss →
      Gives (untilEnd p) ss q (FilledAll ss) := by
  intro ss
  induction ss with
  | nil =>
    intro p ts hs hp _
    cases hs
    cases hp
    exact .inl (untilEnd_end hq)
  | cons s ss ih =>
    intro p ts hs hp hg
    cases hs with
    | cons hs hrest =>
      obtain ⟨t, rest, rfl, ht⟩ := hs.head
      obtain ⟨r, hps, hpr⟩ := Passes.append_iff.1 hp
      obtain ⟨hmark, hpr⟩ := Passes.cons_iff.1 hpr
      have hne : t.value ≠ .endOfFile := by
        intro h
        rw [h] at ht
        cases ht
      rw [untilEnd_cons (Passes.cons_iff.1 hps).1 hne]
      exact closed_gives (statement_gives hs hps hg.1 hmark) hmark (ih hrest hpr hg.2)

/-- The tokens of a grouped program up to the end of file are read as that program, unless it has
an empty block. -/
theorem program_complete {a : Program} {ts : List (Located Token)} {place : Span}
    (ha : a.ReadFrom ts) (hg : a.Grouped) (hp : Passes p ts q)
    (hq : q.current = some ⟨.endOfFile, place⟩) (hend : p.lastEnd = 0) :
    Gives (program p) a q a.Filled := by
  obtain ⟨statements, span⟩ := a
  have hs : StatementsFrom statements ts := ha.1
  obtain rfl : span = ⟨startOf statements, stopOf ts⟩ := ha.2
  rw [program_eq]
  refine (untilEnd_gives hq hs hp hg).bind (.inl ?_) id id
  cases hs with
  | nil =>
    cases hp
    rw [window_bind, hend]
    rfl
  | cons =>
    rw [window_bind, hp.lastEnd_eq_stopOf (by simp)]
    rfl

end Parser

end CatLang
