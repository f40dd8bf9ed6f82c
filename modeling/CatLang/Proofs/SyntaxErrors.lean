import CatLang.Proofs.Grammar
import CatLang.Proofs.Locality
import CatLang.Proofs.Tiling

/-! Where the parser gives up. A reader that fails has taken tokens that some phrase starts with, and
the error points at the token it stopped before (`Fails`). No program goes on with that token: the
parser would have read it, and up to there it cannot tell the two apart (`local_program`). -/
namespace CatLang

abbrev valuesOf (ts : List (Located Token)) : List Token := ts.map (·.value)

/-! Where an error stands. -/

/-- The stretch together with the tokens before it. -/
def Span.withSigns (span : Span) : List (Located Token) → Span
  | [] => span
  | sign :: signs => sign.span.merge (span.withSigns signs)

/-- The place of an error, told from the tokens `ts` that were taken and the token `t` ahead. An
operator before a missing operand is part of the place, and so are the operators around it. -/
inductive ParseError.Blames : ParseError → List (Located Token) → Located Token → Prop
  | semicolon {ts : List (Located Token)} {last t : Located Token} : ts.getLast? = some last →
      Blames ⟨.missingSemicolon, .point last.span.stop⟩ ts t
  | expression {ts signs : List (Located Token)} {t : Located Token} : signs.Sublist ts →
      (∀ sign ∈ signs, sign.value.isUnaryOperator = true) →
      Blames ⟨.expectedExpression, t.span.withSigns signs⟩ ts t
  | token {ts : List (Located Token)} {t : Located Token} {cause : ParseCause} :
      cause ≠ .missingSemicolon → cause ≠ .expectedExpression → Blames ⟨cause, t.span⟩ ts t

namespace ParseError.Blames
variable {e : ParseError} {ts us : List (Located Token)} {t : Located Token}

theorem append (h : e.Blames ts t) (us : List (Located Token)) : e.Blames (us ++ ts) t := by
  cases h with
  | semicolon hlast => exact .semicolon (by rw [List.getLast?_append, hlast]; rfl)
  | expression hsub hsigns => exact .expression (hsub.trans (List.sublist_append_right us ts)) hsigns
  | token hs he => exact .token hs he

theorem includeOperator {op : UnaryOp} {sign : Span} (h : e.Blames ts t) :
    (Parser.includeOperator sign e).Blames (⟨op.token, sign⟩ :: ts) t := by
  cases h with
  | semicolon hlast => exact (semicolon hlast).append [_]
  | @expression _ signs _ hsub hsigns =>
    refine expression (hsub.cons_cons ⟨op.token, sign⟩) fun s hs => ?_
    rcases List.mem_cons.1 hs with rfl | hs
    · cases op <;> rfl
    · exact hsigns s hs
  | @token _ _ cause hs he =>
    rw [Parser.includeOperator, if_neg he]
    exact token hs he

end ParseError.Blames

/-! What a failed reader leaves behind. -/

namespace Parser
variable {α β : Type} {p q r o : Parser} {e : ParseError} {ts us : List (Located Token)}
  {D D' : List Token → Prop} {level : Level}

theorem bind_eq_error {x : Parse α} {f : α → Parse β} (h : (x >>= f) p = .error e q) :
    x p = .error e q ∨ ∃ a r, x p = .ok a r ∧ f a r = .error e q := by
  cases hx : x p with
  | ok a r =>
    rw [bind_of_ok hx] at h
    exact .inr ⟨a, r, rfl, h⟩
  | error e' r =>
    rw [bind_of_error hx] at h
    cases h
    exact .inl rfl

/-- From `p` these tokens were taken, which some phrase starts with and does not end with. At the
window `q` behind them the reader failed with `e`. -/
structure Fails (D : List Token → Prop) (p : Parser) (ts : List (Located Token)) (e : ParseError)
    (q : Parser) : Prop where
  passes : Passes p ts q
  opens : ∃ us, us ≠ [] ∧ D (valuesOf ts ++ us)
  blames : ∀ t, q.current = some t → e.Blames ts t

namespace Fails

theorem here {us : List Token} (hne : us ≠ []) (hD : D us)
    (hb : ∀ t, p.current = some t → e.Blames [] t) : Fails D p [] e p :=
  ⟨.nil p, ⟨us, hne, hD⟩, hb⟩

/-- The same, seen from the start of a longer phrase. -/
theorem after (h : Fails D p ts e q) (hp : Passes o us p)
    (hD : ∀ vs, D vs → ∃ ws, D' (valuesOf us ++ (vs ++ ws))) : Fails D' o (us ++ ts) e q where
  passes := hp.append h.passes
  opens := by
    obtain ⟨vs, hne, hvs⟩ := h.opens
    obtain ⟨ws, hws⟩ := hD _ hvs
    refine ⟨vs ++ ws, by simp [hne], ?_⟩
    rw [valuesOf, List.map_append, List.append_assoc]
    rwa [List.append_assoc] at hws
  blames t ht := (h.blames t ht).append us

/-- The phrase was complete up to a token that did not come. -/
theorem at_end {ws : List Token} (hp : Passes o us p) (hne : ws ≠ []) (hD : D (valuesOf us ++ ws))
    (hb : ∀ t, p.current = some t → e.Blames us t) : Fails D o us e p :=
  ⟨hp, ⟨ws, hne, hD⟩, hb⟩

end Fails

theorem accept_eq_error {make : Located Token → Except ParseError α}
    (h : accept make p = .error e q) :
    q = p ∧ ∀ t, p.current = some t → make t = .error e := by
  cases hc : p.current with
  | none =>
    rw [accept_none hc] at h
    cases h
    exact ⟨rfl, by simp⟩
  | some t =>
    cases hm : make t with
    | ok a =>
      rw [accept_ok hc hm] at h
      cases h
    | error e' =>
      rw [accept_error hc hm] at h
      cases h
      refine ⟨rfl, ?_⟩
      rintro _ ⟨⟩
      exact hm

theorem expectOr_eq_error {token : Token} {cause : Token → ParseCause}
    (h : expectOr token cause p = .error e q) :
    q = p ∧ ∀ t, p.current = some t → e = ⟨cause t.value, t.span⟩ := by
  obtain ⟨rfl, hmake⟩ := accept_eq_error h
  refine ⟨rfl, fun t ht => ?_⟩
  have hfound := hmake t ht
  split at hfound
  · cases hfound
  · exact (Except.error.inj hfound).symm

theorem semicolon_eq_error {after : Nat} (h : semicolon after p = .error e q) :
    q = p ∧ ∀ t, p.current = some t → e = ⟨.missingSemicolon, .point after⟩ := by
  obtain ⟨rfl, hmake⟩ := accept_eq_error h
  refine ⟨rfl, fun t ht => ?_⟩
  have hfound := hmake t ht
  split at hfound
  · cases hfound
  · exact (Except.error.inj hfound).symm

theorem mapError_eq_error {change : ParseError → ParseError} {x : Parse α}
    (h : mapError change x p = .error e q) : ∃ e', x p = .error e' q ∧ e = change e' := by
  unfold mapError at h
  cases hx : x p with
  | ok a r =>
    rw [hx] at h
    cases h
  | error e' r =>
    rw [hx] at h
    cases h
    exact ⟨e', rfl, rfl⟩

/-! Expressions. -/

theorem Reads.derives {x : Expr} (h : Reads p ts q x) : DerivesExpr (valuesOf ts) := by
  rw [valuesOf, h.readFrom.tokens_eq]
  exact x.derives

/-- What makes an expression longer. -/
def Continues (vs : List Token) : Prop := ∀ us, DerivesExpr us → DerivesExpr (us ++ vs)

theorem expressions_fail : ExpressionCases
    (fun level p => ∀ e q, expression level p = .error e q → ∃ ts, Fails DerivesExpr p ts e q)
    (fun p => ∀ e q, operand p = .error e q → ∃ ts, Fails DerivesExpr p ts e q)
    (fun level left p => ∀ e q, binaries level left p = .error e q →
      ∃ ts, Fails Continues p ts e q) where
  expression {level p} hoperand hbinaries := by
    intro e q h
    rw [expression_eq] at h
    rcases bind_eq_error h with h | ⟨first, r, hfirst, h⟩
    · exact hoperand e q h
    · obtain ⟨rs, hr, -⟩ := (sound.all p).2.1 first r hfirst
      obtain ⟨ts, hts⟩ := hbinaries first r hfirst e q h
      exact ⟨_, hts.after hr.passes fun vs hvs => ⟨[], by simpa using hvs _ hr.derives⟩⟩
  none hc := by
    intro e q h
    rw [operand_none hc] at h
    cases h
    exact ⟨[], .here (by simp) (.name "") (by simp [hc])⟩
  name hc := by
    intro e q h
    rw [operand_name hc] at h
    cases h
  number hc := by
    intro e q h
    rw [operand_number hc] at h
    cases h
  group hc hinner := by
    intro e q h
    rw [operand_group hc] at h
    rcases bind_eq_error h with h | ⟨inner, r, hr, h⟩
    · obtain ⟨ts, hts⟩ := hinner e q h
      exact ⟨_, hts.after (.single hc) fun vs hvs => ⟨[.rightParen], .group hvs⟩⟩
    · obtain ⟨ts, hr, -, -⟩ := expression_sound hr
      rcases bind_eq_error h with h | ⟨_, _, _, h⟩
      · obtain ⟨rfl, he⟩ := expectOr_eq_error h
        have hgroup : DerivesExpr (.leftParen :: valuesOf ts ++ [.rightParen]) := .group hr.derives
        refine ⟨_, .at_end (.cons hc hr.passes) (by simp) hgroup fun t ht => ?_⟩
        rw [he t ht]
        exact .token (by simp) (by simp)
      · cases h
  unary {p op sign} hc hoperand := by
    intro e q h
    rw [operand_unary hc] at h
    rcases bind_eq_error h with h | ⟨_, _, _, h⟩
    · obtain ⟨e', he, rfl⟩ := mapError_eq_error h
      obtain ⟨ts, hts⟩ := hoperand e' q he
      have hwhole : Fails DerivesExpr p (⟨op.token, sign⟩ :: ts) e' q :=
        hts.after (.single hc) fun vs hvs => ⟨[], by simpa using DerivesExpr.unary op hvs⟩
      exact ⟨_, hwhole.passes, hwhole.opens, fun t ht => (hts.blames t ht).includeOperator⟩
    · cases h
  other hc ht := by
    intro e q h
    rw [operand_fail hc ht] at h
    cases h
    refine ⟨[], .here (by simp) (.name "") fun t ht => ?_⟩
    rw [hc] at ht
    cases ht
    exact .expression (List.nil_sublist []) (by simp)
  stop hstop := by
    intro e q h
    rw [binaries_of_stop hstop] at h
    cases h
  operator {level left p op sign} hc hlevel hright hrest := by
    intro e q h
    rw [binaries_of_operator hc hlevel] at h
    rcases bind_eq_error h with h | ⟨right, r, hr, h⟩
    · obtain ⟨ts, hts⟩ := hright e q h
      exact ⟨_, hts.after (.single hc) fun vs hvs =>
        ⟨[], fun us hus => by simpa using DerivesExpr.binary op hus hvs⟩⟩
    · obtain ⟨rs, hrs, -, -⟩ := expression_sound hr
      obtain ⟨ts, hts⟩ := hrest right r hr e q h
      refine ⟨_, hts.after (.cons hc hrs.passes) fun vs hvs => ⟨[], fun us hus => ?_⟩⟩
      simpa using hvs _ (.binary op hus hrs.derives)

theorem expression_fails (h : expression level p = .error e q) :
    ∃ ts, Fails DerivesExpr p ts e q :=
  (expressions_fail.all p).1 level e q h

end Parser

/-! A tree ends where its last token ends. -/

theorem Expr.ReadFrom.exists_last {x : Expr} {ts : List (Located Token)} (h : x.ReadFrom ts) :
    ∃ last, ts.getLast? = some last ∧ x.span.stop = last.span.stop := by
  induction h with
  | name => exact ⟨_, rfl, rfl⟩
  | number => exact ⟨_, rfl, rfl⟩
  | unary _ ih =>
    obtain ⟨last, hlast, hstop⟩ := ih
    exact ⟨last, by rw [List.getLast?_cons, hlast]; rfl, hstop⟩
  | binary _ _ _ ihr =>
    obtain ⟨last, hlast, hstop⟩ := ihr
    exact ⟨last, by rw [List.getLast?_append, List.getLast?_cons, hlast]; rfl, hstop⟩
  | group => exact ⟨_, by rw [← List.cons_append, List.getLast?_concat], rfl⟩

theorem StatementsFrom.exists_last {ss : List Statement} {ts : List (Located Token)}
    (h : StatementsFrom ss ts) (hne : ss ≠ []) :
    ∃ last, ts.getLast? = some last ∧ stopOf ts = last.span.stop := by
  cases h with
  | nil => exact absurd rfl hne
  | @cons s rest mark ts us _ _ =>
    have hsome : (ts ++ ⟨.semicolon, mark⟩ :: us).getLast? ≠ none := by simp
    obtain ⟨last, hlast⟩ := Option.ne_none_iff_exists'.1 hsome
    exact ⟨last, hlast, by rw [stopOf, hlast]⟩

theorem Statement.ReadFrom.exists_last {s : Statement} {ts : List (Located Token)}
    (h : s.ReadFrom ts) (hf : s.Filled) :
    ∃ last, ts.getLast? = some last ∧ s.span.stop = last.span.stop := by
  cases h with
  | assign hv =>
    obtain ⟨last, hlast, hstop⟩ := hv.exists_last
    exact ⟨last, by rw [List.getLast?_cons, List.getLast?_cons, hlast]; rfl, hstop⟩
  | print hv =>
    obtain ⟨last, hlast, hstop⟩ := hv.exists_last
    exact ⟨last, by rw [List.getLast?_cons, hlast]; rfl, hstop⟩
  | branch _ hb =>
    obtain ⟨last, hlast, hstop⟩ := hb.exists_last hf.1
    exact ⟨last, by rw [List.getLast?_append, List.getLast?_cons, hlast]; rfl, hstop⟩
  | branchElse _ _ ho =>
    obtain ⟨last, hlast, hstop⟩ := ho.exists_last hf.2.1
    refine ⟨last, ?_, hstop⟩
    rw [List.getLast?_append, List.getLast?_cons, List.getLast?_append, List.getLast?_cons, hlast]
    rfl
  | loop _ hb =>
    obtain ⟨last, hlast, hstop⟩ := hb.exists_last hf.1
    refine ⟨last, ?_, hstop⟩
    rw [List.getLast?_cons, List.getLast?_append, List.getLast?_cons, hlast]
    rfl

namespace Parser
variable {p q r o : Parser} {e : ParseError} {ts us : List (Located Token)} {D : List Token → Prop}

/-! Statements. -/

theorem ReadsStatement.derives {s : Statement} (h : ReadsStatement p ts q s) :
    DerivesStatement (valuesOf ts) := by
  rw [valuesOf, h.readFrom.tokens_eq]
  exact s.derives h.filled

theorem block_derives {b : Block} (h : block p = .ok b q) :
    ∃ ts, Passes p ts q ∧ DerivesBlock (valuesOf ts) := by
  obtain ⟨ts, ss, hr, hne, -⟩ := (soundStatements.all p).2.1 b q h
  refine ⟨ts, hr.passes, ?_⟩
  rw [valuesOf, hr.readFrom.tokens_eq]
  exact derives_block ss hne hr.filled

theorem derivesBlock_example : DerivesBlock [.doubleColon, .name "", .semicolon] :=
  .single (.print (.name ""))

/-- An expression and then a token that was not there. -/
theorem expectOr_fails {x : Expr} {token : Token} {cause : ParseCause} {ws : List Token}
    (hr : Reads p ts r x) (hD : D (valuesOf ts ++ token :: ws)) (hs : cause ≠ .missingSemicolon)
    (hx : cause ≠ .expectedExpression) (h : expectOr token (fun _ => cause) r = .error e q) :
    Fails D p ts e q := by
  obtain ⟨rfl, he⟩ := expectOr_eq_error h
  refine .at_end hr.passes (List.cons_ne_nil token ws) hD fun t ht => ?_
  rw [he t ht]
  exact .token hs hx

theorem print_fails {sign : Span} (hc : p.current = some ⟨.doubleColon, sign⟩)
    (h : print p = .error e q) : ∃ ts, Fails DerivesStatement p ts e q := by
  rw [print_eq, expect, bind_of_ok (expectOr_eq_ok.2 ⟨hc, rfl⟩)] at h
  rcases bind_eq_error h with h | ⟨_, _, _, h⟩
  · obtain ⟨ts, hts⟩ := expression_fails h
    exact ⟨_, hts.after (.single hc) fun vs hvs => ⟨[], by simpa using DerivesStatement.print hvs⟩⟩
  · cases h

theorem assignment_fails {text : String} {place sign : Span}
    (hc : p.current = some ⟨.name text, place⟩) (hassign : p.step.current = some ⟨.assign, sign⟩)
    (h : assignment p = .error e q) : ∃ ts, Fails DerivesStatement p ts e q := by
  have hname : identifier p = .ok ⟨text, place⟩ p.step := identifier_eq_ok.2 ⟨hc, rfl⟩
  rw [assignment_eq, bind_of_ok hname, expect,
    bind_of_ok (expectOr_eq_ok.2 ⟨hassign, rfl⟩)] at h
  rcases bind_eq_error h with h | ⟨_, _, _, h⟩
  · obtain ⟨ts, hts⟩ := expression_fails h
    exact ⟨_, hts.after (.cons hc (.single hassign)) fun vs hvs =>
      ⟨[], by simpa using DerivesStatement.assign text hvs⟩⟩
  · cases h

/-- What starts with a closed statement. -/
structure Opened (D : List Token → Prop) : Prop where
  first {us : List Token} : DerivesStatement us → ∃ ws, D (us ++ .semicolon :: ws)
  cons {us vs : List Token} : DerivesStatement us → D vs → D (us ++ .semicolon :: vs)

theorem opened_block : Opened DerivesBlock where
  first h := ⟨[], .single h⟩
  cons h h' := .cons h h'

theorem opened_program : Opened DerivesProgram where
  first h := ⟨[.endOfFile], .cons h .nil⟩
  cons h h' := .cons h h'

theorem closed_fails {rest : Parse (List Statement)} (hD : Opened D)
    (hs : ∀ e q, statement p = .error e q → ∃ ts, Fails DerivesStatement p ts e q)
    (hrest : ∀ first r mark, statement p = .ok first r → r.current = some ⟨.semicolon, mark⟩ →
      ∀ e q, rest r.step = .error e q → ∃ ts, Fails D r.step ts e q)
    (h : closedOf statement rest p = .error e q) : ∃ ts, Fails D p ts e q := by
  rcases bind_eq_error h with h | ⟨first, r, hfirst, h⟩
  · obtain ⟨ts, hts⟩ := hs e q h
    refine ⟨_, hts.after (.nil p) fun vs hvs => ?_⟩
    obtain ⟨ws, hws⟩ := hD.first hvs
    exact ⟨_, hws⟩
  obtain ⟨ts, hr⟩ := (soundStatements.all p).1 first r hfirst
  rcases bind_eq_error h with h | ⟨stop, r', hstop, h⟩
  · obtain ⟨rfl, he⟩ := semicolon_eq_error h
    obtain ⟨ws, hws⟩ := hD.first hr.derives
    refine ⟨ts, .at_end hr.passes (by simp) hws fun t ht => ?_⟩
    obtain ⟨last, hlast, hlastEnd⟩ := hr.readFrom.exists_last hr.filled
    rw [he t ht, hlastEnd]
    exact .semicolon hlast
  obtain ⟨mark, hmark, -, rfl⟩ := semicolon_eq_ok.1 hstop
  rcases bind_eq_error h with h | ⟨_, _, _, h⟩
  · obtain ⟨us, hus⟩ := hrest first r mark hfirst hmark e q h
    exact ⟨_, hus.after (hr.passes.append (.single hmark)) fun vs hvs =>
      ⟨[], by simpa using hD.cons hr.derives hvs⟩⟩
  · cases h

theorem statements_fail : StatementCases
    (fun p => ∀ e q, statement p = .error e q → ∃ ts, Fails DerivesStatement p ts e q)
    (fun p => ∀ e q, block p = .error e q → ∃ ts, Fails DerivesBlock p ts e q)
    (fun p => ∀ e q, statements p = .error e q → ∃ ts, Fails DerivesBlock p ts e q) where
  none hc := by
    intro e q h
    rw [statement_none hc] at h
    cases h
    exact ⟨[], .here (by simp) (.print (.name "")) (by simp [hc])⟩
  print hc := by
    intro e q h
    rw [statement_print hc] at h
    exact print_fails hc h
  assignment hc hassign := by
    intro e q h
    rw [statement_assignment hc hassign] at h
    exact assignment_fails hc hassign h
  loop {p sign} hc hblock := by
    intro e q h
    rw [statement_loop hc, loopOf, expect, bind_of_ok (expectOr_eq_ok.2 ⟨hc, rfl⟩)] at h
    rcases bind_eq_error h with h | ⟨count, r, hcount, h⟩
    · obtain ⟨ts, hts⟩ := expression_fails h
      exact ⟨_, hts.after (.single hc) fun vs hvs => ⟨_, .loop hvs derivesBlock_example⟩⟩
    obtain ⟨cs, hr, -, -⟩ := expression_sound hcount
    rcases bind_eq_error h with h | ⟨colon, r', hread, h⟩
    · have hopens : Fails (fun vs => DerivesStatement (.atSign :: vs)) p.step cs e q :=
        expectOr_fails hr (.loop hr.derives derivesBlock_example) (by simp) (by simp) h
      exact ⟨_, hopens.after (.single hc) fun vs hvs => ⟨[], by simpa using hvs⟩⟩
    obtain ⟨hcolon, rfl⟩ := expectOr_eq_ok.1 hread
    rcases bind_eq_error h with h | ⟨_, _, _, h⟩
    · obtain ⟨ts, hts⟩ := hblock count r colon hcount hcolon e q h
      exact ⟨_, hts.after (.cons hc (hr.passes.append (.single hcolon))) fun vs hvs =>
        ⟨[], by simpa using DerivesStatement.loop hr.derives hvs⟩⟩
    · cases h
  branch {p t} hc ht hat hblock hother := by
    intro e q h
    rw [statement_branch hc ht hat] at h
    rcases bind_eq_error h with h | ⟨condition, r, hcond, h⟩
    · obtain ⟨ts, hts⟩ := expression_fails h
      exact ⟨_, hts.after (.nil p) fun vs hvs => ⟨_, .branch hvs derivesBlock_example⟩⟩
    obtain ⟨cs, hr, -, -⟩ := expression_sound hcond
    rcases bind_eq_error h with h | ⟨mark, r', hread, h⟩
    · exact ⟨cs, expectOr_fails hr (.branch hr.derives derivesBlock_example) (by simp) (by simp) h⟩
    obtain ⟨hmark, rfl⟩ := expectOr_eq_ok.1 hread
    have hpc := hr.passes.append (.single hmark)
    rcases bind_eq_error h with h | ⟨body, u, hbody, h⟩
    · obtain ⟨ts, hts⟩ := hblock condition r mark hcond hmark e q h
      exact ⟨_, hts.after hpc fun vs hvs =>
        ⟨[], by simpa using DerivesStatement.branch hr.derives hvs⟩⟩
    by_cases hcolon : ∃ place, u.current = some ⟨.colon, place⟩
    · obtain ⟨colon, hcolon⟩ := hcolon
      obtain ⟨bs, hpb, hb⟩ := block_derives hbody
      rw [elseOf_colon hcolon] at h
      rcases bind_eq_error h with h | ⟨_, _, _, h⟩
      · obtain ⟨ts, hts⟩ := hother condition r mark body u colon hcond hmark hbody hcolon e q h
        refine ⟨_, hts.after (hpc.append (hpb.append (.single hcolon))) fun vs hvs => ⟨[], ?_⟩⟩
        simpa using DerivesStatement.branchElse hr.derives hb hvs
      · cases h
    · rw [elseOf_stop fun place h => hcolon ⟨place, h⟩] at h
      cases h
  other hc ht := by
    intro e q h
    rw [statement_other hc ht] at h
    cases h
    refine ⟨[], .here (by simp) (.print (.name "")) fun t ht => ?_⟩
    rw [hc] at ht
    cases ht
    exact .token (by simp) (by simp)
  block {p} hstatements := by
    intro e q h
    rw [block_eq] at h
    rcases bind_eq_error h with h | ⟨ss, r, hss, h⟩
    · exact hstatements e q h
    cases ss with
    | cons first rest => cases h
    | nil =>
      obtain ⟨ts, hr⟩ := (soundStatements.all p).2.2 [] r hss
      cases hr.readFrom
      cases hr.passes
      rw [window_bind] at h
      cases h
      refine ⟨[], .here (by simp) derivesBlock_example fun t ht => ?_⟩
      rw [Window.currentSpan, ht]
      exact .token (by simp) (by simp)
  stop hstop := by
    intro e q h
    rw [statements_of_stop hstop] at h
    cases h
  closed hstart hstatement hrest := by
    intro e q h
    rw [statements_of_start hstart] at h
    exact closed_fails opened_block hstatement hrest h

theorem untilEnd_fails (p : Parser) :
    ∀ e q, untilEnd p = .error e q → ∃ ts, Fails DerivesProgram p ts e q := by
  induction p using untilEnd_induction with
  | none p hc =>
    intro e q h
    rw [untilEnd_none hc] at h
    cases h
    exact ⟨[], .here (by simp) .nil (by simp [hc])⟩
  | finish p place hc =>
    intro e q h
    rw [untilEnd_end hc] at h
    cases h
  | closed p t hc ht ih =>
    intro e q h
    rw [untilEnd_cons hc ht] at h
    exact closed_fails opened_program (statements_fail.all p).1 ih h

theorem program_fails (h : program p = .error e q) : ∃ ts, Fails DerivesProgram p ts e q := by
  rw [program_eq] at h
  rcases bind_eq_error h with h | ⟨_, _, _, h⟩
  · exact untilEnd_fails p e q h
  · cases h

end Parser

/-! Programs hold no comments, and the end of file is their last token. -/

/-- A token that can stand inside a program. -/
def Token.IsPlain : Token → Prop
  | .comment | .endOfFile => False
  | _ => True

theorem DerivesExpr.plain {ts : List Token} (h : DerivesExpr ts) : ∀ t ∈ ts, t.IsPlain := by
  induction h with
  | name text => exact List.forall_mem_singleton.2 trivial
  | number raw => exact List.forall_mem_singleton.2 trivial
  | group _ ih =>
    exact List.forall_mem_cons.2 ⟨trivial, List.forall_mem_append.2
      ⟨ih, List.forall_mem_singleton.2 trivial⟩⟩
  | unary op _ ih => exact List.forall_mem_cons.2 ⟨by cases op <;> trivial, ih⟩
  | binary op _ _ ihl ihr =>
    exact List.forall_mem_append.2 ⟨ihl, List.forall_mem_cons.2 ⟨by cases op <;> trivial, ihr⟩⟩

mutual
theorem DerivesStatement.plain {ts : List Token} : DerivesStatement ts → ∀ t ∈ ts, t.IsPlain
  | .print he => List.forall_mem_cons.2 ⟨trivial, he.plain⟩
  | .loop he hb => List.forall_mem_cons.2 ⟨trivial, List.forall_mem_append.2
      ⟨he.plain, List.forall_mem_cons.2 ⟨trivial, hb.plain⟩⟩⟩
  | .assign _ he =>
    List.forall_mem_cons.2 ⟨trivial, List.forall_mem_cons.2 ⟨trivial, he.plain⟩⟩
  | .branch he hb =>
    List.forall_mem_append.2 ⟨he.plain, List.forall_mem_cons.2 ⟨trivial, hb.plain⟩⟩
  | .branchElse he hb ho =>
    List.forall_mem_append.2 ⟨he.plain, List.forall_mem_cons.2 ⟨trivial, List.forall_mem_append.2
      ⟨hb.plain, List.forall_mem_cons.2 ⟨trivial, ho.plain⟩⟩⟩⟩

theorem DerivesBlock.plain {ts : List Token} : DerivesBlock ts → ∀ t ∈ ts, t.IsPlain
  | .single hs => List.forall_mem_append.2 ⟨hs.plain, List.forall_mem_singleton.2 trivial⟩
  | .cons hs hb => List.forall_mem_append.2 ⟨hs.plain, List.forall_mem_cons.2 ⟨trivial, hb.plain⟩⟩
end

theorem DerivesProgram.exists_init {ts : List Token} (h : DerivesProgram ts) :
    ∃ init, ts = init ++ [.endOfFile] ∧ ∀ t ∈ init, t.IsPlain := by
  induction h with
  | nil => exact ⟨[], rfl, by simp⟩
  | @cons us _ hs _ ih =>
    obtain ⟨init, rfl, hinit⟩ := ih
    exact ⟨us ++ .semicolon :: init, by simp,
      List.forall_mem_append.2 ⟨hs.plain, List.forall_mem_cons.2 ⟨trivial, hinit⟩⟩⟩

/-- What a program starts with and does not end with has no end of file in it. -/
theorem DerivesProgram.plain_of_append {ts us : List Token} (h : DerivesProgram (ts ++ us))
    (hne : us ≠ []) : ∀ t ∈ ts, t.IsPlain := by
  obtain ⟨init, hinit, hplain⟩ := h.exists_init
  rw [← List.dropLast_concat_getLast hne, ← List.append_assoc] at hinit
  obtain ⟨rfl, -⟩ := List.append_inj' hinit rfl
  exact fun t ht => hplain t (List.mem_append_left _ ht)

/-! No program goes on with the token at which the parser gave up. -/

namespace Parser
open LexResult (code)
variable {p q : Parser} {e : ParseError} {ts us : List (Located Token)}

theorem Passes.eq_of_same (h : Passes p ts q) (h' : Passes p us q) : ts = us := by
  induction h generalizing us with
  | nil p =>
    have := h'.ahead_le
    exact (List.length_eq_zero_iff.1 (by omega)).symm
  | @cons p q t ts hc h ih =>
    cases us with
    | nil =>
      cases h'
      have := h.ahead_le
      have := ahead_step hc
      omega
    | cons u us =>
      obtain ⟨hc', hus⟩ := Passes.cons_iff.1 h'
      rw [hc] at hc'
      cases hc'
      rw [ih hus]

/-- The window can be moved over tokens to the one behind them. -/
theorem Passes.exists_to_token {t : Located Token} (h : codeOf (ts ++ t :: us) = ts ++ t :: us) :
    ∃ q, Passes (ofResults ((ts ++ t :: us).map .ok)) ts q ∧ q.current = some t := by
  have hcode := LexResult.code_map_ok (ts ++ t :: us)
  rw [h] at hcode
  obtain ⟨q, hpasses, hat⟩ := exists_of_at (at_ofResults _) (hcode.trans (List.map_append ..))
  refine ⟨q, hpasses, ?_⟩
  rw [hat.current, Nat.zero_add, hcode, List.map_append, List.getElem?_append_right (by simp)]
  simp [LexResult.token?]

/-- The tokens of a derivation are read as a program, wherever they stand. -/
theorem program_of_derives (h : DerivesProgram (valuesOf ts)) (hcode : codeOf ts = ts) :
    ∃ a q, program (ofResults (ts.map .ok)) = .ok a q := by
  obtain ⟨a, hg, hf, htokens⟩ := h.exists_grouped
  obtain ⟨us, last, rfl, hus, hlast⟩ := List.map_eq_append_iff.1 htokens.symm
  obtain ⟨⟨_, place⟩, rfl, rfl⟩ := List.map_eq_singleton_iff.1 hlast
  obtain ⟨a', hbare, hread⟩ := a.exists_readFrom hus
  obtain ⟨q, hpasses, hcurrent⟩ := Passes.exists_to_token hcode
  rcases program_complete hread ((Program.grouped_congr hbare).2 hg) hpasses hcurrent rfl with
    h | ⟨hnot, -⟩
  · exact ⟨a', q, h⟩
  · exact absurd ((Program.filled_congr hbare).2 hf) hnot

theorem not_derives_of_error {rs : List LexResult} {t : Located Token}
    (h : program (ofResults rs) = .error e q) (hp : Passes (ofResults rs) ts q)
    (hq : q.current = some t) (rest : List Token) :
    ¬ DerivesProgram (valuesOf ts ++ t.value :: rest) := by
  intro hderives
  -- A window that shows the tokens up to `t` as they are, and behind them the rest of the program.
  let ts' := ts ++ t :: rest.map fun v => ⟨v, .point 0⟩
  have hvalues : valuesOf ts' = valuesOf ts ++ t.value :: rest := by simp [ts', Function.comp_def]
  have hcode : codeOf ts' = ts' := by
    obtain ⟨init, hinit, hplain⟩ := hderives.exists_init
    refine codeOf_eq_self fun u hu hcomment => ?_
    have hmem : u.value ∈ init ++ [.endOfFile] := by
      rw [← hinit, ← hvalues]
      exact List.mem_map_of_mem hu
    rw [hcomment, List.mem_append, List.mem_singleton] at hmem
    rcases hmem with hmem | hmem
    · exact hplain _ hmem
    · cases hmem
  obtain ⟨a, r, hok⟩ := program_of_derives (hvalues ▸ hderives) hcode
  obtain ⟨q', hp', hq'⟩ := Passes.exists_to_token hcode
  -- The parser takes the same tokens there, so it gives up there as well.
  obtain ⟨us, hlocal⟩ := local_program (ofResults rs)
  have hpasses := hlocal.passes
  rw [h] at hpasses
  obtain rfl := hpasses.eq_of_same hp
  have hend : (ofResults (ts'.map .ok)).lastEnd = (ofResults rs).lastEnd := rfl
  have hsame := hlocal.same hend hp'
  rw [h] at hsame
  rw [hsame (hq'.trans hq.symm)] at hok
  cases hok

/-- No lexical error was met among tokens. -/
theorem errors_eq_nil {source : String} {toks : List (Located Token)} (hlex : lex source = .ok toks)
    (h : Passes (ofResults (results source)) ts q) : q.errors = [] := by
  obtain ⟨hat, -⟩ := h.at_after (at_ofResults (results source))
  rw [hat.errors, List.filterMap_eq_nil_iff, lex_eq_ok_iff.1 hlex, LexResult.code_map_ok]
  intro r hr
  obtain ⟨t, -, rfl⟩ := List.mem_map.1 (List.mem_of_mem_take hr)
  rfl

/-- Where there are no lexical errors, what the parser reports is what the program reader failed
with; and the lexer was asked up to the token where that was. -/
theorem parse_eq_error {source : String} {toks : List (Located Token)}
    (hlex : lex source = .ok toks) (h : CatLang.parse source = .error e) :
    ∃ q ts p, program (ofResults (results source)) = .error e q ∧
      Passes (ofResults (results source)) ts q ∧
      Parser.parse (ParserOn.start (Lexer.ofString source)) = .error e p ∧
      Passes (ParserOn.start (Lexer.ofString source)) ts p ∧ p.current = q.current := by
  obtain ⟨hanswer, hasks, ts, hpasses, hpasses'⟩ :=
    asks_program Lexer.settles_isText (asks_results source)
  have herrors := hasks.errors
  rw [errors_eq_nil hlex hpasses] at herrors
  unfold CatLang.parse Parser.parse at h
  cases hp : program (ParserOn.start (Lexer.ofString source)) with
  | ok a p =>
    rw [hp] at herrors
    have hnone : p.errors = [] := herrors
    simp only [hp, hnone] at h
    cases h
  | error e' p =>
    rw [hp] at herrors hanswer hasks hpasses'
    have hnone : p.errors = [] := herrors
    simp only [hp, hnone] at h
    cases h
    cases hq : program (ofResults (results source)) with
    | ok a q =>
      rw [hq] at hanswer
      cases hanswer
    | error e' q =>
      rw [hq] at hanswer hasks hpasses
      cases hanswer
      refine ⟨q, ts, p, rfl, hpasses, ?_, hpasses', hasks.current⟩
      unfold Parser.parse
      simp only [hp, hnone]

/-- Where no lexical error was met, tokens without an end of file have another behind them. -/
theorem Passes.exists_current {source : String}
    (h : Passes (ofResults (results source)) ts q)
    (hplain : ∀ t ∈ valuesOf ts, t.IsPlain) (herrors : q.errors = []) :
    ∃ t after, code (results source) = ts.map .ok ++ .ok t :: after ∧ q.current = some t := by
  obtain ⟨hat, hts⟩ := h.at_after (at_ofResults (results source))
  rw [Nat.zero_add] at hat
  rw [Nat.zero_add, List.drop_zero] at hts
  cases hrest : (code (results source)).drop ts.length with
  | nil =>
    obtain ⟨init, place, hresults, -⟩ := code_results source
    rw [hts, hrest, List.append_nil] at hresults
    have hmem : .ok ⟨.endOfFile, place⟩ ∈ ts.map (.ok : _ → LexResult) := by simp [hresults]
    obtain ⟨t, ht, hend⟩ := List.mem_map.1 hmem
    obtain rfl := Except.ok.inj hend
    exact (hplain _ (List.mem_map_of_mem ht)).elim
  | cons r after =>
    have hget : (code (results source))[ts.length]? = some r := by
      rw [← List.head?_drop, hrest]
      rfl
    rw [hrest] at hts
    cases r with
    | ok t =>
      refine ⟨t, after, hts, ?_⟩
      rw [hat.current, hget]
      rfl
    | error error =>
      rw [hat.errors, List.filterMap_eq_nil_iff] at herrors
      have hmem : .error error ∈ (code (results source)).take (ts.length + 2) := by
        rw [hts]
        simp [List.take_append]
      exact absurd (herrors _ hmem) (by simp [LexResult.error?])

/-- Tokens without an end of file do not reach to the end of the source. -/
theorem exists_next_token {source : String} {toks : List (Located Token)}
    (hlex : lex source = .ok toks) (h : Passes (ofResults (results source)) ts q)
    (hplain : ∀ t ∈ valuesOf ts, t.IsPlain) :
    ∃ t after, codeOf toks = ts ++ t :: after ∧ q.current = some t := by
  obtain ⟨t, after, hcode, hcurrent⟩ := h.exists_current hplain (errors_eq_nil hlex h)
  rw [lex_eq_ok_iff.1 hlex, LexResult.code_map_ok, List.map_eq_append_iff] at hcode
  obtain ⟨ts', rest, hsplit, hts', hrest⟩ := hcode
  obtain rfl : ts' = ts := (List.map_inj_right fun _ _ => Except.ok.inj).1 hts'
  obtain ⟨t', after', rfl, ht, -⟩ := List.map_eq_cons_iff.1 hrest
  cases ht
  exact ⟨t, after', hsplit, hcurrent⟩

end Parser

/-! The place of an error in the source. -/

/-- Where an error stands: behind the token before `t` if a semicolon is missing there, and at `t`
otherwise; a missing operand may include an operator that stands before it. -/
def ParseError.LiesAt (e : ParseError) (before : List (Located Token)) (t : Located Token) : Prop :=
  match e.cause with
  | .missingSemicolon => ∃ last, before.getLast? = some last ∧ e.span = .point last.span.stop
  | .expectedExpression => e.span.stop = t.span.stop ∧
      (e.span.start = t.span.start ∨
        ∃ sign ∈ before, sign.value.isUnaryOperator = true ∧ e.span.start = sign.span.start)
  | _ => e.span = t.span

theorem Span.withSigns_spec {signs : List (Located Token)} {span : Span}
    (h : ∀ sign ∈ signs, sign.span.stop ≤ span.stop) :
    (span.withSigns signs).stop = span.stop ∧ ((span.withSigns signs).start = span.start ∨
      ∃ sign ∈ signs, (span.withSigns signs).start = sign.span.start) := by
  induction signs with
  | nil => exact ⟨rfl, .inl rfl⟩
  | cons sign signs ih =>
    obtain ⟨hsign, hsigns⟩ := List.forall_mem_cons.1 h
    obtain ⟨hstop, hstart⟩ := ih hsigns
    simp only [withSigns, merge]
    refine ⟨by omega, ?_⟩
    rcases Nat.le_total sign.span.start (span.withSigns signs).start with hle | hle
    · exact .inr ⟨sign, by simp, Nat.min_eq_left hle⟩
    · rw [Nat.min_eq_right hle]
      exact hstart.imp_right fun ⟨s, hs, hs'⟩ => ⟨s, List.mem_cons_of_mem _ hs, hs'⟩

theorem ParseError.Blames.liesAt {e : ParseError} {before : List (Located Token)}
    {t : Located Token} (h : e.Blames before t)
    (hstop : e.cause = .expectedExpression → ∀ s ∈ before, s.span.stop ≤ t.span.stop) :
    e.LiesAt before t := by
  cases h with
  | semicolon hlast => exact ⟨_, hlast, rfl⟩
  | expression hsub hsigns =>
    obtain ⟨hend, hstart⟩ := Span.withSigns_spec fun s hs => hstop rfl s (hsub.subset hs)
    refine ⟨hend, hstart.imp_right ?_⟩
    rintro ⟨s, hs, hs'⟩
    exact ⟨s, hsub.subset hs, hsigns s hs, hs'⟩
  | @token _ _ cause hs he =>
    unfold LiesAt
    split
    · next h => exact absurd h hs
    · next h => exact absurd h he
    · rfl

/-- The parser gives up at the first token that no program goes on with. The tokens before it start
a program, and the error stands at that token. Only the place of a missing operand is put together
from several tokens, and only there may the source not be so long that offsets start again. -/
theorem parse_error_at_first_offender {source : String} {toks : List (Located Token)}
    {e : ParseError} (hlex : lex source = .ok toks) (h : parse source = .error e) :
    ∃ p before t after, Parser.parse (ParserOn.start (Lexer.ofString source)) = .error e p ∧
      Parser.Passes (ParserOn.start (Lexer.ofString source)) before p ∧ p.current = some t ∧
      codeOf toks = before ++ t :: after ∧
      (∃ rest, DerivesProgram (valuesOf before ++ rest)) ∧
      (∀ rest, ¬ DerivesProgram (valuesOf before ++ t.value :: rest)) ∧
      ((e.cause = .expectedExpression → source.utf8ByteSize < 4294967296) →
        e.LiesAt before t) := by
  obtain ⟨q, before, p, hprogram, hpasses, hparse, hlazy, hcurrent⟩ := Parser.parse_eq_error hlex h
  obtain ⟨ts, hts, ⟨rest, hne, hrest⟩, hblames⟩ := Parser.program_fails hprogram
  obtain rfl := hts.eq_of_same hpasses
  obtain ⟨t, after, hcode, hq⟩ :=
    Parser.exists_next_token hlex hpasses (hrest.plain_of_append hne)
  refine ⟨p, ts, t, after, hparse, hlazy, hcurrent.trans hq, hcode, ⟨rest, hrest⟩,
    Parser.not_derives_of_error hprogram hpasses hq, fun hsize => ?_⟩
  refine (hblames t hq).liesAt fun hcause => ?_
  obtain ⟨horder, hspans⟩ := lex_inOrder (hsize hcause) hlex
  have hsublist : (ts ++ t :: after).Sublist toks := hcode ▸ List.filter_sublist
  intro s hs
  have hle := (List.pairwise_append.1 (horder.sublist hsublist)).2.2 s hs t (by simp)
  rcases hspans t (hsublist.subset (by simp)) with hlt | rfl
  · omega
  · exact hle

theorem parse_error_at_first_offender_signs :
    ∃ toks e, lex "x = -~ // none\n;" = .ok toks ∧ parse "x = -~ // none\n;" = .error e ∧
      e = ⟨.expectedExpression, 4, 16⟩ ∧
      ∃ p before t after,
        Parser.parse (ParserOn.start (Lexer.ofString "x = -~ // none\n;")) = .error e p ∧
        Parser.Passes (ParserOn.start (Lexer.ofString "x = -~ // none\n;")) before p ∧
        p.current = some t ∧ codeOf toks = before ++ t :: after ∧
        (∃ rest, DerivesProgram (valuesOf before ++ rest)) ∧
        (∀ rest, ¬ DerivesProgram (valuesOf before ++ t.value :: rest)) ∧ e.LiesAt before t := by
  have hlex : lex "x = -~ // none\n;" = .ok
      [⟨.name "x", 0, 1⟩, ⟨.assign, 2, 3⟩, ⟨.minus, 4, 5⟩, ⟨.tilde, 5, 6⟩, ⟨.comment, 7, 14⟩,
        ⟨.semicolon, 15, 16⟩, ⟨.endOfFile, 16, 16⟩] := by
    cbv
  have hparse : parse "x = -~ // none\n;" = .error ⟨.expectedExpression, 4, 16⟩ := by cbv
  obtain ⟨p, before, t, after, hp, hpasses, hcurrent, hcode, hopens, hnone, hlies⟩ :=
    parse_error_at_first_offender hlex hparse
  exact ⟨_, _, hlex, hparse, rfl, p, before, t, after, hp, hpasses, hcurrent, hcode, hopens, hnone,
    hlies fun _ => by decide⟩

/-- Where offsets start again between a sign and the token behind it, the place of the missing
operand fits no token of the source. -/
theorem parse_error_across_the_last_offset :
    ∃ toks e, lex (Text.indented 4294967294 "- ;") = .ok toks ∧
      parse (Text.indented 4294967294 "- ;") = .error e ∧ e.cause = .expectedExpression ∧
      ∀ before t after, codeOf toks = before ++ t :: after → ¬ e.LiesAt before t := by
  have hresults : results (Text.indented 4294967294 "- ;") =
      [.ok ⟨.minus, 4294967294, 4294967295⟩, .ok ⟨.semicolon, 0, 1⟩, .ok ⟨.endOfFile, 1, 1⟩] := by
    rw [results_indented]
    cbv
  have hparse : parse (Text.indented 4294967294 "- ;") =
      .error ⟨.expectedExpression, 0, 4294967295⟩ := by
    rw [parse_eq, hresults]
    cbv
  refine ⟨[⟨.minus, 4294967294, 4294967295⟩, ⟨.semicolon, 0, 1⟩, ⟨.endOfFile, 1, 1⟩], _,
    by rw [lex, hresults]; rfl, hparse, rfl, ?_⟩
  intro before t after hcode
  have hcode : [⟨.minus, 4294967294, 4294967295⟩, ⟨.semicolon, 0, 1⟩, ⟨.endOfFile, 1, 1⟩] =
      before ++ t :: after := hcode
  rintro ⟨hstop, hstart⟩
  rcases before with _ | ⟨first, _ | ⟨second, _ | ⟨third, before⟩⟩⟩
  · cases hcode
    simp at hstart
  · cases hcode
    simp at hstop
  · cases hcode
    simp at hstop
  · simp at hcode

end CatLang
