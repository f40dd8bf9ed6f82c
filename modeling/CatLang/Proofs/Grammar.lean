import CatLang.Proofs.Parsing

/-! The grammar of the language, and the parser against it. The grammar says nothing about
precedence: whatever it derives can be grouped by precedence without moving a token
(`DerivesExpr.exists_grouped`), and what is grouped the parser reads. -/
namespace CatLang

/-- `expr := IDENT | NUMBER | "(" expr ")" | ("-" | "~") expr | expr op expr` -/
inductive DerivesExpr : List Token → Prop
  | name (text : String) : DerivesExpr [.name text]
  | number (raw : String) : DerivesExpr [.number raw]
  | group {ts : List Token} : DerivesExpr ts → DerivesExpr (.leftParen :: ts ++ [.rightParen])
  | unary (op : UnaryOp) {ts : List Token} : DerivesExpr ts → DerivesExpr (op.token :: ts)
  | binary (op : BinaryOp) {ts us : List Token} :
      DerivesExpr ts → DerivesExpr us → DerivesExpr (ts ++ op.token :: us)

mutual
/-- `statement := "::" expr | "@" expr ":" block | IDENT "=" expr | expr "?" block [":" block]` -/
inductive DerivesStatement : List Token → Prop
  | print {ts : List Token} : DerivesExpr ts → DerivesStatement (.doubleColon :: ts)
  | loop {ts us : List Token} :
      DerivesExpr ts → DerivesBlock us → DerivesStatement (.atSign :: (ts ++ .colon :: us))
  | assign (text : String) {ts : List Token} :
      DerivesExpr ts → DerivesStatement (.name text :: .assign :: ts)
  | branch {ts us : List Token} :
      DerivesExpr ts → DerivesBlock us → DerivesStatement (ts ++ .question :: us)
  | branchElse {ts us vs : List Token} : DerivesExpr ts → DerivesBlock us → DerivesBlock vs →
      DerivesStatement (ts ++ .question :: (us ++ .colon :: vs))

/-- `block := (statement ";")+` -/
inductive DerivesBlock : List Token → Prop
  | single {ts : List Token} : DerivesStatement ts → DerivesBlock (ts ++ [.semicolon])
  | cons {ts us : List Token} :
      DerivesStatement ts → DerivesBlock us → DerivesBlock (ts ++ .semicolon :: us)
end

/-- `program := (statement ";")* EOF` -/
inductive DerivesProgram : List Token → Prop
  | nil : DerivesProgram [.endOfFile]
  | cons {ts us : List Token} :
      DerivesStatement ts → DerivesProgram us → DerivesProgram (ts ++ .semicolon :: us)

/-! A tree is a derivation of its tokens, if none of its blocks is empty. -/

theorem Expr.derives (e : Expr) : DerivesExpr e.tokens := by
  induction e with
  | name text span => exact .name text
  | number raw span => exact .number raw
  | unary op operand span ih => exact .unary op ih
  | binary left op right span ihl ihr => exact .binary op ihl ihr
  | group inner span ih => exact .group ih

mutual
theorem Statement.derives : ∀ s : Statement, s.Filled → DerivesStatement s.tokens
  | .assign target value _, _ => .assign target.value value.derives
  | .print value _, _ => .print value.derives
  | .branch condition ⟨body, _⟩ none _, h => .branch condition.derives (derives_block body h.1 h.2)
  | .branch condition ⟨body, _⟩ (some ⟨otherwise, _⟩) _, h =>
    .branchElse condition.derives (derives_block body h.1.1 h.1.2)
      (derives_block otherwise h.2.1 h.2.2)
  | .loop count ⟨body, _⟩ _, h => .loop count.derives (derives_block body h.1 h.2)

theorem derives_block : ∀ ss : List Statement, ss ≠ [] → FilledAll ss →
    DerivesBlock (statementTokens ss)
  | [], hne, _ => absurd rfl hne
  | [s], _, h => .single (s.derives h.1)
  | s :: s' :: rest, _, h => .cons (s.derives h.1) (derives_block (s' :: rest) (by simp) h.2)
end

theorem derives_program : ∀ ss : List Statement, FilledAll ss →
    DerivesProgram (statementTokens ss ++ [.endOfFile])
  | [], _ => .nil
  | s :: rest, h => by
    rw [statementTokens, List.append_assoc, List.cons_append]
    exact .cons (s.derives h.1) (derives_program rest h.2)

/-! A derivation's tokens can be grouped by precedence. -/

namespace Expr
open CatLang.Parser (rightLevel)

theorem above_of_operator?_eq {e g : Expr} {op : BinaryOp} {level : Level} (he : e.Above level)
    (hop : level < op.token.level) (h : g.operator? = e.operator? ∨ g.operator? = some op) :
    g.Above level := by
  rcases h with h | h
  · intro op' hop'
    exact he op' (h ▸ hop')
  · exact above_of_operator?_eq_some h hop

/-- An operator and its right operand find their place at the right end of a grouped expression. The
root stays, unless the new operator becomes it. -/
theorem exists_attach {e x : Expr} (op : BinaryOp) (he : e.Grouped) (hx : x.Grouped)
    (hroot : x.operator? = none) :
    ∃ g : Expr, g.Grouped ∧ g.tokens = e.tokens ++ op.token :: x.tokens ∧
      (g.operator? = e.operator? ∨ g.operator? = some op) := by
  have atRoot {e : Expr} (he : e.Grouped) (hedge : op.token.level ≤ e.edge) :
      ∃ g : Expr, g.Grouped ∧ g.tokens = e.tokens ++ op.token :: x.tokens ∧
        (g.operator? = e.operator? ∨ g.operator? = some op) :=
    ⟨.binary e op x (.point 0),
      grouped_binary he hx hedge (above_of_operator?_eq_none hroot _), rfl, .inr rfl⟩
  -- Down the right spine: the operator goes below every root that binds looser than it does.
  induction e with
  | name text span => exact atRoot he op.token.level.le_power
  | number raw span => exact atRoot he op.token.level.le_power
  | group inner span ih => exact atRoot he op.token.level.le_power
  | unary sign operand span ih =>
    by_cases hedge : op.token.level ≤ Level.product
    · exact atRoot he hedge
    · obtain ⟨g, hg, htokens, hop⟩ := ih he.2
      have habove := above_of_operator?_eq he.1 (Nat.lt_of_not_le hedge) hop
      exact ⟨.unary sign g (.point 0), ⟨habove, hg⟩, by simp [tokens, htokens], .inl rfl⟩
  | binary left op' right span ihl ihr =>
    by_cases hedge : op.token.level ≤ rightLevel op'
    · exact atRoot he hedge
    · obtain ⟨hl, hr, hleft, hright⟩ := he.binary_parts
      obtain ⟨g, hg, htokens, hop⟩ := ihr hr
      have habove := above_of_operator?_eq hright (Nat.lt_of_not_le hedge) hop
      exact ⟨.binary left op' g (.point 0), grouped_binary hl hg hleft habove,
        by simp [tokens, htokens], .inl rfl⟩

/-- Operators before a primary. -/
def prefixed (signs : List UnaryOp) (e : Expr) : Expr :=
  signs.foldr (fun sign operand => .unary sign operand (.point 0)) e

theorem operator?_prefixed {e : Expr} (h : e.IsPrimary) (signs : List UnaryOp) :
    (prefixed signs e).operator? = none := by
  cases signs with
  | nil => cases e <;> first | rfl | exact h.elim
  | cons sign signs => rfl

theorem grouped_prefixed {e : Expr} (h : e.IsPrimary) (hg : e.Grouped) (signs : List UnaryOp) :
    (prefixed signs e).Grouped := by
  induction signs with
  | nil => exact hg
  | cons sign signs ih => exact ⟨above_of_operator?_eq_none (operator?_prefixed h signs) _, ih⟩

theorem tokens_prefixed (signs : List UnaryOp) (e : Expr) :
    (prefixed signs e).tokens = signs.map UnaryOp.token ++ e.tokens := by
  induction signs with
  | nil => rfl
  | cons sign signs ih => exact congrArg (sign.token :: ·) ih

end Expr

/-- Behind any operators that stand before an operand, the tokens can be grouped, alone or as the
continuation of a grouped expression. -/
structure Groupable (ts : List Token) : Prop where
  alone (signs : List UnaryOp) :
    ∃ g : Expr, g.Grouped ∧ g.tokens = signs.map UnaryOp.token ++ ts
  after (signs : List UnaryOp) (op : BinaryOp) {e : Expr} (he : e.Grouped) :
    ∃ g : Expr, g.Grouped ∧ g.tokens = e.tokens ++ op.token :: (signs.map UnaryOp.token ++ ts)

theorem Groupable.of_primary {e : Expr} (h : e.IsPrimary) (hg : e.Grouped) :
    Groupable e.tokens where
  alone signs := ⟨_, Expr.grouped_prefixed h hg signs, Expr.tokens_prefixed signs e⟩
  after signs op _ he := by
    obtain ⟨g, hgrouped, htokens, -⟩ := Expr.exists_attach op he
      (Expr.grouped_prefixed h hg signs) (Expr.operator?_prefixed h signs)
    exact ⟨g, hgrouped, by rw [htokens, Expr.tokens_prefixed]⟩

namespace DerivesExpr

theorem groupable {ts : List Token} (h : DerivesExpr ts) : Groupable ts := by
  induction h with
  | name text => exact .of_primary (e := .name text (.point 0)) trivial trivial
  | number raw => exact .of_primary (e := .number raw (.point 0)) trivial trivial
  | group _ ih =>
    obtain ⟨g, hg, rfl⟩ := ih.alone []
    exact .of_primary (e := .group g (.point 0)) trivial hg
  | unary op _ ih =>
    refine ⟨fun signs => ?_, fun signs op' e he => ?_⟩
    · obtain ⟨g, hg, htokens⟩ := ih.alone (signs ++ [op])
      exact ⟨g, hg, by simpa using htokens⟩
    · obtain ⟨g, hg, htokens⟩ := ih.after (signs ++ [op]) op' he
      exact ⟨g, hg, by simpa using htokens⟩
  | binary op _ _ ihl ihr =>
    refine ⟨fun signs => ?_, fun signs op' e he => ?_⟩
    · obtain ⟨l, hl, hleft⟩ := ihl.alone signs
      obtain ⟨g, hg, htokens⟩ := ihr.after [] op hl
      exact ⟨g, hg, by simpa [hleft] using htokens⟩
    · obtain ⟨l, hl, hleft⟩ := ihl.after signs op' he
      obtain ⟨g, hg, htokens⟩ := ihr.after [] op hl
      exact ⟨g, hg, by simpa [hleft] using htokens⟩

theorem exists_grouped {ts : List Token} (h : DerivesExpr ts) :
    ∃ e : Expr, e.Grouped ∧ e.tokens = ts :=
  h.groupable.alone []

end DerivesExpr

mutual
theorem DerivesStatement.exists_grouped {ts : List Token} :
    DerivesStatement ts → ∃ s : Statement, s.Grouped ∧ s.Filled ∧ s.tokens = ts
  | .print he => by
    obtain ⟨e, hg, rfl⟩ := he.exists_grouped
    exact ⟨.print e (.point 0), hg, trivial, rfl⟩
  | .loop he hb => by
    obtain ⟨e, hg, rfl⟩ := he.exists_grouped
    obtain ⟨body, hne, hbg, hbf, rfl⟩ := hb.exists_grouped
    exact ⟨.loop e ⟨body, .point 0⟩ (.point 0), ⟨hg, hbg⟩, ⟨hne, hbf⟩, rfl⟩
  | .assign text he => by
    obtain ⟨e, hg, rfl⟩ := he.exists_grouped
    exact ⟨.assign ⟨text, .point 0⟩ e (.point 0), hg, trivial, rfl⟩
  | .branch he hb => by
    obtain ⟨e, hg, rfl⟩ := he.exists_grouped
    obtain ⟨body, hne, hbg, hbf, rfl⟩ := hb.exists_grouped
    exact ⟨.branch e ⟨body, .point 0⟩ none (.point 0), ⟨hg, hbg⟩, ⟨hne, hbf⟩, rfl⟩
  | .branchElse he hb ho => by
    obtain ⟨e, hg, rfl⟩ := he.exists_grouped
    obtain ⟨body, hne, hbg, hbf, rfl⟩ := hb.exists_grouped
    obtain ⟨otherwise, hone, hog, hof, rfl⟩ := ho.exists_grouped
    exact ⟨.branch e ⟨body, .point 0⟩ (some ⟨otherwise, .point 0⟩) (.point 0), ⟨hg, hbg, hog⟩,
      ⟨⟨hne, hbf⟩, hone, hof⟩, rfl⟩

theorem DerivesBlock.exists_grouped {ts : List Token} :
    DerivesBlock ts → ∃ ss : List Statement, ss ≠ [] ∧ GroupedAll ss ∧ FilledAll ss ∧
      statementTokens ss = ts
  | .single hs => by
    obtain ⟨s, hg, hf, rfl⟩ := hs.exists_grouped
    exact ⟨[s], by simp, ⟨hg, trivial⟩, ⟨hf, trivial⟩, rfl⟩
  | .cons hs hrest => by
    obtain ⟨s, hg, hf, rfl⟩ := hs.exists_grouped
    obtain ⟨rest, -, hrg, hrf, rfl⟩ := hrest.exists_grouped
    exact ⟨s :: rest, by simp, ⟨hg, hrg⟩, ⟨hf, hrf⟩, rfl⟩
end

theorem DerivesProgram.exists_grouped {ts : List Token} (h : DerivesProgram ts) :
    ∃ a : Program, a.Grouped ∧ a.Filled ∧ a.tokens ++ [.endOfFile] = ts := by
  induction h with
  | nil => exact ⟨⟨[], .point 0⟩, trivial, trivial, rfl⟩
  | cons hs _ ih =>
    obtain ⟨s, hg, hf, rfl⟩ := hs.exists_grouped
    obtain ⟨⟨rest, span⟩, hrg, hrf, rfl⟩ := ih
    exact ⟨⟨s :: rest, .point 0⟩, ⟨hg, hrg⟩, ⟨hf, hrf⟩, by simp [Program.tokens, statementTokens]⟩

/-- The parser accepts exactly the sources whose tokens the grammar derives. -/
theorem parse_ok_iff_derives {source : String} {toks : List (Located Token)}
    (h : lex source = .ok toks) :
    (∃ parsed, parse source = .ok parsed) ↔ DerivesProgram (codeTokens toks) := by
  constructor
  · rintro ⟨parsed, hparse⟩
    obtain ⟨toks', ts, place, hlex, hcode, hread, -, hfilled⟩ := parse_sound hparse
    rw [h] at hlex
    cases hlex
    rw [codeTokens, hcode, List.map_append, List.map_singleton, hread.tokens_eq]
    exact derives_program _ hfilled
  · intro hderives
    obtain ⟨a, hg, hf, htokens⟩ := hderives.exists_grouped
    obtain ⟨ts, last, hcode, hts, hlast⟩ := List.map_eq_append_iff.1 htokens.symm
    obtain ⟨⟨_, place⟩, rfl, rfl⟩ := List.map_eq_singleton_iff.1 hlast
    obtain ⟨a', hbare, hread⟩ := a.exists_readFrom hts
    rcases parse_complete h hcode hread ((Program.grouped_congr hbare).2 hg) with hparse | hparse
    · exact ⟨_, hparse⟩
    · exact absurd ((Program.filled_congr hbare).2 hf) hparse.1

theorem parse_ok_iff_derives_dangling_else :
    ∃ toks, lex "a ? b ? ::a; : ::-b;;; // end" = .ok toks ∧
      codeTokens toks =
        [.name "a", .question, .name "b", .question, .doubleColon, .name "a", .semicolon, .colon,
          .doubleColon, .minus, .name "b", .semicolon, .semicolon, .semicolon, .endOfFile] ∧
      (∃ parsed, parse "a ? b ? ::a; : ::-b;;; // end" = .ok parsed) ∧
      DerivesProgram (codeTokens toks) := by
  have hlex : lex "a ? b ? ::a; : ::-b;;; // end" = .ok
      [⟨.name "a", 0, 1⟩, ⟨.question, 2, 3⟩, ⟨.name "b", 4, 5⟩, ⟨.question, 6, 7⟩,
        ⟨.doubleColon, 8, 10⟩, ⟨.name "a", 10, 11⟩, ⟨.semicolon, 11, 12⟩, ⟨.colon, 13, 14⟩,
        ⟨.doubleColon, 15, 17⟩, ⟨.minus, 17, 18⟩, ⟨.name "b", 18, 19⟩, ⟨.semicolon, 19, 20⟩,
        ⟨.semicolon, 20, 21⟩, ⟨.semicolon, 21, 22⟩, ⟨.comment, 23, 29⟩, ⟨.endOfFile, 29, 29⟩] := by
    cbv
  have hderives : DerivesProgram
      [.name "a", .question, .name "b", .question, .doubleColon, .name "a", .semicolon, .colon,
        .doubleColon, .minus, .name "b", .semicolon, .semicolon, .semicolon, .endOfFile] :=
    .cons (.branch (.name "a") (.single (.branchElse (.name "b") (.single (.print (.name "a")))
      (.single (.print (.unary .negate (.name "b"))))))) .nil
  exact ⟨_, hlex, rfl, (parse_ok_iff_derives hlex).2 hderives, hderives⟩

end CatLang
