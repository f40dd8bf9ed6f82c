import CatLang.Proofs.Parsing
import CatLang.Tree.Printer

/-! A printed program lexes to its own tokens, so parsing it gives the program back. What the
printer puts between two tokens always keeps them apart, provided every token is spelled as the
lexer spells them. -/
namespace CatLang

/-! The text does not show places. -/

theorem Expr.text_bare (e : Expr) : e.bare.text = e.text := by
  induction e with
  | name text span => rfl
  | number raw span => rfl
  | unary op operand span ih => simp only [bare, text, ih]
  | binary left op right span ihl ihr => simp only [bare, text, ihl, ihr]
  | group inner span ih => simp only [bare, text, ih]

mutual
theorem Statement.text_bare : ∀ s : Statement, s.bare.text = s.text
  | .assign _ _ _ => by simp only [Statement.bare, Statement.text, Expr.text_bare]
  | .print _ _ => by simp only [Statement.bare, Statement.text, Expr.text_bare]
  | .branch _ ⟨body, _⟩ none _ => by
    simp only [Statement.bare, Statement.text, Expr.text_bare, statementTexts_bareAll body]
  | .branch _ ⟨body, _⟩ (some ⟨otherwise, _⟩) _ => by
    simp only [Statement.bare, Statement.text, Expr.text_bare, statementTexts_bareAll body,
      statementTexts_bareAll otherwise]
  | .loop _ ⟨body, _⟩ _ => by
    simp only [Statement.bare, Statement.text, Expr.text_bare, statementTexts_bareAll body]

theorem statementTexts_bareAll : ∀ ss : List Statement,
    statementTexts (bareAll ss) = statementTexts ss
  | [] => rfl
  | s :: rest => by simp only [bareAll, statementTexts, s.text_bare, statementTexts_bareAll rest]
end

theorem Program.text_congr {p q : Program} (h : p.bare = q.bare) : p.text = q.text := by
  have hss : bareAll p.statements = bareAll q.statements := congrArg statements h
  rw [text, text, ← statementTexts_bareAll p.statements, hss, statementTexts_bareAll]

/-! The pieces of a printed program. -/

theorem Token.apart_space (t : Token) : t.Apart (some ' ') := by
  apply t.apart_of_blank
  rintro c ⟨⟩
  decide

theorem BinaryOp.spelled (op : BinaryOp) : op.token.Spelled := by
  cases op <;> trivial

theorem UnaryOp.spelled (op : UnaryOp) : op.token.Spelled := by
  cases op <;> trivial

theorem UnaryOp.apart (op : UnaryOp) (next : Option Char) : op.token.Apart next := by
  cases op <;> trivial

namespace Lexes
variable {text rest : List Char} {t : Token} {ts : List Token}

theorem single {c : Char} (h : single? c = some t) (ht : t.Apart text.head?)
    (hrest : Lexes text ts rest) : Lexes (c :: text) (t :: ts) rest := by
  have htoken := token (spelled_of_single? h) ht
  rw [literal_of_single? h] at htoken
  exact htoken.trans hrest

theorem pair {c d : Char} (h : pair? c d = some t) (ht : t.Apart text.head?)
    (hrest : Lexes text ts rest) : Lexes (c :: d :: text) (t :: ts) rest := by
  have htoken := token (spelled_of_pair? h) ht
  rw [literal_of_pair? h] at htoken
  exact htoken.trans hrest

theorem space (hrest : Lexes text ts rest) : Lexes (' ' :: text) ts rest :=
  (blank text (by decide)).trans hrest

theorem spaced (h : t.Spelled) (hrest : Lexes text ts rest) :
    Lexes (t.literal.toList ++ ' ' :: text) (t :: ts) rest := by
  have htoken : Lexes (t.literal.toList ++ ' ' :: text) [t] (' ' :: text) := token h t.apart_space
  exact htoken.trans hrest.space

end Lexes

theorem lexes_space (rest : List Char) : Lexes (" ".toList ++ rest) [] rest := by
  simpa using Lexes.space (.refl rest)

/-- An expression before a character that no name or number goes on with. -/
theorem Expr.lexes (e : Expr) (h : ∀ t ∈ e.tokens, t.Spelled) : ∀ (c : Char) (rest : List Char),
    isWordChar c = false ∧ c ≠ '.' →
    Lexes (e.text.toList ++ c :: rest) e.tokens (c :: rest) := by
  induction e with
  | name text span =>
    intro c rest hc
    have hname : Lexes ((Token.name text).literal.toList ++ c :: rest) [.name text]
        (c :: rest) := by
      refine .token (h _ (List.mem_singleton_self _)) ?_
      rintro d ⟨⟩
      exact hc.1
    exact hname
  | number raw span =>
    intro c rest hc
    have hnumber : Lexes ((Token.number raw).literal.toList ++ c :: rest) [.number raw]
        (c :: rest) := by
      refine .token (h _ (List.mem_singleton_self _)) ?_
      rintro d ⟨⟩
      exact hc
    exact hnumber
  | unary op operand span ih =>
    intro c rest hc
    have hoperand := ih (fun t ht => h t (List.mem_cons_of_mem _ ht)) c rest hc
    rw [text, String.toList_append, List.append_assoc]
    exact (Lexes.token op.spelled (op.apart _)).trans hoperand
  | binary left op right span ihl ihr =>
    intro c rest hc
    have hleft := ihl fun t ht => h t (by simp [tokens, ht])
    have hright := ihr (fun t ht => h t (by simp [tokens, ht])) c rest hc
    have htext : (binary left op right span).text.toList ++ c :: rest =
        left.text.toList ++ ' ' ::
          (op.token.literal.toList ++ ' ' :: (right.text.toList ++ c :: rest)) := by
      simp [text]
    rw [htext]
    exact (hleft ' ' _ (by decide)).trans (.space (.spaced op.spelled hright))
  | group inner span ih =>
    intro c rest hc
    have hinner := ih fun t ht => h t (by simp [tokens, ht])
    have htext : (group inner span).text.toList ++ c :: rest =
        '(' :: (inner.text.toList ++ ')' :: c :: rest) := by
      simp [text]
    rw [htext]
    refine .single rfl trivial ((hinner ')' _ (by decide)).trans ?_)
    exact .single rfl trivial (.refl _)

mutual
theorem Statement.lexes : ∀ (s : Statement) (rest : List Char), (∀ t ∈ s.tokens, t.Spelled) →
    Lexes (s.text.toList ++ ';' :: rest) s.tokens (';' :: rest)
  | .assign target value span, rest, h => by
    have hvalue := value.lexes (fun t ht => h t (by simp [Statement.tokens, ht])) ';' rest
      (by decide)
    have htext : (Statement.assign target value span).text.toList ++ ';' :: rest =
        (Token.name target.value).literal.toList ++ ' ' :: '=' :: ' ' ::
          (value.text.toList ++ ';' :: rest) := by
      simp [Statement.text, Token.literal]
    rw [htext, Statement.tokens]
    refine .spaced (h _ List.mem_cons_self) ?_
    exact .single rfl (Token.apart_space .assign) hvalue.space
  | .print value span, rest, h => by
    have hvalue := value.lexes (fun t ht => h t (by simp [Statement.tokens, ht])) ';' rest
      (by decide)
    have htext : (Statement.print value span).text.toList ++ ';' :: rest =
        ':' :: ':' :: (value.text.toList ++ ';' :: rest) := by
      simp [Statement.text]
    rw [htext, Statement.tokens]
    exact .pair rfl trivial hvalue
  | .branch condition ⟨body, bodySpan⟩ none span, rest, h => by
    have hcondition := condition.lexes fun t ht => h t (by simp [Statement.tokens, ht])
    have hbody := lexes_statements body " " lexes_space (';' :: rest) fun t ht =>
      h t (by simp [Statement.tokens, ht])
    have htext : (Statement.branch condition ⟨body, bodySpan⟩ none span).text.toList ++
          ';' :: rest =
        condition.text.toList ++ ' ' :: '?' :: ' ' ::
          ((String.intercalate " " (statementTexts body)).toList ++ ';' :: rest) := by
      simp [Statement.text]
    rw [htext, Statement.tokens]
    refine (hcondition ' ' _ (by decide)).trans (.space ?_)
    exact .single rfl trivial (.space hbody)
  | .branch condition ⟨body, bodySpan⟩ (some ⟨otherwise, elseSpan⟩) span, rest, h => by
    have hcondition := condition.lexes fun t ht => h t (by simp [Statement.tokens, ht])
    have hotherwise := lexes_statements otherwise " " lexes_space (';' :: rest) fun t ht =>
      h t (by simp [Statement.tokens, ht])
    have hbody := lexes_statements body " " lexes_space
      (' ' :: ':' :: ' ' ::
        ((String.intercalate " " (statementTexts otherwise)).toList ++ ';' :: rest))
      fun t ht => h t (by simp [Statement.tokens, ht])
    have htext : (Statement.branch condition ⟨body, bodySpan⟩ (some ⟨otherwise, elseSpan⟩)
          span).text.toList ++ ';' :: rest =
        condition.text.toList ++ ' ' :: '?' :: ' ' ::
          ((String.intercalate " " (statementTexts body)).toList ++ ' ' :: ':' :: ' ' ::
            ((String.intercalate " " (statementTexts otherwise)).toList ++ ';' :: rest)) := by
      simp [Statement.text]
    rw [htext, Statement.tokens]
    refine (hcondition ' ' _ (by decide)).trans (.space ?_)
    refine .single rfl trivial (.space (hbody.trans (.space ?_)))
    exact .single rfl (Token.apart_space .colon) (.space hotherwise)
  | .loop count ⟨body, bodySpan⟩ span, rest, h => by
    have hcount := count.lexes fun t ht => h t (by simp [Statement.tokens, ht])
    have hbody := lexes_statements body " " lexes_space (';' :: rest) fun t ht =>
      h t (by simp [Statement.tokens, ht])
    have htext : (Statement.loop count ⟨body, bodySpan⟩ span).text.toList ++ ';' :: rest =
        '@' :: (count.text.toList ++ ':' :: ' ' ::
          ((String.intercalate " " (statementTexts body)).toList ++ ';' :: rest)) := by
      simp [Statement.text]
    rw [htext, Statement.tokens]
    refine .single rfl trivial ((hcount ':' _ (by decide)).trans ?_)
    exact .single rfl (Token.apart_space .colon) (.space hbody)

/-- Statements with white space between them. -/
theorem lexes_statements : ∀ (ss : List Statement) (between : String),
    (∀ rest, Lexes (between.toList ++ rest) [] rest) →
    ∀ rest : List Char, (∀ t ∈ statementTokens ss, t.Spelled) →
    Lexes ((String.intercalate between (statementTexts ss)).toList ++ rest)
      (statementTokens ss) rest
  | [], _, _, rest, _ => by
    rw [statementTexts, String.intercalate_nil]
    exact .refl rest
  | [s], _, _, rest, h => by
    have hs := s.lexes rest fun t ht => h t (by simp [statementTokens, ht])
    rw [statementTexts, statementTexts, String.intercalate_singleton, String.toList_append,
      List.append_assoc, statementTokens, statementTokens]
    exact hs.trans (.single rfl trivial (.refl rest))
  | s :: s' :: ss, between, hbetween, rest, h => by
    have hs := fun rest => s.lexes rest fun t ht => h t (by simp [statementTokens, ht])
    have hss := lexes_statements (s' :: ss) between hbetween rest fun t ht =>
      h t (by rw [statementTokens]; simp [ht])
    have htext : (String.intercalate between (statementTexts (s :: s' :: ss))).toList ++ rest =
        s.text.toList ++ ';' :: (between.toList ++
          ((String.intercalate between (statementTexts (s' :: ss))).toList ++ rest)) := by
      simp [statementTexts, String.intercalate_cons_cons]
    rw [htext, statementTokens]
    exact (hs _).trans (.single rfl trivial ((hbetween _).trans hss))
end

theorem Program.lexes (p : Program) (h : ∀ t ∈ p.tokens, t.Spelled) :
    Lexes p.text.toList p.tokens [] := by
  have hnewline (rest : List Char) : Lexes ("\n".toList ++ rest) [] rest := by
    simpa using Lexes.blank rest (show Text.isBlank '\n' = true by decide)
  have hlexes := lexes_statements p.statements "\n" hnewline [] h
  rwa [List.append_nil] at hlexes

theorem comments_eq_nil {ts : List (Located Token)} (h : ∀ t ∈ ts, t.value ≠ .comment) :
    LexResult.comments (ts.map .ok) = [] := by
  rw [LexResult.comments, List.filterMap_eq_nil_iff]
  intro r hr
  obtain ⟨t, ht, rfl⟩ := List.mem_map.1 hr
  rw [← Option.isNone_iff_eq_none, LexResult.isNone_comment?_ok]
  exact decide_eq_true (h t ht)

/-- The text of an accepted program is accepted again, as the same program up to places and without
comments. So printing it a second time changes nothing. -/
theorem parse_text {source : String} {parsed : Parsed} (h : parse source = .ok parsed) :
    ∃ again, parse parsed.program.text = .ok again ∧ again.program.bare = parsed.program.bare ∧
      again.comments = [] ∧ again.program.text = parsed.program.text := by
  obtain ⟨toks, ts, place, hlex, hcode, hread, hgrouped, hfilled⟩ := parse_sound h
  have hspelled : ∀ t ∈ parsed.program.tokens, t.Spelled := by
    rw [← hread.tokens_eq]
    intro t ht
    obtain ⟨t', ht', rfl⟩ := List.mem_map.1 ht
    exact spelled_of_lex hlex hcode t' ht'
  obtain ⟨located, place', htokens, hresults⟩ := (parsed.program.lexes hspelled).results_eq
  have hcomment : ∀ t ∈ located ++ [⟨.endOfFile, place'⟩], t.value ≠ .comment := by
    intro t ht hvalue
    rcases List.mem_append.1 ht with ht | ht
    · have hmem : t.value ∈ parsed.program.tokens := htokens ▸ List.mem_map_of_mem ht
      rw [hvalue] at hmem
      exact hspelled _ hmem
    · rw [List.mem_singleton.1 ht] at hvalue
      cases hvalue
  obtain ⟨a, hbare, hread'⟩ := parsed.program.exists_readFrom htokens
  rcases parse_complete (lex_eq_ok_iff.2 hresults) (codeOf_eq_self hcomment) hread'
    ((Program.grouped_congr hbare).2 hgrouped) with hparse | ⟨hnot, -⟩
  · rw [hresults, comments_eq_nil hcomment] at hparse
    exact ⟨_, hparse, hbare, rfl, Program.text_congr hbare⟩
  · exact absurd ((Program.filled_congr hbare).2 hfilled) hnot

theorem parse_text_adjacent :
    ∃ parsed, parse "x=-.mew**(y---mew)// note\n;x?::x;:@mew.mew:x?::y;;;;" = .ok parsed ∧
      parsed.program.text = "x = -.mew ** (y - --mew);\nx ? ::x; : @mew.mew: x ? ::y;;;;" ∧
      ∃ again, parse "x = -.mew ** (y - --mew);\nx ? ::x; : @mew.mew: x ? ::y;;;;" = .ok again ∧
        again.program.bare = parsed.program.bare ∧ again.comments = [] := by
  have htext : (parse "x=-.mew**(y---mew)// note\n;x?::x;:@mew.mew:x?::y;;;;").map
      (·.program.text) = .ok "x = -.mew ** (y - --mew);\nx ? ::x; : @mew.mew: x ? ::y;;;;" := by
    cbv
  cases hparse : parse "x=-.mew**(y---mew)// note\n;x?::x;:@mew.mew:x?::y;;;;" with
  | error e =>
    rw [hparse] at htext
    cases htext
  | ok parsed =>
    rw [hparse] at htext
    have htext := Except.ok.inj htext
    obtain ⟨again, hagain, hbare, hcomments, -⟩ := parse_text hparse
    exact ⟨parsed, rfl, htext, again, htext ▸ hagain, hbare, hcomments⟩

end CatLang
