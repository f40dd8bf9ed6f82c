import CatLang.Proofs.Causes
import CatLang.Proofs.Joining

/-! Which error a source gets. The lexer reports its first error; the parser reports that one too,
unless the tokens before it already fit no program. -/
namespace CatLang

namespace LexResult

theorem tokens_eq_error_iff {rs : List LexResult} {e : LexError} :
    tokens rs = .error e ↔ rs.findSome? error? = some e := by
  induction rs with
  | nil => simp [tokens]
  | cons r rest ih =>
    cases r with
    | error e' =>
      rw [tokens, List.findSome?_cons, error?]
      simp
    | ok t =>
      rw [tokens, List.findSome?_cons, error?, ← ih]
      cases tokens rest <;> simp [Except.map]

theorem findSome?_code (rs : List LexResult) :
    (code rs).findSome? error? = rs.findSome? error? := by
  induction rs with
  | nil => rfl
  | cons r rest ih =>
    cases hr : r.comment? with
    | none => simp [code, hr, List.findSome?_cons, ← ih]
    | some span =>
      obtain rfl := comment?_eq_some_iff.1 hr
      exact ih

theorem comments_map_ok (toks : List (Located Token)) :
    comments (toks.map .ok) = (toks.filter (·.value = .comment)).map (·.span) := by
  unfold comments
  rw [List.filterMap_map, ← List.filterMap_eq_map, List.filterMap_filter]
  congr 1
  funext t
  obtain ⟨value, span⟩ := t
  cases value <;> rfl

end LexResult

theorem lex_eq_error_iff {source : String} {e : LexError} :
    lex source = .error e ↔ (results source).findSome? LexResult.error? = some e :=
  LexResult.tokens_eq_error_iff

namespace Parser
open LexResult (code)
variable {source : String} {q : Parser} {e : ParseError} {ts : List (Located Token)}

/-- The first lexical error that the window has met is the first of the source. -/
theorem Passes.lex_of_errors {error : LexError} {rest : List LexError}
    (h : Passes (ofResults (results source)) ts q) (herrors : q.errors = error :: rest) :
    lex source = .error error := by
  obtain ⟨hat, -⟩ := h.at_after (at_ofResults (results source))
  -- The errors of the window come from a prefix of the results.
  rw [lex_eq_error_iff, ← LexResult.findSome?_code]
  apply (List.take_prefix (0 + ts.length + 2) (code (results source))).findSome?_eq_some
  rw [← List.head?_filterMap, ← hat.errors, herrors]
  rfl

/-- A source fails with its first lexical error, or where the window has met none. -/
theorem parse_eq_error_cases (h : CatLang.parse source = .error e) :
    (∃ error, lex source = .error error ∧ e = .ofLexError error) ∨
      ∃ q, program (ofResults (results source)) = .error e q ∧ q.errors = [] := by
  rw [parse_eq] at h
  unfold parseResults Parser.parse at h
  cases hp : program (ofResults (results source)) with
  | ok a q =>
    obtain ⟨ts, place, hpasses, -⟩ := program_sound hp rfl
    cases herrors : q.errors with
    | nil => simp [hp, herrors, answerOf] at h
    | cons error rest =>
      simp only [hp, herrors, answerOf, Except.error.injEq] at h
      exact .inl ⟨error, hpasses.lex_of_errors herrors, h.symm⟩
  | error failure q =>
    obtain ⟨ts, hfails⟩ := program_fails hp
    cases herrors : q.errors with
    | nil =>
      simp only [hp, herrors, answerOf, Except.error.injEq] at h
      exact .inr ⟨q, by rw [h], herrors⟩
    | cons error rest =>
      simp only [hp, herrors, answerOf, Except.error.injEq] at h
      exact .inl ⟨error, hfails.passes.lex_of_errors herrors, h.symm⟩

/-- Without a lexical error the parser gave up at a token. -/
theorem exists_token_of_error (h : program (ofResults (results source)) = .error e q)
    (herrors : q.errors = []) :
    ∃ ts t after, code (results source) = ts.map .ok ++ .ok t :: after ∧ q.current = some t ∧
      e.Blames ts t := by
  obtain ⟨ts, hpasses, ⟨rest, hne, hrest⟩, hblames⟩ := program_fails h
  obtain ⟨t, after, hcode, hcurrent⟩ :=
    hpasses.exists_current (hrest.plain_of_append hne) herrors
  exact ⟨ts, t, after, hcode, hcurrent, hblames t hcurrent⟩

theorem cause_of_error (h : program (ofResults (results source)) = .error e q)
    (herrors : q.errors = []) :
    e.cause ∈ ParseCause.insideStatement ∨ ∃ t, BreaksLoop (ofResults (results source)) e q t := by
  obtain ⟨ts, t, after, -, hcurrent, -⟩ := exists_token_of_error h herrors
  rcases program_eq_error h with hnone | hcause
  · rw [hcurrent] at hnone
    cases hnone
  · exact hcause

end Parser

/-- A source fails for a lexical error, for something wrong inside a statement, or for a token that
cannot start a statement where the program should end or go on. -/
theorem parse_error_causes {source : String} {e : ParseError} (h : parse source = .error e) :
    e.cause ≠ .unexpectedEnd ∧ e.cause ≠ .expectedName ∧ e.cause ≠ .expectedOperator ∧
      ((∃ error, e = .ofLexError error) ∨ e.cause ∈ ParseCause.insideStatement ∨
        ∃ q t, Parser.program (Parser.ofResults (results source)) = .error e q ∧
          Parser.BreaksLoop (Parser.ofResults (results source)) e q t) := by
  rcases Parser.parse_eq_error_cases h with ⟨error, -, rfl⟩ | ⟨q, hprogram, herrors⟩
  · exact ⟨nofun, nofun, nofun, .inl ⟨error, rfl⟩⟩
  rcases Parser.cause_of_error hprogram herrors with hcause | ⟨t, hbreaks⟩
  · refine ⟨?_, ?_, ?_, .inr (.inl hcause)⟩ <;>
    · intro heq
      rw [heq] at hcause
      exact absurd hcause (by decide)
  · refine ⟨?_, ?_, ?_, .inr (.inr ⟨q, t, hprogram, hbreaks⟩)⟩ <;>
    · rw [hbreaks.error]
      nofun

theorem parse_error_causes_unmatched_paren :
    ∃ e, parse "::mew; x ? ::mew;; )" = .error e ∧
      e = ⟨.unexpectedToken .rightParen
        ["`::` to print", "`@` to repeat", "an assignment", "a condition"], 19, 20⟩ ∧
      ∃ q t, Parser.program (Parser.ofResults (results "::mew; x ? ::mew;; )")) = .error e q ∧
        Parser.BreaksLoop (Parser.ofResults (results "::mew; x ? ::mew;; )")) e q t := by
  have hparse : parse "::mew; x ? ::mew;; )" = .error ⟨.unexpectedToken .rightParen
      ["`::` to print", "`@` to repeat", "an assignment", "a condition"], 19, 20⟩ := by cbv
  obtain ⟨-, -, -, ⟨error, herror⟩ | hcause | hbreaks⟩ := parse_error_causes hparse
  · cases herror
  · exact absurd hcause (by decide)
  · exact ⟨_, hparse, rfl, hbreaks⟩

theorem ParseError.Blames.stop_le {e : ParseError} {ts : List (Located Token)} {t : Located Token}
    (h : e.Blames ts t) (hstop : ∀ s ∈ ts, s.span.stop ≤ t.span.stop) :
    e.span.stop ≤ t.span.stop := by
  cases h with
  | semicolon hlast => exact hstop _ (List.mem_of_getLast? hlast)
  | expression hsub =>
    exact Nat.le_of_eq (Span.withSigns_spec fun s hs => hstop s (hsub.subset hs)).1
  | token => exact Nat.le_refl _

namespace Parser
variable {source : String} {q : Parser} {e : ParseError} {error : LexError}

/-- Where the window has met no lexical error, there is none before the end of the error. -/
theorem stop_le_of_error (hsize : source.utf8ByteSize < 4294967296)
    (h : program (ofResults (results source)) = .error e q)
    (herrors : q.errors = []) (hlex : lex source = .error error) :
    e.span.stop ≤ error.span.start := by
  obtain ⟨ts, t, after, hcode, -, hblames⟩ := exists_token_of_error h herrors
  obtain ⟨horder, hspans⟩ := results_inOrder hsize
  have hsublist : (LexResult.code (results source)).Sublist (results source) := List.filter_sublist
  rw [hcode] at hsublist
  obtain ⟨-, hafter, hbefore⟩ := List.pairwise_append.1 (horder.sublist hsublist)
  have ht : t.span.start ≤ t.span.stop := by
    rcases hspans (.ok t) (hsublist.subset (by simp)) with hlt | hend
    · exact Nat.le_of_lt hlt
    · cases hend
      exact Nat.le_refl _
  have hstop : e.span.stop ≤ t.span.stop := by
    apply hblames.stop_le
    intro s hs
    exact Nat.le_trans (hbefore (.ok s) (List.mem_map_of_mem hs) (.ok t) (by simp)) ht
  -- The tokens up to `t` are no errors, so the error of the lexer stands behind them.
  have herror : .error error ∈ after := by
    rw [lex_eq_error_iff, ← LexResult.findSome?_code, hcode] at hlex
    obtain ⟨r, hr, hre⟩ := List.exists_of_findSome?_eq_some hlex
    cases r with
    | ok t => cases hre
    | error _ =>
      cases hre
      simpa using hr
  exact Nat.le_trans hstop ((List.pairwise_cons.1 hafter).1 (.error error) herror)

/-- A cause that fits neither inside a statement nor where one should start is never given. -/
theorem cause_ne_of_error {cause : ParseCause}
    (h : program (ofResults (results source)) = .error e q) (herrors : q.errors = [])
    (hinside : cause ∉ ParseCause.insideStatement)
    (hloop : ∀ found expected, cause ≠ .unexpectedToken found expected) : e.cause ≠ cause := by
  rintro rfl
  rcases cause_of_error h herrors with hcause | ⟨t, hbreaks⟩
  · exact hinside hcause
  · apply hloop
    rw [hbreaks.error]

theorem not_lexical_of_error (h : program (ofResults (results source)) = .error e q)
    (herrors : q.errors = []) (error : LexError) : e.cause ≠ .lexical error := by
  apply cause_ne_of_error h herrors
  · simp [ParseCause.insideStatement]
  · intro found expected heq
    cases heq

end Parser

/-- Lexer and parser agree about lexical errors. In less than 2 ^ 32 bytes, what the parser reports
instead of one ends before it. -/
theorem parse_agrees_with_lex (source : String) :
    (∀ parsed, parse source = .ok parsed → ∃ toks, lex source = .ok toks ∧
      parsed.comments = (toks.filter (·.value = .comment)).map (·.span)) ∧
    (∀ error span, parse source = .error ⟨.lexical error, span⟩ →
      lex source = .error error ∧ span = error.span ∧
        (results source).findSome? LexResult.error? = some error) ∧
    ∀ error, lex source = .error error →
      parse source = .error (.ofLexError error) ∨
        ∃ failure, parse source = .error failure ∧ (∀ e, failure.cause ≠ .lexical e) ∧
          (source.utf8ByteSize < 4294967296 → failure.span.stop ≤ error.span.start) := by
  refine ⟨?_, ?_, ?_⟩
  · intro parsed h
    obtain ⟨toks, -, -, hlex, -⟩ := parse_sound h
    refine ⟨toks, hlex, ?_⟩
    rw [comments_of_parse h, lex_eq_ok_iff.1 hlex, LexResult.comments_map_ok]
  · intro error span h
    rcases Parser.parse_eq_error_cases h with ⟨first, hlex, heq⟩ | ⟨q, hprogram, herrors⟩
    · cases heq
      exact ⟨hlex, rfl, lex_eq_error_iff.1 hlex⟩
    · exact absurd rfl (Parser.not_lexical_of_error hprogram herrors error)
  · intro error hlex
    cases hparse : parse source with
    | ok parsed =>
      obtain ⟨toks, -, -, hok, -⟩ := parse_sound hparse
      rw [hlex] at hok
      cases hok
    | error failure =>
      rcases Parser.parse_eq_error_cases hparse with ⟨first, hfirst, rfl⟩ | ⟨q, hprogram, herrors⟩
      · rw [hlex] at hfirst
        cases hfirst
        exact .inl rfl
      · exact .inr ⟨failure, rfl, Parser.not_lexical_of_error hprogram herrors,
          fun hsize => Parser.stop_le_of_error hsize hprogram herrors hlex⟩

/-- The digit is an error of its own, but the parser gives up before the window comes to it. If the
digit is the next token, the lexical error wins. -/
theorem parse_agrees_with_lex_digit :
    ∃ failure error, parse ") x y = 8;" = .error failure ∧
      lex ") x y = 8;" = .error error ∧ error = ⟨.digit '8', 8, 9⟩ ∧
      (∀ e, failure.cause ≠ .lexical e) ∧ failure.span.stop ≤ error.span.start ∧
      parse ") 8" = .error ⟨.lexical ⟨.digit '8', 2, 3⟩, 2, 3⟩ ∧
      lex ") 8" = .error ⟨.digit '8', 2, 3⟩ := by
  have hparse : ∃ span, parse ") x y = 8;" =
      .error ⟨.unexpectedToken .rightParen Parser.statementForms, span⟩ := ⟨_, by cbv⟩
  have hlex : lex ") x y = 8;" = .error ⟨.digit '8', 8, 9⟩ := by cbv
  have hnext : parse ") 8" = .error ⟨.lexical ⟨.digit '8', 2, 3⟩, 2, 3⟩ := by cbv
  obtain ⟨span, hparse⟩ := hparse
  rcases (parse_agrees_with_lex _).2.2 _ hlex with hlexical | ⟨failure, hfailure, hcause, hstop⟩
  · rw [hparse] at hlexical
    cases hlexical
  · exact ⟨failure, _, hfailure, hlex, rfl, hcause, hstop (by cbv), hnext,
      ((parse_agrees_with_lex _).2.1 _ _ hnext).1⟩

/-- Where offsets start again between a token that fits nowhere and a digit, the parser reports the
one, which seems to stand behind the other. -/
theorem parse_error_before_wrapped_digit :
    ∃ error failure, lex (Text.indented 4294967290 ") x y = 8;") = .error error ∧
      parse (Text.indented 4294967290 ") x y = 8;") = .error failure ∧
      (∀ e, failure.cause ≠ .lexical e) ∧ ¬ failure.span.stop ≤ error.span.start := by
  have hresults : results (Text.indented 4294967290 ") x y = 8;") =
      [.ok ⟨.rightParen, 4294967290, 4294967291⟩, .ok ⟨.name "x", 4294967292, 4294967293⟩,
        .ok ⟨.name "y", 4294967294, 4294967295⟩, .ok ⟨.assign, 0, 1⟩, .error ⟨.digit '8', 2, 3⟩,
        .ok ⟨.semicolon, 3, 4⟩, .ok ⟨.endOfFile, 4, 4⟩] := by
    rw [results_indented]
    cbv
  refine ⟨⟨.digit '8', 2, 3⟩,
    ⟨.unexpectedToken .rightParen Parser.statementForms, 4294967290, 4294967291⟩, ?_, ?_, ?_,
    by decide⟩
  · rw [lex, hresults]
    rfl
  · rw [parse_eq, hresults]
    cbv
  · intro e heq
    cases heq

end CatLang
