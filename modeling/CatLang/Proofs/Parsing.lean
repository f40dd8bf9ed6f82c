import Mathlib
import CatLang.Proofs.OnDemand
import CatLang.Proofs.Statements

/-! From a source to its program. A program that is accepted was read from the source's tokens
(`parse_sound`), and tokens that read like a grouped program are accepted as that program
(`parse_complete`). -/
namespace CatLang

/-- The tokens that are no comments. -/
def codeOf (ts : List (Located Token)) : List (Located Token) := ts.filter (·.value ≠ .comment)

theorem codeOf_eq_self {ts : List (Located Token)} (h : ∀ t ∈ ts, t.value ≠ .comment) :
    codeOf ts = ts := by
  simpa [codeOf, List.filter_eq_self] using h

/-- The same tokens without their places. -/
def codeTokens (ts : List (Located Token)) : List Token := (codeOf ts).map (·.value)

namespace LexResult

theorem isNone_comment?_ok (t : Located Token) :
    (comment? (.ok t)).isNone = decide (t.value ≠ .comment) := by
  obtain ⟨value, span⟩ := t
  cases value <;> rfl

theorem code_map_ok (ts : List (Located Token)) : code (ts.map .ok) = (codeOf ts).map .ok := by
  rw [code, codeOf, List.filter_map]
  congr 2
  funext t
  exact isNone_comment?_ok t

/-- A comment is no error, so it is enough that the rest holds none. -/
theorem exists_eq_map_ok {rs : List LexResult} (h : ∀ r ∈ code rs, ∃ t, r = .ok t) :
    ∃ ts : List (Located Token), rs = ts.map .ok := by
  induction rs with
  | nil => exact ⟨[], rfl⟩
  | cons r rs ih =>
    have hr : ∃ t, r = .ok t := by
      cases hc : r.comment? with
      | none => exact h r (by simp [code, hc])
      | some span => exact ⟨_, comment?_eq_some_iff.1 hc⟩
    obtain ⟨t, rfl⟩ := hr
    obtain ⟨ts, rfl⟩ := ih fun r hr => h r (by
      rw [code, List.mem_filter] at hr ⊢
      exact ⟨List.mem_cons_of_mem _ hr.1, hr.2⟩)
    exact ⟨t :: ts, rfl⟩

theorem code_append (rs rs' : List LexResult) : code (rs ++ rs') = code rs ++ code rs' :=
  List.filter_append ..

end LexResult

namespace Parser
open LexResult (code)

theorem At.getElem?_of_current {results : List LexResult} {n : Nat} {p : Parser}
    {t : Located Token} (h : At results n p) (hc : p.current = some t) :
    (code results)[n]? = some (.ok t) := by
  obtain ⟨r, hr, ht⟩ := Option.bind_eq_some_iff.1 (h.current.symm.trans hc)
  cases r with
  | error e => cases ht
  | ok t' =>
    cases ht
    exact hr

theorem parse_eq_ok {p q : Parser} {parsed : Parsed} :
    parse p = .ok parsed q ↔ ∃ r, program p = .ok parsed.program r ∧ r.errors = [] ∧
      parsed.comments = r.comments ∧ q = { r with comments := [] } := by
  obtain ⟨a, comments⟩ := parsed
  unfold parse
  cases program p with
  | error e r => cases he : r.errors <;> simp [he]
  | ok a' r =>
    constructor
    · intro h
      cases he : r.errors with
      | nil =>
        simp only [he] at h
        cases h
        exact ⟨r, rfl, he, rfl, by rw [he]⟩
      | cons e es =>
        simp only [he] at h
        cases h
    · rintro ⟨_, ⟨⟩, he, ⟨⟩, rfl⟩
      simp only [he]

/-- A window that has the end of file behind it has nothing ahead. -/
theorem At.rest_eq_nil {source : String} {n : Nat} {p : Parser} (h : At (results source) n p)
    (hcode : code p.rest = []) : p.rest = [] := by
  obtain ⟨init, place, hrs, -⟩ := results_eq source
  have hsuffix := h.suffix
  rw [hrs, List.suffix_concat_iff] at hsuffix
  rcases hsuffix with hnil | ⟨front, hfront, -⟩
  · exact hnil
  · rw [hfront, LexResult.code_append] at hcode
    cases List.append_eq_nil_iff.1 hcode |>.2

end Parser

section Results
open CatLang.Parser
open LexResult (code)
variable {rs : List LexResult} {source : String} {a : Program} {ts : List (Located Token)}

theorem parseResults_eq_ok {parsed : Parsed} :
    parseResults rs = .ok parsed ↔ ∃ q, Parser.program (ofResults rs) = .ok parsed.program q ∧
      q.errors = [] ∧ parsed.comments = q.comments := by
  have hparse : parseResults rs = .ok parsed ↔
      ∃ q, Parser.parse (ofResults rs) = .ok parsed q := by
    unfold parseResults
    cases Parser.parse (ofResults rs) <;> simp [answerOf]
  rw [hparse]
  constructor
  · rintro ⟨q, h⟩
    obtain ⟨r, hprogram, herrors, hcomments, -⟩ := parse_eq_ok.1 h
    exact ⟨r, hprogram, herrors, hcomments⟩
  · rintro ⟨r, hprogram, herrors, hcomments⟩
    exact ⟨_, parse_eq_ok.2 ⟨r, hprogram, herrors, hcomments, rfl⟩⟩

theorem parse_eq_ok_iff {parsed : Parsed} :
    parse source = .ok parsed ↔ ∃ q, Parser.program (ofResults (results source)) =
      .ok parsed.program q ∧ q.errors = [] ∧ parsed.comments = q.comments := by
  rw [parse_eq, parseResults_eq_ok]

theorem parseResults_eq_error {e : ParseError} {q : Parser}
    (h : Parser.program (ofResults rs) = .error e q) : ∃ e', parseResults rs = .error e' := by
  unfold parseResults Parser.parse
  cases he : q.errors <;> simp [h, he, answerOf]

/-- The end of file is the last of the tokens and no other. -/
theorem code_results (source : String) :
    ∃ init place, code (results source) = init ++ [.ok ⟨.endOfFile, place⟩] ∧
      ∀ t, .ok t ∈ init → t.value.Spelled := by
  obtain ⟨init, place, hrs, hinit⟩ := results_eq source
  refine ⟨code init, place, by rw [hrs, LexResult.code_append]; rfl, fun t ht => ?_⟩
  rw [code, List.mem_filter, LexResult.isNone_comment?_ok, decide_eq_true_eq] at ht
  exact (hinit t ht.1).resolve_left ht.2

theorem spelled_of_lex {toks : List (Located Token)} {place : Span} (hlex : lex source = .ok toks)
    (hcode : codeOf toks = ts ++ [⟨.endOfFile, place⟩]) : ∀ t ∈ ts, t.value.Spelled := by
  obtain ⟨init, place', hresults, hinit⟩ := code_results source
  rw [lex_eq_ok_iff.1 hlex, LexResult.code_map_ok, hcode, List.map_append] at hresults
  intro t ht
  apply hinit
  rw [← (List.append_inj' hresults rfl).1]
  exact List.mem_map_of_mem ht

/-- An accepted program is grouped, has no empty block, and was read from the tokens of its source
up to the end of file. -/
theorem parse_sound {parsed : Parsed} (h : parse source = .ok parsed) :
    ∃ toks ts place, lex source = .ok toks ∧ codeOf toks = ts ++ [⟨.endOfFile, place⟩] ∧
      parsed.program.ReadFrom ts ∧ parsed.program.Grouped ∧ parsed.program.Filled := by
  obtain ⟨q, hprogram, -, -⟩ := parse_eq_ok_iff.1 h
  obtain ⟨ts, place, hpasses, hcurrent, hread, hgrouped, hfilled⟩ := program_sound hprogram rfl
  obtain ⟨hat, hts⟩ := hpasses.at_after (at_ofResults (results source))
  rw [Nat.zero_add, List.drop_zero] at hts
  rw [Nat.zero_add] at hat
  have hend := hat.getElem?_of_current hcurrent
  obtain ⟨init, place', hcode, hinit⟩ := code_results source
  -- The end of file the parser stopped at is the last result, since there is no other.
  have hlength : ts.length = init.length := by
    have hlt := (List.getElem?_eq_some_iff.1 hend).1
    rw [hcode, List.length_append, List.length_singleton] at hlt
    refine Nat.le_antisymm (Nat.le_of_lt_succ hlt) (Nat.le_of_not_lt fun hlt => ?_)
    rw [hcode, List.getElem?_append_left hlt] at hend
    exact hinit _ (List.mem_of_getElem? hend)
  have hinit : ts.map .ok = init :=
    (List.append_inj (hts.symm.trans hcode) (by rwa [List.length_map])).1
  rw [← hinit] at hcode
  have hok : ∀ r ∈ code (results source), ∃ t, r = .ok t := by
    intro r hr
    rw [hcode, ← List.map_singleton, ← List.map_append, List.mem_map] at hr
    obtain ⟨t, -, rfl⟩ := hr
    exact ⟨t, rfl⟩
  obtain ⟨toks, htoks⟩ := LexResult.exists_eq_map_ok hok
  refine ⟨toks, ts, place', lex_eq_ok_iff.2 htoks, ?_, hread, hgrouped, hfilled⟩
  rw [htoks, LexResult.code_map_ok, ← List.map_singleton, ← List.map_append] at hcode
  exact (List.map_inj_right fun _ _ => Except.ok.inj).1 hcode

/-- Tokens that read like a grouped program are accepted as that program, unless it has an empty
block. -/
theorem parse_complete {toks : List (Located Token)} {place : Span} (hlex : lex source = .ok toks)
    (hcode : codeOf toks = ts ++ [⟨.endOfFile, place⟩]) (ha : a.ReadFrom ts) (hg : a.Grouped) :
    parse source = .ok ⟨a, LexResult.comments (results source)⟩ ∨
      ¬ a.Filled ∧ ∃ e, parse source = .error e := by
  rw [parse_eq]
  have hresults := lex_eq_ok_iff.1 hlex
  have hcode : code (results source) = ts.map .ok ++ [.ok ⟨.endOfFile, place⟩] := by
    rw [hresults, LexResult.code_map_ok, hcode, List.map_append, List.map_singleton]
  obtain ⟨q, hpasses, hat⟩ := Passes.exists_of_at (at_ofResults (results source)) hcode
  rw [Nat.zero_add] at hat
  have hcurrent : q.current = some ⟨.endOfFile, place⟩ := by
    rw [hat.current, hcode, List.getElem?_append_right (by simp)]
    simp [LexResult.token?]
  have herrors : q.errors = [] := by
    rw [hat.errors, List.filterMap_eq_nil_iff, hcode, ← List.map_singleton, ← List.map_append]
    intro r hr
    obtain ⟨t, -, rfl⟩ := List.mem_map.1 (List.mem_of_mem_take hr)
    rfl
  have hrest : code q.rest = [] := by
    rw [hat.rest, hcode, List.drop_eq_nil_iff]
    simp
  have hcomments := hat.comments
  rw [hat.rest_eq_nil hrest, LexResult.comments, List.filterMap_nil, List.append_nil] at hcomments
  rcases program_complete ha hg hpasses hcurrent rfl with h | ⟨hnot, e, r, h⟩
  · exact .inl (parseResults_eq_ok.2 ⟨q, h, herrors, hcomments.symm⟩)
  · exact .inr ⟨hnot, parseResults_eq_error h⟩

/-- An accepted program is the one grouped reading of its source: it reads like the source's
tokens, its operators are grouped by precedence, and no other program does both. -/
theorem parse_unique_reading {parsed : Parsed} (h : parse source = .ok parsed) :
    ∃ toks, lex source = .ok toks ∧
      codeTokens toks = parsed.program.tokens ++ [.endOfFile] ∧ parsed.program.Grouped ∧
      ∀ b : Program, codeTokens toks = b.tokens ++ [.endOfFile] → b.Grouped →
        b.bare = parsed.program.bare := by
  obtain ⟨toks, ts, place, hlex, hcode, hread, hgrouped, -⟩ := parse_sound h
  have htokens : codeTokens toks = ts.map (·.value) ++ [.endOfFile] := by
    rw [codeTokens, hcode, List.map_append, List.map_singleton]
  refine ⟨toks, hlex, by rw [htokens, hread.tokens_eq], hgrouped, ?_⟩
  intro b hb hbg
  rw [htokens] at hb
  obtain ⟨b', hbare, hread'⟩ := b.exists_readFrom (List.append_cancel_right hb)
  have hg' : b'.Grouped := (Program.grouped_congr hbare).2 hbg
  rcases parse_complete hlex hcode hread' hg' with h' | ⟨-, e, h'⟩
  · rw [h] at h'
    cases h'
    exact hbare.symm
  · rw [h] at h'
    cases h'

theorem parse_unique_reading_powers :
    ∃ parsed toks, parse "x = a ** -b ** c * d;" = .ok parsed ∧
      parsed.program.bare.statements =
        [.assign ⟨"x", .point 0⟩
          (.binary
            (.binary (.name "a" (.point 0)) .power
              (.unary .negate
                (.binary (.name "b" (.point 0)) .power (.name "c" (.point 0)) (.point 0))
                (.point 0))
              (.point 0))
            .multiply (.name "d" (.point 0)) (.point 0))
          (.point 0)] ∧
      lex "x = a ** -b ** c * d;" = .ok toks ∧
      codeTokens toks =
        [.name "x", .assign, .name "a", .power, .minus, .name "b", .power, .name "c", .star,
          .name "d", .semicolon, .endOfFile] ∧
      parsed.program.Grouped ∧
      ∀ b : Program, codeTokens toks = b.tokens ++ [.endOfFile] → b.Grouped →
        b.bare = parsed.program.bare := by
  have hparse : parse "x = a ** -b ** c * d;" = .ok
      ⟨⟨[.assign ⟨"x", 0, 1⟩
          (.binary
            (.binary (.name "a" ⟨4, 5⟩) .power
              (.unary .negate
                (.binary (.name "b" ⟨10, 11⟩) .power (.name "c" ⟨15, 16⟩) ⟨10, 16⟩) ⟨9, 16⟩)
              ⟨4, 16⟩)
            .multiply (.name "d" ⟨19, 20⟩) ⟨4, 20⟩)
          ⟨0, 20⟩], 0, 21⟩, []⟩ := by
    cbv
  obtain ⟨toks, hlex, htokens, hgrouped, hunique⟩ := parse_unique_reading hparse
  exact ⟨_, toks, hparse, rfl, hlex, htokens, hgrouped, hunique⟩

end Results

end CatLang
