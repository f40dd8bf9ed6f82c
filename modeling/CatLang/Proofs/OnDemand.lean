import CatLang.Proofs.Simulation
import CatLang.Proofs.Traced

/-! Parsing on demand. The parser asks the lexer for a result whenever its window moves on, and it
never moves past the end of file. So it does the same as if it were given all the results up to
there (`Settles.parse_start`), if the lexer stays where it is once its source has ended. -/
namespace CatLang

/-- What the parser makes of results that are all there. -/
def parseResults (results : List LexResult) : Except ParseError Parsed :=
  answerOf (Parser.parse (Parser.ofResults results))

namespace Lexer
variable {σ : Type} [CharSource σ] {l : Lexer σ} {I : Lexer σ → Prop}

theorem length_readings_le (l : Lexer σ) : l.readings.length ≤ l.left + 1 := by
  fun_induction readings l with
  | case1 l hnone => exact Nat.succ_le_succ (Nat.zero_le _)
  | case2 l hmore ih =>
    have hlt : l.next.2.left < l.left :=
      Nat.lt_of_lt_of_le (left_read_lt hmore) (left_skip_le l Text.isBlank)
    rw [List.length_cons]
    omega

/-- A lexer of this kind stays where it is when it has come to the end of its source. -/
structure Settles (I : Lexer σ → Prop) : Prop where
  step (l : Lexer σ) (h : I l) : I l.step
  stay {l : Lexer σ} (h : I l) (hc : l.ch = none) : l.step = l

/-- The lexers of texts. -/
def IsText (l : Lexer (List (Nat × Char))) : Prop := ∃ o text, l = onText o text

theorem settles_isText : Settles IsText where
  step := by
    rintro l ⟨o, _ | ⟨c, text⟩, rfl⟩
    · exact ⟨o, [], step_onText_nil o⟩
    · exact ⟨_, text, step_onText o text c⟩
  stay := by
    rintro l ⟨o, _ | ⟨c, text⟩, rfl⟩ hc
    · exact step_onText_nil o
    · cases hc

theorem isText_ofString (source : String) : IsText (ofString source) :=
  ⟨0, source.toList, ofString_eq_onText source⟩

theorem Settles.next_of_none (hs : Settles I) (h : I l) (hc : (l.skip Text.isBlank).ch = none) :
    ∃ place, l.next = (.ok ⟨.endOfFile, place⟩, l.skip Text.isBlank) := by
  have hstay := hs.stay (next_of_step hs.step h).1 hc
  rw [next, read, hc]
  exact ⟨_, congrArg (Prod.mk _) hstay⟩

end Lexer

namespace Parser
open ParserOn (pull)
open Lexer (Settles)
variable {σ : Type} [CharSource σ] {l : Lexer σ} {I : Lexer σ → Prop}

/-- The same is pulled out of a lexer as out of its results. Behind the end of file the lexer has
come to the end of its source. -/
structure PullsAlike (I : Lexer σ → Prop) (x : Pulled (Lexer σ)) (y : Pulled (List LexResult)) :
    Prop where
  comments : x.comments = y.comments
  result : x.result = y.result
  kept : I x.rest
  rest : y.rest = x.rest.readings.map (·.1) ∨
    y.rest = [] ∧ x.rest.ch = none ∧ ∃ place, y.result = some (.ok ⟨.endOfFile, place⟩)

theorem pull_readings (hs : Settles I) (h : I l) :
    PullsAlike I (pull l) (pull (l.readings.map (·.1))) := by
  fun_induction Lexer.readings l with
  | case1 l hnone =>
    obtain ⟨place, hnext⟩ := hs.next_of_none h hnone
    have hpull : pull l = ⟨[], some (.ok ⟨.endOfFile, place⟩), l.skip Text.isBlank⟩ := by
      have hfirst : TokenSource.next l = (some l.next.1, l.next.2) := rfl
      rw [pull_of_code] <;> rw [hfirst, hnext]
      intro span heq
      cases heq
    rw [hpull, List.map_singleton, hnext, pull_code rfl]
    exact ⟨rfl, rfl, (Lexer.next_of_step hs.step h).1, .inr ⟨rfl, hnone, place, rfl⟩⟩
  | case2 l hmore ih =>
    have ih := ih (Lexer.next_of_step hs.step h).2
    rw [List.map_cons]
    cases hr : l.next.1.comment? with
    | none =>
      have hpull : pull l = ⟨[], some l.next.1, l.next.2⟩ := by
        refine pull_of_code fun span hcomment => ?_
        rw [LexResult.comment?_eq_some_iff.2 (Option.some.inj hcomment)] at hr
        cases hr
      rw [hpull, pull_code hr]
      exact ⟨rfl, rfl, (Lexer.next_of_step hs.step h).2, .inl rfl⟩
    | some span =>
      have hcomment := LexResult.comment?_eq_some_iff.1 hr
      have hpull : pull l = ⟨span :: (pull l.next.2).comments, (pull l.next.2).result,
          (pull l.next.2).rest⟩ := pull_of_comment (congrArg some hcomment)
      rw [hpull, hcomment, pull_comment]
      exact ⟨congrArg (span :: ·) ih.comments, ih.result, ih.kept, ih.rest⟩

/-- The parser `p` that asks a lexer stands where the parser `q` stands that has all the results.
When the end of file has come into the window, nothing is left to ask for. -/
structure Asks (I : Lexer σ → Prop) (q : Parser) (p : ParserOn (Lexer σ)) : Prop where
  current : p.current = q.current
  lastEnd : p.lastEnd = q.lastEnd
  comments : p.comments = q.comments
  errors : p.errors = q.errors
  kept : I p.rest
  ahead : (p.next = q.next ∧ q.rest = p.rest.readings.map (·.1)) ∨
    (p.next = q.next ∧ q.rest = [] ∧ p.rest.ch = none ∧
      ∃ place, q.next = some ⟨.endOfFile, place⟩) ∨
    (q.next = none ∧ q.rest = [] ∧ ∃ place, q.current = some ⟨.endOfFile, place⟩)

namespace Asks
variable {q : Parser} {p : ParserOn (Lexer σ)}

theorem agrees (h : Asks I q p) : q.toWindow.Agrees p.toWindow := by
  refine ⟨h.current, h.lastEnd, ?_⟩
  have hcurrent := h.current
  rcases h.ahead with ⟨hnext, -⟩ | ⟨hnext, -⟩ | ⟨-, -, place, hend⟩
  · rw [Window.atAssignment, Window.atAssignment, hcurrent, hnext]
  · rw [Window.atAssignment, Window.atAssignment, hcurrent, hnext]
  · rw [Window.atAssignment, Window.atAssignment, hcurrent, hend]

theorem step (hs : Settles I) (h : Asks I q p)
    (hend : ∀ place, q.current ≠ some ⟨.endOfFile, place⟩) : Asks I q.step p.step := by
  have hlast : p.step.lastEnd = q.step.lastEnd := by
    simp only [ParserOn.step, h.current, h.lastEnd]
  rcases h.ahead with ⟨hnext, hrest⟩ | ⟨hnext, hrest, hdone, place, heof⟩ | ⟨-, -, place, heof⟩
  · have hpull := pull_readings hs h.kept
    rw [← hrest] at hpull
    have htoken : (pull p.rest).token? = (pull q.rest).token? := by
      rw [Pulled.token?, Pulled.token?, hpull.result]
    have herror : (pull p.rest).error? = (pull q.rest).error? := by
      rw [Pulled.error?, Pulled.error?, hpull.result]
    refine ⟨hnext, hlast, ?_, ?_, hpull.kept, ?_⟩
    · show p.comments ++ (pull p.rest).comments = q.comments ++ (pull q.rest).comments
      rw [h.comments, hpull.comments]
    · show p.errors ++ (pull p.rest).error?.toList = q.errors ++ (pull q.rest).error?.toList
      rw [h.errors, herror]
    · rcases hpull.rest with hmore | ⟨hnil, hdone, place, hresult⟩
      · exact .inl ⟨htoken, hmore⟩
      · refine .inr (.inl ⟨htoken, hnil, hdone, place, ?_⟩)
        show (pull q.rest).token? = _
        rw [Pulled.token?, hresult]
  · -- The end of file becomes current, and the lexer gives it once more.
    have hskip : p.rest.skip Text.isBlank = p.rest := by
      rw [Lexer.skip, Lexer.scan_of_none hdone]
    obtain ⟨place', hread⟩ := hs.next_of_none h.kept (by rwa [hskip])
    have hpull : pull p.rest = ⟨[], some (.ok ⟨.endOfFile, place'⟩), p.rest⟩ := by
      have hfirst : TokenSource.next p.rest = (some p.rest.next.1, p.rest.next.2) := rfl
      rw [pull_of_code] <;> rw [hfirst, hread]
      · rw [hskip]
      · intro span heq
        cases heq
    have hnil : pull q.rest = ⟨[], none, []⟩ := by rw [hrest, pull_nil]
    refine ⟨hnext, hlast, ?_, ?_, ?_, .inr (.inr ⟨?_, ?_, place, heof⟩)⟩
    · show p.comments ++ (pull p.rest).comments = q.comments ++ (pull q.rest).comments
      rw [hpull, hnil, h.comments]
    · show p.errors ++ (pull p.rest).error?.toList = q.errors ++ (pull q.rest).error?.toList
      rw [hpull, hnil, h.errors]
      rfl
    · show I (pull p.rest).rest
      rw [hpull]
      exact h.kept
    · show (pull q.rest).token? = none
      rw [hnil]
      rfl
    · show (pull q.rest).rest = []
      rw [hnil]
  · exact absurd heof (hend place)

theorem start (hs : Settles I) (h : I l) :
    Asks I (ofResults (l.readings.map (·.1))) (.start l) := by
  have hempty : Asks I ⟨⟨none, none, 0⟩, [], [], l.readings.map (·.1)⟩
      ⟨⟨none, none, 0⟩, [], [], l⟩ :=
    ⟨rfl, rfl, rfl, rfl, h, .inl ⟨rfl, rfl⟩⟩
  exact (hempty.step hs (by exact nofun)).step hs (by exact nofun)

theorem ahead_le_fuel (h : Asks I q p) : 4 * q.ahead + 5 ≤ p.fuel := by
  have hfuel : p.fuel = 4 * (p.rest.left + 1 + 4) := rfl
  have hreadings := p.rest.length_readings_le
  have hahead : q.ahead ≤ q.rest.length + 2 := by
    have hcurrent := Option.length_toList_le (o := q.current)
    have hnext := Option.length_toList_le (o := q.next)
    unfold ParserOn.ahead
    omega
  have hrest : q.rest.length ≤ p.rest.left + 1 := by
    rcases h.ahead with ⟨-, hrest⟩ | ⟨-, hrest, -⟩ | ⟨-, hrest, -⟩
    · rwa [hrest, List.length_map]
    · simp [hrest]
    · simp [hrest]
  omega

end Asks

/-- The tokens that no reader takes: where there is none, and the end of file. -/
def Untaken (t : Option (Located Token)) : Prop := ∀ t', t = some t' → t'.value = .endOfFile

theorem follows_asks (hs : Settles I) (o : ParserOn (Lexer σ)) (extra : Nat) :
    Follows extra (fun (w : Walk) (p : ParserOn (Lexer σ)) =>
      Asks I w.window p ∧ Passes o (w.taken.filterMap id) p)
      fun w => w.overrun = true ∨ ∃ t ∈ w.taken, Untaken t where
  window h _ := h.1.agrees
  step {w p} h hw := by
    obtain ⟨hasks, hpasses⟩ := h
    have htaken : ¬ Untaken w.window.current := fun huntaken =>
      hw (.inr ⟨_, List.mem_append_right _ (List.mem_singleton_self _), huntaken⟩)
    unfold Untaken at htaken
    obtain ⟨t, ht⟩ := Classical.not_forall.1 htaken
    obtain ⟨hc, hvalue⟩ := Classical.not_imp.1 ht
    refine ⟨hasks.step hs fun place hend => ?_, ?_⟩
    · rw [hc] at hend
      cases hend
      exact hvalue rfl
    · show Passes o ((w.taken ++ [w.window.current]).filterMap id) p.step
      rw [hc, List.filterMap_append]
      exact hpasses.append (.single (hasks.current.trans hc))
  overrun _ hw := absurd (.inl rfl) hw
  lost_step {w} h := h.imp_right fun ⟨t, ht, huntaken⟩ =>
    ⟨t, List.mem_append_left _ ht, huntaken⟩
  lost_overrun h := .inl rfl

/-- On demand the program is read as from all the results, and the two parsers stop at the same
token. -/
theorem asks_program (hs : Settles I) {q : Parser} {p : ParserOn (Lexer σ)} (h : Asks I q p) :
    answerOf (program p) = answerOf (program q) ∧
      Asks I (windowOf (program q)) (windowOf (program p)) ∧
      ∃ ts, Passes q ts (windowOf (program q)) ∧ Passes p ts (windowOf (program p)) := by
  obtain ⟨extra, hfuel⟩ := Nat.exists_eq_add_of_le h.ahead_le_fuel
  obtain ⟨extra', hfuel'⟩ : ∃ extra, q.fuel = 4 * q.ahead + 5 + extra :=
    Nat.exists_eq_add_of_le (by have := q.ahead_le_fuel; omega)
  obtain ⟨ts, hends, -⟩ := (ends_program (Nat.le_refl _)).endsAfter
    ((follows_walk extra').mirrors_program (4 * q.ahead + 5))
  have hwindow := hends.window []
  have hsame := ((follows_asks hs p extra).mirrors_program (4 * q.ahead + 5)).same
    (s := ⟨q, [], false⟩) ⟨h, .nil p⟩
  rw [hwindow, ← hfuel, ← hfuel'] at hsame
  obtain ⟨hanswer, hasks, hpasses⟩ := hsame (by
    rintro (hover | ⟨t, ht, huntaken⟩)
    · cases hover
    · obtain ⟨t, hmem, rfl⟩ := List.mem_map.1 ht
      exact hends.before_end t hmem (huntaken t rfl))
  have hwalk := hends.answer []
  have hlist := hends.passes
  rw [← hfuel'] at hwalk hlist
  rw [List.nil_append, List.filterMap_map, Function.id_comp, List.filterMap_some] at hpasses
  exact ⟨hanswer.trans hwalk, hasks, ts, hlist, hpasses⟩

end Parser

namespace Lexer.Settles
open CatLang.Parser
variable {σ : Type} [CharSource σ] {l : Lexer σ} {I : Lexer σ → Prop}

theorem parse_start (hs : Settles I) (h : I l) :
    answerOf (Parser.parse (ParserOn.start l)) = parseResults (l.readings.map (·.1)) := by
  obtain ⟨hanswer, hasks, -⟩ := asks_program hs (Asks.start hs h)
  unfold parseResults Parser.parse
  cases hp : Parser.program (ParserOn.start l) with
  | ok a p =>
    cases hq : Parser.program (Parser.ofResults (l.readings.map (·.1))) with
    | error e q =>
      rw [hp, hq] at hanswer
      cases hanswer
    | ok b q =>
      rw [hp, hq] at hanswer hasks
      cases hanswer
      have herrors : p.errors = q.errors := hasks.errors
      have hcomments : p.comments = q.comments := hasks.comments
      simp only [herrors, hcomments]
      cases q.errors <;> rfl
  | error e p =>
    cases hq : Parser.program (Parser.ofResults (l.readings.map (·.1))) with
    | ok b q =>
      rw [hp, hq] at hanswer
      cases hanswer
    | error e' q =>
      rw [hp, hq] at hanswer hasks
      cases hanswer
      have herrors : p.errors = q.errors := hasks.errors
      simp only [herrors]
      cases q.errors <;> rfl

end Lexer.Settles

theorem Parser.asks_results (source : String) :
    Asks Lexer.IsText (ofResults (results source)) (ParserOn.start (Lexer.ofString source)) :=
  .start Lexer.settles_isText (Lexer.isText_ofString source)

/-- A source is parsed as its results are. -/
theorem parse_eq (source : String) : parse source = parseResults (results source) :=
  Lexer.settles_isText.parse_start (Lexer.isText_ofString source)

end CatLang
