import CatLang.CommandLine.Run
import CatLang.Proofs.Lines
import CatLang.Proofs.Parsing
import CatLang.Proofs.Shifting

/-! Sources joined by line ends. No token, comment or error reaches over a line end, so a text with
another behind it is read as it was on its own (`readings_followed`), sources that parse also do
when they are joined (`parse_joined`), and the joined text runs like its sources one after the
other (`runInTurn_spec`), as lines of a session do (`runInTurn_eq_runLine`). -/
namespace CatLang

namespace Lexer

/-- Windows on a text that ends at `stop` and on the same text with a line end and more behind it. -/
def Followed (text : List Char) (stop : Nat) (l m : Lexer (List (Nat × Char))) : Prop :=
  ∃ o front, o + Text.byteLength front = stop ∧ l = onText o front ∧
    m = onText o (front ++ '\n' :: text)

theorem alike_followed (text : List Char) (stop : Nat) : Alike id (Followed text stop) where
  ch := by
    rintro l m ⟨o, _ | ⟨c, front⟩, -, rfl, rfl⟩
    · exact .inr ⟨rfl, rfl⟩
    · exact .inl rfl
  nextCh := by
    rintro l m ⟨o, _ | ⟨c, _ | ⟨c', front⟩⟩, -, rfl, rfl⟩ hl
    · exact absurd rfl hl
    · exact .inr ⟨rfl, rfl⟩
    · exact .inl rfl
  position := by
    rintro l m ⟨o, front, -, rfl, rfl⟩
    rfl
  step := by
    rintro l m ⟨o, _ | ⟨c, front⟩, hstop, rfl, rfl⟩ hl
    · exact absurd rfl hl
    · rw [Text.byteLength, ← Nat.add_assoc] at hstop
      exact ⟨_, front, hstop, step_onText o front c, step_onText o _ c⟩

theorem readings_blanks (o : Nat) {front : List Char} (h : ∀ c ∈ front, Text.isBlank c = true)
    (rest : List Char) : (onText o (front ++ rest)).readings =
      (onText (o + Text.byteLength front) rest).readings := by
  induction front generalizing o with
  | nil => rfl
  | cons c front ih =>
    rw [List.forall_mem_cons] at h
    rw [List.cons_append, readings_blank o _ h.1, ih _ h.2, Text.byteLength, Nat.add_assoc]

/-- Before the last token of the first text, white space ends there in both. -/
theorem Followed.skip_blank {text : List Char} {stop : Nat} {l m : Lexer (List (Nat × Char))}
    (h : Followed text stop l m) (hl : (l.skip Text.isBlank).ch ≠ none) :
    Followed text stop (l.skip Text.isBlank) (m.skip Text.isBlank) := by
  obtain ⟨o, front, hstop, rfl, rfl⟩ := h
  rw [skip_onText] at hl ⊢
  have hne : front.dropWhile Text.isBlank ≠ [] := fun hnil => hl (by rw [hnil]; rfl)
  have hsplit : front.takeWhile Text.isBlank ++ front.dropWhile Text.isBlank = front :=
    List.takeWhile_append_dropWhile
  have hlength : (front.takeWhile Text.isBlank).length ≠ front.length := by
    intro heq
    have hall := congrArg List.length hsplit
    rw [List.length_append, heq] at hall
    exact hne (List.length_eq_zero_iff.1 (by omega))
  refine ⟨_, _, ?_, rfl, ?_⟩
  · rw [Nat.add_assoc, ← Text.byteLength_append, hsplit, hstop]
  · rw [skip_onText, List.takeWhile_append, if_neg hlength, List.dropWhile_append,
      if_neg (by simpa using hne)]

/-- A text with a line end and more behind it is read to its own end, and then the rest. -/
theorem readings_followed (o : Nat) (front text : List Char) :
    (onText o (front ++ '\n' :: text)).readings.map (·.1) =
      ((onText o front).readings.map (·.1)).dropLast ++
        (onText (o + Text.byteLength front + 1) text).readings.map (·.1) := by
  have hfollowed : Followed text (o + Text.byteLength front) (onText o front)
      (onText o (front ++ '\n' :: text)) := ⟨o, front, rfl, rfl, rfl⟩
  generalize onText o front = l, onText o (front ++ '\n' :: text) = m,
    o + Text.byteLength front = stop at hfollowed ⊢
  fun_induction readings l generalizing m with
  | case1 l hend =>
    -- Nothing but white space is left, and the line end is white space too.
    obtain ⟨o, front, rfl, rfl, rfl⟩ := hfollowed
    rw [skip_onText, ch_onText, List.head?_eq_none_iff] at hend
    have hblank : ∀ c ∈ front, Text.isBlank c = true := by
      simpa [List.dropWhile_eq_nil_iff] using hend
    rw [readings_blanks o hblank, readings_blank _ _ (by decide)]
    rfl
  | case2 l hmore ih =>
    have hskip := hfollowed.skip_blank hmore
    obtain ⟨c, hc⟩ := Option.ne_none_iff_exists'.1 hmore
    have hpaired := (alike_followed text stop).read hskip hc
    have hm : (m.skip Text.isBlank).ch = some c := (alike_followed text stop).ch_eq hskip hc
    have hrest : l.next.2.readings.map (·.1) ≠ [] := by
      obtain ⟨init, place, hreadings, -⟩ := readings_eq l.next.2
      rw [hreadings]
      simp
    have hfirst : m.next.1 = l.next.1 := hpaired.result.trans (LexResult.move_id _)
    rw [readings_of_ne_none (by rw [hm]; exact Option.some_ne_none c), List.map_cons, List.map_cons,
      List.dropLast_cons_of_ne_nil hrest, List.cons_append, hfirst]
    exact congrArg _ (ih _ hpaired.windows)

end Lexer

namespace LexResult

theorem comment?_shift (k : Nat) (r : LexResult) :
    (LexResult.shift k r).comment? = r.comment?.map (·.shift k) := by
  obtain e | ⟨value, span⟩ := r
  · rfl
  · cases value <;> rfl

theorem comments_shift (k : Nat) (rs : List LexResult) :
    comments (rs.map (LexResult.shift k)) = (comments rs).map (·.shift k) := by
  simp only [comments, List.filterMap_map, List.map_filterMap, Function.comp_def, comment?_shift]

end LexResult

theorem toList_append_line (a b : String) :
    (a ++ "\n" ++ b).toList = a.toList ++ '\n' :: b.toList := by
  rw [String.toList_append, String.toList_append, List.append_assoc]
  rfl

/-- The results of two texts with a line end and so many spaces between them. -/
theorem results_append_indented (a : String) (count : Nat) (b : String) :
    results (a ++ "\n" ++ Text.indented count b) = (results a).dropLast ++
      (Lexer.onText (a.utf8ByteSize + 1 + count) b.toList).readings.map (·.1) := by
  rw [results, results, Lexer.ofString_eq_onText, Lexer.ofString_eq_onText, toList_append_line,
    Lexer.readings_followed, Text.indented, String.toList_ofList, Lexer.readings_indented,
    Text.byteLength_toList, Nat.zero_add]

/-- The results of two texts with a line end between them: the end of the first is no end of file
any more, and the second stands after the line end. -/
theorem results_append_line {a b : String} (h : (a ++ "\n" ++ b).utf8ByteSize < 4294967296) :
    results (a ++ "\n" ++ b) =
      (results a).dropLast ++ (results b).map (LexResult.shift (a.utf8ByteSize + 1)) := by
  have hline : "\n".utf8ByteSize = 1 := rfl
  rw [String.utf8ByteSize_append, String.utf8ByteSize_append, hline] at h
  have hsize : 0 + (a.utf8ByteSize + 1) + Text.byteLength b.toList < 4294967296 := by
    rw [Text.byteLength_toList]
    omega
  rw [results, results, results, Lexer.ofString_eq_onText, Lexer.ofString_eq_onText,
    Lexer.ofString_eq_onText, toList_append_line, Lexer.readings_followed, Text.byteLength_toList,
    Nat.add_assoc, Lexer.readings_shift hsize, List.map_map]
  rfl

theorem comments_dropLast_results (source : String) :
    LexResult.comments (results source).dropLast = LexResult.comments (results source) := by
  obtain ⟨init, place, hrs, -⟩ := results_eq source
  rw [hrs, List.dropLast_concat, LexResult.comments, LexResult.comments, List.filterMap_append]
  exact (List.append_nil _).symm

theorem comments_of_parse {source : String} {parsed : Parsed} (h : parse source = .ok parsed) :
    parsed.comments = LexResult.comments (results source) := by
  obtain ⟨toks, ts, place, hlex, hcode, hread, hgrouped, hfilled⟩ := parse_sound h
  rcases parse_complete hlex hcode hread hgrouped with h' | ⟨hnot, -⟩
  · rw [h] at h'
    exact congrArg Parsed.comments (Except.ok.inj h')
  · exact absurd hfilled hnot

theorem codeOf_dropLast {source : String} {toks ts : List (Located Token)} {place : Span}
    (hlex : lex source = .ok toks) (hcode : codeOf toks = ts ++ [⟨.endOfFile, place⟩]) :
    codeOf toks.dropLast = ts := by
  obtain ⟨init, place', hrs, -⟩ := results_eq source
  rw [lex_eq_ok_iff.1 hlex] at hrs
  obtain ⟨front, rfl, -⟩ := LexResult.exists_concat_of_map_ok hrs
  rw [codeOf, List.filter_append] at hcode
  rw [List.dropLast_concat]
  exact (List.append_inj' hcode rfl).1

theorem codeOf_shift (k : Nat) (ts : List (Located Token)) :
    codeOf (ts.map (·.shift k)) = (codeOf ts).map (·.shift k) := by
  rw [codeOf, codeOf, List.filter_map]
  rfl

theorem StatementsFrom.append {ss ss' : List Statement} {ts us : List (Located Token)}
    (h : StatementsFrom ss ts) (h' : StatementsFrom ss' us) :
    StatementsFrom (ss ++ ss') (ts ++ us) := by
  induction ss generalizing ts with
  | nil =>
    cases h
    exact h'
  | cons s rest ih =>
    cases h with
    | cons hs hrest =>
      rw [List.append_assoc, List.cons_append]
      exact .cons hs (ih hrest)

theorem groupedAll_append {ss ss' : List Statement} :
    GroupedAll (ss ++ ss') ↔ GroupedAll ss ∧ GroupedAll ss' := by
  induction ss with
  | nil => simp [GroupedAll]
  | cons s rest ih => simp only [List.cons_append, GroupedAll, ih, and_assoc]

theorem filledAll_append {ss ss' : List Statement} :
    FilledAll (ss ++ ss') ↔ FilledAll ss ∧ FilledAll ss' := by
  induction ss with
  | nil => simp [FilledAll]
  | cons s rest ih => simp only [List.cons_append, FilledAll, ih, and_assoc]

/-- Two sources that parse also do with a line end between them: the statements and comments of the
second come after those of the first, and stand where it does. -/
theorem parse_append_line {a b : String} {p q : Parsed} (ha : parse a = .ok p)
    (hb : parse b = .ok q) (hsize : (a ++ "\n" ++ b).utf8ByteSize < 4294967296) :
    ∃ r, parse (a ++ "\n" ++ b) = .ok r ∧
      r.program.statements =
        p.program.statements ++ shiftAll (a.utf8ByteSize + 1) q.program.statements ∧
      r.comments = p.comments ++ q.comments.map (·.shift (a.utf8ByteSize + 1)) := by
  obtain ⟨toks, ts, place, hlex, hcode, hread, hgrouped, hfilled⟩ := parse_sound ha
  obtain ⟨toks', us, place', hlex', hcode', hread', hgrouped', hfilled'⟩ := parse_sound hb
  have hcomments := comments_of_parse ha
  have hcomments' := comments_of_parse hb
  generalize hk : a.utf8ByteSize + 1 = k at *
  generalize hss : p.program.statements ++ shiftAll k q.program.statements = ss
  have hjoined : lex (a ++ "\n" ++ b) = .ok (toks.dropLast ++ toks'.map (·.shift k)) := by
    rw [lex_eq_ok_iff, results_append_line hsize, lex_eq_ok_iff.1 hlex, lex_eq_ok_iff.1 hlex', hk,
      List.map_append, List.map_dropLast, List.map_map, List.map_map]
    rfl
  have hcodes : codeOf (toks.dropLast ++ toks'.map (·.shift k)) =
      (ts ++ us.map (·.shift k)) ++ [⟨.endOfFile, place'.shift k⟩] := by
    rw [codeOf, List.filter_append, ← codeOf, ← codeOf, codeOf_dropLast hlex hcode, codeOf_shift,
      hcode', List.map_append, List.append_assoc]
    rfl
  have hreads : Program.ReadFrom ⟨ss, startOf ss, stopOf (ts ++ us.map (·.shift k))⟩
      (ts ++ us.map (·.shift k)) :=
    ⟨hss ▸ hread.1.append (hread'.1.shift k hfilled'), rfl⟩
  have hgroups : GroupedAll ss := by
    rw [← hss, groupedAll_append, ← groupedAll_bareAll (shiftAll k _), bareAll_shiftAll,
      groupedAll_bareAll]
    exact ⟨hgrouped, hgrouped'⟩
  have hfills : FilledAll ss := by
    rw [← hss, filledAll_append, ← filledAll_bareAll (shiftAll k _), bareAll_shiftAll,
      filledAll_bareAll]
    exact ⟨hfilled, hfilled'⟩
  rcases parse_complete hjoined hcodes hreads hgroups with h | ⟨hnot, -⟩
  · refine ⟨_, h, rfl, ?_⟩
    rw [results_append_line hsize, hk, LexResult.comments, List.filterMap_append, ← LexResult.comments,
      ← LexResult.comments, LexResult.comments_shift, comments_dropLast_results, hcomments,
      hcomments']
  · exact absurd hfills hnot

/-- A source that parses, with the path it is known by. -/
structure Script where
  path : String
  source : String
  parsed : Parsed
  parses : parse source = .ok parsed

/-- Reads and runs sources with their paths one after the other on the same machine, up to the first
failure; that one comes with the number of its source, counted from `i`. -/
def runInTurn (limit i : Nat) :
    List (String × String) → Machine → Option (Except (Nat × Failure) Unit) × Machine
  | [], m => (some (.ok ()), m)
  | (path, source) :: rest, m =>
    match Checked.ofSource path source with
    | .error failure => (some (.error (i, failure)), m)
    | .ok c =>
      match c.run limit m with
      | (some (.ok ()), m) => runInTurn limit (i + 1) rest m
      | (some (.error failure), m) => (some (.error (i, failure)), m)
      | (none, m) => (none, m)

namespace Script

/-- One text of all the sources, with a line end between each two. -/
def joined (scripts : List Script) : String := "\n".intercalate (scripts.map (·.source))

/-- Each script with the offset of its source in the joined text, which starts at `o`. -/
def placed (o : Nat) : List Script → List (Nat × Script)
  | [] => []
  | s :: rest => (o, s) :: placed (o + s.source.utf8ByteSize + 1) rest

def placedStatements (scripts : List (Nat × Script)) : List Statement :=
  scripts.flatMap fun (o, s) => shiftAll o s.parsed.program.statements

def placedComments (scripts : List (Nat × Script)) : List Span :=
  scripts.flatMap fun (o, s) => s.parsed.comments.map (·.shift o)

theorem joined_cons (s next : Script) (rest : List Script) :
    joined (s :: next :: rest) = s.source ++ "\n" ++ joined (next :: rest) :=
  String.intercalate_cons_cons

theorem placedStatements_cons (o : Nat) (s : Script) (rest : List Script) :
    placedStatements (placed o (s :: rest)) = shiftAll o s.parsed.program.statements ++
      placedStatements (placed (o + s.source.utf8ByteSize + 1) rest) := rfl

theorem placedComments_cons (o : Nat) (s : Script) (rest : List Script) :
    placedComments (placed o (s :: rest)) = s.parsed.comments.map (·.shift o) ++
      placedComments (placed (o + s.source.utf8ByteSize + 1) rest) := rfl

theorem shiftAll_placedStatements (o k : Nat) (scripts : List Script) :
    shiftAll k (placedStatements (placed o scripts)) =
      placedStatements (placed (o + k) scripts) := by
  induction scripts generalizing o with
  | nil => rfl
  | cons s rest ih =>
    rw [placedStatements_cons, shiftAll_append, shiftAll_shiftAll, ih, placedStatements_cons]
    simp only [Nat.add_assoc, Nat.add_comm k]

theorem shift_placedComments (o k : Nat) (scripts : List Script) :
    (placedComments (placed o scripts)).map (·.shift k) =
      placedComments (placed (o + k) scripts) := by
  induction scripts generalizing o with
  | nil => rfl
  | cons s rest ih =>
    rw [placedComments_cons, List.map_append, List.map_map, ih, placedComments_cons]
    simp only [Function.comp_def, Span.shift_shift, Nat.add_assoc, Nat.add_comm k]

/-- Every source stands at its offset in the joined text. -/
theorem joined_at_placed {o o' : Nat} {scripts : List Script} {s : Script}
    (h : (o', s) ∈ placed o scripts) :
    ∃ before after, joined scripts = before ++ s.source ++ after ∧
      o' = o + before.utf8ByteSize := by
  induction scripts generalizing o with
  | nil => cases h
  | cons first rest ih =>
    rcases List.mem_cons.1 h with heq | h
    · cases heq
      cases rest with
      | nil => exact ⟨"", "", by simp [joined], by simp⟩
      | cons next rest =>
        exact ⟨"", "\n" ++ joined (next :: rest), by simp [joined_cons, String.append_assoc],
          by simp⟩
    · obtain ⟨before, after, hjoined, rfl⟩ := ih h
      cases rest with
      | nil => cases h
      | cons next rest =>
        have hline : "\n".utf8ByteSize = 1 := by decide
        refine ⟨first.source ++ "\n" ++ before, after, ?_, ?_⟩
        · simp only [joined_cons, hjoined, String.append_assoc]
        · simp only [String.utf8ByteSize_append]
          omega

/-- The joined text parses to the statements and comments of its parts, each where its part
stands. -/
theorem parse_joined (scripts : List Script) (hsize : (joined scripts).utf8ByteSize < 4294967296) :
    ∃ parsed, parse (joined scripts) = .ok parsed ∧
      parsed.program.statements = placedStatements (placed 0 scripts) ∧
      parsed.comments = placedComments (placed 0 scripts) := by
  induction scripts with
  | nil =>
    have hempty : parse "" = .ok ⟨⟨[], 0, 0⟩, []⟩ := by cbv
    exact ⟨_, hempty, rfl, rfl⟩
  | cons s rest ih =>
    have hcomments : s.parsed.comments.map (·.shift 0) = s.parsed.comments := by simp
    rw [placedStatements_cons, placedComments_cons, shiftAll_zero, hcomments]
    cases rest with
    | nil => exact ⟨s.parsed, s.parses, (List.append_nil _).symm, (List.append_nil _).symm⟩
    | cons next rest =>
      rw [joined_cons] at hsize
      have hrest : (joined (next :: rest)).utf8ByteSize < 4294967296 := by
        rw [String.utf8ByteSize_append] at hsize
        omega
      obtain ⟨parsed, hparse, hss, hcs⟩ := ih hrest
      obtain ⟨r, hr, hss', hcs'⟩ := parse_append_line s.parses hparse hsize
      refine ⟨r, by rw [joined_cons, hr], ?_, ?_⟩
      · rw [hss', hss, shiftAll_placedStatements, ← Nat.add_assoc]
      · rw [hcs', hcs, shift_placedComments, ← Nat.add_assoc]

end Script

/-- On a stream that can be flushed, a source that parses does what its statements do. -/
theorem Checked.run_of_parse (path : String) {source : String} {parsed : Parsed} {limit : Nat}
    {m : Machine} (h : parse source = .ok parsed) (hm : m.output.flushFault = none) :
    ∃ c, Checked.ofSource path source = .ok c ∧
      c.run limit m = match runAll limit parsed.program.statements m with
        | .ok () m' => (some (.ok ()), m')
        | .error (.failed error) m' => (some (.error (.run path source error)), m')
        | .error .unfinished m' => (none, m') := by
  refine ⟨⟨path, source, parsed.program⟩, by rw [Checked.ofSource, h], ?_⟩
  rw [← parsed.program.run_of_flushes hm]
  rfl

namespace Script

/-- Scripts run in turn do what all their placed statements do in one run. An error is placed like
the script it comes from. -/
theorem runInTurn_spec (scripts : List Script) (limit i o : Nat) {m : Machine}
    (hm : m.output.flushFault = none) :
    match runInTurn limit i (scripts.map fun s => (s.path, s.source)) m with
    | (some (.ok ()), m') => runAll limit (placedStatements (placed o scripts)) m = .ok () m'
    | (some (.error (j, failure)), m') => ∃ o' s error, i ≤ j ∧
        (placed o scripts)[j - i]? = some (o', s) ∧ failure = .run s.path s.source error ∧
        runAll limit (placedStatements (placed o scripts)) m =
          .error (.failed (error.shift o')) m'
    | (none, m') =>
        runAll limit (placedStatements (placed o scripts)) m = .error .unfinished m' := by
  induction scripts generalizing i o m with
  | nil => rfl
  | cons s rest ih =>
    obtain ⟨c, hc, hrun⟩ := Checked.run_of_parse s.path s.parses hm
    rw [placedStatements_cons, runAll_append, List.map_cons, runInTurn, hc]
    cases hfirst : runAll limit s.parsed.program.statements m with
    | ok a m' =>
      have hshift : runAll limit (shiftAll o s.parsed.program.statements) m = .ok () m' := by
        rw [runAll_shift, Run.shift, hfirst]
      have hm' : m'.output.flushFault = none := by
        have hkeeps : (Run.endOf (runAll limit s.parsed.program.statements m)).output.flushFault =
            m.output.flushFault := keepsFlush_runAll s.parsed.program.statements m
        rwa [hfirst, hm] at hkeeps
      have hrest := ih (i + 1) (o + s.source.utf8ByteSize + 1) hm'
      rw [hfirst] at hrun
      simp only [hrun, Run.bind_of_ok hshift]
      rcases hturn : runInTurn limit (i + 1) (rest.map fun s => (s.path, s.source)) m' with
        ⟨_ | ⟨j, failure⟩ | _, m''⟩
      all_goals rw [hturn] at hrest ⊢
      · exact hrest
      · obtain ⟨o', s', error, hle, hget, hfailure, herror⟩ := hrest
        refine ⟨o', s', error, by omega, ?_, hfailure, herror⟩
        rw [show j - i = j - (i + 1) + 1 by omega]
        exact hget
      · exact hrest
    | error stop m' =>
      have hshift : runAll limit (shiftAll o s.parsed.program.statements) m =
          .error (stop.shift o) m' := by
        rw [runAll_shift, Run.shift, hfirst]
      rw [hfirst] at hrun
      cases stop with
      | failed e =>
        simp only [hrun, Run.bind_of_error hshift]
        exact ⟨o, s, e, Nat.le_refl i, by simp [placed], rfl, rfl⟩
      | unfinished =>
        simp only [hrun, Run.bind_of_error hshift]
        rfl

/-- Sources that parse can be joined with line ends between them. The joined text parses to their
statements and comments in order, each moved to where its source stands; and on a stream that can be
flushed it runs like the sources in turn: to the same output and the same variables, with success or
with the error of the first source that fails, at the place that source has in the joined text. -/
theorem run_joined_eq_run_in_turn (scripts : List Script)
    (hsize : (joined scripts).utf8ByteSize < 4294967296) :
    (∀ o s, (o, s) ∈ placed 0 scripts → ∃ before after,
      joined scripts = before ++ s.source ++ after ∧ o = before.utf8ByteSize) ∧
    ∃ parsed, parse (joined scripts) = .ok parsed ∧
      parsed.program.statements = placedStatements (placed 0 scripts) ∧
      parsed.comments = placedComments (placed 0 scripts) ∧
      ∀ (path : String) (limit : Nat) (m : Machine), m.output.flushFault = none →
        ∃ c, Checked.ofSource path (joined scripts) = .ok c ∧
          match runInTurn limit 0 (scripts.map fun s => (s.path, s.source)) m with
          | (some (.ok ()), m') => c.run limit m = (some (.ok ()), m')
          | (some (.error (i, failure)), m') => ∃ o s error,
              (placed 0 scripts)[i]? = some (o, s) ∧ failure = .run s.path s.source error ∧
              c.run limit m = (some (.error (.run path (joined scripts) (error.shift o))), m')
          | (none, m') => c.run limit m = (none, m') := by
  obtain ⟨parsed, hparse, hstatements, hcomments⟩ := parse_joined scripts hsize
  refine ⟨fun o s h => ?_, parsed, hparse, hstatements, hcomments, fun path limit m hm => ?_⟩
  · simpa using joined_at_placed h
  obtain ⟨c, hc, hrun⟩ := Checked.run_of_parse path hparse hm
  refine ⟨c, hc, ?_⟩
  rw [hrun, hstatements]
  have hspec := runInTurn_spec scripts limit 0 0 hm
  rcases hturn : runInTurn limit 0 (scripts.map fun s => (s.path, s.source)) m with
    ⟨_ | ⟨i, failure⟩ | _, m'⟩
  all_goals rw [hturn] at hspec ⊢
  · have hstopped : runAll limit (placedStatements (placed 0 scripts)) m =
        .error .unfinished m' := hspec
    simp only [hstopped]
  · obtain ⟨o, s, error, -, hget, hfailure, herror⟩ := hspec
    exact ⟨o, s, error, hget, hfailure, by rw [herror]⟩
  · have hok : runAll limit (placedStatements (placed 0 scripts)) m = .ok () m' := hspec
    simp only [hok]

theorem run_joined_eq_run_in_turn_undeclared :
    ∃ (scripts : List Script) (c : Checked) (m : Machine),
      scripts.map (fun s => (s.path, s.source)) =
        [("a", "x = mew; // note"), ("b", ":: x; :: y;"), ("c", "x = mewmew;")] ∧
      Output.unbounded.flushFault = none ∧
      runInTurn 0 0 (scripts.map fun s => (s.path, s.source)) ⟨.empty, .unbounded⟩ =
        (some (.error (1, .run "b" ":: x; :: y;" (.undeclared "y" ⟨9, 10⟩))), m) ∧
      m.output.written = "1\n" ∧
      Checked.ofSource "all" "x = mew; // note\n:: x; :: y;\nx = mewmew;" = .ok c ∧
      c.run 0 ⟨.empty, .unbounded⟩ =
        (some (.error (.run "all" "x = mew; // note\n:: x; :: y;\nx = mewmew;"
          (.undeclared "y" ⟨26, 27⟩))), m) := by
  have ha : parse "x = mew; // note" = .ok
      ⟨⟨[.assign ⟨"x", 0, 1⟩ (.number "mew" ⟨4, 7⟩) ⟨0, 7⟩], 0, 8⟩, [⟨9, 16⟩]⟩ := by
    cbv
  have hb : parse ":: x; :: y;" = .ok
      ⟨⟨[.print (.name "x" ⟨3, 4⟩) ⟨0, 4⟩, .print (.name "y" ⟨9, 10⟩) ⟨6, 10⟩], 0, 11⟩, []⟩ := by
    cbv
  have hc : parse "x = mewmew;" = .ok
      ⟨⟨[.assign ⟨"x", 0, 1⟩ (.number "mewmew" ⟨4, 10⟩) ⟨0, 10⟩], 0, 11⟩, []⟩ := by
    cbv
  obtain ⟨m, hturn, hwritten⟩ : ∃ m, runInTurn 0 0
      [("a", "x = mew; // note"), ("b", ":: x; :: y;"), ("c", "x = mewmew;")]
      ⟨.empty, .unbounded⟩ =
        (some (.error (1, .run "b" ":: x; :: y;" (.undeclared "y" ⟨9, 10⟩))), m) ∧
      m.output.written = "1\n" := by
    simp only [runInTurn, Checked.ofSource, ha, hb, hc]
    exact ⟨_, rfl, by decide +kernel⟩
  obtain ⟨-, parsed, -, -, -, hrun⟩ := run_joined_eq_run_in_turn
    [⟨"a", _, _, ha⟩, ⟨"b", _, _, hb⟩, ⟨"c", _, _, hc⟩] (by cbv)
  obtain ⟨c, hsource, hrun⟩ := hrun "all" 0 ⟨.empty, .unbounded⟩ rfl
  simp only [List.map_cons, List.map_nil, hturn] at hrun
  obtain ⟨o, s, error, hget, hfailure, hrun⟩ := hrun
  cases hget
  cases hfailure
  exact ⟨[⟨"a", _, _, ha⟩, ⟨"b", _, _, hb⟩, ⟨"c", _, _, hc⟩], c, m, rfl, rfl, hturn, hwritten,
    hsource, hrun⟩

end Script

/-! A session runs its lines in turn. Each of them has an output of its own, which makes no
difference. -/

/-- The same machine, with more printed before. -/
def Machine.after (m : Machine) (earlier : String) : Machine :=
  { m with output := { m.output with written := earlier ++ m.output.written } }

theorem Output.write_after (o : Output) (earlier : String) (limit : Nat) (text : String) :
    { o with written := earlier ++ o.written }.write limit text =
      ((o.write limit text).1,
        { (o.write limit text).2 with written := earlier ++ (o.write limit text).2.written }) := by
  rw [write_eq, write_eq]
  cases o.room with
  | none => simp only [String.append_assoc]
  | some room =>
    by_cases h : text.length ≤ room <;> simp only [h, ↓reduceIte, String.append_assoc]
    rfl

theorem Run.keeps_after (names : List String) (earlier : String) :
    Keeps names fun m m' => m' = m.after earlier where
  value e _ := .change_iff.2 fun _ => value_of_vars e (·.after earlier) rfl
  assign name v := .change_iff.2 fun _ => rfl
  printLine limit v := .change_iff.2 fun m => by
    unfold printLine
    rw [show (m.after earlier).output =
        { m.output with written := earlier ++ m.output.written } from rfl, Output.write_after]
    rcases m.output.write limit (v.text ++ "\n") with ⟨_ | _ | _, output⟩ <;> rfl

/-- What was printed before a run stays, and makes no other difference to it. -/
theorem Checked.run_after (c : Checked) (limit : Nat) (m : Machine) (earlier : String) :
    c.run limit (m.after earlier) = ((c.run limit m).1, (c.run limit m).2.after earlier) := by
  have hruns : (runAll limit c.program.statements).Respects _ :=
    respects_runAll (Run.keeps_after c.program.reads earlier) c.program.statements fun _ => id
  have hflush (n : Machine) : Run.flush (n.after earlier) = Run.onEnd (·.after earlier) (Run.flush n) := by
    have hfault : (n.after earlier).output.flush = n.output.flush := rfl
    unfold Run.flush
    rw [hfault]
    cases n.output.flush <;> rfl
  have hrun : c.program.run limit (m.after earlier) =
      Run.onEnd (·.after earlier) (c.program.run limit m) := by
    refine Run.Respects.change_iff.1 (hruns.bind fun _ => ?_) m
    exact Run.Respects.change_iff.2 hflush
  rw [Checked.run, Checked.run, hrun]
  cases c.program.run limit m with
  | ok a n => rfl
  | error stop n => cases stop <;> rfl

/-- Without a bound a run only adds to what was printed. -/
theorem Checked.output_run (c : Checked) (limit : Nat) (m : Machine) (h : m.output.room = none) :
    (c.run limit m).2.output =
      { m.output with written := (c.run limit m).2.output.written } := by
  have hwrites := (c.program.follows_run limit).writes m h
  have hend : (c.run limit m).2 = Run.endOf (c.program.run limit m) := by
    rw [Checked.run]
    cases c.program.run limit m with
    | ok a n => rfl
    | error stop n => cases stop <;> rfl
  rw [hend, hwrites]

namespace CommandLine.Session

/-- The machine of a session that has printed this so far. -/
def machine (s : Session) (printed : String) : Machine :=
  ⟨s.vars, { Output.unbounded with written := printed }⟩

def failure? (events : List Event) : Option Failure :=
  events.findSome? fun
    | .failed failure => some failure
    | _ => none

/-- Of sources that are run in turn, the first one does what it does as the next line of a session.
If it does not fail, the others are run where the session goes on. -/
theorem runInTurn_eq_runLine (limit i : Nat) (s : Session) (printed source : String)
    (rest : List (String × String)) :
    match s.runLine limit source,
      runInTurn limit i (("<repl:" ++ toString (s.ran + 1) ++ ">", source) :: rest)
        (s.machine printed) with
    | (.more next, events), turn =>
      turn = match failure? events with
        | some failure => (some (.error (i, failure)), next.machine (printed ++ outText events))
        | none => runInTurn limit (i + 1) rest (next.machine (printed ++ outText events))
    | (.over _, events), turn => ∃ vars,
      turn = (none, ⟨vars, { Output.unbounded with written := printed ++ outText events }⟩) := by
  have hmachine : s.machine printed = (⟨s.vars, .unbounded⟩ : Machine).after printed := by
    simp [machine, Machine.after, Output.unbounded]
  rw [runInTurn, runLine]
  cases hc : Checked.ofSource ("<repl:" ++ toString (s.ran + 1) ++ ">") source with
  | error failure => simp [failure?, outText, machine]
  | ok c =>
    have houtput := c.output_run limit ⟨s.vars, .unbounded⟩ rfl
    simp only [hmachine, c.run_after limit ⟨s.vars, .unbounded⟩ printed]
    generalize c.run limit ⟨s.vars, .unbounded⟩ = result at houtput ⊢
    obtain ⟨outcome, m⟩ := result
    have hafter : m.after printed =
        ⟨m.vars, { Output.unbounded with written := printed ++ m.output.written }⟩ := by
      rw [Machine.after, houtput]
    rcases outcome with _ | failure | _
    · exact ⟨m.vars, by simp [hafter, outText]⟩
    · simp [hafter, failure?, outText, machine]
    · simp [hafter, failure?, outText, machine]

end CommandLine.Session

end CatLang
