import CatLang.Checked
import CatLang.Proofs.Origins
import CatLang.Proofs.ParseErrors

/-! Every diagnostic points inside its own source, as long as offsets do not start over. The places
come from the lexer, from errors that join the places of tokens, from blocks and assigned names, and
from names that a run stops at. All have their ends at ends of tokens, so they lie between
characters (`Span.Inside`), and marking them cuts nothing off (`Diagnostic.Marks`). -/
namespace CatLang

/-- Both ends of the stretch lie between characters of the source, the first one not behind the
second. -/
structure Span.Inside (span : Span) (source : String) : Prop where
  le : span.start ≤ span.stop
  stop_le : span.stop ≤ source.utf8ByteSize
  start_valid : String.Pos.Raw.IsValid source ⟨span.start⟩
  stop_valid : String.Pos.Raw.IsValid source ⟨span.stop⟩

/-- The text of the source from one end to the other. -/
def Span.slice (span : Span) (source : String) : String :=
  String.Pos.Raw.extract source ⟨span.start⟩ ⟨span.stop⟩

/-- The diagnostic marks just this stretch of the source. -/
def Diagnostic.Marks (d : Diagnostic) (path source : String) (span : Span) : Prop :=
  ∃ label, d.excerpt = some ⟨path, source, span, label⟩

/-! Places between characters. -/

theorem Text.utf8Len_eq (text : List Char) : String.utf8Len text = byteLength text := by
  induction text with
  | nil => rfl
  | cons c rest ih => rw [String.utf8Len, ih, byteLength, Nat.add_comm]

theorem Text.isValid_byteLength {source : String} {before after : List Char}
    (h : source.toList = before ++ after) : String.Pos.Raw.IsValid source ⟨byteLength before⟩ := by
  apply String.Pos.Raw.isValid_iff_exists_append.2
  refine ⟨String.ofList before, String.ofList after, ?_, ?_⟩
  · rw [← String.ofList_append, ← h, String.ofList_toList]
  · rw [String.rawEndPos_ofList, utf8Len_eq]

namespace Span
variable {source : String} {a b : Span} {before piece after : List Char}

theorem Cuts.inside (h : a.Cuts source.toList before piece after) : a.Inside source where
  le := by
    rw [h.start, h.stop, Text.byteLength_append]
    exact Nat.le_add_right _ _
  stop_le := by
    rw [h.stop, ← Text.byteLength_toList, h.text, Text.byteLength_append (before ++ piece)]
    exact Nat.le_add_right _ _
  start_valid := by
    rw [h.start]
    exact Text.isValid_byteLength (h.text.trans (List.append_assoc ..))
  stop_valid := by
    rw [h.stop]
    exact Text.isValid_byteLength h.text

theorem Cuts.slice_eq (h : a.Cuts source.toList before piece after) :
    a.slice source = String.ofList piece := by
  have hsource : source = String.ofList (before ++ piece ++ after) := by
    rw [← h.text, String.ofList_toList]
  unfold slice
  rw [h.start, h.stop, hsource, Text.byteLength_append, ← Text.utf8Len_eq, ← Text.utf8Len_eq]
  exact String.extract_of_valid before piece after

namespace Inside

/-- From the start of one stretch to the end of another. -/
theorem join (ha : a.Inside source) (hb : b.Inside source) (h : a.start ≤ b.stop) :
    Inside ⟨a.start, b.stop⟩ source :=
  ⟨h, hb.stop_le, ha.start_valid, hb.stop_valid⟩

theorem point_stop (ha : a.Inside source) : (point a.stop).Inside source :=
  ⟨Nat.le_refl _, ha.stop_le, ha.stop_valid, ha.stop_valid⟩

theorem point_zero : (point 0).Inside source :=
  ⟨Nat.le_refl _, Nat.zero_le _, String.Pos.Raw.isValid_zero, String.Pos.Raw.isValid_zero⟩

theorem clamp_eq (ha : a.Inside source) : a.clamp source.utf8ByteSize = a := by
  have hstart := Nat.le_trans ha.le ha.stop_le
  unfold clamp
  rw [Nat.min_eq_left hstart, Nat.min_eq_left ha.stop_le, Nat.max_eq_left ha.le]

end Inside

end Span

/-! What the lexer gives. -/

section
variable {source : String} {r : LexResult} (hsize : source.utf8ByteSize < 4294967296)
include hsize

/-- Each result has its text in the source, up to the end of file, which has none. -/
theorem exists_cuts_of_mem_results (h : r ∈ results source) :
    ∃ before piece after, r.span.Cuts source.toList before piece after ∧
      (r.Describes piece after ∨ r = .endAt source.utf8ByteSize) := by
  obtain ⟨init, htiles, hresults⟩ := results_tile hsize
  rw [hresults] at h
  rcases List.mem_append.1 h with h | h
  · obtain ⟨before, piece, after, htext, -, hdescribes, hspan⟩ := htiles.exists_piece r h
    rw [Nat.zero_add, Nat.zero_add] at hspan
    exact ⟨before, piece, after, ⟨htext, by rw [hspan], by rw [hspan]⟩, .inl hdescribes⟩
  · obtain rfl := List.mem_singleton.1 h
    have hstop := (Text.byteLength_toList source).symm
    exact ⟨source.toList, [], [], ⟨by simp, hstop, by rw [List.append_nil]; exact hstop⟩, .inr rfl⟩

theorem inside_of_mem_results (h : r ∈ results source) : r.span.Inside source := by
  obtain ⟨before, piece, after, hcuts, -⟩ := exists_cuts_of_mem_results hsize h
  exact hcuts.inside

theorem slice_of_name_result {text : String} {span : Span}
    (h : .ok ⟨.name text, span⟩ ∈ results source) : span.slice source = text := by
  obtain ⟨before, piece, after, hcuts, hdescribes | hend⟩ := exists_cuts_of_mem_results hsize h
  · have hpiece : piece = text.toList := hdescribes
    exact hcuts.slice_eq.trans (by rw [hpiece, String.ofList_toList])
  · cases hend

end

/-! Errors of the lexer and the parser. -/

theorem ParseError.Blames.inside {source : String} {e : ParseError} {ts : List (Located Token)}
    {t : Located Token} (h : e.Blames ts t) (ht : t.span.Inside source)
    (hts : ∀ s ∈ ts, s.span.Inside source ∧ s.span.stop ≤ t.span.start) : e.span.Inside source := by
  cases h with
  | semicolon hlast => exact (hts _ (List.mem_of_getLast? hlast)).1.point_stop
  | @expression _ signs _ hsub =>
    have hle := ht.le
    have hsigns (s : Located Token) (hs : s ∈ signs) : s.span.stop ≤ t.span.stop :=
      Nat.le_trans (hts s (hsub.subset hs)).2 hle
    obtain ⟨hstop, hstart⟩ := Span.withSigns_spec hsigns
    change (t.span.withSigns signs).Inside source
    rcases hstart with hstart | ⟨s, hs, hstart⟩
    · have hjoin := ht.join ht hle
      rwa [← hstart, ← hstop] at hjoin
    · have hinside := (hts s (hsub.subset hs)).1
      have hjoin := hinside.join ht (Nat.le_trans hinside.le (hsigns s hs))
      rwa [← hstart, ← hstop] at hjoin
  | token => exact ht

theorem Parser.inside_of_error {source : String} {e : ParseError} {q : Parser}
    (hsize : source.utf8ByteSize < 4294967296)
    (h : program (ofResults (results source)) = .error e q) (herrors : q.errors = []) :
    e.span.Inside source ∧ e.cause ≠ .unexpectedEnd := by
  constructor
  · obtain ⟨ts, t, after, hcode, -, hblames⟩ := exists_token_of_error h herrors
    have hsublist : (LexResult.code (results source)).Sublist (results source) :=
      List.filter_sublist
    rw [hcode] at hsublist
    have horder := (results_inOrder hsize).1.sublist hsublist
    obtain ⟨-, -, hbefore⟩ := List.pairwise_append.1 horder
    have hmem : .ok t ∈ ts.map (.ok : _ → LexResult) ++ .ok t :: after := by simp
    apply hblames.inside
    · exact inside_of_mem_results hsize (hsublist.subset hmem)
    · intro s hs
      have hmem : .ok s ∈ ts.map (.ok : _ → LexResult) := List.mem_map_of_mem hs
      constructor
      · exact inside_of_mem_results hsize (hsublist.subset (List.mem_append_left _ hmem))
      · exact hbefore _ hmem (.ok t) List.mem_cons_self
  · apply cause_ne_of_error h herrors (by decide)
    intro found expected heq
    cases heq

theorem inside_of_parse_error {source : String} {e : ParseError}
    (hsize : source.utf8ByteSize < 4294967296) (h : parse source = .error e) :
    e.span.Inside source ∧ e.cause ≠ .unexpectedEnd := by
  rcases Parser.parse_eq_error_cases h with ⟨error, hlex, rfl⟩ | ⟨q, hprogram, herrors⟩
  · obtain ⟨r, hr, hre⟩ := List.exists_of_findSome?_eq_some (lex_eq_error_iff.1 hlex)
    cases r with
    | ok t => cases hre
    | error _ =>
      cases hre
      exact ⟨inside_of_mem_results hsize hr, nofun⟩
  · exact Parser.inside_of_error hsize hprogram herrors

/-! Nodes of a parsed program. -/

section
variable {source : String} {parsed : Parsed} {n : Node}

/-- The tokens of a node are results of the lexer. -/
theorem exists_results_of_contains (h : parse source = .ok parsed)
    (hn : (Node.program parsed.program).Contains n) :
    ∃ us, n.ReadFrom us ∧ n.Filled ∧ (source.utf8ByteSize < 4294967296 → InOrder us) ∧
      ∀ t ∈ us, .ok t ∈ results source := by
  obtain ⟨toks, ts, place, hlex, hcode, hread, -, hfilled⟩ := parse_sound h
  have hroot : (Node.program parsed.program).ReadFrom ts := hread
  have hrootFilled : (Node.program parsed.program).Filled := hfilled
  obtain ⟨us, hus⟩ := hn.exists_spells hroot
  obtain ⟨hfrom, hwithin⟩ := hus.readFrom hroot
  refine ⟨us, hfrom, hrootFilled.contains hn,
    fun hsize => (inOrder_of_lex hsize hlex hcode).sublist hwithin.sublist, fun t ht => ?_⟩
  have hmem : t ∈ codeOf toks := by
    rw [hcode]
    exact List.mem_append_left _ (hwithin.subset ht)
  rw [lex_eq_ok_iff.1 hlex]
  exact List.mem_map_of_mem (List.mem_of_mem_filter hmem)

variable (hsize : source.utf8ByteSize < 4294967296)
include hsize

theorem inside_of_contains (h : parse source = .ok parsed)
    (hn : (Node.program parsed.program).Contains n) : n.span.Inside source := by
  obtain ⟨us, hfrom, hfilled, horder, hresults⟩ := exists_results_of_contains h hn
  rcases hfrom.covers hfilled with hcovers | ⟨p, rfl, -, -, hplace⟩
  · have hlt := (horder hsize).lt_of_covers hcovers
    obtain ⟨first, last, hfirst, hlast, hspan⟩ := hcovers
    have hfirst := inside_of_mem_results hsize (hresults first (List.mem_of_head? hfirst))
    have hlast := inside_of_mem_results hsize (hresults last (List.mem_of_getLast? hlast))
    rw [hspan] at hlt ⊢
    exact hfirst.join hlast (Nat.le_of_lt hlt)
  · change p.span.Inside source
    rw [hplace]
    exact .point_zero

theorem slice_of_target (h : parse source = .ok parsed) {name : Name}
    (hn : (Node.program parsed.program).Contains (.target name)) :
    name.span.slice source = name.value := by
  obtain ⟨us, rfl, -, -, hresults⟩ := exists_results_of_contains h hn
  exact slice_of_name_result hsize (hresults _ List.mem_cons_self)

theorem slice_of_read (h : parse source = .ok parsed) {name : String} {span : Span}
    (hn : (Node.program parsed.program).Contains (.expr (.name name span))) :
    span.slice source = name := by
  obtain ⟨us, hfrom, -, -, hresults⟩ := exists_results_of_contains h hn
  cases hfrom with
  | name => exact slice_of_name_result hsize (hresults _ List.mem_cons_self)

end

/-! What is told about a source. -/

namespace Diagnostic
variable {path source : String} {span : Span} {d : Diagnostic}

theorem marks_of_inside (hsize : source.utf8ByteSize < 4294967296) (h : span.Inside source)
    (d : Diagnostic) (path : String) (label : Option String) :
    (d.mark path source span label).Marks path source span := by
  refine ⟨label, ?_⟩
  rw [mark, Span.wrap_eq hsize, h.clamp_eq]

theorem Marks.note (h : d.Marks path source span) (text : String) :
    (d.note text).Marks path source span := h

theorem Marks.noteAll (h : d.Marks path source span) (texts : List String) :
    (d.noteAll texts).Marks path source span := h

end Diagnostic

theorem Failure.marks_parse {source : String} {e : ParseError}
    (hsize : source.utf8ByteSize < 4294967296) (h : e.span.Inside source)
    (hcause : e.cause ≠ .unexpectedEnd) (path : String) :
    (Failure.parse path source e).diagnostic.Marks path source e.span := by
  simp only [diagnostic, if_neg hcause]
  exact (Diagnostic.marks_of_inside hsize h _ path _).noteAll _

theorem Finding.marks {f : Finding} (hsize : f.source.utf8ByteSize < 4294967296)
    (h : f.warning.span.Inside f.source) :
    f.diagnostic.Marks f.path f.source f.warning.span := by
  obtain ⟨path, source, w⟩ := f
  cases w <;> exact (Diagnostic.marks_of_inside hsize h _ path _).note _

theorem inside_of_warning {source : String} {parsed : Parsed} {w : Warning}
    (hsize : source.utf8ByteSize < 4294967296) (h : parse source = .ok parsed)
    (hw : w ∈ parsed.program.warnings) :
    w.span.Inside source ∧
      ∀ name span, w = .unusedVariable name span → span.slice source = name := by
  rcases Program.exists_node_of_warning hw with ⟨b, hb, hspan, hflags⟩ | ⟨name, hname, rfl⟩
  · constructor
    · rw [← hspan]
      exact inside_of_contains hsize h hb
    · rintro name span rfl
      exact hflags.elim
  · refine ⟨inside_of_contains hsize h hname, fun _ _ heq => ?_⟩
    cases heq
    exact slice_of_target hsize h hname

/-- Whatever is told about a source of less than 2^32 bytes is marked where it is: the error that
keeps it from being a program, its warnings, and the undeclared variable that a run of it stops at,
from any variables and on any output. An unused or undeclared variable is marked at its name. -/
theorem diagnostics_point_inside (path : String) {source : String}
    (hsize : source.utf8ByteSize < 4294967296) :
    (∀ failure, Checked.ofSource path source = .error failure → ∃ e,
      failure = .parse path source e ∧ e.span.Inside source ∧
        failure.diagnostic.Marks path source e.span) ∧
    ∀ checked, Checked.ofSource path source = .ok checked →
      (∀ f ∈ checked.findings, f.warning.span.Inside source ∧
        f.diagnostic.Marks path source f.warning.span ∧
        ∀ name span, f.warning = .unusedVariable name span → span.slice source = name) ∧
      ∀ limit m failure m', checked.run limit m = (some (.error failure), m') →
        (∃ name span, failure = .run path source (.undeclared name span) ∧ span.Inside source ∧
          span.slice source = name ∧ failure.diagnostic.Marks path source span) ∨
        ∃ fault, failure = .run path source (.output fault) := by
  cases hparse : parse source with
  | error e =>
    have hsource : Checked.ofSource path source = .error (.parse path source e) := by
      rw [Checked.ofSource, hparse]
    obtain ⟨hinside, hcause⟩ := inside_of_parse_error hsize hparse
    rw [hsource]
    constructor
    · intro failure h
      cases h
      exact ⟨e, rfl, hinside, Failure.marks_parse hsize hinside hcause path⟩
    · intro checked h
      cases h
  | ok parsed =>
    have hsource : Checked.ofSource path source = .ok ⟨path, source, parsed.program⟩ := by
      rw [Checked.ofSource, hparse]
    rw [hsource]
    constructor
    · intro failure h
      cases h
    intro checked h
    cases h
    constructor
    · intro f hf
      obtain ⟨w, hw, rfl⟩ := List.mem_map.1 hf
      obtain ⟨hinside, hname⟩ := inside_of_warning hsize hparse hw
      exact ⟨hinside, Finding.marks hsize hinside, hname⟩
    · intro limit m failure m' hrun
      rw [Checked.run] at hrun
      cases hm : parsed.program.run limit m with
      | ok a m₁ =>
        simp only [hm] at hrun
        cases hrun
      | error stop m₁ =>
        simp only [hm] at hrun
        rcases stop with (⟨name, span⟩ | ⟨fault⟩) | _
        all_goals cases hrun
        · obtain ⟨hread, -⟩ := parsed.program.stopsAtRead_run limit m name span m' hm
          have hinside := inside_of_contains hsize hparse hread
          exact .inl ⟨name, span, rfl, hinside, slice_of_read hsize hparse hread,
            (Diagnostic.marks_of_inside hsize hinside _ path _).note _⟩
        · exact .inr ⟨fault, rfl⟩

/-- An accent takes two bytes, in an error and before names. -/
theorem diagnostics_point_inside_accent :
    (∃ e, Checked.ofSource "a" "x = é;" = .error (.parse "a" "x = é;" e) ∧ e.span = ⟨4, 6⟩ ∧
      e.span.Inside "x = é;") ∧
    ∃ checked, Checked.ofSource "a" "// é\nx = y;" = .ok checked ∧
      .unusedVariable "x" ⟨6, 7⟩ ∈ checked.program.warnings ∧
      Span.slice ⟨6, 7⟩ "// é\nx = y;" = "x" ∧
      ∀ limit m, m.vars.get? "y" = none →
        (checked.run limit m).1 =
          some (.error (.run "a" "// é\nx = y;" (.undeclared "y" ⟨10, 11⟩))) ∧
        Span.slice ⟨10, 11⟩ "// é\nx = y;" = "y" := by
  constructor
  · have herror : Checked.ofSource "a" "x = é;" = .error (.parse "a" "x = é;"
        ⟨.lexical ⟨.unrecognized 'é', 4, 6⟩, 4, 6⟩) := by
      cbv
    obtain ⟨e, heq, hinside, -⟩ := (diagnostics_point_inside "a" (by decide)).1 _ herror
    cases heq
    exact ⟨_, herror, rfl, hinside⟩
  · obtain ⟨parsed, hparse, hwarning, hrun⟩ : ∃ parsed,
        parse "// é\nx = y;" = .ok parsed ∧
          .unusedVariable "x" ⟨6, 7⟩ ∈ parsed.program.warnings ∧
          ∀ limit m, m.vars.get? "y" = none →
            parsed.program.run limit m = .error (.failed (.undeclared "y" ⟨10, 11⟩)) m := by
      refine ⟨_, by cbv, ?_, fun limit m hm => ?_⟩
      · rw [Program.warnings, Warning.sort, List.mem_mergeSort]
        apply List.mem_append_right
        decide +kernel
      · have hvalue : Run.value (.name "y" ⟨10, 11⟩) m =
            .error (.failed (.undeclared "y" ⟨10, 11⟩)) m := by
          rw [Run.value, Expr.eval, hm]
        rw [Program.run, runAll, Statement.run]
        exact Run.bind_of_error (Run.bind_of_error (Run.bind_of_error hvalue _) _) _
    have hsource : Checked.ofSource "a" "// é\nx = y;" =
        .ok ⟨"a", "// é\nx = y;", parsed.program⟩ := by
      rw [Checked.ofSource, hparse]
    obtain ⟨hfindings, hruns⟩ := (diagnostics_point_inside "a" (by decide)).2 _ hsource
    refine ⟨_, hsource, hwarning, ?_, fun limit m hm => ?_⟩
    · exact (hfindings _ (List.mem_map_of_mem hwarning)).2.2 _ _ rfl
    · have hfailure : Checked.run limit ⟨"a", "// é\nx = y;", parsed.program⟩ m =
          (some (.error (.run "a" "// é\nx = y;" (.undeclared "y" ⟨10, 11⟩))), m) := by
        simp only [Checked.run, hrun limit m hm]
      refine ⟨by rw [hfailure], ?_⟩
      rcases hruns limit m _ m hfailure with ⟨name, span, heq, -, hname, -⟩ | ⟨fault, heq⟩
      · cases heq
        exact hname
      · cases heq

end CatLang
