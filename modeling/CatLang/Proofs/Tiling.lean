import Mathlib
import CatLang.Proofs.Lexing

/-! The lexer tiles its source: every character is white space or belongs to exactly one reading.
One reading takes a piece off the front of the text (`Lexer.takes_read`); call after call the
pieces follow one another with white space between them (`Tiles`), until the end of the source is
read for good. Below `2 ^ 32` bytes no offset starts over, and the spans are the places of the
pieces. -/
namespace CatLang

theorem Text.byteLength_pos {text : List Char} (h : text ≠ []) : 0 < byteLength text := by
  cases text with
  | nil => exact absurd rfl h
  | cons c rest => exact Nat.lt_of_lt_of_le c.utf8Size_pos (Nat.le_add_right _ _)

/-- A character of two joined texts is one of the first or one of the second. -/
theorem Text.mem_append_cases {a b before after : List Char} {c : Char}
    (h : a ++ b = before ++ c :: after) :
    (∃ more, a = before ++ c :: more) ∨ ∃ front, before = a ++ front ∧ b = front ++ c :: after := by
  rcases List.append_eq_append_iff.1 h with ⟨front, hbefore, hb⟩ | ⟨more, ha, hmore⟩
  · exact .inr ⟨front, hbefore, hb⟩
  · cases more with
    | nil => exact .inr ⟨[], by simpa using ha.symm, hmore.symm⟩
    | cons d more =>
      obtain ⟨rfl, -⟩ := List.cons.inj hmore
      exact .inl ⟨more, ha⟩

/-- The text is cut at both ends of the span, between characters, and holds `piece` there. -/
structure Span.Cuts (span : Span) (text before piece after : List Char) : Prop where
  text : text = before ++ piece ++ after
  start : span.start = Text.byteLength before
  stop : span.stop = Text.byteLength (before ++ piece)

namespace LexResult

def span : LexResult → Span
  | .ok t => t.span
  | .error e => e.span

def endAt (offset : Nat) : LexResult := .ok ⟨.endOfFile, .point offset⟩

/-- What a result other than the end of file says about its text: a comment runs from `//` up to the
end of its line, and any other token is spelled in full. -/
def Describes (r : LexResult) (piece after : List Char) : Prop :=
  match r with
  | .ok ⟨.comment, _⟩ => ['/', '/'] <+: piece ∧ '\n' ∉ piece ∧ ∀ c ∈ after.head?, c = '\n'
  | .ok ⟨.endOfFile, _⟩ => False
  | .ok t => piece = t.value.literal.toList
  | .error _ => True

theorem describes_of_spelled {value : Token} {piece : List Char} (h : value.Spelled)
    (hpiece : piece = value.literal.toList) (place : Span) (after : List Char) :
    Describes (.ok ⟨value, place⟩) piece after := by
  cases value with
  | comment => exact h.elim
  | endOfFile => exact h.elim
  | _ => exact hpiece

end LexResult

namespace Lexer

/-- A reading of the text at offset `o` takes `piece` and leaves `rest`. -/
structure Takes (o : Nat) (text : List Char) (reading : LexResult × Lexer (List (Nat × Char)))
    (piece rest : List Char) : Prop where
  text : text = piece ++ rest
  ne_nil : piece ≠ []
  window : reading.2 = onText (o + Text.byteLength piece) rest
  span : reading.1.span = ⟨Span.wrap o, Span.wrap (o + Text.byteLength piece)⟩
  describes : reading.1.Describes piece rest

section Takes
variable {o : Nat} {text piece rest : List Char} {stop : Lexer (List (Nat × Char))}

theorem Takes.token {value : Token} (htext : text = piece ++ rest) (hne : piece ≠ [])
    (hstop : stop = onText (o + Text.byteLength piece) rest)
    (hdescribes : ∀ place, LexResult.Describes (.ok ⟨value, place⟩) piece rest) :
    Takes o text ((onText o text).token stop value) piece rest where
  text := htext
  ne_nil := hne
  window := hstop
  span := by
    subst hstop
    simp only [Lexer.token, LexResult.span, position_onText]
  describes := hdescribes _

theorem Takes.reject (cause : LexCause) (htext : text = piece ++ rest) (hne : piece ≠ [])
    (hstop : stop = onText (o + Text.byteLength piece) rest) :
    Takes o text ((onText o text).reject stop cause) piece rest where
  text := htext
  ne_nil := hne
  window := hstop
  span := by
    subst hstop
    simp only [Lexer.reject, LexResult.span, position_onText]
  describes := trivial

/-- From the period on: `whole` was read before it. -/
theorem takes_fraction {whole : List Char} (o : Nat) (tail : List Char)
    (hw : whole = [] ∨ Numeral.isRun whole = true) :
    ∃ piece rest, Takes o (whole ++ '.' :: tail)
      ((onText o (whole ++ '.' :: tail)).fraction whole
        (onText (o + Text.byteLength whole) ('.' :: tail))) piece rest := by
  have htail : tail.takeWhile isWordChar ++ tail.dropWhile isWordChar = tail :=
    List.takeWhile_append_dropWhile
  have hafter : (onText (o + Text.byteLength whole + '.'.utf8Size) tail).skip isWordChar =
      onText (o + Text.byteLength (whole ++ '.' :: tail.takeWhile isWordChar))
        (tail.dropWhile isWordChar) := by
    rw [skip_onText, Text.byteLength_append, Text.byteLength]
    congr 1
    omega
  have hcut : whole ++ '.' :: tail =
      (whole ++ '.' :: tail.takeWhile isWordChar) ++ tail.dropWhile isWordChar := by
    rw [List.append_assoc, List.cons_append, htail]
  simp only [fraction, step_onText, run_onText, hafter, ch_onText]
  split
  · exact ⟨_, _, .reject _ hcut (by simp) rfl⟩
  split
  · exact ⟨_, _, .reject _ hcut (by simp) rfl⟩
  next hdigits =>
  split
  · -- The rest of a numeral with several periods is passed too.
    have hskip := skip_onText (o + Text.byteLength (whole ++ '.' :: tail.takeWhile isWordChar))
      (tail.dropWhile isWordChar) fun c => c == '.' || c.isAlphanum
    rw [Nat.add_assoc, ← Text.byteLength_append] at hskip
    refine ⟨_, _, .reject _ ?_ (by simp) hskip⟩
    rw [List.append_assoc _ (List.takeWhile _ _), List.takeWhile_append_dropWhile, hcut]
  · have hspelled : (Token.number
        (String.ofList (whole ++ '.' :: tail.takeWhile isWordChar))).Spelled := by
      show IsNumeral (String.ofList _).toList
      rw [String.toList_ofList]
      exact .fraction hw (by simpa using hdigits)
    exact ⟨_, _, .token hcut (by simp) rfl fun place =>
      LexResult.describes_of_spelled hspelled (by simp [Token.literal]) place _⟩

theorem takes_word {c : Char} {tail : List Char} (o : Nat) (h : startsWord c = true) :
    ∃ piece rest, Takes o (c :: tail) (onText o (c :: tail)).word piece rest := by
  have hcut : (c :: tail).takeWhile isWordChar ++ (c :: tail).dropWhile isWordChar = c :: tail :=
    List.takeWhile_append_dropWhile
  have hspelled := fun t => word_spelled (t := t) (ch_onText o (c :: tail)) h
  simp only [word, run_onText, skip_onText, ch_onText] at hspelled ⊢
  split
  · next hname =>
    rw [if_pos hname] at hspelled
    have hspelled := hspelled ⟨_, _⟩ rfl
    exact ⟨_, _, .token hcut.symm hname.1 rfl fun place =>
      LexResult.describes_of_spelled hspelled (by simp [Token.literal]) place _⟩
  next hname =>
  have hw : (c :: tail).takeWhile isWordChar = [] ∨
      Numeral.isRun ((c :: tail).takeWhile isWordChar) = true := by
    by_cases hnil : (c :: tail).takeWhile isWordChar = []
    · exact .inl hnil
    · exact .inr (by simpa [hnil] using hname)
  split
  · next hperiod =>
    obtain ⟨after, hafter⟩ := List.head?_eq_some_iff.1 hperiod
    have htakes := takes_fraction o after hw
    rwa [← hafter, hcut] at htakes
  · next hperiod =>
    rw [if_neg hname, if_neg hperiod] at hspelled
    have hspelled := hspelled ⟨_, _⟩ rfl
    refine ⟨_, _, .token hcut.symm (fun hnil => ?_) rfl fun place =>
      LexResult.describes_of_spelled hspelled (by simp [Token.literal]) place _⟩
    · -- A word without word characters starts with a period.
      rw [hnil, List.nil_append] at hcut
      rcases startsWord_cases h with ⟨hc, -⟩ | rfl
      · simp [hc] at hnil
      · simp [hcut] at hperiod

theorem takes_comment {tail : List Char} (o : Nat) :
    ∃ piece rest, Takes o ('/' :: '/' :: tail)
      ((onText o ('/' :: '/' :: tail)).token
        ((onText o ('/' :: '/' :: tail)).skip (· != '\n')) .comment) piece rest := by
  refine ⟨_, _, .token List.takeWhile_append_dropWhile.symm (by simp) (skip_onText _ _ _)
    fun place => ⟨?_, ?_, ?_⟩⟩
  · simp
  · intro hmem
    have := List.all_eq_true.1 List.all_takeWhile _ hmem
    simp at this
  · intro c hc
    have hnot := List.head?_dropWhile_not (· != '\n') ('/' :: '/' :: tail)
    rw [Option.mem_def.1 hc] at hnot
    simpa using hnot

/-- A reading takes a piece off the front of what is left. -/
theorem takes_read (o : Nat) (c : Char) (tail : List Char) :
    ∃ piece rest, Takes o (c :: tail) (onText o (c :: tail)).read piece rest := by
  have hone : (onText o (c :: tail)).step = onText (o + Text.byteLength [c]) tail :=
    step_onText o tail c
  rw [read_onText_cons, readFrom, nextCh_onText, List.tail_cons]
  split
  · next hcomment =>
    obtain ⟨rfl, hnext⟩ := hcomment
    obtain ⟨tail, rfl⟩ := List.head?_eq_some_iff.1 hnext
    exact takes_comment o
  split
  · next value hpair =>
    obtain ⟨d, hd, hvalue⟩ := Option.bind_eq_some_iff.1 hpair
    obtain ⟨tail, rfl⟩ := List.head?_eq_some_iff.1 hd
    have htwo : (onText o (c :: d :: tail)).step.step =
        onText (o + Text.byteLength [c, d]) tail := by
      rw [step_onText, step_onText, Nat.add_assoc]
      rfl
    exact ⟨[c, d], tail, .token rfl (by simp) htwo fun place =>
      LexResult.describes_of_spelled (spelled_of_pair? hvalue) (literal_of_pair? hvalue).symm
        place _⟩
  split
  · next value hsingle =>
    exact ⟨[c], tail, .token rfl (by simp) hone fun place =>
      LexResult.describes_of_spelled (spelled_of_single? hsingle)
        (literal_of_single? hsingle).symm place _⟩
  split
  · next hword => exact takes_word o hword
  split
  · exact ⟨[c], tail, .reject _ rfl (by simp) hone⟩
  · exact ⟨[c], tail, .reject _ rfl (by simp) hone⟩

end Takes

end Lexer

/-- The results take the text at offset `o` piece by piece, with nothing but white space between the
pieces and around them. -/
inductive Tiles : Nat → List Char → List LexResult → Prop
  | nil {o : Nat} {gap : List Char} : (∀ c ∈ gap, Text.isBlank c = true) → Tiles o gap []
  | cons {o : Nat} {gap piece rest : List Char} {r : LexResult} {rs : List LexResult} :
      (∀ c ∈ gap, Text.isBlank c = true) → piece ≠ [] →
      r.span = ⟨o + Text.byteLength gap, o + Text.byteLength (gap ++ piece)⟩ →
      r.Describes piece rest → Tiles (o + Text.byteLength (gap ++ piece)) rest rs →
      Tiles o (gap ++ piece ++ rest) (r :: rs)

namespace Tiles
variable {o : Nat} {text : List Char} {rs : List LexResult}

/-- Each result has a piece of its own. -/
theorem exists_piece (h : Tiles o text rs) : ∀ r ∈ rs, ∃ before piece after,
    text = before ++ piece ++ after ∧ piece ≠ [] ∧ r.Describes piece after ∧
      r.span = ⟨o + Text.byteLength before, o + Text.byteLength (before ++ piece)⟩ := by
  induction h with
  | nil => simp
  | @cons o gap piece rest r rs hgap hpiece hspan hdescribes _ ih =>
    intro r' hr'
    rcases List.mem_cons.1 hr' with rfl | hr'
    · exact ⟨gap, piece, rest, rfl, hpiece, hdescribes, hspan⟩
    · obtain ⟨before, piece', after, rfl, hne, hdescribes', hspan'⟩ := ih r' hr'
      refine ⟨gap ++ piece ++ before, piece', after, by simp, hne, hdescribes', ?_⟩
      rw [hspan', Nat.add_assoc, Nat.add_assoc, ← Text.byteLength_append,
        ← Text.byteLength_append, ← List.append_assoc (gap ++ piece)]

theorem start_lt_stop (h : Tiles o text rs) : ∀ r ∈ rs, r.span.start < r.span.stop := by
  intro r hr
  obtain ⟨before, piece, after, -, hne, -, hspan⟩ := h.exists_piece r hr
  have hpos := Text.byteLength_pos hne
  rw [hspan, Text.byteLength_append]
  show o + Text.byteLength before < o + (Text.byteLength before + Text.byteLength piece)
  omega

theorem stop_le (h : Tiles o text rs) : ∀ r ∈ rs, r.span.stop ≤ o + Text.byteLength text := by
  intro r hr
  obtain ⟨before, piece, after, rfl, -, -, hspan⟩ := h.exists_piece r hr
  rw [hspan, Text.byteLength_append (before ++ piece)]
  exact Nat.add_le_add_left (Nat.le_add_right _ _) _

theorem pairwise (h : Tiles o text rs) :
    rs.Pairwise fun r r' => r.span.stop ≤ r'.span.start := by
  induction h with
  | nil => exact .nil
  | @cons o gap piece rest r rs _ _ hspan _ htiles ih =>
    refine List.pairwise_cons.2 ⟨fun r' hr' => ?_, ih⟩
    obtain ⟨before, piece', after, -, -, -, hspan'⟩ := htiles.exists_piece r' hr'
    rw [hspan, hspan']
    exact Nat.le_add_right _ _

/-- A character that belongs to no result is white space. -/
theorem blank_or_covered (h : Tiles o text rs) : ∀ {before after : List Char} {c : Char},
    text = before ++ c :: after → Text.isBlank c = true ∨
      ∃ r ∈ rs, r.span.start ≤ o + Text.byteLength before ∧
        o + Text.byteLength (before ++ [c]) ≤ r.span.stop := by
  induction h with
  | nil hgap =>
    rintro before after c rfl
    exact .inl (hgap c (by simp))
  | @cons o gap piece rest r rs hgap hpiece hspan _ _ ih =>
    intro before after c htext
    rcases Text.mem_append_cases htext with ⟨more, hfirst⟩ | ⟨front, rfl, hrest⟩
    · rcases Text.mem_append_cases hfirst with ⟨more', rfl⟩ | ⟨front, rfl, rfl⟩
      · exact .inl (hgap c (by simp))
      · refine .inr ⟨r, List.mem_cons_self, ?_, ?_⟩
        · rw [hspan, Text.byteLength_append gap front, ← Nat.add_assoc]
          exact Nat.le_add_right _ _
        · rw [hspan, List.append_cons front, ← List.append_assoc, ← List.append_assoc,
            Text.byteLength_append (gap ++ front ++ [c])]
          exact Nat.add_le_add_left (Nat.le_add_right _ _) _
    · rcases ih hrest with hblank | ⟨r', hr', hstart, hstop⟩
      · exact .inl hblank
      · refine .inr ⟨r', List.mem_cons_of_mem _ hr', ?_, ?_⟩
        · rwa [Text.byteLength_append, ← Nat.add_assoc]
        · rwa [List.append_assoc, Text.byteLength_append, ← Nat.add_assoc]

end Tiles

namespace Lexer

theorem next_onText (o : Nat) {gap rest : List Char} (hgap : ∀ c ∈ gap, Text.isBlank c = true)
    (hrest : ∀ c ∈ rest.head?, Text.isBlank c = false) :
    (onText o (gap ++ rest)).next = (onText (o + Text.byteLength gap) rest).read ∧
      (onText o (gap ++ rest)).readings = if rest = [] then [(onText o (gap ++ rest)).next]
        else (onText o (gap ++ rest)).next :: (onText o (gap ++ rest)).next.2.readings := by
  obtain ⟨-, hskip⟩ := run_onText_word o hgap hrest
  refine ⟨by rw [next, hskip], ?_⟩
  cases rest with
  | nil => exact readings_of_none (by rw [hskip]; rfl)
  | cons c tail => exact readings_of_ne_none (by rw [hskip]; simp)

theorem read_end (o : Nat) :
    (onText o []).read = (.endAt (Span.wrap o), onText o []) := by
  show (onText o []).token (onText o []).step _ = _
  rw [step_onText_nil]
  rfl

/-- One call: the text left is white space and its end is read, or a piece behind white space is
taken. -/
theorem call_cases (o : Nat) (text : List Char) :
    ((∀ c ∈ text, Text.isBlank c = true) ∧
      (onText o text).next = (.endAt (Span.wrap (o + Text.byteLength text)),
        onText (o + Text.byteLength text) []) ∧
      (onText o text).readings = [(onText o text).next]) ∨
    ∃ gap piece rest, text = gap ++ piece ++ rest ∧ (∀ c ∈ gap, Text.isBlank c = true) ∧
      Takes (o + Text.byteLength gap) (piece ++ rest) (onText o text).next piece rest ∧
      (onText o text).readings = (onText o text).next :: (onText o text).next.2.readings := by
  have hsplit := List.takeWhile_append_dropWhile (p := Text.isBlank) (l := text)
  have hgap : ∀ c ∈ text.takeWhile Text.isBlank, Text.isBlank c = true :=
    List.all_eq_true.1 List.all_takeWhile
  have hrest : ∀ c ∈ (text.dropWhile Text.isBlank).head?, Text.isBlank c = false := by
    intro c hc
    have hnot := List.head?_dropWhile_not Text.isBlank text
    rw [Option.mem_def.1 hc] at hnot
    exact hnot
  obtain ⟨hnext, hreadings⟩ := next_onText o hgap hrest
  rw [hsplit] at hnext hreadings
  cases hahead : text.dropWhile Text.isBlank with
  | nil =>
    rw [hahead, List.append_nil] at hsplit
    rw [hsplit] at hgap hnext
    rw [hahead] at hnext hreadings
    rw [read_end] at hnext
    exact .inl ⟨hgap, hnext, hreadings⟩
  | cons c tail =>
    rw [hahead] at hsplit hnext hreadings
    obtain ⟨piece, rest, htakes⟩ :=
      takes_read (o + Text.byteLength (text.takeWhile Text.isBlank)) c tail
    refine .inr ⟨_, piece, rest, ?_, hgap, ?_, hreadings⟩
    · rw [List.append_assoc, ← htakes.text, hsplit]
    · rwa [hnext, ← htakes.text]

theorem calls_end (o later : Nat) :
    ((onText o []).calls later).map (·.1) = List.replicate later (.endAt (Span.wrap o)) := by
  induction later with
  | zero => rfl
  | succ later ih =>
    have hnext : (onText o []).next = (.endAt (Span.wrap o), onText o []) := by
      rw [next, skip_onText]
      exact read_end o
    rw [calls, List.map_cons, hnext, ih]
    rfl

/-- The readings of a text tile it, call after call, and then the end of file is read for ever. -/
theorem tiles_calls (o : Nat) (text : List Char) (hsize : o + Text.byteLength text < 4294967296) :
    ∃ init : List LexResult, Tiles o text init ∧ init.length ≤ text.length ∧
      (onText o text).readings.map (·.1) = init ++ [.endAt (o + Text.byteLength text)] ∧
      ∀ later, ((onText o text).calls (init.length + later)).map (·.1) =
        init ++ List.replicate later (.endAt (o + Text.byteLength text)) := by
  -- A reading may take any number of characters, so the induction is on the length left.
  generalize hn : text.length = n
  induction n using Nat.strongRecOn generalizing o text with
  | ind n ih =>
    rcases call_cases o text with
      ⟨hblank, hnext, hreadings⟩ | ⟨gap, piece, rest, rfl, hgap, htakes, hreadings⟩
    · rw [Span.wrap_eq hsize] at hnext
      refine ⟨[], .nil hblank, Nat.zero_le _, by rw [hreadings, hnext]; rfl, fun later => ?_⟩
      cases later with
      | zero => rfl
      | succ later =>
        rw [List.length_nil, Nat.zero_add, calls, List.map_cons, hnext, calls_end,
          Span.wrap_eq hsize]
        rfl
    · have hlength := List.length_pos_iff.2 htakes.ne_nil
      simp only [List.length_append] at hn
      rw [Text.byteLength_append, ← Nat.add_assoc] at hsize
      obtain ⟨init, htiles, hcount, hread, hcalls⟩ :=
        ih rest.length (by omega) (o + Text.byteLength (gap ++ piece)) rest hsize rfl
      have hoffset : o + Text.byteLength gap + Text.byteLength piece =
          o + Text.byteLength (gap ++ piece) := by
        rw [Text.byteLength_append, Nat.add_assoc]
      have hwindow := htakes.window
      rw [hoffset] at hwindow
      rw [Nat.add_assoc, ← Text.byteLength_append] at hread hcalls
      refine ⟨(onText o (gap ++ piece ++ rest)).next.1 :: init, ?_, ?_, ?_, fun later => ?_⟩
      · refine .cons hgap htakes.ne_nil ?_ htakes.describes htiles
        rw [htakes.span, hoffset, Span.wrap_eq (by omega), Span.wrap_eq (by omega)]
      · simp only [List.length_cons]
        omega
      · rw [hreadings, List.map_cons, hwindow, hread, List.cons_append]
      · rw [List.length_cons, Nat.add_right_comm, calls, List.map_cons, hwindow, hcalls,
          List.cons_append]

end Lexer

theorem results_tile {source : String} (hsize : source.utf8ByteSize < 4294967296) :
    ∃ init : List LexResult, Tiles 0 source.toList init ∧
      results source = init ++ [.endAt source.utf8ByteSize] := by
  obtain ⟨init, htiles, -, hreadings, -⟩ := Lexer.tiles_calls 0 source.toList
    (by rwa [Nat.zero_add, Text.byteLength_toList])
  rw [Nat.zero_add, Text.byteLength_toList, ← Lexer.ofString_eq_onText] at hreadings
  exact ⟨init, htiles, hreadings⟩

/-- The results of a source follow one another, and none but the end of file is empty. -/
theorem results_inOrder {source : String} (hsize : source.utf8ByteSize < 4294967296) :
    ((results source).Pairwise fun r r' => r.span.stop ≤ r'.span.start) ∧
      ∀ r ∈ results source, r.span.start < r.span.stop ∨ r = .endAt source.utf8ByteSize := by
  obtain ⟨init, htiles, hresults⟩ := results_tile hsize
  have hstop := htiles.stop_le
  rw [Nat.zero_add, Text.byteLength_toList] at hstop
  rw [hresults]
  constructor
  · refine List.pairwise_append.2 ⟨htiles.pairwise, List.pairwise_singleton _ _, ?_⟩
    intro r hr r' hr'
    rw [List.mem_singleton.1 hr']
    exact hstop r hr
  · intro r hr
    rcases List.mem_append.1 hr with hr | hr
    · exact .inl (htiles.start_lt_stop r hr)
    · exact .inr (List.mem_singleton.1 hr)

/-- The tokens of a source follow one another, and none but the end of file is empty. -/
theorem lex_inOrder {source : String} {toks : List (Located Token)}
    (hsize : source.utf8ByteSize < 4294967296) (h : lex source = .ok toks) :
    (toks.Pairwise fun t t' => t.span.stop ≤ t'.span.start) ∧
      ∀ t ∈ toks, t.span.start < t.span.stop ∨
        t = ⟨.endOfFile, .point source.utf8ByteSize⟩ := by
  obtain ⟨horder, hspans⟩ := results_inOrder hsize
  rw [lex_eq_ok_iff.1 h] at horder hspans
  refine ⟨List.pairwise_map.1 horder, ?_⟩
  intro t ht
  exact (hspans (.ok t) (List.mem_map_of_mem ht)).imp_right Except.ok.inj

/-- Every token has some text, and the next one starts behind it. -/
structure InOrder (ts : List (Located Token)) : Prop where
  pairwise : ts.Pairwise fun t t' => t.span.stop ≤ t'.span.start
  start_lt_stop : ∀ t ∈ ts, t.span.start < t.span.stop

theorem InOrder.sublist {ts us : List (Located Token)} (h : InOrder ts) (hsub : us.Sublist ts) :
    InOrder us :=
  ⟨h.pairwise.sublist hsub, fun t ht => h.start_lt_stop t (hsub.subset ht)⟩

/-- Calling the lexer again and again on a source below `2 ^ 32` bytes reaches the end of file after
at most one call per character, and stays there. The spans of the results before it are not empty,
lie between characters and follow one another; what is outside of them is white space; and each of
them holds the text of its token. -/
theorem calls_tile_source (source : String) (hsize : source.utf8ByteSize < 4294967296) :
    ∃ init : List LexResult, init.length ≤ source.toList.length ∧
    (∀ later, ((Lexer.ofString source).calls (init.length + later)).map (·.1) =
      init ++ List.replicate later (.ok ⟨.endOfFile, .point source.utf8ByteSize⟩)) ∧
    (∀ r ∈ init, r.span.start < r.span.stop ∧ ∃ before piece after,
      r.span.Cuts source.toList before piece after ∧ r.Describes piece after) ∧
    (init.Pairwise fun r r' => r.span.stop ≤ r'.span.start) ∧
    ∀ before c after, source.toList = before ++ c :: after → Text.isBlank c = true ∨
      ∃ r ∈ init, r.span.start ≤ Text.byteLength before ∧
        Text.byteLength (before ++ [c]) ≤ r.span.stop := by
  obtain ⟨init, htiles, hcount, -, hcalls⟩ := Lexer.tiles_calls 0 source.toList
    (by rwa [Nat.zero_add, Text.byteLength_toList])
  simp only [Nat.zero_add, Text.byteLength_toList] at hcalls
  refine ⟨init, hcount, ?_, fun r hr => ⟨htiles.start_lt_stop r hr, ?_⟩, htiles.pairwise, ?_⟩
  · rw [Lexer.ofString_eq_onText]
    exact hcalls
  · obtain ⟨before, piece, after, htext, -, hdescribes, hspan⟩ := htiles.exists_piece r hr
    rw [Nat.zero_add, Nat.zero_add] at hspan
    exact ⟨before, piece, after, ⟨htext, by rw [hspan], by rw [hspan]⟩, hdescribes⟩
  · intro before c after htext
    simpa only [Nat.zero_add] using htiles.blank_or_covered htext

/-- A name, an operator and, at the very end, a character of two bytes that starts no token: the end
of file is at byte seven, where the window counted on from that character. -/
theorem calls_tile_source_accent :
    let source := "x == é"
    ((Lexer.ofString source).calls 5).map (·.1) =
      [.ok ⟨.name "x", 0, 1⟩, .ok ⟨.equal, 2, 4⟩, .error ⟨.unrecognized 'é', 5, 7⟩,
        .ok ⟨.endOfFile, 7, 7⟩, .ok ⟨.endOfFile, 7, 7⟩] ∧
    ∃ init : List LexResult, init.length ≤ 6 ∧
      (∀ later, ((Lexer.ofString source).calls (init.length + later)).map (·.1) =
        init ++ List.replicate later (.ok ⟨.endOfFile, 7, 7⟩)) ∧
      ∀ r ∈ init, r.span.start < r.span.stop ∧ ∃ before piece after,
        r.span.Cuts source.toList before piece after ∧ r.Describes piece after := by
  intro source
  obtain ⟨init, hcount, hcalls, hpieces, -⟩ := calls_tile_source source (by decide)
  exact ⟨by cbv, init, Nat.le_trans hcount (by decide), hcalls, hpieces⟩

end CatLang
