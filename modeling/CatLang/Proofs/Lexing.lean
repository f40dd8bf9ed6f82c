import CatLang.Token.Lexer

/-! The lexer on plain text. A token's text in front of characters that cannot extend it is read
as that token again (`read_literal`), so a text made of such pieces lexes to its tokens
(`Lexes`). In the other direction, every token the lexer gives has a text of its kind. -/
namespace CatLang

namespace Text

theorem byteLength_append (a b : List Char) :
    byteLength (a ++ b) = byteLength a + byteLength b := by
  induction a with
  | nil => simp [byteLength]
  | cons c rest ih => simp only [List.cons_append, byteLength, ih, Nat.add_assoc]

theorem byteLength_toList (s : String) : byteLength s.toList = s.utf8ByteSize := by
  rw [← String.size_toByteArray, ← String.utf8Encode_toList]
  induction s.toList with
  | nil => simp [byteLength]
  | cons c rest ih =>
    rw [List.utf8Encode_cons, ByteArray.size_append, ← ih, List.utf8Encode_singleton]
    simp [byteLength]

end Text

theorem Span.wrap_eq {place : Nat} (h : place < 4294967296) : wrap place = place :=
  Nat.mod_eq_of_lt h

theorem Span.wrap_wrap (a : Nat) : wrap (wrap a) = wrap a := Nat.mod_mod a _

theorem Span.wrap_wrap_add (a b : Nat) : wrap (wrap a + b) = wrap (a + b) := Nat.mod_add_mod a _ b

namespace Lexer

/-- The window on a text whose first byte stands `start` bytes into the source. -/
def onText (start : Nat) (text : List Char) : Lexer (List (Nat × Char)) where
  position := Span.wrap start
  nextPosition := Span.wrap (start + Text.byteLength (text.take 1))
  ch := text.head?
  nextCh := text.tail.head?
  input := Text.placed (start + Text.byteLength (text.take 2)) (text.drop 2)

section OnText
variable (o : Nat) (text : List Char) (test : Char → Bool)

@[simp] theorem ch_onText : (onText o text).ch = text.head? := rfl

@[simp] theorem nextCh_onText : (onText o text).nextCh = text.tail.head? := rfl

@[simp] theorem position_onText : (onText o text).position = Span.wrap o := rfl

/-- Moving on by a character of the text: the offsets in the window and behind it stay those of the
text, also where the source has ended and they are counted on. -/
theorem step_onText (c : Char) :
    (onText o (c :: text)).step = onText (o + c.utf8Size) text := by
  rcases text with _ | ⟨d, _ | ⟨e, rest⟩⟩
  · simp [step, onText, Text.placed, Text.byteLength, CharSource.next, Span.wrap_wrap]
  · simp [step, onText, Text.placed, Text.byteLength, CharSource.next, Span.wrap_wrap_add,
      Nat.add_assoc]
  · simp [step, onText, Text.placed, Text.byteLength, CharSource.next, Nat.add_assoc]

/-- At the end of the text the window stands still. -/
theorem step_onText_nil : (onText o []).step = onText o [] := by
  simp [step, onText, Text.placed, Text.byteLength, CharSource.next, Span.wrap_wrap]

theorem ofString_eq_onText (source : String) : ofString source = onText 0 source.toList := by
  unfold ofString start
  rcases source.toList with _ | ⟨c, _ | ⟨d, rest⟩⟩
  · rfl
  · simp [step, onText, Text.placed, Text.byteLength, CharSource.next, Span.wrap]
  · simp [step, onText, Text.placed, Text.byteLength, CharSource.next]

theorem scan_onText : (onText o text).scan test =
    (text.takeWhile test,
      onText (o + Text.byteLength (text.takeWhile test)) (text.dropWhile test)) := by
  induction text generalizing o with
  | nil => exact scan_of_none rfl
  | cons c rest ih =>
    cases ht : test c with
    | true =>
      rw [scan_of_pass rfl ht, step_onText, ih]
      simp [ht, Text.byteLength, Nat.add_assoc]
    | false =>
      rw [scan_of_stop rfl ht]
      simp [ht, Text.byteLength]

theorem run_onText : (onText o text).run test = text.takeWhile test := by
  rw [run, scan_onText]

theorem skip_onText : (onText o text).skip test =
    onText (o + Text.byteLength (text.takeWhile test)) (text.dropWhile test) := by
  rw [skip, scan_onText]

end OnText

end Lexer

/-- A word that names a variable: no run of syllables, and no digit in front. -/
structure IsName (word : List Char) : Prop where
  first : ∃ c, word.head? = some c ∧ (c.isAlpha ∨ c = '_')
  chars : ∀ c ∈ word, isWordChar c = true
  notRun : Numeral.isRun word = false

/-- A run of syllables, or a fraction whose whole part may be missing. -/
inductive IsNumeral : List Char → Prop
  | whole {run : List Char} (h : Numeral.isRun run = true) : IsNumeral run
  | fraction {whole digits : List Char} (h : whole = [] ∨ Numeral.isRun whole = true)
      (hd : Numeral.isRun digits = true) : IsNumeral (whole ++ '.' :: digits)

namespace Token

/-- A token of the program's text, spelled as its kind asks. -/
def Spelled : Token → Prop
  | name text => IsName text.toList
  | number raw => IsNumeral raw.toList
  | comment | endOfFile => False
  | _ => True

/-- The character after a token that does not extend it. -/
def Apart (next : Option Char) : Token → Prop
  | name _ => ∀ c ∈ next, isWordChar c = false
  | number _ => ∀ c ∈ next, isWordChar c = false ∧ c ≠ '.'
  | slash => next ≠ some '/'
  | star => next ≠ some '*'
  | colon => next ≠ some ':'
  | assign | less | greater => next ≠ some '='
  | _ => True

end Token

theorem isWordChar_of_isRun {run : List Char} (h : Numeral.isRun run = true) :
    ∀ c ∈ run, isWordChar c = true := by
  fun_induction Numeral.isRun run with
  | case1 =>
    intro c hc
    simp only [List.mem_cons, List.not_mem_nil, or_false] at hc
    rcases hc with rfl | rfl | rfl <;> decide
  | case2 rest _ ih =>
    intro c hc
    simp only [List.mem_cons] at hc
    rcases hc with rfl | rfl | rfl | hc
    · decide
    · decide
    · decide
    · exact ih h c hc
  | case3 => simp at h

theorem head?_of_isRun {run : List Char} (h : Numeral.isRun run = true) : run.head? = some 'm' := by
  fun_induction Numeral.isRun run with
  | case1 => rfl
  | case2 => rfl
  | case3 => simp at h

theorem IsNumeral.head {raw : List Char} (h : IsNumeral raw) :
    ∃ c tail, raw = c :: tail ∧ (c = 'm' ∨ c = '.') := by
  have run {run : List Char} (h : Numeral.isRun run = true) : ∃ tail, run = 'm' :: tail :=
    List.head?_eq_some_iff.1 (head?_of_isRun h)
  rcases h with h | ⟨rfl | h, -⟩
  · obtain ⟨tail, rfl⟩ := run h
    exact ⟨'m', tail, rfl, .inl rfl⟩
  · exact ⟨'.', _, rfl, .inr rfl⟩
  · obtain ⟨tail, rfl⟩ := run h
    exact ⟨'m', _, rfl, .inl rfl⟩

theorem literal_of_pair? {c d : Char} {t : Token} (h : pair? c d = some t) :
    t.literal.toList = [c, d] := by
  unfold pair? at h
  split at h <;> cases h <;> simp [Token.literal]

theorem literal_of_single? {c : Char} {t : Token} (h : single? c = some t) :
    t.literal.toList = [c] := by
  unfold single? at h
  split at h <;> cases h <;> simp [Token.literal]

theorem Token.Apart.of_single? {c : Char} {t : Token} {next : Option Char} (ha : t.Apart next)
    (h : single? c = some t) :
    ¬(c = '/' ∧ next = some '/') ∧ next.bind (pair? c) = none := by
  rw [Option.bind_eq_none_iff]
  unfold single? at h
  split at h <;> cases h
  all_goals
    refine ⟨by simp_all [Token.Apart], fun d hd => ?_⟩
    unfold pair?
    split <;> simp_all [Token.Apart]

theorem Token.Spelled.cases {t : Token} (h : t.Spelled) :
    (∃ text, t = .name text) ∨ (∃ raw, t = .number raw) ∨ (∃ c, single? c = some t) ∨
      ∃ c d, pair? c d = some t := by
  cases t with
  | name text => exact .inl ⟨text, rfl⟩
  | number raw => exact .inr (.inl ⟨raw, rfl⟩)
  | comment => exact h.elim
  | endOfFile => exact h.elim
  | equal => exact .inr (.inr (.inr ⟨'=', '=', rfl⟩))
  | notEqual => exact .inr (.inr (.inr ⟨'!', '=', rfl⟩))
  | lessEqual => exact .inr (.inr (.inr ⟨'<', '=', rfl⟩))
  | greaterEqual => exact .inr (.inr (.inr ⟨'>', '=', rfl⟩))
  | power => exact .inr (.inr (.inr ⟨'*', '*', rfl⟩))
  | doubleColon => exact .inr (.inr (.inr ⟨':', ':', rfl⟩))
  | less => exact .inr (.inr (.inl ⟨'<', rfl⟩))
  | greater => exact .inr (.inr (.inl ⟨'>', rfl⟩))
  | plus => exact .inr (.inr (.inl ⟨'+', rfl⟩))
  | minus => exact .inr (.inr (.inl ⟨'-', rfl⟩))
  | star => exact .inr (.inr (.inl ⟨'*', rfl⟩))
  | slash => exact .inr (.inr (.inl ⟨'/', rfl⟩))
  | percent => exact .inr (.inr (.inl ⟨'%', rfl⟩))
  | tilde => exact .inr (.inr (.inl ⟨'~', rfl⟩))
  | assign => exact .inr (.inr (.inl ⟨'=', rfl⟩))
  | atSign => exact .inr (.inr (.inl ⟨'@', rfl⟩))
  | question => exact .inr (.inr (.inl ⟨'?', rfl⟩))
  | colon => exact .inr (.inr (.inl ⟨':', rfl⟩))
  | semicolon => exact .inr (.inr (.inl ⟨';', rfl⟩))
  | leftParen => exact .inr (.inr (.inl ⟨'(', rfl⟩))
  | rightParen => exact .inr (.inr (.inl ⟨')', rfl⟩))

theorem not_isBlank_of_isWordChar {c : Char} (h : isWordChar c = true) :
    Text.isBlank c = false := by
  have hc : c.toNat = 95 ∨ (48 ≤ c.toNat ∧ c.toNat ≤ 57) ∨ (65 ≤ c.toNat ∧ c.toNat ≤ 90) ∨
      (97 ≤ c.toNat ∧ c.toNat ≤ 122) := by
    unfold isWordChar Char.isAlphanum Char.isAlpha Char.isUpper Char.isLower Char.isDigit at h
    simp only [Bool.or_eq_true, decide_eq_true_eq, beq_iff_eq, Bool.and_eq_true] at h
    rcases h with ((⟨h, h'⟩ | ⟨h, h'⟩) | ⟨h, h'⟩) | rfl
    · exact .inr (.inr (.inl ⟨h, h'⟩))
    · exact .inr (.inr (.inr ⟨h, h'⟩))
    · exact .inr (.inl ⟨h, h'⟩)
    · exact .inl rfl
  rw [← Bool.not_eq_true]
  intro hb
  simp only [Text.isBlank, Text.blankRanges, Text.inRanges, Bool.and_eq_true, Bool.or_eq_true,
    decide_eq_true_eq] at hb
  omega

/-- White space, like the end of the text, extends no token. -/
theorem Token.apart_of_blank (t : Token) {next : Option Char}
    (h : ∀ c ∈ next, Text.isBlank c = true) : t.Apart next := by
  have hword : ∀ c ∈ next, isWordChar c = false := by
    intro c hc
    apply Bool.eq_false_iff.2
    intro hw
    have hb := h c hc
    rw [not_isBlank_of_isWordChar hw] at hb
    cases hb
  have hne (c : Char) (hc : Text.isBlank c = false) : next ≠ some c := by
    intro heq
    have hb := h c heq
    rw [hc] at hb
    cases hb
  cases t with
  | name text => exact hword
  | number raw =>
    intro c hc
    refine ⟨hword c hc, ?_⟩
    rintro rfl
    exact hne '.' (by decide) hc
  | slash => exact hne '/' (by decide)
  | star => exact hne '*' (by decide)
  | colon => exact hne ':' (by decide)
  | assign => exact hne '=' (by decide)
  | less => exact hne '=' (by decide)
  | greater => exact hne '=' (by decide)
  | _ => trivial

theorem Token.Spelled.head_not_blank {t : Token} (h : t.Spelled) :
    ∃ c tail, t.literal.toList = c :: tail ∧ Text.isBlank c = false := by
  rcases h.cases with ⟨text, rfl⟩ | ⟨raw, rfl⟩ | ⟨c, hs⟩ | ⟨c, d, hp⟩
  · obtain ⟨⟨c, hhead, -⟩, hchars, -⟩ := h
    obtain ⟨tail, htext⟩ := List.head?_eq_some_iff.1 hhead
    exact ⟨c, tail, htext, not_isBlank_of_isWordChar (hchars c (by simp [htext]))⟩
  · obtain ⟨c, tail, hraw, hc⟩ := h.head
    exact ⟨c, tail, hraw, by rcases hc with rfl | rfl <;> decide⟩
  · refine ⟨c, [], literal_of_single? hs, ?_⟩
    unfold single? at hs
    split at hs <;> first | decide | cases hs
  · refine ⟨c, [d], literal_of_pair? hp, ?_⟩
    unfold pair? at hp
    split at hp <;> first | decide | cases hp

theorem spelled_of_pair? {c d : Char} {t : Token} (h : pair? c d = some t) : t.Spelled := by
  unfold pair? at h
  split at h <;> cases h <;> trivial

theorem spelled_of_single? {c : Char} {t : Token} (h : single? c = some t) : t.Spelled := by
  unfold single? at h
  split at h <;> cases h <;> trivial

theorem startsWord_cases {c : Char} (h : startsWord c = true) :
    (isWordChar c = true ∧ (c.isAlpha ∨ c = '_')) ∨ c = '.' := by
  simp only [startsWord, isWordChar, Char.isAlphanum, Bool.or_eq_true, beq_iff_eq] at *
  rcases h with (h | h) | h
  · exact .inl ⟨.inl (.inl h), .inl h⟩
  · exact .inl ⟨.inr h, .inr h⟩
  · exact .inr h

namespace Lexer

variable {σ : Type} [CharSource σ] {l : Lexer σ} {c : Char} {test : Char → Bool}

theorem pass_of_mem_run {d : Char} (h : d ∈ l.run test) : test d = true := by
  revert h
  unfold run
  fun_induction scan test l with
  | case1 l hl => simp
  | case2 l c hl ht word after hscan ih =>
    intro hd
    rcases List.mem_cons.1 hd with rfl | hd
    · exact ht
    · rw [hscan] at ih
      exact ih hd
  | case3 l c hl ht => simp

theorem head?_run (h : l.ch = some c) (ht : test c = true) : (l.run test).head? = some c := by
  rw [run, scan_of_pass h ht]
  rfl

theorem run_eq_nil (h : l.ch = some c) (ht : test c = false) :
    l.run test = [] ∧ l.skip test = l := by
  rw [run, skip, scan_of_stop h ht]
  exact ⟨rfl, rfl⟩

theorem fraction_spelled {start period : Lexer σ} {whole : List Char} {t : Located Token}
    (hw : whole = [] ∨ Numeral.isRun whole = true) (h : (start.fraction whole period).1 = .ok t) :
    t.value.Spelled := by
  simp only [fraction, reject, token] at h
  split at h
  · cases h
  split at h
  · cases h
  split at h
  · cases h
  next hd _ =>
  cases h
  show IsNumeral (String.ofList _).toList
  rw [String.toList_ofList]
  exact .fraction hw (by simpa using hd)

theorem word_spelled {start : Lexer σ} {t : Located Token} (hc : start.ch = some c)
    (hs : startsWord c = true) (h : start.word.1 = .ok t) : t.value.Spelled := by
  simp only [word] at h
  rcases startsWord_cases hs with ⟨hw, hfirst⟩ | rfl
  · have hhead := head?_run hc hw
    have hne : start.run isWordChar ≠ [] := by
      intro hnil
      simp [hnil] at hhead
    split at h
    · next hn =>
      cases h
      show IsName (String.ofList _).toList
      rw [String.toList_ofList]
      exact ⟨⟨c, hhead, hfirst⟩, fun d hd => pass_of_mem_run hd, by simpa using hn.2⟩
    · next hn =>
      have hrun : Numeral.isRun (start.run isWordChar) = true := by simpa [hne] using hn
      split at h
      · exact fraction_spelled (.inr hrun) h
      · cases h
        show IsNumeral (String.ofList _).toList
        rw [String.toList_ofList]
        exact .whole hrun
  · obtain ⟨hrun, hskip⟩ := run_eq_nil hc (show isWordChar '.' = false by decide)
    rw [if_neg (by simp [hrun]), if_pos (by rw [hskip, hc])] at h
    exact fraction_spelled (.inl hrun) h

/-- What a reading can give: the end of the source only where no character is left, and elsewhere a
comment or a token spelled as its kind asks. -/
theorem read_value {t : Located Token} (h : l.read.1 = .ok t) :
    (l.ch = none ∧ t.value = .endOfFile) ∨
      (l.ch ≠ none ∧ (t.value = .comment ∨ t.value.Spelled)) := by
  unfold read at h
  split at h
  · next hc =>
    cases h
    exact .inl ⟨hc, rfl⟩
  next ch hc =>
  refine .inr ⟨by simp [hc], ?_⟩
  unfold readFrom at h
  split at h
  · cases h
    exact .inl rfl
  right
  split at h
  · next value hp =>
    cases h
    obtain ⟨d, -, hp⟩ := Option.bind_eq_some_iff.1 hp
    exact spelled_of_pair? hp
  split at h
  · next value hs =>
    cases h
    exact spelled_of_single? hs
  split at h
  · next hw => exact word_spelled hc hw h
  split at h <;> cases h

theorem run_onText_word {w rest : List Char} (o : Nat) {test : Char → Bool}
    (hw : ∀ c ∈ w, test c = true) (hr : ∀ c ∈ rest.head?, test c = false) :
    (onText o (w ++ rest)).run test = w ∧
      (onText o (w ++ rest)).skip test = onText (o + Text.byteLength w) rest := by
  have hstop : rest.takeWhile test = [] ∧ rest.dropWhile test = rest := by
    cases rest with
    | nil => simp
    | cons c tail => simp [hr c rfl]
  rw [run_onText, skip_onText, List.takeWhile_append_of_pos hw, List.dropWhile_append_of_pos hw,
    hstop.1, hstop.2, List.append_nil]
  exact ⟨rfl, rfl⟩

theorem read_onText_cons (o : Nat) (c : Char) (rest : List Char) :
    (onText o (c :: rest)).read = (onText o (c :: rest)).readFrom c := rfl

theorem read_single {c : Char} {rest : List Char} {t : Token} (o : Nat) (h : single? c = some t)
    (hc : ¬(c = '/' ∧ rest.head? = some '/')) (hp : rest.head?.bind (pair? c) = none) :
    (onText o (c :: rest)).read =
      (onText o (c :: rest)).token (onText (o + c.utf8Size) rest) t := by
  simp only [read_onText_cons, readFrom, nextCh_onText, List.tail_cons, if_neg hc, hp, h,
    step_onText]

theorem read_pair {c d : Char} {rest : List Char} {t : Token} (o : Nat) (h : pair? c d = some t) :
    (onText o (c :: d :: rest)).read =
      (onText o (c :: d :: rest)).token (onText (o + c.utf8Size + d.utf8Size) rest) t := by
  have hc : ¬(c = '/' ∧ some d = some '/') := by
    rintro ⟨rfl, -⟩
    simp [pair?] at h
  simp only [read_onText_cons, readFrom, nextCh_onText, List.tail_cons, if_neg hc, List.head?_cons,
    Option.bind_some, h, step_onText]

theorem readFrom_of_startsWord {start : Lexer σ} (h : startsWord c = true) :
    start.readFrom c = start.word := by
  have hslash : ¬(c = '/' ∧ start.nextCh = some '/') := by
    rintro ⟨rfl, -⟩
    exact absurd h (by decide)
  have hpair : start.nextCh.bind (pair? c) = none := by
    rw [Option.bind_eq_none_iff]
    intro d _
    unfold pair?
    split
    all_goals first
      | rfl
      | exact absurd h (by decide)
  have hsingle : single? c = none := by
    unfold single?
    split
    all_goals first
      | rfl
      | exact absurd h (by decide)
  simp only [readFrom, if_neg hslash, hpair, hsingle, h, ↓reduceIte]

theorem read_name {w rest : List Char} (o : Nat) (h : IsName w)
    (hr : ∀ c ∈ rest.head?, isWordChar c = false) :
    (onText o (w ++ rest)).read =
      (onText o (w ++ rest)).token (onText (o + Text.byteLength w) rest)
        (.name (String.ofList w)) := by
  obtain ⟨⟨c, hhead, hc⟩, hchars, hnotRun⟩ := h
  obtain ⟨hrun, hskip⟩ := run_onText_word o hchars hr
  obtain ⟨tail, rfl⟩ := List.head?_eq_some_iff.1 hhead
  have hs : startsWord c = true := by
    simp only [startsWord, Bool.or_eq_true, beq_iff_eq]
    exact .inl hc
  rw [List.cons_append, read_onText_cons, readFrom_of_startsWord hs, ← List.cons_append]
  simp only [word, hrun, hskip]
  rw [if_pos ⟨by simp, by simp [hnotRun]⟩]

theorem fraction_onText {digits rest : List Char} (o : Nat) (start : Lexer (List (Nat × Char))) (whole : List Char)
    (hd : Numeral.isRun digits = true) (hr : ∀ c ∈ rest.head?, isWordChar c = false ∧ c ≠ '.') :
    start.fraction whole (onText o ('.' :: digits ++ rest)) =
      start.token (onText (o + Text.byteLength ('.' :: digits)) rest)
        (.number (String.ofList (whole ++ '.' :: digits))) := by
  obtain ⟨hrun, hskip⟩ := run_onText_word (o + '.'.utf8Size) (isWordChar_of_isRun hd)
    (fun c hc => (hr c hc).1)
  have hne : digits ≠ [] := by
    rintro rfl
    simp [Numeral.isRun] at hd
  have hperiod : rest.head? ≠ some '.' := fun h => (hr '.' h).2 rfl
  simp only [fraction, List.cons_append, step_onText, hrun, hskip, ch_onText]
  rw [if_neg hne, if_neg (by simp [hd]), if_neg hperiod, Text.byteLength, Nat.add_assoc]

theorem read_number {w rest : List Char} (o : Nat) (h : IsNumeral w)
    (hr : ∀ c ∈ rest.head?, isWordChar c = false ∧ c ≠ '.') :
    (onText o (w ++ rest)).read =
      (onText o (w ++ rest)).token (onText (o + Text.byteLength w) rest)
        (.number (String.ofList w)) := by
  have hword : (onText o (w ++ rest)).read = (onText o (w ++ rest)).word := by
    obtain ⟨c, tail, rfl, hc⟩ := h.head
    rw [List.cons_append, read_onText_cons, readFrom_of_startsWord]
    rcases hc with rfl | rfl <;> decide
  rw [hword]
  cases h with
  | whole h =>
    obtain ⟨hrun, hskip⟩ := run_onText_word o (isWordChar_of_isRun h) (fun c hc => (hr c hc).1)
    have hperiod : rest.head? ≠ some '.' := fun h => (hr '.' h).2 rfl
    simp only [word, hrun, hskip, ch_onText]
    rw [if_neg (by simp [h]), if_neg hperiod]
  | @fraction whole digits h hd =>
    have hchars : ∀ c ∈ whole, isWordChar c = true := by
      rcases h with rfl | h
      · simp
      · exact isWordChar_of_isRun h
    have hperiod : ∀ c ∈ ('.' :: digits ++ rest).head?, isWordChar c = false := by
      rintro c ⟨⟩
      decide
    have hcond : ¬(whole ≠ [] ∧ (!Numeral.isRun whole) = true) := by
      rcases h with rfl | h
      · simp
      · simp [h]
    obtain ⟨hrun, hskip⟩ := run_onText_word o hchars hperiod
    simp only [word, List.append_assoc, hrun, hskip, ch_onText]
    rw [if_neg hcond, if_pos (by rfl), fraction_onText _ _ _ hd hr, Text.byteLength_append,
      Nat.add_assoc]

/-- A token's text is read as the token, whatever follows that does not extend it. -/
theorem read_literal {t : Token} {rest : List Char} (o : Nat) (h : t.Spelled)
    (hr : t.Apart rest.head?) :
    (onText o (t.literal.toList ++ rest)).read =
      (onText o (t.literal.toList ++ rest)).token
        (onText (o + Text.byteLength t.literal.toList) rest) t := by
  rcases h.cases with ⟨text, rfl⟩ | ⟨raw, rfl⟩ | ⟨c, hs⟩ | ⟨c, d, hp⟩
  · simpa [Token.literal] using read_name o h hr
  · simpa [Token.literal] using read_number o h hr
  · obtain ⟨hc, hp⟩ := hr.of_single? hs
    rw [literal_of_single? hs]
    exact read_single o hs hc hp
  · rw [literal_of_pair? hp]
    simp only [Text.byteLength, ← Nat.add_assoc, Nat.add_zero]
    exact read_pair o hp

theorem readings_of_none (h : (l.skip Text.isBlank).ch = none) : l.readings = [l.next] := by
  rw [readings]
  exact if_pos h

theorem readings_of_ne_none (h : (l.skip Text.isBlank).ch ≠ none) :
    l.readings = l.next :: l.next.2.readings := by
  rw [readings]
  exact if_neg h

/-- The readings end with the end of file, which is nowhere else among them. -/
theorem readings_eq (l : Lexer σ) :
    ∃ init place, l.readings.map (·.1) = init ++ [.ok ⟨.endOfFile, place⟩] ∧
      ∀ t, .ok t ∈ init → t.value = .comment ∨ t.value.Spelled := by
  fun_induction readings l with
  | case1 l hnone =>
    refine ⟨[], ⟨(l.skip Text.isBlank).position, (l.skip Text.isBlank).step.position⟩, ?_, by simp⟩
    rw [List.map_singleton, next, read, hnone]
    rfl
  | case2 l hmore ih =>
    obtain ⟨init, place, hinit, hspelled⟩ := ih
    refine ⟨l.next.1 :: init, place, by rw [List.map_cons, hinit, List.cons_append], ?_⟩
    intro t ht
    rcases List.mem_cons.1 ht with hread | ht
    · rcases read_value hread.symm with ⟨hnone, -⟩ | ⟨-, hvalue⟩
      · exact absurd hnone hmore
      · exact hvalue
    · exact hspelled t ht

theorem readings_nil (o : Nat) :
    (onText o []).readings = [((.ok ⟨.endOfFile, .point (Span.wrap o)⟩), onText o [])] := by
  have hskip : (onText o []).skip Text.isBlank = onText o [] := skip_onText o [] _
  rw [readings_of_none (by rw [hskip]; rfl), next, hskip]
  show [(onText o []).token (onText o []).step _] = _
  rw [step_onText_nil]
  rfl

theorem readings_blank (o : Nat) (text : List Char) (h : Text.isBlank c = true) :
    (onText o (c :: text)).readings = (onText (o + c.utf8Size) text).readings := by
  have hskip : (onText o (c :: text)).skip Text.isBlank =
      (onText (o + c.utf8Size) text).skip Text.isBlank := by
    simp [skip_onText, h, Text.byteLength, Nat.add_assoc]
  rw [readings, next, hskip, ← next, ← readings]

theorem readings_cons (o : Nat) (text : List Char) (h : Text.isBlank c = false) :
    (onText o (c :: text)).readings =
      (onText o (c :: text)).read :: (onText o (c :: text)).read.2.readings := by
  have hskip : (onText o (c :: text)).skip Text.isBlank = onText o (c :: text) := by
    simp [skip_onText, h, Text.byteLength]
  rw [readings_of_ne_none (by rw [hskip]; simp), next, hskip]

end Lexer

/-- A text behind so many spaces. -/
def Text.indented (count : Nat) (text : String) : String :=
  String.ofList (List.replicate count ' ' ++ text.toList)

theorem Lexer.readings_indented (o count : Nat) (text : List Char) :
    (onText o (List.replicate count ' ' ++ text)).readings = (onText (o + count) text).readings := by
  induction count generalizing o with
  | zero => rfl
  | succ count ih =>
    have hsize : (' ' : Char).utf8Size = 1 := rfl
    rw [List.replicate_succ, List.cons_append, readings_blank o _ (by decide), hsize, ih,
      Nat.add_right_comm, Nat.add_assoc]

/-- Spaces move the results, and offsets start again from zero after the last one. -/
theorem results_indented (count : Nat) (text : String) :
    results (Text.indented count text) = (Lexer.onText count text.toList).readings.map (·.1) := by
  rw [results, Lexer.ofString_eq_onText, Text.indented, String.toList_ofList,
    Lexer.readings_indented, Nat.zero_add]

/-- The end of file is the last result and no other. -/
theorem results_eq (source : String) :
    ∃ init place, results source = init ++ [.ok ⟨.endOfFile, place⟩] ∧
      ∀ t, .ok t ∈ init → t.value = .comment ∨ t.value.Spelled :=
  (Lexer.ofString source).readings_eq

theorem LexResult.tokens_eq_ok_iff {rs : List LexResult} {ts : List (Located Token)} :
    LexResult.tokens rs = .ok ts ↔ rs = ts.map .ok := by
  induction rs generalizing ts with
  | nil => cases ts <;> simp [tokens]
  | cons r rs ih =>
    cases r with
    | error e => cases ts <;> simp [tokens]
    | ok t =>
      have hcons : tokens (.ok t :: rs) = .ok ts ↔ ∃ us, tokens rs = .ok us ∧ t :: us = ts := by
        cases h : tokens rs <;> simp [tokens, h, Except.map]
      rw [hcons]
      constructor
      · rintro ⟨us, hus, rfl⟩
        rw [ih.1 hus, List.map_cons]
      · intro h
        cases ts with
        | nil => simp at h
        | cons t' us =>
          obtain ⟨ht, hus⟩ := List.cons.inj h
          cases ht
          exact ⟨us, ih.2 hus, rfl⟩

theorem lex_eq_ok_iff {source : String} {ts : List (Located Token)} :
    lex source = .ok ts ↔ results source = ts.map .ok :=
  LexResult.tokens_eq_ok_iff

/-- Results without an error that end with a token are tokens that end with it. -/
theorem LexResult.exists_concat_of_map_ok {ts : List (Located Token)} {init : List LexResult}
    {t : Located Token} (h : ts.map .ok = init ++ [.ok t]) :
    ∃ us, ts = us ++ [t] ∧ init = us.map .ok := by
  obtain ⟨us, last, rfl, rfl, hlast⟩ := List.map_eq_append_iff.1 h
  obtain ⟨t', rfl, ht⟩ := List.map_eq_singleton_iff.1 hlast
  cases ht
  exact ⟨us, rfl, rfl⟩

/-- From any place on, a text lexes to the tokens `ts` and then goes on with `rest`. -/
def Lexes (text : List Char) (ts : List Token) (rest : List Char) : Prop :=
  ∀ o, ∃ (located : List (Located Token)) (o' : Nat), located.map (·.value) = ts ∧
    (Lexer.onText o text).readings.map (·.1) =
      located.map .ok ++ (Lexer.onText o' rest).readings.map (·.1)

namespace Lexes

theorem refl (text : List Char) : Lexes text [] text := fun o => ⟨[], o, rfl, rfl⟩

theorem trans {a b c : List Char} {ts us : List Token} (h : Lexes a ts b) (h' : Lexes b us c) :
    Lexes a (ts ++ us) c := by
  intro o
  obtain ⟨located, o', hts, hreadings⟩ := h o
  obtain ⟨located', o'', hus, hreadings'⟩ := h' o'
  refine ⟨located ++ located', o'', ?_, ?_⟩
  · rw [List.map_append, hts, hus]
  · rw [hreadings, hreadings', List.map_append, List.append_assoc]

theorem blank {c : Char} (rest : List Char) (h : Text.isBlank c = true) :
    Lexes (c :: rest) [] rest := by
  intro o
  refine ⟨[], o + c.utf8Size, rfl, ?_⟩
  rw [Lexer.readings_blank o rest h]
  rfl

theorem token {t : Token} {rest : List Char} (h : t.Spelled) (hr : t.Apart rest.head?) :
    Lexes (t.literal.toList ++ rest) [t] rest := by
  intro o
  have hread := Lexer.read_literal o h hr
  refine ⟨[⟨t, Span.wrap o, Span.wrap (o + Text.byteLength t.literal.toList)⟩],
    o + Text.byteLength t.literal.toList, rfl, ?_⟩
  obtain ⟨c, tail, htext, hb⟩ := h.head_not_blank
  rw [htext, List.cons_append] at hread ⊢
  rw [Lexer.readings_cons o _ hb, hread]
  rfl

/-- A text that lexes to its end gives its tokens and the end of file. -/
theorem results_eq {source : String} {ts : List Token} (h : Lexes source.toList ts []) :
    ∃ (located : List (Located Token)) (place : Span), located.map (·.value) = ts ∧
      results source = (located ++ [(⟨.endOfFile, place⟩ : Located Token)]).map .ok := by
  obtain ⟨located, o, hts, hreadings⟩ := h 0
  refine ⟨located, .point (Span.wrap o), hts, ?_⟩
  rw [results, Lexer.ofString_eq_onText, hreadings, Lexer.readings_nil, List.map_append]
  rfl

end Lexes

end CatLang
