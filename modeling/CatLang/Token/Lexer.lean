import CatLang.Numeral
import CatLang.Text.Blank
import CatLang.Text.Quoted
import CatLang.Token.Error
import CatLang.Token.Source

/-! The lexer. It sees two characters of its source at a time. White space is skipped,
two-character operators come before their one-character beginnings, and a word of whole syllables is
a number. Every reading before the end uses up characters (`Lexer.left_read_lt`), which is why a
source has finitely many. -/
namespace CatLang

/-- Letters, digits and the underscore of ASCII make words. -/
def isWordChar (c : Char) : Bool := c.isAlphanum || c == '_'

/-- Words and fractions start with a letter, an underscore or a period. -/
def startsWord (c : Char) : Bool := c.isAlpha || c == '_' || c == '.'

def pair? : Char → Char → Option Token
  | '*', '*' => some .power
  | ':', ':' => some .doubleColon
  | '=', '=' => some .equal
  | '!', '=' => some .notEqual
  | '<', '=' => some .lessEqual
  | '>', '=' => some .greaterEqual
  | _, _ => none

def single? : Char → Option Token
  | '/' => some .slash
  | '*' => some .star
  | ':' => some .colon
  | '=' => some .assign
  | '<' => some .less
  | '>' => some .greater
  | '+' => some .plus
  | '-' => some .minus
  | '%' => some .percent
  | '~' => some .tilde
  | '@' => some .atSign
  | '?' => some .question
  | ';' => some .semicolon
  | '(' => some .leftParen
  | ')' => some .rightParen
  | _ => none

/-- The character here and the one after it, with their offsets, and the source behind them. -/
structure Lexer (σ : Type) where
  position : Nat
  nextPosition : Nat
  ch : Option Char
  nextCh : Option Char
  input : σ

namespace Lexer
variable {σ : Type} [CharSource σ]

/-- Moves the window on by a character. When the source gives none, the offset after the window is
counted on from the character that was last in it. -/
def step (l : Lexer σ) : Lexer σ :=
  match CharSource.next l.input with
  | (some (offset, c), input) => ⟨l.nextPosition, offset, l.nextCh, some c, input⟩
  | (none, input) =>
    ⟨l.nextPosition, Span.wrap (l.nextPosition + (l.nextCh.map Char.utf8Size).getD 0), l.nextCh,
      none, input⟩

def start (input : σ) : Lexer σ := step (step ⟨0, 0, none, none, input⟩)

def ofString (source : String) : Lexer (List (Nat × Char)) := start (Text.placed 0 source.toList)

/-- At most so many characters are still to be read. -/
def left (l : Lexer σ) : Nat :=
  CharSource.size l.input + l.nextCh.isSome.toNat + l.ch.isSome.toNat

theorem left_step_le (l : Lexer σ) : l.step.left ≤ l.left := by
  have hle := CharSource.size_next_le l.input
  unfold step left
  split
  · next offset c input hnext =>
    have hlt := CharSource.size_next_lt (congrArg Prod.fst hnext)
    simp only [hnext, Option.isSome_some, Bool.toNat_true] at hlt ⊢
    omega
  · next input hnext =>
    simp only [hnext, Option.isSome_none, Bool.toNat_false] at hle ⊢
    omega

theorem left_step_lt {l : Lexer σ} {c : Char} (h : l.ch = some c) : l.step.left < l.left := by
  have hle := CharSource.size_next_le l.input
  unfold step left
  rw [h]
  split
  · next offset c input hnext =>
    have hlt := CharSource.size_next_lt (congrArg Prod.fst hnext)
    simp only [hnext, Option.isSome_some, Bool.toNat_true] at hlt ⊢
    omega
  · next input hnext =>
    simp only [hnext, Option.isSome_none, Option.isSome_some, Bool.toNat_false,
      Bool.toNat_true] at hle ⊢
    omega

/-- The longest run of characters that pass the test, and the window behind it. -/
def scan (test : Char → Bool) (l : Lexer σ) : List Char × Lexer σ :=
  match _h : l.ch with
  | none => ([], l)
  | some c =>
    if test c then
      let (word, after) := scan test l.step
      (c :: word, after)
    else ([], l)
termination_by l.left
decreasing_by exact left_step_lt (by assumption)

section Scan
variable {l : Lexer σ} {c : Char} {test : Char → Bool}

theorem scan_of_none (h : l.ch = none) : l.scan test = ([], l) := by
  rw [scan]
  split
  · rfl
  · next d hd => cases h.symm.trans hd

theorem scan_of_pass (h : l.ch = some c) (ht : test c = true) :
    l.scan test = (c :: (l.step.scan test).1, (l.step.scan test).2) := by
  rw [scan]
  split
  · next hd => cases h.symm.trans hd
  · next d hd =>
    cases h.symm.trans hd
    rw [if_pos ht]

theorem scan_of_stop (h : l.ch = some c) (ht : test c = false) : l.scan test = ([], l) := by
  rw [scan]
  split
  · next hd => cases h.symm.trans hd
  · next d hd =>
    cases h.symm.trans hd
    rw [ht]
    rfl

end Scan

def run (l : Lexer σ) (test : Char → Bool) : List Char := (l.scan test).1

def skip (l : Lexer σ) (test : Char → Bool) : Lexer σ := (l.scan test).2

def token (start stop : Lexer σ) (value : Token) : LexResult × Lexer σ :=
  (.ok ⟨value, start.position, stop.position⟩, stop)

def reject (start stop : Lexer σ) (cause : LexCause) : LexResult × Lexer σ :=
  (.error ⟨cause, start.position, stop.position⟩, stop)

def fraction (start : Lexer σ) (whole : List Char) (period : Lexer σ) : LexResult × Lexer σ :=
  let digits := period.step.run isWordChar
  let after := period.step.skip isWordChar
  if digits = [] then start.reject after .missingFraction
  else if !Numeral.isRun digits then start.reject after .malformedFraction
  else if after.ch = some '.' then
    start.reject (after.skip fun c => c == '.' || c.isAlphanum) .severalPeriods
  else start.token after (.number (String.ofList (whole ++ '.' :: digits)))

def word (start : Lexer σ) : LexResult × Lexer σ :=
  let whole := start.run isWordChar
  let after := start.skip isWordChar
  if whole ≠ [] ∧ !Numeral.isRun whole then start.token after (.name (String.ofList whole))
  else if after.ch = some '.' then start.fraction whole after
  else start.token after (.number (String.ofList whole))

def readFrom (start : Lexer σ) (c : Char) : LexResult × Lexer σ :=
  if c = '/' ∧ start.nextCh = some '/' then start.token (start.skip (· != '\n')) .comment
  else match start.nextCh.bind (pair? c) with
    | some value => start.token start.step.step value
    | none =>
      match single? c with
      | some value => start.token start.step value
      | none =>
        if startsWord c then start.word
        else if c.isDigit then start.reject start.step (.digit c)
        else start.reject start.step (.unrecognized c)

def read (start : Lexer σ) : LexResult × Lexer σ :=
  match start.ch with
  | none => start.token start.step .endOfFile
  | some c => start.readFrom c

def next (l : Lexer σ) : LexResult × Lexer σ := (l.skip Text.isBlank).read

/-- The first `count` readings, going on after errors and after the end. -/
def calls : Nat → Lexer σ → List (LexResult × Lexer σ)
  | 0, _ => []
  | count + 1, l => l.next :: calls count l.next.2

theorem left_skip_le (l : Lexer σ) (test : Char → Bool) : (l.skip test).left ≤ l.left := by
  unfold skip
  fun_induction scan test l with
  | case1 l h => exact Nat.le_refl _
  | case2 l c h ht word after hscan ih =>
    rw [hscan] at ih
    exact Nat.le_trans ih (left_step_le l)
  | case3 l c h ht => exact Nat.le_refl _

theorem left_skip_lt {l : Lexer σ} {c : Char} {test : Char → Bool} (h : l.ch = some c)
    (ht : test c = true) : (l.skip test).left < l.left := by
  have hskip : l.skip test = l.step.skip test := by rw [skip, scan_of_pass h ht, skip]
  rw [hskip]
  exact Nat.lt_of_le_of_lt (left_skip_le l.step test) (left_step_lt h)

theorem left_fraction_lt (start : Lexer σ) {period : Lexer σ} {c : Char} (whole : List Char)
    (h : period.ch = some c) : (start.fraction whole period).2.left < period.left := by
  have hperiod := left_step_lt h
  have hdigits := left_skip_le period.step isWordChar
  have hmore := left_skip_le (period.step.skip isWordChar) fun c => c == '.' || c.isAlphanum
  simp only [fraction, reject, token]
  split
  · simp only; omega
  split
  · simp only; omega
  split <;> simp only <;> omega

theorem left_word_lt {start : Lexer σ} {c : Char} (h : start.ch = some c)
    (hw : startsWord c = true) : start.word.2.left < start.left := by
  by_cases hd : c = '.'
  · subst hd
    have hscan : start.scan isWordChar = ([], start) := scan_of_stop h (by decide)
    have hword : start.word = start.fraction [] start := by
      simp [word, run, skip, hscan, h]
    rw [hword]
    exact left_fraction_lt start [] h
  · have ht : isWordChar c = true := by
      simp only [startsWord, isWordChar, Char.isAlphanum, Bool.or_eq_true, beq_iff_eq] at *
      rcases hw with (hw | hw) | hw
      · simp [hw]
      · simp [hw]
      · exact absurd hw hd
    have hlt := left_skip_lt h ht
    simp only [word]
    split
    · exact hlt
    split
    · next hperiod => exact Nat.lt_trans (left_fraction_lt _ _ hperiod) hlt
    · exact hlt

/-- Before the end of the source a reading uses up at least one character. -/
theorem left_read_lt {l : Lexer σ} (h : l.ch ≠ none) : l.read.2.left < l.left := by
  unfold read
  split
  · next hnone => exact absurd hnone h
  next c h =>
  have hone := left_step_lt h
  have htwo := Nat.lt_of_le_of_lt (left_step_le l.step) hone
  unfold readFrom
  split
  · next hs => exact left_skip_lt h (by simp [hs.1])
  split
  · exact htwo
  split
  · exact hone
  split
  · next hw => exact left_word_lt h hw
  split
  · exact hone
  · exact hone

theorem left_read_le (l : Lexer σ) : l.read.2.left ≤ l.left := by
  by_cases h : l.ch = none
  · unfold read
    rw [h]
    exact left_step_le l
  · exact Nat.le_of_lt (left_read_lt h)

theorem left_next_le (l : Lexer σ) : l.next.2.left ≤ l.left :=
  Nat.le_trans (left_read_le _) (left_skip_le l Text.isBlank)

theorem left_next_lt {l : Lexer σ} {t : Located Token} (h : l.next.1 = .ok t)
    (ht : t.value ≠ .endOfFile) : l.next.2.left < l.left := by
  refine Nat.lt_of_lt_of_le (left_read_lt fun hnone => ?_) (left_skip_le l Text.isBlank)
  unfold next read at h
  rw [hnone] at h
  cases h
  exact ht rfl

/-- Every reading up to the first end of file, with the window after it. -/
def readings (l : Lexer σ) : List (LexResult × Lexer σ) :=
  if (l.skip Text.isBlank).ch = none then [l.next] else l.next :: l.next.2.readings
termination_by l.left
decreasing_by exact Nat.lt_of_lt_of_le (left_read_lt (by assumption)) (left_skip_le l Text.isBlank)

def shown : Option Char → String
  | none => "None"
  | some c => "Some(" ++ Text.quoteChar c ++ ")"

def report (l : Lexer σ) : String :=
  "Lexer \x7b\n\tposition: " ++ toString l.position ++ ",\n\tnext_position: "
    ++ toString l.nextPosition ++ ",\n\tch: " ++ shown l.ch ++ ", next_ch: "
    ++ shown l.nextCh ++ "\n\x7d"

end Lexer

namespace LexResult

def tokens : List LexResult → Except LexError (List (Located Token))
  | [] => .ok []
  | .error e :: _ => .error e
  | .ok t :: rest => (tokens rest).map (t :: ·)

end LexResult

/-- The results the lexer gives for a source, errors kept in place. -/
def results (source : String) : List LexResult :=
  (Lexer.ofString source).readings.map (·.1)

/-- The tokens of a source with the end of file as the last one, or its first error. -/
def lex (source : String) : Except LexError (List (Located Token)) :=
  LexResult.tokens (results source)

end CatLang
