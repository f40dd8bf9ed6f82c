import CatLang.Proofs.Numerals
import CatLang.Proofs.Rounding

/-! Numerals mean their syllable counts. Every number the lexer reads is a run of syllables, or two
runs with a period between them, in one way only, and no name is. The value of a run is its count,
and that of two runs is what the decimal text of their counts is rounded to. -/
namespace CatLang

namespace Numeral

/-- The ways to write a number. -/
inductive Form where
  | whole (count : Nat) (h : 1 ≤ count)
  | fraction (whole digits : Nat) (h : 1 ≤ digits)

def Form.text : Form → List Char
  | whole a _ => encode a
  | fraction a b _ => encode a ++ '.' :: encode b

theorem isNumeral_iff_form {raw : List Char} : IsNumeral raw ↔ ∃ f : Form, raw = f.text := by
  rw [isNumeral_iff]
  constructor
  · rintro (⟨a, ha, rfl⟩ | ⟨a, b, hb, rfl⟩)
    · exact ⟨.whole a ha, rfl⟩
    · exact ⟨.fraction a b hb, rfl⟩
  · rintro ⟨f, rfl⟩
    cases f with
    | whole a ha => exact .inl ⟨a, ha, rfl⟩
    | fraction a b hb => exact .inr ⟨a, b, hb, rfl⟩

theorem syllables_encode (n : Nat) : syllables (encode n) = n := by
  have hlength : Text.byteLength (encode n) = 3 * n := by
    induction n with
    | zero => rfl
    | succ n ih =>
      rw [encode_succ]
      simp only [Text.byteLength, ih]
      show 1 + (1 + (1 + 3 * n)) = 3 * (n + 1)
      omega
  unfold syllables
  omega

theorem ne_period_of_mem_encode {n : Nat} : ∀ c ∈ encode n, (c != '.') = true := by
  induction n with
  | zero => simp
  | succ n ih =>
    rw [encode_succ]
    simpa using ih

/-! A period splits a numeral where the first run ends. -/

theorem takeWhile_encode (n : Nat) : (encode n).takeWhile (· != '.') = encode n :=
  List.takeWhile_eq_self_iff.2 ne_period_of_mem_encode

theorem dropWhile_encode (n : Nat) : (encode n).dropWhile (· != '.') = [] :=
  List.dropWhile_eq_nil_iff.2 ne_period_of_mem_encode

theorem takeWhile_fraction (n : Nat) (rest : List Char) :
    (encode n ++ '.' :: rest).takeWhile (· != '.') = encode n := by
  rw [List.takeWhile_append_of_pos ne_period_of_mem_encode, List.takeWhile_cons_of_neg (by decide),
    List.append_nil]

theorem dropWhile_fraction (n : Nat) (rest : List Char) :
    (encode n ++ '.' :: rest).dropWhile (· != '.') = '.' :: rest := by
  rw [List.dropWhile_append_of_pos ne_period_of_mem_encode, List.dropWhile_cons_of_neg (by decide)]

theorem decode_encode (n : Nat) : decode (encode n) = Float.ofNat n := by
  unfold decode
  rw [dropWhile_encode, syllables_encode]

theorem decode_fraction (a b : Nat) : decode (encode a ++ '.' :: encode b) = decimal a b := by
  unfold decode
  rw [dropWhile_fraction, takeWhile_fraction, syllables_encode]
  show decimal a (syllables ((encode b).takeWhile (· != '.'))) = _
  rw [takeWhile_encode, syllables_encode]

/-- The counts of a numeral, read back off its text. -/
theorem text_injective {f g : Form} (h : f.text = g.text) : f = g := by
  have hcut := congrArg (List.dropWhile (· != '.')) h
  have hfront := congrArg (fun word => syllables (word.takeWhile (· != '.'))) h
  cases f with
  | whole a ha =>
    cases g with
    | whole a' ha' =>
      simp only [Form.text, takeWhile_encode, syllables_encode] at hfront
      subst hfront
      rfl
    | fraction a' b' hb' =>
      simp only [Form.text, dropWhile_encode, dropWhile_fraction] at hcut
      cases hcut
  | fraction a b hb =>
    cases g with
    | whole a' ha' =>
      simp only [Form.text, dropWhile_encode, dropWhile_fraction] at hcut
      cases hcut
    | fraction a' b' hb' =>
      simp only [Form.text, takeWhile_fraction, syllables_encode] at hfront
      simp only [Form.text, dropWhile_fraction, List.cons.injEq, true_and] at hcut
      have hback := congrArg syllables hcut
      rw [syllables_encode, syllables_encode] at hback
      subst hfront hback
      rfl

end Numeral

/-! Decimal text. -/
namespace Decimal

/-- The number that a decimal text stands for: digits, a point and digits. -/
def value? (text : List Char) : Option ℚ :=
  let whole := text.takeWhile Char.isDigit
  match text.dropWhile Char.isDigit with
  | '.' :: digits =>
    if whole ≠ [] ∧ digits ≠ [] ∧ digits.all Char.isDigit then
      some ((Nat.ofDigitChars 10 whole 0 : ℚ) +
        (Nat.ofDigitChars 10 digits 0 : ℚ) / (10 ^ digits.length : ℕ))
    else none
  | _ => none

theorem value?_toDigits (a b : Nat) :
    value? (Nat.toDigits 10 a ++ '.' :: Nat.toDigits 10 b) =
      some ((a : ℚ) + (b : ℚ) / (10 ^ (Nat.toDigits 10 b).length : ℕ)) := by
  have hdigits (n : Nat) : ∀ c ∈ Nat.toDigits 10 n, c.isDigit = true := fun c hc =>
    Nat.isDigit_of_mem_toDigits (by decide) (by decide) hc
  have hall : (Nat.toDigits 10 b).all Char.isDigit = true := List.all_eq_true.2 (hdigits b)
  have hpoint : ¬ '.'.isDigit = true := by decide
  unfold value?
  rw [List.takeWhile_append_of_pos (hdigits a), List.dropWhile_append_of_pos (hdigits a),
    List.takeWhile_cons_of_neg hpoint, List.dropWhile_cons_of_neg hpoint, List.append_nil]
  simp only [Nat.toDigits_ne_nil, hall, ne_eq, not_false_eq_true, and_self, if_true,
    Nat.ofDigitChars_ten_toDigits]

end Decimal

theorem Numeral.pow_length_toDigits_le {n : Nat} (hn : 1 ≤ n) :
    10 ^ (Nat.toDigits 10 n).length ≤ 10 * n := by
  obtain ⟨k, hk⟩ := Nat.exists_eq_succ_of_ne_zero (Nat.length_toDigits_pos (b := 10) (n := n)).ne'
  have hleading : 10 ^ k ≤ n := by
    rcases Nat.eq_zero_or_pos k with rfl | hpos
    · rwa [pow_zero]
    · have hlong := Nat.length_toDigits_le_iff (n := n) (b := 10) (by decide) hpos
      omega
  rw [hk, pow_succ']
  exact Nat.mul_le_mul_left 10 hleading

/-- The first digit of a fraction is not zero, so it is never too small to be rounded well. -/
theorem Numeral.rounds_decimal (a : Nat) {b : Nat} (hb : 1 ≤ b) :
    Value.Rounds ((a : ℚ) + (b : ℚ) / (10 ^ (Nat.toDigits 10 b).length : ℕ)) (decimal a b) := by
  have hleading := pow_length_toDigits_le hb
  have hplaces : 0 < (Nat.toDigits 10 b).length := Nat.length_toDigits_pos
  unfold decimal
  generalize (Nat.toDigits 10 b).length = places at hleading hplaces ⊢
  have hpower : ((10 ^ places : ℕ) : ℚ) ≠ 0 := by positivity
  have hvalue : (a : ℚ) + (b : ℚ) / (10 ^ places : ℕ) =
      (a * 10 ^ places + b : ℕ) / (10 ^ places : ℕ) := by
    rw [Nat.cast_add, Nat.cast_mul, add_div, mul_div_cancel_right₀ _ hpower]
  rw [hvalue]
  apply Value.rounds_ofScientific _ hplaces
  · omega
  · omega

/-- What the lexer gives is spelled as its kind asks, comments and the end apart. -/
theorem Lexer.spelled_of_mem_readings {σ : Type} [CharSource σ] {l : Lexer σ} {t : Located Token}
    (h : .ok t ∈ l.readings.map (·.1)) (hend : t.value ≠ .endOfFile)
    (hcomment : t.value ≠ .comment) : t.value.Spelled := by
  obtain ⟨init, place, hreadings, hspelled⟩ := l.readings_eq
  rw [hreadings, List.mem_append, List.mem_singleton] at h
  rcases h with h | h
  · exact (hspelled t h).resolve_left hcomment
  · cases h
    exact absurd rfl hend

namespace Numeral

theorem Form.ne_of_isName {word : List Char} (h : IsName word) (f : Form) : word ≠ f.text := by
  rintro rfl
  cases f with
  | whole a ha => exact (isName_iff.1 h).2.2 a rfl
  | fraction a b hb =>
    have hperiod := h.chars '.' (List.mem_append_right _ List.mem_cons_self)
    revert hperiod
    decide

/-- A numeral that is the whole source is read as that number. -/
theorem Form.mem_results (f : Form) :
    ∃ place, .ok ⟨.number (String.ofList f.text), place⟩ ∈ results (String.ofList f.text) := by
  have hspelled : (Token.number (String.ofList f.text)).Spelled := by
    show IsNumeral (String.ofList f.text).toList
    rw [String.toList_ofList, isNumeral_iff_form]
    exact ⟨f, rfl⟩
  have hlexes : Lexes ((String.ofList f.text).toList ++ [])
      [.number (String.ofList f.text)] [] := by
    apply Lexes.token hspelled
    intro c hc
    cases hc
  rw [List.append_nil] at hlexes
  obtain ⟨located, place, hvalues, hresults⟩ := hlexes.results_eq
  obtain ⟨t, rfl, ht⟩ := List.map_eq_singleton_iff.1 hvalues
  refine ⟨t.span, ?_⟩
  rw [hresults, ← ht]
  exact List.mem_cons_self

/-- Runs, the lexer's numbers and names, and the values of numerals agree on one format. -/
theorem mean_counts :
    (∀ word, isRun word = true ↔ ∃ n, 1 ≤ n ∧ word = encode n) ∧
    (∀ (σ : Type) [CharSource σ] (l : Lexer σ) (t : Located Token), .ok t ∈ l.readings.map (·.1) →
      (∀ raw, t.value = .number raw → ∃! f : Form, raw.toList = f.text) ∧
      ∀ text, t.value = .name text → ∀ f : Form, text.toList ≠ f.text) ∧
    (∀ f : Form, ∃ place,
      .ok ⟨.number (String.ofList f.text), place⟩ ∈ results (String.ofList f.text)) ∧
    (∀ n : Nat, decode (encode n) = Float.ofNat n ∧ Value.Rounds n (decode (encode n)) ∧
      (n ≤ 2 ^ 53 → (decode (encode n)).number? = some (n : ℚ))) ∧
    ∀ a b : Nat, 1 ≤ b →
      ∃ q, Decimal.value? (Nat.toDigits 10 a ++ '.' :: Nat.toDigits 10 b) = some q ∧
        Value.Rounds q (decode (encode a ++ '.' :: encode b)) := by
  refine ⟨fun word => isRun_iff, fun σ _ l t ht => ⟨fun raw hraw => ?_, fun text htext => ?_⟩,
    fun f => f.mem_results, fun n => ?_, fun a b hb => ?_⟩
  · have hspelled := Lexer.spelled_of_mem_readings ht (by rw [hraw]; simp) (by rw [hraw]; simp)
    rw [hraw] at hspelled
    obtain ⟨f, hf⟩ := isNumeral_iff_form.1 hspelled
    exact ⟨f, hf, fun g hg => text_injective (hg.symm.trans hf)⟩
  · have hspelled := Lexer.spelled_of_mem_readings ht (by rw [htext]; simp) (by rw [htext]; simp)
    rw [htext] at hspelled
    exact Form.ne_of_isName hspelled
  · rw [decode_encode]
    exact ⟨rfl, Value.rounds_ofNat n, Value.number?_ofNat⟩
  · rw [decode_fraction]
    exact ⟨_, Decimal.value?_toDigits a b, rounds_decimal a hb⟩

/-- A word one letter longer than a run is a name, and `2.3` is not a double itself. -/
theorem mean_counts_name_and_fraction :
    let source := "mewm = mewmew.mewmewmew;"
    let raw := "mewmew.mewmewmew"
    (.ok ⟨.name "mewm", 0, 4⟩ ∈ results source ∧ ∀ f : Form, "mewm".toList ≠ f.text) ∧
    (.ok ⟨.number raw, 7, 23⟩ ∈ results source ∧ ∃! f : Form, raw.toList = f.text) ∧
    (12 ≤ 2 ^ 53 ∧ (decode (encode 12)).number? = some ((12 : Nat) : ℚ)) ∧
    1 ≤ 3 ∧ ∃ q, Decimal.value? "2.3".toList = some q ∧ Value.Rounds q (decode raw.toList) := by
  intro source raw
  have hresults : results source = [.ok ⟨.name "mewm", 0, 4⟩, .ok ⟨.assign, 5, 6⟩,
      .ok ⟨.number raw, 7, 23⟩, .ok ⟨.semicolon, 23, 24⟩, .ok ⟨.endOfFile, 24, 24⟩] := by
    cbv
  have hname : .ok ⟨.name "mewm", 0, 4⟩ ∈ results source := by simp [hresults]
  have hnumber : .ok ⟨.number raw, 7, 23⟩ ∈ results source := by simp [hresults]
  have htext : "2.3".toList = Nat.toDigits 10 2 ++ '.' :: Nat.toDigits 10 3 := by decide
  have hraw : raw.toList = encode 2 ++ '.' :: encode 3 := by decide
  obtain ⟨-, htokens, -, hwhole, hfraction⟩ := mean_counts
  refine ⟨⟨hname, (htokens _ _ _ hname).2 _ rfl⟩, ⟨hnumber, (htokens _ _ _ hnumber).1 _ rfl⟩,
    ⟨by decide, (hwhole 12).2.2 (by decide)⟩, by decide, ?_⟩
  rw [htext, hraw]
  exact hfraction 2 3 (by decide)

end Numeral

end CatLang
