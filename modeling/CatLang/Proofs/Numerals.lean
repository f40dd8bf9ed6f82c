import CatLang.Proofs.Lexing

/-! Runs of syllables by their count. A word is a run exactly if it is some number of syllables, not
none; so the words the lexer takes for numerals, and those it takes for names, can be told without
reading them syllable by syllable. -/
namespace CatLang

namespace Numeral

@[simp] theorem encode_zero : encode 0 = [] := rfl

theorem encode_succ (n : Nat) : encode (n + 1) = 'm' :: 'e' :: 'w' :: encode n := rfl

theorem isRun_encode (n : Nat) : isRun (encode (n + 1)) = true := by
  induction n with
  | zero => rfl
  | succ n ih =>
    rw [encode_succ] at ih ⊢
    exact ih

theorem isRun_iff {word : List Char} : isRun word = true ↔ ∃ n, 1 ≤ n ∧ word = encode n := by
  constructor
  · intro h
    fun_induction isRun word with
    | case1 => exact ⟨1, Nat.le_refl 1, rfl⟩
    | case2 rest _ ih =>
      obtain ⟨n, -, hrest⟩ := ih h
      refine ⟨n + 1, Nat.le_add_left 1 n, ?_⟩
      rw [encode_succ, hrest]
    | case3 => cases h
  · rintro ⟨n, hn, rfl⟩
    obtain ⟨k, rfl⟩ := Nat.exists_eq_add_of_le' hn
    exact isRun_encode k

/-- A run that may have no syllables. -/
theorem nil_or_isRun_iff {word : List Char} :
    word = [] ∨ isRun word = true ↔ ∃ n, word = encode n := by
  rw [isRun_iff]
  constructor
  · rintro (rfl | ⟨n, -, rfl⟩)
    · exact ⟨0, rfl⟩
    · exact ⟨n, rfl⟩
  · rintro ⟨n, rfl⟩
    cases n with
    | zero => exact .inl rfl
    | succ n => exact .inr ⟨n + 1, Nat.le_add_left 1 n, rfl⟩

end Numeral

open Numeral (encode isRun_iff nil_or_isRun_iff)

theorem isNumeral_iff {raw : List Char} : IsNumeral raw ↔
    (∃ a, 1 ≤ a ∧ raw = encode a) ∨ ∃ a b, 1 ≤ b ∧ raw = encode a ++ '.' :: encode b := by
  constructor
  · rintro (hrun | ⟨hwhole, hdigits⟩)
    · exact .inl (isRun_iff.1 hrun)
    · obtain ⟨a, rfl⟩ := nil_or_isRun_iff.1 hwhole
      obtain ⟨b, hb, rfl⟩ := isRun_iff.1 hdigits
      exact .inr ⟨a, b, hb, rfl⟩
  · rintro (hrun | ⟨a, b, hb, rfl⟩)
    · exact .whole (isRun_iff.2 hrun)
    · exact .fraction (nil_or_isRun_iff.2 ⟨a, rfl⟩) (isRun_iff.2 ⟨b, hb, rfl⟩)

theorem isName_iff {word : List Char} : IsName word ↔
    (∃ c, word.head? = some c ∧ (c.isAlpha ∨ c = '_')) ∧
      (∀ c ∈ word, c.isAlphanum ∨ c = '_') ∧ ∀ n, word ≠ encode n := by
  have hchars : (∀ c ∈ word, isWordChar c = true) ↔ ∀ c ∈ word, c.isAlphanum ∨ c = '_' := by
    simp [isWordChar]
  constructor
  · rintro ⟨hfirst, hword, hnotRun⟩
    refine ⟨hfirst, hchars.1 hword, fun n heq => ?_⟩
    rcases nil_or_isRun_iff.2 ⟨n, heq⟩ with rfl | hrun
    · obtain ⟨c, hc, -⟩ := hfirst
      cases hc
    · rw [hrun] at hnotRun
      cases hnotRun
  · rintro ⟨hfirst, hword, hnot⟩
    refine ⟨hfirst, hchars.2 hword, Bool.eq_false_iff.2 fun hrun => ?_⟩
    obtain ⟨n, -, heq⟩ := isRun_iff.1 hrun
    exact hnot n heq

end CatLang
