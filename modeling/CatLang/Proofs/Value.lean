import Mathlib
import CatLang.Value

/-! Values through the parts of their bits: a double is compared part by part, and a finite one has
a significand of at most 53 bits. -/
namespace CatLang.Value
open Float.Model (UnpackedFloat)

theorem parts_one : (1 : Value).parts = .finite .positive 4503599627370496 (-52) (by decide) :=
  rfl

theorem toFloat_one : (1 : UInt64).toFloat = (1 : Value) := by rfl

theorem le_iff_parts {a b : Value} : a ≤ b ↔ a.parts.le b.parts = true := by
  show decide (a.toModel ≤ b.toModel) = true ↔ _
  rw [decide_eq_true_iff]
  rfl

/-- A significand has at most 53 bits. -/
theorem mantissa_lt {v : Value} {sign : UnpackedFloat.Sign} {mantissa : Nat} {exponent : Int}
    {hpos : 0 < mantissa} (h : v.parts = .finite sign mantissa exponent hpos) :
    mantissa < 2 ^ 53 := by
  unfold parts Float.Model.unpack UnpackedFloat.unpack at h
  dsimp only at h
  split at h
  · split at h <;> cases h
  split at h
  · split at h
    · cases h
    · cases h
      exact Nat.lt_of_lt_of_le (BitVec.isLt _) (by decide)
  · cases h
    exact BitVec.isLt _

end CatLang.Value

namespace CatLang

/-! The text of a number is made of characters of one byte each. -/

theorem Text.utf8Size_of_isDigit {c : Char} (h : c.isDigit = true) : c.utf8Size = 1 := by
  rw [Char.isDigit, Bool.and_eq_true, decide_eq_true_eq, decide_eq_true_eq] at h
  rw [Char.utf8Size_eq_one_iff]
  exact UInt32.le_trans h.2 (by decide)

namespace Decimal.Scientific

theorem utf8Size_of_mem_positional {s : Scientific} {c : Char} (h : c ∈ s.positional.toList) :
    c.utf8Size = 1 := by
  have hdigits : ∀ c ∈ Nat.toDigits 10 s.coefficient, c.utf8Size = 1 := fun c hc =>
    Text.utf8Size_of_isDigit (Nat.isDigit_of_mem_toDigits (by decide) (by decide) hc)
  have hzeros : ∀ n, ∀ c ∈ List.replicate n '0', c.utf8Size = 1 := by
    intro n c hc
    rw [List.eq_of_mem_replicate hc]
    rfl
  unfold positional at h
  dsimp only at h
  split at h
  · rw [String.toList_ofList, List.mem_append] at h
    exact h.elim (hdigits c) (hzeros _ c)
  · rw [String.toList_ofList, List.mem_append, List.mem_cons] at h
    have hpadded : ∀ n, ∀ c ∈ List.replicate n '0' ++ Nat.toDigits 10 s.coefficient,
        c.utf8Size = 1 := fun n c hc => (List.mem_append.1 hc).elim (hzeros n c) (hdigits c)
    rcases h with h | rfl | h
    · exact hpadded _ c (List.mem_of_mem_take h)
    · rfl
    · exact hpadded _ c (List.mem_of_mem_drop h)

end Decimal.Scientific

theorem Value.utf8Size_of_mem_text {v : Value} {c : Char} (h : c ∈ v.text.toList) :
    c.utf8Size = 1 := by
  have hsign : ∀ sign, ∀ c ∈ (Value.signText sign).toList, c.utf8Size = 1 := by
    intro sign
    cases sign <;> simp [Value.signText, Char.utf8Size]
  have hnames : ∀ name ∈ ["NaN", "inf", "0"], ∀ c ∈ name.toList, c.utf8Size = 1 := by
    simp [Char.utf8Size]
  unfold Value.text at h
  split at h
  · exact hnames "NaN" (by simp) c h
  all_goals rw [String.toList_append, List.mem_append] at h
  · exact h.elim (hsign _ c) (hnames "inf" (by simp) c)
  · exact h.elim (hsign _ c) (hnames "0" (by simp) c)
  · exact h.elim (hsign _ c) Decimal.Scientific.utf8Size_of_mem_positional

end CatLang
